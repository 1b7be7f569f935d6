import WarehousePG.ShareInput.SliceMoves

namespace WarehousePG.ShareInput

open Framework View Slice Node Pc
open Option (ite_none_right_eq_some ite_none_left_eq_some bind_eq_some_iff map_eq_some_iff some)

section

variable {n : Nat} {v : View} {a : Act}

def Pc.releasing : Pc → Option Nat
  | .release k _ => some k
  | _ => none

namespace State

/-- When the producer slice gives up its last reference, no slice is in the middle of squelching a
node. -/
def Orderly (n : Nat) (s : State) (a : Nat × Act) : Prop :=
  a=(0, .advance) → ∀ k∈(s.slices 0).pc.releasing,
    (∀ j<(s.slices 0).numNodes, j≠k → (s.slices 0).nodes j=.ended) →
    ∀ i≤n, (s.slices i).pc.squelching=false

instance (n : Nat) (s : State) (a : Nat × Act) : Decidable (s.Orderly n a) :=
  inferInstanceAs (Decidable (_ → _))

end State

/-- What the squelching of nodes leaves for the last participant to do. -/
structure Clean (n : Nat) (s : State) : Prop where
  gone : (s.slices 0).Finished → (∀ i≤n, (s.slices i).refs=0) → s.entry=none
  calm : (s.slices 0).Finished → ∀ i, 0 < i → i≤n → (s.slices i).pc.squelching=false

theorem View.act_refcount (hw : v.act n i a=some w) (he : w.entry=some e') (hzero : e'.refcount=0) :
    (∃ e, v.entry=some e ∧ e.refcount=0) ∨ ∃ k, v.slice.pc=.release k true := by
  have hsame (h : w.entry=v.entry) : ∃ e, v.entry=some e ∧ e.refcount=0 := ⟨e',h ▸ he,hzero⟩
  have hkept (e : XsliceState) (hv : v.entry=some e)
      (h : ∀ x, w.entry=some x → x.refcount=e.refcount) : ∃ e, v.entry=some e ∧ e.refcount=0 :=
    ⟨e,hv,h e' he ▸ hzero⟩
  cases a with
  | initNode k =>
    obtain ⟨-,rfl⟩ := of_guard hw
    cases he
    exact absurd hzero (by simp [getShareinputReference])
  | advance =>
    simp only [act,advance] at hw
    generalize hp : v.slice.pc=pc at hw
    cases pc with
    | idle => cases hw
    | materialize k =>
      cases hw
      exact .inl (hsame rfl)
    | waitReady k prepared =>
      obtain ⟨e,hv,rfl⟩ := map_eq_some_iff.mp hw
      refine .inl (hkept e hv ?_)
      intro x hx
      split at hx
      · cases hx
        rfl
      · split at hx
        · rw [some.inj (hv.symm.trans hx)]
        · cases hx
          rfl
    | waitDone k =>
      obtain ⟨e,hv,rfl⟩ := map_eq_some_iff.mp hw
      refine .inl (hkept e hv ?_)
      intro x hx
      split at hx
      · rw [some.inj (hv.symm.trans hx)]
      · cases hx
        rfl
    | sleepReady k | sleepDone k =>
      obtain ⟨e,hv,hw⟩ := bind_eq_some_iff.mp hw
      obtain ⟨-,hw⟩ := ite_none_left_eq_some.mp hw
      cases hw
      exact .inl (hkept e hv fun x hx => by rw [← some.inj hx])
    | prepareDone k =>
      obtain ⟨e,hv,hw⟩ := bind_eq_some_iff.mp hw
      obtain ⟨-,rfl⟩ := of_guard hw
      exact .inl (hkept e hv fun x hx => by rw [← some.inj hx])
    | release k sq =>
      obtain ⟨e,hv,rfl⟩ := map_eq_some_iff.mp hw
      dsimp only [releaseShareinputReference] at he
      split at he
      · cases he
      · next hkeep =>
        cases he
        cases sq with
        | true => exact .inr ⟨k,rfl⟩
        | false => exact absurd ⟨rfl,hzero⟩ hkeep
    | _ =>
      obtain ⟨e,hv,rfl⟩ := map_eq_some_iff.mp hw
      exact .inl (hkept e hv fun x hx => by rw [← some.inj hx])
  | _ =>
    obtain ⟨-,rfl⟩ := of_guard hw
    exact .inl (hsame rfl)

/-- The producer slice is finished by giving up its last reference. -/
theorem View.act_finished (hw : v.act n 0 a=some w) (hok : ProducerOk v.slice)
    (hfns : w.slice.Finished) :
    v.slice.Finished ∨ a=.advance ∧ ∃ k, v.slice.pc=.release k false ∧ k<v.slice.numNodes ∧
      (v.slice.nodes k).hasRef=true ∧ ∀ j<v.slice.numNodes, j≠k → v.slice.nodes j=.ended := by
  have hset (x : Node) (k : Nat) (hx : x≠.ended) (hk : k<v.slice.numNodes)
      (hnodes : w.slice.nodes=(v.slice.setNode k x).nodes)
      (hnum : w.slice.numNodes=v.slice.numNodes) : False := by
    have := hfns k (hnum ▸ hk)
    rw [hnodes,setNode_nodes_self] at this
    exact hx this
  have hsame (hnodes : w.slice.nodes=v.slice.nodes) (hnum : w.slice.numNodes=v.slice.numNodes) :
      v.slice.Finished := by
    intro k hk
    rw [← hnodes]
    exact hfns k (hnum ▸ hk)
  have hinit (k : Nat) (hk : k<v.slice.numNodes)
      (hslc : w.slice=v.slice.initTuplestoreState true k) : v.slice.Finished := by
    unfold initTuplestoreState at hslc
    split at hslc
    · exact (hset .reading k (by simp) hk (by rw [hslc]) (by rw [hslc]; rfl)).elim
    · rw [if_pos rfl] at hslc
      exact hsame (by rw [hslc]) (by rw [hslc])
  cases a with
  | initNode k =>
    obtain ⟨⟨-,hk,-⟩,rfl⟩ := of_guard hw
    exact (hset .fresh k (by simp) hk rfl rfl).elim
  | run | finish =>
    obtain ⟨-,rfl⟩ := of_guard hw
    exact .inl (hsame rfl rfl)
  | execNode k =>
    obtain ⟨⟨-,-,hk,-⟩,hw⟩ := ite_none_right_eq_some.mp hw
    left
    by_cases hrdg : v.slice.nodes k=.reading
    · cases hw
      simp only [execShareInputScan,if_pos hrdg] at hfns
      exact hfns
    · apply hinit k hk
      rw [← some.inj hw]
      exact if_neg hrdg
  | squelchNode k =>
    obtain ⟨⟨-,-,hk,-⟩,hw⟩ := ite_none_right_eq_some.mp hw
    left
    by_cases hrdy : v.slice.ready=true
    · cases hw
      simp only [execSquelchShareInputScan,hrdy,decide_true,if_true] at hfns
      exact hfns
    · apply hinit k hk
      rw [← some.inj hw]
      simp [execSquelchShareInputScan,hrdy]
  | endNode k =>
    obtain ⟨⟨hph,-,hk,hnode⟩,hw⟩ := ite_none_right_eq_some.mp hw
    left
    have href : (v.slice.nodes k).hasRef=true := by
      have hallw := hok.nodes k hk
      rw [hph] at hallw
      rcases hallw with hx | hx | hx
      · simp [hx,hasRef]
      · simp [hx,hasRef]
      · exact absurd hx hnode
    by_cases hrdy : v.slice.ready=true
    · cases hw
      simp only [execEndShareInputScan,href,hrdy,decide_true,if_true] at hfns
      exact hfns
    · apply hinit k hk
      rw [← some.inj hw]
      simp [execEndShareInputScan,href,hrdy]
  | advance =>
    have hpc := hok.pc
    simp only [act,advance] at hw
    generalize hp : v.slice.pc=pc at hw hpc
    cases pc with
    | idle => cases hw
    | materialize k =>
      cases hw
      exact .inl (hsame rfl rfl)
    | notifyReady k =>
      obtain ⟨e,hv,rfl⟩ := map_eq_some_iff.mp hw
      exact .inl (hsame rfl rfl)
    | broadcastReady k =>
      obtain ⟨e,hv,rfl⟩ := map_eq_some_iff.mp hw
      exact (hset .reading k (by simp) hpc.2.1 rfl rfl).elim
    | prepareDone k =>
      obtain ⟨e,hv,hw⟩ := bind_eq_some_iff.mp hw
      obtain ⟨-,rfl⟩ := of_guard hw
      exact .inl (hsame rfl rfl)
    | waitDone k =>
      obtain ⟨e,hv,rfl⟩ := map_eq_some_iff.mp hw
      left
      apply hsame
      · split <;> rfl
      · split <;> rfl
    | sleepDone k =>
      obtain ⟨e,hv,hw⟩ := bind_eq_some_iff.mp hw
      obtain ⟨-,hw⟩ := ite_none_left_eq_some.mp hw
      cases hw
      exact .inl (hsame rfl rfl)
    | release k sq =>
      obtain ⟨rfl,-,hk,href,-⟩ := hpc
      obtain ⟨e,hv,rfl⟩ := map_eq_some_iff.mp hw
      refine .inr ⟨rfl,k,rfl,hk,href,?_⟩
      intro j hj hjk
      have := hfns j hj
      exact (setNode_nodes_of_ne hjk).symm.trans this
    | _ => exact hpc.elim

attribute [local simp] squelching

theorem View.act_squelching (hi : 0 < i) (hw : v.act n i a=some w)
    (hsq : w.slice.pc.squelching=true) :
    v.slice.pc.squelching=true ∨ v.slice.phase=.running ∧ v.slice.pc=.idle ∧
      ∃ k<v.slice.numNodes, (v.slice.nodes k).hasRef=true := by
  have hprod : decide (i=0)=false := decide_eq_false (ne_of_gt hi)
  cases a with
  | initNode k | run | finish =>
    obtain ⟨-,rfl⟩ := of_guard hw
    exact .inl hsq
  | squelchNode k =>
    obtain ⟨⟨hph,hidle,hk,href⟩,-⟩ := ite_none_right_eq_some.mp hw
    exact .inr ⟨hph,hidle,k,hk,href⟩
  | execNode k =>
    obtain ⟨⟨-,hidle,-,-⟩,rfl⟩ := of_guard hw
    rw [hprod] at hsq
    unfold execShareInputScan initTuplestoreState at hsq
    split at hsq
    · exact .inl hsq
    · split at hsq
      · exact .inl hsq
      · exact absurd hsq (by simp)
  | endNode k =>
    obtain ⟨⟨-,hidle,-,-⟩,rfl⟩ := of_guard hw
    rw [hprod] at hsq
    unfold execEndShareInputScan at hsq
    split at hsq
    · rw [if_neg (by simp)] at hsq
      split at hsq <;> exact absurd hsq (by simp)
    · exact .inl hsq
  | advance =>
    simp only [act,advance] at hw
    left
    generalize hp : v.slice.pc=pc at hw
    cases pc with
    | idle => cases hw
    | materialize k =>
      cases hw
      exact hsq
    | broadcastReady k =>
      obtain ⟨e,hv,rfl⟩ := map_eq_some_iff.mp hw
      simp only [setReady] at hsq
      split at hsq <;> exact hsq
    | waitReady k prepared =>
      obtain ⟨e,hv,rfl⟩ := map_eq_some_iff.mp hw
      split at hsq
      · simp only [setReady] at hsq
        split at hsq <;> exact hsq
      · split at hsq <;> exact hsq
    | waitDone k =>
      obtain ⟨e,hv,rfl⟩ := map_eq_some_iff.mp hw
      split at hsq <;> exact hsq
    | sleepReady k | sleepDone k =>
      obtain ⟨e,hv,hw⟩ := bind_eq_some_iff.mp hw
      obtain ⟨-,hw⟩ := ite_none_left_eq_some.mp hw
      cases hw
      exact hsq
    | prepareDone k =>
      obtain ⟨e,hv,hw⟩ := bind_eq_some_iff.mp hw
      obtain ⟨-,rfl⟩ := of_guard hw
      exact hsq
    | notifyDone k sq =>
      obtain ⟨e,hv,rfl⟩ := map_eq_some_iff.mp hw
      split at hsq <;> exact hsq
    | _ =>
      obtain ⟨e,hv,rfl⟩ := map_eq_some_iff.mp hw
      first
        | exact hsq
        | exact absurd hsq (by simp)

namespace Clean

open State

/-- No step leaves the entry behind when all slices are done. -/
theorem step {a : Nat × Act} (hc : Clean n s) (h : Inv n s) (horderly : s.Orderly n a)
    (ht : s.step n a=some t) : Clean n t := by
  have hnext : Inv n t := h.step ht
  obtain ⟨i,a⟩ := a
  obtain ⟨hin,v,hv,rfl⟩ := of_guard_map ht
  -- the producer was through before the step, or gives up its last reference in it
  have hbef (hfns : ((s.store i v).slices 0).Finished) : (s.slices 0).Finished ∨
      i=0 ∧ a=.advance ∧ ∃ k, (s.slices 0).pc=.release k false ∧ k<(s.slices 0).numNodes ∧
        ((s.slices 0).nodes k).hasRef=true ∧
        ∀ j<(s.slices 0).numNodes, j≠k → (s.slices 0).nodes j=.ended := by
    obtain hzero | hpos := Nat.eq_zero_or_pos i
    · subst hzero
      rw [store_slices_self] at hfns
      rcases act_finished hv h.producer hfns with hx | ⟨ha,k,hk⟩
      · exact .inl hx
      · exact .inr ⟨rfl,ha,k,hk⟩
    · rw [store_slices_of_ne (ne_of_lt hpos)] at hfns
      exact .inl hfns
  constructor
  case calm =>
    intro hfns j hj hjn
    rcases hbef hfns with hfin | ⟨rfl,rfl,k,hk,-,-,hoth⟩
    · by_cases hji : j=i
      · subst hji
        rw [store_slices_self]
        by_contra hsq
        rcases act_squelching hj hv (by simpa using hsq) with hx | ⟨hph,hidle,k,hk,href⟩
        · cases hx.symm.trans (hc.calm hfin j hj hjn)
        · -- the producer has waited for this slice, so no node of it reads
          have hpassed : (s.slices 0).Passed :=
            ⟨0,h.producer.nonempty,.inl (hfin 0 h.producer.nonempty)⟩
          have hstop := (h.consumer j hj hjn).stopped (h.passed hpassed j hj hjn)
          rcases hstop with hx | ⟨-,hall⟩
          · cases hph.symm.trans hx
          · rcases hall k hk with hx | hx | hx
            · rw [show ((s.view j).slice.nodes k)=.squelched from hx] at href
              exact absurd href (by simp [hasRef])
            · cases hidle.symm.trans hx
            · cases hidle.symm.trans hx
      · rw [store_slices_of_ne hji]
        exact hc.calm hfin j hj hjn
    · rw [store_slices_of_ne (ne_of_gt hj)]
      exact horderly rfl k (by rw [hk]; rfl) hoth j hjn
  case gone =>
    intro hfns hrefs
    by_contra hsome
    obtain ⟨e',he'⟩ := Option.ne_none_iff_exists'.mp hsome
    have hzero : e'.refcount=0 := by
      have hsum := (hnext.entry e' he').refs
      have hnull : sumUpTo (n+1) (s.store i v).slices (fun c => (c.refs : Int))=
          sumUpTo (n+1) (s.store i v).slices fun _ => 0 := by
        apply sumUpTo_congr
        intro j hj
        rw [hrefs j (Nat.le_of_lt_succ hj)]
        rfl
      rw [hnull] at hsum
      simpa [sumUpTo,total] using hsum
    rcases act_refcount hv he' hzero with ⟨e,he,hcnt⟩ | ⟨k,hk⟩
    · have hnone := h.refs_eq_zero he hcnt
      rcases hbef hfns with hfin | ⟨rfl,-,k,-,hk,href,-⟩
      · cases he.symm.trans (hc.gone hfin hnone)
      · have := tally_eq_zero.mp (hnone 0 (Nat.zero_le n)) k hk
        cases href.symm.trans this
    · obtain hz | hpos := Nat.eq_zero_or_pos i
      · subst hz
        have hpc := h.producer.pc
        rw [show (s.slices 0).pc=.release k true from hk] at hpc
        cases hpc.1
      · rcases hbef hfns with hfin | ⟨hz,-⟩
        · have hcalm := hc.calm hfin i hpos hin
          rw [show (s.slices i).pc=.release k true from hk] at hcalm
          exact absurd hcalm (by simp)
        · exact absurd hz (ne_of_gt hpos)

end Clean

end

open State Nat

variable {n i : Nat} {s : State}

def State.Waiting (s : State) (i : Nat) : Prop :=
  (∃ k, (s.slices i).pc=.sleepReady k ∨ (s.slices i).pc=.sleepDone k) ∧
    ∃ e, s.entry=some e ∧ i∈e.waiters

def State.Enabled (n : Nat) (s : State) (i : Nat) : Prop := ∃ a, (s.step n (i, a)).isSome=true

theorem State.enabled_of_act (hi : i≤n) (h : (s.view i).act n i a=some v) : s.Enabled n i := by
  refine ⟨a,?_⟩
  simp [step,hi,h]

theorem State.advance_enabled (hi : i≤n) (he : s.entry=some e) (hpc : (s.slices i).pc≠.idle)
    (hwait : ¬s.Waiting i) (hrdy : ∀ k, (s.slices i).pc=.prepareDone k → e.ready=true) :
    s.Enabled n i := by
  have hmem (k : Nat) (h : (s.slices i).pc=.sleepReady k ∨ (s.slices i).pc=.sleepDone k) :
      i∉e.waiters := fun hmem => hwait ⟨⟨k,h⟩,e,he,hmem⟩
  refine ⟨.advance,?_⟩
  simp only [step,if_pos hi,Option.isSome_map,View.act,View.advance,view,he]
  cases hp : (s.slices i).pc with
  | idle => exact absurd hp hpc
  | sleepReady k => simp [hmem k (.inl hp)]
  | sleepDone k => simp [hmem k (.inr hp)]
  | prepareDone k => simp [hrdy k hp]
  | _ => rfl

variable {numNodes : Nat → Nat}

namespace Inv

theorem idle_enabled (hin : i≤n) (hunf : ¬(s.slices i).Finished)
    (hidle : (s.slices i).pc=.idle) (hrunn : (s.slices i).phase≠.running) : s.Enabled n i := by
  cases hph : (s.slices i).phase with
  | starting =>
    by_cases hall : ∀ k<(s.slices i).numNodes, (s.slices i).nodes k≠.uninit
    · exact enabled_of_act (a := .run) hin (if_pos ⟨hph,hall⟩)
    · obtain ⟨k,hk,hnode⟩ : ∃ k<(s.slices i).numNodes, (s.slices i).nodes k=.uninit := by
        simpa using hall
      exact enabled_of_act (a := .initNode k) hin (if_pos ⟨hph,hk,hnode⟩)
  | running => exact absurd hph hrunn
  | ending =>
    obtain ⟨k,hk,hnode⟩ : ∃ k<(s.slices i).numNodes, (s.slices i).nodes k≠.ended := by
      simpa [Slice.Finished] using hunf
    exact enabled_of_act (a := .endNode k) hin (if_pos ⟨hph,hidle,hk,hnode⟩)

theorem producer_enabled (h : Inv n s) (hunf : ¬(s.slices 0).Finished)
    (hwait : ¬s.Waiting 0) : s.Enabled n 0 := by
  have hok := h.producer
  have hpc := hok.pc
  by_cases hidle : (s.slices 0).pc=.idle
  · by_cases hph : (s.slices 0).phase=.running
    · exact enabled_of_act (a := .finish) (zero_le n) (if_pos ⟨hph,hidle,.inl (by simp)⟩)
    · exact idle_enabled (zero_le n) hunf hidle hph
  · -- in the code for a node the process holds a reference
    have href : ∃ k<(s.slices 0).numNodes, ((s.slices 0).nodes k).hasRef=true := by
      generalize (s.slices 0).pc=pc at hpc hidle
      cases pc with
      | idle => exact absurd rfl hidle
      | release k sq => exact ⟨k,hpc.2.2.1,hpc.2.2.2.1⟩
      | materialize k | notifyReady k | broadcastReady k | prepareDone k | waitDone k
      | sleepDone k => exact ⟨k,hpc.2.1,hpc.2.2.1⟩
      | _ => exact hpc.elim
    obtain ⟨k,hk,href⟩ := href
    obtain ⟨e,he⟩ := h.entry_of_ref (zero_le n) hk href
    apply advance_enabled (zero_le n) he hidle hwait
    intro j hj
    rw [hj] at hpc
    exact (h.entry e he).ready.mpr (.inl hpc.2.2.2)

theorem consumer_enabled (h : Inv n s) (hi : 0 < i) (hin : i≤n)
    (hunf : ¬(s.slices i).Finished) (hwait : ¬s.Waiting i) : s.Enabled n i := by
  have hok := h.consumer i hi hin
  have hpc := hok.pc
  by_cases hidle : (s.slices i).pc=.idle
  · by_cases hph : (s.slices i).phase=.running
    · by_cases hall : ∀ k<(s.slices i).numNodes,
          (s.slices i).nodes k=.reading ∨ (s.slices i).nodes k=.squelched
      · exact enabled_of_act (a := .finish) hin (if_pos ⟨hph,hidle,.inr hall⟩)
      · -- a node that has not read yet can
        obtain ⟨k,hk,hnode⟩ : ∃ k<(s.slices i).numNodes,
            ¬((s.slices i).nodes k=.reading ∨ (s.slices i).nodes k=.squelched) := by
          simpa using hall
        have hallw := hok.nodes k hk
        rw [hph] at hallw
        have href : ((s.slices i).nodes k).hasRef=true := by
          rw [hallw.resolve_right hnode]
          rfl
        exact enabled_of_act (a := .execNode k) hin (if_pos ⟨hph,hidle,hk,href⟩)
    · exact idle_enabled hin hunf hidle hph
  · have href : ∃ k<(s.slices i).numNodes, ((s.slices i).nodes k).hasRef=true := by
      generalize (s.slices i).pc=pc at hpc hidle
      cases pc with
      | idle => exact absurd rfl hidle
      | waitReady k _ | sleepReady k => exact ⟨k,hpc.2.1,by rw [hpc.2.2]; rfl⟩
      | notifyDone k _ | broadcastDone k _ | release k _ => exact ⟨k,hpc.2.1,hpc.2.2.1⟩
      | _ => exact hpc.elim
    obtain ⟨k,hk,href⟩ := href
    obtain ⟨e,he⟩ := h.entry_of_ref hin hk href
    apply advance_enabled hin he hidle hwait
    intro j hj
    rw [hj] at hpc
    exact hpc.elim

theorem open_of_waiting (h : Inv n s) (hi : 0 < i) (hin : i≤n) (hwait : s.Waiting i) :
    ∃ k, (s.slices i).pc=.sleepReady k ∧ (s.slices i).closed=false := by
  have hok := h.consumer i hi hin
  have hpc := hok.pc
  obtain ⟨⟨k,hat | hat⟩,-⟩ := hwait
  · refine ⟨k,hat,?_⟩
    rw [hat] at hpc
    obtain ⟨hph,hk,hfresh⟩ := hpc
    by_contra hcl
    rcases hok.stopped (by simpa using hcl) with hx | ⟨-,hall⟩
    · cases hph.symm.trans hx
    · rcases hall k hk with hx | hx | hx
      · cases hfresh.symm.trans hx
      · cases hat.symm.trans hx
      · cases hat.symm.trans hx
  · rw [hat] at hpc
    exact hpc.elim

/-- Some unfinished slice can always move. -/
theorem progress (h : Inv n s) (hsome : ∃ i≤n, ¬(s.slices i).Finished) :
    ∃ i≤n, ¬(s.slices i).Finished ∧ ¬s.Waiting i ∧ s.Enabled n i := by
  by_cases hfin : (s.slices 0).Finished
  · -- the consumer slices are all counted as done, so none of them waits
    obtain ⟨i,hin,hunf⟩ := hsome
    have hi : 0 < i := by
      apply Nat.pos_of_ne_zero
      rintro rfl
      exact hunf hfin
    have hpass : (s.slices 0).Passed :=
      ⟨0,h.producer.nonempty,.inl (hfin 0 h.producer.nonempty)⟩
    have hwait : ¬s.Waiting i := by
      intro hw
      obtain ⟨k,-,hopen⟩ := h.open_of_waiting hi hin hw
      cases hopen.symm.trans (h.passed hpass i hi hin)
    exact ⟨i,hin,hunf,hwait,h.consumer_enabled hi hin hunf hwait⟩
  · by_cases hwait : s.Waiting 0
    · obtain ⟨⟨k,hat | hat⟩,e,he,hmem⟩ := hwait
      · have hpc := h.producer.pc
        rw [hat] at hpc
        exact hpc.elim
      · have hent := h.entry e he
        have hpc := h.producer.pc
        rw [hat] at hpc
        have hrdy : e.ready=true := hent.ready.mpr (.inl hpc.2.2.2)
        -- nobody waits for the tuplestore any more
        have hawk (i : Nat) (hi : 0 < i) (hin : i≤n) : ¬s.Waiting i := by
          intro hw
          obtain ⟨j,hj,-⟩ := h.open_of_waiting hi hin hw
          obtain ⟨-,e',he',hmem'⟩ := hw
          obtain rfl := Option.some.inj (he.symm.trans he')
          obtain ⟨m,hm⟩ := hent.asleep i hin j hj hmem' hrdy
          cases hat.symm.trans hm
        by_cases hall : n≤e.ndone
        · obtain ⟨i,hin,j,sq,hj⟩ := hent.waking k hat hmem hall
          have hi : 0 < i := by
            apply Nat.pos_of_ne_zero
            rintro rfl
            cases hat.symm.trans hj
          have hpcI := (h.consumer i hi hin).pc
          rw [hj] at hpcI
          have hunf : ¬(s.slices i).Finished := by
            intro hf
            have href := hpcI.2.2.1
            rw [hf j hpcI.2.1] at href
            exact absurd href (by simp [Node.hasRef])
          exact ⟨i,hin,hunf,hawk i hi hin,
            h.consumer_enabled hi hin hunf (hawk i hi hin)⟩
        · -- a consumer slice is not counted as done yet
          obtain ⟨i,hi,hin,hopen⟩ : ∃ i, 0 < i ∧ i≤n ∧ (s.slices i).closed=false := by
            by_contra hnone
            apply hall
            rw [hent.ndone,h.all_closed_iff]
            intro i hi hin
            by_contra hopen
            exact hnone ⟨i,hi,hin,by simpa using hopen⟩
          have hunf : ¬(s.slices i).Finished := by
            intro hf
            have hcl := (h.consumer i hi hin).closed_of_released fun k hk => .inr (hf k hk)
            cases hopen.symm.trans hcl
          exact ⟨i,hin,hunf,hawk i hi hin,
            h.consumer_enabled hi hin hunf (hawk i hi hin)⟩
    · exact ⟨0,zero_le n,hfin,hwait,h.producer_enabled hfin hwait⟩

theorem start (hnodes : ∀ i≤n, 0<numNodes i) : Inv n (State.start numNodes) := by
  have hnone : ¬((State.start numNodes).slices 0).Published := by simp [Slice.Published,State.start]
  constructor
  case producer =>
    exact {
      nonempty := hnodes 0 (zero_le n)
      nodes := fun _ _ => .inl rfl
      pc := trivial
      starting := fun _ => ⟨rfl,rfl⟩
      ended := fun _ _ hx => absurd hx (by simp [State.start])
      closed := rfl }
  case consumer =>
    intro i _ hin
    exact {
      nonempty := hnodes i hin
      nodes := fun _ _ => .inl rfl
      pc := trivial
      sharers := (tally_eq_zero.mpr fun _ _ => rfl).symm
      starting := fun _ => ⟨rfl,rfl,rfl⟩
      done := fun hx => absurd hx (by simp [State.start])
      running := fun hx => absurd hx (by simp [State.start])
      ending := fun hx => absurd hx (by simp [State.start])
      reading := fun _ _ hx => absurd hx (by simp [State.start]) }
  case entry => exact fun _ he => absurd he (by simp [State.start])
  case gone => exact fun _ => .inl fun _ _ _ _ => rfl
  case frozen =>
    rintro (hx | ⟨k,hk⟩)
    · exact absurd hx hnone
    · exact absurd hk (by simp [State.start])
  case opened => exact fun _ _ _ hx => absurd hx (by simp [State.start])
  case passed => rintro ⟨k,-,hx | hx⟩ <;> exact absurd hx (by simp [State.start])

end Inv

structure Safe (n : Nat) (s : State) : Prop where
  /-- a consumer has the tuplestore open only when it is frozen -/
  frozen : ∀ i, 0 < i → i≤n → (s.slices i).ready=true → s.frozen=true
  /-- the entry counts the slices that are marked as counted -/
  counted : ∀ e, s.entry=some e → e.ndone=tally (n+1) s.slices Slice.closed
  /-- a slice about to be counted is not marked yet -/
  once : ∀ i, 0 < i → i≤n → ∀ k sq, (s.slices i).pc=.notifyDone k sq → (s.slices i).closed=false
  /-- a slice that has given up its references is counted -/
  counts : ∀ i, 0 < i → i≤n → (s.slices i).Released → (s.slices i).closed=true
  /-- the producer passes its wait only when no consumer slice reads any more -/
  waits : (s.slices 0).Passed → ∀ i, 0 < i → i≤n → (s.slices i).Stopped
  /-- while a participant is not through, one of them goes on -/
  progress : (∃ i≤n, ¬(s.slices i).Finished) →
    ∃ i≤n, ¬(s.slices i).Finished ∧ ¬s.Waiting i ∧ s.Enabled n i

theorem Inv.safe (h : Inv n s) : Safe n s where
  frozen i hi hin hrdy := h.frozen (.inl (h.opened i hi hin hrdy))
  counted e he := (h.entry e he).ndone
  once i hi hin k sq hat := by
    have hpc := (h.consumer i hi hin).pc
    rw [hat] at hpc
    exact hpc.2.2.2.1
  counts i hi hin hrel := (h.consumer i hi hin).closed_of_released hrel
  waits hpass i hi hin := (h.consumer i hi hin).stopped (h.passed hpass i hi hin)
  progress := h.progress

theorem Clean.start (hnodes : ∀ i≤n, 0<numNodes i) : Clean n (start numNodes) where
  gone _ _ := rfl
  calm hfin := absurd (hfin 0 (hnodes 0 (zero_le n))) (by simp [State.start])

theorem Clean.entry_gone (hc : Clean n s) (h : Inv n s)
    (hall : ∀ i≤n, (s.slices i).Released) : s.entry=none := by
  apply hc.gone
  · intro k hk
    have hnode := h.producer.nodes k hk
    rcases hall 0 (zero_le n) k hk with hx | hx
    · rw [hx] at hnode
      cases hp : (s.slices 0).phase <;> simp [hp,Phase.producerNode] at hnode
    · exact hx
  · intro i hi
    rw [Slice.refs,tally_eq_zero]
    intro k hk
    rcases hall i hi k hk with hx | hx <;> simp [hx,Node.hasRef]

/-- The handshake of the producer slice and any number of consumer slices is safe and does not
hang, and it leaves no entry behind when the producer gives up its last reference outside the
squelching of readers. -/
theorem handshake_safe {numNodes : Nat → Nat} {as : List (Nat × Act)} (hnodes : ∀ i≤n, 0<numNodes i)
    (hrun : run (step n) (start numNodes) as=some s) :
    Safe n s ∧ (EveryStep (step n) (State.Orderly n) (start numNodes) as →
      (∀ i≤n, (s.slices i).Released) → s.entry=none) := by
  have hstep (s : State) (a : Nat × Act) (t : State) (h : Inv n s) (ht : s.step n a=some t) :
      Inv n t := h.step ht
  have hinv : Inv n s := run_invariant hstep (Inv.start hnodes) hrun
  refine ⟨hinv.safe,?_⟩
  intro horderly hall
  have hkeep (s : State) (a : Nat × Act) (t : State) (h : Inv n s ∧ Clean n s)
      (ha : s.Orderly n a) (ht : s.step n a=some t) : Inv n t ∧ Clean n t :=
    ⟨h.1.step ht,h.2.step h.1 ha ht⟩
  have hboth := run_invariant_of_everyStep hkeep ⟨Inv.start hnodes,Clean.start hnodes⟩ horderly hrun
  exact hboth.2.entry_gone hinv hall

/-- One consumer slice with one node is squelched while the producer slice waits for it: the
producer is at the end of its wait, the consumer has notified it. -/
def squelchedReader : List (Nat × Act) :=
  [(1, .initNode 0),(0, .initNode 0),(0, .run),(1, .run),(0, .execNode 0),(0, .advance),
    (0, .advance),(0, .advance),(0, .finish),(0, .endNode 0),(0, .advance),(1, .squelchNode 0),
    (1, .advance),(1, .advance),(0, .advance)]

theorem handshake_safe_reader_first : ∃ s, run (step 1) (start fun _ => 1)
    (squelchedReader++[(1, .advance),(0, .advance)])=some s ∧
    (∀ i≤1, (s.slices i).Released) ∧ s.entry=none := by
  refine exists_run_of (fun s => (s.slices 0).numNodes=1 ∧ (s.slices 1).numNodes=1 ∧
    (s.slices 0).nodes 0=.ended ∧ (s.slices 1).nodes 0=.squelched) (by decide +kernel) ?_
  rintro s hs ⟨hone,hother,hended,hsql⟩
  have hrel : ∀ i≤1, (s.slices i).Released := by
    intro i hi k hk
    obtain hx | hx := le_one_iff_eq_zero_or_eq_one.mp hi
    · subst hx
      obtain rfl : k=0 := by omega
      exact .inr hended
    · subst hx
      obtain rfl : k=0 := by omega
      exact .inl hsql
  refine ⟨hrel,?_⟩
  exact (handshake_safe (fun _ _ => one_pos) hs).2 (by decide +kernel) hrel

/-- The producer gives up its reference between the notification and the release of the squelched
reader: nobody removes the entry. -/
theorem handshake_entry_left : ∃ s, run (step 1) (start fun _ => 1)
    (squelchedReader++[(0, .advance),(1, .advance)])=some s ∧
    (s.slices 0).nodes 0=.ended ∧ (s.slices 1).nodes 0=.squelched ∧
    s.entry=some { refcount := 0, ready := true, ndone := 1, waiters := [] } := by
  exact exists_run (by decide +kernel)

/-- While a process sleeps for what has happened, the broadcast that wakes it is still to come. -/
theorem no_wakeup_lost {numNodes : Nat → Nat} {as : List (Nat × Act)} {e : XsliceState}
    (hnodes : ∀ i≤n, 0<numNodes i) (hrun : run (step n) (start numNodes) as=some s)
    (hentry : s.entry=some e) :
    (∀ i≤n, ∀ k, (s.slices i).pc=.sleepReady k → i∈e.waiters → e.ready=true →
      ∃ j, (s.slices 0).pc=.broadcastReady j) ∧
    (∀ k, (s.slices 0).pc=.sleepDone k → 0∈e.waiters → n≤e.ndone →
      ∃ i≤n, ∃ j sq, (s.slices i).pc=.broadcastDone j sq) ∧
    (e.refcount : Int)=sumUpTo (n+1) s.slices fun c => (c.refs : Int) := by
  have hinv : Inv n s := run_invariant (fun s a t h => h.step) (Inv.start hnodes) hrun
  have hok := hinv.entry e hentry
  exact ⟨hok.asleep,hok.waking,hok.refs⟩

/-- The reader goes to sleep before the producer has written the tuplestore. -/
def sleepingReader : List (Nat × Act) :=
  [(1, .initNode 0),(0, .initNode 0),(0, .run),(1, .run),(1, .execNode 0),(1, .advance),
    (1, .advance),(0, .execNode 0),(0, .advance),(0, .advance)]

theorem no_wakeup_lost_asleep : ∃ s, run (step 1) (start fun _ => 1) sleepingReader=some s ∧
    ∃ e, s.entry=some e ∧ (s.slices 1).pc=.sleepReady 0 ∧ 1∈e.waiters ∧ e.ready=true ∧
      (∃ j, (s.slices 0).pc=.broadcastReady j) ∧
      (e.refcount : Int)=sumUpTo 2 s.slices fun c => (c.refs : Int) := by
  refine exists_run_of (fun s => (s.slices 1).pc=.sleepReady 0 ∧
    s.entry.any (fun e => 1∈e.waiters ∧ e.ready=true)) (by decide +kernel) fun s hs hsleep => ?_
  obtain ⟨hpc,hany⟩ := hsleep
  obtain ⟨e,he,hwait⟩ : ∃ e, s.entry=some e ∧ 1∈e.waiters ∧ e.ready=true := by
    cases hentry : s.entry with
    | none => simp [hentry] at hany
    | some e => exact ⟨e,rfl,by simpa [hentry] using hany⟩
  have hlost := no_wakeup_lost (fun _ _ => one_pos) hs he
  exact ⟨e,he,hpc,hwait.1,hwait.2,hlost.1 1 le_rfl 0 hpc hwait.1 hwait.2,hlost.2.2⟩

end WarehousePG.ShareInput
