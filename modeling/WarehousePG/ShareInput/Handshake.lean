import WarehousePG.ShareInput.Scan
import WarehousePG.Framework.KeyedList
import Mathlib.Algebra.Order.Group.Int

namespace WarehousePG.ShareInput

open Framework Function Node Phase Slice

section

section

variable {c : Slice} {k : Nat} {x : Node} {sq : Bool}

namespace Slice

@[simp] theorem setNode_nodes_self : (c.setNode k x).nodes k=x := update_self ..

theorem setNode_nodes_of_ne {j : Nat} (h : j≠k) : (c.setNode k x).nodes j=c.nodes j :=
  update_of_ne h ..

theorem refs_setNode (hk : k<c.numNodes) :
    (c.setNode k x).refs+(c.nodes k).hasRef.toNat=c.refs+x.hasRef.toNat :=
  tally_update hk c.nodes x hasRef

theorem forall_setNode {P : Node → Prop} (hx : P x) (h : ∀ j<c.numNodes, j≠k → P (c.nodes j)) :
    ∀ j<c.numNodes, P ((c.setNode k x).nodes j) := by
  intro j hj
  by_cases hjk : j=k
  · rw [hjk,setNode_nodes_self]
    exact hx
  · rw [setNode_nodes_of_ne hjk]
    exact h j hj hjk

end Slice

structure LocalStep (c c' : Slice) : Prop where
  refs : c'.refs=c.refs
  closed : c'.closed=c.closed
  ready : c'.ready=c.ready
  awake : ∀ k, c'.pc≠.sleepReady k
  silent : ∀ k sq, c.pc≠.broadcastDone k sq
  started : ∃ k<c.numNodes, c.nodes k≠.uninit

namespace ConsumerOk

section

variable (h : ConsumerOk c)
include h

theorem initNode (hph : c.phase=.starting) (hk : k<c.numNodes) (hnode : c.nodes k=.uninit) :
    ConsumerOk { c.setNode k .fresh with nsharers := c.nsharers+1 } := by
  obtain ⟨hidle,hopen,hzero⟩ := h.starting hph
  have hnodes := h.nodes
  rw [hph] at hnodes
  have hall : ∀ j<c.numNodes, consumerNode .starting ((c.setNode k .fresh).nodes j) :=
    forall_setNode (.inr rfl) fun j hj _ => hnodes j hj
  constructor
  case nonempty => exact h.nonempty
  case nodes =>
    intro j hj
    show c.phase.consumerNode _
    rw [hph]
    exact hall j hj
  case pc =>
    show c.pc.ConsumerOk _
    rw [hidle]
    trivial
  case sharers =>
    have hupd := tally_update hk c.nodes fresh fun x => decide (x≠.uninit)
    rw [hnode] at hupd
    simp only [ne_eq,not_true_eq_false,decide_false,Bool.toNat_false,reduceCtorEq,
      not_false_eq_true,decide_true,Bool.toNat_true] at hupd
    have hshar := h.sharers
    simp only [ne_eq] at hshar
    show c.nsharers+1=tally c.numNodes (update c.nodes k .fresh) _
    simp only [ne_eq]
    omega
  case starting => exact fun _ => ⟨hidle,hopen,hzero⟩
  case done | running | ending => exact fun hp => by cases hph.symm.trans hp
  case reading =>
    intro j hj hrdg
    have := hall j hj
    rw [show (c.setNode k .fresh).nodes j=.reading from hrdg] at this
    simp [consumerNode] at this

theorem run (hph : c.phase=.starting)
    (hall : ∀ k<c.numNodes, c.nodes k≠.uninit) : ConsumerOk { c with phase := .running } := by
  obtain ⟨hidle,hopen,hzero⟩ := h.starting hph
  have hfresh (k : Nat) (hk : k<c.numNodes) : c.nodes k=.fresh := by
    have hnode := h.nodes k hk
    rw [hph] at hnode
    exact hnode.resolve_left (hall k hk)
  have hnone : c.squelchedNodes=0 := by
    rw [squelchedNodes,tally_eq_zero]
    intro k hk
    simp [hfresh k hk]
  constructor
  case nonempty => exact h.nonempty
  case nodes => exact fun k hk => .inl (hfresh k hk)
  case pc =>
    rw [hidle]
    trivial
  case sharers => exact h.sharers
  case starting | ending => exact fun hp => by cases hp
  case done =>
    intro _
    show c.ndone=c.squelchedNodes+c.pc.squelching.toNat
    rw [hzero,hnone,hidle]
    rfl
  case running =>
    intro _
    have := h.nonempty
    simp only [hopen,hzero,Bool.false_eq_true,false_iff,not_and]
    omega
  case reading => exact h.reading

theorem setPc_wait (hph : c.phase=.running) (hsq : c.pc.squelching=false)
    (hnot : ∀ k, c.pc≠.notifyDone k true) {pc : Pc} (hpc : pc.ConsumerOk { c with pc := pc })
    (hsq' : pc.squelching=false) (hnot' : ∀ k, pc≠.notifyDone k true) :
    ConsumerOk { c with pc := pc } where
  __ := h
  pc := hpc
  starting hp := absurd (hph.symm.trans hp) (by simp)
  done hp := by
    have := h.done hp
    rw [hsq] at this
    show c.ndone=c.squelchedNodes+pc.squelching.toNat
    rw [hsq',this]
  running hp := by
    have := h.running hp
    simp only [hnot,ne_eq,not_false_eq_true,implies_true,and_true] at this
    simp only [hnot',ne_eq,not_false_eq_true,implies_true,and_true]
    exact this

theorem setReading (hph : c.phase=.running)
    (href : (c.nodes k).hasRef) (hsq : c.pc.squelching=false)
    (hnot : ∀ j, c.pc≠.notifyDone j true) :
    ConsumerOk { c.setNode k .reading with ready := true, pc := .idle } := by
  have hold : c.nodes k≠.squelched ∧ c.nodes k≠.uninit := by
    cases hx : c.nodes k <;> simp_all [hasRef]
  have hsame : tally c.numNodes (update c.nodes k .reading)
      (fun x => decide (x=.squelched))=c.squelchedNodes :=
    tally_update_same _ _ _ (by simp [hold.1])
  constructor
  case nonempty => exact h.nonempty
  case nodes =>
    have hnodes := h.nodes
    rw [hph] at hnodes
    intro j hj
    show c.phase.consumerNode _
    rw [hph]
    exact forall_setNode (P := consumerNode .running) (.inr (.inl rfl))
      (fun j hj _ => hnodes j hj) j hj
  case pc => trivial
  case sharers => exact h.sharers.trans (tally_update_same _ _ _ (by simp [hold.2])).symm
  case starting | ending => exact fun hp => by cases hph.symm.trans hp
  case done =>
    intro hp
    have hdone := h.done hp
    rw [hsq] at hdone
    show c.ndone=tally c.numNodes (update c.nodes k .reading) _+0
    rw [hsame,hdone]
    rfl
  case running =>
    intro hp
    have := h.running hp
    simp only [hnot,ne_eq,not_false_eq_true,implies_true,and_true] at this
    simp only [ne_eq,reduceCtorEq,not_false_eq_true,implies_true,and_true]
    exact this
  case reading => exact fun _ _ _ => rfl

/-- Squelching the last node counts the slice as done. -/
theorem squelchNode (hph : c.phase=.running) (hidle : c.pc=.idle)
    (hk : k<c.numNodes) (href : (c.nodes k).hasRef) : ConsumerOk { c with
      ndone := c.ndone+1
      pc := if c.ndone+1=c.nsharers then .notifyDone k true else .release k true } := by
  have hdone := h.done hph
  rw [hidle] at hdone
  have hshar := h.nsharers_eq (by simp [hph])
  -- a slice whose nodes are all squelched has none that can be squelched now
  have hopen : c.closed=false := by
    by_contra hcl
    have hstop := h.stopped (by simpa using hcl)
    rcases hstop with hp | ⟨-,hall⟩
    · cases hph.symm.trans hp
    · rcases hall k hk with hx | hx | hx
      · simp [hx,hasRef] at href
      · cases hidle.symm.trans hx
      · cases hidle.symm.trans hx
  generalize hpc : (if c.ndone+1=c.nsharers then Pc.notifyDone k true else .release k true)=pc
  have hsq : pc.squelching=true := by
    rw [← hpc]
    split <;> rfl
  refine { h with
    pc := ?pc, starting := ?starting, ending := ?ending, done := ?done, running := ?running }
  case pc =>
    rw [← hpc]
    split
    · next hlast => exact ⟨hph,hk,href,hopen,fun _ => hlast.trans hshar⟩
    · exact ⟨hph,hk,href,fun hsq => absurd hsq (by simp)⟩
  case starting | ending => exact fun hp => by cases hph.symm.trans hp
  case done =>
    intro _
    rw [hsq,hdone]
    rfl
  case running =>
    intro _
    simp only [hopen,Bool.false_eq_true,ne_eq,false_iff,not_and,not_forall,not_not]
    intro hall
    exact ⟨k,by rw [← hpc,if_pos (hall.trans hshar.symm)]⟩

theorem finish (hidle : c.pc=.idle)
    (hall : ∀ k<c.numNodes, c.nodes k=.reading ∨ c.nodes k=.squelched) :
    ConsumerOk { c with phase := .ending } where
  __ := h
  nodes k hk := by
    rcases hall k hk with hx | hx
    · exact .inl hx
    · exact .inr (.inl hx)
  pc := by
    rw [hidle]
    trivial
  starting hp := absurd hp (by simp)
  done hp := absurd hp (by simp)
  running hp := absurd hp (by simp)
  ending := by
    intro _ hopen
    by_contra hnone
    have hrel : c.Released := by
      intro k hk
      rcases hall k hk with hx | hx
      · exact absurd ⟨k,hk,hx⟩ hnone
      · exact .inl hx
    have hcl := h.closed_of_released hrel
    cases hopen.symm.trans hcl

theorem setPc_ending (hph : c.phase=.ending) {pc : Pc}
    (hpc : pc.ConsumerOk { c with pc := pc }) : ConsumerOk { c with pc := pc } where
  __ := h
  pc := hpc
  starting hp := absurd (hph.symm.trans hp) (by simp)
  done hp := absurd (hph.symm.trans hp) (by simp)
  running hp := absurd (hph.symm.trans hp) (by simp)

theorem setEnded (hph : c.phase=.ending) (hk : k<c.numNodes)
    (hopen : c.closed=true ∨ c.nodes k≠.reading) :
    ConsumerOk { c.setNode k .ended with pc := .idle } := by
  have hnodes := h.nodes
  rw [hph] at hnodes
  have hinit : c.nodes k≠.uninit := by rcases hnodes k hk with hx | hx | hx <;> simp [hx]
  constructor
  case nonempty => exact h.nonempty
  case nodes =>
    intro j hj
    show c.phase.consumerNode _
    rw [hph]
    exact forall_setNode (P := consumerNode .ending) (.inr (.inr rfl))
      (fun j hj _ => hnodes j hj) j hj
  case pc => trivial
  case sharers => exact h.sharers.trans (tally_update_same _ _ _ (by simp [hinit])).symm
  case starting | done | running => exact fun hp => by cases hph.symm.trans hp
  case ending =>
    intro _ hnot
    obtain ⟨j,hj,hrdg⟩ := h.ending hph hnot
    refine ⟨j,hj,?_⟩
    have hjk : j≠k := by
      rintro rfl
      rcases hopen with hcl | hot
      · cases hnot.symm.trans hcl
      · exact hot hrdg
    exact (setNode_nodes_of_ne hjk).trans hrdg
  case reading =>
    intro j hj hrdg
    have hjk : j≠k := by
      rintro rfl
      cases setNode_nodes_self.symm.trans hrdg
    exact h.reading j hj ((setNode_nodes_of_ne hjk).symm.trans hrdg)

/-- The slice is counted before it broadcasts. -/
theorem notifyDone (hat : c.pc=.notifyDone k sq) {pc : Pc}
    (hpc : pc=.broadcastDone k sq ∨ pc=.release k sq) :
    ConsumerOk { c with closed := true, pc := pc } := by
  have hold := h.pc
  rw [hat] at hold
  obtain ⟨hph,hk,href,hopen,hlast⟩ := hold
  have hsq : pc.squelching=sq := by rcases hpc with rfl | rfl <;> rfl
  refine { h with
    pc := ?pc, starting := ?starting, done := ?done, running := ?running, ending := ?ending }
  case pc =>
    rcases hpc with rfl | rfl
    · exact ⟨hph,hk,href,fun _ => rfl⟩
    · exact ⟨hph,hk,href,fun _ => rfl⟩
  case starting =>
    intro hp
    cases hat.symm.trans (h.starting hp).1
  case done =>
    intro hp
    have hdone := h.done hp
    rw [hat] at hdone
    rw [hsq]
    exact hdone
  case running =>
    intro hp
    have hrun : c.phase=.running := hp
    have hyes : sq=true := by
      cases sq with
      | true => rfl
      | false => cases hph.symm.trans hrun
    simp only [true_iff]
    refine ⟨hlast hyes,?_⟩
    intro j
    rcases hpc with rfl | rfl <;> simp
  case ending => exact fun _ hno => by cases hno

theorem broadcastDone (hat : c.pc=.broadcastDone k sq) :
    ConsumerOk { c with pc := .release k sq } := by
  have hold := h.pc
  rw [hat] at hold
  refine { h with pc := ?pc, starting := ?starting, done := ?done, running := ?running }
  case pc => exact hold
  case starting =>
    intro hp
    cases hat.symm.trans (h.starting hp).1
  case done =>
    intro hp
    have hdone := h.done hp
    rw [hat] at hdone
    exact hdone
  case running =>
    intro hp
    have := h.running hp
    simpa [hat] using this

theorem releaseSquelched (hat : c.pc=.release k true) :
    ConsumerOk { c.setNode k .squelched with pc := .idle } := by
  have hold := h.pc
  rw [hat] at hold
  obtain ⟨hph,hk,href,-⟩ := hold
  have hph : c.phase=.running := hph
  have hnode : c.nodes k≠.squelched ∧ c.nodes k≠.uninit := by
    cases hx : c.nodes k <;> simp_all [hasRef]
  have hdone := h.done hph
  rw [hat] at hdone
  have hnodes := h.nodes
  rw [hph] at hnodes
  have hcnt : tally c.numNodes (update c.nodes k .squelched)
      (fun x => decide (x=.squelched))=c.squelchedNodes+1 := by
    have := tally_update hk c.nodes squelched fun x => decide (x=.squelched)
    simpa [hnode.1,squelchedNodes] using this
  constructor
  case nonempty => exact h.nonempty
  case nodes =>
    intro j hj
    show c.phase.consumerNode _
    rw [hph]
    exact forall_setNode (P := consumerNode .running) (.inr (.inr rfl))
      (fun j hj _ => hnodes j hj) j hj
  case pc => trivial
  case sharers => exact h.sharers.trans (tally_update_same _ _ _ (by simp [hnode.2])).symm
  case starting | ending => exact fun hp => by cases hph.symm.trans hp
  case done =>
    intro _
    show c.ndone=tally c.numNodes (update c.nodes k .squelched) _+0
    rw [hcnt,hdone]
    rfl
  case running =>
    intro hp
    have := h.running hp
    simpa [hat,setNode] using this
  case reading =>
    intro j hj hrdg
    have hjk : j≠k := by
      rintro rfl
      cases setNode_nodes_self.symm.trans hrdg
    exact h.reading j hj ((setNode_nodes_of_ne hjk).symm.trans hrdg)

theorem releaseEnded (hat : c.pc=.release k false) :
    ConsumerOk { c.setNode k .ended with pc := .idle } := by
  have hold := h.pc
  rw [hat] at hold
  obtain ⟨hph,hk,href,hcl⟩ := hold
  exact h.setEnded hph hk (.inl (hcl rfl))

end

end ConsumerOk

end

variable {c : Slice} {k : Nat}

namespace ProducerOk

section

variable (h : ProducerOk c)
include h

theorem initNode (hph : c.phase=.starting) : ProducerOk (c.setNode k .fresh) := by
  obtain ⟨hidle,hnot⟩ := h.starting hph
  have hnodes := h.nodes
  rw [hph] at hnodes
  constructor
  case nonempty => exact h.nonempty
  case nodes =>
    show ∀ j<c.numNodes, c.phase.producerNode _
    rw [hph]
    exact Slice.forall_setNode (P := Phase.producerNode .starting) (.inr rfl)
      fun j hj _ => hnodes j hj
  case pc =>
    show c.pc.ProducerOk _
    rw [hidle]
    trivial
  case starting => exact fun _ => ⟨hidle,hnot⟩
  case ended =>
    exact Slice.forall_setNode (c := c) (P := fun x => x=.ended → c.ready=true)
      (fun hx => absurd hx (by simp)) fun j hj _ => h.ended j hj
  case closed => exact h.closed

theorem run (hph : c.phase=.starting)
    (hall : ∀ k<c.numNodes, c.nodes k≠.uninit) : ProducerOk { c with phase := .running } where
  __ := h
  nodes k hk := by
    have hnode := h.nodes k hk
    rw [hph] at hnode
    exact .inl (hnode.resolve_left (hall k hk))
  pc := by
    rw [(h.starting hph).1]
    trivial
  starting hp := absurd hp (by simp)

theorem finish (hph : c.phase=.running) (hidle : c.pc=.idle) :
    ProducerOk { c with phase := .ending } where
  __ := h
  nodes k hk := by
    have hnode := h.nodes k hk
    rw [hph] at hnode
    rcases hnode with hx | hx
    · exact .inl hx
    · exact .inr (.inl hx)
  pc := by
    rw [hidle]
    trivial
  starting hp := absurd hp (by simp)

theorem setPc (hph : c.phase≠.starting) {pc : Pc}
    (hpc : pc.ProducerOk { c with pc := pc }) : ProducerOk { c with pc := pc } where
  __ := h
  pc := hpc
  starting hp := absurd hp hph

theorem nodes_setNode (hx : c.phase.producerNode x) :
    ∀ j<c.numNodes, c.phase.producerNode ((c.setNode k x).nodes j) :=
  Slice.forall_setNode hx fun j hj _ => h.nodes j hj

end

theorem reading_allowed (hph : c.phase≠.starting) : c.phase.producerNode .reading := by
  cases hp : c.phase with
  | starting => exact absurd hp hph
  | running => exact .inr rfl
  | ending => exact .inr (.inl rfl)

variable (h : ProducerOk c)
include h

theorem setReady (hph : c.phase≠.starting) (hk : k<c.numNodes) : ProducerOk (c.setReady k) where
  __ := h
  nodes := h.nodes_setNode (reading_allowed hph)
  pc := by
    show (if c.phase=.ending then Pc.prepareDone k else .idle).ProducerOk _
    split
    · next hend =>
      have hnode : ((c.setReady k).nodes k).hasRef=true := by
        rw [show (c.setReady k).nodes k=.reading from Slice.setNode_nodes_self]
        rfl
      exact ⟨hend,hk,hnode,rfl⟩
    · trivial
  starting hp := absurd hp hph
  ended _ _ _ := rfl

theorem setReading (hph : c.phase≠.starting) (hidle : c.pc=.idle)
    (hrdy : c.ready=true) : ProducerOk (c.setNode k .reading) where
  __ := h
  nodes := h.nodes_setNode (reading_allowed hph)
  pc := by
    show c.pc.ProducerOk _
    rw [hidle]
    trivial
  starting hp := absurd hp hph
  ended _ _ _ := hrdy

theorem setEnded (hph : c.phase=.ending) (hrdy : c.ready=true) :
    ProducerOk { c.setNode k .ended with pc := .idle } where
  __ := h
  nodes := h.nodes_setNode (by rw [hph]; exact .inr (.inr rfl))
  pc := trivial
  starting hp := absurd (hph.symm.trans hp) (by simp)
  ended _ _ _ := hrdy

theorem initTuplestoreState (hph : c.phase≠.starting) (hidle : c.pc=.idle)
    (hk : k<c.numNodes) (href : (c.nodes k).hasRef) :
    ProducerOk (c.initTuplestoreState true k) := by
  unfold Slice.initTuplestoreState
  split
  · next hrdy => exact h.setReading hph hidle hrdy
  · next hrdy =>
    have hpc : (Pc.materialize k).ProducerOk { c with pc := .materialize k } :=
      ⟨hph,hk,href,by simpa using hrdy⟩
    rw [if_pos rfl]
    exact h.setPc hph hpc

end ProducerOk

end

def Slice.Published (p : Slice) : Prop := p.ready=true ∨ ∃ k, p.pc=.broadcastReady k

/-- The entry counts the references and the consumer slices that are done, and nobody sleeps whom
no broadcast is going to wake. -/
structure EntryOk (n : Nat) (s : State) (e : XsliceState) : Prop where
  refs : (e.refcount : Int)=sumUpTo (n+1) s.slices fun c => (c.refs : Int)
  ready : e.ready=true ↔ (s.slices 0).Published
  ndone : e.ndone=tally (n+1) s.slices closed
  asleep : ∀ i≤n, ∀ k, (s.slices i).pc=.sleepReady k → i∈e.waiters → e.ready=true →
    ∃ j, (s.slices 0).pc=.broadcastReady j
  waking : ∀ k, (s.slices 0).pc=.sleepDone k → 0∈e.waiters → n≤e.ndone →
    ∃ i≤n, ∃ j sq, (s.slices i).pc=.broadcastDone j sq

structure Inv (n : Nat) (s : State) : Prop where
  producer : ProducerOk (s.slices 0)
  consumer : ∀ i, 0 < i → i≤n → ConsumerOk (s.slices i)
  entry : ∀ e, s.entry=some e → EntryOk n s e
  gone : s.entry=none →
    (∀ i≤n, ∀ k<(s.slices i).numNodes, (s.slices i).nodes k=.uninit) ∨
    ((s.slices 0).Finished ∧ ∀ i≤n, (s.slices i).refs=0)
  frozen : (s.slices 0).Published ∨ (∃ k, (s.slices 0).pc=.notifyReady k) → s.frozen=true
  opened : ∀ i, 0 < i → i≤n → (s.slices i).ready=true → (s.slices 0).Published
  passed : (s.slices 0).Passed → ∀ i, 0 < i → i≤n → (s.slices i).closed=true

variable {s : State}

/-- A step of a consumer slice on an entry that stays in the table. -/
structure ConsumerStep (n i : Nat) (c : Slice) (e : XsliceState) (c' : Slice) (e' : XsliceState) :
    Prop where
  ok : ConsumerOk c'
  refs : e'.refcount+c.refs=e.refcount+c'.refs
  ndone : e'.ndone+c.closed.toNat=e.ndone+c'.closed.toNat
  closed : c.closed=true → c'.closed=true
  ready : e'.ready=e.ready
  opened : c'.ready=true → c.ready=true ∨ e.ready=true
  waiters : ∀ j, j≠i → j∈e'.waiters → j∈e.waiters
  asleep : ∀ k, c'.pc=.sleepReady k → e'.ready=false
  waking : 0∈e'.waiters → n≤e'.ndone →
    (n≤e.ndone ∧ ∀ j sq, c.pc≠.broadcastDone j sq) ∨ ∃ j sq, c'.pc=.broadcastDone j sq

namespace State

variable {v : View}

theorem store_slices_self : (s.store i v).slices i=v.slice := update_self ..

theorem store_slices_of_ne (h : j≠i) : (s.store i v).slices j=s.slices j :=
  update_of_ne h ..

theorem forall_store {P : Slice → Prop} (hv : P v.slice)
    (h : ∀ j, 0<j → j≤n → j≠i → P (s.slices j)) : ∀ j, 0<j → j≤n → P ((s.store i v).slices j) := by
  intro j hj hjn
  by_cases hji : j=i
  · rw [hji,store_slices_self]
    exact hv
  · rw [store_slices_of_ne hji]
    exact h j hj hjn hji

end State

namespace Inv

open State

/-- What a move of a consumer slice has to show. -/
theorem consumer_step (h : Inv n s) (hi : 0 < i) (hin : i≤n) (he : s.entry=some e)
    (hc : ConsumerStep n i (s.slices i) e c' e') : Inv n (s.store i ⟨c',some e',s.frozen⟩) := by
  have hold := h.entry e he
  have hlt : i<n+1 := Nat.lt_succ_of_le hin
  generalize ht : s.store i ⟨c',some e',s.frozen⟩=t
  have hzero : t.slices 0=s.slices 0 := by
    rw [← ht]
    exact store_slices_of_ne (ne_of_lt hi)
  have hself : t.slices i=c' := by
    rw [← ht]
    exact store_slices_self
  have hne (j : Nat) (hj : j≠i) : t.slices j=s.slices j := by
    rw [← ht]
    exact store_slices_of_ne hj
  have hent : t.entry=some e' := by rw [← ht]; rfl
  have hslic : t.slices=update s.slices i c' := by rw [← ht]; rfl
  constructor
  case producer =>
    rw [hzero]
    exact h.producer
  case consumer =>
    rw [← ht]
    exact forall_store hc.ok fun j hj hjn _ => h.consumer j hj hjn
  case entry =>
    intro f hf
    obtain rfl : e'=f := Option.some.inj (hent.symm.trans hf)
    constructor
    case refs =>
      have hrefs := hc.refs
      rw [hslic,sumUpTo_update hlt,← hold.refs]
      omega
    case ready =>
      rw [hc.ready,hzero]
      exact hold.ready
    case ndone =>
      have hndon := hc.ndone
      have hupd := tally_update hlt s.slices c' closed
      rw [← hold.ndone] at hupd
      rw [hslic]
      omega
    case asleep =>
      intro j hj k hpc hmem hrdy
      rw [hzero]
      by_cases hji : j=i
      · rw [hji,hself] at hpc
        cases (hc.asleep k hpc).symm.trans hrdy
      · rw [hne j hji] at hpc
        exact hold.asleep j hj k hpc (hc.waiters j hji hmem) (hc.ready ▸ hrdy)
    case waking =>
      intro k hpc hmem hall
      rw [hzero] at hpc
      rcases hc.waking hmem hall with ⟨hall',hnot⟩ | ⟨j,sq,hj⟩
      · have hmem' := hc.waiters 0 (ne_of_lt hi) hmem
        obtain ⟨m,hm,j,sq,hj⟩ := hold.waking k hpc hmem' hall'
        have hmi : m≠i := by
          rintro rfl
          exact hnot j sq hj
        exact ⟨m,hm,j,sq,by rw [hne m hmi]; exact hj⟩
      · exact ⟨i,hin,j,sq,by rw [hself]; exact hj⟩
  case gone => exact fun hnone => by cases hent.symm.trans hnone
  case frozen =>
    rw [hzero,← ht]
    exact h.frozen
  case opened =>
    rw [hzero,← ht]
    apply forall_store (P := fun c => c.ready=true → (s.slices 0).Published)
    · intro hrdy
      obtain hbef | hnow := hc.opened hrdy
      · exact h.opened i hi hin hbef
      · exact hold.ready.mp hnow
    · exact fun j hj hjn _ => h.opened j hj hjn
  case passed =>
    rw [hzero,← ht]
    intro hpass
    apply forall_store (P := fun c => c.closed=true)
    · exact hc.closed (h.passed hpass i hi hin)
    · exact fun j hj hjn _ => h.passed hpass j hj hjn

/-- The counter reaches the number of consumers when all of them are closed. -/
theorem all_closed_iff (h : Inv n s) : n≤tally (n+1) s.slices closed ↔
    ∀ i, 0 < i → i≤n → (s.slices i).closed=true := by
  -- with the producer's place taken by a closed slice all places are to be closed
  obtain ⟨a,ha⟩ : ∃ a : Slice, a.closed=true := ⟨{ s.slices 0 with closed := true },rfl⟩
  have hupd := tally_update (Nat.zero_lt_succ n) s.slices a closed
  have hle : tally (n+1) (update s.slices 0 a) closed≤n+1 :=
    List.countP_le_length.trans (by simp)
  simp only [h.producer.closed,ha,Bool.toNat_false,Bool.toNat_true,Nat.succ_eq_add_one] at hupd
  have hfull : n≤tally (n+1) s.slices closed ↔
      tally (n+1) (update s.slices 0 a) closed=n+1 := by omega
  rw [hfull,tally_eq_length]
  constructor
  · intro hall i hi hin
    have := hall i (Nat.lt_succ_of_le hin)
    rwa [update_of_ne (ne_of_gt hi)] at this
  · intro hall i hin
    obtain hzero | hpos := Nat.eq_zero_or_pos i
    · rw [hzero,update_self]
      exact ha
    · rw [update_of_ne (ne_of_gt hpos)]
      exact hall i hpos (Nat.le_of_lt_succ hin)

end Inv

structure ProducerStep (n : Nat) (p : Slice) (e : XsliceState) (f : Bool) (p' : Slice)
    (e' : XsliceState) (f' : Bool) : Prop where
  ok : ProducerOk p'
  refs : e'.refcount+p.refs=e.refcount+p'.refs
  ndone : e'.ndone=e.ndone
  published : p.Published → p'.Published
  ready : e'.ready=true ↔ p'.Published
  frozen : p'.Published ∨ (∃ k, p'.pc=.notifyReady k) → f'=true
  waiters : ∀ j, j≠0 → j∈e'.waiters → j∈e.waiters
  asleep : e'.ready=true → (∃ j, p'.pc=.broadcastReady j) ∨ (∀ j, j≠0 → j∉e'.waiters) ∨
    (e.ready=true ∧ ∀ j, p.pc≠.broadcastReady j)
  waking : ∀ k, p'.pc=.sleepDone k → e'.ndone<n
  passed : p'.Passed → p.Passed ∨ n≤e.ndone

namespace Inv

open State

section

variable (h : Inv n s)
include h

/-- What a move of the producer slice has to show. -/
theorem producer_step (he : s.entry=some e)
    (hp : ProducerStep n (s.slices 0) e s.frozen c' e' f) : Inv n (s.store 0 ⟨c',some e',f⟩) := by
  have hold := h.entry e he
  generalize ht : s.store 0 ⟨c',some e',f⟩=t
  have hzero : t.slices 0=c' := by
    rw [← ht]
    exact store_slices_self
  have hne (j : Nat) (hj : 0<j) : t.slices j=s.slices j := by
    rw [← ht]
    exact store_slices_of_ne (ne_of_gt hj)
  have hent : t.entry=some e' := by rw [← ht]; rfl
  have hslic : t.slices=update s.slices 0 c' := by rw [← ht]; rfl
  constructor
  case producer =>
    rw [hzero]
    exact hp.ok
  case consumer =>
    intro j hj hjn
    rw [hne j hj]
    exact h.consumer j hj hjn
  case entry =>
    intro x hx
    obtain rfl : e'=x := Option.some.inj (hent.symm.trans hx)
    constructor
    case refs =>
      have hrefs := hp.refs
      rw [hslic,sumUpTo_update (Nat.zero_lt_succ n),← hold.refs]
      omega
    case ready =>
      rw [hzero]
      exact hp.ready
    case ndone =>
      have hsame : c'.closed=(s.slices 0).closed := hp.ok.closed.trans h.producer.closed.symm
      rw [hp.ndone,hold.ndone,hslic]
      exact (tally_update_same _ _ _ hsame).symm
    case asleep =>
      intro j hj k hpc hmem hrdy
      rw [hzero]
      have hjpos : 0<j := by
        apply Nat.pos_of_ne_zero
        rintro rfl
        have hat := hp.ok.pc
        rw [hzero] at hpc
        rw [hpc] at hat
        exact hat
      have hjne := ne_of_gt hjpos
      rw [hne j hjpos] at hpc
      rcases hp.asleep hrdy with hsoon | hnone | ⟨hbef,hnot⟩
      · exact hsoon
      · exact absurd hmem (hnone j hjne)
      · obtain ⟨m,hm⟩ := hold.asleep j hj k hpc (hp.waiters j hjne hmem) hbef
        exact absurd hm (hnot m)
    case waking =>
      intro k hpc _ hall
      rw [hzero] at hpc
      exact absurd (hp.waking k hpc) (not_lt.mpr hall)
  case gone => exact fun hnone => by cases hent.symm.trans hnone
  case frozen =>
    rw [hzero,← ht]
    exact hp.frozen
  case opened =>
    intro j hj hjn hrdy
    rw [hne j hj] at hrdy
    rw [hzero]
    exact hp.published (h.opened j hj hjn hrdy)
  case passed =>
    intro hpass j hj hjn
    rw [hzero] at hpass
    rw [hne j hj]
    obtain hbef | hall := hp.passed hpass
    · exact h.passed hbef j hj hjn
    · exact h.all_closed_iff.mp (hold.ndone ▸ hall) j hj hjn

theorem refs_eq_zero (he : s.entry=some e) (hzero : e.refcount=0) : ∀ i≤n, (s.slices i).refs=0 := by
  have hsum := (h.entry e he).refs
  rw [hzero] at hsum
  intro i hi
  have := eq_zero_of_sumUpTo (fun j _ => Int.natCast_nonneg (s.slices j).refs) hsum.symm i
    (Nat.lt_succ_of_le hi)
  exact Int.ofNat_eq_zero.mp this

theorem finished_of_refs (hph : (s.slices 0).phase≠.starting)
    (hrefs : (s.slices 0).refs=0) : (s.slices 0).Finished := by
  intro k hk
  have hnode := h.producer.nodes k hk
  have hno : ((s.slices 0).nodes k).hasRef=false := tally_eq_zero.mp hrefs k hk
  cases hp : (s.slices 0).phase with
  | starting => exact absurd hp hph
  | running =>
    rw [hp] at hnode
    rcases hnode with hx | hx <;> simp [hx,Node.hasRef] at hno
  | ending =>
    rw [hp] at hnode
    rcases hnode with hx | hx | hx
    · simp [hx,Node.hasRef] at hno
    · simp [hx,Node.hasRef] at hno
    · exact hx

theorem phase_of_published (hpub : (s.slices 0).Published) : (s.slices 0).phase≠.starting := by
  intro hp
  obtain ⟨hidle,hnot⟩ := h.producer.starting hp
  rcases hpub with hrdy | ⟨k,hk⟩
  · cases hnot.symm.trans hrdy
  · cases hidle.symm.trans hk

theorem remove (he : s.entry=some e) (hzero : e.refcount=0)
    (hph : (s.slices 0).phase≠.starting) : Inv n { s with entry := none } where
  __ := h
  entry x hx := absurd hx (by simp)
  gone _ := .inr ⟨h.finished_of_refs hph (h.refs_eq_zero he hzero 0 (Nat.zero_le n)),
    h.refs_eq_zero he hzero⟩

theorem phase_of_uninit
    (hall : ∀ i≤n, ∀ k<(s.slices i).numNodes, (s.slices i).nodes k=.uninit) (hi : i≤n) :
    (s.slices i).phase=.starting := by
  obtain hzero | hpos := Nat.eq_zero_or_pos i
  · subst hzero
    have hnode := h.producer.nodes 0 h.producer.nonempty
    rw [hall 0 hi 0 h.producer.nonempty] at hnode
    cases hp : (s.slices 0).phase with
    | starting => rfl
    | running | ending => simp [hp,Phase.producerNode] at hnode
  · have hok := h.consumer i hpos hi
    have hnode := hok.nodes 0 hok.nonempty
    rw [hall i hi 0 hok.nonempty] at hnode
    cases hp : (s.slices i).phase with
    | starting => rfl
    | running | ending => simp [hp,Phase.consumerNode] at hnode

theorem withEntry (hrefs : ∀ i≤n, (s.slices i).refs=0) (hzero : e.refcount=0)
    (hrdy : e.ready=true ↔ (s.slices 0).Published)
    (hndon : e.ndone=tally (n+1) s.slices closed) (hwait : e.waiters=[]) :
    Inv n { s with entry := some e } := by
  refine { h with entry := ?_, gone := fun hnone => absurd hnone (by simp) }
  intro x hx
  obtain rfl : e=x := Option.some.inj hx
  have hsum : sumUpTo (n+1) s.slices (fun c => (c.refs : Int))=
      sumUpTo (n+1) s.slices fun _ => 0 := by
    apply sumUpTo_congr
    intro i hi
    rw [hrefs i (Nat.le_of_lt_succ hi)]
    rfl
  constructor
  case refs =>
    dsimp only
    rw [hzero,hsum]
    simp [sumUpTo,total]
  case ready => exact hrdy
  case ndone => exact hndon
  case asleep => exact fun _ _ _ _ hmem => absurd hmem (by simp [hwait])
  case waking => exact fun _ _ hmem => absurd hmem (by simp [hwait])

theorem create (hall : ∀ i≤n, ∀ k<(s.slices i).numNodes, (s.slices i).nodes k=.uninit) :
    Inv n { s with entry := some {} } := by
  have hstart (i : Nat) (hi : i≤n) : (s.slices i).phase=.starting := h.phase_of_uninit hall hi
  apply h.withEntry
  case hrefs =>
    intro i hi
    rw [refs,tally_eq_zero]
    intro k hk
    rw [hall i hi k hk]
    rfl
  case hzero | hwait => rfl
  case hrdy =>
    simp only [Bool.false_eq_true,false_iff]
    intro hpub
    exact h.phase_of_published hpub (hstart 0 (Nat.zero_le n))
  case hndon =>
    symm
    rw [tally_eq_zero]
    intro i hi
    obtain hz | hpos := Nat.eq_zero_or_pos i
    · rw [hz]
      exact h.producer.closed
    · have hin := Nat.le_of_lt_succ hi
      exact ((h.consumer i hpos hin).starting (hstart i hin)).2.1

/-- A move within a consumer slice, without the shared entry. -/
theorem consumer_local (hi : 0 < i) (hin : i≤n) (hok : ConsumerOk c')
    (hl : LocalStep (s.slices i) c') : Inv n (s.store i ⟨c',s.entry,s.frozen⟩) := by
  have hstep (e : XsliceState) : ConsumerStep n i (s.slices i) e c' e := {
    ok := hok
    refs := by rw [hl.refs]
    ndone := by rw [hl.closed]
    closed := by rw [hl.closed]; exact id
    ready := rfl
    opened := by rw [hl.ready]; exact .inl
    waiters := fun _ _ hmem => hmem
    asleep := fun k hpc => absurd hpc (hl.awake k)
    waking := fun _ hall => .inl ⟨hall,hl.silent⟩ }
  cases he : s.entry with
  | some e => exact h.consumer_step hi hin he (hstep e)
  | none =>
    rcases h.gone he with hall | ⟨hfin,hrefs⟩
    · obtain ⟨k,hk,hnode⟩ := hl.started
      exact absurd (hall i hin k hk) hnode
    · -- the books of a removed entry are those of one without references
      have hrdy : ∃ ready : Bool, ready=true ↔ (s.slices 0).Published := by
        by_cases hpub : (s.slices 0).Published
        · exact ⟨true,by simp [hpub]⟩
        · exact ⟨false,by simp [hpub]⟩
      obtain ⟨ready,hrdy⟩ := hrdy
      let e : XsliceState := { ready := ready, ndone := tally (n+1) s.slices closed }
      have hkept : Inv n { s with entry := some e } := h.withEntry hrefs rfl hrdy rfl rfl
      have hmoved := hkept.consumer_step hi hin rfl (hstep e)
      have hph : ((s.store i ⟨c',some e,s.frozen⟩).slices 0).phase≠.starting := by
        rw [store_slices_of_ne (ne_of_lt hi)]
        intro hstar
        have hnode := h.producer.nodes 0 h.producer.nonempty
        rw [hstar,hfin 0 h.producer.nonempty] at hnode
        simp [Phase.producerNode] at hnode
      exact hmoved.remove rfl rfl hph

theorem entry_of_ref (hi : i≤n) (hk : k<(s.slices i).numNodes)
    (href : ((s.slices i).nodes k).hasRef=true) : ∃ e, s.entry=some e := by
  cases he : s.entry with
  | some e => exact ⟨e,rfl⟩
  | none =>
    rcases h.gone he with hall | ⟨-,hrefs⟩
    · simp [hall i hi k hk,Node.hasRef] at href
    · have := tally_eq_zero.mp (hrefs i hi) k hk
      cases href.symm.trans this

end

end Inv

end WarehousePG.ShareInput
