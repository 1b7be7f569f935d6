import WarehousePG.ShareInput.Handshake

namespace WarehousePG.ShareInput

open Framework Node Slice ConsumerStep LocalStep Option

section

variable {c : Slice}

theorem ConsumerStep.of_same (hok : ConsumerOk c') (hrefs : c'.refs=c.refs)
    (hcl : c'.closed=c.closed) (hcnt : e'.refcount=e.refcount) (hndon : e'.ndone=e.ndone)
    (hrdy : e'.ready=e.ready) (hopn : c'.ready=true → c.ready=true ∨ e.ready=true)
    (hwait : ∀ j, j≠i → j∈e'.waiters → j∈e.waiters)
    (hasl : ∀ k, c'.pc=.sleepReady k → e'.ready=false)
    (hsil : ∀ j sq, c.pc≠.broadcastDone j sq) : ConsumerStep n i c e c' e' where
  ok := hok
  refs := by rw [hrefs,hcnt]
  ndone := by rw [hcl,hndon]
  closed := by rw [hcl]; exact id
  ready := hrdy
  opened := hopn
  waiters := hwait
  asleep := hasl
  waking := fun _ hall => .inl ⟨hndon ▸ hall,hsil⟩

variable {l : List Nat}

theorem mem_of_mem_filter (h : j∈l.filter (· ≠ i)) : j∈l :=
  (List.mem_filter.mp h).1

theorem mem_of_mem_cons (hj : j≠i) (h : j∈i::l) : j∈l :=
  (List.mem_cons.mp h).resolve_left hj

variable {x : Node}

theorem Slice.refs_setNode_same (h : x.hasRef=(c.nodes k).hasRef) : (c.setNode k x).refs=c.refs :=
  tally_update_same _ _ _ h

theorem LocalStep.of_idle (hidle : c.pc=.idle) (hrefs : c'.refs=c.refs)
    (hcl : c'.closed=c.closed) (hrdy : c'.ready=c.ready) (hawake : ∀ k, c'.pc≠.sleepReady k)
    (hk : k<c.numNodes) (hnode : c.nodes k≠.uninit) : LocalStep c c' where
  refs := hrefs
  closed := hcl
  ready := hrdy
  awake := hawake
  silent := by simp [hidle]
  started := ⟨k,hk,hnode⟩

attribute [local simp] hasRef setNode

theorem Node.ne_uninit_of_hasRef (h : x.hasRef=true) : x≠.uninit := by
  rintro rfl
  exact absurd h (by simp)

namespace Inv

open State

variable (h : Inv n s)
include h

theorem consumer_initNode (hi : 0 < i) (hin : i≤n)
    (hph : (s.slices i).phase=.starting) (hk : k<(s.slices i).numNodes)
    (hnode : (s.slices i).nodes k=.uninit) :
    Inv n (s.store i ((s.view i).execInitShareInputScan false k)) := by
  have hok := h.consumer i hi hin
  obtain ⟨hidle,hopen,-⟩ := hok.starting hph
  have hrefs := refs_setNode (x := .fresh) hk
  rw [hnode] at hrefs
  have hstep (e : XsliceState) : ConsumerStep n i (s.slices i) e
      { (s.slices i).setNode k .fresh with nsharers := (s.slices i).nsharers+1 }
      { e with refcount := e.refcount+1 } := {
    ok := hok.initNode hph hk hnode
    refs := by
      have hnew : (refs { (s.slices i).setNode k .fresh with
          nsharers := (s.slices i).nsharers+1 })=((s.slices i).setNode k .fresh).refs := rfl
      rw [hnew]
      simp only [hasRef,Bool.toNat_true,Bool.toNat_false] at hrefs
      dsimp only
      omega
    ndone := rfl
    closed := id
    ready := rfl
    opened := .inl
    waiters := fun _ _ hmem => hmem
    asleep := fun j hpc => by cases hidle.symm.trans hpc
    waking := fun _ hall => .inl ⟨hall,fun j sq hpc => absurd (hidle.symm.trans hpc) (by simp)⟩ }
  have hview : (s.view i).execInitShareInputScan false k=⟨
      { (s.slices i).setNode k .fresh with nsharers := (s.slices i).nsharers+1 },
      some { s.entry.getD {} with refcount := (s.entry.getD {}).refcount+1 },s.frozen⟩ := rfl
  rw [hview]
  cases he : s.entry with
  | some e => exact h.consumer_step hi hin he (hstep e)
  | none =>
    rcases h.gone he with hall | ⟨hfin,-⟩
    · exact (h.create hall).consumer_step hi hin rfl (hstep {})
    · -- the producer has waited for every consumer slice, so none starts any more
      have hpassed : (s.slices 0).Passed :=
        ⟨0,h.producer.nonempty,.inl (hfin 0 h.producer.nonempty)⟩
      cases hopen.symm.trans (h.passed hpassed i hi hin)

theorem refcount_pos (hin : i≤n) (he : s.entry=some e)
    (hk : k<(s.slices i).numNodes) (href : ((s.slices i).nodes k).hasRef=true) : 0<e.refcount := by
  apply Nat.pos_of_ne_zero
  intro hzero
  have := tally_eq_zero.mp (h.refs_eq_zero he hzero i hin) k hk
  cases href.symm.trans this

/-- A consumer slice gives up a reference. Only a node that has read ends with a reference, so the
producer has started when the entry goes. -/
theorem consumer_release {sq : Bool} (hi : 0 < i) (hin : i≤n)
    (he : s.entry=some e) (hp : (s.slices i).pc=.release k sq) :
    Inv n (s.store i ⟨{ (s.slices i).setNode k (if sq then .squelched else .ended) with pc := .idle },
      releaseShareinputReference e sq,s.frozen⟩) := by
  have hok := h.consumer i hi hin
  have hpc := hok.pc
  rw [hp] at hpc
  obtain ⟨hph,hk,href,hcl⟩ := hpc
  have hcnt := h.refcount_pos hin he hk href
  have hgone : hasRef (if sq then .squelched else .ended)=false := by cases sq <;> rfl
  have hrefs := refs_setNode (c := s.slices i) (x := if sq then .squelched else .ended) hk
  rw [href,hgone] at hrefs
  have hstep : ConsumerStep n i (s.slices i) e
      { (s.slices i).setNode k (if sq then .squelched else .ended) with pc := .idle }
      { e with refcount := e.refcount-1 } := {
    ok := by
      cases sq with
      | true => exact hok.releaseSquelched hp
      | false => exact hok.releaseEnded hp
    refs := by
      have hnew : (refs { (s.slices i).setNode k (if sq then .squelched else .ended) with
          pc := .idle })=((s.slices i).setNode k (if sq then .squelched else .ended)).refs := rfl
      rw [hnew]
      simp only [Bool.toNat_true,Bool.toNat_false] at hrefs
      dsimp only
      omega
    ndone := rfl
    closed := id
    ready := rfl
    opened := .inl
    waiters := fun _ _ hmem => hmem
    asleep := fun j hj => by cases hj
    waking := fun _ hall => .inl ⟨hall,by simp [hp]⟩ }
  have hmov := h.consumer_step hi hin he hstep
  unfold releaseShareinputReference
  by_cases hlast : sq=false ∧ e.refcount-1=0
  · rw [if_pos hlast]
    obtain ⟨rfl,hzero⟩ := hlast
    apply hmov.remove rfl hzero
    rw [store_slices_of_ne (ne_of_lt hi)]
    have hrdg : (s.slices i).nodes k=.reading := by
      have hnode := hok.nodes k hk
      rw [show (s.slices i).phase=.ending from hph] at hnode
      rcases hnode with hx | hx | hx
      · exact hx
      · simp [hx] at href
      · simp [hx] at href
    exact h.phase_of_published (h.opened i hi hin (hok.reading k hk hrdg))
  · rw [if_neg hlast]
    exact hmov

/-- A consumer goes on in the function that it is in. -/
theorem consumer_advance (hi : 0 < i) (hin : i≤n)
    (hv : (s.view i).advance n i=some v) : Inv n (s.store i v) := by
  have hok := h.consumer i hi hin
  have hpc := hok.pc
  have hat : (s.view i).slice=s.slices i := rfl
  unfold View.advance at hv
  rw [hat] at hv
  cases hp : (s.slices i).pc with
  | idle =>
    rw [hp] at hv
    cases hv
  | waitReady k prepared =>
    rw [hp] at hv hpc
    obtain ⟨hph,hk,hfres⟩ := hpc
    obtain ⟨e,he,rfl⟩ := map_eq_some_iff.mp hv
    have hsq : (s.slices i).pc.squelching=false := by rw [hp]; rfl
    have hnot : ∀ j, (s.slices i).pc≠.notifyDone j true := by simp [hp]
    split
    · next hrdy =>
      -- the tuplestore is opened
      apply h.consumer_step hi hin he
      have href : ((s.slices i).nodes k).hasRef=true := by rw [hfres]; rfl
      have hset : (s.slices i).setReady k=
          { (s.slices i).setNode k .reading with ready := true, pc := .idle } := by
        simp [setReady,hph]
      rw [hset]
      apply of_same
      case hok => exact hok.setReading hph href hsq hnot
      case hrefs => exact refs_setNode_same (by rw [hfres]; rfl)
      case hcl | hcnt | hndon | hrdy => rfl
      case hopn => exact fun _ => .inr hrdy
      case hwait => exact fun j _ hmem => mem_of_mem_filter hmem
      case hasl => exact fun j hj => by cases hj
      case hsil => simp [hp]
    · next hrdy =>
      split
      · have hmov : ConsumerOk { s.slices i with pc := .sleepReady k } :=
          hok.setPc_wait hph hsq hnot ⟨hph,hk,hfres⟩ rfl (by simp)
        rw [he]
        apply h.consumer_step hi hin he
        refine of_same hmov rfl rfl rfl rfl rfl .inl (fun _ _ hmem => hmem) ?_ ?_
        · exact fun _ _ => by simpa using hrdy
        · simp [hp]
      · have hmov : ConsumerOk { s.slices i with pc := .waitReady k true } :=
          hok.setPc_wait hph hsq hnot ⟨hph,hk,hfres⟩ rfl (by simp)
        apply h.consumer_step hi hin he
        refine of_same hmov rfl rfl rfl rfl rfl .inl
          (fun j hj hmem => mem_of_mem_cons hj hmem) ?_ ?_
        · exact fun _ hj => by cases hj
        · simp [hp]
  | sleepReady k =>
    rw [hp] at hv hpc
    obtain ⟨hph,hk,hfres⟩ := hpc
    obtain ⟨e,he,hv⟩ := bind_eq_some_iff.mp hv
    obtain ⟨-,hv⟩ := ite_none_left_eq_some.mp hv
    cases hv
    have hmov : ConsumerOk { s.slices i with pc := .waitReady k true } :=
      hok.setPc_wait hph (by rw [hp]; rfl) (by simp [hp]) ⟨hph,hk,hfres⟩ rfl (by simp)
    apply h.consumer_step hi hin he
    refine of_same hmov rfl rfl rfl rfl rfl .inl (fun j hj hmem => mem_of_mem_cons hj hmem) ?_ ?_
    · exact fun _ hj => by cases hj
    · simp [hp]
  | notifyDone k sq =>
    rw [hp] at hv hpc
    obtain ⟨hph,hk,href,hopen,-⟩ := hpc
    obtain ⟨e,he,rfl⟩ := map_eq_some_iff.mp hv
    apply h.consumer_step hi hin he
    constructor
    case ok =>
      apply hok.notifyDone hp
      split
      · exact .inl rfl
      · exact .inr rfl
    case refs | ready => rfl
    case ndone => simp only [hopen,Bool.toNat_false,Bool.toNat_true]
    case closed => exact fun _ => rfl
    case opened => exact .inl
    case waiters => exact fun _ _ hmem => hmem
    case asleep =>
      intro j hj
      split at hj <;> cases hj
    case waking =>
      intro _ hall
      exact .inr ⟨k,sq,if_pos hall⟩
  | broadcastDone k sq =>
    rw [hp] at hv
    obtain ⟨e,he,rfl⟩ := map_eq_some_iff.mp hv
    apply h.consumer_step hi hin he
    constructor
    case ok => exact hok.broadcastDone hp
    case refs | ndone | ready => rfl
    case closed => exact id
    case opened => exact .inl
    case waiters => exact fun _ _ hmem => by cases hmem
    case asleep => exact fun j hj => by cases hj
    case waking => exact fun hmem => by cases hmem
  | release k sq =>
    rw [hp] at hv
    obtain ⟨e,he,rfl⟩ := map_eq_some_iff.mp hv
    exact h.consumer_release hi hin he hp
  | _ =>
    rw [hp] at hpc
    exact hpc.elim

/-- A consumer's executor calls a function of a node. -/
theorem consumer_act (hi : 0 < i) (hin : i≤n)
    (hv : (s.view i).act n i a=some v) : Inv n (s.store i v) := by
  have hok := h.consumer i hi hin
  have hslc : (s.view i).slice=s.slices i := rfl
  have hprod : decide (i=0)=false := decide_eq_false (ne_of_gt hi)
  cases a with
  | initNode k =>
    obtain ⟨⟨hph,hk,hnode⟩,rfl⟩ := of_guard hv
    rw [hprod]
    exact h.consumer_initNode hi hin hph hk hnode
  | run =>
    obtain ⟨⟨hph,hall⟩,rfl⟩ := of_guard hv
    obtain ⟨hidle,-⟩ := hok.starting hph
    apply h.consumer_local hi hin (hok.run hph hall)
    exact of_idle hidle rfl rfl rfl (by simp [hidle]) hok.nonempty (hall 0 hok.nonempty)
  | execNode k =>
    obtain ⟨⟨hph,hidle,hk,href⟩,rfl⟩ := of_guard hv
    rw [hprod]
    rw [hslc] at hph hidle hk href ⊢
    have hnode := ne_uninit_of_hasRef href
    unfold execShareInputScan initTuplestoreState
    split
    · apply h.consumer_local hi hin hok
      exact of_idle hidle rfl rfl rfl (by simp [hidle]) hk hnode
    · next hfres =>
      split
      · next hrdy =>
        have hset : (s.slices i).setNode k .reading=
            { (s.slices i).setNode k .reading with ready := true, pc := .idle } := by
          cases hc : s.slices i
          simp_all
        have hmov := hok.setReading (k := k) hph href (by rw [hidle]; rfl) (by simp [hidle])
        rw [← hset] at hmov
        apply h.consumer_local hi hin hmov
        exact of_idle hidle (refs_setNode_same (by rw [href]; rfl)) rfl rfl
          (by simp [hidle]) hk hnode
      · have hnew : (s.slices i).nodes k=.fresh := by
          have hallw := hok.nodes k hk
          rw [hph] at hallw
          rcases hallw with hx | hx | hx
          · exact hx
          · exact absurd hx hfres
          · simp [hx] at href
        have hmov : ConsumerOk { s.slices i with pc := .waitReady k false } :=
          hok.setPc_wait hph (by rw [hidle]; rfl) (by simp [hidle]) ⟨hph,hk,hnew⟩ rfl
            (by simp)
        apply h.consumer_local hi hin hmov
        exact of_idle hidle rfl rfl rfl (by simp) hk hnode
  | squelchNode k =>
    obtain ⟨⟨hph,hidle,hk,href⟩,rfl⟩ := of_guard hv
    rw [hprod]
    rw [hslc] at hph hidle hk href ⊢
    apply h.consumer_local hi hin (hok.squelchNode hph hidle hk href)
    refine of_idle hidle rfl rfl rfl ?_ hk (ne_uninit_of_hasRef href)
    intro j
    split <;> simp
  | finish =>
    obtain ⟨⟨hph,hidle,hcan⟩,rfl⟩ := of_guard hv
    rw [hslc] at hph hidle hcan ⊢
    have hall := hcan.resolve_left (by simp [hprod])
    apply h.consumer_local hi hin (hok.finish hidle hall)
    refine of_idle hidle rfl rfl rfl (by simp [hidle]) hok.nonempty ?_
    rcases hall 0 hok.nonempty with hx | hx <;> simp [hx]
  | endNode k =>
    obtain ⟨⟨hph,hidle,hk,hnode⟩,rfl⟩ := of_guard hv
    rw [hprod]
    rw [hslc] at hph hidle hk hnode ⊢
    unfold execEndShareInputScan
    split
    · next href =>
      rw [if_neg (by simp)]
      have hmov : ConsumerOk { s.slices i with
          pc := if (s.slices i).closed then .release k false else .notifyDone k false } := by
        apply hok.setPc_ending hph
        split
        · next hcl => exact ⟨hph,hk,href,fun _ => hcl⟩
        · next hopen => exact ⟨hph,hk,href,by simpa using hopen,fun hsq => absurd hsq (by simp)⟩
      apply h.consumer_local hi hin hmov
      refine of_idle hidle rfl rfl rfl ?_ hk (ne_uninit_of_hasRef href)
      intro j
      split <;> simp
    · next href =>
      have hsql : (s.slices i).nodes k=.squelched := by
        have hallw := hok.nodes k hk
        rw [hph] at hallw
        rcases hallw with hx | hx | hx
        · simp [hx] at href
        · exact hx
        · exact absurd hx hnode
      have hset : (s.slices i).setNode k .ended=
          { (s.slices i).setNode k .ended with pc := .idle } := by
        cases hc : s.slices i
        simp_all
      have hmov := hok.setEnded hph hk (.inr (by simp [hsql]))
      rw [← hset] at hmov
      apply h.consumer_local hi hin hmov
      exact of_idle hidle (refs_setNode_same (by rw [hsql]; rfl)) rfl rfl
        (by simp [hidle]) hk (by simp [hsql])
  | advance => exact h.consumer_advance hi hin hv

end Inv

end

open ProducerStep
open Option (map_eq_some_iff)

variable {k : Nat} {p p' : Slice} {e : XsliceState}

theorem Slice.published_iff_of_pc (hpc : ∀ k, p.pc≠.broadcastReady k) :
    p.Published ↔ p.ready=true := by
  simp [Published,hpc]

theorem Slice.Passed.of_same (h : p'.Passed) (hnum : p'.numNodes=p.numNodes)
    (hended : ∀ k<p.numNodes, p'.nodes k=.ended → p.nodes k=.ended)
    (hpc : ∀ k, p'.pc≠.release k false) : p.Passed := by
  obtain ⟨k,hk,hnode | hat⟩ := h
  · exact ⟨k,hnum ▸ hk,.inl (hended k (hnum ▸ hk) hnode)⟩
  · exact absurd hat (hpc k)

theorem Slice.forall_setNode_imp (hx : x≠y) :
    ∀ j<p.numNodes, (p.setNode k x).nodes j=y → p.nodes j=y := by
  intro j _ hy
  by_cases hjk : j=k
  · rw [hjk,setNode_nodes_self] at hy
    exact absurd hy hx
  · rwa [setNode_nodes_of_ne hjk] at hy

theorem ProducerStep.of_idle (hrdy : e.ready=true ↔ p.Published)
    (hfroz : p.Published ∨ (∃ k, p.pc=.notifyReady k) → f=true) (hok : ProducerOk p')
    (hidle : p.pc=.idle) (hrefs : p'.refs=p.refs) (hsame : p'.ready=p.ready)
    (hpc : p'.pc=.idle ∨ p'.pc=.materialize k ∨ p'.pc=.prepareDone k)
    (hpass : p'.Passed → p.Passed) : ProducerStep n p e f p' e f := by
  have hnot : ∀ j, p'.pc≠.broadcastReady j := by rcases hpc with hx | hx | hx <;> simp [hx]
  have hpub : p'.Published ↔ p.Published := by
    rw [published_iff_of_pc hnot,published_iff_of_pc (by simp [hidle]),hsame]
  constructor
  case ok => exact hok
  case refs => rw [hrefs]
  case ndone => rfl
  case published => exact hpub.mpr
  case ready => exact hrdy.trans hpub.symm
  case frozen =>
    rintro (hx | ⟨j,hj⟩)
    · exact hfroz (.inl (hpub.mp hx))
    · rcases hpc with hx | hx | hx <;> cases hx.symm.trans hj
  case waiters => exact fun _ _ hmem => hmem
  case asleep => exact fun hx => .inr (.inr ⟨hx,by simp [hidle]⟩)
  case waking =>
    intro j hj
    rcases hpc with hx | hx | hx <;> cases hx.symm.trans hj
  case passed => exact fun hx => .inl (hpass hx)

theorem ProducerStep.of_ready {pc : Pc} (hrdy : e.ready=true ↔ p.Published)
    (hfroz : p.Published ∨ (∃ k, p.pc=.notifyReady k) → f=true)
    (hok : ProducerOk { p with pc := pc }) (hp : p.ready=true)
    (hnot : ∀ j, p.pc≠.broadcastReady j) (hcnt : e'.refcount=e.refcount)
    (hndon : e'.ndone=e.ndone) (hsame : e'.ready=e.ready)
    (hwait : ∀ j, j≠0 → j∈e'.waiters → j∈e.waiters) (hwak : ∀ k, pc=.sleepDone k → e.ndone<n)
    (hpass : (∃ k, pc=.release k false) → n≤e.ndone) :
    ProducerStep n p e f { p with pc := pc } e' f := by
  have hpub : p.Published := .inl hp
  constructor
  case ok => exact hok
  case refs => rw [hcnt]; rfl
  case ndone => exact hndon
  case published => exact fun _ => .inl hp
  case ready =>
    rw [hsame]
    exact ⟨fun _ => .inl hp,fun _ => hrdy.mpr hpub⟩
  case frozen => exact fun _ => hfroz (.inl hpub)
  case waiters => exact hwait
  case asleep => exact fun hx => .inr (.inr ⟨hsame ▸ hx,hnot⟩)
  case waking => exact fun k hk => hndon ▸ hwak k hk
  case passed =>
    rintro ⟨k,hk,hnode | hat⟩
    · exact .inl ⟨k,hk,.inl hnode⟩
    · exact .inr (hpass ⟨k,hat⟩)

namespace Inv

open State

section

variable (h : Inv n s)
include h

theorem producer_takeReference (he : s.entry=some e)
    (hph : (s.slices 0).phase=.starting) (hk : k<(s.slices 0).numNodes)
    (hnode : (s.slices 0).nodes k=.uninit) :
    Inv n (s.store 0 ⟨(s.slices 0).setNode k .fresh,some { e with refcount := e.refcount+1 },
      s.frozen⟩) := by
  obtain ⟨hidle,-⟩ := h.producer.starting hph
  have hrefs := refs_setNode (x := .fresh) hk
  rw [hnode] at hrefs
  have hpub : ((s.slices 0).setNode k .fresh).Published ↔ (s.slices 0).Published := Iff.rfl
  apply h.producer_step he
  constructor
  case ok => exact h.producer.initNode hph
  case refs =>
    simp only [hasRef,Bool.toNat_true,Bool.toNat_false] at hrefs
    dsimp only
    omega
  case ndone => rfl
  case published => exact hpub.mpr
  case ready => exact (h.entry e he).ready.trans hpub.symm
  case frozen => exact h.frozen
  case waiters => exact fun _ _ hmem => hmem
  case asleep => exact fun hx => .inr (.inr ⟨hx,by simp [hidle]⟩)
  case waking => exact fun j hj => by cases hidle.symm.trans hj
  case passed =>
    intro hpass
    left
    refine hpass.of_same (p := s.slices 0) rfl (forall_setNode_imp (by simp)) ?_
    exact fun j hj => by cases hidle.symm.trans hj

theorem producer_initNode (hph : (s.slices 0).phase=.starting)
    (hk : k<(s.slices 0).numNodes) (hnode : (s.slices 0).nodes k=.uninit) :
    Inv n (s.store 0 ((s.view 0).execInitShareInputScan true k)) := by
  have hview : (s.view 0).execInitShareInputScan true k=⟨(s.slices 0).setNode k .fresh,
      some { s.entry.getD {} with refcount := (s.entry.getD {}).refcount+1 },s.frozen⟩ := rfl
  rw [hview]
  cases he : s.entry with
  | some e => exact h.producer_takeReference he hph hk hnode
  | none =>
    rcases h.gone he with hall | ⟨hfin,-⟩
    · exact (h.create hall).producer_takeReference rfl hph hk hnode
    · cases hnode.symm.trans (hfin k hk)

theorem producer_local (hk : k<(s.slices 0).numNodes)
    (href : ((s.slices 0).nodes k).hasRef=true) (hok : ProducerOk p')
    (hidle : (s.slices 0).pc=.idle) (hrefs : p'.refs=(s.slices 0).refs)
    (hsame : p'.ready=(s.slices 0).ready)
    (hpc : p'.pc=.idle ∨ p'.pc=.materialize k ∨ p'.pc=.prepareDone k)
    (hpass : p'.Passed → (s.slices 0).Passed) : Inv n (s.store 0 ⟨p',s.entry,s.frozen⟩) := by
  obtain ⟨e,he⟩ := h.entry_of_ref (Nat.zero_le n) hk href
  rw [he]
  apply h.producer_step he
  exact of_idle (h.entry e he).ready h.frozen hok hidle hrefs hsame hpc hpass

theorem producer_initTuplestoreState (hph : (s.slices 0).phase≠.starting)
    (hidle : (s.slices 0).pc=.idle) (hk : k<(s.slices 0).numNodes)
    (href : ((s.slices 0).nodes k).hasRef=true) :
    Inv n (s.store 0 ⟨(s.slices 0).initTuplestoreState true k,s.entry,s.frozen⟩) := by
  have hok := h.producer.initTuplestoreState hph hidle hk href
  have hcases : (s.slices 0).initTuplestoreState true k=(s.slices 0).setNode k .reading ∨
      (s.slices 0).initTuplestoreState true k={ s.slices 0 with pc := .materialize k } := by
    unfold initTuplestoreState
    split
    · exact .inl rfl
    · exact .inr (if_pos rfl)
  generalize (s.slices 0).initTuplestoreState true k=p' at *
  rcases hcases with rfl | rfl
  · refine h.producer_local hk href hok hidle (refs_setNode_same (by rw [href]; rfl)) rfl
      (.inl hidle) fun hpass => ?_
    refine hpass.of_same (p := s.slices 0) rfl (forall_setNode_imp (by simp)) ?_
    exact fun j hj => by cases hidle.symm.trans hj
  · refine h.producer_local hk href hok hidle rfl rfl (.inr (.inl rfl)) fun hpass => ?_
    exact hpass.of_same (p := s.slices 0) rfl (fun _ _ hx => hx) (by simp)

theorem producer_release (he : s.entry=some e) (hp : (s.slices 0).pc=.release k false) :
    Inv n (s.store 0 ⟨{ (s.slices 0).setNode k .ended with pc := .idle },
      releaseShareinputReference e false,s.frozen⟩) := by
  have hpc := h.producer.pc
  rw [hp] at hpc
  obtain ⟨-,hph,hk,href,hrdy⟩ := hpc
  have hcnt := h.refcount_pos (Nat.zero_le n) he hk href
  have hrefs := refs_setNode (c := s.slices 0) (x := .ended) hk
  rw [href] at hrefs
  have hpub : (s.slices 0).Published := .inl hrdy
  have hstep : ProducerStep n (s.slices 0) e s.frozen
      { (s.slices 0).setNode k .ended with pc := .idle } { e with refcount := e.refcount-1 }
      s.frozen := {
    ok := h.producer.setEnded hph hrdy
    refs := by
      have hnew : (refs { (s.slices 0).setNode k .ended with pc := .idle })=
          ((s.slices 0).setNode k .ended).refs := rfl
      rw [hnew]
      simp only [hasRef,Bool.toNat_true,Bool.toNat_false] at hrefs
      dsimp only
      omega
    ndone := rfl
    published := fun _ => .inl hrdy
    ready := by
      constructor
      · exact fun _ => .inl hrdy
      · exact fun _ => (h.entry e he).ready.mpr hpub
    frozen := fun _ => h.frozen (.inl hpub)
    waiters := fun _ _ hmem => hmem
    asleep := fun hx => .inr (.inr ⟨hx,by simp [hp]⟩)
    waking := fun j hj => by cases hj
    passed := fun _ => .inl ⟨k,hk,.inr hp⟩ }
  have hmov := h.producer_step he hstep
  unfold releaseShareinputReference
  dsimp only
  split
  · next hlast =>
    apply hmov.remove rfl hlast.2
    rw [store_slices_self]
    show (s.slices 0).phase≠.starting
    simp [hph]
  · exact hmov

/-- The producer goes on in the function that it is in. -/
theorem producer_advance (hv : (s.view 0).advance n 0=some v) : Inv n (s.store 0 v) := by
  have hpc := h.producer.pc
  have hslc : (s.view 0).slice=s.slices 0 := rfl
  unfold View.advance at hv
  rw [hslc] at hv
  cases hp : (s.slices 0).pc with
  | idle =>
    rw [hp] at hv
    cases hv
  | materialize k =>
    rw [hp] at hv hpc
    obtain ⟨hph,hk,href,hrdy⟩ := hpc
    cases hv
    obtain ⟨e,he⟩ := h.entry_of_ref (Nat.zero_le n) hk href
    have hmov : ProducerOk { s.slices 0 with pc := .notifyReady k } :=
      h.producer.setPc hph ⟨hph,hk,href,hrdy⟩
    have hnew : ¬Slice.Published { s.slices 0 with pc := .notifyReady k } := by
      simp [Slice.Published,hrdy]
    have hold : ¬(s.slices 0).Published := by simp [Slice.Published,hrdy,hp]
    rw [show (s.view 0).entry=some e from he]
    apply h.producer_step he
    constructor
    case ok => exact hmov
    case refs | ndone => rfl
    case published => exact fun hx => absurd hx hold
    case ready => rw [(h.entry e he).ready]; exact ⟨fun hx => absurd hx hold,fun hx => absurd hx hnew⟩
    case frozen => exact fun _ => rfl
    case waiters => exact fun _ _ hmem => hmem
    case asleep => exact fun hx => absurd ((h.entry e he).ready.mp hx) hold
    case waking => exact fun j hj => by cases hj
    case passed =>
      exact fun hx => .inl (hx.of_same (p := s.slices 0) rfl (fun _ _ hy => hy) (by simp))
  | notifyReady k =>
    rw [hp] at hv hpc
    obtain ⟨hph,hk,href,hrdy⟩ := hpc
    obtain ⟨e,he,rfl⟩ := map_eq_some_iff.mp hv
    have hmov : ProducerOk { s.slices 0 with pc := .broadcastReady k } :=
      h.producer.setPc hph ⟨hph,hk,href,hrdy⟩
    have hnew : Slice.Published { s.slices 0 with pc := .broadcastReady k } := .inr ⟨k,rfl⟩
    apply h.producer_step he
    constructor
    case ok => exact hmov
    case refs | ndone => rfl
    case published => exact fun _ => hnew
    case ready => exact ⟨fun _ => hnew,fun _ => rfl⟩
    case frozen => exact fun _ => h.frozen (.inr ⟨k,hp⟩)
    case waiters => exact fun _ _ hmem => hmem
    case asleep => exact fun _ => .inl ⟨k,rfl⟩
    case waking => exact fun j hj => by cases hj
    case passed =>
      exact fun hx => .inl (hx.of_same (p := s.slices 0) rfl (fun _ _ hy => hy) (by simp))
  | broadcastReady k =>
    rw [hp] at hv hpc
    obtain ⟨hph,hk,href,hrdy⟩ := hpc
    obtain ⟨e,he,rfl⟩ := map_eq_some_iff.mp hv
    have hpub : (s.slices 0).Published := .inr ⟨k,hp⟩
    apply h.producer_step he
    constructor
    case ok => exact h.producer.setReady hph hk
    case refs =>
      have hsame : ((s.slices 0).setReady k).refs=(s.slices 0).refs :=
        refs_setNode_same (by rw [href]; rfl)
      rw [hsame]
    case ndone => rfl
    case published => exact fun _ => .inl rfl
    case ready => exact ⟨fun _ => .inl rfl,fun _ => (h.entry e he).ready.mpr hpub⟩
    case frozen => exact fun _ => h.frozen (.inl hpub)
    case waiters => exact fun _ _ hmem => by cases hmem
    case asleep => exact fun _ => .inr (.inl (by simp))
    case waking =>
      intro j hj
      simp only [setReady] at hj
      split at hj <;> cases hj
    case passed =>
      intro hx
      refine .inl (hx.of_same (p := s.slices 0) rfl (forall_setNode_imp (by simp)) ?_)
      intro j hj
      simp only [setReady] at hj
      split at hj <;> cases hj
  | prepareDone k =>
    rw [hp] at hv hpc
    obtain ⟨hph,hk,href,hrdy⟩ := hpc
    obtain ⟨e,he,hv⟩ := Option.bind_eq_some_iff.mp hv
    obtain ⟨-,rfl⟩ := of_guard hv
    have hmov : ProducerOk { s.slices 0 with pc := .waitDone k } :=
      h.producer.setPc (by simp [hph]) ⟨hph,hk,href,hrdy⟩
    apply h.producer_step he
    exact of_ready (h.entry e he).ready h.frozen hmov hrdy (by simp [hp]) rfl rfl rfl
      (fun j hj hmem => mem_of_mem_cons hj hmem) (by simp) (by simp)
  | waitDone k =>
    rw [hp] at hv hpc
    obtain ⟨hph,hk,href,hrdy⟩ := hpc
    obtain ⟨e,he,rfl⟩ := map_eq_some_iff.mp hv
    split
    · next hless =>
      have hmov : ProducerOk { s.slices 0 with pc := .sleepDone k } :=
        h.producer.setPc (by simp [hph]) ⟨hph,hk,href,hrdy⟩
      rw [show (s.view 0).entry=some e from he]
      apply h.producer_step he
      exact of_ready (h.entry e he).ready h.frozen hmov hrdy (by simp [hp]) rfl rfl
        rfl (fun _ _ hmem => hmem) (fun _ _ => hless) (by simp)
    · next hall =>
      have hmov : ProducerOk { s.slices 0 with pc := .release k false } :=
        h.producer.setPc (by simp [hph]) ⟨rfl,hph,hk,href,hrdy⟩
      apply h.producer_step he
      exact of_ready (h.entry e he).ready h.frozen hmov hrdy (by simp [hp]) rfl rfl
        rfl (fun _ _ hmem => mem_of_mem_filter hmem) (by simp) fun _ => not_lt.mp hall
  | sleepDone k =>
    rw [hp] at hv hpc
    obtain ⟨hph,hk,href,hrdy⟩ := hpc
    obtain ⟨e,he,hv⟩ := Option.bind_eq_some_iff.mp hv
    obtain ⟨-,hv⟩ := Option.ite_none_left_eq_some.mp hv
    cases hv
    have hmov : ProducerOk { s.slices 0 with pc := .waitDone k } :=
      h.producer.setPc (by simp [hph]) ⟨hph,hk,href,hrdy⟩
    apply h.producer_step he
    exact of_ready (h.entry e he).ready h.frozen hmov hrdy (by simp [hp]) rfl rfl rfl
      (fun j hj hmem => mem_of_mem_cons hj hmem) (by simp) (by simp)
  | release k sq =>
    rw [hp] at hv hpc
    obtain ⟨rfl,-⟩ := hpc
    obtain ⟨e,he,rfl⟩ := map_eq_some_iff.mp hv
    exact h.producer_release he hp
  | _ =>
    rw [hp] at hpc
    exact hpc.elim

/-- The producer's executor calls a function of a node. -/
theorem producer_act (hv : (s.view 0).act n 0 a=some v) : Inv n (s.store 0 v) := by
  have hok := h.producer
  have hslc : (s.view 0).slice=s.slices 0 := rfl
  have hfirst (hph : (s.slices 0).phase≠.ending)
      (hnot : (s.slices 0).nodes 0≠.uninit) : ((s.slices 0).nodes 0).hasRef=true := by
    have hnode := hok.nodes 0 hok.nonempty
    cases hp : (s.slices 0).phase with
    | starting =>
      rw [hp] at hnode
      rw [hnode.resolve_left hnot]
      rfl
    | running =>
      rw [hp] at hnode
      rcases hnode with hx | hx <;> simp [hx,hasRef]
    | ending => exact absurd hp hph
  cases a with
  | initNode k =>
    obtain ⟨⟨hph,hk,hnode⟩,rfl⟩ := of_guard hv
    exact h.producer_initNode hph hk hnode
  | run =>
    obtain ⟨⟨hph,hall⟩,rfl⟩ := of_guard hv
    rw [hslc] at hph hall
    obtain ⟨hidle,-⟩ := hok.starting hph
    have href := hfirst (by simp [hph]) (hall 0 hok.nonempty)
    refine h.producer_local hok.nonempty href (hok.run hph hall) hidle rfl rfl (.inl hidle) ?_
    exact fun hx => hx.of_same (p := s.slices 0) rfl (fun _ _ hy => hy)
      fun j hj => by cases hidle.symm.trans hj
  | execNode k =>
    obtain ⟨⟨hph,hidle,hk,href⟩,rfl⟩ := of_guard hv
    rw [hslc] at hph hidle hk href ⊢
    have hstd : (s.slices 0).phase≠.starting := by simp [hph]
    unfold execShareInputScan
    split
    · exact h.producer_local hk href hok hidle rfl rfl (.inl hidle) id
    · exact h.producer_initTuplestoreState hstd hidle hk href
  | squelchNode k =>
    obtain ⟨⟨hph,hidle,hk,href⟩,rfl⟩ := of_guard hv
    rw [hslc] at hph hidle hk href ⊢
    have hstd : (s.slices 0).phase≠.starting := by simp [hph]
    unfold execSquelchShareInputScan
    rw [if_pos (by simp)]
    split
    · exact h.producer_local hk href hok hidle rfl rfl (.inl hidle) id
    · exact h.producer_initTuplestoreState hstd hidle hk href
  | finish =>
    obtain ⟨⟨hph,hidle,-⟩,rfl⟩ := of_guard hv
    rw [hslc] at hph hidle
    have hnode := hok.nodes 0 hok.nonempty
    rw [hph] at hnode
    have href := hfirst (by simp [hph]) (by rcases hnode with hx | hx <;> simp [hx])
    refine h.producer_local hok.nonempty href (hok.finish hph hidle) hidle rfl rfl
      (.inl hidle) ?_
    exact fun hx => hx.of_same (p := s.slices 0) rfl (fun _ _ hy => hy)
      fun j hj => by cases hidle.symm.trans hj
  | endNode k =>
    obtain ⟨⟨hph,hidle,hk,hnode⟩,rfl⟩ := of_guard hv
    rw [hslc] at hph hidle hk hnode ⊢
    have hstd : (s.slices 0).phase≠.starting := by simp [hph]
    have href : ((s.slices 0).nodes k).hasRef=true := by
      have hallw := hok.nodes k hk
      rw [hph] at hallw
      rcases hallw with hx | hx | hx
      · simp [hx,hasRef]
      · simp [hx,hasRef]
      · exact absurd hx hnode
    unfold execEndShareInputScan
    rw [if_pos href,if_pos (by simp)]
    split
    · next hrdy =>
      have hmov : ProducerOk { s.slices 0 with pc := .prepareDone k } :=
        hok.setPc hstd ⟨hph,hk,href,hrdy⟩
      refine h.producer_local hk href hmov hidle rfl rfl (.inr (.inr rfl)) ?_
      exact fun hx => hx.of_same (p := s.slices 0) rfl (fun _ _ hy => hy) (by simp)
    · exact h.producer_initTuplestoreState hstd hidle hk href
  | advance => exact h.producer_advance hv

theorem step (ht : s.step n a=some t) : Inv n t := by
  obtain ⟨i,a⟩ := a
  obtain ⟨hin,v,hv,rfl⟩ := of_guard_map ht
  obtain hzero | hpos := Nat.eq_zero_or_pos i
  · subst hzero
    exact h.producer_act hv
  · exact h.consumer_act hpos hin hv

end

end Inv

end WarehousePG.ShareInput
