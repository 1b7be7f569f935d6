import WarehousePG.Anchor.Registry
import WarehousePG.Framework.Transition

namespace WarehousePG.Anchor

open Framework Transam Function List

/-- A backend in `prepareRegisteredAnchor`, with the entry it looked up. From `locked` to `refused` it
holds ProcArrayLock shared; `installed` lasts to the end of its transaction. -/
inductive InstallPhase
  | idle
  | lookedUp (e : AnchorRegistryEntry)
  | loaded (e : AnchorRegistryEntry)
  | locked (e : AnchorRegistryEntry)
  | published (e : AnchorRegistryEntry) (savedXmin : TransactionId)
  | checked (e : AnchorRegistryEntry)
  | refused
  | installed (e : AnchorRegistryEntry)
  deriving DecidableEq

namespace InstallPhase

@[simp] def attempt : InstallPhase → Option AnchorRegistryEntry
  | .lookedUp e | .loaded e | .locked e | .published e _ | .checked e | .installed e => some e
  | .idle | .refused => none

def holdsLock : InstallPhase → Bool
  | .locked _ | .published _ _ | .checked _ | .refused => true
  | _ => false

@[simp] def exposes : InstallPhase → Option AnchorRegistryEntry
  | .published e _ | .checked e | .installed e => some e
  | _ => none

@[simp] def succeeded : InstallPhase → Option AnchorRegistryEntry
  | .checked e | .installed e => some e
  | _ => none

end InstallPhase

structure InstallProc where
  xmin : TransactionId
  phase : InstallPhase

inductive InstallAction
  | lookup (name : RpName)
  | load (ok : Bool)
  | acquire
  | publish
  | recheck
  | release
  | snapshot (xmin : TransactionId)
  | finish

def lowerXmin (target xmin : TransactionId) : TransactionId :=
  if !transactionIdIsValid target || transactionIdPrecedes xmin target then xmin else target

def AnchorRegistry.anchorSnapshotLookup (r : AnchorRegistry) (name : RpName) :
    Option AnchorRegistryEntry :=
  if !r.enabled || name.isEmpty then none else r.findEntry name

/-- What a backend does next; a shared lock waits for an exclusive holder. -/
def InstallProc.act (r : AnchorRegistry) (exclusive : Bool) (q : InstallProc) :
    InstallAction → Option InstallProc
  | .lookup name =>
    if q.phase=.idle then (r.anchorSnapshotLookup name).map fun e => { q with phase := .lookedUp e }
    else none
  | .load ok =>
    match q.phase with
    | .lookedUp e => some { q with phase := if ok then .loaded e else .idle }
    | _ => none
  | .acquire =>
    match q.phase with
    | .loaded e => if exclusive then none else some { q with phase := .locked e }
    | _ => none
  | .publish =>
    match q.phase with
    | .locked e => some ⟨lowerXmin q.xmin e.xmin,.published e q.xmin⟩
    | _ => none
  | .recheck =>
    match q.phase with
    | .published e savedXmin =>
      match r.anchorSnapshotLookup e.rpName with
      | some found =>
        some (if found.ordinal=e.ordinal then { q with phase := .checked e } else ⟨savedXmin,.refused⟩)
      | none => some ⟨savedXmin,.refused⟩
    | _ => none
  | .release =>
    match q.phase with
    | .checked e => some { q with phase := .installed e }
    | .refused => some { q with phase := .idle }
    | _ => none
  | .snapshot xmin => if q.phase=.idle ∧ q.xmin=0 then some { q with xmin := xmin } else none
  | .finish =>
    match q.phase with
    | .idle | .installed _ => some ⟨0,.idle⟩
    | _ => none

inductive RemovalPhase
  | idle
  | marked
  | exclusive
  | collecting
  deriving DecidableEq

structure InstallSystem where
  registry : AnchorRegistry
  numProcs : Nat
  procs : Nat → InstallProc
  startup : RemovalPhase
  collected : List (Nat × TransactionId)

inductive SystemAction
  | proc (p : Nat) (a : InstallAction)
  | register (name : RpName) (xmin : TransactionId)
  | mark (ordinals : List Nat)
  | lockExclusive
  | unlockExclusive
  | collect (p : Nat)
  | endRemoval

namespace InstallSystem

def start (capacity numProcs : Nat) : InstallSystem :=
  ⟨⟨capacity,1,[]⟩,numProcs,fun _ => ⟨0,.idle⟩,.idle,[]⟩

def setProc (s : InstallSystem) (p : Nat) (q : InstallProc) : InstallSystem :=
  { s with procs := update s.procs p q }

/-- Registrations and removals are the startup process's; any set of entries may be marked. -/
def step (s : InstallSystem) : SystemAction → Option InstallSystem
  | .proc p a =>
    if p<s.numProcs then
      ((s.procs p).act s.registry (s.startup=.exclusive) a).map (s.setProc p)
    else none
  | .register name xmin =>
    if s.startup=.idle then some { s with registry := (s.registry.registerAnchor name xmin).2 }
    else none
  | .mark ordinals =>
    if s.startup=.idle then
      some { s with
        registry := { s.registry with entries := s.registry.entries.filter (·.ordinal∉ordinals) }
        startup := .marked
        collected := [] }
    else none
  | .lockExclusive =>
    if s.startup=.marked ∧ ∀ p<s.numProcs, (s.procs p).phase.holdsLock=false then
      some { s with startup := .exclusive }
    else none
  | .unlockExclusive =>
    if s.startup=.exclusive then some { s with startup := .collecting } else none
  | .collect p =>
    if s.startup=.collecting then
      some { s with collected := s.collected ++ [(p, (s.procs p).xmin)] }
    else none
  | .endRemoval => if s.startup=.collecting then some { s with startup := .idle } else none

end InstallSystem

def Covers (published xmin : TransactionId) : Prop :=
  published=xmin ∨ transactionIdIsValid published=true ∧ transactionIdPrecedes xmin published=false

theorem covers_lowerXmin (target xmin : TransactionId) : Covers (lowerXmin target xmin) xmin := by
  unfold lowerXmin
  split_ifs with h
  · exact .inl rfl
  · simp only [Bool.or_eq_true,Bool.not_eq_true',not_or,Bool.not_eq_false,Bool.not_eq_true] at h
    exact .inr h

def Identifies (r : AnchorRegistry) (e : AnchorRegistryEntry) : Prop :=
  e.ordinal<r.nextOrdinal ∧ ∀ d∈r.entries, d.ordinal=e.ordinal → d=e

structure InstallInv (s : InstallSystem) : Prop where
  entries : ∀ e∈s.registry.entries, Identifies s.registry e
  attempts : ∀ p, ∀ e∈(s.procs p).phase.attempt, Identifies s.registry e
  exposed : ∀ p, ∀ e∈(s.procs p).phase.exposes, Covers (s.procs p).xmin e.xmin

def Gone (r : AnchorRegistry) (ordinal : Nat) : Prop :=
  ordinal<r.nextOrdinal ∧ ∀ e∈r.entries, e.ordinal≠ordinal

variable {r : AnchorRegistry} {q : InstallProc} {s t : InstallSystem}

theorem mem_of_anchorSnapshotLookup {name : RpName} {e : AnchorRegistryEntry}
    (h : r.anchorSnapshotLookup name=some e) : e∈r.entries :=
  mem_of_find?_eq_some (Option.ite_none_left_eq_some.mp h).2

/-- An action keeps the entry of the attempt or takes one from the registry, writes the xmin before
the re-check, and passes the re-check only with an entry of the same ordinal. -/
theorem act_spec {exclusive : Bool} (h : q.act r exclusive a=some q') :
    (∀ e∈q'.phase.attempt, e∈q.phase.attempt ∨ e∈r.entries) ∧
    ((∀ e∈q.phase.exposes, Covers q.xmin e.xmin) → ∀ e∈q'.phase.exposes, Covers q'.xmin e.xmin) ∧
    ∀ e∈q'.phase.succeeded, e∈q.phase.succeeded ∨ ∃ d∈r.entries, d.ordinal=e.ordinal := by
  obtain ⟨xmin,phase⟩ := q
  cases a with
  | lookup name =>
    obtain ⟨-,e,he,rfl⟩ := of_guard_map h
    refine ⟨fun d hd => ?_,fun _ d hd => (nomatch hd),fun d hd => (nomatch hd)⟩
    cases hd
    exact .inr (mem_of_anchorSnapshotLookup he)
  | load ok =>
    cases phase <;> cases h
    cases ok <;> simp
  | acquire =>
    cases phase <;> try cases h
    obtain ⟨-,h⟩ := Option.ite_none_left_eq_some.mp h
    cases h
    simp
  | publish =>
    cases phase <;> cases h
    simp [covers_lowerXmin]
  | recheck =>
    cases phase <;> try cases h
    next e savedXmin =>
      simp only [InstallProc.act] at h
      split at h
      next found hfnd =>
        cases h
        split_ifs with hord
        · have hmem := mem_of_anchorSnapshotLookup hfnd
          simpa using ⟨found,hmem,hord⟩
        · simp
      next =>
        cases h
        simp
  | release | finish => cases phase <;> cases h <;> simp
  | snapshot x =>
    obtain ⟨⟨rfl,-⟩,rfl⟩ := of_guard h
    simp

namespace InstallInv

theorem setProc (h : InstallInv s) (p : Nat)
    (hatt : ∀ e∈q.phase.attempt, e∈(s.procs p).phase.attempt ∨ e∈s.registry.entries)
    (hexp : ∀ e∈q.phase.exposes, Covers q.xmin e.xmin) : InstallInv (s.setProc p q) := by
  have hne (j : Nat) (hj : j≠p) : (s.setProc p q).procs j=s.procs j := update_of_ne hj _ _
  have hself : (s.setProc p q).procs p=q := update_self _ _ _
  refine ⟨h.entries,fun j => ?_,fun j => ?_⟩
  · by_cases hj : j=p
    · rw [hj,hself]
      exact fun e he => (hatt e he).elim (h.attempts p e) (h.entries e)
    · rw [hne j hj]
      exact h.attempts j
  · by_cases hj : j=p
    · rw [hj,hself]
      exact hexp
    · rw [hne j hj]
      exact h.exposed j

theorem setRegistry (h : InstallInv s) (hnext : s.registry.nextOrdinal≤r.nextOrdinal)
    (hent : ∀ e∈r.entries, e∈s.registry.entries ∨
      e.ordinal=s.registry.nextOrdinal ∧ s.registry.nextOrdinal<r.nextOrdinal ∧
        ∀ d∈r.entries, d.ordinal=e.ordinal → d=e) : InstallInv { s with registry := r } := by
  have hkeep (e : AnchorRegistryEntry) (he : Identifies s.registry e) : Identifies r e := by
    refine ⟨Nat.lt_of_lt_of_le he.1 hnext,fun d hd heq => ?_⟩
    rcases hent d hd with hd | ⟨hnew,-⟩
    · exact he.2 d hd heq
    · exact absurd (hnew.symm.trans heq) (Nat.ne_of_gt he.1)
  refine ⟨fun e he => ?_,fun p e he => hkeep e (h.attempts p e he),h.exposed⟩
  rcases hent e he with hold | ⟨hnew,hlt,hone⟩
  · exact hkeep e (h.entries e hold)
  · exact ⟨hnew ▸ hlt,hone⟩

end InstallInv

theorem entries_registerAnchor (name : RpName) (xmin : TransactionId)
    (h : ∀ e∈r.entries, e.ordinal<r.nextOrdinal) :
    r.nextOrdinal≤(r.registerAnchor name xmin).2.nextOrdinal ∧
    ∀ e∈(r.registerAnchor name xmin).2.entries, e∈r.entries ∨
      e.ordinal=r.nextOrdinal ∧ r.nextOrdinal<(r.registerAnchor name xmin).2.nextOrdinal ∧
        ∀ d∈(r.registerAnchor name xmin).2.entries, d.ordinal=e.ordinal → d=e := by
  unfold AnchorRegistry.registerAnchor
  split_ifs
  case neg =>
    refine ⟨Nat.le_succ _,fun e he => ?_⟩
    rcases mem_append.mp he with he | he
    · exact .inl he
    · obtain rfl := mem_singleton.mp he
      refine .inr ⟨rfl,Nat.lt_succ_self _,fun d hd heq => ?_⟩
      rcases mem_append.mp hd with hd | hd
      · exact absurd heq (Nat.ne_of_lt (h d hd))
      · exact mem_singleton.mp hd
  all_goals exact ⟨Nat.le_refl _,fun _ he => .inl he⟩

theorem InstallInv.step (h : InstallInv s) (ht : s.step a=some t) : InstallInv t := by
  cases a with
  | proc p a =>
    obtain ⟨-,q,hq,rfl⟩ := of_guard_map ht
    obtain ⟨hatt,hexp,-⟩ := act_spec hq
    exact h.setProc p hatt (hexp (h.exposed p))
  | register name xmin =>
    obtain ⟨-,rfl⟩ := of_guard ht
    have hreg := entries_registerAnchor name xmin fun e he => (h.entries e he).1
    exact h.setRegistry hreg.1 hreg.2
  | mark ordinals =>
    obtain ⟨-,rfl⟩ := of_guard ht
    have hreg := h.setRegistry (r := { s.registry with
      entries := s.registry.entries.filter (·.ordinal∉ordinals) }) (Nat.le_refl _)
      fun e he => .inl (mem_filter.mp he).1
    exact ⟨hreg.entries,hreg.attempts,hreg.exposed⟩
  | lockExclusive | unlockExclusive | collect p | endRemoval =>
    obtain ⟨-,rfl⟩ := of_guard ht
    exact ⟨h.entries,h.attempts,h.exposed⟩

/-- An ordinal that is gone from the registry stays gone, and no installation uses it. -/
theorem Gone.step {ordinal : Nat} (h : Gone s.registry ordinal)
    (hinv : InstallInv s) (ht : s.step a=some t) : Gone t.registry ordinal ∧
      ∀ p, ∀ e∈(t.procs p).phase.succeeded, e.ordinal=ordinal → e∈(s.procs p).phase.succeeded := by
  cases a with
  | proc p a =>
    obtain ⟨-,q,hq,rfl⟩ := of_guard_map ht
    refine ⟨h,fun j e he heq => ?_⟩
    by_cases hj : j=p
    · subst hj
      simp only [InstallSystem.setProc,update_self] at he
      rcases (act_spec hq).2.2 e he with hold | ⟨d,hd,hord⟩
      · exact hold
      · exact absurd (hord.trans heq) (h.2 d hd)
    · simpa only [InstallSystem.setProc,update_of_ne hj] using he
  | register name xmin =>
    obtain ⟨-,rfl⟩ := of_guard ht
    have hreg := entries_registerAnchor name xmin fun e he => (hinv.entries e he).1
    refine ⟨⟨Nat.lt_of_lt_of_le h.1 hreg.1,fun e he => ?_⟩,fun _ _ he _ => he⟩
    rcases hreg.2 e he with he | ⟨hnew,-⟩
    · exact h.2 e he
    · exact hnew ▸ Nat.ne_of_gt h.1
  | mark ordinals =>
    obtain ⟨-,rfl⟩ := of_guard ht
    exact ⟨⟨h.1,fun e he => h.2 e (mem_filter.mp he).1⟩,fun _ _ he _ => he⟩
  | lockExclusive | unlockExclusive | collect p | endRemoval =>
    obtain ⟨-,rfl⟩ := of_guard ht
    exact ⟨h,fun _ _ he _ => he⟩

open InstallSystem

/-- After an entry is marked every collection sees the xmin of a backend that has it installed, which
passed its re-check before the mark; a re-check that follows the mark fails and restores the xmin,
also when the name is registered again. -/
theorem removal_meets_installers (capacity numProcs : Nat) (before after : List SystemAction)
    (s t u : InstallSystem) (ordinals : List Nat) (e : AnchorRegistryEntry)
    (hs : run step (start capacity numProcs) before=some s) (he : e∈s.registry.entries)
    (hmark : s.step (.mark ordinals)=some t) (hin : e.ordinal∈ordinals)
    (hu : run step t after=some u) : (∀ p, ∀ d∈(u.procs p).phase.succeeded, d.ordinal=e.ordinal →
      d=e ∧ d∈(s.procs p).phase.succeeded ∧
      ∀ v, u.step (.collect p)=some v → ∃ x, (p,x)∈v.collected ∧ Covers x e.xmin) ∧
    (∀ p d savedXmin, (u.procs p).phase=.published d savedXmin → d.ordinal=e.ordinal →
      ∀ v, u.step (.proc p .recheck)=some v → v.procs p=⟨savedXmin,.refused⟩) ∧
    ∀ d∈u.registry.entries, d.rpName=e.rpName → d.ordinal≠e.ordinal := by
  have hstart : InstallInv (start capacity numProcs) :=
    ⟨fun _ he => (nomatch he),fun _ _ he => (nomatch he),fun _ _ he => (nomatch he)⟩
  have hinv := run_invariant (fun _ _ _ h ht => InstallInv.step h ht) hstart hs
  have hident := hinv.entries e he
  have hinvt := hinv.step hmark
  -- what is kept after the mark: the ordinal is gone, and who has it had it before
  have haft : InstallInv u ∧ Gone u.registry e.ordinal ∧
      ∀ p, ∀ d∈(u.procs p).phase.succeeded, d.ordinal=e.ordinal → d∈(s.procs p).phase.succeeded := by
    obtain ⟨-,rfl⟩ := of_guard hmark
    refine run_invariant (P := fun u => InstallInv u ∧ Gone u.registry e.ordinal ∧
      ∀ p, ∀ d∈(u.procs p).phase.succeeded, d.ordinal=e.ordinal → d∈(s.procs p).phase.succeeded)
      ?_ ⟨hinvt,⟨hident.1,?_⟩,fun _ _ hd _ => hd⟩ hu
    · rintro u a v ⟨hinv,hgone,hold⟩ hv
      obtain ⟨hgone',hsucc⟩ := hgone.step hinv hv
      exact ⟨hinv.step hv,hgone',fun p d hd heq => hold p d (hsucc p d hd heq) heq⟩
    · intro d hd heq
      have hout := of_decide_eq_true (mem_filter.mp hd).2
      exact hout (heq ▸ hin)
  obtain ⟨hinvu,hgone,hold⟩ := haft
  refine ⟨fun p d hd heq => ?_,fun p d savedXmin hph heq v hv => ?_,fun d hd _ => hgone.2 d hd⟩
  · have hbef := hold p d hd heq
    have hatt : d∈(s.procs p).phase.attempt := by cases hp : (s.procs p).phase <;> simp_all
    have hde : d=e := ((hinv.attempts p d hatt).2 e he heq.symm).symm
    refine ⟨hde,hbef,fun v hv => ?_⟩
    obtain ⟨-,rfl⟩ := of_guard hv
    have hexp : d∈(u.procs p).phase.exposes := by cases hp : (u.procs p).phase <;> simp_all
    exact ⟨_,mem_append_right _ (mem_singleton_self _),hde ▸ hinvu.exposed p d hexp⟩
  · obtain ⟨-,q,hq,rfl⟩ := of_guard_map hv
    simp only [setProc,update_self]
    simp only [InstallProc.act,hph] at hq
    split at hq
    next found hfnd =>
      have hne := hgone.2 found (mem_of_anchorSnapshotLookup hfnd)
      rw [if_neg (heq ▸ hne)] at hq
      exact (Option.some.inj hq).symm
    next => exact (Option.some.inj hq).symm

/-- Backend 0 installs the anchor, backend 1 is about to check it again. -/
def twoInstallers : List SystemAction :=
  [.register [97] 5,.proc 0 (.lookup [97]),.proc 0 (.load true),.proc 0 .acquire,.proc 0 .publish,
    .proc 0 .recheck,.proc 0 .release,.proc 1 (.lookup [97]),.proc 1 (.load true),.proc 1 .acquire,
    .proc 1 .publish]

def removeAndReuse : List SystemAction :=
  [.proc 1 .recheck,.proc 1 .release,.lockExclusive,.unlockExclusive,.collect 0,.endRemoval,
    .register [97] 9]

theorem removal_meets_installers_one_reader :
    ∃ s t u, run step (start 4 2) twoInstallers=some s ∧ s.step (.mark [1])=some t ∧
      run step t removeAndReuse=some u ∧ u.collected=[(0, 5)] ∧
      ∀ d∈u.registry.entries, d.rpName=[97] → d.ordinal≠1 :=
  ⟨_,_,_,rfl,rfl,rfl,rfl,(removal_meets_installers 4 2 twoInstallers removeAndReuse _ _ _ [1]
    ⟨[97],5,1⟩ rfl (.head _) rfl (by decide) rfl).2.2⟩

end WarehousePG.Anchor
