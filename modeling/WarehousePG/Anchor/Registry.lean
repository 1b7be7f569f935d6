import Mathlib.Data.List.Nodup
import WarehousePG.Transam.TransactionId

namespace WarehousePG.Anchor

open Transam List

/-- A restore point name as the bytes before its terminator. -/
abbrev RpName := List UInt8

def maxFNameLen : Nat := 64

def tmpSuffix : RpName := [0x2e,0x74,0x6d,0x70]

/-- A name has to be a path component and a value of the snapshot file's grammar. -/
def anchorNameIsValid (name : RpName) : Bool :=
  name.length≠0 && decide (name.length < maxFNameLen) &&
  name≠[0x2e] && name≠[0x2e,0x2e] &&
  !(decide (4<name.length) && name.drop (name.length-4)=tmpSuffix) &&
  name.all fun c => !(c=0x2f || c=0x5c || c<0x20 || c=0x7f)

structure AnchorRegistryEntry where
  rpName : RpName
  xmin : TransactionId
  ordinal : Nat
  deriving DecidableEq

structure AnchorRegistry where
  capacity : Nat
  nextOrdinal : Nat
  entries : List AnchorRegistryEntry
  deriving DecidableEq

def pgUint32Max : Nat := 2^32-1

inductive RegisterResult
  | ok
  | duplicate
  | full
  | exhausted
  deriving DecidableEq

namespace AnchorRegistry

def findEntry (r : AnchorRegistry) (name : RpName) : Option AnchorRegistryEntry :=
  r.entries.find? fun e => e.rpName=name

def enabled (r : AnchorRegistry) : Bool := 0<r.capacity

def registerAnchor (r : AnchorRegistry) (name : RpName) (xmin : TransactionId) :
    RegisterResult × AnchorRegistry :=
  if (r.findEntry name).isSome then (.duplicate, r)
  else if r.capacity≤r.entries.length then (.full, r)
  else if r.nextOrdinal=pgUint32Max then (.exhausted, r)
  else (.ok, { r with
    entries := r.entries ++ [⟨name,xmin,r.nextOrdinal⟩]
    nextOrdinal := r.nextOrdinal+1 })

/-- The victim of an eviction: the smallest ordinal among the unpublished entries. -/
def oldestUnpublished (r : AnchorRegistry) (published : RpName) : Option AnchorRegistryEntry :=
  r.entries.foldl (fun victim e =>
    if e.rpName=published then victim
    else match victim with
      | none => some e
      | some v => if e.ordinal<v.ordinal then some e else some v) none

end AnchorRegistry

structure AnchorFile where
  tli : Nat
  lsn : Nat
  xmin : TransactionId
  xmax : TransactionId
  suboverflowed : Bool
  subxip : List TransactionId
  deriving DecidableEq

structure AnchorStore where
  registry : AnchorRegistry
  files : RpName → Option AnchorFile

namespace AnchorStore

def removeFile (s : AnchorStore) (name : RpName) : AnchorStore :=
  { s with files := Function.update s.files name none }

def writeFile (s : AnchorStore) (name : RpName) (f : AnchorFile) : AnchorStore :=
  { s with files := Function.update s.files name (some f) }

def removeEntries (s : AnchorStore) (p : AnchorRegistryEntry → Bool) : AnchorStore where
  registry := { s.registry with entries := s.registry.entries.filter fun e => !p e }
  files := fun name =>
    if s.registry.entries.any fun e => p e && e.rpName=name then none else s.files name

def evictOldestUnpublished (s : AnchorStore) (published : RpName) : Option AnchorStore :=
  (s.registry.oldestUnpublished published).map fun victim => s.removeEntries (· = victim)

def registerAnchor (s : AnchorStore) (name : RpName) (xmin : TransactionId) :
    RegisterResult × AnchorStore :=
  let (res, registry) := s.registry.registerAnchor name xmin
  (res, { s with registry })

def registerAnchorEvicting (s : AnchorStore) (published name : RpName) (xmin : TransactionId) :
    RegisterResult × AnchorStore :=
  match s.registerAnchor name xmin with
  | (.full, s) =>
    match s.evictOldestUnpublished published with
    | some t => t.registerAnchor name xmin
    | none => (.full, s)
  | r => r

def applyPublication (s : AnchorStore) (name : RpName) : AnchorStore :=
  if !s.registry.enabled || !anchorNameIsValid name then s
  else match s.registry.findEntry name with
    | some e => s.removeEntries fun o => o.ordinal<e.ordinal
    | none => s

def invalidateAtOrBelow (s : AnchorStore) (horizon : TransactionId) : AnchorStore :=
  if !s.registry.enabled || !transactionIdIsValid horizon then s
  else s.removeEntries fun e => !transactionIdFollows e.xmin horizon

def sweepAnchorFiles (s : AnchorStore) (keep : Option RpName) : AnchorStore :=
  { s with files := fun name => if keep=some name then s.files name else none }

end AnchorStore

variable {name published : RpName} {r : AnchorRegistry} {s t : AnchorStore} {xmin : TransactionId}

namespace AnchorRegistry

theorem findEntry_isSome_iff (r : AnchorRegistry) (name : RpName) :
    (r.findEntry name).isSome=true ↔ ∃ e∈r.entries, e.rpName=name := by
  simp [findEntry,find?_isSome]

private theorem victim_fold (published : RpName) (es : List AnchorRegistryEntry)
    (v : Option AnchorRegistryEntry) : let w := es.foldl (fun victim e =>
      if e.rpName=published then victim
      else match victim with
        | none => some e
        | some v => if e.ordinal<v.ordinal then some e else some v) v
    (∀ e, w=some e → v=some e ∨ e∈es ∧ e.rpName≠published) ∧
    (v.isSome=true ∨ (∃ e∈es, e.rpName≠published) → w.isSome=true) := by
  induction es generalizing v with
  | nil => simp
  | cons a es ih =>
    simp only [foldl_cons,mem_cons]
    by_cases ha : a.rpName=published
    · have h := ih v
      simp only [if_pos ha] at h ⊢
      grind
    · simp only [if_neg ha]
      cases v with
      | none => have h := ih (some a); grind
      | some w =>
        by_cases hw : a.ordinal<w.ordinal
        · have h := ih (some a); grind
        · have h := ih (some w); grind

theorem oldestUnpublished_mem (h : r.oldestUnpublished published=some v) : v∈r.entries := by
  have hv := (victim_fold published r.entries none).1 v h
  simpa using hv.imp_right And.left

theorem oldestUnpublished_isSome (h : ∃ e∈r.entries, e.rpName≠published) :
    (r.oldestUnpublished published).isSome=true :=
  (victim_fold published r.entries none).2 (.inr h)

end AnchorRegistry

/-- `t` is `s` after some entries have been removed together with their files. -/
structure Pruned (s t : AnchorStore) : Prop where
  entries : t.registry.entries.Sublist s.registry.entries
  capacity : t.registry.capacity=s.registry.capacity
  ordinal : t.registry.nextOrdinal=s.registry.nextOrdinal
  file : ∀ name f, t.files name=some f → s.files name=some f
  entry_file : ∀ e∈t.registry.entries, t.files e.rpName=s.files e.rpName
  entry_of_file : ∀ name f, t.files name=some f → ∀ e∈s.registry.entries, e.rpName=name →
    e∈t.registry.entries
  other_file : ∀ name, (∀ e∈s.registry.entries, e.rpName≠name) → t.files name=s.files name

theorem Pruned.refl (s : AnchorStore) : Pruned s s := by constructor <;> simp_all

namespace AnchorStore

theorem removeEntries_pruned (s : AnchorStore) (p : AnchorRegistryEntry → Bool)
    (hn : (s.registry.entries.map (·.rpName)).Nodup) : Pruned s (s.removeEntries p) := by
  have inj := inj_on_of_nodup_map hn
  constructor
  case entries => exact filter_sublist
  case capacity | ordinal => rfl
  case file =>
    intro name f h
    simp only [removeEntries] at h
    split_ifs at h
    exact h
  case entry_file =>
    intro e he
    simp only [removeEntries,mem_filter,Bool.not_eq_true'] at he
    have : ¬ (s.registry.entries.any fun o => p o && decide (o.rpName=e.rpName))=true := by
      simp only [any_eq_true,Bool.and_eq_true,decide_eq_true_eq,not_exists,not_and]
      intro o ho hp heq
      have := inj ho he.1 heq
      simp_all
    simp only [removeEntries,if_neg this]
  case entry_of_file =>
    intro name f h e he heq
    simp only [removeEntries] at h
    split_ifs at h with hc
    simp only [any_eq_true,Bool.and_eq_true,decide_eq_true_eq,not_exists,not_and] at hc
    have hp : p e≠true := fun hp => hc e he hp heq
    simpa [removeEntries,he] using hp
  case other_file =>
    intro name h
    have : ¬ (s.registry.entries.any fun o => p o && decide (o.rpName=name))=true := by
      simp only [any_eq_true,Bool.and_eq_true,decide_eq_true_eq,not_exists,not_and]
      intro o ho _
      apply h o ho
    simp only [removeEntries,if_neg this]

theorem applyPublication_pruned (s : AnchorStore) (name : RpName)
    (hn : (s.registry.entries.map (·.rpName)).Nodup) : Pruned s (s.applyPublication name) := by
  unfold applyPublication
  split_ifs
  · apply Pruned.refl
  · split
    · apply removeEntries_pruned s _ hn
    · apply Pruned.refl

theorem invalidateAtOrBelow_pruned (s : AnchorStore) (horizon : TransactionId)
    (hn : (s.registry.entries.map (·.rpName)).Nodup) :
    Pruned s (s.invalidateAtOrBelow horizon) := by
  unfold invalidateAtOrBelow
  split_ifs
  · apply Pruned.refl
  · apply removeEntries_pruned s _ hn

theorem follows_of_mem_invalidateAtOrBelow {horizon : TransactionId} {e : AnchorRegistryEntry}
    (hon : s.registry.enabled=true) (hv : transactionIdIsValid horizon=true)
    (he : e∈(s.invalidateAtOrBelow horizon).registry.entries) :
    transactionIdFollows e.xmin horizon=true := by
  simp only [invalidateAtOrBelow,hon,hv,Bool.not_true,Bool.or_self,Bool.false_eq_true,
    if_false,removeEntries,mem_filter] at he
  simpa using he.2

def addEntry (s : AnchorStore) (name : RpName) (xmin : TransactionId) : AnchorStore :=
  { s with registry := { s.registry with
    entries := s.registry.entries ++ [⟨name,xmin,s.registry.nextOrdinal⟩]
    nextOrdinal := s.registry.nextOrdinal+1 } }

/-- An anchor can be registered: an ordinal is left, and a slot is free or can be freed. -/
def canRegister (s : AnchorStore) (published : RpName) : Bool :=
  s.registry.nextOrdinal≠pgUint32Max &&
  (s.registry.entries.length<s.registry.capacity ||
    s.registry.entries.any fun e => e.rpName≠published)

theorem registerAnchor_ok_or_unchanged (s : AnchorStore) (name : RpName) (xmin : TransactionId) :
    (s.registerAnchor name xmin=(.ok, s.addEntry name xmin) ∧
      s.registry.entries.length<s.registry.capacity) ∨
    ∃ res, res≠.ok ∧ s.registerAnchor name xmin=(res, s) := by
  simp only [registerAnchor,AnchorRegistry.registerAnchor]
  split_ifs with hd hf ho
  · exact .inr ⟨.duplicate,by simp,rfl⟩
  · exact .inr ⟨.full,by simp,rfl⟩
  · exact .inr ⟨.exhausted,by simp,rfl⟩
  · exact .inl ⟨rfl,by omega⟩

theorem evictOldestUnpublished_pruned (hn : (s.registry.entries.map (·.rpName)).Nodup)
    (h : s.evictOldestUnpublished published=some t) : Pruned s t := by
  obtain ⟨v,_,rfl⟩ := Option.map_eq_some_iff.mp h
  apply removeEntries_pruned s _ hn

attribute [local simp] registerAnchorEvicting

theorem registerAnchorEvicting_spec (s : AnchorStore) (published name : RpName)
    (xmin : TransactionId) (hn : (s.registry.entries.map (·.rpName)).Nodup) : ∃ t, Pruned s t ∧
      ((s.registerAnchorEvicting published name xmin=(.ok, t.addEntry name xmin) ∧
        t.registry.entries.length<t.registry.capacity) ∨
      ∃ res, res≠.ok ∧ s.registerAnchorEvicting published name xmin=(res, t)) := by
  rcases registerAnchor_ok_or_unchanged s name xmin with ⟨h,hlt⟩ | ⟨res,hres,h⟩
  · exact ⟨s,.refl s,.inl ⟨by simp [h],hlt⟩⟩
  · by_cases hfull : res=.full
    · subst hfull
      cases he : s.evictOldestUnpublished published with
      | none => exact ⟨s,.refl s,.inr ⟨.full,hres,by simp [h,he]⟩⟩
      | some t =>
        have heq : s.registerAnchorEvicting published name xmin=t.registerAnchor name xmin := by
          simp [h,he]
        have hp := evictOldestUnpublished_pruned hn he
        exact ⟨t,hp,heq ▸ registerAnchor_ok_or_unchanged t name xmin⟩
    · refine ⟨s,.refl s,.inr ⟨res,hres,?_⟩⟩
      simp only [registerAnchorEvicting,h]
      cases res <;> simp_all

theorem registerAnchor_exhausted (h : (s.registerAnchor name xmin).1=.exhausted) :
    s.registry.nextOrdinal=pgUint32Max := by
  simp only [registerAnchor,AnchorRegistry.registerAnchor] at h
  split_ifs at h with _ _ ho
  exact ho

theorem registerAnchorEvicting_exhausted (hn : (s.registry.entries.map (·.rpName)).Nodup)
    (h : (s.registerAnchorEvicting published name xmin).1=.exhausted) :
    s.registry.nextOrdinal=pgUint32Max := by
  rcases registerAnchor_ok_or_unchanged s name xmin with ⟨heq,_⟩ | ⟨res,_,heq⟩
  · simp [heq] at h
  · simp only [registerAnchorEvicting,heq] at h
    cases res with
    | full =>
      cases he : s.evictOldestUnpublished published with
      | none => simp [he] at h
      | some t =>
        simp only [he] at h
        have hp := evictOldestUnpublished_pruned hn he
        rw [← hp.ordinal]
        apply registerAnchor_exhausted h
    | exhausted => apply registerAnchor_exhausted (congrArg Prod.fst heq)
    | ok | duplicate => simp at h

theorem registerAnchor_ok (xmin : TransactionId) (hnew : ∀ e∈s.registry.entries, e.rpName≠name)
    (hord : s.registry.nextOrdinal≠pgUint32Max)
    (hlt : s.registry.entries.length<s.registry.capacity) : (s.registerAnchor name xmin).1=.ok := by
  have hd : ¬ (s.registry.findEntry name).isSome=true := by
    rw [AnchorRegistry.findEntry_isSome_iff]
    rintro ⟨e,he,heq⟩
    exact hnew e he heq
  simp [registerAnchor,AnchorRegistry.registerAnchor,hd,Nat.not_le.mpr hlt,hord]

theorem registerAnchor_full (xmin : TransactionId) (hnew : ∀ e∈s.registry.entries, e.rpName≠name)
    (hle : s.registry.capacity ≤ s.registry.entries.length) :
    s.registerAnchor name xmin=(.full, s) := by
  have hd : ¬ (s.registry.findEntry name).isSome=true := by
    rw [AnchorRegistry.findEntry_isSome_iff]
    rintro ⟨e,he,heq⟩
    exact hnew e he heq
  simp [registerAnchor,AnchorRegistry.registerAnchor,hd,hle]

theorem evictOldestUnpublished_length (h : s.evictOldestUnpublished published=some t) :
    t.registry.entries.length<s.registry.entries.length := by
  obtain ⟨v,hv,rfl⟩ := Option.map_eq_some_iff.mp h
  have hmem := AnchorRegistry.oldestUnpublished_mem hv
  apply length_filter_lt_length_iff_exists.mpr
  exact ⟨v,hmem,by simp⟩

/-- With room, or a victim other than the published name, registration succeeds. -/
theorem registerAnchorEvicting_ok (xmin : TransactionId)
    (hn : (s.registry.entries.map (·.rpName)).Nodup)
    (hroom : s.registry.entries.length ≤ s.registry.capacity)
    (hnew : ∀ e∈s.registry.entries, e.rpName≠name) (hcan : s.canRegister published=true) :
    (s.registerAnchorEvicting published name xmin).1=.ok := by
  simp only [canRegister,ne_eq,decide_not,Bool.and_eq_true,Bool.not_eq_true',
    decide_eq_false_iff_not,Bool.or_eq_true,decide_eq_true_eq,any_eq_true] at hcan
  by_cases hlt : s.registry.entries.length<s.registry.capacity
  · have h := registerAnchor_ok xmin hnew hcan.1 hlt
    rcases registerAnchor_ok_or_unchanged s name xmin with ⟨heq,_⟩ | ⟨res,hres,heq⟩
    · simp [heq]
    · rw [heq] at h
      exact absurd h hres
  · have hfull := registerAnchor_full xmin hnew (Nat.not_lt.mp hlt)
    have hv := AnchorRegistry.oldestUnpublished_isSome (hcan.2.resolve_left hlt)
    cases he : s.evictOldestUnpublished published with
    | none => simp_all [evictOldestUnpublished]
    | some t =>
      have hp := evictOldestUnpublished_pruned hn he
      have hlen := evictOldestUnpublished_length he
      simp only [registerAnchorEvicting,hfull,he]
      apply registerAnchor_ok
      · intro e hmem
        apply hnew e (hp.entries.subset hmem)
      · rw [hp.ordinal]
        exact hcan.1
      · rw [hp.capacity]
        omega

end AnchorStore

end WarehousePG.Anchor
