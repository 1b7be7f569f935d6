import Mathlib.Data.List.Sort
import WarehousePG.Framework.Transition

namespace WarehousePG.Anchor

open Framework Function

section

structure AnchorRelKey where
  relid : Nat
  ordinal : Nat
  deriving DecidableEq

structure AnchorChild where
  relid : Nat
  bound : Option String
  deriving DecidableEq

structure AnchorInhEntry where
  children : List AnchorChild
  verified : Bool
  verifiedAt : Nat

/-- The rows the check reads: the children of a parent in `pg_inherits` and `relpartbound` of a
child's `pg_class` row, none if it is null or there is no row. -/
structure InhCatalog where
  inherits : Nat → List Nat
  relpartbound : Nat → Option String

namespace InhCatalog

def child (c : InhCatalog) (oid : Nat) : AnchorChild := ⟨oid,c.relpartbound oid⟩

def sorted (children : List AnchorChild) : List AnchorChild :=
  children.insertionSort fun a b => a.relid≤b.relid

def children (c : InhCatalog) (parent : Nat) : List AnchorChild :=
  sorted ((c.inherits parent).map c.child)

end InhCatalog

def anchorRelCacheLimit : Nat := 4096

inductive Reading
  | start
  | bounds (todo : List Nat) (done : List AnchorChild)

/-- One backend and the catalog. `visible` is the catalog as of the last message the backend has
accepted; `applied` is ahead of it by the changes whose messages it has not. -/
structure InhBackend where
  applied : InhCatalog
  visible : InhCatalog
  sharedInvalidMessageCounter : Nat
  cache : AnchorRelKey → Option AnchorInhEntry
  numEntries : Nat
  reading : Option (AnchorRelKey × Reading)

inductive InhAction
  | change (c : InhCatalog)
  | acceptMessage
  | call (key : AnchorRelKey)
  | proceed

namespace InhBackend

variable (anchored : AnchorRelKey → List AnchorChild)

def start (c : InhCatalog) (counter : Nat) : InhBackend := ⟨c,c,counter,fun _ => none,0,none⟩

def anchorInhCacheReset (s : InhBackend) : InhBackend :=
  { s with cache := fun _ => none, numEntries := 0 }

/-- The entry a call of `anchorInheritanceUnchanged` works with, made if there is none. -/
def findEntry (s : InhBackend) (key : AnchorRelKey) : InhBackend × AnchorInhEntry :=
  let s := if s.numEntries≥anchorRelCacheLimit then s.anchorInhCacheReset else s
  match s.cache key with
  | some e => (s, e)
  | none =>
    let e : AnchorInhEntry := ⟨anchored key,false,0⟩
    ({ s with cache := update s.cache key (some e), numEntries := s.numEntries+1 }, e)

def answersUnread (s : InhBackend) (key : AnchorRelKey) : Bool :=
  let e := (s.findEntry anchored key).2
  e.verified && e.verifiedAt=s.sharedInvalidMessageCounter

/-- The end of `anchorInheritanceUnchanged`: the comparison and the stamp. -/
def verify (s : InhBackend) (key : AnchorRelKey) (cur : List AnchorChild) : InhBackend :=
  let stamp (e : AnchorInhEntry) : AnchorInhEntry :=
    ⟨e.children,e.children=InhCatalog.sorted cur,s.sharedInvalidMessageCounter⟩
  { s with cache := update s.cache key ((s.cache key).map stamp), reading := none }

def step (s : InhBackend) : InhAction → Option InhBackend
  | .change c => some { s with applied := c }
  | .acceptMessage =>
    some { s with visible := s.applied,
                  sharedInvalidMessageCounter := s.sharedInvalidMessageCounter+1 }
  | .call key =>
    if s.reading.isSome then none
    else
      let t := (s.findEntry anchored key).1
      if s.answersUnread anchored key then some t
      else some { t with reading := some (key, .start) }
  | .proceed =>
    match s.reading with
    | none => none
    | some (key, .start) =>
      some { s with reading := some (key, .bounds (s.visible.inherits key.relid) []) }
    | some (key, .bounds (oid::todo) done) =>
      some { s with reading := some (key, .bounds todo (done ++ [s.visible.child oid])) }
    | some (key, .bounds [] done) => some (s.verify key done)

def midRead (s : InhBackend) : Bool :=
  match s.reading with
  | some (_, .bounds _ _) => true
  | _ => false

/-- No message is accepted between the first row of the current children and the stamp. -/
def Undisturbed (s : InhBackend) : InhAction → Prop
  | .acceptMessage => s.midRead=false
  | _ => True

instance (s : InhBackend) : (a : InhAction) → Decidable (s.Undisturbed a)
  | .acceptMessage => inferInstanceAs (Decidable (s.midRead=false))
  | .change _ | .call _ | .proceed => instDecidableTrue

/-- A match stamped with the present counter is a match of the visible children, and what a call in
progress has read is as visible now. -/
structure CacheInv (s : InhBackend) : Prop where
  entry : ∀ key e, s.cache key=some e → e.children=anchored key ∧
    (e.verified=true → e.verifiedAt ≤ s.sharedInvalidMessageCounter ∧
      (e.verifiedAt=s.sharedInvalidMessageCounter → s.visible.children key.relid=anchored key))
  rows : ∀ key todo done, s.reading=some (key, .bounds todo done) →
    done ++ todo.map s.visible.child=(s.visible.inherits key.relid).map s.visible.child

variable {anchored} {s : InhBackend} {key : AnchorRelKey} (h : CacheInv anchored s)
include h

theorem CacheInv.findEntry (key : AnchorRelKey) : CacheInv anchored (s.findEntry anchored key).1 ∧
    (s.findEntry anchored key).1.visible=s.visible ∧
    (s.findEntry anchored key).1.sharedInvalidMessageCounter=s.sharedInvalidMessageCounter ∧
    (s.findEntry anchored key).1.cache key=some (s.findEntry anchored key).2 := by
  have hreset : ∃ u, (if s.numEntries≥anchorRelCacheLimit then s.anchorInhCacheReset else s)=u ∧
      CacheInv anchored u ∧ u.visible=s.visible ∧
      u.sharedInvalidMessageCounter=s.sharedInvalidMessageCounter := by
    split_ifs
    · exact ⟨_,rfl,⟨fun _ _ he => (nomatch he),h.rows⟩,rfl,rfl⟩
    · exact ⟨s,rfl,h,rfl,rfl⟩
  obtain ⟨u,hu,hinv,hvis,hcoun⟩ := hreset
  simp only [InhBackend.findEntry,hu]
  cases hfound : u.cache key with
  | some e => exact ⟨hinv,hvis,hcoun,hfound⟩
  | none =>
    simp only [update_self,and_true]
    refine ⟨⟨?_,hinv.rows⟩,hvis,hcoun⟩
    intro k e he
    by_cases hk : k=key
    · subst hk
      simp only [update_self] at he
      cases he
      exact ⟨rfl,fun hv => (nomatch hv)⟩
    · simp only [update_of_ne hk] at he
      exact hinv.entry k e he

theorem CacheInv.answersUnread
    (hans : s.answersUnread anchored key=true) : s.visible.children key.relid=anchored key := by
  obtain ⟨hinv,hvis,hcoun,hentry⟩ := h.findEntry key
  obtain ⟨hv,hat⟩ := Bool.and_eq_true_iff.mp hans
  rw [← hvis]
  exact ((hinv.entry key _ hentry).2 hv).2 ((of_decide_eq_true hat).trans hcoun.symm)

theorem CacheInv.verify
    (hr : s.reading=some (key, .bounds [] done)) : CacheInv anchored (s.verify key done) := by
  have hdone := h.rows key [] done hr
  rw [List.map_nil,List.append_nil] at hdone
  refine ⟨?_,fun _ _ _ hr => (nomatch hr)⟩
  intro k e he
  by_cases hk : k=key
  · subst hk
    simp only [InhBackend.verify,update_self] at he
    obtain ⟨e',he',rfl⟩ := Option.map_eq_some_iff.mp he
    obtain ⟨hchil,-⟩ := h.entry k e' he'
    refine ⟨hchil,fun hsame => ⟨Nat.le_refl _,fun _ => ?_⟩⟩
    have hsame := of_decide_eq_true hsame
    rw [hdone,hchil] at hsame
    exact hsame.symm
  · simp only [InhBackend.verify,update_of_ne hk] at he
    exact h.entry k e he

/-- No step makes a stamped match outdated, as long as no message disturbs a reading. -/
theorem CacheInv.step (hC : s.Undisturbed a)
    (ht : s.step anchored a=some t) : CacheInv anchored t := by
  cases a with
  | change c =>
    cases ht
    exact ⟨h.entry,h.rows⟩
  | acceptMessage =>
    cases ht
    constructor
    · intro key e he
      obtain ⟨hchil,hstamp⟩ := h.entry key e he
      refine ⟨hchil,fun hv => ?_⟩
      have hle := (hstamp hv).1
      exact ⟨Nat.le_succ_of_le hle,fun hat => absurd hat (by dsimp only; omega)⟩
    · intro key todo done hr
      have hr : s.reading=some (key, .bounds todo done) := hr
      simp [Undisturbed,midRead,hr] at hC
  | call key =>
    obtain ⟨-,ht⟩ := Option.ite_none_left_eq_some.mp ht
    have hfind := (h.findEntry key).1
    split_ifs at ht
    · cases ht
      exact hfind
    · cases ht
      exact ⟨hfind.entry,fun _ _ _ hr => (nomatch hr)⟩
  | proceed =>
    unfold InhBackend.step at ht
    dsimp only at ht
    split at ht
    next => cases ht
    next key hr =>
      cases ht
      exact ⟨h.entry,fun _ _ _ hr => by cases hr; rfl⟩
    next key oid todo done hr =>
      cases ht
      refine ⟨h.entry,fun _ _ _ hr' => ?_⟩
      cases hr'
      simpa using h.rows key (oid::todo) done hr
    next key done hr =>
      cases ht
      exact h.verify hr

end InhBackend

open InhBackend

def noChildren : InhCatalog := ⟨fun _ => [],fun _ => none⟩

def oneChild : InhCatalog := ⟨fun _ => [7],fun _ => none⟩

/-- Two partitions, of which the second has the given bound. -/
def twoPartitions (bound : String) : InhCatalog :=
  ⟨fun parent => if parent=1 then [9,7] else [],
    fun oid => if oid=7 then some "below 5" else if oid=9 then some bound else none⟩

def anchoredPartitions (key : AnchorRelKey) : List AnchorChild :=
  if key.relid=1 then [⟨7,some "below 5"⟩,⟨9,some "from 5"⟩] else []

/-- A call that reads two children. -/
def readingCall (key : AnchorRelKey) : List InhAction :=
  [.call key,.proceed,.proceed,.proceed,.proceed]

/-- The bound changes and is changed back, with messages between the calls; the last change is not
visible yet. -/
def boundChanges : List InhAction :=
  readingCall ⟨1,1⟩ ++ [.change (twoPartitions "from 6"),.acceptMessage] ++
    readingCall ⟨1,1⟩ ++ [.change (twoPartitions "from 5"),.acceptMessage] ++
    readingCall ⟨1,1⟩ ++ [.change (twoPartitions "from 6")]

end

structure ItemPointer where
  block : Nat
  offset : Nat
  deriving DecidableEq

structure PgClassTuple where
  oid : Nat
  relfilenode : Nat
  xmaxInvalid : Bool
  lockedOnly : Bool
  updateXid : Nat
  ctid : ItemPointer

structure AnchorRelVersion where
  relfilenode : Nat
  tid : ItemPointer
  deriving DecidableEq

/-- `anchored` is none if the relation was not in the catalog, `verifiedTid` until a walk. -/
structure AnchorRelEntry where
  anchored : Option AnchorRelVersion
  verifiedTid : Option ItemPointer

inductive AnchorRelVerdict
  | ok
  | absent
  | rewritten
  deriving DecidableEq

/-- The relation, the version of its row each anchor sees, and the first version that may not have
been removed yet. -/
structure RelSetting where
  relid : Nat
  seen : Nat → Option Nat
  floor : Nat

/-- `pg_class`, the versions of the relation's row so far, the last of them current, and the cache of
a backend for that relation. -/
structure RelBackend where
  heap : ItemPointer → Option PgClassTuple
  didCommit : Nat → Bool
  version : Nat → AnchorRelVersion
  last : Nat
  cache : Nat → Option AnchorRelEntry
  numEntries : Nat

inductive RelAction
  | update (xid : Nat) (v : AnchorRelVersion)
  | lock (xmaxInvalid lockedOnly : Bool) (updateXid : Nat) (ctid : ItemPointer)
  | write (tid : ItemPointer) (tup : Option PgClassTuple)
  | commit (xid : Nat)
  | otherRelations (numEntries : Nat)
  | flush
  | call (ordinal : Nat)

def hopLimit : Nat := 100000

namespace RelBackend

variable (c : RelSetting)

def start (v : AnchorRelVersion) : RelBackend where
  heap := update (fun _ => none) v.tid
    (some ⟨c.relid,v.relfilenode,true,false,0,v.tid⟩)
  didCommit := fun _ => false
  version := fun _ => v
  last := 0
  cache := fun _ => none
  numEntries := 0

def currentRelationVersion (s : RelBackend) : AnchorRelVersion := s.version s.last

def versionsKeepFile (s : RelBackend) (relfilenode : Nat) (target : ItemPointer) :
    Nat → ItemPointer → Bool
  | 0, _ => false
  | hops+1, tid =>
    match s.heap tid with
    | none => false
    | some th =>
      if th.oid≠c.relid ∨ th.relfilenode≠relfilenode then false
      else if tid=target then true
      else if th.xmaxInvalid=true ∨ th.lockedOnly=true ∨ th.ctid=tid then false
      else if th.updateXid=0 ∨ s.didCommit th.updateXid=false then false
      else versionsKeepFile s relfilenode target hops th.ctid

def relationVersionsKeepFile (s : RelBackend) (relfilenode : Nat) (tid target : ItemPointer) : Bool :=
  s.versionsKeepFile c relfilenode target hopLimit tid

def anchorRelCacheReset (s : RelBackend) : RelBackend :=
  { s with cache := fun _ => none, numEntries := 0 }

def findEntry (s : RelBackend) (ordinal : Nat) : RelBackend × AnchorRelEntry :=
  let s := if s.numEntries≥anchorRelCacheLimit then s.anchorRelCacheReset else s
  match s.cache ordinal with
  | some e => (s, e)
  | none =>
    let e : AnchorRelEntry := ⟨(c.seen ordinal).map s.version,none⟩
    ({ s with cache := update s.cache ordinal (some e), numEntries := s.numEntries+1 }, e)

def anchorRelationVerdict (s : RelBackend) (ordinal : Nat) : AnchorRelVerdict × RelBackend :=
  let (s, e) := s.findEntry c ordinal
  match e.anchored with
  | none => (.absent, s)
  | some v =>
    let cur := s.currentRelationVersion
    if cur.relfilenode≠v.relfilenode then (.rewritten, s)
    else if cur.tid=v.tid then (.ok, s)
    else if e.verifiedTid=some cur.tid then (.ok, s)
    else if s.relationVersionsKeepFile c v.relfilenode v.tid cur.tid then
      (.ok, { s with cache := update s.cache ordinal (some ⟨some v,some cur.tid⟩) })
    else (.rewritten, s)

def Unused (s : RelBackend) (tid : ItemPointer) : Prop :=
  ∀ i ≤ s.last, c.floor ≤ i → (s.version i).tid≠tid
  deriving Decidable

def setHeader (s : RelBackend) (xmaxInvalid lockedOnly : Bool) (updateXid : Nat)
    (ctid : ItemPointer) : RelBackend :=
  let tid := s.currentRelationVersion.tid
  { s with heap := update s.heap tid ((s.heap tid).map fun th =>
      ⟨th.oid,th.relfilenode,xmaxInvalid,lockedOnly,updateXid,ctid⟩) }

def update (s : RelBackend) (xid : Nat) (v : AnchorRelVersion) : RelBackend :=
  let s := s.setHeader false false xid v.tid
  { s with
    heap := Function.update s.heap v.tid (some ⟨c.relid,v.relfilenode,true,false,0,v.tid⟩)
    didCommit := Function.update s.didCommit xid true
    version := Function.update s.version (s.last+1) v
    last := s.last+1 }

def step (s : RelBackend) : RelAction → Option RelBackend
  | .update xid v => if xid≠0 ∧ s.Unused c v.tid then some (s.update c xid v) else none
  | .lock xmaxInvalid lockedOnly xid ctid => some (s.setHeader xmaxInvalid lockedOnly xid ctid)
  | .write tid tup =>
    if s.Unused c tid then some { s with heap := Function.update s.heap tid tup } else none
  | .commit xid => some { s with didCommit := Function.update s.didCommit xid true }
  | .otherRelations n => some { s with numEntries := n }
  | .flush => some s.anchorRelCacheReset
  | .call ordinal =>
    if ∀ i∈c.seen ordinal, c.floor ≤ i ∧ i ≤ s.last then some (s.anchorRelationVerdict c ordinal).2
    else none

def KeepsFile (s : RelBackend) (i j : Nat) : Prop :=
  ∀ k, i≤k → k≤j → (s.version k).relfilenode=(s.version i).relfilenode

/-- An entry is of the version the anchor sees, and a walk was to a version with the same file. -/
def EntryOk (s : RelBackend) (ordinal : Nat) (e : AnchorRelEntry) : Prop :=
  e.anchored=(c.seen ordinal).map s.version ∧ ∀ i∈c.seen ordinal, i ≤ s.last ∧
    ∀ tid∈e.verifiedTid, ∃ j ≤ s.last, i≤j ∧ (s.version j).tid=tid ∧ s.KeepsFile i j

/-- The versions that must not be removed are in the heap, each but the last pointing to the next. -/
structure Inv (s : RelBackend) : Prop where
  rows : ∀ i ≤ s.last, c.floor ≤ i → ∃ th, s.heap (s.version i).tid=some th ∧ th.oid=c.relid ∧
    th.relfilenode=(s.version i).relfilenode ∧
    (i<s.last → th.xmaxInvalid=false ∧ th.lockedOnly=false ∧ th.updateXid≠0 ∧
      s.didCommit th.updateXid=true ∧ th.ctid=(s.version (i+1)).tid)
  distinct : ∀ i j, c.floor ≤ i → i<j → j ≤ s.last → (s.version i).tid≠(s.version j).tid
  entries : ∀ ordinal e, s.cache ordinal=some e → s.EntryOk c ordinal e

variable {c} {s t : RelBackend} {ordinal : Nat} {e : AnchorRelEntry}

theorem EntryOk.later (h : s.EntryOk c ordinal e) (hle : s.last≤t.last)
    (hv : ∀ i ≤ s.last, t.version i=s.version i) : t.EntryOk c ordinal e := by
  refine ⟨?_,fun i hi => ⟨(h.2 i hi).1.trans hle,fun tid ht => ?_⟩⟩
  · rw [h.1]
    cases hseen : c.seen ordinal with
    | none => rfl
    | some i => simp [hv i (h.2 i hseen).1]
  · obtain ⟨j,hj,hij,htid,hkeep⟩ := (h.2 i hi).2 tid ht
    refine ⟨j,hj.trans hle,hij,(congrArg _ (hv j hj)).trans htid,fun k hik hkj => ?_⟩
    rw [hv k (hkj.trans hj),hv i (hij.trans hj)]
    exact hkeep k hik hkj

attribute [local simp] RelBackend.setHeader

section

variable (h : Inv c s)
include h

theorem Inv.setHeader (xmaxInvalid lockedOnly : Bool) (xid : Nat)
    (ctid : ItemPointer) : Inv c (s.setHeader xmaxInvalid lockedOnly xid ctid) := by
  refine ⟨fun i hi hf => ?_,h.distinct,h.entries⟩
  obtain ⟨th,hth,hoid,hfile,hnext⟩ := h.rows i hi hf
  by_cases hlast : i=s.last
  · subst hlast
    refine ⟨⟨th.oid,th.relfilenode,xmaxInvalid,lockedOnly,xid,ctid⟩,?_,hoid,hfile,
      fun hlt => absurd hlt (lt_irrefl _)⟩
    simp [currentRelationVersion,hth]
  · have hne := h.distinct i s.last hf (lt_of_le_of_ne hi hlast) (le_refl _)
    refine ⟨th,?_,hoid,hfile,hnext⟩
    simp [currentRelationVersion,hne,hth]

theorem Inv.update {xid : Nat} (hxid : xid≠0)
    (hnew : s.Unused c v.tid) : Inv c (s.update c xid v) := by
  have hold : ∀ i ≤ s.last, (s.update c xid v).version i=s.version i := fun i hi =>
    Function.update_of_ne (ne_of_lt (Nat.lt_succ_of_le hi)) _ _
  have hself : (s.update c xid v).version (s.last+1)=v := Function.update_self _ _ _
  constructor
  case rows =>
    intro i (hi : i ≤ s.last+1) hf
    rcases Nat.lt_or_eq_of_le hi with hi | rfl
    · have hi : i ≤ s.last := Nat.le_of_lt_succ hi
      obtain ⟨th,hth,hoid,hfile,hnext⟩ := (h.setHeader false false xid v.tid).rows i hi hf
      have hth : (s.setHeader false false xid v.tid).heap (s.version i).tid=some th := hth
      have hne : (s.version i).tid≠v.tid := hnew i hi hf
      rw [hold i hi]
      refine ⟨th,?_,hoid,hfile,fun _ => ?_⟩
      · simpa [RelBackend.update,hne] using hth
      · by_cases hlast : i=s.last
        · -- the header just set
          subst hlast
          simp only [RelBackend.setHeader,currentRelationVersion,Function.update_self,
            Option.map_eq_some_iff] at hth
          obtain ⟨th,-,rfl⟩ := hth
          exact ⟨rfl,rfl,hxid,Function.update_self _ _ _,by rw [hself]⟩
        · have hlt := lt_of_le_of_ne hi hlast
          obtain ⟨hx,hl,hu,hc,hctid⟩ := hnext hlt
          refine ⟨hx,hl,hu,?_,by rw [hold _ hlt]; exact hctid⟩
          have hc : s.didCommit th.updateXid=true := hc
          simp [RelBackend.update,Function.update_apply,hc]
    · refine ⟨⟨c.relid,v.relfilenode,true,false,0,v.tid⟩,?_,rfl,by rw [hself],
        fun hlt => absurd hlt (lt_irrefl _)⟩
      rw [hself]
      exact Function.update_self _ _ _
  case distinct =>
    intro i j hf hij (hj : j ≤ s.last+1)
    rcases Nat.lt_or_eq_of_le hj with hj | rfl
    · rw [hold i (by omega),hold j (by omega)]
      exact h.distinct i j hf hij (Nat.le_of_lt_succ hj)
    · rw [hself,hold i (Nat.le_of_lt_succ hij)]
      exact hnew i (Nat.le_of_lt_succ hij) hf
  case entries => exact fun o e he => (h.entries o e he).later (Nat.le_succ _) hold

/-- The walk succeeds exactly along versions with one relfilenode, within the hop limit. -/
theorem Inv.walk_iff (relfilenode : Nat) (hops : Nat) (hf : c.floor ≤ i) (hi : i ≤ s.last) :
    s.versionsKeepFile c relfilenode (s.version s.last).tid hops (s.version i).tid=true ↔
      s.last-i<hops ∧ ∀ k, i≤k → k ≤ s.last → (s.version k).relfilenode=relfilenode := by
  induction hops generalizing i with
  | zero => simp [versionsKeepFile]
  | succ hops ih =>
    obtain ⟨th,hth,hoid,hfile,hnext⟩ := h.rows i hi hf
    simp only [versionsKeepFile,hth,hoid,ne_eq,not_true_eq_false,false_or,hfile]
    by_cases hsame : (s.version i).relfilenode=relfilenode
    case neg =>
      simp only [hsame,not_false_eq_true,if_true,Bool.false_eq_true,false_iff]
      exact fun hall => hsame (hall.2 i (le_refl _) hi)
    rcases Nat.lt_or_eq_of_le hi with hlt | rfl
    · obtain ⟨hx,hl,hu,hcom,hctid⟩ := hnext hlt
      have hend := h.distinct i s.last hf hlt (le_refl _)
      have hself := h.distinct i (i+1) hf (Nat.lt_succ_self i) hlt
      simp only [hsame,not_true_eq_false,if_false,hend,hx,hl,hctid,hself.symm,Bool.false_eq_true,
        or_self,hu,hcom,Bool.true_eq_false,ih (Nat.le_succ_of_le hf) hlt]
      refine and_congr (by omega) ⟨fun hall k hik hk => ?_,fun hall k hik => hall k (by omega)⟩
      rcases Nat.lt_or_eq_of_le hik with hik | rfl
      · exact hall k hik hk
      · exact hsame
    · simp only [hsame,not_true_eq_false,if_false,if_true,true_iff]
      refine ⟨by omega,fun k hik hk => ?_⟩
      rw [le_antisymm hk hik]
      exact hsame

theorem Inv.withCache {cache : Nat → Option AnchorRelEntry} (n : Nat)
    (hcache : ∀ o e, cache o=some e → s.EntryOk c o e) :
    Inv c { s with cache := cache, numEntries := n } := ⟨h.rows,h.distinct,hcache⟩

theorem Inv.enter (he : s.EntryOk c ordinal e) (n : Nat) :
    Inv c { s with cache := Function.update s.cache ordinal (some e), numEntries := n } := by
  apply h.withCache
  intro o e' he'
  by_cases ho : o=ordinal
  · subst ho
    rw [update_self] at he'
    cases he'
    exact he
  · rw [update_of_ne ho] at he'
    exact h.entries o e' he'

section

variable (hseen : ∀ i∈c.seen ordinal, c.floor ≤ i ∧ i ≤ s.last)
include hseen

theorem Inv.findEntry :
    ∃ u e, s.findEntry c ordinal=(u,e) ∧ Inv c u ∧ u.EntryOk c ordinal e ∧ u.version=s.version ∧
      u.last=s.last := by
  have hreset : ∃ u, (if s.numEntries≥anchorRelCacheLimit then s.anchorRelCacheReset else s)=u ∧
      Inv c u ∧ u.version=s.version ∧ u.last=s.last := by
    split_ifs
    · exact ⟨_,rfl,h.withCache 0 fun _ _ he => (nomatch he),rfl,rfl⟩
    · exact ⟨s,rfl,h,rfl,rfl⟩
  obtain ⟨u,heq,hu,hver,hlast⟩ := hreset
  simp only [RelBackend.findEntry,heq]
  cases hfound : u.cache ordinal with
  | some e => exact ⟨u,e,rfl,hu,hu.entries ordinal e hfound,hver,hlast⟩
  | none =>
    have hnew : u.EntryOk c ordinal ⟨(c.seen ordinal).map u.version,none⟩ :=
      ⟨rfl,fun i hi => ⟨hlast ▸ (hseen i hi).2,fun _ ht => (nomatch ht)⟩⟩
    exact ⟨_,_,rfl,hu.enter hnew _,hnew,hver,hlast⟩

/-- The verdict is ok only for a kept file, and for every kept file within reach. -/
theorem Inv.anchorRelationVerdict : Inv c (s.anchorRelationVerdict c ordinal).2 ∧
    ((s.anchorRelationVerdict c ordinal).1=.ok → ∃ i∈c.seen ordinal, s.KeepsFile i s.last) ∧
    ∀ i∈c.seen ordinal, s.KeepsFile i s.last → s.last-i<hopLimit →
      (s.anchorRelationVerdict c ordinal).1=.ok := by
  obtain ⟨u,e,heq,hu,⟨hanc,hvrf⟩,hver,hlast⟩ := h.findEntry hseen
  simp only [KeepsFile,← hver,← hlast] at hseen ⊢
  unfold RelBackend.anchorRelationVerdict
  cases hi : c.seen ordinal with
  | none =>
    simp only [heq,hanc,hi,Option.map_none]
    exact ⟨hu,fun hok => (nomatch hok),fun i hi => (nomatch hi)⟩
  | some i =>
    obtain ⟨hf,hle⟩ := hseen i hi
    have hwalk := hu.walk_iff (u.version i).relfilenode hopLimit hf hle
    have hcur (j : Nat) (hij : i≤j) (hj : j≤u.last)
        (htid : (u.version j).tid=(u.version u.last).tid) : j=u.last := by
      by_contra hne
      exact hu.distinct j u.last (hf.trans hij) (lt_of_le_of_ne hj hne) (le_refl _) htid
    simp only [heq,hanc,hi,Option.map_some,Option.mem_some_iff,forall_eq',exists_eq_left']
    split_ifs with hfile htid hcac hkeep
    · refine ⟨hu,fun hok => (nomatch hok),fun hall => ?_⟩
      exact absurd (hall u.last hle (le_refl _)) hfile
    · -- the version seen by the anchor is still current
      refine ⟨hu,fun _ k hik hk => ?_,fun _ _ => rfl⟩
      have hi := hcur i (le_refl _) hle htid.symm
      rw [le_antisymm (hi ▸ hk) hik]
    · refine ⟨hu,fun _ => ?_,fun _ _ => rfl⟩
      obtain ⟨j,hj,hij,htid,hkeep⟩ := (hvrf i hi).2 _ hcac
      exact hcur j hij hj htid ▸ hkeep
    · have hall := (hwalk.mp hkeep).2
      refine ⟨hu.enter ⟨by simp [hi],fun k hk => ?_⟩ _,fun _ => hall,fun _ _ => rfl⟩
      cases hi.symm.trans hk
      refine ⟨hle,fun tid ht => ⟨u.last,le_refl _,hle,?_,hall⟩⟩
      cases ht
      rfl
    · exact ⟨hu,fun hok => (nomatch hok),fun hall hlt => absurd (hwalk.mpr ⟨hlt,hall⟩) hkeep⟩

end

theorem Inv.step (ht : s.step c a=some t) : Inv c t := by
  cases a with
  | update xid v =>
    obtain ⟨⟨hxid,hnew⟩,rfl⟩ := of_guard ht
    exact h.update hxid hnew
  | lock xmaxInvalid lockedOnly xid ctid =>
    cases ht
    exact h.setHeader xmaxInvalid lockedOnly xid ctid
  | write tid tup =>
    obtain ⟨hunused,rfl⟩ := of_guard ht
    refine ⟨fun i hi hf => ?_,h.distinct,h.entries⟩
    obtain ⟨th,hth,hrest⟩ := h.rows i hi hf
    exact ⟨th,by simpa [hunused i hi hf] using hth,hrest⟩
  | commit xid =>
    cases ht
    refine ⟨fun i hi hf => ?_,h.distinct,h.entries⟩
    obtain ⟨th,hth,hoid,hfile,hnext⟩ := h.rows i hi hf
    refine ⟨th,hth,hoid,hfile,fun hlt => ?_⟩
    obtain ⟨hx,hl,hu,hcom,hctid⟩ := hnext hlt
    exact ⟨hx,hl,hu,by simp [Function.update_apply,hcom],hctid⟩
  | otherRelations n =>
    cases ht
    exact h.withCache n h.entries
  | flush =>
    cases ht
    exact h.withCache 0 fun _ _ he => (nomatch he)
  | call ordinal =>
    obtain ⟨hseen,rfl⟩ := of_guard ht
    exact (h.anchorRelationVerdict hseen).1

end

theorem Inv.start (c : RelSetting) (v : AnchorRelVersion) : Inv c (start c v) := by
  constructor
  case rows =>
    intro i hi _
    refine ⟨⟨c.relid,v.relfilenode,true,false,0,v.tid⟩,by simp [RelBackend.start],rfl,rfl,?_⟩
    exact fun hlt => absurd hlt (Nat.not_lt_zero i)
  case distinct => exact fun i j _ hij hj => absurd (hij.trans_le hj) (Nat.not_lt_zero i)
  case entries => exact fun _ _ he => (nomatch he)

end RelBackend

open RelBackend

/-- The check answers OK only if every version from the anchor's to the current one names one file,
and whenever that is so and the versions are no more than the hops. -/
theorem relation_check_exact (c : RelSetting) (v : AnchorRelVersion) (acts : List RelAction)
    (s t : RelBackend) (h : run (step c) (start c v) acts=some s) (ordinal : Nat)
    (hcall : s.step c (.call ordinal)=some t) :
    ((s.anchorRelationVerdict c ordinal).1=.ok → ∃ i∈c.seen ordinal, s.KeepsFile i s.last) ∧
    ∀ i∈c.seen ordinal, s.KeepsFile i s.last → s.last-i<hopLimit →
      (s.anchorRelationVerdict c ordinal).1=.ok := by
  have hinv := run_invariant (fun _ _ _ hs ht => Inv.step hs ht) (Inv.start c v) h
  have hseen := (Option.ite_none_right_eq_some.mp hcall).1
  exact (hinv.anchorRelationVerdict hseen).2

theorem relation_check_exact_file_returns :
    ∃ s, run (step ⟨1,fun _ => some 0,0⟩) (start ⟨1,fun _ => some 0,0⟩ ⟨5,⟨0,1⟩⟩)
        [.call 1,.update 3 ⟨6,⟨0,2⟩⟩,.update 4 ⟨5,⟨0,3⟩⟩]=some s ∧
      s.currentRelationVersion.relfilenode=5 ∧
      (s.anchorRelationVerdict ⟨1,fun _ => some 0,0⟩ 1).1≠.ok := by
  refine ⟨_,rfl,rfl,fun hok => ?_⟩
  obtain ⟨i,hi,hkeep⟩ := (relation_check_exact ⟨1,fun _ => some 0,0⟩ ⟨5,⟨0,1⟩⟩
    [.call 1,.update 3 ⟨6,⟨0,2⟩⟩,.update 4 ⟨5,⟨0,3⟩⟩] _ _ rfl 1 rfl).1 hok
  cases hi
  exact absurd (hkeep 1 (by decide) (by decide)) (by decide)

end WarehousePG.Anchor
