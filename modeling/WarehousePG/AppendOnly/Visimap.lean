import WarehousePG.Framework.KeyedList
import Mathlib.Data.List.Find

namespace WarehousePG.AppendOnly

open Framework

section

def appendonlyVisimapMaxRange : Nat := 32768

structure AOTupleId where
  segmentFileNum : Nat
  rowNum : Nat
  deriving DecidableEq

structure VisimapKey where
  segno : Nat
  firstRowNum : Nat
  deriving DecidableEq

structure AppendOnlyVisimapEntry where
  key : Option VisimapKey
  bitmap : List Nat
  dirty : Bool
  tupleTid : Option Nat
  deriving DecidableEq

structure VisimapTuple where
  tid : Nat
  key : VisimapKey
  visimap : Option (List Nat)
  deriving DecidableEq

structure AppendOnlyVisimapStore where
  tuples : List VisimapTuple
  nextTid : Nat
  deriving DecidableEq

inductive TMResult where
  | tmOk
  | tmSelfModified
  | tmUpdated
  deriving DecidableEq

namespace AppendOnlyVisimapEntry

def init : AppendOnlyVisimapEntry := ⟨none,[],false,none⟩

def getFirstRowNum (tupleId : AOTupleId) : Nat :=
  tupleId.rowNum/appendonlyVisimapMaxRange*appendonlyVisimapMaxRange

def keyOf (tupleId : AOTupleId) : VisimapKey := ⟨tupleId.segmentFileNum,getFirstRowNum tupleId⟩

def new (tupleId : AOTupleId) : AppendOnlyVisimapEntry := ⟨some (keyOf tupleId),[],false,none⟩

def copyout (tuple : VisimapTuple) : AppendOnlyVisimapEntry :=
  ⟨some tuple.key,tuple.visimap.getD [],false,some tuple.tid⟩

def coversTuple (this : AppendOnlyVisimapEntry) (tupleId : AOTupleId) : Bool :=
  match this.key with
  | none => false
  | some key =>
    key.segno=tupleId.segmentFileNum && key.firstRowNum≤tupleId.rowNum &&
      tupleId.rowNum<key.firstRowNum+appendonlyVisimapMaxRange

def rowNumOffset (this : AppendOnlyVisimapEntry) (tupleId : AOTupleId) : Nat :=
  tupleId.rowNum-(this.key.map VisimapKey.firstRowNum).getD 0

def isVisible (this : AppendOnlyVisimapEntry) (tupleId : AOTupleId) : Bool :=
  if this.bitmap.isEmpty then true else !(this.bitmap.contains (this.rowNumOffset tupleId))

def hideTuple (this : AppendOnlyVisimapEntry) (tupleId : AOTupleId) :
    TMResult × AppendOnlyVisimapEntry :=
  if ¬this.rowNumOffset tupleId∈this.bitmap then
    (.tmOk,{ this with bitmap := this.rowNumOffset tupleId::this.bitmap, dirty := true })
  else if this.dirty then (.tmSelfModified,{ this with dirty := true })
  else (.tmUpdated,{ this with dirty := true })

end AppendOnlyVisimapEntry

namespace AppendOnlyVisimapStore

def find (this : AppendOnlyVisimapStore) (key : VisimapKey) : Option VisimapTuple :=
  lookup VisimapTuple.key key this.tuples

/-- An entry with a tuple id replaces the tuple, which fails if the tuple is gone; one without is
inserted. -/
def store (this : AppendOnlyVisimapStore) (entry : AppendOnlyVisimapEntry) :
    Option AppendOnlyVisimapStore :=
  match entry.key with
  | none => none
  | some key =>
    let tuple : VisimapTuple :=
      ⟨this.nextTid,key,if entry.bitmap.isEmpty then none else some entry.bitmap⟩
    match entry.tupleTid with
    | some tid =>
      if this.tuples.any (·.tid=tid) then
        some ⟨this.tuples.map fun t => if t.tid=tid then tuple else t,this.nextTid+1⟩
      else none
    | none => some ⟨this.tuples++[tuple],this.nextTid+1⟩

end AppendOnlyVisimapStore

/-- What the hash table knows of a stashed entry: the place of its latest version in the spill file,
counted in records, and the id of its tuple. -/
structure DeleteData where
  workFileOffset : Option Nat
  tupleTid : Option Nat
  deriving DecidableEq

/-- The state of a delete: the relation, the current entry, the hash table, and the spill file with
the stashed versions in the order in which they were written. -/
structure AppendOnlyVisimapDelete where
  visimapStore : AppendOnlyVisimapStore
  visimapEntry : AppendOnlyVisimapEntry
  dirtyEntryCache : List (VisimapKey × DeleteData)
  workfile : List (VisimapKey × List Nat)
  deriving DecidableEq

namespace AppendOnlyVisimapDelete

def init (visimapStore : AppendOnlyVisimapStore) : AppendOnlyVisimapDelete :=
  ⟨visimapStore,AppendOnlyVisimapEntry.init,[],[]⟩

def rebuildEntry (key : VisimapKey) (data : List Nat) (tid : Option Nat) :
    AppendOnlyVisimapEntry := ⟨some key,data,true,tid⟩

def stash (this : AppendOnlyVisimapDelete) (key : VisimapKey) : AppendOnlyVisimapDelete :=
  { this with
    visimapEntry := { this.visimapEntry with dirty := false }
    dirtyEntryCache := (key,⟨some this.workfile.length,this.visimapEntry.tupleTid⟩)::
      remove Prod.fst key this.dirtyEntryCache
    workfile := this.workfile++[(key,this.visimapEntry.bitmap)] }

/-- The version at the place that the hash table knows; reading elsewhere is an error. -/
def unstash (this : AppendOnlyVisimapDelete) (key : VisimapKey) (deleteData : DeleteData) :
    Option AppendOnlyVisimapEntry :=
  (deleteData.workFileOffset.bind (this.workfile[·]?)).map fun version =>
    rebuildEntry key version.2 deleteData.tupleTid

/-- The entry for a tuple id: a stashed one, else a stored one, else a new one. -/
def find (this : AppendOnlyVisimapDelete) (aoTupleId : AOTupleId) :
    Option AppendOnlyVisimapEntry :=
  let key := AppendOnlyVisimapEntry.keyOf aoTupleId
  match lookup Prod.fst key this.dirtyEntryCache with
  | some r => this.unstash key r.2
  | none =>
    match this.visimapStore.find key with
    | some tuple => some (.copyout tuple)
    | none => some (.new aoTupleId)

def loadTuple (this : AppendOnlyVisimapDelete) (aoTupleId : AOTupleId) :
    Option AppendOnlyVisimapDelete :=
  if this.visimapEntry.coversTuple aoTupleId then some this
  else
    let parked :=
      match this.visimapEntry.dirty, this.visimapEntry.key with
      | true, some key => this.stash key
      | _, _ => this
    (parked.find aoTupleId).map fun entry => { parked with visimapEntry := entry }

def hide (this : AppendOnlyVisimapDelete) (aoTupleId : AOTupleId) :
    Option (TMResult × AppendOnlyVisimapDelete) :=
  (this.loadTuple aoTupleId).map fun loaded =>
    let r := loaded.visimapEntry.hideTuple aoTupleId
    (r.1,{ loaded with visimapEntry := r.2 })

def isVisible (this : AppendOnlyVisimapDelete) (aoTupleId : AOTupleId) :
    Option (Bool × AppendOnlyVisimapDelete) :=
  (this.loadTuple aoTupleId).map fun loaded => (loaded.visimapEntry.isVisible aoTupleId,loaded)

/-- The versions of the spill file in order: the latest version of each entry is stored. Beside the
relation the entries that were stored are given. -/
def writeBackStashedEntries (dirtyEntryCache : List (VisimapKey × DeleteData)) :
    Nat → List (VisimapKey × List Nat) → AppendOnlyVisimapStore →
      Option (List AppendOnlyVisimapEntry × AppendOnlyVisimapStore)
  | _, [], visimapStore => some ([],visimapStore)
  | currentOffset, (key,data)::workfile, visimapStore =>
    match lookup Prod.fst key dirtyEntryCache with
    | none => none
    | some deleteData =>
      if deleteData.2.workFileOffset≠some currentOffset then
        writeBackStashedEntries dirtyEntryCache (currentOffset+1) workfile visimapStore
      else
        let entry := rebuildEntry key data deleteData.2.tupleTid
        match visimapStore.store entry with
        | none => none
        | some visimapStore =>
          (writeBackStashedEntries dirtyEntryCache (currentOffset+1) workfile visimapStore).map
            fun r => (entry::r.1,r.2)

def invalidate (dirtyEntryCache : List (VisimapKey × DeleteData)) (key : VisimapKey) :
    List (VisimapKey × DeleteData) :=
  dirtyEntryCache.map fun r => if r.1=key then (r.1,⟨none,none⟩) else r

/-- The current entry is stored first if it is dirty, then the stashed ones. -/
def finish (this : AppendOnlyVisimapDelete) :
    Option (List AppendOnlyVisimapEntry × AppendOnlyVisimapStore) :=
  let writeBack (cache : List (VisimapKey × DeleteData)) (visimapStore : AppendOnlyVisimapStore) :=
    if cache.isEmpty then some ([],visimapStore)
    else writeBackStashedEntries cache 0 this.workfile visimapStore
  if this.visimapEntry.dirty then
    match this.visimapStore.store this.visimapEntry, this.visimapEntry.key with
    | some visimapStore, some key =>
      (writeBack (invalidate this.dirtyEntryCache key) visimapStore).map fun r =>
        (this.visimapEntry::r.1,r.2)
    | _, _ => none
  else writeBack this.dirtyEntryCache this.visimapStore

end AppendOnlyVisimapDelete

open AppendOnlyVisimapEntry VisimapTuple UniqueKeys Nat

def VisimapKey.Aligned (key : VisimapKey) : Prop := appendonlyVisimapMaxRange ∣ key.firstRowNum

def InRange (bitmap : List Nat) : Prop := ∀ off∈bitmap, off<appendonlyVisimapMaxRange

def VisimapTuple.bits (tuple : VisimapTuple) : List Nat := tuple.visimap.getD []

def AOTupleId.offset (tupleId : AOTupleId) : Nat := tupleId.rowNum%appendonlyVisimapMaxRange

namespace AppendOnlyVisimapStore

structure WellFormed (this : AppendOnlyVisimapStore) : Prop where
  keys : UniqueKeys VisimapTuple.key this.tuples
  tids : UniqueKeys VisimapTuple.tid this.tuples
  fresh : ∀ tuple∈this.tuples, tuple.tid<this.nextTid
  aligned : ∀ tuple∈this.tuples, tuple.key.Aligned
  inRange : ∀ tuple∈this.tuples, InRange tuple.bits

def Hides (this : AppendOnlyVisimapStore) (tupleId : AOTupleId) : Prop :=
  ∃ tuple∈this.tuples, tuple.key.segno=tupleId.segmentFileNum ∧
    ∃ off∈tuple.bits, tupleId.rowNum=tuple.key.firstRowNum+off

def bitsAt (this : AppendOnlyVisimapStore) (key : VisimapKey) : List Nat :=
  ((this.find key).map VisimapTuple.bits).getD []

def tidAt (this : AppendOnlyVisimapStore) (key : VisimapKey) : Option Nat :=
  (this.find key).map VisimapTuple.tid

end AppendOnlyVisimapStore

variable {S : AppendOnlyVisimapStore} {key k : VisimapKey} {tupleId : AOTupleId} {off : Nat}

theorem rowNum_eq (tupleId : AOTupleId) :
    tupleId.rowNum=(keyOf tupleId).firstRowNum+tupleId.offset := by
  simp only [keyOf,getFirstRowNum,AOTupleId.offset]
  rw [mul_comm,div_add_mod]

theorem offset_lt (tupleId : AOTupleId) : tupleId.offset<appendonlyVisimapMaxRange :=
  mod_lt _ (by decide)

theorem keyOf_aligned (tupleId : AOTupleId) : (keyOf tupleId).Aligned := dvd_mul_left _ _

theorem keyOf_eq (hkey : key.Aligned) (hseg : key.segno=tupleId.segmentFileNum)
    (hoff : off<appendonlyVisimapMaxRange) (hrow : tupleId.rowNum=key.firstRowNum+off) :
    keyOf tupleId=key ∧ tupleId.offset=off := by
  obtain ⟨q,hq⟩ := hkey
  have hdiv : tupleId.rowNum/appendonlyVisimapMaxRange=q := by
    rw [hrow,hq,mul_add_div (by decide),div_eq_of_lt hoff,add_zero]
  have hmod : tupleId.rowNum%appendonlyVisimapMaxRange=off := by
    rw [hrow,hq,mul_add_mod,mod_eq_of_lt hoff]
  refine ⟨?_,hmod⟩
  cases key with
  | mk segno firstRowNum =>
    simp only [keyOf,getFirstRowNum,hdiv,VisimapKey.mk.injEq]
    exact ⟨hseg.symm,by rw [mul_comm]; exact hq.symm⟩

theorem keyOf_at (hkey : key.Aligned) (hoff : off<appendonlyVisimapMaxRange) :
    keyOf ⟨key.segno,key.firstRowNum+off⟩=key := by
  have hrow : (⟨key.segno,key.firstRowNum+off⟩ : AOTupleId).rowNum=key.firstRowNum+off := rfl
  exact (keyOf_eq hkey rfl hoff hrow).1

namespace AppendOnlyVisimapStore

variable {tuple : VisimapTuple}

theorem find_some (h : S.find key=some tuple) : tuple∈S.tuples ∧ tuple.key=key := mem_of_lookup h

variable (h : S.WellFormed)
include h

theorem WellFormed.find_eq (ht : tuple∈S.tuples) :
    S.find tuple.key=some tuple := h.keys.lookup_eq_some ht

theorem WellFormed.bitsAt_inRange (key : VisimapKey) : InRange (S.bitsAt key) := by
  unfold bitsAt
  cases hfind : S.find key with
  | none => simp [InRange]
  | some tuple => exact h.inRange tuple (find_some hfind).1

theorem WellFormed.hides_iff : S.Hides tupleId ↔ tupleId.offset∈S.bitsAt (keyOf tupleId) := by
  constructor
  · rintro ⟨tuple,ht,hseg,off,hoff,hrow⟩
    obtain ⟨hkey,hoffset⟩ := keyOf_eq (h.aligned tuple ht) hseg (h.inRange tuple ht off hoff) hrow
    rw [hkey,hoffset,bitsAt,h.find_eq ht]
    exact hoff
  · intro hoff
    unfold bitsAt at hoff
    cases hfind : S.find (keyOf tupleId) with
    | none => simp [hfind] at hoff
    | some tuple =>
      rw [hfind] at hoff
      obtain ⟨ht,hkey⟩ := find_some hfind
      exact ⟨tuple,ht,by rw [hkey]; rfl,_,hoff,by rw [hkey]; exact rowNum_eq tupleId⟩

end AppendOnlyVisimapStore

section Replacing

variable {l : List VisimapTuple} {new : VisimapTuple}

def replaceTuple (l : List VisimapTuple) (tid : Nat) (new : VisimapTuple) : List VisimapTuple :=
  l.map fun t => if t.tid=tid then new else t

variable {tid : Nat}

theorem mem_replaceTuple (h : t∈replaceTuple l tid new) : t=new ∨ t∈l ∧ t.tid≠tid := by
  obtain ⟨t',ht',rfl⟩ := List.mem_map.mp h
  split
  next => exact .inl rfl
  next hne => exact .inr ⟨ht',hne⟩

section

variable (htids : UniqueKeys VisimapTuple.tid l) (hold : old∈l) (hkey : new.key=old.key)
include htids hold hkey

theorem key_replaceTuple :
    (replaceTuple l old.tid new).map VisimapTuple.key=l.map VisimapTuple.key := by
  rw [replaceTuple,List.map_map]
  apply List.map_congr_left
  intro t ht
  simp only [Function.comp_apply]
  split
  next heq => rw [hkey,htids.eq_of_key hold ht heq.symm]
  next => rfl

theorem lookup_replaceTuple (k : VisimapKey) :
    lookup VisimapTuple.key k (replaceTuple l old.tid new)=
      (lookup VisimapTuple.key k l).map fun t => if t.tid=old.tid then new else t := by
  rw [replaceTuple,lookup,List.find?_map,lookup]
  congr 1
  apply List.find?_congr
  intro t ht
  have htkey : (if t.tid=old.tid then new else t).key=t.key := by
    split
    next heq => rw [hkey,htids.eq_of_key hold ht heq.symm]
    next => rfl
  rw [Function.comp_apply,htkey]

end

theorem tids_replaceTuple (htids : UniqueKeys VisimapTuple.tid l)
    (hnew : ∀ t∈l, t.tid≠new.tid) : UniqueKeys VisimapTuple.tid (replaceTuple l tid new) := by
  induction l with
  | nil => exact nil
  | cons t l ih =>
    obtain ⟨hrest,ht⟩ := htids.of_cons
    obtain ⟨htnew,hlnew⟩ := List.forall_mem_cons.mp hnew
    have ih := ih hrest hlnew
    rw [replaceTuple,List.map_cons]
    apply cons ih
    intro b hb
    obtain ⟨b',hb',rfl⟩ := List.mem_map.mp hb
    have hbt := ht b' hb'
    have hbnew := hlnew b' hb'
    split
    next hbtid =>
      split
      next httid => exact absurd (hbtid.trans httid.symm) hbt
      next => exact htnew.symm
    next =>
      split
      next => exact hbnew
      next => exact hbt

end Replacing

namespace AppendOnlyVisimapStore

/-- Storing an entry changes the bits of its key and of no other. -/
theorem WellFormed.store_spec (h : S.WellFormed)
    (hkey : entry.key=some k) (htid : entry.tupleTid=S.tidAt k) (haln : k.Aligned)
    (hrange : InRange entry.bitmap) :
    ∃ S', S.store entry=some S' ∧ S'.WellFormed ∧ S'.bitsAt k=entry.bitmap ∧
      ∀ k', k'≠k → S'.find k'=S.find k' := by
  have hbits : (⟨S.nextTid,k,if entry.bitmap.isEmpty then none else some entry.bitmap⟩ :
      VisimapTuple).bits=entry.bitmap := by
    unfold VisimapTuple.bits
    cases hb : entry.bitmap with
    | nil => rfl
    | cons b bs => rfl
  unfold store
  rw [hkey]
  dsimp only
  generalize hnew : (⟨S.nextTid,k,if entry.bitmap.isEmpty then none else some entry.bitmap⟩ :
    VisimapTuple)=new at hbits ⊢
  have hnewk : new.key=k := hnew ▸ rfl
  have hnewt : new.tid=S.nextTid := hnew ▸ rfl
  cases hfind : S.find k with
  | none =>
    have habs := lookup_eq_none_iff.mp hfind
    rw [htid,tidAt,hfind]
    refine ⟨_,rfl,⟨?_,?_,?_,?_,?_⟩,?_,?_⟩
    · rw [UniqueKeys,List.map_append]
      refine List.Nodup.append h.keys (List.nodup_singleton _) ?_
      simpa [List.disjoint_singleton,hnewk] using habs
    · rw [UniqueKeys,List.map_append]
      refine List.Nodup.append h.tids (List.nodup_singleton _) ?_
      simpa [hnewt] using fun t ht => (h.fresh t ht).ne
    · refine List.forall_mem_append.mpr ⟨fun t ht => lt_succ_of_lt (h.fresh t ht),?_⟩
      simp [hnewt]
    · exact List.forall_mem_append.mpr ⟨h.aligned,by simpa [hnewk] using haln⟩
    · exact List.forall_mem_append.mpr ⟨h.inRange,by simpa [hbits] using hrange⟩
    · have hfound : lookup VisimapTuple.key k (S.tuples++[new])=some new := by
        have hnone : S.tuples.find? (fun t => t.key=k)=none := hfind
        simp [lookup,List.find?_append,hnone,hnewk]
      simp only [bitsAt,find,hfound,Option.map_some,Option.getD_some,hbits]
    · intro k' hk'
      have hne : ¬new.key=k' := fun heq => hk' (heq ▸ hnewk)
      simp [find,lookup,List.find?_append,hne]
  | some old =>
    obtain ⟨hold,hkyl⟩ := find_some hfind
    have hsame : new.key=old.key := hnewk.trans hkyl.symm
    rw [htid,tidAt,hfind]
    have hany : S.tuples.any (fun t => t.tid=old.tid)=true :=
      List.any_eq_true.mpr ⟨old,hold,by simp⟩
    simp only [Option.map_some,hany,if_true]
    refine ⟨⟨replaceTuple S.tuples old.tid new,S.nextTid+1⟩,rfl,⟨?_,?_,?_,?_,?_⟩,?_,?_⟩
    · rw [UniqueKeys,key_replaceTuple h.tids hold hsame]
      exact h.keys
    · exact tids_replaceTuple h.tids fun t ht => hnewt ▸ (h.fresh t ht).ne
    · intro t ht
      obtain heq | hmem := mem_replaceTuple ht
      · rw [heq,hnewt]
        exact lt_succ_self _
      · exact lt_succ_of_lt (h.fresh t hmem.1)
    · intro t ht
      obtain heq | hmem := mem_replaceTuple ht
      · rwa [heq,hnewk]
      · exact h.aligned t hmem.1
    · intro t ht
      obtain heq | hmem := mem_replaceTuple ht
      · rwa [heq,hbits]
      · exact h.inRange t hmem.1
    · have hfind : lookup VisimapTuple.key k S.tuples=some old := hfind
      simp only [bitsAt,find,lookup_replaceTuple h.tids hold hsame,hfind,Option.map_some,
        if_true,Option.getD_some,hbits]
    · intro k' hk'
      simp only [find,lookup_replaceTuple h.tids hold hsame]
      cases hfind' : lookup VisimapTuple.key k' S.tuples with
      | none => rfl
      | some t =>
        obtain ⟨-,htkey⟩ := mem_of_lookup hfind'
        have hne : t.tid≠old.tid := by
          intro heq
          have ht := h.tids.eq_of_key (mem_of_lookup hfind').1 hold heq
          exact hk' (by rw [← htkey,ht,hkyl])
        simp [hne]

end AppendOnlyVisimapStore

end

open AppendOnlyVisimapEntry AppendOnlyVisimapStore AppendOnlyVisimapDelete List
open Option (some)

variable {S : AppendOnlyVisimapStore} {H : List AOTupleId} {key : VisimapKey} {tupleId : AOTupleId}
  {live : Option VisimapKey} {workfile : List (VisimapKey × List Nat)}
  {entry : AppendOnlyVisimapEntry} {d : AppendOnlyVisimapDelete}

/-- A bitmap has the bits that are stored for a key and those of the tuple ids hidden since. -/
def Exact (S : AppendOnlyVisimapStore) (H : List AOTupleId) (key : VisimapKey)
    (bitmap : List Nat) : Prop :=
  ∀ off, off∈bitmap ↔ off<appendonlyVisimapMaxRange ∧
    (off∈S.bitsAt key ∨ ⟨key.segno,key.firstRowNum+off⟩∈H)

/-- The stashed entries: the hash table knows the latest version of each, which is exact unless the
entry is the live one, and every tuple id hidden so far belongs to one of them or to the live one. -/
structure Spilled (S : AppendOnlyVisimapStore) (H : List AOTupleId) (live : Option VisimapKey)
    (cache : List (VisimapKey × DeleteData)) (workfile : List (VisimapKey × List Nat)) :
    Prop where
  keys : UniqueKeys Prod.fst cache
  aligned : ∀ r∈cache, r.1.Aligned
  tids : ∀ r∈cache, r.2.tupleTid=S.tidAt r.1
  latest : ∀ r∈cache, ∃ i bitmap, r.2.workFileOffset=some i ∧ workfile[i]?=some (r.1,bitmap) ∧
    InRange bitmap ∧ (live≠some r.1 → Exact S H r.1 bitmap)
  recorded : ∀ version∈workfile, ∃ r∈cache, r.1=version.1
  covered : ∀ tupleId∈H, live=some (keyOf tupleId) ∨ ∃ r∈cache, r.1=keyOf tupleId

structure EntryOk (S : AppendOnlyVisimapStore) (H : List AOTupleId)
    (cache : List (VisimapKey × DeleteData)) (entry : AppendOnlyVisimapEntry) : Prop where
  loaded : ∀ key, entry.key=some key → key.Aligned ∧ entry.tupleTid=S.tidAt key ∧
    Exact S H key entry.bitmap ∧ (entry.dirty=false → ∀ r∈cache, r.1≠key)
  valid : entry.dirty=true → entry.key≠none

def liveKey (entry : AppendOnlyVisimapEntry) : Option VisimapKey :=
  if entry.dirty then entry.key else none

structure DeleteInv (S : AppendOnlyVisimapStore) (H : List AOTupleId)
    (d : AppendOnlyVisimapDelete) : Prop where
  store : d.visimapStore=S
  spilled : Spilled S H (liveKey d.visimapEntry) d.dirtyEntryCache d.workfile
  entry : EntryOk S H d.dirtyEntryCache d.visimapEntry

variable {bitmap : List Nat}

theorem Exact.inRange (h : Exact S H key bitmap) : InRange bitmap :=
  fun off hoff => ((h off).mp hoff).1

theorem Exact.hide_other (h : Exact S H key bitmap) (haln : key.Aligned)
    (hne : keyOf tupleId≠key) : Exact S (tupleId::H) key bitmap := by
  intro off
  rw [h off,mem_cons]
  refine and_congr_right fun hoff => or_congr_right (or_iff_right fun heq => hne ?_).symm
  have hseg : key.segno=tupleId.segmentFileNum := heq ▸ rfl
  exact (keyOf_eq haln hseg hoff (heq ▸ rfl)).1

attribute [local simp] AppendOnlyVisimapDelete.init

theorem DeleteInv.init (S : AppendOnlyVisimapStore) :
    DeleteInv S [] (AppendOnlyVisimapDelete.init S) :=
  ⟨rfl,⟨UniqueKeys.nil,by simp,
    by simp,by simp,
    by simp,by simp⟩,
    ⟨by simp [AppendOnlyVisimapEntry.init],
      by simp [AppendOnlyVisimapEntry.init]⟩⟩

section Moving

/-- A dirty entry that is stashed is the newest version of its key. -/
theorem DeleteInv.stash (h : DeleteInv S H d) (hdty : d.visimapEntry.dirty=true)
    (hkey : d.visimapEntry.key=some key) :
    Spilled S H none (d.stash key).dirtyEntryCache (d.stash key).workfile := by
  obtain ⟨haln,htid,hex,-⟩ := h.entry.loaded key hkey
  have hlive : liveKey d.visimapEntry=some key := by simp [liveKey,hdty,hkey]
  have hspl := hlive ▸ h.spilled
  simp only [AppendOnlyVisimapDelete.stash]
  refine ⟨?_,?_,?_,?_,?_,?_⟩
  · exact hspl.keys.removed.cons fun r hr => (mem_remove.mp hr).2
  · exact forall_mem_cons.mpr ⟨haln,fun r hr => hspl.aligned r (mem_remove.mp hr).1⟩
  · exact forall_mem_cons.mpr ⟨htid,fun r hr => hspl.tids r (mem_remove.mp hr).1⟩
  · refine forall_mem_cons.mpr ⟨?_,fun r hr => ?_⟩
    · exact ⟨_,_,rfl,by simp,hex.inRange,fun _ => hex⟩
    · obtain ⟨hr,hne⟩ := mem_remove.mp hr
      obtain ⟨i,bitmap,hi,hver,hrng,hlat⟩ := hspl.latest r hr
      have hlt := (List.getElem?_eq_some_iff.mp hver).1
      refine ⟨i,bitmap,hi,?_,hrng,fun _ => hlat fun heq => hne (some.inj heq).symm⟩
      rw [getElem?_append_left hlt,hver]
  · refine forall_mem_append.mpr ⟨fun version hver => ?_,by simp⟩
    obtain ⟨r,hr,hrkey⟩ := hspl.recorded version hver
    by_cases heq : r.1=key
    · exact ⟨_,mem_cons_self,heq ▸ hrkey⟩
    · exact ⟨r,mem_cons_of_mem _ (mem_remove.mpr ⟨hr,heq⟩),hrkey⟩
  · intro t ht
    refine .inr ?_
    obtain heq | ⟨r,hr,hrkey⟩ := hspl.covered t ht
    · exact ⟨_,mem_cons_self,some.inj heq⟩
    · by_cases heq : r.1=key
      · exact ⟨_,mem_cons_self,heq ▸ hrkey⟩
      · exact ⟨r,mem_cons_of_mem _ (mem_remove.mpr ⟨hr,heq⟩),hrkey⟩

theorem Spilled.mono (h : Spilled S H none cache workfile) (live : Option VisimapKey) :
    Spilled S H live cache workfile := by
  refine ⟨h.keys,h.aligned,h.tids,fun r hr => ?_,h.recorded,fun t ht => ?_⟩
  · obtain ⟨i,bitmap,hi,hver,hrng,hlat⟩ := h.latest r hr
    exact ⟨i,bitmap,hi,hver,hrng,fun _ => hlat (by simp)⟩
  · exact .inr ((h.covered t ht).resolve_left (by simp))

theorem Spilled.exact_absent (h : Spilled S H live cache workfile) (hS : S.WellFormed)
    (hlive : live≠some key) (haln : key.Aligned) (habs : ∀ r∈cache, r.1≠key) :
    Exact S H key (S.bitsAt key) := by
  intro off
  constructor
  · exact fun hoff => ⟨hS.bitsAt_inRange _ off hoff,.inl hoff⟩
  · rintro ⟨hlt,hoff⟩
    refine hoff.resolve_right fun hmem => ?_
    have hkey := keyOf_at haln hlt
    obtain heq | ⟨r,hr,hrkey⟩ := h.covered _ hmem
    · exact hlive (hkey ▸ heq)
    · exact habs r hr (hrkey.trans hkey)

/-- An entry is found in the work file before the store. -/
theorem find_spec (hS : S.WellFormed) (hstore : d.visimapStore=S)
    (h : Spilled S H none d.dirtyEntryCache d.workfile) (tupleId : AOTupleId) :
    ∃ entry, d.find tupleId=some entry ∧ entry.key=some (keyOf tupleId) ∧
      EntryOk S H d.dirtyEntryCache entry := by
  simp only [AppendOnlyVisimapDelete.find]
  split
  next r hr =>
    obtain ⟨hmem,hrkey⟩ := mem_of_lookup hr
    obtain ⟨i,bitmap,hi,hver,-,hlat⟩ := h.latest r hmem
    refine ⟨rebuildEntry (keyOf tupleId) bitmap r.2.tupleTid,?_,rfl,?_,?_⟩
    · simp [unstash,hi,hver]
    · rintro key heq
      obtain rfl : keyOf tupleId=key := some.inj heq
      refine ⟨keyOf_aligned tupleId,?_,hrkey ▸ hlat (by simp),by
        simp [rebuildEntry]⟩
      exact hrkey ▸ h.tids r hmem
    · simp [rebuildEntry]
  next hnone =>
    have habs := lookup_eq_none_iff.mp hnone
    have hex := h.exact_absent hS (by simp) (keyOf_aligned tupleId) habs
    rw [hstore]
    split
    next tuple htup =>
      have hkey := (find_some htup).2
      refine ⟨_,rfl,by rw [copyout,hkey],?_,by simp [copyout]⟩
      rintro key heq
      obtain rfl : keyOf tupleId=key := by
        rw [← hkey]
        exact some.inj heq
      refine ⟨keyOf_aligned tupleId,by simp [copyout,tidAt,htup],?_,fun _ => habs⟩
      simpa [bitsAt,htup,VisimapTuple.bits,copyout] using hex
    next hfresh =>
      refine ⟨_,rfl,rfl,?_,by simp [new]⟩
      rintro key heq
      obtain rfl : keyOf tupleId=key := some.inj heq
      refine ⟨keyOf_aligned tupleId,by simp [new,tidAt,hfresh],?_,fun _ => habs⟩
      simpa [bitsAt,hfresh,new] using hex

theorem coversTuple_iff (h : EntryOk S H cache entry) :
    entry.coversTuple tupleId=true ↔ entry.key=some (keyOf tupleId) := by
  unfold coversTuple
  cases hkey : entry.key with
  | none => simp
  | some key =>
    simp only [Bool.and_eq_true,decide_eq_true_eq,some.injEq]
    constructor
    · rintro ⟨⟨hseg,hle⟩,hlt⟩
      have hrow : tupleId.rowNum=key.firstRowNum+(tupleId.rowNum-key.firstRowNum) := by omega
      exact (keyOf_eq (h.loaded key hkey).1 hseg (by omega) hrow).1.symm
    · rintro rfl
      have hrow := rowNum_eq tupleId
      have hlt := offset_lt tupleId
      exact ⟨⟨rfl,by omega⟩,by omega⟩

/-- Moving to another entry stashes the current one if it is dirty. -/
theorem loadTuple_spec (hS : S.WellFormed) (h : DeleteInv S H d) (tupleId : AOTupleId) :
    ∃ d', d.loadTuple tupleId=some d' ∧ DeleteInv S H d' ∧
      d'.visimapEntry.key=some (keyOf tupleId) := by
  unfold loadTuple
  split
  next hcov => exact ⟨d,rfl,h,(coversTuple_iff h.entry).mp hcov⟩
  next =>
    have hpar : ∀ {parked : AppendOnlyVisimapDelete}, parked.visimapStore=S →
        Spilled S H none parked.dirtyEntryCache parked.workfile →
        ∃ d', (parked.find tupleId).map (fun entry => { parked with visimapEntry := entry })=
          some d' ∧ DeleteInv S H d' ∧ d'.visimapEntry.key=some (keyOf tupleId) := by
      intro parked hstore hspl
      obtain ⟨entry,hfind,hkey,hentry⟩ := find_spec hS hstore hspl tupleId
      rw [hfind]
      exact ⟨{ parked with visimapEntry := entry },rfl,⟨hstore,hspl.mono _,hentry⟩,hkey⟩
    split
    next key hdty hkey => exact hpar h.store (h.stash hdty hkey)
    next hcln =>
      have hlive : liveKey d.visimapEntry=none := by
        unfold liveKey
        split
        next hdty =>
          obtain ⟨key,hkey⟩ := Option.ne_none_iff_exists'.mp (h.entry.valid hdty)
          exact absurd hkey (hcln key hdty)
        next => rfl
      exact hpar h.store (hlive ▸ h.spilled)

theorem Exact.offset_mem_iff (h : Exact S H (keyOf tupleId) bitmap)
    (hS : S.WellFormed) : tupleId.offset∈bitmap ↔ S.Hides tupleId ∨ tupleId∈H := by
  have hid : (⟨(keyOf tupleId).segno,(keyOf tupleId).firstRowNum+tupleId.offset⟩ : AOTupleId)=
      tupleId := by rw [← rowNum_eq tupleId]; rfl
  rw [h,hS.hides_iff,hid]
  exact and_iff_right (offset_lt tupleId)

theorem rowNumOffset_eq (hkey : entry.key=some (keyOf tupleId)) :
    entry.rowNumOffset tupleId=tupleId.offset := by
  have hrow := rowNum_eq tupleId
  rw [rowNumOffset,hkey]
  change tupleId.rowNum-(keyOf tupleId).firstRowNum=_
  omega

theorem isVisible_spec (hS : S.WellFormed) (h : DeleteInv S H d) (tupleId : AOTupleId) :
    ∃ visible d', d.isVisible tupleId=some (visible,d') ∧ DeleteInv S H d' ∧
      (visible=true ↔ ¬(S.Hides tupleId ∨ tupleId∈H)) := by
  obtain ⟨d',hload,hinv,hkey⟩ := loadTuple_spec hS h tupleId
  refine ⟨_,d',by rw [AppendOnlyVisimapDelete.isVisible,hload]; rfl,hinv,?_⟩
  rw [← (hinv.entry.loaded _ hkey).2.2.1.offset_mem_iff hS,AppendOnlyVisimapEntry.isVisible,
    rowNumOffset_eq hkey]
  split
  next hemp => simp [isEmpty_iff.mp hemp]
  next => simp

theorem hideTuple_spec (hkey : entry.key=some (keyOf tupleId)) :
    (entry.hideTuple tupleId).2.key=entry.key ∧
      (entry.hideTuple tupleId).2.tupleTid=entry.tupleTid ∧ (entry.hideTuple tupleId).2.dirty=true ∧
      ∀ off, off∈(entry.hideTuple tupleId).2.bitmap ↔ off=tupleId.offset ∨ off∈entry.bitmap := by
  unfold hideTuple
  rw [rowNumOffset_eq hkey]
  split
  next => exact ⟨rfl,rfl,rfl,fun off => mem_cons⟩
  next hmem =>
    have hmem := not_not.mp hmem
    have hbits : ∀ off, off∈entry.bitmap ↔ off=tupleId.offset ∨ off∈entry.bitmap :=
      fun off => (or_iff_right_of_imp fun heq => heq ▸ hmem).symm
    split
    next => exact ⟨rfl,rfl,rfl,hbits⟩
    next => exact ⟨rfl,rfl,rfl,hbits⟩

theorem Exact.hide {bitmap' : List Nat} (h : Exact S H (keyOf tupleId) bitmap)
    (hbits : ∀ off, off∈bitmap' ↔ off=tupleId.offset ∨ off∈bitmap) :
    Exact S (tupleId::H) (keyOf tupleId) bitmap' := by
  intro off
  have hid : off=tupleId.offset ↔ off<appendonlyVisimapMaxRange ∧
      (⟨(keyOf tupleId).segno,(keyOf tupleId).firstRowNum+off⟩ : AOTupleId)=tupleId := by
    have hrow := rowNum_eq tupleId
    constructor
    · rintro rfl
      exact ⟨offset_lt tupleId,by rw [← hrow]; rfl⟩
    · rintro ⟨-,heq⟩
      have hrow' : (keyOf tupleId).firstRowNum+off=tupleId.rowNum := congrArg AOTupleId.rowNum heq
      omega
  rw [hbits,h off,hid,mem_cons,← and_or_left]
  exact and_congr_right fun _ => or_left_comm

/-- A hide succeeds and adds its tuple id to those hidden by the run. -/
theorem hide_spec (hS : S.WellFormed) (h : DeleteInv S H d) (tupleId : AOTupleId) :
    ∃ result d', d.hide tupleId=some (result,d') ∧ DeleteInv S (tupleId::H) d' := by
  obtain ⟨l,hload,hinv,hkey⟩ := loadTuple_spec hS h tupleId
  obtain ⟨haln,htid,hex,-⟩ := hinv.entry.loaded _ hkey
  obtain ⟨hkey',htid',hdty,hbits⟩ := hideTuple_spec hkey
  rw [hide,hload]
  refine ⟨_,_,rfl,hinv.store,?_,?_,fun _ => by simp [hkey',hkey]⟩
  · have hlive : liveKey (l.visimapEntry.hideTuple tupleId).2=some (keyOf tupleId) := by
      simp [liveKey,hdty,hkey',hkey]
    have hold : ∀ key, liveKey l.visimapEntry=some key → keyOf tupleId=key := by
      intro key hlive
      unfold liveKey at hlive
      split at hlive
      next => exact some.inj (hkey.symm.trans hlive)
      next => cases hlive
    rw [hlive]
    refine ⟨hinv.spilled.keys,hinv.spilled.aligned,hinv.spilled.tids,fun r hr => ?_,
      hinv.spilled.recorded,?_⟩
    · obtain ⟨i,bitmap,hi,hver,hrng,hlat⟩ := hinv.spilled.latest r hr
      refine ⟨i,bitmap,hi,hver,hrng,fun hne => ?_⟩
      have hne' : keyOf tupleId≠r.1 := fun heq => hne (congrArg some heq)
      exact (hlat fun heq => hne' (hold _ heq)).hide_other (hinv.spilled.aligned r hr) hne'
    · refine forall_mem_cons.mpr ⟨.inl rfl,fun t ht => ?_⟩
      exact (hinv.spilled.covered t ht).imp_left fun heq => congrArg some (hold _ heq)
  · intro key heq
    obtain rfl : keyOf tupleId=key := some.inj (hkey.symm.trans (hkey'.symm.trans heq))
    exact ⟨haln,htid'.trans htid,hex.hide hbits,fun hcln => by simp [hdty] at hcln⟩

end Moving

end WarehousePG.AppendOnly
