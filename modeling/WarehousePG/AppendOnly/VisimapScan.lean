import WarehousePG.Framework.Bits
import Mathlib.Tactic.SplitIfs
import WarehousePG.AppendOnly.VisimapFinish

namespace WarehousePG.AppendOnly

open Framework Nat

structure AOTupleIdBytes where
  bytes01 : Nat
  bytes23 : Nat
  bytes45 : Nat
  deriving DecidableEq

namespace AOTupleIdBytes

def init (segfilenum rownum : Nat) : AOTupleIdBytes where
  bytes01 := (0x7F &&& segfilenum)<<<9%2^16 ||| ((0xFFFFFFFFFF &&& rownum)>>>31)%2^16
  bytes23 := ((0x7FFFFFFF &&& rownum)>>>15)%2^16
  bytes45 := ((0x7FFF &&& rownum)+1)%2^16

def segmentFileNum (h : AOTupleIdBytes) : Nat := (h.bytes01 &&& 0xFE00)>>>9

/-- An unsigned 64-bit number: the subtraction of one wraps around at 0. -/
def rowNum (h : AOTupleIdBytes) : Nat :=
  (h.bytes01 &&& 0x1FF)<<<31 ||| h.bytes23<<<15 ||| (h.bytes45+(2^64-1))%2^64

/-- The block number of the id when it is read as an item pointer; the offset is `bytes45`. -/
def blockNumber (h : AOTupleIdBytes) : Nat := h.bytes01<<<16%2^32 ||| h.bytes23

def itemPointerCompare (a b : AOTupleIdBytes) : Int :=
  if a.blockNumber<b.blockNumber then -1
  else if b.blockNumber<a.blockNumber then 1
  else if a.bytes45<b.bytes45 then -1
  else if b.bytes45<a.bytes45 then 1
  else 0

section

variable (hseg : segno≤127) (hrow : row<2^40)
include hseg hrow

theorem init_eq : init segno row=⟨segno*2^9+row/2^31,row/2^15%2^16,row%2^15+1⟩ := by
  have hmask : ∀ k n : Nat, (2^k-1) &&& n=n%2^k := fun k n => by
    rw [Nat.and_comm,and_two_pow_sub_one_eq_mod]
  have h7 : 0x7F &&& segno=segno := (hmask 7 segno).trans (mod_eq_of_lt (by omega))
  have h40 : 0xFFFFFFFFFF &&& row=row := (hmask 40 row).trans (mod_eq_of_lt hrow)
  have h31 : 0x7FFFFFFF &&& row=row%2^31 := hmask 31 row
  have h15 : 0x7FFF &&& row=row%2^15 := hmask 15 row
  have hhigh : segno<<<9%2^16=segno<<<9 := by
    rw [shiftLeft_eq]
    omega
  have hmid : row>>>31%2^16=row/2^31 := by
    rw [shiftRight_eq_div_pow]
    omega
  simp only [init,h7,h40,h31,h15,hhigh,hmid,AOTupleIdBytes.mk.injEq]
  refine ⟨shiftLeft_or segno (by omega),?_,by omega⟩
  rw [shiftRight_eq_div_pow]
  omega

theorem blockNumber_init : (init segno row).blockNumber=segno*2^25+row/2^15 := by
  rw [init_eq hseg hrow,blockNumber]
  dsimp only
  rw [mod_eq_of_lt (by rw [shiftLeft_eq]; omega),shiftLeft_or _ (by omega)]
  omega

theorem segmentFileNum_init : (init segno row).segmentFileNum=segno := by
  rw [init_eq hseg hrow,segmentFileNum,shiftRight_and_distrib]
  refine (and_two_pow_sub_one_eq_mod _ 7).trans ?_
  rw [shiftRight_eq_div_pow]
  dsimp only
  omega

theorem rowNum_init : (init segno row).rowNum=row := by
  have hlow : (row%2^15+1+(2^64-1))%2^64=row%2^15 := by omega
  have hmask : (segno*2^9+row/2^31) &&& 0x1FF=row/2^31 :=
    (and_two_pow_sub_one_eq_mod _ 9).trans (by omega)
  rw [init_eq hseg hrow,rowNum]
  dsimp only
  rw [hlow,hmask,Nat.or_assoc,shiftLeft_or (row/2^15%2^16) (by omega),shiftLeft_or _ (by omega)]
  omega

end

/-- A stored id gives its segment and row back, has an offset from 1 to 32768, and stored ids are
ordered like the pairs of segment and row. -/
theorem tupleId_order_preserved (hseg : segno≤127) (hrow : row<2^40) (hseg' : segno'≤127)
    (hrow' : row'<2^40) :
    (init segno row).segmentFileNum=segno ∧ (init segno row).rowNum=row ∧
      1≤(init segno row).bytes45 ∧ (init segno row).bytes45≤32768 ∧
      itemPointerCompare (init segno row) (init segno' row')=
        (if segno<segno' ∨ segno=segno' ∧ row<row' then -1
         else if segno=segno' ∧ row=row' then 0 else 1) := by
  have hoff : (init segno row).bytes45=row%2^15+1 := by rw [init_eq hseg hrow]
  have hoff' : (init segno' row').bytes45=row'%2^15+1 := by rw [init_eq hseg' hrow']
  refine ⟨segmentFileNum_init hseg hrow,rowNum_init hseg hrow,by omega,by omega,?_⟩
  rw [itemPointerCompare,blockNumber_init hseg hrow,blockNumber_init hseg' hrow',hoff,hoff']
  split_ifs <;> omega

theorem tupleId_order_preserved_last :
    itemPointerCompare (init 127 (2^40-1)) (init 126 (2^40-1))=1 :=
  (tupleId_order_preserved (by decide) (by decide) (by decide) (by decide)).2.2.2.2

end AOTupleIdBytes

open List AOTupleIdBytes

def AOTupleIdBytes.invalid : AOTupleIdBytes := ⟨0xFFFF,0xFFFF,0⟩

def AOTupleIdBytes.read (h : AOTupleIdBytes) : AOTupleId := ⟨h.segmentFileNum,h.rowNum⟩

/-- The smallest member of a bitmap after a position. -/
def bmsNextMember (bitmap : List Nat) (prevbit : Int) : Option Nat :=
  (range appendonlyVisimapMaxRange).find? fun bit : Nat => prevbit<bit && bitmap.contains bit

namespace AppendOnlyVisimapEntry

/-- The place of the id in the bitmap, or the place before the first if the entry does not cover
the id. -/
def currentBitmapOffset (this : AppendOnlyVisimapEntry) (tupleId : AOTupleIdBytes) : Int :=
  if this.coversTuple tupleId.read then this.rowNumOffset tupleId.read else -1

def getNextInvisible (this : AppendOnlyVisimapEntry) (tupleId : AOTupleIdBytes) :
    Option AOTupleIdBytes := do
  let key ← this.key
  let offset ← bmsNextMember this.bitmap (this.currentBitmapOffset tupleId)
  some (AOTupleIdBytes.init key.segno (key.firstRowNum+offset))

end AppendOnlyVisimapEntry

/-- A scan: the tuples that the index still gives, in its order, and the current entry. -/
structure AppendOnlyVisimapScan where
  indexScan : List VisimapTuple
  visimapEntry : AppendOnlyVisimapEntry
  isFinished : Bool

namespace AppendOnlyVisimapScan

def indexOrder (a b : VisimapTuple) : Bool :=
  a.key.segno<b.key.segno || a.key.segno=b.key.segno && a.key.firstRowNum≤b.key.firstRowNum

def init (visimapStore : AppendOnlyVisimapStore) : AppendOnlyVisimapScan :=
  ⟨visimapStore.tuples.mergeSort indexOrder,.init,false⟩

/-- The rounds of the loop that load an entry: the id is set invalid before the entry is read. -/
def loadEntries : List VisimapTuple → Option AOTupleIdBytes × AppendOnlyVisimapScan
  | [] => (none,⟨[],.init,true⟩)
  | tuple::indexScan =>
    ((AppendOnlyVisimapEntry.copyout tuple).getNextInvisible invalid).elim
      (loadEntries indexScan) fun tupleId => (some tupleId,⟨indexScan,.copyout tuple,false⟩)

/-- The current entry is read on from the id of the last call; `none` is the end of the scan. -/
def getNextInvisible (this : AppendOnlyVisimapScan) (tupleId : AOTupleIdBytes) :
    Option AOTupleIdBytes × AppendOnlyVisimapScan :=
  match this.visimapEntry.getNextInvisible tupleId with
  | some tupleId => (some tupleId,this)
  | none => loadEntries this.indexScan

/-- The ids that up to `n` calls return, and if the last one reported the end. -/
def scanInvisible : Nat → AppendOnlyVisimapScan → AOTupleIdBytes → List AOTupleId × Bool
  | 0, _, _ => ([],false)
  | n+1, this, tupleId =>
    match this.getNextInvisible tupleId with
    | (none,_) => ([],true)
    | (some tupleId,next) =>
      let r := scanInvisible n next tupleId
      (tupleId.read::r.1,r.2)

end AppendOnlyVisimapScan

/-- The ids that an entry hides after a place of its bitmap. -/
def hiddenAfter (key : VisimapKey) (bitmap : List Nat) (prevbit : Int) : List AOTupleId :=
  ((range appendonlyVisimapMaxRange).filter fun bit : Nat => prevbit<bit && bitmap.contains bit).map
    fun bit => ⟨key.segno,key.firstRowNum+bit⟩

def VisimapTuple.hidden (tuple : VisimapTuple) : List AOTupleId :=
  hiddenAfter tuple.key tuple.bits (-1)

def AOTupleId.Storable (tupleId : AOTupleId) : Prop :=
  tupleId.segmentFileNum≤127 ∧ tupleId.rowNum<2^40

def AOTupleId.Before (a b : AOTupleId) : Prop :=
  a.segmentFileNum<b.segmentFileNum ∨ a.segmentFileNum=b.segmentFileNum ∧ a.rowNum<b.rowNum

variable {entry : AppendOnlyVisimapEntry} {key : VisimapKey} {bitmap : List Nat} {prevbit : Int}
  {tupleId : AOTupleId} {h : AOTupleIdBytes}

attribute [local irreducible] appendonlyVisimapMaxRange

theorem filter_of_find?_eq_some {l : List Nat} {q : Nat → Bool} {prev : Int} {bit : Nat}
    (hl : l.Pairwise (·<·)) (h : l.find? (fun b : Nat => prev<(b : Int) && q b)=some bit) :
    l.filter (fun b : Nat => prev<(b : Int) && q b)=
      bit::l.filter fun b : Nat => (bit : Int)<b && q b := by
  obtain ⟨hbit,before,after,rfl,hbef⟩ := find?_eq_some_iff_append.mp h
  obtain ⟨-,haft,hlt⟩ := pairwise_append.mp hl
  obtain ⟨hgt,-⟩ := pairwise_cons.mp haft
  have hnone : ∀ b∈before, ¬(decide (prev<(b : Int)) && q b)=true := by
    simpa only [Bool.not_eq_true',Bool.not_eq_true] using hbef
  have hnone' : ∀ b∈before, ¬(decide ((bit : Int)<b) && q b)=true := by
    intro b hb
    have := hlt b hb bit mem_cons_self
    simp only [Bool.and_eq_true,decide_eq_true_eq]
    omega
  have hsame : after.filter (fun b : Nat => prev<(b : Int) && q b)=
      after.filter fun b : Nat => (bit : Int)<b && q b := by
    apply filter_congr
    intro b hb
    have := hgt b hb
    simp only [Bool.and_eq_true,decide_eq_true_eq] at hbit
    rw [decide_eq_true (show (bit : Int)<b by omega),decide_eq_true (show prev<b by omega)]
  rw [filter_append,filter_append,filter_eq_nil_iff.mpr hnone,filter_eq_nil_iff.mpr hnone',
    filter_cons,if_pos hbit,hsame,filter_cons,if_neg (by simp)]
  rfl

theorem read_init (h : tupleId.Storable) :
    (AOTupleIdBytes.init tupleId.segmentFileNum tupleId.rowNum).read=tupleId := by
  rw [AOTupleIdBytes.read,segmentFileNum_init h.1 h.2,rowNum_init h.1 h.2]

theorem mem_hiddenAfter : tupleId∈hiddenAfter key bitmap prevbit ↔
    ∃ bit∈bitmap, bit<appendonlyVisimapMaxRange ∧ prevbit<bit ∧
      tupleId=⟨key.segno,key.firstRowNum+bit⟩ := by
  simp only [hiddenAfter,mem_map,mem_filter,mem_range,Bool.and_eq_true,decide_eq_true_eq,
    contains_iff_mem]
  constructor
  · rintro ⟨bit,⟨hlt,hprev,hbit⟩,rfl⟩
    exact ⟨bit,hbit,hlt,hprev,rfl⟩
  · rintro ⟨bit,hbit,hlt,hprev,rfl⟩
    exact ⟨bit,⟨hlt,hprev,hbit⟩,rfl⟩

/-- An entry returns its hidden rows one by one. -/
theorem AppendOnlyVisimapEntry.getNextInvisible_spec (hkey : entry.key=some key)
    (hids : hiddenAfter key entry.bitmap (entry.currentBitmapOffset h)=ids)
    (hvld : ∀ tupleId∈ids, tupleId.Storable) :
    ids=[] ∧ entry.getNextInvisible h=none ∨
      ∃ h', entry.getNextInvisible h=some h' ∧
        ids=h'.read::hiddenAfter key entry.bitmap (entry.currentBitmapOffset h') := by
  subst hids
  cases hfind : bmsNextMember entry.bitmap (entry.currentBitmapOffset h) with
  | none =>
    refine .inl ⟨?_,by simp [getNextInvisible,hkey,hfind]⟩
    rw [hiddenAfter,map_eq_nil_iff,filter_eq_nil_iff]
    exact find?_eq_none.mp hfind
  | some bit =>
    have hcons : hiddenAfter key entry.bitmap (entry.currentBitmapOffset h)=
        ⟨key.segno,key.firstRowNum+bit⟩::hiddenAfter key entry.bitmap bit := by
      rw [hiddenAfter,filter_of_find?_eq_some pairwise_lt_range hfind,map_cons,hiddenAfter]
    have hread := read_init (hvld _ (by rw [hcons]; exact mem_cons_self))
    have hbit : bit<appendonlyVisimapMaxRange := mem_range.mp (mem_of_find?_eq_some hfind)
    have hnext : entry.currentBitmapOffset (.init key.segno (key.firstRowNum+bit))=bit := by
      rw [currentBitmapOffset,hread,if_pos (by simp [coversTuple,hkey,hbit]),rowNumOffset,hkey]
      simp
    refine .inr ⟨_,by simp [getNextInvisible,hkey,hfind]; rfl,?_⟩
    rw [hread,hnext,hcons]

theorem hiddenAfter_invalid {tuple : VisimapTuple}
    (hvld : ∀ tupleId∈tuple.hidden, tupleId.Storable) :
    hiddenAfter tuple.key tuple.bits
      ((AppendOnlyVisimapEntry.copyout tuple).currentBitmapOffset invalid)=tuple.hidden := by
  rw [AppendOnlyVisimapEntry.currentBitmapOffset]
  split
  next hcov =>
    have hrow : 2^64-1<tuple.key.firstRowNum+appendonlyVisimapMaxRange := by
      simp only [AppendOnlyVisimapEntry.coversTuple,AppendOnlyVisimapEntry.copyout,
        Bool.and_eq_true,decide_eq_true_eq] at hcov
      exact hcov.2
    have hnone : ∀ tupleId, tupleId∉tuple.hidden := by
      intro tupleId hmem
      have hlt := (hvld tupleId hmem).2
      obtain ⟨bit,-,-,-,rfl⟩ := mem_hiddenAfter.mp hmem
      rw [appendonlyVisimapMaxRange] at hrow
      dsimp only at hlt
      omega
    rw [eq_nil_iff_forall_not_mem.mpr hnone,eq_nil_iff_forall_not_mem]
    intro tupleId hmem
    obtain ⟨bit,hbit,hlt,-,rfl⟩ := mem_hiddenAfter.mp hmem
    exact hnone _ (mem_hiddenAfter.mpr ⟨bit,hbit,hlt,by omega,rfl⟩)
  next => rfl

namespace AppendOnlyVisimapScan

/-- The ids that a scan has still to return after the given one. -/
def pending (this : AppendOnlyVisimapScan) (h : AOTupleIdBytes) : List AOTupleId :=
  (this.visimapEntry.key.elim [] fun key =>
    hiddenAfter key this.visimapEntry.bitmap (this.visimapEntry.currentBitmapOffset h))++
  this.indexScan.flatMap VisimapTuple.hidden

/-- A call returns the first of the ids and leaves the others pending, or reports the end. -/
def Gives (r : Option AOTupleIdBytes × AppendOnlyVisimapScan) (ids : List AOTupleId) : Prop :=
  ids=[] ∧ r.1=none ∨ ∃ h, r.1=some h ∧ ids=h.read::r.2.pending h

theorem loadEntries_gives {tuples : List VisimapTuple}
    (hvld : ∀ tupleId∈tuples.flatMap VisimapTuple.hidden, tupleId.Storable) :
    Gives (loadEntries tuples) (tuples.flatMap VisimapTuple.hidden) := by
  induction tuples with
  | nil => simp [Gives,loadEntries]
  | cons tuple tuples ih =>
    rw [flatMap_cons] at hvld ⊢
    obtain ⟨htup,htupl⟩ := forall_mem_append.mp hvld
    rw [loadEntries]
    obtain ⟨hnil,hnext⟩ | ⟨h,hnext,hcons⟩ := AppendOnlyVisimapEntry.getNextInvisible_spec rfl
      (hiddenAfter_invalid htup) htup
    · rw [hnil,hnext]
      exact ih htupl
    · rw [hcons,hnext]
      exact .inr ⟨h,rfl,rfl⟩

variable {this : AppendOnlyVisimapScan} {h : AOTupleIdBytes}

theorem getNextInvisible_gives (hvld : ∀ tupleId∈this.pending h, tupleId.Storable) :
    Gives (this.getNextInvisible h) (this.pending h) := by
  rw [getNextInvisible]
  cases hkey : this.visimapEntry.key with
  | none =>
    simp only [pending,hkey,AppendOnlyVisimapEntry.getNextInvisible] at hvld ⊢
    exact loadEntries_gives hvld
  | some key =>
    simp only [pending,hkey,Option.elim] at hvld ⊢
    obtain ⟨hentry,htupl⟩ := forall_mem_append.mp hvld
    obtain ⟨hnil,hnext⟩ | ⟨h',hnext,hcons⟩ := AppendOnlyVisimapEntry.getNextInvisible_spec hkey
      rfl hentry
    · rw [hnil,hnext]
      exact loadEntries_gives htupl
    · rw [hcons,hnext]
      exact .inr ⟨h',rfl,by simp [pending,hkey]⟩

theorem scanInvisible_eq (n : Nat) (hvld : ∀ tupleId∈this.pending h, tupleId.Storable) :
    scanInvisible n this h=((this.pending h).take n,decide ((this.pending h).length<n)) := by
  induction n generalizing this h with
  | zero => simp [scanInvisible]
  | succ n ih =>
    rw [scanInvisible]
    obtain ⟨hnil,hnone⟩ | ⟨h',hsome,hcons⟩ := getNextInvisible_gives hvld
    · generalize this.getNextInvisible h=r at hnone
      obtain ⟨_,_⟩ := r
      cases hnone
      simp [hnil]
    · generalize this.getNextInvisible h=r at hsome hcons
      obtain ⟨_,next⟩ := r
      cases hsome
      rw [hcons] at hvld ⊢
      simp [ih (forall_mem_cons.mp hvld).2]

variable {S : AppendOnlyVisimapStore}

theorem hides_iff_hidden (hS : S.WellFormed) :
    S.Hides tupleId ↔ ∃ tuple∈S.tuples, tupleId∈tuple.hidden := by
  refine exists_congr fun tuple => and_congr_right fun htup => ?_
  rw [VisimapTuple.hidden,mem_hiddenAfter]
  constructor
  · rintro ⟨hseg,off,hoff,hrow⟩
    refine ⟨off,hoff,hS.inRange tuple htup off hoff,by omega,?_⟩
    rw [hseg,← hrow]
  · rintro ⟨off,hoff,-,-,rfl⟩
    exact ⟨rfl,off,hoff,rfl⟩

/-- The index order of the entries is the order of the rows. -/
theorem hidden_pairwise (hS : S.WellFormed) :
    ((S.tuples.mergeSort indexOrder).flatMap VisimapTuple.hidden).Pairwise AOTupleId.Before := by
  have hperm := mergeSort_perm S.tuples indexOrder
  have hsorted : (S.tuples.mergeSort indexOrder).Pairwise (indexOrder · ·=true) := by
    apply pairwise_mergeSort <;> intros <;> simp_all [indexOrder] <;> omega
  have hkeys : (S.tuples.mergeSort indexOrder).Pairwise (·.key≠·.key) :=
    pairwise_map.mp ((hperm.map VisimapTuple.key).nodup_iff.mpr hS.keys)
  refine pairwise_flatMap.mpr ⟨fun tuple _ => ?_,(hsorted.and hkeys).imp_of_mem ?_⟩
  · refine (pairwise_lt_range.filter _).map _ fun a b hlt => .inr ⟨rfl,?_⟩
    exact Nat.add_lt_add_left hlt _
  · intro a b ha hb hab x hx y hy
    obtain ⟨hle,hne⟩ := hab
    obtain ⟨m,hm⟩ := hS.aligned a (hperm.mem_iff.mp ha)
    obtain ⟨n,hn⟩ := hS.aligned b (hperm.mem_iff.mp hb)
    obtain ⟨i,-,hi,-,rfl⟩ := mem_hiddenAfter.mp hx
    obtain ⟨j,-,hj,-,rfl⟩ := mem_hiddenAfter.mp hy
    simp only [indexOrder,Bool.or_eq_true,Bool.and_eq_true,decide_eq_true_eq] at hle
    rw [appendonlyVisimapMaxRange] at hi hm hn
    rw [AOTupleId.Before]
    have hfirst : a.key.segno=b.key.segno → a.key.firstRowNum≠b.key.firstRowNum :=
      fun hseg heq => hne (by cases h : a.key; cases h' : b.key; simp_all)
    dsimp only
    omega

/-- Repeated calls return the hidden tuple ids, each once and in the order of segment and row, and
then report the end. -/
theorem visimap_scan_exact (hS : S.WellFormed)
    (hids : ∀ tupleId, S.Hides tupleId → tupleId.Storable) (h : AOTupleIdBytes) :
    ∃ ids : List AOTupleId, ids.Pairwise AOTupleId.Before ∧
      (∀ tupleId, tupleId∈ids ↔ S.Hides tupleId) ∧
      ∀ n, scanInvisible n (.init S) h=(ids.take n,decide (ids.length<n)) := by
  have hmem : ∀ tupleId, tupleId∈(init S).pending h ↔ S.Hides tupleId := by
    intro tupleId
    rw [hides_iff_hidden hS]
    exact mem_flatMap.trans (exists_congr fun _ => and_congr_left fun _ => mem_mergeSort)
  exact ⟨_,hidden_pairwise hS,hmem,fun n => scanInvisible_eq n
    fun tupleId hp => hids tupleId ((hmem tupleId).mp hp)⟩

/-- Two entries of segment 1, one of them without bits, and one of segment 2. -/
def threeEntries : AppendOnlyVisimapStore :=
  ⟨[⟨0,⟨2,0⟩,some [4,9]⟩,⟨1,⟨1,32768⟩,none⟩,⟨2,⟨1,0⟩,some [0,7,32767]⟩],3⟩

theorem threeEntries_wellFormed : threeEntries.WellFormed where
  keys := by
    change [_,_,_].Nodup
    decide
  tids := by
    change [_,_,_].Nodup
    decide
  fresh := by decide
  aligned := by simp [threeEntries,VisimapKey.Aligned,appendonlyVisimapMaxRange]
  inRange := by
    simp [threeEntries,InRange,VisimapTuple.bits,appendonlyVisimapMaxRange]

theorem threeEntries_hides : threeEntries.Hides t ↔ t∈[⟨1,0⟩,⟨1,7⟩,⟨1,32767⟩,⟨2,4⟩,⟨2,9⟩] := by
  obtain ⟨segno,rowNum⟩ := t
  simp [AppendOnlyVisimapStore.Hides,threeEntries,VisimapTuple.bits]
  omega

theorem eq_of_before {ids l : List AOTupleId} (hids : ids.Pairwise AOTupleId.Before)
    (hl : l.Pairwise AOTupleId.Before) (h : ∀ t, t∈ids ↔ t∈l) : ids=l := by
  have hnodup : ∀ {l : List AOTupleId}, l.Pairwise AOTupleId.Before → l.Nodup := by
    refine fun h => h.imp fun hlt heq => ?_
    rw [heq,AOTupleId.Before] at hlt
    omega
  refine ((perm_ext_iff_of_nodup (hnodup hids) (hnodup hl)).mpr h).eq_of_pairwise ?_ hids hl
  intro a b _ _ hab hba
  rw [AOTupleId.Before] at hab hba
  omega

theorem visimap_scan_exact_threeEntries : threeEntries.WellFormed ∧
    ∀ n, scanInvisible n (.init threeEntries) invalid=
      ([⟨1,0⟩,⟨1,7⟩,⟨1,32767⟩,⟨2,4⟩,⟨2,9⟩].take n,decide (5<n)) := by
  refine ⟨threeEntries_wellFormed,?_⟩
  obtain ⟨ids,hids,hmem,hscan⟩ := visimap_scan_exact threeEntries_wellFormed
    (by simp [threeEntries_hides,AOTupleId.Storable]) invalid
  obtain rfl := eq_of_before hids (by simp [AOTupleId.Before])
    fun t => (hmem t).trans threeEntries_hides
  exact hscan

/-- A scan after a run of deletes returns what was hidden before and what the run hid. -/
theorem deleted_rows_scanned (hS : S.WellFormed) (calls : List Call) (h : AOTupleIdBytes)
    (hids : ∀ t, S.Hides t ∨ .hide t∈calls → t.Storable) :
    ∃ r f, ∃ ids : List AOTupleId, performAll (.init S) calls=some r ∧ r.2.finish=some f ∧
      ids.Pairwise AOTupleId.Before ∧ (∀ t, t∈ids ↔ S.Hides t ∨ .hide t∈calls) ∧
      ∀ n, scanInvisible n (.init f.2) h=(ids.take n,decide (ids.length<n)) := by
  obtain ⟨_,_,hrun,hinv,-⟩ := performAll_spec (perform_spec hS) (DeleteInv.init S) calls
  obtain ⟨_,S',hfin,hS',hhid,-⟩ := finish_spec hS hinv
  have hmem : ∀ t, t∈(init S').pending h ↔ S.Hides t ∨ .hide t∈calls := by
    intro t
    rw [← mem_hiddenBy_nil,← hhid,hides_iff_hidden hS']
    exact mem_flatMap.trans (exists_congr fun _ => and_congr_left fun _ => mem_mergeSort)
  exact ⟨_,_,_,hrun,hfin,hidden_pairwise hS',hmem,
    fun n => scanInvisible_eq n fun t hp => hids t ((hmem t).mp hp)⟩

/-- The run hides a tuple id again, one of the entry without bits, and one of a new entry. -/
theorem deleted_rows_scanned_threeEntries : ∃ r f,
    performAll (.init threeEntries)
      [.hide ⟨1,7⟩,.hide ⟨1,32770⟩,.isVisible ⟨2,4⟩,.hide ⟨2,40000⟩]=some r ∧
    r.2.finish=some f ∧ ∀ n, scanInvisible n (.init f.2) invalid=
      ([⟨1,0⟩,⟨1,7⟩,⟨1,32767⟩,⟨1,32770⟩,⟨2,4⟩,⟨2,9⟩,⟨2,40000⟩].take n,decide (7<n)) := by
  obtain ⟨r,f,ids,hrun,hfin,hids,hmem,hscan⟩ := deleted_rows_scanned threeEntries_wellFormed
    [.hide ⟨1,7⟩,.hide ⟨1,32770⟩,.isVisible ⟨2,4⟩,.hide ⟨2,40000⟩] invalid (fun t ht => by
      rw [threeEntries_hides] at ht
      obtain ⟨segno,rowNum⟩ := t
      simp at ht
      exact ⟨by dsimp only; omega,by dsimp only; omega⟩)
  have hlist : ∀ t, t∈ids ↔ t∈[⟨1,0⟩,⟨1,7⟩,⟨1,32767⟩,⟨1,32770⟩,⟨2,4⟩,⟨2,9⟩,⟨2,40000⟩] := by
    intro t
    rw [hmem,threeEntries_hides]
    simp
    tauto
  obtain rfl := eq_of_before hids (by simp [AOTupleId.Before]) hlist
  exact ⟨r,f,hrun,hfin,hscan⟩

end AppendOnlyVisimapScan

end WarehousePG.AppendOnly
