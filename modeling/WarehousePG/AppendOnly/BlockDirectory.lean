import Mathlib.Data.List.TakeWhile
import Mathlib.Algebra.Group.Nat.Defs

namespace WarehousePG.AppendOnly

open List

structure MinipageEntry where
  firstRowNum : Nat
  fileOffset : Nat
  rowCount : Nat
  deriving DecidableEq

def EntryOrder (a b : MinipageEntry) : Prop :=
  a.firstRowNum+a.rowCount≤b.firstRowNum ∧ a.fileOffset≤b.fileOffset

abbrev Minipage := List MinipageEntry

structure BlockDirectory where
  minipages : List Minipage
  ordered : minipages.flatten.Pairwise EntryOrder

section PartialScan

/-- The first row number of a logical heap block, computed in 32 bits. -/
def aoHeapBlockGetStartRowNum (heapBlk : Nat) : Nat :=
  max ((heapBlk-heapBlk/2^25*2^25)*2^15%2^32) 1

structure DirectoryRange where
  fileOffset : Nat
  firstRowNum : Nat
  afterFileOffset : Nat
  lastRowNum : Nat
  deriving DecidableEq

/-- `false` for an entry behind the end of the file. -/
def setDirectoryentryRange (eof minRange : Nat) (minipage : Minipage) (entryNo : Nat)
    (entry : MinipageEntry) : DirectoryRange × Bool :=
  let after := match minipage[entryNo+1]? with
    | some next => next.fileOffset
    | none => eof
  ({ fileOffset := entry.fileOffset
     firstRowNum := entry.firstRowNum
     afterFileOffset := if entry.fileOffset≤eof then min after eof else after
     lastRowNum := if minipage[entryNo+1]?=none ∧ minRange≠0 then 2^63-1
      else entry.firstRowNum+entry.rowCount-1 },entry.fileOffset≤eof)

def startEntryNo (minipage : Minipage) (rangeFirstRowNum : Nat) : Nat :=
  let entryNo := (minipage.takeWhile (·.firstRowNum≤rangeFirstRowNum)).length
  match minipage[entryNo]?, minipage[entryNo-1]? with
  | some _, some prev =>
    if prev.firstRowNum≤rangeFirstRowNum ∧ rangeFirstRowNum<prev.firstRowNum+prev.rowCount then
      entryNo-1
    else entryNo
  | _, _ => entryNo-1

/-- The index is read backwards from the first row number of the block. -/
def getEntryForPartialScan (eof minRange : Nat) (minipages : List Minipage) (blkno : Nat) :
    Option DirectoryRange :=
  let rangeFirstRowNum := aoHeapBlockGetStartRowNum blkno
  match minipages.reverse.find? fun m => m.head?.any (·.firstRowNum≤rangeFirstRowNum) with
  | none => none
  | some minipage =>
    let entryNo := startEntryNo minipage rangeFirstRowNum
    minipage[entryNo]?.map fun e => (setDirectoryentryRange eof minRange minipage entryNo e).1

def firstRowOfBlock (blkno : Nat) : Nat := max (blkno%2^25*2^15) 1

variable {m : Minipage} {r : Nat}

theorem startRowNum_le (blkno : Nat) : aoHeapBlockGetStartRowNum blkno≤firstRowOfBlock blkno := by
  unfold aoHeapBlockGetStartRowNum firstRowOfBlock
  omega

theorem startRowNum_eq (blkno : Nat) :
    aoHeapBlockGetStartRowNum blkno=max (blkno*2^15%2^32) 1 := by
  unfold aoHeapBlockGetStartRowNum
  omega

/-- The entry at which the scan starts: the rows of all entries before it are below the row asked
for. -/
theorem startEntry_spec (hhead : m.head?.any (·.firstRowNum≤r)=true)
    (hord : m.Pairwise EntryOrder) :
    ∃ before t after, m=before ++ t::after ∧ m[startEntryNo m r]?=some t ∧
      ∀ e∈before, e.firstRowNum+e.rowCount≤r := by
  have hspt := (m.takeWhile_append_dropWhile (p := (·.firstRowNum≤r))).symm
  have hmem := fun e => @mem_takeWhile_imp _ (·.firstRowNum≤r) m e
  have hne : m.takeWhile (·.firstRowNum≤r)≠[] := by
    cases m with
    | nil => simp at hhead
    | cons e m =>
      rw [takeWhile_cons_of_pos (by simpa using hhead)]
      simp
  unfold startEntryNo
  generalize m.takeWhile (·.firstRowNum≤r)=l at hspt hmem hne
  generalize m.dropWhile (·.firstRowNum≤r)=after at hspt
  rcases eq_nil_or_concat l with hnil | ⟨before,prev,rfl⟩
  · exact absurd hnil hne
  rw [concat_append] at hspt
  subst hspt
  have hprev : prev.firstRowNum≤r := by simpa using hmem prev (by simp)
  have hbef : ∀ e∈before, e.firstRowNum+e.rowCount≤r := by
    intro e he
    exact ((pairwise_append.mp hord).2.2 e he prev (by simp)).1.trans hprev
  cases after with
  | nil => exact ⟨before,prev,[],rfl,by simp,hbef⟩
  | cons next after =>
    by_cases hcov : r<prev.firstRowNum+prev.rowCount
    · exact ⟨before,prev,next::after,rfl,by simp [hprev,hcov],hbef⟩
    · refine ⟨before ++ [prev],next,after,by simp,by simp [hcov],?_⟩
      intro e he
      rcases mem_append.mp he with he | he
      · exact hbef e he
      · rw [mem_singleton.mp he]
        exact not_lt.mp hcov

variable (d : BlockDirectory) (eof minRange blkno : Nat)

/-- The minipage found, its start entry, and what comes before and after it in the directory. -/
theorem partialScan_found (hfound : d.minipages.reverse.find? (fun m => m.head?.any
      (·.firstRowNum≤r))=some m) :
    ∃ before t after, d.minipages.flatten=before ++ t::after ∧ m[startEntryNo m r]?=some t ∧
      (∀ e∈before, e.firstRowNum+e.rowCount≤r) ∧ (∀ e∈after, t.fileOffset≤e.fileOffset) ∧
      ∃ e∈d.minipages.flatten, e.firstRowNum≤r := by
  have hord : d.minipages.flatten.Pairwise EntryOrder := d.ordered
  obtain ⟨hhead,later,earlier,hspt,-⟩ := find?_eq_some_iff_append.mp hfound
  have hspt : d.minipages=earlier.reverse ++ m::later.reverse := by
    rw [← reverse_reverse d.minipages,hspt]
    simp
  rw [hspt,flatten_append,flatten_cons] at hord ⊢
  have hall := pairwise_append.mp hord
  obtain ⟨first,hfirst⟩ := Option.isSome_iff_exists.mp (Option.isSome_of_any hhead)
  have hrow : first.firstRowNum≤r := by simpa [hfirst] using hhead
  have hmem := mem_append_left later.reverse.flatten (mem_of_mem_head? hfirst)
  obtain ⟨before,t,after,rfl,hentry,hbef⟩ :=
    startEntry_spec hhead (pairwise_append.mp hall.2.1).1
  refine ⟨earlier.reverse.flatten ++ before,t,after ++ later.reverse.flatten,by simp,hentry,?_,?_,
    first,mem_append_right _ hmem,hrow⟩
  · intro e he
    rcases mem_append.mp he with he | he
    · exact (hall.2.2 e he first hmem).1.trans hrow
    · exact hbef e he
  · intro e he
    rw [append_assoc,cons_append,pairwise_append,pairwise_cons] at hall
    exact (hall.2.1.2.1.1 e he).2

/-- Nothing is returned exactly where every entry begins after the row number in 32 bits. -/
theorem partialScan_none_iff : getEntryForPartialScan eof minRange d.minipages blkno=none ↔
    ∀ e∈d.minipages.flatten, aoHeapBlockGetStartRowNum blkno<e.firstRowNum := by
  unfold getEntryForPartialScan
  generalize aoHeapBlockGetStartRowNum blkno=r
  dsimp only
  split
  next hnone =>
    refine iff_of_true rfl fun e he => ?_
    obtain ⟨m,hm,he⟩ := mem_flatten.mp he
    have hlate := find?_eq_none.mp hnone m (mem_reverse.mpr hm)
    cases m with
    | nil => cases he
    | cons first m =>
      have hfirst : r<first.firstRowNum := by simpa using hlate
      have hm := pairwise_cons.mp ((pairwise_flatten.mp d.ordered).1 _ hm)
      rcases mem_cons.mp he with rfl | he
      · exact hfirst
      · exact hfirst.trans_le ((Nat.le_add_right _ _).trans (hm.1 e he).1)
  next m hfound =>
    obtain ⟨before,t,after,-,hentry,-,-,e,he,hrow⟩ := partialScan_found d hfound
    rw [hentry]
    exact iff_of_false (by simp) fun hlate => (hlate e he).not_ge hrow

/-- A returned offset is not behind that of an entry with a row from the block's first row number
on, whether or not that number fits in 32 bits. -/
theorem partialScan_offset_le {range : DirectoryRange}
    (hrange : getEntryForPartialScan eof minRange d.minipages blkno=some range)
    {e : MinipageEntry} (he : e∈d.minipages.flatten)
    (hcov : firstRowOfBlock blkno<e.firstRowNum+e.rowCount) :
    range.fileOffset≤e.fileOffset := by
  have hle := startRowNum_le blkno
  unfold getEntryForPartialScan at hrange
  generalize aoHeapBlockGetStartRowNum blkno=r at hle hrange
  dsimp only at hrange
  split at hrange
  · cases hrange
  next m hfound =>
    obtain ⟨before,t,after,hspt,hentry,hbef,hoff,-⟩ := partialScan_found d hfound
    rw [hentry] at hrange
    cases hrange
    rw [hspt,mem_append,mem_cons] at he
    rcases he with he | rfl | he
    · exact absurd hcov (not_lt.mpr ((hbef e he).trans hle))
    · exact Nat.le_refl _
    · exact hoff e he

/-- The scan starts in time, and nothing is returned only if no entry starts at or before the first
row of the block, exactly where an entry starts at or before that row number taken in 32 bits or
none starts at or before the row number itself. -/
theorem partial_scan_starts_in_time :
    ((∀ range, getEntryForPartialScan eof minRange d.minipages blkno=some range →
      ∀ e∈d.minipages.flatten, firstRowOfBlock blkno<e.firstRowNum+e.rowCount →
        range.fileOffset≤e.fileOffset) ∧
    (getEntryForPartialScan eof minRange d.minipages blkno=none →
      ∀ e∈d.minipages.flatten, firstRowOfBlock blkno<e.firstRowNum)) ↔
    (∃ e∈d.minipages.flatten, e.firstRowNum ≤ max (blkno*2^15%2^32) 1) ∨
      ∀ e∈d.minipages.flatten, firstRowOfBlock blkno<e.firstRowNum := by
  rw [partialScan_none_iff,← startRowNum_eq]
  constructor
  · rintro ⟨-,hnone⟩
    by_cases hrow : ∃ e∈d.minipages.flatten, e.firstRowNum ≤ aoHeapBlockGetStartRowNum blkno
    · exact .inl hrow
    · exact .inr (hnone fun e he => not_le.mp fun hle => hrow ⟨e,he,hle⟩)
  · intro h
    refine ⟨fun range hrange e he => partialScan_offset_le d eof minRange blkno hrange he,?_⟩
    intro hlate
    rcases h with ⟨e,he,hrow⟩ | hnone
    · exact absurd (hlate e he) hrow.not_gt
    · exact hnone

def holeDirectory : BlockDirectory :=
  ⟨[[⟨5,0,10⟩,⟨40000,900,10⟩]],by simp [EntryOrder]⟩

/-- The first row number of block 2^17 is 2^32, which is 0 in 32 bits: nothing is found. -/
theorem partial_scan_misses_wrapped_block :
    getEntryForPartialScan 2000 0 holeDirectory.minipages (2^17)=none ∧
      ∃ e∈holeDirectory.minipages.flatten, e.firstRowNum≤firstRowOfBlock (2^17) := by
  decide +kernel

end PartialScan

section SampleScan

/-- The scan of a segment file and column group: the minipages that were not read yet, the one read
last and the number of the entry found last in it. -/
structure AOBlkDirScan where
  key : Option (Nat × Nat) := none
  sysscan : List Minipage := []
  minipage : Minipage := []
  mpentryno : Option Nat := none

/-- The entry with the target row, as its number and the row number, in entries from number `i` on.
The start row is moved over the entries before it. -/
def findEntry (targrow : Int) : Minipage → Nat → Int → Option (Nat × Int) × Int
  | [], _, startrow => (none,startrow)
  | entry::entries, i, startrow =>
    if targrow ≤ startrow+entry.rowCount-1 then
      (some (i,entry.firstRowNum+(targrow-startrow)),startrow)
    else findEntry targrow entries (i+1) (startrow+entry.rowCount)

def scanMinipages (key : Nat × Nat) (targrow : Int) :
    List Minipage → Int → Int × Int × AOBlkDirScan
  | [], startrow => (-1,startrow,{})
  | minipage::sysscan, startrow =>
    match findEntry targrow minipage 0 startrow with
    | (some (i,rownum),startrow) => (rownum,startrow,⟨some key,sysscan,minipage,some i⟩)
    | (none,startrow) => scanMinipages key targrow sysscan startrow

def getRowNum (minipages : List Minipage) (key : Nat × Nat) (targrow startrow : Int)
    (blkdirscan : AOBlkDirScan) : Int × Int × AOBlkDirScan :=
  let scan := if blkdirscan.key=some key then blkdirscan else ⟨some key,minipages,[],none⟩
  match scan.mpentryno with
  | none => scanMinipages key targrow scan.sysscan startrow
  | some mpentryi =>
    match findEntry targrow (scan.minipage.drop mpentryi) mpentryi startrow with
    | (some (i,rownum),startrow) => (rownum,startrow,{ scan with mpentryno := some i })
    | (none,startrow) => scanMinipages key targrow scan.sysscan startrow

structure TargetScan where
  blkdirscan : AOBlkDirScan := {}
  segno : Option Nat := none
  segrowsprocessed : Int := 0

structure Target where
  key : Nat × Nat
  targrow : Int

open TargetScan

def TargetScan.rowsBefore (s : TargetScan) (t : Target) : Int :=
  if s.segno=some t.key.1 then s.segrowsprocessed else 0

def rows (entries : List MinipageEntry) : List Int :=
  entries.flatMap fun e => (range e.rowCount).map fun i => (e.firstRowNum : Int)+(i : Nat)

variable (dir : Nat × Nat → BlockDirectory) (segfirstrow : Nat → Int)

def TargetScan.getTargetRow (s : TargetScan) (t : Target) : Int × TargetScan :=
  let r := getRowNum (dir t.key).minipages t.key t.targrow (segfirstrow t.key.1+s.rowsBefore t)
    s.blkdirscan
  (r.1,⟨r.2.2,some t.key.1,if r.1<0 then s.rowsBefore t else r.2.1-segfirstrow t.key.1⟩)

def targetRows : TargetScan → List Target → List Int
  | _, [] => []
  | s, t::ts => (s.getTargetRow dir segfirstrow t).1::
    targetRows (s.getTargetRow dir segfirstrow t).2 ts

def rowOfTarget (t : Target) : Int :=
  (rows (dir t.key).minipages.flatten)[(t.targrow-segfirstrow t.key.1).toNat]?.getD (-1)

/-- Where the scan is opened, no rows of the segment file have been gone over. -/
def OpensAtStart : TargetScan → List Target → Prop
  | _, [] => True
  | s, t::ts => (s.blkdirscan.key=some t.key ∨ s.rowsBefore t=0) ∧
    OpensAtStart (s.getTargetRow dir segfirstrow t).2 ts

variable {dir segfirstrow} {entries before : List MinipageEntry} {key : Nat × Nat}
  {base startrow targrow : Int} {minipages sysscan : List Minipage}

theorem rows_at {e : MinipageEntry} {post : List MinipageEntry} {k : Nat} (hk : k<e.rowCount) :
    (rows (before ++ e::post))[(rows before).length+k]?=some ((e.firstRowNum : Int)+k) := by
  rw [rows,flatMap_append,← rows,getElem?_append_right (by omega),Nat.add_sub_cancel_left]
  simp [getElem?_append,hk]

theorem length_rows_concat (e : MinipageEntry) :
    ((rows (before ++ [e])).length : Int)=(rows before).length+e.rowCount := by
  simp [rows]

/-- The entry that holds the target row, or the rows passed when there is none. -/
theorem findEntry_spec (i : Nat) (h : base+(rows before).length≤targrow) :
    (∃ pre e post, entries=pre ++ e::post ∧ base+(rows (before ++ pre)).length≤targrow ∧
      targrow<base+(rows (before ++ pre)).length+e.rowCount ∧
      findEntry targrow entries i (base+(rows before).length)=
        (some (i+pre.length,e.firstRowNum+(targrow-(base+(rows (before ++ pre)).length))),
          base+(rows (before ++ pre)).length)) ∨ base+(rows (before ++ entries)).length≤targrow ∧
      findEntry targrow entries i (base+(rows before).length)=
        (none,base+(rows (before ++ entries)).length) := by
  induction entries generalizing i before with
  | nil => exact .inr (by simpa [findEntry] using h)
  | cons e entries ih =>
    have hconcat := @length_rows_concat before e
    rw [findEntry]
    split
    next hhere =>
      refine .inl ⟨[],e,entries,rfl,?_⟩
      rw [append_nil]
      exact ⟨h,by omega,rfl⟩
    next hnext =>
      have hstart : base+(rows before).length+e.rowCount=base+(rows (before ++ [e])).length := by
        omega
      rw [hstart,append_cons before e entries]
      rcases @ih (before ++ [e]) (i+1) (by omega) with ⟨pre,e',post,rfl,hle,hlt,heq⟩ | hend
      · refine .inl ⟨e::pre,e',post,rfl,?_⟩
        rw [append_cons before e pre,heq,length_cons,Nat.add_assoc,Nat.add_comm 1]
        exact ⟨hle,hlt,rfl⟩
      · exact .inr hend

def AOBlkDirScan.At (scan : AOBlkDirScan) (minipages : List Minipage) (n : Int) : Prop :=
  ∃ before i, scan.mpentryno=some i ∧ n=(rows before).length ∧
    minipages.flatten=before ++ (scan.minipage.drop i ++ scan.sysscan.flatten)

structure Answers (minipages : List Minipage) (key : Nat × Nat) (base targrow : Int)
    (r : Int × Int × AOBlkDirScan) : Prop where
  row : r.1=(rows minipages.flatten)[(targrow-base).toNat]?.getD (-1)
  closed : r.1<0 → r.2.2.key=none
  found : ¬r.1<0 → r.2.1≤targrow ∧ r.2.2.key=some key ∧ r.2.2.At minipages (r.2.1-base)

theorem answers_find {minipage : Minipage} (i : Nat)
    (hrest : ∀ before, minipages.flatten=before ++ sysscan.flatten →
      base+(rows before).length≤targrow → Answers minipages key base targrow
        (scanMinipages key targrow sysscan (base+(rows before).length)))
    (hspt : minipages.flatten=before ++ (minipage.drop i ++ sysscan.flatten))
    (hle : base+(rows before).length≤targrow) : Answers minipages key base targrow
      (match findEntry targrow (minipage.drop i) i (base+(rows before).length) with
      | (some (i,rownum),startrow) => (rownum,startrow,⟨some key,sysscan,minipage,some i⟩)
      | (none,startrow) => scanMinipages key targrow sysscan startrow) := by
  rcases @findEntry_spec (minipage.drop i) _ _ _ i hle with
    ⟨pre,e,post,hdrop,hfirst,hlast,heq⟩ | ⟨hend,heq⟩
  · rw [heq]
    rw [hdrop] at hspt
    have hall : minipages.flatten=(before ++ pre) ++ e::(post ++ sysscan.flatten) := by
      simp [hspt]
    obtain ⟨k,hk⟩ := Int.eq_ofNat_of_zero_le (Int.sub_nonneg.mpr hfirst)
    refine ⟨?_,fun hneg => ?_,fun _ => ⟨hfirst,rfl,before ++ pre,_,rfl,?_,?_⟩⟩
    · have hindex : (targrow-base).toNat=(rows (before ++ pre)).length+k := by omega
      rw [hall,hindex,rows_at (by omega),Option.getD_some,hk]
    · dsimp only at hneg
      omega
    · dsimp only
      omega
    · rw [hall,← drop_drop,hdrop]
      simp
  · rw [heq]
    exact hrest _ (by rw [hspt,append_assoc]) hend

theorem scanMinipages_spec (hspt : minipages.flatten=before ++ sysscan.flatten)
    (hle : base+(rows before).length≤targrow) : Answers minipages key base targrow
      (scanMinipages key targrow sysscan (base+(rows before).length)) := by
  induction sysscan generalizing before with
  | nil =>
    refine ⟨?_,fun _ => rfl,fun h => absurd (by decide : (-1 : Int)<0) h⟩
    rw [scanMinipages,hspt,flatten_nil,append_nil,getElem?_eq_none (by omega)]
    rfl
  | cons minipage sysscan ih => exact answers_find 0 (fun _ => ih) hspt hle

theorem getRowNum_spec {scan : AOBlkDirScan} {n : Int} (hle : base+n≤targrow)
    (hat : if scan.key=some key then scan.At minipages n else n=0) :
    Answers minipages key base targrow (getRowNum minipages key targrow (base+n) scan) := by
  unfold getRowNum
  split at hat
  next hkey =>
    obtain ⟨before,i,hi,rfl,hspt⟩ := hat
    obtain ⟨k,sysscan,minipage,mpentryno⟩ := scan
    obtain rfl : k=some key := hkey
    obtain rfl : mpentryno=some i := hi
    rw [if_pos rfl]
    exact answers_find i (fun _ => scanMinipages_spec) hspt hle
  next hkey =>
    subst hat
    rw [if_neg hkey]
    exact @scanMinipages_spec [] _ _ _ minipages minipages rfl hle

/-- Targets in order are answered as if each were looked up from the start. -/
theorem targetRows_spec (s : TargetScan) (ts : List Target)
    (hat : ∀ key, s.blkdirscan.key=some key →
      s.segno=some key.1 ∧ s.blkdirscan.At (dir key).minipages s.segrowsprocessed)
    (hfirst : ∀ t∈ts, segfirstrow t.key.1≤t.targrow)
    (hnext : ∀ t∈ts, s.segno=some t.key.1 → segfirstrow t.key.1+s.segrowsprocessed≤t.targrow)
    (hsorted : ts.Pairwise fun a b => a.key.1=b.key.1 → a.targrow≤b.targrow)
    (hopens : OpensAtStart dir segfirstrow s ts) :
    targetRows dir segfirstrow s ts=ts.map (rowOfTarget dir segfirstrow) := by
  induction ts generalizing s with
  | nil => rfl
  | cons t ts ih =>
    have hbef : segfirstrow t.key.1+s.rowsBefore t≤t.targrow := by
      unfold rowsBefore
      split
      next hsame => exact hnext t (by simp) hsame
      next => simpa using hfirst t (by simp)
    have hcall := @getRowNum_spec t.key _ t.targrow (dir t.key).minipages s.blkdirscan _ hbef (by
      split
      next hkey =>
        obtain ⟨hseg,hat⟩ := hat t.key hkey
        rwa [rowsBefore,if_pos hseg]
      next hkey => exact hopens.1.resolve_left hkey)
    have hsorted := pairwise_cons.mp hsorted
    rw [targetRows,map_cons]
    congr 1
    · exact hcall.row
    · apply ih _ _ (fun t ht => hfirst t (by simp [ht])) _ hsorted.2 hopens.2
      · intro key hkey
        have hrow := mt hcall.closed (ne_of_eq_of_ne hkey (by simp))
        obtain ⟨-,hsome,hat⟩ := hcall.found hrow
        cases Option.some.inj (hsome.symm.trans hkey)
        refine ⟨rfl,?_⟩
        rw [getTargetRow]
        dsimp only
        rwa [if_neg hrow]
      · intro t' ht' hseg
        have hfile : t.key.1=t'.key.1 := Option.some.inj hseg
        have hle := hsorted.1 t' ht' hfile
        rw [getTargetRow,← hfile]
        dsimp only
        split
        next => exact Int.le_trans hbef hle
        next hrow =>
          have := (hcall.found hrow).1
          omega

/-- The targets of each segment file are asked for in order. -/
theorem target_rows_exact (dir : Nat × Nat → BlockDirectory) (segfirstrow : Nat → Int)
    (ts : List Target) (hfirst : ∀ t∈ts, segfirstrow t.key.1≤t.targrow)
    (hsorted : ts.Pairwise fun a b => a.key.1=b.key.1 → a.targrow≤b.targrow)
    (hopens : OpensAtStart dir segfirstrow {} ts) :
    targetRows dir segfirstrow {} ts=ts.map (rowOfTarget dir segfirstrow) :=
  targetRows_spec {} ts nofun hfirst nofun hsorted hopens

def twoEntries : BlockDirectory := ⟨[[⟨1,0,10⟩,⟨101,900,10⟩]],by simp [EntryOrder]⟩

theorem target_rows_exact_two_entries : targetRows (fun _ => twoEntries) (fun _ => 0) {}
    [⟨(1,0),3⟩,⟨(1,0),12⟩,⟨(2,0),5⟩,⟨(2,0),25⟩]=[⟨(1,0),3⟩,⟨(1,0),12⟩,⟨(2,0),5⟩,⟨(2,0),25⟩].map
      (rowOfTarget (fun _ => twoEntries) fun _ => 0) :=
  target_rows_exact _ _ _ (by decide) (by decide)
    (by simp [OpensAtStart,getTargetRow]; decide +kernel)

/-- Row 25 is not there, and the scan is closed; the next target is looked for from the beginning
of the file, but with the start row of the entry found before. -/
theorem target_row_after_end : targetRows (fun _ => twoEntries) (fun _ => 0) {}
      [⟨(1,0),12⟩,⟨(1,0),25⟩,⟨(1,0),26⟩]=[103,-1,107] ∧
    rowOfTarget (fun _ => twoEntries) (fun _ => 0) ⟨(1,0),26⟩=-1 := by
  decide +kernel

end SampleScan

end WarehousePG.AppendOnly
