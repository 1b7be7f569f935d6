import Mathlib.Data.List.Sort

namespace WarehousePG.Dtm

structure DistributedSnapshot where
  xminAllDistributedSnapshots : Nat
  distribSnapshotId : Nat
  xmin : Nat
  xmax : Nat
  inProgressXidArray : List Nat
deriving DecidableEq

inductive CommittedResult where
  | unknown
  | inprogress
  | visible
  | ignore
deriving DecidableEq

/-- The loop of the committed test. It gives up at the first larger entry, since the array is
sorted when the snapshot is made. -/
def scanInProgress (distribXid : Nat) : List Nat → CommittedResult
  | [] => .visible
  | x::xs =>
    if distribXid=x then .inprogress
    else if distribXid<x then .visible
    else scanInProgress distribXid xs

/-- `DistributedSnapshotWithLocalMapping_CommittedTest` once the distributed log has mapped the
local xid to `distribXid`. -/
def committedTest (ds : DistributedSnapshot) (distribXid : Nat) (isVacuumCheck : Bool) :
    CommittedResult :=
  if distribXid<ds.xminAllDistributedSnapshots then .ignore
  else if isVacuumCheck then .inprogress
  else if distribXid<ds.xmin then .visible
  else if ds.xmax≤distribXid then .inprogress
  else scanInProgress distribXid ds.inProgressXidArray

def InProgressFor (ds : DistributedSnapshot) (gxid : Nat) : Prop :=
  committedTest ds gxid false=.inprogress
  deriving Decidable

/-- One backend's entry of `allTmGxact`; zero is the invalid gxid. -/
structure TmGxact where
  gxid : Nat
  xminDistributedSnapshot : Nat
deriving DecidableEq

structure SnapshotScan where
  xmin : Nat
  xmax : Nat
  globalXmin : Nat
  inProgress : List Nat
deriving DecidableEq

open SnapshotScan

def SnapshotScan.init (latestCompletedGxid : Nat) : SnapshotScan :=
  ⟨latestCompletedGxid+1,latestCompletedGxid+1,latestCompletedGxid+1,[]⟩

/-- A gxid that is valid and below `xmax` lowers `xmin`; it is listed unless it is the creator's
own. -/
def SnapshotScan.addGxid (sc : SnapshotScan) (own : Bool) (gxid : Nat) : SnapshotScan :=
  if gxid=0 ∨ sc.xmax≤gxid then sc
  else { sc with xmin := if gxid<sc.xmin then gxid else sc.xmin
                 inProgress := if own then sc.inProgress else sc.inProgress ++ [gxid] }

def SnapshotScan.addProc (sc : SnapshotScan) (own : Bool) (candidate : TmGxact) : SnapshotScan :=
  let dxid := candidate.xminDistributedSnapshot
  let sc := if dxid≠0 ∧ dxid<sc.globalXmin then { sc with globalXmin := dxid } else sc
  sc.addGxid own candidate.gxid

/-- The end of `CreateDistributedSnapshot`, with the `qsort` that `GetSnapshotData` adds. -/
def SnapshotScan.finish (sc : SnapshotScan) (distribSnapshotId : Nat) : DistributedSnapshot where
  xminAllDistributedSnapshots := if sc.xmin<sc.globalXmin then sc.xmin else sc.globalXmin
  distribSnapshotId := distribSnapshotId
  xmin := sc.xmin
  xmax := sc.xmax
  inProgressXidArray := sc.inProgress.insertionSort (· ≤ ·)

theorem scanInProgress_eq_iff (g : Nat) (l : List Nat) (hl : l.Pairwise (· ≤ ·)) :
    scanInProgress g l=.inprogress ↔ g∈l := by
  induction l with
  | nil => simp [scanInProgress]
  | cons x xs ih =>
    obtain ⟨hx,hxs⟩ := List.pairwise_cons.mp hl
    unfold scanInProgress
    split_ifs with heq hlt
    · simp [heq]
    · have hnot : g∉xs := fun hg => by have := hx g hg; omega
      simp [heq,hnot]
    · rw [ih hxs]
      simp [heq]

variable (sc : SnapshotScan)

section

variable (own : Bool)

theorem addGxid_skip (g : Nat) (h : g=0 ∨ sc.xmax≤g) : sc.addGxid own g=sc := if_pos h

theorem addGxid_below (g : Nat) (h : ¬ (g=0 ∨ sc.xmax≤g)) : sc.addGxid own g={ sc with
      xmin := if g<sc.xmin then g else sc.xmin
      inProgress := if own then sc.inProgress else sc.inProgress ++ [g] } := if_neg h

@[simp] theorem addGxid_xmax (g : Nat) : (sc.addGxid own g).xmax=sc.xmax := by
  unfold addGxid
  split <;> rfl

@[simp] theorem addProc_xmax (c : TmGxact) : (sc.addProc own c).xmax=sc.xmax := by
  unfold addProc
  dsimp only
  split <;> simp

theorem addGxid_xmin_le (g : Nat) : (sc.addGxid own g).xmin ≤ sc.xmin := by
  by_cases hskip : g=0 ∨ sc.xmax≤g
  · rw [addGxid_skip _ _ _ hskip]
  · rw [addGxid_below _ _ _ hskip]
    dsimp only
    split_ifs <;> omega

theorem addGxid_xmin_le_gxid (g : Nat) (hg : g≠0) (hx : g<sc.xmax) : (sc.addGxid own g).xmin≤g := by
  rw [addGxid_below _ _ _ (by omega)]
  dsimp only
  split_ifs <;> omega

theorem mem_addGxid (g h : Nat) : h∈(sc.addGxid own g).inProgress ↔
      h∈sc.inProgress ∨ (h=g ∧ own=false ∧ g≠0 ∧ g<sc.xmax) := by
  by_cases hskip : g=0 ∨ sc.xmax≤g
  · rw [addGxid_skip _ _ _ hskip]
    constructor
    · exact Or.inl
    · rintro (hm | ⟨-,-,h0,hx⟩)
      · exact hm
      · omega
  · rw [addGxid_below _ _ _ hskip]
    have hvalid : g≠0 ∧ g<sc.xmax := by omega
    cases own <;> simp [hvalid]

variable (c : TmGxact)

theorem addProc_eq : ∃ gx, gx ≤ sc.globalXmin ∧
      sc.addProc own c={ sc with globalXmin := gx }.addGxid own c.gxid := by
  unfold addProc
  dsimp only
  split_ifs with hc
  · exact ⟨_,hc.2.le,rfl⟩
  · exact ⟨_,le_refl _,rfl⟩

theorem addProc_xmin_le : (sc.addProc own c).xmin ≤ sc.xmin := by
  obtain ⟨gx,-,heq⟩ := addProc_eq sc own c
  rw [heq]
  exact addGxid_xmin_le _ own c.gxid

theorem addProc_xmin_le_gxid (hg : c.gxid≠0)
    (hx : c.gxid<sc.xmax) : (sc.addProc own c).xmin≤c.gxid := by
  obtain ⟨gx,-,heq⟩ := addProc_eq sc own c
  rw [heq]
  exact addGxid_xmin_le_gxid _ own c.gxid hg hx

theorem mem_addProc (h : Nat) : h∈(sc.addProc own c).inProgress ↔
      h∈sc.inProgress ∨ (h=c.gxid ∧ own=false ∧ c.gxid≠0 ∧ c.gxid<sc.xmax) := by
  obtain ⟨gx,-,heq⟩ := addProc_eq sc own c
  rw [heq]
  exact mem_addGxid _ own c.gxid h

end

/-- The snapshot sees in progress what the scan found, and all from xmax on. -/
theorem inProgressFor_finish (id g : Nat) (hx : sc.xmin ≤ sc.xmax)
    (hmem : ∀ h∈sc.inProgress, sc.xmin≤h) :
    InProgressFor (sc.finish id) g ↔ sc.xmax≤g ∨ (g∈sc.inProgress ∧ g<sc.xmax) := by
  have hsorted : (sc.inProgress.insertionSort (· ≤ ·)).Pairwise (· ≤ ·) :=
    List.pairwise_insertionSort (· ≤ ·) _
  have hscan := scanInProgress_eq_iff g _ hsorted
  rw [List.mem_insertionSort] at hscan
  unfold InProgressFor committedTest finish
  by_cases hmin : g<sc.xmin
  · have hnot : g∉sc.inProgress := fun hg => by have := hmem g hg; omega
    have hmax : ¬ sc.xmax≤g := by omega
    split_ifs <;> simp_all
  · have hall : ¬ g<(if sc.xmin<sc.globalXmin then sc.xmin else sc.globalXmin) := by
      split_ifs <;> omega
    rw [if_neg hall]
    simp only [Bool.false_eq_true,if_false,if_neg hmin]
    by_cases hmax : sc.xmax≤g
    · simp [hmax]
    · rw [if_neg hmax,hscan]
      simp only [hmax,false_or]
      exact ⟨fun hg => ⟨hg,by omega⟩,fun hg => hg.1⟩

end WarehousePG.Dtm
