import Mathlib.Data.List.Induction
import WarehousePG.Dtm.DistributedSnapshot
import WarehousePG.Dtm.CoordinatorRun

namespace WarehousePG.Dtm

open Framework SnapshotScan
open Option (some)

section

structure Standby where
  latestCompletedGxid : Nat
  committedGxids : List Nat
deriving DecidableEq

open Standby

def Standby.redo (maxTmGxacts : Nat) (s : Standby) : Record → Option Standby
  | .distributedCommit g =>
    (redoDistributedCommitRecord maxTmGxacts s.committedGxids g).map fun array =>
      { s with committedGxids := array }
  | .distributedForget g =>
    if g∈s.committedGxids then
      some { latestCompletedGxid := if s.latestCompletedGxid<g then g else s.latestCompletedGxid
             committedGxids := removeSwap s.committedGxids g }
    else some s
  | .latestCompletedGxid v => some { s with latestCompletedGxid := v }
  | .checkpoint true _ n _ =>
    some { s with latestCompletedGxid :=
             if s.latestCompletedGxid<n-1 then n-1 else s.latestCompletedGxid }
  | .checkpoint false _ _ _ => some s
  | .nextGxid _ => some s
  | .other => some s

/-- `StartupXLOG` on a standby that starts from the checkpoint record at `k`: the position of the
first record to be replayed and the state before it. A shutdown checkpoint whose redo pointer is
not its own position is a PANIC. -/
def Standby.start (maxTmGxacts : Nat) (wal : List Record) (k : Nat) : Option (Nat × Standby) :=
  match wal[k]? with
  | some (.checkpoint wasShutdown redo n gxids) =>
    if wasShutdown=true ∧ redo<k then none
    else
      (run (redoDistributedCommitRecord maxTmGxacts) [] gxids).map fun array =>
        if wasShutdown then (k+1,⟨n-1,array⟩) else (redo,⟨0,array⟩)
  | _ => none

def Standby.replayed (maxTmGxacts : Nat) (wal : List Record) (k m : Nat) : Option Standby :=
  (start maxTmGxacts wal k).bind fun (lo,s) =>
    run (redo maxTmGxacts) s ((wal.take m).drop lo)

/-- `CreateDistributedSnapshot` on the standby. No backend there has a gxid; `xmins` are the
`xminDistributedSnapshot` of their entries. -/
def Standby.snapshot (s : Standby) (xmins : List Nat) (distribSnapshotId : Nat) :
    DistributedSnapshot :=
  let sc := s.committedGxids.foldl (fun sc g => sc.addGxid false g)
    (init s.latestCompletedGxid)
  (xmins.foldl (fun sc x => sc.addProc false ⟨0,x⟩) sc).finish distribSnapshotId

variable {max : Nat} {s t : Standby} {r : Record}

theorem redo_committedGxids (hs : s.redo max r=some t) :
    redoCommittedGxids max s.committedGxids r=some t.committedGxids := by
  cases r with
  | distributedCommit g =>
    obtain ⟨array,harray,rfl⟩ := Option.map_eq_some_iff.mp hs
    exact harray
  | distributedForget g =>
    simp only [redo] at hs
    simp only [redoCommittedGxids,redoDistributedForgetCommitRecord]
    by_cases hg : g∈s.committedGxids
    · rw [if_pos hg] at hs ⊢
      cases hs
      rfl
    · rw [if_neg hg] at hs ⊢
      cases hs
      rfl
  | latestCompletedGxid v | nextGxid g | other => obtain rfl := some.inj hs; rfl
  | checkpoint sd redo n gs => cases sd <;> obtain rfl := some.inj hs <;> rfl

theorem run_redo_committedGxids (hs : run (redo max) s records=some t) :
    run (redoCommittedGxids max) s.committedGxids records=some t.committedGxids := by
  induction records generalizing s with
  | nil =>
    cases hs
    rfl
  | cons r records ih =>
    obtain ⟨u,hu,hrest⟩ := (run_cons_iff _ _ _ _).mp hs
    exact (run_cons_iff _ _ _ _).mpr ⟨u.committedGxids,redo_committedGxids hu,ih hrest⟩

theorem redo_latest_cases (hs : s.redo max r=some t) :
    s.latestCompletedGxid≤t.latestCompletedGxid ∨ r=.latestCompletedGxid t.latestCompletedGxid := by
  cases r with
  | distributedCommit g =>
    obtain ⟨array,-,rfl⟩ := Option.map_eq_some_iff.mp hs
    exact .inl (le_refl _)
  | distributedForget g =>
    simp only [redo] at hs
    apply Or.inl
    split_ifs at hs with hg hlt
    · cases hs
      exact hlt.le
    all_goals obtain rfl := some.inj hs; exact le_refl _
  | latestCompletedGxid v => obtain rfl := some.inj hs; exact .inr rfl
  | nextGxid g | other => obtain rfl := some.inj hs; exact .inl (le_refl _)
  | checkpoint sd redo n gs =>
    apply Or.inl
    cases sd with
    | false => obtain rfl := some.inj hs; exact le_refl _
    | true =>
      cases hs
      dsimp only
      split_ifs <;> omega

theorem redo_forget_latest (hg : g∈s.committedGxids)
    (hs : s.redo max (.distributedForget g)=some t) : g≤t.latestCompletedGxid := by
  simp only [redo,if_pos hg] at hs
  cases hs
  dsimp only
  split_ifs <;> omega

structure ScanOk (latest : Nat) (array : List Nat) (sc : SnapshotScan) : Prop where
  xmax : sc.xmax=latest+1
  xmin : sc.xmin ≤ sc.xmax
  mem : ∀ g, g∈sc.inProgress ↔ g∈array ∧ g≠0 ∧ g<latest+1
  above : ∀ g∈sc.inProgress, sc.xmin≤g

theorem scanOk_array (latest : Nat) (array : List Nat) : ScanOk latest array
      (array.foldl (fun sc g => sc.addGxid false g) (init latest)) := by
  induction array using List.reverseRecOn with
  | nil => exact ⟨rfl,le_refl _,by simp [init],by simp [init]⟩
  | append_singleton array g ih =>
    rw [List.foldl_append]
    generalize array.foldl (fun sc g => sc.addGxid false g) (init latest)=sc at ih
    have hmin := addGxid_xmin_le sc false g
    change ScanOk latest (array ++ [g]) (sc.addGxid false g)
    constructor
    case xmax => rw [addGxid_xmax,ih.xmax]
    case xmin => rw [addGxid_xmax]; exact hmin.trans ih.xmin
    case mem =>
      intro h
      rw [mem_addGxid,ih.mem,ih.xmax,List.mem_append,List.mem_singleton]
      constructor
      · rintro (⟨ha,hb⟩ | ⟨rfl,-,hb⟩)
        · exact ⟨.inl ha,hb⟩
        · exact ⟨.inr rfl,hb⟩
      · rintro ⟨ha | rfl,hb⟩
        · exact .inl ⟨ha,hb⟩
        · exact .inr ⟨rfl,rfl,hb⟩
    case above =>
      intro h hh
      rcases (mem_addGxid sc false g h).mp hh with hold | ⟨rfl,-,h0,hx⟩
      · exact hmin.trans (ih.above h hold)
      · exact addGxid_xmin_le_gxid sc false h h0 hx

theorem ScanOk.addProc
    (h : ScanOk latest array sc) (x : Nat) : ScanOk latest array (sc.addProc false ⟨0,x⟩) := by
  obtain ⟨gx,-,heq⟩ := addProc_eq sc false ⟨0,x⟩
  rw [heq,addGxid_skip _ _ _ (.inl rfl)]
  exact ⟨h.xmax,h.xmin,h.mem,h.above⟩

/-- What a snapshot of the standby takes to be in progress. -/
theorem inProgressFor_snapshot (s : Standby) (xmins : List Nat) (id g : Nat) :
    InProgressFor (s.snapshot xmins id) g ↔
      s.latestCompletedGxid<g ∨ (g∈s.committedGxids ∧ g≠0) := by
  have hscan : ∀ sc, ScanOk s.latestCompletedGxid s.committedGxids sc →
      ScanOk s.latestCompletedGxid s.committedGxids
        (xmins.foldl (fun sc x => sc.addProc false ⟨0,x⟩) sc) := by
    induction xmins with
    | nil => exact fun sc h => h
    | cons x xs ih => exact fun sc h => ih _ (h.addProc x)
  have h := hscan _ (scanOk_array s.latestCompletedGxid s.committedGxids)
  unfold snapshot
  rw [inProgressFor_finish _ id g h.xmin h.above,h.xmax,h.mem]
  constructor
  · rintro (hlt | ⟨⟨ha,h0,-⟩,-⟩)
    · exact .inl (by omega)
    · exact .inr ⟨ha,h0⟩
  · rintro (hlt | ⟨ha,h0⟩)
    · exact .inl (by omega)
    · by_cases hx : s.latestCompletedGxid+1≤g
      · exact .inl hx
      · exact .inr ⟨⟨ha,h0,by omega⟩,by omega⟩

end

open Record Standby Coordinator List
open Option (some map_eq_some_iff)

variable {g m m₁ m₂ : Nat}

def Record.forgotten : Record → Option Nat
  | .distributedForget g => some g
  | _ => none

/-- An `XLOG_LATESTCOMPLETED_GXID` record carries no less than any gxid forgotten before it. -/
def LatestCovers (pre : List Record) : Record → Prop
  | .latestCompletedGxid v => ∀ g, Forgotten pre g → g≤v
  | _ => True

def StaleListed (wal : List Record) (k : Nat) : Prop :=
  match wal[k]? with
  | some (.checkpoint _ r _ gs) => ∃ g∈gs, Forgotten (wal.take r) g
  | _ => False

instance (pre : List Record) (x : Record) : Decidable (LatestCovers pre x) :=
  match x with
  | .latestCompletedGxid v =>
    decidable_of_iff (∀ y∈pre, ∀ g∈y.forgotten, g≤v) (by
      simp only [LatestCovers,Forgotten]
      constructor
      · exact fun h g hg => h _ hg g rfl
      · intro h y hy g hg
        cases y <;> simp only [forgotten,Option.mem_def,some.injEq,reduceCtorEq] at hg
        exact h g (hg ▸ hy))
  | .nextGxid _ => instDecidableTrue
  | .distributedCommit _ => instDecidableTrue
  | .distributedForget _ => instDecidableTrue
  | .checkpoint .. => instDecidableTrue
  | .other => instDecidableTrue

instance (wal : List Record) (k : Nat) : Decidable (StaleListed wal k) := by
  unfold StaleListed
  split <;> infer_instance

def Sourced (pre : List Record) (v : Nat) : Prop :=
  v=0 ∨ Forgotten pre v ∨ .latestCompletedGxid v∈pre ∨
    ∃ r n gs, .checkpoint true r n gs∈pre ∧ v=n-1

variable {max k lo : Nat} {wal : List Record} {s v : Standby}

theorem Sourced.concat (h : Sourced pre w) (x : Record) : Sourced (pre ++ [x]) w := by
  rcases h with h0 | hf | hl | ⟨r,n,gs,hc,hn⟩
  · exact .inl h0
  · exact .inr (.inl (mem_append_left _ hf))
  · exact .inr (.inr (.inl (mem_append_left _ hl)))
  · exact .inr (.inr (.inr ⟨r,n,gs,mem_append_left _ hc,hn⟩))

theorem redo_sourced (h : Sourced pre s.latestCompletedGxid)
    (hs : s.redo max r=some t) : Sourced (pre ++ [r]) t.latestCompletedGxid := by
  have hself : r∈pre ++ [r] := mem_append_right _ (mem_singleton_self r)
  cases r with
  | distributedCommit g =>
    obtain ⟨array,-,rfl⟩ := map_eq_some_iff.mp hs
    exact h.concat _
  | distributedForget g =>
    simp only [redo] at hs
    split_ifs at hs with hg hlt
    · cases hs
      exact .inr (.inl hself)
    all_goals obtain rfl := some.inj hs; exact h.concat _
  | latestCompletedGxid v =>
    cases hs
    exact .inr (.inr (.inl hself))
  | nextGxid g | other => obtain rfl := some.inj hs; exact h.concat _
  | checkpoint sd redo n gs =>
    cases sd with
    | false => obtain rfl := some.inj hs; exact h.concat _
    | true =>
      cases hs
      dsimp only
      split_ifs
      · exact .inr (.inr (.inr ⟨redo,n,gs,hself,rfl⟩))
      · exact h.concat _

theorem Sourced.le {v : Nat} (h : Sourced pre w) (hadm : Admissible pre (.latestCompletedGxid v))
    (hcov : ∀ g, Forgotten pre g → g≤v) : w≤v := by
  rcases h with h0 | hf | hl | ⟨r,n,gs,hc,hn⟩
  · omega
  · exact hcov w hf
  · exact hadm.1 w hl
  · have := hadm.2 r n gs hc
    omega

theorem take_concat (hx : wal[m]?=some x) : wal.take (m+1)=wal.take m ++ [x] := by
  rw [take_add_one,hx]
  rfl

theorem latest_mono (hok : Grammatical Admissible wal) (hcov : Grammatical LatestCovers wal)
    (hm : m₁ ≤ m₂) (hlen : m₂≤wal.length) (hsrc : Sourced (wal.take m₁) s.latestCompletedGxid)
    (hrun : run (redo max) s ((wal.take m₂).drop m₁)=some t) :
    s.latestCompletedGxid≤t.latestCompletedGxid ∧ Sourced (wal.take m₂) t.latestCompletedGxid := by
  refine run_range_invariant (P := fun m u => s.latestCompletedGxid≤u.latestCompletedGxid ∧
      Sourced (wal.take m) u.latestCompletedGxid) hm hlen ⟨le_refl _,hsrc⟩ ?_ hrun
  intro m x u w _ _ hx hP hw
  rw [take_concat hx]
  refine ⟨?_,redo_sourced hP.2 hw⟩
  rcases redo_latest_cases hw with hle | heq
  · exact hP.1.trans hle
  · subst heq
    exact hP.1.trans (hP.2.le (hok m _ hx) (hcov m _ hx))

theorem start_spec (h : start max wal k=some (lo,s₀)) :
    ∃ sd r n gs, wal[k]?=some (.checkpoint sd r n gs) ∧
      run (redoDistributedCommitRecord max) [] gs=some s₀.committedGxids ∧
      (sd=true ∧ k≤r ∧ lo=k+1 ∧ s₀.latestCompletedGxid=n-1 ∨
        sd=false ∧ lo=r ∧ s₀.latestCompletedGxid=0) := by
  unfold start at h
  split at h
  · rename_i sd r n gs hk
    refine ⟨sd,r,n,gs,hk,?_⟩
    obtain ⟨hpanic,h⟩ := Option.ite_none_left_eq_some.mp h
    obtain ⟨array,harray,heq⟩ := map_eq_some_iff.mp h
    cases sd with
    | false =>
      obtain ⟨rfl,rfl⟩ := Prod.mk.inj heq
      exact ⟨harray,.inr ⟨rfl,rfl,rfl⟩⟩
    | true =>
      obtain ⟨rfl,rfl⟩ := Prod.mk.inj heq
      have hkr : k≤r := by
        by_contra hlt
        exact hpanic ⟨rfl,by omega⟩
      exact ⟨harray,.inl ⟨rfl,hkr,rfl,rfl⟩⟩
  · cases h

theorem replayed_spec (h : replayed max wal k m=some v) : ∃ lo s₀, start max wal k=some (lo,s₀) ∧
      run (redo max) s₀ ((wal.take m).drop lo)=some v := by
  obtain ⟨⟨lo,s₀⟩,hstart,hrun⟩ := Option.bind_eq_some_iff.mp h
  exact ⟨lo,s₀,hstart,hrun⟩

theorem start_sourced (h : start max wal k=some (lo,s₀)) :
    Sourced (wal.take lo) s₀.latestCompletedGxid := by
  obtain ⟨sd,r,n,gs,hk,-,⟨rfl,-,rfl,hl⟩ | ⟨-,-,hl⟩⟩ := start_spec h
  · refine .inr (.inr (.inr ⟨r,n,gs,?_,hl⟩))
    exact (mem_take_iff_getElem? _ _).mpr ⟨k,Nat.lt_succ_self k,hk⟩
  · exact .inl hl

section

variable (hok : Grammatical Admissible wal)
include hok

/-- The horizon never goes back on a standby that replays a WAL in which every logged horizon
covers what was forgotten before it, and only a commit record brings a gxid back into progress. -/
theorem replayed_mono (hcov : Grammatical LatestCovers wal) (hm : m₁ ≤ m₂) (hlen : m₂≤wal.length)
    (h₁ : replayed max wal k m₁=some v₁) (h₂ : replayed max wal k m₂=some v₂) :
    v₁.latestCompletedGxid≤v₂.latestCompletedGxid ∧ ∀ g∈v₂.committedGxids, g∉v₁.committedGxids →
        .distributedCommit g∈(wal.take m₂).drop m₁ := by
  obtain ⟨lo,s₀,hstart,hrun₁⟩ := replayed_spec h₁
  obtain ⟨lo',s₀',hstart',hrun₂⟩ := replayed_spec h₂
  obtain ⟨rfl,rfl⟩ := Prod.mk.inj (some.inj (hstart.symm.trans hstart'))
  have hnodup : s₀.committedGxids.Nodup := by
    obtain ⟨sd,r,n,gs,-,hlist,-⟩ := start_spec hstart
    exact (run_redoCommit_spec nodup_nil hlist).1
  -- before the first replayed record both states are the one the standby starts in
  rcases lt_or_ge m₂ lo with hlt | hge
  · rw [drop_eq_nil_of_le (by simp; omega)] at hrun₁ hrun₂
    cases hrun₁
    cases hrun₂
    exact ⟨le_refl _,fun g hg hnot => absurd hg hnot⟩
  · obtain ⟨m,hm₁,hlom,hmm₂,hrun₁⟩ : ∃ m, m₁ ≤ m ∧ lo ≤ m ∧ m ≤ m₂ ∧
        run (redo max) s₀ ((wal.take m).drop lo)=some v₁ := by
      rcases lt_or_ge m₁ lo with hlt | hlo
      · rw [drop_eq_nil_of_le (by simp; omega)] at hrun₁
        refine ⟨lo,hlt.le,le_refl _,hge,?_⟩
        rw [drop_eq_nil_of_le (by simp)]
        exact hrun₁
      · exact ⟨m₁,le_refl _,hlo,hm,hrun₁⟩
    obtain ⟨u,hu,hrest⟩ := (run_range_split hlom hmm₂ _ _).mp hrun₂
    obtain rfl := some.inj (hu.symm.trans hrun₁)
    have hsrc := (latest_mono hok hcov hlom (by omega) (start_sourced hstart) hu).2
    refine ⟨(latest_mono hok hcov hmm₂ hlen hsrc hrest).1,fun g hg hnot => ?_⟩
    have hnd := (run_redoCommittedGxids_spec hnodup (run_redo_committedGxids hu)).1
    obtain ⟨-,hsub,-⟩ := run_redoCommittedGxids_spec hnd (run_redo_committedGxids hrest)
    have hmem := (hsub g hg).resolve_left hnot
    rw [drop_take_split hm₁ hmm₂]
    exact mem_append_right _ hmem

theorem commit_before_forget
    (hf : wal[f]?=some (.distributedForget g)) : ∃ i<f, wal[i]?=some (.distributedCommit g) ∧
      ∀ j : Nat, wal[j]?=some (.distributedCommit g) → j=i := by
  have hcom : Committed (wal.take f) g := hok f _ hf
  obtain ⟨i,hi,hget⟩ := (mem_take_iff_getElem? _ _).mp hcom
  exact ⟨i,hi,hget,fun j hj => commit_position_unique hok hj hget⟩

/-- Replay starts with every commit that precedes it and is not forgotten. -/
theorem start_covers (h : start max wal k=some (lo,s₀)) :
    lo≤k+1 ∧ s₀.committedGxids.Nodup ∧ (∀ g∈s₀.committedGxids, Committed (wal.take k) g) ∧
      ∀ g, Committed (wal.take lo) g → g∈s₀.committedGxids ∨ Forgotten (wal.take k) g := by
  obtain ⟨sd,r,n,gs,hk,hlist,hlo⟩ := start_spec h
  obtain ⟨hrk,hcom,hcov⟩ := checkpoint_covers hok hk
  obtain ⟨hnd,hmem⟩ := run_redoCommit_spec nodup_nil hlist
  have hmem' : ∀ g, g∈s₀.committedGxids ↔ g∈gs := fun g => by simp [hmem]
  have hskip : ∀ g, Committed (wal.take lo) g → Committed (wal.take r) g := by
    intro g hg
    obtain ⟨i,hi,hget⟩ := (mem_take_iff_getElem? _ _).mp hg
    refine (mem_take_iff_getElem? _ _).mpr ⟨i,?_,hget⟩
    rcases hlo with ⟨-,hkr,rfl,-⟩ | ⟨-,rfl,-⟩
    · have hne : i≠k := by
        rintro rfl
        rw [hk] at hget
        cases hget
      omega
    · exact hi
  refine ⟨?_,hnd,fun g hg => hcom g ((hmem' g).mp hg),fun g hg => ?_⟩
  · rcases hlo with ⟨-,-,rfl,-⟩ | ⟨-,rfl,-⟩ <;> omega
  · exact (hcov g (hskip g hg)).imp (hmem' g).mpr id

theorem unfinished_in_array (hkm : k < m)
    (h : replayed max wal k m=some v) (hc : Committed (wal.take m) g)
    (hf : ¬ Forgotten (wal.take m) g) : g∈v.committedGxids := by
  obtain ⟨lo,s₀,hstart,hrun⟩ := replayed_spec h
  obtain ⟨hlok,hnd,-,hcov⟩ := start_covers hok hstart
  obtain ⟨-,-,hsup⟩ := run_redoCommittedGxids_spec hnd (run_redo_committedGxids hrun)
  refine hsup g ?_ fun hm => hf (mem_of_mem_drop hm)
  obtain ⟨i,hi,hget⟩ := (mem_take_iff_getElem? _ _).mp hc
  rcases lt_or_ge i lo with hlt | hge
  · rcases hcov g ((mem_take_iff_getElem? _ _).mpr ⟨i,hlt,hget⟩) with hm | hfk
    · exact .inl hm
    · have hmono : Forgotten (wal.take m) g := (take_prefix_take_left hkm.le).subset hfk
      exact absurd hmono hf
  · exact .inr ((mem_drop_take_iff_getElem? _ _ _).mpr ⟨i,hge,hi,hget⟩)

section

variable (hcov : Grammatical LatestCovers wal)
include hcov

theorem raised_by_forget
    (hlo : lo≤f) (hfm : f < m) (hlen : m≤wal.length) (hstart : start max wal k=some (lo,s₀))
    (hrun : run (redo max) s₀ ((wal.take m).drop lo)=some v)
    (hf : wal[f]?=some (.distributedForget g)) (hfirst : ¬ Forgotten (wal.take f) g)
    (hg : g∈s₀.committedGxids ∨ .distributedCommit g∈(wal.take f).drop lo) :
    g≤v.latestCompletedGxid := by
  obtain ⟨-,hnd,-⟩ := start_covers hok hstart
  obtain ⟨u,hu,hrest⟩ := (run_range_split hlo hfm.le _ _).mp hrun
  obtain ⟨w,hw,hrest⟩ := (run_range_split (Nat.le_succ f) hfm _ _).mp hrest
  rw [run_range_succ hf] at hw
  have hmem : g∈u.committedGxids := by
    obtain ⟨-,-,hsup⟩ := run_redoCommittedGxids_spec hnd (run_redo_committedGxids hu)
    exact hsup g hg fun hm => hfirst (mem_of_mem_drop hm)
  have hsrc := (latest_mono hok hcov hlo (by omega) (start_sourced hstart) hu).2
  have hsrc' : Sourced (wal.take (f+1)) w.latestCompletedGxid := by
    rw [take_concat hf]
    exact redo_sourced hsrc hw
  exact (redo_forget_latest hmem hw).trans (latest_mono hok hcov hfm hlen hsrc' hrest).1

theorem raised_by_record (hlo : lo ≤ i) (him : i < m) (hlen : m≤wal.length)
    (hstart : start max wal k=some (lo,s₀)) (hrun : run (redo max) s₀ ((wal.take m).drop lo)=some v)
    (hi : wal[i]?=some (.latestCompletedGxid w)) : w≤v.latestCompletedGxid := by
  obtain ⟨u,hu,hrest⟩ := (run_range_split hlo him.le _ _).mp hrun
  obtain ⟨u',hu',hrest⟩ := (run_range_split (Nat.le_succ i) him _ _).mp hrest
  rw [run_range_succ hi] at hu'
  have hsrc := (latest_mono hok hcov hlo (by omega) (start_sourced hstart) hu).2
  have hsrc' : Sourced (wal.take (i+1)) u'.latestCompletedGxid := by
    rw [take_concat hi]
    exact redo_sourced hsrc hu'
  obtain rfl := some.inj hu'
  exact (latest_mono hok hcov him hlen hsrc' hrest).1

/-- A forgotten transaction is at or below the latest completed gxid. -/
theorem forgotten_le_latest (hkm : k < m) (hlen : m≤wal.length) (h : replayed max wal k m=some v)
    (hf : Forgotten (wal.take m) g) : g≤v.latestCompletedGxid := by
  obtain ⟨lo,s₀,hstart,hrun⟩ := replayed_spec h
  obtain ⟨f',hfm',hget'⟩ := (mem_take_iff_getElem? _ _).mp hf
  obtain ⟨f,y,hff,hget,rfl,hnone⟩ :=
    exists_first_position (P := fun y => y=.distributedForget g) hget' rfl
  have hfirst : ¬ Forgotten (wal.take f) g := fun hm => hnone _ hm rfl
  obtain ⟨i,hif,hi,-⟩ := commit_before_forget hok hget
  have hrng : lo ≤ i → distributedCommit g∈(wal.take f).drop lo := fun hle =>
    (mem_drop_take_iff_getElem? _ _ _).mpr ⟨i,hle,hif,hi⟩
  have hcomm : ∀ r, i<r → Committed (wal.take r) g := fun r hir =>
    (mem_take_iff_getElem? _ _).mpr ⟨i,hir,hi⟩
  obtain ⟨sd,r,n,gs,hk,hlist,⟨rfl,-,rfl,hl⟩ | ⟨rfl,rfl,-⟩⟩ := start_spec hstart
  · -- every transaction committed before a shutdown checkpoint is below its nextGxid
    rcases Nat.lt_trichotomy i k with hlt | heq | hgt
    · have hn : g<n := (hok k _ hk).2.2.2 g (hcomm k hlt)
      have hle : s₀.latestCompletedGxid≤v.latestCompletedGxid :=
        (latest_mono hok hcov hkm hlen (start_sourced hstart) hrun).1
      omega
    · rw [heq,hk] at hi
      cases hi
    · exact raised_by_forget hok hcov (by omega) (by omega) hlen hstart hrun hget hfirst
        (.inr (hrng hgt))
  · obtain ⟨-,j,w,hrj,hj,hlis⟩ := hok k _ hk
    obtain ⟨hjk,hjget⟩ : j<k ∧ wal[j]?=some (.latestCompletedGxid w) := by
      have hlenj := (List.getElem?_eq_some_iff.mp hj).1
      rw [List.length_take] at hlenj
      rw [List.getElem?_take_of_lt (by omega)] at hj
      exact ⟨by omega,hj⟩
    rcases lt_or_ge f j with hlt | hge
    · have hgw : g≤w := hcov j _ hjget g ((mem_take_iff_getElem? _ _).mpr ⟨f,hlt,hget⟩)
      exact hgw.trans (raised_by_record hok hcov hrj (by omega) hlen hstart hrun hjget)
    · refine raised_by_forget hok hcov (by omega) (by omega) hlen hstart hrun hget hfirst ?_
      rcases lt_or_ge i lo with hir | hir
      · have hcom : Committed ((wal.take k).take lo) g := by
          rw [List.take_take,Nat.min_eq_left (by omega)]
          exact hcomm lo hir
        rcases hlis g hcom with hm | hfj
        · obtain ⟨-,hmem⟩ := run_redoCommit_spec List.nodup_nil hlist
          exact .inl ((hmem g).mpr (.inr hm))
        · rw [List.take_take,Nat.min_eq_left (by omega)] at hfj
          have hsub : Forgotten (wal.take f) g := (List.take_prefix_take_left hge).subset hfj
          exact absurd hsub hfirst
      · exact .inr (hrng hir)

end

/-- A forgotten transaction is out of the array, unless the start checkpoint listed it after its
forget record had been written. -/
theorem forgotten_not_in_array (hstale : ¬ StaleListed wal k)
    (h : replayed max wal k m=some v) (hf : Forgotten (wal.take m) g) : g∉v.committedGxids := by
  obtain ⟨lo,s₀,hstart,hrun⟩ := replayed_spec h
  obtain ⟨-,hnd,-⟩ := start_covers hok hstart
  obtain ⟨f,hfm,hget⟩ := (mem_take_iff_getElem? _ _).mp hf
  obtain ⟨i,hif,hi,hunique⟩ := commit_before_forget hok hget
  have hlate : ∀ a, f≤a → distributedCommit g∉(wal.take m).drop a := by
    intro a ha hm
    obtain ⟨j,haj,-,hj⟩ := (mem_drop_take_iff_getElem? _ _ _).mp hm
    have := hunique j hj
    omega
  rcases lt_or_ge f lo with hlt | hge
  · obtain ⟨-,hsub,-⟩ := run_redoCommittedGxids_spec hnd (run_redo_committedGxids hrun)
    intro hm
    rcases hsub g hm with hm | hm
    · obtain ⟨sd,r,n,gs,hk,hlist,hlo⟩ := start_spec hstart
      obtain ⟨-,hmem⟩ := run_redoCommit_spec nodup_nil hlist
      have hgs : g∈gs := by simpa using (hmem g).mp hm
      have hfr : f<r := by
        rcases hlo with ⟨-,hkr,rfl,-⟩ | ⟨-,rfl,-⟩
        · have hne : f≠k := by
            rintro rfl
            rw [hk] at hget
            cases hget
          omega
        · exact hlt
      apply hstale
      simp only [StaleListed,hk]
      exact ⟨g,hgs,(mem_take_iff_getElem? _ _).mpr ⟨f,hfr,hget⟩⟩
    · exact hlate lo hlt.le hm
  · obtain ⟨u,hu,hrest⟩ := (run_range_split hge hfm.le _ _).mp hrun
    obtain ⟨w,hw,hrest⟩ := (run_range_split (Nat.le_succ f) hfm _ _).mp hrest
    rw [run_range_succ hget] at hw
    have hundup := (run_redoCommittedGxids_spec hnd (run_redo_committedGxids hu)).1
    obtain ⟨hwnd,hwmem⟩ := redoCommittedGxids_spec hundup (redo_committedGxids hw)
    obtain ⟨-,hsub,-⟩ := run_redoCommittedGxids_spec hwnd (run_redo_committedGxids hrest)
    intro hm
    rcases hsub g hm with hm | hm
    · simpa using (hwmem g).mp hm
    · exact hlate (f+1) (Nat.le_succ f) hm

end

/-- Along the WAL of any coordinator in which every logged horizon covers the transactions
forgotten before it, a standby's horizon never goes back, and a gxid that one snapshot treats as
completed is in progress for a later one only if its commit record was replayed in between. -/
theorem standby_horizon_never_goes_back (c : Settings)
    (hp : 512≤c.prefetch ∧ c.prefetch≤2^31-1) (as : List CoordinatorAction) (s : Coordinator)
    (hr : run (step c) .bootstrap as=some s)
    (hcov : Grammatical LatestCovers s.log.wal) (max k m₁ m₂ : Nat) (hm : m₁ ≤ m₂)
    (hlen : m₂ ≤ s.log.wal.length) (v₁ v₂ : Standby) (h₁ : replayed max s.log.wal k m₁=some v₁)
    (h₂ : replayed max s.log.wal k m₂=some v₂) : v₁.latestCompletedGxid≤v₂.latestCompletedGxid ∧
      ∀ g xmins₁ id₁ xmins₂ id₂, ¬ InProgressFor (v₁.snapshot xmins₁ id₁) g →
        InProgressFor (v₂.snapshot xmins₂ id₂) g →
        .distributedCommit g∈(s.log.wal.take m₂).drop m₁ := by
  have hinv := run_coordInv (c := c) (by omega) hr
  obtain ⟨hle,hback⟩ := replayed_mono hinv.wal_ok hcov hm hlen h₁ h₂
  refine ⟨hle,fun g xmins₁ id₁ xmins₂ id₂ hdone hprog => ?_⟩
  rw [inProgressFor_snapshot,not_or] at hdone
  rcases (inProgressFor_snapshot _ _ _ _).mp hprog with hlt | ⟨hmem,h0⟩
  · omega
  · exact hback g hmem fun hold => hdone.2 ⟨hold,h0⟩

def preparedBehind : List CoordinatorAction :=
  [.openForBusiness,.recovery .started,.bumpAcquire,.bumpLimit,.bumpInsert,.flush 2,.bumpFinish,
    .backend 0 .activate,.backend 1 .activate,.backend 0 .prepare,.backend 0 .prepareOk,
    .backend 1 .prepare,.backend 1 .prepareOk,.backend 1 .commitBegin,.backend 1 .commitInsert,
    .backend 1 .commitInserted,.flush 3,.backend 1 .commitFlushed,.backend 1 .notifyCommit,
    .backend 1 .commitDone,.backend 1 .forgetInsert,.backend 1 .forgetInserted,
    .backend 1 .endGxact]

def checkpointThenCommit : List CoordinatorAction :=
  [.ckpt .begin,.ckpt .sample,.ckpt .wait,.ckpt .collect,.ckpt .scan,.ckpt .scan,
    .ckpt .sampleLatest,.ckpt .logLatest,.ckpt .insert,.flush 6,.ckpt .complete,
    .backend 0 .commitBegin,.backend 0 .commitInsert]

def twoBackends : Settings := ⟨2,512,4⟩

theorem checkpointThenCommit_wal :
    ∃ s, run (step twoBackends) .bootstrap (preparedBehind ++ checkpointThenCommit)=
      some s ∧ s.log.wal=[.checkpoint true 0 1 [],.nextGxid 513,.distributedCommit 2,
        .distributedForget 2,.latestCompletedGxid 2,.checkpoint false 4 513 [],
        .distributedCommit 1] := by
  exact exists_run (by decide +kernel)

theorem standby_horizon_over_checkpoint : ∃ s v₁ v₂, run (step twoBackends) .bootstrap
        (preparedBehind ++ checkpointThenCommit)=some s ∧
      replayed 4 s.log.wal 0 3=some v₁ ∧ replayed 4 s.log.wal 0 7=some v₂ ∧
      v₁.latestCompletedGxid≤v₂.latestCompletedGxid := by
  obtain ⟨s,hs,hwal⟩ := checkpointThenCommit_wal
  have h₁ : replayed 4 s.log.wal 0 3=some ⟨0,[2]⟩ := by rw [hwal]; decide
  have h₂ : replayed 4 s.log.wal 0 7=some ⟨2,[1]⟩ := by rw [hwal]; decide
  refine ⟨s,_,_,hs,h₁,h₂,?_⟩
  exact (standby_horizon_never_goes_back twoBackends (by decide) _ s hs (by rw [hwal]; decide)
    4 0 3 7 (by decide) (by rw [hwal]; decide) _ _ h₁ h₂).1

/-- A transaction that is still preparing is not tracked by the standby: it counts as completed
once the horizon has passed it, and as in progress when its commit record arrives. -/
theorem preparing_completed_then_in_progress : ∃ s v₁ v₂, run (step twoBackends) .bootstrap
        (preparedBehind ++ checkpointThenCommit)=some s ∧
      replayed 4 s.log.wal 0 4=some v₁ ∧ replayed 4 s.log.wal 0 7=some v₂ ∧
      ¬ InProgressFor (v₁.snapshot [] 1) 1 ∧ InProgressFor (v₂.snapshot [] 2) 1 := by
  obtain ⟨s,hs,hwal⟩ := checkpointThenCommit_wal
  refine ⟨s,⟨2,[]⟩,⟨2,[1]⟩,hs,?_,?_,?_,?_⟩
  · rw [hwal]
    decide
  · rw [hwal]
    decide
  · rw [inProgressFor_snapshot]
    decide
  · rw [inProgressFor_snapshot]
    decide

/-- A standby snapshot hides every transaction whose commit record has been replayed or lies
before the start and whose forget record is not in the WAL yet. Where every logged horizon covers
what was forgotten before it, and the start checkpoint lists nothing that was forgotten before its
redo pointer, every forgotten transaction is completed for it. -/
theorem standby_snapshot_hides_unfinished (c : Settings)
    (hp : 512≤c.prefetch ∧ c.prefetch≤2^31-1) (as : List CoordinatorAction) (s : Coordinator)
    (hr : run (step c) .bootstrap as=some s) (max k m : Nat) (hkm : k < m)
    (hlen : m ≤ s.log.wal.length) (v : Standby) (h : replayed max s.log.wal k m=some v)
    (xmins : List Nat) (id g : Nat) :
    (Committed (s.log.wal.take m) g → ¬ Forgotten (s.log.wal.take m) g →
      InProgressFor (v.snapshot xmins id) g) ∧
    (Grammatical LatestCovers s.log.wal → ¬ StaleListed s.log.wal k →
      Forgotten (s.log.wal.take m) g → ¬ InProgressFor (v.snapshot xmins id) g) := by
  have hinv := run_coordInv (c := c) (by omega) hr
  rw [inProgressFor_snapshot]
  constructor
  · intro hcom hfor
    have hmem := unfinished_in_array hinv.wal_ok hkm h hcom hfor
    obtain ⟨i,-,hi⟩ := (mem_take_iff_getElem? _ _).mp hcom
    exact .inr ⟨hmem,(hinv.wal_ok i _ hi).1⟩
  · intro hcov hstale hfor
    have hle := forgotten_le_latest hinv.wal_ok hcov hkm hlen h hfor
    have hnot := forgotten_not_in_array hinv.wal_ok hstale h hfor
    rintro (hlt | ⟨hmem,-⟩)
    · omega
    · exact hnot hmem

theorem standby_snapshot_from_online_checkpoint : ∃ s v, run (step twoBackends) .bootstrap
        (preparedBehind ++ checkpointThenCommit)=some s ∧
      replayed 4 s.log.wal 5 7=some v ∧ InProgressFor (v.snapshot [] 1) 1 ∧
      ¬ InProgressFor (v.snapshot [] 1) 2 := by
  obtain ⟨s,hs,hwal⟩ := checkpointThenCommit_wal
  have h : replayed 4 s.log.wal 5 7=some ⟨2,[1]⟩ := by rw [hwal]; decide
  have hview := standby_snapshot_hides_unfinished twoBackends (by decide) _ s hs 4 5 7 (by decide)
    (by rw [hwal]; decide) _ h [] 1
  refine ⟨s,_,hs,h,(hview 1).1 ?_ ?_,(hview 2).2 ?_ ?_ ?_⟩ <;> rw [hwal] <;> decide

theorem prepared_not_hidden : ∃ s v, run (step twoBackends) .bootstrap preparedBehind=some s ∧
      (s.backends 0).gxid=1 ∧ (s.backends 0).state=.prepared ∧ ¬ Forgotten s.log.wal 1 ∧
      replayed 4 s.log.wal 0 4=some v ∧ ¬ InProgressFor (v.snapshot [] 1) 1 := by
  have hrun : (run (step twoBackends) .bootstrap preparedBehind).map
      (fun s => (s.log.wal,s.backends 0))=
        some ([.checkpoint true 0 1 [],.nextGxid 513,.distributedCommit 2,.distributedForget 2],
          ⟨1,.prepared,false,0,false,false⟩) := by decide +kernel
  obtain ⟨s,hs,heq⟩ := map_eq_some_iff.mp hrun
  obtain ⟨hwal,hback⟩ := Prod.mk.inj heq
  refine ⟨s,⟨2,[]⟩,hs,by rw [hback],by rw [hback],?_,?_,?_⟩
  · rw [hwal]
    decide
  · rw [hwal]
    decide
  · rw [inProgressFor_snapshot]
    decide

end WarehousePG.Dtm
