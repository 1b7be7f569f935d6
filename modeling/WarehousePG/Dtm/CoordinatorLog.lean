import Mathlib.Algebra.Group.Nat.Defs
import WarehousePG.Framework.Replay
import Mathlib.Data.List.Nodup

namespace WarehousePG.Dtm

open Framework

/-- `LastDistributedTransactionId`, the largest `uint64`. -/
def lastGxid : Nat := 2^64-1

inductive Record where
  | nextGxid (gxid : Nat)
  | distributedCommit (gxid : Nat)
  | distributedForget (gxid : Nat)
  | latestCompletedGxid (gxid : Nat)
  | checkpoint (shutdown : Bool) (redo nextGxid : Nat) (gxids : List Nat)
  | other
deriving DecidableEq

/-- What `xlog_redo` does to `ShmemVariableCache->nextGxid`. -/
def redoNextGxid (n : Nat) : Record → Nat
  | .nextGxid g => g
  | .checkpoint true _ g _ => g
  | _ => n

/-- Where `bumpGxid` stands while it holds `GxidBumpLock` exclusively. -/
inductive Bump where
  | idle
  | locked
  | limited (nextLimit : Nat)
  | logged (nextLimit recptr : Nat)
deriving DecidableEq

/-- Where `CreateCheckPoint` stands; `sampled` is reached under `GxidBumpLock` in shared mode. -/
inductive Ckpt where
  | idle
  | begun (shutdown : Bool) (redo : Nat)
  | sampled (shutdown : Bool) (redo nextGxid : Nat)
  | inserted (shutdown : Bool) (redo nextGxid : Nat) (gxids : List Nat) (recptr : Nat)
deriving DecidableEq

inductive Phase where
  | startup
  | normal
  | shutdown
deriving DecidableEq

structure Control where
  redo : Nat
  nextGxid : Nat
  gxids : List Nat
deriving DecidableEq

/-- Write-ahead log, control file and the gxid generator of the coordinator. WAL positions are
record counts. `start` and `assigned` are history: where the log ended when this incarnation
came up, and every gxid handed out so far, oldest first. -/
@[ext] structure Log where
  wal : List Record
  flushed : Nat
  control : Control
  nextGxid : Nat
  gxidCount : Nat
  bump : Bump
  ckpt : Ckpt
  phase : Phase
  start : Nat
  assigned : List Nat
deriving DecidableEq

def Log.bootstrap : Log where
  wal := [.checkpoint true 0 1 []]
  flushed := 1
  control := ⟨0,1,[]⟩
  nextGxid := 1
  gxidCount := 0
  bump := .idle
  ckpt := .idle
  phase := .startup
  start := 1
  assigned := []

/-- `GXID_PRETCH_THRESHOLD`. -/
def prefetchThreshold (prefetch : Nat) : Nat := prefetch/2

/-- The counter part of `currentDtxActivate`, under `shmGxidGenLock`. -/
def Log.activate (s : Log) : Option Log :=
  if s.phase=.normal ∧ 0<s.gxidCount then
    some { s with nextGxid := (s.nextGxid+1)%2^64, gxidCount := s.gxidCount-1,
                  assigned := s.assigned ++ [s.nextGxid] }
  else none

/-- `bumpGxid` gets `GxidBumpLock` and finds out whether there is anything to do. -/
def Log.bumpAcquire (prefetch : Nat) (s : Log) : Option Log :=
  if s.phase=.normal ∧ s.bump=.idle then
    if prefetchThreshold prefetch<s.gxidCount then some s else some { s with bump := .locked }
  else none

/-- The new limit, under `shmGxidGenLock`; close to the end of the id space this is a PANIC. -/
def Log.bumpLimit (prefetch : Nat) (s : Log) : Option Log :=
  let nextCount := (s.gxidCount+prefetch)%2^32
  let nextLimit := (s.nextGxid+nextCount)%2^64
  if s.bump=.locked ∧ nextLimit<lastGxid-prefetch then
    some { s with bump := .limited nextLimit }
  else none

/-- `XLogPutNextGxid`: insert the record, then flush it. -/
def Log.bumpInsert (s : Log) : Option Log :=
  match s.bump with
  | .limited l => some { s with wal := s.wal ++ [.nextGxid l], bump := .logged l s.wal.length }
  | _ => none

/-- Only once the record is on disk does `bumpGxid` raise `GxidCount`. -/
def Log.bumpFinish (prefetch : Nat) (s : Log) : Option Log :=
  match s.bump with
  | .logged _ k =>
    if k<s.flushed then some { s with gxidCount := s.gxidCount+prefetch, bump := .idle } else none
  | _ => none

/-- The redo pointer of a new checkpoint. Outside normal running it is a shutdown checkpoint
(an end-of-recovery checkpoint is one too). -/
def Log.ckptBegin (s : Log) : Option Log :=
  if s.ckpt=.idle then
    some { s with ckpt := .begun (decide (s.phase≠.normal)) s.wal.length }
  else none

/-- `checkPoint.nextGxid`; only an online checkpoint counts the rest of the current batch. -/
def Log.ckptSample (s : Log) : Option Log :=
  match s.ckpt with
  | .begun shutdown redo =>
    if s.bump=.idle then
      let n := if shutdown then s.nextGxid else (s.nextGxid+s.gxidCount)%2^64
      some { s with ckpt := .sampled shutdown redo n }
    else none
  | _ => none

def Log.ckptInsert (gxids : List Nat) (s : Log) : Option Log :=
  match s.ckpt with
  | .sampled shutdown redo n =>
    some { s with wal := s.wal ++ [.checkpoint shutdown redo n gxids],
                  ckpt := .inserted shutdown redo n gxids s.wal.length }
  | _ => none

/-- The control file is updated after the record is flushed. A shutdown checkpoint whose record
is not at its redo pointer is a PANIC. -/
def Log.ckptComplete (s : Log) : Option Log :=
  match s.ckpt with
  | .inserted shutdown redo n gxids k =>
    if k<s.flushed ∧ (shutdown=true → redo=k) then
      some { s with ckpt := .idle, control := ⟨redo,n,gxids⟩ }
    else none
  | _ => none

/-- Every other record; none is written once the shutdown checkpoint is under way. -/
def Log.insert (r : Record) (s : Log) : Option Log :=
  match r with
  | .nextGxid _ => none
  | .checkpoint .. => none
  | r => if s.phase=.shutdown then none else some { s with wal := s.wal ++ [r] }

def Log.flush (upto : Nat) (s : Log) : Option Log :=
  if s.flushed≤upto ∧ upto ≤ s.wal.length then some { s with flushed := upto } else none

def Log.openForBusiness (s : Log) : Option Log :=
  if s.phase=.startup ∧ s.ckpt=.idle then some { s with phase := .normal } else none

def Log.stop (s : Log) : Option Log :=
  if s.phase=.normal ∧ s.ckpt=.idle ∧ s.bump=.idle then some { s with phase := .shutdown } else none

/-- Crash or restart: only the flushed WAL survives, and recovery replays it from the redo
pointer of the checkpoint in the control file. -/
def Log.restart (s : Log) : Log :=
  { s with wal := s.wal.take s.flushed
           nextGxid := replay redoNextGxid s.wal s.control.redo s.flushed s.control.nextGxid
           gxidCount := 0, bump := .idle, ckpt := .idle, phase := .startup
           start := (s.wal.take s.flushed).length }

inductive LogAction where
  | activate
  | bumpAcquire
  | bumpLimit
  | bumpInsert
  | bumpFinish
  | ckptBegin
  | ckptSample
  | ckptInsert (gxids : List Nat)
  | ckptComplete
  | insert (r : Record)
  | flush (upto : Nat)
  | openForBusiness
  | stop
  | restart
deriving DecidableEq

def Log.step (prefetch : Nat) (s : Log) : LogAction → Option Log
  | .activate => s.activate
  | .bumpAcquire => s.bumpAcquire prefetch
  | .bumpLimit => s.bumpLimit prefetch
  | .bumpInsert => s.bumpInsert
  | .bumpFinish => s.bumpFinish prefetch
  | .ckptBegin => s.ckptBegin
  | .ckptSample => s.ckptSample
  | .ckptInsert gxids => s.ckptInsert gxids
  | .ckptComplete => s.ckptComplete
  | .insert r => s.insert r
  | .flush upto => s.flush upto
  | .openForBusiness => s.openForBusiness
  | .stop => s.stop
  | .restart => some s.restart

open List

variable {array gxids : List Nat} {max : Nat} {records : List Record}

/-- `redoDistributedCommitRecord`; `none` is the FATAL for a full array. -/
def redoDistributedCommitRecord (maxTmGxacts : Nat) (array : List Nat) (gxid : Nat) :
    Option (List Nat) :=
  if gxid∈array then some array
  else if maxTmGxacts≤array.length then none
  else some (array ++ [gxid])

def removeSwap (array : List Nat) (gxid : Nat) : List Nat :=
  (array.set (array.idxOf gxid) (array.getLastD 0)).dropLast

/-- The array part of `redoDistributedForgetCommitRecord`. -/
def redoDistributedForgetCommitRecord (array : List Nat) (gxid : Nat) : List Nat :=
  if gxid∈array then removeSwap array gxid else array

def redoCommittedGxids (maxTmGxacts : Nat) (array : List Nat) : Record → Option (List Nat)
  | .distributedCommit g => redoDistributedCommitRecord maxTmGxacts array g
  | .distributedForget g => some (redoDistributedForgetCommitRecord array g)
  | _ => some array

/-- `redoDtxCheckPoint` of the start checkpoint, then the redo of the WAL after it. -/
def rebuildCommittedGxids (maxTmGxacts : Nat) (gxids : List Nat) (records : List Record) :
    Option (List Nat) :=
  (run (redoDistributedCommitRecord maxTmGxacts) [] gxids).bind fun array =>
    run (redoCommittedGxids maxTmGxacts) array records

/-- Removal by swapping with the last element. -/
theorem removeSwap_perm (array : List Nat) (g : Nat) (hg : g∈array) :
    (removeSwap array g).Perm (array.erase g) := by
  rcases eq_nil_or_concat array with rfl | ⟨l,x,rfl⟩
  · cases hg
  · rw [concat_eq_append] at hg ⊢
    have hlast : (l ++ [x]).getLastD 0=x := by simp
    by_cases hl : g∈l
    · obtain ⟨a,b,rfl,hnot⟩ := eq_append_cons_of_mem hl
      have hidx : (a ++ g::b ++ [x]).idxOf g=a.length := by
        rw [append_assoc,idxOf_append_of_notMem hnot]
        simp
      have herase : (a ++ g::b ++ [x]).erase g=a ++ (b ++ [x]) := by
        rw [append_assoc,erase_append_right _ hnot]
        simp
      have hswap : removeSwap (a ++ g::b ++ [x]) g=a ++ x::b := by
        unfold removeSwap
        rw [hidx,hlast,append_assoc,set_append_right _ _ (Nat.le_refl _),Nat.sub_self,
          cons_append,set_cons_zero,← cons_append,← append_assoc,
          dropLast_concat]
      rw [hswap,herase]
      exact List.Perm.append_left a (perm_append_singleton x b).symm
    · have hgx : g=x := by simpa [hl] using hg
      subst hgx
      have hidx : (l ++ [g]).idxOf g=l.length := by
        rw [idxOf_append_of_notMem hl]
        simp
      unfold removeSwap
      rw [hidx,erase_append_right _ hl]
      simp

section

variable (hnd : array.Nodup)
include hnd

theorem mem_removeSwap (hg : g∈array) (h : Nat) : h∈removeSwap array g ↔ h∈array ∧ h≠g := by
  rw [(removeSwap_perm array g hg).mem_iff,hnd.mem_erase_iff,and_comm]

theorem removeSwap_nodup (hg : g∈array) : (removeSwap array g).Nodup :=
  (removeSwap_perm array g hg).nodup_iff.mpr (hnd.erase g)

theorem redoDistributedCommitRecord_spec (h : redoDistributedCommitRecord max array g=some array') :
    array'.Nodup ∧ ∀ x, x∈array' ↔ x∈array ∨ x=g := by
  unfold redoDistributedCommitRecord at h
  split_ifs at h with hmem hfull
  · cases h
    refine ⟨hnd,fun x => ⟨.inl,?_⟩⟩
    rintro (hx | rfl)
    · exact hx
    · exact hmem
  · cases h
    refine ⟨?_,fun x => by simp⟩
    apply List.Nodup.append hnd (nodup_singleton g)
    simpa using hmem

theorem redoDistributedForgetCommitRecord_spec (g : Nat) :
    (redoDistributedForgetCommitRecord array g).Nodup ∧
      ∀ x, x∈redoDistributedForgetCommitRecord array g ↔ x∈array ∧ x≠g := by
  unfold redoDistributedForgetCommitRecord
  split_ifs with hmem
  · exact ⟨removeSwap_nodup hnd hmem,mem_removeSwap hnd hmem⟩
  · refine ⟨hnd,fun x => ⟨fun hx => ⟨hx,?_⟩,And.left⟩⟩
    rintro rfl
    exact hmem hx

theorem redoCommittedGxids_spec {r : Record} (h : redoCommittedGxids max array r=some array') :
    array'.Nodup ∧ ∀ x, x∈array' ↔ (x∈array ∧ r≠.distributedForget x) ∨ r=.distributedCommit x := by
  cases r with
  | distributedCommit g =>
    obtain ⟨h1,h2⟩ := redoDistributedCommitRecord_spec hnd h
    refine ⟨h1,fun x => ?_⟩
    rw [h2]
    simp [eq_comm]
  | distributedForget g =>
    cases h
    obtain ⟨h1,h2⟩ := redoDistributedForgetCommitRecord_spec hnd g
    refine ⟨h1,fun x => ?_⟩
    rw [h2]
    simp [eq_comm]
  | nextGxid g | latestCompletedGxid g | checkpoint sd r n gs | other =>
    obtain rfl := Option.some.inj h; simp [hnd]

theorem run_redoCommit_spec (h : run (redoDistributedCommitRecord max) array gxids=some array') :
    array'.Nodup ∧ ∀ x, x∈array' ↔ x∈array ∨ x∈gxids := by
  induction gxids generalizing array with
  | nil =>
    cases h
    simp [hnd]
  | cons g gxids ih =>
    obtain ⟨mid,hmid,hrest⟩ := (run_cons_iff _ _ _ _).mp h
    obtain ⟨h1,h2⟩ := redoDistributedCommitRecord_spec hnd hmid
    obtain ⟨h3,h4⟩ := ih h1 hrest
    refine ⟨h3,fun x => ?_⟩
    rw [h4,h2,mem_cons]
    tauto

/-- What replaying WAL leaves in the array: nothing it has not been told of, and everything it
has been told of and not told to forget. -/
theorem run_redoCommittedGxids_spec (h : run (redoCommittedGxids max) array records=some array') :
    array'.Nodup ∧ (∀ x∈array', x∈array ∨ .distributedCommit x∈records) ∧
      ∀ x, x∈array ∨ .distributedCommit x∈records → .distributedForget x∉records → x∈array' := by
  induction records generalizing array with
  | nil =>
    cases h
    simp [hnd]
  | cons r records ih =>
    obtain ⟨mid,hmid,hrest⟩ := (run_cons_iff _ _ _ _).mp h
    obtain ⟨h1,h2⟩ := redoCommittedGxids_spec hnd hmid
    obtain ⟨h3,h4,h5⟩ := ih h1 hrest
    refine ⟨h3,?_,?_⟩
    · intro x hx
      rcases h4 x hx with hm | hm
      · rcases (h2 x).mp hm with ⟨ha,-⟩ | rfl
        · exact .inl ha
        · exact .inr mem_cons_self
      · exact .inr (mem_cons_of_mem _ hm)
    · intro x hx hf
      simp only [mem_cons,not_or] at hf
      apply h5 x _ hf.2
      rw [h2]
      rcases hx with ha | hm
      · exact .inl (.inl ⟨ha,Ne.symm hf.1⟩)
      · rcases mem_cons.mp hm with heq | hm
        · exact .inl (.inr heq.symm)
        · exact .inr hm

end

theorem rebuildCommittedGxids_spec (h : rebuildCommittedGxids max gxids records=some array) :
    array.Nodup ∧ (∀ x∈array, x∈gxids ∨ .distributedCommit x∈records) ∧
      ∀ x, x∈gxids ∨ .distributedCommit x∈records → .distributedForget x∉records → x∈array := by
  obtain ⟨mid,hmid,hrest⟩ := Option.bind_eq_some_iff.mp h
  obtain ⟨h1,h2⟩ := run_redoCommit_spec nodup_nil hmid
  have h3 := run_redoCommittedGxids_spec h1 hrest
  simpa only [h2,not_mem_nil,false_or] using h3

end WarehousePG.Dtm
