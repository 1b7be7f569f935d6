import WarehousePG.Dtm.GxidUnique

namespace WarehousePG.Dtm

inductive DtxState where
  | none
  | activeDistributed
  | onePhaseCommit
  | notifyingOnePhaseCommit
  | preparing
  | prepared
  | insertingCommitted
  | insertedCommitted
  | notifyingCommitPrepared
  | insertingForgetCommitted
  | insertedForgetCommitted
  | notifyingAbortNoPrepared
  | notifyingAbortSomePrepared
  | notifyingAbortPrepared
  | retryCommitPrepared
  | retryAbortPrepared
deriving DecidableEq

/-- One coordinator backend: its `TMGXACT` entry, its DTX state, `delayChkpt`, and whether the
record of an "inserting" state is in the WAL yet. `recptr` is where its distributed commit record
went. -/
structure Backend where
  gxid : Nat
  state : DtxState
  logged : Bool
  recptr : Nat
  includeInCkpt : Bool
  delayChkpt : Bool
deriving DecidableEq

def Backend.idle : Backend := ⟨0,.none,false,0,false,false⟩

/-- The distributed part of `CreateCheckPoint`, after the sample of `nextGxid`. -/
inductive DtxCkpt where
  | idle
  | waiting (vxids : List (Nat × Nat))
  | collecting (next : Nat) (gxids : List Nat)
  | sampledLatest (gxids : List Nat) (lcgxid : Nat)
  | loggedLatest (gxids : List Nat)
deriving DecidableEq

/-- The primary coordinator. `recovering` is the loop variable of `recoverInDoubtTransactions`,
which runs until `dtmStarted`. -/
structure Coordinator where
  log : Log
  latestCompletedGxid : Nat
  committedGxids : List Nat
  recovering : Nat
  dtmStarted : Bool
  backends : Nat → Backend
  dtxCkpt : DtxCkpt

structure Settings where
  numProcs : Nat
  prefetch : Nat
  maxTmGxacts : Nat
deriving DecidableEq

def Coordinator.bootstrap : Coordinator where
  log := .bootstrap
  latestCompletedGxid := 1
  committedGxids := []
  recovering := 0
  dtmStarted := false
  backends := fun _ => .idle
  dtxCkpt := .idle

def Coordinator.setBackend (s : Coordinator) (p : Nat) (b : Backend) : Coordinator :=
  { s with backends := Function.update s.backends p b }

/-- What one backend does on its way through a distributed transaction. Where a broadcast to the
segments decides, the outcome is part of the action. -/
inductive BackendAction where
  | activate
  | onePhase
  | prepare
  | prepareOk
  | commitBegin
  | commitInsert
  | commitInserted
  | commitFlushed
  | notifyCommit
  | notifyFailed
  | commitDone
  | forgetInsert
  | forgetInserted
  | rollback (writerGangLost : Bool)
  | abortFailed
  | endGxact
deriving DecidableEq

/-- `rollbackDtxTransaction`: the state from which the abort is broadcast. -/
def rollbackState (writerGangLost : Bool) : DtxState → Option DtxState
  | .activeDistributed => if writerGangLost then none else some .notifyingAbortNoPrepared
  | .onePhaseCommit => if writerGangLost then none else some .notifyingAbortNoPrepared
  | .notifyingOnePhaseCommit => if writerGangLost then none else some .notifyingAbortNoPrepared
  | .preparing =>
    if writerGangLost then some .retryAbortPrepared else some .notifyingAbortSomePrepared
  | .prepared => some .notifyingAbortPrepared
  | _ => none

def mayEnd : DtxState → Bool
  | .preparing => false
  | .prepared => false
  | .insertingCommitted => false
  | .insertedCommitted => false
  | .notifyingCommitPrepared => false
  | .retryCommitPrepared => false
  | .insertingForgetCommitted => false
  | _ => true

/-- A change of state of a backend that writes no WAL and touches no other shared memory. -/
def localMove (log : Log) (b : Backend) : BackendAction → Option Backend
  | .onePhase =>
    if b.state=.activeDistributed then some { b with state := .notifyingOnePhaseCommit } else none
  | .prepare => if b.state=.activeDistributed then some { b with state := .preparing } else none
  | .prepareOk => if b.state=.preparing then some { b with state := .prepared } else none
  | .commitBegin =>
    if b.state=.prepared then
      some { b with state := .insertingCommitted, logged := false, delayChkpt := true }
    else none
  | .commitInserted =>
    if b.state=.insertingCommitted ∧ b.logged=true then
      some { b with state := .insertedCommitted, includeInCkpt := true }
    else none
  | .commitFlushed =>
    if b.state=.insertedCommitted ∧ b.recptr<log.flushed then some { b with delayChkpt := false }
    else none
  | .notifyCommit =>
    if b.state=.insertedCommitted ∧ b.delayChkpt=false then
      some { b with state := .notifyingCommitPrepared }
    else none
  | .notifyFailed =>
    if b.state=.notifyingCommitPrepared ∨ b.state=.retryCommitPrepared then
      some { b with state := .retryCommitPrepared }
    else none
  | .commitDone =>
    if b.state=.notifyingCommitPrepared ∨ b.state=.retryCommitPrepared then
      some { b with state := .insertingForgetCommitted, logged := false }
    else none
  | .forgetInserted =>
    if b.state=.insertingForgetCommitted ∧ b.logged=true then
      some { b with state := .insertedForgetCommitted, includeInCkpt := false }
    else none
  | .rollback gangLost => (rollbackState gangLost b.state).map fun st => { b with state := st }
  | .abortFailed =>
    if b.state=.notifyingAbortSomePrepared ∨ b.state=.notifyingAbortPrepared ∨
        b.state=.retryAbortPrepared then
      some { b with state := .retryAbortPrepared }
    else none
  | _ => none

def Coordinator.backendStep (c : Settings) (s : Coordinator) (p : Nat) (a : BackendAction) :
    Option Coordinator :=
  let b := s.backends p
  if s.log.phase=.normal ∧ p<c.numProcs then
    match a with
    | .activate =>
      if s.dtmStarted=true ∧ b.gxid=0 then
        s.log.activate.map fun log =>
          { s with log := log }.setBackend p
            { Backend.idle with gxid := s.log.nextGxid, state := .activeDistributed }
      else none
    | .commitInsert =>
      if b.state=.insertingCommitted ∧ b.logged=false then
        (s.log.insert (.distributedCommit b.gxid)).map fun log =>
          { s with log := log }.setBackend p { b with logged := true, recptr := s.log.wal.length }
      else none
    | .forgetInsert =>
      if b.state=.insertingForgetCommitted ∧ b.logged=false then
        (s.log.insert (.distributedForget b.gxid)).map fun log =>
          { s with log := log }.setBackend p { b with logged := true }
      else none
    | .endGxact =>
      if mayEnd b.state=true then
        let latest :=
          if b.gxid≠0 ∧ s.latestCompletedGxid<b.gxid then b.gxid else s.latestCompletedGxid
        some ({ s with latestCompletedGxid := latest }.setBackend p .idle)
      else none
    | a => (localMove s.log b a).map (s.setBackend p)
  else none

/-- `GetVirtualXIDsDelayingChkpt`. -/
def Coordinator.delaying (c : Settings) (s : Coordinator) : List (Nat × Nat) :=
  ((List.range c.numProcs).filter fun p => (s.backends p).delayChkpt).map fun p =>
    (p,(s.backends p).gxid)

/-- The distributed part of `CreateCheckPoint`, from the wait for commits in their critical
section to the checkpoint record. -/
inductive CkptAction where
  | begin
  | sample
  | wait
  | collect
  | scan
  | sampleLatest
  | logLatest
  | insert
  | complete
deriving DecidableEq

def Coordinator.ckptStep (c : Settings) (s : Coordinator) : CkptAction → Option Coordinator
  | .begin => s.log.ckptBegin.map fun log => { s with log := log }
  | .sample => s.log.ckptSample.map fun log => { s with log := log }
  | .wait =>
    match s.log.ckpt, s.dtxCkpt with
    | .sampled .., .idle => some { s with dtxCkpt := .waiting (s.delaying c) }
    | _, _ => none
  | .collect =>
    match s.dtxCkpt with
    | .waiting vxids =>
      if ∀ v∈vxids, ¬ ((s.backends v.1).gxid=v.2 ∧ (s.backends v.1).delayChkpt=true) then
        some { s with dtxCkpt := .collecting 0 s.committedGxids }
      else none
    | _ => none
  | .scan =>
    match s.dtxCkpt with
    | .collecting next gxids =>
      if next<c.numProcs then
        let b := s.backends next
        let gxids := if b.includeInCkpt then gxids ++ [b.gxid] else gxids
        some { s with dtxCkpt := .collecting (next+1) gxids }
      else none
    | _ => none
  | .sampleLatest =>
    match s.log.ckpt, s.dtxCkpt with
    | .sampled false _ _, .collecting next gxids =>
      if next=c.numProcs then
        some { s with dtxCkpt := .sampledLatest gxids s.latestCompletedGxid }
      else none
    | _, _ => none
  | .logLatest =>
    match s.dtxCkpt with
    | .sampledLatest gxids lcgxid =>
      (s.log.insert (.latestCompletedGxid lcgxid)).map fun log =>
        { s with log := log, dtxCkpt := .loggedLatest gxids }
    | _ => none
  | .insert =>
    match s.log.ckpt, s.dtxCkpt with
    | .sampled true _ _, .collecting next gxids =>
      if next=c.numProcs then
        (s.log.ckptInsert gxids).map fun log => { s with log := log, dtxCkpt := .idle }
      else none
    | .sampled false _ _, .loggedLatest gxids =>
      (s.log.ckptInsert gxids).map fun log => { s with log := log, dtxCkpt := .idle }
    | _, _ => none
  | .complete => s.log.ckptComplete.map fun log => { s with log := log }

/-- `recoverInDoubtTransactions` as far as the coordinator's own state is concerned. -/
inductive RecoveryAction where
  | forget
  | again
  | done
  | started
deriving DecidableEq

def Coordinator.recoveryStep (s : Coordinator) (a : RecoveryAction) : Option Coordinator :=
  if s.log.phase=.normal ∧ s.dtmStarted=false then
    match a with
    | .forget =>
      match s.committedGxids[s.recovering]? with
      | some gxid =>
        (s.log.insert (.distributedForget gxid)).map fun log =>
          { s with log := log, recovering := s.recovering+1 }
      | none => none
    | .again => some { s with recovering := 0 }
    | .done =>
      if s.recovering=s.committedGxids.length then
        some { s with committedGxids := [], recovering := 0 }
      else none
    | .started => if s.committedGxids=[] then some { s with dtmStarted := true } else none
  else none

/-- Crash and restart; when the rebuilt array would overflow the coordinator stays down. -/
def Coordinator.restart (c : Settings) (s : Coordinator) : Option Coordinator :=
  let records := (s.log.wal.take s.log.flushed).drop s.log.control.redo
  (rebuildCommittedGxids c.maxTmGxacts s.log.control.gxids records).map fun array =>
    { log := s.log.restart
      latestCompletedGxid := s.log.restart.nextGxid
      committedGxids := array
      recovering := 0
      dtmStarted := false
      backends := fun _ => .idle
      dtxCkpt := .idle }

inductive CoordinatorAction where
  | backend (p : Nat) (a : BackendAction)
  | ckpt (a : CkptAction)
  | recovery (a : RecoveryAction)
  | bumpAcquire
  | bumpLimit
  | bumpInsert
  | bumpFinish
  | insertOther
  | flush (upto : Nat)
  | openForBusiness
  | stop
  | restart
deriving DecidableEq

def Coordinator.step (c : Settings) (s : Coordinator) : CoordinatorAction → Option Coordinator
  | .backend p a => s.backendStep c p a
  | .ckpt a => s.ckptStep c a
  | .recovery a => s.recoveryStep a
  | .bumpAcquire => (s.log.bumpAcquire c.prefetch).map fun log => { s with log := log }
  | .bumpLimit => (s.log.bumpLimit c.prefetch).map fun log => { s with log := log }
  | .bumpInsert => s.log.bumpInsert.map fun log => { s with log := log }
  | .bumpFinish => (s.log.bumpFinish c.prefetch).map fun log => { s with log := log }
  | .insertOther => (s.log.insert .other).map fun log => { s with log := log }
  | .flush upto => (s.log.flush upto).map fun log => { s with log := log }
  | .openForBusiness => s.log.openForBusiness.map fun log => { s with log := log }
  | .stop =>
    if ∀ p<c.numProcs, (s.backends p).gxid=0 then s.log.stop.map fun log => { s with log := log }
    else none
  | .restart => s.restart c

open Framework List

variable {b : Backend} {g : Nat}

def Committed (wal : List Record) (g : Nat) : Prop := Record.distributedCommit g∈wal
  deriving Decidable

def Forgotten (wal : List Record) (g : Nat) : Prop := Record.distributedForget g∈wal
  deriving Decidable

/-- What the coordinator guarantees about a record, given the WAL before it. A checkpoint lists
every transaction committed before its redo pointer, unless that transaction's forget record is
already in the WAL when the list is made; for an online checkpoint that is before its
`XLOG_LATESTCOMPLETED_GXID` record. -/
def Admissible (pre : List Record) : Record → Prop
  | .distributedCommit g => g≠0 ∧ ¬ Committed pre g ∧ ¬ Forgotten pre g
  | .distributedForget g => Committed pre g
  | .latestCompletedGxid v => (∀ w, .latestCompletedGxid w∈pre → w≤v) ∧
      ∀ r n gs, .checkpoint true r n gs∈pre → n≤v
  | .checkpoint false r _ gs => (∀ g∈gs, Committed pre g) ∧
      ∃ i v, r ≤ i ∧ pre[i]?=some (.latestCompletedGxid v) ∧
        ∀ g, Committed (pre.take r) g → g∈gs ∨ Forgotten (pre.take i) g
  | .checkpoint true r n gs => (∀ g∈gs, Committed pre g) ∧ r≤pre.length ∧
      (∀ g, Committed (pre.take r) g → g∈gs ∨ Forgotten pre g) ∧ ∀ g, Committed pre g → g<n
  | .nextGxid _ => True
  | .other => True

inductive Stage where
  | idle
  | uncommitted
  | logging
  | committed
  | forgetting
  | forgotten
deriving DecidableEq

def Backend.stage (b : Backend) : Stage :=
  match b.state with
  | .none => .idle
  | .insertingCommitted => if b.logged then .logging else .uncommitted
  | .insertedCommitted => .committed
  | .notifyingCommitPrepared => .committed
  | .retryCommitPrepared => .committed
  | .insertingForgetCommitted => if b.logged then .forgetting else .committed
  | .insertedForgetCommitted => .forgotten
  | _ => .uncommitted

def Backend.LoggedAt (wal : List Record) (b : Backend) : Prop :=
  wal[b.recptr]?=some (.distributedCommit b.gxid)

def BackendOk (wal : List Record) (flushed nextGxid : Nat) (b : Backend) : Prop :=
  match b.stage with
  | .idle => b=.idle
  | .uncommitted => (b.gxid≠0 ∧ b.gxid<nextGxid) ∧ ¬ Committed wal b.gxid ∧
      b.includeInCkpt=false ∧ (b.state=.insertingCommitted → b.delayChkpt=true)
  | .logging => (b.gxid≠0 ∧ b.gxid<nextGxid) ∧ b.LoggedAt wal ∧ ¬ Forgotten wal b.gxid ∧
      b.includeInCkpt=false ∧ b.delayChkpt=true
  | .committed => (b.gxid≠0 ∧ b.gxid<nextGxid) ∧ b.LoggedAt wal ∧ ¬ Forgotten wal b.gxid ∧
      b.includeInCkpt=true ∧ (b.state=.insertedCommitted ∧ b.delayChkpt=true ∨ b.recptr<flushed)
  | .forgetting => (b.gxid≠0 ∧ b.gxid<nextGxid) ∧ b.LoggedAt wal ∧ Forgotten wal b.gxid ∧
      b.recptr<flushed
  | .forgotten => (b.gxid≠0 ∧ b.gxid<nextGxid) ∧ b.LoggedAt wal ∧ Forgotten wal b.gxid ∧
      b.recptr<flushed

def DtxCkptOk (c : Settings) (s : Coordinator) : Prop :=
  match s.log.ckpt with
  | .idle => s.dtxCkpt=.idle
  | .begun _ _ => s.dtxCkpt=.idle
  | .sampled sd r _ =>
    match s.dtxCkpt with
    | .idle => True
    | .waiting vxids => ∀ p<c.numProcs, (s.backends p).stage=.logging →
        (s.backends p).recptr<r → (p,(s.backends p).gxid)∈vxids
    | .collecting i gs => (∀ g∈gs, Committed s.log.wal g) ∧
        ∀ g, Committed (s.log.wal.take r) g → g∈gs ∨ Forgotten s.log.wal g ∨
          ∃ j, i≤j ∧ j<c.numProcs ∧ (s.backends j).gxid=g ∧ (s.backends j).includeInCkpt=true
    | .sampledLatest gs lc => sd=false ∧ (∀ g∈gs, Committed s.log.wal g) ∧
        (∀ g, Committed (s.log.wal.take r) g → g∈gs ∨ Forgotten s.log.wal g) ∧
        lc ≤ s.latestCompletedGxid ∧ (∀ v, .latestCompletedGxid v∈s.log.wal → v≤lc) ∧
        ∀ r n gs, .checkpoint true r n gs∈s.log.wal → n≤lc
    | .loggedLatest gs => sd=false ∧ (∀ g∈gs, Committed s.log.wal g) ∧
        ∃ i v, r ≤ i ∧ s.log.wal[i]?=some (.latestCompletedGxid v) ∧
          ∀ g, Committed (s.log.wal.take r) g → g∈gs ∨ Forgotten (s.log.wal.take i) g
  | .inserted sd r n gs k => s.dtxCkpt=.idle ∧ s.log.wal[k]?=some (.checkpoint sd r n gs)

structure CoordInv (c : Settings) (s : Coordinator) : Prop where
  log_inv : LogInv c.prefetch s.log
  wal_ok : Grammatical Admissible s.log.wal
  committed_lt : ∀ g, Committed s.log.wal g → g<s.log.nextGxid
  backend_ok : ∀ p, BackendOk s.log.wal s.log.flushed s.log.nextGxid (s.backends p)
  distinct : ∀ p q, (s.backends p).gxid≠0 → (s.backends p).gxid=(s.backends q).gxid → p=q
  outside : ∀ p, c.numProcs≤p → s.backends p=.idle
  accounted : ∀ g, Committed s.log.wal g → Forgotten s.log.wal g ∨ g∈s.committedGxids ∨
    ∃ p<c.numProcs, (s.backends p).gxid=g ∧
      ((s.backends p).stage=.logging ∨ (s.backends p).stage=.committed)
  array_committed : ∀ g∈s.committedGxids, Committed s.log.wal g
  array_forgotten : ∀ j<s.recovering, ∀ g, s.committedGxids[j]?=some g → Forgotten s.log.wal g
  started : s.dtmStarted=true → s.committedGxids=[]
  busy : ∀ p, (s.backends p).gxid≠0 → s.dtmStarted=true ∧ s.log.phase=.normal
  control_ok : ∃ k sd, k<s.log.flushed ∧ s.log.wal[k]?=
    some (.checkpoint sd s.log.control.redo s.log.control.nextGxid s.log.control.gxids)
  latest_le : s.latestCompletedGxid ≤ s.log.nextGxid
  startup_latest : s.log.phase=.startup → s.log.nextGxid ≤ s.latestCompletedGxid
  logged_le : ∀ v, .latestCompletedGxid v∈s.log.wal → v ≤ s.latestCompletedGxid
  shutdown_le : ∀ r n gs, .checkpoint true r n gs∈s.log.wal →
    n ≤ s.log.nextGxid ∧ (s.log.phase≠.shutdown → n ≤ s.latestCompletedGxid)
  ckpt_ok : DtxCkptOk c s

def Silent : Record → Prop
  | .nextGxid _ => True
  | .other => True
  | _ => False

variable {wal : List Record}

theorem committed_concat (x : Record) (g : Nat) :
    Committed (wal ++ [x]) g ↔ Committed wal g ∨ x=.distributedCommit g := by
  unfold Committed
  rw [mem_append,mem_singleton,eq_comm]

theorem forgotten_concat (x : Record) (g : Nat) :
    Forgotten (wal ++ [x]) g ↔ Forgotten wal g ∨ x=.distributedForget g := by
  unfold Forgotten
  rw [mem_append,mem_singleton,eq_comm]

theorem getElem?_concat (x y : Record) (i : Nat) (h : wal[i]?=some y) :
    (wal ++ [x])[i]?=some y := by
  rw [List.getElem?_append_left (List.getElem?_eq_some_iff.mp h).1]
  exact h

theorem Committed.mono (h : Committed (wal.take m) g) : Committed wal g := mem_of_mem_take h

theorem Forgotten.mono (h : Forgotten (wal.take m) g) : Forgotten wal g := mem_of_mem_take h

theorem Backend.LoggedAt.committed (h : b.LoggedAt wal) : Committed wal b.gxid :=
  mem_of_getElem? h

theorem commit_position_unique (hok : Grammatical Admissible wal) {i : Nat}
    (hi : wal[i]?=some (.distributedCommit g)) (hj : wal[j]?=some (.distributedCommit g)) :
    i=j := by
  have key : ∀ a b : Nat, a<b → wal[a]?=some (.distributedCommit g) →
      wal[b]?=some (.distributedCommit g) → False := by
    intro a b hab ha hb
    exact (hok b _ hb).2.1 ((mem_take_iff_getElem? _ _).mpr ⟨a,hab,ha⟩)
  rcases Nat.lt_trichotomy i j with hlt | heq | hgt
  · exact (key i j hlt hi hj).elim
  · exact heq
  · exact (key j i hgt hj hi).elim

/-- What holds of a backend holds in every extension of the log. -/
theorem BackendOk.extend (h : BackendOk wal f n b) (hf : f≤f')
    (hn : n≤n') (hget : ∀ (i : Nat) y, wal[i]?=some y → wal'[i]?=some y)
    (hcom : ¬ Committed wal b.gxid → ¬ Committed wal' b.gxid)
    (hfor : Forgotten wal' b.gxid ↔ Forgotten wal b.gxid) : BackendOk wal' f' n' b := by
  unfold BackendOk at h ⊢
  cases hst : b.stage with
  | idle => simpa only [hst] using h
  | uncommitted =>
    simp only [hst] at h ⊢
    obtain ⟨hg,hc,hi⟩ := h
    exact ⟨⟨hg.1,by omega⟩,hcom hc,hi⟩
  | logging =>
    simp only [hst] at h ⊢
    obtain ⟨hg,hl,hfg,hi⟩ := h
    exact ⟨⟨hg.1,by omega⟩,hget _ _ hl,fun hc => hfg (hfor.mp hc),hi⟩
  | committed =>
    simp only [hst] at h ⊢
    obtain ⟨hg,hl,hfg,hi,hd⟩ := h
    refine ⟨⟨hg.1,by omega⟩,hget _ _ hl,fun hc => hfg (hfor.mp hc),hi,?_⟩
    exact hd.imp id fun hlt => by omega
  | forgetting | forgotten =>
    simp only [hst] at h ⊢
    obtain ⟨hg,hl,hfg,hd⟩ := h
    exact ⟨⟨hg.1,by omega⟩,hget _ _ hl,hfor.mpr hfg,by omega⟩

theorem BackendOk.concat (h : BackendOk wal f n b) (x : Record) (hc : x≠.distributedCommit b.gxid)
    (hfg : x≠.distributedForget b.gxid) : BackendOk (wal ++ [x]) f n b := by
  refine h.extend (le_refl _) (le_refl _) (fun i y => getElem?_concat x y i) ?_ ?_
  · intro hnot hcon
    exact ((committed_concat x _).mp hcon).elim hnot hc
  · rw [forgotten_concat]
    exact or_iff_left hfg

/-- A checkpoint in progress accounts for the transactions it has passed. -/
theorem DtxCkptOk.frame (h : DtxCkptOk c s) (hr : CkptOk c.prefetch s.log)
    (hck : t.log.ckpt=s.log.ckpt) (hd : t.dtxCkpt=s.dtxCkpt) (hwal : s.log.wal <+: t.log.wal)
    (hlog : ∀ p, (t.backends p).stage=.logging → (t.backends p).recptr<s.log.wal.length →
      (s.backends p).stage=.logging ∧ (s.backends p).recptr=(t.backends p).recptr ∧
        (s.backends p).gxid=(t.backends p).gxid) (hinc : ∀ j, (s.backends j).includeInCkpt=true →
      (t.backends j).gxid=(s.backends j).gxid ∧ (t.backends j).includeInCkpt=true ∨
        Forgotten t.log.wal (s.backends j).gxid)
    (hlat : s.latestCompletedGxid≤t.latestCompletedGxid)
    (hv : ∀ v, .latestCompletedGxid v∈t.log.wal → .latestCompletedGxid v∈s.log.wal)
    (hsd : ∀ r n gs, .checkpoint true r n gs∈t.log.wal → .checkpoint true r n gs∈s.log.wal) :
    DtxCkptOk c t := by
  have htake : ∀ r ≤ s.log.wal.length, t.log.wal.take r=s.log.wal.take r := by
    intro r hr
    obtain ⟨xs,hxs⟩ := hwal
    rw [← hxs,take_append_of_le_length hr]
  have hget : ∀ (i : Nat) y, s.log.wal[i]?=some y → t.log.wal[i]?=some y := by
    intro i y hi
    obtain ⟨xs,hxs⟩ := hwal
    rw [← hxs,List.getElem?_append_left (List.getElem?_eq_some_iff.mp hi).1]
    exact hi
  have hsub : ∀ x, x∈s.log.wal → x∈t.log.wal := fun x hx => hwal.subset hx
  unfold DtxCkptOk at h ⊢
  unfold CkptOk at hr
  rw [hck,hd]
  cases hc : s.log.ckpt with
  | idle | begun sd r => simpa only [hc] using h
  | inserted sd r n gs k =>
    simp only [hc] at h ⊢
    exact ⟨h.1,hget _ _ h.2⟩
  | sampled sd r n =>
    simp only [hc] at h hr ⊢
    have hrlen := hr.2.1
    rw [htake r hrlen]
    cases hdc : s.dtxCkpt with
    | idle => trivial
    | waiting vxids =>
      simp only [hdc] at h ⊢
      intro p hp hst hlt
      obtain ⟨h1,h2,h3⟩ := hlog p hst (by omega)
      rw [← h3]
      exact h p hp h1 (by omega)
    | collecting i gs =>
      simp only [hdc] at h ⊢
      refine ⟨fun g hg => hsub _ (h.1 g hg),fun g hg => ?_⟩
      rcases h.2 g hg with hmem | hfg | ⟨j,hij,hj,hjg,hji⟩
      · exact .inl hmem
      · exact .inr (.inl (hsub _ hfg))
      · rcases hinc j hji with ⟨h1,h2⟩ | hfg
        · exact .inr (.inr ⟨j,hij,hj,h1.trans hjg,h2⟩)
        · exact .inr (.inl (hjg ▸ hfg))
    | sampledLatest gs lc =>
      simp only [hdc] at h ⊢
      obtain ⟨h1,h2,h3,h4,h5,h6⟩ := h
      refine ⟨h1,fun g hg => hsub _ (h2 g hg),fun g hg => (h3 g hg).imp id (hsub _),
        h4.trans hlat,fun v hv' => h5 v (hv v hv'),fun r n gs hm => h6 r n gs (hsd r n gs hm)⟩
    | loggedLatest gs =>
      simp only [hdc] at h ⊢
      obtain ⟨h1,h2,i,v,hri,hiv,hcov⟩ := h
      refine ⟨h1,fun g hg => hsub _ (h2 g hg),i,v,hri,hget _ _ hiv,fun g hg => ?_⟩
      rw [htake i (List.getElem?_eq_some_iff.mp hiv).1.le]
      exact hcov g hg

end WarehousePG.Dtm
