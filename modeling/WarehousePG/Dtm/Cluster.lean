import Mathlib.Tactic.Common
import WarehousePG.Dtm.CoordinatorRun

namespace WarehousePG.Dtm

section

/-- The commands of the protocol that end a distributed transaction on a segment. -/
inductive DtxProtocolCommand where
  | abortNoPrepared
  | prepare
  | abortSomePrepared
  | commitOnePhase
  | commitPrepared
  | abortPrepared
  | retryCommitPrepared
  | retryAbortPrepared
  | recoveryCommitPrepared
  | recoveryAbortPrepared
deriving DecidableEq

/-- `DistributedTransactionContext` of the executor that runs the transaction's statements on a
segment. An executor that is gone has none, as one that is back to local only. -/
inductive QeContext where
  | localOnly
  | writer
  | prepared
deriving DecidableEq

inductive Part where
  | absent
  | active
  | prepared
  | committed
  | aborted
  | onePhase
deriving DecidableEq

/-- `AbortOutOfAnyTransaction`, or the end of the executor's process. -/
def Part.abortActive : Part → Part
  | .active => .aborted
  | part => part

/-- `FinishPreparedTransaction`. It may fail, and then the part stays prepared. -/
def finishPreparedTransaction (isCommit raiseErrorIfNotFound ok : Bool) (part : Part) :
    Part × Bool :=
  match part with
  | .prepared =>
    if ok then (if isCommit then .committed else .aborted,true) else (.prepared,false)
  | part => (part,ok && !raiseErrorIfNotFound)

/-- `performDtxProtocolCommand`: the executor's context and the part afterwards, and whether the
command succeeds. A retry and the recovery connect to a fresh executor, whose context is local
only; the other commands go to the executor that ran the statements. -/
def performDtxProtocolCommand (cmd : DtxProtocolCommand) (ctx : QeContext) (part : Part)
    (ok : Bool) : QeContext × Part × Bool :=
  let gone := (QeContext.localOnly,part.abortActive,false)
  let finish (isCommit : Bool) :=
    (QeContext.localOnly,finishPreparedTransaction isCommit true ok part)
  match cmd with
  | .abortNoPrepared =>
    match ctx with
    | .prepared => (.prepared,part,ok)
    | _ => (.localOnly,part.abortActive,ok)
  | .prepare =>
    match ctx with
    | .localOnly => (.localOnly,part,false)
    | .writer => if ok then (.prepared,.prepared,true) else gone
    | .prepared => gone
  | .commitOnePhase =>
    match ctx with
    | .localOnly => (.localOnly,part,false)
    | .writer => if ok then (.localOnly,.onePhase,true) else gone
    | .prepared => gone
  | .abortSomePrepared =>
    match ctx with
    | .prepared => finish false
    | _ => (.localOnly,part.abortActive,ok)
  | .commitPrepared =>
    match ctx with
    | .prepared => finish true
    | _ => gone
  | .abortPrepared =>
    match ctx with
    | .prepared => finish false
    | _ => gone
  | .retryCommitPrepared => (ctx,finishPreparedTransaction true false ok part)
  | .recoveryCommitPrepared => (ctx,finishPreparedTransaction true false ok part)
  | .retryAbortPrepared => (ctx,finishPreparedTransaction false false ok part)
  | .recoveryAbortPrepared => (ctx,finishPreparedTransaction false false ok part)

def DtxProtocolCommand.commits : DtxProtocolCommand → Bool
  | .commitPrepared => true
  | .retryCommitPrepared => true
  | .recoveryCommitPrepared => true
  | _ => false

/-- The part was never aborted, nor is it still open to be. -/
def Part.kept : Part → Bool
  | .absent => true
  | .prepared => true
  | .committed => true
  | _ => false

def Part.finished : Part → Bool
  | .absent => true
  | .committed => true
  | _ => false

def WriterOk (ctx : QeContext) (part : Part) : Prop := ctx=.writer → part=.active
  deriving Decidable

/-- Whatever the command, an executor stops being the writer when its part stops being active, no
part appears or vanishes, and only a commit command commits. -/
theorem perform_frame (cmd : DtxProtocolCommand) (ctx : QeContext) (part : Part) (ok : Bool)
    (hw : WriterOk ctx part) : let r := performDtxProtocolCommand cmd ctx part ok
    WriterOk r.1 r.2.1 ∧ (r.2.1=.absent ↔ part=.absent) ∧
      (r.2.1=.committed → part=.committed ∨ cmd.commits=true ∧ part=.prepared) := by
  revert hw
  cases cmd <;> cases ctx <;> cases part <;> cases ok <;> decide

theorem perform_kept (cmd : DtxProtocolCommand) (ctx : QeContext) (part : Part) (ok : Bool)
    (hw : WriterOk ctx part) (hk : part.kept=true) :
    let r := performDtxProtocolCommand cmd ctx part ok
    (cmd=.prepare → r.2.1=part) ∧ (part.finished=true → r.2.1=part) ∧
      (cmd.commits=true → r.2.1.kept=true ∧ (r.2.2=true → r.2.1.finished=true)) := by
  revert hw hk
  cases cmd <;> cases ctx <;> cases part <;> cases ok <;> decide

theorem perform_prepare (ctx : QeContext) (part : Part) (ok : Bool) (hw : WriterOk ctx part) :
    let r := performDtxProtocolCommand .prepare ctx part ok
    (r.2.2=true → r.2.1=.prepared) ∧ (part=.prepared → r.2.1=.prepared) := by
  revert hw
  cases ctx <;> cases part <;> cases ok <;> decide

open Function

/-- A protocol command on its way to one segment, or its acknowledgement. The number tells the
broadcasts apart. -/
structure Message where
  number : Nat
  gxid : Nat
  seg : Nat
  cmd : DtxProtocolCommand
deriving DecidableEq

structure Dispatch where
  number : Nat
  gxid : Nat
  cmd : DtxProtocolCommand
  targets : List Nat
deriving DecidableEq

def Dispatch.messages (d : Dispatch) : List Message :=
  d.targets.map fun i => ⟨d.number,d.gxid,i,d.cmd⟩

/-- The coordinator and its segments. Parts and executors are told apart by gxid and segment;
`dtxSegments` and `pending` belong to a backend of the coordinator, `notifying`, `inDoubt` and
`orphans` to the dtx recovery process. -/
structure Cluster where
  coord : Coordinator
  part : Nat → Nat → Part
  qe : Nat → Nat → QeContext
  dtxSegments : Nat → List Nat
  pending : Nat → Option Dispatch
  notifying : Option Dispatch
  inDoubt : Option (List Nat)
  orphans : List Nat
  inFlight : List Message
  acks : List Message
  dispatches : Nat

structure ClusterSettings where
  qd : Settings
  numSegments : Nat
deriving DecidableEq

def Cluster.bootstrap : Cluster where
  coord := .bootstrap
  part := fun _ _ => .absent
  qe := fun _ _ => .localOnly
  dtxSegments := fun _ => []
  pending := fun _ => none
  notifying := none
  inDoubt := none
  orphans := []
  inFlight := []
  acks := []
  dispatches := 0

def Cluster.Succeeded (s : Cluster) (d : Dispatch) : Prop := ∀ m∈d.messages, m∈s.acks
  deriving Decidable

def Cluster.setPart (s : Cluster) (g i : Nat) (ctx : QeContext) (part : Part) : Cluster :=
  { s with part := update s.part g (update (s.part g) i part)
           qe := update s.qe g (update (s.qe g) i ctx) }

/-- The command that a backend broadcasts on entering a state. A retry of the abort goes to every
segment there is. -/
def commandOf : DtxState → Option DtxProtocolCommand
  | .notifyingOnePhaseCommit => some .commitOnePhase
  | .preparing => some .prepare
  | .notifyingCommitPrepared => some .commitPrepared
  | .retryCommitPrepared => some .retryCommitPrepared
  | .notifyingAbortNoPrepared => some .abortNoPrepared
  | .notifyingAbortSomePrepared => some .abortSomePrepared
  | .notifyingAbortPrepared => some .abortPrepared
  | .retryAbortPrepared => some .retryAbortPrepared
  | _ => none

def broadcasts : BackendAction → Bool
  | .onePhase => true
  | .prepare => true
  | .notifyCommit => true
  | .notifyFailed => true
  | .rollback _ => true
  | .abortFailed => true
  | _ => false

def Cluster.send (s : Cluster) (gxid : Nat) (cmd : DtxProtocolCommand) (targets : List Nat) :
    Cluster :=
  { s with inFlight := s.inFlight ++ (Dispatch.mk s.dispatches gxid cmd targets).messages
           dispatches := s.dispatches+1 }

def Cluster.broadcast (c : ClusterSettings) (s : Cluster) (p : Nat) : Cluster :=
  let b := s.coord.backends p
  match commandOf b.state with
  | some cmd =>
    let targets :=
      if cmd=.retryAbortPrepared then List.range c.numSegments else s.dtxSegments p
    { s.send b.gxid cmd targets with
      pending := update s.pending p (some ⟨s.dispatches,b.gxid,cmd,targets⟩) }
  | none => s

def Cluster.backendMay (s : Cluster) (p : Nat) : BackendAction → Prop
  | .prepare => s.dtxSegments p≠[]
  | .prepareOk => ∃ d∈s.pending p, s.Succeeded d
  | .commitDone => ∃ d∈s.pending p, s.Succeeded d
  | _ => True

instance (s : Cluster) (p : Nat) (a : BackendAction) : Decidable (s.backendMay p a) := by
  cases a <;> unfold Cluster.backendMay <;> infer_instance

/-- One step of a backend, with its broadcast. A new transaction starts without segments. -/
def Cluster.backendStep (c : ClusterSettings) (s : Cluster) (p : Nat) (a : BackendAction) :
    Option Cluster :=
  if s.backendMay p a then
    (s.coord.backendStep c.qd p a).map fun coord =>
      let s := { s with coord := coord }
      if a=.activate then
        { s with dtxSegments := update s.dtxSegments p []
                 pending := update s.pending p none }
      else if broadcasts a then s.broadcast c p
      else s
  else none

def Cluster.statement (c : ClusterSettings) (s : Cluster) (p i : Nat) : Option Cluster :=
  let b := s.coord.backends p
  if b.state=.activeDistributed ∧ i<c.numSegments ∧ i∉s.dtxSegments p then
    some { s.setPart b.gxid i .writer .active with
      dtxSegments := update s.dtxSegments p (s.dtxSegments p ++ [i]) }
  else none

/-- A segment executes a command. Success of the command need not be seen by the coordinator. -/
def Cluster.deliver (s : Cluster) (m : Message) (ok reported : Bool) : Option Cluster :=
  if m∈s.inFlight then
    let r := performDtxProtocolCommand m.cmd (s.qe m.gxid m.seg) (s.part m.gxid m.seg) ok
    some { s.setPart m.gxid m.seg r.1 r.2.1 with
      inFlight := s.inFlight.erase m
      acks := if r.2.2 && reported then m :: s.acks else s.acks }
  else none

def Cluster.qeLost (s : Cluster) (g i : Nat) : Cluster :=
  s.setPart g i .localOnly (s.part g i).abortActive

/-- Work of the dtx recovery process: `recoverInDoubtTransactions` on the way up, and
`abortOrphanedTransactions` afterwards. What a segment's `pg_prepared_xacts` shows is part of the
action; the orphan check only asks for transactions of some age. -/
inductive DtxRecoveryAction where
  | notifyCommitted
  | gatherInDoubt (seg : Nat) (found : List Nat)
  | abortInDoubt
  | gatherOrphans (seg : Nat) (found : List Nat)
  | checkOrphan
deriving DecidableEq

def Cluster.dtxRecoveryStep (c : ClusterSettings) (s : Cluster) :
    DtxRecoveryAction → Option Cluster
  | .notifyCommitted =>
    match s.coord.committedGxids[s.coord.recovering]? with
    | some g =>
      let targets := List.range c.numSegments
      if s.coord.log.phase=.normal ∧ s.coord.dtmStarted=false then
        some { s.send g .recoveryCommitPrepared targets with
          notifying := some ⟨s.dispatches,g,.recoveryCommitPrepared,targets⟩ }
      else none
    | none => none
  | .gatherInDoubt i found =>
    if (s.coord.log.phase=.normal ∧ s.coord.dtmStarted=false ∧ s.coord.committedGxids=[]) ∧
        ∀ g∈found, s.part g i=.prepared then
      some { s with inDoubt := some (s.inDoubt.getD [] ++ found) }
    else none
  | .abortInDoubt =>
    match s.inDoubt with
    | some (g::gs) =>
      some { s.send g .recoveryAbortPrepared (List.range c.numSegments) with inDoubt := some gs }
    | _ => none
  | .gatherOrphans i found =>
    if s.coord.dtmStarted=true ∧ ∀ g∈found, s.part g i=.prepared then
      some { s with orphans := s.orphans ++ found }
    else none
  | .checkOrphan =>
    match s.orphans with
    | g::gs =>
      if s.coord.dtmStarted=true then
        if ∃ p<c.qd.numProcs, (s.coord.backends p).gxid=g then some { s with orphans := gs }
        else
          some { s.send g .recoveryAbortPrepared (List.range c.numSegments) with orphans := gs }
      else none
    | [] => none

/-- What the dtx recovery process must have done before it writes a forget record, and before it
declares the DTM started. -/
def Cluster.recoveryMay (s : Cluster) : RecoveryAction → Prop
  | .forget => ∃ d∈s.notifying, s.coord.committedGxids[s.coord.recovering]?=some d.gxid ∧
      s.Succeeded d
  | .started => s.inDoubt=some []
  | _ => True

instance (s : Cluster) (a : RecoveryAction) : Decidable (s.recoveryMay a) := by
  cases a <;> unfold Cluster.recoveryMay <;> infer_instance

/-- The coordinator crashes: what its processes knew is lost, what is on the way to a segment or
prepared there is not. -/
def Cluster.restart (c : ClusterSettings) (s : Cluster) : Option Cluster :=
  (s.coord.restart c.qd).map fun coord =>
    { s with coord := coord, dtxSegments := fun _ => [], pending := fun _ => none
             notifying := none, inDoubt := none, orphans := [], acks := [] }

inductive ClusterAction where
  | coord (a : CoordinatorAction)
  | statement (p i : Nat)
  | deliver (m : Message) (ok reported : Bool)
  | qeLost (g i : Nat)
  | dtxRecovery (a : DtxRecoveryAction)
deriving DecidableEq

def Cluster.step (c : ClusterSettings) (s : Cluster) : ClusterAction → Option Cluster
  | .coord (.backend p a) => s.backendStep c p a
  | .coord (.recovery a) =>
    if s.recoveryMay a then (s.coord.recoveryStep a).map fun coord => { s with coord := coord }
    else none
  | .coord .restart => s.restart c
  | .coord a => (s.coord.step c.qd a).map fun coord => { s with coord := coord }
  | .statement p i => s.statement c p i
  | .deliver m ok reported => s.deliver m ok reported
  | .qeLost g i => some (s.qeLost g i)
  | .dtxRecovery a => s.dtxRecoveryStep c a

end

open Framework
open Option (ite_none_right_eq_some map_eq_some_iff)

def Durable (s : Coordinator) (g : Nat) : Prop := Committed (s.log.wal.take s.log.flushed) g

/-- The states from which a backend cannot come to write a distributed commit record. -/
def hopeless : DtxState → Bool
  | .onePhaseCommit => true
  | .notifyingOnePhaseCommit => true
  | .notifyingAbortNoPrepared => true
  | .notifyingAbortSomePrepared => true
  | .notifyingAbortPrepared => true
  | .retryAbortPrepared => true
  | _ => false

structure Doomed (s : Coordinator) (g : Nat) : Prop where
  ne_zero : g≠0
  lt : g<s.log.nextGxid
  not_committed : ¬ Committed s.log.wal g
  holder : ∀ p, (s.backends p).gxid=g → hopeless (s.backends p).state=true

structure Completed (s : Cluster) (g : Nat) : Prop where
  durable : Durable s.coord g
  finished : ∀ i, (s.part g i).finished=true

def MessageOk (s : Cluster) (m : Message) : Prop :=
  if m.cmd.commits=true then Durable s.coord m.gxid
  else if m.cmd=.prepare then m.gxid<s.coord.log.nextGxid ∧
    ∀ p, (s.coord.backends p).gxid=m.gxid → (s.coord.backends p).state≠.activeDistributed
  else Doomed s.coord m.gxid ∨ Completed s m.gxid

structure AckOk (s : Cluster) (m : Message) : Prop where
  commits : m.cmd.commits=true →
    Durable s.coord m.gxid ∧ (s.part m.gxid m.seg).finished=true
  prepare : m.cmd=.prepare → m.gxid<s.coord.log.nextGxid ∧
    ∀ p, (s.coord.backends p).gxid=m.gxid → (s.coord.backends p).state≠.activeDistributed ∧
      ((s.coord.backends p).state=.preparing → s.part m.gxid m.seg=.prepared)

structure HolderOk (s : Cluster) (p : Nat) : Prop where
  segs : (s.coord.backends p).gxid≠0 → ∀ i, s.part (s.coord.backends p).gxid i≠.absent →
    i∈s.dtxSegments p
  voted : (s.coord.backends p).state=.prepared ∨ ((s.coord.backends p).state=.insertingCommitted ∧
    (s.coord.backends p).logged=false) →
      ∀ i∈s.dtxSegments p, s.part (s.coord.backends p).gxid i=.prepared
  notified : (s.coord.backends p).state=.insertingForgetCommitted →
    ∀ i, (s.part (s.coord.backends p).gxid i).finished=true
  asked : ∀ d, s.pending p=some d → (s.coord.backends p).state=.preparing →
    d.gxid=(s.coord.backends p).gxid ∧ d.cmd=.prepare ∧ d.targets=s.dtxSegments p
  told : ∀ d, s.pending p=some d → (s.coord.backends p).state=.notifyingCommitPrepared ∨
    (s.coord.backends p).state=.retryCommitPrepared →
      d.gxid=(s.coord.backends p).gxid ∧ d.cmd.commits=true ∧ d.targets=s.dtxSegments p

structure ClusterInv (c : ClusterSettings) (s : Cluster) : Prop where
  coord_inv : CoordInv c.qd s.coord
  assigned : ∀ g i, s.part g i≠.absent → g≠0 ∧ g<s.coord.log.nextGxid ∧ i<c.numSegments
  durable : ∀ g i, s.part g i=.committed → Durable s.coord g
  kept : ∀ g i, Committed s.coord.log.wal g → (s.part g i).kept=true
  forgotten : ∀ g, Forgotten s.coord.log.wal g → Completed s g
  writer : ∀ g i, WriterOk (s.qe g i) (s.part g i)
  holders : ∀ p, HolderOk s p
  messages : ∀ m∈s.inFlight, MessageOk s m
  acks : ∀ m∈s.acks, AckOk s m
  array : ∀ g∈s.coord.committedGxids, Durable s.coord g
  notifying : ∀ d, s.notifying=some d →
    d.cmd=.recoveryCommitPrepared ∧ d.targets=List.range c.numSegments
  inDoubt : ∀ gs, s.inDoubt=some gs → ∀ g∈gs, Doomed s.coord g
  orphans : ∀ g∈s.orphans, g≠0 ∧ g<s.coord.log.nextGxid

variable {c : ClusterSettings} {u : Coordinator}

theorem MessageOk.ofCommits (hcmd : m.cmd.commits=true)
    (h : Durable s.coord m.gxid) : MessageOk s m := by
  rw [MessageOk,if_pos hcmd]
  exact h

theorem MessageOk.ofPrepare (hcmd : m.cmd=.prepare)
    (hlt : m.gxid<s.coord.log.nextGxid) (h : ∀ p, (s.coord.backends p).gxid=m.gxid →
      (s.coord.backends p).state≠.activeDistributed) : MessageOk s m := by
  rw [MessageOk,if_neg (by rw [hcmd]; decide),if_pos hcmd]
  exact ⟨hlt,h⟩

theorem MessageOk.ofOther (hcmd : m.cmd.commits=false) (hne : m.cmd≠.prepare)
    (h : Doomed s.coord m.gxid ∨ Completed s m.gxid) : MessageOk s m := by
  rw [MessageOk,if_neg (by rw [hcmd]; decide),if_neg hne]
  exact h

theorem MessageOk.congr (hok : MessageOk s m) (hcoord : t.coord=s.coord)
    (hcom : Completed s m.gxid → Completed t m.gxid) : MessageOk t m := by
  unfold MessageOk at hok ⊢
  rw [hcoord]
  split_ifs at hok ⊢
  · exact hok
  · exact hok
  · exact hok.imp id hcom

theorem Durable.committed (h : Durable u g) : Committed u.log.wal g := Committed.mono h

theorem Doomed.not_durable (h : Doomed u g) : ¬ Durable u g :=
  fun hd => h.not_committed hd.committed

/-- What the segments can tell of a step of the coordinator: which records are in its WAL and on
disk, and which backend is at what. -/
structure SameView (u v : Coordinator) : Prop where
  backends : v.backends=u.backends
  committed : ∀ g, Committed v.log.wal g ↔ Committed u.log.wal g
  forgotten : ∀ g, Forgotten v.log.wal g ↔ Forgotten u.log.wal g
  durable : ∀ g, Durable u g → Durable v g
  nextGxid : v.log.nextGxid=u.log.nextGxid
  array : ∀ g∈v.committedGxids, g∈u.committedGxids

theorem Doomed.same (h : Doomed u g) (hv : SameView u v) : Doomed v g where
  ne_zero := h.ne_zero
  lt := by rw [hv.nextGxid]; exact h.lt
  not_committed := by rw [hv.committed]; exact h.not_committed
  holder := by rw [hv.backends]; exact h.holder

theorem HolderOk.congr (h : HolderOk s p) (hb : t.coord.backends p=s.coord.backends p)
    (hpart : ∀ i, t.part (s.coord.backends p).gxid i=s.part (s.coord.backends p).gxid i)
    (hd : t.dtxSegments p=s.dtxSegments p) (hp : t.pending p=s.pending p) : HolderOk t p := by
  obtain ⟨h1,h2,h3,h4,h5⟩ := h
  constructor <;> simp only [hb,hpart,hd,hp] <;> assumption

theorem holderOk_idle (hb : s.coord.backends p=.idle) : HolderOk s p := by
  constructor <;> simp [hb,Backend.idle]

structure CoordMove (s : Cluster) (v : Coordinator) : Prop where
  durable : ∀ g, Durable s.coord g → Durable v g
  nextGxid : s.coord.log.nextGxid≤v.log.nextGxid
  committed : ∀ g i, Committed v.log.wal g → (s.part g i).kept=true
  forgotten : ∀ g, Forgotten v.log.wal g → Completed s g
  doomed : ∀ g, Doomed s.coord g → Doomed v g
  active : ∀ q, (v.backends q).state=.activeDistributed →
    (v.backends q).gxid<s.coord.log.nextGxid →
      (s.coord.backends q).gxid=(v.backends q).gxid ∧
        (s.coord.backends q).state=.activeDistributed
  preparing : ∀ q, (v.backends q).state=.preparing →
    (s.coord.backends q).gxid=(v.backends q).gxid ∧
      ((s.coord.backends q).state=.preparing ∨ (s.coord.backends q).state=.activeDistributed)
  array : ∀ g∈v.committedGxids, Durable v g

/-- What the segments need of a move of the coordinator. -/
theorem ClusterInv.coordMove (h : ClusterInv c s) (hv : CoordMove s v) (hinv : CoordInv c.qd v)
    (S : Nat → List Nat) (P : Nat → Option Dispatch)
    (hh : ∀ p, HolderOk { s with coord := v, dtxSegments := S, pending := P } p) :
    ClusterInv c { s with coord := v, dtxSegments := S, pending := P } := by
  constructor
  case coord_inv => exact hinv
  case assigned =>
    intro g i hne
    obtain ⟨h0,hlt,hi⟩ := h.assigned g i hne
    exact ⟨h0,hlt.trans_le hv.nextGxid,hi⟩
  case durable => exact fun g i hg => hv.durable g (h.durable g i hg)
  case kept => exact hv.committed
  case forgotten =>
    intro g hg
    obtain ⟨hd,hf⟩ := hv.forgotten g hg
    exact ⟨hv.durable g hd,hf⟩
  case writer => exact h.writer
  case holders => exact hh
  case messages =>
    intro m hm
    have hok := h.messages m hm
    unfold MessageOk at hok ⊢
    split_ifs at hok ⊢ with hc hp
    · exact hv.durable _ hok
    · refine ⟨hok.1.trans_le hv.nextGxid,fun q hq hst => ?_⟩
      obtain ⟨hgx,hst'⟩ := hv.active q hst (by rw [hq]; exact hok.1)
      exact hok.2 q (hgx.trans hq) hst'
    · exact hok.imp (hv.doomed _) fun hd => ⟨hv.durable _ hd.durable,hd.finished⟩
  case acks =>
    intro m hm
    obtain ⟨h1,h2⟩ := h.acks m hm
    refine ⟨fun hc => ⟨hv.durable _ (h1 hc).1,(h1 hc).2⟩,fun hcmd => ?_⟩
    obtain ⟨hlt,hq⟩ := h2 hcmd
    refine ⟨hlt.trans_le hv.nextGxid,fun q hgx => ⟨fun hst => ?_,fun hst => ?_⟩⟩
    · obtain ⟨hgx',hst'⟩ := hv.active q hst (by rw [hgx]; exact hlt)
      exact (hq q (hgx'.trans hgx)).1 hst'
    · obtain ⟨hgx',hst'⟩ := hv.preparing q hst
      rcases hst' with hst' | hst'
      · exact (hq q (hgx'.trans hgx)).2 hst'
      · exact absurd hst' (hq q (hgx'.trans hgx)).1
  case array => exact hv.array
  case notifying => exact h.notifying
  case inDoubt => exact fun gs hgs g hg => hv.doomed g (h.inDoubt gs hgs g hg)
  case orphans =>
    intro g hg
    obtain ⟨h0,hlt⟩ := h.orphans g hg
    exact ⟨h0,hlt.trans_le hv.nextGxid⟩

theorem ClusterInv.same (h : ClusterInv c s) (hv : SameView s.coord v) (hinv : CoordInv c.qd v) :
    ClusterInv c { s with coord := v } := by
  refine h.coordMove ?_ hinv s.dtxSegments s.pending fun p => (h.holders p).congr ?_ (fun _ => rfl) rfl rfl
  · constructor
    case durable => exact hv.durable
    case nextGxid => exact hv.nextGxid.ge
    case committed => exact fun g i hg => h.kept g i ((hv.committed g).mp hg)
    case forgotten => exact fun g hg => h.forgotten g ((hv.forgotten g).mp hg)
    case doomed => exact fun g hg => hg.same hv
    case active =>
      rw [hv.backends]
      exact fun q hst _ => ⟨rfl,hst⟩
    case preparing =>
      rw [hv.backends]
      exact fun q hst => ⟨rfl,.inl hst⟩
    case array => exact fun g hg => hv.durable g (h.array g (hv.array g hg))
  · change v.backends p=s.coord.backends p
    rw [hv.backends]

theorem SameView.ofLog (hb : v.backends=u.backends) (ha : ∀ g∈v.committedGxids, g∈u.committedGxids)
    (hwal : v.log.wal=u.log.wal ∨ ∃ x, (∀ g, x≠.distributedCommit g) ∧
      (∀ g, x≠.distributedForget g) ∧ v.log.wal=u.log.wal ++ [x])
    (hf : u.log.flushed≤v.log.flushed) (hn : v.log.nextGxid=u.log.nextGxid) : SameView u v := by
  have hget : ∀ (i : Nat) y, u.log.wal[i]?=some y → v.log.wal[i]?=some y := by
    intro i y hi
    rcases hwal with heq | ⟨x,-,-,heq⟩
    · rw [heq]
      exact hi
    · rw [heq]
      exact getElem?_concat x y i hi
  refine ⟨hb,?_,?_,?_,hn,ha⟩
  · intro g
    rcases hwal with heq | ⟨x,hx,-,heq⟩
    · rw [heq]
    · rw [heq,committed_concat]
      exact or_iff_left (hx g)
  · intro g
    rcases hwal with heq | ⟨x,-,hx,heq⟩
    · rw [heq]
    · rw [heq,forgotten_concat]
      exact or_iff_left (hx g)
  · intro g hg
    obtain ⟨i,hi,higet⟩ := (mem_take_iff_getElem? _ _).mp hg
    exact (mem_take_iff_getElem? _ _).mpr ⟨i,hi.trans_le hf,hget i _ higet⟩

theorem SameView.ofQuiet (hq : QuietLog u.log log) : SameView u { u with log := log } := by
  refine .ofLog rfl (fun _ => id) ?_ hq.flushed hq.nextGxid
  rcases hq.wal with heq | ⟨x,hx,heq⟩
  · exact .inl heq
  · obtain ⟨-,hc,hf,-⟩ := hx.facts u.log.wal
    exact .inr ⟨x,hc,hf,heq⟩

theorem SameView.ofSameLog (hb : v.backends=u.backends) (hl : v.log=u.log)
    (ha : ∀ g∈v.committedGxids, g∈u.committedGxids) : SameView u v :=
  .ofLog hb ha (.inl (by rw [hl])) (by rw [hl]) (by rw [hl])

open Coordinator

theorem ckptStep_sameView (hs : u.ckptStep c.qd a=some v) : SameView u v := by
  cases a with
  | begin =>
    obtain ⟨log,hlog,rfl⟩ := map_eq_some_iff.mp hs
    unfold Log.ckptBegin at hlog
    split_ifs at hlog
    cases hlog
    exact .ofLog rfl (fun _ => id) (.inl rfl) (le_refl _) rfl
  | sample =>
    obtain ⟨log,hlog,rfl⟩ := map_eq_some_iff.mp hs
    unfold Log.ckptSample at hlog
    split at hlog
    · obtain ⟨-,rfl⟩ := of_guard hlog
      exact .ofLog rfl (fun _ => id) (.inl rfl) (le_refl _) rfl
    · cases hlog
  | complete =>
    obtain ⟨log,hlog,rfl⟩ := map_eq_some_iff.mp hs
    unfold Log.ckptComplete at hlog
    split at hlog
    · obtain ⟨-,rfl⟩ := of_guard hlog
      exact .ofLog rfl (fun _ => id) (.inl rfl) (le_refl _) rfl
    · cases hlog
  | logLatest =>
    simp only [ckptStep] at hs
    split at hs
    · obtain ⟨log,hlog,rfl⟩ := map_eq_some_iff.mp hs
      obtain ⟨-,rfl⟩ := insert_eq hlog
      exact .ofLog rfl (fun _ => id) (.inr ⟨_,by simp,by simp,rfl⟩) (le_refl _) rfl
    · cases hs
  | insert =>
    have hins : ∀ {gs : List Nat} {log : Log}, u.log.ckptInsert gs=some log →
        SameView u { u with log := log, dtxCkpt := .idle } := by
      intro gs log hlog
      unfold Log.ckptInsert at hlog
      split at hlog
      · cases hlog
        exact .ofLog rfl (fun _ => id) (.inr ⟨_,by simp,by simp,rfl⟩) (le_refl _) rfl
      · cases hlog
    simp only [ckptStep] at hs
    split at hs
    · obtain ⟨-,log,hlog,rfl⟩ := of_guard_map hs
      exact hins hlog
    · obtain ⟨log,hlog,rfl⟩ := map_eq_some_iff.mp hs
      exact hins hlog
    · cases hs
  | wait =>
    simp only [ckptStep] at hs
    split at hs
    · cases hs
      exact .ofSameLog rfl rfl fun _ => id
    · cases hs
  | collect | scan | sampleLatest =>
    simp only [ckptStep] at hs
    split at hs
    · obtain ⟨-,rfl⟩ := of_guard hs
      exact .ofSameLog rfl rfl fun _ => id
    · cases hs

def Background : CoordinatorAction → Prop
  | .backend _ _ => False
  | .recovery .forget => False
  | .restart => False
  | _ => True

/-- Background work changes nothing that the segments depend on. -/
theorem background_sameView (ha : Background a) (hs : u.step c.qd a=some v) : SameView u v := by
  cases a with
  | backend p a | restart => exact ha.elim
  | ckpt a => exact ckptStep_sameView hs
  | recovery a =>
    simp only [step,recoveryStep] at hs
    obtain ⟨-,hs⟩ := ite_none_right_eq_some.mp hs
    cases a with
    | forget => exact ha.elim
    | again =>
      cases hs
      exact .ofSameLog rfl rfl fun _ => id
    | done =>
      obtain ⟨-,rfl⟩ := of_guard hs
      exact .ofSameLog rfl rfl fun g hg => absurd hg List.not_mem_nil
    | started =>
      obtain ⟨-,rfl⟩ := of_guard hs
      exact .ofSameLog rfl rfl fun _ => id
  | bumpAcquire | bumpLimit | bumpInsert | bumpFinish | insertOther | flush upto =>
    obtain ⟨la,log,-,rfl,hq,-⟩ := quiet_step hs trivial
    exact .ofQuiet hq
  | openForBusiness =>
    obtain ⟨log,hlog,rfl⟩ := map_eq_some_iff.mp hs
    obtain ⟨-,rfl⟩ := of_guard hlog
    exact .ofLog rfl (fun _ => id) (.inl rfl) (le_refl _) rfl
  | stop =>
    obtain ⟨-,log,hlog,rfl⟩ := of_guard_map hs
    obtain ⟨-,rfl⟩ := of_guard hlog
    exact .ofLog rfl (fun _ => id) (.inl rfl) (le_refl _) rfl

end WarehousePG.Dtm
