import WarehousePG.Anchor.Registry
import WarehousePG.Framework.Transition

namespace WarehousePG.Anchor

open Transam

abbrev XLogRecPtr := Nat

abbrev TimeLineID := Nat

inductive WalRecord
  | restorePoint (name : RpName)
  | cleanup (latestRemovedXid : TransactionId)
  | other
  deriving DecidableEq

abbrev Wal := TimeLineID → XLogRecPtr → Option WalRecord

inductive SnapshotMode
  | anchored
  | unanchored
  deriving DecidableEq

/-- The settings read; only `anchorName` and `snapshotMode` follow a reload. -/
structure Guc where
  archiveRecoveryRequested : Bool
  enableHotStandby : Bool
  maxAnchorSnapshots : Int
  anchorName : RpName
  snapshotMode : SnapshotMode
  deriving DecidableEq

def registryCapacity (g : Guc) : Nat :=
  if g.enableHotStandby then (max g.maxAnchorSnapshots 0).toNat else 0

def anchorRegistryShmemInit (g : Guc) : AnchorRegistry := ⟨registryCapacity g,1,[]⟩

structure HeldAnchor where
  name : RpName
  tli : TimeLineID
  lsn : XLogRecPtr
  xmin : TransactionId
  deriving DecidableEq

structure KeptAnchor extends HeldAnchor where
  awaitingRecord : Bool
  deriving DecidableEq

/-- A standby: its data state is the WAL of `history` up to `replayed`. -/
structure Node where
  guc : Guc
  store : AnchorStore
  pending : Option HeldAnchor
  kept : Option KeptAnchor
  lastSeenAnchorName : RpName
  /-- the timeline of the byte at a position -/
  history : XLogRecPtr → TimeLineID
  replayed : XLogRecPtr

inductive WriteResult
  | ok
  | failed
  /-- the rename took place, syncing it did not -/
  | renamedNotSynced
  deriving DecidableEq

structure ExportAttempt where
  standbySnapshotReady : Bool
  /-- none when the running transactions cannot be decided -/
  snapshot : Option (TransactionId × TransactionId × Bool × List TransactionId)
  write : WriteResult
  deriving DecidableEq

namespace Node

def nodeExportsAnchors (s : Node) : Bool :=
  s.store.registry.enabled && s.guc.enableHotStandby && s.guc.snapshotMode=.anchored

def isRegistered (s : Node) (name : RpName) : Bool := (s.store.registry.findEntry name).isSome

def timeLineAt (s : Node) (lsn : XLogRecPtr) : TimeLineID := s.history (lsn-1)

def meetsRecord (s : Node) (h : HeldAnchor) (rec : WalRecord) (lsn : XLogRecPtr) : Bool :=
  rec=.restorePoint h.name ∧ s.timeLineAt lsn=h.tli ∧ lsn=h.lsn

/-- A kept anchor is confirmed by its own record and removed once replay has passed it. -/
def settleKept (s : Node) (rec : WalRecord) (lsn : XLogRecPtr) : Node :=
  match s.kept with
  | none => s
  | some k =>
    if k.awaitingRecord && decide (k.lsn≤lsn) then
      if s.meetsRecord k.toHeldAnchor rec lsn then
        { s with kept := some { k with awaitingRecord := false } }
      else { s with kept := none, store := s.store.removeFile k.name }
    else s

def registerPending (s : Node) (p : HeldAnchor) : Node :=
  let s := { s with pending := none }
  match s.store.registerAnchorEvicting s.guc.anchorName p.name p.xmin with
  | (.ok, store) =>
    { s with store := if p.name=s.guc.anchorName then store.applyPublication p.name else store }
  | (_, store) => { s with store }

/-- Checks before an anchor file is written; none when the restore point is refused. -/
def exportFile (s : Node) (name : RpName) (lsn : XLogRecPtr) (x : ExportAttempt) :
    Option AnchorFile :=
  if !s.nodeExportsAnchors then none
  else if !x.standbySnapshotReady then none
  else if !anchorNameIsValid name then none
  else if s.isRegistered name then none
  else if s.pending.any (·.name=name) then none
  else if s.kept.any fun k => k.name=name && k.awaitingRecord then none
  else x.snapshot.map fun (xmin, xmax, suboverflowed, xids) =>
    ⟨s.timeLineAt lsn,lsn,xmin,xmax,suboverflowed,xids⟩

/-- What follows the write: the file takes a slot, or is undone, or waits for a restart. -/
def registerExported (s : Node) (name : RpName) (f : AnchorFile) (keptNameExported : Bool) : Node :=
  match s.store.registerAnchorEvicting s.guc.anchorName name f.xmin with
  | (.ok, store) =>
    { s with store := if name=s.guc.anchorName then store.applyPublication name else store }
  | (.exhausted, store) =>
    { s with
      store
      kept := if keptNameExported then some ⟨⟨name,f.tli,f.lsn,f.xmin⟩,false⟩ else s.kept }
  | (_, store) => { s with store := store.removeFile name }

def writeAnchorFile (s : Node) (name : RpName) (f : AnchorFile) (res : WriteResult) : Node :=
  match res with
  | .failed => s
  | .renamedNotSynced => { s with store := s.store.writeFile name f }
  | .ok =>
    let keptNameExported := s.kept.any (·.name=name)
    let s := { s with
      store := s.store.writeFile name f
      kept := if keptNameExported then none else s.kept }
    s.registerExported name f keptNameExported

def exportRestorePoint (s : Node) (name : RpName) (lsn : XLogRecPtr) (x : ExportAttempt) : Node :=
  match s.exportFile name lsn x with
  | some f => s.writeAnchorFile name f x.write
  | none => s

def dropPassedPending (s : Node) (lsn : XLogRecPtr) : Node :=
  match s.pending with
  | none => s
  | some p =>
    if p.lsn<lsn then { s with pending := none, store := s.store.removeFile p.name } else s

def settlePendingAndExport (s : Node) (rec : WalRecord) (lsn : XLogRecPtr) (x : ExportAttempt) :
    Node :=
  match s.pending.filter (s.meetsRecord · rec lsn) with
  | some p => s.registerPending p
  | none =>
    match rec with
    | .restorePoint name => (s.dropPassedPending lsn).exportRestorePoint name lsn x
    | _ => s.dropPassedPending lsn

/-- Runs after every replayed record, before its position is published. -/
def anchorSnapshotExportOnRestorePoint (s : Node) (rec : WalRecord) (lsn : XLogRecPtr)
    (x : ExportAttempt) : Node :=
  if !s.guc.archiveRecoveryRequested then s
  else
    let s := s.settleKept rec lsn
    if !s.store.registry.enabled then s else s.settlePendingAndExport rec lsn x

def invalidateKeptAnchor (s : Node) (horizon : TransactionId) (lsn : XLogRecPtr) : Node :=
  match s.kept with
  | none => s
  | some k =>
    if lsn≤k.lsn || !transactionIdIsValid horizon || transactionIdFollows k.xmin horizon then s
    else { s with kept := none, store := s.store.removeFile k.name }

def anchorsRegisteredOrKept (s : Node) : Bool :=
  s.kept.isSome || (s.store.registry.enabled && 0<s.store.registry.entries.length)

/-- Runs before a record that removes row versions up to `latestRemovedXid` is applied. -/
def anchorSnapshotOnCleanupRecord (s : Node) (latestRemovedXid : TransactionId)
    (lsn : XLogRecPtr) : Node :=
  if !transactionIdIsValid latestRemovedXid then s
  else if !s.anchorsRegisteredOrKept then s
  else
    let s := { s with store := s.store.invalidateAtOrBelow latestRemovedXid }
    s.invalidateKeptAnchor latestRemovedXid lsn

def rmRedo (s : Node) (rec : WalRecord) (lsn : XLogRecPtr) : Node :=
  match rec with
  | .cleanup xid => s.anchorSnapshotOnCleanupRecord xid lsn
  | _ => s

def anchorSnapshotOnConfigReload (s : Node) : Node :=
  let name := s.guc.anchorName
  if name=s.lastSeenAnchorName then s
  else
    let s := { s with lastSeenAnchorName := name.take (maxFNameLen-1) }
    if !s.store.registry.enabled || !anchorNameIsValid name then s
    else { s with store := s.store.applyPublication name }

def anchorSnapshotClearAll (s : Node) : Node :=
  { s with
    pending := none
    kept := none
    store := (s.store.removeEntries fun _ => true).sweepAnchorFiles none }

end Node

def anchorSurvivesStart (suboverflowed : Bool) (xmax oldestActiveXid : TransactionId) : Bool :=
  if !suboverflowed || !transactionIdIsValid oldestActiveXid then true
  else subTransXidRangeSurvivesStartup xmax oldestActiveXid

/-- What a server start finds: configuration, redo start, recovery history. -/
structure Start where
  guc : Guc
  redoStart : XLogRecPtr
  history : XLogRecPtr → TimeLineID
  oldestActiveXid : TransactionId
  /-- the file the name points at can be read and passes its checks -/
  readable : Bool

namespace Start

def fresh (st : Start) (files : RpName → Option AnchorFile) : Node where
  guc := st.guc
  store := ⟨anchorRegistryShmemInit st.guc,files⟩
  pending := none
  kept := none
  lastSeenAnchorName := st.guc.anchorName.take (maxFNameLen-1)
  history := st.history
  replayed := st.redoStart

def sweep (s : Node) (keep : Option RpName) : Node :=
  { s with store := s.store.sweepAnchorFiles keep }

def parseAnchorFile (st : Start) (s : Node) (name : RpName) : Option AnchorFile :=
  if st.readable then s.store.files name else none

/-- A start that does not export keeps the named file for the one that will. -/
def keepNamed (st : Start) (s : Node) (name : RpName) : Node :=
  match st.parseAnchorFile s name with
  | none => sweep s none
  | some f =>
    if st.guc.enableHotStandby && f.suboverflowed then sweep s none
    else
      let awaitingRecord := st.redoStart≠0 && decide (st.redoStart<f.lsn)
      sweep { s with kept := some ⟨⟨name,f.tli,f.lsn,f.xmin⟩,awaitingRecord⟩ } (some name)

def restoreNamed (st : Start) (s : Node) (name : RpName) : Node :=
  match st.parseAnchorFile s name with
  | none => sweep s none
  | some f =>
    if !anchorSurvivesStart f.suboverflowed f.xmax st.oldestActiveXid then sweep s none
    else if s.timeLineAt f.lsn≠f.tli then sweep s none
    else if st.redoStart=0 then sweep s none
    else if f.lsn ≤ st.redoStart then
      match s.store.registerAnchor name f.xmin with
      | (.ok, store) => sweep { s with store } (some name)
      | (_, store) => sweep { s with store } none
    else sweep { s with pending := some ⟨name,f.tli,f.lsn,f.xmin⟩ } (some name)

/-- Rebuild the anchor the configuration names and sweep every other file. -/
def anchorSnapshotStartup (st : Start) (files : RpName → Option AnchorFile) : Node :=
  let s := st.fresh files
  let name := st.guc.anchorName
  if st.guc.archiveRecoveryRequested && anchorNameIsValid name && !s.nodeExportsAnchors then
    st.keepNamed s name
  else if s.nodeExportsAnchors && st.guc.archiveRecoveryRequested && anchorNameIsValid name then
    st.restoreNamed s name
  else sweep s none

end Start

namespace Node

def nextRecord (wal : Wal) (s : Node) (lsn : XLogRecPtr) : Option WalRecord :=
  if s.replayed<lsn ∧ ∀ l<lsn, s.replayed<l → (wal (s.timeLineAt l) l).isNone then
    wal (s.timeLineAt lsn) lsn
  else none

def Replayed (wal : Wal) (s : Node) (lsn : XLogRecPtr) (rec : WalRecord) : Prop :=
  lsn ≤ s.replayed ∧ wal (s.timeLineAt lsn) lsn=some rec

def replayRecord (s : Node) (rec : WalRecord) (lsn : XLogRecPtr) (x : ExportAttempt) : Node :=
  let s := { s.rmRedo rec lsn with replayed := lsn }
  s.anchorSnapshotExportOnRestorePoint rec lsn x

/-- A server that stops between the rename of an anchor file and its registration. -/
def tornExport (s : Node) (rec : WalRecord) (lsn : XLogRecPtr) (x : ExportAttempt) : Node :=
  match rec with
  | .restorePoint name =>
    if !s.guc.archiveRecoveryRequested then s
    else
      let s := (s.settleKept rec lsn).dropPassedPending lsn
      match s.exportFile name lsn x with
      | some f => { s with store := s.store.writeFile name f }
      | none => s
  | _ => s

/-- The directory a crash leaves: `torn` is an export under way and `missing` are the files
some removal had reached. -/
def crashFiles (wal : Wal) (s : Node) (missing : List RpName)
    (torn : Option (XLogRecPtr × ExportAttempt)) : RpName → Option AnchorFile :=
  let left := match torn with
    | none => s
    | some (lsn, x) => match s.nextRecord wal lsn with
      | some rec => s.tornExport rec lsn x
      | none => s
  fun name => if name∈missing then none else left.store.files name

end Node

inductive Action
  | replay (lsn : XLogRecPtr) (x : ExportAttempt)
  | reload (name : RpName) (mode : SnapshotMode)
  /-- recovery follows a timeline that forked off past the replay position -/
  | rescanLatestTimeLine (history : XLogRecPtr → TimeLineID)
  | promote
  | restart (st : Start) (missing : List RpName) (torn : Option (XLogRecPtr × ExportAttempt))

namespace Node

def sameHistory (h h' : XLogRecPtr → TimeLineID) (lsn : XLogRecPtr) : Prop := ∀ l<lsn, h' l=h l

instance (h h' : XLogRecPtr → TimeLineID) (lsn : XLogRecPtr) : Decidable (sameHistory h h' lsn) :=
  inferInstanceAs (Decidable (∀ l<lsn, h' l=h l))

def step (wal : Wal) (s : Node) : Action → Option Node
  | .replay lsn x => (s.nextRecord wal lsn).map fun rec => s.replayRecord rec lsn x
  | .reload name mode =>
    let guc := { s.guc with anchorName := name, snapshotMode := mode }
    some { s with guc }.anchorSnapshotOnConfigReload
  | .rescanLatestTimeLine history =>
    if sameHistory s.history history s.replayed then some { s with history } else none
  | .promote => some s.anchorSnapshotClearAll
  | .restart st missing torn =>
    if st.redoStart ≤ s.replayed ∧ sameHistory s.history st.history st.redoStart then
      some (st.anchorSnapshotStartup (s.crashFiles wal missing torn))
    else none

def boot (st : Start) : Node := st.anchorSnapshotStartup fun _ => none

end Node

end WarehousePG.Anchor
