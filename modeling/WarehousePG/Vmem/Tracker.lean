import WarehousePG.Framework.Transition
import WarehousePG.Framework.KeyedList
import Mathlib.Algebra.Group.Nat.Defs

namespace WarehousePG.Vmem

open Function

def int32 (x : Int) : Int := x.bmod 4294967296

/-- What is fixed when the postmaster starts. -/
structure Limits where
  chunkSizeInBits : Nat
  vmemChunksQuota : Int
  maxChunksPerQuery : Int
  resGroupEnabled : Bool

namespace Limits

def chunkSizeInBytes (l : Limits) : Int := ((2^l.chunkSizeInBits : Nat) : Int)

/-- An arithmetic shift to the right by the chunk size. -/
def bytesToChunks (l : Limits) (bytes : Int) : Int := bytes/l.chunkSizeInBytes

def chunksToBytes (l : Limits) (chunks : Int) : Int := chunks*l.chunkSizeInBytes

end Limits

inductive GpRole where
  | utility
  | dispatch
  | execute
deriving DecidableEq

structure Tracked where
  bytes : Int
  chunks : Int
deriving DecidableEq

/-- Who asked for chunks: a reservation, with the counters it found and the bytes it wants, or
the check at the end of the startup registration. -/
inductive Caller where
  | reserveVmem (found : Tracked) (newlyRequestedBytes : Int)
  | registerStartupMemory
deriving DecidableEq

inductive Frame where
  /-- inside the runaway detection or the interrupt processing of a reservation -/
  | cleanup (found : Tracked) (newlyRequestedBytes newszChunk : Int)
  | reserveSession (c : Caller) (numChunks : Int)
  | revertQuery (c : Caller) (numChunks : Int)
  | reserveSegment (c : Caller) (numChunks : Int) (waiverUsed : Bool)
  | revertSession (c : Caller) (numChunks : Int)
  | revertSegment (c : Caller) (numChunks : Int)
  | releaseSegment (all : Bool) (reduction : Int)
  | releaseSession (all : Bool) (reduction : Int)
  | registerSession
  | registerSegment
  | unregisterSegment
  | unregisterSession
deriving DecidableEq

inductive MemoryAllocationStatus where
  | success
  | queryMemoryExhausted
  | vmemExhausted
deriving DecidableEq

structure Process where
  session : Nat
  gpRole : GpRole
  critSectionCount : Nat := 0
  vmemTrackerInited : Bool := true
  resGroupActivated : Bool := false
  trackedBytes : Int := 0
  trackedVmemChunks : Int := 0
  maxVmemChunksTracked : Int := 0
  startupBytes : Int := 0
  startupChunks : Int := 0
  waivedChunks : Int := 0
  /-- the calls the process is in, the innermost first -/
  frames : List Frame := []
  /-- what the last call for chunks returned -/
  status : MemoryAllocationStatus := .success
deriving DecidableEq

namespace Process

def Enforced (p : Process) : Prop := p.gpRole=.execute ∧ p.critSectionCount=0
  deriving Decidable

def isActivated (l : Limits) (p : Process) : Bool :=
  if l.resGroupEnabled then p.vmemTrackerInited && p.resGroupActivated else p.vmemTrackerInited

def isRunning (p : Process) : Bool :=
  match p.frames with
  | [] => true
  | .cleanup _ _ _::_ => true
  | _ => false

def tracked (p : Process) : Tracked := ⟨p.trackedBytes,p.trackedVmemChunks⟩

/-- The reservation up to the cleanup: the chunk target is computed, the bytes are undone. -/
def reserveVmem (l : Limits) (p : Process) (newlyRequestedBytes : Int) : Process :=
  if p.isActivated l then
    let trackedBytes := p.trackedBytes+newlyRequestedBytes
    let newszChunk := int32 (l.bytesToChunks trackedBytes)
    if newszChunk>p.trackedVmemChunks then
      { p with frames := .cleanup p.tracked newlyRequestedBytes newszChunk::p.frames }
    else { p with trackedBytes := trackedBytes, status := .success }
  else { p with status := .success }

def reserveVmemAfterCleanup (p : Process) : Option Process :=
  match p.frames with
  | .cleanup found newlyRequestedBytes newszChunk::rest =>
    let needChunk := newszChunk-p.trackedVmemChunks
    some { p with
      trackedBytes := p.trackedBytes+newlyRequestedBytes
      frames := .reserveSession (.reserveVmem found newlyRequestedBytes) needChunk::rest }
  | _ => none

def raise (p : Process) : Option Process :=
  match p.frames with
  | .cleanup _ _ _::rest => some { p with frames := rest }
  | _ => none

def failed (p : Process) (c : Caller) (rest : List Frame) (status : MemoryAllocationStatus) :
    Process :=
  match c with
  | .reserveVmem _ newlyRequestedBytes =>
    { p with
      trackedBytes := p.trackedBytes-newlyRequestedBytes, frames := rest, status := status }
  | .registerStartupMemory => { p with frames := rest, status := status }

def granted (p : Process) (numChunks : Int) (waiverUsed : Bool) (rest : List Frame) : Process :=
  { p with
    trackedVmemChunks := p.trackedVmemChunks+numChunks
    maxVmemChunksTracked := max p.maxVmemChunksTracked (p.trackedVmemChunks+numChunks)
    waivedChunks := if p.waivedChunks>0 ∧ waiverUsed=false then 0 else p.waivedChunks
    frames := rest
    status := .success }

def releaseVmem (l : Limits) (p : Process) (toBeFreedRequested : Int) : Process :=
  if p.vmemTrackerInited=false ∨ (l.resGroupEnabled ∧ p.resGroupActivated=false) then p
  else
    let toBeFreed := min (p.trackedBytes-p.startupBytes) toBeFreedRequested
    if toBeFreed=0 then p
    else
      let trackedBytes := p.trackedBytes-toBeFreed
      let newszChunk := int32 (l.bytesToChunks trackedBytes)
      if newszChunk<p.trackedVmemChunks then
        { p with
          trackedBytes := trackedBytes
          frames := .releaseSegment false (p.trackedVmemChunks-newszChunk)::p.frames }
      else { p with trackedBytes := trackedBytes }

def released (p : Process) (all : Bool) (reduction : Int) (rest : List Frame) : Process :=
  { p with
    trackedVmemChunks := p.trackedVmemChunks-reduction
    trackedBytes := if all then 0 else p.trackedBytes
    frames := rest }

def registerStartupMemory (l : Limits) (p : Process) (bytes : Int) : Process :=
  let startupChunks := int32 (l.bytesToChunks (bytes+l.chunkSizeInBytes-1))
  let startupBytes := l.chunksToBytes startupChunks
  { p with
    startupChunks := startupChunks
    startupBytes := startupBytes
    trackedBytes := p.trackedBytes+startupBytes
    trackedVmemChunks := p.trackedVmemChunks+startupChunks
    frames := .registerSession::p.frames }

def unregistered (p : Process) (rest : List Frame) : Process :=
  { p with
    trackedBytes := p.trackedBytes-p.startupBytes
    trackedVmemChunks := p.trackedVmemChunks-p.startupChunks
    startupBytes := 0
    startupChunks := 0
    frames := rest }

def shutdown (p : Process) : Process :=
  { p with
    vmemTrackerInited := false
    frames := .releaseSegment true p.trackedVmemChunks::p.frames }

def requestWaiver (l : Limits) (p : Process) (waiverBytes : Int) : Process :=
  let chunks := l.bytesToChunks waiverBytes
  let chunks := if waiverBytes>l.chunksToBytes chunks then chunks+1 else chunks
  { p with waivedChunks := max chunks p.waivedChunks }

end Process

structure View where
  proc : Process
  sessionVmem : Int
  segmentVmemChunks : Int
deriving DecidableEq

namespace View

/-- One atomic operation of the innermost call, with the local code up to the next one. -/
def advance (l : Limits) (v : View) : Option View :=
  match v.proc.frames with
  | .reserveSession c n::rest =>
    let total := int32 (v.sessionVmem+n)
    if l.maxChunksPerQuery≠0 ∧ total>l.maxChunksPerQuery ∧ v.proc.Enforced then
      if total>l.maxChunksPerQuery+v.proc.waivedChunks then
        some { v with
          proc := { v.proc with frames := .revertQuery c n::rest }, sessionVmem := total }
      else
        some { v with
          proc := { v.proc with frames := .reserveSegment c n true::rest }, sessionVmem := total }
    else
      some { v with
        proc := { v.proc with frames := .reserveSegment c n false::rest }, sessionVmem := total }
  | .revertQuery c n::rest =>
    some { v with
      proc := v.proc.failed c rest .queryMemoryExhausted
      sessionVmem := int32 (v.sessionVmem-n) }
  | .reserveSegment c n waiverUsed::rest =>
    let newVmem := int32 (v.segmentVmemChunks+n)
    if newVmem>l.vmemChunksQuota ∧ v.proc.Enforced then
      if newVmem>l.vmemChunksQuota+v.proc.waivedChunks then
        some { v with
          proc := { v.proc with frames := .revertSession c n::rest }, segmentVmemChunks := newVmem }
      else
        some { v with proc := v.proc.granted n true rest, segmentVmemChunks := newVmem }
    else some { v with proc := v.proc.granted n waiverUsed rest, segmentVmemChunks := newVmem }
  | .revertSession c n::rest =>
    some { v with
      proc := { v.proc with frames := .revertSegment c n::rest }
      sessionVmem := int32 (v.sessionVmem-n) }
  | .revertSegment c n::rest =>
    some { v with
      proc := v.proc.failed c rest .vmemExhausted
      segmentVmemChunks := int32 (v.segmentVmemChunks-n) }
  | .releaseSegment all reduction::rest =>
    some { v with
      proc := { v.proc with frames := .releaseSession all reduction::rest }
      segmentVmemChunks := int32 (v.segmentVmemChunks-reduction) }
  | .releaseSession all reduction::rest =>
    some { v with
      proc := v.proc.released all reduction rest
      sessionVmem := int32 (v.sessionVmem-reduction) }
  | .registerSession::rest =>
    some { v with
      proc := { v.proc with frames := .registerSegment::rest }
      sessionVmem := int32 (v.sessionVmem+v.proc.startupChunks) }
  | .registerSegment::rest =>
    some { v with
      proc := { v.proc with frames := .reserveSession .registerStartupMemory 0::rest }
      segmentVmemChunks := int32 (v.segmentVmemChunks+v.proc.startupChunks) }
  | .unregisterSegment::rest =>
    some { v with
      proc := { v.proc with frames := .unregisterSession::rest }
      segmentVmemChunks := int32 (v.segmentVmemChunks-v.proc.startupChunks) }
  | .unregisterSession::rest =>
    some { v with
      proc := v.proc.unregistered rest
      sessionVmem := int32 (v.sessionVmem-v.proc.startupChunks) }
  | .cleanup _ _ _::_ => none
  | [] => none

end View

inductive Act where
  | reserveVmem (newlyRequestedBytes : Nat)
  | releaseVmem (toBeFreedRequested : Nat)
  | registerStartupMemory (bytes : Nat)
  | unregisterStartupMemory
  | shutdown
  | requestWaiver (waiverBytes : Nat)
  | resetWaiver
  | setCritSectionCount (n : Nat)
  | activateResGroup
  | endCleanup
  | raise
  | advance
deriving DecidableEq

/-- One step of a process. Reservations and releases may come from the cleanup of a reservation,
the other calls come from outside. -/
def View.act (l : Limits) (v : View) : Act → Option View
  | .reserveVmem n => if v.proc.isRunning then some { v with proc := v.proc.reserveVmem l n } else none
  | .releaseVmem n => if v.proc.isRunning then some { v with proc := v.proc.releaseVmem l n } else none
  | .registerStartupMemory n =>
    if v.proc.frames=[] ∧ v.proc.vmemTrackerInited then
      some { v with proc := v.proc.registerStartupMemory l n }
    else none
  | .unregisterStartupMemory =>
    if v.proc.frames=[] ∧ v.proc.vmemTrackerInited then
      some { v with proc := { v.proc with frames := [.unregisterSegment] } }
    else none
  | .shutdown =>
    if v.proc.frames=[] ∧ v.proc.vmemTrackerInited then some { v with proc := v.proc.shutdown }
    else none
  | .requestWaiver n =>
    if v.proc.isRunning then some { v with proc := v.proc.requestWaiver l n } else none
  | .resetWaiver =>
    if v.proc.isRunning then some { v with proc := { v.proc with waivedChunks := 0 } } else none
  | .setCritSectionCount n =>
    if v.proc.isRunning then some { v with proc := { v.proc with critSectionCount := n } } else none
  | .activateResGroup =>
    if v.proc.frames=[] then some { v with proc := { v.proc with resGroupActivated := true } }
    else none
  | .endCleanup => v.proc.reserveVmemAfterCleanup.map fun p => { v with proc := p }
  | .raise => v.proc.raise.map fun p => { v with proc := p }
  | .advance => v.advance l

structure Segment where
  numProcs : Nat := 0
  procs : Nat → Process := fun _ => { session := 0, gpRole := .utility }
  sessionVmem : Nat → Int := fun _ => 0
  segmentVmemChunks : Int := 0

inductive Action where
  | init (session : Nat) (gpRole : GpRole)
  | proc (p : Nat) (a : Act)
deriving DecidableEq

namespace Segment

def view (s : Segment) (p : Nat) : View :=
  ⟨s.procs p,s.sessionVmem (s.procs p).session,s.segmentVmemChunks⟩

def store (s : Segment) (p : Nat) (v : View) : Segment :=
  { s with
    procs := update s.procs p v.proc
    sessionVmem := update s.sessionVmem (s.procs p).session v.sessionVmem
    segmentVmemChunks := v.segmentVmemChunks }

def step (l : Limits) (s : Segment) : Action → Option Segment
  | .init session gpRole =>
    some { s with
      numProcs := s.numProcs+1
      procs := update s.procs s.numProcs { session := session, gpRole := gpRole } }
  | .proc p a => if p<s.numProcs then ((s.view p).act l a).map (s.store p) else none

end Segment

end WarehousePG.Vmem
