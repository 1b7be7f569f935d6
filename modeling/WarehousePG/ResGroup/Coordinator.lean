import WarehousePG.ResGroup.SlotPool
import WarehousePG.Framework.Custody

namespace WarehousePG.ResGroup

open Framework Function

/-- Where a session stands in `AssignResGroupOnCoordinator` or, with a target, in
`ResGroupMoveQuery`. -/
inductive Phase where
  | idle
  | bypassDecided (g : Nat)
  | decided (g : Nat) (target : Option Nat)
  | waiting (g : Nat) (target : Option Nat)
  | acquired (g x : Nat) (target : Option Nat)
  -- the fields of the target are set, its signal is not sent yet
  | signalled (g x target : Nat)
  | given (g x target : Nat)
  -- an error is raised with the slot still in the variable of the initiator
  | failed (g x : Nat)
  deriving DecidableEq

namespace Phase

def slot : Phase → Option (Nat × Nat)
  | acquired g x _ | signalled g x _ | given g x _ | failed g x => some (g, x)
  | idle | bypassDecided _ | decided _ _ | waiting _ _ => none

def target : Phase → Option Nat
  | decided _ t | waiting _ t | acquired _ _ t => t
  | signalled _ _ t | given _ _ t => some t
  | idle | bypassDecided _ | failed _ _ => none

end Phase

inductive Handler where
  | outside
  | taken (x : Nat)
  -- the old slot has been released
  | detached (x : Nat)
  deriving DecidableEq

namespace Handler

def slot : Handler → Option Nat
  | outside => none
  | taken x | detached x => some x

end Handler

/-- A coordinator session with the fields of its PGPROC and of its `self`. -/
structure Session where
  alive : Bool := true
  self : Option (Nat × Nat) := none
  bypassedGroup : Option Nat := none
  phase : Phase := .idle
  handler : Handler := .outside
  resSlot : Option Nat := none
  movetoResSlot : Option Nat := none
  movetoGroupId : Option Nat := none
  movetoCallerPid : Option Nat := none
  -- read by no step: the number of its last wait, and that the target has taken its slot
  ticket : Nat := 0
  handed : Bool := false
  deriving DecidableEq

structure Grant where
  session : Nat
  group : Nat
  nRunning : Int
  concurrency : Int
  dropped : Bool
  lockedForDrop : Bool
  ticket : Option Nat

/-- What a run has done so far; no step reads it. -/
structure Ledger where
  grants : List Grant := []
  tickets : Nat := 0
  gets : Nat → Nat := fun _ => 0
  puts : Nat → Nat := fun _ => 0
  -- the initiator and the target for which a slot in use was acquired
  mover : Nat → Option (Nat × Nat) := fun _ => none

namespace Ledger

def get (l : Ledger) (x : Nat) (entry : Grant) (target : Option Nat) : Ledger :=
  { l with
    grants := entry::l.grants
    gets := update l.gets x (l.gets x+1)
    mover := update l.mover x (target.map fun t => (entry.session, t)) }

def put (l : Ledger) (x : Nat) : Ledger :=
  { l with
    puts := update l.puts x (l.puts x+1)
    mover := update l.mover x none }

end Ledger

structure Coordinator where
  nSessions : Nat
  control : Control
  sessions : Nat → Session := fun _ => {}
  ledger : Ledger := {}

inductive SessionAction where
  | decideBypass (g : Nat)
  | incBypassedRef
  | decide (g : Nat) (target : Option Nat)
  | acquire
  | resume
  -- an error or a timeout while waiting
  | cancel
  | attach
  | unassign
  | exit
  -- an error before the target is signalled
  | giveUp
  | signal
  | send
  | check (clean : Bool)
  | release
  -- a FATAL error while waiting for the target
  | terminate
  | handle (inTransaction : Bool)
  | handleUnassign
  | handleAttach
  deriving DecidableEq

inductive CoordinatorAction where
  | session (i : Nat) (a : SessionAction)
  | alter (g : Nat) (concurrency : Int)
  | checkForDrop (g : Nat)
  | dropFinish (g : Nat) (isCommit : Bool)

namespace Control

def setQueue (c : Control) (g : Nat) (queue : List Nat) : Control :=
  c.setGroup g { c.groups g with waitProcs := queue }

def addBypassed (c : Control) (g : Nat) (n : Int) : Control :=
  c.setGroup g { c.groups g with nRunningBypassed := (c.groups g).nRunningBypassed+n }

end Control

namespace Coordinator

def init (size : Nat) (concurrency : Nat → Option Int) (nSessions : Nat) : Coordinator :=
  { nSessions, control := Control.slotpoolInit size concurrency }

def setSession (s : Coordinator) (i : Nat) (session : Session) : Coordinator :=
  { s with sessions := update s.sessions i session }

def setPhase (s : Coordinator) (i : Nat) (phase : Phase) : Coordinator :=
  s.setSession i { s.sessions i with phase }

/-- The check of `groupGetSlot`. -/
def Full (s : Coordinator) (g : Nat) : Prop :=
  (s.control.groups g).concurrency≤(s.control.groups g).nRunning
  deriving Decidable

/-- `groupGetSlot` below the limit; the pool is not checked for being empty. -/
def groupGetSlot (s : Coordinator) (i g : Nat) (ticket target : Option Nat) :
    Option (Nat × Coordinator) :=
  (s.control.allocSlot g).map fun (x, c) =>
    let group := s.control.groups g
    let entry : Grant :=
      { session := i, group := g, nRunning := group.nRunning, concurrency := group.concurrency
        dropped := group.dropped, lockedForDrop := group.lockedForDrop, ticket }
    (x, { s with control := c.addRunning g 1, ledger := s.ledger.get x entry target })

def groupPutSlot (s : Coordinator) (g x : Nat) : Coordinator :=
  { s with control := s.control.groupPutSlot g x, ledger := s.ledger.put x }

/-- The loop of `wakeupSlots` that grants slots, over the wait queue of the group. -/
def wakeup (s : Coordinator) (g : Nat) : List Nat → Option Coordinator
  | [] => some s
  | w::queue =>
    if s.Full g then some s
    else (s.groupGetSlot w g (some (s.sessions w).ticket) (s.sessions w).phase.target).bind
      fun (x, t) =>
        ({ t with control := t.control.setQueue g queue }.setSession w
          { t.sessions w with resSlot := some x }).wakeup g queue

def wakeupSlots (s : Coordinator) (g : Nat) : Option Coordinator :=
  s.wakeup g (s.control.groups g).waitProcs

/-- `wakeupSlots` without granting slots. -/
def wakeupAll (s : Coordinator) (g : Nat) : Coordinator :=
  { s with
    control := s.control.setQueue g []
    sessions := fun i => if i∈(s.control.groups g).waitProcs then
      { s.sessions i with resSlot := none } else s.sessions i }

def groupReleaseSlot (s : Coordinator) (g x : Nat) : Option Coordinator :=
  (s.groupPutSlot g x).wakeupSlots g

/-- A group that is dropped or locked makes the session decide again. -/
def groupIncBypassedRef (s : Coordinator) (i g : Nat) : Coordinator :=
  if (s.control.groups g).dropped ∨ (s.control.groups g).lockedForDrop then s.setPhase i .idle
  else { s with control := s.control.addBypassed g 1 }.setSession i
    { s.sessions i with bypassedGroup := some g, phase := .idle }

/-- The first locked section of `groupAcquireSlot`; a dropped group makes the session decide again,
or fails the move. -/
def groupAcquireSlot (s : Coordinator) (i g : Nat) (target : Option Nat) : Option Coordinator :=
  if (s.control.groups g).dropped then some (s.setPhase i .idle)
  else if (s.control.groups g).lockedForDrop=false ∧ ¬s.Full g then
    (s.groupGetSlot i g none target).map fun (x, t) => t.setPhase i (.acquired g x target)
  else some
    ({ s with
        control := s.control.setQueue g ((s.control.groups g).waitProcs ++ [i])
        ledger := { s.ledger with tickets := s.ledger.tickets+1 } }.setSession i
      { s.sessions i with phase := .waiting g target, ticket := s.ledger.tickets })

/-- The end of `groupAcquireSlot` for a session that is no longer in the queue. -/
def resumeWait (s : Coordinator) (i g : Nat) (target : Option Nat) : Option Coordinator :=
  if i∈(s.control.groups g).waitProcs then none
  else some (s.setSession i { s.sessions i with
    resSlot := none
    phase := match (s.sessions i).resSlot with
      | none => .idle
      | some x => .acquired g x target })

def groupWaitCancel (s : Coordinator) (i g : Nat) : Option Coordinator :=
  if i∈(s.control.groups g).waitProcs then
    some ({ s with
      control := s.control.setQueue g ((s.control.groups g).waitProcs.erase i) }.setPhase i .idle)
  else match (s.sessions i).resSlot with
  | some x =>
    (s.setSession i { s.sessions i with resSlot := none, phase := .idle }).groupReleaseSlot g x
  | none => some (s.setPhase i .idle)

/-- `selfAttachResGroup`; the session goes on as the other arguments say. -/
def selfAttach (s : Coordinator) (i g x : Nat) (phase : Phase) (handler : Handler) :
    Coordinator :=
  { s with control := s.control.addProcs x 1 }.setSession i
    { s.sessions i with self := some (g, x), phase, handler }

def unassignResGroup (s : Coordinator) (i : Nat) : Option Coordinator :=
  match (s.sessions i).bypassedGroup, (s.sessions i).self with
  | some g, _ => some ({ s with control := s.control.addBypassed g (-1) }.setSession i
      { s.sessions i with bypassedGroup := none })
  | none, none => some s
  | none, some (g, x) =>
    let t := { s with control := s.control.addProcs x (-1) }.setSession i
      { s.sessions i with self := none }
    if (t.control.slots x).nProcs=0 then t.groupReleaseSlot g x else some t

/-- The process is gone; a new one starts with these fields reset. -/
def exitProcess (s : Coordinator) (i : Nat) : Coordinator :=
  s.setSession i { s.sessions i with
    alive := false, movetoResSlot := none, movetoGroupId := none, movetoCallerPid := none }

/-- `ResGroupMoveSignalTarget` up to the signal: another initiator may be at work. -/
def moveSignalTarget (s : Coordinator) (i g x target : Nat) : Coordinator :=
  if (s.sessions target).alive ∧ (s.sessions target).movetoCallerPid=none then
    (s.setSession target { s.sessions target with
      movetoResSlot := some x, movetoCallerPid := some i, movetoGroupId := some g }).setPhase i
        (.signalled g x target)
  else s.setPhase i (.failed g x)

def cleanTarget (s : Coordinator) (target : Nat) : Coordinator :=
  s.setSession target { s.sessions target with
    movetoResSlot := none, movetoGroupId := none, movetoCallerPid := none }

/-- The signal of `ResGroupMoveSignalTarget`; it cannot be sent to a process that is gone. -/
def moveSendSignal (s : Coordinator) (i g x target : Nat) : Coordinator :=
  if (s.sessions target).alive then s.setPhase i (.given g x target)
  else (s.cleanTarget target).setPhase i (.failed g x)

/-- `ResGroupMoveCheckTargetReady` and what `resGroupGiveSlotAway` does with its result. -/
def moveCheckTargetReady (s : Coordinator) (i g x target : Nat) (clean : Bool) : Coordinator :=
  let proc := s.sessions target
  if proc.alive ∧ proc.movetoCallerPid=some i then
    if clean ∨ proc.movetoGroupId=none then
      if proc.movetoGroupId=none ∧ proc.movetoResSlot=none then
        (s.cleanTarget target).setSession i { s.sessions i with phase := .idle, handed := false }
      else (s.cleanTarget target).setPhase i (.failed g x)
    else s
  else if clean then s.setPhase i (.failed g x) else s

/-- The target marks the slot as taken; the initiator does not see this yet. -/
def markHanded (s : Coordinator) : Option Nat → Coordinator
  | none => s
  | some i => s.setSession i { s.sessions i with handed := true }

/-- The section of `HandleMoveResourceGroup` under the mutex. -/
def handleMoveResourceGroup (s : Coordinator) (i : Nat) (inTransaction : Bool) : Coordinator :=
  let proc := s.sessions i
  if !inTransaction ∨ proc.self=none then s.setSession i { proc with movetoGroupId := none }
  else match proc.movetoResSlot with
  | none => s.setSession i { proc with movetoGroupId := none }
  | some x => (s.setSession i { proc with
      movetoResSlot := none, movetoGroupId := none, handler := .taken x }).markHanded
        proc.movetoCallerPid

def mainStep (s : Coordinator) (i : Nat) : Phase → SessionAction → Option Coordinator
  | .idle, .decideBypass g =>
    if (s.sessions i).self=none ∧ (s.sessions i).bypassedGroup=none ∧ ¬(s.control.groups g).dropped
    then some (s.setPhase i (.bypassDecided g)) else none
  | .bypassDecided g, .incBypassedRef => some (s.groupIncBypassedRef i g)
  | .idle, .decide g target =>
    if ¬(s.control.groups g).dropped ∧ target≠some i ∧
      (target=none → (s.sessions i).self=none ∧ (s.sessions i).bypassedGroup=none)
    then some (s.setPhase i (.decided g target)) else none
  | .decided g target, .acquire => s.groupAcquireSlot i g target
  | .waiting g target, .resume => s.resumeWait i g target
  | .waiting g _, .cancel => s.groupWaitCancel i g
  | .acquired g x none, .attach => some (s.selfAttach i g x .idle (s.sessions i).handler)
  | .idle, .unassign => s.unassignResGroup i
  | .idle, .exit =>
    if (s.sessions i).self=none ∧ (s.sessions i).bypassedGroup=none then some (s.exitProcess i)
    else none
  | .acquired g x (some _), .giveUp => some (s.setPhase i (.failed g x))
  | .acquired g x (some target), .signal => some (s.moveSignalTarget i g x target)
  | .signalled g x target, .send => some (s.moveSendSignal i g x target)
  | .given g x target, .check clean => some (s.moveCheckTargetReady i g x target clean)
  | .failed g x, .release =>
    (s.setSession i { s.sessions i with phase := .idle, handed := false }).groupReleaseSlot g x
  | .given _ _ _, .terminate =>
    some (s.setSession i { s.sessions i with phase := .idle, handed := false })
  | _, .handle inTransaction => some (s.handleMoveResourceGroup i inTransaction)
  | _, _ => none

def handlerStep (s : Coordinator) (i : Nat) : Handler → SessionAction → Option Coordinator
  | .taken x, .handleUnassign =>
    (s.unassignResGroup i).map fun t => t.setSession i { t.sessions i with handler := .detached x }
  | .detached x, .handleAttach =>
    (s.control.slots x).group.map fun g => s.selfAttach i g x (s.sessions i).phase .outside
  | _, _ => none

def sessionStep (s : Coordinator) (i : Nat) (a : SessionAction) : Option Coordinator :=
  if i<s.nSessions ∧ (s.sessions i).alive then
    match (s.sessions i).handler with
    | .outside => s.mainStep i (s.sessions i).phase a
    | handler => s.handlerStep i handler a
  else none

/-- `ResGroupAlterOnCommit` for the concurrency; the group is not being dropped meanwhile. -/
def alterOnCommit (s : Coordinator) (g : Nat) (concurrency : Int) : Option Coordinator :=
  if (s.control.groups g).dropped ∨ (s.control.groups g).lockedForDrop then none
  else { s with control := s.control.setGroup g { s.control.groups g with concurrency }
    }.wakeupSlots g

/-- `ResGroupCheckForDrop`; a DROP holds the catalog lock until it has finished. -/
def checkForDrop (s : Coordinator) (g : Nat) : Option Coordinator :=
  if (s.control.groups g).dropped ∨ (s.control.groups g).lockedForDrop then none
  else if (s.control.groups g).nRunning+(s.control.groups g).nRunningBypassed>0 then some s
  else some { s with
    control := s.control.setGroup g { s.control.groups g with lockedForDrop := true } }

/-- `ResGroupDropFinish` of a DROP that has locked the group. -/
def dropFinish (s : Coordinator) (g : Nat) (isCommit : Bool) : Option Coordinator :=
  if (s.control.groups g).dropped ∨ (s.control.groups g).lockedForDrop=false then none
  else
    let t := s.wakeupAll g
    let group := { t.control.groups g with lockedForDrop := false, dropped := isCommit }
    some { t with control := t.control.setGroup g group }

def step (s : Coordinator) : CoordinatorAction → Option Coordinator
  | .session i a => s.sessionStep i a
  | .alter g concurrency => s.alterOnCommit g concurrency
  | .checkForDrop g => s.checkForDrop g
  | .dropFinish g isCommit => s.dropFinish g isCommit

end Coordinator

open Control Session Coordinator

inductive Place where
  | self
  | granted
  | hand
  | handler
  deriving DecidableEq

namespace Place

/-- The places of an initiator; the others are those of a target. -/
def ofInitiator : Place → Bool
  | granted | hand => true
  | self | handler => false

end Place

variable {g x : Nat} {target ticket : Option Nat}

namespace Phase

def assigning : Phase → Bool
  | bypassDecided _ => true
  | decided _ target | waiting _ target | acquired _ _ target => target.isNone
  | idle | signalled _ _ _ | given _ _ _ | failed _ _ => false

def gives : Phase → Option (Nat × Nat)
  | signalled _ x target | given _ x target => some (x, target)
  | idle | bypassDecided _ | decided _ _ | waiting _ _ | acquired _ _ _ | failed _ _ => none

end Phase

namespace Session

/-- A slot that the target has taken is no longer in the hand of the initiator. -/
def holds (s : Session) : Place → Option Nat
  | .self => s.self.map Prod.snd
  | .granted => s.resSlot
  | .hand => if s.handed then none else s.phase.slot.map Prod.snd
  | .handler => s.handler.slot

end Session

namespace Ledger

def served (l : Ledger) (g : Nat) : List Nat :=
  l.grants.filterMap fun e => if e.group=g then e.ticket else none

end Ledger

namespace Coordinator

def held (s : Coordinator) (l : Nat × Place) : Option Nat := (s.sessions l.1).holds l.2

def Owns (s : Coordinator) (i x : Nat) : Prop := ∃ p, (s.sessions i).holds p=some x

section

variable (s : Coordinator)

@[simp] theorem setSession_control (i : Nat) (session : Session) :
    (s.setSession i session).control=s.control := rfl

@[simp] theorem setSession_ledger (i : Nat) (session : Session) :
    (s.setSession i session).ledger=s.ledger := rfl

@[simp] theorem setSession_self (i : Nat) (session : Session) :
    (s.setSession i session).sessions i=session := by simp [setSession]

theorem setSession_ne (h : j≠i) (session : Session) :
    (s.setSession i session).sessions j=s.sessions j := by simp [setSession,h]

theorem held_setSession (i : Nat) (session : Session) (p : Place) :
    (s.setSession i session).held (i, p)=session.holds p := by
  rw [held,setSession_self]

theorem held_setSession_ne (session : Session) (h : l.1≠i) :
    (s.setSession i session).held l=s.held l := by
  rw [held,setSession_ne s h,held]

end

structure Gets (s : Coordinator) (i g : Nat) (ticket target : Option Nat) (x : Nat)
    (t : Coordinator) : Prop where
  alloc : ∃ c, s.control.allocSlot g=some (x, c) ∧ t.control=c.addRunning g 1
  slots : t.control.slots
    =update s.control.slots x { s.control.slots x with group := some g }
  groups : t.control.groups=(s.control.addRunning g 1).groups
  ledger : t.ledger=s.ledger.get x
    { session := i, group := g, nRunning := (s.control.groups g).nRunning
      concurrency := (s.control.groups g).concurrency, dropped := (s.control.groups g).dropped
      lockedForDrop := (s.control.groups g).lockedForDrop, ticket } target
  sessions : t.sessions=s.sessions
  nSessions : t.nSessions=s.nSessions

theorem groupGetSlot_gets {s : Coordinator}
    (h : s.groupGetSlot i g ticket target=some (x, t)) : s.Gets i g ticket target x t := by
  obtain ⟨⟨y,c⟩,hall,heq⟩ := Option.map_eq_some_iff.mp h
  obtain ⟨rfl,rfl⟩ := Prod.mk.inj heq
  obtain ⟨hsl,hgroups,-⟩ := allocSlot_eq hall
  refine ⟨⟨c,hall,rfl⟩,hsl,?_,rfl,rfl,rfl⟩
  change (c.addRunning g 1).groups=_
  simp only [addRunning,setGroup,hgroups]

end Coordinator

structure SessionOk (slots : Nat → Slot) (mover : Nat → Option (Nat × Nat)) (i : Nat)
    (s : Session) : Prop where
  self : ∀ g x, s.self=some (g, x) → slots x={ group := some g, nProcs := 1 }
  granted : ∀ x, s.resSlot=some x → ∃ g target, s.phase=.waiting g target ∧
    slots x={ group := some g } ∧ mover x=target.map fun t => (i, t)
  hand : s.handed=false → ∀ g x, s.phase.slot=some (g, x) → slots x={ group := some g } ∧
    (s.phase≠.failed g x → mover x=s.phase.target.map fun t => (i, t))
  handler : ∀ x, s.handler.slot=some x → ∃ g, slots x={ group := some g }
  assigning : s.phase.assigning → s.self=none ∧ s.bypassedGroup=none ∧ s.handler=.outside
  handling : s.handler≠.outside → s.bypassedGroup=none
  detached : ∀ x, s.handler=.detached x → s.self=none
  bypassed : s.self≠none → s.bypassedGroup=none
  dead : s.alive=false → s.self=none ∧ s.phase=.idle ∧ s.handler=.outside ∧
    s.movetoResSlot=none ∧ s.movetoCallerPid=none
  apart : s.phase.target≠some i

namespace SessionOk

variable {slots : Nat → Slot} {mover : Nat → Option (Nat × Nat)} {s : Session}

theorem congr (h : SessionOk slots mover i s)
    (hsl : ∀ p x, s.holds p=some x → slots' x=slots x ∧ mover' x=mover x) :
    SessionOk slots' mover' i s := by
  refine { h with self := ?self, granted := ?granted, hand := ?hand, handler := ?handler }
  case self =>
    intro g x hx
    rw [(hsl .self x (by rw [holds,hx]; rfl)).1]
    exact h.self g x hx
  case granted =>
    intro x hx
    rw [(hsl .granted x hx).1,(hsl .granted x hx).2]
    exact h.granted x hx
  case hand =>
    intro hhan g x hx
    have := hsl .hand x (by rw [holds,hhan,hx]; rfl)
    rw [this.1,this.2]
    exact h.hand hhan g x hx
  case handler =>
    intro x hx
    rw [(hsl .handler x hx).1]
    exact h.handler x hx

end SessionOk

structure Core (s : Coordinator) : Prop where
  pool : PoolInv s.control
  custody : Custody s.held fun x => (s.control.slots x).group≠none
  free : ∀ x, (s.control.slots x).group=none → (s.control.slots x).nProcs=0
  counted : ∀ x, s.ledger.gets x
    =s.ledger.puts x+(if (s.control.slots x).group=none then 0 else 1)
  sessions : ∀ i, SessionOk s.control.slots s.ledger.mover i (s.sessions i)
  mover : ∀ x i t, s.ledger.mover x=some (i, t) →
    ∃ p, s.held (if p.ofInitiator then i else t, p)=some x

namespace Core

variable {s : Coordinator}

attribute [local simp] Ledger.get Ledger.put

section

variable (h : Core s)
include h

theorem group_ne_none (hx : s.held l=some x) : (s.control.slots x).group≠none :=
  h.custody.used_of_held hx

theorem others {slots : Nat → Slot} {mover : Nat → Option (Nat × Nat)}
    (hsl : ∀ y, y≠x → slots y=s.control.slots y)
    (hmv : ∀ y, y≠x → mover y=s.ledger.mover y) (hj : ∀ p, s.held (j, p)≠some x) :
    SessionOk slots mover j (s.sessions j) := by
  apply (h.sessions j).congr
  intro p y hy
  have hyx : y≠x := by
    rintro rfl
    exact hj p hy
  exact ⟨hsl y hyx,hmv y hyx⟩

theorem not_held (hx : s.held l=some x) (hj : j≠l.1) (p : Place) : s.held (j, p)≠some x := by
  intro hp
  exact hj (congrArg Prod.fst (h.custody.unique hp hx))

theorem same (hpool : PoolInv t.control) (hsl : t.control.slots=s.control.slots)
    (hgets : t.ledger.gets=s.ledger.gets) (hputs : t.ledger.puts=s.ledger.puts)
    (hmv : t.ledger.mover=s.ledger.mover) (hheld : ∀ l, t.held l=s.held l)
    (hok : ∀ i, SessionOk s.control.slots s.ledger.mover i (t.sessions i)) : Core t := by
  refine ⟨hpool,?custody,?free,?counted,?sessions,?mover⟩
  case custody =>
    rw [hsl]
    exact h.custody.congr hheld fun _ => Iff.rfl
  case free =>
    rw [hsl]
    exact h.free
  case counted =>
    rw [hsl,hgets,hputs]
    exact h.counted
  case sessions =>
    rw [hsl,hmv]
    exact hok
  case mover =>
    rw [hmv]
    simpa only [hheld] using h.mover

theorem setSession (hhd : ∀ p, session.holds p=(s.sessions i).holds p)
    (hok : SessionOk s.control.slots s.ledger.mover i session) : Core (s.setSession i session) := by
  refine h.same h.pool rfl rfl rfl rfl (fun l => ?_) (fun j => ?_)
  · by_cases hl : l.1=i
    · rw [held,hl,setSession_self,hhd,held,hl]
    · exact s.held_setSession_ne session hl
  · by_cases hj : j=i
    · rw [hj,setSession_self]
      exact hok
    · rw [s.setSession_ne hj]
      exact h.sessions j

/-- A slot passes from the initiator of a move to its target. -/
theorem pass (hpool : PoolInv t.control) (hled : t.ledger=s.ledger)
    (hgrp : ∀ y, (t.control.slots y).group=(s.control.slots y).group)
    (hfree : ∀ y, y≠x → t.control.slots y=s.control.slots y) (hx : s.held l=some x)
    (hemp : s.held m=none) (hl : t.held l=none) (hm : t.held m=some x)
    (hoth : ∀ k, k≠l → k≠m → t.held k=s.held k)
    (hmv : ∀ i t, s.ledger.mover x=some (i, t) → m.1=if m.2.ofInitiator then i else t)
    (hok : ∀ i, SessionOk t.control.slots s.ledger.mover i (t.sessions i)) : Core t := by
  have hused := h.group_ne_none hx
  refine ⟨hpool,?custody,?free,?counted,?sessions,?mover⟩
  case custody => exact h.custody.pass hx hemp hl hm hoth fun y => by rw [hgrp]
  case free =>
    intro y hy
    rw [hgrp] at hy
    rw [hfree y (by rintro rfl; exact hused hy)]
    exact h.free y hy
  case counted =>
    intro y
    rw [hled,hgrp]
    exact h.counted y
  case sessions =>
    rw [hled]
    exact hok
  case mover =>
    intro y i k hy
    rw [hled] at hy
    by_cases hyx : y=x
    · subst hyx
      exact ⟨m.2,by rw [← hmv i k hy]; exact hm⟩
    · obtain ⟨p,hp⟩ := h.mover y i k hy
      refine ⟨p,(hoth _ ?_ ?_).trans hp⟩
      · intro heq
        rw [heq,hx] at hp
        exact hyx (Option.some.inj hp).symm
      · intro heq
        rw [heq,hemp] at hp
        cases hp

/-- A slot goes back to the pool. -/
theorem put (hpool : PoolInv c)
    (hslot : c.slots x={ group := some g }) (hsl : ∀ y, y≠x → c.slots y=s.control.slots y)
    (hx : s.held (i, p)=some x) (hemp : session.holds p=none)
    (hhd : ∀ q, q≠p → session.holds q=(s.sessions i).holds q)
    (hok : SessionOk s.control.slots s.ledger.mover i session) :
    Core (({ s with control := c }.setSession i session).groupPutSlot g x) := by
  generalize ht : Coordinator.groupPutSlot _ g x=t
  have hctl : t.control=c.groupPutSlot g x := by rw [← ht]; rfl
  have hled : t.ledger=s.ledger.put x := by rw [← ht]; rfl
  have hi : t.sessions i=session := by
    rw [← ht]
    exact setSession_self _ i session
  have hss : ∀ j, j≠i → t.sessions j=s.sessions j := by
    rw [← ht]
    exact fun j hj => setSession_ne _ hj session
  have hoth : ∀ m, m≠(i, p) → t.held m=s.held m := by
    intro m hm
    by_cases hmi : m.1=i
    · rw [held,hmi,hi,hhd m.2 (by rintro hp; exact hm (Prod.ext hmi hp)),held,hmi]
    · rw [held,hss m.1 hmi,held]
  have hfrd : t.control.slots x={} := by
    rw [hctl,Control.groupPutSlot_slots,update_self,hslot]
  have hsame : ∀ y, y≠x → t.control.slots y=s.control.slots y := by
    intro y hyx
    rw [hctl,Control.groupPutSlot_slots,update_of_ne hyx,hsl y hyx]
  have hmv : ∀ y, y≠x → t.ledger.mover y=s.ledger.mover y := by
    intro y hyx
    simp [hled,hyx]
  refine ⟨?pool,?custody,?free,?counted,?sessions,?mover⟩
  case pool =>
    rw [hctl]
    exact hpool.put (by rw [hslot])
  case custody =>
    refine h.custody.put hx (by rw [held,hi,hemp]) hoth fun y => ?_
    by_cases hyx : y=x
    · simp [hyx,hfrd]
    · simp [hyx,hsame y hyx]
  case free =>
    intro y hy
    by_cases hyx : y=x
    · rw [hyx,hfrd]
    · rw [hsame y hyx] at hy ⊢
      exact h.free y hy
  case counted =>
    intro y
    by_cases hyx : y=x
    · have := h.counted x
      rw [if_neg (h.group_ne_none hx)] at this
      simp [hyx,hfrd,hled,this]
    · rw [hsame y hyx,hled]
      simp only [Ledger.put,update_of_ne hyx]
      exact h.counted y
  case sessions =>
    intro j
    by_cases hj : j=i
    · rw [hj,hi]
      apply hok.congr
      intro q y hy
      have hyx : y≠x := by
        rintro rfl
        have hqp : q≠p := by
          rintro rfl
          rw [hemp] at hy
          cases hy
        rw [hhd q hqp] at hy
        exact hqp (congrArg Prod.snd (h.custody.unique (l := (i, q)) hy hx))
      exact ⟨hsame y hyx,hmv y hyx⟩
    · rw [hss j hj]
      exact h.others hsame hmv (h.not_held hx hj)
  case mover =>
    intro y k m hy
    have hyx : y≠x := by
      rintro rfl
      rw [hled] at hy
      simp at hy
    rw [hmv y hyx] at hy
    obtain ⟨q,hq⟩ := h.mover y k m hy
    refine ⟨q,(hoth _ ?_).trans hq⟩
    intro heq
    rw [heq,hx] at hq
    exact hyx (Option.some.inj hq).symm

variable (hget : s.Gets i g ticket target x t)
include hget

theorem gets_facts : PoolInv t.control ∧ (s.control.slots x).group=none ∧
      t.control.slots x={ group := some g } ∧ (∀ y, y≠x → t.control.slots y=s.control.slots y) ∧
      t.ledger.mover x=target.map (fun k => (i, k)) ∧
      ∀ y, y≠x → t.ledger.mover y=s.ledger.mover y := by
  obtain ⟨c,hall,hctl⟩ := hget.alloc
  obtain ⟨hpool,-,hfree⟩ := h.pool.alloc hall
  rw [hget.slots,hget.ledger]
  refine ⟨hctl ▸ hpool,hfree,?_,fun y hy => update_of_ne hy _ _,
    by simp,fun y hy => by simp [hy]⟩
  simp [h.free x hfree]

/-- A slot comes from the pool. -/
theorem get (hemp : (s.sessions i).holds p=none) (hp : session.holds p=some x)
    (hinit : p.ofInitiator) (hhd : ∀ q, q≠p → session.holds q=(s.sessions i).holds q)
    (hok : SessionOk t.control.slots t.ledger.mover i session) : Core (t.setSession i session) := by
  obtain ⟨hpool,hfree,hslot,hsl,hmov,hmv⟩ := h.gets_facts hget
  have hoth : ∀ m, m≠(i, p) → (t.setSession i session).held m=s.held m := by
    intro m hm
    by_cases hmi : m.1=i
    · rw [held,hmi,setSession_self,hhd m.2 (by rintro hp; exact hm (Prod.ext hmi hp)),held,hmi]
    · rw [held_setSession_ne t session hmi,held,hget.sessions,held]
  have hheld : (t.setSession i session).held (i, p)=some x := by rw [held_setSession,hp]
  refine ⟨hpool,?custody,?free,?counted,?sessions,?mover⟩
  case custody =>
    refine h.custody.take (l := (i, p)) (by simp [hfree]) hemp hheld hoth fun y => ?_
    by_cases hyx : y=x
    · simp [hyx,hslot]
    · simp [hyx,hsl y hyx]
  case free =>
    intro y hy
    rw [setSession_control] at hy ⊢
    by_cases hyx : y=x
    · rw [hyx,hslot]
    · rw [hsl y hyx] at hy ⊢
      exact h.free y hy
  case counted =>
    intro y
    rw [setSession_control,setSession_ledger,hget.ledger]
    by_cases hyx : y=x
    · have := h.counted x
      simp [hyx,hslot,this,hfree]
    · rw [hsl y hyx]
      simp only [Ledger.get,update_of_ne hyx]
      exact h.counted y
  case sessions =>
    intro j
    by_cases hj : j=i
    · rw [hj,setSession_self]
      exact hok
    · rw [t.setSession_ne hj,hget.sessions]
      apply h.others hsl hmv
      intro q hq
      exact h.group_ne_none hq hfree
  case mover =>
    intro y k m hy
    rw [setSession_ledger] at hy
    by_cases hyx : y=x
    · rw [hyx,hmov] at hy
      obtain ⟨_,-,heq⟩ := Option.map_eq_some_iff.mp hy
      obtain ⟨rfl,rfl⟩ := Prod.mk.inj heq
      exact ⟨p,by rw [hinit,if_pos rfl,hyx]; exact hheld⟩
    · rw [hmv y hyx] at hy
      obtain ⟨q,hq⟩ := h.mover y k m hy
      refine ⟨q,(hoth _ ?_).trans hq⟩
      intro heq
      rw [heq,held,hemp] at hq
      cases hq

end

end Core

end WarehousePG.ResGroup
