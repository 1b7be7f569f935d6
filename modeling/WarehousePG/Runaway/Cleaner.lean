import WarehousePG.Framework.Transition
import WarehousePG.Framework.Tally

namespace WarehousePG.Runaway

open Function

inductive RunawayStatus
  | notRunaway
  | primary
  | secondary
  deriving DecidableEq

/-- The shared entry of a session; the countdown is -1 while no cleanup is under way. -/
structure SessionState where
  runawayStatus : RunawayStatus
  activeProcessCount : Int
  cleanupCountdown : Int
  pinCount : Int
  deriving DecidableEq

inductive Phase
  | fresh
  | starting
  | ready
  /-- Won the flag of the detector and has to choose a session. -/
  | claimed
  | checking
  | thrown
  | reactivating
  | counting
  /-- Has counted down; the compare-and-exchange of the countdown comes next. -/
  | resetting
  | unflagging
  | enabling
  | gone
  deriving DecidableEq

/-- A backend or a parallel worker. `owes` is kept for the proofs: the process was active in its
session at the latest event and has not counted down yet. -/
structure Process where
  phase : Phase
  exiting : Bool
  session : Nat
  isProcessActive : Bool
  activationVersion : Int
  deactivationVersion : Int
  beginCleanup : Int
  endCleanup : Int
  owes : Bool
  deriving DecidableEq

structure Query where
  holdsInterrupts : Bool
  commandCount : Int
  inTransaction : Bool
  superuser : Bool
  deriving DecidableEq

structure Event where
  version : Int
  session : Nat
  active : List Nat
  deriving DecidableEq

/-- The shared state of a segment with its processes, the events so far and who has counted down
for which of them. -/
structure Segment where
  nProcs : Nat
  procs : Nat → Process
  sessions : Nat → SessionState
  currentVersion : Int
  latestRunawayVersion : Int
  isRunawayDetector : Nat
  events : List Event
  counted : List (Nat × Int)

namespace SessionState

def empty : SessionState where
  runawayStatus := .notRunaway
  activeProcessCount := 0
  cleanupCountdown := -1
  pinCount := 0

/-- RunawayCleaner_RunawayCleanupDoneForSession, as far as it concerns the session. -/
def runawayCleanupDone (k : SessionState) : SessionState := { k with runawayStatus := .notRunaway }

end SessionState

namespace Process

def unborn : Process where
  phase := .fresh
  exiting := false
  session := 0
  isProcessActive := false
  activationVersion := 1
  deactivationVersion := 1
  beginCleanup := 0
  endCleanup := 0
  owes := false

variable (pr : Process)

def isCleanupInProgress : Bool := decide (pr.endCleanup<pr.beginCleanup)

/-- The status of the session and the latest version are read without a lock, the version up to three
times. -/
def shouldStartRunawayCleanup (status : RunawayStatus) (version₁ version₂ version₃ : Int) : Bool :=
  decide (status≠.notRunaway) && decide (pr.beginCleanup≠version₁) &&
    ((pr.isProcessActive && decide (pr.activationVersion<version₂)) ||
      (!pr.isProcessActive && decide (version₂<pr.deactivationVersion) &&
        decide (pr.activationVersion<version₃)))

/-- The vmem tracker of a process that exits is shut down. -/
def shouldCancelQuery (status : RunawayStatus) (q : Query) : Bool :=
  !pr.exiting && !q.holdsInterrupts && decide (0<q.commandCount) && q.inTransaction &&
    match status with
    | .primary => true
    | _ => !q.superuser

/-- RunawayCleaner_RunawayCleanupDoneForProcess up to its first atomic section. -/
def runawayCleanupDone (latest : Int) (ignoredCleanup : Bool) : Process :=
  if pr.beginCleanup≠latest ∨ pr.endCleanup=pr.beginCleanup then { pr with phase := .ready }
  else
    { pr with
      endCleanup := pr.beginCleanup
      phase := if !pr.isProcessActive && !ignoredCleanup then .reactivating else .counting }

/-- RunawayCleaner_StartCleanup after the decision whether to start. -/
def startCleanup (shouldStart : Bool) (status : RunawayStatus) (latest : Int) (q : Query) :
    Process :=
  if shouldStart then
    if pr.shouldCancelQuery status q then { pr with beginCleanup := latest, phase := .thrown }
    else { pr with beginCleanup := latest }.runawayCleanupDone latest true
  else { pr with phase := .ready }

end Process

namespace Segment

def init (n : Nat) : Segment where
  nProcs := n
  procs _ := .unborn
  sessions _ := .empty
  currentVersion := 1
  latestRunawayVersion := 0
  isRunawayDetector := 0
  events := []
  counted := []

variable (s : Segment) (p : Nat)

def setProc (pr : Process) : Segment := { s with procs := update s.procs p pr }

def setSession (k : Nat) (e : SessionState) : Segment :=
  { s with sessions := update s.sessions k e }

def setPhase (phase : Phase) : Segment := s.setProc p { s.procs p with phase := phase }

def mySession : SessionState := s.sessions (s.procs p).session

/-- The start of a cleanup that reads the status and the version once, with nothing in between. -/
def startCleanupAtOnce (q : Query) : Process :=
  (s.procs p).startCleanup ((s.procs p).shouldStartRunawayCleanup (s.mySession p).runawayStatus
    s.latestRunawayVersion s.latestRunawayVersion s.latestRunawayVersion)
    (s.mySession p).runawayStatus s.latestRunawayVersion q

def acquire (k : Nat) : Segment :=
  let entry := if (s.sessions k).pinCount=0 then SessionState.empty else s.sessions k
  (s.setSession k { entry with pinCount := entry.pinCount+1 }).setProc p
    { Process.unborn with phase := .starting, session := k }

def activateProcess (next : Phase) : Segment :=
  let k := (s.procs p).session
  (s.setSession k
    { s.sessions k with activeProcessCount := (s.sessions k).activeProcessCount+1 }).setProc p
    { s.procs p with
      activationVersion := s.currentVersion
      isProcessActive := true
      phase := next }

def deactivateProcess (exiting : Bool) : Segment :=
  let k := (s.procs p).session
  (s.setSession k
    { s.sessions k with activeProcessCount := (s.sessions k).activeProcessCount-1 }).setProc p
    { s.procs p with
      deactivationVersion := s.currentVersion
      isProcessActive := false
      exiting := exiting
      phase := .checking }

def activeIn (k : Nat) : List Nat :=
  (List.range s.nProcs).filter fun q => (s.procs q).isProcessActive && (s.procs q).session=k

/-- The runaway event: the session is flagged, and its active processes have to clean up. -/
def flagSession (k : Nat) (isTop : Bool) : Segment :=
  { s with
    latestRunawayVersion := s.currentVersion+1
    currentVersion := s.currentVersion+2
    sessions := update s.sessions k
      { s.sessions k with
        cleanupCountdown := (s.sessions k).activeProcessCount
        runawayStatus := if isTop then .primary else .secondary }
    procs := fun q => if q∈s.activeIn k then { s.procs q with owes := true } else s.procs q
    events := ⟨s.currentVersion+1,k,s.activeIn k⟩::s.events }

/-- RedZoneHandler_FlagTopConsumer with the session it has found, if any. -/
def flagTopConsumer : Option (Nat × Bool) → Segment
  | some (k, isTop) =>
    if 0<(s.sessions k).activeProcessCount then s.flagSession k isTop
    else { s with isRunawayDetector := 0 }
  | none => { s with isRunawayDetector := 0 }

def countDown : Segment :=
  let k := (s.procs p).session
  let counted := { s with counted := (p, s.latestRunawayVersion)::s.counted }
  (counted.setSession k
    { s.sessions k with cleanupCountdown := (s.sessions k).cleanupCountdown-1 }).setProc p
    { s.procs p with owes := false, phase := .resetting }

def tryReset : Segment :=
  let k := (s.procs p).session
  if (s.sessions k).cleanupCountdown=0 then
    (s.setSession k { s.sessions k with cleanupCountdown := -1 }).setPhase p .unflagging
  else s.setPhase p .ready

def unflag : Segment :=
  let k := (s.procs p).session
  if (s.sessions k).runawayStatus=.notRunaway then s.setPhase p .ready
  else (s.setSession k (s.sessions k).runawayCleanupDone).setPhase p .enabling

/-- RunawayCleaner_RunawayCleanupDoneForSession when the last process leaves a session. -/
def endCleanupOf (k : Nat) : Segment :=
  if (s.sessions k).runawayStatus=.notRunaway then s else { s with isRunawayDetector := 0 }

/-- SessionState_Release: the last process frees the entry, and ends a cleanup that was left. -/
def release : Segment :=
  let k := (s.procs p).session
  let pinCount := (s.sessions k).pinCount-1
  if pinCount=0 then ((s.endCleanupOf k).setSession k .empty).setPhase p .gone
  else (s.setSession k { s.sessions k with pinCount := pinCount }).setPhase p .gone

end Segment

inductive Action
  /-- SessionState_Init. -/
  | start (p k : Nat)
  /-- IdleTracker_Init. -/
  | init (p : Nat)
  | activate (p : Nat)
  | deactivate (p : Nat)
  /-- The compare-and-exchange of RedZoneHandler_FlagTopConsumer. -/
  | detect (p : Nat)
  | flag (p : Nat) (found : Option (Nat × Bool))
  | startCleanup (p : Nat) (q : Query)
  /-- An exception handler of the query catches the error. -/
  | catchError (p : Nat)
  /-- An error reaches the main loop, whose recovery declares the process clean. -/
  | recover (p : Nat)
  | reactivate (p : Nat)
  | countDown (p : Nat)
  | tryReset (p : Nat)
  | unflag (p : Nat)
  | enable (p : Nat)
  /-- The exit callback shuts down the idle tracker. -/
  | exit (p : Nat)
  | release (p : Nat)

namespace Segment

variable (s : Segment)

def Runs (p : Nat) (phases : List Phase) : Prop :=
  p<s.nProcs ∧ (s.procs p).phase∈phases ∧ (s.procs p).exiting=false
  deriving Decidable

def At (p : Nat) (phase : Phase) : Prop := p<s.nProcs ∧ (s.procs p).phase=phase
  deriving Decidable

/-- A cleanup is started in one step here, with a single look at the status and the version.
IdleTracker_DeactivateProcess only asserts that the process is active: the main loop calls it after
every error, also after one that found the process idle. -/
def step : Action → Option Segment
  | .start p k => if s.At p .fresh then some (s.acquire p k) else none
  | .init p => if s.At p .starting then some (s.activateProcess p .ready) else none
  | .activate p =>
    if s.Runs p [.ready] ∧ (s.procs p).isProcessActive=false then some (s.activateProcess p .ready)
    else none
  | .deactivate p => if s.Runs p [.ready] then some (s.deactivateProcess p false) else none
  | .detect p =>
    if s.Runs p [.ready] then
      if s.isRunawayDetector=0 then some ({ s with isRunawayDetector := 1 }.setPhase p .claimed)
      else some (s.setPhase p .checking)
    else none
  | .flag p found =>
    if s.At p .claimed then some ((s.flagTopConsumer found).setPhase p .checking) else none
  | .startCleanup p q =>
    if s.At p .checking then
      some (s.setProc p (s.startCleanupAtOnce p q))
    else none
  | .catchError p => if s.Runs p [.thrown] then some (s.setPhase p .ready) else none
  | .recover p =>
    if s.Runs p [.ready,.thrown] then
      some (s.setProc p ((s.procs p).runawayCleanupDone s.latestRunawayVersion false))
    else none
  | .reactivate p => if s.At p .reactivating then some (s.activateProcess p .counting) else none
  | .countDown p => if s.At p .counting then some (s.countDown p) else none
  | .tryReset p => if s.At p .resetting then some (s.tryReset p) else none
  | .unflag p => if s.At p .unflagging then some (s.unflag p) else none
  | .enable p =>
    if s.At p .enabling then some ({ s with isRunawayDetector := 0 }.setPhase p .ready) else none
  | .exit p =>
    if s.Runs p [.ready,.thrown] then
      if (s.procs p).isProcessActive then some (s.deactivateProcess p true)
      else some (s.setProc p { s.procs p with exiting := true, phase := .ready })
    else none
  | .release p =>
    if s.At p .ready ∧ (s.procs p).exiting=true then some (s.release p) else none

end Segment

open Framework Segment Phase Process

inductive Stage
  | idle
  | choosing (p : Nat)
  | cleaning (k : Nat)
  | winning (p k : Nat)
  | enabling (p : Nat)
  deriving DecidableEq

namespace Stage

def flags : Stage → Nat → Prop
  | .cleaning k, l => l=k
  | .winning _ k, l => l=k
  | _, _ => False

def holder : Stage → Option Nat
  | .choosing p | .winning p _ | .enabling p => some p
  | .idle | .cleaning _ => none

end Stage

def Phase.plain : Phase → Bool
  | .ready | .claimed | .checking | .thrown | .resetting | .unflagging | .enabling => true
  | .fresh | .starting | .reactivating | .counting | .gone => false

namespace Process

def attached (pr : Process) : Bool := decide (pr.phase≠.fresh ∧ pr.phase≠.gone)

def special (pr : Process) (p : Nat) : Option Stage :=
  match pr.phase with
  | .claimed => some (.choosing p)
  | .unflagging => some (.winning p pr.session)
  | .enabling => some (.enabling p)
  | _ => none

theorem special_holder {pr : Process} (h : pr.special p=some st) : st.holder=some p := by
  rw [special] at h
  split at h <;> cases h <;> rfl

end Process

/-- What the versions of a process say about the latest event; `flagged` is about its session. -/
structure ProcessOk (latest current : Int) (flagged : Prop) (pr : Process) : Prop where
  begin_le : pr.beginCleanup≤latest
  end_le : pr.endCleanup≤pr.beginCleanup
  activation_le : pr.activationVersion≤current
  deactivation_le : pr.deactivationVersion≤current
  finished : pr.beginCleanup≠latest → pr.endCleanup=pr.beginCleanup
  started : pr.beginCleanup=latest → pr.endCleanup≠latest → pr.owes=true
  pending : pr.owes=true → pr.beginCleanup≠latest → pr.activationVersion<latest ∧
    (pr.isProcessActive=true ∨ (pr.phase=.checking ∧ latest<pr.deactivationVersion))
  ending : pr.owes=true → pr.endCleanup=latest → pr.phase=.reactivating ∨ pr.phase=.counting
  counting : pr.phase=.reactivating ∨ pr.phase=.counting →
    pr.owes=true ∧ pr.beginCleanup=latest ∧ pr.endCleanup=latest
  skipped : flagged → pr.owes=false → pr.beginCleanup≠latest → pr.activationVersion<latest →
    pr.isProcessActive=false ∧ pr.deactivationVersion≤latest
  outside : pr.phase=.fresh ∨ pr.phase=.starting ∨ pr.phase=.gone →
    pr.isProcessActive=false ∧ pr.owes=false
  starting : pr.phase=.starting → pr.exiting=false
  reactivating : pr.phase=.reactivating → pr.isProcessActive=false ∧ pr.exiting=false
  exiting : pr.exiting=true → pr.isProcessActive=false ∧ pr.endCleanup=pr.beginCleanup
  winner : pr.phase=.unflagging ∨ pr.phase=.enabling → pr.beginCleanup=latest

namespace Segment

variable (s : Segment)

def nActive (k : Nat) : Nat :=
  tally s.nProcs s.procs fun pr => pr.isProcessActive && decide (pr.session=k)

def nPinned (k : Nat) : Nat :=
  tally s.nProcs s.procs fun pr => pr.attached && decide (pr.session=k)

def nOwing : Nat := tally s.nProcs s.procs fun pr => pr.owes

end Segment

structure StageOk (st : Stage) (s : Segment) : Prop where
  detector : s.isRunawayDetector=if st=.idle then 0 else 1
  flagged : ∀ k, (s.sessions k).runawayStatus≠.notRunaway ↔ st.flags k
  countdown : ∀ k, (s.sessions k).cleanupCountdown=if st=.cleaning k then (s.nOwing : Int) else -1
  special : ∀ p σ, (s.procs p).special p=some σ → st=σ
  held : ∀ p, st.holder=some p → (s.procs p).special p=some st
  owing : ∀ p, (s.procs p).owes=true → st=.cleaning (s.procs p).session
  awaited : ∀ k, st=.cleaning k →
    0<s.nOwing ∨ ∃ p, (s.procs p).phase=.resetting ∧ (s.procs p).session=k
  resetting : ∀ p, (s.procs p).phase=.resetting → st=.cleaning (s.procs p).session →
    (s.procs p).beginCleanup=s.latestRunawayVersion

structure LogOk (s : Segment) : Prop where
  version_le : ∀ e∈s.events, 0<e.version ∧ e.version ≤ s.latestRunawayVersion
  counted_le : ∀ x∈s.counted, x.2 ≤ s.latestRunawayVersion
  balance : ∀ e∈s.events, ∀ q, s.counted.count (q, e.version)
    +(if e.version=s.latestRunawayVersion ∧ (s.procs q).owes=true then 1 else 0)
      =if q∈e.active then 1 else 0
  begun : ∀ e∈s.events, e.version=s.latestRunawayVersion → ∀ q,
    (s.procs q).beginCleanup=s.latestRunawayVersion → q∈e.active

structure SegmentInv (st : Stage) (s : Segment) : Prop where
  procs : ∀ p, ProcessOk s.latestRunawayVersion s.currentVersion (st.flags (s.procs p).session)
    (s.procs p)
  inside : ∀ p, (s.procs p).attached=true → p<s.nProcs
  versions : 0 ≤ s.latestRunawayVersion ∧ s.latestRunawayVersion<s.currentVersion
  active : ∀ k, (s.sessions k).activeProcessCount=s.nActive k
  pinned : ∀ k, (s.sessions k).pinCount=s.nPinned k
  stage : StageOk st s
  log : LogOk s

structure SameShared (s t : Segment) : Prop where
  nProcs : t.nProcs=s.nProcs
  currentVersion : t.currentVersion=s.currentVersion
  latestRunawayVersion : t.latestRunawayVersion=s.latestRunawayVersion
  events : t.events=s.events
  counted : t.counted=s.counted

section update

variable {pr : Process}

/-- What a step of one process has to show, if it moves the event to another stage. -/
theorem SegmentInv.withStage (h : SegmentInv st s) (hp : p<s.nProcs) (hsame : SameShared s t)
    (hps : t.procs=update s.procs p pr) (howes : pr.owes=(s.procs p).owes)
    (hbeg : pr.beginCleanup=s.latestRunawayVersion →
      (s.procs p).beginCleanup=s.latestRunawayVersion ∨ pr.owes=true ∨ s.latestRunawayVersion=0)
    (hpin : ∀ k, (t.sessions k).pinCount
      +(((s.procs p).attached && decide ((s.procs p).session=k)).toNat : Int)
        =(s.sessions k).pinCount+((pr.attached && decide (pr.session=k)).toNat : Int))
    (hactive : ∀ k, (t.sessions k).activeProcessCount
      +(((s.procs p).isProcessActive && decide ((s.procs p).session=k)).toNat : Int)
        =(s.sessions k).activeProcessCount
          +((pr.isProcessActive && decide (pr.session=k)).toNat : Int))
    (hflags : ∀ k, st'.flags k → st.flags k)
    (hok : ProcessOk s.latestRunawayVersion s.currentVersion (st'.flags pr.session) pr)
    (hstg : StageOk st' t) : SegmentInv st' t := by
  have hself : t.procs p=pr := by rw [hps,update_self]
  have hne : ∀ q, q≠p → t.procs q=s.procs q := by
    intro q hq
    rw [hps,update_of_ne hq]
  refine ⟨?procs,?inside,?versions,?active,?pinned,hstg,?log⟩
  case procs =>
    intro q
    rw [hsame.latestRunawayVersion,hsame.currentVersion]
    by_cases hq : q=p
    · rw [hq,hself]
      exact hok
    · rw [hne q hq]
      exact { h.procs q with skipped := fun hf => (h.procs q).skipped (hflags _ hf) }
  case inside =>
    intro q hq
    rw [hsame.nProcs]
    by_cases hqp : q=p
    · rw [hqp]
      exact hp
    · rw [hne q hqp] at hq
      exact h.inside q hq
  case versions =>
    rw [hsame.latestRunawayVersion,hsame.currentVersion]
    exact h.versions
  case active =>
    intro k
    have htally := tally_update hp s.procs pr fun pr => pr.isProcessActive && decide (pr.session=k)
    have hold := h.active k
    have hdelta := hactive k
    rw [nActive,hsame.nProcs,hps]
    rw [nActive] at hold
    omega
  case pinned =>
    intro k
    have htally := tally_update hp s.procs pr fun pr => pr.attached && decide (pr.session=k)
    have hold := h.pinned k
    have hdelta := hpin k
    rw [nPinned,hsame.nProcs,hps]
    rw [nPinned] at hold
    omega
  case log =>
    have howes' : ∀ q, (t.procs q).owes=(s.procs q).owes := by
      intro q
      by_cases hq : q=p
      · rw [hq,hself,howes]
      · rw [hne q hq]
    refine ⟨?version,?counted,?balance,?begun⟩
    case version =>
      rw [hsame.events,hsame.latestRunawayVersion]
      exact h.log.version_le
    case counted =>
      rw [hsame.counted,hsame.latestRunawayVersion]
      exact h.log.counted_le
    case balance =>
      intro e he q
      rw [hsame.events] at he
      rw [hsame.counted,hsame.latestRunawayVersion,howes' q]
      exact h.log.balance e he q
    case begun =>
      intro e he hlat q hq
      rw [hsame.events] at he
      rw [hsame.latestRunawayVersion] at hlat hq
      by_cases hqp : q=p
      · subst hqp
        rw [hself] at hq
        rcases hbeg hq with hold | howes'' | hzero
        · exact h.log.begun e he hlat q hold
        · -- a process that owes was active at the event
          have hbal := h.log.balance e he q
          rw [howes] at howes''
          rw [if_pos ⟨hlat,howes''⟩] at hbal
          by_contra hout
          rw [if_neg hout] at hbal
          omega
        · have hpos := (h.log.version_le e he).1
          omega
      · rw [hne q hqp] at hq
        exact h.log.begun e he hlat q hq

theorem StageOk.keep (h : StageOk st s) (hsame : SameShared s t)
    (hps : t.procs=update s.procs p pr)
    (hses : pr.owes=true → pr.session=(s.procs p).session) (howes : pr.owes=(s.procs p).owes)
    (hdet : t.isRunawayDetector=s.isRunawayDetector)
    (hss : ∀ k, (t.sessions k).runawayStatus=(s.sessions k).runawayStatus ∧
      (t.sessions k).cleanupCountdown=(s.sessions k).cleanupCountdown)
    (hspec : pr.special p=(s.procs p).special p)
    (hold : (s.procs p).phase≠.resetting) (hnew : pr.phase≠.resetting) : StageOk st t := by
  have hself : t.procs p=pr := by rw [hps,update_self]
  have hne : ∀ q, q≠p → t.procs q=s.procs q := by
    intro q hq
    rw [hps,update_of_ne hq]
  have howing : t.nOwing=s.nOwing := by
    rw [nOwing,hsame.nProcs,hps]
    exact tally_update_same s.procs pr _ howes
  have hspec' : ∀ q, (t.procs q).special q=(s.procs q).special q := by
    intro q
    by_cases hq : q=p
    · rw [hq,hself,hspec]
    · rw [hne q hq]
  refine ⟨?detector,?flagged,?countdown,?special,?held,?owing,?awaited,?resetting⟩
  case detector => rw [hdet,h.detector]
  case flagged =>
    intro k
    rw [(hss k).1]
    exact h.flagged k
  case countdown =>
    intro k
    rw [(hss k).2,howing]
    exact h.countdown k
  case special =>
    intro q σ hq
    rw [hspec' q] at hq
    exact h.special q σ hq
  case held =>
    intro q hq
    rw [hspec' q]
    exact h.held q hq
  case owing =>
    intro q hq
    by_cases hqp : q=p
    · subst hqp
      rw [hself] at hq
      rw [hself,hses hq]
      exact h.owing q (howes ▸ hq)
    · rw [hne q hqp] at hq ⊢
      exact h.owing q hq
  case awaited =>
    intro k hk
    rw [howing]
    apply (h.awaited k hk).imp_right
    intro hex
    obtain ⟨q,hq,hqk⟩ := hex
    have hqp : q≠p := by
      intro hqp
      exact hold (hqp ▸ hq)
    exact ⟨q,by rw [hne q hqp]; exact ⟨hq,hqk⟩⟩
  case resetting =>
    intro q hq hst
    have hqp : q≠p := by
      intro hqp
      rw [hqp,hself] at hq
      exact hnew hq
    rw [hne q hqp] at hq hst ⊢
    rw [hsame.latestRunawayVersion]
    exact h.resetting q hq hst

/-- What it has to show, if it stays within the stage. -/
theorem SegmentInv.within (h : SegmentInv st s) (hp : p<s.nProcs) (hsame : SameShared s t)
    (hps : t.procs=update s.procs p pr) (hdet : t.isRunawayDetector=s.isRunawayDetector)
    (hses : pr.session=(s.procs p).session) (howes : pr.owes=(s.procs p).owes)
    (hatt : pr.attached=(s.procs p).attached) (hspec : pr.special p=(s.procs p).special p)
    (hold : (s.procs p).phase≠.resetting) (hnew : pr.phase≠.resetting)
    (hbeg : pr.beginCleanup=s.latestRunawayVersion →
      (s.procs p).beginCleanup=s.latestRunawayVersion ∨ pr.owes=true)
    (hss : ∀ k, (t.sessions k).runawayStatus=(s.sessions k).runawayStatus ∧
      (t.sessions k).cleanupCountdown=(s.sessions k).cleanupCountdown ∧
      (t.sessions k).pinCount=(s.sessions k).pinCount ∧ (t.sessions k).activeProcessCount
        +(((s.procs p).isProcessActive && decide ((s.procs p).session=k)).toNat : Int)
          =(s.sessions k).activeProcessCount
            +((pr.isProcessActive && decide ((s.procs p).session=k)).toNat : Int))
    (hok : ProcessOk s.latestRunawayVersion s.currentVersion (st.flags (s.procs p).session) pr) :
    SegmentInv st t := by
  have hstg : StageOk st t := by
    apply h.stage.keep hsame hps (fun _ => hses) howes hdet _ hspec hold hnew
    exact fun k => ⟨(hss k).1,(hss k).2.1⟩
  rw [← hses] at hok
  refine h.withStage hp hsame hps howes (fun hb => (hbeg hb).imp_right .inl) (fun k => ?_)
    (fun k => ?_) (fun _ hk => hk) hok hstg
  · rw [(hss k).2.2.1,hatt,hses]
  · rw [hses]
    exact (hss k).2.2.2

end update

section process

variable {pr : Process}

section

variable (h : ProcessOk latest current flagged pr)
include h

theorem ProcessOk.attached (hbusy : pr.isProcessActive=true ∨ pr.owes=true) : pr.attached=true := by
  by_contra hout
  have hph : pr.phase=.fresh ∨ pr.phase=.gone := by
    cases hx : pr.phase <;> simp [Process.attached,hx] at hout ⊢
  have hnot := h.outside (hph.imp_right .inr)
  simp [hnot.1,hnot.2] at hbusy

theorem ProcessOk.rephase (hold : pr.phase.plain=true) (hnew : x.plain=true)
    (hchk : pr.phase=.checking → pr.owes=true → pr.beginCleanup≠latest →
      pr.isProcessActive=true) (hwin : x=.unflagging ∨ x=.enabling → pr.beginCleanup=latest) :
    ProcessOk latest current flagged { pr with phase := x } := by
  refine { h with
    pending := ?pending, ending := ?ending, counting := ?counting, outside := ?outside
    starting := ?starting, reactivating := ?reactivating, winner := hwin }
  case pending =>
    intro howes hbeg
    have hpend := h.pending howes hbeg
    refine ⟨hpend.1,.inl ?_⟩
    obtain hactive | hph := hpend.2
    · exact hactive
    · exact hchk hph.1 howes hbeg
  case ending =>
    intro howes hend
    cases h.ending howes hend with
    | inl hph | inr hph => simp [hph,plain] at hold
  case counting =>
    intro hx
    cases hx with
    | inl hx | inr hx => simp only at hx; simp [hx,plain] at hnew
  case outside =>
    intro hx
    simp only at hx
    rcases hx with hx | hx | hx <;> simp [hx,plain] at hnew
  case starting | reactivating =>
    intro hx
    simp only at hx
    simp [hx,plain] at hnew

/-- The check of the code is right about who owes a cleanup. -/
theorem ProcessOk.shouldStart_iff (hsta : status≠.notRunaway ↔ flagged)
    (howes : pr.owes=true → flagged) :
    pr.shouldStartRunawayCleanup status latest latest latest=true ↔
      pr.owes=true ∧ pr.beginCleanup≠latest := by
  simp only [shouldStartRunawayCleanup,Bool.and_eq_true,Bool.or_eq_true,
    Bool.not_eq_true',decide_eq_true_eq,ne_eq]
  constructor
  · rintro ⟨⟨hflg,hbeg⟩,hvers⟩
    refine ⟨?_,hbeg⟩
    by_contra hnot
    have hactivated : pr.activationVersion<latest := by
      obtain hactive | hidle := hvers
      · exact hactive.2
      · exact hidle.2
    have hskip := h.skipped (hsta.mp hflg) (by simpa using hnot) hbeg hactivated
    obtain hactive | hidle := hvers
    · simp [hskip.1] at hactive
    · omega
  · rintro ⟨howe,hbeg⟩
    refine ⟨⟨hsta.mpr (howes howe),hbeg⟩,?_⟩
    have hpend := h.pending howe hbeg
    cases hactive : pr.isProcessActive with
    | true => exact .inl ⟨rfl,hpend.1⟩
    | false =>
      right
      obtain hyes | hlater := hpend.2
      · simp [hactive] at hyes
      · exact ⟨⟨rfl,hlater.2⟩,hpend.1⟩

end

theorem Process.runawayCleanupDone_frame (pr : Process) (latest : Int) (ignored : Bool) (p : Nat) :
    (pr.runawayCleanupDone latest ignored).session=pr.session ∧
      (pr.runawayCleanupDone latest ignored).owes=pr.owes ∧
      (pr.runawayCleanupDone latest ignored).isProcessActive=pr.isProcessActive ∧
      (pr.runawayCleanupDone latest ignored).beginCleanup=pr.beginCleanup ∧
      (pr.runawayCleanupDone latest ignored).attached=true ∧
      (pr.runawayCleanupDone latest ignored).special p=none ∧
      (pr.runawayCleanupDone latest ignored).phase≠.resetting := by
  rw [Process.runawayCleanupDone]
  split
  · simp [Process.attached,special]
  · cases !pr.isProcessActive && !ignored <;> simp [Process.attached,special]

section

variable (h : ProcessOk latest current flagged pr)
include h

theorem ProcessOk.runawayCleanupDone (hph : pr.phase.plain=true)
    (hchk : pr.phase=.checking → pr.owes=true → pr.beginCleanup=latest)
    (hexit : pr.exiting=true → ignored=true) :
    ProcessOk latest current flagged (pr.runawayCleanupDone latest ignored) := by
  rw [Process.runawayCleanupDone]
  split
  · apply h.rephase hph rfl
    case hchk =>
      intro hx howes hbeg
      exact absurd (hchk hx howes) hbeg
    case hwin => simp
  · next hgo =>
    simp only [not_or,not_not] at hgo
    have howes : pr.owes=true := h.started hgo.1 (hgo.1 ▸ hgo.2)
    refine { h with
      end_le := Int.le_refl _, finished := fun _ => rfl, started := absurd
      pending := fun _ hb => absurd hgo.1 hb, ending := ?ending
      counting := fun _ => ⟨howes,hgo.1,hgo.1⟩, outside := ?outside, starting := ?starting
      reactivating := ?reactivating, exiting := fun hx => ⟨(h.exiting hx).1,rfl⟩
      winner := fun _ => hgo.1 }
    case ending =>
      intro _ _
      split <;> simp
    case outside | starting =>
      split <;> simp
    case reactivating =>
      split
      · next hidle =>
        intro _
        simp only [Bool.and_eq_true,Bool.not_eq_true'] at hidle
        refine ⟨hidle.1,?_⟩
        by_contra hx
        simp [hexit (by simpa using hx)] at hidle
      · simp

/-- A cleanup is begun with an error, ignored, or not due. -/
theorem ProcessOk.startCleanup_cases (hsta : status≠.notRunaway ↔ flagged)
    (howes : pr.owes=true → flagged)
    (hpr : pr.startCleanup (pr.shouldStartRunawayCleanup status latest latest latest) status latest
      q=pr') : (pr.owes=true ∧ pr.beginCleanup≠latest ∧ pr.exiting=false ∧
        pr'={ pr with beginCleanup := latest, phase := .thrown }) ∨
    (pr.owes=true ∧ pr.beginCleanup≠latest ∧
        pr'={ pr with beginCleanup := latest, endCleanup := latest, phase := .counting }) ∨
    ((pr.owes=true → pr.beginCleanup=latest) ∧ pr'={ pr with phase := .ready }) := by
  subst hpr
  have hiff := h.shouldStart_iff hsta howes
  rw [startCleanup]
  split
  · next hstart =>
    obtain ⟨howe,hbeg⟩ := hiff.mp hstart
    have hend : pr.endCleanup≠latest := by
      rw [h.finished hbeg]
      exact hbeg
    split
    · next hcan =>
      left
      refine ⟨howe,hbeg,?_,rfl⟩
      simp only [shouldCancelQuery,Bool.and_eq_true,Bool.not_eq_true'] at hcan
      exact hcan.1.1.1.1
    · right; left
      refine ⟨howe,hbeg,?_⟩
      rw [Process.runawayCleanupDone,if_neg (by simpa using hend)]
      simp
  · next hstart =>
    right; right
    refine ⟨?_,rfl⟩
    intro howe
    by_contra hbeg
    exact hstart (hiff.mpr ⟨howe,hbeg⟩)

theorem ProcessOk.begins (howes : pr.owes=true)
    (hbeg : pr.beginCleanup≠latest) (hexit : pr.exiting=false) :
    ProcessOk latest current flagged { pr with beginCleanup := latest, phase := .thrown } := by
  have hend := h.finished hbeg
  have hle := h.begin_le
  refine { h with
    begin_le := Int.le_refl _, end_le := ?_, finished := absurd rfl
    started := fun _ _ => howes, pending := fun _ hb => absurd rfl hb, ending := ?_
    counting := by simp, skipped := fun _ _ hb => absurd rfl hb, outside := by simp
    starting := by simp, reactivating := by simp, exiting := ?_, winner := by simp }
  · dsimp only
    omega
  · intro _ he
    exact absurd (hend.symm.trans he) hbeg
  · simp [hexit]

theorem ProcessOk.ignores (howes : pr.owes=true) : ProcessOk latest current flagged
      { pr with beginCleanup := latest, endCleanup := latest, phase := .counting } where
  begin_le := Int.le_refl _
  end_le := Int.le_refl _
  activation_le := h.activation_le
  deactivation_le := h.deactivation_le
  finished _ := rfl
  started _ he := absurd rfl he
  pending _ hb := absurd rfl hb
  ending _ _ := .inr rfl
  counting _ := ⟨howes,rfl,rfl⟩
  skipped _ _ hb := absurd rfl hb
  outside := by simp
  starting := by simp
  reactivating := by simp
  exiting hx := ⟨(h.exiting hx).1,rfl⟩
  winner _ := rfl

theorem ProcessOk.activates (hvers : latest<current)
    (hstd : pr.owes=true → pr.beginCleanup=latest) (hexit : pr.exiting=false)
    (hnext : (next=.ready ∧ pr.phase≠.reactivating ∧ pr.phase≠.counting) ∨
      (next=.counting ∧ pr.phase=.reactivating)) : ProcessOk latest current flagged
      { pr with activationVersion := current, isProcessActive := true, phase := next } := by
  refine { h with
    activation_le := Int.le_refl _, pending := ?pending, ending := ?ending, counting := ?counting
    skipped := ?skipped, outside := ?outside, starting := ?starting
    reactivating := ?reactivating, exiting := ?exiting, winner := ?winner }
  case pending =>
    intro howes hb
    exact absurd (hstd howes) hb
  case ending =>
    intro howes he
    obtain hrdy | hcnt := hnext
    · obtain hx | hx := h.ending howes he
      · exact absurd hx hrdy.2.1
      · exact absurd hx hrdy.2.2
    · exact .inr hcnt.1
  case counting =>
    intro hx
    obtain hrdy | hcnt := hnext
    · simp [hrdy.1] at hx
    · exact h.counting (.inl hcnt.2)
  case skipped =>
    intro _ _ _ hact
    dsimp only at hact
    omega
  case outside | reactivating | winner =>
    intro hx
    obtain hrdy | hcnt := hnext
    · simp [hrdy.1] at hx
    · simp [hcnt.1] at hx
  case starting =>
    intro hx
    exact hexit
  case exiting => simp [hexit]

theorem ProcessOk.deactivates
    (hvers : latest<current) {exiting : Bool} (hactive : pr.isProcessActive=true)
    (hph : pr.phase=.ready ∨ pr.phase=.thrown)
    (hexit : exiting=true → pr.endCleanup=pr.beginCleanup) : ProcessOk latest current flagged
      { pr with
        deactivationVersion := current
        isProcessActive := false
        exiting := exiting
        phase := .checking } := by
  refine { h with
    deactivation_le := Int.le_refl _, pending := ?pending, ending := ?ending
    counting := by simp, skipped := ?skipped, outside := by simp, starting := by simp
    reactivating := by simp, exiting := fun hx => ⟨rfl,hexit hx⟩, winner := by simp }
  case pending =>
    intro howes hb
    exact ⟨(h.pending howes hb).1,.inr ⟨rfl,hvers⟩⟩
  case ending =>
    intro howes he
    have hcnt := h.ending howes he
    cases hph with
    | inl hx | inr hx => simp [hx] at hcnt
  case skipped =>
    intro hf howes hb hact
    have hidle := (h.skipped hf howes hb hact).1
    rw [hactive] at hidle
    cases hidle

end

end process

end WarehousePG.Runaway
