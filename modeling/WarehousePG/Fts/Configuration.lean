import WarehousePG.Framework.Transition
import Mathlib.Data.List.Nodup

namespace WarehousePG.Fts

inductive Role where
  | primary
  | mirror
  deriving DecidableEq

/-- A row of gp_segment_configuration; `alive` is the status and `inSync` the mode. -/
structure SegmentConfig where
  dbid : Nat
  segindex : Nat
  role : Role
  alive : Bool
  inSync : Bool
  deriving DecidableEq

inductive FtsMessageState where
  | probeSegment
  | syncrepOffSegment
  | promoteSegment
  | probeRetryWait
  | syncrepOffRetryWait
  | promoteRetryWait
  | probeSuccess
  | syncrepOffSuccess
  | promoteSuccess
  | probeFailed
  | syncrepOffFailed
  | promoteFailed
  | responseProcessed
  deriving DecidableEq

inductive PMRestartState where
  | notInRestart
  | inResetting
  | inRecoveryMakingProgress
  | inRecoveryNotMakingProgress
  deriving DecidableEq

structure FtsResult where
  isPrimaryAlive : Bool := false
  isMirrorAlive : Bool := false
  isInSync : Bool := false
  isSyncRepEnabled : Bool := false
  isRoleMirror : Bool := false
  retryRequested : Bool := false
  deriving DecidableEq

structure Conn where
  ok : Bool := false
  idle : Bool := true
  deriving DecidableEq

structure PollBits where
  pollIn : Bool := false
  pollOut : Bool := false
  other : Bool := false
  deriving DecidableEq

/-- `events & (POLLIN | POLLOUT)`. -/
def PollBits.inOrOut (b : PollBits) : Bool := b.pollIn || b.pollOut

structure FtsSegmentInfo where
  primary : SegmentConfig
  mirror : SegmentConfig
  result : FtsResult := {}
  state : FtsMessageState := .probeSegment
  pollEvents : PollBits := {}
  pollRevents : PollBits := {}
  startTime : Int := 0
  retryStartTime : Int := 0
  conn : Option Conn := none
  retryCount : Nat := 0
  xlogrecptr : Nat := 0
  restartState : PMRestartState := .notInRestart
  deriving DecidableEq

structure Settings where
  probeTimeout : Int
  probeRetries : Nat

structure FtsMessage where
  state : FtsMessageState
  dbid : Nat
  segindex : Nat
  deriving DecidableEq

namespace FtsMessageState

def isSegment : FtsMessageState → Bool
  | .probeSegment | .syncrepOffSegment | .promoteSegment => true
  | _ => false

def isSuccess : FtsMessageState → Bool
  | .probeSuccess | .syncrepOffSuccess | .promoteSuccess => true
  | _ => false

def isFailed : FtsMessageState → Bool
  | .probeFailed | .syncrepOffFailed | .promoteFailed => true
  | _ => false

/-- `nextSuccessState`; the states the source refuses are left alone. -/
def nextSuccess : FtsMessageState → FtsMessageState
  | .probeSegment => .probeSuccess
  | .syncrepOffSegment => .syncrepOffSuccess
  | .promoteSegment => .promoteSuccess
  | s => s

/-- `nextFailedState`; the states the source refuses are left alone. -/
def nextFailed : FtsMessageState → FtsMessageState
  | .probeSegment | .probeRetryWait => .probeFailed
  | .syncrepOffSegment | .syncrepOffRetryWait => .syncrepOffFailed
  | .promoteSegment | .promoteRetryWait => .promoteFailed
  | s => s

end FtsMessageState

inductive ConnectError where
  | plain
  | inReset
  | inRecovery (replayed : Option Nat)
  deriving DecidableEq

inductive ConnectPoll where
  | ok
  | reading
  | writing
  | failed (error : ConnectError)
  deriving DecidableEq

inductive Response where
  | error
  | tuple (result : FtsResult)
  deriving DecidableEq

/-- What libpq and the network do for one pair in one round. -/
structure PairEnv where
  connectStarts : Bool := true
  connectPoll : ConnectPoll := .ok
  revents : PollBits := {}
  sends : Bool := true
  consumes : Bool := true
  busy : Bool := false
  response : Response := .error
  deriving DecidableEq

namespace FtsSegmentInfo

/-- `ftsConnectStart`, and the failed state if it returns false. -/
def connectStart (f : FtsSegmentInfo) (env : PairEnv) (now : Int) : FtsSegmentInfo :=
  let f := { f with conn := some {} }
  if env.connectStarts then
    { f with pollEvents := { f.pollEvents with pollOut := true }, startTime := now }
  else { f with state := f.state.nextFailed }

/-- `checkIfFailedDueToNormalRestart`. -/
def checkRestart (f : FtsSegmentInfo) : ConnectError → FtsSegmentInfo
  | .inRecovery (some tmpptr) =>
    if tmpptr≤f.xlogrecptr then { f with restartState := .inRecoveryNotMakingProgress }
    else { f with restartState := .inRecoveryMakingProgress, xlogrecptr := tmpptr }
  | .inReset => { f with restartState := .inResetting }
  | .inRecovery none | .plain => f

def connect (f : FtsSegmentInfo) (env : PairEnv) (now : Int) : FtsSegmentInfo :=
  if f.conn.any (·.ok) then f
  else if f.state.isSegment then
    let f := { f with restartState := .notInRestart }
    match f.conn with
    | none => f.connectStart env now
    | some c =>
      if f.pollRevents.inOrOut then
        match env.connectPoll with
        | .ok => { f with conn := some { c with ok := true }, pollEvents := { pollOut := true } }
        | .reading => { f with pollEvents := { f.pollEvents with pollIn := true } }
        | .writing => { f with pollEvents := { f.pollEvents with pollOut := true } }
        | .failed error => checkRestart { f with state := f.state.nextFailed } error
      else f
  else f

def checkTimeout (cfg : Settings) (f : FtsSegmentInfo) (now : Int) : FtsSegmentInfo :=
  if f.state.isSuccess=false ∧ cfg.probeTimeout<now-f.startTime then
    { f with state := f.state.nextFailed }
  else f

def poll (cfg : Settings) (f : FtsSegmentInfo) (env : PairEnv) (now : Int) : FtsSegmentInfo :=
  if f.pollEvents.inOrOut then
    let r := env.revents
    let f := { f with pollRevents := r }
    let f :=
      if (r.pollIn && f.pollEvents.pollIn) || (r.pollOut && f.pollEvents.pollOut) then
        { f with pollEvents := {} }
      else if r.inOrOut || r.other then { f with state := f.state.nextFailed }
      else f
    f.checkTimeout cfg now
  else f

/-- `ftsSend` for one pair, with the message sent. -/
def send (f : FtsSegmentInfo) (env : PairEnv) : FtsSegmentInfo × Option FtsMessage :=
  match f.conn with
  | none => (f, none)
  | some c =>
    if f.state.isSegment ∧ c.ok ∧ c.idle ∧ f.pollRevents.pollOut then
      if env.sends then
        ({ f with conn := some { c with idle := false }, pollEvents := { pollIn := true } },
          some { state := f.state, dbid := f.primary.dbid, segindex := f.primary.segindex })
      else ({ f with state := f.state.nextFailed }, none)
    else (f, none)

def receive (f : FtsSegmentInfo) (env : PairEnv) : FtsSegmentInfo :=
  match f.conn with
  | none => f
  | some c =>
    if f.state.isSegment ∧ c.ok ∧ f.pollRevents.pollIn then
      if env.consumes=false then { f with state := f.state.nextFailed }
      else if env.busy then f
      else
        match env.response with
        | .error => { f with state := f.state.nextFailed }
        | .tuple result =>
          { f with
            result := { result with isPrimaryAlive := true }
            state := f.state.nextSuccess }
    else f

def retryForFtsFailed (cfg : Settings) (f : FtsSegmentInfo) (now : Int) : FtsSegmentInfo :=
  if f.retryCount=cfg.probeRetries then f
  else
    { f with
      retryCount := f.retryCount+1
      state :=
        match f.state with
        | .probeSuccess | .probeFailed => .probeRetryWait
        | .syncrepOffFailed => .syncrepOffRetryWait
        | _ => .promoteRetryWait
      retryStartTime := now
      conn := none
      pollEvents := {}
      pollRevents := {}
      result := {} }

def processRetry (cfg : Settings) (f : FtsSegmentInfo) (now : Int) : FtsSegmentInfo :=
  match f.state with
  | .probeSuccess =>
    if f.result.retryRequested && f.mirror.alive then f.retryForFtsFailed cfg now else f
  | .probeFailed | .syncrepOffFailed | .promoteFailed => f.retryForFtsFailed cfg now
  | .probeRetryWait =>
    if now-f.retryStartTime<1 then f else { f with state := .probeSegment }
  | .syncrepOffRetryWait =>
    if now-f.retryStartTime<1 then f else { f with state := .syncrepOffSegment }
  | .promoteRetryWait =>
    if now-f.retryStartTime<1 then f else { f with state := .promoteSegment }
  | _ => f

end FtsSegmentInfo

def probeWalRepUpdateConfig (catalog : List SegmentConfig) (dbid : Nat) (role : Role)
    (isSegmentAlive isInSync : Bool) : List SegmentConfig :=
  catalog.map fun r =>
    if r.dbid=dbid then { r with role := role, alive := isSegmentAlive, inSync := isInSync } else r

/-- `updateConfiguration`: the catalog after its transaction. -/
def updateConfiguration (catalog : List SegmentConfig) (primary mirror : SegmentConfig)
    (newPrimaryRole newMirrorRole : Role) (isInSync isPrimaryAlive isMirrorAlive : Bool) :
    List SegmentConfig :=
  let modeChanges := isInSync != primary.inSync
  let updatePrimary := isPrimaryAlive != primary.alive || modeChanges
  let updateMirror := isMirrorAlive != mirror.alive || modeChanges
  let catalog :=
    if updatePrimary then
      probeWalRepUpdateConfig catalog primary.dbid newPrimaryRole isPrimaryAlive isInSync
    else catalog
  if updateMirror then
    probeWalRepUpdateConfig catalog mirror.dbid newMirrorRole isMirrorAlive isInSync
  else catalog

namespace FtsSegmentInfo

def close (f : FtsSegmentInfo) : FtsSegmentInfo :=
  { f with result := {}, conn := none, pollEvents := {}, pollRevents := {}, retryCount := 0 }

def processResponse (f : FtsSegmentInfo) (catalog : List SegmentConfig) :
    FtsSegmentInfo × List SegmentConfig :=
  let isPrimaryAlive := f.result.isPrimaryAlive
  let isMirrorAlive := if isPrimaryAlive then f.result.isMirrorAlive else f.mirror.alive
  let isInSync := if isPrimaryAlive then f.result.isInSync else false
  match f.state with
  | .probeSuccess =>
    if f.result.isSyncRepEnabled ∧ isMirrorAlive=false then
      if f.result.retryRequested then (close { f with state := .responseProcessed }, catalog)
      else
        (close { f with state := .syncrepOffSegment },
          updateConfiguration catalog f.primary f.mirror .primary .mirror isInSync isPrimaryAlive
            isMirrorAlive)
    else if f.result.isRoleMirror then (close { f with state := .promoteSegment }, catalog)
    else
      (close { f with state := .responseProcessed },
        updateConfiguration catalog f.primary f.mirror .primary .mirror isInSync isPrimaryAlive
          isMirrorAlive)
  | .probeFailed =>
    if f.restartState=.inResetting ∨ f.restartState=.inRecoveryMakingProgress then
      (close { f with state := .responseProcessed }, catalog)
    else if f.mirror.inSync then
      (close { f with state := .promoteSegment, primary := f.mirror, mirror := f.primary },
        updateConfiguration catalog f.primary f.mirror .mirror .primary isInSync isPrimaryAlive
          isMirrorAlive)
    else (close { f with state := .responseProcessed }, catalog)
  | .syncrepOffFailed | .promoteFailed | .promoteSuccess | .syncrepOffSuccess =>
    (close { f with state := .responseProcessed }, catalog)
  | _ => (f, catalog)

end FtsSegmentInfo

def ftsGetPeerSegment (cdbs : List SegmentConfig) (content dbid : Nat) : Option SegmentConfig :=
  cdbs.find? fun r => r.segindex=content ∧ r.dbid≠dbid

def ftsWalRepInitProbeContext (cdbs : List SegmentConfig) : List FtsSegmentInfo :=
  cdbs.filterMap fun p =>
    if p.role=.primary then
      (ftsGetPeerSegment cdbs p.segindex p.dbid).map fun m => { primary := p, mirror := m }
    else none

/-- The next call in the loop of `FtsWalRepMessageSegments`; `idle` is outside of it, and `respond k`
is at pair `k` of `processResponse`. -/
inductive Phase where
  | idle
  | connect
  | poll
  | send
  | receive
  | retry
  | respond (k : Nat)
  deriving DecidableEq

/-- The prober with the committed catalog; `cdbs` is the configuration read at the start of the cycle
and `messages` what the last `ftsSend` has sent. -/
structure Prober where
  catalog : List SegmentConfig
  cdbs : List SegmentConfig := []
  pairs : List FtsSegmentInfo := []
  phase : Phase := .idle
  messages : List FtsMessage := []

/-- A call of the loop, with what libpq and the clock do for each pair; `abort` is an error of the
prober, which then starts anew. -/
inductive Action where
  | start
  | advance (env : Nat → PairEnv) (now : Int)
  | abort

namespace Prober

def allDone (s : Prober) : Bool := s.pairs.all (·.state=.responseProcessed)

def step (cfg : Settings) (s : Prober) : Action → Option Prober
  | .start =>
    match s.phase with
    | .idle =>
      some { s with
        cdbs := s.catalog
        pairs := ftsWalRepInitProbeContext s.catalog
        phase := .connect
        messages := [] }
    | _ => none
  | .abort => some { s with pairs := [], phase := .idle, messages := [] }
  | .advance env now =>
    match s.phase with
    | .idle => none
    | .connect =>
      if s.allDone then some { s with phase := .idle, messages := [] }
      else some { s with pairs := s.pairs.mapIdx fun k f => f.connect (env k) now, phase := .poll }
    | .poll => some { s with pairs := s.pairs.mapIdx fun k f => f.poll cfg (env k) now, phase := .send }
    | .send =>
      let sent := s.pairs.mapIdx fun k f => f.send (env k)
      some { s with pairs := sent.map Prod.fst, messages := sent.filterMap Prod.snd, phase := .receive }
    | .receive =>
      some { s with pairs := s.pairs.mapIdx fun k f => f.receive (env k), phase := .retry, messages := [] }
    | .retry =>
      some { s with pairs := s.pairs.map fun f => f.processRetry cfg now, phase := .respond 0 }
    | .respond k =>
      match s.pairs[k]? with
      | none => some { s with phase := .connect }
      | some f =>
        let (f, catalog) := f.processResponse s.catalog
        some { s with pairs := s.pairs.set k f, catalog := catalog, phase := .respond (k+1) }

end Prober

open List FtsMessageState

variable {rows : List SegmentConfig}

structure GoodPair (p m : SegmentConfig) : Prop where
  primaryRole : p.role=.primary
  mirrorRole : m.role=.mirror
  content : m.segindex=p.segindex
  alive : p.alive
  mode : p.inSync=m.inSync
  synced : m.inSync → m.alive

structure PairRows (rows : List SegmentConfig) (p m : SegmentConfig) : Prop
    extends GoodPair p m where
  primaryMem : p∈rows
  mirrorMem : m∈rows
  only : ∀ r∈rows, r.segindex=p.segindex → r=p ∨ r=m

/-- A content with a second row or with a row of the mirror role. -/
def HasMirror (rows : List SegmentConfig) (content : Nat) : Prop :=
  ∃ r∈rows, r.segindex=content ∧ (r.role=.mirror ∨ ∃ q∈rows, q.segindex=content ∧ q.dbid≠r.dbid)

/-- Every content with a mirror has exactly one primary and one mirror, the primary is up, both have
the same mode, and a mirror in sync is up. -/
structure WellFormed (rows : List SegmentConfig) : Prop where
  dbids : (rows.map (·.dbid)).Nodup
  pairs : ∀ content, HasMirror rows content → ∃ p m, PairRows rows p m ∧ p.segindex=content

def replaceRows (rows : List SegmentConfig) (p m p' m' : SegmentConfig) : List SegmentConfig :=
  rows.map fun r => if r.dbid=p.dbid then p' else if r.dbid=m.dbid then m' else r

theorem WellFormed.eq_of_dbid (h : WellFormed rows) (ha : a∈rows)
    (hb : b∈rows) (hdbid : a.dbid=b.dbid) : a=b :=
  inj_on_of_nodup_map h.dbids ha hb hdbid

namespace PairRows

theorem dbid_ne (h : PairRows rows p m) (hw : WellFormed rows) : p.dbid≠m.dbid := by
  intro heq
  have hsame := hw.eq_of_dbid h.primaryMem h.mirrorMem heq
  have hrole := h.primaryRole
  rw [hsame,h.mirrorRole] at hrole
  cases hrole

/-- The rows of the pair are replaced, and no other row. -/
theorem updateConfiguration_eq (h : PairRows rows p m) (hw : WellFormed rows)
    (newPrimaryRole newMirrorRole : Role) (isInSync isPrimaryAlive isMirrorAlive : Bool) :
    updateConfiguration rows p m newPrimaryRole newMirrorRole isInSync isPrimaryAlive isMirrorAlive
      =replaceRows rows p m (if isPrimaryAlive != p.alive || isInSync != p.inSync then
          { p with role := newPrimaryRole, alive := isPrimaryAlive, inSync := isInSync } else p)
        (if isMirrorAlive != m.alive || isInSync != p.inSync then
          { m with role := newMirrorRole, alive := isMirrorAlive, inSync := isInSync } else m) := by
  have hne := h.dbid_ne hw
  have hrow : ∀ r∈rows, r.dbid=p.dbid → r=p := fun r hr => hw.eq_of_dbid hr h.primaryMem
  have hrow' : ∀ r∈rows, r.dbid=m.dbid → r=m := fun r hr => hw.eq_of_dbid hr h.mirrorMem
  have hmap : ∀ (b : Bool) (l : List SegmentConfig) (dbid : Nat) (role : Role) (alive : Bool),
      (if b then probeWalRepUpdateConfig l dbid role alive isInSync else l)
        =l.map fun r => if b ∧ r.dbid=dbid then
          { r with role := role, alive := alive, inSync := isInSync } else r := by
    intro b l dbid role alive
    cases b with
    | false => simp
    | true => simp [probeWalRepUpdateConfig]
  rw [updateConfiguration,hmap,hmap,map_map]
  apply map_congr_left
  intro r hr
  -- A row is one of the pair, or neither update meets it.
  by_cases hp : r.dbid=p.dbid
  · obtain rfl := hrow r hr hp
    cases isPrimaryAlive != r.alive || isInSync != r.inSync <;> simp [hne]
  · by_cases hm : r.dbid=m.dbid
    · obtain rfl := hrow' r hr hm
      cases isMirrorAlive != r.alive || isInSync != p.inSync <;> simp [hne.symm]
    · simp [hp,hm]

theorem replaceRows_other (hr : r∈rows) (hp : r.dbid≠p.dbid) (hm : r.dbid≠m.dbid) :
    r∈replaceRows rows p m p' m' := by
  apply mem_map.mpr
  exact ⟨r,hr,by simp [hp,hm]⟩

section

variable (h : PairRows rows p m) (hw : WellFormed rows)
include h hw

theorem mem_replaceRows (hr : r∈replaceRows rows p m p' m') :
    r=p' ∨ r=m' ∨ (r∈rows ∧ r.segindex≠p.segindex) := by
  obtain ⟨q,hq,rfl⟩ := mem_map.mp hr
  by_cases hp : q.dbid=p.dbid
  · simp [hp]
  · by_cases hm : q.dbid=m.dbid
    · simp [hm,(h.dbid_ne hw).symm]
    · right; right
      simp only [hp,hm,if_false]
      refine ⟨hq,fun hseg => ?_⟩
      obtain heq | heq := h.only q hq hseg
      · exact hp (by rw [heq])
      · exact hm (by rw [heq])

theorem replace_other (hpseg : p'.segindex=p.segindex) (hmseg : m'.segindex=p.segindex)
    (hot : PairRows rows q n) (hne : q.segindex≠p.segindex) :
    PairRows (replaceRows rows p m p' m') q n := by
  have hkeep : ∀ r∈rows, r.segindex≠p.segindex → r∈replaceRows rows p m p' m' := by
    intro r hr hseg
    apply replaceRows_other hr
    · intro heq
      exact hseg (by rw [hw.eq_of_dbid hr h.primaryMem heq])
    · intro heq
      exact hseg (by rw [hw.eq_of_dbid hr h.mirrorMem heq,h.content])
  refine { hot.toGoodPair with
    primaryMem := hkeep q hot.primaryMem hne
    mirrorMem := hkeep n hot.mirrorMem (by rw [hot.content]; exact hne)
    only := fun r hr hseg => ?_ }
  rcases mem_replaceRows h hw hr with rfl | rfl | ⟨hold,-⟩
  · exact absurd (hseg.symm.trans hpseg) hne
  · exact absurd (hseg.symm.trans hmseg) hne
  · exact hot.only r hold hseg

theorem replace_self (hgood : GoodPair q n) (hseg : q.segindex=p.segindex)
    (hset : (q=p' ∧ n=m') ∨ (q=m' ∧ n=p')) : PairRows (replaceRows rows p m p' m') q n := by
  have hp' : p'∈replaceRows rows p m p' m' := mem_map.mpr ⟨p,h.primaryMem,by simp⟩
  have hm' : m'∈replaceRows rows p m p' m' :=
    mem_map.mpr ⟨m,h.mirrorMem,by simp [(h.dbid_ne hw).symm]⟩
  have honly : ∀ r∈replaceRows rows p m p' m', r.segindex=p.segindex → r=p' ∨ r=m' := by
    intro r hr hsegr
    rcases mem_replaceRows h hw hr with hp | hm | ⟨-,hne⟩
    · exact .inl hp
    · exact .inr hm
    · exact absurd hsegr hne
  rcases hset with ⟨rfl,rfl⟩ | ⟨rfl,rfl⟩
  · exact { hgood with
      primaryMem := hp', mirrorMem := hm', only := fun r hr hs => honly r hr (hs.trans hseg) }
  · exact { hgood with
      primaryMem := hm'
      mirrorMem := hp'
      only := fun r hr hs => (honly r hr (hs.trans hseg)).symm }

end

end PairRows

theorem WellFormed.replace (hw : WellFormed rows) (h : PairRows rows p m)
    (hpid : p'.dbid=p.dbid) (hmid : m'.dbid=m.dbid) (hgood : GoodPair q n)
    (hseg : q.segindex=p.segindex) (hset : (q=p' ∧ n=m') ∨ (q=m' ∧ n=p')) :
    WellFormed (replaceRows rows p m p' m') := by
  have hsegs : p'.segindex=p.segindex ∧ m'.segindex=p.segindex := by
    have hn := hgood.content
    rcases hset with ⟨rfl,rfl⟩ | ⟨rfl,rfl⟩
    · exact ⟨hseg,hn.trans hseg⟩
    · exact ⟨hn.trans hseg,hseg⟩
  have hself := h.replace_self hw hgood hseg hset
  refine ⟨?_,fun content hmir => ?_⟩
  · have hids : (replaceRows rows p m p' m').map (·.dbid)=rows.map (·.dbid) := by
      rw [replaceRows,map_map]
      apply map_congr_left
      intro r _
      by_cases hp : r.dbid=p.dbid
      · simp [hp,hpid]
      · by_cases hm : r.dbid=m.dbid
        · simp [hm,(h.dbid_ne hw).symm,hmid]
        · simp [hp,hm]
    rw [hids]
    exact hw.dbids
  · by_cases hcon : content=p.segindex
    · exact ⟨q,n,hself,hseg.trans hcon.symm⟩
    · -- The rows of another content are the old ones.
      have hold : ∀ r∈replaceRows rows p m p' m', r.segindex=content → r∈rows := by
        intro r hr hsegr
        rcases PairRows.mem_replaceRows h hw hr with rfl | rfl | ⟨hr,-⟩
        · exact absurd (hsegr.symm.trans hsegs.1) hcon
        · exact absurd (hsegr.symm.trans hsegs.2) hcon
        · exact hr
      obtain ⟨r,hr,hsegr,hcase⟩ := hmir
      have hbef : HasMirror rows content := by
        refine ⟨r,hold r hr hsegr,hsegr,hcase.imp_right fun ⟨x,hx,hsegx,hne⟩ => ?_⟩
        exact ⟨x,hold x hx hsegx,hsegx,hne⟩
      obtain ⟨x,y,hxy,hsegx⟩ := hw.pairs content hbef
      exact ⟨x,y,h.replace_other hw hsegs.1 hsegs.2 hxy (by rw [hsegx]; exact hcon),hsegx⟩

/-- The committed rows of the segments a pair refers to, whatever the prober has read of them. -/
def Committed (rows : List SegmentConfig) (f : FtsSegmentInfo) (C : SegmentConfig → Prop) : Prop :=
  ∃ p m, PairRows rows p m ∧ p.dbid=f.primary.dbid ∧ m.dbid=f.mirror.dbid ∧
    p.segindex=f.primary.segindex ∧ C m

def StateOk (rows : List SegmentConfig) (f : FtsSegmentInfo) : Prop :=
  match f.state with
  | .probeSegment | .probeRetryWait | .probeFailed =>
    PairRows rows f.primary f.mirror ∧ f.result.isPrimaryAlive=false
  | .probeSuccess =>
    PairRows rows f.primary f.mirror ∧ f.result.isPrimaryAlive ∧
      (f.result.isInSync → f.result.isMirrorAlive)
  | .syncrepOffSegment | .syncrepOffRetryWait | .syncrepOffSuccess | .syncrepOffFailed =>
    Committed rows f fun m => m.alive=false ∧ m.inSync=false
  | .promoteSegment | .promoteRetryWait | .promoteSuccess | .promoteFailed =>
    Committed rows f fun _ => True
  | .responseProcessed => True

/-- What `processResponse` writes for a pair: nothing, or a pair that fits, with the roles exchanged
only if it was in sync. -/
inductive Written (rows : List SegmentConfig) (p m : SegmentConfig) : List SegmentConfig → Prop where
  | nothing : Written rows p m rows
  | kept (p' m' : SegmentConfig) (hrows : PairRows rows p m) (hpid : p'.dbid=p.dbid)
      (hmid : m'.dbid=m.dbid) (hseg : p'.segindex=p.segindex) (hgood : GoodPair p' m') :
      Written rows p m (replaceRows rows p m p' m')
  | exchanged (p' m' : SegmentConfig) (hrows : PairRows rows p m) (hpid : p'.dbid=p.dbid)
      (hmid : m'.dbid=m.dbid) (hseg : m'.segindex=p.segindex) (hgood : GoodPair m' p')
      (hsync : p.inSync) : Written rows p m (replaceRows rows p m p' m')

theorem written_row (r : SegmentConfig) (alive inSync mode : Bool) (hmode : mode=r.inSync) :
    (if alive != r.alive || inSync != mode then
      { r with role := r.role, alive := alive, inSync := inSync } else r)
      ={ r with alive := alive, inSync := inSync } := by
  split_ifs with hwrite
  · rfl
  · simp only [Bool.or_eq_true,bne_iff_ne,ne_eq,not_or,not_not] at hwrite
    obtain ⟨rfl,hsame⟩ := hwrite
    rw [hsame,hmode]

theorem PairRows.update_kept (h : PairRows rows p m) (hw : WellFormed rows)
    (isInSync isMirrorAlive : Bool) :
    updateConfiguration rows p m .primary .mirror isInSync true isMirrorAlive
      =replaceRows rows p m { p with alive := true, inSync := isInSync }
        { m with alive := isMirrorAlive, inSync := isInSync } := by
  have hprim := written_row p true isInSync p.inSync rfl
  have hmir := written_row m isMirrorAlive isInSync p.inSync h.mode
  rw [h.primaryRole] at hprim
  rw [h.mirrorRole] at hmir
  rw [h.updateConfiguration_eq hw,hprim,hmir,h.primaryRole,h.mirrorRole]

theorem PairRows.update_exchanged (h : PairRows rows p m) (hw : WellFormed rows) (hsync : m.inSync) :
    updateConfiguration rows p m .mirror .primary false false m.alive
      =replaceRows rows p m { p with role := .mirror, alive := false, inSync := false }
        { m with role := .primary, inSync := false } := by
  have hmode : p.inSync=true := by
    rw [h.mode]
    exact hsync
  rw [h.updateConfiguration_eq hw,hmode]
  simp

/-- A response writes only rows that keep the configuration well formed. -/
theorem processResponse_ok (hw : WellFormed rows) (h : StateOk rows f) :
    Written rows f.primary f.mirror (f.processResponse rows).2 ∧
      StateOk (f.processResponse rows).2 (f.processResponse rows).1 := by
  rw [StateOk] at h
  rw [FtsSegmentInfo.processResponse]
  cases hst : f.state with
  | probeSuccess =>
    rw [hst] at h
    obtain ⟨hrows,halive,hsync⟩ := h
    have hgood : GoodPair { f.primary with alive := true, inSync := f.result.isInSync }
        { f.mirror with alive := f.result.isMirrorAlive, inSync := f.result.isInSync } :=
      ⟨hrows.primaryRole,hrows.mirrorRole,hrows.content,rfl,rfl,hsync⟩
    simp only [halive,if_true]
    rw [hrows.update_kept hw]
    split_ifs with hdown hretry hmir
    · exact ⟨.nothing,trivial⟩
    · refine ⟨.kept _ _ hrows rfl rfl rfl hgood,?_⟩
      have hself := hrows.replace_self hw hgood rfl (.inl ⟨rfl,rfl⟩)
      refine ⟨_,_,hself,rfl,rfl,rfl,hdown.2,?_⟩
      cases hin : f.result.isInSync with
      | false => rfl
      | true =>
        have := hsync hin
        rw [hdown.2] at this
        cases this
    · exact ⟨.nothing,f.primary,f.mirror,hrows,rfl,rfl,rfl,trivial⟩
    · exact ⟨.kept _ _ hrows rfl rfl rfl hgood,trivial⟩
  | probeFailed =>
    rw [hst] at h
    obtain ⟨hrows,hdead⟩ := h
    simp only [hdead,Bool.false_eq_true,if_false]
    split_ifs with hrestart hsync
    · exact ⟨.nothing,trivial⟩
    · have hgood : GoodPair { f.mirror with role := .primary, inSync := false }
          { f.primary with role := .mirror, alive := false, inSync := false } :=
        ⟨rfl,rfl,hrows.content.symm,hrows.synced hsync,rfl,by simp⟩
      have hself := hrows.replace_self hw hgood hrows.content (.inr ⟨rfl,rfl⟩)
      rw [hrows.update_exchanged hw hsync]
      refine ⟨.exchanged _ _ hrows rfl rfl hrows.content hgood ?_,?_⟩
      · rw [hrows.mode]
        exact hsync
      · exact ⟨_,_,hself,rfl,rfl,rfl,trivial⟩
    · exact ⟨.nothing,trivial⟩
  | syncrepOffFailed | promoteFailed | promoteSuccess | syncrepOffSuccess =>
    exact ⟨.nothing,trivial⟩
  | _ =>
    refine ⟨.nothing,?_⟩
    rw [hst] at h
    rw [StateOk,hst]
    exact h

theorem processResponse_refs (h : StateOk rows f) :
    (f.processResponse rows).1.primary.segindex=f.primary.segindex ∧
      (((f.processResponse rows).1.primary=f.primary ∧ (f.processResponse rows).1.mirror=f.mirror) ∨
        ((f.processResponse rows).1.primary=f.mirror ∧
          (f.processResponse rows).1.mirror=f.primary)) := by
  rw [StateOk] at h
  rw [FtsSegmentInfo.processResponse]
  cases hst : f.state with
  | probeSuccess => split_ifs <;> exact ⟨rfl,.inl ⟨rfl,rfl⟩⟩
  | probeFailed =>
    rw [hst] at h
    simp only [h.2,Bool.false_eq_true,if_false]
    split_ifs
    · exact ⟨rfl,.inl ⟨rfl,rfl⟩⟩
    · exact ⟨h.1.content,.inr ⟨rfl,rfl⟩⟩
    · exact ⟨rfl,.inl ⟨rfl,rfl⟩⟩
  | _ => exact ⟨rfl,.inl ⟨rfl,rfl⟩⟩

/-- A response that reports the mirror in sync also reports it up, as `GetMirrorStatus` does. -/
def PairEnv.Honest (env : PairEnv) : Prop :=
  ∀ result, env.response=.tuple result → result.isInSync → result.isMirrorAlive

def Action.Honest : Action → Prop
  | .advance env _ => ∀ k, (env k).Honest
  | .start | .abort => True

structure Keeps (rows : List SegmentConfig) (f f' : FtsSegmentInfo) : Prop where
  primary : f'.primary=f.primary
  mirror : f'.mirror=f.mirror
  state : StateOk rows f → StateOk rows f'

namespace FtsSegmentInfo

variable {f f' : FtsSegmentInfo}

section

variable (hp : f'.primary=f.primary) (hm : f'.mirror=f.mirror) (hrst : f'.result=f.result)
include hp hm hrst

theorem stateOk_congr (hst : f'.state=f.state) (h : StateOk rows f) : StateOk rows f' := by
  simp only [StateOk,Committed,hp,hm,hrst,hst] at h ⊢
  exact h

theorem stateOk_failed (hst : f'.state=f.state.nextFailed) (h : StateOk rows f) :
    StateOk rows f' := by
  cases hf : f.state <;>
    simp only [StateOk,Committed,hp,hm,hrst,hst,hf,nextFailed] at h ⊢ <;>
    exact h

end

theorem checkRestart_frame (f : FtsSegmentInfo) (error : ConnectError) :
    (f.checkRestart error).primary=f.primary ∧ (f.checkRestart error).mirror=f.mirror ∧
      (f.checkRestart error).result=f.result ∧ (f.checkRestart error).state=f.state := by
  cases error with
  | plain | inReset => simp [checkRestart]
  | inRecovery replayed =>
    cases replayed with
    | none => simp [checkRestart]
    | some lsn =>
      rw [checkRestart]
      split_ifs <;> simp

theorem connect_keeps : Keeps rows f (f.connect env now) := by
  rw [connect]
  split_ifs with hok hsegment
  · exact ⟨rfl,rfl,fun h => h⟩
  · cases f.conn with
    | none =>
      dsimp only
      rw [connectStart]
      split_ifs
      · exact ⟨rfl,rfl,stateOk_congr rfl rfl rfl rfl⟩
      · exact ⟨rfl,rfl,stateOk_failed rfl rfl rfl rfl⟩
    | some c =>
      dsimp only
      split_ifs with hrdy
      · cases env.connectPoll with
        | ok | reading | writing => exact ⟨rfl,rfl,stateOk_congr rfl rfl rfl rfl⟩
        | failed error =>
          dsimp only
          have hfr := checkRestart_frame
            { f with restartState := .notInRestart, state := f.state.nextFailed, conn := some c } error
          obtain ⟨hp,hm,hrst,hst⟩ := hfr
          exact ⟨hp,hm,stateOk_failed hp hm hrst hst⟩
      · exact ⟨rfl,rfl,stateOk_congr rfl rfl rfl rfl⟩
  · exact ⟨rfl,rfl,fun h => h⟩

theorem Keeps.trans (h : Keeps rows f f') (h' : Keeps rows f' f'') : Keeps rows f f'' :=
  ⟨h'.primary.trans h.primary,h'.mirror.trans h.mirror,fun hf => h'.state (h.state hf)⟩

theorem checkTimeout_keeps : Keeps rows f (f.checkTimeout cfg now) := by
  rw [checkTimeout]
  split_ifs
  · exact ⟨rfl,rfl,stateOk_failed rfl rfl rfl rfl⟩
  · exact ⟨rfl,rfl,fun h => h⟩

theorem poll_keeps : Keeps rows f (f.poll cfg env now) := by
  rw [poll]
  split_ifs with hpolled
  · refine Keeps.trans ?_ checkTimeout_keeps
    split_ifs
    · exact ⟨rfl,rfl,stateOk_congr rfl rfl rfl rfl⟩
    · exact ⟨rfl,rfl,stateOk_failed rfl rfl rfl rfl⟩
    · exact ⟨rfl,rfl,stateOk_congr rfl rfl rfl rfl⟩
  · exact ⟨rfl,rfl,fun h => h⟩

theorem send_keeps : Keeps rows f (f.send env).1 := by
  rw [send]
  cases f.conn with
  | none => exact ⟨rfl,rfl,fun h => h⟩
  | some c =>
    dsimp only
    split_ifs
    · exact ⟨rfl,rfl,stateOk_congr rfl rfl rfl rfl⟩
    · exact ⟨rfl,rfl,stateOk_failed rfl rfl rfl rfl⟩
    · exact ⟨rfl,rfl,fun h => h⟩

theorem receive_keeps (henv : env.Honest) : Keeps rows f (f.receive env) := by
  rw [receive]
  cases f.conn with
  | none => exact ⟨rfl,rfl,fun h => h⟩
  | some c =>
    dsimp only
    split_ifs with hrdy hread hbusy
    · exact ⟨rfl,rfl,stateOk_failed rfl rfl rfl rfl⟩
    · exact ⟨rfl,rfl,fun h => h⟩
    · cases hresp : env.response with
      | error => exact ⟨rfl,rfl,stateOk_failed rfl rfl rfl rfl⟩
      | tuple result =>
        have hsync := henv result hresp
        refine ⟨rfl,rfl,fun h => ?_⟩
        cases hf : f.state <;>
          simp only [hf,isSegment,Bool.false_eq_true,false_and] at hrdy <;>
          simp only [StateOk,Committed,hf,nextSuccess] at h ⊢
        · exact ⟨h.1,trivial,hsync⟩
        · exact h
        · exact h
    · exact ⟨rfl,rfl,fun h => h⟩

theorem retryForFtsFailed_keeps (hst : f.state=.probeSuccess ∨ f.state.isFailed) :
    Keeps rows f (f.retryForFtsFailed cfg now) := by
  rw [retryForFtsFailed]
  split_ifs
  · exact ⟨rfl,rfl,fun h => h⟩
  · refine ⟨rfl,rfl,fun h => ?_⟩
    cases hf : f.state <;>
      simp only [hf,isFailed,Bool.false_eq_true,reduceCtorEq,or_self,
        or_false,false_or] at hst <;>
      simp only [StateOk,Committed,hf] at h ⊢
    · exact ⟨h.1,trivial⟩
    · exact ⟨h.1,trivial⟩
    · exact h
    · exact h

theorem processRetry_keeps : Keeps rows f (f.processRetry cfg now) := by
  have hwake : ∀ state, (StateOk rows f → StateOk rows { f with state := state }) →
      Keeps rows f (if now-f.retryStartTime<1 then f else { f with state := state }) := by
    intro state hst
    split_ifs
    · exact ⟨rfl,rfl,fun h => h⟩
    · exact ⟨rfl,rfl,hst⟩
  rw [processRetry]
  cases hf : f.state with
  | probeSuccess =>
    dsimp only
    split_ifs
    · exact retryForFtsFailed_keeps (.inl hf)
    · exact ⟨rfl,rfl,fun h => h⟩
  | probeFailed | syncrepOffFailed | promoteFailed =>
    exact retryForFtsFailed_keeps (.inr (by rw [hf]; rfl))
  | probeRetryWait | syncrepOffRetryWait | promoteRetryWait =>
    apply hwake
    intro h
    simp only [StateOk,Committed,hf] at h ⊢
    exact h
  | _ => exact ⟨rfl,rfl,fun h => h⟩

end FtsSegmentInfo

end WarehousePG.Fts
