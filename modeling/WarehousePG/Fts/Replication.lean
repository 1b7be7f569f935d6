import WarehousePG.Fts.Cycle

namespace WarehousePG.Fts

open FtsSegmentInfo FtsMessageState List

section

variable {a : Action} {rows : List SegmentConfig}

def FtsSegmentInfo.AwaitsProbe (f : FtsSegmentInfo) : Prop :=
  f.state=.probeSegment ∨ f.state=.probeRetryWait

/-- What one call of the loop can do to a pair: only a response read over the connection makes a probe
succeed in sync, the primary referred to stays while the connection is open, and a connection is
opened by `ftsConnect`. -/
structure Observes (phase : Phase) (env : PairEnv) (f f' : FtsSegmentInfo) : Prop where
  awaits : f'.AwaitsProbe → f'.conn.isSome → f.conn.isSome → f.AwaitsProbe
  records : f'.state=.probeSuccess → f'.result.isInSync →
    (f.state=.probeSuccess ∧ f.result.isInSync) ∨
      (f.AwaitsProbe ∧ f.conn.isSome ∧ ∃ result, env.response=.tuple result ∧ result.isInSync)
  primary : f'.conn.isSome → f'.primary=f.primary
  opens : f'.conn.isSome → f.conn.isSome ∨ phase=.connect

namespace Observes

variable {f : FtsSegmentInfo}

theorem of_state (hprim : f'.primary=f.primary) (hrst : f'.result=f.result)
    (hconn : f'.conn.isSome → f.conn.isSome ∨ phase=.connect)
    (hst : f'.state=f.state ∨ f'.state=f.state.nextFailed) : Observes phase env f f' := by
  have hback : (f'.AwaitsProbe → f.AwaitsProbe) ∧ (f'.state=.probeSuccess → f.state=.probeSuccess) := by
    rw [FtsSegmentInfo.AwaitsProbe,FtsSegmentInfo.AwaitsProbe]
    rcases hst with heq | heq
    · rw [heq]
      exact ⟨id,id⟩
    · rw [heq]
      cases f.state <;> simp [FtsMessageState.nextFailed]
  refine ⟨fun h _ _ => hback.1 h,fun h hsync => .inl ⟨hback.2 h,?_⟩,fun _ => hprim,hconn⟩
  rw [← hrst]
  exact hsync

theorem of_closed (hconn : f'.conn=none) (hst : f'.state≠.probeSuccess) : Observes phase env f f' :=
  ⟨fun _ h => absurd h (by simp [hconn]),fun h => absurd h hst,
    fun h => absurd h (by simp [hconn]),fun h => absurd h (by simp [hconn])⟩

theorem refl : Observes phase env f f := of_state rfl rfl .inl (.inl rfl)

theorem connect : Observes .connect env f (f.connect env now) := by
  rw [FtsSegmentInfo.connect]
  split_ifs
  · exact refl
  · cases f.conn with
    | none =>
      simp only [connectStart]
      split_ifs
      · exact of_state rfl rfl (fun _ => .inr rfl) (.inl rfl)
      · exact of_state rfl rfl (fun _ => .inr rfl) (.inr rfl)
    | some c =>
      dsimp only
      split_ifs
      · cases env.connectPoll with
        | failed error =>
          have hfr := checkRestart_frame
            { f with restartState := .notInRestart, state := f.state.nextFailed, conn := some c } error
          exact of_state hfr.1 hfr.2.2.1 (fun _ => .inr rfl) (.inr hfr.2.2.2)
        | _ => exact of_state rfl rfl (fun _ => .inr rfl) (.inl rfl)
      · exact of_state rfl rfl (fun _ => .inr rfl) (.inl rfl)
  · exact refl

theorem poll : Observes phase env f (f.poll cfg env now) := by
  have hfailed : f.state.nextFailed.nextFailed=f.state.nextFailed := by cases f.state <;> rfl
  simp only [FtsSegmentInfo.poll,FtsSegmentInfo.checkTimeout]
  split_ifs <;> first
    | exact of_state rfl rfl .inl (.inl rfl)
    | exact of_state rfl rfl .inl (.inr rfl)
    | exact of_state rfl rfl .inl (.inr hfailed)

theorem send : Observes phase env f (f.send env).1 := by
  rw [FtsSegmentInfo.send]
  cases hconn : f.conn with
  | none => exact refl
  | some c =>
    have hopen : f.conn.isSome ∨ phase=.connect := .inl (by rw [hconn]; rfl)
    dsimp only
    split_ifs
    · exact of_state rfl rfl (fun _ => hopen) (.inl rfl)
    · exact of_state rfl rfl (fun _ => hopen) (.inr rfl)
    · exact refl

theorem receive : Observes phase env f (f.receive env) := by
  rw [FtsSegmentInfo.receive]
  cases hconn : f.conn with
  | none => exact refl
  | some c =>
    have hopen : f.conn.isSome ∨ phase=.connect := .inl (by rw [hconn]; rfl)
    dsimp only
    split_ifs with hrdy
    · exact of_state rfl rfl (fun _ => hopen) (.inr rfl)
    · exact refl
    · cases hresp : env.response with
      | error => exact of_state rfl rfl (fun _ => hopen) (.inr rfl)
      | tuple result =>
        refine ⟨fun h => ?_,fun h hsync => ?_,fun _ => rfl,fun _ => hopen⟩
        · rw [FtsSegmentInfo.AwaitsProbe] at h
          cases hf : f.state <;> simp [hf,nextSuccess] at h
          simp [hf,isSegment] at hrdy
        · refine .inr ⟨.inl ?_,by rw [hconn]; rfl,result,hresp,hsync⟩
          cases hf : f.state <;> simp [hf,nextSuccess] at h
          · rfl
          · simp [hf,isSegment] at hrdy
    · exact refl

theorem processRetry : Observes phase env f (f.processRetry cfg now) := by
  have hret : Observes phase env f (f.retryForFtsFailed cfg now) := by
    rw [retryForFtsFailed]
    split_ifs
    · exact refl
    · apply of_closed rfl
      dsimp only
      split <;> simp
  rw [FtsSegmentInfo.processRetry]
  cases hf : f.state with
  | probeSuccess =>
    dsimp only
    split_ifs
    · exact hret
    · exact refl
  | probeFailed | syncrepOffFailed | promoteFailed => exact hret
  | probeRetryWait =>
    dsimp only
    split_ifs
    · exact refl
    · exact ⟨fun _ _ _ => .inr hf,fun h => absurd h (by simp),fun _ => rfl,.inl⟩
  | syncrepOffRetryWait | promoteRetryWait =>
    dsimp only
    split_ifs
    · exact refl
    · refine ⟨fun h => ?_,fun h => absurd h (by simp),fun _ => rfl,.inl⟩
      simp [FtsSegmentInfo.AwaitsProbe] at h
  | _ => exact refl

theorem processResponse (rows : List SegmentConfig) : Observes phase env f (f.processResponse rows).1 := by
  rw [FtsSegmentInfo.processResponse]
  cases f.state with
  | probeSuccess | probeFailed => split_ifs <;> exact of_closed rfl (by simp [close])
  | syncrepOffFailed | promoteFailed | promoteSuccess | syncrepOffSuccess =>
    exact of_closed rfl (by simp [close])
  | _ => exact refl

end Observes

namespace Prober

variable {s : Prober}

open Observes

/-- Every pair after a step is one before it that has observed the environment. -/
theorem step_observes (h : s.step cfg (.advance (fun _ => env) now)=some t) :
    ∀ f'∈t.pairs, ∃ f∈s.pairs, Observes s.phase env f f' := by
  have hmap : ∀ g : FtsSegmentInfo → FtsSegmentInfo, (∀ f, Observes s.phase env f (g f)) →
      ∀ f'∈s.pairs.mapIdx (fun _ => g), ∃ f∈s.pairs, Observes s.phase env f f' := by
    intro g hobs f' hf'
    obtain ⟨k,hk⟩ := mem_iff_getElem?.mp hf'
    rw [getElem?_mapIdx] at hk
    obtain ⟨f,hf,rfl⟩ := Option.map_eq_some_iff.mp hk
    exact ⟨f,mem_iff_getElem?.mpr ⟨k,hf⟩,hobs f⟩
  have hsame : ∀ f'∈s.pairs, ∃ f∈s.pairs, Observes s.phase env f f' :=
    fun f hf => ⟨f,hf,refl⟩
  cases hph : s.phase <;> rw [hph] at hmap hsame <;>
    simp only [step,hph,reduceCtorEq] at h
  case connect =>
    split_ifs at h
    · cases h
      exact hsame
    · cases h
      exact hmap _ fun f => connect
  case poll =>
    cases h
    exact hmap _ fun f => poll
  case send =>
    cases h
    intro f' hf'
    obtain ⟨x,hx,rfl⟩ := mem_map.mp hf'
    obtain ⟨k,hk⟩ := mem_iff_getElem?.mp hx
    rw [getElem?_mapIdx] at hk
    obtain ⟨f,hf,rfl⟩ := Option.map_eq_some_iff.mp hk
    exact ⟨f,mem_iff_getElem?.mpr ⟨k,hf⟩,send⟩
  case receive =>
    cases h
    exact hmap _ fun f => receive
  case retry =>
    cases h
    intro f' hf'
    obtain ⟨f,hf,rfl⟩ := mem_map.mp hf'
    exact ⟨f,hf,processRetry⟩
  case respond k =>
    cases hf : s.pairs[k]? with
    | none =>
      rw [hf] at h
      cases h
      exact hsame
    | some f =>
      rw [hf] at h
      cases h
      intro g hg
      obtain hold | heq := mem_or_eq_of_mem_set hg
      · exact hsame g hold
      · rw [heq]
        exact ⟨f,mem_iff_getElem?.mpr ⟨k,hf⟩,processResponse s.catalog⟩

theorem step_cdbs (h : s.step cfg a=some t) : t.cdbs=s.cdbs ∨ t.cdbs=s.catalog := by
  cases a with
  | start =>
    cases hph : s.phase <;> simp only [step,hph,reduceCtorEq] at h
    cases h
    exact .inr rfl
  | abort =>
    cases h
    exact .inl rfl
  | advance env now =>
    left
    cases hph : s.phase with
    | idle => simp [step,hph] at h
    | connect =>
      simp only [step,hph] at h
      split_ifs at h <;> obtain rfl := Option.some.inj h <;> rfl
    | respond k =>
      simp only [step,hph] at h
      cases hf : s.pairs[k]? <;> rw [hf] at h <;> obtain rfl := Option.some.inj h <;> rfl
    | _ =>
      simp only [step,hph] at h
      cases h
      rfl

theorem step_messages (h : s.step cfg a=some t) (hph : s.phase=.send) :
    ∀ msg∈t.messages, ∃ f∈s.pairs, msg.dbid=f.primary.dbid := by
  intro msg hmsg
  cases a with
  | start => simp [step,hph] at h
  | abort =>
    cases h
    cases hmsg
  | advance env now =>
    simp only [step,hph] at h
    cases h
    obtain ⟨x,hx,hsnd⟩ := mem_filterMap.mp hmsg
    obtain ⟨k,hk⟩ := mem_iff_getElem?.mp hx
    rw [getElem?_mapIdx] at hk
    obtain ⟨f,hf,rfl⟩ := Option.map_eq_some_iff.mp hk
    exact ⟨f,mem_iff_getElem?.mpr ⟨k,hf⟩,(send_message hsnd).2⟩

end Prober

theorem mem_probeWalRepUpdateConfig
    (h : r∈probeWalRepUpdateConfig rows dbid role alive inSync) : r∈rows ∨ r.inSync=inSync := by
  obtain ⟨q,hq,rfl⟩ := mem_map.mp h
  split_ifs
  · exact .inr rfl
  · exact .inl hq

theorem mem_updateConfiguration

    (h : r∈updateConfiguration rows p m newPrimaryRole newMirrorRole isInSync isPrimaryAlive
      isMirrorAlive) : r∈rows ∨ r.inSync=isInSync := by
  simp only [updateConfiguration] at h
  split_ifs at h
  · rcases mem_probeWalRepUpdateConfig h with hfirst | hsync
    · exact mem_probeWalRepUpdateConfig hfirst
    · exact .inr hsync
  · exact mem_probeWalRepUpdateConfig h
  · exact mem_probeWalRepUpdateConfig h
  · exact .inl h

/-- Rows are marked in sync only on a successful probe that says so. -/
theorem processResponse_inSync (h : StateOk rows f)
    (hr : r∈(f.processResponse rows).2) (hsync : r.inSync) :
    r∈rows ∨ (f.state=.probeSuccess ∧ f.result.isInSync) := by
  rw [StateOk] at h
  rw [processResponse] at hr
  cases hst : f.state with
  | probeSuccess =>
    rw [hst] at h hr
    simp only [h.2.1,if_true] at hr
    have hupd : r∈updateConfiguration rows f.primary f.mirror .primary .mirror f.result.isInSync
        true f.result.isMirrorAlive → r∈rows ∨ f.result.isInSync := by
      intro hmem
      refine (mem_updateConfiguration hmem).imp_right fun heq => ?_
      rw [← heq]
      exact hsync
    have hcases : r∈rows ∨ f.result.isInSync := by
      split_ifs at hr
      · exact .inl hr
      · exact hupd hr
      · exact .inl hr
      · exact hupd hr
    exact hcases.imp_right fun hin => ⟨rfl,hin⟩
  | probeFailed =>
    rw [hst] at h hr
    simp only [h.2,Bool.false_eq_true,if_false] at hr
    left
    split_ifs at hr
    · exact hr
    · refine (mem_updateConfiguration hr).resolve_right fun heq => ?_
      rw [heq] at hsync
      cases hsync
    · exact hr
  | _ =>
    rw [hst] at hr
    exact .inl hr

theorem Written.origin (h : Written rows p m rows') (hr' : r'∈rows') :
    ∃ r∈rows, r.dbid=r'.dbid ∧ r.segindex=r'.segindex := by
  have hrep : ∀ p' m' : SegmentConfig, PairRows rows p m → p'.dbid=p.dbid → m'.dbid=m.dbid →
      p'.segindex=p.segindex → m'.segindex=m.segindex → r'∈replaceRows rows p m p' m' →
      ∃ r∈rows, r.dbid=r'.dbid ∧ r.segindex=r'.segindex := by
    intro p' m' hrows hpid hmid hpseg hmseg hmem
    obtain ⟨q,hq,heq⟩ := mem_map.mp hmem
    split_ifs at heq
    · exact ⟨p,hrows.primaryMem,by rw [← heq,hpid],by rw [← heq,hpseg]⟩
    · exact ⟨m,hrows.mirrorMem,by rw [← heq,hmid],by rw [← heq,hmseg]⟩
    · exact ⟨q,hq,by rw [heq],by rw [heq]⟩
  cases h with
  | nothing => exact ⟨r',hr',rfl,rfl⟩
  | kept p' m' hrows hpid hmid hseg hgood =>
    exact hrep p' m' hrows hpid hmid hseg
      ((hgood.content.trans hseg).trans hrows.content.symm) hr'
  | exchanged p' m' hrows hpid hmid hseg hgood =>
    exact hrep p' m' hrows hpid hmid (hgood.content.trans hseg)
      (hseg.trans hrows.content.symm) hr'

end

inductive WalSndState where
  | startup
  | catchup
  | streaming
  deriving DecidableEq

/-- The `WalSnd` entry of the mirror; `write` and `flush` are what the mirror has reported. -/
structure WalSnd where
  state : WalSndState := .startup
  sent : Nat := 0
  write : Nat := 0
  flush : Nat := 0
  caughtupWithinRange : Bool := false
  deriving DecidableEq

/-- The primary. Positions in the WAL count its records, and 0 is the invalid one; `committing` holds
the commit records whose backends have not called `SyncRepWaitForLSN` yet, `queue` is `SyncRepQueue`
and `syncedLsn` is `WalSndCtl->lsn[SYNC_REP_WAIT_FLUSH]`. `standbyNames` tells whether
synchronous_standby_names is set in gp_replication.conf, and `configured` whether the checkpointer has
read it since the start of the primary. -/
structure Primary where
  running : Bool := true
  lsn : Nat := 0
  committing : List Nat := []
  queue : List Nat := []
  acked : List Nat := []
  syncedLsn : Nat := 0
  standbysDefined : Bool := false
  standbyNames : Bool := false
  configured : Bool := false
  walsnd : Option WalSnd := none
  deriving DecidableEq

def WalSnd.isMirrorUp (w : WalSnd) : Bool :=
  match w.state with
  | .startup => false
  | .catchup => w.write≠0
  | .streaming => true

namespace Primary

def streaming (p : Primary) : Bool := p.walsnd.any (·.state=.streaming)

/-- `GetMirrorStatus`, with `ready_for_syncrep`; `retryNeeded` is `is_probe_retry_needed`. -/
def getMirrorStatus (p : Primary) (retryNeeded : Bool) : FtsResult × Bool :=
  let isUp := p.walsnd.any (·.isMirrorUp)
  ({ isMirrorAlive := isUp
     isInSync := isUp && p.streaming
     isSyncRepEnabled := p.standbysDefined
     retryRequested := !isUp && retryNeeded }, p.walsnd.any fun w => w.isMirrorUp &&
     (w.state=.streaming || (w.state=.catchup && w.caughtupWithinRange)))

/-- `SetSyncStandbysDefined`: the setting is written, and a reload signalled. -/
def setSyncStandbysDefined (p : Primary) : Primary :=
  if p.standbysDefined then p else { p with standbyNames := true }

def unsetSyncStandbysDefined (p : Primary) : Primary :=
  if p.standbysDefined then { p with standbyNames := false } else p

def handleFtsWalRepProbe (p : Primary) (retryNeeded : Bool) : Primary × FtsResult :=
  let (response, readyForSyncrep) := p.getMirrorStatus retryNeeded
  if response.isSyncRepEnabled=false ∧ readyForSyncrep then
    (p.setSyncStandbysDefined, { response with isSyncRepEnabled := true })
  else (p, response)

def handleFtsWalRepSyncRepOff (p : Primary) (retryNeeded : Bool) : Primary × FtsResult :=
  let p := p.unsetSyncStandbysDefined
  (p, (p.getMirrorStatus retryNeeded).1)

/-- `HandleFtsMessage` on a primary, which is not in archive recovery and ignores PROMOTE. -/
def handleFtsMessage (p : Primary) (retryNeeded : Bool) : FtsMessageState → Primary × FtsResult
  | .probeSegment => p.handleFtsWalRepProbe retryNeeded
  | .syncrepOffSegment => p.handleFtsWalRepSyncRepOff retryNeeded
  | _ => (p, {})

def writeCommit (p : Primary) : Primary :=
  { p with lsn := p.lsn+1, committing := p.committing ++ [p.lsn+1] }

def syncRepQueueInsert (queue : List Nat) (lsn : Nat) : List Nat :=
  queue.takeWhile (· < lsn) ++ lsn::queue.dropWhile (· < lsn)

/-- `SyncRepWaitForLSN` up to its wait; the commit is acknowledged at once or joins the queue. -/
def syncRepWaitForLSN (p : Primary) (lsn : Nat) : Primary :=
  let p := { p with committing := p.committing.erase lsn }
  if p.standbysDefined=false ∨ lsn≤p.syncedLsn then { p with acked := p.acked ++ [lsn] }
  else { p with queue := syncRepQueueInsert p.queue lsn }

/-- `SyncRepCancelWait`: the backend ends without an answer to its client. -/
def syncRepCancelWait (p : Primary) (lsn : Nat) : Primary := { p with queue := p.queue.erase lsn }

/-- `SyncRepReleaseWaiters` with `SyncRepWakeQueue(false, ..)`. -/
def syncRepReleaseWaiters (p : Primary) : Primary :=
  match p.walsnd with
  | none => p
  | some w =>
    if w.state=.streaming ∧ w.flush≠0 ∧ p.syncedLsn<w.flush then
      { p with
        syncedLsn := w.flush
        acked := p.acked ++ p.queue.takeWhile (· ≤ w.flush)
        queue := p.queue.dropWhile (· ≤ w.flush) }
    else p

def syncRepUpdateSyncStandbysDefined (p : Primary) : Primary :=
  let p := { p with configured := true }
  if p.standbyNames=p.standbysDefined then p
  else if p.standbyNames then { p with standbysDefined := true }
  else { p with standbysDefined := false, acked := p.acked ++ p.queue, queue := [] }

def crash (p : Primary) : Primary :=
  { running := false, lsn := p.lsn, acked := p.acked, standbyNames := p.standbyNames }

end Primary

structure PairIds where
  primaryDbid : Nat
  mirrorDbid : Nat
  content : Nat
  distinct : primaryDbid≠mirrorDbid

def PairIds.primaryRow (ids : PairIds) : SegmentConfig :=
  { dbid := ids.primaryDbid, segindex := ids.content, role := .primary, alive := true, inSync := false }

def PairIds.mirrorRow (ids : PairIds) : SegmentConfig :=
  { dbid := ids.mirrorDbid, segindex := ids.content, role := .mirror, alive := false, inSync := false }

/-- One pair and FTS. `epoch` numbers the connections of the prober; `requests` are the messages not
handled yet and `replies` the answers, each with its connection. The mirror has made the first
`flushed` records of the WAL durable. -/
structure Cluster where
  prober : Prober
  epoch : Nat := 0
  requests : List (Nat × FtsMessage) := []
  replies : List (Nat × FtsResult) := []
  primary : Primary := {}
  flushed : Nat := 0
  promoted : Bool := false

inductive Event where
  | ftsStart
  | ftsAbort
  | fts (env : PairEnv) (now : Int)
  | handle (k : Nat) (retryNeeded : Bool)
  | writeCommit
  | waitForLSN (lsn : Nat)
  | cancelWait (lsn : Nat)
  | walsender (w : Option WalSndState)
  | walsenderSend (n : Nat) (withinRange : Bool)
  | mirrorFlush (n : Nat)
  | mirrorReply
  | releaseWaiters
  | checkpointer
  | crash
  | restart
  | promote

def Prober.isConnected (p : Prober) : Bool := p.pairs.any (·.conn.isSome)

namespace Cluster

def init (ids : PairIds) : Cluster := { prober := { catalog := [ids.primaryRow,ids.mirrorRow] } }

def proberStep (cfg : Settings) (s : Cluster) (a : Action) : Option Cluster :=
  (s.prober.step cfg a).map fun t =>
    { s with
      prober := t
      epoch := if t.isConnected && !s.prober.isConnected then s.epoch+1 else s.epoch
      requests := s.requests ++
        (if s.prober.phase=.send then t.messages.map fun msg => (s.epoch, msg) else []) }

def responds (s : Cluster) (env : PairEnv) : Bool :=
  match env.response with
  | .error => true
  | .tuple result => decide ((s.epoch, result)∈s.replies)

/-- The mirror answers as a mirror until its promotion is over; then it has no mirror of its own. -/
def handleAtMirror (s : Cluster) (retryNeeded : Bool) : FtsResult :=
  if s.promoted then { retryRequested := retryNeeded } else { isRoleMirror := true }

def handleRequest (ids : PairIds) (s : Cluster) (k : Nat) (retryNeeded : Bool) : Option Cluster :=
  s.requests[k]?.bind fun (conn, msg) =>
    let s' := { s with requests := s.requests.eraseIdx k }
    if msg.dbid=ids.primaryDbid then
      if s.primary.running then
        let (p, result) := s.primary.handleFtsMessage retryNeeded msg.state
        some { s' with primary := p, replies := s.replies ++ [(conn, result)] }
      else none
    else some { s' with replies := s.replies ++ [(conn, s.handleAtMirror retryNeeded)] }

/-- The walsender changes its state; it streams once it has sent all of the WAL. -/
def walsenderStep (p : Primary) : Option WalSndState → Option Primary
  | none => some { p with walsnd := none }
  | some .startup => some { p with walsnd := some {} }
  | some .catchup => p.walsnd.map fun w => { p with walsnd := some { w with state := .catchup } }
  | some .streaming => p.walsnd.bind fun w =>
    if w.state=.catchup ∧ w.sent=p.lsn then
      some { p with walsnd := some { w with state := .streaming } }
    else none

def step (cfg : Settings) (ids : PairIds) (s : Cluster) : Event → Option Cluster
  | .ftsStart => s.proberStep cfg .start
  | .ftsAbort => s.proberStep cfg .abort
  | .fts env now => if s.responds env then s.proberStep cfg (.advance (fun _ => env) now) else none
  | .handle k retryNeeded => s.handleRequest ids k retryNeeded
  | .writeCommit => if s.primary.running then some { s with primary := s.primary.writeCommit } else none
  | .waitForLSN lsn =>
    if lsn∈s.primary.committing then some { s with primary := s.primary.syncRepWaitForLSN lsn }
    else none
  | .cancelWait lsn => some { s with primary := s.primary.syncRepCancelWait lsn }
  | .walsender w =>
    if s.primary.running then (walsenderStep s.primary w).map fun p => { s with primary := p }
    else none
  | .walsenderSend n withinRange =>
    s.primary.walsnd.bind fun w =>
      if w.sent≤n ∧ n ≤ s.primary.lsn then
        some { s with primary := { s.primary with
          walsnd := some { w with sent := n, caughtupWithinRange := withinRange } } }
      else none
  | .mirrorFlush n =>
    if s.promoted=false ∧ s.flushed≤n ∧ n ≤ s.primary.lsn then some { s with flushed := n } else none
  | .mirrorReply =>
    s.primary.walsnd.map fun w => { s with primary := { s.primary with
      walsnd := some { w with write := s.flushed, flush := s.flushed } } }
  | .releaseWaiters => some { s with primary := s.primary.syncRepReleaseWaiters }
  | .checkpointer =>
    if s.primary.running then some { s with primary := s.primary.syncRepUpdateSyncStandbysDefined }
    else none
  | .crash => some { s with primary := s.primary.crash }
  | .restart => some { s with primary := { s.primary with running := true } }
  | .promote => some { s with promoted := true }

end Cluster

end WarehousePG.Fts
