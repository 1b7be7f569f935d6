import WarehousePG.Fts.Cycle

namespace WarehousePG.Fts

open Framework FtsMessageState PollBits FtsSegmentInfo List Option Prober

/-- FTS_PROBE_RETRY_WAIT, FTS_SYNCREP_OFF_RETRY_WAIT and FTS_PROMOTE_RETRY_WAIT. -/
def FtsMessageState.isRetryWait : FtsMessageState → Bool
  | .probeRetryWait | .syncrepOffRetryWait | .promoteRetryWait => true
  | _ => false

@[simp] theorem FtsMessageState.nextFailed_isSegment (s : FtsMessageState) :
    s.nextFailed.isSegment=false := by
  cases s <;> rfl

@[simp] theorem FtsMessageState.nextFailed_isRetryWait (s : FtsMessageState) :
    s.nextFailed.isRetryWait=false := by
  cases s <;> rfl

theorem FtsMessageState.not_isRetryWait {s : FtsMessageState} (h : s.isSegment) :
    s.isRetryWait=false := by
  cases s <;> first | rfl | exact absurd h (by decide)

/-- An open connection of a waiting pair, by the next call of the loop: what it waits for is in
`poll_events`, or the last `ftsPoll` has seen it and the call that handles it is still to come. -/
structure Armed (phase : Phase) (f : FtsSegmentInfo) (c : Conn) : Prop where
  opening : c.ok=false →
    c.idle ∧ (f.pollEvents.inOrOut ∨ (phase≠.poll ∧ f.pollRevents.inOrOut))
  unsent : c.ok → c.idle →
    f.pollEvents={ pollOut := true } ∨ (phase=.send ∧ f.pollRevents.pollOut)
  unanswered : c.ok → c.idle=false →
    f.pollEvents={ pollIn := true } ∨ ((phase=.send ∨ phase=.receive) ∧ f.pollRevents.pollIn)

structure Timed (phase : Phase) (f : FtsSegmentInfo) : Prop where
  armed : f.state.isSegment → ∀ c, f.conn=some c → Armed phase f c
  connected : phase=.poll → f.state.isSegment → f.conn.isSome
  closed : f.state.isRetryWait → f.conn=none

/-- `ftsReceive` does not find a response of which only a part has arrived. -/
def FtsSegmentInfo.Complete (f : FtsSegmentInfo) (env : PairEnv) : Prop :=
  f.state.isSegment → f.conn.any (·.ok) → f.pollRevents.pollIn → env.consumes → env.busy=false

def Prober.Complete (s : Prober) : Action → Prop
  | .advance env _ =>
    s.phase=.receive → ∀ (k : Nat) (f : FtsSegmentInfo), s.pairs[k]?=some f → f.Complete (env k)
  | .start | .abort => True

namespace Timed

variable {f : FtsSegmentInfo} {env : PairEnv} {now : Int} {cfg : Settings} {phase : Phase}

theorem of_not_segment (hst : f.state.isSegment=false) (hret : f.state.isRetryWait=false) :
    Timed phase f where
  armed := fun h => absurd h (by simp [hst])
  connected := fun _ h => absurd h (by simp [hst])
  closed := fun h => absurd h (by simp [hret])

theorem of_closed (hconn : f.conn=none) (hph : phase≠.poll) : Timed phase f where
  armed := fun _ c hc => absurd hc (by simp [hconn])
  connected := fun h => absurd h hph
  closed := fun _ => hconn

theorem quiet (h : Timed phase f)
    (hph : phase≠.send ∧ phase≠.receive) (hph' : phase'≠.poll) : Timed phase' f where
  armed := fun hst c hc => by
    obtain ⟨hopen,huns,hunans⟩ := h.armed hst c hc
    refine ⟨fun hok => ?_,fun hok hidle => ?_,fun hok hidle => ?_⟩
    · obtain ⟨hidle,hevs⟩ := hopen hok
      exact ⟨hidle,hevs.imp_right fun hrev => ⟨hph',hrev.2⟩⟩
    · exact (huns hok hidle).imp_right fun hsend => absurd hsend.1 hph.1
    · refine (hunans hok hidle).imp_right fun hpend => ?_
      exact absurd hpend.1 (by simp [hph.1,hph.2])
  connected := fun heq => absurd heq hph'
  closed := h.closed

theorem of_armed (hst : f.state.isSegment) (hconn : f.conn=some c)
    (h : Armed phase f c) : Timed phase f where
  armed := fun _ d hd => by
    rw [hconn] at hd
    cases hd
    exact h
  connected := fun _ _ => by rw [hconn]; rfl
  closed := fun hret => absurd hret (by simp [not_isRetryWait hst])

/-- After the connect phase every pair that is probed has a connection. -/
theorem connect (h : Timed .connect f) : Timed .poll (f.connect env now) := by
  by_cases hst : f.state.isSegment=true
  swap
  · have heq : f.connect env now=f := by simp [FtsSegmentInfo.connect,hst]
    rw [heq]
    exact ⟨fun hs => absurd hs hst,fun _ hs => absurd hs hst,h.closed⟩
  cases hconn : f.conn with
  | none =>
    simp only [FtsSegmentInfo.connect,hconn,any_none,Bool.false_eq_true,if_false,hst,
      if_true,FtsSegmentInfo.connectStart]
    split_ifs
    · refine of_armed hst rfl ?_
      exact ⟨fun _ => ⟨rfl,.inl (by simp [inOrOut])⟩,by simp,by simp⟩
    · exact of_not_segment (by simp) (by simp)
  | some c =>
    obtain ⟨hopen,huns,hunans⟩ := h.armed hst c hconn
    simp only [FtsSegmentInfo.connect,hconn,any_some,hst,if_true]
    split_ifs with hok hrdy
    · -- An established connection waits for the event it has asked for.
      refine of_armed hst hconn ?_
      refine ⟨fun hno => absurd hok (by simp [hno]),fun _ hidle => ?_,fun _ hidle => ?_⟩
      · exact (huns hok hidle).imp_right fun hsend => by cases hsend.1
      · exact (hunans hok hidle).imp_right fun hpend => absurd hpend.1 (by simp)
    · obtain ⟨hidle,-⟩ := hopen (by simpa using hok)
      cases env.connectPoll <;> dsimp only
      case ok =>
        refine of_armed hst rfl ?_
        exact ⟨by simp,fun _ _ => .inl rfl,fun _ hbusy => absurd (hidle.symm.trans hbusy) (by simp)⟩
      case reading | writing =>
        refine of_armed hst rfl ?_
        refine ⟨fun _ => ⟨hidle,.inl ?_⟩,fun h => absurd h hok,fun h => absurd h hok⟩
        simp [inOrOut]
      case failed error =>
        have hfr := checkRestart_frame
          { f with restartState := .notInRestart, state := f.state.nextFailed, conn := some c } error
        exact of_not_segment (by simp [hfr.2.2.2]) (by simp [hfr.2.2.2])
    · obtain ⟨hidle,hevs⟩ := hopen (by simpa using hok)
      refine of_armed hst rfl ?_
      refine ⟨fun _ => ⟨hidle,.inl ?_⟩,fun h => absurd h hok,fun h => absurd h hok⟩
      exact hevs.resolve_right fun hrev => hrdy hrev.2

theorem polled (h : Timed .poll f) (hst : f.state.isSegment) :
    f.conn.isSome ∧ f.pollEvents.inOrOut := by
  have hsome := h.connected rfl hst
  obtain ⟨c,hc⟩ := isSome_iff_exists.mp hsome
  obtain ⟨hopen,huns,hunans⟩ := h.armed hst c hc
  refine ⟨hsome,?_⟩
  cases hok : c.ok with
  | false => exact (hopen hok).2.resolve_right fun hrev => hrev.1 rfl
  | true =>
    cases hidle : c.idle with
    | true =>
      rw [(huns hok hidle).resolve_right (by simp)]
      rfl
    | false =>
      rw [(hunans hok hidle).resolve_right (by simp)]
      rfl

theorem checkTimeout (h : Timed phase f) : Timed phase (f.checkTimeout cfg now) := by
  rw [FtsSegmentInfo.checkTimeout]
  split_ifs
  · exact of_not_segment (by simp) (by simp)
  · exact h

theorem poll_frame (cfg : Settings) (f : FtsSegmentInfo) (env : PairEnv) (now : Int) :
    (f.poll cfg env now).conn=f.conn ∧ ((f.poll cfg env now).state=f.state ∨
      ((f.poll cfg env now).state.isSegment=false ∧ (f.poll cfg env now).state.isRetryWait=false)) := by
  rw [FtsSegmentInfo.poll]
  simp only [FtsSegmentInfo.checkTimeout]
  split_ifs <;> simp

theorem poll (h : Timed .poll f) : Timed .send (f.poll cfg env now) := by
  by_cases hst : f.state.isSegment=true
  swap
  · obtain ⟨hconn,hnext⟩ := poll_frame cfg f env now
    obtain heq | hfld := hnext
    · rw [← heq] at hst
      refine ⟨fun hs => absurd hs hst,fun _ hs => absurd hs hst,fun hret => ?_⟩
      rw [heq] at hret
      rw [hconn]
      exact h.closed hret
    · exact of_not_segment hfld.1 hfld.2
  obtain ⟨hsome,hevs⟩ := h.polled hst
  obtain ⟨c,hc⟩ := isSome_iff_exists.mp hsome
  obtain ⟨hopen,huns,hunans⟩ := h.armed hst c hc
  simp only [FtsSegmentInfo.poll,hevs,if_true]
  apply checkTimeout
  split_ifs with hrdy hother
  · refine of_armed hst hc ⟨fun hok => ?_,fun hok hidle => ?_,fun hok hidle => ?_⟩
    · refine ⟨(hopen hok).1,.inr ⟨by simp,?_⟩⟩
      simp only [inOrOut,Bool.or_eq_true,Bool.and_eq_true] at hrdy ⊢
      exact hrdy.imp And.left And.left
    · rw [(huns hok hidle).resolve_right (by simp)] at hrdy
      exact .inr ⟨rfl,by simpa using hrdy⟩
    · rw [(hunans hok hidle).resolve_right (by simp)] at hrdy
      exact .inr ⟨.inl rfl,by simpa using hrdy⟩
  · exact of_not_segment (by simp) (by simp)
  · refine of_armed hst hc ⟨fun hok => ?_,fun hok hidle => ?_,fun hok hidle => ?_⟩
    · exact ⟨(hopen hok).1,.inl hevs⟩
    · exact .inl ((huns hok hidle).resolve_right (by simp))
    · exact .inl ((hunans hok hidle).resolve_right (by simp))

theorem poll_overdue (h : Timed .poll f) (hst : f.state.isSegment)
    (hlate : cfg.probeTimeout<now-f.startTime) : (f.poll cfg env now).state=f.state.nextFailed := by
  have hevs := (h.polled hst).2
  have hfail : f.state.isSuccess=false ∧ f.state.nextFailed.isSuccess=false ∧
      f.state.nextFailed.nextFailed=f.state.nextFailed := by
    cases hf : f.state <;> simp [hf,isSegment] at hst ⊢ <;> decide
  simp only [FtsSegmentInfo.poll,hevs,if_true,FtsSegmentInfo.checkTimeout]
  split_ifs <;> simp_all

theorem poll_waiting (h : Timed .poll f) (hst : (f.poll cfg env now).state.isSegment) :
    now-(f.poll cfg env now).startTime≤cfg.probeTimeout := by
  have hbef : f.state.isSegment := by
    rcases (poll_frame cfg f env now).2 with heq | hfld
    · rw [← heq]
      exact hst
    · exact absurd hst (by simp [hfld.1])
  have hstart : (f.poll cfg env now).startTime=f.startTime := by
    simp only [FtsSegmentInfo.poll,FtsSegmentInfo.checkTimeout]
    split_ifs <;> rfl
  rw [hstart]
  by_contra hlate
  rw [h.poll_overdue hbef (Int.not_le.mp hlate)] at hst
  exact absurd hst (by simp)

theorem send (h : Timed .send f) : Timed .receive (f.send env).1 := by
  have hsame : (f.state.isSegment → ∀ c, f.conn=some c → c.ok → c.idle →
      f.pollRevents.pollOut=false) → Timed .receive f := by
    intro hwait
    refine ⟨fun hst c hc => ?_,fun hph => absurd hph (by simp),h.closed⟩
    obtain ⟨hopen,huns,hunans⟩ := h.armed hst c hc
    refine ⟨fun hok => ?_,fun hok hidle => ?_,fun hok hidle => ?_⟩
    · exact ⟨(hopen hok).1,(hopen hok).2.imp_right fun hrev => ⟨by simp,hrev.2⟩⟩
    · refine (huns hok hidle).imp_right fun hpend => ?_
      exact absurd hpend.2 (by simp [hwait hst c hc hok hidle])
    · exact (hunans hok hidle).imp_right fun hpend => ⟨.inr rfl,hpend.2⟩
  rw [FtsSegmentInfo.send]
  cases hconn : f.conn with
  | none => exact hsame fun _ c hc => absurd hc (by simp [hconn])
  | some c =>
    dsimp only
    split_ifs with hrdy hsent
    · refine of_armed hrdy.1 rfl ⟨fun hok => ?_,fun _ hidle => ?_,fun _ _ => .inl rfl⟩
      · exact absurd hrdy.2.1 (by simpa using hok)
      · cases hidle
    · exact of_not_segment (by simp) (by simp)
    · apply hsame
      intro hst d hd hok hidle
      rw [hconn] at hd
      cases hd
      cases hout : f.pollRevents.pollOut with
      | false => rfl
      | true => exact absurd ⟨hst,hok,hidle,hout⟩ hrdy

theorem receive (h : Timed .receive f) (hcomplete : f.Complete env) :
    Timed .retry (f.receive env) := by
  have hsame : (f.state.isSegment → ∀ c, f.conn=some c → c.ok → f.pollRevents.pollIn=false) →
      Timed .retry f := by
    intro hwait
    refine ⟨fun hst c hc => ?_,fun hph => absurd hph (by simp),h.closed⟩
    obtain ⟨hopen,huns,hunans⟩ := h.armed hst c hc
    refine ⟨fun hok => ?_,fun hok hidle => ?_,fun hok hidle => ?_⟩
    · exact ⟨(hopen hok).1,(hopen hok).2.imp_right fun hrev => ⟨by simp,hrev.2⟩⟩
    · exact (huns hok hidle).imp_right fun hpend => by cases hpend.1
    · refine (hunans hok hidle).imp_right fun hpend => ?_
      exact absurd hpend.2 (by simp [hwait hst c hc hok])
  rw [FtsSegmentInfo.receive]
  cases hconn : f.conn with
  | none => exact hsame fun _ c hc => absurd hc (by simp [hconn])
  | some c =>
    dsimp only
    split_ifs with hrdy hread hbusy
    · exact of_not_segment (by simp) (by simp)
    · have hdone := hcomplete hrdy.1 (by simp [hconn,hrdy.2.1]) hrdy.2.2 (by simpa using hread)
      exact absurd hbusy (by simp [hdone])
    · cases env.response with
      | error => exact of_not_segment (by simp) (by simp)
      | tuple result =>
        apply of_not_segment <;>
          cases hf : f.state <;> simp [hf,isSegment] at hrdy <;> rfl
    · apply hsame
      intro hst d hd hok
      rw [hconn] at hd
      cases hd
      cases hin : f.pollRevents.pollIn with
      | false => rfl
      | true => exact absurd ⟨hst,hok,hin⟩ hrdy

theorem processRetry (h : Timed .retry f) : Timed (.respond 0) (f.processRetry cfg now) := by
  have hsame : Timed (.respond 0) f := h.quiet (by simp) (by simp)
  have hret : Timed (.respond 0) (f.retryForFtsFailed cfg now) := by
    rw [retryForFtsFailed]
    split_ifs
    · exact hsame
    · exact of_closed rfl (by simp)
  have hwake : f.state.isRetryWait → ∀ state, Timed (.respond 0)
      (if now-f.retryStartTime<1 then f else { f with state := state }) := by
    intro hwait state
    split_ifs
    · exact hsame
    · exact of_closed (h.closed hwait) (by simp)
  rw [FtsSegmentInfo.processRetry]
  cases hf : f.state with
  | probeSuccess =>
    dsimp only
    split_ifs
    · exact hret
    · exact hsame
  | probeFailed | syncrepOffFailed | promoteFailed => exact hret
  | probeRetryWait | syncrepOffRetryWait | promoteRetryWait => exact hwake (by rw [hf]; rfl) _
  | _ => exact hsame

theorem processResponse (h : Timed (.respond k) f) (rows : List SegmentConfig) :
    Timed (.respond (k+1)) (f.processResponse rows).1 := by
  have hsame : Timed (.respond (k+1)) f := h.quiet (by simp) (by simp)
  rw [FtsSegmentInfo.processResponse]
  cases f.state with
  | probeSuccess | probeFailed => split_ifs <;> exact of_closed rfl (by simp)
  | syncrepOffFailed | promoteFailed | promoteSuccess | syncrepOffSuccess =>
    exact of_closed rfl (by simp)
  | _ => exact hsame

theorem mapIdx {pairs : List FtsSegmentInfo} (h : ∀ f∈pairs, Timed phase f)
    (hg : ∀ k f, pairs[k]?=some f → Timed phase f → Timed phase' (g k f)) :
    ∀ f∈pairs.mapIdx g, Timed phase' f := by
  intro f' hf'
  obtain ⟨k,hk⟩ := mem_iff_getElem?.mp hf'
  rw [getElem?_mapIdx] at hk
  obtain ⟨f,hf,rfl⟩ := map_eq_some_iff.mp hk
  exact hg k f hf (h f (mem_iff_getElem?.mpr ⟨k,hf⟩))

/-- Every step keeps what a pair waits for in step with the phase. -/
theorem step {s : Prober} (h : ∀ f∈s.pairs, Timed s.phase f)
    (hcomplete : s.Complete a) (hstep : s.step cfg a=some t) : ∀ f∈t.pairs, Timed t.phase f := by
  cases a with
  | start =>
    cases hph : s.phase <;> simp only [Prober.step,hph,reduceCtorEq] at hstep
    cases hstep
    intro f hf
    obtain ⟨p,-,hfound⟩ := mem_filterMap.mp hf
    obtain ⟨-,m,-,rfl⟩ := of_guard_map hfound
    exact of_closed rfl (by simp)
  | abort =>
    cases hstep
    intro f hf
    cases hf
  | advance env now =>
    cases hph : s.phase <;> rw [hph] at h <;>
      simp only [Prober.step,hph,reduceCtorEq] at hstep
    case connect =>
      split_ifs at hstep
      · cases hstep
        exact fun f hf => (h f hf).quiet (by simp) (by simp)
      · cases hstep
        exact mapIdx h fun k f _ hf => hf.connect
    case poll =>
      cases hstep
      exact mapIdx h fun k f _ hf => hf.poll
    case send =>
      cases hstep
      intro f' hf'
      obtain ⟨x,hx,rfl⟩ := mem_map.mp hf'
      obtain ⟨k,hk⟩ := mem_iff_getElem?.mp hx
      rw [getElem?_mapIdx] at hk
      obtain ⟨f,hf,rfl⟩ := map_eq_some_iff.mp hk
      exact (h f (mem_iff_getElem?.mpr ⟨k,hf⟩)).send
    case receive =>
      cases hstep
      exact mapIdx h fun k f hk hf => hf.receive (hcomplete hph k f hk)
    case retry =>
      cases hstep
      intro f' hf'
      obtain ⟨f,hf,rfl⟩ := mem_map.mp hf'
      exact (h f hf).processRetry
    case respond k =>
      cases hf : s.pairs[k]? with
      | none =>
        rw [hf] at hstep
        cases hstep
        exact fun f hf => (h f hf).quiet (by simp) (by simp)
      | some f =>
        rw [hf] at hstep
        cases hstep
        intro g hg
        obtain hold | heq := mem_or_eq_of_mem_set hg
        · exact (h g hold).quiet (by simp) (by simp)
        · rw [heq]
          exact (h f (mem_iff_getElem?.mpr ⟨k,hf⟩)).processResponse s.catalog

end Timed

/-- No segment escapes the timeout, as long as every response that is read is complete: a pair that
waits when `ftsPoll` is called has a connection and is polled, it fails in that call if it is overdue,
and no pair waits on overdue after it. -/
theorem timeout_checked (cfg : Settings) (rows : List SegmentConfig) (acts : List Action)
    (s : Prober) (hcomplete : EveryStep (step cfg) Prober.Complete { catalog := rows } acts)
    (hrun : run (step cfg) { catalog := rows } acts=some s) (hphase : s.phase=.poll) :
    (∀ f∈s.pairs, f.state.isSegment → f.conn.isSome ∧ f.pollEvents.inOrOut) ∧
    ∀ env now t, s.step cfg (.advance env now)=some t →
      ∀ (k : Nat) (f f' : FtsSegmentInfo), s.pairs[k]?=some f → t.pairs[k]?=some f' →
        (f.state.isSegment → cfg.probeTimeout<now-f.startTime → f'.state=f.state.nextFailed) ∧
        (f'.state.isSegment → now-f'.startTime≤cfg.probeTimeout) := by
  have htim : ∀ f∈s.pairs, Timed s.phase f := by
    refine run_invariant_of_everyStep (P := fun s => ∀ f∈s.pairs, Timed s.phase f)
      (fun s a t hs ha hstep => Timed.step hs ha hstep) ?_ hcomplete hrun
    simp
  rw [hphase] at htim
  refine ⟨fun f hf hst => (htim f hf).polled hst,?_⟩
  intro env now t hstep k f f' hf hf'
  simp only [step,hphase] at hstep
  cases hstep
  rw [getElem?_mapIdx,hf] at hf'
  obtain rfl := some.inj hf'
  have hpair := htim f (mem_iff_getElem?.mpr ⟨k,hf⟩)
  exact ⟨hpair.poll_overdue,hpair.poll_waiting⟩

def timeoutSettings : Settings := { probeTimeout := 20, probeRetries := 5 }

def silentStart : List Action := [.start,.advance (fun _ => {}) 0]

theorem timeout_checked_silent :
    ∃ s t f, run (step timeoutSettings) { catalog := syncedRows } silentStart=some s ∧
      s.step timeoutSettings (.advance (fun _ => {}) 30)=some t ∧ t.pairs[0]?=some f ∧
      f.state=.probeFailed := by
  have hend : (run (step timeoutSettings) { catalog := syncedRows } silentStart).map
      (fun s => (s.phase, s.pairs.map fun f => (f.state, f.startTime)))
      =some (.poll, [(.probeSegment, 0)]) := by decide +kernel
  obtain ⟨s,hrun,hproj⟩ := map_eq_some_iff.mp hend
  have hph : s.phase=.poll := congrArg Prod.fst hproj
  have hprs := congrArg Prod.snd hproj
  obtain ⟨f,hf⟩ : ∃ f, s.pairs=[f] := length_eq_one_iff.mp (by simpa using congrArg length hprs)
  simp only [hf,map_cons,map_nil,cons.injEq,Prod.mk.injEq,and_true] at hprs
  have hcomplete : EveryStep (step timeoutSettings) Prober.Complete
      { catalog := syncedRows } silentStart := by
    apply everyStep_of_forall_mem
    intro a ha s
    simp only [silentStart,mem_cons,not_mem_nil,or_false] at ha
    rcases ha with rfl | rfl
    · trivial
    · exact fun _ _ _ _ _ _ _ _ => rfl
  have hstep : s.step timeoutSettings (.advance (fun _ => {}) 30)
      =some { s with pairs := [f.poll timeoutSettings {} 30], phase := .send } := by
    simp [step,hph,hf]
  have hchec := (timeout_checked timeoutSettings syncedRows silentStart s hcomplete hrun hph).2
    (fun _ => {}) 30 _ hstep 0 f _ (by rw [hf]; rfl) rfl
  refine ⟨s,_,_,hrun,hstep,rfl,?_⟩
  rw [hchec.1 (by rw [hprs.1]; rfl) (by rw [hprs.2]; decide),hprs.1]
  rfl

def halfResponse (now : Int) : Action :=
  .advance (fun _ => { revents := { pollIn := true }, busy := true }) now

/-- The connection is opened and the message sent before the first part of the response arrives. -/
def halfSession : List Action :=
  .start::(replicate 14 (.advance (fun _ => { revents := { pollOut := true } }) 0) ++
    replicate 8 (halfResponse 0))

def halfPair : FtsSegmentInfo :=
  { primary := firstRow
    mirror := secondRow
    pollRevents := { pollIn := true }
    conn := some { ok := true, idle := false } }

def halfState : Prober :=
  { catalog := syncedRows, cdbs := syncedRows, pairs := [halfPair], phase := .poll }

theorem halfState_round (now : Int) :
    run (step timeoutSettings) halfState (replicate 7 (halfResponse now))
      =some halfState := rfl

theorem half_response_never_times_out :
    run (step timeoutSettings) { catalog := syncedRows } halfSession=some halfState ∧
    halfPair.state.isSegment ∧ halfPair.conn.isSome ∧ halfPair.pollEvents.inOrOut=false ∧
    ∀ clock : List Int, run (step timeoutSettings) halfState
      (clock.flatMap fun now => replicate 7 (halfResponse now))=some halfState := by
  refine ⟨rfl,rfl,rfl,rfl,fun clock => ?_⟩
  induction clock with
  | nil => rfl
  | cons now clock ih =>
    rw [flatMap_cons]
    exact (run_append_iff _ _ _ _).mpr ⟨halfState,halfState_round now,ih⟩

end WarehousePG.Fts
