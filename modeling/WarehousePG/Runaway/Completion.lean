import WarehousePG.Runaway.CleanerSteps

namespace WarehousePG.Runaway

open Framework Function Process Segment SessionState List

namespace SegmentInv

attribute [local simp] Segment.setPhase Segment.setProc Segment.setSession special

section

variable (h : SegmentInv st s)
include h

/-- A flagged session has a process that is not done. -/
theorem flagged_busy (hk : st.flags k) :
    ∃ q<s.nProcs, (s.procs q).attached=true ∧ (s.procs q).session=k ∧
      ((s.procs q).owes=true ∨ (s.procs q).phase=.resetting ∨ (s.procs q).phase=.unflagging) := by
  cases st with
  | idle | choosing q | enabling q => exact absurd hk id
  | cleaning l =>
    obtain rfl : k=l := hk
    obtain hpos | ⟨q,hq,hses⟩ := h.stage.awaited k rfl
    · have hne : ¬∀ q<s.nProcs, (s.procs q).owes=false := by
        intro hall
        exact absurd (tally_eq_zero.mpr hall) (Nat.ne_of_gt hpos)
      simp only [not_forall,Bool.not_eq_false] at hne
      obtain ⟨q,hq,howes⟩ := hne
      have hatt := (h.procs q).attached (.inr howes)
      have hst := h.stage.owing q howes
      exact ⟨q,hq,hatt,by injection hst with hses; exact hses.symm,.inl howes⟩
    · have hatt : (s.procs q).attached=true := by simp [attached,hq]
      exact ⟨q,h.inside q hatt,hatt,hses,.inr (.inl hq)⟩
  | winning q l =>
    obtain rfl : k=l := hk
    have hspec := h.stage.held q rfl
    have hph : (s.procs q).phase=.unflagging ∧ (s.procs q).session=k := by
      rw [special] at hspec
      split at hspec <;> simp at hspec
      next hx => exact ⟨hx,hspec⟩
    have hatt : (s.procs q).attached=true := by simp [attached,hph.1]
    exact ⟨q,h.inside q hatt,hatt,hph.2,.inr (.inr hph.1)⟩

theorem repin (hp : p<s.nProcs) (hsame : SameShared s t) (hps : t.procs=update s.procs p pr)
    (hdet : t.isRunawayDetector=s.isRunawayDetector)
    (hidle : (s.procs p).isProcessActive=false ∧ pr.isProcessActive=false)
    (howes : (s.procs p).owes=false ∧ pr.owes=false)
    (hspec : (s.procs p).special p=none ∧ pr.special p=none)
    (hreset : (s.procs p).phase≠.resetting ∧ pr.phase≠.resetting)
    (hbeg : pr.beginCleanup=s.latestRunawayVersion →
      (s.procs p).beginCleanup=s.latestRunawayVersion ∨ s.latestRunawayVersion=0)
    (hss : ∀ k, (t.sessions k).runawayStatus=(s.sessions k).runawayStatus ∧
      (t.sessions k).cleanupCountdown=(s.sessions k).cleanupCountdown ∧
      (t.sessions k).activeProcessCount=(s.sessions k).activeProcessCount ∧ (t.sessions k).pinCount
        +(((s.procs p).attached && decide ((s.procs p).session=k)).toNat : Int)
          =(s.sessions k).pinCount+((pr.attached && decide (pr.session=k)).toNat : Int))
    (hok : ProcessOk s.latestRunawayVersion s.currentVersion (st.flags pr.session) pr) :
    SegmentInv st t := by
  have hstg : StageOk st t := by
    apply h.stage.keep hsame hps
    case hses => simp [howes.2]
    case howes => rw [howes.1,howes.2]
    case hdet => exact hdet
    case hss => exact fun k => ⟨(hss k).1,(hss k).2.1⟩
    case hspec => rw [hspec.1,hspec.2]
    case hold => exact hreset.1
    case hnew => exact hreset.2
  refine h.withStage hp hsame hps (howes.2.trans howes.1.symm)
    (fun hb => (hbeg hb).imp_right .inr) (fun k => (hss k).2.2.2) (fun k => ?_)
    (fun _ hk => hk) hok hstg
  rw [(hss k).2.2.1,hidle.1,hidle.2]
  rfl

/-- A session without processes has been reset. -/
theorem vacant (hpin : (s.sessions k).pinCount=0) : s.sessions k=.empty := by
  have hcnt : s.nPinned k=0 := by
    have hcnt := h.pinned k
    rw [hpin] at hcnt
    omega
  have hnob : ∀ q<s.nProcs, ((s.procs q).attached && decide ((s.procs q).session=k))=false :=
    tally_eq_zero.mp hcnt
  have hnot : ¬st.flags k := by
    intro hk
    obtain ⟨q,hq,hatt,hses,_⟩ := h.flagged_busy hk
    have := hnob q hq
    simp [hatt,hses] at this
  have hsta : (s.sessions k).runawayStatus=.notRunaway := by
    by_contra hsta
    exact hnot ((h.stage.flagged k).mp hsta)
  have hcd : (s.sessions k).cleanupCountdown=-1 := by
    rw [h.stage.countdown k,if_neg]
    intro hst
    exact hnot (by rw [hst]; rfl)
  have hactive : (s.sessions k).activeProcessCount=0 := by
    have hzero : s.nActive k=0 := by
      apply tally_eq_zero.mpr
      intro q hq
      by_contra hyes
      simp only [Bool.not_eq_false,Bool.and_eq_true,decide_eq_true_eq] at hyes
      have hatt := (h.procs q).attached (.inl hyes.1)
      have := hnob q hq
      simp [hatt,hyes.2] at this
    rw [h.active k,hzero]
    rfl
  cases hs : s.sessions k
  simp only [hs] at hsta hcd hactive hpin
  simp [empty,hsta,hcd,hactive,hpin]

theorem acquire (hp : p<s.nProcs) (hph : (s.procs p).phase=.fresh)
    (k : Nat) : SegmentInv st (s.acquire p k) := by
  have hent : (if (s.sessions k).pinCount=0 then empty else s.sessions k) =s.sessions k := by
    split
    · next hpin => rw [h.vacant hpin]
    · rfl
  have hnot := (h.procs p).outside (.inl hph)
  have hvers := h.versions
  rw [Segment.acquire,hent]
  apply h.repin hp
  case hsame => exact ⟨rfl,rfl,rfl,rfl,rfl⟩
  case hps | hdet => rfl
  case hidle => exact ⟨hnot.1,rfl⟩
  case howes => exact ⟨hnot.2,rfl⟩
  case hspec => simp [hph]
  case hreset => simp [hph]
  case hbeg => exact fun hb => .inr hb.symm
  case hss =>
    intro l
    by_cases hl : l=k
    · subst hl
      simp [attached,hph]
    · simp [update_of_ne hl,attached,hph,Ne.symm hl]
  case hok =>
    refine ⟨hvers.1,Int.le_refl _,?_,?_,fun _ => rfl,absurd,
      by simp [unborn],by simp [unborn],by simp,?_,fun _ => ⟨rfl,rfl⟩,
      fun _ => rfl,by simp,by simp [unborn],by simp⟩
    · simp only [unborn]
      omega
    · simp only [unborn]
      omega
    · intro _ _ _ hact
      exact ⟨rfl,Int.le_of_lt hact⟩

theorem exiting_not_owes (hph : (s.procs p).phase=.ready)
    (hexit : (s.procs p).exiting=true) : (s.procs p).owes=false := by
  have hpr := h.procs p
  have hcln := hpr.exiting hexit
  by_contra howes
  have howes : (s.procs p).owes=true := by simpa using howes
  by_cases hbeg : (s.procs p).beginCleanup=s.latestRunawayVersion
  · have hcounting := hpr.ending howes (hcln.2.trans hbeg)
    simp [hph] at hcounting
  · have hpend := (hpr.pending howes hbeg).2
    simp [hph,hcln.1] at hpend

theorem release (hp : p<s.nProcs) (hph : (s.procs p).phase=.ready)
    (hexit : (s.procs p).exiting=true) : SegmentInv st (s.release p) := by
  have hidle := ((h.procs p).exiting hexit).1
  have howes := h.exiting_not_owes hph hexit
  have hatt : (s.procs p).attached=true := by simp [attached,hph]
  have hleft : SegmentInv st ((s.setSession (s.procs p).session
      { s.sessions (s.procs p).session with
        pinCount := (s.sessions (s.procs p).session).pinCount-1 }).setPhase p .gone) := by
    apply h.repin hp
    case hsame => exact ⟨rfl,rfl,rfl,rfl,rfl⟩
    case hps | hdet => rfl
    case hidle => exact ⟨hidle,hidle⟩
    case howes => exact ⟨howes,howes⟩
    case hspec => simp [hph]
    case hreset => simp [hph]
    case hbeg => exact .inl
    case hss =>
      intro l
      by_cases hl : l=(s.procs p).session
      · subst hl
        simp [hatt]
        simp [attached]
      · simp [update_of_ne hl,Ne.symm hl]
    case hok =>
      refine { h.procs p with
        pending := by simp [howes], ending := by simp [howes]
        counting := by simp, outside := fun _ => ⟨hidle,howes⟩, starting := by simp
        reactivating := by simp, winner := by simp }
  rw [Segment.release]
  split
  · next hlast =>
    -- the entry that is freed equals the one that lost its last pin
    have hemp := hleft.vacant (k := (s.procs p).session)
      (by simpa using hlast)
    have hent : { s.sessions (s.procs p).session with
        pinCount := (s.sessions (s.procs p).session).pinCount-1 }=empty := by
      simpa using hemp
    have hsta : (s.sessions (s.procs p).session).runawayStatus=.notRunaway :=
      congrArg runawayStatus hent
    rw [endCleanupOf,if_pos hsta,← hent]
    exact hleft
  · exact hleft

end

end SegmentInv

attribute [local simp] Segment.setPhase Segment.setProc Segment.setSession special

/-- What counting down changes: the process no longer owes, and the countdown of its session and the
list of those who have counted down are changed by one. -/
structure CountedDown (s t : Segment) (p k : Nat) : Prop where
  procs : t.procs=update s.procs p { s.procs p with owes := false, phase := .resetting }
  sessions : t.sessions=update s.sessions k
    { s.sessions k with cleanupCountdown := (s.sessions k).cleanupCountdown-1 }
  nProcs : t.nProcs=s.nProcs
  currentVersion : t.currentVersion=s.currentVersion
  latestRunawayVersion : t.latestRunawayVersion=s.latestRunawayVersion
  isRunawayDetector : t.isRunawayDetector=s.isRunawayDetector
  events : t.events=s.events
  counted : t.counted=(p, s.latestRunawayVersion)::s.counted

namespace CountedDown

variable (hd : CountedDown s t p k)
include hd

theorem self : t.procs p={ s.procs p with owes := false, phase := .resetting } := by
  rw [hd.procs,update_self]

theorem others (q : Nat) (hq : q≠p) : t.procs q=s.procs q := by
  rw [hd.procs,update_of_ne hq]

theorem counts (l : Nat) : (t.sessions l).runawayStatus=(s.sessions l).runawayStatus ∧
    (t.sessions l).activeProcessCount=(s.sessions l).activeProcessCount ∧
    (t.sessions l).pinCount=(s.sessions l).pinCount := by
  rw [hd.sessions]
  by_cases hl : l=k
  · subst hl
    simp
  · simp [update_of_ne hl]

theorem nOwing (hp : p<s.nProcs) (howes : (s.procs p).owes=true) : t.nOwing+1=s.nOwing := by
  have htally := tally_update hp s.procs { s.procs p with owes := false, phase := .resetting }
    fun pr => pr.owes
  rw [Segment.nOwing,Segment.nOwing,hd.nProcs,hd.procs]
  simpa [howes] using htally

variable (h : SegmentInv (.cleaning k) s)
include h

/-- The process has ended its cleanup, and the others are as before. -/
theorem process (hbeg : (s.procs p).beginCleanup=s.latestRunawayVersion)
    (hend : (s.procs p).endCleanup=s.latestRunawayVersion) (q : Nat) :
    ProcessOk t.latestRunawayVersion t.currentVersion
      ((Stage.cleaning k).flags (t.procs q).session) (t.procs q) := by
  rw [hd.latestRunawayVersion,hd.currentVersion]
  by_cases hq : q=p
  · subst hq
    rw [hd.self]
    exact { h.procs q with
      started := fun _ he => absurd hend he
      pending := fun _ hb => absurd hbeg hb
      ending := by simp
      counting := by simp
      skipped := fun _ _ hb => absurd hbeg hb
      outside := by simp
      starting := by simp
      reactivating := by simp
      winner := by simp }
  · rw [hd.others q hq]
    exact h.procs q

/-- The countdown stays the number of those who owe. -/
theorem stage (hp : p<s.nProcs) (hph : (s.procs p).phase=.counting)
    (howes : (s.procs p).owes=true) (hk : (s.procs p).session=k)
    (hbeg : (s.procs p).beginCleanup=s.latestRunawayVersion) : StageOk (.cleaning k) t := by
  have howing := hd.nOwing hp howes
  have hspec : ∀ q, (t.procs q).special q=(s.procs q).special q := by
    intro q
    by_cases hq : q=p
    · rw [hq,hd.self]
      simp [hph]
    · rw [hd.others q hq]
  refine ⟨?detector,?flagged,?countdown,?special,?held,?owing,?awaited,?resetting⟩
  case detector =>
    rw [hd.isRunawayDetector]
    exact h.stage.detector
  case flagged =>
    intro l
    rw [(hd.counts l).1]
    exact h.stage.flagged l
  case countdown =>
    intro l
    have hold := h.stage.countdown l
    rw [hd.sessions]
    by_cases hl : l=k
    · subst hl
      rw [if_pos rfl] at hold ⊢
      rw [update_self]
      dsimp only
      omega
    · rw [update_of_ne hl,hold,if_neg,if_neg]
      · simpa using Ne.symm hl
      · simpa using Ne.symm hl
  case special =>
    intro q σ hq
    rw [hspec q] at hq
    exact h.stage.special q σ hq
  case held =>
    intro q hq
    cases hq
  case owing =>
    intro q hq
    by_cases hqp : q=p
    · rw [hqp,hd.self] at hq
      cases hq
    · rw [hd.others q hqp] at hq ⊢
      exact h.stage.owing q hq
  case awaited =>
    intro l hl
    right
    refine ⟨p,?_,?_⟩
    · rw [hd.self]
    · rw [hd.self]
      injection hl with hl
      exact hk.trans hl
  case resetting =>
    intro q hq hst
    rw [hd.latestRunawayVersion]
    by_cases hqp : q=p
    · rw [hqp,hd.self]
      exact hbeg
    · rw [hd.others q hqp] at hq hst ⊢
      exact h.stage.resetting q hq hst

/-- The process is listed once for the event that it owed a cleanup for. -/
theorem log (howes : (s.procs p).owes=true)
    (hbeg : (s.procs p).beginCleanup=s.latestRunawayVersion) : LogOk t := by
  refine ⟨?version,?counted,?balance,?begun⟩
  case version =>
    rw [hd.events,hd.latestRunawayVersion]
    exact h.log.version_le
  case counted =>
    intro x hx
    rw [hd.counted] at hx
    rw [hd.latestRunawayVersion]
    obtain hnew | hold := mem_cons.mp hx
    · simp [hnew]
    · exact h.log.counted_le x hold
  case balance =>
    intro e he q
    rw [hd.events] at he
    have hbal := h.log.balance e he q
    rw [hd.counted,hd.latestRunawayVersion,← hbal,count_cons]
    by_cases hqp : q=p
    · subst hqp
      rw [hd.self,howes]
      by_cases hv : e.version=s.latestRunawayVersion
      · simp [hv]
      · simp [hv,Ne.symm hv]
    · rw [hd.others q hqp]
      simp [Ne.symm hqp]
  case begun =>
    intro e he hv q hq
    rw [hd.events] at he
    rw [hd.latestRunawayVersion] at hv hq
    apply h.log.begun e he hv q
    by_cases hqp : q=p
    · rw [hqp]
      exact hbeg
    · rw [hd.others q hqp] at hq
      exact hq

end CountedDown

namespace SegmentInv

section

variable (h : SegmentInv st s)
include h

/-- A process counts down once, for the event it was active at. -/
theorem countDown (hp : p<s.nProcs)
    (hph : (s.procs p).phase=.counting) : SegmentInv st (s.countDown p) := by
  obtain ⟨howes,hbeg,hend⟩ := (h.procs p).counting (.inr hph)
  obtain rfl := h.stage.owing p howes
  have hd : CountedDown s (s.countDown p) p (s.procs p).session :=
    ⟨rfl,rfl,rfl,rfl,rfl,rfl,rfl,rfl⟩
  generalize s.countDown p=t at hd
  refine ⟨hd.process h hbeg hend,?inside,?versions,?active,?pinned,
    hd.stage h hp hph howes rfl hbeg,hd.log h howes hbeg⟩
  case inside =>
    intro q hq
    rw [hd.nProcs]
    by_cases hqp : q=p
    · rw [hqp]
      exact hp
    · rw [hd.others q hqp] at hq
      exact h.inside q hq
  case versions =>
    rw [hd.latestRunawayVersion,hd.currentVersion]
    exact h.versions
  case active =>
    intro l
    have hcnt : t.nActive l=s.nActive l := by
      rw [nActive,hd.nProcs,hd.procs]
      exact tally_update_same s.procs _ _ rfl
    rw [(hd.counts l).2.1,hcnt]
    exact h.active l
  case pinned =>
    intro l
    have hcnt : t.nPinned l=s.nPinned l := by
      rw [nPinned,hd.nProcs,hd.procs]
      apply tally_update_same
      simp [attached,hph]
    rw [(hd.counts l).2.2,hcnt]
    exact h.pinned l

theorem mem_activeIn :
    q∈s.activeIn k ↔ (s.procs q).isProcessActive=true ∧ (s.procs q).session=k := by
  simp only [activeIn,mem_filter,mem_range,Bool.and_eq_true,decide_eq_true_eq]
  constructor
  · exact fun hq => hq.2
  · exact fun hq => ⟨h.inside q ((h.procs q).attached (.inl hq.1)),hq⟩

theorem all_ended (hst : ∀ k, st≠.cleaning k) (q : Nat) :
    (s.procs q).endCleanup=(s.procs q).beginCleanup := by
  by_cases hbeg : (s.procs q).beginCleanup=s.latestRunawayVersion
  · by_contra hend
    have howes := (h.procs q).started hbeg (hbeg ▸ hend)
    rw [h.not_owes hst q] at howes
    cases howes
  · exact (h.procs q).finished hbeg

end

end SegmentInv

/-- What an event changes: the session is flagged with its active processes to count down, and they
owe a cleanup. -/
structure EventOf (s t : Segment) (p k : Nat) (isTop : Bool) : Prop where
  procs : ∀ q, t.procs q={ s.procs q with
    owes := decide (q∈s.activeIn k)
    phase := if q=p then .checking else (s.procs q).phase }
  sessions : t.sessions=update s.sessions k
    { s.sessions k with
      cleanupCountdown := (s.sessions k).activeProcessCount
      runawayStatus := if isTop then .primary else .secondary }
  nProcs : t.nProcs=s.nProcs
  currentVersion : t.currentVersion=s.currentVersion+2
  latestRunawayVersion : t.latestRunawayVersion=s.currentVersion+1
  isRunawayDetector : t.isRunawayDetector=s.isRunawayDetector
  events : t.events=⟨s.currentVersion+1,k,s.activeIn k⟩::s.events
  counted : t.counted=s.counted

namespace EventOf

variable (he : EventOf s t p k isTop)
include he

theorem counts (l : Nat) : (t.sessions l).activeProcessCount=(s.sessions l).activeProcessCount ∧
    (t.sessions l).pinCount=(s.sessions l).pinCount := by
  rw [he.sessions]
  by_cases hl : l=k
  · subst hl
    simp
  · simp [update_of_ne hl]

variable (h : SegmentInv (.choosing p) s)
include h

theorem nOwing : t.nOwing=s.nActive k := by
  rw [Segment.nOwing,nActive,he.nProcs]
  apply tally_congr
  intro q _
  rw [he.procs q,Bool.eq_iff_iff]
  simp [h.mem_activeIn]

omit he in
/-- Versions of the processes and of earlier events are below the version of this one. -/
theorem begin_lt (q : Nat) : (s.procs q).beginCleanup<s.currentVersion+1 := by
  have := (h.procs q).begin_le
  have := h.versions
  omega

/-- A process owes a cleanup for the event if it was active in the session, and no other. -/
theorem process (q : Nat) : ProcessOk t.latestRunawayVersion t.currentVersion
    ((Stage.cleaning k).flags (t.procs q).session) (t.procs q) := by
  have hnone := h.not_owes (by simp)
  have hended := h.all_ended (by simp)
  have hvers := h.versions
  have hpr := h.procs q
  have hb := begin_lt h q
  have hle := hpr.activation_le
  have hle' := hpr.deactivation_le
  rw [he.latestRunawayVersion,he.currentVersion,he.procs q]
  refine ⟨?_,hpr.end_le,?_,?_,fun _ => hended q,?_,?_,?_,?_,?_,?_,?_,?_,hpr.exiting,?_⟩
  · dsimp only
    omega
  · dsimp only
    omega
  · dsimp only
    omega
  · intro hv
    dsimp only at hv
    omega
  · intro howes _
    have hin := h.mem_activeIn.mp (of_decide_eq_true howes)
    refine ⟨?_,.inl hin.1⟩
    dsimp only
    omega
  · intro _ hend
    dsimp only at hend
    rw [hended q] at hend
    omega
  · intro hx
    dsimp only at hx
    split at hx
    · simp at hx
    · have howes := (hpr.counting hx).1
      rw [hnone q] at howes
      cases howes
  · intro hk howes _ _
    have hout : q∉s.activeIn k := of_decide_eq_false howes
    have hidle : ¬(s.procs q).isProcessActive=true :=
      fun hyes => hout (h.mem_activeIn.mpr ⟨hyes,hk⟩)
    refine ⟨by simpa using hidle,?_⟩
    dsimp only
    omega
  · intro hx
    dsimp only at hx ⊢
    split at hx
    · simp at hx
    · have hidle := (hpr.outside hx).1
      refine ⟨hidle,?_⟩
      apply decide_eq_false
      intro hin
      have hyes := (h.mem_activeIn.mp hin).1
      rw [hidle] at hyes
      cases hyes
  · intro hx
    dsimp only at hx
    split at hx
    · cases hx
    · exact hpr.starting hx
  · intro hx
    dsimp only at hx
    split at hx
    · cases hx
    · exact hpr.reactivating hx
  · intro hx
    dsimp only at hx
    split at hx
    · simp at hx
    · -- no process of an earlier cleanup is left while the detector chooses
      obtain hx | hx := hx
      · cases h.stage.special q (.winning q (s.procs q).session) (by simp [hx])
      · cases h.stage.special q (.enabling q) (by simp [hx])

/-- The countdown is the number of those who owe from the beginning. -/
theorem stage (hactive : 0<(s.sessions k).activeProcessCount)
    (hqt : ∀ q<s.nProcs, (s.procs q).session=k → (s.procs q).phase≠.resetting) :
    StageOk (.cleaning k) t := by
  have howing := he.nOwing h
  refine ⟨?detector,?flagged,?countdown,?special,?held,?owing,?awaited,?resetting⟩
  case detector =>
    rw [he.isRunawayDetector]
    exact h.stage.detector.trans (by simp)
  case flagged =>
    intro l
    rw [he.sessions]
    by_cases hl : l=k
    · subst hl
      rw [update_self]
      cases isTop <;> simp [Stage.flags]
    · rw [update_of_ne hl]
      have hot := h.stage.flagged l
      simpa [Stage.flags,hl] using hot
  case countdown =>
    intro l
    rw [he.sessions]
    by_cases hl : l=k
    · subst hl
      rw [update_self,if_pos rfl,howing]
      exact h.active l
    · rw [update_of_ne hl,if_neg (by simpa using Ne.symm hl)]
      exact h.countdown_idle (by simp) l
  case special =>
    intro q σ hq
    rw [he.procs q] at hq
    by_cases hqp : q=p
    · simp [hqp] at hq
    · have hold : (s.procs q).special q=some σ := by simpa [hqp] using hq
      have hst := h.stage.special q σ hold
      have hhol := special_holder hold
      rw [← hst] at hhol
      exact absurd (Option.some.inj hhol).symm hqp
  case held =>
    intro q hq
    cases hq
  case owing =>
    intro q hq
    rw [he.procs q] at hq ⊢
    rw [(h.mem_activeIn.mp (of_decide_eq_true hq)).2]
  case awaited =>
    intro l _
    left
    have hcnt := h.active k
    rw [howing]
    omega
  case resetting =>
    intro q hq hstg
    rw [he.procs q] at hq hstg
    dsimp only at hq hstg
    split at hq
    · cases hq
    · injection hstg with hses
      have hatt : (s.procs q).attached=true := by simp [attached,hq]
      exact absurd hq (hqt q (h.inside q hatt) hses.symm)

/-- Nobody has counted down for the event yet. -/
theorem log : LogOk t := by
  have hnone := h.not_owes (by simp)
  have hvers := h.versions
  refine ⟨?version,?counted,?balance,?begun⟩
  case version =>
    intro e hmem
    rw [he.events] at hmem
    rw [he.latestRunawayVersion]
    obtain hnew | hold := mem_cons.mp hmem
    · rw [hnew]
      dsimp only
      omega
    · have := h.log.version_le e hold
      omega
  case counted =>
    intro x hx
    rw [he.counted] at hx
    rw [he.latestRunawayVersion]
    have := h.log.counted_le x hx
    omega
  case balance =>
    intro e hmem q
    rw [he.events] at hmem
    rw [he.counted,he.latestRunawayVersion,he.procs q]
    obtain hnew | hold := mem_cons.mp hmem
    · -- nobody can have counted down for this event yet
      have hfirst : s.counted.count (q, s.currentVersion+1)=0 := by
        apply count_eq_zero.mpr
        intro hin
        have := h.log.counted_le _ hin
        dsimp only at this
        omega
      rw [hnew]
      simp [hfirst]
    · have hbef := (h.log.version_le e hold).2
      have hbal := h.log.balance e hold q
      rw [← hbal,hnone q]
      have hv : ¬e.version=s.currentVersion+1 := by omega
      simp [hv]
  case begun =>
    intro e _ _ q hq
    rw [he.latestRunawayVersion,he.procs q] at hq
    have := begin_lt h q
    dsimp only at hq
    omega

end EventOf

namespace SegmentInv

variable (h : SegmentInv st s)
include h

/-- The process that won the detector flags a session with active processes, none of which is still
resetting. -/
theorem flagSession (hp : p<s.nProcs) (hph : (s.procs p).phase=.claimed)
    (hactive : 0<(s.sessions k).activeProcessCount)
    (hqt : ∀ q<s.nProcs, (s.procs q).session=k → (s.procs q).phase≠.resetting) :
    SegmentInv (.cleaning k) ((s.flagSession k isTop).setPhase p .checking) := by
  obtain rfl : st=.choosing p := h.stage.special p _ (by simp [hph])
  have hnone := h.not_owes (by simp)
  have hvers := h.versions
  have he : EventOf s ((s.flagSession k isTop).setPhase p .checking) p k isTop := by
    refine ⟨fun q => ?_,rfl,rfl,rfl,rfl,rfl,rfl,rfl⟩
    have howes := hnone q
    rw [Segment.setPhase,Segment.setProc,Segment.flagSession]
    dsimp only
    by_cases hqp : q=p
    · subst hqp
      rw [update_self]
      by_cases hq : q∈s.activeIn k
      · simp [hq]
      · simp [hq,← howes]
    · rw [update_of_ne hqp]
      by_cases hq : q∈s.activeIn k
      · simp [hq,hqp]
      · simp [hq,hqp,← howes]
  generalize (s.flagSession k isTop).setPhase p .checking=t at he
  refine ⟨he.process h,?inside,?versions,?active,?pinned,he.stage h hactive hqt,he.log h⟩
  case inside =>
    intro q hq
    rw [he.nProcs]
    by_cases hqp : q=p
    · rw [hqp]
      exact hp
    · apply h.inside q
      rw [he.procs q] at hq
      simpa [attached,hqp] using hq
  case versions =>
    rw [he.latestRunawayVersion,he.currentVersion]
    omega
  case active =>
    intro l
    have hcnt : t.nActive l=s.nActive l := by
      rw [nActive,he.nProcs]
      apply tally_congr
      intro q _
      rw [he.procs q]
    rw [(he.counts l).1,hcnt]
    exact h.active l
  case pinned =>
    intro l
    have hcnt : t.nPinned l=s.nPinned l := by
      rw [nPinned,he.nProcs]
      apply tally_congr
      intro q _
      rw [he.procs q]
      by_cases hqp : q=p
      · subst hqp
        simp [attached,hph]
      · simp [attached,hqp]
    rw [(he.counts l).2,hcnt]
    exact h.pinned l

end SegmentInv

open Stage
open Option (ite_none_right_eq_some)

namespace Segment

/-- Only active processes are deactivated; no process exits with its cleanup begun and not ended;
and no session is flagged while one of its processes has yet to look at the countdown of an earlier
event. -/
def Orderly (s : Segment) : Action → Prop
  | .deactivate p => (s.procs p).isProcessActive=true
  | .exit p => (s.procs p).isCleanupInProgress=false
  | .flag _ (some (k, _)) => ∀ q<s.nProcs, (s.procs q).session=k → (s.procs q).phase≠.resetting
  | _ => True

instance (s : Segment) : (a : Action) → Decidable (s.Orderly a)
  | .deactivate p => inferInstanceAs (Decidable ((s.procs p).isProcessActive=true))
  | .exit p => inferInstanceAs (Decidable ((s.procs p).isCleanupInProgress=false))
  | .flag _ (some (k, _)) => inferInstanceAs
    (Decidable (∀ q<s.nProcs, (s.procs q).session=k → (s.procs q).phase≠.resetting))
  | .flag _ none | .start _ _ | .init _ | .activate _ | .detect _ | .startCleanup _ _
  | .catchError _ | .recover _ | .reactivate _ | .countDown _ | .tryReset _ | .unflag _ | .enable _
  | .release _ => inferInstanceAs (Decidable True)

/-- The process has returned from its cleanup of the latest event, or is gone. -/
def Finished (s : Segment) (q : Nat) : Prop :=
  (s.procs q).phase=.gone ∨ ((s.procs q).endCleanup=s.latestRunawayVersion ∧
    (s.procs q).phase∉[Phase.reactivating,.counting,.resetting,.unflagging,.enabling])
  deriving Decidable

end Segment

theorem segmentInv_init (n : Nat) : SegmentInv .idle (.init n) where
  procs p := by
    refine ⟨Int.le_refl _,Int.le_refl _,Int.le_refl _,Int.le_refl _,fun _ => rfl,
      absurd,?_,?_,?_,fun hf => absurd hf id,fun _ => ⟨rfl,rfl⟩,
      fun _ => rfl,?_,?_,?_⟩
    all_goals simp [init,unborn]
  inside p hp := by simp [init,unborn,attached] at hp
  versions := by simp [init]
  active k := by
    have hzero : (init n).nActive k=0 := tally_eq_zero.mpr fun _ _ => rfl
    rw [hzero]
    rfl
  pinned k := by
    have hzero : (init n).nPinned k=0 := tally_eq_zero.mpr fun _ _ => rfl
    rw [hzero]
    rfl
  stage := by
    refine StageOk.of_not_cleaning (by simp) rfl ?_ (fun _ => rfl) ?_ fun _ => rfl
    · simp [init,SessionState.empty,flags]
    · simp [init,unborn,special,holder]
  log := by
    refine ⟨?_,?_,?_,?_⟩
    all_goals simp [init]

section

variable {s : Segment} {p : Nat}

theorem Segment.Runs.phase_ready (h : s.Runs p [.ready]) : (s.procs p).phase=.ready :=
  List.mem_singleton.mp h.2.1

theorem Segment.Runs.phase_rest (h : s.Runs p [.ready,.thrown]) :
    (s.procs p).phase=.ready ∨ (s.procs p).phase=.thrown := by
  simpa using h.2.1

variable (h : SegmentInv st s)
include h

theorem SegmentInv.not_inProgress (hp : (s.procs p).isCleanupInProgress=false) :
    (s.procs p).endCleanup=(s.procs p).beginCleanup := by
  have hle := (h.procs p).end_le
  have hge := of_decide_eq_false hp
  omega

/-- Every orderly step keeps the invariant, at some stage of the event. -/
theorem SegmentInv.step (hC : s.Orderly a) (hstep : s.step a=some t) : ∃ st', SegmentInv st' t := by
  cases a with
  | start p k =>
    obtain ⟨hp,rfl⟩ := of_guard hstep
    exact ⟨st,h.acquire hp.1 hp.2 k⟩
  | init p =>
    obtain ⟨hp,rfl⟩ := of_guard hstep
    have hnot := (h.procs p).outside (.inr (.inl hp.2))
    exact ⟨st,h.activateProcess hp.1 hnot.1 ((h.procs p).starting hp.2) (.inl ⟨rfl,.inl hp.2⟩)⟩
  | activate p =>
    obtain ⟨hp,rfl⟩ := of_guard hstep
    exact ⟨st,h.activateProcess hp.1.1 hp.2 hp.1.2.2 (.inl ⟨rfl,.inr hp.1.phase_ready⟩)⟩
  | deactivate p =>
    obtain ⟨hp,rfl⟩ := of_guard hstep
    exact ⟨st,h.deactivateProcess hp.1 hC (.inl hp.phase_ready) (by simp)⟩
  | detect p =>
    obtain ⟨hp,hstep⟩ := ite_none_right_eq_some.mp hstep
    split at hstep
    · next hfree =>
      cases hstep
      exact ⟨_,h.detect hp.1 hp.phase_ready hfree⟩
    · cases hstep
      exact ⟨st,h.setPhase hp.1 (.inl hp.phase_ready) (.inr rfl)⟩
  | flag p found =>
    obtain ⟨hp,rfl⟩ := of_guard hstep
    cases found with
    | none => exact ⟨_,h.giveUp hp.1 hp.2⟩
    | some choice =>
      obtain ⟨k,isTop⟩ := choice
      rw [flagTopConsumer]
      split
      · next hactive => exact ⟨_,h.flagSession hp.1 hp.2 hactive hC⟩
      · exact ⟨_,h.giveUp hp.1 hp.2⟩
  | startCleanup p q =>
    obtain ⟨hp,rfl⟩ := of_guard hstep
    exact ⟨st,h.startCleanup hp.1 hp.2⟩
  | catchError p =>
    obtain ⟨hp,rfl⟩ := of_guard hstep
    exact ⟨st,h.setPhase hp.1 (.inr (List.mem_singleton.mp hp.2.1)) (.inl rfl)⟩
  | recover p =>
    obtain ⟨hp,rfl⟩ := of_guard hstep
    exact ⟨st,h.recover hp.1 hp.phase_rest hp.2.2⟩
  | reactivate p =>
    obtain ⟨hp,rfl⟩ := of_guard hstep
    have hidle := (h.procs p).reactivating hp.2
    exact ⟨st,h.activateProcess hp.1 hidle.1 hidle.2 (.inr ⟨rfl,hp.2⟩)⟩
  | countDown p =>
    obtain ⟨hp,rfl⟩ := of_guard hstep
    exact ⟨st,h.countDown hp.1 hp.2⟩
  | tryReset p =>
    obtain ⟨hp,rfl⟩ := of_guard hstep
    rw [tryReset]
    dsimp only
    split
    · next hzero => exact ⟨_,h.wins hp.1 hp.2 hzero⟩
    · next hnon => exact ⟨st,h.loses hp.1 hp.2 hnon⟩
  | unflag p =>
    obtain ⟨hp,rfl⟩ := of_guard hstep
    exact ⟨_,h.unflag hp.1 hp.2⟩
  | enable p =>
    obtain ⟨hp,rfl⟩ := of_guard hstep
    exact ⟨_,h.enable hp.1 hp.2⟩
  | exit p =>
    obtain ⟨hp,hstep⟩ := ite_none_right_eq_some.mp hstep
    have hcln := h.not_inProgress hC
    split at hstep
    · next hactive =>
      cases hstep
      exact ⟨st,h.deactivateProcess hp.1 hactive hp.phase_rest fun _ => hcln⟩
    · next hidle =>
      cases hstep
      exact ⟨st,h.exitIdle hp.1 (by simpa using hidle) hp.phase_rest hcln⟩
  | release p =>
    obtain ⟨hp,rfl⟩ := of_guard hstep
    exact ⟨st,h.release hp.1.1 hp.1.2 hp.2⟩

theorem SegmentInv.finished_free (hq : s.Finished q) :
    (s.procs q).owes=false ∧ (s.procs q).phase≠.resetting ∧ (s.procs q).phase≠.unflagging ∧
      (s.procs q).phase≠.enabling := by
  obtain hgone | hended := hq
  · have hnot := (h.procs q).outside (.inr (.inr hgone))
    simp [hnot.2,hgone]
  · simp only [List.mem_cons,not_or] at hended
    obtain ⟨hend,hreac,hcoun,hreset,hunf,henab,_⟩ := hended
    refine ⟨?_,hreset,hunf,henab⟩
    by_contra howes
    obtain hx | hx := (h.procs q).ending (by simpa using howes) hend
    · exact hreac hx
    · exact hcoun hx

/-- When the active processes are done, so is the event. -/
theorem SegmentInv.cleanup_over (he : e∈s.events)
    (hlat : e.version=s.latestRunawayVersion) (hfin : ∀ q∈e.active, s.Finished q) :
    st=.idle ∨ ∃ p, st=.choosing p := by
  -- whoever owes, or has begun to clean up, was active at the event
  have hbgn : ∀ q, (s.procs q).beginCleanup=s.latestRunawayVersion →
      (s.procs q).phase≠.resetting ∧ (s.procs q).phase≠.unflagging ∧ (s.procs q).phase≠.enabling :=
    fun q hq => (h.finished_free (hfin q (h.log.begun e he hlat q hq))).2
  have hnob : ∀ q, (s.procs q).owes=false := by
    intro q
    by_contra howes
    have hbal := h.log.balance e he q
    rw [if_pos ⟨hlat,by simpa using howes⟩] at hbal
    have hin : q∈e.active := by
      by_contra hout
      rw [if_neg hout] at hbal
      omega
    exact howes (h.finished_free (hfin q hin)).1
  cases st with
  | idle => exact .inl rfl
  | choosing p => exact .inr ⟨p,rfl⟩
  | cleaning k =>
    obtain hpos | ⟨p,hph,hses⟩ := h.stage.awaited k rfl
    · have hzero : s.nOwing=0 := tally_eq_zero.mpr fun q _ => hnob q
      omega
    · have hbeg := h.stage.resetting p hph (by rw [hses])
      exact absurd hph (hbgn p hbeg).1
  | winning p k =>
    have hspec := h.stage.held p rfl
    have hph : (s.procs p).phase=.unflagging := by
      rw [special] at hspec
      split at hspec <;> simp at hspec
      assumption
    exact absurd hph (hbgn p ((h.procs p).winner (.inl hph))).2.1
  | enabling p =>
    have hspec := h.stage.held p rfl
    have hph : (s.procs p).phase=.enabling := by
      rw [special] at hspec
      split at hspec <;> simp at hspec
      assumption
    exact absurd hph (hbgn p ((h.procs p).winner (.inr hph))).2.2

end

/-- At most one session is flagged; the processes that were active at an event, and no others, count
down for it once; and when they have finished or exited the cleanup is over. -/
theorem SegmentInv.completes (h : SegmentInv st s) :
    (∀ k l, (s.sessions k).runawayStatus≠.notRunaway →
      (s.sessions l).runawayStatus≠.notRunaway → k=l) ∧
    (∀ e∈s.events, ∀ q, s.counted.count (q, e.version)≤1 ∧
      (q∉e.active → s.counted.count (q, e.version)=0) ∧
      (q∈e.active → e.version≠s.latestRunawayVersion ∨ s.Finished q →
        s.counted.count (q, e.version)=1)) ∧
    ∀ e∈s.events, e.version=s.latestRunawayVersion → (∀ q∈e.active, s.Finished q) →
      (∀ k, (s.sessions k).runawayStatus=.notRunaway ∧ (s.sessions k).cleanupCountdown=-1) ∧
      (s.isRunawayDetector=0 ∨ ∃ p, (s.procs p).phase=.claimed) := by
  refine ⟨?flagged,?counted,?ended⟩
  case flagged =>
    intro k l hk hl
    have hk := (h.stage.flagged k).mp hk
    have hl := (h.stage.flagged l).mp hl
    cases st with
    | cleaning m | winning p m => exact hk.trans hl.symm
    | idle | choosing p | enabling p => exact absurd hk id
  case counted =>
    intro e he q
    have hbal := h.log.balance e he q
    refine ⟨?_,?_,?_⟩
    · split at hbal <;> split at hbal <;> omega
    · intro hout
      rw [if_neg hout] at hbal
      omega
    · intro hin hdone
      have hpaid : ¬(e.version=s.latestRunawayVersion ∧ (s.procs q).owes=true) := by
        rintro ⟨hlat,howes⟩
        obtain hot | hfin := hdone
        · exact hot hlat
        · rw [(h.finished_free hfin).1] at howes
          cases howes
      rw [if_pos hin,if_neg hpaid] at hbal
      exact hbal
  case ended =>
    intro e he hlat hfin
    have hstg := h.cleanup_over he hlat hfin
    have hnot : (∀ k, st≠.cleaning k) ∧ ∀ k, ¬st.flags k := by
      obtain hidle | ⟨p,hp⟩ := hstg
      · simp [hidle,flags]
      · simp [hp,flags]
    refine ⟨fun k => ⟨?_,h.countdown_idle hnot.1 k⟩,?_⟩
    · by_contra hflg
      exact hnot.2 k ((h.stage.flagged k).mp hflg)
    · obtain hidle | ⟨p,hp⟩ := hstg
      · left
        rw [h.stage.detector,if_pos hidle]
      · right
        have hspec := h.stage.held p (by rw [hp]; rfl)
        refine ⟨p,?_⟩
        rw [hp,special] at hspec
        split at hspec <;> simp at hspec
        assumption

end WarehousePG.Runaway
