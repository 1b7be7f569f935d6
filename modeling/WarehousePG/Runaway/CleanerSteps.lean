import WarehousePG.Runaway.Cleaner

namespace WarehousePG.Runaway

open Framework Process Phase Segment

section

variable {s : Segment} {p : Nat}

theorem activeCount_update {new : Bool} (hc : c+((s.procs p).isProcessActive.toNat : Int)
      =(s.sessions (s.procs p).session).activeProcessCount+(new.toNat : Int)) (k : Nat) :
    let entry := { s.sessions (s.procs p).session with activeProcessCount := c }
    let sessions := Function.update s.sessions (s.procs p).session entry
    (sessions k).runawayStatus=(s.sessions k).runawayStatus ∧
      (sessions k).cleanupCountdown=(s.sessions k).cleanupCountdown ∧
      (sessions k).pinCount=(s.sessions k).pinCount ∧
      (sessions k).activeProcessCount
        +(((s.procs p).isProcessActive && decide ((s.procs p).session=k)).toNat : Int)
          =(s.sessions k).activeProcessCount
            +((new && decide ((s.procs p).session=k)).toNat : Int) := by
  dsimp only
  by_cases hk : (s.procs p).session=k
  · subst hk
    simpa using hc
  · rw [Function.update_of_ne (Ne.symm hk)]
    simp [hk]

variable {pr : Process}

attribute [local simp] attached special

theorem Process.atRest (h : pr.phase=.ready ∨ pr.phase=.thrown) (p : Nat) :
    pr.attached=true ∧ pr.special p=none ∧ pr.phase≠.resetting ∧ pr.phase≠.checking ∧
      pr.phase.plain=true := by
  cases h with
  | inl hx | inr hx => simp [hx,plain]

namespace SegmentInv

section

variable (h : SegmentInv st s)
include h

theorem owes_flagged (howes : (s.procs p).owes=true) : st.flags (s.procs p).session := by
  rw [h.stage.owing p howes]
  exact rfl

section

variable (hp : p<s.nProcs)
include hp

/-- An idle process becomes active, under the lock. -/
theorem activateProcess
    (hidle : (s.procs p).isProcessActive=false) (hexit : (s.procs p).exiting=false)
    (hph : (next=.ready ∧ ((s.procs p).phase=.starting ∨ (s.procs p).phase=.ready)) ∨
      (next=.counting ∧ (s.procs p).phase=.reactivating)) :
    SegmentInv st (s.activateProcess p next) := by
  have hpr := h.procs p
  -- an idle process at rest owes nothing, or its cleanup has begun
  have hstd : (s.procs p).owes=true → (s.procs p).beginCleanup=s.latestRunawayVersion := by
    intro howes
    by_contra hbeg
    obtain hactive | hchk := (hpr.pending howes hbeg).2
    · rw [hidle] at hactive
      cases hactive
    · simp [hchk.1] at hph
  have hnext : (next=.ready ∧ (s.procs p).phase≠.reactivating ∧ (s.procs p).phase≠.counting) ∨
      (next=.counting ∧ (s.procs p).phase=.reactivating) := by
    apply hph.imp_left
    intro hrdy
    refine ⟨hrdy.1,?_⟩
    cases hrdy.2 with
    | inl hx | inr hx => simp [hx]
  have hok := hpr.activates h.versions.2 hstd hexit hnext
  apply h.within hp (t := s.activateProcess p next) ⟨rfl,rfl,rfl,rfl,rfl⟩ rfl rfl
  case hses | howes => rfl
  case hatt => rcases hph with ⟨rfl,hx | hx⟩ | ⟨rfl,hx⟩ <;> simp [hx]
  case hspec => rcases hph with ⟨rfl,hx | hx⟩ | ⟨rfl,hx⟩ <;> simp [hx]
  case hold => rcases hph with ⟨rfl,hx | hx⟩ | ⟨rfl,hx⟩ <;> simp [hx]
  case hnew => rcases hph with ⟨rfl,hx | hx⟩ | ⟨rfl,hx⟩ <;> simp
  case hbeg => exact .inl
  case hss =>
    apply activeCount_update
    rw [hidle]
    simp
  case hok => exact hok

theorem deactivateProcess {exiting : Bool} (hactive : (s.procs p).isProcessActive=true)
    (hph : (s.procs p).phase=.ready ∨ (s.procs p).phase=.thrown)
    (hexit : exiting=true → (s.procs p).endCleanup=(s.procs p).beginCleanup) :
    SegmentInv st (s.deactivateProcess p exiting) := by
  have hrest := atRest hph p
  have hok := (h.procs p).deactivates h.versions.2 hactive hph hexit
  apply h.within hp (t := s.deactivateProcess p exiting) ⟨rfl,rfl,rfl,rfl,rfl⟩ rfl rfl
  case hses | howes => rfl
  case hatt => rw [hrest.1]; rfl
  case hspec => rw [hrest.2.1]; rfl
  case hold => exact hrest.2.2.1
  case hnew => simp
  case hbeg => exact .inl
  case hss =>
    apply activeCount_update
    rw [hactive]
    simp
  case hok => exact hok

theorem setProc
    (hok : ProcessOk s.latestRunawayVersion s.currentVersion (st.flags (s.procs p).session) pr)
    (hfr : pr.session=(s.procs p).session ∧ pr.owes=(s.procs p).owes ∧
      pr.isProcessActive=(s.procs p).isProcessActive)
    (hatt : pr.attached=true ∧ (s.procs p).attached=true)
    (hspec : pr.special p=none ∧ (s.procs p).special p=none)
    (hreset : (s.procs p).phase≠.resetting ∧ pr.phase≠.resetting)
    (hbeg : pr.beginCleanup=s.latestRunawayVersion →
      (s.procs p).beginCleanup=s.latestRunawayVersion ∨ pr.owes=true) :
    SegmentInv st (s.setProc p pr) := by
  apply h.within hp (t := s.setProc p pr) ⟨rfl,rfl,rfl,rfl,rfl⟩ rfl rfl hfr.1 hfr.2.1
  case hatt => rw [hatt.1,hatt.2]
  case hspec => rw [hspec.1,hspec.2]
  case hold => exact hreset.1
  case hnew => exact hreset.2
  case hbeg => exact hbeg
  case hss =>
    intro k
    rw [hfr.2.2]
    exact ⟨rfl,rfl,rfl,rfl⟩
  case hok => exact hok

theorem setPhase (hold : (s.procs p).phase=.ready ∨ (s.procs p).phase=.thrown)
    (hnew : x=.ready ∨ x=.checking) : SegmentInv st (s.setPhase p x) := by
  have hrest := atRest hold p
  have hok : ProcessOk s.latestRunawayVersion s.currentVersion (st.flags (s.procs p).session)
      { s.procs p with phase := x } := by
    apply (h.procs p).rephase hrest.2.2.2.2
    case hnew => cases hnew with | inl hx => simp [hx,plain] | inr hx => simp [hx,plain]
    case hchk => exact fun hx => absurd hx hrest.2.2.2.1
    case hwin => cases hnew with | inl hx => simp [hx] | inr hx => simp [hx]
  apply h.setProc hp hok ⟨rfl,rfl,rfl⟩ ⟨?_,hrest.1⟩ ⟨?_,hrest.2.1⟩ ⟨hrest.2.2.1,?_⟩ .inl
  all_goals
    cases hnew with
    | inl hx | inr hx => simp [hx]

theorem startCleanup (hph : (s.procs p).phase=.checking) :
    SegmentInv st (s.setProc p (s.startCleanupAtOnce p q)) := by
  have hcases := (h.procs p).startCleanup_cases (q := q) (h.stage.flagged (s.procs p).session)
    h.owes_flagged (rfl : s.startCleanupAtOnce p q=_)
  have hatt : (s.procs p).attached=true := by simp [hph]
  have hspec : (s.procs p).special p=none := by simp [hph]
  have hreset : (s.procs p).phase≠.resetting := by simp [hph]
  rcases hcases with ⟨howes,hbeg,hexit,heq⟩ | ⟨howes,hbeg,heq⟩ | ⟨hnot,heq⟩
  · rw [heq]
    exact h.setProc hp ((h.procs p).begins howes hbeg hexit) ⟨rfl,rfl,rfl⟩
      ⟨rfl,hatt⟩ ⟨rfl,hspec⟩ ⟨hreset,by simp⟩ fun _ => .inr howes
  · rw [heq]
    exact h.setProc hp ((h.procs p).ignores howes) ⟨rfl,rfl,rfl⟩
      ⟨rfl,hatt⟩ ⟨rfl,hspec⟩ ⟨hreset,by simp⟩ fun _ => .inr howes
  · rw [heq]
    have hok : ProcessOk s.latestRunawayVersion s.currentVersion (st.flags (s.procs p).session)
        { s.procs p with phase := .ready } := by
      apply (h.procs p).rephase
      case hold => simp [hph,plain]
      case hnew => rfl
      case hchk => exact fun _ howes hbeg => absurd (hnot howes) hbeg
      case hwin => simp
    exact h.setProc hp hok ⟨rfl,rfl,rfl⟩ ⟨rfl,hatt⟩ ⟨rfl,hspec⟩ ⟨hreset,by simp⟩ .inl

theorem recover (hph : (s.procs p).phase=.ready ∨ (s.procs p).phase=.thrown)
    (hexit : (s.procs p).exiting=false) :
    SegmentInv st (s.setProc p ((s.procs p).runawayCleanupDone s.latestRunawayVersion false)) := by
  have hrest := atRest hph p
  obtain ⟨hses,howes,hactive,hbeg,hatt,hspec,hreset⟩ :=
    runawayCleanupDone_frame (s.procs p) s.latestRunawayVersion false p
  have hok : ProcessOk s.latestRunawayVersion s.currentVersion (st.flags (s.procs p).session)
      ((s.procs p).runawayCleanupDone s.latestRunawayVersion false) := by
    apply (h.procs p).runawayCleanupDone hrest.2.2.2.2
    case hchk => exact fun hx => absurd hx hrest.2.2.2.1
    case hexit => simp [hexit]
  apply h.setProc hp hok ⟨hses,howes,hactive⟩ ⟨hatt,hrest.1⟩ ⟨hspec,hrest.2.1⟩
    ⟨hrest.2.2.1,hreset⟩
  rw [hbeg]
  exact .inl

theorem exitIdle (hidle : (s.procs p).isProcessActive=false)
    (hph : (s.procs p).phase=.ready ∨ (s.procs p).phase=.thrown)
    (hclean : (s.procs p).endCleanup=(s.procs p).beginCleanup) :
    SegmentInv st (s.setProc p { s.procs p with exiting := true, phase := .ready }) := by
  have hrest := atRest hph p
  have hrep : ProcessOk s.latestRunawayVersion s.currentVersion
      (st.flags (s.procs p).session) { s.procs p with phase := .ready } := by
    apply (h.procs p).rephase hrest.2.2.2.2 rfl
    case hchk => exact fun hx => absurd hx hrest.2.2.2.1
    case hwin => simp
  have hok : ProcessOk s.latestRunawayVersion s.currentVersion (st.flags (s.procs p).session)
      { s.procs p with exiting := true, phase := .ready } :=
    { hrep with
      starting := by simp
      reactivating := by simp
      exiting := fun _ => ⟨hidle,hclean⟩ }
  exact h.setProc hp hok ⟨rfl,rfl,rfl⟩ ⟨rfl,hrest.1⟩ ⟨rfl,hrest.2.1⟩ ⟨hrest.2.2.1,by simp⟩ .inl

end

end

end SegmentInv

end

open Function Stage
open Option (some)

variable {t : Segment}

theorem StageOk.pass (h : StageOk st s) (hps : t.procs=update s.procs p pr)
    (hbef : ∀ q, st.holder=some q → q=p) (haft : ∀ q, st'.holder=some q → q=p)
    (hspec : pr.special p=if st'.holder=some p then some st' else none) :
    (∀ q σ, (t.procs q).special q=some σ → st'=σ) ∧
      ∀ q, st'.holder=some q → (t.procs q).special q=some st' := by
  constructor
  · intro q σ hq
    rw [hps] at hq
    by_cases hqp : q=p
    · subst hqp
      rw [update_self,hspec] at hq
      exact some.inj (Option.ite_none_right_eq_some.mp hq).2
    · rw [update_of_ne hqp] at hq
      have hst := h.special q σ hq
      rw [← hst] at hq
      exact absurd (hbef q (special_holder hq)) hqp
  · intro q hq
    have hqp := haft q hq
    subst hqp
    rw [hps,update_self,hspec,if_pos hq]

theorem StageOk.of_not_cleaning (hst : ∀ k, st≠.cleaning k)
    (hdet : s.isRunawayDetector=if st=.idle then 0 else 1)
    (hflg : ∀ k, (s.sessions k).runawayStatus≠.notRunaway ↔ st.flags k)
    (hcd : ∀ k, (s.sessions k).cleanupCountdown=-1)
    (hspec : (∀ p σ, (s.procs p).special p=some σ → st=σ) ∧
      ∀ p, st.holder=some p → (s.procs p).special p=some st)
    (howes : ∀ p, (s.procs p).owes=false) : StageOk st s where
  detector := hdet
  flagged := hflg
  countdown k := by rw [hcd k,if_neg (hst k)]
  special := hspec.1
  held := hspec.2
  owing p hp := by
    rw [howes p] at hp
    cases hp
  awaited k hk := absurd hk (hst k)
  resetting p _ hk := absurd hk (hst _)

namespace SegmentInv

attribute [local simp] Segment.setPhase Segment.setProc Segment.setSession
  SessionState.runawayCleanupDone Stage.flags holder plain special

section

variable (h : SegmentInv st s)
include h

theorem not_owes (hst : ∀ k, st≠.cleaning k) (p : Nat) : (s.procs p).owes=false := by
  by_contra howes
  exact hst _ (h.stage.owing p (by simpa using howes))

theorem not_owes_of_zero (hzero : s.nOwing=0) (p : Nat) : (s.procs p).owes=false := by
  by_contra howes
  have howes : (s.procs p).owes=true := by simpa using howes
  have hp := h.inside p ((h.procs p).attached (.inr howes))
  have hnot := tally_eq_zero.mp hzero p hp
  rw [howes] at hnot
  cases hnot

theorem countdown_idle (hst : ∀ k, st≠.cleaning k) (k : Nat) :
    (s.sessions k).cleanupCountdown=-1 := by
  rw [h.stage.countdown k,if_neg (hst k)]

section

variable (hp : p<s.nProcs)
include hp

/-- A step that hands the event on to the next stage. -/
theorem changeStage (hsame : SameShared s t)
    (hps : t.procs=update s.procs p { s.procs p with phase := x })
    (hold : (s.procs p).phase.plain=true ∧ (s.procs p).phase≠.checking) (hnew : x.plain=true)
    (hwin : x=.unflagging ∨ x=.enabling → (s.procs p).beginCleanup=s.latestRunawayVersion)
    (hcounts : ∀ k, (t.sessions k).pinCount=(s.sessions k).pinCount ∧
      (t.sessions k).activeProcessCount=(s.sessions k).activeProcessCount)
    (hflags : ∀ k, st'.flags k → st.flags k) (hst : ∀ k, st'≠.cleaning k)
    (hbef : ∀ q, st.holder=some q → q=p) (haft : ∀ q, st'.holder=some q → q=p)
    (hspec : { s.procs p with phase := x }.special p
      =if st'.holder=some p then some st' else none)
    (hdet : t.isRunawayDetector=if st'=.idle then 0 else 1)
    (hflg : ∀ k, (t.sessions k).runawayStatus≠.notRunaway ↔ st'.flags k)
    (hcd : ∀ k, (t.sessions k).cleanupCountdown=-1)
    (howes : ∀ q, (s.procs q).owes=false) : SegmentInv st' t := by
  have hok := (h.procs p).rephase hold.1 hnew (fun hx => absurd hx hold.2) hwin
  have howes' : ∀ q, (t.procs q).owes=false := by
    intro q
    rw [hps]
    by_cases hq : q=p
    · rw [hq,update_self]
      exact howes p
    · rw [update_of_ne hq]
      exact howes q
  have hstg : StageOk st' t := by
    apply StageOk.of_not_cleaning hst hdet hflg hcd
    · exact h.stage.pass hps hbef haft hspec
    · exact howes'
  have hpln : ∀ y : Phase, y.plain=true → { s.procs p with phase := y }.attached=true := by
    intro y hy
    cases y <;> simp [attached] at hy ⊢
  have hatt : { s.procs p with phase := x }.attached=(s.procs p).attached :=
    (hpln x hnew).trans (hpln _ hold.1).symm
  apply h.withStage hp hsame hps rfl
  case hbeg => exact .inl
  case hpin =>
    intro k
    rw [(hcounts k).1,hatt]
  case hactive =>
    intro k
    rw [(hcounts k).2]
  case hflags => exact hflags
  case hok => exact { hok with skipped := fun hf => hok.skipped (hflags _ hf) }
  case hstg => exact hstg

/-- A process claims the detection for itself. -/
theorem detect (hph : (s.procs p).phase=.ready) (hfree : s.isRunawayDetector=0) :
    SegmentInv (.choosing p) ({ s with isRunawayDetector := 1 }.setPhase p .claimed) := by
  have hidle : st=.idle := by
    by_contra hst
    have hdet := h.stage.detector
    rw [hfree,if_neg hst] at hdet
    cases hdet
  subst hidle
  apply h.changeStage hp (x := .claimed)
  case hsame => exact ⟨rfl,rfl,rfl,rfl,rfl⟩
  case hps | hnew | hdet => rfl
  case hold => simp [hph]
  case hwin | hst => simp
  case hcounts => exact fun k => ⟨rfl,rfl⟩
  case hflags => exact fun k hk => hk
  case hbef => simp
  case haft =>
    intro q hq
    exact (some.inj hq).symm
  case hspec => simp
  case hflg => exact h.stage.flagged
  case hcd => exact h.countdown_idle (by simp)
  case howes => exact h.not_owes (by simp)

theorem giveUp (hph : (s.procs p).phase=.claimed) :
    SegmentInv .idle ({ s with isRunawayDetector := 0 }.setPhase p .checking) := by
  have hst : st=.choosing p := h.stage.special p _ (by simp [hph])
  subst hst
  apply h.changeStage hp (x := .checking)
  case hsame => exact ⟨rfl,rfl,rfl,rfl,rfl⟩
  case hps | hnew | hdet => rfl
  case hold => simp [hph]
  case hwin | hst => simp
  case hcounts => exact fun k => ⟨rfl,rfl⟩
  case hflags => exact fun k hk => hk
  case hbef =>
    intro q hq
    exact (some.inj hq).symm
  case haft => simp
  case hspec => simp
  case hflg => exact h.stage.flagged
  case hcd => exact h.countdown_idle (by simp)
  case howes => exact h.not_owes (by simp)

/-- A process that finds the countdown at zero resets it. -/
theorem wins (hph : (s.procs p).phase=.resetting)
    (hzero : (s.sessions (s.procs p).session).cleanupCountdown=0) :
    SegmentInv (.winning p (s.procs p).session) ((s.setSession (s.procs p).session
        { s.sessions (s.procs p).session with cleanupCountdown := -1 }).setPhase p .unflagging) := by
  have hst : st=.cleaning (s.procs p).session := by
    by_contra hst
    have hidle := h.stage.countdown (s.procs p).session
    rw [hzero,if_neg hst] at hidle
    cases hidle
  subst hst
  generalize hk : (s.procs p).session=k at h hzero
  have hnone : s.nOwing=0 := by
    have hcnt := h.stage.countdown k
    rw [hzero,if_pos rfl] at hcnt
    omega
  apply h.changeStage hp (x := .unflagging)
  case hsame => exact ⟨rfl,rfl,rfl,rfl,rfl⟩
  case hps | hnew => rfl
  case hold => simp [hph]
  case hwin => exact fun _ => h.stage.resetting p hph (by rw [hk])
  case hcounts =>
    intro l
    by_cases hl : l=k
    · subst hl
      simp
    · simp [update_of_ne hl]
  case hflags => exact fun l hl => hl
  case hst => simp
  case hbef => simp
  case haft =>
    intro q hq
    exact (some.inj hq).symm
  case hspec => simp [hk]
  case hdet => exact h.stage.detector.trans (by simp)
  case hflg =>
    intro l
    have hflg := h.stage.flagged l
    by_cases hl : l=k
    · subst hl
      simpa using hflg
    · simpa [update_of_ne hl] using hflg
  case hcd =>
    intro l
    by_cases hl : l=k
    · subst hl
      simp
    · have hidle := h.stage.countdown l
      rw [if_neg (by simpa using Ne.symm hl)] at hidle
      simpa [update_of_ne hl] using hidle
  case howes => exact h.not_owes_of_zero hnone

/-- It then unflags the session. -/
theorem unflag (hph : (s.procs p).phase=.unflagging) :
    SegmentInv (.enabling p) (s.unflag p) := by
  have hst : st=.winning p (s.procs p).session := h.stage.special p _ (by simp [hph])
  subst hst
  have hflag : ¬(s.sessions (s.procs p).session).runawayStatus=.notRunaway :=
    (h.stage.flagged (s.procs p).session).mpr rfl
  rw [Segment.unflag,if_neg hflag]
  apply h.changeStage hp (x := .enabling)
  case hsame => exact ⟨rfl,rfl,rfl,rfl,rfl⟩
  case hps | hnew => rfl
  case hold => simp [hph]
  case hwin => exact fun _ => (h.procs p).winner (.inl hph)
  case hcounts =>
    intro l
    by_cases hl : l=(s.procs p).session
    · subst hl
      simp
    · simp [update_of_ne hl]
  case hflags => exact fun l hl => absurd hl id
  case hst => simp
  case hbef | haft =>
    intro q hq
    exact (some.inj hq).symm
  case hspec => simp
  case hdet => exact h.stage.detector.trans (by simp)
  case hflg =>
    intro l
    by_cases hl : l=(s.procs p).session
    · subst hl
      simp
    · have hot := h.stage.flagged l
      simpa [update_of_ne hl,hl] using hot
  case hcd =>
    intro l
    have hidle := h.countdown_idle (by simp) l
    by_cases hl : l=(s.procs p).session
    · subst hl
      simpa using hidle
    · simpa [update_of_ne hl] using hidle
  case howes => exact h.not_owes (by simp)

theorem enable (hph : (s.procs p).phase=.enabling) :
    SegmentInv .idle ({ s with isRunawayDetector := 0 }.setPhase p .ready) := by
  have hst : st=.enabling p := h.stage.special p _ (by simp [hph])
  subst hst
  apply h.changeStage hp (x := .ready)
  case hsame => exact ⟨rfl,rfl,rfl,rfl,rfl⟩
  case hps | hnew | hdet => rfl
  case hold => simp [hph]
  case hwin | hst => simp
  case hcounts => exact fun k => ⟨rfl,rfl⟩
  case hflags => exact fun k hk => hk
  case hbef =>
    intro q hq
    exact (some.inj hq).symm
  case haft => simp
  case hspec => simp
  case hflg => exact h.stage.flagged
  case hcd => exact h.countdown_idle (by simp)
  case howes => exact h.not_owes (by simp)

/-- Another process finds the countdown above zero or already reset. -/
theorem loses (hph : (s.procs p).phase=.resetting)
    (hnon : (s.sessions (s.procs p).session).cleanupCountdown≠0) :
    SegmentInv st (s.setPhase p .ready) := by
  have hself : (s.setPhase p .ready).procs p={ s.procs p with phase := .ready } := update_self p _ _
  have hne : ∀ q, q≠p → (s.setPhase p .ready).procs q=s.procs q :=
    fun q hq => update_of_ne hq _ _
  have howing : (s.setPhase p .ready).nOwing=s.nOwing := tally_update_same s.procs _ _ rfl
  have hspec : ∀ q, ((s.setPhase p .ready).procs q).special q=(s.procs q).special q := by
    intro q
    by_cases hq : q=p
    · rw [hq,hself]
      simp [hph]
    · rw [hne q hq]
  have hstg : StageOk st (s.setPhase p .ready) := by
    refine ⟨h.stage.detector,h.stage.flagged,?countdown,?special,?held,?owing,?awaited,?resetting⟩
    case countdown =>
      rw [howing]
      exact h.stage.countdown
    case special =>
      intro q σ hq
      rw [hspec q] at hq
      exact h.stage.special q σ hq
    case held =>
      intro q hq
      rw [hspec q]
      exact h.stage.held q hq
    case owing =>
      intro q hq
      by_cases hqp : q=p
      · subst hqp
        rw [hself] at hq ⊢
        exact h.stage.owing q hq
      · rw [hne q hqp] at hq ⊢
        exact h.stage.owing q hq
    case awaited =>
      intro k hk
      rw [howing]
      by_cases hmine : (s.procs p).session=k
      · left
        have hcnt := h.stage.countdown k
        rw [if_pos hk] at hcnt
        rw [hmine,hcnt] at hnon
        omega
      · apply (h.stage.awaited k hk).imp_right
        intro hex
        obtain ⟨q,hq,hqk⟩ := hex
        have hqp : q≠p := by
          intro hqp
          exact hmine (hqp ▸ hqk)
        exact ⟨q,by rw [hne q hqp]; exact ⟨hq,hqk⟩⟩
    case resetting =>
      intro q hq hst
      have hqp : q≠p := by
        intro hqp
        rw [hqp,hself] at hq
        cases hq
      rw [hne q hqp] at hq hst ⊢
      exact h.stage.resetting q hq hst
  have hok := (h.procs p).rephase (x := .ready) (by simp [hph]) rfl
    (by simp [hph]) (by simp)
  apply h.withStage hp (t := s.setPhase p .ready) ⟨rfl,rfl,rfl,rfl,rfl⟩ rfl rfl
  case hbeg => exact .inl
  case hpin => simp [attached,hph]
  case hactive => exact fun k => rfl
  case hflags => exact fun k hk => hk
  case hok => exact hok
  case hstg => exact hstg

end

end

end SegmentInv

end WarehousePG.Runaway
