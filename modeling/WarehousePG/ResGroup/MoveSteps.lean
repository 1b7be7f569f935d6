import WarehousePG.ResGroup.AdmissionSteps

namespace WarehousePG.ResGroup

open Framework Function Phase Session Option Coordinator
open Prod (mk)
open Option (some)

variable {i : Nat} {phase : Phase}

attribute [local simp] Control.slotpoolInit init assigning gives slot target

theorem Phase.gives_eq (h : phase.gives=some (x, k)) :
    ∃ g, phase=.signalled g x k ∨ phase=.given g x k := by
  cases phase with
  | signalled g y m =>
    obtain ⟨rfl,rfl⟩ := mk.inj (some.inj h)
    exact ⟨g,.inl rfl⟩
  | given g y m =>
    obtain ⟨rfl,rfl⟩ := mk.inj (some.inj h)
    exact ⟨g,.inr rfl⟩
  | idle | bypassDecided _ | decided _ _ | waiting _ _ | acquired _ _ _ | failed _ _ =>
    exact absurd h (by simp)

namespace CoordinatorInv

variable {s : Coordinator}

section

variable (h : CoordinatorInv s)
include h

theorem setMoveto (session : Session) (halv : (s.sessions k).alive=true)
    (hses : session={ s.sessions k with
      movetoResSlot := session.movetoResSlot, movetoGroupId := session.movetoGroupId
      movetoCallerPid := session.movetoCallerPid }) :
    Core (s.setSession k session) ∧ Queues (s.setSession k session) := by
  rw [hses]
  refine ⟨h.core.setSession (fun p => ?_) ?_,h.queues.setFields rfl rfl rfl rfl⟩
  · cases p <;> rfl
  · refine { h.core.sessions k with dead := ?_ }
    intro hdead
    cases halv.symm.trans hdead

/-- A process exits with nothing in its hands. -/
theorem exit (hph : (s.sessions i).phase=.idle)
    (hself : (s.sessions i).self=none) (hhdl : (s.sessions i).handler=.outside)
    (hsettled : (s.sessions i).movetoCallerPid=none ∨ (s.sessions i).movetoResSlot≠none) :
    CoordinatorInv (s.exitProcess i) := by
  have hok := h.core.sessions i
  have hoth : ∀ j, j≠i → (s.exitProcess i).sessions j=s.sessions j :=
    fun j hj => s.setSession_ne hj _
  have hdead : (s.exitProcess i).sessions i={ s.sessions i with
      alive := false, movetoResSlot := none, movetoGroupId := none, movetoCallerPid := none } :=
    s.setSession_self i _
  have hphas : ∀ j, ((s.exitProcess i).sessions j).phase=(s.sessions j).phase ∧
      ((s.exitProcess i).sessions j).handed=(s.sessions j).handed := by
    intro j
    by_cases hj : j=i
    · rw [hj,hdead]
      exact ⟨rfl,rfl⟩
    · rw [hoth j hj]
      exact ⟨rfl,rfl⟩
  refine ⟨?core,h.queues.setFields rfl rfl rfl rfl,?moves,h.awake⟩
  case core =>
    apply h.core.setSession
    · intro p
      cases p <;> rfl
    · refine { hok with dead := ?_ }
      exact fun _ => ⟨hself,hph,hhdl,rfl,rfl⟩
  case moves =>
    refine ⟨fun k j hcal => ?_,fun k hcal => ?_,fun j x k hgv halv => ?_,
      fun j hhan => ?_⟩
    · have hki : k≠i := by
        rintro rfl
        rw [hdead] at hcal
        cases hcal
      rw [hoth k hki] at hcal ⊢
      rw [(hphas j).1,(hphas j).2]
      exact h.moves.caller k j hcal
    · by_cases hki : k=i
      · rw [hki,hdead]
      · rw [hoth k hki] at hcal ⊢
        exact h.moves.empty k hcal
    · have hki : k≠i := by
        rintro rfl
        rw [hdead] at halv
        cases halv
      rw [(hphas j).1] at hgv
      rw [hoth k hki] at halv ⊢
      exact h.moves.given j x k hgv halv
    · rw [(hphas j).2] at hhan
      obtain ⟨x,k,hgv,halv⟩ := h.moves.handed j hhan
      have hki : k≠i := by
        rintro rfl
        have hcal := h.moves.given j x k hgv halv
        obtain ⟨y,-,⟨-,hnot⟩ | ⟨hnone,-,-⟩⟩ := h.moves.caller k j hcal
        · cases hnot.symm.trans hhan
        · rcases hsettled with hset | hset
          · rw [hcal] at hset
            cases hset
          · exact hset hnone
      refine ⟨x,k,?_,?_⟩
      · rw [(hphas j).1]
        exact hgv
      · rw [hoth k hki]
        exact halv

section

variable (halv : (s.sessions i).alive=true)
include halv

/-- The initiator writes its request into the target's state. -/
theorem signal (hph : (s.sessions i).phase=.acquired g x (some k)) :
    CoordinatorInv (s.moveSignalTarget i g x k) := by
  have hok := h.core.sessions i
  have hki : k≠i := by
    have := hok.apart
    rw [hph] at this
    exact fun hki => this (by rw [hki]; rfl)
  have hwait : ∀ a b, (s.sessions i).phase≠.waiting a b := by simp [hph]
  have hhan : (s.sessions i).handed=false := h.moves.not_handed (by rw [hph]; rfl)
  rw [moveSignalTarget]
  split
  next htgt =>
    obtain ⟨hkal,hcal⟩ := htgt
    generalize hses : ({ s.sessions k with movetoResSlot := some x, movetoCallerPid := some i
                                           movetoGroupId := some g } : Session)=session
    obtain ⟨hcore,hqs⟩ := h.setMoveto session hkal (by rw [← hses])
    have hi : (s.setSession k session).sessions i=s.sessions i := s.setSession_ne hki.symm _
    refine ⟨?core,?queues,?moves,h.awake⟩
    case core =>
      apply hcore.setPhase
      · rw [hi]
        exact halv
      · rw [hi]
        exact hwait
      · rw [hi,hph]
        rfl
      · simp
      · rw [hi,hph]
        simp
      · simpa using hki
    case queues =>
      apply hqs.setSession
      · exact h.queues.not_queued hwait
      · rfl
    case moves =>
      rw [Coordinator.setPhase,hi]
      subst hses
      apply h.moves.pair hki
      case htgt => exact ⟨rfl,rfl,rfl⟩
      case hinit => rfl
      case hold =>
        intro y m hgv
        rw [hph] at hgv
        exact absurd hgv (by simp)
      case hnew =>
        intro y m hgv
        exact (mk.inj (some.inj hgv)).2.symm
      case hcal =>
        intro j hj
        rw [hcal] at hj
        cases hj
      case hcal' =>
        intro j hj
        exact ⟨(some.inj hj).symm,x,rfl,.inl ⟨rfl,hhan⟩⟩
      case hemp' =>
        intro hnone
        cases hnone
      case hgiven' => exact fun _ _ _ => rfl
      case hhan' =>
        intro hyes
        cases hhan.symm.trans hyes
  · apply h.setPhase halv hwait
    · rw [hph]
      rfl
    · simp
    · intro a b hslot hne
      exact absurd (by obtain ⟨rfl,rfl⟩ := mk.inj (some.inj hslot); rfl) hne
    · simp
    · rw [hph]
      rfl

/-- The initiator takes its request back, or sees that it has been met. -/
theorem clean {handed : Bool}
    (hph : (s.sessions i).phase=.signalled g x k ∨ (s.sessions i).phase=.given g x k)
    (hcal : ∀ j, (s.sessions k).movetoCallerPid=some j → j=i)
    (hend : phase=.failed g x ∧ (s.sessions i).handed=false ∧ handed=false ∨
      phase=.idle ∧ (s.sessions i).handed=true ∧ handed=false) :
    CoordinatorInv ((s.cleanTarget k).setSession i { s.sessions i with phase, handed }) := by
  have hok := h.core.sessions i
  have hslot : (s.sessions i).phase.slot=some (g, x) := by
    rcases hph with hph | hph <;> rw [hph] <;> rfl
  have hgv : (s.sessions i).phase.gives=some (x, k) := by
    rcases hph with hph | hph <;> rw [hph] <;> rfl
  have hwait : ∀ a b, (s.sessions i).phase≠.waiting a b := by
    intro a b heq
    rw [heq] at hslot
    exact absurd hslot (by simp)
  have hki : k≠i := by
    have := hok.apart
    rcases hph with hph | hph <;> rw [hph] at this <;>
      exact fun hki => this (by rw [hki]; rfl)
  have hnew : phase.gives=none ∧ phase.assigning=false ∧ phase.target=none ∧ handed=false := by
    rcases hend with ⟨rfl,-,rfl⟩ | ⟨rfl,-,rfl⟩ <;> exact ⟨rfl,rfl,rfl,rfl⟩
  have hfiel : Core (s.cleanTarget k) ∧ Queues (s.cleanTarget k) := by
    refine ⟨h.core.setSession (fun p => by cases p <;> rfl) ?_,h.queues.setFields rfl rfl rfl rfl⟩
    refine { h.core.sessions k with dead := ?_ }
    intro hdead
    obtain ⟨hself,hidle,hhdl,-,-⟩ := (h.core.sessions k).dead hdead
    exact ⟨hself,hidle,hhdl,rfl,rfl⟩
  have hi : (s.cleanTarget k).sessions i=s.sessions i := s.setSession_ne hki.symm _
  refine ⟨?core,?queues,?moves,h.awake⟩
  case core =>
    apply hfiel.1.setSession
    · intro p
      rw [hi]
      cases p with
      | self | granted | handler => rfl
      | hand =>
        rcases hend with ⟨rfl,hold,rfl⟩ | ⟨rfl,hold,rfl⟩
        · rw [holds,holds,hold,hslot]
          rfl
        · simp [holds,hold]
    · refine hok.rephase halv rfl rfl rfl rfl (hok.resSlot_none hwait) ?_ ?_ ?_
      · intro hasg
        cases hnew.2.1.symm.trans hasg
      · intro _ a b hab
        rcases hend with ⟨rfl,hold,rfl⟩ | ⟨rfl,hold,rfl⟩
        · obtain ⟨rfl,rfl⟩ := mk.inj (some.inj hab)
          exact ⟨(hok.hand hold _ _ hslot).1,absurd rfl⟩
        · exact absurd hab (by simp)
      · rw [hnew.2.2.1]
        simp
  case queues =>
    apply hfiel.2.setSession
    · exact h.queues.not_queued hwait
    · rw [hi]
  case moves =>
    apply h.moves.pair hki
    case htgt => exact ⟨rfl,rfl,rfl⟩
    case hinit => rfl
    case hold =>
      intro y m hy
      exact (mk.inj (some.inj (hgv.symm.trans hy))).2.symm
    case hnew =>
      intro y m hy
      cases hnew.1.symm.trans hy
    case hcal => exact hcal
    case hcal' =>
      intro j hj
      cases hj
    case hemp' => exact fun _ => rfl
    case hgiven' =>
      intro y hy
      cases hnew.1.symm.trans hy
    case hhan' =>
      intro hyes
      cases hnew.2.2.2.symm.trans hyes

theorem send (hph : (s.sessions i).phase=.signalled g x k) :
    CoordinatorInv (s.moveSendSignal i g x k) := by
  have hki : k≠i := by
    have := (h.core.sessions i).apart
    rw [hph] at this
    exact fun hki => this (by rw [hki]; rfl)
  rw [moveSendSignal]
  split
  · apply h.setPhase halv (by simp [hph])
    · rw [hph]
      rfl
    · simp
    · rw [hph]
      simp
    · simpa using hki
    · rw [hph]
      rfl
  next hdead =>
    rw [Bool.not_eq_true] at hdead
    have hnot : (s.sessions i).handed=false := by
      by_contra hyes
      obtain ⟨y,m,hgv,hliv⟩ := h.moves.handed i (by simpa using hyes)
      rw [hph] at hgv
      obtain ⟨-,rfl⟩ := mk.inj (some.inj hgv)
      cases hdead.symm.trans hliv
    have hnone := ((h.core.sessions k).dead hdead).2.2.2.2
    have hcln : CoordinatorInv ((s.cleanTarget k).setSession i
        { s.sessions i with phase := .failed g x, handed := false }) :=
      h.clean halv (.inl hph) (fun j hj => by cases hnone.symm.trans hj)
        (.inl ⟨rfl,hnot,rfl⟩)
    have hi : (s.cleanTarget k).sessions i=s.sessions i := s.setSession_ne hki.symm _
    rw [Coordinator.setPhase,hi]
    rw [← hnot] at hcln
    exact hcln

/-- The initiator looks whether the target has taken the slot. -/
theorem check {clean : Bool} (hph : (s.sessions i).phase=.given g x k) :
    CoordinatorInv (s.moveCheckTargetReady i g x k clean) := by
  have hgv : (s.sessions i).phase.gives=some (x, k) := by
    rw [hph]
    rfl
  have hki : k≠i := by
    have := (h.core.sessions i).apart
    rw [hph] at this
    exact fun hki => this (by rw [hki]; rfl)
  have hi : (s.cleanTarget k).sessions i=s.sessions i := s.setSession_ne hki.symm _
  have hsl : ∀ y m, (s.sessions i).phase.gives=some (y, m) → y=x ∧ m=k := by
    intro y m hy
    obtain ⟨rfl,rfl⟩ := mk.inj (some.inj (hgv.symm.trans hy))
    exact ⟨rfl,rfl⟩
  rw [moveCheckTargetReady]
  split
  next hmine =>
    obtain ⟨hliv,hcal⟩ := hmine
    have honly : ∀ j, (s.sessions k).movetoCallerPid=some j → j=i :=
      fun j hj => (some.inj (hcal.symm.trans hj)).symm
    obtain ⟨y,hy,hst⟩ := h.moves.caller k i hcal
    obtain ⟨rfl,-⟩ := hsl y k hy
    split
    · split
      next htak =>
        rcases hst with ⟨hset,-⟩ | ⟨-,-,hhan⟩
        · cases htak.2.symm.trans hset
        · exact h.clean halv (.inr hph) honly (.inr ⟨rfl,hhan,rfl⟩)
      next hnot =>
        rcases hst with ⟨-,hhan⟩ | ⟨hnone,hgrp,-⟩
        · have hcln := h.clean halv (.inr hph) honly (.inl ⟨rfl,hhan,rfl⟩)
          rw [← hhan] at hcln
          rw [Coordinator.setPhase,hi]
          exact hcln
        · exact absurd ⟨hgrp,hnone⟩ hnot
    · exact h
  next hot =>
    split
    · -- the target is gone without having taken the slot
      have hnot : (s.sessions i).handed=false := by
        by_contra hyes
        obtain ⟨y,m,hy,hliv⟩ := h.moves.handed i (by simpa using hyes)
        obtain ⟨-,rfl⟩ := hsl y m hy
        exact hot ⟨hliv,h.moves.given i y m hy hliv⟩
      have hdead : (s.sessions k).alive=false := by
        by_contra hliv
        have hliv : (s.sessions k).alive=true := by simpa using hliv
        exact hot ⟨hliv,h.moves.given i x k hgv hliv⟩
      refine ⟨?core,h.queues.setSession (h.queues.not_queued (by simp [hph])) rfl,?moves,
        h.awake⟩
      case core =>
        apply h.core.setPhase halv (by simp [hph])
        · rw [hph]
          rfl
        · simp
        · intro a b hab hne
          obtain ⟨rfl,rfl⟩ := mk.inj (some.inj hab)
          exact absurd rfl hne
        · simp
      case moves =>
        have hnone := ((h.core.sessions k).dead hdead).2.2.2.2
        have hpair : Moves (update (update s.sessions k (s.sessions k)) i
            { s.sessions i with phase := .failed g x }) := h.moves.pair hki ⟨rfl,rfl,rfl⟩ rfl
          (fun y m hy => (hsl y m hy).2) (fun y m hy => absurd hy (by simp))
          (fun j hj => by cases hnone.symm.trans hj)
          (fun j hj => by cases hnone.symm.trans hj) (h.moves.empty k)
          (fun y hy => absurd hy (by simp))
          (fun hyes => by cases hnot.symm.trans hyes)
        rw [update_eq_self] at hpair
        exact hpair
    · exact h

theorem releaseFailed (hph : (s.sessions i).phase=.failed g x)
    (hstep : (s.setSession i { s.sessions i with phase := .idle, handed := false
      }).groupReleaseSlot g x=some t) : CoordinatorInv t := by
  have hok := h.core.sessions i
  have hwait : ∀ a b, (s.sessions i).phase≠.waiting a b := by simp [hph]
  have hhan : (s.sessions i).handed=false := h.moves.not_handed (by rw [hph]; rfl)
  apply h.release (p := .hand) h.core.pool rfl _ (fun _ _ => rfl) _ _ _ _ _ _ hstep
  · exact (hok.hand hhan g x (by rw [hph]; rfl)).1
  · simp [held,holds,hhan,hph]
  · simp [holds]
  · intro q hq
    cases q with
    | hand => exact absurd rfl hq
    | self | granted | handler => rfl
  · exact hok.rephase halv rfl rfl rfl rfl (hok.resSlot_none hwait) (by simp)
      (by simp) (by simp)
  · exact h.queues.setSession (h.queues.not_queued hwait) rfl
  · exact ⟨by rw [hph]; rfl,hhan.symm,rfl,rfl,rfl,rfl⟩

/-- The target takes the slot over and tells the initiator. -/
theorem take (hself : (s.sessions i).self≠none) (hhdl : (s.sessions i).handler=.outside)
    (hx : (s.sessions i).movetoResSlot=some x) (hcal : (s.sessions i).movetoCallerPid=some j) :
    CoordinatorInv ((s.setSession i { s.sessions i with
      movetoResSlot := none, movetoGroupId := none, handler := .taken x }).markHanded (some j)) := by
  have hok := h.core.sessions i
  have hokj := h.core.sessions j
  obtain ⟨y,hgv,hst⟩ := h.moves.caller i j hcal
  rcases hst with ⟨hy,hhan⟩ | ⟨hy,-,-⟩
  swap
  · cases hx.symm.trans hy
  obtain rfl := some.inj (hx.symm.trans hy)
  obtain ⟨g,hph⟩ := gives_eq hgv
  have hslot : (s.sessions j).phase.slot=some (g, x) := by
    rcases hph with hph | hph <;> rw [hph] <;> rfl
  have htgt : (s.sessions j).phase.target=some i := by
    rcases hph with hph | hph <;> rw [hph] <;> rfl
  have hij : i≠j := by
    rintro rfl
    exact hokj.apart htgt
  obtain ⟨hgrp,hmv⟩ := hokj.hand hhan g x hslot
  have hmv := hmv (by rcases hph with hph | hph <;> rw [hph] <;> simp)
  generalize htak : ({ s.sessions i with movetoResSlot := none, movetoGroupId := none
                                         handler := .taken x } : Session)=target
  have hj : (s.setSession i target).sessions j=s.sessions j := s.setSession_ne hij.symm _
  rw [markHanded,hj]
  refine ⟨?core,?queues,?moves,h.awake⟩
  case core =>
    have hi : ((s.setSession i target).setSession j { s.sessions j with handed := true }).sessions i
        =target := by
      rw [setSession_ne _ hij,setSession_self]
    apply h.core.pass (l := (j, .hand)) (m := (i, .handler)) (x := x)
    case hpool => exact h.core.pool
    case hled => rfl
    case hgrp => exact fun _ => rfl
    case hfree => exact fun _ _ => rfl
    case hx =>
      rw [held,holds,hhan,hslot]
      rfl
    case hemp =>
      rw [held,holds,hhdl]
      rfl
    case hl =>
      rw [held_setSession]
      rfl
    case hm =>
      rw [held,hi,← htak]
      rfl
    case hoth =>
      intro l hl hm
      obtain ⟨a,p⟩ := l
      by_cases haj : a=j
      · subst haj
        rw [held_setSession]
        cases p with
        | hand => exact absurd rfl hl
        | self | granted | handler => rfl
      · rw [held_setSession_ne _ _ haj]
        by_cases hai : a=i
        · subst hai
          rw [held_setSession,← htak]
          cases p with
          | handler => exact absurd rfl hm
          | self | granted | hand => rfl
        · exact held_setSession_ne _ _ hai
    case hmv =>
      intro a b hab
      rw [hmv,htgt] at hab
      exact (mk.inj (some.inj hab)).2
    case hok =>
      intro a
      by_cases haj : a=j
      · rw [haj,setSession_self]
        refine { hokj with hand := ?_ }
        intro hnot
        cases hnot
      · rw [setSession_ne _ haj]
        by_cases hai : a=i
        · rw [hai,setSession_self,← htak]
          refine { hok with handler := ?_, assigning := ?_, handling := ?_, detached := ?_, dead := ?_ }
          · intro y hy
            cases hy
            exact ⟨g,hgrp⟩
          · intro hasg
            exact absurd (hok.assigning hasg).1 hself
          · exact fun _ => hok.bypassed hself
          · intro y hy
            cases hy
          · intro hdead
            cases halv.symm.trans hdead
        · rw [setSession_ne _ hai]
          exact h.core.sessions a
  case queues =>
    have hfirst : Queues (s.setSession i target) := by
      rw [← htak]
      exact h.queues.setFields rfl rfl rfl rfl
    apply hfirst.setFields <;> rw [hj]
  case moves =>
    apply h.moves.pair hij
    case htgt =>
      rw [← htak]
      exact ⟨rfl,rfl,rfl⟩
    case hinit => rfl
    case hold | hnew =>
      intro y m hy
      exact (mk.inj (some.inj (hgv.symm.trans hy))).2.symm
    case hcal =>
      intro a ha
      exact (some.inj (hcal.symm.trans ha)).symm
    case hcal' =>
      intro a ha
      rw [← htak] at ha ⊢
      exact ⟨(some.inj (hcal.symm.trans ha)).symm,x,hgv,.inr ⟨rfl,rfl,rfl⟩⟩
    case hemp' =>
      rw [← htak]
      exact fun _ => rfl
    case hgiven' =>
      intro _ _ _
      rw [← htak]
      exact hcal
    case hhan' => exact fun _ => ⟨x,hgv,halv⟩

theorem handle (hhdl : (s.sessions i).handler=.outside) :
    CoordinatorInv (s.handleMoveResourceGroup i inTransaction) := by
  have hirr : CoordinatorInv
      (s.setSession i { s.sessions i with movetoGroupId := none }) := by
    obtain ⟨hcore,hqs⟩ := h.setMoveto { s.sessions i with movetoGroupId := none } halv
      rfl
    exact ⟨hcore,hqs,h.moves.clearGroupId i,h.awake⟩
  rw [handleMoveResourceGroup]
  split
  · exact hirr
  next hass =>
    simp only [not_or] at hass
    split
    · exact hirr
    next x hx =>
      have hset : (s.sessions i).movetoCallerPid≠none := by
        intro hcal
        cases hx.symm.trans (h.moves.empty i hcal)
      obtain ⟨j,hcal⟩ := ne_none_iff_exists'.mp hset
      have htake := h.take halv hass.2 hhdl hx hcal
      rw [← hcal] at htake
      exact htake

end

end

theorem unassign_session (hbyp : (s.sessions i).bypassedGroup=none)
    (hstep : s.unassignResGroup i=some t) :
    t.sessions i={ s.sessions i with self := none, resSlot := (t.sessions i).resSlot } := by
  rw [unassignResGroup,hbyp] at hstep
  cases hself : (s.sessions i).self with
  | none =>
    rw [hself] at hstep
    cases hstep
    rw [← hself]
  | some a =>
    rw [hself] at hstep
    dsimp only at hstep
    split at hstep
    · have hwok := wakeup_sessions hstep i
      rw [groupPutSlot,setSession_self] at hwok
      exact hwok
    · cases hstep
      rw [setSession_self]

theorem handleUnassign (h : CoordinatorInv s) (hi : i<s.nSessions)
    (hhdl : (s.sessions i).handler=.taken x) (hstep : s.unassignResGroup i=some t) :
    CoordinatorInv (t.setSession i { t.sessions i with handler := .detached x }) := by
  have hbyp := (h.core.sessions i).handling (by simp [hhdl])
  have hses := unassign_session hbyp hstep
  have ht := h.unassign hi (absurd hbyp) hstep
  have hok := ht.core.sessions i
  have hold : (t.sessions i).handler=.taken x := by rw [hses]; exact hhdl
  have hself : (t.sessions i).self=none := by rw [hses]
  refine ⟨?_,ht.queues.setFields rfl rfl rfl rfl,ht.moves.update ⟨rfl,rfl,rfl,rfl,rfl,rfl⟩,
    ht.awake⟩
  apply ht.core.setSession
  · intro p
    cases p with
    | self | granted | hand => rfl
    | handler =>
      simp only [holds]
      rw [hold]
      rfl
  · refine { hok with handler := ?_, assigning := ?_, handling := ?_, detached := ?_, dead := ?_ }
    · intro y hy
      exact hok.handler y (by rw [hold]; exact hy)
    · intro hasg
      cases hold.symm.trans (hok.assigning hasg).2.2
    · exact fun _ => hok.handling (by simp [hold])
    · exact fun _ _ => hself
    · intro hdead
      cases hold.symm.trans (hok.dead hdead).2.2.1

/-- The target attaches itself to the slot it has taken. -/
theorem handleAttach (h : CoordinatorInv s) (halv : (s.sessions i).alive=true)
    (hhdl : (s.sessions i).handler=.detached x) (hgrp : (s.control.slots x).group=some g) :
    CoordinatorInv (s.selfAttach i g x (s.sessions i).phase .outside) := by
  have hok := h.core.sessions i
  have hx : s.held (i, .handler)=some x := by
    rw [held,holds,hhdl]
    rfl
  obtain ⟨k,hslot⟩ := hok.handler x (by rw [hhdl]; rfl)
  obtain rfl : k=g := by
    rw [hslot] at hgrp
    exact some.inj hgrp
  have hasg : (s.sessions i).phase.assigning=false := by
    by_contra hyes
    have hout := (hok.assigning (by simpa using hyes)).2.2
    cases hhdl.symm.trans hout
  apply h.selfAttach (p := .handler) rfl halv (hok.detached x hhdl)
    (hok.handling (by simp [hhdl])) hslot hx (by simp)
  case hemp | hgv => rfl
  case hhd =>
    intro q hq
    cases q with
    | handler => exact absurd rfl hq
    | self | granted | hand => rfl
  case hok =>
    refine { hok with handler := ?_, assigning := ?_, handling := ?_, detached := ?_, dead := ?_ }
    · intro y hy
      exact absurd hy (by simp [Handler.slot])
    · intro hyes
      cases hasg.symm.trans hyes
    · exact absurd rfl
    · intro y hy
      cases hy
    · intro hdead
      cases halv.symm.trans hdead
  case hasg => exact hasg
  case hmv =>
    intro a b hab
    obtain ⟨p,hp⟩ := h.core.mover x a b hab
    have hplace := h.core.custody.unique hp hx
    obtain rfl : p=.handler := congrArg Prod.snd hplace
    exact (congrArg Prod.fst hplace).symm
  case hqs => exact h.queues.setFields rfl rfl rfl rfl

end CoordinatorInv

namespace Coordinator

/-- A process does not exit between taking a slot and the initiator's check, and no initiator is
terminated while it waits for its target. -/
def Orderly (s : Coordinator) : CoordinatorAction → Prop
  | .session i a => a≠.terminate ∧
    (a=.exit → (s.sessions i).movetoCallerPid=none ∨ (s.sessions i).movetoResSlot≠none)
  | .alter _ _ | .checkForDrop _ | .dropFinish _ _ => True

instance (s : Coordinator) : (a : CoordinatorAction) → Decidable (s.Orderly a)
  | .session _ _ => inferInstanceAs (Decidable (_ ∧ _))
  | .alter _ _ | .checkForDrop _ | .dropFinish _ _ => inferInstanceAs (Decidable True)

end Coordinator

namespace CoordinatorInv

variable {s : Coordinator}

theorem mainStep (h : CoordinatorInv s) (hi : i<s.nSessions)
    (halv : (s.sessions i).alive=true) (hhdl : (s.sessions i).handler=.outside)
    (hC : s.Orderly (.session i a)) (hstep : s.mainStep i (s.sessions i).phase a=some t) :
    CoordinatorInv t := by
  cases a <;> cases hph : (s.sessions i).phase <;>
    simp only [hph,Coordinator.mainStep,reduceCtorEq] at hstep
  case decideBypass.idle g =>
    obtain ⟨⟨hself,hbyp,-⟩,rfl⟩ := of_guard hstep
    exact h.setPhase_empty halv (by simp [hph]) (by rw [hph]; rfl) rfl
      (fun _ => ⟨hself,hbyp,hhdl⟩) (by simp)
  case incBypassedRef.bypassDecided g =>
    cases hstep
    exact h.incBypassedRef hi halv hph
  case decide.idle g target =>
    obtain ⟨⟨-,hapart,hfree⟩,rfl⟩ := of_guard hstep
    refine h.setPhase_empty halv (by simp [hph]) (by rw [hph]; rfl) rfl ?_ hapart
    intro hasg
    obtain ⟨hself,hbyp⟩ := hfree (by simpa using hasg)
    exact ⟨hself,hbyp,hhdl⟩
  case acquire.decided g target => exact h.acquire halv hph hstep
  case resume.waiting g target => exact h.resume halv hph hstep
  case cancel.waiting g target => exact h.cancel halv hph hstep
  case attach.acquired g x target =>
    cases target with
    | some k => simp at hstep
    | none =>
      cases hstep
      exact h.attach halv hph
  case unassign.idle => exact h.unassign hi (fun _ => h.queues.not_queued (by simp [hph])) hstep
  case exit.idle =>
    obtain ⟨⟨hself,-⟩,rfl⟩ := of_guard hstep
    exact h.exit hph hself hhdl (hC.2 rfl)
  case giveUp.acquired g x target =>
    cases target with
    | none => simp at hstep
    | some k =>
      cases hstep
      apply h.setPhase halv (by simp [hph])
      · rw [hph]
        rfl
      · simp
      · intro a b hab hne
        obtain ⟨rfl,rfl⟩ := mk.inj (some.inj hab)
        exact absurd rfl hne
      · simp
      · rw [hph]
        rfl
  case signal.acquired g x target =>
    cases target with
    | none => simp at hstep
    | some k =>
      cases hstep
      exact h.signal halv hph
  case send.signalled g x k =>
    cases hstep
    exact h.send halv hph
  case check.given clean g x k =>
    cases hstep
    exact h.check halv hph
  case release.failed g x => exact h.releaseFailed halv hph hstep
  case terminate.given g x k => exact absurd rfl hC.1
  all_goals
    cases hstep
    exact h.handle halv hhdl

/-- Every action keeps the coordinator's invariant. -/
theorem step (h : CoordinatorInv s) (hC : s.Orderly a)
    (hstep : s.step a=some t) : CoordinatorInv t := by
  cases a with
  | session i a =>
    obtain ⟨⟨hi,halv⟩,hstep⟩ := ite_none_right_eq_some.mp hstep
    cases hhdl : (s.sessions i).handler with
    | outside =>
      rw [hhdl] at hstep
      exact h.mainStep hi halv hhdl hC hstep
    | taken x =>
      rw [hhdl] at hstep
      cases a <;> simp only [handlerStep,reduceCtorEq] at hstep
      obtain ⟨u,hu,rfl⟩ := map_eq_some_iff.mp hstep
      exact h.handleUnassign hi hhdl hu
    | detached x =>
      rw [hhdl] at hstep
      cases a <;> simp only [handlerStep,reduceCtorEq] at hstep
      obtain ⟨g,hg,rfl⟩ := map_eq_some_iff.mp hstep
      exact h.handleAttach halv hhdl hg
  | alter g concurrency => exact h.alter hstep
  | checkForDrop g => exact h.checkForDrop hstep
  | dropFinish g isCommit => exact h.dropFinish hstep

theorem init (size : Nat) (concurrency : Nat → Option Int) (nSessions : Nat) :
    CoordinatorInv (Coordinator.init size concurrency nSessions) := by
  have hemp : ∀ l, (Coordinator.init size concurrency nSessions).held l=none := by
    intro l
    obtain ⟨i,p⟩ := l
    cases p <;> rfl
  refine ⟨⟨PoolInv.init size concurrency,⟨?_,?_⟩,fun _ _ => rfl,fun _ => rfl,fun i => ?_,?_⟩,
    ⟨fun g => ?_,by simp⟩,⟨?_,fun _ _ => rfl,?_,?_⟩,?_⟩
  · intro l m x hl
    rw [hemp] at hl
    cases hl
  · intro x
    simp only [hemp]
    simp
  · constructor <;> simp [Handler.slot]
  · simp
  · have hnob : tally nSessions (fun _ => ({} : Session))
        (fun s => decide (s.bypassedGroup=some g))=0 := by
      apply tally_eq_zero.mpr
      simp
    constructor <;> simp [Ledger.served,hnob]
  · simp
  · simp
  · simp
  · simp

end CoordinatorInv

end WarehousePG.ResGroup
