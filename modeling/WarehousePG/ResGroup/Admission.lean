import WarehousePG.ResGroup.MoveSteps

namespace WarehousePG.ResGroup

open Framework Option

namespace CoordinatorAction

variable {a : CoordinatorAction} {g i x : Nat}

def startsMove : CoordinatorAction → Bool
  | session _ (.decide _ (some _)) => true
  | _ => false

end CoordinatorAction

def Quiet (s : Coordinator) : Prop :=
  ∀ i, (s.sessions i).phase.target=none ∧ (s.sessions i).movetoCallerPid=none

namespace Quiet

variable {t : Coordinator}

section

variable (h : Quiet s)
include h

open Coordinator

theorem setSession (hph : session.phase.target=none)
    (hcal : session.movetoCallerPid=none) : Quiet (s.setSession i session) := by
  intro j
  by_cases hj : j=i
  · rw [hj,setSession_self]
    exact ⟨hph,hcal⟩
  · rw [s.setSession_ne hj]
    exact h j

theorem setPhase (hph : phase.target=none) :
    Quiet (s.setPhase i phase) := h.setSession hph (h i).2

theorem wakeup {queue : List Nat} (hwk : s.wakeup g queue=some t) : Quiet t := by
  intro i
  rw [wakeup_sessions hwk i]
  exact h i

theorem release (hrel : s.groupReleaseSlot g x=some t) : Quiet t :=
  wakeup (s := s.groupPutSlot g x) h hrel

theorem unassign (hstep : s.unassignResGroup i=some t) : Quiet t := by
  rw [unassignResGroup] at hstep
  split at hstep
  · cases hstep
    exact setSession (s := { s with control := _ }) h (h i).1 (h i).2
  · cases hstep
    exact h
  · have hdet : ∀ c : Control, Quiet ({ s with control := c }.setSession i
        { s.sessions i with self := none }) :=
      fun c => setSession (s := { s with control := c }) h (h i).1 (h i).2
    dsimp only at hstep
    split at hstep
    · exact (hdet _).release hstep
    · cases hstep
      exact hdet _

theorem cancel (hstep : s.groupWaitCancel i g=some t) : Quiet t := by
  rw [groupWaitCancel] at hstep
  split at hstep
  · cases hstep
    exact setPhase (s := { s with control := _ }) h rfl
  · split at hstep
    · refine release ?_ hstep
      exact h.setSession rfl (h i).2
    · cases hstep
      exact h.setPhase rfl

theorem acquire (hstep : s.groupAcquireSlot i g none=some t) : Quiet t := by
  rw [groupAcquireSlot] at hstep
  split at hstep
  · cases hstep
    exact h.setPhase rfl
  · split at hstep
    · obtain ⟨⟨x,u⟩,hget,rfl⟩ := map_eq_some_iff.mp hstep
      have hu : Quiet u := by
        intro j
        rw [(groupGetSlot_gets hget).sessions]
        exact h j
      exact hu.setPhase rfl
    · cases hstep
      exact setSession (s := { s with control := _, ledger := _ }) h rfl (h i).2

variable (hinv : CoordinatorInv s)
include hinv

theorem handle (i : Nat) (inTransaction : Bool) :
    Quiet (s.handleMoveResourceGroup i inTransaction) := by
  rw [handleMoveResourceGroup]
  split
  · exact h.setSession (h i).1 (h i).2
  · split
    · exact h.setSession (h i).1 (h i).2
    next x hx => cases hx.symm.trans (hinv.moves.empty i (h i).2)

theorem mainStep (ha : (CoordinatorAction.session i a).startsMove=false)
    (hstep : s.mainStep i (s.sessions i).phase a=some t) : Quiet t := by
  have htgt := (h i).1
  cases a <;> cases hph : (s.sessions i).phase <;>
    simp only [hph,Coordinator.mainStep,reduceCtorEq] at hstep htgt
  case decideBypass.idle g =>
    obtain ⟨-,rfl⟩ := of_guard hstep
    exact h.setPhase rfl
  case incBypassedRef.bypassDecided g =>
    cases hstep
    rw [Coordinator.groupIncBypassedRef]
    split
    · exact h.setPhase rfl
    · exact setSession (s := { s with control := _ }) h rfl (h i).2
  case decide.idle g target =>
    obtain ⟨-,rfl⟩ := of_guard hstep
    cases target with
    | none => exact h.setPhase rfl
    | some k => exact absurd ha (by simp [CoordinatorAction.startsMove])
  case acquire.decided g target =>
    obtain rfl : target=none := htgt
    exact h.acquire hstep
  case resume.waiting g target =>
    obtain rfl : target=none := htgt
    rw [Coordinator.resumeWait] at hstep
    obtain ⟨-,hstep⟩ := ite_none_left_eq_some.mp hstep
    cases hstep
    refine h.setSession ?_ (h i).2
    cases (s.sessions i).resSlot <;> rfl
  case cancel.waiting g target => exact h.cancel hstep
  case attach.acquired g x target =>
    obtain rfl : target=none := htgt
    cases hstep
    exact setSession (s := { s with control := _ }) h rfl (h i).2
  case unassign.idle => exact h.unassign hstep
  case exit.idle =>
    obtain ⟨-,rfl⟩ := of_guard hstep
    exact h.setSession (h i).1 rfl
  case giveUp.acquired g x target | signal.acquired g x target =>
    obtain rfl : target=none := htgt
    simp at hstep
  case send.signalled g x k | check.given clean g x k | terminate.given g x k =>
    exact absurd htgt (by simp [Phase.target])
  case release.failed g x =>
    refine release ?_ hstep
    exact h.setSession rfl (h i).2
  all_goals
    cases hstep
    exact h.handle hinv i _

/-- Without a move no session is ever in the middle of one. -/
theorem step (ha : a.startsMove=false) (hstep : s.step a=some t) : Quiet t := by
  cases a with
  | session i a =>
    obtain ⟨-,hstep⟩ := ite_none_right_eq_some.mp hstep
    cases hhdl : (s.sessions i).handler with
    | outside =>
      rw [hhdl] at hstep
      exact h.mainStep hinv ha hstep
    | taken x =>
      rw [hhdl] at hstep
      cases a <;> simp only [handlerStep,reduceCtorEq] at hstep
      obtain ⟨u,hu,rfl⟩ := map_eq_some_iff.mp hstep
      exact (h.unassign hu).setSession ((h.unassign hu) i).1 ((h.unassign hu) i).2
    | detached x =>
      rw [hhdl] at hstep
      cases a <;> simp only [handlerStep,reduceCtorEq] at hstep
      obtain ⟨g,hg,rfl⟩ := map_eq_some_iff.mp hstep
      exact setSession (s := { s with control := _ }) h (h i).1 (h i).2
  | alter g concurrency =>
    obtain ⟨-,hstep⟩ := ite_none_left_eq_some.mp hstep
    refine wakeup ?_ hstep
    exact h
  | checkForDrop g =>
    obtain ⟨-,hstep⟩ := ite_none_left_eq_some.mp hstep
    split at hstep <;> obtain rfl := some.inj hstep <;> exact h
  | dropFinish g isCommit =>
    obtain ⟨-,hstep⟩ := ite_none_left_eq_some.mp hstep
    cases hstep
    intro i
    change ((s.wakeupAll g).sessions i).phase.target=none ∧
      ((s.wakeupAll g).sessions i).movetoCallerPid=none
    rw [hinv.wakeupAll_sessions g]
    exact h i

end

theorem init (size : Nat) (concurrency : Nat → Option Int) (nSessions : Nat) :
    Quiet (Coordinator.init size concurrency nSessions) := fun _ => ⟨rfl,rfl⟩

theorem orderly (h : Quiet s) (hstep : s.step a=some t) : s.Orderly a := by
  cases a with
  | session i a =>
    refine ⟨?_,fun _ => Or.inl (h i).2⟩
    rintro rfl
    obtain ⟨-,hstep⟩ := ite_none_right_eq_some.mp hstep
    have htgt := (h i).1
    cases hhdl : (s.sessions i).handler <;> rw [hhdl] at hstep <;>
      cases hph : (s.sessions i).phase <;>
      simp [hph,Coordinator.mainStep,Coordinator.handlerStep,Phase.target] at hstep htgt
  | alter _ _ | checkForDrop _ | dropFinish _ _ => trivial

end Quiet

theorem quiet_run (hmoves : ∀ a∈as, a.startsMove=false)
    (hrun : run Coordinator.step (Coordinator.init size concurrency nSessions) as=some t) :
    CoordinatorInv t ∧ Quiet t := by
  refine run_invariant_of_everyStep (P := fun s => CoordinatorInv s ∧ Quiet s)
    (C := fun _ a => a.startsMove=false) ?_
    ⟨CoordinatorInv.init size concurrency nSessions,Quiet.init size concurrency nSessions⟩
    (everyStep_of_forall_mem fun a ha _ => hmoves a ha) hrun
  rintro s a t ⟨hinv,hqt⟩ ha hstep
  exact ⟨hinv.step (hqt.orderly hstep) hstep,hqt.step hinv ha hstep⟩

theorem CoordinatorInv.owner (h : CoordinatorInv s) (hx : x<s.control.size)
    (hfree : x∉s.control.freeSlots) : ∃ i, s.Owns i x ∧ ∀ j, s.Owns j x → j=i := by
  have hused : (s.control.slots x).group≠none :=
    fun hnone => hfree ((h.core.pool.free x hx).mpr hnone)
  obtain ⟨⟨i,p⟩,hp⟩ := (h.core.custody.used_iff x).mp hused
  refine ⟨i,⟨p,hp⟩,fun j hj => ?_⟩
  obtain ⟨q,hq⟩ := hj
  exact congrArg Prod.fst (h.core.custody.unique (l := (j, q)) (m := (i, p)) hq hp)

/-- Three sessions in a group with one slot: the second waits and is cancelled after it was granted
the slot, the third waits behind it. -/
def contendedGroup : List CoordinatorAction :=
  [.session 0 (.decide 1 none),.session 0 .acquire,.session 0 .attach,
    .session 1 (.decide 1 none),.session 1 .acquire,.session 2 (.decide 1 none),
    .session 2 .acquire,.session 0 .unassign,.session 1 .cancel,.session 2 .resume,
    .session 2 .attach]

open Coordinator

namespace CoordinatorInv

variable (h : CoordinatorInv s)
include h

theorem free_iff (hx : x<s.control.size) : x∈s.control.freeSlots ↔ ∀ i, ¬s.Owns i x := by
  constructor
  · rintro hfree i ⟨p,hp⟩
    exact h.core.group_ne_none (l := (i, p)) hp ((h.core.pool.free x hx).mp hfree)
  · intro hnob
    by_contra hfree
    obtain ⟨i,hi,-⟩ := h.owner hx hfree
    exact hnob i hi

theorem mover_owner (hx : s.ledger.mover x=some (i, k)) :
    x∉s.control.freeSlots ∧ ∃ j, (j=i ∨ j=k) ∧ s.Owns j x ∧ ∀ m, s.Owns m x → m=j := by
  obtain ⟨p,hp⟩ := h.core.mover x i k hx
  obtain ⟨g,hg⟩ := Option.ne_none_iff_exists'.mp (h.core.group_ne_none hp)
  have hlt := h.core.pool.lt_size hg
  have hused : x∉s.control.freeSlots := by
    intro hfree
    exact (h.free_iff hlt).mp hfree _ ⟨p,hp⟩
  refine ⟨hused,_,?_,⟨p,hp⟩,?_⟩
  · split
    · exact .inl rfl
    · exact .inr rfl
  · rintro m ⟨q,hq⟩
    exact congrArg Prod.fst (h.core.custody.unique (l := (m, q)) hq hp)

theorem mover_ended (hi : (s.sessions i).phase=.idle)
    (hself : (s.sessions k).self=none) (hhdl : (s.sessions k).handler=.outside) :
    s.ledger.mover x≠some (i, k) := by
  intro hx
  obtain ⟨p,hp⟩ := h.core.mover x i k hx
  have hgran := (h.core.sessions i).resSlot_none (by simp [hi])
  cases p <;>
    simp [held,Session.holds,Place.ofInitiator,hi,hself,hhdl,hgran,
      Phase.slot,Handler.slot] at hp

end CoordinatorInv

def movedQuery : List CoordinatorAction :=
  [.session 1 (.decide 1 none),.session 1 .acquire,.session 1 .attach,
    .session 0 (.decide 1 none),.session 0 .acquire,.session 0 .attach,
    .session 0 (.decide 2 (some 1)),.session 0 .acquire,.session 0 .signal,.session 0 .send,
    .session 1 (.handle true),.session 1 .handleUnassign,.session 1 .handleAttach]

end WarehousePG.ResGroup
