import WarehousePG.ResGroup.WaitQueue

namespace WarehousePG.ResGroup

open Framework Function Coordinator Control List

namespace Core

variable {target : Option Nat}

theorem setPhase (h : Core s) (halv : (s.sessions i).alive=true)
    (hwait : ∀ g k, (s.sessions i).phase≠.waiting g k)
    (hslot : phase.slot=(s.sessions i).phase.slot)
    (hasg : phase.assigning=true → (s.sessions i).self=none ∧
      (s.sessions i).bypassedGroup=none ∧ (s.sessions i).handler=.outside)
    (htgt : ∀ g x, phase.slot=some (g, x) → phase≠.failed g x →
      (s.sessions i).phase≠.failed g x ∧ phase.target=(s.sessions i).phase.target)
    (hapart : phase.target≠some i) : Core (s.setPhase i phase) := by
  have hok := h.sessions i
  apply h.setSession
  · intro p
    cases p with
    | self | granted | handler => rfl
    | hand =>
      simp only [Session.holds]
      rw [hslot]
  · refine hok.rephase halv rfl rfl rfl rfl (hok.resSlot_none hwait) hasg ?_ hapart
    intro hhan g x hx
    obtain ⟨hgrp,hmv⟩ := hok.hand hhan g x (hslot ▸ hx)
    refine ⟨hgrp,fun hfailed => ?_⟩
    obtain ⟨hne,heq⟩ := htgt g x hx hfailed
    rw [hmv hne,← heq]

end Core

namespace CoordinatorInv

variable {t : Coordinator}

attribute [local simp] Phase.assigning Phase.slot Phase.target Session.holds

section

variable (h : CoordinatorInv s)
include h

theorem awake_of_others (hoth : ∀ k, k≠g → t.control.groups k=s.control.groups k)
    (hself : (t.control.groups g).lockedForDrop=false → (t.control.groups g).waitProcs≠[] → t.Full g)
    (k : Nat) (hlock : (t.control.groups k).lockedForDrop=false)
    (hne : (t.control.groups k).waitProcs≠[]) : t.Full k := by
  by_cases hk : k=g
  · subst hk
    exact hself hlock hne
  · rw [Coordinator.Full]
    rw [hoth k hk] at hlock hne ⊢
    exact h.awake k hlock hne

section

variable (halv : (s.sessions i).alive=true) (hwait : ∀ g k, (s.sessions i).phase≠.waiting g k)
include halv hwait

theorem setPhase (hslot : phase.slot=(s.sessions i).phase.slot)
    (hasg : phase.assigning=true → (s.sessions i).self=none ∧
      (s.sessions i).bypassedGroup=none ∧ (s.sessions i).handler=.outside)
    (htgt : ∀ g x, phase.slot=some (g, x) → phase≠.failed g x →
      (s.sessions i).phase≠.failed g x ∧ phase.target=(s.sessions i).phase.target)
    (hapart : phase.target≠some i) (hgv : phase.gives=(s.sessions i).phase.gives) :
    CoordinatorInv (s.setPhase i phase) :=
  ⟨h.core.setPhase halv hwait hslot hasg htgt hapart,
    h.queues.setSession (h.queues.not_queued hwait) rfl,
    h.moves.update ⟨hgv,rfl,rfl,rfl,rfl,rfl⟩,h.awake⟩

theorem setPhase_empty (hold : (s.sessions i).phase.slot=none) (hnew : phase.slot=none)
    (hasg : phase.assigning=true → (s.sessions i).self=none ∧
      (s.sessions i).bypassedGroup=none ∧ (s.sessions i).handler=.outside)
    (hapart : phase.target≠some i) : CoordinatorInv (s.setPhase i phase) := by
  refine h.setPhase halv hwait (hnew.trans hold.symm) hasg ?_ hapart ?_
  · intro g x hx
    rw [hnew] at hx
    cases hx
  · have hgv : ∀ phase : Phase, phase.slot=none → phase.gives=none := by
      intro phase hslot
      cases phase with
      | signalled _ _ _ | given _ _ _ => exact absurd hslot (by simp)
      | idle | bypassDecided _ | decided _ _ | waiting _ _ | acquired _ _ _ | failed _ _ => rfl
    rw [hgv phase hnew,hgv _ hold]

end

/-- `groupReleaseSlot`: the slot is put back and waiting sessions are woken up. In `c` it is a slot
of `g` that no process is attached to. -/
theorem release (hpool : PoolInv c)
    (hgroups : c.groups=s.control.groups) (hslot : c.slots x={ group := some g })
    (hsl : ∀ y, y≠x → c.slots y=s.control.slots y) (hx : s.held (i, p)=some x)
    (hemp : session.holds p=none) (hhd : ∀ q, q≠p → session.holds q=(s.sessions i).holds q)
    (hok : SessionOk s.control.slots s.ledger.mover i session)
    (hqs : Queues (s.setSession i session)) (hmoves : SameMove (s.sessions i) session)
    (hrel : ({ s with control := c }.setSession i session).groupReleaseSlot g x=some t) :
    CoordinatorInv t := by
  have hpos : (s.control.groups g).nRunning≠0 := by
    have := hpool.nRunning_pos (x := x) (g := g) (by rw [hslot])
    rw [hgroups] at this
    omega
  have hloc : (s.control.groups g).lockedForDrop=false := by
    by_contra hlock
    exact hpos ((h.queues.groups g).locked (by simpa using hlock))
  have hdrp : (s.control.groups g).dropped=false := by
    by_contra hdrop
    exact hpos ((h.queues.groups g).dropped (by simpa using hdrop)).1
  rw [groupReleaseSlot,wakeupSlots] at hrel
  have hcore := h.core.put hpool hslot hsl hx hemp hhd hok
  generalize hu : Coordinator.groupPutSlot _ g x=u at hrel hcore
  have hself : u.control.groups g={ s.control.groups g with
      nRunning := (s.control.groups g).nRunning+-1 } := by
    rw [← hu]
    refine (setGroup_self _ g _).trans ?_
    change { c.groups g with nRunning := (c.groups g).nRunning+-1 }=_
    rw [hgroups]
  have hoth : ∀ k, k≠g → u.control.groups k=s.control.groups k := by
    intro k hk
    rw [← hu,← hgroups]
    exact setGroup_ne _ hk _
  have hss : u.sessions=update s.sessions i session := by rw [← hu]; rfl
  have hled : u.ledger=s.ledger.put x := by rw [← hu]; rfl
  have hn : u.nSessions=s.nSessions := by rw [← hu]; rfl
  have hok : ∀ k, QueueOk u.sessions u.ledger u.nSessions k (s.control.groups k) := by
    rw [hss,hled,hn]
    exact fun k => (hqs.groups k).congr (fun _ _ => ⟨rfl,rfl,rfl⟩) (fun _ => rfl) rfl
      (Nat.le_refl _)
  have huqs : Queues u := by
    refine ⟨fun k => ?_,?_⟩
    · by_cases hk : k=g
      · subst hk
        rw [hself]
        exact (hok k).setGroup (fun hlock => by cases hloc.symm.trans hlock)
          (fun hdrop => by cases hdrp.symm.trans hdrop) rfl rfl
      · rw [hoth k hk]
        exact hok k
    · rw [hled]
      exact h.queues.grants
  obtain ⟨hcore,hqs,hend,hwok⟩ := wakeup_inv hcore huqs rfl
    (by rw [hself]; exact hloc) (by rw [hself]; exact hdrp) hrel
  refine ⟨hcore,hqs,(h.moves.update hmoves).congr fun j => ?_,h.awake_of_others
    (fun k hk => (hwok.groups k hk).trans (hoth k hk)) fun _ => hend.resolve_left⟩
  rw [hwok.sessions j,hss]
  exact ⟨rfl,rfl,rfl,rfl,rfl,rfl⟩

theorem setBypassed (hi : i<s.nSessions) (hhd : ∀ p, session.holds p=(s.sessions i).holds p)
    (hok : SessionOk s.control.slots s.ledger.mover i session)
    (hqd : ∀ k, i∉(s.control.groups k).waitProcs) (hmoves : SameMove (s.sessions i) session)
    (hcnt : ∀ k, (if (s.sessions i).bypassedGroup=some k then 1 else 0)+(if k=g then n else 0)
      =(if session.bypassedGroup=some k then 1 else 0)) :
    CoordinatorInv ({ s with control := s.control.addBypassed g n }.setSession i session) := by
  have hcore : Core (s.setSession i session) := h.core.setSession hhd hok
  refine ⟨?core,⟨fun k => ?groups,h.queues.grants⟩,h.moves.update hmoves,?awake⟩
  case core =>
    refine hcore.same ?_ rfl rfl rfl rfl (fun _ => rfl) hcore.sessions
    exact h.core.pool.setGroup rfl
  case groups =>
    have hold := h.queues.groups k
    have hss : ∀ j∈(s.control.groups k).waitProcs,
        update s.sessions i session j=s.sessions j := by
      intro j hj
      rw [update_of_ne]
      rintro rfl
      exact hqd k hj
    have hgrp : (s.control.addBypassed g n).groups k={ s.control.groups k with
        nRunningBypassed := (s.control.groups k).nRunningBypassed+(if k=g then n else 0) } := by
      by_cases hk : k=g
      · subst hk
        rw [addBypassed,setGroup_self,if_pos rfl]
      · rw [addBypassed,setGroup_ne _ hk,if_neg hk,Int.add_zero]
    change QueueOk (update s.sessions i session) s.ledger s.nSessions k
      ((s.control.addBypassed g n).groups k)
    rw [hgrp]
    refine ⟨hold.locked,hold.dropped,fun j hj => ?_,hold.order.imp_of_mem fun hj hk hlt => ?_,
      fun j hj => ?_,hold.served,fun m hm => ⟨(hold.ahead m hm).1,fun j hj => ?_⟩,?_⟩
    · rw [hss j hj]
      exact hold.members j hj
    · rw [hss _ hj,hss _ hk]
      exact hlt
    · rw [hss j hj]
      exact hold.numbered j hj
    · rw [hss j hj]
      exact (hold.ahead m hm).2 j hj
    · have htally := tally_update hi s.sessions session fun s => decide (s.bypassedGroup=some k)
      have hk := hcnt k
      change (s.control.groups k).nRunningBypassed+(if k=g then n else 0)=_
      rw [hold.bypassed]
      by_cases hbef : (s.sessions i).bypassedGroup=some k <;>
        by_cases haft : session.bypassedGroup=some k <;>
        simp only [hbef,haft,decide_true,decide_false,Bool.toNat_true,Bool.toNat_false,
          if_true,if_false] at htally hk <;> omega
  case awake =>
    refine h.awake_of_others (fun k hk => setGroup_ne _ hk _) fun hlock hne => ?_
    rw [Coordinator.Full]
    simp only [setSession_control,addBypassed,setGroup_self] at hlock hne ⊢
    exact h.awake g hlock hne

theorem incBypassedRef (hi : i<s.nSessions)
    (halv : (s.sessions i).alive=true) (hph : (s.sessions i).phase=.bypassDecided g) :
    CoordinatorInv (s.groupIncBypassedRef i g) := by
  have hwait : ∀ k m, (s.sessions i).phase≠.waiting k m := by simp [hph]
  have hok := h.core.sessions i
  obtain ⟨hself,hbyp,hhdl⟩ := hok.assigning (by rw [hph]; rfl)
  rw [groupIncBypassedRef]
  split
  · exact h.setPhase_empty halv hwait (by rw [hph]; rfl) rfl (by simp)
      (by simp)
  · apply h.setBypassed hi
    · intro p
      cases p with
      | self | granted | handler => rfl
      | hand => simp [hph]
    · refine ⟨hok.self,?_,?_,hok.handler,?_,?_,hok.detached,?_,?_,?_⟩
      · intro x hx
        rw [hok.resSlot_none hwait] at hx
        cases hx
      · simp
      · simp
      · exact absurd hhdl
      · exact absurd hself
      · exact fun hdead => by cases halv.symm.trans hdead
      · simp
    · exact h.queues.not_queued hwait
    · exact ⟨by rw [hph]; rfl,rfl,rfl,rfl,rfl,rfl⟩
    · intro k
      simp [hbyp,eq_comm]

section

variable (halv : (s.sessions i).alive=true) (hph : (s.sessions i).phase=.decided g target)
include halv hph

/-- A session that finds room takes a slot at once. -/
theorem acquireDirect (hloc : (s.control.groups g).lockedForDrop=false)
    (hdrp : (s.control.groups g).dropped=false) (hfull : ¬s.Full g)
    (hget : s.Gets i g none target x t) : CoordinatorInv (t.setPhase i (.acquired g x target)) := by
  have hwait : ∀ k m, (s.sessions i).phase≠.waiting k m := by simp [hph]
  have hhan : (s.sessions i).handed=false := h.moves.not_handed (by rw [hph]; rfl)
  obtain ⟨-,hfree,hslot,hsl,hmov,hmv⟩ := h.core.gets_facts hget
  have hok : SessionOk t.control.slots t.ledger.mover i (s.sessions i) :=
    h.core.others hsl hmv fun p hp => h.core.group_ne_none hp hfree
  have hqs : Queues (s.setSession i { s.sessions i with phase := .acquired g x target }) :=
    h.queues.setSession (h.queues.not_queued hwait) rfl
  have hself : t.control.groups g={ s.control.groups g with
      nRunning := (s.control.groups g).nRunning+1 } := by
    rw [hget.groups,addRunning,setGroup_self]
  have hoth : ∀ k, k≠g → t.control.groups k=s.control.groups k := by
    intro k hk
    rw [hget.groups,addRunning,setGroup_ne _ hk]
  rw [Coordinator.setPhase,hget.sessions]
  refine ⟨?core,⟨fun k => ?groups,fun e he => ?grants⟩,?moves,?awake⟩
  case core =>
    apply h.core.get (p := .hand) hget
    · simp [hph]
    · simp [hhan]
    · rfl
    · intro q hq
      cases q with
      | hand => exact absurd rfl hq
      | self | granted | handler => rfl
    · refine hok.rephase halv rfl rfl rfl rfl (hok.resSlot_none hwait) ?_ ?_ ?_
      · intro hasg
        exact hok.assigning (by rw [hph]; exact hasg)
      · intro _ k y hy
        obtain ⟨rfl,rfl⟩ := Prod.mk.inj (Option.some.inj hy)
        exact ⟨hslot,fun _ => hmov⟩
      · have := hok.apart
        rw [hph] at this
        exact this
  case groups =>
    have hser : ∀ k, t.ledger.served k=s.ledger.served k := by
      intro k
      rw [hget.ledger]
      simp [Ledger.served,Ledger.get]
    have hqueue : QueueOk (t.setSession i { s.sessions i with phase := .acquired g x target }).sessions
        t.ledger t.nSessions k (s.control.groups k) := by
      rw [hget.nSessions]
      have hss : (t.setSession i { s.sessions i with phase := .acquired g x target }).sessions
          =(s.setSession i { s.sessions i with phase := .acquired g x target }).sessions := by
        rw [setSession,hget.sessions]
        rfl
      rw [hss]
      refine (hqs.groups k).congr (fun _ _ => ⟨rfl,rfl,rfl⟩) (fun _ => rfl) (hser k) ?_
      rw [hget.ledger]
      exact Nat.le_refl _
    by_cases hk : k=g
    · subst hk
      rw [setSession_control,hself]
      exact hqueue.setGroup (fun hlock => by cases hloc.symm.trans hlock)
        (fun hdrop => by cases hdrp.symm.trans hdrop) rfl rfl
    · rw [setSession_control,hoth k hk]
      exact hqueue
  case grants =>
    rw [setSession_ledger,hget.ledger] at he
    rcases mem_cons.mp he with rfl | he
    · exact ⟨Int.not_le.mp hfull,hdrp,hloc⟩
    · exact h.queues.grants e he
  case moves =>
    change Moves (update t.sessions i _)
    rw [hget.sessions]
    exact h.moves.update ⟨by rw [hph]; rfl,rfl,rfl,rfl,rfl,rfl⟩
  case awake =>
    refine h.awake_of_others hoth fun _ hne => ?_
    -- nobody waits in a group that is below its limit
    rw [setSession_control,hself] at hne
    exact absurd (h.awake g hloc hne) hfull

/-- A session that finds none goes to the end of the queue. -/
theorem enqueue (hdrp : (s.control.groups g).dropped=false)
    (hfull : ¬((s.control.groups g).lockedForDrop=false ∧ ¬s.Full g)) : CoordinatorInv ({ s with
        control := s.control.setQueue g ((s.control.groups g).waitProcs ++ [i])
        ledger := { s.ledger with tickets := s.ledger.tickets+1 } }.setSession i
      { s.sessions i with phase := .waiting g target, ticket := s.ledger.tickets }) := by
  have hwait : ∀ k m, (s.sessions i).phase≠.waiting k m := by simp [hph]
  have hok := h.core.sessions i
  have hrs := hok.resSlot_none hwait
  have hout := h.queues.not_queued hwait
  generalize hses : ({ s.sessions i with phase := .waiting g target, ticket := s.ledger.tickets
    } : Session)=session
  have hcore : Core (s.setSession i session) := by
    rw [← hses]
    apply h.core.setSession
    · intro p
      cases p with
      | self | granted | handler => rfl
      | hand => simp [hph]
    · refine hok.rephase halv rfl rfl rfl rfl hrs ?_ (by simp) ?_
      · intro hasg
        exact hok.assigning (by rw [hph]; exact hasg)
      · have := hok.apart
        rw [hph] at this
        exact this
  have hqs : Queues (s.setSession i session) := h.queues.setSession hout (by rw [← hses])
  refine ⟨?core,⟨fun k => ?groups,h.queues.grants⟩,?moves,?awake⟩
  case core =>
    refine hcore.same ?_ rfl rfl rfl rfl (fun _ => rfl) hcore.sessions
    exact h.core.pool.setGroup rfl
  case groups =>
    change QueueOk (s.setSession i session).sessions _ s.nSessions k
      ((s.control.setQueue g ((s.control.groups g).waitProcs ++ [i])).groups k)
    have hqueue : QueueOk (s.setSession i session).sessions
        { s.ledger with tickets := s.ledger.tickets+1 } s.nSessions k (s.control.groups k) :=
      (hqs.groups k).congr (fun _ _ => ⟨rfl,rfl,rfl⟩) (fun _ => rfl) rfl (Nat.le_succ _)
    by_cases hk : k=g
    · subst hk
      have htic : ((s.setSession i session).sessions i).ticket=s.ledger.tickets := by
        rw [setSession_self,← hses]
      have hold : ∀ j∈(s.control.groups k).waitProcs,
          ((s.setSession i session).sessions j).ticket<s.ledger.tickets :=
        (hqs.groups k).numbered
      rw [setQueue,setGroup_self]
      refine ⟨hqueue.locked,fun hdrop => absurd (hdrp.symm.trans hdrop) (by simp),
        fun j hj => ?_,?_,fun j hj => ?_,hqueue.served,
        fun m hm => ⟨(hqueue.ahead m hm).1,fun j hj => ?_⟩,hqueue.bypassed⟩
      · rcases mem_append.mp hj with hj | hj
        · exact hqueue.members j hj
        · obtain rfl := mem_singleton.mp hj
          rw [setSession_self,← hses]
          exact ⟨target,rfl,hrs⟩
      · refine pairwise_append.mpr ⟨hqueue.order,pairwise_singleton _ _,?_⟩
        intro j hj m hm
        obtain rfl := mem_singleton.mp hm
        rw [htic]
        exact hold j hj
      · rcases mem_append.mp hj with hj | hj
        · exact hqueue.numbered j hj
        · obtain rfl := mem_singleton.mp hj
          rw [htic]
          exact Nat.lt_succ_self _
      · rcases mem_append.mp hj with hj | hj
        · exact (hqueue.ahead m hm).2 j hj
        · obtain rfl := mem_singleton.mp hj
          rw [htic]
          exact ((hqs.groups k).ahead m hm).1
    · rw [setQueue,setGroup_ne _ hk]
      exact hqueue
  case moves =>
    apply h.moves.update
    rw [← hses]
    exact ⟨by rw [hph]; rfl,rfl,rfl,rfl,rfl,rfl⟩
  case awake =>
    refine h.awake_of_others (fun k hk => setGroup_ne _ hk _) fun hlock _ => ?_
    rw [Coordinator.Full]
    simp only [setSession_control,setQueue,setGroup_self] at hlock ⊢
    by_contra hbel
    exact hfull ⟨hlock,hbel⟩

theorem acquire (hstep : s.groupAcquireSlot i g target=some t) : CoordinatorInv t := by
  rw [groupAcquireSlot] at hstep
  split at hstep
  · cases hstep
    exact h.setPhase_empty halv (by simp [hph]) (by rw [hph]; rfl) rfl
      (by simp) (by simp)
  next hdrp =>
    rw [Bool.not_eq_true] at hdrp
    split at hstep
    next hbel =>
      obtain ⟨⟨x,u⟩,hget,rfl⟩ := Option.map_eq_some_iff.mp hstep
      exact h.acquireDirect halv hph hbel.1 hdrp hbel.2 (groupGetSlot_gets hget)
    next hfull =>
      cases hstep
      exact h.enqueue halv hph hdrp hfull

end

theorem not_queued_of_waiting
    (hph : (s.sessions i).phase=.waiting g target) (hout : i∉(s.control.groups g).waitProcs)
    (k : Nat) : i∉(s.control.groups k).waitProcs := by
  intro hi
  obtain ⟨m,hm,-⟩ := (h.queues.groups k).members i hi
  obtain ⟨rfl,-⟩ := Phase.waiting.inj (hph.symm.trans hm)
  exact hout hi

section

variable (halv : (s.sessions i).alive=true) (hph : (s.sessions i).phase=.waiting g target)
include halv hph

theorem stopWaiting (hrs : (s.sessions i).resSlot=none)
    (hout : i∉(s.control.groups g).waitProcs)
    (hses : session={ s.sessions i with phase := .idle }) :
    CoordinatorInv (s.setSession i session) := by
  subst hses
  refine ⟨?_,h.queues.setSession (h.not_queued_of_waiting hph hout) rfl,
    h.moves.update ⟨by rw [hph]; rfl,rfl,rfl,rfl,rfl,rfl⟩,h.awake⟩
  apply h.core.setSession
  · intro p
    cases p with
    | self | granted | handler => rfl
    | hand => simp [hph]
  · exact (h.core.sessions i).rephase halv rfl rfl rfl rfl hrs (by simp)
      (by simp) (by simp)

/-- A session that was woken takes the slot it was granted. -/
theorem resume (hstep : s.resumeWait i g target=some t) : CoordinatorInv t := by
  rw [resumeWait] at hstep
  split at hstep
  · cases hstep
  next hout =>
    have hok := h.core.sessions i
    cases hrs : (s.sessions i).resSlot with
    | none =>
      rw [hrs] at hstep
      cases hstep
      exact h.stopWaiting halv hph hrs hout (by simp [hrs])
    | some x =>
      rw [hrs] at hstep
      cases hstep
      obtain ⟨k,m,hwtn,hslot,hmv⟩ := hok.granted x hrs
      obtain ⟨rfl,rfl⟩ := Phase.waiting.inj (hph.symm.trans hwtn)
      have hhan : (s.sessions i).handed=false := h.moves.not_handed (by rw [hph]; rfl)
      refine ⟨?_,h.queues.setSession (h.not_queued_of_waiting hph hout) rfl,
        h.moves.update ⟨by rw [hph]; rfl,rfl,rfl,rfl,rfl,rfl⟩,h.awake⟩
      apply h.core.pass (l := (i, .granted)) (m := (i, .hand)) (x := x)
      case hpool => exact h.core.pool
      case hled => rfl
      case hgrp => exact fun _ => rfl
      case hfree => exact fun _ _ => rfl
      case hx => exact hrs
      case hemp => simp [held,hph]
      case hl =>
        rw [held_setSession]
        rfl
      case hm =>
        rw [held_setSession]
        simp [hhan]
      case hoth =>
        intro l hgran hhand
        by_cases hl : l.1=i
        · obtain ⟨j,p⟩ := l
          obtain rfl : j=i := hl
          rw [held_setSession]
          cases p with
          | granted => exact absurd rfl hgran
          | hand => exact absurd rfl hhand
          | self | handler => rfl
        · exact s.held_setSession_ne _ hl
      case hmv =>
        intro a b hab
        rw [hmv] at hab
        obtain ⟨_,-,heq⟩ := Option.map_eq_some_iff.mp hab
        exact (Prod.mk.inj heq).1
      case hok =>
        intro j
        by_cases hj : j=i
        · rw [hj,setSession_self]
          refine hok.rephase halv rfl rfl rfl rfl rfl ?_ ?_ ?_
          · intro hasg
            exact hok.assigning (by rw [hph]; exact hasg)
          · intro _ k y hy
            obtain ⟨rfl,rfl⟩ := Prod.mk.inj (Option.some.inj hy)
            exact ⟨hslot,fun _ => hmv⟩
          · have := hok.apart
            rw [hph] at this
            exact this
        · rw [s.setSession_ne hj]
          exact h.core.sessions j

/-- A session that stops waiting leaves its place in the queue. -/
theorem leaveQueue (hin : i∈(s.control.groups g).waitProcs) : CoordinatorInv ({ s with
      control := s.control.setQueue g ((s.control.groups g).waitProcs.erase i) }.setPhase i .idle) := by
  have hrs : (s.sessions i).resSlot=none := by
    obtain ⟨_,-,hnone⟩ := (h.queues.groups g).members i hin
    exact hnone
  generalize hu : ({ s with
    control := s.control.setQueue g ((s.control.groups g).waitProcs.erase i) } : Coordinator)=u
  have hself : u.control.groups g={ s.control.groups g with
      waitProcs := (s.control.groups g).waitProcs.erase i } := by
    rw [← hu]
    exact setGroup_self _ g _
  have hoth : ∀ k, k≠g → u.control.groups k=s.control.groups k := by
    intro k hk
    rw [← hu]
    exact setGroup_ne _ hk _
  have hss : u.sessions=s.sessions := by rw [← hu]
  have hinv : CoordinatorInv u := by
    refine ⟨?core,⟨fun k => ?groups,?grants⟩,?moves,?awake⟩
    case core =>
      rw [← hu]
      refine h.core.same ?_ rfl rfl rfl rfl (fun _ => rfl) h.core.sessions
      exact h.core.pool.setGroup rfl
    case groups =>
      have hold : QueueOk u.sessions u.ledger u.nSessions k (s.control.groups k) := by
        rw [← hu]
        exact h.queues.groups k
      by_cases hk : k=g
      · subst hk
        rw [hself]
        have hsub : ((s.control.groups k).waitProcs.erase i).Sublist
            (s.control.groups k).waitProcs := erase_sublist
        refine ⟨hold.locked,fun hdrop => ?_,fun j hj => hold.members j (hsub.subset hj),
          hold.order.sublist hsub,fun j hj => hold.numbered j (hsub.subset hj),hold.served,
          fun m hm => ⟨(hold.ahead m hm).1,fun j hj => (hold.ahead m hm).2 j (hsub.subset hj)⟩,
          hold.bypassed⟩
        obtain ⟨hzero,hnil⟩ := hold.dropped hdrop
        exact ⟨hzero,by simp [hnil]⟩
      · rw [hoth k hk]
        exact hold
    case grants =>
      rw [← hu]
      exact h.queues.grants
    case moves =>
      rw [hss]
      exact h.moves
    case awake =>
      refine h.awake_of_others hoth fun hlock _ => ?_
      rw [Coordinator.Full]
      rw [hself] at hlock ⊢
      exact h.awake g hlock (ne_nil_of_mem hin)
  have hout : i∉(u.control.groups g).waitProcs := by
    rw [hself]
    exact (h.queues.groups g).nodup.not_mem_erase
  rw [← hss] at halv hph hrs
  exact hinv.stopWaiting halv hph hrs hout rfl

theorem cancel (hstep : s.groupWaitCancel i g=some t) : CoordinatorInv t := by
  rw [groupWaitCancel] at hstep
  split at hstep
  next hin =>
    cases hstep
    exact h.leaveQueue halv hph hin
  next hout =>
    have hok := h.core.sessions i
    cases hrs : (s.sessions i).resSlot with
    | none =>
      rw [hrs] at hstep
      cases hstep
      exact h.stopWaiting halv hph hrs hout rfl
    | some x =>
      rw [hrs] at hstep
      obtain ⟨k,m,hwtn,hslot,-⟩ := hok.granted x hrs
      obtain ⟨rfl,rfl⟩ := Phase.waiting.inj (hph.symm.trans hwtn)
      apply h.release (p := .granted) h.core.pool rfl hslot (fun _ _ => rfl) hrs rfl _ _ _ _
        hstep
      · intro q hq
        cases q with
        | granted => exact absurd rfl hq
        | hand => simp [hph]
        | self | handler => rfl
      · exact hok.rephase halv rfl rfl rfl rfl rfl (by simp)
          (by simp) (by simp)
      · exact h.queues.setSession (h.not_queued_of_waiting hph hout) rfl
      · exact ⟨by rw [hph]; rfl,rfl,rfl,rfl,rfl,rfl⟩

end

/-- The session attaches itself to the slot it holds. -/
theorem selfAttach (hses : session={ s.sessions i with phase, handler := .outside })
    (halv : (s.sessions i).alive=true) (hself : (s.sessions i).self=none)
    (hbyp : (s.sessions i).bypassedGroup=none) (hslot : s.control.slots x={ group := some g })
    (hx : s.held (i, p)=some x) (hp : p≠.self) (hemp : session.holds p=none)
    (hhd : ∀ q, q≠p → session.holds q=(s.sessions i).holds q)
    (hok : SessionOk s.control.slots s.ledger.mover i session) (hasg : phase.assigning=false)
    (hmv : ∀ a b, s.ledger.mover x=some (a, b) → i=b)
    (hqs : Queues (s.setSession i { session with self := some (g, x) }))
    (hgv : phase.gives=(s.sessions i).phase.gives) :
    CoordinatorInv (s.selfAttach i g x phase .outside) := by
  have heq : s.selfAttach i g x phase .outside={ s with control := s.control.addProcs x 1 }.setSession
      i { session with self := some (g, x) } := by rw [hses]; rfl
  have hsl : ∀ y, y≠x → (s.control.addProcs x 1).slots y=s.control.slots y := by
    intro y hyx
    exact update_of_ne hyx _ _
  have hslotx : (s.control.addProcs x 1).slots x={ group := some g, nProcs := 1 } := by
    refine (update_self _ _ _).trans ?_
    rw [hslot]
    rfl
  rw [heq]
  refine ⟨?core,⟨hqs.groups,hqs.grants⟩,?moves,h.awake⟩
  case moves =>
    apply h.moves.update
    rw [hses]
    exact ⟨hgv,rfl,rfl,rfl,rfl,rfl⟩
  case core =>
    have hnew : ∀ q, q≠.self →
        ({ session with self := some (g, x) } : Session).holds q=session.holds q := by
      intro q hq
      cases q with
      | self => exact absurd rfl hq
      | granted | hand | handler => rfl
    apply h.core.pass (l := (i, p)) (m := (i, .self)) (x := x)
    case hpool => exact h.core.pool.addProcs x 1
    case hled => rfl
    case hgrp => exact fun y => s.control.addProcs_group x y 1
    case hfree => exact hsl
    case hx => exact hx
    case hemp => simp [held,hself]
    case hl => rw [held_setSession,hnew p hp,hemp]
    case hm => rw [held_setSession,Session.holds]; rfl
    case hoth =>
      intro l hl hm
      by_cases hli : l.1=i
      · obtain ⟨j,q⟩ := l
        obtain rfl : j=i := hli
        have hqp : q≠p := fun hq => hl (by rw [hq])
        rw [held_setSession,hnew q (fun hq => hm (by rw [hq])),hhd q hqp]
        rfl
      · exact held_setSession_ne _ _ hli
    case hmv => exact hmv
    case hok =>
      intro j
      by_cases hj : j=i
      · rw [hj,setSession_self]
        have hcongr : SessionOk (s.control.addProcs x 1).slots s.ledger.mover i session := by
          apply hok.congr
          intro q y hy
          have hyx : y≠x := by
            rintro rfl
            have hqp : q≠p := by
              rintro rfl
              rw [hemp] at hy
              cases hy
            rw [hhd q hqp] at hy
            exact hqp (congrArg Prod.snd (h.core.custody.unique (l := (i, q)) hy hx))
          exact ⟨hsl y hyx,rfl⟩
        subst hses
        refine { hcongr with self := ?_, assigning := ?_, detached := ?_, bypassed := ?_, dead := ?_ }
        · intro k y hy
          obtain ⟨rfl,rfl⟩ := Prod.mk.inj (Option.some.inj hy)
          exact hslotx
        · intro hph
          cases hasg.symm.trans hph
        · intro y hy
          cases hy
        · exact fun _ => hbyp
        · intro hdead
          cases halv.symm.trans hdead
      · rw [setSession_ne _ hj]
        exact h.core.others hsl (fun _ _ => rfl) (h.core.not_held hx hj)

theorem attach (halv : (s.sessions i).alive=true)
    (hph : (s.sessions i).phase=.acquired g x none) :
    CoordinatorInv (s.selfAttach i g x .idle (s.sessions i).handler) := by
  have hok := h.core.sessions i
  have hwait : ∀ k m, (s.sessions i).phase≠.waiting k m := by simp [hph]
  have hhan : (s.sessions i).handed=false := h.moves.not_handed (by rw [hph]; rfl)
  obtain ⟨hself,hbyp,hhdl⟩ := hok.assigning (by rw [hph]; rfl)
  obtain ⟨hslot,hmv⟩ := hok.hand hhan g x (by rw [hph]; rfl)
  rw [hhdl]
  apply h.selfAttach (p := .hand) rfl halv hself hbyp hslot
  case hx => simp [held,hhan,hph]
  case hp => simp
  case hemp => simp
  case hhd =>
    intro q hq
    cases q with
    | hand => exact absurd rfl hq
    | self | granted => rfl
    | handler => simp [hhdl]
  case hok =>
    exact hok.rephase halv rfl rfl hhdl.symm rfl (hok.resSlot_none hwait)
      (by simp) (by simp) (by simp)
  case hasg => rfl
  case hmv =>
    intro a b hab
    rw [hmv (by simp [hph]),hph] at hab
    exact absurd hab (by simp)
  case hqs => exact h.queues.setSession (h.queues.not_queued hwait) rfl
  case hgv =>
    rw [hph]
    rfl

/-- The end of a transaction gives the slot back and wakes the next session. -/
theorem unassign (hi : i<s.nSessions)
    (hqd : (s.sessions i).bypassedGroup≠none → ∀ k, i∉(s.control.groups k).waitProcs)
    (hstep : s.unassignResGroup i=some t) : CoordinatorInv t := by
  have hok := h.core.sessions i
  rw [unassignResGroup] at hstep
  cases hbyp : (s.sessions i).bypassedGroup with
  | some g =>
    rw [hbyp] at hstep
    cases hstep
    apply h.setBypassed hi
    · intro p
      cases p <;> rfl
    · refine { hok with assigning := ?_, handling := ?_, bypassed := ?_ }
      · intro hasg
        obtain ⟨hself,-,hhdl⟩ := hok.assigning hasg
        exact ⟨hself,rfl,hhdl⟩
      · exact fun _ => rfl
      · exact fun _ => rfl
    · exact hqd (by simp [hbyp])
    · exact ⟨rfl,rfl,rfl,rfl,rfl,rfl⟩
    · intro k
      by_cases hk : k=g
      · simp [hbyp,hk]
      · simp [hbyp,hk,Ne.symm hk]
  | none =>
    cases hself : (s.sessions i).self with
    | none =>
      rw [hbyp,hself] at hstep
      cases hstep
      exact h
    | some a =>
      obtain ⟨g,x⟩ := a
      rw [hbyp,hself] at hstep
      have hslot := hok.self g x hself
      have hdet : (s.control.addProcs x (-1)).slots x={ group := some g } := by
        refine (update_self _ _ _).trans ?_
        rw [hslot]
        rfl
      dsimp only at hstep
      split at hstep
      next =>
        apply h.release (p := .self) (h.core.pool.addProcs x (-1)) rfl hdet
          (fun y hy => update_of_ne hy _ _) _ _ _ _ _ _ hstep
        · simp [held,hself]
        · rfl
        · intro q hq
          cases q with
          | self => exact absurd rfl hq
          | granted | hand | handler => rfl
        · refine { hok with self := ?_, assigning := ?_, detached := ?_, bypassed := ?_, dead := ?_ }
          · intro k y hy
            cases hy
          · intro hasg
            obtain ⟨-,hnone,hhdl⟩ := hok.assigning hasg
            exact ⟨rfl,hnone,hhdl⟩
          · exact fun _ _ => rfl
          · exact absurd rfl
          · intro hdead
            exact ⟨rfl,(hok.dead hdead).2⟩
        · exact h.queues.setFields rfl rfl rfl rfl
        · exact ⟨rfl,rfl,rfl,rfl,rfl,rfl⟩
      next hmany =>
        refine absurd ?_ hmany
        refine (congrArg Slot.nProcs hdet).trans ?_
        rfl

theorem setGroup (g : Nat) (group : Group) (hrun : group.nRunning=(s.control.groups g).nRunning)
    (hloc : group.lockedForDrop=true → group.nRunning=0)
    (hdrp : group.dropped=true → group.nRunning=0 ∧ group.waitProcs=[])
    (hqueue : group.waitProcs=(s.control.groups g).waitProcs)
    (hbyp : group.nRunningBypassed=(s.control.groups g).nRunningBypassed) :
    Core { s with control := s.control.setGroup g group } ∧
      Queues { s with control := s.control.setGroup g group } := by
  refine ⟨?_,fun k => ?_,h.queues.grants⟩
  · refine h.core.same ?_ rfl rfl rfl rfl (fun _ => rfl) h.core.sessions
    exact h.core.pool.setGroup hrun
  · by_cases hk : k=g
    · subst hk
      rw [setGroup_self]
      exact (h.queues.groups k).setGroup hloc hdrp hqueue hbyp
    · rw [setGroup_ne _ hk]
      exact h.queues.groups k

theorem alter (hstep : s.alterOnCommit g concurrency=some t) : CoordinatorInv t := by
  rw [alterOnCommit] at hstep
  split at hstep
  · cases hstep
  next hexis =>
    simp only [not_or,Bool.not_eq_true] at hexis
    obtain ⟨hdrp,hloc⟩ := hexis
    obtain ⟨hcore,hqs⟩ := h.setGroup g { s.control.groups g with concurrency } rfl
      (fun hlock => by cases hloc.symm.trans hlock)
      (fun hdrop => by cases hdrp.symm.trans hdrop) rfl rfl
    obtain ⟨hcore,hqs,hend,hwok⟩ := wakeup_inv hcore hqs rfl
      (by rw [setGroup_self]; exact hloc) (by rw [setGroup_self]; exact hdrp)
      hstep
    refine ⟨hcore,hqs,h.moves.congr fun j => ?_,h.awake_of_others
      (fun k hk => (hwok.groups k hk).trans (setGroup_ne _ hk _)) fun _ => hend.resolve_left⟩
    rw [hwok.sessions j]
    exact ⟨rfl,rfl,rfl,rfl,rfl,rfl⟩

theorem checkForDrop (hstep : s.checkForDrop g=some t) : CoordinatorInv t := by
  rw [Coordinator.checkForDrop] at hstep
  split at hstep
  · cases hstep
  next hexis =>
    simp only [not_or,Bool.not_eq_true] at hexis
    split at hstep
    · cases hstep
      exact h
    next hnone =>
      cases hstep
      have hzero : (s.control.groups g).nRunning=0 := by
        have hrun := h.core.pool.running g
        have hbyp := (h.queues.groups g).bypassed
        omega
      obtain ⟨hcore,hqs⟩ := h.setGroup g
        { s.control.groups g with lockedForDrop := true } rfl (fun _ => hzero)
        (fun hdrop => by cases hexis.1.symm.trans hdrop) rfl rfl
      refine ⟨hcore,hqs,h.moves,h.awake_of_others (fun k hk => setGroup_ne _ hk _) ?_⟩
      intro hlock _
      rw [setGroup_self] at hlock
      cases hlock

theorem wakeupAll_sessions (g : Nat) : (s.wakeupAll g).sessions=s.sessions := by
  funext i
  simp only [wakeupAll]
  split
  next hin =>
    obtain ⟨_,-,hnone⟩ := (h.queues.groups g).members i hin
    rw [← hnone]
  · rfl

/-- A dropped group has no slot and no waiting session. -/
theorem dropFinish (hstep : s.dropFinish g isCommit=some t) : CoordinatorInv t := by
  rw [Coordinator.dropFinish] at hstep
  split at hstep
  · cases hstep
  next hloc =>
    simp only [not_or,Bool.not_eq_true,Bool.not_eq_false] at hloc
    cases hstep
    have hold := h.queues.groups g
    have hzero := hold.locked hloc.2
    generalize hu : ({ s.wakeupAll g with control := _ } : Coordinator)=u
    have hself : u.control.groups g={ s.control.groups g with
        waitProcs := [], lockedForDrop := false, dropped := isCommit } := by
      rw [← hu]
      refine (setGroup_self _ g _).trans ?_
      simp only [wakeupAll,setQueue,setGroup_self]
    have hoth : ∀ k, k≠g → u.control.groups k=s.control.groups k := by
      intro k hk
      rw [← hu]
      refine (setGroup_ne _ hk _).trans ?_
      exact setGroup_ne _ hk _
    have hss : u.sessions=s.sessions := by
      rw [← hu]
      exact h.wakeupAll_sessions g
    have hpool : PoolInv u.control := by
      have hawake : PoolInv (s.wakeupAll g).control := h.core.pool.setGroup rfl
      rw [← hu]
      apply hawake.setGroup
      rfl
    have hsl : u.control.slots=s.control.slots := by rw [← hu]; rfl
    have hled : u.ledger=s.ledger := by rw [← hu]; rfl
    have hn : u.nSessions=s.nSessions := by rw [← hu]; rfl
    refine ⟨?core,⟨fun k => ?groups,?grants⟩,?moves,?awake⟩
    case core =>
      refine h.core.same hpool hsl (by rw [hled]) (by rw [hled]) (by rw [hled]) ?_ ?_
      · intro l
        rw [held,hss,held]
      · rw [hss]
        exact h.core.sessions
    case groups =>
      rw [hss,hled,hn]
      by_cases hk : k=g
      · subst hk
        rw [hself]
        exact ⟨fun hlock => absurd hlock (by simp),fun _ => ⟨hzero,rfl⟩,by simp,by simp,
          by simp,hold.served,fun m hm => ⟨(hold.ahead m hm).1,by simp⟩,hold.bypassed⟩
      · rw [hoth k hk]
        exact h.queues.groups k
    case grants =>
      rw [hled]
      exact h.queues.grants
    case moves =>
      rw [hss]
      exact h.moves
    case awake =>
      refine h.awake_of_others hoth fun _ hne => ?_
      rw [hself] at hne
      exact absurd rfl hne

end

end CoordinatorInv

end WarehousePG.ResGroup
