import WarehousePG.ResGroup.Coordinator

namespace WarehousePG.ResGroup

open Framework

section

open Coordinator Control

structure QueueOk (sessions : Nat → Session) (l : Ledger) (n g : Nat) (group : Group) : Prop where
  locked : group.lockedForDrop=true → group.nRunning=0
  dropped : group.dropped=true → group.nRunning=0 ∧ group.waitProcs=[]
  members : ∀ i∈group.waitProcs, ∃ target, (sessions i).phase=.waiting g target ∧
    (sessions i).resSlot=none
  order : group.waitProcs.Pairwise fun i j => (sessions i).ticket<(sessions j).ticket
  numbered : ∀ i∈group.waitProcs, (sessions i).ticket<l.tickets
  served : (l.served g).Pairwise fun k m => m<k
  ahead : ∀ k∈l.served g, k<l.tickets ∧ ∀ i∈group.waitProcs, k<(sessions i).ticket
  bypassed : group.nRunningBypassed=tally n sessions fun s => s.bypassedGroup=some g

namespace QueueOk

variable {sessions : Nat → Session} {l : Ledger} {g : Nat} {group : Group}
  (h : QueueOk sessions l n g group)
include h

theorem congr (hqd : ∀ i∈group.waitProcs, (sessions' i).phase=(sessions i).phase ∧
      (sessions' i).resSlot=(sessions i).resSlot ∧ (sessions' i).ticket=(sessions i).ticket)
    (hbyp : ∀ i, (sessions' i).bypassedGroup=(sessions i).bypassedGroup)
    (hser : l'.served g=l.served g) (htic : l.tickets≤l'.tickets) :
    QueueOk sessions' l' n g group := by
  refine { h with members := ?members, order := ?order, numbered := ?numbered, served := ?served
                  ahead := ?ahead, bypassed := ?bypassed }
  case members =>
    intro i hi
    rw [(hqd i hi).1,(hqd i hi).2.1]
    exact h.members i hi
  case order =>
    apply h.order.imp_of_mem
    intro i j hi hj hlt
    rw [(hqd i hi).2.2,(hqd j hj).2.2]
    exact hlt
  case numbered =>
    intro i hi
    rw [(hqd i hi).2.2]
    exact Nat.lt_of_lt_of_le (h.numbered i hi) htic
  case served =>
    rw [hser]
    exact h.served
  case ahead =>
    rw [hser]
    intro k hk
    refine ⟨Nat.lt_of_lt_of_le (h.ahead k hk).1 htic,fun i hi => ?_⟩
    rw [(hqd i hi).2.2]
    exact (h.ahead k hk).2 i hi
  case bypassed =>
    rw [h.bypassed]
    congr 1
    apply tally_congr
    intro i _
    rw [hbyp]

theorem setGroup (hloc : group'.lockedForDrop=true → group'.nRunning=0)
    (hdrp : group'.dropped=true → group'.nRunning=0 ∧ group'.waitProcs=[])
    (hqueue : group'.waitProcs=group.waitProcs)
    (hbyp : group'.nRunningBypassed=group.nRunningBypassed) :
    QueueOk sessions l n g group' := by
  refine ⟨hloc,hdrp,?_,?_,?_,h.served,?_,hbyp.trans h.bypassed⟩
  · rw [hqueue]
    exact h.members
  · rw [hqueue]
    exact h.order
  · rw [hqueue]
    exact h.numbered
  · rw [hqueue]
    exact h.ahead

theorem nodup : group.waitProcs.Nodup :=
  h.order.imp fun hlt heq => absurd (heq ▸ hlt) (Nat.lt_irrefl _)

end QueueOk

structure Queues (s : Coordinator) : Prop where
  groups : ∀ g, QueueOk s.sessions s.ledger s.nSessions g (s.control.groups g)
  grants : ∀ e∈s.ledger.grants,
    e.nRunning<e.concurrency ∧ e.dropped=false ∧ e.lockedForDrop=false

namespace Queues

variable {s t : Coordinator}

theorem not_queued (h : Queues s) (hph : ∀ g k, (s.sessions i).phase≠.waiting g k)
    (g : Nat) : i∉(s.control.groups g).waitProcs := by
  intro hi
  obtain ⟨k,hk,-⟩ := (h.groups g).members i hi
  exact hph g k hk

theorem setSession (h : Queues s) (hi : ∀ g, i∉(s.control.groups g).waitProcs)
    (hbyp : session.bypassedGroup=(s.sessions i).bypassedGroup) :
    Queues (s.setSession i session) := by
  refine ⟨fun g => (h.groups g).congr (fun j hj => ?_) (fun j => ?_) rfl (Nat.le_refl _),h.grants⟩
  · have hji : j≠i := by
      rintro rfl
      exact hi g hj
    rw [s.setSession_ne hji]
    exact ⟨rfl,rfl,rfl⟩
  · by_cases hji : j=i
    · rw [hji,setSession_self,hbyp]
    · rw [s.setSession_ne hji]

theorem setFields (h : Queues s)
    (hph : session.phase=(s.sessions i).phase) (hrs : session.resSlot=(s.sessions i).resSlot)
    (hticket : session.ticket=(s.sessions i).ticket)
    (hbyp : session.bypassedGroup=(s.sessions i).bypassedGroup) :
    Queues (s.setSession i session) := by
  refine ⟨fun g => (h.groups g).congr (fun j _ => ?_) (fun j => ?_) rfl (Nat.le_refl _),h.grants⟩
  · by_cases hji : j=i
    · rw [hji,setSession_self]
      exact ⟨hph,hrs,hticket⟩
    · rw [s.setSession_ne hji]
      exact ⟨rfl,rfl,rfl⟩
  · by_cases hji : j=i
    · rw [hji,setSession_self,hbyp]
    · rw [s.setSession_ne hji]

end Queues

structure Woken (g : Nat) (s t : Coordinator) : Prop where
  groups : ∀ k, k≠g → t.control.groups k=s.control.groups k
  lockedForDrop : (t.control.groups g).lockedForDrop=(s.control.groups g).lockedForDrop
  sessions : ∀ i, t.sessions i={ s.sessions i with resSlot := (t.sessions i).resSlot }
  nSessions : t.nSessions=s.nSessions

namespace Woken

variable {g : Nat} {s t : Coordinator}

theorem refl (g : Nat) (s : Coordinator) : Woken g s s := ⟨fun _ _ => rfl,rfl,fun _ => rfl,rfl⟩

theorem trans (h : Woken g s t) (h' : Woken g t u) : Woken g s u := by
  refine ⟨fun k hk => (h'.groups k hk).trans (h.groups k hk),
    h'.lockedForDrop.trans h.lockedForDrop,fun i => ?_,h'.nSessions.trans h.nSessions⟩
  rw [h'.sessions i,h.sessions i]

end Woken

def grantNext (t : Coordinator) (g x w : Nat) (queue : List Nat) : Coordinator :=
  { t with control := t.control.setQueue g queue }.setSession w
    { t.sessions w with resSlot := some x }

section

variable {s t : Coordinator} {g : Nat} {queue : List Nat}

section

variable (hget : s.Gets w g (some (s.sessions w).ticket) (s.sessions w).phase.target x t)
include hget

theorem grantNext_group : (grantNext t g x w queue).control.groups g={ s.control.groups g with
      nRunning := (s.control.groups g).nRunning+1, waitProcs := queue } := by
  refine (setGroup_self _ g _).trans ?_
  rw [hget.groups,addRunning,setGroup_self]

theorem grantNext_woken : Woken g s (grantNext t g x w queue) := by
  refine ⟨fun k hk => ?_,?_,fun i => ?_,hget.nSessions⟩
  · refine (setGroup_ne _ hk _).trans ?_
    rw [hget.groups]
    exact setGroup_ne _ hk _
  · rw [grantNext_group hget]
  · by_cases hi : i=w
    · rw [hi,grantNext,setSession_self,hget.sessions]
    · rw [grantNext,setSession_ne _ hi]
      rw [hget.sessions]

end

theorem grantNext_core (h : Core s) (hq : Queues s)
    (hqueue : (s.control.groups g).waitProcs=w::queue)
    (hget : s.Gets w g (some (s.sessions w).ticket) (s.sessions w).phase.target x t) :
    Core (grantNext t g x w queue) := by
  obtain ⟨target,hph,hrs⟩ := (hq.groups g).members w (by simp [hqueue])
  obtain ⟨hpool,hfree,hslot,hsl,hmov,hmv⟩ := h.gets_facts hget
  have hw : SessionOk t.control.slots t.ledger.mover w (s.sessions w) :=
    h.others hsl hmv fun p hp => h.group_ne_none hp hfree
  have hcore : Core (t.setSession w { t.sessions w with resSlot := some x }) := by
    apply h.get (p := .granted) hget hrs rfl rfl
    · intro q hp
      rw [hget.sessions]
      cases q with
      | granted => exact absurd rfl hp
      | self | hand | handler => rfl
    · rw [hget.sessions]
      refine { hw with granted := ?_ }
      intro y hy
      cases hy
      refine ⟨g,target,hph,hslot,?_⟩
      rw [hmov,hph]
      rfl
  refine hcore.same ?_ rfl rfl rfl rfl (fun _ => rfl) hcore.sessions
  exact hpool.setGroup rfl

/-- The first in the queue is served, and the tickets stay in order. -/
theorem grantNext_queues (h : Queues s) (hqueue : (s.control.groups g).waitProcs=w::queue)
    (hloc : (s.control.groups g).lockedForDrop=false)
    (hdrp : (s.control.groups g).dropped=false) (hfull : ¬s.Full g)
    (hget : s.Gets w g (some (s.sessions w).ticket) (s.sessions w).phase.target x t) :
    Queues (grantNext t g x w queue) := by
  have hwok : Woken g s (grantNext t g x w queue) := grantNext_woken hget
  have hsame : ∀ i, i≠w → (grantNext t g x w queue).sessions i=s.sessions i := by
    intro i hi
    rw [grantNext,setSession_ne _ hi]
    exact congrFun hget.sessions i
  have hser : ∀ k, (grantNext t g x w queue).ledger.served k
      =if k=g then (s.sessions w).ticket::s.ledger.served k else s.ledger.served k := by
    intro k
    change t.ledger.served k=_
    rw [hget.ledger,Ledger.served,Ledger.get]
    by_cases hk : k=g
    · simp [hk,Ledger.served]
    · simp [hk,Ne.symm hk,Ledger.served]
  have htic : (grantNext t g x w queue).ledger.tickets=s.ledger.tickets := by
    change t.ledger.tickets=_
    rw [hget.ledger]
    rfl
  have hok := h.groups g
  have hord := hok.order
  have hahd := hok.ahead
  rw [hqueue] at hord hahd
  rw [List.pairwise_cons] at hord
  -- the session at the head is not in the rest of the queue
  have hrest : ∀ i∈queue, i≠w := by
    rintro i hi rfl
    exact absurd (hord.1 i hi) (Nat.lt_irrefl _)
  refine ⟨fun k => ?_,fun e he => ?_⟩
  · rw [hwok.nSessions]
    by_cases hk : k=g
    · subst hk
      rw [grantNext_group hget]
      have hmem : ∀ i∈queue, i∈(s.control.groups k).waitProcs := by
        intro i hi
        simp [hqueue,hi]
      refine ⟨fun hlock => ?_,fun hdrop => ?_,fun i hi => ?_,?_,fun i hi => ?_,?_,
        fun m hm => ?_,?_⟩
      · cases hloc.symm.trans hlock
      · cases hdrp.symm.trans hdrop
      · rw [hsame i (hrest i hi)]
        exact hok.members i (hmem i hi)
      · apply hord.2.imp_of_mem
        intro i j hi hj hlt
        rw [hsame i (hrest i hi),hsame j (hrest j hj)]
        exact hlt
      · rw [hsame i (hrest i hi),htic]
        exact hok.numbered i (hmem i hi)
      · rw [hser,if_pos rfl,List.pairwise_cons]
        exact ⟨fun m hm => (hahd m hm).2 w (by simp),hok.served⟩
      · rw [hser,if_pos rfl,List.mem_cons] at hm
        rw [htic]
        rcases hm with rfl | hm
        · refine ⟨hok.numbered w (by simp [hqueue]),fun i hi => ?_⟩
          rw [hsame i (hrest i hi)]
          exact hord.1 i hi
        · refine ⟨(hahd m hm).1,fun i hi => ?_⟩
          rw [hsame i (hrest i hi)]
          exact (hahd m hm).2 i (by simp [show i∈queue from hi])
      · refine hok.bypassed.trans (congrArg _ (tally_congr fun i _ => ?_))
        rw [hwok.sessions i]
    · rw [hwok.groups k hk]
      refine (h.groups k).congr (fun i hi => ?_) (fun i => ?_) ?_ (Nat.le_of_eq htic.symm)
      · have hiw : i≠w := by
          rintro rfl
          obtain ⟨_,hph,-⟩ := (h.groups k).members i hi
          obtain ⟨_,hph',-⟩ := hok.members i (by simp [hqueue])
          exact hk (Phase.waiting.inj (hph.symm.trans hph')).1
        rw [hsame i hiw]
        exact ⟨rfl,rfl,rfl⟩
      · rw [hwok.sessions i]
      · rw [hser,if_neg hk]
  · change e∈t.ledger.grants at he
    rw [hget.ledger] at he
    rcases List.mem_cons.mp he with rfl | he
    · exact ⟨Int.not_le.mp hfull,hdrp,hloc⟩
    · exact h.grants e he

/-- Waking goes on until the queue is empty or the group is full. -/
theorem wakeup_inv (hcore : Core s) (hqs : Queues s)
    (hqueue : (s.control.groups g).waitProcs=queue)
    (hloc : (s.control.groups g).lockedForDrop=false)
    (hdrp : (s.control.groups g).dropped=false) (hwk : s.wakeup g queue=some t) :
    Core t ∧ Queues t ∧ ((t.control.groups g).waitProcs=[] ∨ t.Full g) ∧ Woken g s t := by
  induction queue generalizing s with
  | nil =>
    obtain rfl := Option.some.inj hwk
    exact ⟨hcore,hqs,.inl hqueue,Woken.refl g s⟩
  | cons w queue ih =>
    rw [wakeup] at hwk
    split at hwk
    next hfull =>
      obtain rfl := Option.some.inj hwk
      exact ⟨hcore,hqs,.inr hfull,Woken.refl g s⟩
    next hfull =>
      obtain ⟨⟨x,u⟩,hget,hrest⟩ := Option.bind_eq_some_iff.mp hwk
      have hgets := groupGetSlot_gets hget
      obtain ⟨hcore,hqs,hend,hwok⟩ := ih (grantNext_core hcore hqs hqueue hgets)
        (grantNext_queues hqs hqueue hloc hdrp hfull hgets)
        (by rw [grantNext_group hgets]) (by rw [grantNext_group hgets]; exact hloc)
        (by rw [grantNext_group hgets]; exact hdrp) hrest
      exact ⟨hcore,hqs,hend,(grantNext_woken hgets).trans hwok⟩

theorem wakeup_sessions (hwk : s.wakeup g queue=some t) (i : Nat) :
    t.sessions i={ s.sessions i with resSlot := (t.sessions i).resSlot } := by
  induction queue generalizing s with
  | nil =>
    cases hwk
    rfl
  | cons w queue ih =>
    rw [wakeup] at hwk
    split at hwk
    · cases hwk
      rfl
    · obtain ⟨⟨x,u⟩,hget,hrest⟩ := Option.bind_eq_some_iff.mp hwk
      have hwok : Woken g s (grantNext u g x w queue) := grantNext_woken (groupGetSlot_gets hget)
      have hnext : t.sessions i={ (grantNext u g x w queue).sessions i with
          resSlot := (t.sessions i).resSlot } := ih hrest
      rw [hwok.sessions i] at hnext
      exact hnext

end

end

structure Moves (sessions : Nat → Session) : Prop where
  caller : ∀ k i, (sessions k).movetoCallerPid=some i →
    ∃ x, (sessions i).phase.gives=some (x, k) ∧
      ((sessions k).movetoResSlot=some x ∧ (sessions i).handed=false ∨
        (sessions k).movetoResSlot=none ∧ (sessions k).movetoGroupId=none ∧
          (sessions i).handed=true)
  empty : ∀ k, (sessions k).movetoCallerPid=none → (sessions k).movetoResSlot=none
  given : ∀ i x k, (sessions i).phase.gives=some (x, k) → (sessions k).alive=true →
    (sessions k).movetoCallerPid=some i
  handed : ∀ i, (sessions i).handed=true →
    ∃ x k, (sessions i).phase.gives=some (x, k) ∧ (sessions k).alive=true

structure SameMove (s s' : Session) : Prop where
  gives : s'.phase.gives=s.phase.gives
  handed : s'.handed=s.handed
  alive : s'.alive=s.alive
  movetoResSlot : s'.movetoResSlot=s.movetoResSlot
  movetoGroupId : s'.movetoGroupId=s.movetoGroupId
  movetoCallerPid : s'.movetoCallerPid=s.movetoCallerPid

theorem SameMove.refl (s : Session) : SameMove s s := ⟨rfl,rfl,rfl,rfl,rfl,rfl⟩

namespace Moves

section

variable (h : Moves sessions)
include h

theorem congr (hsame : ∀ j, SameMove (sessions j) (sessions' j)) : Moves sessions' := by
  refine ⟨fun k i hcal => ?_,fun k hcal => ?_,fun i x k hgv halv => ?_,
    fun i hhan => ?_⟩
  · rw [(hsame k).movetoCallerPid] at hcal
    rw [(hsame i).gives,(hsame i).handed,(hsame k).movetoResSlot,(hsame k).movetoGroupId]
    exact h.caller k i hcal
  · rw [(hsame k).movetoCallerPid] at hcal
    rw [(hsame k).movetoResSlot]
    exact h.empty k hcal
  · rw [(hsame i).gives] at hgv
    rw [(hsame k).alive] at halv
    rw [(hsame k).movetoCallerPid]
    exact h.given i x k hgv halv
  · rw [(hsame i).handed] at hhan
    obtain ⟨x,k,hgv,halv⟩ := h.handed i hhan
    exact ⟨x,k,(hsame i).gives.trans hgv,(hsame k).alive.trans halv⟩

theorem update
    (hsame : SameMove (sessions i) session) : Moves (Function.update sessions i session) := by
  apply h.congr
  intro j
  by_cases hj : j=i
  · rw [hj,Function.update_self]
    exact hsame
  · rw [Function.update_of_ne hj]
    exact SameMove.refl _

theorem not_handed (hgv : (sessions i).phase.gives=none) : (sessions i).handed=false := by
  by_contra hhan
  obtain ⟨x,k,hx,-⟩ := h.handed i (by simpa using hhan)
  rw [hgv] at hx
  cases hx

theorem pair (hki : k≠i) {target : Session}
    (htgt : target.alive=(sessions k).alive ∧ target.phase=(sessions k).phase ∧
      target.handed=(sessions k).handed)
    (hinit : initiator={ sessions i with phase := initiator.phase, handed := initiator.handed })
    (hold : ∀ x m, (sessions i).phase.gives=some (x, m) → m=k)
    (hnew : ∀ x m, initiator.phase.gives=some (x, m) → m=k)
    (hcal : ∀ j, (sessions k).movetoCallerPid=some j → j=i)
    (hcal' : ∀ j, target.movetoCallerPid=some j → j=i ∧ ∃ x, initiator.phase.gives=some (x, k) ∧
        (target.movetoResSlot=some x ∧ initiator.handed=false ∨
          target.movetoResSlot=none ∧ target.movetoGroupId=none ∧ initiator.handed=true))
    (hemp' : target.movetoCallerPid=none → target.movetoResSlot=none)
    (hgiven' : ∀ x, initiator.phase.gives=some (x, k) → (sessions k).alive=true →
      target.movetoCallerPid=some i) (hhan' : initiator.handed=true →
      ∃ x, initiator.phase.gives=some (x, k) ∧ (sessions k).alive=true) :
    Moves (Function.update (Function.update sessions k target) i initiator) := by
  generalize hss : Function.update (Function.update sessions k target) i initiator=sessions'
  have hi : sessions' i=initiator := by rw [← hss,Function.update_self]
  have hk : sessions' k=target := by rw [← hss,Function.update_of_ne hki,Function.update_self]
  have hoth : ∀ j, j≠i → j≠k → sessions' j=sessions j := by
    intro j hji hjk
    rw [← hss,Function.update_of_ne hji,Function.update_of_ne hjk]
  have halv : ∀ j, (sessions' j).alive=(sessions j).alive := by
    intro j
    by_cases hji : j=i
    · rw [hji,hi,hinit]
    · by_cases hjk : j=k
      · rw [hjk,hk,htgt.1]
      · rw [hoth j hji hjk]
  have hph : ∀ j, j≠i → (sessions' j).phase=(sessions j).phase ∧
      (sessions' j).handed=(sessions j).handed := by
    intro j hji
    by_cases hjk : j=k
    · rw [hjk,hk]
      exact htgt.2
    · rw [hoth j hji hjk]
      exact ⟨rfl,rfl⟩
  have hfiel : ∀ j, j≠k → (sessions' j).movetoResSlot=(sessions j).movetoResSlot ∧
      (sessions' j).movetoGroupId=(sessions j).movetoGroupId ∧
      (sessions' j).movetoCallerPid=(sessions j).movetoCallerPid := by
    intro j hjk
    by_cases hji : j=i
    · rw [hji,hi,hinit]
      exact ⟨rfl,rfl,rfl⟩
    · rw [hoth j hji hjk]
      exact ⟨rfl,rfl,rfl⟩
  rw [← hi] at hnew hcal' hgiven' hhan'
  rw [← hk] at hcal' hemp' hgiven'
  refine ⟨fun m j hj => ?caller,fun m hm => ?empty,fun j x m hgv hm => ?given,
    fun j hj => ?handed⟩
  case caller =>
    by_cases hmk : m=k
    · subst hmk
      obtain ⟨rfl,hgv⟩ := hcal' j hj
      exact hgv
    · obtain ⟨hslot,hgrp,hpid⟩ := hfiel m hmk
      rw [hpid] at hj
      obtain ⟨x,hgv,hst⟩ := h.caller m j hj
      have hji : j≠i := by
        rintro rfl
        exact hmk (hold x m hgv)
      rw [(hph j hji).1,(hph j hji).2,hslot,hgrp]
      exact ⟨x,hgv,hst⟩
  case empty =>
    by_cases hmk : m=k
    · subst hmk
      exact hemp' hm
    · obtain ⟨hslot,-,hpid⟩ := hfiel m hmk
      rw [hpid] at hm
      rw [hslot]
      exact h.empty m hm
  case given =>
    rw [halv] at hm
    by_cases hji : j=i
    · subst hji
      obtain rfl := hnew x m hgv
      exact hgiven' x hgv hm
    · rw [(hph j hji).1] at hgv
      have hpid := h.given j x m hgv hm
      have hmk : m≠k := by
        rintro rfl
        exact hji (hcal j hpid)
      rw [(hfiel m hmk).2.2]
      exact hpid
  case handed =>
    by_cases hji : j=i
    · subst hji
      obtain ⟨x,hgv,hlives⟩ := hhan' hj
      exact ⟨x,k,hgv,(halv k).trans hlives⟩
    · rw [(hph j hji).2] at hj
      obtain ⟨x,m,hgv,hm⟩ := h.handed j hj
      refine ⟨x,m,?_,(halv m).trans hm⟩
      rw [(hph j hji).1]
      exact hgv

theorem clearGroupId (k : Nat) :
    Moves (Function.update sessions k { sessions k with movetoGroupId := none }) := by
  have hsame : ∀ j, Function.update sessions k { sessions k with movetoGroupId := none } j
      ={ sessions j with movetoGroupId :=
          (Function.update sessions k { sessions k with movetoGroupId := none } j).movetoGroupId } := by
    intro j
    by_cases hj : j=k
    · rw [hj,Function.update_self]
    · rw [Function.update_of_ne hj]
  have hkept : ∀ j, (sessions j).movetoGroupId=none →
      (Function.update sessions k { sessions k with movetoGroupId := none } j).movetoGroupId
        =none := by
    intro j hnone
    by_cases hj : j=k
    · rw [hj,Function.update_self]
    · rw [Function.update_of_ne hj,hnone]
  refine ⟨fun m j hj => ?_,fun m hm => ?_,fun j x m hgv hm => ?_,fun j hj => ?_⟩
  · rw [hsame m] at hj
    obtain ⟨x,hgv,hst⟩ := h.caller m j hj
    refine ⟨x,?_,?_⟩
    · rw [hsame j]
      exact hgv
    · rw [hsame m,hsame j]
      rcases hst with hset | ⟨hnone,hgrp,hhan⟩
      · exact .inl hset
      · exact .inr ⟨hnone,hkept m hgrp,hhan⟩
  · rw [hsame m] at hm ⊢
    exact h.empty m hm
  · rw [hsame j] at hgv
    rw [hsame m] at hm ⊢
    exact h.given j x m hgv hm
  · rw [hsame j] at hj
    obtain ⟨x,m,hgv,hm⟩ := h.handed j hj
    refine ⟨x,m,?_,?_⟩
    · rw [hsame j]
      exact hgv
    · rw [hsame m]
      exact hm

end

end Moves

structure CoordinatorInv (s : Coordinator) : Prop where
  core : Core s
  queues : Queues s
  moves : Moves s.sessions
  awake : ∀ g, (s.control.groups g).lockedForDrop=false → (s.control.groups g).waitProcs≠[] →
    s.Full g

namespace SessionOk

theorem resSlot_none (h : SessionOk slots mover i s) (hph : ∀ g k, s.phase≠.waiting g k) :
    s.resSlot=none := by
  cases hslot : s.resSlot with
  | none => rfl
  | some x =>
    obtain ⟨g,k,hwait,-⟩ := h.granted x hslot
    exact absurd hwait (hph g k)

theorem rephase (h : SessionOk slots mover i s) (halv : s.alive=true)
    (hself : s'.self=s.self) (hbyp : s'.bypassedGroup=s.bypassedGroup)
    (hhdl : s'.handler=s.handler) (halv' : s'.alive=s.alive) (hrs : s'.resSlot=none)
    (hasg : s'.phase.assigning=true → s.self=none ∧ s.bypassedGroup=none ∧ s.handler=.outside)
    (hhand : s'.handed=false → ∀ g x, s'.phase.slot=some (g, x) → slots x={ group := some g } ∧
      (s'.phase≠.failed g x → mover x=s'.phase.target.map fun t => (i, t)))
    (hapart : s'.phase.target≠some i) : SessionOk slots mover i s' := by
  refine ⟨?_,?_,hhand,?_,?_,?_,?_,?_,?_,hapart⟩
  · rw [hself]
    exact h.self
  · intro x hx
    rw [hrs] at hx
    cases hx
  · rw [hhdl]
    exact h.handler
  · rw [hself,hbyp,hhdl]
    exact hasg
  · rw [hhdl,hbyp]
    exact h.handling
  · rw [hhdl,hself]
    exact h.detached
  · rw [hself,hbyp]
    exact h.bypassed
  · intro hdead
    rw [halv',halv] at hdead
    cases hdead

end SessionOk

end WarehousePG.ResGroup
