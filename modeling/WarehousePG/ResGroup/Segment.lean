import WarehousePG.ResGroup.SlotPool

namespace WarehousePG.ResGroup

open Framework Function

/-- An executor process of a segment: `self` is the group and the slot of its `ResGroupProcData`. -/
structure Executor where
  session : Nat
  self : Option (Nat × Nat) := none
  bypassedGroup : Option Nat := none
  -- the group it attaches to in the second locked section of `SwitchResGroupOnSegment`
  switching : Option Nat := none
  movetoGroupId : Option Nat := none

namespace Executor

def slot (e : Executor) : Option Nat := e.self.map Prod.snd

end Executor

/-- One segment; `sessionSlot` is `resGroupSlot` of the session's state. -/
structure Segment where
  control : Control
  sessionSlot : Nat → Option Nat := fun _ => none
  nExecutors : Nat
  executors : Nat → Executor

inductive SegmentAction where
  -- a dispatched group id, `none` for InvalidOid, up to the second locked section
  | switch (p : Nat) (newGroupId : Option Nat)
  | switchBypass (p g : Nat)
  -- the second locked section of `SwitchResGroupOnSegment`
  | attach (p : Nat)
  | unassign (p : Nat)
  | signal (p g : Nat)
  | handleMove (p : Nat) (inTransaction : Bool)

namespace Segment

def init (size : Nat) (concurrency : Nat → Option Int) (nExecutors : Nat) (session : Nat → Nat) :
    Segment :=
  { control := Control.slotpoolInit size concurrency, nExecutors
    executors := fun p => { session := session p } }

def setExecutor (s : Segment) (p : Nat) (e : Executor) : Segment :=
  { s with executors := update s.executors p e }

def attachedTo (s : Segment) (x : Nat) : Nat :=
  tally s.nExecutors s.executors fun e => e.slot=some x

def selfAttach (s : Segment) (p g x : Nat) : Segment :=
  { s with control := s.control.addProcs x 1 }.setExecutor p
    { s.executors p with self := some (g, x), switching := none }

def selfDetach (s : Segment) (p x : Nat) : Segment :=
  { s with control := s.control.addProcs x (-1) }.setExecutor p
    { s.executors p with self := none }

/-- `groupReleaseSlot` on a segment, then `sessionResetSlot`. -/
def releaseSlot (s : Segment) (session g x : Nat) : Segment :=
  { s with
    control := s.control.groupPutSlot g x
    sessionSlot := if s.sessionSlot session=some x then update s.sessionSlot session none
      else s.sessionSlot }

/-- `UnassignResGroup`; the group that loses a running slot is the one the process remembers. -/
def unassignResGroup (s : Segment) (p : Nat) : Segment :=
  match (s.executors p).bypassedGroup, (s.executors p).self with
  | some _, _ => s.setExecutor p { s.executors p with bypassedGroup := none }
  | none, none => s
  | none, some (g, x) =>
    if ((s.selfDetach p x).control.slots x).nProcs=0 then
      (s.selfDetach p x).releaseSlot (s.executors p).session g x
    else s.selfDetach p x

/-- `SwitchResGroupOnSegment` up to its second locked section. -/
def switchResGroup (s : Segment) (p : Nat) : Option Nat → Segment
  | none => s.unassignResGroup p
  | some g =>
    let t := if (s.executors p).self.map Prod.fst=some g then s else s.unassignResGroup p
    if (t.executors p).self.isSome then t
    else t.setExecutor p { t.executors p with switching := some g }

def switchBypassed (s : Segment) (p g : Nat) : Segment :=
  if (s.executors p).bypassedGroup.isSome ∨ (s.control.groups g).dropped then s
  else s.setExecutor p { s.executors p with bypassedGroup := some g }

/-- The second locked section; an unknown group is an error, an empty pool is not checked for. -/
def attachResGroup (s : Segment) (p g : Nat) : Option Segment :=
  if (s.control.groups g).dropped then
    some (s.setExecutor p { s.executors p with switching := none })
  else match s.sessionSlot (s.executors p).session with
  | some x => some (s.selfAttach p g x)
  | none => (s.control.allocSlot g).map fun (x, c) =>
    { s with
      control := c.addRunning g 1
      sessionSlot := update s.sessionSlot (s.executors p).session (some x) }.selfAttach p g x

def moveSlot (c : Control) (g x : Nat) : Option Control :=
  (c.slots x).group.map fun old =>
    if old=g then c
    else ((c.addRunning old (-1)).setSlot x { c.slots x with group := some g }).addRunning g 1

/-- `HandleMoveResourceGroup` in an executor. An unknown group is an error, raised after the process
has forgotten its slot. -/
def handleMoveResourceGroup (s : Segment) (p : Nat) (inTransaction : Bool) : Option Segment :=
  if !inTransaction ∨ (s.executors p).self=none then some s
  else
    (s.sessionSlot (s.executors p).session).bind fun x =>
      let e := { s.executors p with movetoGroupId := none, self := none }
      match (s.executors p).movetoGroupId with
      | none => some (s.setExecutor p e)
      | some g =>
        if (s.control.groups g).dropped then some (s.setExecutor p e)
        else (moveSlot s.control g x).map fun c =>
          { s with control := c }.setExecutor p { e with self := some (g, x) }

def step (s : Segment) : SegmentAction → Option Segment
  | .switch p g =>
    if p<s.nExecutors ∧ (s.executors p).switching=none then some (s.switchResGroup p g) else none
  | .switchBypass p g =>
    if p<s.nExecutors ∧ (s.executors p).switching=none then some (s.switchBypassed p g) else none
  | .attach p =>
    if p<s.nExecutors then (s.executors p).switching.bind fun g => s.attachResGroup p g else none
  | .unassign p =>
    if p<s.nExecutors ∧ (s.executors p).switching=none then some (s.unassignResGroup p) else none
  | .signal p g =>
    if p<s.nExecutors then some (s.setExecutor p { s.executors p with movetoGroupId := some g })
    else none
  | .handleMove p inTransaction =>
    if p<s.nExecutors then s.handleMoveResourceGroup p inTransaction else none

end Segment

open Segment Control Executor
open Option (some map_eq_some_iff ite_none_right_eq_some)

variable {p x q : Nat}

namespace Segment

@[simp] theorem setExecutor_self (s : Segment) (p : Nat) (e : Executor) :
    (s.setExecutor p e).executors p=e := by simp [setExecutor]

theorem setExecutor_ne (s : Segment) (h : q≠p) (e : Executor) :
    (s.setExecutor p e).executors q=s.executors q := by simp [setExecutor,h]

theorem attachedTo_setExecutor (s : Segment) (hp : p<s.nExecutors) (e : Executor) (x : Nat) :
    ((s.setExecutor p e).attachedTo x : Int)
      =s.attachedTo x-(if (s.executors p).slot=some x then 1 else 0)
        +(if e.slot=some x then 1 else 0) := by
  have h := tally_update hp s.executors e fun e => decide (e.slot=some x)
  change (s.setExecutor p e).attachedTo x+_=s.attachedTo x+_ at h
  by_cases hold : (s.executors p).slot=some x <;> by_cases hnew : e.slot=some x <;>
    simp only [hold,hnew,decide_true,decide_false,Bool.toNat_true,Bool.toNat_false,if_true,
      if_false] at h ⊢ <;> omega

theorem attachedTo_pos {s : Segment} (hp : p<s.nExecutors)
    (h : (s.executors p).slot=some x) : 0<s.attachedTo x :=
  tally_pos hp (by simpa using h)

theorem unassignResGroup_nExecutors (s : Segment) (p : Nat) :
    (s.unassignResGroup p).nExecutors=s.nExecutors := by
  rw [unassignResGroup]
  split
  · rfl
  · rfl
  · split <;> rfl

/-- If the process would leave its slot empty, the group it remembers is the group of the slot. -/
def RemembersGroup (s : Segment) (p : Nat) : Prop :=
  (s.executors p).bypassedGroup=none → ∀ a∈(s.executors p).self,
    (s.control.slots a.2).nProcs=1 → (s.control.slots a.2).group=some a.1
  deriving Decidable

/-- No process leaves a slot of another group as its last one, and a move names a group. -/
def Orderly (s : Segment) : SegmentAction → Prop
  | .switch p g => g=(s.executors p).self.map Prod.fst ∨ s.RemembersGroup p
  | .unassign p => s.RemembersGroup p
  | .handleMove p inTransaction => inTransaction=true → (s.executors p).self≠none →
    ∃ g∈(s.executors p).movetoGroupId, (s.control.groups g).dropped=false
  | .switchBypass _ _ | .attach _ | .signal _ _ => True

instance (s : Segment) : (a : SegmentAction) → Decidable (s.Orderly a)
  | .switch _ _ => inferInstanceAs (Decidable (_ ∨ _))
  | .unassign p => inferInstanceAs (Decidable (s.RemembersGroup p))
  | .handleMove p _ => inferInstanceAs (Decidable (_ → _ → ∃ g∈(s.executors p).movetoGroupId, _))
  | .switchBypass _ _ | .attach _ | .signal _ _ => inferInstanceAs (Decidable True)

end Segment

structure SegmentInv (s : Segment) : Prop where
  pool : PoolInv s.control
  procs : ∀ x, (s.control.slots x).nProcs=s.attachedTo x
  home : ∀ p<s.nExecutors, ∀ x, (s.executors p).slot=some x →
    s.sessionSlot (s.executors p).session=some x
  shared : ∀ k x, s.sessionSlot k=some x → (s.control.slots x).group≠none ∧ 0<s.attachedTo x
  apart : ∀ k l x, s.sessionSlot k=some x → s.sessionSlot l=some x → k=l
  used : ∀ x, (s.control.slots x).group≠none → 0<s.attachedTo x
  switching : ∀ p<s.nExecutors, (s.executors p).switching≠none → (s.executors p).self=none

namespace SegmentInv

variable {s : Segment}

theorem init (size : Nat) (concurrency : Nat → Option Int) (nExecutors : Nat)
    (session : Nat → Nat) : SegmentInv (Segment.init size concurrency nExecutors session) := by
  refine ⟨PoolInv.init size concurrency,fun x => ?_,?_,?_,?_,?_,?_⟩
  · have hzero : (Segment.init size concurrency nExecutors session).attachedTo x=0 := by
      apply tally_eq_zero.mpr
      simp [Segment.init,slot]
    rw [hzero]
    rfl
  all_goals simp [Segment.init,slot,Control.slotpoolInit]

theorem setExecutor (h : SegmentInv s) (hp : p<s.nExecutors)
    (hses : e.session=(s.executors p).session) (hslot : e.slot=(s.executors p).slot)
    (hswit : e.switching≠none → e.self=none) : SegmentInv (s.setExecutor p e) := by
  have hcnt : ∀ x, (s.setExecutor p e).attachedTo x=s.attachedTo x := by
    intro x
    have := s.attachedTo_setExecutor hp e x
    rw [hslot] at this
    omega
  refine ⟨h.pool,fun x => ?_,fun q hq x hx => ?_,fun k x hk => ?_,h.apart,fun x hx => ?_,
    fun q hq hsw => ?_⟩
  · rw [hcnt]
    exact h.procs x
  · by_cases hqp : q=p
    · subst hqp
      rw [setExecutor_self] at hx ⊢
      rw [hses]
      exact h.home q hq x (hslot ▸ hx)
    · rw [setExecutor_ne s hqp] at hx ⊢
      exact h.home q hq x hx
  · rw [hcnt]
    exact h.shared k x hk
  · rw [hcnt]
    exact h.used x hx
  · by_cases hqp : q=p
    · subst hqp
      rw [setExecutor_self] at hsw ⊢
      exact hswit hsw
    · rw [setExecutor_ne s hqp] at hsw ⊢
      exact h.switching q hq hsw

variable {g : Nat}

/-- The executor joins the slot of its session. -/
theorem selfAttach (h : SegmentInv s) (hp : p<s.nExecutors)
    (hself : (s.executors p).self=none) (hpool : PoolInv c)
    (hps : ∀ z, (c.slots z).nProcs=(s.control.slots z).nProcs) (hin : (c.slots x).group≠none)
    (hout : ∀ z, z≠x → (c.slots z).group=(s.control.slots z).group)
    (hslot : ∀ y, s.sessionSlot (s.executors p).session=some y → y=x)
    (hapart : ∀ k, s.sessionSlot k=some x → k=(s.executors p).session) : SegmentInv ({ s with
      control := c
      sessionSlot := update s.sessionSlot (s.executors p).session (some x)
      }.selfAttach p g x) := by
  generalize ht : Segment.selfAttach _ p g x=t
  have hss : t.sessionSlot
      =update s.sessionSlot (s.executors p).session (some x) := by rw [← ht]; rfl
  have hgrp : ∀ z, (t.control.slots z).group=(c.slots z).group := by
    rw [← ht]
    exact fun z => c.addProcs_group x z 1
  have hme : t.executors p={ s.executors p with self := some (g, x), switching := none } := by
    rw [← ht]
    exact setExecutor_self _ p _
  have hoth : ∀ q, q≠p → t.executors q=s.executors q := by
    rw [← ht]
    exact fun q hq => setExecutor_ne _ hq _
  have hcnt : ∀ z, (t.attachedTo z : Int)=s.attachedTo z+(if z=x then 1 else 0) := by
    intro z
    rw [← ht]
    refine (s.attachedTo_setExecutor hp
      { s.executors p with self := some (g, x), switching := none } z).trans ?_
    simp [slot,hself,eq_comm]
  refine ⟨?pool,fun z => ?procs,fun q hq z hz => ?home,fun k z hk => ?shared,
    fun k l z hk hl => ?apart,fun z hz => ?used,fun q hq hsw => ?switching⟩
  case pool =>
    rw [← ht]
    exact hpool.addProcs x 1
  case procs =>
    rw [hcnt,← h.procs,← hps,← ht]
    exact c.addProcs_nProcs x z 1
  case home =>
    rw [hss]
    by_cases hqp : q=p
    · subst hqp
      rw [hme] at hz ⊢
      rw [update_self]
      exact hz
    · rw [hoth q hqp] at hz ⊢
      have hhome := h.home q (by rw [← ht] at hq; exact hq) z hz
      by_cases hsame : (s.executors q).session=(s.executors p).session
      · rw [hsame,update_self]
        rw [hslot z (hsame ▸ hhome)]
      · rw [update_of_ne hsame]
        exact hhome
  case shared =>
    rw [hgrp]
    have := hcnt z
    by_cases hzx : z=x
    · subst hzx
      rw [if_pos rfl] at this
      exact ⟨hin,by omega⟩
    · have hne : k≠(s.executors p).session := by
        rintro rfl
        rw [hss,update_self] at hk
        exact hzx (some.inj hk).symm
      rw [hss,update_of_ne hne] at hk
      obtain ⟨hused,hpos⟩ := h.shared k z hk
      rw [hout z hzx]
      exact ⟨hused,by omega⟩
  case apart =>
    have hof : ∀ j, t.sessionSlot j=some z → j=(s.executors p).session ∧ z=x ∨
        s.sessionSlot j=some z := by
      intro j hj
      rw [hss] at hj
      by_cases hjp : j=(s.executors p).session
      · rw [hjp,update_self] at hj
        exact .inl ⟨hjp,(some.inj hj).symm⟩
      · rw [update_of_ne hjp] at hj
        exact .inr hj
    rcases hof k hk with ⟨rfl,rfl⟩ | hk <;> rcases hof l hl with ⟨rfl,hzx⟩ | hl
    · rfl
    · exact (hapart l hl).symm
    · exact hapart k (hzx ▸ hk)
    · exact h.apart k l z hk hl
  case used =>
    rw [hgrp] at hz
    have := hcnt z
    by_cases hzx : z=x
    · rw [if_pos hzx] at this
      omega
    · have := h.used z (hout z hzx ▸ hz)
      omega
  case switching =>
    by_cases hqp : q=p
    · subst hqp
      rw [hme] at hsw
      exact absurd rfl hsw
    · rw [hoth q hqp] at hsw ⊢
      exact h.switching q (by rw [← ht] at hq; exact hq) hsw

theorem attachedTo_selfDetach (hp : p<s.nExecutors)
    (hself : (s.executors p).self=some (g, x)) (z : Nat) :
    ((s.selfDetach p x).attachedTo z : Int)=s.attachedTo z-(if z=x then 1 else 0) := by
  refine (s.attachedTo_setExecutor hp { s.executors p with self := none } z).trans ?_
  simp [slot,hself,eq_comm]

theorem selfDetach_ne (x : Nat) (h : q≠p) :
    (s.selfDetach p x).executors q=s.executors q := setExecutor_ne _ h _

section

variable (h : SegmentInv s)
include h

theorem home_selfDetach {z : Nat} (hq : q<s.nExecutors)
    (hz : ((s.selfDetach p x).executors q).slot=some z) :
    q≠p ∧ (s.selfDetach p x).executors q=s.executors q ∧
      s.sessionSlot (s.executors q).session=some z := by
  have hqp : q≠p := by
    rintro rfl
    rw [selfDetach,setExecutor_self] at hz
    exact absurd hz (by simp [slot])
  rw [selfDetach_ne x hqp] at hz
  exact ⟨hqp,selfDetach_ne x hqp,h.home q hq z hz⟩

theorem switching_selfDetach (hq : q<s.nExecutors)
    (hsw : ((s.selfDetach p x).executors q).switching≠none) :
    ((s.selfDetach p x).executors q).self=none := by
  by_cases hqp : q=p
  · rw [hqp,selfDetach,setExecutor_self]
  · rw [selfDetach_ne x hqp] at hsw ⊢
    exact h.switching q hq hsw

section

variable (hp : p<s.nExecutors)
include hp

/-- An executor leaves a slot that others still use. -/
theorem selfDetach
    (hself : (s.executors p).self=some (g, x)) (hmany : (s.control.slots x).nProcs≠1) :
    SegmentInv (s.selfDetach p x) := by
  have hcnt := attachedTo_selfDetach hp hself
  have hmine := attachedTo_pos hp (by rw [slot,hself]; rfl)
  have hpos : ∀ z, 0<s.attachedTo z → 0<(s.selfDetach p x).attachedTo z := by
    intro z hz
    have hz' := hcnt z
    by_cases hzx : z=x
    · subst hzx
      rw [h.procs] at hmany
      rw [if_pos rfl] at hz'
      omega
    · rw [if_neg hzx] at hz'
      omega
  have hgrp := fun z => s.control.addProcs_group x z (-1)
  refine ⟨h.pool.addProcs x (-1),fun z => ?_,fun q hq z hz => ?_,fun k z hk => ?_,h.apart,
    fun z hz => ?_,fun q hq => h.switching_selfDetach hq⟩
  · rw [hcnt,← h.procs]
    refine (s.control.addProcs_nProcs x z (-1)).trans ?_
    split <;> omega
  · obtain ⟨-,hsame,hhome⟩ := h.home_selfDetach hq hz
    rw [hsame]
    exact hhome
  · obtain ⟨hused,hz⟩ := h.shared k z hk
    exact ⟨(hgrp z).symm ▸ hused,hpos z hz⟩
  · exact hpos z (h.used z (hgrp z ▸ hz))

/-- The last executor gives the slot back. -/
theorem releaseSlot
    (hself : (s.executors p).self=some (g, x)) (hlast : (s.control.slots x).nProcs=1)
    (hgrp : (s.control.slots x).group=some g) :
    SegmentInv ((s.selfDetach p x).releaseSlot (s.executors p).session g x) := by
  have hcnt := attachedTo_selfDetach hp hself
  have hhome : s.sessionSlot (s.executors p).session=some x :=
    h.home p hp x (by rw [slot,hself]; rfl)
  have hone : s.attachedTo x=1 := by
    have := h.procs x
    omega
  have hnob : (s.selfDetach p x).attachedTo x=0 := by
    have := hcnt x
    rw [if_pos rfl] at this
    omega
  have hstays : ∀ z, z≠x → (s.selfDetach p x).attachedTo z=s.attachedTo z := by
    intro z hzx
    have := hcnt z
    rw [if_neg hzx] at this
    omega
  have hpool : PoolInv ((s.control.addProcs x (-1)).groupPutSlot g x) :=
    (h.pool.addProcs x (-1)).put (by rw [addProcs_group]; exact hgrp)
  generalize ht : (s.selfDetach p x).releaseSlot _ g x=t
  have hexec : t.executors=(s.selfDetach p x).executors := by rw [← ht]; rfl
  have hctl : t.control=(s.control.addProcs x (-1)).groupPutSlot g x := by rw [← ht]; rfl
  have hn : t.nExecutors=s.nExecutors := by rw [← ht]; rfl
  have hatt : ∀ z, t.attachedTo z=(s.selfDetach p x).attachedTo z := by
    rw [← ht]
    exact fun _ => rfl
  have hss : t.sessionSlot=update s.sessionSlot (s.executors p).session none := by
    rw [← ht]
    exact if_pos hhome
  have hof : ∀ k z, t.sessionSlot k=some z →
      k≠(s.executors p).session ∧ s.sessionSlot k=some z ∧ z≠x := by
    intro k z hk
    have hne : k≠(s.executors p).session := by
      rintro rfl
      rw [hss,update_self] at hk
      cases hk
    rw [hss,update_of_ne hne] at hk
    exact ⟨hne,hk,fun hzx => hne (h.apart k _ x (hzx ▸ hk) hhome)⟩
  have hsl : ∀ z, z≠x → (t.control.slots z)=(s.control.addProcs x (-1)).slots z := by
    intro z hzx
    rw [hctl,groupPutSlot_slots,update_of_ne hzx]
  refine ⟨?pool,fun z => ?procs,fun q hq z hz => ?home,fun k z hk => ?shared,
    fun k l z hk hl => h.apart k l z (hof k z hk).2.1 (hof l z hl).2.1,fun z hz => ?used,
    fun q hq => ?switching⟩
  case pool =>
    rw [hctl]
    exact hpool
  case procs =>
    rw [hatt,hcnt,← h.procs]
    have hps := s.control.addProcs_nProcs x z (-1)
    by_cases hzx : z=x
    · subst hzx
      rw [if_pos rfl] at hps ⊢
      rw [hctl,groupPutSlot_slots,update_self]
      exact hps.trans (by omega)
    · rw [hsl z hzx,hps,if_neg hzx,if_neg hzx]
      omega
  case home =>
    rw [hn] at hq
    rw [hexec] at hz ⊢
    obtain ⟨-,hsame,hq'⟩ := h.home_selfDetach hq hz
    -- an executor of the same session would be attached to the slot that is put back
    have hne : (s.executors q).session≠(s.executors p).session := by
      intro heq
      rw [heq,hhome] at hq'
      obtain rfl := some.inj hq'
      have := attachedTo_pos (s := s.selfDetach p x) hq hz
      omega
    rw [hsame,hss,update_of_ne hne]
    exact hq'
  case shared =>
    obtain ⟨-,hk',hzx⟩ := hof k z hk
    obtain ⟨hused,hpos⟩ := h.shared k z hk'
    rw [hsl z hzx,addProcs_group,hatt,hstays z hzx]
    exact ⟨hused,hpos⟩
  case used =>
    by_cases hzx : z=x
    · subst hzx
      rw [hctl,groupPutSlot_slots,update_self] at hz
      exact absurd rfl hz
    · rw [hsl z hzx,addProcs_group] at hz
      rw [hatt,hstays z hzx]
      exact h.used z hz
  case switching =>
    rw [hn] at hq
    rw [hexec]
    exact h.switching_selfDetach hq

theorem unassign (hrem : s.RemembersGroup p) : SegmentInv (s.unassignResGroup p) := by
  rw [unassignResGroup]
  cases hbyp : (s.executors p).bypassedGroup with
  | some g => exact h.setExecutor hp rfl rfl (h.switching p hp)
  | none =>
    cases hself : (s.executors p).self with
    | none => exact h
    | some a =>
      obtain ⟨g,x⟩ := a
      have hps : ((s.selfDetach p x).control.slots x).nProcs=(s.control.slots x).nProcs+-1 := by
        refine (s.control.addProcs_nProcs x x (-1)).trans ?_
        rw [if_pos rfl]
      dsimp only
      split
      next hzero =>
        have hlast : (s.control.slots x).nProcs=1 := by omega
        exact h.releaseSlot hp hself hlast (hrem hbyp (g, x) hself hlast)
      next hmany => exact h.selfDetach hp hself (by omega)

/-- A dispatched statement brings its group, which may be a new one. -/
theorem switch
    (hC : s.Orderly (.switch p newGroupId)) : SegmentInv (s.switchResGroup p newGroupId) := by
  cases newGroupId with
  | none =>
    apply h.unassign hp
    rcases hC with hself | hrem
    · intro _ a ha
      rw [Option.mem_def.mp ha] at hself
      cases hself
    · exact hrem
  | some g =>
    rw [switchResGroup]
    generalize hu : (if (s.executors p).self.map Prod.fst=some g then s
      else s.unassignResGroup p)=u
    have hfirst : SegmentInv u ∧ p<u.nExecutors := by
      rw [← hu]
      split
      · exact ⟨h,hp⟩
      next hne =>
        refine ⟨h.unassign hp (hC.resolve_left (Ne.symm hne)),?_⟩
        rw [unassignResGroup_nExecutors]
        exact hp
    split
    · exact hfirst.1
    next hself => exact hfirst.1.setExecutor hfirst.2 rfl rfl (fun _ => by simpa using hself)

end

variable {t : Segment}

theorem attach (hp : p<s.nExecutors)
    (hself : (s.executors p).self=none) (hattach : s.attachResGroup p g=some t) : SegmentInv t := by
  rw [attachResGroup] at hattach
  split at hattach
  · cases hattach
    exact h.setExecutor hp rfl rfl (absurd rfl)
  · cases hslot : s.sessionSlot (s.executors p).session with
    | some x =>
      rw [hslot] at hattach
      cases hattach
      have hsame := h.selfAttach (g := g) hp hself h.pool (fun _ => rfl) (h.shared _ x hslot).1
        (fun _ _ => rfl) (fun y hy => (some.inj (hslot.symm.trans hy)).symm)
        (fun k hk => h.apart k _ x hk hslot)
      rw [← hslot,update_eq_self] at hsame
      exact hsame
    | none =>
      rw [hslot] at hattach
      obtain ⟨⟨x,c⟩,hall,rfl⟩ := map_eq_some_iff.mp hattach
      obtain ⟨hpool,-,hfree⟩ := h.pool.alloc hall
      obtain ⟨hps,hin,hout⟩ := allocSlot_slots hall
      apply h.selfAttach hp hself hpool hps _ hout
      · intro y hy
        rw [hslot] at hy
        cases hy
      · intro k hk
        exact absurd hfree (h.shared k x hk).1
      · rw [addRunning_slots,hin]
        simp

theorem moveSlot (hmove : moveSlot s.control g x=some c) : SegmentInv { s with control := c } := by
  obtain ⟨old,hold,hc⟩ := map_eq_some_iff.mp hmove
  split at hc
  · rw [← hc]
    exact h
  · have hps : ∀ z, (c.slots z).nProcs=(s.control.slots z).nProcs ∧
        ((c.slots z).group≠none ↔ (s.control.slots z).group≠none) := by
      intro z
      rw [← hc]
      by_cases hzx : z=x
      · simp [setSlot,hzx,hold]
      · simp [setSlot,hzx]
    refine ⟨hc ▸ h.pool.regroup hold,fun z => (hps z).1.trans (h.procs z),h.home,
      fun k z hk => ?_,h.apart,fun z hz => h.used z ((hps z).2.mp hz),h.switching⟩
    obtain ⟨hused,hpos⟩ := h.shared k z hk
    exact ⟨(hps z).2.mpr hused,hpos⟩

theorem handleMove (hp : p<s.nExecutors) (hC : s.Orderly (.handleMove p inTransaction))
    (hmove : s.handleMoveResourceGroup p inTransaction=some t) : SegmentInv t := by
  rw [handleMoveResourceGroup] at hmove
  split at hmove
  · cases hmove
    exact h
  next hass =>
    simp only [Bool.not_eq_true',not_or,Bool.not_eq_false] at hass
    obtain ⟨hin,hself⟩ := hass
    obtain ⟨g,hg,hfound⟩ := hC hin hself
    obtain ⟨x,hx,hmove⟩ := Option.bind_eq_some_iff.mp hmove
    rw [Option.mem_def.mp hg] at hmove
    simp only [hfound,Bool.false_eq_true,if_false] at hmove
    obtain ⟨c,hc,rfl⟩ := map_eq_some_iff.mp hmove
    have hslot : (s.executors p).slot=some x := by
      obtain ⟨a,ha⟩ := Option.ne_none_iff_exists'.mp hself
      have hmine : (s.executors p).slot=some a.2 := by rw [slot,ha]; rfl
      rw [hmine,← h.home p hp a.2 hmine,hx]
    apply (h.moveSlot hc).setExecutor hp
    · rfl
    · rw [hslot]
      rfl
    · intro hsw
      exact absurd (h.switching p hp hsw) hself

/-- Every action keeps the segment's invariant. -/
theorem step (hC : s.Orderly a) (hstep : s.step a=some t) : SegmentInv t := by
  cases a with
  | switch p g =>
    obtain ⟨⟨hp,-⟩,rfl⟩ := of_guard hstep
    exact h.switch hp hC
  | switchBypass p g =>
    obtain ⟨⟨hp,-⟩,rfl⟩ := of_guard hstep
    rw [switchBypassed]
    split
    · exact h
    · exact h.setExecutor hp rfl rfl (h.switching p hp)
  | attach p =>
    obtain ⟨hp,hstep⟩ := ite_none_right_eq_some.mp hstep
    obtain ⟨g,hg,hstep⟩ := Option.bind_eq_some_iff.mp hstep
    exact h.attach hp (h.switching p hp (by simp [hg])) hstep
  | unassign p =>
    obtain ⟨⟨hp,-⟩,rfl⟩ := of_guard hstep
    exact h.unassign hp hC
  | signal p g =>
    obtain ⟨hp,rfl⟩ := of_guard hstep
    exact h.setExecutor hp rfl rfl (h.switching p hp)
  | handleMove p inTransaction =>
    obtain ⟨hp,hstep⟩ := ite_none_right_eq_some.mp hstep
    exact h.handleMove hp hC hstep

end

end SegmentInv

/-- In a run of orderly steps the counts of groups and slots are exact in every state. -/
theorem running_counts_exact {size nExecutors : Nat} {concurrency : Nat → Option Int}
    {session : Nat → Nat} {as : List SegmentAction} {t : Segment}
    (hC : EveryStep step Segment.Orderly (init size concurrency nExecutors session) as)
    (hrun : run step (init size concurrency nExecutors session) as=some t) :
    (∀ g, (t.control.groups g).nRunning=t.control.inUse g) ∧
    (∀ x, (t.control.slots x).nProcs=t.attachedTo x) ∧
    ((∀ p<t.nExecutors, (t.executors p).slot=none) → ∀ g, (t.control.groups g).nRunning=0) := by
  have h : SegmentInv t := run_invariant_of_everyStep (fun _ _ _ h hC hstep => h.step hC hstep)
    (SegmentInv.init size concurrency nExecutors session) hC hrun
  refine ⟨h.pool.running,h.procs,fun hnone g => ?_⟩
  have hnob : ∀ x, t.attachedTo x=0 := by
    intro x
    apply tally_eq_zero.mpr
    intro p hp
    simp [hnone p hp]
  have hfree : t.control.inUse g=0 := by
    apply tally_eq_zero.mpr
    intro x _
    by_contra hused
    have hpos := h.used x (by simp at hused; simp [hused])
    rw [hnob x] at hpos
    exact absurd hpos (Nat.lt_irrefl 0)
  rw [h.pool.running g,hfree]
  rfl

def movedExecutors : List SegmentAction :=
  [.switch 0 (some 1),.attach 0,.switch 1 (some 1),.attach 1,.signal 0 2,.signal 1 2,
    .handleMove 0 true]

theorem running_counts_exact_moved : ∃ t, run step (init 4 (fun _ => some 10) 2 fun _ => 0)
        (movedExecutors ++ [.handleMove 1 true,.unassign 0,.unassign 1])=some t ∧
      (∀ p<t.nExecutors, (t.executors p).slot=none) ∧ ∀ g, (t.control.groups g).nRunning=0 := by
  refine exists_run_of (fun t => ∀ p<t.nExecutors, (t.executors p).slot=none)
    (by decide +kernel) ?_
  intro t ht hnone
  exact ⟨hnone,(running_counts_exact (by decide +kernel) ht).2.2 hnone⟩

/-- The executor that leaves last has not handled the move: it takes the slot from group 1. -/
theorem running_counts_drift : ∃ t, run step (init 4 (fun _ => some 10) 2 fun _ => 0)
        (movedExecutors ++ [.unassign 0,.unassign 1])=some t ∧
      (∀ p<t.nExecutors, (t.executors p).slot=none) ∧
      t.control.inUse 1=0 ∧ (t.control.groups 1).nRunning=-1 ∧
      t.control.inUse 2=0 ∧ (t.control.groups 2).nRunning=1 := by
  exact exists_run (by decide +kernel)

end WarehousePG.ResGroup
