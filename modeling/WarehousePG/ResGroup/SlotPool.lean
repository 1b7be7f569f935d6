import WarehousePG.Framework.Tally
import WarehousePG.Framework.Transition

namespace WarehousePG.ResGroup

open Framework Function List

/-- `ResGroupData`; a dropped group is one whose `groupId` is InvalidOid. -/
structure Group where
  dropped : Bool := false
  concurrency : Int := 0
  nRunning : Int := 0
  nRunningBypassed : Int := 0
  waitProcs : List Nat := []
  lockedForDrop : Bool := false

/-- `ResGroupSlotData`; a slot that is not in use has no group. -/
structure Slot where
  group : Option Nat := none
  nProcs : Int := 0
  deriving DecidableEq

/-- `ResGroupControl`, with `size` slots. -/
structure Control where
  size : Nat
  groups : Nat → Group
  slots : Nat → Slot := fun _ => {}
  freeSlots : List Nat

namespace Control

def setGroup (c : Control) (g : Nat) (group : Group) : Control :=
  { c with groups := update c.groups g group }

def setSlot (c : Control) (x : Nat) (slot : Slot) : Control :=
  { c with slots := update c.slots x slot }

def addRunning (c : Control) (g : Nat) (n : Int) : Control :=
  c.setGroup g { c.groups g with nRunning := (c.groups g).nRunning+n }

def addProcs (c : Control) (x : Nat) (n : Int) : Control :=
  c.setSlot x { c.slots x with nProcs := (c.slots x).nProcs+n }

/-- `slotpoolAllocSlot` and `initSlot`; the pool is not checked for being empty. -/
def allocSlot (c : Control) (g : Nat) : Option (Nat × Control) :=
  match c.freeSlots with
  | [] => none
  | x::rest => some (x, { c with freeSlots := rest }.setSlot x { c.slots x with group := some g })

/-- `groupPutSlot` with `slotpoolFreeSlot`: the slot becomes free, and `g` has one running less. -/
def groupPutSlot (c : Control) (g x : Nat) : Control :=
  { c.setSlot x { c.slots x with group := none } with freeSlots := x::c.freeSlots }.addRunning g (-1)

/-- `slotpoolInit`: every slot is in the free list. A group without a concurrency does not exist. -/
def slotpoolInit (size : Nat) (concurrency : Nat → Option Int) : Control :=
  { size
    groups := fun g => { dropped := (concurrency g).isNone, concurrency := (concurrency g).getD 0 }
    freeSlots := range size }

def inUse (c : Control) (g : Nat) : Nat := tally c.size c.slots fun slot => slot.group=some g

attribute [local simp] addProcs setGroup setSlot

section

variable (c : Control)

@[simp] theorem setSlot_groups (x : Nat) (slot : Slot) : (c.setSlot x slot).groups=c.groups := rfl

@[simp] theorem setSlot_freeSlots (x : Nat) (slot : Slot) :
    (c.setSlot x slot).freeSlots=c.freeSlots := rfl

@[simp] theorem setSlot_size (x : Nat) (slot : Slot) : (c.setSlot x slot).size=c.size := rfl

@[simp] theorem setGroup_slots (g : Nat) (group : Group) : (c.setGroup g group).slots=c.slots := rfl

@[simp] theorem setGroup_freeSlots (g : Nat) (group : Group) :
    (c.setGroup g group).freeSlots=c.freeSlots := rfl

@[simp] theorem setGroup_size (g : Nat) (group : Group) : (c.setGroup g group).size=c.size := rfl

@[simp] theorem setGroup_self (g : Nat) (group : Group) :
    (c.setGroup g group).groups g=group := by simp

theorem setGroup_ne (h : k≠g) (group : Group) :
    (c.setGroup g group).groups k=c.groups k := by simp [h]

@[simp] theorem addRunning_slots (g : Nat) (n : Int) : (c.addRunning g n).slots=c.slots := rfl

@[simp] theorem addRunning_freeSlots (g : Nat) (n : Int) :
    (c.addRunning g n).freeSlots=c.freeSlots := rfl

@[simp] theorem addRunning_size (g : Nat) (n : Int) : (c.addRunning g n).size=c.size := rfl

theorem setSlot_slots (x : Nat) (slot : Slot) :
    (c.setSlot x slot).slots=update c.slots x slot := rfl

theorem groupPutSlot_slots (g x : Nat) :
    (c.groupPutSlot g x).slots=update c.slots x { c.slots x with group := none } := rfl

theorem addRunning_nRunning (g h : Nat) (n : Int) :
    ((c.addRunning g n).groups h).nRunning =(c.groups h).nRunning+(if h=g then n else 0) := by
  by_cases hg : h=g
  · subst hg
    simp [addRunning]
  · simp [addRunning,hg]

@[simp] theorem addProcs_groups (x : Nat) (n : Int) : (c.addProcs x n).groups=c.groups := rfl

@[simp] theorem addProcs_group (x z : Nat) (n : Int) :
    ((c.addProcs x n).slots z).group=(c.slots z).group := by
  by_cases hzx : z=x
  · subst hzx
    simp
  · simp [hzx]

theorem addProcs_nProcs (x z : Nat) (n : Int) :
    ((c.addProcs x n).slots z).nProcs=(c.slots z).nProcs+(if z=x then n else 0) := by
  by_cases hzx : z=x
  · subst hzx
    simp
  · simp [hzx]

theorem inUse_addRunning (g h : Nat) (n : Int) : (c.addRunning g n).inUse h=c.inUse h := rfl

end

theorem allocSlot_eq {c : Control} (h : c.allocSlot g=some (x, c')) :
    c'.slots=update c.slots x { c.slots x with group := some g } ∧ c'.groups=c.groups ∧
      c'.size=c.size := by
  rw [allocSlot] at h
  cases hfree : c.freeSlots with
  | nil => simp [hfree] at h
  | cons y rest =>
    rw [hfree] at h
    simp only [Option.some.injEq,Prod.mk.injEq] at h
    obtain ⟨rfl,rfl⟩ := h
    exact ⟨rfl,rfl,rfl⟩

theorem allocSlot_slots {c : Control} (h : c.allocSlot g=some (x, c')) :
    (∀ z, (c'.slots z).nProcs=(c.slots z).nProcs) ∧ (c'.slots x).group=some g ∧
      ∀ z, z≠x → (c'.slots z).group=(c.slots z).group := by
  rw [(allocSlot_eq h).1]
  refine ⟨fun z => ?_,by simp,fun z hz => by simp [hz]⟩
  by_cases hz : z=x
  · simp [hz]
  · simp [hz]

theorem inUse_setSlot (c : Control) (hx : x<c.size) (slot : Slot) (g : Nat) :
    ((c.setSlot x slot).inUse g : Int)
      =c.inUse g-(if (c.slots x).group=some g then 1 else 0)+(if slot.group=some g then 1 else 0) := by
  have h := tally_update hx c.slots slot fun slot => decide (slot.group=some g)
  change (c.setSlot x slot).inUse g+_=c.inUse g+_ at h
  by_cases hold : (c.slots x).group=some g <;> by_cases hnew : slot.group=some g <;>
    simp only [hold,hnew,decide_true,decide_false,Bool.toNat_true,Bool.toNat_false,if_true,
      if_false] at h ⊢ <;> omega

end Control

structure PoolInv (c : Control) : Prop where
  nodup : c.freeSlots.Nodup
  bounded : ∀ x∈c.freeSlots, x<c.size
  free : ∀ x<c.size, x∈c.freeSlots ↔ (c.slots x).group=none
  outside : ∀ x, c.size≤x → (c.slots x).group=none
  running : ∀ g, (c.groups g).nRunning=c.inUse g

namespace PoolInv

variable {c : Control}

theorem lt_size (h : PoolInv c) (hx : (c.slots x).group=some g) : x<c.size := by
  apply Nat.lt_of_not_le
  intro hle
  rw [h.outside x hle] at hx
  cases hx

theorem nRunning_pos (h : PoolInv c) (hx : (c.slots x).group=some g) : 0<(c.groups g).nRunning := by
  have hpos : 0<c.inUse g := tally_pos (h.lt_size hx) (by simp [hx])
  rw [h.running g]
  exact Int.natCast_pos.mpr hpos

open Control

theorem init (size : Nat) (concurrency : Nat → Option Int) :
    PoolInv (slotpoolInit size concurrency) := by
  refine ⟨nodup_range,fun x hx => mem_range.mp hx,fun x hx => ?_,fun x _ => rfl,
    fun g => ?_⟩
  · simpa [slotpoolInit] using hx
  · have hzero : (slotpoolInit size concurrency).inUse g=0 := by
      apply tally_eq_zero.mpr
      simp [slotpoolInit]
    rw [hzero]
    rfl

variable (h : PoolInv c)
include h

/-- A slot is taken from the head of the free list. -/
theorem alloc (hall : c.allocSlot g=some (x, c')) :
    PoolInv (c'.addRunning g 1) ∧ x<c.size ∧ (c.slots x).group=none := by
  rw [allocSlot] at hall
  cases hfree : c.freeSlots with
  | nil => simp [hfree] at hall
  | cons y rest =>
    rw [hfree] at hall
    simp only [Option.some.injEq,Prod.mk.injEq] at hall
    obtain ⟨rfl,rfl⟩ := hall
    have hmem : y∈c.freeSlots := by simp [hfree]
    have hlt := h.bounded y hmem
    have hnone := (h.free y hlt).mp hmem
    have hnd := h.nodup
    rw [hfree,nodup_cons] at hnd
    refine ⟨⟨hnd.2,fun z hz => h.bounded z (by simp [hfree,show z∈rest from hz]),?_,?_,?_⟩,hlt,
      hnone⟩
    · intro z hz
      simp only [addRunning_slots,setSlot_slots,addRunning_freeSlots,
        setSlot_freeSlots]
      by_cases hzy : z=y
      · subst hzy
        simpa using hnd.1
      · rw [update_of_ne hzy,← h.free z hz,hfree]
        simp [hzy]
    · intro z hz
      simp only [addRunning_slots,setSlot_slots,addRunning_size,
        setSlot_size] at hz ⊢
      rw [update_of_ne (by omega)]
      exact h.outside z hz
    · intro k
      rw [addRunning_nRunning,inUse_addRunning]
      change (c.groups k).nRunning+_=((c.setSlot y { c.slots y with group := some g }).inUse k : Int)
      rw [inUse_setSlot _ hlt,h.running k,hnone]
      by_cases hgk : k=g
      · simp [hgk]
      · simp [hgk,Ne.symm hgk]

/-- A slot is put back at the head of the free list. -/
theorem put (hx : (c.slots x).group=some g) : PoolInv (c.groupPutSlot g x) := by
  have hlt := h.lt_size hx
  have hnot : x∉c.freeSlots := by
    intro hmem
    rw [(h.free x hlt).mp hmem] at hx
    cases hx
  refine ⟨nodup_cons.mpr ⟨hnot,h.nodup⟩,?_,?_,?_,?_⟩
  · intro z hz
    rcases mem_cons.mp hz with rfl | hz
    · exact hlt
    · exact h.bounded z hz
  · intro z hz
    simp only [groupPutSlot,addRunning_slots,setSlot_slots,
      addRunning_freeSlots,mem_cons]
    by_cases hzx : z=x
    · simp [hzx]
    · rw [update_of_ne hzx]
      simp [hzx,h.free z hz]
  · intro z hz
    simp only [groupPutSlot,addRunning_slots,setSlot_slots,
      addRunning_size,setSlot_size] at hz ⊢
    by_cases hzx : z=x
    · simp [hzx]
    · rw [update_of_ne hzx]
      exact h.outside z hz
  · intro k
    rw [groupPutSlot,addRunning_nRunning,inUse_addRunning]
    change (c.groups k).nRunning+_=((c.setSlot x { c.slots x with group := none }).inUse k : Int)
    rw [inUse_setSlot _ hlt,h.running k,hx]
    by_cases hgk : k=g
    · simp [hgk]
      omega
    · simp [hgk,Ne.symm hgk]

theorem setGroup (hsame : group.nRunning=(c.groups g).nRunning) : PoolInv (c.setGroup g group) := by
  refine ⟨h.nodup,h.bounded,h.free,h.outside,fun k => ?_⟩
  by_cases hk : k=g
  · subst hk
    rw [setGroup_self,hsame]
    exact h.running k
  · rw [setGroup_ne c hk]
    exact h.running k

theorem addProcs (x : Nat) (n : Int) : PoolInv (c.addProcs x n) := by
  refine ⟨h.nodup,h.bounded,fun z hz => ?_,fun z hz => ?_,fun k => ?_⟩
  · rw [addProcs_group]
    exact h.free z hz
  · rw [addProcs_group]
    exact h.outside z hz
  · rw [addProcs_groups,h.running k]
    congr 1
    apply tally_congr
    intro z _
    rw [addProcs_group]

theorem regroup (hx : (c.slots x).group=some g) :
    PoolInv (((c.addRunning g (-1)).setSlot x { c.slots x with group := some g' }).addRunning g' 1) := by
  have hlt := h.lt_size hx
  refine ⟨h.nodup,h.bounded,fun z hz => ?_,fun z hz => ?_,fun k => ?_⟩
  · simp only [addRunning_slots,setSlot_slots,addRunning_freeSlots,
      setSlot_freeSlots]
    by_cases hzx : z=x
    · rw [hzx,update_self,h.free x hlt,hx]
      simp
    · rw [update_of_ne hzx]
      exact h.free z hz
  · simp only [addRunning_slots,setSlot_slots,addRunning_size,
      setSlot_size] at hz ⊢
    rw [update_of_ne (by omega)]
    exact h.outside z hz
  · have hmoved := inUse_setSlot c hlt { c.slots x with group := some g' } k
    rw [addRunning_nRunning,inUse_addRunning,setSlot_groups,
      addRunning_nRunning,h.running k]
    change _=((c.setSlot x { c.slots x with group := some g' }).inUse k : Int)
    rw [hmoved,hx]
    by_cases hg : k=g <;> by_cases hg' : k=g' <;> simp [hg,hg',eq_comm] <;> omega

end PoolInv

end WarehousePG.ResGroup
