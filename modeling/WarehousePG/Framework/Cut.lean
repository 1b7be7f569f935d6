import Mathlib.Data.Prod.Lex
import Mathlib.Data.Set.Basic
import Mathlib.Order.MinMax
import Mathlib.Order.WithBot

namespace WarehousePG.Framework

open WithBot

/-- A position between the values of an order: before all of them, just before one,
just after one, or after all of them. -/
def Cut (α : Type*) : Type _ := WithBot (WithTop (α ×ₗ Bool))

namespace Cut

variable {α : Type*} [LinearOrder α] {a b : α}

instance : LinearOrder (Cut α) := inferInstanceAs (LinearOrder (WithBot (WithTop (α ×ₗ Bool))))

instance : BoundedOrder (Cut α) := inferInstanceAs (BoundedOrder (WithBot (WithTop (α ×ₗ Bool))))

def side (a : α) (after : Bool) : Cut α :=
  (((toLex (a,after) : α ×ₗ Bool) : WithTop (α ×ₗ Bool)) : WithBot (WithTop (α ×ₗ Bool)))

def before (a : α) : Cut α := side a false

def after (a : α) : Cut α := side a true

theorem side_le_side {p q : Bool} : side a p ≤ side b q ↔ a<b ∨ a=b ∧ p≤q := by
  unfold side
  exact coe_le_coe.trans (WithTop.coe_le_coe.trans Prod.Lex.toLex_le_toLex)

theorem side_lt_side {p q : Bool} : side a p<side b q ↔ a<b ∨ a=b ∧ p<q := by
  unfold side
  exact coe_lt_coe.trans (WithTop.coe_lt_coe.trans Prod.Lex.toLex_lt_toLex)

attribute [local simp] side_le_side side_lt_side

@[simp] theorem before_le_before : before a≤before b ↔ a≤b := by
  simp [before,← le_iff_lt_or_eq]

@[simp] theorem after_le_after : after a≤after b ↔ a≤b := by
  simp [after,← le_iff_lt_or_eq]

@[simp] theorem before_le_after : before a≤after b ↔ a≤b := by
  simp [before,after,← le_iff_lt_or_eq]

@[simp] theorem after_le_before : after a≤before b ↔ a<b := by simp [before,after]

@[simp] theorem before_lt_before : before a<before b ↔ a<b := by simp [before]

@[simp] theorem after_lt_after : after a<after b ↔ a<b := by simp [after]

@[simp] theorem before_lt_after : before a<after b ↔ a≤b := by
  simp [before,after,← le_iff_lt_or_eq]

@[simp] theorem after_lt_before : after a<before b ↔ a<b := by simp [before,after]

@[simp] theorem before_inj : before a=before b ↔ a=b := by simp [eq_iff_le_not_lt]

@[simp] theorem after_inj : after a=after b ↔ a=b := by simp [eq_iff_le_not_lt]

@[simp] theorem before_ne_after : before a≠after b := by simp [eq_iff_le_not_lt]

@[simp] theorem after_ne_before : after a≠before b := Ne.symm before_ne_after

@[simp] theorem bot_lt_before : ⊥ < before a := bot_lt_coe _

@[simp] theorem bot_lt_after : ⊥ < after a := bot_lt_coe _

@[simp] theorem before_lt_top : before a<⊤ := coe_lt_coe.mpr (WithTop.coe_lt_top _)

@[simp] theorem after_lt_top : after a<⊤ := coe_lt_coe.mpr (WithTop.coe_lt_top _)

@[simp] theorem bot_lt_top : (⊥ : Cut α)<⊤ := bot_lt_coe _

end Cut

section Stretches

variable {α P : Type*} [LinearOrder P] (lo hi : α → P)

def covered (l : List α) : Set P := {c | ∃ a∈l, lo a≤c ∧ c<hi a}

/-- Non-empty stretches that follow one another. -/
structure Apart (l : List α) : Prop where
  nonempty : ∀ a∈l, lo a<hi a
  ordered : l.Pairwise fun a b => hi a≤lo b

variable {lo hi} {a : α} {l m : List α} {c p : P}

@[simp] theorem mem_covered_nil : c∈covered lo hi [] ↔ False := by simp [covered]

@[simp] theorem mem_covered_cons : c∈covered lo hi (a::l) ↔ (lo a≤c ∧ c<hi a) ∨ c∈covered lo hi l := by
  simp [covered]

@[simp] theorem mem_covered_append : c∈covered lo hi (l++m) ↔ c∈covered lo hi l ∨ c∈covered lo hi m := by
  simp [covered,or_and_right,exists_or]

theorem le_of_mem_covered (hp : ∀ a∈l, p≤lo a) (hc : c∈covered lo hi l) : p≤c := by
  obtain ⟨a,ha,hle,-⟩ := hc
  exact le_trans (hp a ha) hle

namespace Apart

theorem nil : Apart lo hi ([] : List α) := ⟨by simp,List.Pairwise.nil⟩

theorem cons_iff : Apart lo hi (a::l) ↔ lo a<hi a ∧ (∀ b∈l, hi a≤lo b) ∧ Apart lo hi l := by
  constructor
  · intro h
    have hord := List.pairwise_cons.mp h.ordered
    exact ⟨h.nonempty a (by simp),hord.1,fun b hb => h.nonempty b (by simp [hb]),hord.2⟩
  · rintro ⟨hne,hle,h⟩
    exact ⟨by simpa [hne] using h.nonempty,List.pairwise_cons.mpr ⟨hle,h.ordered⟩⟩

theorem append (hl : Apart lo hi l) (hm : Apart lo hi m) (h : ∀ a∈l, ∀ b∈m, hi a≤lo b) :
    Apart lo hi (l++m) := by
  refine ⟨?_,List.pairwise_append.mpr ⟨hl.ordered,hm.ordered,h⟩⟩
  intro a ha
  obtain ha | ha := List.mem_append.mp ha
  · exact hl.nonempty a ha
  · exact hm.nonempty a ha

theorem singleton (h : lo a<hi a) : Apart lo hi [a] := by
  apply cons_iff.mpr
  exact ⟨h,by simp,nil⟩

theorem of_append_left (h : Apart lo hi (l++m)) : Apart lo hi l :=
  ⟨fun a ha => h.nonempty a (by simp [ha]),(List.pairwise_append.mp h.ordered).1⟩

theorem tail (h : Apart lo hi (a::l)) : Apart lo hi l := (cons_iff.mp h).2.2

theorem le_of_mem (h : Apart lo hi (a::l)) : ∀ b∈a::l, lo a≤lo b := by
  intro b hb
  have h := cons_iff.mp h
  obtain heq | hb := List.mem_cons.mp hb
  · rw [heq]
  · exact le_trans (le_of_lt h.1) (h.2.1 b hb)

end Apart

end Stretches

end WarehousePG.Framework
