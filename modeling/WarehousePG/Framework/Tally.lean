import Mathlib.Data.List.Basic

namespace WarehousePG.Framework

open Function List

variable {α β : Type*}

def tally (n : Nat) (f : Nat → α) (P : α → Bool) : Nat := (range n).countP fun i => P (f i)

theorem tally_succ (n : Nat) (f : Nat → α) (P : α → Bool) :
    tally (n+1) f P=tally n f P + (P (f n)).toNat := by
  simp only [tally,range_succ,countP_append,countP_singleton]
  cases P (f n) <;> rfl

variable {n : Nat} {f : Nat → α} {P : α → Bool}

theorem tally_congr {g : Nat → β} {Q : β → Bool}
    (h : ∀ i<n, P (f i)=Q (g i)) : tally n f P=tally n g Q := by
  induction n with
  | zero => rfl
  | succ n ih =>
    rw [tally_succ,tally_succ,ih fun i hi => h i (Nat.lt_succ_of_lt hi),h n (Nat.lt_succ_self n)]

variable {i : Nat}

theorem tally_update (hi : i<n) (f : Nat → α) (a : α) (P : α → Bool) :
    tally n (update f i a) P + (P (f i)).toNat=tally n f P + (P a).toNat := by
  induction n with
  | zero => exact absurd hi (Nat.not_lt_zero i)
  | succ n ih =>
    rw [tally_succ,tally_succ]
    by_cases hin : i=n
    · subst hin
      have hold : tally i (update f i a) P=tally i f P := by
        apply tally_congr
        intro j hj
        rw [update_of_ne (Nat.ne_of_lt hj)]
      rw [hold,update_self]
      omega
    · have := ih (by omega)
      rw [update_of_ne (fun h => hin h.symm)]
      omega

theorem tally_update_same (f : Nat → α) (a : α) (P : α → Bool)
    (h : P a=P (f i)) : tally n (update f i a) P=tally n f P := by
  apply tally_congr
  intro j _
  by_cases hji : j=i
  · rw [hji,update_self,h]
  · rw [update_of_ne hji]

theorem tally_eq_zero : tally n f P=0 ↔ ∀ i<n, P (f i)=false := by
  simp [tally,countP_eq_zero]

theorem tally_eq_length : tally n f P=n ↔ ∀ i<n, P (f i)=true := by
  simp only [tally]
  constructor
  · intro h i hi
    have hall := countP_eq_length.mp (h.trans length_range.symm)
    exact hall i (mem_range.mpr hi)
  · intro h
    exact (countP_eq_length.mpr fun i hi => h i (mem_range.mp hi)).trans length_range

theorem tally_pos (hi : i<n) (h : P (f i)) : 0<tally n f P := by
  apply Nat.pos_of_ne_zero
  intro hzero
  have := tally_eq_zero.mp hzero i hi
  rw [h] at this
  cases this

end WarehousePG.Framework
