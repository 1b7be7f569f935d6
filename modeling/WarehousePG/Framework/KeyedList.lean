import Mathlib.Algebra.Order.BigOperators.Group.List
import Mathlib.Data.List.Nodup
import Mathlib.Tactic.Abel

namespace WarehousePG.Framework

open Function List

variable {α κ M : Type*} (key : α → κ)

def lookup [DecidableEq κ] (k : κ) (l : List α) : Option α := l.find? fun a => key a=k

def remove [DecidableEq κ] (k : κ) (l : List α) : List α := l.filter fun a => key a≠k

def UniqueKeys (l : List α) : Prop := (l.map key).Nodup

def total [AddCommGroup M] (f : α → M) (l : List α) : M := (l.map f).sum

variable {key} {k : κ} {a b : α} {l : List α}

namespace UniqueKeys

theorem nil : UniqueKeys key ([] : List α) := nodup_nil

theorem cons (h : UniqueKeys key l) (ha : ∀ b∈l, key b≠key a) : UniqueKeys key (a::l) := by
  simp only [UniqueKeys,map_cons,nodup_cons,mem_map,not_exists,not_and]
  exact ⟨ha,h⟩

theorem of_cons (h : UniqueKeys key (a::l)) : UniqueKeys key l ∧ ∀ b∈l, key b≠key a := by
  have h := nodup_cons.mp h
  exact ⟨h.2,by simpa using h.1⟩

theorem eq_of_key (h : UniqueKeys key l) (ha : a∈l) (hb : b∈l) (hab : key a=key b) : a=b :=
  inj_on_of_nodup_map h ha hb hab

end UniqueKeys

section lookup

variable [DecidableEq κ]

theorem lookup_eq_none_iff : lookup key k l=none ↔ ∀ b∈l, key b≠k := by simp [lookup]

theorem mem_of_lookup (h : lookup key k l=some a) : a∈l ∧ key a=k :=
  ⟨mem_of_find?_eq_some h,by simpa using find?_some h⟩

theorem UniqueKeys.lookup_eq_some (h : UniqueKeys key l) (ha : a∈l) :
    lookup key (key a) l=some a := by
  cases hfnd : lookup key (key a) l with
  | none => exact absurd rfl (lookup_eq_none_iff.mp hfnd a ha)
  | some b =>
    have hb := mem_of_lookup hfnd
    rw [h.eq_of_key hb.1 ha hb.2]

theorem mem_remove : b∈remove key k l ↔ b∈l ∧ key b≠k := by simp [remove]

theorem lookup_remove {j : κ} (h : j≠k) : lookup key j (remove key k l)=lookup key j l := by
  simp only [lookup,remove,find?_filter]
  congr 1
  funext b
  by_cases hb : key b=j
  · simp [hb,h]
  · simp [hb]

theorem remove_of_absent (h : ∀ b∈l, key b≠k) : remove key k l=l := by simpa [remove] using h

theorem remove_cons_self : remove key (key a) (a::l)=remove key (key a) l := by simp [remove]

theorem UniqueKeys.removed (h : UniqueKeys key l) : UniqueKeys key (remove key k l) :=
  h.sublist (filter_sublist.map key)

end lookup

section total

variable [AddCommGroup M] {f g : α → M}

@[simp] theorem total_cons : total f (a::l)=f a+total f l := by simp [total]

theorem total_congr (h : ∀ b∈l, f b=g b) : total f l=total g l := by
  rw [total,total,map_congr_left h]

theorem total_nonneg [PartialOrder M] [IsOrderedAddMonoid M] (h : ∀ b∈l, 0≤f b) : 0≤total f l := by
  apply sum_nonneg
  intro x hx
  obtain ⟨b,hb,rfl⟩ := mem_map.mp hx
  exact h b hb

theorem UniqueKeys.total_change (hl : UniqueKeys key l) (ha : a∈l)
    (h : ∀ b∈l, key b≠key a → g b=f b) : total g l=total f l-f a+g a := by
  induction l with
  | nil => simp at ha
  | cons c l ih =>
    obtain ⟨hrest,hc⟩ := hl.of_cons
    obtain hac | hal := mem_cons.mp ha
    · subst hac
      have : total g l=total f l :=
        total_congr fun b hb => h b (mem_cons_of_mem a hb) (hc b hb)
      rw [total_cons,total_cons,this]
      abel
    · have hfirst : g c=f c := h c mem_cons_self (hc a hal).symm
      rw [total_cons,total_cons,hfirst,ih hrest hal fun b hb => h b (mem_cons_of_mem c hb)]
      abel

theorem UniqueKeys.total_remove [DecidableEq κ] (hl : UniqueKeys key l) (ha : a∈l) :
    total f (remove key (key a) l)=total f l-f a := by
  induction l with
  | nil => simp at ha
  | cons c l ih =>
    obtain ⟨hrest,hc⟩ := hl.of_cons
    obtain hac | hal := mem_cons.mp ha
    · subst hac
      rw [remove_cons_self,remove_of_absent hc,total_cons]
      abel
    · have hkeep : remove key (key a) (c::l)=c::remove key (key a) l := by
        simp [remove,(hc a hal).symm]
      rw [hkeep,total_cons,total_cons,ih hrest hal]
      abel

end total

section sumUpTo

variable [AddCommGroup M]

def sumUpTo (n : Nat) (f : Nat → α) (g : α → M) : M := total (fun i => g (f i)) (range n)

variable {n i : Nat} {f f' : Nat → α} {g g' : α → M}

theorem sumUpTo_succ : sumUpTo (n+1) f g=sumUpTo n f g+g (f n) := by
  simp [sumUpTo,total,range_succ]

theorem sumUpTo_congr (h : ∀ i<n, g (f i)=g' (f' i)) : sumUpTo n f g=sumUpTo n f' g' :=
  total_congr fun i hi => h i (mem_range.mp hi)

theorem sumUpTo_update (hi : i<n) (a : α) :
    sumUpTo n (update f i a) g=sumUpTo n f g-g (f i)+g a := by
  have hkeys : UniqueKeys id (range n) := by
    rw [UniqueKeys,map_id]
    exact nodup_range
  have hchan := hkeys.total_change (f := fun j => g (f j))
    (g := fun j => g (update f i a j)) (mem_range.mpr hi) ?_
  · rw [update_self] at hchan
    exact hchan
  · intro j _ hj
    simp only [update_of_ne (show j≠i from hj)]

theorem eq_zero_of_sumUpTo [PartialOrder M] [IsOrderedAddMonoid M] (hnon : ∀ i<n, 0≤g (f i))
    (h : sumUpTo n f g=0) : ∀ i<n, g (f i)=0 := by
  induction n with
  | zero => exact fun i hi => absurd hi (Nat.not_lt_zero i)
  | succ n ih =>
    have hfirst : 0 ≤ sumUpTo n f g :=
      total_nonneg fun i hi => hnon i (Nat.lt_succ_of_lt (mem_range.mp hi))
    rw [sumUpTo_succ,add_eq_zero_iff_of_nonneg hfirst (hnon n (Nat.lt_succ_self n))] at h
    intro i hi
    obtain hlt | heq := Nat.lt_succ_iff_lt_or_eq.mp hi
    · exact ih (fun j hj => hnon j (Nat.lt_succ_of_lt hj)) h.1 i hlt
    · rw [heq]
      exact h.2

end sumUpTo

end WarehousePG.Framework
