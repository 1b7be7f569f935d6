import Mathlib.Algebra.BigOperators.Group.List.Basic
import Mathlib.Algebra.GroupWithZero.Nat
import Mathlib.Data.List.Basic

namespace WarehousePG.Framework

open List

variable {α β : Type*}

theorem countP_or {p q : α → Bool} {l : List α} (h : ∀ x∈l, p x=true → q x=false) :
    l.countP (fun x => p x || q x)=l.countP p+l.countP q := by
  induction l with
  | nil => rfl
  | cons x l ih =>
    have hx := h x (by simp)
    simp only [countP_cons,ih fun y hy => h y (by simp [hy])]
    cases hp : p x with
    | false => simp; omega
    | true => simp [hx hp]; omega

section Classes

variable {f : α → α → Bool} {l r : List α}

/-- Counting over a union of classes is counting over each of them. -/
theorem countP_any_eq (hclass : ∀ a∈l, ∀ b∈l, ∀ x, f a x=true → f b x=true → f a=f b)
    (hcnt : ∀ a∈l, l.countP (f a)=r.countP (f a)) {s : List α} (hs : ∀ a∈s, a∈l) :
    l.countP (fun x => s.any (f · x))=r.countP (fun x => s.any (f · x)) := by
  induction s with
  | nil => simp
  | cons a s ih =>
    obtain ⟨ha,hs⟩ := forall_mem_cons.mp hs
    have ih := ih hs
    by_cases hsame : ∃ b∈s, f b=f a
    · obtain ⟨b,hb,hsame⟩ := hsame
      have hany : (fun x => (a::s).any (f · x))=fun x => s.any (f · x) := by
        funext x
        cases hx : f a x with
        | false => simp [hx]
        | true =>
          have hbx : s.any (f · x)=true := any_eq_true.mpr ⟨b,hb,by rw [hsame,hx]⟩
          simp [hx,hbx]
      rw [hany,ih]
    · have hdis : ∀ x, f a x=true → s.any (f · x)=false := by
        intro x hx
        apply Bool.eq_false_iff.mpr
        intro hany
        obtain ⟨b,hb,hbx⟩ := any_eq_true.mp hany
        exact hsame ⟨b,hb,hclass b (hs b hb) a ha x hbx hx⟩
      simp only [any_cons]
      rw [countP_or fun x _ => hdis x,countP_or fun x _ => hdis x,ih,hcnt a ha]

/-- Two lists of the same length with the same number of members in the classes of the first: every
member of the second is in one of these classes. -/
theorem exists_class_of_countP_eq (hrefl : ∀ a∈l, f a a=true)
    (hclass : ∀ a∈l, ∀ b∈l, ∀ x, f a x=true → f b x=true → f a=f b)
    (hcnt : ∀ a∈l, l.countP (f a)=r.countP (f a)) (hlen : l.length=r.length) :
    ∀ x∈r, ∃ a∈l, f a x=true := by
  have hall : l.countP (fun x => l.any (f · x))=l.length :=
    countP_eq_length.mpr fun a ha => any_eq_true.mpr ⟨a,ha,hrefl a ha⟩
  rw [countP_any_eq hclass hcnt (fun _ h => h),hlen] at hall
  intro x hx
  exact any_eq_true.mp (countP_eq_length.mp hall x hx)

end Classes

theorem eq_one_of_length_le_sum {f : β → Nat} {l : List β} (hle : ∀ x∈l, f x≤1)
    (h : l.length≤(l.map f).sum) : ∀ x∈l, f x=1 := by
  have hsum : ∀ {m : List β}, (∀ x∈m, f x≤1) → (m.map f).sum ≤ m.length := by
    intro m hm
    induction m with
    | nil => simp
    | cons x m ih =>
      obtain ⟨hx,hm⟩ := forall_mem_cons.mp hm
      have := ih hm
      simp only [map_cons,sum_cons,length_cons]
      omega
  induction l with
  | nil => simp
  | cons x l ih =>
    obtain ⟨hx,hrest⟩ := forall_mem_cons.mp hle
    have hbound := hsum hrest
    simp only [map_cons,sum_cons,length_cons] at h
    exact forall_mem_cons.mpr ⟨by omega,ih hrest (by omega)⟩

end WarehousePG.Framework
