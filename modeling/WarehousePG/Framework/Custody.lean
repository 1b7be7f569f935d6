import Mathlib.Logic.Basic

namespace WarehousePG.Framework

variable {L X : Type*}

/-- The items in use are exactly the held ones, and an item is held in one place only. -/
structure Custody (held : L → Option X) (used : X → Prop) : Prop where
  unique : ∀ {l m x}, held l=some x → held m=some x → l=m
  used_iff : ∀ x, used x ↔ ∃ l, held l=some x

namespace Custody

variable {held held' : L → Option X} {used used' : X → Prop}

section

variable (h : Custody held used)
include h

variable {l : L} {x : X}

theorem used_of_held (hl : held l=some x) : used x := (h.used_iff x).mpr ⟨l,hl⟩

theorem congr (hheld : ∀ l, held' l=held l)
    (hused : ∀ x, used' x ↔ used x) : Custody held' used' := by
  refine ⟨fun {l m x} hl hm => ?_,fun x => ?_⟩
  · rw [hheld] at hl hm
    exact h.unique hl hm
  · rw [hused,h.used_iff]
    simp only [hheld]

/-- A free item is taken by one who holds none. -/
theorem take (hfree : ¬used x) (hemp : held l=none)
    (hl : held' l=some x) (hoth : ∀ m, m≠l → held' m=held m)
    (hused : ∀ y, used' y ↔ used y ∨ y=x) : Custody held' used' := by
  have hnew : ∀ {m y}, held' m=some y → m=l ∧ y=x ∨ held m=some y := by
    intro m y hm
    by_cases hml : m=l
    · rw [hml,hl] at hm
      exact .inl ⟨hml,(Option.some.inj hm).symm⟩
    · rw [hoth m hml] at hm
      exact .inr hm
  refine ⟨fun {m k y} hm hk => ?_,fun y => ?_⟩
  · rcases hnew hm with ⟨rfl,rfl⟩ | hm <;> rcases hnew hk with ⟨rfl,hy⟩ | hk
    · rfl
    · exact absurd (h.used_of_held hk) hfree
    · exact absurd (h.used_of_held hm) (hy ▸ hfree)
    · exact h.unique hm hk
  · rw [hused,h.used_iff]
    constructor
    · rintro (⟨m,hm⟩ | rfl)
      · refine ⟨m,?_⟩
        rw [hoth m (by rintro rfl; rw [hemp] at hm; exact absurd hm (by simp)),hm]
      · exact ⟨l,hl⟩
    · rintro ⟨m,hm⟩
      rcases hnew hm with ⟨-,rfl⟩ | hm
      · exact .inr rfl
      · exact .inl ⟨m,hm⟩

/-- An item is given back. -/
theorem put (hx : held l=some x) (hl : held' l=none)
    (hoth : ∀ m, m≠l → held' m=held m) (hused : ∀ y, used' y ↔ used y ∧ y≠x) :
    Custody held' used' := by
  have hold : ∀ {m y}, held' m=some y → m≠l ∧ held m=some y := by
    intro m y hm
    have hml : m≠l := by
      rintro rfl
      rw [hl] at hm
      cases hm
    rw [hoth m hml] at hm
    exact ⟨hml,hm⟩
  refine ⟨fun hm hk => h.unique (hold hm).2 (hold hk).2,fun y => ?_⟩
  rw [hused,h.used_iff]
  constructor
  · rintro ⟨⟨m,hm⟩,hy⟩
    refine ⟨m,?_⟩
    rw [hoth m (by rintro rfl; exact hy (Option.some.inj (hm.symm.trans hx))),hm]
  · rintro ⟨m,hm⟩
    obtain ⟨hml,hm⟩ := hold hm
    exact ⟨⟨m,hm⟩,by rintro rfl; exact hml (h.unique hm hx)⟩

/-- An item passes from one holder to another. -/
theorem pass {m : L} (hx : held l=some x) (hemp : held m=none)
    (hl : held' l=none) (hm : held' m=some x)
    (hoth : ∀ k, k≠l → k≠m → held' k=held k) (hused : ∀ y, used' y ↔ used y) :
    Custody held' used' := by
  have hold : ∀ {k y}, held' k=some y → k=m ∧ y=x ∨ k≠l ∧ k≠m ∧ held k=some y := by
    intro k y hk
    have hkl : k≠l := by
      rintro rfl
      rw [hl] at hk
      cases hk
    by_cases hkm : k=m
    · rw [hkm,hm] at hk
      exact .inl ⟨hkm,(Option.some.inj hk).symm⟩
    · rw [hoth k hkl hkm] at hk
      exact .inr ⟨hkl,hkm,hk⟩
  refine ⟨fun {k j y} hk hj => ?_,fun y => ?_⟩
  · rcases hold hk with ⟨rfl,rfl⟩ | ⟨hkl,-,hk⟩ <;> rcases hold hj with ⟨rfl,hy⟩ | ⟨hjl,-,hj⟩
    · rfl
    · exact absurd (h.unique hj hx) hjl
    · exact absurd (h.unique hk (hy ▸ hx)) hkl
    · exact h.unique hk hj
  · rw [hused,h.used_iff]
    constructor
    · rintro ⟨k,hk⟩
      by_cases hkl : k=l
      · obtain rfl : x=y := Option.some.inj (hx.symm.trans (hkl ▸ hk))
        exact ⟨m,hm⟩
      · have hkm : k≠m := by
          rintro rfl
          rw [hemp] at hk
          cases hk
        exact ⟨k,(hoth k hkl hkm).trans hk⟩
    · rintro ⟨k,hk⟩
      rcases hold hk with ⟨-,rfl⟩ | ⟨-,-,hk⟩
      · exact ⟨l,hx⟩
      · exact ⟨k,hk⟩

end

end Custody

end WarehousePG.Framework
