import Mathlib.Data.Fintype.Pigeonhole
import Mathlib.Data.Set.Card

namespace WarehousePG.Framework

variable {ε : Type*}

/-- When an element may be taken out of a set. A rule is `Hereditary` if what may be taken out
of a set may be taken out of every subset that has it. -/
abbrev PeelRule (ε : Type*) := Set ε → ε → Prop

def Hereditary (removable : PeelRule ε) : Prop := ∀ T E e, T⊆E → e∈T → removable E e → removable T e

def Stuck (removable : PeelRule ε) (T : Set ε) : Prop := ∀ e∈T, ¬removable T e

def core (removable : PeelRule ε) (E : Set ε) : Set ε := {e | ∃ T⊆E, Stuck removable T ∧ e∈T}

/-- `F` is `E` without some elements that may be taken out of `E`. -/
structure Peels (removable : PeelRule ε) (E F : Set ε) : Prop where
  subset : F⊆E
  removed : ∀ e∈E, e∉F → removable E e

variable {removable : PeelRule ε} {E F : Set ε}

theorem core_subset (removable : PeelRule ε) (E : Set ε) : core removable E⊆E := by
  rintro e ⟨T,hT,_,he⟩
  exact hT he

theorem subset_core {T : Set ε} (hT : T⊆E) (hs : Stuck removable T) : T⊆core removable E :=
  fun _ he => ⟨T,hT,hs,he⟩

theorem core_mono (h : F⊆E) : core removable F⊆core removable E := by
  rintro e ⟨T,hT,hs,he⟩
  exact ⟨T,hT.trans h,hs,he⟩

theorem core_stuck (hr : Hereditary removable) (E : Set ε) : Stuck removable (core removable E) := by
  intro e he hrem
  obtain ⟨T,hT,hs,heT⟩ := he
  have hsub : T⊆core removable E := subset_core hT hs
  exact hs e heT (hr T _ e hsub heT hrem)

theorem core_eq_of_stuck (hs : Stuck removable E) : core removable E=E :=
  (core_subset removable E).antisymm (subset_core Set.Subset.rfl hs)

theorem Peels.core_eq (hr : Hereditary removable) (h : Peels removable E F) :
    core removable F=core removable E := by
  apply (core_mono h.subset).antisymm
  have hsub : core removable E⊆F := by
    intro e he
    by_contra hn
    have hrem := h.removed e (core_subset removable E he) hn
    exact core_stuck hr E e he (hr _ E e (core_subset removable E) he hrem)
  exact subset_core hsub (core_stuck hr E)

theorem Peels.refl (E : Set ε) : Peels removable E E := ⟨Set.Subset.rfl,fun _ he hn => absurd he hn⟩

theorem core_eq_of_peeled (hr : Hereditary removable)
    (h : Relation.ReflTransGen (Peels removable) E F) : core removable F=core removable E := by
  induction h with
  | refl => rfl
  | tail _ hstep ih => exact (hstep.core_eq hr).trans ih

theorem eq_core_of_peeled (hr : Hereditary removable)
    (h : Relation.ReflTransGen (Peels removable) E F) (hs : Stuck removable F) :
    F=core removable E := by
  have hcore := core_eq_of_peeled hr h
  exact (core_eq_of_stuck hs).symm.trans hcore

/-- A map of a finite set into itself has a part that it permutes. -/
theorem exists_closed_cycle (hfin : E.Finite) (hne : E.Nonempty) (next : ε → ε)
    (hnext : ∀ e∈E, next e∈E) : ∃ T⊆E, T.Nonempty ∧ (∀ e∈T, next e∈T) ∧ ∀ e∈T, ∃ p∈T, next p=e := by
  obtain ⟨a,ha⟩ := hne
  have hmem (n : ℕ) : next^[n] a∈E := by
    induction n with
    | zero => exact ha
    | succ n ih =>
      rw [Function.iterate_succ_apply']
      exact hnext _ ih
  have : Finite E := hfin
  obtain ⟨m,n,hmn,heq⟩ := Finite.exists_ne_map_eq_of_infinite fun n => (⟨_,hmem n⟩ : E)
  have heq' : next^[m] a=next^[n] a := congrArg Subtype.val heq
  wlog hlt : m<n generalizing m n
  · exact this n m (Ne.symm hmn) heq.symm heq'.symm (by omega)
  refine ⟨{e | ∃ k≥m, next^[k] a=e},?_,⟨_,m,le_rfl,rfl⟩,?_,?_⟩
  · rintro e ⟨k,_,rfl⟩
    exact hmem k
  · rintro e ⟨k,hk,rfl⟩
    exact ⟨k+1,by omega,Function.iterate_succ_apply' next k a⟩
  · have hpred (k : ℕ) (hk : m<k) : ∃ p, (∃ j≥m, next^[j] a=p) ∧ next p=next^[k] a := by
      refine ⟨_,⟨k-1,by omega,rfl⟩,?_⟩
      have hsucc := Function.iterate_succ_apply' next (k-1) a
      rw [Nat.succ_eq_add_one,Nat.sub_add_cancel (by omega)] at hsucc
      exact hsucc.symm
    rintro e ⟨k,hk,rfl⟩
    rcases Nat.lt_or_eq_of_le hk with hlt' | rfl
    · exact hpred k hlt'
    · rw [heq']
      exact hpred n hlt

end WarehousePG.Framework
