import Mathlib.Order.Nat
import WarehousePG.Framework.Transition

namespace WarehousePG.Framework

open List

section

variable {ρ : Type*}

/-- Each record of the log is admissible after the records before it. -/
def Grammatical (ok : List ρ → ρ → Prop) (log : List ρ) : Prop :=
  ∀ n x, log[n]?=some x → ok (log.take n) x

instance (ok : List ρ → ρ → Prop) [∀ pre x,Decidable (ok pre x)] (log : List ρ) :
    Decidable (Grammatical ok log) :=
  decidable_of_iff (∀ n<log.length, ∀ x∈log[n]?, ok (log.take n) x)
    ⟨fun h n x hx => h n (List.getElem?_eq_some_iff.mp hx).1 x hx,fun h n _ x hx => h n x hx⟩

variable {ok : List ρ → ρ → Prop} {log : List ρ}

theorem grammatical_nil : Grammatical ok ([] : List ρ) := by
  intro n x hx
  simp at hx

theorem Grammatical.concat (h : Grammatical ok log) (x : ρ) (hx : ok log x) :
    Grammatical ok (log ++ [x]) := by
  intro n y hy
  rcases Nat.lt_trichotomy n log.length with hlt | heq | hgt
  · rw [getElem?_append_left hlt] at hy
    rw [take_append_of_le_length (by omega)]
    exact h n y hy
  · subst heq
    have hxy : x=y := by simpa using hy
    rw [take_left,← hxy]
    exact hx
  · rw [getElem?_eq_none (by simp; omega)] at hy
    cases hy

theorem Grammatical.take (h : Grammatical ok log) (m : Nat) : Grammatical ok (log.take m) := by
  intro n x hx
  have hlen : n<(log.take m).length := (List.getElem?_eq_some_iff.mp hx).1
  rw [length_take] at hlen
  have hn : n < m := by omega
  rw [getElem?_take_of_lt hn] at hx
  rw [take_take,Nat.min_eq_left hn.le]
  exact h n x hx

theorem mem_take_iff_getElem? (x : ρ) (m : Nat) : x∈log.take m ↔ ∃ n < m, log[n]?=some x := by
  rw [mem_iff_getElem?]
  constructor
  · rintro ⟨n,hn⟩
    have hlen : n<(log.take m).length := (List.getElem?_eq_some_iff.mp hn).1
    rw [length_take] at hlen
    have hnm : n < m := by omega
    exact ⟨n,hnm,by rwa [getElem?_take_of_lt hnm] at hn⟩
  · rintro ⟨n,hn,hx⟩
    exact ⟨n,by rwa [getElem?_take_of_lt hn]⟩

theorem mem_drop_take_iff_getElem? (x : ρ) (lo hi : Nat) :
    x∈(log.take hi).drop lo ↔ ∃ i, lo ≤ i ∧ i<hi ∧ log[i]?=some x := by
  rw [mem_iff_getElem?]
  constructor
  · rintro ⟨j,hj⟩
    rw [getElem?_drop] at hj
    have hlen := (List.getElem?_eq_some_iff.mp hj).1
    rw [length_take] at hlen
    rw [getElem?_take_of_lt (by omega)] at hj
    exact ⟨lo+j,by omega,by omega,hj⟩
  · rintro ⟨i,hlo,hhi,hi⟩
    refine ⟨i-lo,?_⟩
    rw [getElem?_drop,Nat.add_sub_cancel' hlo,getElem?_take_of_lt hhi]
    exact hi

theorem exists_first_position {P : ρ → Prop} {n : Nat} {x : ρ} (hx : log[n]?=some x) (hP : P x) :
    ∃ f y, f≤n ∧ log[f]?=some y ∧ P y ∧ ∀ z∈log.take f, ¬ P z := by
  induction n using Nat.strong_induction_on generalizing x with
  | _ n ih =>
    by_cases hfirst : ∀ z∈log.take n, ¬ P z
    · exact ⟨n,x,Nat.le_refl n,hx,hP,hfirst⟩
    · push Not at hfirst
      obtain ⟨z,hz,hPz⟩ := hfirst
      obtain ⟨k,hk,hkz⟩ := (mem_take_iff_getElem? z n).mp hz
      obtain ⟨f,y,hf,hrest⟩ := ih k hk hkz hPz
      exact ⟨f,y,by omega,hrest⟩

end

variable {ρ υ : Type*}

/-- Replay the records of `log` at the positions from `lo` up to but not including `hi`. -/
def replay (redo : υ → ρ → υ) (log : List ρ) (lo hi : Nat) (v : υ) : υ :=
  ((log.take hi).drop lo).foldl redo v

variable (redo : υ → ρ → υ) (log : List ρ)

theorem replay_concat (x : ρ) (lo hi : Nat) (v : υ) : replay redo (log ++ [x]) lo hi v =
      if log.length<hi ∧ lo≤log.length then redo (replay redo log lo hi v) x
      else replay redo log lo hi v := by
  unfold replay
  by_cases hh : log.length<hi
  · have htake : (log ++ [x]).take hi=log ++ [x] := take_of_length_le (by simp; omega)
    have htake' : log.take hi=log := take_of_length_le (by omega)
    rw [htake,htake']
    by_cases hl : lo≤log.length
    · rw [if_pos ⟨hh,hl⟩,drop_append_of_le_length hl,foldl_append]
      rfl
    · rw [if_neg (by tauto),drop_eq_nil_of_le (by simp; omega),
        drop_eq_nil_of_le (by omega)]
  · rw [if_neg (by tauto),take_append_of_le_length (by omega)]

theorem replay_take (n lo hi : Nat) (hn : n≤hi) (v : υ) :
    replay redo (log.take n) lo hi v=replay redo log lo n v := by
  unfold replay
  rw [take_take,Nat.min_eq_right hn]

theorem replay_of_length_le (lo hi : Nat) (h : log.length≤lo) (v : υ) :
    replay redo log lo hi v=v := by
  unfold replay
  rw [drop_eq_nil_of_le (by rw [length_take]; omega)]
  rfl

section Partial

variable {redo : υ → ρ → Option υ} {log : List ρ} {lo mid hi : Nat}

theorem drop_take_split (hlo : lo ≤ mid) (hhi : mid≤hi) :
    (log.take hi).drop lo=(log.take mid).drop lo ++ (log.take hi).drop mid := by
  have htake : log.take mid=(log.take hi).take mid := by rw [take_take,Nat.min_eq_left hhi]
  rw [htake]
  generalize log.take hi=l
  by_cases hlen : mid≤l.length
  · have hle : lo≤(l.take mid).length := by rw [length_take]; omega
    rw [← drop_append_of_le_length hle,take_append_drop]
  · rw [take_of_length_le (by omega),drop_eq_nil_of_le (show l.length ≤ mid by omega),
      append_nil]

theorem run_range_split (hlo : lo ≤ mid) (hhi : mid≤hi) (s u : υ) :
    run redo s ((log.take hi).drop lo)=some u ↔ ∃ t, run redo s ((log.take mid).drop lo)=some t ∧
        run redo t ((log.take hi).drop mid)=some u := by
  rw [drop_take_split hlo hhi,run_append_iff]

variable {n : Nat} {x : ρ}

theorem drop_take_succ (hx : log[n]?=some x) : (log.take (n+1)).drop n=[x] := by
  have hlen : n<log.length := (List.getElem?_eq_some_iff.mp hx).1
  rw [take_add_one,hx,drop_append_of_le_length (by rw [length_take]; omega),
    drop_eq_nil_of_le (by rw [length_take]; omega)]
  rfl

theorem run_range_succ (hx : log[n]?=some x) (s u : υ) :
    run redo s ((log.take (n+1)).drop n)=some u ↔ redo s x=some u := by
  rw [drop_take_succ hx,run_cons_iff]
  simp

theorem run_range_invariant {P : Nat → υ → Prop} {s u : υ} (hle : lo≤hi)
    (hhi : hi≤log.length) (hs : P lo s)
    (hstep : ∀ n x t v, lo≤n → n<hi → log[n]?=some x → P n t → redo t x=some v → P (n+1) v)
    (h : run redo s ((log.take hi).drop lo)=some u) : P hi u := by
  induction hi, hle using Nat.le_induction generalizing u with
  | base =>
    rw [drop_eq_nil_of_le (by rw [length_take]; omega)] at h
    cases h
    exact hs
  | succ n hn ih =>
    have hx : log[n]?=some (log[n]) := getElem?_eq_getElem hhi
    obtain ⟨t,ht,hu⟩ := (run_range_split hn (Nat.le_succ n) s u).mp h
    have hP := ih (by omega) (fun m x t v hm hmn => hstep m x t v hm (by omega)) ht
    exact hstep n _ t u hn (Nat.lt_succ_self n) hx hP ((run_range_succ hx t u).mp hu)

end Partial

end WarehousePG.Framework
