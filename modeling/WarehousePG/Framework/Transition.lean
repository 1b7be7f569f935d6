import Mathlib.Data.List.Basic

namespace WarehousePG.Framework

variable {σ τ α β : Type*}

/-- Execute a list of actions; an action that is not enabled stops the run. -/
def run (step : σ → α → Option σ) : σ → List α → Option σ
  | s, [] => some s
  | s, a::as => (step s a).bind fun t => run step t as

/-- Every step taken along the run meets `C`, read in the state before the step. -/
def EveryStep (step : σ → α → Option σ) (C : σ → α → Prop) : σ → List α → Prop
  | _, [] => True
  | s, a::as => C s a ∧
    match step s a with
    | some t => EveryStep step C t as
    | none => True

instance decidableEveryStep (step : σ → α → Option σ) (C : σ → α → Prop)
    [∀ s a,Decidable (C s a)] : (s : σ) → (as : List α) → Decidable (EveryStep step C s as)
  | _, [] => instDecidableTrue
  | s, a::as =>
    have : Decidable (match step s a with | some t => EveryStep step C t as | none => True) :=
      match step s a with
      | some t => decidableEveryStep step C t as
      | none => instDecidableTrue
    inferInstanceAs (Decidable (_ ∧ _))

section Guard

variable {p : Prop} [Decidable p] {t : σ}

theorem of_guard {s : σ} (h : (if p then some s else none)=some t) : p ∧ s=t := by
  obtain ⟨hp,hs⟩ := Option.ite_none_right_eq_some.mp h
  exact ⟨hp,Option.some.inj hs⟩

theorem of_guard_map {x : Option β} {f : β → σ} (h : (if p then x.map f else none)=some t) :
    p ∧ ∃ b, x=some b ∧ f b=t := by
  obtain ⟨hp,hx⟩ := Option.ite_none_right_eq_some.mp h
  exact ⟨hp,Option.map_eq_some_iff.mp hx⟩

end Guard

variable {step : σ → α → Option σ}

@[simp] theorem run_nil (s : σ) : run step s []=some s := rfl

theorem run_cons_iff (s u : σ) (a : α) (as : List α) :
    run step s (a::as)=some u ↔ ∃ t, step s a=some t ∧ run step t as=some u := by
  simp only [run,Option.bind_eq_some_iff]

theorem run_append_iff (s u : σ) (as bs : List α) :
    run step s (as ++ bs)=some u ↔ ∃ t, run step s as=some t ∧ run step t bs=some u := by
  induction as generalizing s with
  | nil => simp
  | cons a as ih =>
    simp only [List.cons_append,run_cons_iff,ih]
    constructor
    · rintro ⟨t,ht,v,hv,hu⟩
      exact ⟨v,⟨t,ht,hv⟩,hu⟩
    · rintro ⟨v,⟨t,ht,hv⟩,hu⟩
      exact ⟨t,ht,v,hv,hu⟩

variable {P : σ → Prop} {s t : σ} {as : List α}

theorem run_invariant (hstep : ∀ s a t, P s → step s a=some t → P t) (hs : P s)
    (h : run step s as=some t) : P t := by
  induction as generalizing s with
  | nil =>
    cases h
    exact hs
  | cons a as ih =>
    obtain ⟨u,hu,hrest⟩ := (run_cons_iff s t a as).mp h
    exact ih (hstep s a u hs hu) hrest

theorem exists_run [DecidablePred P] (h : (run step s as).map (fun t => decide (P t))=some true) :
    ∃ t, run step s as=some t ∧ P t := by
  obtain ⟨t,ht,hP⟩ := Option.map_eq_some_iff.mp h
  exact ⟨t,ht,of_decide_eq_true hP⟩

theorem exists_run_of (P : σ → Prop) {Q : σ → Prop} [DecidablePred P]
    (h : (run step s as).map (fun t => decide (P t))=some true)
    (hQ : ∀ t, run step s as=some t → P t → Q t) : ∃ t, run step s as=some t ∧ Q t := by
  obtain ⟨t,ht,hP⟩ := exists_run h
  exact ⟨t,ht,hQ t ht hP⟩

variable {C : σ → α → Prop}

theorem run_invariant_of_everyStep
    (hstep : ∀ s a t, P s → C s a → step s a=some t → P t) (hs : P s) (hC : EveryStep step C s as)
    (h : run step s as=some t) : P t := by
  induction as generalizing s with
  | nil =>
    cases h
    exact hs
  | cons a as ih =>
    obtain ⟨u,hu,hrest⟩ := (run_cons_iff s t a as).mp h
    obtain ⟨hnow,hltr⟩ := hC
    rw [hu] at hltr
    exact ih (hstep s a u hs hnow hu) hltr hrest

theorem everyStep_of_forall_mem (h : ∀ a∈as, ∀ s, C s a) : EveryStep step C s as := by
  induction as generalizing s with
  | nil => trivial
  | cons a as ih =>
    refine ⟨h a List.mem_cons_self s,?_⟩
    cases step s a with
    | none => trivial
    | some t => exact ih fun b hb => h b (List.mem_cons_of_mem a hb)

theorem run_related {R : σ → σ → Prop} (hrefl : ∀ s, R s s)
    (htrans : ∀ s t u, R s t → R t u → R s u) (hinv : ∀ s a t, P s → step s a=some t → P t)
    (hstep : ∀ s a t, P s → step s a=some t → R s t) (hs : P s) (h : run step s as=some t) : R s t := by
  induction as generalizing s with
  | nil =>
    obtain rfl := Option.some.inj h
    exact hrefl s
  | cons a as ih =>
    obtain ⟨u,hu,hrest⟩ := (run_cons_iff s t a as).mp h
    exact htrans s u t (hstep s a u hs hu) (ih (hinv s a u hs hu) hrest)

end WarehousePG.Framework
