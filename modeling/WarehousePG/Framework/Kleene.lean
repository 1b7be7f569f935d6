import Mathlib.Data.List.Basic

namespace WarehousePG.Framework

/-- Truth values with `none` for unknown. -/
abbrev Truth := Option Bool

namespace Truth

def not : Truth → Truth
  | some b => some !b
  | none => none

def and : Truth → Truth → Truth
  | some false, _ => some false
  | _, some false => some false
  | some true, some true => some true
  | _, _ => none

def or : Truth → Truth → Truth
  | some true, _ => some true
  | _, some true => some true
  | some false, some false => some false
  | _, _ => none

def all (l : List Truth) : Truth := l.foldr and (some true)

def any (l : List Truth) : Truth := l.foldr or (some false)

/-- A truth value passes if it is true, or unknown where unknown counts as true. -/
def Passes (unknown : Bool) (t : Truth) : Prop := t=some true ∨ unknown=true ∧ t=none
  deriving Decidable

variable {u : Bool} {s t : Truth} {l : List Truth}

@[simp] theorem passes_true : Passes u (some true) := Or.inl rfl

@[simp] theorem passes_none : Passes u none ↔ u=true := by simp [Passes]

@[simp] theorem passes_some {b : Bool} : Passes u (some b) ↔ b=true := by simp [Passes]

theorem passes_not : Passes u (not t) ↔ ¬Passes (!u) t := by
  match t with
  | none => cases u <;> simp [not]
  | some true => simp [not]
  | some false => simp [not]

theorem eq_of_passes (h : ∀ u, Passes u s ↔ Passes u t) : s=t := by
  have hfal := h false
  have htrue := h true
  match s, t with
  | none, none => rfl
  | none, some b => cases b <;> simp at hfal htrue
  | some b, none => cases b <;> simp at hfal htrue
  | some b, some c => cases b <;> cases c <;> simp at hfal ⊢

theorem passes_and : Passes u (and s t) ↔ Passes u s ∧ Passes u t := by
  match s, t with
  | some false, _ => simp [and]
  | some true, some false => simp [and]
  | none, some false => simp [and]
  | some true, some true => simp [and]
  | some true, none => simp [and]
  | none, some true => simp [and]
  | none, none => simp [and]

theorem passes_or : Passes u (or s t) ↔ Passes u s ∨ Passes u t := by
  match s, t with
  | some true, _ => simp [or]
  | some false, some true => simp [or]
  | none, some true => simp [or]
  | some false, some false => simp [or]
  | some false, none => simp [or]
  | none, some false => simp [or]
  | none, none => simp [or]

theorem passes_all : Passes u (all l) ↔ ∀ t∈l, Passes u t := by
  induction l with
  | nil => simp [all]
  | cons t l ih =>
    rw [List.forall_mem_cons,← ih]
    exact passes_and

theorem passes_any : Passes u (any l) ↔ ∃ t∈l, Passes u t := by
  induction l with
  | nil => simp [any]
  | cons t l ih =>
    rw [List.exists_mem_cons_iff,← ih]
    exact passes_or

theorem passes_all_map {α : Type*} {f : α → Truth} {l : List α} :
    Passes u (all (l.map f)) ↔ ∀ a∈l, Passes u (f a) := by
  rw [passes_all,List.forall_mem_map]

theorem passes_any_map {α : Type*} {f : α → Truth} {l : List α} :
    Passes u (any (l.map f)) ↔ ∃ a∈l, Passes u (f a) := by
  rw [passes_any]
  simp

end Truth

end WarehousePG.Framework
