import WarehousePG.Framework.ClassCount
import WarehousePG.Framework.Kleene

namespace WarehousePG.Orca

open Framework Truth List

inductive EBoolOperator where
  | eboolopAnd
  | eboolopOr
  deriving DecidableEq

inductive BoolExpr (α : Type*) where
  | scalarConstBool (fValue : Bool)
  | atom (a : α)
  | scalarBoolNot (child : BoolExpr α)
  | scalarBoolOp (eboolop : EBoolOperator) (children : List (BoolExpr α))

/-- A column and the operator whose table column it is; a computed column has none. -/
structure ColumnSource where
  id : Nat
  ulSourceOpId : Option Nat
  deriving DecidableEq

/-- What the rewrites ask of the atoms: which ones are taken for equal, which are inserted as casts
of the same comparison, the opposite of an EXISTS, the hash values, and the derived properties. -/
structure Atoms (α : Type*) where
  equals : α → α → Bool
  refl : ∀ a, equals a a=true
  symm : ∀ a b, equals a b=true → equals b a=true
  trans : ∀ a b c, equals a b=true → equals b c=true → equals a c=true
  pdrgpexprCastEquality : α → List α
  pexprNotExists : α → Option α
  hashValue : α → UInt32
  ulHashDedup : α → UInt32
  hashConst : Bool → UInt32
  usedColumns : α → List ColumnSource
  definesColumns : α → Bool
  hasSubquery : α → Bool
  isVolatile : α → Bool

namespace BoolExpr

section Induction

variable {α : Type*}

open BoolExpr

theorem induction {P : BoolExpr α → Prop} (const : ∀ b, P (scalarConstBool b))
    (atom : ∀ a, P (atom a)) (not : ∀ c, P c → P (scalarBoolNot c))
    (boolOp : ∀ op cs, (∀ c∈cs, P c) → P (scalarBoolOp op cs)) (e : BoolExpr α) : P e := by
  apply rec (motive_1 := P) (motive_2 := fun cs => ∀ c∈cs, P c)
  case scalarConstBool => exact const
  case atom => exact atom
  case scalarBoolNot => exact not
  case scalarBoolOp => exact boolOp
  case nil => simp
  case cons => exact fun c cs hc hcs => forall_mem_cons.mpr ⟨hc,hcs⟩

end Induction

section Evaluation

variable {α : Type*}

mutual

def eval (v : α → Truth) : BoolExpr α → Truth
  | scalarConstBool fValue => some fValue
  | atom a => v a
  | scalarBoolNot child => not (eval v child)
  | scalarBoolOp .eboolopAnd children => all (evalList v children)
  | scalarBoolOp .eboolopOr children => any (evalList v children)

def evalList (v : α → Truth) : List (BoolExpr α) → List Truth
  | [] => []
  | child::children => eval v child::evalList v children

end

def Holds (v : α → Truth) (u : Bool) (e : BoolExpr α) : Prop := Truth.Passes u (e.eval v)

end Evaluation

end BoolExpr

section Connectives

variable {β γ : Type*} {op : EBoolOperator} {p : β → Prop} {l : List β}

def EBoolOperator.Combines (op : EBoolOperator) (p : β → Prop) (l : List β) : Prop :=
  match op with
  | .eboolopAnd => ∀ x∈l, p x
  | .eboolopOr => ∃ x∈l, p x

variable {x : β}

theorem combines_singleton : op.Combines p [x] ↔ p x := by
  cases op <;> simp [EBoolOperator.Combines]

def EBoolOperator.Both (op : EBoolOperator) (s t : Prop) : Prop :=
  match op with
  | .eboolopAnd => s ∧ t
  | .eboolopOr => s ∨ t

theorem combines_append : op.Combines p (l++m) ↔ op.Both (op.Combines p l) (op.Combines p m) := by
  cases op with
  | eboolopAnd => simp only [EBoolOperator.Combines,EBoolOperator.Both,forall_mem_append]
  | eboolopOr =>
    simp only [EBoolOperator.Combines,EBoolOperator.Both,mem_append,or_and_right,exists_or]

theorem combines_cons : op.Combines p (x::l) ↔ op.Both (p x) (op.Combines p l) := by
  rw [← singleton_append,combines_append,combines_singleton]

theorem combines_congr (h : ∀ x∈l, ∃ y∈l', p x ↔ q y)
    (h' : ∀ y∈l', ∃ x∈l, p x ↔ q y) : op.Combines p l ↔ op.Combines q l' := by
  cases op with
  | eboolopAnd =>
    constructor
    · intro hall y hy
      obtain ⟨x,hx,hiff⟩ := h' y hy
      exact hiff.mp (hall x hx)
    · intro hall x hx
      obtain ⟨y,hy,hiff⟩ := h x hx
      exact hiff.mpr (hall y hy)
  | eboolopOr =>
    constructor
    · rintro ⟨x,hx,hp⟩
      obtain ⟨y,hy,hiff⟩ := h x hx
      exact ⟨y,hy,hiff.mp hp⟩
    · rintro ⟨y,hy,hq⟩
      obtain ⟨x,hx,hiff⟩ := h' y hy
      exact ⟨x,hx,hiff.mpr hq⟩

end Connectives

namespace BoolExpr

section Readings

variable {α : Type*} {v : α → Truth} {op : EBoolOperator}

theorem evalList_eq : evalList v cs=cs.map (eval v) := by
  induction cs with
  | nil => rfl
  | cons c cs ih => rw [evalList,ih,map_cons]

@[simp] theorem holds_const : Holds v u (scalarConstBool b) ↔ b=true := by
  simp [Holds,eval]

@[simp] theorem holds_not : Holds v u (scalarBoolNot c) ↔ ¬Holds v (!u) c := by
  rw [Holds,eval]
  exact passes_not

@[simp] theorem holds_boolOp : Holds v u (scalarBoolOp op cs) ↔ op.Combines (Holds v u) cs := by
  rw [Holds]
  cases op with
  | eboolopAnd =>
    rw [eval,evalList_eq]
    exact passes_all_map
  | eboolopOr =>
    rw [eval,evalList_eq]
    exact passes_any_map

theorem eval_eq_of_holds (h : ∀ u, Holds v u e ↔ Holds v u e') : e.eval v=e'.eval v :=
  eq_of_passes h

end Readings

section Equality

variable {α : Type*}

mutual

def equals (A : Atoms α) : BoolExpr α → BoolExpr α → Bool
  | scalarConstBool b, scalarConstBool b' => b=b'
  | atom a, atom a' => A.equals a a'
  | scalarBoolNot c, scalarBoolNot c' => equals A c c'
  | scalarBoolOp op cs, scalarBoolOp op' cs' =>
    cs.length=cs'.length && op=op' && fMatchChildrenUnordered A cs cs cs'
  | _, _ => false

def fMatchChildrenUnordered (A : Atoms α) :
    List (BoolExpr α) → List (BoolExpr α) → List (BoolExpr α) → Bool
  | [], _, _ => true
  | c::cs, left, right =>
    left.countP (equals A c)=right.countP (equals A c) && fMatchChildrenUnordered A cs left right

end

variable {op : EBoolOperator} {left right : List (BoolExpr α)}

theorem fMatchChildrenUnordered_iff : fMatchChildrenUnordered A cs left right=true ↔
    ∀ c∈cs, left.countP (equals A c)=right.countP (equals A c) := by
  induction cs with
  | nil => simp [fMatchChildrenUnordered]
  | cons c cs ih => simp [fMatchChildrenUnordered,ih]

attribute [local simp] equals

theorem equals_refl (e : BoolExpr α) : equals A e e=true := by
  induction e using induction with
  | const b => simp
  | atom a => simpa using A.refl a
  | not c ih => simpa using ih
  | boolOp op cs ih => simp [fMatchChildrenUnordered_iff]

theorem equals_boolOp_inv (h : equals A (scalarBoolOp op left) e'=true) :
    ∃ right, e'=scalarBoolOp op right ∧ left.length=right.length ∧
      ∀ c∈left, left.countP (equals A c)=right.countP (equals A c) := by
  cases e' with
  | scalarBoolOp op' right =>
    simp only [equals,Bool.and_eq_true,decide_eq_true_eq,fMatchChildrenUnordered_iff] at h
    obtain ⟨⟨hlen,rfl⟩,hcnt⟩ := h
    exact ⟨right,rfl,hlen,hcnt⟩
  | _ => simp at h

/-- The children of equal operators are equal to each other, where expressions equal to a child are
equal to the same expressions as the child. -/
theorem children_of_equals (hclass : ∀ c∈left, ∀ e', equals A c e'=true → equals A e'=equals A c)
    (hlen : left.length=right.length)
    (hcnt : ∀ c∈left, left.countP (equals A c)=right.countP (equals A c)) :
    (∀ c∈left, ∃ c'∈right, equals A c c'=true) ∧ ∀ c'∈right, ∃ c∈left, equals A c c'=true := by
  constructor
  · intro c hc
    have hpos : 0<left.countP (equals A c) := countP_pos_iff.mpr ⟨c,hc,equals_refl c⟩
    rw [hcnt c hc] at hpos
    exact countP_pos_iff.mp hpos
  · apply exists_class_of_countP_eq (fun c _ => equals_refl c) _ hcnt hlen
    intro a ha b hb x hax hbx
    rw [← hclass a ha x hax,← hclass b hb x hbx]

/-- By induction on the expression, since children are compared in any order. -/
theorem equals_congr (e : BoolExpr α) : ∀ e', equals A e e'=true → equals A e'=equals A e := by
  induction e using induction with
  | const b =>
    intro e' h
    cases e' with
    | scalarConstBool b' =>
      obtain rfl : b=b' := by simpa using h
      rfl
    | _ => simp at h
  | atom a =>
    intro e' h
    cases e' with
    | atom a' =>
      have h : A.equals a a'=true := by simpa using h
      funext x
      cases x with
      | atom b =>
        simp only [equals]
        apply Bool.eq_iff_iff.mpr
        exact ⟨A.trans a a' b h,A.trans a' a b (A.symm a a' h)⟩
      | _ => simp
    | _ => simp at h
  | not c ih =>
    intro e' h
    cases e' with
    | scalarBoolNot c' =>
      have h := ih c' (by simpa using h)
      funext x
      cases x with
      | scalarBoolNot d => simp only [equals,h]
      | _ => simp
    | _ => simp at h
  | boolOp op left ih =>
    intro e' h
    obtain ⟨right,rfl,hlen,hcnt⟩ := equals_boolOp_inv h
    obtain ⟨hleft,hrig⟩ := children_of_equals ih hlen hcnt
    funext x
    cases x with
    | scalarBoolOp op' cs =>
      have hmatch : (∀ c'∈right, right.countP (equals A c')=cs.countP (equals A c')) ↔
          ∀ c∈left, left.countP (equals A c)=cs.countP (equals A c) := by
        constructor
        · intro h c hc
          obtain ⟨c',hc',heq⟩ := hleft c hc
          have h := h c' hc'
          rwa [ih c hc c' heq,← hcnt c hc] at h
        · intro h c' hc'
          obtain ⟨c,hc,heq⟩ := hrig c' hc'
          rw [ih c hc c' heq,← hcnt c hc]
          exact h c hc
      apply Bool.eq_iff_iff.mpr
      simp only [equals,Bool.and_eq_true,decide_eq_true_eq,fMatchChildrenUnordered_iff,hmatch,hlen]
    | _ => simp

theorem equals_symm (h : equals A e e'=true) : equals A e' e=true := by
  rw [equals_congr e e' h]
  exact equals_refl e

end Equality

/-- The assignments under which atoms taken for equal have equal values, and the opposite of an
EXISTS the negated value. -/
structure Respects {α : Type*} (A : Atoms α) (v : α → Truth) : Prop where
  equals : ∀ a b, A.equals a b=true → v a=v b
  cast : ∀ a, ∀ b∈A.pdrgpexprCastEquality a, v b=v a
  notExists : ∀ a, ∀ b∈A.pexprNotExists a, v b=not (v a)

section Values

variable {α : Type*} {v : α → Truth}

/-- Equal expressions have equal values. -/
theorem holds_of_equals (hv : Respects A v) (e : BoolExpr α) :
    ∀ e', equals A e e'=true → ∀ u, (Holds v u e ↔ Holds v u e') := by
  induction e using induction with
  | const b =>
    intro e' h u
    cases e' with
    | scalarConstBool b' =>
      obtain rfl : b=b' := by simpa [equals] using h
      rfl
    | _ => simp [equals] at h
  | atom a =>
    intro e' h u
    cases e' with
    | atom a' => simp only [Holds,eval,hv.equals a a' (by simpa [equals] using h)]
    | _ => simp [equals] at h
  | not c ih =>
    intro e' h u
    cases e' with
    | scalarBoolNot c' => rw [holds_not,holds_not,ih c' (by simpa [equals] using h)]
    | _ => simp [equals] at h
  | boolOp op left ih =>
    intro e' h u
    obtain ⟨right,rfl,hlen,hcnt⟩ := equals_boolOp_inv h
    obtain ⟨hleft,hrig⟩ := children_of_equals (fun c _ => equals_congr c) hlen hcnt
    rw [holds_boolOp,holds_boolOp]
    apply combines_congr
    · intro c hc
      obtain ⟨c',hc',heq⟩ := hleft c hc
      exact ⟨c',hc',ih c hc c' heq u⟩
    · intro c' hc'
      obtain ⟨c,hc,heq⟩ := hrig c' hc'
      exact ⟨c,hc,ih c hc c' heq u⟩

end Values

section Hashing

def hashByte (hash : UInt32) (b : UInt8) : UInt32 := ((hash <<< 5) ^^^ (hash >>> 27)) ^^^ b.toUInt32

/-- The bytes of a number in memory, the low byte first. -/
def bytesOf (x : UInt32) : List UInt8 :=
  [x.toUInt8,(x >>> 8).toUInt8,(x >>> 16).toUInt8,(x >>> 24).toUInt8]

def hashByteArray (byteArray : List UInt8) : UInt32 :=
  byteArray.foldl hashByte byteArray.length.toUInt32

def combineHashes (hash1 hash2 : UInt32) : UInt32 := hashByteArray (bytesOf hash1++bytesOf hash2)

/-- The hash value of an operator, from the numbers of `EopScalarBoolOp` and of the operator. -/
def boolOpHashValue (eboolop : UInt32) : UInt32 :=
  combineHashes (hashByteArray (bytesOf 62)) (hashByteArray (bytesOf eboolop))

def EBoolOperator.hashValue : EBoolOperator → UInt32
  | .eboolopAnd => boolOpHashValue 0
  | .eboolopOr => boolOpHashValue 1

variable {α : Type*}

mutual

/-- The hash value of the factor maps: the order of the children counts. -/
def hashValue (A : Atoms α) : BoolExpr α → UInt32
  | scalarConstBool b => A.hashConst b
  | atom a => A.hashValue a
  | scalarBoolNot c => combineHashes (boolOpHashValue 2) (hashValue A c)
  | scalarBoolOp op cs => (hashValues A cs).foldl combineHashes (EBoolOperator.hashValue op)

def hashValues (A : Atoms α) : List (BoolExpr α) → List UInt32
  | [] => []
  | c::cs => hashValue A c::hashValues A cs

end

/-- The hash value of the sets that remove duplicates: the order of the children of the topmost
operator does not count. -/
def ulHashDedup (A : Atoms α) : BoolExpr α → UInt32
  | scalarConstBool b => A.hashConst b
  | atom a => A.ulHashDedup a
  | scalarBoolNot c => combineHashes (boolOpHashValue 2) (hashValue A c)
  | scalarBoolOp op cs => (hashValues A cs).foldl (· ^^^ ·) (EBoolOperator.hashValue op)

def numChains : UInt32 := 127

def inChain (A : Atoms α) (hashFn : BoolExpr α → UInt32) (key e : BoolExpr α) : Bool :=
  hashFn key%numChains=hashFn e%numChains && equals A key e

end Hashing

section Building

variable {α : Type*} {v : α → Truth} {op : EBoolOperator}

def constOf (op : EBoolOperator) : Bool := op=.eboolopAnd

def fSkippable (op : EBoolOperator) : BoolExpr α → Bool
  | scalarConstBool b => b=constOf op
  | _ => false

def fReducible (op : EBoolOperator) : BoolExpr α → Bool
  | scalarConstBool b => b≠constOf op
  | _ => false

def pexprConjDisj (op : EBoolOperator) (pdrgpexpr : List (BoolExpr α)) : BoolExpr α :=
  if pdrgpexpr.any (fReducible op) then scalarConstBool !constOf op
  else
    match pdrgpexpr.filter (!fSkippable op ·) with
    | [] => scalarConstBool (constOf op)
    | [pexpr] => pexpr
    | pdrgpexprFinal => scalarBoolOp op pdrgpexprFinal

theorem holds_of_skippable (h : fSkippable op e=true) : Holds v u e ↔ op=.eboolopAnd := by
  cases e with
  | scalarConstBool b =>
    obtain rfl : b=constOf op := by simpa [fSkippable] using h
    simp [constOf]
  | _ => simp [fSkippable] at h

theorem combines_filter_skippable :
    op.Combines (Holds v u) (l.filter (!fSkippable op ·)) ↔ op.Combines (Holds v u) l := by
  induction l with
  | nil => rfl
  | cons e l ih =>
    rw [filter_cons]
    split
    next => rw [combines_cons,combines_cons,ih]
    next hskip =>
      have he : Holds v u e ↔ op=.eboolopAnd := holds_of_skippable (by simpa using hskip)
      rw [ih,combines_cons,he]
      cases op <;> simp [EBoolOperator.Both]

theorem holds_pexprConjDisj : Holds v u (pexprConjDisj op l) ↔ op.Combines (Holds v u) l := by
  unfold pexprConjDisj
  split
  next hany =>
    obtain ⟨e,he,hred⟩ := any_eq_true.mp hany
    cases e with
    | scalarConstBool b =>
      cases op with
      | eboolopAnd =>
        obtain rfl : b=false := by simpa [fReducible,constOf] using hred
        simpa [constOf,EBoolOperator.Combines] using ⟨_,he,by simp⟩
      | eboolopOr =>
        obtain rfl : b=true := by simpa [fReducible,constOf] using hred
        simpa [constOf,EBoolOperator.Combines] using ⟨_,he,by simp⟩
    | _ => simp [fReducible] at hred
  next =>
    rw [← combines_filter_skippable]
    split
    next hnil =>
      rw [hnil]
      cases op <;> simp [constOf,EBoolOperator.Combines]
    next e hone => rw [hone,combines_singleton]
    next => rw [holds_boolOp]

end Building

end BoolExpr

namespace BoolExpr

variable {α : Type*}

section Unnesting

mutual

/-- A size that does not grow when a NOT is pushed one level down. -/
def weight : BoolExpr α → Nat
  | scalarConstBool _ => 1
  | atom _ => 1
  | scalarBoolNot c => 2*weight c+1
  | scalarBoolOp _ cs => weightList cs+2

def weightList : List (BoolExpr α) → Nat
  | [] => 0
  | c::cs => weight c+1+weightList cs

end

def EBoolOperator.dual : EBoolOperator → EBoolOperator
  | .eboolopAnd => .eboolopOr
  | .eboolopOr => .eboolopAnd

def pexprPushNotOneLevel (A : Atoms α) : BoolExpr α → BoolExpr α
  | scalarBoolOp op cs => scalarBoolOp (EBoolOperator.dual op) (cs.map scalarBoolNot)
  | atom a =>
    match A.pexprNotExists a with
    | some b => atom b
    | none => scalarBoolNot (atom a)
  | c => scalarBoolNot c

def pexprPushedNot (A : Atoms α) : BoolExpr α → BoolExpr α
  | scalarBoolNot child => pexprPushNotOneLevel A child
  | e => e

def fNot : BoolExpr α → Bool
  | scalarBoolNot _ => true
  | _ => false

theorem weightList_not (cs : List (BoolExpr α)) :
    weightList (cs.map scalarBoolNot)=2*weightList cs := by
  induction cs with
  | nil => rfl
  | cons c cs ih =>
    simp only [map_cons,weightList,weight,ih]
    omega

theorem weight_pexprPushedNot (A : Atoms α) (e : BoolExpr α) :
    weight (pexprPushedNot A e)≤weight e := by
  cases e with
  | scalarBoolNot child =>
    simp only [pexprPushedNot]
    cases child with
    | scalarBoolOp op cs =>
      simp only [pexprPushNotOneLevel,weight,weightList_not]
      omega
    | atom a =>
      rw [pexprPushNotOneLevel]
      split <;> simp [weight]
    | _ => exact Nat.le_refl _
  | _ => exact Nat.le_refl _

mutual

def pexprUnnest (A : Atoms α) (pexpr : BoolExpr α) : BoolExpr α :=
  unnestOperator A (pexprPushedNot A pexpr)
termination_by 2*weight pexpr+1
decreasing_by
  have := weight_pexprPushedNot A pexpr
  omega

def unnestOperator (A : Atoms α) (pexpr : BoolExpr α) : BoolExpr α :=
  match pexpr with
  | scalarBoolNot (scalarBoolNot (scalarBoolNot child)) => scalarBoolNot (pexprUnnest A child)
  | scalarBoolNot child => scalarBoolNot (pexprUnnest A child)
  | scalarBoolOp op cs => scalarBoolOp op (pdrgpexprUnnestChildren A op (cs.any fNot) cs)
  | e => e
termination_by 2*weight pexpr
decreasing_by
  all_goals simp only [weight]; omega

def pdrgpexprUnnestChildren (A : Atoms α) (op : EBoolOperator) (fHasNegatedChild : Bool)
    (cs : List (BoolExpr α)) : List (BoolExpr α) :=
  match cs with
  | [] => []
  | c::cs => unnestChild A op fHasNegatedChild c++pdrgpexprUnnestChildren A op fHasNegatedChild cs
termination_by 2*weightList cs+1
decreasing_by
  all_goals simp only [weightList]; omega

/-- The children of a child with the same operator, or the unnested child; two NOT cancel. -/
def unnestChild (A : Atoms α) (op : EBoolOperator) (fHasNegatedChild : Bool)
    (c : BoolExpr α) : List (BoolExpr α) :=
  match c with
  | scalarBoolOp op' cs =>
    if op'=op then pdrgpexprUnnestChildren A op' (cs.any fNot) cs
    else [pexprUnnest A (scalarBoolOp op' cs)]
  | scalarBoolNot (scalarBoolNot child) =>
    if fHasNegatedChild then [pexprUnnest A child]
    else [pexprUnnest A (scalarBoolNot (scalarBoolNot child))]
  | c => [pexprUnnest A c]
termination_by 2*weight c+2
decreasing_by
  · simp only [weight]; omega
  · omega
  · simp only [weight]; omega
  · omega
  · omega

end

variable {A : Atoms α} {v : α → Truth} {op : EBoolOperator}

theorem combines_dual : (EBoolOperator.dual op).Combines (Holds v u)
    (cs.map scalarBoolNot) ↔ ¬op.Combines (Holds v (!u)) cs := by
  cases op <;> simp [EBoolOperator.dual,EBoolOperator.Combines]

variable (hv : Respects A v)
include hv

theorem holds_pexprPushNotOneLevel (c : BoolExpr α) (u : Bool) :
    Holds v u (pexprPushNotOneLevel A c) ↔ ¬Holds v (!u) c := by
  cases c with
  | scalarBoolOp op cs => rw [pexprPushNotOneLevel,holds_boolOp,holds_boolOp,combines_dual]
  | atom a =>
    rw [pexprPushNotOneLevel]
    split
    next b hb =>
      rw [Holds,eval,hv.notExists a b hb]
      exact Truth.passes_not
    next => exact holds_not
  | _ => exact holds_not

theorem holds_pexprPushedNot (e : BoolExpr α) (u : Bool) :
    Holds v u (pexprPushedNot A e) ↔ Holds v u e := by
  cases e with
  | scalarBoolNot c => rw [pexprPushedNot,holds_pexprPushNotOneLevel hv,holds_not]
  | _ => rfl

/-- Unnesting follows its own recursion, one case for each of its branches. -/
theorem holds_pexprUnnest (e : BoolExpr α) : ∀ u, Holds v u (pexprUnnest A e) ↔ Holds v u e := by
  revert e
  refine (pexprUnnest.mutual_induct A (fun e => ∀ u, Holds v u (pexprUnnest A e) ↔ Holds v u e)
    (fun e => ∀ u, Holds v u (unnestOperator A e) ↔ Holds v u e)
    (fun op f cs => ∀ u, op.Combines (Holds v u) (pdrgpexprUnnestChildren A op f cs) ↔
      op.Combines (Holds v u) cs)
    (fun op f c => ∀ u, op.Combines (Holds v u) (unnestChild A op f c) ↔ Holds v u c)
    ?unnest ?tripleNot ?not ?boolOp ?leaf ?nil ?cons ?same ?other ?doubleNot ?kept ?child).1
  case unnest =>
    intro e ih u
    rw [pexprUnnest,ih,holds_pexprPushedNot hv]
  case tripleNot =>
    intro c ih u
    rw [unnestOperator]
    simp only [holds_not,ih,Bool.not_not,not_not]
  case not =>
    intro c _ ih u
    rw [unnestOperator,holds_not,holds_not,ih]
    assumption
  case boolOp =>
    intro op cs ih u
    rw [unnestOperator,holds_boolOp,holds_boolOp,ih]
  case leaf =>
    intro e h3 h1 hop u
    rw [unnestOperator]
    all_goals assumption
  case nil =>
    intro op f u
    rw [pdrgpexprUnnestChildren]
  case cons =>
    intro op f c cs hc hcs u
    rw [pdrgpexprUnnestChildren,combines_append,combines_cons,hc,hcs]
  case same =>
    intro f op cs ih u
    rw [unnestChild,if_pos rfl,ih,holds_boolOp]
  case other =>
    intro op f op' cs hop ih u
    rw [unnestChild,if_neg hop,combines_singleton,ih]
  case doubleNot =>
    intro op c ih u
    rw [unnestChild,if_pos rfl,combines_singleton,ih,holds_not,holds_not,Bool.not_not,not_not]
  case kept =>
    intro op f c hf ih u
    rw [unnestChild,if_neg hf,combines_singleton,ih]
  case child =>
    intro op f c hop hnot ih u
    rw [unnestChild,combines_singleton,ih]
    all_goals assumption

end Unnesting

section Duplicates

def insertDedup (A : Atoms α) (phsexpr : List (BoolExpr α)) (e : BoolExpr α) : List (BoolExpr α) :=
  if phsexpr.any (inChain A (ulHashDedup A) · e) then phsexpr else e::phsexpr

def insertCasts (A : Atoms α) (phsexpr : List (BoolExpr α)) : BoolExpr α → List (BoolExpr α)
  | atom a => (A.pdrgpexprCastEquality a).foldl (fun s b => insertDedup A s (atom b)) phsexpr
  | _ => phsexpr

def dedupLoop (A : Atoms α) : List (BoolExpr α) → List (BoolExpr α) → List (BoolExpr α)
  | _, [] => []
  | phsexpr, e::es =>
    let rest := dedupLoop A (insertCasts A (insertDedup A phsexpr e) e) es
    if phsexpr.any (inChain A (ulHashDedup A) · e) then rest else e::rest

def pdrgpexprDedup (A : Atoms α) (pdrgpexpr : List (BoolExpr α)) : List (BoolExpr α) :=
  dedupLoop A [] pdrgpexpr

mutual

/-- The expression without duplicate children of AND and OR; an operator with one child left is
replaced by it. -/
def pexprDedupChildren (A : Atoms α) : BoolExpr α → BoolExpr α
  | scalarBoolNot c => scalarBoolNot (pexprDedupChildren A c)
  | scalarBoolOp op cs =>
    match pdrgpexprDedup A (dedupEach A cs) with
    | [c] => c
    | cs => scalarBoolOp op cs
  | scalarConstBool b => scalarConstBool b
  | atom a => atom a

def dedupEach (A : Atoms α) : List (BoolExpr α) → List (BoolExpr α)
  | [] => []
  | c::cs => pexprDedupChildren A c::dedupEach A cs

end

variable {A : Atoms α} {v : α → Truth} {op : EBoolOperator} {e : BoolExpr α}

/-- Everything in the set holds together with an expression of the list. -/
def Covered (v : α → Truth) (u : Bool) (phsexpr seen : List (BoolExpr α)) : Prop :=
  ∀ k∈phsexpr, ∃ x∈seen, Holds v u k ↔ Holds v u x

theorem Covered.insert (h : Covered v u phsexpr seen) (he : ∃ x∈seen, Holds v u e ↔ Holds v u x) :
    Covered v u (insertDedup A phsexpr e) seen := by
  unfold insertDedup
  split
  next => exact h
  next => exact forall_mem_cons.mpr ⟨he,h⟩

theorem Covered.insertCasts (hv : Respects A v) (h : Covered v u phsexpr seen)
    (he : ∃ x∈seen, Holds v u e ↔ Holds v u x) : Covered v u (insertCasts A phsexpr e) seen := by
  cases e with
  | atom a =>
    have hcasts : ∀ l : List α, (∀ b∈l, v b=v a) →
        ∀ {s}, Covered v u s seen → Covered v u (l.foldl (fun s b => insertDedup A s (atom b)) s)
          seen := by
      intro l hl
      induction l with
      | nil => exact fun hs => hs
      | cons b l ih =>
        obtain ⟨hb,hl⟩ := forall_mem_cons.mp hl
        intro s hs
        apply ih hl
        apply hs.insert
        obtain ⟨x,hx,hiff⟩ := he
        refine ⟨x,hx,?_⟩
        rw [← hiff,Holds,Holds,eval,eval,hb]
    exact hcasts _ (hv.cast a) h
  | _ => exact h

/-- Each element has one of equal value among those that stay. -/
theorem dedupLoop_covers (hv : Respects A v) (es : List (BoolExpr α))
    (h : Covered v u phsexpr seen) :
    ∀ e∈es, ∃ x∈seen++dedupLoop A phsexpr es, Holds v u e ↔ Holds v u x := by
  induction es generalizing phsexpr seen with
  | nil => simp
  | cons e es ih =>
    rw [dedupLoop]
    split
    next hin =>
      obtain ⟨k,hk,hkey⟩ := any_eq_true.mp hin
      have hequal : equals A k e=true := by simp_all [inChain]
      obtain ⟨x,hx,hiff⟩ := h k hk
      have he : ∃ x∈seen, Holds v u e ↔ Holds v u x :=
        ⟨x,hx,(holds_of_equals hv k e hequal u).symm.trans hiff⟩
      refine forall_mem_cons.mpr ⟨?_,ih ((h.insert he).insertCasts hv he)⟩
      obtain ⟨x,hx,hiff⟩ := he
      exact ⟨x,mem_append_left _ hx,hiff⟩
    next =>
      have hseen : Covered v u phsexpr (seen++[e]) := fun k hk => by
        obtain ⟨x,hx,hiff⟩ := h k hk
        exact ⟨x,mem_append_left _ hx,hiff⟩
      have he : ∃ x∈seen++[e], Holds v u e ↔ Holds v u x := ⟨e,by simp,Iff.rfl⟩
      have hrest := ih ((hseen.insert (A := A) he).insertCasts hv he)
      rw [append_assoc,singleton_append] at hrest
      exact forall_mem_cons.mpr ⟨⟨e,by simp,Iff.rfl⟩,hrest⟩

theorem dedupLoop_subset (es : List (BoolExpr α)) : ∀ e∈dedupLoop A phsexpr es, e∈es := by
  induction es generalizing phsexpr with
  | nil => simp [dedupLoop]
  | cons e es ih =>
    rw [dedupLoop]
    split
    next => exact fun x hx => mem_cons_of_mem e (ih x hx)
    next =>
      exact forall_mem_cons.mpr ⟨mem_cons_self,fun x hx => mem_cons_of_mem e (ih x hx)⟩

theorem combines_pdrgpexprDedup (hv : Respects A v) :
    op.Combines (Holds v u) (pdrgpexprDedup A cs) ↔ op.Combines (Holds v u) cs := by
  apply combines_congr
  · exact fun x hx => ⟨x,dedupLoop_subset cs x hx,Iff.rfl⟩
  · intro y hy
    have hnone : Covered v u ([] : List (BoolExpr α)) [] := by simp [Covered]
    obtain ⟨x,hx,hiff⟩ := dedupLoop_covers hv cs hnone y hy
    exact ⟨x,hx,hiff.symm⟩

theorem dedupEach_eq : dedupEach A cs=cs.map (pexprDedupChildren A) := by
  induction cs with
  | nil => rfl
  | cons c cs ih => rw [dedupEach,ih,map_cons]

theorem holds_pexprDedupChildren (hv : Respects A v) (e : BoolExpr α) :
    ∀ u, Holds v u (pexprDedupChildren A e) ↔ Holds v u e := by
  induction e using BoolExpr.induction with
  | const b | atom a => exact fun u => Iff.rfl
  | not c ih =>
    intro u
    rw [pexprDedupChildren,holds_not,holds_not,ih]
  | boolOp op cs ih =>
    intro u
    have hchil : op.Combines (Holds v u) (pdrgpexprDedup A (dedupEach A cs)) ↔
        op.Combines (Holds v u) cs := by
      rw [combines_pdrgpexprDedup hv,dedupEach_eq]
      apply combines_congr
      · intro x hx
        obtain ⟨c,hc,rfl⟩ := mem_map.mp hx
        exact ⟨c,hc,ih c hc u⟩
      · exact fun c hc => ⟨_,mem_map_of_mem hc,ih c hc u⟩
    rw [pexprDedupChildren,holds_boolOp,← hchil]
    split
    next c hone => rw [hone,combines_singleton]
    next => rw [holds_boolOp]

end Duplicates

section Operands

mutual

def Filled : BoolExpr α → Prop
  | scalarConstBool _ => True
  | atom _ => True
  | scalarBoolNot c => Filled c
  | scalarBoolOp _ cs => cs≠[] ∧ FilledEach cs

def FilledEach : List (BoolExpr α) → Prop
  | [] => True
  | c::cs => Filled c ∧ FilledEach cs

end

variable {A : Atoms α} {op : EBoolOperator} {e : BoolExpr α}

theorem filledEach_iff : FilledEach cs ↔ ∀ c∈cs, Filled c := by
  induction cs with
  | nil => simp [FilledEach]
  | cons c cs ih => simp [FilledEach,ih]

theorem filled_boolOp : Filled (scalarBoolOp op cs) ↔ cs≠[] ∧ ∀ c∈cs, Filled c := by
  rw [Filled,filledEach_iff]

theorem filled_pexprPushedNot (h : Filled e) : Filled (pexprPushedNot A e) := by
  cases e with
  | scalarBoolNot child =>
    rw [pexprPushedNot]
    cases child with
    | scalarBoolOp op cs =>
      have h : Filled (scalarBoolOp op cs) := h
      obtain ⟨hne,hcs⟩ := filled_boolOp.mp h
      apply filled_boolOp.mpr
      refine ⟨by simpa using hne,fun c hc => ?_⟩
      obtain ⟨child,hch,rfl⟩ := mem_map.mp hc
      exact hcs child hch
    | atom a =>
      rw [pexprPushNotOneLevel]
      split <;> trivial
    | _ => exact h
  | _ => exact h

/-- Unnesting leaves no operator without children. -/
theorem filled_pexprUnnest (e : BoolExpr α) : Filled e → Filled (pexprUnnest A e) := by
  revert e
  refine (pexprUnnest.mutual_induct A (fun e => Filled e → Filled (pexprUnnest A e))
    (fun e => Filled e → Filled (unnestOperator A e))
    (fun op f cs => (∀ c∈cs, Filled c) → (cs≠[] → pdrgpexprUnnestChildren A op f cs≠[]) ∧
      ∀ c∈pdrgpexprUnnestChildren A op f cs, Filled c)
    (fun op f c => Filled c → unnestChild A op f c≠[] ∧ ∀ x∈unnestChild A op f c, Filled x)
    ?unnest ?tripleNot ?not ?boolOp ?leaf ?nil ?cons ?same ?other ?doubleNot ?kept ?child).1
  case unnest =>
    intro e ih h
    rw [pexprUnnest]
    exact ih (filled_pexprPushedNot h)
  case tripleNot =>
    intro c ih h
    rw [unnestOperator]
    exact ih h
  case not =>
    intro c hc ih h
    rw [unnestOperator]
    · exact ih h
    · exact hc
  case boolOp =>
    intro op cs ih h
    obtain ⟨hne,hcs⟩ := filled_boolOp.mp h
    rw [unnestOperator]
    exact filled_boolOp.mpr ⟨(ih hcs).1 hne,(ih hcs).2⟩
  case leaf =>
    intro e h3 h1 hop h
    rw [unnestOperator]
    all_goals assumption
  case nil =>
    intro op f _
    rw [pdrgpexprUnnestChildren]
    simp
  case cons =>
    intro op f c cs hc hcs h
    obtain ⟨h,hrest⟩ := forall_mem_cons.mp h
    rw [pdrgpexprUnnestChildren]
    exact ⟨fun _ => by simp [(hc h).1],forall_mem_append.mpr ⟨(hc h).2,(hcs hrest).2⟩⟩
  case same =>
    intro f op cs ih h
    obtain ⟨hne,hcs⟩ := filled_boolOp.mp h
    rw [unnestChild,if_pos rfl]
    exact ⟨(ih hcs).1 hne,(ih hcs).2⟩
  case other =>
    intro op f op' cs hop ih h
    rw [unnestChild,if_neg hop]
    simpa using ih h
  case doubleNot =>
    intro op c ih h
    rw [unnestChild,if_pos rfl]
    simpa using ih h
  case kept =>
    intro op f c hf ih h
    rw [unnestChild,if_neg hf]
    simpa using ih h
  case child =>
    intro op f c hop hnot ih h
    rw [unnestChild]
    · simpa using ih h
    all_goals assumption

theorem pdrgpexprDedup_ne_nil (h : cs≠[]) : pdrgpexprDedup A cs≠[] := by
  cases cs with
  | nil => exact absurd rfl h
  | cons c cs => simp [pdrgpexprDedup,dedupLoop]

theorem filled_pexprDedupChildren (e : BoolExpr α) : Filled e → Filled (pexprDedupChildren A e) := by
  induction e using BoolExpr.induction with
  | const b | atom a => exact fun h => h
  | not c ih => exact ih
  | boolOp op cs ih =>
    intro h
    obtain ⟨hne,hcs⟩ := filled_boolOp.mp h
    have hkept : ∀ c∈pdrgpexprDedup A (dedupEach A cs), Filled c := by
      intro c hc
      have hc := dedupLoop_subset _ c hc
      rw [dedupEach_eq] at hc
      obtain ⟨child,hch,rfl⟩ := mem_map.mp hc
      exact ih child hch (hcs child hch)
    have hsome : pdrgpexprDedup A (dedupEach A cs)≠[] :=
      pdrgpexprDedup_ne_nil (by simpa [dedupEach_eq] using hne)
    rw [pexprDedupChildren]
    split
    next c hone => exact hkept c (by simp [hone])
    next => exact filled_boolOp.mpr ⟨hsome,hkept⟩

end Operands

end BoolExpr

end WarehousePG.Orca
