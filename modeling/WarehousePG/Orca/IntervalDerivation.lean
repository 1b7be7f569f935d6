import WarehousePG.Framework.Kleene
import WarehousePG.Orca.IntervalAlgebra
import Mathlib.Algebra.Group.Nat.Defs
import Mathlib.Data.List.Sort

namespace WarehousePG.Orca

open Framework Truth List

inductive EArrCmpType where
  | earrcmpAny
  | earrcmpAll
  deriving DecidableEq

inductive EBoolTest where
  | ebtIsTrue
  | ebtIsNotTrue
  | ebtIsFalse
  | ebtIsNotFalse
  | ebtIsUnknown
  | ebtIsNotUnknown
  deriving DecidableEq

/-- The scalar expressions that constraints are derived from, and those that are built from
constraints. Constants of comparisons are not NULL; a NULL among them is `none` elsewhere. -/
inductive CExpression (D : Type*) where
  | scalarConst (value : Bool)
  | scalarIdent (colref : CColRef)
  | scalarNullTest (colref : CColRef)
  | scalarIsDistinctFrom (colref : CColRef) (datum : Option D)
  | scalarCmp (cmpType : ECmpType) (colref : CColRef) (datum : D)
  | scalarCmpCol (cmpType : ECmpType) (left right : CColRef)
  | scalarArrayCmp (cmpType : ECmpType) (earrcmpt : EArrCmpType) (colref : CColRef)
      (array : List (Option D))
  | scalarBooleanTest (ebt : EBoolTest) (child : CExpression D)
  | scalarBoolAnd (children : List (CExpression D))
  | scalarBoolOr (children : List (CExpression D))
  | scalarBoolNot (child : CExpression D)

namespace CExpression

variable {D : Type*}

def isLeaf : CExpression D → Bool
  | .scalarBooleanTest _ _ => false
  | .scalarBoolAnd _ => false
  | .scalarBoolOr _ => false
  | .scalarBoolNot _ => false
  | _ => true

theorem induction {P : CExpression D → Prop} (leaf : ∀ e, e.isLeaf=true → P e)
    (booleanTest : ∀ ebt c, P c → P (scalarBooleanTest ebt c))
    (boolAnd : ∀ cs, (∀ c∈cs, P c) → P (scalarBoolAnd cs))
    (boolOr : ∀ cs, (∀ c∈cs, P c) → P (scalarBoolOr cs))
    (boolNot : ∀ c, P c → P (scalarBoolNot c)) (e : CExpression D) : P e := by
  apply CExpression.rec (motive_1 := P) (motive_2 := fun cs => ∀ c∈cs, P c)
  case scalarConst | scalarIdent | scalarNullTest | scalarIsDistinctFrom | scalarCmp
      | scalarCmpCol | scalarArrayCmp => intros; exact leaf _ rfl
  case scalarBooleanTest => exact booleanTest
  case scalarBoolAnd => exact boolAnd
  case scalarBoolOr => exact boolOr
  case scalarBoolNot => exact boolNot
  case nil => simp
  case cons => exact fun c cs hc hcs => by simpa using ⟨hc,hcs⟩

end CExpression

mutual

def CExpression.subexprs {D : Type*} : CExpression D → List (CExpression D)
  | .scalarBooleanTest ebt child => .scalarBooleanTest ebt child::child.subexprs
  | .scalarBoolAnd children => .scalarBoolAnd children::subexprsList children
  | .scalarBoolOr children => .scalarBoolOr children::subexprsList children
  | .scalarBoolNot child => .scalarBoolNot child::child.subexprs
  | .scalarConst value => [.scalarConst value]
  | .scalarIdent colref => [.scalarIdent colref]
  | .scalarNullTest colref => [.scalarNullTest colref]
  | .scalarIsDistinctFrom colref datum => [.scalarIsDistinctFrom colref datum]
  | .scalarCmp cmpType colref datum => [.scalarCmp cmpType colref datum]
  | .scalarCmpCol cmpType left right => [.scalarCmpCol cmpType left right]
  | .scalarArrayCmp cmpType earrcmpt colref array => [.scalarArrayCmp cmpType earrcmpt colref array]

def subexprsList {D : Type*} : List (CExpression D) → List (CExpression D)
  | [] => []
  | child::children => child.subexprs++subexprsList children

end

section Subexpressions

variable {D : Type*} {c : CExpression D} {cs : List (CExpression D)}

theorem mem_subexprsList {s : CExpression D} : s∈subexprsList cs ↔ ∃ c∈cs, s∈c.subexprs := by
  induction cs with
  | nil => simp [subexprsList]
  | cons c cs ih => simp [subexprsList,ih]

theorem self_mem_subexprs (e : CExpression D) : e∈e.subexprs := by
  cases e <;> simp [CExpression.subexprs]

theorem subexprs_leaf {e : CExpression D} (he : e.isLeaf=true) : e.subexprs=[e] := by
  cases e with
  | scalarBooleanTest | scalarBoolAnd | scalarBoolOr | scalarBoolNot => cases he
  | _ => simp [CExpression.subexprs]

theorem subexprs_and (hc : c∈cs) :
    ∀ s∈c.subexprs, s∈(CExpression.scalarBoolAnd cs).subexprs := fun s hs => by
  rw [CExpression.subexprs]
  exact mem_cons_of_mem _ (mem_subexprsList.mpr ⟨c,hc,hs⟩)

theorem subexprs_or (hc : c∈cs) :
    ∀ s∈c.subexprs, s∈(CExpression.scalarBoolOr cs).subexprs := fun s hs => by
  rw [CExpression.subexprs]
  exact mem_cons_of_mem _ (mem_subexprsList.mpr ⟨c,hc,hs⟩)

theorem subexprs_not : ∀ s∈c.subexprs, s∈(CExpression.scalarBoolNot c).subexprs := fun s hs => by
  rw [CExpression.subexprs]
  exact mem_cons_of_mem _ hs

theorem subexprs_test {ebt : EBoolTest} :
    ∀ s∈c.subexprs, s∈(CExpression.scalarBooleanTest ebt c).subexprs := fun s hs => by
  rw [CExpression.subexprs]
  exact mem_cons_of_mem _ hs

theorem subexprs_trans (e : CExpression D) : ∀ s∈e.subexprs, ∀ s'∈s.subexprs, s'∈e.subexprs := by
  induction e using CExpression.induction with
  | leaf e he => simp [subexprs_leaf he]
  | booleanTest ebt c ih =>
    intro s hs s' hs'
    rw [CExpression.subexprs] at hs
    obtain heq | hs := mem_cons.mp hs
    · exact heq ▸ hs'
    · exact subexprs_test s' (ih s hs s' hs')
  | boolAnd cs ih =>
    intro s hs s' hs'
    rw [CExpression.subexprs] at hs
    obtain heq | hs := mem_cons.mp hs
    · exact heq ▸ hs'
    · obtain ⟨c,hc,hs⟩ := mem_subexprsList.mp hs
      exact subexprs_and hc s' (ih c hc s hs s' hs')
  | boolOr cs ih =>
    intro s hs s' hs'
    rw [CExpression.subexprs] at hs
    obtain heq | hs := mem_cons.mp hs
    · exact heq ▸ hs'
    · obtain ⟨c,hc,hs⟩ := mem_subexprsList.mp hs
      exact subexprs_or hc s' (ih c hc s hs s' hs')
  | boolNot c ih =>
    intro s hs s' hs'
    rw [CExpression.subexprs] at hs
    obtain heq | hs := mem_cons.mp hs
    · exact heq ▸ hs'
    · exact subexprs_not s' (ih s hs s' hs')

end Subexpressions

section Evaluation

variable {D : Type*} [LinearOrder D]

def cmpHolds (cmpType : ECmpType) (x y : D) : Bool :=
  match cmpType with
  | .ecmptEq => x=y
  | .ecmptNEq => x≠y
  | .ecmptL => x<y
  | .ecmptLEq => x≤y
  | .ecmptG => y<x
  | .ecmptGEq => y≤x
  | .ecmptIDF => x≠y
  | .ecmptOther => false

def evalCmp (cmpType : ECmpType) (v w : Option D) : Truth :=
  match v, w with
  | some x, some y => some (cmpHolds cmpType x y)
  | _, _ => none

def evalArrayCmp (cmpType : ECmpType) (earrcmpt : EArrCmpType) (v : Option D)
    (array : List (Option D)) : Truth :=
  match earrcmpt with
  | .earrcmpAny => any (array.map (evalCmp cmpType v))
  | .earrcmpAll => all (array.map (evalCmp cmpType v))

def evalBooleanTest (ebt : EBoolTest) (t : Truth) : Truth :=
  match ebt with
  | .ebtIsTrue => some (t=some true)
  | .ebtIsNotTrue => some (t≠some true)
  | .ebtIsFalse => some (t=some false)
  | .ebtIsNotFalse => some (t≠some false)
  | .ebtIsUnknown => some (t=none)
  | .ebtIsNotUnknown => some (t≠none)

variable [BoolDatums D]

mutual

/-- The value of an expression on a row, in the three-valued logic of SQL. -/
def CExpression.eval (row : CColRef → Option D) : CExpression D → Truth
  | .scalarConst value => some value
  | .scalarIdent colref => (row colref).map fun x => decide (x=BoolDatums.datumTrue)
  | .scalarNullTest colref => some (row colref).isNone
  | .scalarIsDistinctFrom colref datum => some (row colref≠datum)
  | .scalarCmp cmpType colref datum => evalCmp cmpType (row colref) (some datum)
  | .scalarCmpCol cmpType left right => evalCmp cmpType (row left) (row right)
  | .scalarArrayCmp cmpType earrcmpt colref array => evalArrayCmp cmpType earrcmpt (row colref) array
  | .scalarBooleanTest ebt child => evalBooleanTest ebt (child.eval row)
  | .scalarBoolAnd children => all (evalList row children)
  | .scalarBoolOr children => any (evalList row children)
  | .scalarBoolNot child => not (child.eval row)

def evalList (row : CColRef → Option D) : List (CExpression D) → List Truth
  | [] => []
  | child::children => child.eval row::evalList row children

end

theorem evalList_eq (row : CColRef → Option D) (children : List (CExpression D)) :
    evalList row children=children.map (·.eval row) := by
  induction children with
  | nil => rfl
  | cons child children ih => rw [evalList,ih,map_cons]

end Evaluation

namespace CExpression

variable {D : Type*} [LinearOrder D] [BoolDatums D] {row : CColRef → Option D} {u : Bool}
  {c : CExpression D} {cs : List (CExpression D)}

theorem passes_boolAnd :
    Truth.Passes u ((scalarBoolAnd cs).eval row) ↔ ∀ c∈cs, Truth.Passes u (c.eval row) := by
  rw [eval,evalList_eq]
  exact passes_all_map

theorem passes_boolOr :
    Truth.Passes u ((scalarBoolOr cs).eval row) ↔ ∃ c∈cs, Truth.Passes u (c.eval row) := by
  rw [eval,evalList_eq]
  exact passes_any_map

theorem passes_boolNot :
    Truth.Passes u ((scalarBoolNot c).eval row) ↔ ¬Truth.Passes (!u) (c.eval row) := by
  rw [eval]
  exact passes_not

end CExpression

open ERangeInclusion CConstraintInterval CRange

/-- The settings that the derivation reads: the trace flag for array constraints, and above which
length a list is skipped. -/
structure CHint where
  eopttraceArrayConstraints : Bool
  ulArrayIntervalThreshold : Nat

/-- The counter of lists that were skipped, an unsigned number of 32 bits. -/
def noteArrayCnstrBailout (ulArrayCnstrBailouts : Nat) : Nat := (ulArrayCnstrBailouts+1)%2^32

variable {D : Type*} [LinearOrder D]

section Leaves

def pciRangeFromColConstCmp (cmpType : ECmpType) (datum : D) : Option (List (CRange D)) :=
  match cmpType with
  | .ecmptOther => none
  | .ecmptNEq => some [ofCmp .ecmptL datum,ofCmp .ecmptG datum]
  | .ecmptIDF => some [ofCmp .ecmptL datum,ofCmp .ecmptG datum]
  | cmpType => some [ofCmp cmpType datum]

def pciIntervalFromColConstCmp (colref : CColRef) (cmpType : ECmpType) (datum : D)
    (inferNullsAs : Bool) : Option (CConstraintInterval D) :=
  (pciRangeFromColConstCmp cmpType datum).map fun pdrgprng => ⟨colref,pdrgprng,inferNullsAs⟩

def dropRepeats (prev : D) : List D → List D
  | [] => []
  | datum::datums => if datum=prev then dropRepeats prev datums else datum::dropRepeats datum datums

def datumSortedSet (array : List (Option D)) : List D :=
  match (array.filterMap id).insertionSort (· ≤ ·) with
  | [] => []
  | datum::datums => datum::dropRepeats datum datums

def fArrayHasNullConst (array : List (Option D)) : Bool := array.any (·.isNone)

def notInRanges (prev : Option D) : List D → List (CRange D)
  | [] => [⟨prev,eriExcluded,none,eriExcluded⟩]
  | datum::datums => ⟨prev,eriExcluded,some datum,eriExcluded⟩::notInRanges (some datum) datums

variable [BoolDatums D]

def pciFromSortedSet (colref : CColRef) (cmpType : ECmpType) (array : List (Option D))
    (inferNullsAs : Bool) : Option (CConstraintInterval D) :=
  if cmpType=.ecmptEq then
    if inferNullsAs && fArrayHasNullConst array then pciUnbounded colref true
    else some ⟨colref,(datumSortedSet array).map (ofCmp .ecmptEq),inferNullsAs⟩
  else if (datumSortedSet array).isEmpty then
    if inferNullsAs then pciUnbounded colref true else some ⟨colref,[],false⟩
  else if fArrayHasNullConst array && !inferNullsAs then some ⟨colref,[],false⟩
  else some ⟨colref,notInRanges none (datumSortedSet array),inferNullsAs⟩

/-- A list above the threshold without NULL constants is skipped and counted; an empty list is
skipped without being counted. -/
def pcnstrIntervalFromScalarArrayCmp (hint : CHint) (colref : CColRef) (cmpType : ECmpType)
    (array : List (Option D)) (inferNullsAs : Bool) (bailouts : Nat) :
    Option (CConstraintInterval D) × Nat :=
  if cmpType≠.ecmptEq ∧ cmpType≠.ecmptNEq then (none,bailouts)
  else if array.length=0 then (none,bailouts)
  else if hint.ulArrayIntervalThreshold<array.length ∧ ¬fArrayHasNullConst array then
    (none,noteArrayCnstrBailout bailouts)
  else (pciFromSortedSet colref cmpType array inferNullsAs,bailouts)

def pciIntervalFromScalarIDF (colref : CColRef) (datum : Option D) :
    Option (CConstraintInterval D) :=
  match datum with
  | none => some (CConstraintInterval.mk colref [] true).pciComplement
  | some datum =>
    (pciRangeFromColConstCmp .ecmptIDF datum).map fun pdrgprng => ⟨colref,pdrgprng,true⟩

end Leaves

def unionPairs : List (CConstraintInterval D) → List (CConstraintInterval D)
  | pci1::pci2::constraints => pci1.pciUnion pci2::unionPairs constraints
  | constraints => constraints

theorem length_unionPairs_le (l : List (CConstraintInterval D)) :
    (unionPairs l).length≤l.length := by
  fun_induction unionPairs l with
  | case1 pci1 pci2 constraints ih => simpa using by omega
  | case2 => exact Nat.le_refl _

def unionInPairs : List (CConstraintInterval D) → Option (CConstraintInterval D)
  | [] => none
  | [pci] => some pci
  | pci1::pci2::constraints => unionInPairs (unionPairs (pci1::pci2::constraints))
termination_by l => l.length
decreasing_by
  have := length_unionPairs_le constraints
  simp only [unionPairs,List.length_cons]
  omega

def pciAnd (pci pciChild : Option (CConstraintInterval D)) : Option (CConstraintInterval D) :=
  match pci, pciChild with
  | some pci, some pciChild => some (pci.pciIntersect pciChild)
  | none, some pciChild => some pciChild
  | pci, none => pci

variable [BoolDatums D]

mutual

/-- The interval of a column that is derived from an expression over it, and the counter of
skipped lists after the derivation. -/
def pciIntervalFromScalarExpr (hint : CHint) (colref : CColRef) :
    CExpression D → Bool → Nat → Option (CConstraintInterval D) × Nat
  | .scalarNullTest _, _, n => (some ⟨colref,[],true⟩,n)
  | .scalarBooleanTest ebt child, _, n =>
    match ebt with
    | .ebtIsTrue => pciIntervalFromScalarExpr hint colref child false n
    | .ebtIsNotFalse => pciIntervalFromScalarExpr hint colref child true n
    | .ebtIsNotTrue =>
      let r := pciIntervalFromScalarExpr hint colref child false n
      (r.1.map (·.pciComplement),r.2)
    | .ebtIsFalse =>
      let r := pciIntervalFromScalarExpr hint colref child true n
      (r.1.map (·.pciComplement),r.2)
    | .ebtIsUnknown =>
      match child with
      | .scalarIdent _ => (some ⟨colref,[],true⟩,n)
      | _ => (none,n)
    | .ebtIsNotUnknown =>
      match child with
      | .scalarIdent _ => (some (CConstraintInterval.mk colref [] true).pciComplement,n)
      | _ => (none,n)
  | .scalarBoolAnd children, inferNullsAs, n =>
    pciIntervalFromScalarBoolAnd hint colref children inferNullsAs none n
  | .scalarBoolOr children, inferNullsAs, n =>
    let r := pciChildrenFromScalarBoolOr hint colref children inferNullsAs n
    (r.1.bind unionInPairs,r.2)
  | .scalarBoolNot child, inferNullsAs, n =>
    let r := pciIntervalFromScalarExpr hint colref child (!inferNullsAs) n
    if r.2=n then (r.1.map (·.pciComplement),r.2) else (none,r.2)
  | .scalarIdent _, inferNullsAs, n =>
    (some ⟨colref,[ofCmp .ecmptEq BoolDatums.datumTrue],inferNullsAs⟩,n)
  | .scalarCmp cmpType _ datum, inferNullsAs, n =>
    (pciIntervalFromColConstCmp colref cmpType datum inferNullsAs,n)
  | .scalarCmpCol _ _ _, _, n => (none,n)
  | .scalarIsDistinctFrom _ datum, _, n => (pciIntervalFromScalarIDF colref datum,n)
  | .scalarConst value, _, n =>
    (if value then pciUnbounded colref true else some ⟨colref,[],false⟩,n)
  | .scalarArrayCmp cmpType _ _ array, inferNullsAs, n =>
    if hint.eopttraceArrayConstraints then
      pcnstrIntervalFromScalarArrayCmp hint colref cmpType array inferNullsAs n
    else (none,n)

def pciIntervalFromScalarBoolAnd (hint : CHint) (colref : CColRef) :
    List (CExpression D) → Bool → Option (CConstraintInterval D) → Nat →
      Option (CConstraintInterval D) × Nat
  | [], _, pci, n => (pci,n)
  | child::children, inferNullsAs, pci, n =>
    let r := pciIntervalFromScalarExpr hint colref child inferNullsAs n
    pciIntervalFromScalarBoolAnd hint colref children inferNullsAs (pciAnd pci r.1) r.2

def pciChildrenFromScalarBoolOr (hint : CHint) (colref : CColRef) :
    List (CExpression D) → Bool → Nat → Option (List (CConstraintInterval D)) × Nat
  | [], _, n => (some [],n)
  | child::children, inferNullsAs, n =>
    let r := pciIntervalFromScalarExpr hint colref child inferNullsAs n
    match r.1 with
    | none => (none,r.2)
    | some pciChild =>
      let rest := pciChildrenFromScalarBoolOr hint colref children inferNullsAs r.2
      (rest.1.map (pciChild::·),rest.2)

end

end WarehousePG.Orca
