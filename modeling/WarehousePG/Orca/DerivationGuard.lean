import Mathlib.Algebra.GroupWithZero.Nat
import WarehousePG.Orca.DerivationSound

namespace WarehousePG.Orca

open Framework ERangeInclusion CConstraintInterval CExpression List Option Nat

section Conditions

/-- What is derived from an expression: nothing, an interval for the whole of it, or an interval
that some conjuncts in it had no part in. -/
inductive Extent where
  | nothing
  | whole
  | part
  deriving DecidableEq

namespace Extent

def ofAnd (l : List Extent) : Extent :=
  if ∀ x∈l, x=nothing then nothing else if ∀ x∈l, x=whole then whole else part

def ofOr (l : List Extent) : Extent :=
  if nothing∈l then nothing else if ∀ x∈l, x=whole then whole else part

theorem ofAnd_eq_nothing : ofAnd l=nothing ↔ ∀ x∈l, x=nothing := by
  unfold ofAnd
  split_ifs with hnone hall
  · exact iff_of_true rfl hnone
  · exact iff_of_false nofun hnone
  · exact iff_of_false nofun hnone

theorem ofAnd_eq_whole (h : ofAnd l=whole) : ∀ x∈l, x=whole := by
  unfold ofAnd at h
  split_ifs at h with hnone hall
  exact hall

theorem ofOr_eq_nothing : ofOr l=nothing ↔ nothing∈l := by
  unfold ofOr
  split_ifs with h <;> simp [h]

theorem ofOr_eq_whole (h : ofOr l=whole) : ∀ x∈l, x=whole := by
  unfold ofOr at h
  split_ifs at h with hnone hall
  exact hall

theorem eq_whole {x : Extent} (hsome : x≠nothing) (hpart : x≠part) : x=whole := by
  cases x with
  | nothing => exact absurd rfl hsome
  | whole => rfl
  | part => exact absurd rfl hpart

end Extent

/-- The lists that are skipped in an OR, which is given up at the first operand without interval. -/
def orSkipped : List (Extent × Nat) → Nat
  | [] => 0
  | (.nothing,k)::_ => k
  | (_,k)::l => k+orSkipped l

variable {D : Type*}

/-- All values are an interval only for a type that can be constrained. -/
def extentOfAll (colref : CColRef) : Extent := if colref.fConstrainable then .whole else .nothing

/-- Lists above the threshold are skipped and counted, empty lists and, without the trace flag, all
lists are skipped without being counted. -/
def extentOfList (hint : CHint) (colref : CColRef) (cmpType : ECmpType) (array : List (Option D))
    (u : Bool) : Extent × Nat :=
  if hint.eopttraceArrayConstraints=false ∨ array=[] then (.nothing,0)
  else if hint.ulArrayIntervalThreshold<array.length ∧ ¬fArrayHasNullConst array then (.nothing,1)
  else (if keepsAll cmpType array u then extentOfAll colref else .whole,0)

mutual

/-- What is derived from an expression, read off its form, and how many lists are counted as
skipped. A NOT over lists that were counted gives nothing; the counter has 32 bits. -/
def CExpression.extent (hint : CHint) (colref : CColRef) : CExpression D → Bool → Extent × Nat
  | .scalarArrayCmp cmpType _ _ array, u => extentOfList hint colref cmpType array u
  | .scalarConst value, _ => (if value then extentOfAll colref else .whole,0)
  | .scalarCmpCol _ _ _, _ => (.nothing,0)
  | .scalarBooleanTest ebt child, _ =>
    child.extent hint colref (ebt=.ebtIsFalse ∨ ebt=.ebtIsNotFalse)
  | .scalarBoolAnd children, u =>
    let l := extents hint colref children u
    (.ofAnd (l.map (·.1)),(l.map (·.2)).sum)
  | .scalarBoolOr children, u =>
    let l := extents hint colref children u
    (.ofOr (l.map (·.1)),orSkipped l)
  | .scalarBoolNot child, u =>
    let x := child.extent hint colref (!u)
    (if x.2%2^32=0 then x.1 else .nothing,x.2)
  | .scalarIdent _, _ => (.whole,0)
  | .scalarNullTest _, _ => (.whole,0)
  | .scalarIsDistinctFrom _ _, _ => (.whole,0)
  | .scalarCmp _ _ _, _ => (.whole,0)

def extents (hint : CHint) (colref : CColRef) : List (CExpression D) → Bool → List (Extent × Nat)
  | [], _ => []
  | child::children, u => child.extent hint colref u::extents hint colref children u

end

mutual

/-- No interval is complemented that some conjuncts had no part in, on the way to what is
returned. -/
def CExpression.Guarded (hint : CHint) (colref : CColRef) : CExpression D → Bool → Prop
  | .scalarBooleanTest ebt child, _ => match ebt with
    | .ebtIsTrue => child.Guarded hint colref false
    | .ebtIsNotFalse => child.Guarded hint colref true
    | .ebtIsNotTrue => (child.extent hint colref false).1≠.part
    | .ebtIsFalse => (child.extent hint colref true).1≠.part
    | _ => True
  | .scalarBoolNot child, u =>
    ((CExpression.scalarBoolNot child).extent hint colref u).1≠.part
  | .scalarBoolAnd children, u => GuardedAll hint colref children u
  | .scalarBoolOr children, u =>
    ((CExpression.scalarBoolOr children).extent hint colref u).1=.nothing ∨
      GuardedAll hint colref children u
  | _, _ => True

def GuardedAll (hint : CHint) (colref : CColRef) : List (CExpression D) → Bool → Prop
  | [], _ => True
  | child::children, u => child.Guarded hint colref u ∧ GuardedAll hint colref children u

end

mutual

/-- What remains of an expression without the conjuncts that nothing is derived from. -/
def CExpression.remaining (hint : CHint) (colref : CColRef) : CExpression D → Bool → CExpression D
  | .scalarBooleanTest ebt child, _ => .scalarBooleanTest ebt
    (child.remaining hint colref (ebt=.ebtIsFalse ∨ ebt=.ebtIsNotFalse))
  | .scalarBoolAnd children, u => .scalarBoolAnd (remainders hint colref children u)
  | .scalarBoolOr children, u => .scalarBoolOr (remainders hint colref children u)
  | .scalarBoolNot child, u => .scalarBoolNot (child.remaining hint colref (!u))
  | e, _ => e

def remainders (hint : CHint) (colref : CColRef) :
    List (CExpression D) → Bool → List (CExpression D)
  | [], _ => []
  | child::children, u =>
    if (child.extent hint colref u).1=.nothing then remainders hint colref children u
    else child.remaining hint colref u::remainders hint colref children u

end

/-- The forms of expressions over one column that intervals are derived from: comparisons with
constants, IN and NOT IN, and the boolean operators over at least one operand. -/
def Supported (colref : CColRef) : CExpression D → Prop
  | .scalarConst _ => True
  | .scalarIdent c => c=colref
  | .scalarNullTest c => c=colref
  | .scalarIsDistinctFrom c _ => c=colref
  | .scalarCmp cmpType c _ => c=colref ∧ IsComparison cmpType
  | .scalarCmpCol _ _ _ => True
  | .scalarArrayCmp cmpType earrcmpt c _ => c=colref ∧ IsInOrNotIn cmpType earrcmpt
  | .scalarBooleanTest ebt _ => ebt≠.ebtIsUnknown ∧ ebt≠.ebtIsNotUnknown
  | .scalarBoolAnd children => children≠[]
  | .scalarBoolOr children => children≠[]
  | .scalarBoolNot _ => True

def AllSupported (colref : CColRef) (e : CExpression D) : Prop := ∀ s∈e.subexprs, Supported colref s

variable {hint : CHint} {colref : CColRef} {cs : List (CExpression D)} {u : Bool}

theorem extents_eq : extents hint colref cs u=cs.map (·.extent hint colref u) := by
  induction cs with
  | nil => rfl
  | cons c cs ih => rw [extents,ih,map_cons]

theorem guardedAll_iff : GuardedAll hint colref cs u ↔ ∀ c∈cs, c.Guarded hint colref u := by
  induction cs with
  | nil => simp [GuardedAll]
  | cons c cs ih => rw [GuardedAll,ih,forall_mem_cons]

theorem mem_remainders : c∈remainders hint colref cs u ↔
    ∃ b∈cs, (b.extent hint colref u).1≠.nothing ∧ b.remaining hint colref u=c := by
  induction cs with
  | nil => simp [remainders]
  | cons b cs ih =>
    rw [remainders,exists_mem_cons_iff,← ih]
    split
    next hnot => simp [hnot]
    next hsome => simp [hsome,eq_comm]

end Conditions

variable {D : Type*} [LinearOrder D] [BoolDatums D] {hint : CHint} {colref : CColRef}

variable {u : Bool} {pci : CConstraintInterval D}

/-- What a derivation gives: the lists are counted, the interval is there as the form of the
expression says, and it is exact for what remains. -/
structure Derives (hint : CHint) (colref : CColRef) (u : Bool) (e : CExpression D) (n : Nat)
    (r : Option (CConstraintInterval D) × Nat) : Prop where
  counted : r.2=(n+(e.extent hint colref u).2)%2^32
  nothing : (e.extent hint colref u).1=.nothing → r.1=none
  something : (e.extent hint colref u).1≠.nothing → r.1.isSome
  remaining : ∀ pci, r.1=some pci → Exact colref u (e.remaining hint colref u) pci

variable {n : Nat} {e c : CExpression D}

theorem derives_exact {o : Option (CConstraintInterval D)} (hn : n<2^32)
    (hext : e.extent hint colref u=(.whole,0)) (hrem : e.remaining hint colref u=e)
    (h : ∃ pci, o=some pci ∧ Exact colref u e pci) : Derives hint colref u e n (o,n) := by
  obtain ⟨pci,rfl,hex⟩ := h
  refine ⟨by rw [hext]; exact (mod_eq_of_lt hn).symm,by simp [hext],by simp,fun pci' heq => ?_⟩
  cases heq
  rw [hrem]
  exact hex

theorem derives_nothing {k : Nat} (hext : e.extent hint colref u=(.nothing,k)) :
    Derives hint colref u e n (none,(n+k)%2^32) :=
  ⟨by rw [hext],by simp,by simp [hext],by simp⟩

attribute [local simp] AllSupported IsComparison IsInOrNotIn Supported evalBooleanTest
  pciAnd subexprs subexprsList

/-- All values, as derived from TRUE or from lists. -/
theorem derives_all (hn : n<2^32) (hext : e.extent hint colref u=(extentOfAll colref,0))
    (hrem : e.remaining hint colref u=e) (hex : colref.fConstrainable=true →
      ∃ pci, pciUnbounded colref true=some pci ∧ Exact colref u e pci) :
    Derives hint colref u e n (pciUnbounded colref true,n) := by
  unfold extentOfAll at hext
  split at hext
  next hcol => exact derives_exact hn hext hrem (hex hcol)
  next hcol =>
    have hnone := @derives_nothing _ _ _ hint colref u n e 0 hext
    rw [Nat.add_zero,mod_eq_of_lt hn] at hnone
    simpa [pciUnbounded,hcol] using hnone

/-- A list gives its exact interval, or is skipped and perhaps counted. -/
theorem derives_arrayCmp {cmpType : ECmpType} {earrcmpt : EArrCmpType}
    {array : List (Option D)} (hin : IsInOrNotIn cmpType earrcmpt) (hn : n<2^32) :
    Derives hint colref u (.scalarArrayCmp cmpType earrcmpt colref array) n
      (pciIntervalFromScalarExpr hint colref (.scalarArrayCmp cmpType earrcmpt colref array) u
        n) := by
  have hcmp : ¬(cmpType≠.ecmptEq ∧ cmpType≠.ecmptNEq) := by
    rcases hin with ⟨rfl,-⟩ | ⟨rfl,-⟩
    · simp
    · simp
  have hskip := @derives_nothing _ _ _ hint colref u n
    (.scalarArrayCmp cmpType earrcmpt colref array) 0
  rw [Nat.add_zero,mod_eq_of_lt hn] at hskip
  rw [pciIntervalFromScalarExpr]
  split
  next htrace =>
    unfold pcnstrIntervalFromScalarArrayCmp
    rw [if_neg hcmp]
    split
    next hemp => exact hskip (by simp [extent,extentOfList,length_eq_zero_iff.mp hemp])
    next hne =>
      have hne : array≠[] := fun heq => hne (by simp [heq])
      split
      next hlong => exact derives_nothing (by simp [extent,extentOfList,htrace,hne,hlong])
      next hshort =>
        have hext : CExpression.extent hint colref
            (.scalarArrayCmp cmpType earrcmpt colref array) u=
              (if keepsAll cmpType array u then extentOfAll colref else .whole,0) := by
          simp only [extent,extentOfList,htrace,hne,hshort]
          simp
        cases hset : pciFromSortedSet colref cmpType array u with
        | none =>
          obtain ⟨hkeep,hcol⟩ := pciFromSortedSet_eq_none.mp hset
          exact hskip (by simp [hext,hkeep,extentOfAll,hcol])
        | some pci =>
          refine derives_exact hn ?_ rfl ⟨pci,rfl,exact_pciFromSortedSet hne hin hset⟩
          have hnot : ¬(keepsAll cmpType array u=true ∧ colref.fConstrainable=false) := by
            rw [← pciFromSortedSet_eq_none,hset]
            simp
          rw [hext,extentOfAll]
          split
          next hkeep => rw [if_pos (by simpa [hkeep] using hnot)]
          next => rfl
  next htrace => exact hskip (by simp [extent,extentOfList,htrace])

def andValues (acc : Option (CConstraintInterval D)) : Set (Option D) :=
  match acc with
  | none => Set.univ
  | some a => a.values

omit [BoolDatums D] in
theorem mem_andValues_pciAnd {child : Option (CConstraintInterval D)}
    (hacc : ∀ a, acc=some a → OnColumn colref a) (hch : ∀ p, child=some p → OnColumn colref p) :
    v∈andValues (pciAnd acc child) ↔ v∈andValues acc ∧ v∈andValues child := by
  match acc, child with
  | some a, some p =>
    have hspec := pciIntersect_spec (hacc a rfl).wellFormed (hch p rfl).wellFormed
    simp [andValues,hspec.1]
  | none, some p => simp [andValues]
  | some a, none => simp [andValues]
  | none, none => simp [andValues]

theorem mod_add_mod : ((n+j)%2^32+k)%2^32=(n+(j+k))%2^32 := by
  rw [Nat.mod_add_mod,Nat.add_assoc]

variable {cs : List (CExpression D)} {r : Option (CConstraintInterval D) × Nat}

theorem Derives.mem_andValues (h : Derives hint colref u e n r) (hrow : row colref∈Domain colref) :
    row colref∈andValues r.1 ↔ ((e.extent hint colref u).1≠.nothing →
      Truth.Passes u ((e.remaining hint colref u).eval row)) := by
  cases hr : r.1 with
  | none =>
    refine iff_of_true (Set.mem_univ _) fun hsome => ?_
    have := h.something hsome
    simp [hr] at this
  | some p =>
    have hsome : (e.extent hint colref u).1≠.nothing := fun heq => by
      cases hr.symm.trans (h.nothing heq)
    exact ((h.remaining p hr).values row hrow).trans (by simp [hsome])

section

variable (hcs : ∀ c∈cs, ∀ n, n<2^32 →
  Derives hint colref u c n (pciIntervalFromScalarExpr hint colref c u n))
include hcs

/-- The intersection over the conjuncts that give an interval. -/
theorem boolAnd_derives (hn : n<2^32) (hacc : ∀ a, acc=some a → OnColumn colref a) :
    (pciIntervalFromScalarBoolAnd hint colref cs u acc n).2=
      (n+(cs.map fun c => (c.extent hint colref u).2).sum)%2^32 ∧
    (acc=none → (∀ c∈cs, (c.extent hint colref u).1=.nothing) →
      (pciIntervalFromScalarBoolAnd hint colref cs u acc n).1=none) ∧
    (acc.isSome ∨ (∃ c∈cs, (c.extent hint colref u).1≠.nothing) →
      (pciIntervalFromScalarBoolAnd hint colref cs u acc n).1.isSome) ∧
    ∀ pci, (pciIntervalFromScalarBoolAnd hint colref cs u acc n).1=some pci →
      ∀ row, row colref∈Domain colref → (row colref∈pci.values ↔ row colref∈andValues acc ∧
        ∀ c∈cs, (c.extent hint colref u).1≠.nothing →
          Truth.Passes u ((c.remaining hint colref u).eval row)) := by
  induction cs generalizing acc n with
  | nil =>
    refine ⟨(mod_eq_of_lt hn).symm,fun hnone _ => hnone,fun hsome => ?_,?_⟩
    · simpa [pciIntervalFromScalarBoolAnd] using hsome
    · intro pci heq row _
      have heq : acc=some pci := heq
      simp [heq,andValues]
  | cons c cs ih =>
    have hch := derived_onColumn hint colref c u n
    have hc := hcs c (by simp) n hn
    rw [pciIntervalFromScalarBoolAnd]
    generalize pciIntervalFromScalarExpr hint colref c u n=r at hc hch
    have hlt : r.2<2^32 := hc.counted ▸ mod_lt _ (by decide)
    obtain ⟨hend,hnone,hsome,hvals⟩ :=
      ih (fun c hc => hcs c (by simp [hc])) hlt ((onColumn_kept colref).pciAnd hacc hch)
    refine ⟨?_,fun hempty hall => ?_,fun hany => ?_,fun pci heq row hrow => ?_⟩
    · rw [hend,hc.counted,mod_add_mod,map_cons,sum_cons]
    · obtain ⟨hfirst,hall⟩ := forall_mem_cons.mp hall
      exact hnone (by simp [hempty,hc.nothing hfirst]) hall
    · apply hsome
      rcases hany with hacc' | hany
      · left
        obtain ⟨a,rfl⟩ := isSome_iff_exists.mp hacc'
        cases r.1 <;> rfl
      · rcases exists_mem_cons_iff .. |>.mp hany with hfirst | hany
        · left
          obtain ⟨p,hp⟩ := isSome_iff_exists.mp (hc.something hfirst)
          rw [hp]
          cases acc <;> rfl
        · exact .inr hany
    · rw [hvals pci heq row hrow,mem_andValues_pciAnd hacc hch,hc.mem_andValues hrow,
        forall_mem_cons,and_assoc]

/-- The intervals of the disjuncts, all of them or none. -/
theorem boolOr_derives (hn : n<2^32) :
    (pciChildrenFromScalarBoolOr hint colref cs u n).2=
      (n+orSkipped (cs.map (·.extent hint colref u)))%2^32 ∧
    ((∃ c∈cs, (c.extent hint colref u).1=.nothing) →
      (pciChildrenFromScalarBoolOr hint colref cs u n).1=none) ∧
    ((∀ c∈cs, (c.extent hint colref u).1≠.nothing) →
      ∃ l, (pciChildrenFromScalarBoolOr hint colref cs u n).1=some l ∧ l.length=cs.length) ∧
    ∀ l, (pciChildrenFromScalarBoolOr hint colref cs u n).1=some l →
      ∀ row, row colref∈Domain colref → ((∃ p∈l, row colref∈p.values) ↔
        ∃ c∈cs, Truth.Passes u ((c.remaining hint colref u).eval row)) := by
  induction cs generalizing n with
  | nil =>
    refine ⟨(mod_eq_of_lt hn).symm,by simp,fun _ => ⟨[],rfl,rfl⟩,fun l heq => ?_⟩
    cases heq
    simp
  | cons c cs ih =>
    have hc := hcs c (by simp) n hn
    rw [pciChildrenFromScalarBoolOr]
    generalize pciIntervalFromScalarExpr hint colref c u n=r at hc
    have hlt : r.2<2^32 := hc.counted ▸ mod_lt _ (by decide)
    obtain ⟨hend,hnone,hsome,hvals⟩ := ih (fun c hc => hcs c (by simp [hc])) hlt
    by_cases hext : (c.extent hint colref u).1=.nothing
    · -- the OR is given up
      rw [hc.nothing hext]
      refine ⟨?_,by simp,fun hall => absurd hext (hall c (by simp)),by simp⟩
      have hskip : orSkipped ((c::cs).map (·.extent hint colref u))=(c.extent hint colref u).2 := by
        rw [map_cons]
        generalize c.extent hint colref u=x at hext
        obtain ⟨x,k⟩ := x
        cases hext
        rfl
      rw [hskip]
      exact hc.counted
    · obtain ⟨p,hp⟩ := isSome_iff_exists.mp (hc.something hext)
      rw [hp]
      dsimp only
      have hskip : orSkipped ((c::cs).map (·.extent hint colref u))=(c.extent hint colref u).2+
          orSkipped (cs.map (·.extent hint colref u)) := by
        rw [map_cons]
        generalize c.extent hint colref u=x at hext
        obtain ⟨x,k⟩ := x
        cases x with
        | nothing => exact absurd rfl hext
        | whole | part => rfl
      refine ⟨by rw [hend,hc.counted,mod_add_mod,hskip],fun hany => ?_,fun hall => ?_,
        fun l heq row hrow => ?_⟩
      · rcases exists_mem_cons_iff .. |>.mp hany with hfirst | hany
        · exact absurd hfirst hext
        · rw [hnone hany]
          rfl
      · obtain ⟨l,hl,hlen⟩ := hsome (forall_mem_cons.mp hall).2
        exact ⟨p::l,by simp [hl],by simp [hlen]⟩
      · obtain ⟨rest,hrest,rfl⟩ := map_eq_some_iff.mp heq
        rw [exists_mem_cons_iff,exists_mem_cons_iff,hvals rest hrest row hrow,
          (hc.remaining p hp).values row hrow]

end

theorem Exact.complement (h : Exact colref u' c pci)
    (heval : ∀ row, Truth.Passes u (e.eval row) ↔ ¬Truth.Passes u' (c.eval row)) :
    Exact colref u e pci.pciComplement := by
  refine ⟨onColumn_complement h.toOnColumn,fun row hrow => ?_⟩
  rw [mem_complement h.toOnColumn hrow,h.values row hrow,heval]

theorem Derives.congr (h : Derives hint colref u' c n r)
    (hext : e.extent hint colref u=c.extent hint colref u')
    (heval : ∀ row, Truth.Passes u ((e.remaining hint colref u).eval row) ↔
      Truth.Passes u' ((c.remaining hint colref u').eval row)) : Derives hint colref u e n r := by
  refine ⟨by rw [hext]; exact h.counted,by rw [hext]; exact h.nothing,
    by rw [hext]; exact h.something,fun pci hpci => ?_⟩
  have hex := h.remaining pci hpci
  exact ⟨hex.toOnColumn,fun row hrow => (hex.values row hrow).trans (heval row).symm⟩

theorem Derives.complement (h : Derives hint colref u' c n r)
    (hext : e.extent hint colref u=c.extent hint colref u')
    (heval : ∀ row, Truth.Passes u ((e.remaining hint colref u).eval row) ↔
      ¬Truth.Passes u' ((c.remaining hint colref u').eval row)) :
    Derives hint colref u e n (r.1.map (·.pciComplement),r.2) := by
  refine ⟨by rw [hext]; exact h.counted,fun hnone => ?_,fun hsome => ?_,fun pci hpci => ?_⟩
  · rw [h.nothing (hext ▸ hnone)]
    rfl
  · rw [isSome_map]
    exact h.something (hext ▸ hsome)
  · obtain ⟨p,hp,rfl⟩ := map_eq_some_iff.mp hpci
    exact (h.remaining p hp).complement heval

section

variable {ebt : EBoolTest} {row : CColRef → Option D}

theorem passes_test (h : ebt=.ebtIsTrue ∨ ebt=.ebtIsNotFalse) :
    Truth.Passes u ((CExpression.scalarBooleanTest ebt c).eval row) ↔
      Truth.Passes (ebt=.ebtIsFalse ∨ ebt=.ebtIsNotFalse) (c.eval row) := by
  rw [eval]
  rcases h with rfl | rfl
  all_goals
    cases c.eval row with
    | none | some b => simp

theorem passes_complementTest (h : ebt=.ebtIsNotTrue ∨ ebt=.ebtIsFalse) :
    Truth.Passes u ((CExpression.scalarBooleanTest ebt c).eval row) ↔
      ¬Truth.Passes (ebt=.ebtIsFalse ∨ ebt=.ebtIsNotFalse) (c.eval row) := by
  rw [eval]
  rcases h with rfl | rfl
  all_goals
    cases c.eval row with
    | none | some b => simp

end

theorem derives_leaf (he : e.isLeaf=true) (hs : Supported colref e) (hn : n<2^32) :
    Derives hint colref u e n (pciIntervalFromScalarExpr hint colref e u n) := by
  cases e with
  | scalarConst b =>
    cases b with
    | true => exact derives_all hn rfl rfl exact_const_true
    | false => exact derives_exact hn rfl rfl ⟨_,rfl,exact_const_false⟩
  | scalarIdent c =>
    obtain rfl : c=colref := hs
    exact derives_exact hn rfl rfl ⟨_,rfl,exact_ident⟩
  | scalarNullTest c =>
    obtain rfl : c=colref := hs
    exact derives_exact hn rfl rfl ⟨_,rfl,exact_nullTest⟩
  | scalarIsDistinctFrom c datum =>
    obtain rfl : c=colref := hs
    exact derives_exact hn rfl rfl (exact_idf datum)
  | scalarCmp cmpType c datum =>
    obtain ⟨rfl,hcmp⟩ := hs
    exact derives_exact hn rfl rfl (exact_cmp hcmp datum)
  | scalarCmpCol cmpType left right =>
    have hnone := @derives_nothing _ _ _ hint colref u n
      (.scalarCmpCol cmpType left right : CExpression D) 0 rfl
    rwa [Nat.add_zero,mod_eq_of_lt hn] at hnone
  | scalarArrayCmp cmpType earrcmpt c array =>
    obtain ⟨rfl,hin⟩ := hs
    exact derives_arrayCmp hin hn
  | _ => cases he

/-- IS TRUE and IS NOT FALSE hand the interval on, IS NOT TRUE and IS FALSE complement it. -/
theorem derives_booleanTest {ebt : EBoolTest} (htest : Supported colref (.scalarBooleanTest ebt c))
    (hc : ∀ u, Derives hint colref u c n (pciIntervalFromScalarExpr hint colref c u n)) :
    Derives hint colref u (.scalarBooleanTest ebt c) n
      (pciIntervalFromScalarExpr hint colref (.scalarBooleanTest ebt c) u n) := by
  cases ebt with
  | ebtIsTrue => exact (hc false).congr rfl fun row => passes_test (.inl rfl)
  | ebtIsNotFalse => exact (hc true).congr rfl fun row => passes_test (.inr rfl)
  | ebtIsNotTrue => exact (hc false).complement rfl fun row => passes_complementTest (.inl rfl)
  | ebtIsFalse => exact (hc true).complement rfl fun row => passes_complementTest (.inr rfl)
  | ebtIsUnknown => exact absurd rfl htest.1
  | ebtIsNotUnknown => exact absurd rfl htest.2

/-- The complement is given up if a list was counted below the NOT. -/
theorem derives_boolNot (hn : n<2^32)
    (hc : Derives hint colref (!u) c n (pciIntervalFromScalarExpr hint colref c (!u) n)) :
    Derives hint colref u (.scalarBoolNot c) n
      (pciIntervalFromScalarExpr hint colref (.scalarBoolNot c) u n) := by
  rw [pciIntervalFromScalarExpr]
  generalize pciIntervalFromScalarExpr hint colref c (!u) n=r at hc
  by_cases hzero : (c.extent hint colref (!u)).2%2^32=0
  · have hsame : r.2=n := by
      rw [hc.counted,Nat.add_mod,hzero,Nat.add_zero,Nat.mod_mod,mod_eq_of_lt hn]
    have hext : (CExpression.scalarBoolNot c).extent hint colref u=
        c.extent hint colref (!u) := by
      rw [extent,if_pos hzero]
    rw [if_pos hsame]
    exact hc.complement hext fun row => passes_boolNot
  · have hmore : r.2≠n := by
      rw [hc.counted]
      omega
    rw [if_neg hmore]
    have hext : (CExpression.scalarBoolNot c).extent hint colref u=
        (.nothing,(c.extent hint colref (!u)).2) := by
      rw [extent,if_neg hzero]
    rw [hc.counted]
    exact derives_nothing hext

omit [LinearOrder D] [BoolDatums D] in
theorem extent_boolAnd : (CExpression.scalarBoolAnd cs).extent hint colref u=
    (.ofAnd (cs.map fun c => (c.extent hint colref u).1),
      (cs.map fun c => (c.extent hint colref u).2).sum) := by
  rw [extent,extents_eq]
  rw [List.map_map,List.map_map]
  rfl

omit [LinearOrder D] [BoolDatums D] in
theorem extent_boolOr : (CExpression.scalarBoolOr cs).extent hint colref u=
    (.ofOr (cs.map fun c => (c.extent hint colref u).1),
      orSkipped (cs.map (·.extent hint colref u))) := by
  rw [extent,extents_eq]
  rw [List.map_map]
  rfl

section

variable (hcs : ∀ c∈cs, ∀ n, n<2^32 →
  Derives hint colref u c n (pciIntervalFromScalarExpr hint colref c u n))
include hcs

theorem derives_boolAnd (hn : n<2^32) : Derives hint colref u (.scalarBoolAnd cs) n
    (pciIntervalFromScalarExpr hint colref (.scalarBoolAnd cs) u n) := by
  have hnone : ∀ a : CConstraintInterval D, none=some a → OnColumn colref a := by simp
  obtain ⟨hend,hno,hsome,hvals⟩ := boolAnd_derives hcs hn hnone
  have hcol := derived_onColumn hint colref (.scalarBoolAnd cs) u n
  refine ⟨by rw [extent_boolAnd]; exact hend,fun hx => ?_,fun hx => ?_,fun pci hpci => ?_⟩
  · refine hno rfl fun c hc => ?_
    rw [extent_boolAnd] at hx
    have hall := (Extent.ofAnd_eq_nothing.mp hx) _ (mem_map_of_mem hc)
    exact hall
  · refine hsome (.inr ?_)
    rw [extent_boolAnd] at hx
    by_contra hnot
    refine hx (Extent.ofAnd_eq_nothing.mpr ?_)
    simpa using hnot
  · refine ⟨hcol pci hpci,fun row hrow => ?_⟩
    rw [hvals pci hpci row hrow,remaining,passes_boolAnd]
    simp only [mem_remainders,forall_exists_index,and_imp]
    exact ⟨fun h c b hb hsome heq => heq ▸ h.2 b hb hsome,
      fun h => ⟨Set.mem_univ _,fun b hb hsome => h _ b hb hsome rfl⟩⟩

theorem derives_boolOr (hne : cs≠[]) (hn : n<2^32) : Derives hint colref u (.scalarBoolOr cs) n
    (pciIntervalFromScalarExpr hint colref (.scalarBoolOr cs) u n) := by
  obtain ⟨hend,hno,hsome,hvals⟩ := boolOr_derives hcs hn
  have hcols : ∀ l, (pciChildrenFromScalarBoolOr hint colref cs u n).1=some l →
      ∀ p∈l, OnColumn colref p := fun l h =>
    boolOr_children (fun c _ => derived_onColumn hint colref c u) h
  have hunion : ∀ l, (pciChildrenFromScalarBoolOr hint colref cs u n).1=some l →
      l.length=cs.length → ∃ pci,
        (pciIntervalFromScalarExpr hint colref (.scalarBoolOr cs) u n).1=some pci ∧
          OnColumn colref pci ∧ ∀ v, v∈pci.values ↔ ∃ p∈l, v∈p.values := by
    intro l hl hlen
    have hlne : l≠[] := by
      rintro rfl
      exact hne (length_eq_zero_iff.mp hlen.symm)
    obtain ⟨pci,hpci,hspec⟩ := unionInPairs_spec (hcols l hl) hlne
    exact ⟨pci,by rw [pciIntervalFromScalarExpr,hl]; exact hpci,hspec⟩
  have hreach : ((CExpression.scalarBoolOr cs).extent hint colref u).1≠.nothing →
      ∀ c∈cs, (c.extent hint colref u).1≠.nothing := by
    intro hx c hc heq
    rw [extent_boolOr] at hx
    exact hx (Extent.ofOr_eq_nothing.mpr (heq ▸ mem_map_of_mem hc))
  refine ⟨by rw [extent_boolOr]; exact hend,fun hx => ?_,fun hx => ?_,fun pci hpci => ?_⟩
  · rw [extent_boolOr] at hx
    have hany : ∃ c∈cs, (c.extent hint colref u).1=.nothing := by
      simpa using Extent.ofOr_eq_nothing.mp hx
    rw [pciIntervalFromScalarExpr,hno hany]
    rfl
  · obtain ⟨l,hl,hlen⟩ := hsome (hreach hx)
    obtain ⟨pci,hpci,-⟩ := hunion l hl hlen
    rw [hpci]
    rfl
  · obtain ⟨l,hl,hunn⟩ := bind_eq_some_iff.mp hpci
    have hlne : l≠[] := by
      rintro rfl
      exact absurd hunn (by simp [unionInPairs])
    obtain ⟨pci',hpci',hpcol,hunion⟩ := unionInPairs_spec (hcols l hl) hlne
    obtain rfl := some.inj (hpci'.symm.trans hunn)
    have hall : ∀ c∈cs, (c.extent hint colref u).1≠.nothing := fun c hc heq => by
      cases hl.symm.trans (hno ⟨c,hc,heq⟩)
    refine ⟨hpcol,fun row hrow => ?_⟩
    rw [hunion,hvals l hl row hrow,remaining,passes_boolOr]
    simp only [mem_remainders]
    constructor
    · rintro ⟨c,hc,hpass⟩
      exact ⟨_,⟨c,hc,hall c hc,rfl⟩,hpass⟩
    · rintro ⟨_,⟨c,hc,-,rfl⟩,hpass⟩
      exact ⟨c,hc,hpass⟩

end

/-- By induction on the expression: the interval is exact for what remains. -/
theorem derives (hint : CHint) (colref : CColRef) (e : CExpression D) :
    AllSupported colref e → ∀ u n, n<2^32 →
      Derives hint colref u e n (pciIntervalFromScalarExpr hint colref e u n) := by
  induction e using induction with
  | leaf e he => exact fun hs u n hn => derives_leaf he (hs e (self_mem_subexprs e)) hn
  | booleanTest ebt c ih =>
    intro hs u n hn
    have hc := ih fun s hmem => hs s (subexprs_test s hmem)
    exact derives_booleanTest (hs _ (self_mem_subexprs _)) fun u => hc u n hn
  | boolAnd cs ih =>
    intro hs u n hn
    exact derives_boolAnd (fun c hc => ih c hc (fun s hmem => hs s (subexprs_and hc s hmem)) u) hn
  | boolOr cs ih =>
    intro hs u n hn
    exact derives_boolOr (fun c hc => ih c hc (fun s hmem => hs s (subexprs_or hc s hmem)) u)
      (hs _ (self_mem_subexprs _)) hn
  | boolNot c ih =>
    intro hs u n hn
    exact derives_boolNot hn (ih (fun s hmem => hs s (subexprs_not s hmem)) (!u) n hn)

section

omit [LinearOrder D] [BoolDatums D]

theorem remainders_of_whole
    (h : ∀ c∈cs, (c.extent hint colref u).1=.whole ∧ c.remaining hint colref u=c) :
    remainders hint colref cs u=cs := by
  induction cs with
  | nil => rfl
  | cons c cs ih =>
    obtain ⟨⟨hwhole,hrem⟩,h⟩ := forall_mem_cons.mp h
    rw [remainders,hwhole,if_neg (by simp),hrem,ih h]

/-- Nothing is left out of an expression that is whole. -/
theorem remaining_of_whole (e : CExpression D) : ∀ u, (e.extent hint colref u).1=.whole →
    e.remaining hint colref u=e := by
  induction e using induction with
  | leaf e he =>
    intro u _
    cases e with
    | scalarBooleanTest | scalarBoolAnd | scalarBoolOr | scalarBoolNot => cases he
    | _ => rfl
  | booleanTest ebt c ih =>
    intro u hx
    rw [remaining,ih _ hx]
  | boolAnd cs ih =>
    intro u hx
    rw [extent_boolAnd] at hx
    have hall : ∀ c∈cs, (c.extent hint colref u).1=.whole := by
      simpa using Extent.ofAnd_eq_whole hx
    rw [remaining,remainders_of_whole fun c hc => ⟨hall c hc,ih c hc u (hall c hc)⟩]
  | boolOr cs ih =>
    intro u hx
    rw [extent_boolOr] at hx
    have hall : ∀ c∈cs, (c.extent hint colref u).1=.whole := by
      simpa using Extent.ofOr_eq_whole hx
    rw [remaining,remainders_of_whole fun c hc => ⟨hall c hc,ih c hc u (hall c hc)⟩]
  | boolNot c ih =>
    intro u hx
    rw [extent] at hx
    dsimp only at hx
    split at hx
    · rw [remaining,ih _ hx]
    · cases hx

end

/-- With guarded complements what passes the expression passes what remains of it. -/
theorem passes_remaining (e : CExpression D) (row : CColRef → Option D) :
    AllSupported colref e → ∀ u, e.Guarded hint colref u → (e.extent hint colref u).1≠.nothing →
      Truth.Passes u (e.eval row) → Truth.Passes u ((e.remaining hint colref u).eval row) := by
  induction e using induction with
  | leaf e he =>
    intro _ u _ _ hpass
    cases e with
    | scalarBooleanTest | scalarBoolAnd | scalarBoolOr | scalarBoolNot => cases he
    | _ => exact hpass
  | booleanTest ebt c ih =>
    intro hs u hg hx hpass
    have ih := ih fun s hmem => hs s (subexprs_test s hmem)
    have htest := hs _ (self_mem_subexprs _)
    cases ebt with
    | ebtIsTrue =>
      exact (passes_test (.inl rfl)).mpr (ih false hg hx ((passes_test (.inl rfl)).mp hpass))
    | ebtIsNotFalse =>
      exact (passes_test (.inr rfl)).mpr (ih true hg hx ((passes_test (.inr rfl)).mp hpass))
    | ebtIsNotTrue | ebtIsFalse =>
      rw [remaining,remaining_of_whole c _ (Extent.eq_whole hx hg)]
      exact hpass
    | ebtIsUnknown => exact absurd rfl htest.1
    | ebtIsNotUnknown => exact absurd rfl htest.2
  | boolAnd cs ih =>
    intro hs u hg hx hpass
    rw [remaining,passes_boolAnd]
    intro c hc
    obtain ⟨b,hb,hsome,rfl⟩ := mem_remainders.mp hc
    exact ih b hb (fun s hmem => hs s (subexprs_and hb s hmem)) u (guardedAll_iff.mp hg b hb)
      hsome (passes_boolAnd.mp hpass b hb)
  | boolOr cs ih =>
    intro hs u hg hx hpass
    rw [remaining,passes_boolOr]
    obtain ⟨c,hc,hpass⟩ := passes_boolOr.mp hpass
    have hsome : (c.extent hint colref u).1≠.nothing := fun heq => by
      rw [extent_boolOr] at hx
      exact hx (Extent.ofOr_eq_nothing.mpr (heq ▸ mem_map_of_mem hc))
    have hg := guardedAll_iff.mp (hg.resolve_left hx) c hc
    exact ⟨_,mem_remainders.mpr ⟨c,hc,hsome,rfl⟩,
      ih c hc (fun s hmem => hs s (subexprs_or hc s hmem)) u hg hsome hpass⟩
  | boolNot c ih =>
    intro hs u hg hx hpass
    rwa [remaining_of_whole _ u (Extent.eq_whole hx hg)]

/-- x > 3 AND (NOT (x < 5 AND x IN (1,2))) IS TRUE AND (x > 9 OR x IN (1,2)) IS FALSE: with a
threshold of 1 both lists are skipped; the NOT sees it and gives up, the OR has no interval to be
complemented, and the first conjunct remains. -/
def guardedExpr : CExpression Nat :=
  .scalarBoolAnd [.scalarCmp .ecmptG numberColumn 3,
    .scalarBooleanTest .ebtIsTrue (.scalarBoolNot (.scalarBoolAnd
      [.scalarCmp .ecmptL numberColumn 5,
        .scalarArrayCmp .ecmptEq .earrcmpAny numberColumn [some 1,some 2]])),
    .scalarBooleanTest .ebtIsFalse (.scalarBoolOr [.scalarCmp .ecmptG numberColumn 9,
      .scalarArrayCmp .ecmptEq .earrcmpAny numberColumn [some 1,some 2]])]

/-- (x > 5 AND x IN (1,2)) IS FALSE with a threshold of 1. -/
def untestedExpr : CExpression Nat :=
  .scalarBooleanTest .ebtIsFalse (.scalarBoolAnd [.scalarCmp .ecmptG numberColumn 5,
    .scalarArrayCmp .ecmptEq .earrcmpAny numberColumn [some 1,some 2]])

/-- x > 5 OR untestedExpr: the values that the second disjunct loses are those of the first. -/
def toleratedExpr : CExpression Nat :=
  .scalarBoolOr [.scalarCmp .ecmptG numberColumn 5,untestedExpr]

def emptyListExpr : CExpression Nat :=
  .scalarBoolNot (.scalarBoolAnd [.scalarCmp .ecmptG numberColumn 5,
    .scalarArrayCmp .ecmptEq .earrcmpAny numberColumn []])

end WarehousePG.Orca
