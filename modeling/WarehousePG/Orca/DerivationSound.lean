import WarehousePG.Orca.IntervalDerivation

namespace WarehousePG.Orca

open Framework ERangeInclusion CConstraintInterval CRange Apart Cut BoolDatums CExpression Truth List
open List (mem_cons pairwise_cons)

section

variable {D : Type*} [LinearOrder D] {array : List (Option D)} {cmpType : ECmpType}
  {earrcmpt : EArrCmpType} {l : List D} {prev x : D}

section SortedSet

theorem mem_dropRepeats : x=prev ∨ x∈dropRepeats prev l ↔ x∈prev::l := by
  induction l generalizing prev with
  | nil => simp [dropRepeats]
  | cons datum l ih =>
    rw [dropRepeats]
    split
    next heq =>
      rw [ih,heq]
      simp
    next =>
      rw [mem_cons,ih]
      simp

theorem pairwise_dropRepeats (h : (prev::l).Pairwise (· ≤ ·)) :
    (prev::dropRepeats prev l).Pairwise (· < ·) := by
  induction l generalizing prev with
  | nil => simp [dropRepeats]
  | cons datum l ih =>
    have hcons := pairwise_cons.mp h
    rw [dropRepeats]
    split
    next heq =>
      apply ih
      exact pairwise_cons.mpr ⟨fun y hy => hcons.1 y (by simp [hy]),(pairwise_cons.mp hcons.2).2⟩
    next hne =>
      have hrest := ih hcons.2
      have hlt : prev<datum := lt_of_le_of_ne (hcons.1 datum (by simp)) (Ne.symm hne)
      apply pairwise_cons.mpr
      refine ⟨fun y hy => ?_,hrest⟩
      obtain heq | hy := mem_cons.mp hy
      · rw [heq]; exact hlt
      · exact lt_trans hlt ((pairwise_cons.mp hrest).1 y hy)

theorem mem_datumSortedSet : x∈datumSortedSet array ↔ some x∈array := by
  have hsort : x∈(array.filterMap id).insertionSort (· ≤ ·) ↔ some x∈array := by simp
  unfold datumSortedSet
  rw [← hsort]
  split
  next heq => rw [heq]
  next datum datums heq => rw [heq,mem_cons,mem_dropRepeats]

theorem pairwise_datumSortedSet (array : List (Option D)) :
    (datumSortedSet array).Pairwise (· < ·) := by
  have hsort := pairwise_insertionSort (· ≤ ·) (array.filterMap id)
  unfold datumSortedSet
  split
  next => exact List.Pairwise.nil
  next datum datums heq =>
    rw [heq] at hsort
    exact pairwise_dropRepeats hsort

end SortedSet

section Ranges

theorem sortedRanges_points (h : l.Pairwise (· < ·)) : SortedRanges (l.map (ofCmp .ecmptEq)) := by
  induction l with
  | nil => exact nil
  | cons d l ih =>
    have hcons := pairwise_cons.mp h
    apply cons_iff.mpr
    refine ⟨by simp [ofCmp],fun b hb => ?_,ih hcons.2⟩
    obtain ⟨d',hd',rfl⟩ := mem_map.mp hb
    simpa [ofCmp] using hcons.1 d' hd'

theorem mem_spans_points : before x∈spans (l.map (ofCmp .ecmptEq)) ↔ x∈l := by
  induction l with
  | nil => simp
  | cons d l ih =>
    rw [map_cons,mem_covered_cons,ih,mem_cons]
    apply or_congr_left
    simp [ofCmp,le_antisymm_iff,and_comm]

theorem mem_spans_point {d : D} : before x∈spans [ofCmp .ecmptEq d] ↔ x=d := by
  have h : before x∈spans ([d].map (ofCmp .ecmptEq)) ↔ x∈[d] := mem_spans_points
  exact h.trans mem_singleton

theorem sortedRanges_notIn {prev : Option D} (h : l.Pairwise (· < ·))
    (hprev : ∀ p∈prev, ∀ d∈l, p<d) : SortedRanges (notInRanges prev l) ∧
      ∀ b∈notInRanges prev l, lo ⟨prev,eriExcluded,none,eriExcluded⟩≤b.lo := by
  induction l generalizing prev with
  | nil =>
    rw [notInRanges]
    refine ⟨singleton (lo_lt_top _),?_⟩
    simp
  | cons d l ih =>
    have hcons := pairwise_cons.mp h
    have hrest := ih hcons.2 fun p hp e he => Option.some.inj hp ▸ hcons.1 e he
    rw [notInRanges]
    have hlt : lo ⟨prev,eriExcluded,some d,eriExcluded⟩<before d := by
      cases prev with
      | none => simp
      | some p => simpa using hprev p rfl d (by simp)
    have hle : ∀ b∈notInRanges (some d) l, before d≤b.lo := fun b hb =>
      le_trans (by simp) (hrest.2 b hb)
    refine ⟨cons_iff.mpr ⟨hlt,hle,hrest.1⟩,fun b hb => ?_⟩
    obtain heq | hb := mem_cons.mp hb
    · rw [heq]; exact le_refl _
    · exact le_trans (le_of_lt hlt) (hle b hb)

/-- The gaps between the points hold every value but the points. -/
theorem mem_spans_notIn {prev : Option D} (h : l.Pairwise (· < ·)) (hprev : ∀ p∈prev, ∀ d∈l, p<d) :
    before x∈spans (notInRanges prev l) ↔ (∀ p∈prev, p<x) ∧ ¬x∈l := by
  have hbeg : lo ⟨prev,eriExcluded,none,eriExcluded⟩≤before x ↔ ∀ p∈prev, p<x := by
    cases prev with
    | none | some p => simp
  induction l generalizing prev with
  | nil =>
    rw [notInRanges,mem_covered_cons,mem_covered_nil,or_false]
    simp only [hi_none,before_lt_top,and_true,not_mem_nil,not_false_eq_true]
    exact hbeg
  | cons d l ih =>
    have hcons := pairwise_cons.mp h
    have hrest : before x∈spans (notInRanges (some d) l) ↔ d<x ∧ ¬x∈l := by
      have ih := ih hcons.2 (fun p hp e he => Option.some.inj hp ▸ hcons.1 e he) (by simp)
      simpa using ih
    have hd : ∀ p∈prev, p<d := fun p hp => hprev p hp d (by simp)
    have hlo : lo ⟨prev,eriExcluded,some d,eriExcluded⟩=
        lo ⟨prev,eriExcluded,none,eriExcluded⟩ := by
      cases prev with
      | none | some p => rfl
    rw [notInRanges,mem_covered_cons,hrest,hlo,hbeg]
    simp only [hi_excluded,before_lt_before,mem_cons,not_or]
    -- before the datum nothing of the list can be met, behind it the rest decides
    constructor
    · rintro (⟨hp,hlt⟩ | ⟨hgt,hno⟩)
      · exact ⟨hp,hlt.ne,fun hx => absurd (hcons.1 x hx) (not_lt.mpr (le_of_lt hlt))⟩
      · exact ⟨fun p hp => lt_trans (hd p hp) hgt,hgt.ne',hno⟩
    · rintro ⟨hp,hne,hno⟩
      obtain hlt | hgt := lt_or_gt_of_ne hne
      · exact .inl ⟨hp,hlt⟩
      · exact .inr ⟨hgt,hno⟩

end Ranges

variable [BoolDatums D]

def Domain (colref : CColRef) : Set (Option D) :=
  {v | colref.etiBool=true →
    v=none ∨ v=some datumFalse ∨ v=some datumTrue}

structure OnColumn (colref : CColRef) (pci : CConstraintInterval D) : Prop where
  column : pci.pcr=colref
  wellFormed : pci.WellFormed

/-- The interval holds the values of the column for which the expression passes, and no other
value that the column can have. -/
structure Exact (colref : CColRef) (u : Bool) (e : CExpression D) (pci : CConstraintInterval D) :
    Prop extends OnColumn colref pci where
  values : ∀ row, row colref∈Domain colref →
    (row colref∈pci.values ↔ Truth.Passes u (e.eval row))

variable {colref : CColRef} {v : Option D} {pci : CConstraintInterval D}

theorem onColumn_universal : OnColumn colref (pciUniversal colref u : CConstraintInterval D) :=
  ⟨rfl,pciUniversal_wellFormed colref u⟩

omit [BoolDatums D] in
theorem onColumn_nil : OnColumn colref (⟨colref,[],u⟩ : CConstraintInterval D) :=
  ⟨rfl,wellFormed_iff.mpr nil⟩

theorem mem_universal (hv : v∈Domain colref) :
    v∈(pciUniversal colref true : CConstraintInterval D).values := by
  cases hbool : colref.etiBool with
  | false => exact mem_values_pciUniversal hbool v
  | true =>
    have hlt : (datumFalse : D)<datumTrue := false_lt_true
    rcases hv hbool with rfl | rfl | rfl
    · exact none_mem_values.mpr rfl
    · rw [some_mem_values]
      simp [pciUniversal,hbool,le_of_lt hlt]
    · rw [some_mem_values]
      simp [pciUniversal,hbool,le_of_lt hlt]

theorem onColumn_complement (h : OnColumn colref pci) : OnColumn colref pci.pciComplement :=
  ⟨h.column,(pciDifference_spec (pciUniversal_wellFormed pci.pcr true) h.wellFormed).2⟩

theorem mem_complement (h : OnColumn colref pci) (hv : v∈Domain colref) :
    v∈pci.pciComplement.values ↔ ¬v∈pci.values := by
  have hdiff := (pciDifference_spec (pciUniversal_wellFormed pci.pcr true) h.wellFormed).1
  have huniv := mem_universal (h.column ▸ hv)
  rw [pciComplement,hdiff,Set.mem_sdiff]
  exact and_iff_right huniv

def IsComparison : ECmpType → Prop
  | .ecmptIDF => False
  | .ecmptOther => False
  | _ => True

attribute [local simp] cmpHolds evalCmp none_mem_values some_mem_values

omit [BoolDatums D] in
theorem ranges_cmp (hcmp : cmpType≠.ecmptOther) (datum : D) :
    ∃ pdrgprng, pciRangeFromColConstCmp cmpType datum=some pdrgprng ∧ SortedRanges pdrgprng ∧
      ∀ x, before x∈spans pdrgprng ↔ cmpHolds cmpType x datum=true := by
  have htwo : SortedRanges [ofCmp .ecmptL datum,ofCmp .ecmptG datum] := by
    apply cons_iff.mpr
    exact ⟨by simp [ofCmp],by simp [ofCmp],singleton (by simp [ofCmp])⟩
  have hspan : ∀ x, before x∈spans [ofCmp .ecmptL datum,ofCmp .ecmptG datum] ↔ x≠datum := by
    intro x
    simp [ofCmp,lt_or_lt_iff_ne]
  cases cmpType with
  | ecmptOther => exact absurd rfl hcmp
  | ecmptNEq | ecmptIDF => exact ⟨_,rfl,htwo,by simpa using hspan⟩
  | ecmptEq =>
    refine ⟨_,rfl,singleton (by simp [ofCmp]),fun x => mem_spans_point.trans ?_⟩
    simp
  | ecmptL | ecmptLEq | ecmptG | ecmptGEq =>
    exact ⟨_,rfl,singleton (by simp [ofCmp]),by simp [ofCmp]⟩

theorem exact_cmp (hcmp : IsComparison cmpType) (datum : D) :
    ∃ pci, pciIntervalFromColConstCmp colref cmpType datum u=some pci ∧
      Exact colref u (.scalarCmp cmpType colref datum) pci := by
  have hne : cmpType≠.ecmptOther := by
    rintro rfl
    exact hcmp
  obtain ⟨pdrgprng,heq,hsorted,hspan⟩ := ranges_cmp hne datum
  refine ⟨⟨colref,pdrgprng,u⟩,by rw [pciIntervalFromColConstCmp,heq]; rfl,?_⟩
  refine ⟨⟨rfl,wellFormed_iff.mpr hsorted⟩,fun row _ => ?_⟩
  rw [eval]
  cases row colref with
  | none => simp
  | some x => simpa using hspan x

theorem exact_idf (datum : Option D) : ∃ pci, pciIntervalFromScalarIDF colref datum=some pci ∧
      Exact colref u (.scalarIsDistinctFrom colref datum) pci := by
  cases datum with
  | none =>
    have hnil : OnColumn colref (⟨colref,[],true⟩ : CConstraintInterval D) := onColumn_nil
    refine ⟨_,rfl,onColumn_complement hnil,fun row hrow => ?_⟩
    rw [mem_complement hnil hrow,eval]
    cases row colref with
    | none => simp
    | some x => simp
  | some d =>
    have hne : ECmpType.ecmptIDF≠.ecmptOther := by simp
    obtain ⟨pdrgprng,heq,hsorted,hspan⟩ := ranges_cmp hne d
    refine ⟨⟨colref,pdrgprng,true⟩,by rw [pciIntervalFromScalarIDF,heq]; rfl,?_⟩
    refine ⟨⟨rfl,wellFormed_iff.mpr hsorted⟩,fun row _ => ?_⟩
    rw [eval]
    cases row colref with
    | none => simp
    | some x => simpa using hspan x

theorem exact_nullTest :
    Exact colref u (.scalarNullTest colref) (⟨colref,[],true⟩ : CConstraintInterval D) := by
  refine ⟨onColumn_nil,fun row _ => ?_⟩
  rw [eval]
  cases row colref with
  | none => simp
  | some x => simp

theorem exact_ident : Exact colref u (.scalarIdent colref)
      (⟨colref,[ofCmp .ecmptEq datumTrue],u⟩ : CConstraintInterval D) := by
  have hsorted : SortedRanges [ofCmp .ecmptEq (datumTrue : D)] :=
    sortedRanges_points (pairwise_singleton _ _)
  refine ⟨⟨rfl,wellFormed_iff.mpr hsorted⟩,fun row _ => ?_⟩
  rw [eval]
  cases row colref with
  | none => simp
  | some x =>
    rw [some_mem_values,mem_spans_point]
    simp

theorem exact_const_false :
    Exact colref u (.scalarConst false) (⟨colref,[],false⟩ : CConstraintInterval D) := by
  refine ⟨onColumn_nil,fun row _ => ?_⟩
  rw [eval]
  cases row colref with
  | none => simp
  | some x => simp

theorem exact_const_true (hcol : colref.fConstrainable=true) : ∃ pci : CConstraintInterval D,
    pciUnbounded colref true=some pci ∧ Exact colref u (.scalarConst true) pci := by
  refine ⟨pciUniversal colref true,by simp [pciUnbounded,hcol],onColumn_universal,
    fun row hrow => ?_⟩
  rw [eval]
  simpa using mem_universal hrow

def IsInOrNotIn (cmpType : ECmpType) (earrcmpt : EArrCmpType) : Prop :=
  cmpType=.ecmptEq ∧ earrcmpt=.earrcmpAny ∨ cmpType=.ecmptNEq ∧ earrcmpt=.earrcmpAll

omit [BoolDatums D] in
theorem passes_in_some : Truth.Passes u (evalArrayCmp .ecmptEq .earrcmpAny (some x) array) ↔
      some x∈array ∨ u=true ∧ none∈array := by
  rw [evalArrayCmp,passes_any_map]
  constructor
  · rintro ⟨w,hw,hpass⟩
    cases w with
    | none => exact .inr ⟨by simpa using hpass,hw⟩
    | some y =>
      have heq : x=y := by simpa using hpass
      exact .inl (heq ▸ hw)
  · rintro (hx | ⟨hu,hnull⟩)
    · exact ⟨some x,hx,by simp⟩
    · exact ⟨none,hnull,by simpa using hu⟩

omit [BoolDatums D] in
theorem passes_notIn_some : Truth.Passes u (evalArrayCmp .ecmptNEq .earrcmpAll (some x) array) ↔
      ¬some x∈array ∧ (none∈array → u=true) := by
  rw [evalArrayCmp,passes_all_map]
  constructor
  · intro h
    refine ⟨fun hx => ?_,fun hnull => by simpa using h none hnull⟩
    have hne := h (some x) hx
    simp at hne
  · rintro ⟨hx,hnull⟩ w hw
    cases w with
    | none => simpa using hnull hw
    | some y =>
      have hne : x≠y := fun heq => hx (heq ▸ hw)
      simpa using hne

omit [BoolDatums D] in
theorem passes_list_none (harray : array≠[]) :
    Truth.Passes u (evalArrayCmp cmpType earrcmpt none array) ↔ u=true := by
  obtain ⟨w,rest,rfl⟩ := exists_cons_of_ne_nil harray
  cases earrcmpt with
  | earrcmpAny =>
    rw [evalArrayCmp,passes_any_map]
    exact ⟨fun ⟨_,_,h⟩ => by simpa using h,fun h => ⟨w,by simp,by simpa using h⟩⟩
  | earrcmpAll =>
    rw [evalArrayCmp,passes_all_map]
    exact ⟨fun h => by simpa using h w (by simp),fun h _ _ => by simpa using h⟩

omit [LinearOrder D] [BoolDatums D] in
theorem fArrayHasNullConst_iff : fArrayHasNullConst array=true ↔ none∈array := by
  simp [fArrayHasNullConst]

/-- The branches of the code are exact for = ANY and <> ALL. -/
theorem exact_pciFromSortedSet (harray : array≠[]) (hin : IsInOrNotIn cmpType earrcmpt)
    (h : pciFromSortedSet colref cmpType array u=some pci) :
    Exact colref u (.scalarArrayCmp cmpType earrcmpt colref array) pci := by
  have hall : (∀ x, Passes u (evalArrayCmp cmpType earrcmpt (some x) array)) → u=true →
      pciUnbounded colref true=some pci →
        Exact colref u (.scalarArrayCmp cmpType earrcmpt colref array) pci := by
    intro hpass hu h
    obtain ⟨-,heq⟩ := Option.ite_none_right_eq_some.mp h
    cases heq
    refine ⟨onColumn_universal,fun row hrow => ?_⟩
    rw [CExpression.eval,iff_true_left (mem_universal hrow)]
    cases row colref with
    | none => exact (passes_list_none harray).mpr hu
    | some x => exact hpass x
  have hrgs : ∀ pdrgprng : List (CRange D), SortedRanges pdrgprng →
      (∀ x, Cut.before x∈spans pdrgprng ↔ Passes u (evalArrayCmp cmpType earrcmpt (some x) array)) →
      some ⟨colref,pdrgprng,u⟩=some pci →
        Exact colref u (.scalarArrayCmp cmpType earrcmpt colref array) pci := by
    intro pdrgprng hsorted hspan heq
    cases heq
    refine ⟨⟨rfl,wellFormed_iff.mpr hsorted⟩,fun row _ => ?_⟩
    rw [CExpression.eval]
    cases row colref with
    | none => exact none_mem_values.trans (passes_list_none harray).symm
    | some x => exact some_mem_values.trans (hspan x)
  have hset := pairwise_datumSortedSet array
  unfold pciFromSortedSet at h
  rcases hin with ⟨rfl,rfl⟩ | ⟨rfl,rfl⟩
  · rw [if_pos rfl] at h
    split at h
    next hnull =>
      rw [Bool.and_eq_true,fArrayHasNullConst_iff] at hnull
      exact hall (fun x => passes_in_some.mpr (.inr hnull)) hnull.1 h
    next hnull =>
      rw [Bool.and_eq_true,fArrayHasNullConst_iff] at hnull
      refine hrgs _ (sortedRanges_points hset) (fun x => ?_) h
      rw [mem_spans_points,mem_datumSortedSet,passes_in_some]
      simp [hnull]
  · rw [if_neg (by simp)] at h
    have hgaps : ∀ x, Cut.before x∈spans (notInRanges none (datumSortedSet array)) ↔
        ¬some x∈array := by
      intro x
      rw [mem_spans_notIn hset (by simp),mem_datumSortedSet]
      simp
    have hnone : none∈array → u=false → some ⟨colref,[],false⟩=some pci →
        Exact colref u (.scalarArrayCmp .ecmptNEq .earrcmpAll colref array) pci := by
      rintro hnull rfl
      refine hrgs [] nil fun x => ?_
      rw [passes_notIn_some]
      simp [hnull]
    split at h
    next hemp =>
      have hno : ∀ x, ¬some x∈array := by
        intro x hx
        have hmem := mem_datumSortedSet.mpr hx
        rw [isEmpty_iff.mp hemp] at hmem
        cases hmem
      cases u with
      | true => exact hall (fun x => passes_notIn_some.mpr ⟨hno x,fun _ => rfl⟩) rfl h
      | false =>
        refine hnone ?_ rfl h
        obtain ⟨w,rest,rfl⟩ := exists_cons_of_ne_nil harray
        cases w with
        | none => simp
        | some x => exact absurd (mem_cons_self) (hno x)
    next =>
      split at h
      next hnull =>
        rw [Bool.and_eq_true,fArrayHasNullConst_iff,Bool.not_eq_true'] at hnull
        exact hnone hnull.1 hnull.2 h
      next hnull =>
        rw [Bool.and_eq_true,fArrayHasNullConst_iff,Bool.not_eq_true'] at hnull
        refine hrgs _ (sortedRanges_notIn hset (by simp)).1 (fun x => ?_) h
        rw [hgaps,passes_notIn_some]
        refine (and_iff_left fun hmem => ?_).symm
        cases u with
        | true => rfl
        | false => exact absurd ⟨hmem,rfl⟩ hnull

/-- Whether every value passes: NULL passes and is among the elements of an IN, or is all there is
in a NOT IN. -/
def keepsAll (cmpType : ECmpType) (array : List (Option D)) (inferNullsAs : Bool) : Bool :=
  inferNullsAs && if cmpType=.ecmptEq then fArrayHasNullConst array else array.all (·.isNone)

omit [BoolDatums D] in
theorem isEmpty_datumSortedSet (array : List (Option D)) :
    (datumSortedSet array).isEmpty=array.all (·.isNone) := by
  rw [Bool.eq_iff_iff,List.isEmpty_iff,eq_nil_iff_forall_not_mem,all_eq_true]
  simp only [mem_datumSortedSet,Option.isNone_iff_eq_none]
  constructor
  · intro h v hv
    cases v with
    | none => rfl
    | some x => exact absurd hv (h x)
  · intro h x hx
    cases h _ hx

/-- Nothing is derived only where all values are to be kept of a column whose type has no interval
for that. -/
theorem pciFromSortedSet_eq_none : pciFromSortedSet colref cmpType array u=none ↔
    keepsAll cmpType array u=true ∧ colref.fConstrainable=false := by
  unfold pciFromSortedSet keepsAll pciUnbounded
  rw [isEmpty_datumSortedSet]
  cases u <;> simp <;> split_ifs <;> simp_all
  assumption

omit [BoolDatums D] in
theorem passes_equal_elements (harray : array≠[]) (hsame : ∀ v∈array, ∀ w∈array, v=w)
    (earrcmpt earrcmpt' : EArrCmpType) : Passes u (evalArrayCmp cmpType earrcmpt v array) ↔
      Passes u (evalArrayCmp cmpType earrcmpt' v array) := by
  obtain ⟨w,rest,rfl⟩ := exists_cons_of_ne_nil harray
  have hone : ∀ e, Passes u (evalArrayCmp cmpType e v (w::rest)) ↔
      Passes u (evalCmp cmpType v w) := by
    intro e
    have hw : ∀ w'∈w::rest, w'=w := fun w' hw' => hsame w' hw' w (by simp)
    cases e with
    | earrcmpAny =>
      rw [evalArrayCmp,passes_any_map]
      exact ⟨fun ⟨w',hw',h⟩ => hw w' hw' ▸ h,fun h => ⟨w,by simp,h⟩⟩
    | earrcmpAll =>
      rw [evalArrayCmp,passes_all_map]
      exact ⟨fun h => h w (by simp),fun h w' hw' => (hw w' hw').symm ▸ h⟩
  rw [hone,hone]

/-- An array with different elements has, for some value of the column, an element that passes and
one that does not. -/
theorem exists_pass_and_fail (hop : cmpType=.ecmptEq ∨ cmpType=.ecmptNEq)
    (hdiff : ¬∀ v∈array, ∀ w∈array, v=w) (u : Bool) : ∃ x, (∃ v∈array,
      Passes u (evalCmp cmpType (some x) v)) ∧ ∃ v∈array, ¬Passes u (evalCmp cmpType (some x) v) := by
  have hother : ∀ a : D, ∃ x, x≠a := by
    intro a
    have hlt : (datumFalse : D)<datumTrue := false_lt_true
    by_cases heq : datumTrue=a
    · exact ⟨datumFalse,heq ▸ hlt.ne⟩
    · exact ⟨datumTrue,heq⟩
  -- a constant and NULL: the comparison with the constant is made the opposite of that with NULL
  have hnull : ∀ a, some a∈array → none∈array → ∃ x, (∃ v∈array,
      Passes u (evalCmp cmpType (some x) v)) ∧
        ∃ v∈array, ¬Passes u (evalCmp cmpType (some x) v) := by
    intro a ha hnone
    have hx : ∃ x, cmpHolds cmpType x a=!u := by
      obtain ⟨y,hy⟩ := hother a
      rcases hop with rfl | rfl <;> cases u
      · exact ⟨a,by simp⟩
      · exact ⟨y,by simpa using hy⟩
      · exact ⟨y,by simpa using hy⟩
      · exact ⟨a,by simp⟩
    obtain ⟨x,hx⟩ := hx
    have hval : evalCmp cmpType (some x) (some a)=some (!u) := congrArg some hx
    cases u with
    | true => exact ⟨x,⟨none,hnone,by simp⟩,some a,ha,by simp only [hval]; simp⟩
    | false => exact ⟨x,⟨some a,ha,by simp only [hval]; simp⟩,none,hnone,by simp⟩
  push Not at hdiff
  obtain ⟨v,hv,w,hw,hne⟩ := hdiff
  cases v with
  | none =>
    cases w with
    | none => exact absurd rfl hne
    | some b => exact hnull b hw hv
  | some a =>
    cases w with
    | none => exact hnull a hv hw
    | some b =>
      have hab : a≠b := fun heq => hne (congrArg some heq)
      rcases hop with rfl | rfl
      · exact ⟨a,⟨some a,hv,by simp⟩,some b,hw,by simpa using hab⟩
      · exact ⟨a,⟨some b,hw,by simpa using hab⟩,some a,hv,by simp⟩

/-- The interval is built without a look at the quantifier. What is returned is exact where nothing
is, for IN and NOT IN, and for an array of equal elements, and in no other case. -/
theorem array_interval_exact (hint : CHint) (colref : CColRef) (hbool : colref.etiBool=false)
    (harray : array≠[]) (hop : cmpType=.ecmptEq ∨ cmpType=.ecmptNEq) (earrcmpt : EArrCmpType)
    (inferNullsAs : Bool) (bailouts : Nat) :
    (∀ pci, (pcnstrIntervalFromScalarArrayCmp hint colref cmpType array inferNullsAs bailouts).1=
      some pci →
        pci.values={v : Option D | Passes inferNullsAs (evalArrayCmp cmpType earrcmpt v array)}) ↔
    (hint.ulArrayIntervalThreshold<array.length ∧ ¬none∈array) ∨
      (colref.fConstrainable=false ∧ cmpType=.ecmptEq ∧ inferNullsAs=true ∧ none∈array) ∨
      IsInOrNotIn cmpType earrcmpt ∨ ∀ v∈array, ∀ w∈array, v=w := by
  have hlen : ¬array.length=0 := fun h => harray (length_eq_zero_iff.mp h)
  have hcmp : ¬(cmpType≠.ecmptEq ∧ cmpType≠.ecmptNEq) := fun h => hop.elim h.1 h.2
  unfold pcnstrIntervalFromScalarArrayCmp
  rw [if_neg hcmp,if_neg hlen]
  by_cases hlong : hint.ulArrayIntervalThreshold<array.length ∧ ¬none∈array
  · rw [if_pos (by rwa [fArrayHasNullConst_iff])]
    exact iff_of_true nofun (.inl hlong)
  rw [if_neg (by rwa [fArrayHasNullConst_iff])]
  obtain ⟨e,hin⟩ : ∃ e, IsInOrNotIn cmpType e := by
    rcases hop with rfl | rfl
    · exact ⟨.earrcmpAny,.inl ⟨rfl,rfl⟩⟩
    · exact ⟨.earrcmpAll,.inr ⟨rfl,rfl⟩⟩
  have hex : ∀ pci, pciFromSortedSet colref cmpType array inferNullsAs=some pci →
      ∀ v, v∈pci.values ↔ Passes inferNullsAs (evalArrayCmp cmpType e v array) := by
    intro pci h v
    have hdom : v∈Domain colref := fun hb => absurd (hbool.symm.trans hb) (by simp)
    exact (exact_pciFromSortedSet harray hin h).values (fun _ => v) hdom
  constructor
  · intro hall
    by_contra hnot
    simp only [not_or] at hnot
    obtain ⟨-,hcol,hquant,hdiff⟩ := hnot
    obtain ⟨pci,hpci⟩ : ∃ pci, pciFromSortedSet colref cmpType array inferNullsAs=some pci := by
      refine Option.ne_none_iff_exists'.mp fun hnone => ?_
      obtain ⟨hkeep,hc⟩ := pciFromSortedSet_eq_none.mp hnone
      rw [keepsAll,Bool.and_eq_true] at hkeep
      obtain ⟨hu,hkeep⟩ := hkeep
      split at hkeep
      next heq => exact hcol ⟨hc,heq,hu,fArrayHasNullConst_iff.mp hkeep⟩
      next =>
        have hnull : ∀ v∈array, v=none := by simpa using hkeep
        exact hdiff fun v hv w hw => (hnull v hv).trans (hnull w hw).symm
    obtain ⟨x,hpass,hfail⟩ := exists_pass_and_fail hop hdiff inferNullsAs
    -- one of the two quantifiers passes at the value and the other does not
    have hany : Passes inferNullsAs (evalArrayCmp cmpType .earrcmpAny (some x) array) := by
      rw [evalArrayCmp,passes_any_map]
      exact hpass
    have hnall : ¬Passes inferNullsAs (evalArrayCmp cmpType .earrcmpAll (some x) array) := by
      rw [evalArrayCmp,passes_all_map]
      obtain ⟨v,hv,hf⟩ := hfail
      exact fun h => hf (h v hv)
    have hval := hex pci hpci (some x)
    rw [hall pci hpci] at hval
    have hne : earrcmpt≠e := fun heq => hquant (heq ▸ hin)
    cases earrcmpt <;> cases e
    · exact hne rfl
    · exact hnall (hval.mp hany)
    · exact hnall (hval.mpr hany)
    · exact hne rfl
  · rintro (h | ⟨hc,rfl,rfl,hnull⟩ | hin' | hsame) pci hpci
    · exact absurd h hlong
    · have hnull := fArrayHasNullConst_iff.mpr hnull
      simp [pciFromSortedSet,pciUnbounded,hnull,hc] at hpci
    · ext v
      have heq : earrcmpt=e := by
        rcases hin with ⟨rfl,rfl⟩ | ⟨rfl,rfl⟩ <;> simpa [IsInOrNotIn] using hin'
      rw [heq]
      exact hex pci hpci v
    · ext v
      exact (hex pci hpci v).trans (passes_equal_elements harray hsame _ _)

theorem array_interval_exact_notIn : ∃ pci, (pcnstrIntervalFromScalarArrayCmp ⟨true,1⟩ numberColumn
      .ecmptNEq [some 2,none,some 1,some 2] true 0).1=some pci ∧
    pci.values={v | Passes true
      (evalArrayCmp .ecmptNEq .earrcmpAll v [some 2,none,some 1,some 2])} := by
  have hex := (array_interval_exact ⟨true,1⟩ numberColumn rfl
    (by simp : [some 2,none,some 1,some 2]≠[]) (.inr rfl) .earrcmpAll true 0).mpr
      (.inr (.inr (.inl (.inr ⟨rfl,rfl⟩))))
  have hsome : (pcnstrIntervalFromScalarArrayCmp ⟨true,1⟩ numberColumn .ecmptNEq
      [some 2,none,some 1,some 2] true 0).1.isSome := by decide +kernel
  obtain ⟨pci,hpci⟩ := Option.isSome_iff_exists.mp hsome
  exact ⟨pci,hpci,hex pci hpci⟩

/-- x = ALL (1,2) is never true, but the interval holds 1 and 2. -/
theorem array_interval_ignores_quantifier : ∃ pci, (pcnstrIntervalFromScalarArrayCmp ⟨true,9⟩
      numberColumn .ecmptEq [some 1,some 2] false 0).1=some pci ∧ some 1∈pci.values ∧
    ¬Passes false (evalArrayCmp .ecmptEq .earrcmpAll (some 1) [some 1,some 2]) := by
  refine ⟨⟨numberColumn,[1,2].map (CRange.ofCmp .ecmptEq),false⟩,by decide +kernel,?_,by decide⟩
  rw [some_mem_values,mem_spans_points]
  simp

end

variable {D : Type*} [LinearOrder D] {colref : CColRef} {l : List (CConstraintInterval D)}
  {a b : CConstraintInterval D} {acc : Option (CConstraintInterval D)} {array : List (Option D)}
  {cmpType : ECmpType} {cs : List (CExpression D)}

theorem onColumn_intersect (ha : OnColumn colref a) (hb : OnColumn colref b) :
    OnColumn colref (a.pciIntersect b) :=
  ⟨ha.column,(pciIntersect_spec ha.wellFormed hb.wellFormed).2⟩

theorem onColumn_union (ha : OnColumn colref a) (hb : OnColumn colref b) :
    OnColumn colref (a.pciUnion b) :=
  ⟨ha.column,(pciUnion_spec ha.wellFormed hb.wellFormed).2⟩

theorem unionPairs_spec (h : ∀ p∈l, OnColumn colref p) : (∀ p∈unionPairs l, OnColumn colref p) ∧
      ∀ v, (∃ p∈unionPairs l, v∈p.values) ↔ ∃ p∈l, v∈p.values := by
  fun_induction unionPairs l with
  | case1 pci1 pci2 constraints ih =>
    have ih := ih fun p hp => h p (by simp [hp])
    have h1 := h pci1 (by simp)
    have h2 := h pci2 (by simp)
    constructor
    · intro p hp
      obtain heq | hp := List.mem_cons.mp hp
      · rw [heq]; exact onColumn_union h1 h2
      · exact ih.1 p hp
    · intro v
      have hunn : v∈(pci1.pciUnion pci2).values ↔ v∈pci1.values ∨ v∈pci2.values := by
        rw [(pciUnion_spec h1.wellFormed h2.wellFormed).1,Set.mem_union]
      simp only [List.exists_mem_cons_iff,ih.2 v,hunn,or_assoc]
  | case2 constraints => exact ⟨h,fun v => Iff.rfl⟩

theorem unionInPairs_spec (h : ∀ p∈l, OnColumn colref p) (hne : l≠[]) :
    ∃ pci, unionInPairs l=some pci ∧ OnColumn colref pci ∧
      ∀ v, v∈pci.values ↔ ∃ p∈l, v∈p.values := by
  fun_induction unionInPairs l with
  | case1 => exact absurd rfl hne
  | case2 pci => exact ⟨pci,rfl,h pci (by simp),by simp⟩
  | case3 pci1 pci2 constraints ih =>
    have hpairs := unionPairs_spec h
    obtain ⟨pci,hpci,hcol,hvalues⟩ := ih hpairs.1 (by simp [unionPairs])
    exact ⟨pci,hpci,hcol,fun v => (hvalues v).trans (hpairs.2 v)⟩

variable [BoolDatums D] {hint : CHint} {u : Bool} {pci : CConstraintInterval D}

theorem onColumn_unbounded (h : pciUnbounded colref u=some pci) : OnColumn colref pci := by
  have h := Option.ite_none_right_eq_some.mp h
  obtain rfl := Option.some.inj h.2
  exact onColumn_universal

omit [BoolDatums D] in
theorem onColumn_cmp (h : pciIntervalFromColConstCmp colref cmpType datum u=some pci) :
    OnColumn colref pci := by
  obtain ⟨pdrgprng,hrgs,rfl⟩ := Option.map_eq_some_iff.mp h
  have hcmp : cmpType≠.ecmptOther := by
    rintro rfl
    exact absurd hrgs (by simp [pciRangeFromColConstCmp])
  obtain ⟨pdrgprng',heq,hsorted,-⟩ := ranges_cmp hcmp datum
  obtain rfl := Option.some.inj (hrgs.symm.trans heq)
  exact ⟨rfl,wellFormed_iff.mpr hsorted⟩

theorem onColumn_sortedSet (h : pciFromSortedSet colref cmpType array u=some pci) :
    OnColumn colref pci := by
  have hset := pairwise_datumSortedSet array
  unfold pciFromSortedSet at h
  split_ifs at h
  · exact onColumn_unbounded h
  · cases h
    exact ⟨rfl,wellFormed_iff.mpr (sortedRanges_points hset)⟩
  · exact onColumn_unbounded h
  · cases h
    exact onColumn_nil
  · cases h
    exact onColumn_nil
  · cases h
    exact ⟨rfl,wellFormed_iff.mpr (sortedRanges_notIn hset (by simp)).1⟩

theorem onColumn_arrayCmp
    (h : (pcnstrIntervalFromScalarArrayCmp hint colref cmpType array u n).1=some pci) :
    OnColumn colref pci := by
  unfold pcnstrIntervalFromScalarArrayCmp at h
  split_ifs at h
  exact onColumn_sortedSet h

structure Kept (Q : CConstraintInterval D → Prop) : Prop where
  intersect : ∀ {a b}, Q a → Q b → Q (a.pciIntersect b)
  union : ∀ {a b}, Q a → Q b → Q (a.pciUnion b)
  complement : ∀ {a}, Q a → Q a.pciComplement

namespace Kept

variable {Q : CConstraintInterval D → Prop} (hQ : Kept Q)
include hQ

theorem map_complement {o : Option (CConstraintInterval D)}
    (ho : ∀ p, o=some p → Q p) (h : o.map (·.pciComplement)=some pci) : Q pci := by
  obtain ⟨p,hp,rfl⟩ := Option.map_eq_some_iff.mp h
  exact hQ.complement (ho p hp)

theorem pciAnd {child : Option (CConstraintInterval D)} (hacc : ∀ a, acc=some a → Q a)
    (hch : ∀ p, child=some p → Q p) : ∀ a, pciAnd acc child=some a → Q a := by
  intro a ha
  match acc, child, ha with
  | some b, some p, rfl => exact hQ.intersect (hacc b rfl) (hch p rfl)
  | none, some p, rfl => exact hch p rfl
  | some b, none, rfl => exact hacc b rfl

theorem unionPairs (h : ∀ p∈l, Q p) : ∀ p∈unionPairs l, Q p := by
  fun_induction Orca.unionPairs l with
  | case1 pci1 pci2 constraints ih =>
    have ih := ih fun p hp => h p (by simp [hp])
    exact List.forall_mem_cons.mpr ⟨hQ.union (h pci1 (by simp)) (h pci2 (by simp)),ih⟩
  | case2 constraints => exact h

theorem unionInPairs (h : ∀ p∈l, Q p) : ∀ p, unionInPairs l=some p → Q p := by
  fun_induction Orca.unionInPairs l with
  | case1 => simp
  | case2 pci => simpa using h pci (by simp)
  | case3 pci1 pci2 constraints ih => exact ih (hQ.unionPairs h)

theorem boolAnd
    (hcs : ∀ c∈cs, ∀ n pci, (pciIntervalFromScalarExpr hint colref c u n).1=some pci → Q pci)
    (hacc : ∀ a, acc=some a → Q a)
    (h : (pciIntervalFromScalarBoolAnd hint colref cs u acc n).1=some pci) : Q pci := by
  induction cs generalizing acc n with
  | nil => exact hacc pci h
  | cons c cs ih =>
    rw [pciIntervalFromScalarBoolAnd] at h
    have hch := hcs c (by simp) n
    exact ih (fun c hc => hcs c (by simp [hc])) (hQ.pciAnd hacc hch) h

end Kept

theorem boolOr_children {Q : CConstraintInterval D → Prop}
    (hcs : ∀ c∈cs, ∀ n pci, (pciIntervalFromScalarExpr hint colref c u n).1=some pci → Q pci)
    (h : (pciChildrenFromScalarBoolOr hint colref cs u n).1=some l) : ∀ p∈l, Q p := by
  induction cs generalizing n l with
  | nil =>
    cases h
    simp
  | cons c cs ih =>
    rw [pciChildrenFromScalarBoolOr] at h
    split at h
    next => cases h
    next p hp =>
      obtain ⟨rest,hrest,rfl⟩ := Option.map_eq_some_iff.mp h
      have hrest := ih (fun c hc => hcs c (by simp [hc])) hrest
      exact List.forall_mem_cons.mpr ⟨hcs c (by simp) n p hp,hrest⟩

attribute [local simp] pciIntervalFromScalarExpr

/-- What the interval operations keep holds of every derived interval. -/
theorem Kept.derived {Q : CConstraintInterval D → Prop} (hQ : Kept Q) (hint : CHint)
    (colref : CColRef) (hnull : Q ⟨colref,[],true⟩) (e : CExpression D)
    (hleaf : ∀ s∈e.subexprs, s.isLeaf=true →
      ∀ u n pci, (pciIntervalFromScalarExpr hint colref s u n).1=some pci → Q pci) :
    ∀ u n pci, (pciIntervalFromScalarExpr hint colref e u n).1=some pci → Q pci := by
  induction e using CExpression.induction with
  | leaf e he => exact hleaf e (self_mem_subexprs e) he
  | booleanTest ebt c ih =>
    intro u n pci h
    have ih := ih fun s hs => hleaf s (subexprs_test s hs)
    cases ebt with
    | ebtIsTrue | ebtIsNotFalse => exact ih _ _ _ h
    | ebtIsNotTrue | ebtIsFalse => exact hQ.map_complement (ih _ _) h
    | ebtIsUnknown =>
      cases c with
      | scalarIdent c =>
        cases h
        exact hnull
      | _ => exact absurd h (by simp)
    | ebtIsNotUnknown =>
      cases c with
      | scalarIdent c =>
        cases h
        exact hQ.complement hnull
      | _ => exact absurd h (by simp)
  | boolAnd cs ih =>
    intro u n pci h
    have ih := fun c hc => ih c hc fun s hs => hleaf s (subexprs_and hc s hs)
    exact hQ.boolAnd (fun c hc => ih c hc u) (by simp) h
  | boolOr cs ih =>
    intro u n pci h
    have ih := fun c hc => ih c hc fun s hs => hleaf s (subexprs_or hc s hs)
    obtain ⟨l,hl,hunn⟩ := Option.bind_eq_some_iff.mp h
    exact hQ.unionInPairs (boolOr_children (fun c hc => ih c hc u) hl) pci hunn
  | boolNot c ih =>
    intro u n pci h
    have ih := ih fun s hs => hleaf s (subexprs_not s hs)
    rw [pciIntervalFromScalarExpr] at h
    split at h
    next => exact hQ.map_complement (ih _ _) h
    next => cases h

theorem onColumn_kept (colref : CColRef) : Kept (OnColumn colref : CConstraintInterval D → Prop) :=
  ⟨onColumn_intersect,onColumn_union,onColumn_complement⟩

theorem derived_onColumn (hint : CHint) (colref : CColRef) (e : CExpression D) :
    ∀ u n pci, (pciIntervalFromScalarExpr hint colref e u n).1=some pci → OnColumn colref pci := by
  apply (onColumn_kept colref).derived hint colref onColumn_nil e
  intro s _ hs u n pci h
  cases s with
  | scalarConst b =>
    rw [pciIntervalFromScalarExpr] at h
    split_ifs at h
    · exact onColumn_unbounded h
    · cases h
      exact onColumn_nil
  | scalarIdent c =>
    cases h
    exact ⟨rfl,wellFormed_iff.mpr (Apart.singleton (by simp [CRange.ofCmp]))⟩
  | scalarNullTest c =>
    cases h
    exact onColumn_nil
  | scalarIsDistinctFrom c datum =>
    have hidf : ∃ pci, pciIntervalFromScalarIDF colref datum=some pci ∧
      Exact colref u (.scalarIsDistinctFrom colref datum) pci := exact_idf datum
    obtain ⟨pci',heq,hex⟩ := hidf
    obtain rfl := Option.some.inj (heq.symm.trans h)
    exact hex.toOnColumn
  | scalarCmp cmpType c datum => exact onColumn_cmp h
  | scalarCmpCol cmpType left right => exact absurd h (by simp)
  | scalarArrayCmp cmpType earrcmpt c array =>
    rw [pciIntervalFromScalarExpr] at h
    split at h
    · exact onColumn_arrayCmp h
    · cases h
  | _ => exact absurd hs (by simp [CExpression.isLeaf])

end WarehousePG.Orca
