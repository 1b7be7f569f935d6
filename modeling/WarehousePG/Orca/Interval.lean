import WarehousePG.Framework.Cut

namespace WarehousePG.Orca

open Framework Cut

section

section

inductive ERangeInclusion where
  | eriIncluded
  | eriExcluded
  deriving DecidableEq

open ERangeInclusion

def eriInverseInclusion : ERangeInclusion → ERangeInclusion
  | eriIncluded => eriExcluded
  | eriExcluded => eriIncluded

inductive ECmpType where
  | ecmptEq
  | ecmptNEq
  | ecmptL
  | ecmptLEq
  | ecmptG
  | ecmptGEq
  | ecmptIDF
  | ecmptOther
  deriving DecidableEq

structure CRange (D : Type*) where
  pdatumLeft : Option D
  eriLeft : ERangeInclusion
  pdatumRight : Option D
  eriRight : ERangeInclusion
  deriving DecidableEq

namespace CRange

variable {D : Type*} [LinearOrder D]

/-- The assertion of the constructor on the two datums. -/
def IsValid (this : CRange D) : Prop := ∀ l∈this.pdatumLeft, ∀ r∈this.pdatumRight, l≤r

def ofCmp (cmpType : ECmpType) (datum : D) : CRange D :=
  match cmpType with
  | .ecmptEq => ⟨some datum,eriIncluded,some datum,eriIncluded⟩
  | .ecmptL => ⟨none,eriExcluded,some datum,eriExcluded⟩
  | .ecmptLEq => ⟨none,eriExcluded,some datum,eriIncluded⟩
  | .ecmptG => ⟨some datum,eriExcluded,none,eriExcluded⟩
  | .ecmptGEq => ⟨some datum,eriIncluded,none,eriExcluded⟩
  | _ => ⟨none,eriExcluded,none,eriExcluded⟩

def fDisjointLeft (this prange : CRange D) : Bool :=
  match this.pdatumRight, prange.pdatumLeft with
  | some r, some l =>
    if r<l then true
    else if r=l then this.eriRight=eriExcluded || prange.eriLeft=eriExcluded
    else false
  | _, _ => false

/-- Two ranges infinite to the left count as starting before each other. -/
def fStartsBefore (this prange : CRange D) : Bool :=
  match this.pdatumLeft, prange.pdatumLeft with
  | l, none => l.isNone
  | none, some _ => true
  | some l, some l' =>
    if l<l' then true
    else if l'<l then false
    else this.eriLeft=eriIncluded && prange.eriLeft=eriExcluded

/-- Two ranges infinite to the right count as ending after each other. -/
def fEndsAfter (this prange : CRange D) : Bool :=
  match this.pdatumRight, prange.pdatumRight with
  | r, none => r.isNone
  | none, some _ => true
  | some r, some r' =>
    if r'<r then true
    else if r<r' then false
    else this.eriRight=eriIncluded && prange.eriRight=eriExcluded

def fStartsWithOrBefore (this prange : CRange D) : Bool :=
  if this.fStartsBefore prange then true
  else match this.pdatumLeft, prange.pdatumLeft with
    | none, none => true
    | some l, some l' => l=l' && this.eriLeft=prange.eriLeft
    | _, _ => false

def fEndsWithOrAfter (this prange : CRange D) : Bool :=
  if this.fEndsAfter prange then true
  else match this.pdatumRight, prange.pdatumRight with
    | none, none => true
    | some r, some r' => r=r' && this.eriRight=prange.eriRight
    | _, _ => false

def contains (this prange : CRange D) : Bool :=
  this.fStartsWithOrBefore prange && this.fEndsWithOrAfter prange

def fOverlapsLeft (this prange : CRange D) : Bool :=
  this.fStartsBefore prange && !this.fEndsAfter prange && !this.fDisjointLeft prange

def fOverlapsRight (this prange : CRange D) : Bool :=
  this.fEndsAfter prange && !this.fStartsBefore prange && !prange.fDisjointLeft this

def isConstraintUnbounded (this : CRange D) : Bool :=
  this.pdatumLeft.isNone && this.pdatumRight.isNone

def prngIntersect (this prange : CRange D) : Option (CRange D) :=
  if this.contains prange then some prange
  else if prange.contains this then some this
  else if this.fOverlapsLeft prange then
    some ⟨prange.pdatumLeft,prange.eriLeft,this.pdatumRight,this.eriRight⟩
  else if this.fOverlapsRight prange then
    some ⟨this.pdatumLeft,this.eriLeft,prange.pdatumRight,prange.eriRight⟩
  else none

def prngDifferenceLeft (this prange : CRange D) : Option (CRange D) :=
  if this.fDisjointLeft prange then some this
  else match prange.pdatumLeft with
    | none => none
    | some l =>
      if this.fStartsBefore prange then
        some ⟨this.pdatumLeft,this.eriLeft,some l,eriInverseInclusion prange.eriLeft⟩
      else none

def prngDifferenceRight (this prange : CRange D) : Option (CRange D) :=
  if prange.fDisjointLeft this then some this
  else match prange.pdatumRight with
    | none => none
    | some r =>
      if this.fEndsAfter prange then
        some ⟨some r,eriInverseInclusion prange.eriRight,this.pdatumRight,this.eriRight⟩
      else none

/-- One range for this one and the given one, if the given one begins where this one ends. The
comparator is not to be asked about an infinite end: in sorted ranges nothing follows one. -/
def prngExtend (this prange : CRange D) : Option (CRange D) :=
  if (prange.eriLeft=eriIncluded ∨ this.eriRight=eriIncluded) ∧
      prange.pdatumLeft.isSome ∧ prange.pdatumLeft=this.pdatumRight then
    some ⟨this.pdatumLeft,this.eriLeft,prange.pdatumRight,prange.eriRight⟩
  else none

def Member (this : CRange D) (x : D) : Prop :=
  (∀ l∈this.pdatumLeft, l<x ∨ l=x ∧ this.eriLeft=eriIncluded) ∧
    ∀ r∈this.pdatumRight, x<r ∨ x=r ∧ this.eriRight=eriIncluded

def NonEmpty (this : CRange D) : Prop :=
  ∀ l∈this.pdatumLeft, ∀ r∈this.pdatumRight,
    l<r ∨ l=r ∧ this.eriLeft=eriIncluded ∧ this.eriRight=eriIncluded

def lo (this : CRange D) : Cut D :=
  match this.pdatumLeft, this.eriLeft with
  | none, _ => ⊥
  | some l, eriIncluded => .before l
  | some l, eriExcluded => .after l

def hi (this : CRange D) : Cut D :=
  match this.pdatumRight, this.eriRight with
  | none, _ => ⊤
  | some r, eriIncluded => .after r
  | some r, eriExcluded => .before r

variable {this prange : CRange D} {i j : ERangeInclusion} {r : Option D}

@[simp] theorem lo_none : lo ⟨none,i,r,j⟩=⊥ := rfl

@[simp] theorem lo_included {l : D} : lo ⟨some l,eriIncluded,r,j⟩=.before l := rfl

@[simp] theorem lo_excluded {l : D} : lo ⟨some l,eriExcluded,r,j⟩=.after l := rfl

variable {l : Option D}

@[simp] theorem hi_none : hi ⟨l,i,none,j⟩=⊤ := rfl

@[simp] theorem hi_included {r : D} : hi ⟨l,i,some r,eriIncluded⟩=.after r := rfl

@[simp] theorem hi_excluded {r : D} : hi ⟨l,i,some r,eriExcluded⟩=.before r := rfl

theorem member_iff : this.Member x ↔ this.lo≤.before x ∧ before x<this.hi := by
  have hleft : (∀ l∈this.pdatumLeft, l<x ∨ l=x ∧ this.eriLeft=eriIncluded) ↔ this.lo≤.before x := by
    match this with
    | ⟨none,i,r,j⟩ => simp
    | ⟨some l,eriIncluded,r,j⟩ => simp [← le_iff_lt_or_eq]
    | ⟨some l,eriExcluded,r,j⟩ => simp
  have hright : (∀ r∈this.pdatumRight, x<r ∨ x=r ∧ this.eriRight=eriIncluded) ↔
      before x<this.hi := by
    match this with
    | ⟨l,i,none,j⟩ => simp
    | ⟨l,i,some r,eriIncluded⟩ => simp [← le_iff_lt_or_eq]
    | ⟨l,i,some r,eriExcluded⟩ => simp
  exact and_congr hleft hright

theorem bot_lt_hi (this : CRange D) : ⊥ < this.hi := by
  match this with
  | ⟨_,_,none,_⟩ => simp
  | ⟨_,_,some _,eriIncluded⟩ => simp
  | ⟨_,_,some _,eriExcluded⟩ => simp

theorem lo_lt_top (this : CRange D) : this.lo<⊤ := by
  match this with
  | ⟨none,_,_,_⟩ => simp
  | ⟨some _,eriIncluded,_,_⟩ => simp
  | ⟨some _,eriExcluded,_,_⟩ => simp

attribute [local simp] NonEmpty fDisjointLeft fEndsAfter fStartsBefore

theorem nonEmpty_iff : this.NonEmpty ↔ this.lo<this.hi := by
  match this with
  | ⟨none,i,r,j⟩ => simpa using bot_lt_hi _
  | ⟨some l,i,none,j⟩ => simpa using lo_lt_top _
  | ⟨some l,eriIncluded,some r,eriIncluded⟩ => simp [← le_iff_lt_or_eq]
  | ⟨some l,eriIncluded,some r,eriExcluded⟩ => simp
  | ⟨some l,eriExcluded,some r,eriIncluded⟩ => simp
  | ⟨some l,eriExcluded,some r,eriExcluded⟩ => simp

theorem fDisjointLeft_iff : this.fDisjointLeft prange ↔ this.hi≤prange.lo := by
  match this, prange with
  | ⟨_,_,none,_⟩, prange => simpa using (lo_lt_top prange).ne
  | ⟨_,_,some r,j⟩, ⟨none,_,_,_⟩ => simpa using (bot_lt_hi _).ne'
  | ⟨_,_,some r,eriIncluded⟩, ⟨some l,eriIncluded,_,_⟩ => simp
  | ⟨_,_,some r,eriIncluded⟩, ⟨some l,eriExcluded,_,_⟩ => simp [← le_iff_lt_or_eq]
  | ⟨_,_,some r,eriExcluded⟩, ⟨some l,eriIncluded,_,_⟩ => simp [← le_iff_lt_or_eq]
  | ⟨_,_,some r,eriExcluded⟩, ⟨some l,eriExcluded,_,_⟩ => simp [← le_iff_lt_or_eq]

theorem fStartsBefore_iff :
    this.fStartsBefore prange ↔ this.lo<prange.lo ∨ this.lo=⊥ ∧ prange.lo=⊥ := by
  match this, prange with
  | ⟨none,_,_,_⟩, ⟨none,_,_,_⟩ => simp
  | ⟨some l,eriIncluded,_,_⟩, ⟨none,_,_,_⟩ => simp [bot_lt_before.ne']
  | ⟨some l,eriExcluded,_,_⟩, ⟨none,_,_,_⟩ => simp [bot_lt_after.ne']
  | ⟨none,_,_,_⟩, ⟨some l,eriIncluded,_,_⟩ => simp
  | ⟨none,_,_,_⟩, ⟨some l,eriExcluded,_,_⟩ => simp
  | ⟨some l,eriIncluded,_,_⟩, ⟨some l',eriIncluded,_,_⟩ => simp [bot_lt_before.ne']
  | ⟨some l,eriIncluded,_,_⟩, ⟨some l',eriExcluded,_,_⟩ =>
    simpa [bot_lt_before.ne'] using le_of_lt
  | ⟨some l,eriExcluded,_,_⟩, ⟨some l',eriIncluded,_,_⟩ => simp [bot_lt_after.ne']
  | ⟨some l,eriExcluded,_,_⟩, ⟨some l',eriExcluded,_,_⟩ => simp [bot_lt_after.ne']

theorem fEndsAfter_iff : this.fEndsAfter prange ↔ prange.hi<this.hi ∨ this.hi=⊤ ∧ prange.hi=⊤ := by
  match this, prange with
  | ⟨_,_,none,_⟩, ⟨_,_,none,_⟩ => simp
  | ⟨_,_,some r,eriIncluded⟩, ⟨_,_,none,_⟩ => simp [after_lt_top.ne]
  | ⟨_,_,some r,eriExcluded⟩, ⟨_,_,none,_⟩ => simp [before_lt_top.ne]
  | ⟨_,_,none,_⟩, ⟨_,_,some r,eriIncluded⟩ => simp
  | ⟨_,_,none,_⟩, ⟨_,_,some r,eriExcluded⟩ => simp
  | ⟨_,_,some r,eriIncluded⟩, ⟨_,_,some r',eriIncluded⟩ => simp [after_lt_top.ne]
  | ⟨_,_,some r,eriIncluded⟩, ⟨_,_,some r',eriExcluded⟩ =>
    simpa [after_lt_top.ne] using le_of_lt
  | ⟨_,_,some r,eriExcluded⟩, ⟨_,_,some r',eriIncluded⟩ => simp [before_lt_top.ne]
  | ⟨_,_,some r,eriExcluded⟩, ⟨_,_,some r',eriExcluded⟩ => simp [before_lt_top.ne]

theorem lo_eq_iff : this.lo=prange.lo ↔ (match this.pdatumLeft, prange.pdatumLeft with
      | none, none => true
      | some l, some l' => l=l' && this.eriLeft=prange.eriLeft
      | _, _ => false)=true := by
  match this, prange with
  | ⟨none,_,_,_⟩, ⟨none,_,_,_⟩ => simp
  | ⟨some l,eriIncluded,_,_⟩, ⟨none,_,_,_⟩ => simp [bot_lt_before.ne']
  | ⟨some l,eriExcluded,_,_⟩, ⟨none,_,_,_⟩ => simp [bot_lt_after.ne']
  | ⟨none,_,_,_⟩, ⟨some l,eriIncluded,_,_⟩ => simp [bot_lt_before.ne]
  | ⟨none,_,_,_⟩, ⟨some l,eriExcluded,_,_⟩ => simp [bot_lt_after.ne]
  | ⟨some l,eriIncluded,_,_⟩, ⟨some l',eriIncluded,_,_⟩ => simp
  | ⟨some l,eriIncluded,_,_⟩, ⟨some l',eriExcluded,_,_⟩ => simp
  | ⟨some l,eriExcluded,_,_⟩, ⟨some l',eriIncluded,_,_⟩ => simp
  | ⟨some l,eriExcluded,_,_⟩, ⟨some l',eriExcluded,_,_⟩ => simp

theorem hi_eq_iff : this.hi=prange.hi ↔ (match this.pdatumRight, prange.pdatumRight with
      | none, none => true
      | some r, some r' => r=r' && this.eriRight=prange.eriRight
      | _, _ => false)=true := by
  match this, prange with
  | ⟨_,_,none,_⟩, ⟨_,_,none,_⟩ => simp
  | ⟨_,_,some r,eriIncluded⟩, ⟨_,_,none,_⟩ => simp [after_lt_top.ne]
  | ⟨_,_,some r,eriExcluded⟩, ⟨_,_,none,_⟩ => simp [before_lt_top.ne]
  | ⟨_,_,none,_⟩, ⟨_,_,some r,eriIncluded⟩ => simp [after_lt_top.ne']
  | ⟨_,_,none,_⟩, ⟨_,_,some r,eriExcluded⟩ => simp [before_lt_top.ne']
  | ⟨_,_,some r,eriIncluded⟩, ⟨_,_,some r',eriIncluded⟩ => simp
  | ⟨_,_,some r,eriIncluded⟩, ⟨_,_,some r',eriExcluded⟩ => simp
  | ⟨_,_,some r,eriExcluded⟩, ⟨_,_,some r',eriIncluded⟩ => simp
  | ⟨_,_,some r,eriExcluded⟩, ⟨_,_,some r',eriExcluded⟩ => simp

theorem fStartsWithOrBefore_iff : this.fStartsWithOrBefore prange ↔ this.lo≤prange.lo := by
  unfold fStartsWithOrBefore
  rw [le_iff_lt_or_eq]
  by_cases hb : this.fStartsBefore prange=true
  · rw [if_pos hb]
    simp only [true_iff]
    obtain hlt | hbot := fStartsBefore_iff.mp hb
    · exact .inl hlt
    · exact .inr (hbot.1.trans hbot.2.symm)
  · rw [if_neg hb,← lo_eq_iff]
    have hlt : ¬this.lo<prange.lo := fun hlt => hb (fStartsBefore_iff.mpr (.inl hlt))
    simp [hlt]

theorem fEndsWithOrAfter_iff : this.fEndsWithOrAfter prange ↔ prange.hi≤this.hi := by
  unfold fEndsWithOrAfter
  rw [le_iff_lt_or_eq]
  by_cases ha : this.fEndsAfter prange=true
  · rw [if_pos ha]
    simp only [true_iff]
    obtain hlt | htop := fEndsAfter_iff.mp ha
    · exact .inl hlt
    · exact .inr (htop.2.trans htop.1.symm)
  · rw [if_neg ha,← hi_eq_iff]
    have hlt : ¬prange.hi<this.hi := fun hlt => ha (fEndsAfter_iff.mpr (.inl hlt))
    simp [hlt,eq_comm]

theorem contains_iff : this.contains prange ↔ this.lo≤prange.lo ∧ prange.hi≤this.hi := by
  rw [contains,Bool.and_eq_true,fStartsWithOrBefore_iff,fEndsWithOrAfter_iff]

end CRange

end

open ERangeInclusion Option Bool

namespace CRange

variable {D : Type*} [LinearOrder D] {this prange r : CRange D}

/-- An intersection ends at the inner ends of both ranges. -/
theorem prngIntersect_some (hthis : this.lo<this.hi) (hprange : prange.lo<prange.hi)
    (h : this.prngIntersect prange=some r) :
    r.lo=max this.lo prange.lo ∧ r.hi=min this.hi prange.hi ∧ r.lo<r.hi := by
  unfold prngIntersect at h
  split_ifs at h with hc hc' hl hr
  · have hc := contains_iff.mp hc
    cases h
    exact ⟨(max_eq_right hc.1).symm,(min_eq_right hc.2).symm,hprange⟩
  · have hc' := contains_iff.mp hc'
    cases h
    exact ⟨(max_eq_left hc'.1).symm,(min_eq_left hc'.2).symm,hthis⟩
  · rw [fOverlapsLeft,and_eq_true,and_eq_true,not_eq_true',not_eq_true',
      ← not_eq_true,← not_eq_true,fStartsBefore_iff,fEndsAfter_iff,
      fDisjointLeft_iff] at hl
    cases h
    have hle : this.lo≤prange.lo := by
      obtain hlt | hbot := hl.1.1
      · exact le_of_lt hlt
      · exact le_of_eq (hbot.1.trans hbot.2.symm)
    have hhi : this.hi≤prange.hi := not_lt.mp fun hlt => hl.1.2 (.inl hlt)
    exact ⟨(max_eq_right hle).symm,(min_eq_left hhi).symm,not_le.mp hl.2⟩
  · rw [fOverlapsRight,and_eq_true,and_eq_true,not_eq_true',not_eq_true',
      ← not_eq_true,← not_eq_true,fStartsBefore_iff,fEndsAfter_iff,
      fDisjointLeft_iff] at hr
    cases h
    have hle : prange.lo≤this.lo := not_lt.mp fun hlt => hr.1.2 (.inl hlt)
    have hhi : prange.hi≤this.hi := by
      obtain hlt | htop := hr.1.1
      · exact le_of_lt hlt
      · exact le_of_eq (htop.2.trans htop.1.symm)
    exact ⟨(max_eq_left hle).symm,(min_eq_right hhi).symm,not_le.mp hr.2⟩

theorem prngIntersect_none (h : this.prngIntersect prange=none) :
    this.hi≤prange.lo ∨ prange.hi≤this.lo := by
  unfold prngIntersect at h
  split_ifs at h with hc hc' hl hr
  rw [contains_iff] at hc hc'
  simp only [fOverlapsLeft,fOverlapsRight,and_eq_true,not_eq_true',
    ← not_eq_true,fStartsBefore_iff,fEndsAfter_iff,fDisjointLeft_iff] at hl hr
  by_contra hno
  have hno := not_or.mp hno
  -- the range that begins first ends first, since neither contains the other
  obtain hlt | hge := lt_or_ge this.lo prange.lo
  · have hhi : this.hi<prange.hi := not_le.mp fun hle => hc ⟨le_of_lt hlt,hle⟩
    apply hl
    refine ⟨⟨.inl hlt,?_⟩,hno.1⟩
    rintro (hgt | htop)
    · exact lt_asymm hhi hgt
    · exact hhi.ne (htop.1.trans htop.2.symm)
  · have hhi : prange.hi<this.hi := not_le.mp fun hle => hc' ⟨hge,hle⟩
    apply hr
    refine ⟨⟨.inl hhi,?_⟩,hno.2⟩
    rintro (hlt | hbot)
    · exact absurd hlt (not_lt.mpr hge)
    · exact hc ⟨le_of_eq (hbot.1.trans hbot.2.symm),le_of_lt hhi⟩

theorem hi_inverse {l : D} (h : prange.pdatumLeft=some l) :
    hi ⟨a,i,some l,eriInverseInclusion prange.eriLeft⟩=prange.lo := by
  match prange, h with
  | ⟨some _,eriIncluded,_,_⟩, rfl => rfl
  | ⟨some _,eriExcluded,_,_⟩, rfl => rfl

theorem lo_inverse {r : D} {b : Option D} (h : prange.pdatumRight=some r) :
    lo ⟨some r,eriInverseInclusion prange.eriRight,b,j⟩=prange.hi := by
  match prange, h with
  | ⟨_,_,some _,eriIncluded⟩, rfl => rfl
  | ⟨_,_,some _,eriExcluded⟩, rfl => rfl

/-- What is left before a range. -/
theorem prngDifferenceLeft_some (hthis : this.lo<this.hi)
    (h : this.prngDifferenceLeft prange=some r) :
    r.lo=this.lo ∧ r.hi=min this.hi prange.lo ∧ r.lo<r.hi := by
  unfold prngDifferenceLeft at h
  split at h
  next hd =>
    have hd := fDisjointLeft_iff.mp hd
    cases h
    exact ⟨rfl,(min_eq_left hd).symm,hthis⟩
  next hd =>
    rw [fDisjointLeft_iff,not_le] at hd
    split at h
    next => cases h
    next l hleft =>
      have h := ite_none_right_eq_some.mp h
      obtain rfl := some.inj h.2
      rw [hi_inverse hleft]
      have hne : prange.lo≠⊥ := by
        match prange, hleft with
        | ⟨some _,eriIncluded,_,_⟩, rfl => exact Cut.bot_lt_before.ne'
        | ⟨some _,eriExcluded,_,_⟩, rfl => exact Cut.bot_lt_after.ne'
      have hlt : this.lo<prange.lo := by
        obtain hlt | hbot := fStartsBefore_iff.mp h.1
        · exact hlt
        · exact absurd hbot.2 hne
      exact ⟨rfl,(min_eq_right (le_of_lt hd)).symm,hlt⟩

theorem prngDifferenceLeft_none (h : this.prngDifferenceLeft prange=none) : prange.lo≤this.lo := by
  unfold prngDifferenceLeft at h
  split at h
  next => cases h
  next =>
    split at h
    next hleft =>
      match prange, hleft with
      | ⟨none,_,_,_⟩, _ => exact bot_le
    next =>
      apply not_lt.mp
      intro hlt
      rw [if_pos (fStartsBefore_iff.mpr (.inl hlt))] at h
      cases h

/-- What is left behind a range. -/
theorem prngDifferenceRight_some (hthis : this.lo<this.hi)
    (h : this.prngDifferenceRight prange=some r) :
    r.lo=max this.lo prange.hi ∧ r.hi=this.hi ∧ r.lo<r.hi := by
  unfold prngDifferenceRight at h
  split at h
  next hd =>
    have hd := fDisjointLeft_iff.mp hd
    cases h
    exact ⟨(max_eq_left hd).symm,rfl,hthis⟩
  next hd =>
    rw [fDisjointLeft_iff,not_le] at hd
    split at h
    next => cases h
    next b hrig =>
      have h := ite_none_right_eq_some.mp h
      obtain rfl := some.inj h.2
      rw [lo_inverse hrig]
      have hne : prange.hi≠⊤ := by
        match prange, hrig with
        | ⟨_,_,some _,eriIncluded⟩, rfl => exact Cut.after_lt_top.ne
        | ⟨_,_,some _,eriExcluded⟩, rfl => exact Cut.before_lt_top.ne
      have hlt : prange.hi<this.hi := by
        obtain hlt | htop := fEndsAfter_iff.mp h.1
        · exact hlt
        · exact absurd htop.2 hne
      exact ⟨(max_eq_right (le_of_lt hd)).symm,rfl,hlt⟩

theorem prngDifferenceRight_none (h : this.prngDifferenceRight prange=none) :
    this.hi≤prange.hi := by
  unfold prngDifferenceRight at h
  split at h
  next => cases h
  next =>
    split at h
    next hrig =>
      match prange, hrig with
      | ⟨_,_,none,_⟩, _ => exact le_top
    next =>
      apply not_lt.mp
      intro hlt
      rw [if_pos (fEndsAfter_iff.mpr (.inl hlt))] at h
      cases h

theorem prngExtend_some (hle : this.hi≤prange.lo) (h : this.prngExtend prange=some r) :
    this.hi=prange.lo ∧ r.lo=this.lo ∧ r.hi=prange.hi := by
  have h := ite_none_right_eq_some.mp h
  obtain rfl := some.inj h.2
  refine ⟨?_,rfl,rfl⟩
  apply le_antisymm hle
  match this, prange, h.1 with
  | ⟨_,_,some _,eriIncluded⟩, ⟨some _,eriIncluded,_,_⟩, ⟨_,_,rfl⟩ => simp
  | ⟨_,_,some _,eriIncluded⟩, ⟨some _,eriExcluded,_,_⟩, ⟨_,_,rfl⟩ => simp
  | ⟨_,_,some _,eriExcluded⟩, ⟨some _,eriIncluded,_,_⟩, ⟨_,_,rfl⟩ => simp

end CRange

end

open ERangeInclusion

class BoolDatums (D : Type*) [LinearOrder D] where
  datumFalse : D
  datumTrue : D
  false_lt_true : datumFalse<datumTrue

instance : BoolDatums Nat := ⟨0,1,Nat.zero_lt_one⟩

/-- A column with what the constraints ask about it: whether its type can be constrained, whether
it is boolean, and whether it is a nullable column of a table. -/
structure CColRef where
  id : Nat
  fConstrainable : Bool
  etiBool : Bool
  isNullable : Bool
  deriving DecidableEq

/-- An interval constraint: the ranges of one column, and whether NULL belongs to it. -/
structure CConstraintInterval (D : Type*) where
  pcr : CColRef
  pdrgprng : List (CRange D)
  fIncludesNull : Bool
  deriving DecidableEq

section Arrays

variable {D : Type*} [LinearOrder D]

def appendOrExtend (pdrgprng : List (CRange D)) : Option (CRange D) → List (CRange D)
  | none => pdrgprng
  | some prange =>
    match pdrgprng.getLast? with
    | none => pdrgprng++[prange]
    | some prangeLast =>
      match prangeLast.prngExtend prange with
      | none => pdrgprng++[prange]
      | some prangeNew => pdrgprng.dropLast++[prangeNew]

def addRemainingRanges (src dest : List (CRange D)) : List (CRange D) :=
  src.foldl (fun dest prange => appendOrExtend dest (some prange)) dest

def intersectLoop (fst snd new : List (CRange D)) : List (CRange D) :=
  match fst, snd with
  | prangeThis::fst, prangeOther::snd =>
    if prangeOther.fEndsAfter prangeThis then
      intersectLoop fst (prangeOther::snd) (new++(prangeThis.prngIntersect prangeOther).toList)
    else
      intersectLoop (prangeThis::fst) snd (new++(prangeOther.prngIntersect prangeThis).toList)
  | _, _ => new
termination_by fst.length+snd.length

/-- The loop of `PciUnion` with the ranges that remain after it. -/
def unionLoop (fst snd new : List (CRange D)) : List (CRange D) :=
  match fst, snd with
  | prangeThis::fst, prangeOther::snd =>
    if prangeOther.fEndsAfter prangeThis then
      unionLoop fst (prangeOther::snd)
        (appendOrExtend new (prangeThis.prngDifferenceLeft prangeOther))
    else
      unionLoop (prangeThis::fst) snd
        (appendOrExtend new (prangeOther.prngDifferenceLeft prangeThis))
  | fst, snd => addRemainingRanges snd (addRemainingRanges fst new)
termination_by fst.length+snd.length

/-- The difference between two ranges: the part on the left, and the residual on the right. -/
def prangeDiffWithRightResidual (prangeFirst prangeSecond : CRange D) :
    Option (CRange D) × Option (CRange D) :=
  if prangeSecond.fDisjointLeft prangeFirst then (none,none)
  else
    (if prangeFirst.contains prangeSecond then prangeFirst.prngDifferenceLeft prangeSecond
      else none, prangeFirst.prngDifferenceRight prangeSecond)

/-- The loop of `PciDifference` with what remains after it; a residual stands for the first
range of the first array. -/
def differenceLoop (residual : Option (CRange D)) (fst snd new : List (CRange D)) :
    List (CRange D) :=
  match fst, snd with
  | prange::fst, prangeOther::snd =>
    let prangeThis := residual.getD prange
    if prangeOther.fEndsWithOrAfter prangeThis then
      differenceLoop none fst (prangeOther::snd)
        (appendOrExtend new (prangeThis.prngDifferenceLeft prangeOther))
    else
      differenceLoop (prangeDiffWithRightResidual prangeThis prangeOther).2 (prange::fst) snd
        (appendOrExtend new (prangeDiffWithRightResidual prangeThis prangeOther).1)
  | fst, _ =>
    addRemainingRanges (if residual.isSome then fst.tail else fst) (appendOrExtend new residual)
termination_by fst.length+snd.length

end Arrays

namespace CConstraintInterval

variable {D : Type*} [LinearOrder D]

def pciIntersect (this pci : CConstraintInterval D) : CConstraintInterval D :=
  ⟨this.pcr,intersectLoop this.pdrgprng pci.pdrgprng [],this.fIncludesNull && pci.fIncludesNull⟩

def pciUnion (this pci : CConstraintInterval D) : CConstraintInterval D :=
  ⟨this.pcr,unionLoop this.pdrgprng pci.pdrgprng [],this.fIncludesNull || pci.fIncludesNull⟩

def pciDifference (this pci : CConstraintInterval D) : CConstraintInterval D :=
  ⟨this.pcr,differenceLoop none this.pdrgprng pci.pdrgprng [],
    this.fIncludesNull && !pci.fIncludesNull⟩

def isConstraintUnbounded (this : CConstraintInterval D) : Bool :=
  this.fIncludesNull &&
    match this.pdrgprng with
    | [prange] => prange.isConstraintUnbounded
    | _ => false

/-- No value satisfies the interval. A boolean column has no value between its two. -/
def fContradiction (this : CConstraintInterval D) : Bool :=
  !this.fIncludesNull && (this.pdrgprng.isEmpty ||
    this.pcr.etiBool &&
      match this.pdrgprng with
      | [prange] => prange.eriLeft=eriExcluded && prange.eriRight=eriExcluded &&
          prange.pdatumLeft.isSome && prange.pdatumRight.isSome
      | _ => false)

def fContainsInterval (this pci : CConstraintInterval D) : Bool :=
  if this.isConstraintUnbounded then true
  else if pci.isConstraintUnbounded || (!this.fIncludesNull && pci.fIncludesNull) then false
  else (pci.pciDifference this).fContradiction

variable [BoolDatums D]

def pciUniversal (colref : CColRef) (fIncludesNull : Bool) : CConstraintInterval D :=
  ⟨colref,[if colref.etiBool then
      ⟨some BoolDatums.datumFalse,eriIncluded,some BoolDatums.datumTrue,eriIncluded⟩
    else ⟨none,eriExcluded,none,eriExcluded⟩],fIncludesNull⟩

def pciUnbounded (colref : CColRef) (fIncludesNull : Bool) : Option (CConstraintInterval D) :=
  if colref.fConstrainable then some (pciUniversal colref fIncludesNull) else none

/-- The complement; ranges exist for columns that can be constrained only. -/
def pciComplement (this : CConstraintInterval D) : CConstraintInterval D :=
  (pciUniversal this.pcr true).pciDifference this

end CConstraintInterval

end WarehousePG.Orca
