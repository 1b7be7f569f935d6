import WarehousePG.Orca.Interval

namespace WarehousePG.Orca

open Framework CRange Apart

section

section

open List

variable {D : Type*} [LinearOrder D]

abbrev spans (l : List (CRange D)) : Set (Cut D) := covered lo hi l

abbrev SortedRanges (l : List (CRange D)) : Prop := Apart lo hi l

variable {new : List (CRange D)} {c p : Cut D}

/-- A range is appended, or extends the last one that it touches. -/
theorem appendOrExtend_some (hnew : SortedRanges new) (hr : r.lo<r.hi)
    (hle : ∀ a∈new, a.hi≤r.lo) : SortedRanges (appendOrExtend new (some r)) ∧
      (∀ c, c∈spans (appendOrExtend new (some r)) ↔ c∈spans new ∨ r.lo≤c ∧ c<r.hi) ∧
      ∀ a∈appendOrExtend new (some r), a.hi≤r.hi := by
  have happ : SortedRanges (new++[r]) ∧ (∀ c, c∈spans (new++[r]) ↔ c∈spans new ∨ r.lo≤c ∧ c<r.hi) ∧
      ∀ a∈new++[r], a.hi≤r.hi := by
    refine ⟨hnew.append (singleton hr) (by simpa using hle),?_,?_⟩
    · intro c
      rw [mem_covered_append,mem_covered_cons,mem_covered_nil,or_false]
    · intro a ha
      obtain ha | ha := mem_append.mp ha
      · exact le_trans (hle a ha) (le_of_lt hr)
      · rw [mem_singleton.mp ha]
  rw [appendOrExtend]
  split
  next => exact happ
  next last hlast =>
    split
    next => exact happ
    next ext hext =>
      obtain ⟨init,rfl⟩ := getLast?_eq_some_iff.mp hlast
      rw [dropLast_concat]
      have hsorted := pairwise_append.mp hnew.ordered
      have hlt := hnew.nonempty last (by simp)
      have hend := hle last (by simp)
      obtain ⟨htouch,hlo,hhi⟩ := prngExtend_some hend hext
      refine ⟨?_,?_,?_⟩
      · apply hnew.of_append_left.append (singleton ?_)
        · intro a ha b hb
          rw [mem_singleton.mp hb,hlo]
          exact hsorted.2.2 a ha last (by simp)
        · rw [hlo,hhi]
          exact lt_of_lt_of_le hlt (le_trans hend (le_of_lt hr))
      · intro c
        simp only [mem_covered_append,mem_covered_cons,mem_covered_nil,or_false,hlo,hhi,or_assoc]
        apply or_congr_right
        -- the two stretches meet where the second begins
        constructor
        · rintro ⟨h₁,h₂⟩
          obtain hlt | hge := lt_or_ge c last.hi
          · exact .inl ⟨h₁,hlt⟩
          · exact .inr ⟨htouch ▸ hge,h₂⟩
        · rintro (⟨h₁,h₂⟩ | ⟨h₁,h₂⟩)
          · exact ⟨h₁,lt_of_lt_of_le h₂ (le_trans hend (le_of_lt hr))⟩
          · exact ⟨le_trans (le_of_lt hlt) (le_trans hend h₁),h₂⟩
      · intro a ha
        obtain ha | ha := mem_append.mp ha
        · exact le_trans (hle a (by simp [ha])) (le_of_lt hr)
        · rw [mem_singleton.mp ha,hhi]

structure Appended (new out : List (CRange D)) (more : Set (Cut D)) : Prop where
  sorted : SortedRanges out
  covers : ∀ c, c∈spans out ↔ c∈spans new ∨ c∈more

theorem appendOrExtend_appended (hnew : SortedRanges new)
    (ho : ∀ r, o=some r → r.lo<r.hi ∧ ∀ a∈new, a.hi≤r.lo) :
    Appended new (appendOrExtend new o) (spans o.toList) := by
  cases o with
  | none => exact ⟨hnew,by simp [appendOrExtend]⟩
  | some r =>
    have h := appendOrExtend_some hnew (ho r rfl).1 (ho r rfl).2
    exact ⟨h.1,by simpa using h.2.1⟩

theorem appendOrExtend_le (hnew : SortedRanges new)
    (ho : ∀ r, o=some r → r.lo<r.hi ∧ ∀ a∈new, a.hi≤r.lo) (hp : ∀ a∈new, a.hi≤p)
    (hop : ∀ r, o=some r → r.hi≤p) : ∀ a∈appendOrExtend new o, a.hi≤p := by
  cases o with
  | none => exact hp
  | some r =>
    intro a ha
    exact le_trans ((appendOrExtend_some hnew (ho r rfl).1 (ho r rfl).2).2.2 a ha) (hop r rfl)

@[simp] theorem addRemainingRanges_nil : addRemainingRanges [] new=new := rfl

theorem addRemainingRanges_appended (hsrc : SortedRanges src)
    (hnew : SortedRanges new) (hle : ∀ a∈new, ∀ b∈src, a.hi≤b.lo) :
    Appended new (addRemainingRanges src new) (spans src) := by
  induction src generalizing new with
  | nil => exact ⟨hnew,by simp⟩
  | cons r src ih =>
    have hcons := cons_iff.mp hsrc
    have hr : ∀ a∈new, a.hi≤r.lo := fun a ha => hle a ha r (by simp)
    have happ := appendOrExtend_some hnew hcons.1 hr
    have hrest := ih hcons.2.2 happ.1 fun a ha b hb => le_trans (happ.2.2 a ha) (hcons.2.1 b hb)
    refine ⟨hrest.sorted,fun c => (hrest.covers c).trans ?_⟩
    rw [happ.2.1,mem_covered_cons,or_assoc]

variable {a b : CRange D}

theorem mem_spans_prngDifferenceLeft (ha : a.lo<a.hi) :
    c∈spans (a.prngDifferenceLeft b).toList ↔ (a.lo≤c ∧ c<a.hi) ∧ c<b.lo := by
  cases hd : a.prngDifferenceLeft b with
  | none =>
    have hle := prngDifferenceLeft_none hd
    have hno : a.lo≤c → ¬c<b.lo := fun h => not_lt.mpr (le_trans hle h)
    simp only [Option.toList_none,mem_covered_nil,false_iff]
    exact fun h => hno h.1.1 h.2
  | some r =>
    obtain ⟨hlo,hhi,-⟩ := prngDifferenceLeft_some ha hd
    simp only [Option.toList_some,mem_covered_cons,mem_covered_nil,or_false,hlo,hhi,
      lt_min_iff,and_assoc]

theorem differenceLeft_part (ha : a.lo<a.hi) (hab : a.hi≤b.hi) (c : Cut D) :
    (a.lo≤c ∧ c<a.hi) ∨ (b.lo≤c ∧ c<b.hi) ↔
      c∈spans (a.prngDifferenceLeft b).toList ∨ (b.lo≤c ∧ c<b.hi) := by
  rw [mem_spans_prngDifferenceLeft ha]
  constructor
  · rintro (h | h)
    · obtain hlt | hge := lt_or_ge c b.lo
      · exact .inl ⟨h,hlt⟩
      · exact .inr ⟨hge,lt_of_lt_of_le h.2 hab⟩
    · exact .inr h
  · rintro (h | h)
    · exact .inl h.1
    · exact .inr h

theorem le_of_fEndsAfter (h : b.fEndsAfter a) : a.hi≤b.hi := by
  obtain hlt | htop := fEndsAfter_iff.mp h
  · exact le_of_lt hlt
  · exact le_of_eq (htop.2.trans htop.1.symm)

theorem le_of_not_fEndsAfter (h : ¬b.fEndsAfter a) : b.hi≤a.hi :=
  not_lt.mp fun hlt => h (fEndsAfter_iff.mpr (.inl hlt))

theorem exchange (h : A ∨ B ↔ P ∨ B) : (N ∨ P) ∨ F ∨ B ∨ S ↔ N ∨ (A ∨ F) ∨ B ∨ S := by
  calc (N ∨ P) ∨ F ∨ B ∨ S ↔ N ∨ F ∨ S ∨ P ∨ B := by simp only [or_comm,or_left_comm]
    _ ↔ N ∨ F ∨ S ∨ A ∨ B := by rw [h]
    _ ↔ N ∨ (A ∨ F) ∨ B ∨ S := by simp only [or_comm,or_left_comm]

theorem differenceLeft_append (ha : a.lo<a.hi) (hnew : SortedRanges new)
    (hna : ∀ x∈new, x.hi≤a.lo) : Appended new (appendOrExtend new (a.prngDifferenceLeft b))
        (spans (a.prngDifferenceLeft b).toList) ∧
      (∀ x∈appendOrExtend new (a.prngDifferenceLeft b), x.hi≤a.hi) ∧
      ∀ p, b.lo≤p → (∀ x∈new, x.hi≤p) →
        ∀ x∈appendOrExtend new (a.prngDifferenceLeft b), x.hi≤p := by
  have hpart : ∀ r, a.prngDifferenceLeft b=some r → r.lo<r.hi ∧ ∀ x∈new, x.hi≤r.lo := by
    intro r hr
    have hr := prngDifferenceLeft_some ha hr
    exact ⟨hr.2.2,fun x hx => hr.1 ▸ hna x hx⟩
  refine ⟨appendOrExtend_appended hnew hpart,?_,fun p hbp hp => ?_⟩
  · apply appendOrExtend_le hnew hpart
    · exact fun x hx => le_trans (hna x hx) (le_of_lt ha)
    · intro r hr
      rw [(prngDifferenceLeft_some ha hr).2.1]
      exact min_le_left _ _
  · apply appendOrExtend_le hnew hpart hp
    intro r hr
    rw [(prngDifferenceLeft_some ha hr).2.1]
    exact le_trans (min_le_right _ _) hbp

variable {m : List (CRange D)}

theorem union_turn (ha : SortedRanges (a::l)) (hb : SortedRanges (b::m)) (hnew : SortedRanges new)
    (hna : ∀ x∈new, x.hi≤a.lo) (hnb : ∀ x∈new, x.hi≤b.lo) :
    Appended new (appendOrExtend new (a.prngDifferenceLeft b))
        (spans (a.prngDifferenceLeft b).toList) ∧
      (∀ x∈appendOrExtend new (a.prngDifferenceLeft b), ∀ y∈l, x.hi≤y.lo) ∧
      ∀ x∈appendOrExtend new (a.prngDifferenceLeft b), ∀ y∈b::m, x.hi≤y.lo := by
  have ha := cons_iff.mp ha
  obtain ⟨happ,hla,hlb⟩ := differenceLeft_append (b := b) ha.1 hnew hna
  refine ⟨happ,fun x hx y hy => le_trans (hla x hx) (ha.2.1 y hy),fun x hx y hy => ?_⟩
  exact le_trans (hlb b.lo (le_refl _) hnb x hx) (hb.le_of_mem y hy)

/-- The loop of the union, on the recursion of the code. -/
theorem unionLoop_appended (fst snd new : List (CRange D)) (hfst : SortedRanges fst)
    (hsnd : SortedRanges snd) (hnew : SortedRanges new)
    (hnf : ∀ a∈new, ∀ b∈fst, a.hi≤b.lo) (hns : ∀ a∈new, ∀ b∈snd, a.hi≤b.lo) :
    Appended new (unionLoop fst snd new) (spans fst ∪ spans snd) := by
  fun_induction unionLoop fst snd new with
  | case1 new this fst other snd hends ih =>
    have hle := le_of_fEndsAfter hends
    obtain ⟨happ,hf,hs⟩ := union_turn hfst hsnd hnew (fun x hx => hnf x hx this (by simp))
      fun x hx => hns x hx other (by simp)
    have hrest := ih hfst.tail hsnd happ.sorted hf hs
    refine ⟨hrest.sorted,fun c => (hrest.covers c).trans ?_⟩
    rw [happ.covers,Set.mem_union,Set.mem_union,mem_covered_cons,mem_covered_cons]
    exact exchange (differenceLeft_part (cons_iff.mp hfst).1 hle c)
  | case2 new this fst other snd hends ih =>
    have hle := le_of_not_fEndsAfter hends
    obtain ⟨happ,hs,hf⟩ := union_turn hsnd hfst hnew (fun x hx => hns x hx other (by simp))
      fun x hx => hnf x hx this (by simp)
    have hrest := ih hfst hsnd.tail happ.sorted hf hs
    refine ⟨hrest.sorted,fun c => (hrest.covers c).trans ?_⟩
    rw [happ.covers,Set.union_comm,Set.union_comm (spans (this::fst)),Set.mem_union,
      Set.mem_union,mem_covered_cons,mem_covered_cons]
    exact exchange (differenceLeft_part (cons_iff.mp hsnd).1 hle c)
  | case3 fst snd new hend =>
    -- one of the arrays is used up, so that the second call appends to what the first one left
    have happ := addRemainingRanges_appended hfst hnew hnf
    cases fst with
    | nil =>
      have hrest := addRemainingRanges_appended hsnd hnew hns
      exact ⟨hrest.sorted,by simpa using hrest.covers⟩
    | cons a fst =>
      cases snd with
      | nil => exact ⟨happ.sorted,by simpa using happ.covers⟩
      | cons b snd => exact (hend _ _ _ _ rfl rfl).elim

theorem mem_spans_prngIntersect (ha : a.lo<a.hi) (hb : b.lo<b.hi) :
    c∈spans (a.prngIntersect b).toList ↔ (a.lo≤c ∧ c<a.hi) ∧ b.lo≤c ∧ c<b.hi := by
  cases hi : a.prngIntersect b with
  | none =>
    simp only [Option.toList_none,mem_covered_nil,false_iff]
    rintro ⟨ha,hb⟩
    obtain hle | hle := prngIntersect_none hi
    · exact absurd ha.2 (not_lt.mpr (le_trans hle hb.1))
    · exact absurd hb.2 (not_lt.mpr (le_trans hle ha.1))
  | some r =>
    obtain ⟨hlo,hhi,-⟩ := prngIntersect_some ha hb hi
    simp only [Option.toList_some,mem_covered_cons,mem_covered_nil,or_false,hlo,hhi,
      max_le_iff,lt_min_iff]
    exact and_and_and_comm

theorem intersect_turn (ha : SortedRanges (a::l))
    (hb : SortedRanges (b::m)) (hab : a.hi≤b.hi) : c∈spans (a::l) ∧ c∈spans (b::m) ↔
      c∈spans (a.prngIntersect b).toList ∨ c∈spans l ∧ c∈spans (b::m) := by
  have ha := cons_iff.mp ha
  have hb := cons_iff.mp hb
  have hskip : c<a.hi → ¬c∈spans m := fun hlt hm =>
    absurd hlt (not_lt.mpr (le_trans hab (le_of_mem_covered hb.2.1 hm)))
  rw [mem_spans_prngIntersect ha.1 hb.1,mem_covered_cons,mem_covered_cons,or_and_right]
  apply or_congr_left
  apply and_congr_right
  intro hc
  simp [hskip hc.2]

/-- The ranges found so far end before any range that is still to be found begins. -/
def EndsBeforeMeets (new fst snd : List (CRange D)) : Prop :=
  ∀ x∈new, ∀ f∈fst, ∀ s∈snd, x.hi ≤ max f.lo s.lo

theorem intersect_append (ha : SortedRanges (a::l))
    (hb : SortedRanges (b::m)) (hnew : SortedRanges new) (hends : EndsBeforeMeets new (a::l) (b::m)) :
    SortedRanges (new++(a.prngIntersect b).toList) ∧
      EndsBeforeMeets (new++(a.prngIntersect b).toList) l (b::m) := by
  have ha := cons_iff.mp ha
  have hb' := cons_iff.mp hb
  have hold : EndsBeforeMeets new l (b::m) := fun x hx f hf => hends x hx f (by simp [hf])
  cases hi : a.prngIntersect b with
  | none => simpa using And.intro hnew hold
  | some r =>
    obtain ⟨hlo,hhi,hlt⟩ := prngIntersect_some ha.1 hb'.1 hi
    constructor
    · apply hnew.append (singleton hlt)
      intro x hx y hy
      rw [mem_singleton.mp hy,hlo]
      exact hends x hx a (by simp) b (by simp)
    · intro x hx f hf s hs
      obtain hx | hx := mem_append.mp hx
      · exact hold x hx f hf s hs
      · rw [mem_singleton.mp hx,hhi]
        exact le_trans (min_le_left _ _) (le_trans (ha.2.1 f hf) (le_max_left _ _))

theorem EndsBeforeMeets.comm (h : EndsBeforeMeets new fst snd) : EndsBeforeMeets new snd fst := by
  intro x hx s hs f hf
  rw [max_comm]
  exact h x hx f hf s hs

/-- The loop of the intersection, on the recursion of the code. -/
theorem intersectLoop_appended (fst snd new : List (CRange D)) (hfst : SortedRanges fst)
    (hsnd : SortedRanges snd) (hnew : SortedRanges new) (hends : EndsBeforeMeets new fst snd) :
    Appended new (intersectLoop fst snd new) (spans fst ∩ spans snd) := by
  fun_induction intersectLoop fst snd new with
  | case1 new this fst other snd haft ih =>
    have happ := intersect_append hfst hsnd hnew hends
    have hrest := ih hfst.tail hsnd happ.1 happ.2
    refine ⟨hrest.sorted,fun c => (hrest.covers c).trans ?_⟩
    rw [mem_covered_append,or_assoc]
    exact or_congr_right (intersect_turn hfst hsnd (le_of_fEndsAfter haft)).symm
  | case2 new this fst other snd haft ih =>
    have happ := intersect_append hsnd hfst hnew hends.comm
    have hrest := ih hfst hsnd.tail happ.1 happ.2.comm
    refine ⟨hrest.sorted,fun c => (hrest.covers c).trans ?_⟩
    rw [mem_covered_append,or_assoc,Set.inter_comm,Set.inter_comm (spans (this::fst))]
    exact or_congr_right (intersect_turn hsnd hfst (le_of_not_fEndsAfter haft)).symm
  | case3 fst snd new hend =>
    refine ⟨hnew,fun c => ?_⟩
    cases fst with
    | nil => simp
    | cons a fst =>
      cases snd with
      | nil => simp
      | cons b snd => exact (hend _ _ _ _ rfl rfl).elim

end

variable {D : Type*} [LinearOrder D] {new m : List (CRange D)} {a b : CRange D}
  {residual : Option (CRange D)}

/-- The ranges of the first array that the loop of the difference has still to go through: a
residual stands for the first one. -/
def pending (residual : Option (CRange D)) (fst : List (CRange D)) : List (CRange D) :=
  match residual with
  | none => fst
  | some r => r::fst.tail

omit [LinearOrder D] in
@[simp] theorem pending_cons : pending residual (a::l)=residual.getD a::l := by
  cases residual with
  | none => rfl
  | some r => rfl

theorem mem_diff_of_endsWithOrAfter (ha : SortedRanges (a::l)) (hb : SortedRanges (b::m))
    (hab : a.hi≤b.hi) : c∈spans (a.prngDifferenceLeft b).toList ∨ c∈spans l \ spans (b::m) ↔
      c∈spans (a::l) \ spans (b::m) := by
  have ha := cons_iff.mp ha
  have hb := cons_iff.mp hb
  have hpart : (a.lo≤c ∧ c<a.hi) ∧ c<b.lo ↔ (a.lo≤c ∧ c<a.hi) ∧ ¬c∈spans (b::m) := by
    apply and_congr_right
    intro hc
    have hm : ¬c∈spans m := fun hm =>
      absurd (lt_of_lt_of_le hc.2 hab) (not_lt.mpr (le_of_mem_covered hb.2.1 hm))
    have hlt : c<b.hi := lt_of_lt_of_le hc.2 hab
    simp [hm,hlt]
  rw [mem_spans_prngDifferenceLeft ha.1,hpart,Set.mem_sdiff,Set.mem_sdiff,
    mem_covered_cons (l := l),or_and_right]

theorem mem_diff_of_endsBefore {r : CRange D} (ha : SortedRanges (a::l)) (hb : SortedRanges (b::m))
    (hab : b.hi<a.hi) (hmeet : a.lo<b.hi) (hlo : r.lo=b.hi) (hhi : r.hi=a.hi) :
    ((a.lo≤c ∧ c<a.hi) ∧ c<b.lo) ∨ c∈spans (r::l) \ spans m ↔ c∈spans (a::l) \ spans (b::m) := by
  have ha := cons_iff.mp ha
  have hb := cons_iff.mp hb
  have hm : c∈spans m → b.hi≤c := le_of_mem_covered hb.2.1
  have hl : c∈spans l → a.hi≤c := le_of_mem_covered ha.2.1
  simp only [Set.mem_sdiff,mem_covered_cons,hlo,hhi]
  -- a position lies before the other range, in it, or behind it
  obtain hlt | hge := lt_or_ge c b.lo
  · have hend : c<b.hi := lt_trans hlt hb.1
    have hnm : ¬c∈spans m := fun h => absurd hend (not_lt.mpr (hm h))
    have hnl : ¬c∈spans l := fun h => absurd (lt_trans hend hab) (not_lt.mpr (hl h))
    simp [hlt,hnm,hnl,not_le.mpr hlt,not_le.mpr hend]
  · obtain hlt | hend := lt_or_ge c b.hi
    · have hnl : ¬c∈spans l := fun h => absurd (lt_trans hlt hab) (not_lt.mpr (hl h))
      simp [hge,hlt,hnl,not_lt.mpr hge,not_le.mpr hlt]
    · have hle : a.lo≤c := le_trans (le_of_lt hmeet) hend
      simp [hge,hend,hle,not_lt.mpr hge,not_lt.mpr hend]

theorem mem_diff_of_disjointLeft (hb : ∀ x∈l, b.hi≤x.lo) :
    c∈spans l \ spans m ↔ c∈spans l \ spans (b::m) := by
  have hl : c∈spans l → ¬(b.lo≤c ∧ c<b.hi) := fun h hc =>
    absurd hc.2 (not_lt.mpr (le_of_mem_covered hb h))
  simp only [Set.mem_sdiff,mem_covered_cons,not_or]
  exact and_congr_right fun h => (and_iff_right (hl h)).symm

theorem prangeDiffWithRightResidual_spec (ha : a.lo<a.hi) (hab : b.hi<a.hi) (hmeet : a.lo<b.hi) :
    (∃ r, (prangeDiffWithRightResidual a b).2=some r ∧ r.lo=b.hi ∧ r.hi=a.hi ∧ r.lo<r.hi) ∧
      ((prangeDiffWithRightResidual a b).1=a.prngDifferenceLeft b ∨
        (prangeDiffWithRightResidual a b).1=none ∧ b.lo<a.lo) := by
  have hdisj : ¬b.fDisjointLeft a=true := by
    rw [fDisjointLeft_iff]
    exact not_le.mpr hmeet
  unfold prangeDiffWithRightResidual
  rw [if_neg hdisj]
  constructor
  · cases hr : a.prngDifferenceRight b with
    | none => exact absurd (prngDifferenceRight_none hr) (not_le.mpr hab)
    | some r =>
      obtain ⟨hlo,hhi,hlt⟩ := prngDifferenceRight_some ha hr
      exact ⟨r,rfl,hlo.trans (max_eq_right (le_of_lt hmeet)),hhi,hlt⟩
  · by_cases hcont : a.contains b=true
    · exact .inl (if_pos hcont)
    · refine .inr ⟨if_neg hcont,?_⟩
      rw [contains_iff] at hcont
      exact not_le.mp fun hle => hcont ⟨hle,le_of_lt hab⟩

/-- What the residual owes to the turns before: it stands for a range that is still there, and it
begins where a range of the second array has ended. -/
def ResidualOk (residual : Option (CRange D)) (fst snd : List (CRange D)) : Prop :=
  ∀ r, residual=some r → fst≠[] ∧ ∀ b∈snd, r.lo≤b.lo

theorem residual_turn (ha : SortedRanges (a::l)) (hb : SortedRanges (b::m)) (hab : b.hi<a.hi)
    (hmeet : a.lo<b.hi) (hnew : SortedRanges new) (hna : ∀ x∈new, x.hi≤a.lo) :
    ∃ r, (prangeDiffWithRightResidual a b).2=some r ∧ SortedRanges (r::l) ∧ r.lo=b.hi ∧
      (∀ x∈appendOrExtend new (prangeDiffWithRightResidual a b).1, x.hi≤r.lo) ∧
      SortedRanges (appendOrExtend new (prangeDiffWithRightResidual a b).1) ∧
      ∀ c, c∈spans (appendOrExtend new (prangeDiffWithRightResidual a b).1) ∨
        c∈spans (r::l) \ spans m ↔ c∈spans new ∨ c∈spans (a::l) \ spans (b::m) := by
  have ha' := cons_iff.mp ha
  have hb' := cons_iff.mp hb
  obtain ⟨⟨r,hr,hlo,hhi,hlt⟩,hleft⟩ := prangeDiffWithRightResidual_spec ha'.1 hab hmeet
  have hrest : SortedRanges (r::l) := cons_iff.mpr ⟨hlt,hhi ▸ ha'.2.1,ha'.2.2⟩
  refine ⟨r,hr,hrest,hlo,?_⟩
  have hdiff : ∀ c, ((a.lo≤c ∧ c<a.hi) ∧ c<b.lo) ∨ c∈spans (r::l) \ spans m ↔
      c∈spans (a::l) \ spans (b::m) := fun c => mem_diff_of_endsBefore ha hb hab hmeet hlo hhi
  have hbnew : ∀ x∈new, x.hi≤b.hi := fun x hx => le_trans (hna x hx) (le_of_lt hmeet)
  rw [hlo]
  obtain hpart | hpart := hleft
  · rw [hpart]
    obtain ⟨happ,-,hle⟩ := differenceLeft_append (b := b) ha'.1 hnew hna
    refine ⟨hle b.hi (le_of_lt hb'.1) hbnew,happ.sorted,fun c => ?_⟩
    rw [happ.covers,or_assoc,mem_spans_prngDifferenceLeft ha'.1,hdiff]
  · rw [hpart.1]
    refine ⟨hbnew,hnew,fun c => or_congr_right ?_⟩
    have hno : ¬((a.lo≤c ∧ c<a.hi) ∧ c<b.lo) := fun h =>
      absurd (lt_trans h.2 hpart.2) (not_lt.mpr h.1.1)
    rw [← hdiff,or_iff_right hno]

/-- The loop of the difference; what is left of a split range is taken up next. -/
theorem differenceLoop_appended (residual : Option (CRange D)) (fst snd new : List (CRange D))
    (hfst : SortedRanges (pending residual fst)) (hsnd : SortedRanges snd)
    (hnew : SortedRanges new) (hle : ∀ x∈new, ∀ y∈pending residual fst, x.hi≤y.lo)
    (hres : ResidualOk residual fst snd) : Appended new (differenceLoop residual fst snd new)
      (spans (pending residual fst) \ spans snd) := by
  fun_induction differenceLoop residual fst snd new with
  | case1 residual new prange fst other snd this hends ih =>
    rw [pending_cons] at hfst hle ⊢
    have ha := cons_iff.mp hfst
    have hhi := fEndsWithOrAfter_iff.mp hends
    obtain ⟨happ,hla,-⟩ :=
      differenceLeft_append (b := other) ha.1 hnew fun x hx => hle x hx _ (by simp)
    have hrest := ih ha.2.2 hsnd happ.sorted (fun x hx y hy => le_trans (hla x hx) (ha.2.1 y hy))
      fun r hr => nomatch hr
    refine ⟨hrest.sorted,fun c => (hrest.covers c).trans ?_⟩
    rw [happ.covers,or_assoc]
    exact or_congr_right (mem_diff_of_endsWithOrAfter hfst hsnd hhi)
  | case2 residual new prange fst other snd this hends ih =>
    rw [pending_cons] at hfst hle ⊢
    rw [fEndsWithOrAfter_iff,not_le] at hends
    have hb := cons_iff.mp hsnd
    obtain hmeet | hdisj := lt_or_ge this.lo other.hi
    · obtain ⟨r,hr,hrl,hlo,hnr,hsorted,hcov⟩ :=
        residual_turn hfst hsnd hends hmeet hnew fun x hx => hle x hx _ (by simp)
      have hpend : pending (prangeDiffWithRightResidual this other).2 (prange::fst)=r::fst := by
        rw [hr,pending_cons]
        rfl
      rw [hpend] at ih
      have hrest := ih hrl hb.2.2 hsorted
        (fun x hx y hy => le_trans (hnr x hx) (hrl.le_of_mem y hy)) fun r' hr' => by
          obtain rfl := Option.some.inj (hr.symm.trans hr')
          exact ⟨by simp,fun b' hb' => hlo ▸ hb.2.1 b' hb'⟩
      exact ⟨hrest.sorted,fun c => (hrest.covers c).trans (hcov c)⟩
    · -- a residual begins before the range, so there is none here
      have hnone : residual=none := by
        cases hrsd : residual with
        | none => rfl
        | some r =>
          have hthis : this=r := by simp [this,hrsd]
          have hbeg := (hres r hrsd).2 other (by simp)
          rw [hthis] at hdisj
          exact absurd (lt_of_le_of_lt hbeg hb.1) (not_lt.mpr hdisj)
      have hpair : prangeDiffWithRightResidual this other=(none,none) :=
        if_pos (fDisjointLeft_iff.mpr hdisj)
      subst hnone
      rw [hpair] at ih ⊢
      have hrest := ih hfst hb.2.2 hnew hle fun r hr => nomatch hr
      refine ⟨hrest.sorted,fun c => (hrest.covers c).trans (or_congr_right ?_)⟩
      exact mem_diff_of_disjointLeft fun x hx => le_trans hdisj (hfst.le_of_mem x hx)
  | case3 residual fst snd new hend =>
    cases hrsd : residual with
    | none =>
      subst hrsd
      have hrest := addRemainingRanges_appended hfst hnew hle
      refine ⟨hrest.sorted,fun c => (hrest.covers c).trans (or_congr_right ?_)⟩
      cases fst with
      | nil => simp [pending]
      | cons a fst =>
        cases snd with
        | nil => simp
        | cons b snd => exact (hend _ _ _ _ rfl rfl).elim
    | some r =>
      subst hrsd
      have hres := hres r rfl
      cases snd with
      | cons b snd =>
        cases fst with
        | nil => exact absurd rfl hres.1
        | cons a fst => exact (hend _ _ _ _ rfl rfl).elim
      | nil =>
        have hcons := cons_iff.mp hfst
        have happ := appendOrExtend_some hnew hcons.1 fun x hx => hle x hx r (by simp [pending])
        have hrest := addRemainingRanges_appended hcons.2.2 happ.1 fun x hx y hy =>
          le_trans (happ.2.2 x hx) (hcons.2.1 y hy)
        refine ⟨hrest.sorted,fun c => (hrest.covers c).trans ?_⟩
        rw [happ.2.1]
        simp [pending,or_assoc]

end

open ERangeInclusion

namespace CConstraintInterval

variable {D : Type*} [LinearOrder D] {this pci : CConstraintInterval D}

/-- The values of an interval; NULL is `none`. -/
def values (this : CConstraintInterval D) : Set (Option D) :=
  {v | match v with
    | none => this.fIncludesNull=true
    | some x => ∃ prange∈this.pdrgprng, prange.Member x}

/-- The ranges are sorted by position and pairwise disjoint. -/
def Sorted (this : CConstraintInterval D) : Prop :=
  this.pdrgprng.Pairwise fun a b => a.fDisjointLeft b

def NonEmptyRanges (this : CConstraintInterval D) : Prop := ∀ prange∈this.pdrgprng, prange.NonEmpty

structure WellFormed (this : CConstraintInterval D) : Prop where
  sorted : this.Sorted
  nonEmpty : this.NonEmptyRanges

theorem wellFormed_iff : this.WellFormed ↔ SortedRanges this.pdrgprng := by
  constructor
  · intro h
    constructor
    · exact fun r hr => nonEmpty_iff.mp (h.nonEmpty r hr)
    · exact h.sorted.imp fDisjointLeft_iff.mp
  · intro h
    constructor
    · exact h.ordered.imp fDisjointLeft_iff.mpr
    · exact fun r hr => nonEmpty_iff.mpr (h.nonempty r hr)

theorem none_mem_values : none∈this.values ↔ this.fIncludesNull=true := Iff.rfl

theorem some_mem_values : some x∈this.values ↔ Cut.before x∈spans this.pdrgprng := by
  have h : some x∈this.values ↔ ∃ prange∈this.pdrgprng, prange.Member x := Iff.rfl
  simp only [h,member_iff]
  exact Iff.rfl

theorem values_ext (hnull : this.fIncludesNull=true ↔ none∈s)
    (hsome : ∀ x, Cut.before x∈spans this.pdrgprng ↔ some x∈s) : this.values=s := by
  apply Set.ext
  intro v
  cases v with
  | none => exact none_mem_values.trans hnull
  | some x => exact some_mem_values.trans (hsome x)

attribute [local simp] none_mem_values

section

variable (hthis : this.WellFormed) (hpci : pci.WellFormed)
include hthis hpci

theorem pciIntersect_spec : (this.pciIntersect pci).values=this.values ∩ pci.values ∧
      (this.pciIntersect pci).WellFormed := by
  have happ := intersectLoop_appended _ _ [] (wellFormed_iff.mp hthis) (wellFormed_iff.mp hpci)
    Apart.nil (by simp [EndsBeforeMeets])
  refine ⟨values_ext ?_ fun x => ?_,wellFormed_iff.mpr happ.sorted⟩
  · simp [pciIntersect]
  · rw [Set.mem_inter_iff,some_mem_values,some_mem_values]
    exact (happ.covers _).trans (by simp)

theorem pciUnion_spec :
    (this.pciUnion pci).values=this.values ∪ pci.values ∧ (this.pciUnion pci).WellFormed := by
  have happ := unionLoop_appended _ _ [] (wellFormed_iff.mp hthis) (wellFormed_iff.mp hpci)
    Apart.nil (by simp) (by simp)
  refine ⟨values_ext ?_ fun x => ?_,wellFormed_iff.mpr happ.sorted⟩
  · simp [pciUnion]
  · rw [Set.mem_union,some_mem_values,some_mem_values]
    exact (happ.covers _).trans (by simp)

theorem pciDifference_spec : (this.pciDifference pci).values=this.values \ pci.values ∧
      (this.pciDifference pci).WellFormed := by
  have happ := differenceLoop_appended none _ _ [] (wellFormed_iff.mp hthis)
    (wellFormed_iff.mp hpci) Apart.nil (by simp) fun r hr => nomatch hr
  refine ⟨values_ext ?_ fun x => ?_,wellFormed_iff.mpr happ.sorted⟩
  · simp [pciDifference]
  · rw [Set.mem_sdiff,some_mem_values,some_mem_values]
    exact (happ.covers _).trans (by simp [pending])

end

theorem mem_values_of_unbounded (h : this.isConstraintUnbounded) (v : Option D) :
    v∈this.values := by
  have h := Bool.and_eq_true_iff.mp h
  cases v with
  | none => exact h.1
  | some x =>
    rw [some_mem_values]
    have hr := h.2
    split at hr
    next prange heq =>
      rw [heq]
      match prange, hr with
      | ⟨none,_,none,_⟩, _ => simp
    next => cases hr

theorem values_eq_empty_of_fContradiction (hbool : this.pcr.etiBool=false)
    (h : this.fContradiction) : this.values=∅ := by
  simp only [fContradiction,hbool,Bool.false_and,Bool.or_false,Bool.and_eq_true,
    Bool.not_eq_true',List.isEmpty_iff] at h
  apply values_ext
  · simp [h.1]
  · simp [h.2]

theorem subset_of_fContainsInterval (hthis : this.WellFormed) (hpci : pci.WellFormed)
    (hbool : pci.pcr.etiBool=false) (h : this.fContainsInterval pci) : pci.values⊆this.values := by
  unfold fContainsInterval at h
  split_ifs at h with hthisU
  · exact fun v _ => mem_values_of_unbounded hthisU v
  · have hemp : (pci.pciDifference this).values=∅ := values_eq_empty_of_fContradiction hbool h
    rw [(pciDifference_spec hpci hthis).1] at hemp
    intro v hv
    by_contra hno
    exact Set.notMem_empty v (hemp ▸ ⟨hv,hno⟩)

variable [BoolDatums D]

theorem pciUniversal_wellFormed (colref : CColRef) (fIncludesNull : Bool) :
    (pciUniversal colref fIncludesNull : CConstraintInterval D).WellFormed := by
  rw [wellFormed_iff]
  apply Apart.singleton
  split
  next => exact Cut.before_lt_after.mpr (le_of_lt BoolDatums.false_lt_true)
  next => exact Cut.bot_lt_top

theorem mem_values_pciUniversal (hbool : colref.etiBool=false) (v : Option D) :
    v∈(pciUniversal colref true : CConstraintInterval D).values := by
  apply mem_values_of_unbounded
  simp [isConstraintUnbounded,pciUniversal,hbool,CRange.isConstraintUnbounded]

theorem pciComplement_spec (hthis : this.WellFormed) (hbool : this.pcr.etiBool=false) :
    this.pciComplement.values=this.valuesᶜ ∧ this.pciComplement.WellFormed := by
  have hdiff := pciDifference_spec (pciUniversal_wellFormed this.pcr true) hthis
  refine ⟨hdiff.1.trans ?_,hdiff.2⟩
  apply Set.ext
  intro v
  rw [Set.mem_sdiff,Set.mem_compl_iff]
  exact and_iff_right (mem_values_pciUniversal hbool v)

end CConstraintInterval

open CConstraintInterval

/-- Interval algebra is exact set algebra on sorted disjoint ranges none of which is empty. -/
theorem interval_algebra_exact {D : Type*} [LinearOrder D] [BoolDatums D]
    (this pci : CConstraintInterval D) (hcol : this.pcr=pci.pcr) (hbool : this.pcr.etiBool=false)
    (hthis : this.Sorted) (hpci : pci.Sorted) (hthisNe : this.NonEmptyRanges)
    (hpciNe : pci.NonEmptyRanges) :
    ((this.pciIntersect pci).values=this.values ∩ pci.values ∧ (this.pciIntersect pci).WellFormed) ∧
    ((this.pciUnion pci).values=this.values ∪ pci.values ∧ (this.pciUnion pci).WellFormed) ∧
    ((this.pciDifference pci).values=this.values \ pci.values ∧
      (this.pciDifference pci).WellFormed) ∧
    (this.pciComplement.values=this.valuesᶜ ∧ this.pciComplement.WellFormed) ∧
    (this.fContainsInterval pci=true → pci.values⊆this.values) := by
  have hwf : this.WellFormed := ⟨hthis,hthisNe⟩
  have hwf' : pci.WellFormed := ⟨hpci,hpciNe⟩
  exact ⟨pciIntersect_spec hwf hwf',pciUnion_spec hwf hwf',pciDifference_spec hwf hwf',
    pciComplement_spec hwf hbool,subset_of_fContainsInterval hwf hwf' (hcol ▸ hbool)⟩

def numberColumn : CColRef := ⟨0,true,false,true⟩

/-- Numbers up to 3 without 2, as two ranges that leave 2 out, and the ranges from 2 on. -/
theorem interval_algebra_exact_numbers : ((⟨numberColumn,[⟨none,eriExcluded,some 2,eriExcluded⟩,
      ⟨some 2,eriExcluded,some 3,eriIncluded⟩],true⟩ : CConstraintInterval Nat).pciUnion
      ⟨numberColumn,[⟨some 2,eriIncluded,none,eriExcluded⟩],false⟩).values=
    (⟨numberColumn,[⟨none,eriExcluded,some 2,eriExcluded⟩,
      ⟨some 2,eriExcluded,some 3,eriIncluded⟩],true⟩ : CConstraintInterval Nat).values ∪
    (⟨numberColumn,[⟨some 2,eriIncluded,none,eriExcluded⟩],false⟩ :
      CConstraintInterval Nat).values :=
  (interval_algebra_exact ⟨numberColumn,[⟨none,eriExcluded,some 2,eriExcluded⟩,
      ⟨some 2,eriExcluded,some 3,eriIncluded⟩],true⟩
    ⟨numberColumn,[⟨some 2,eriIncluded,none,eriExcluded⟩],false⟩ rfl rfl
    (by simp [Sorted,fDisjointLeft]) (by simp [Sorted])
    (by simp [NonEmptyRanges,CRange.NonEmpty]) (by simp [NonEmptyRanges,CRange.NonEmpty])).2.1.1

/-- The range (2,2), which the constructor accepts, makes the union with [2,3] lose 2. -/
theorem interval_union_loses_value :
    ∃ this pci : CConstraintInterval Nat, this.pcr=pci.pcr ∧ this.pcr.etiBool=false ∧
      this.Sorted ∧ pci.Sorted ∧ (∀ r∈this.pdrgprng++pci.pdrgprng, r.IsValid) ∧
      some 2∈pci.values ∧ ¬some 2∈(this.pciUnion pci).values := by
  refine ⟨⟨numberColumn,[⟨some 2,eriExcluded,some 2,eriExcluded⟩],false⟩,
    ⟨numberColumn,[⟨some 2,eriIncluded,some 3,eriIncluded⟩],false⟩,rfl,rfl,
    by simp [Sorted],by simp [Sorted],by simp [CRange.IsValid],?_,?_⟩
  · rw [some_mem_values]
    simp
  · have hunion : unionLoop [(⟨some 2,eriExcluded,some 2,eriExcluded⟩ : CRange Nat)]
        [⟨some 2,eriIncluded,some 3,eriIncluded⟩] []=
        [⟨some 2,eriExcluded,some 3,eriIncluded⟩] := by
      decide +kernel
    rw [some_mem_values]
    simp [pciUnion,hunion]

end WarehousePG.Orca
