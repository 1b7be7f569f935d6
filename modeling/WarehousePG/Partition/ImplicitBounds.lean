import Mathlib.Data.List.Dedup
import Mathlib.Data.List.GetD
import Mathlib.Data.List.Sort
import Mathlib.Order.Bounds.Basic
import Mathlib.Order.MinMax
import Mathlib.Order.WithBot

namespace WarehousePG.Partition

open List WithBot

variable {α : Type*} [LinearOrder α]

/-- A bound on one column: MINVALUE, a value, or MAXVALUE. -/
abbrev Bound (α : Type*) := WithBot (WithTop α)

def Bound.value (a : α) : Bound α := (a : WithTop α)

structure PartitionRange (α : Type*) where
  lower : Bound α
  upper : Bound α

def PartitionRange.Overlaps (r p : PartitionRange α) : Prop :=
  max r.lower p.lower < min r.upper p.upper
  deriving Decidable

/-- The bounds of all partitions in ascending order; equal ones are neighbours and kept once. -/
def createRangeBounds (parts : List (PartitionRange α)) : List (Bound α) :=
  ((parts.flatMap fun p => [p.lower,p.upper]).insertionSort (· ≤ ·)).dedup

/-- The loop of the search; `lo` and `hi` are one more than in the source. -/
def bsearchLoop (datums : List (Bound α)) (value : Bound α) (lo hi : Nat) (isEqual : Bool) :
    Nat × Bool :=
  if lo<hi then
    let mid := (lo+hi-1)/2
    if datums.getD mid ⊥≤value then
      if datums.getD mid ⊥=value then (mid+1,true)
      else bsearchLoop datums value (mid+1) hi false
    else bsearchLoop datums value lo mid isEqual
  else (lo,isEqual)
termination_by hi-lo

/-- How many bounds are not above a value, and whether the last of them equals it. -/
def partitionRangeDatumBsearch (datums : List (Bound α)) (value : α) : Nat × Bool :=
  bsearchLoop datums (.value value) 0 datums.length false

def deduceLower (datums : List (Bound α)) (upper : α) : Bound α :=
  let r := partitionRangeDatumBsearch datums upper
  let datum := datums.getD (r.1-1) ⊥
  if r.1≠0 ∧ r.2=false ∧ datum≠⊥ ∧ datum≠⊤ then datum else ⊥

def deduceUpper (datums : List (Bound α)) (lower : α) : Bound α :=
  let r := partitionRangeDatumBsearch datums lower
  let datum := datums.getD r.1 ⊥
  if r.1<datums.length ∧ datum≠⊥ ∧ datum≠⊤ then datum else ⊤

/-- ADD PARTITION with only a START or only an END. -/
inductive GivenBound (α : Type*) where
  | start (value : α)
  | endBefore (value : α)

/-- The branch for ALTER TABLE ADD PARTITION. -/
def deduceImplicitRangeBounds (parts : List (PartitionRange α)) : GivenBound α → PartitionRange α
  | .start value => ⟨.value value,deduceUpper (createRangeBounds parts) value⟩
  | .endBefore value => ⟨deduceLower (createRangeBounds parts) value,.value value⟩

section Searching

variable {l : List (Bound α)}

/-- The bracket of the search: the bounds before `lo` are not above the value, those from `hi` on
are, and the flag says whether the last one before `lo` equals it. -/
structure Bracket (l : List (Bound α)) (value : Bound α) (lo hi : Nat) (isEqual : Bool) :
    Prop where
  below : ∀ j<lo, l.getD j ⊥≤value
  above : ∀ j, hi≤j → j<l.length → value<l.getD j ⊥
  equal : isEqual=true ↔ lo≠0 ∧ l.getD (lo-1) ⊥=value

omit [LinearOrder α] in
theorem mem_iff_getD : b∈l ↔ ∃ j<l.length, l.getD j ⊥=b := by
  rw [mem_iff_getElem]
  refine exists_congr fun j => ⟨fun ⟨hj,hb⟩ => ⟨hj,?_⟩,fun ⟨hj,hb⟩ => ⟨hj,?_⟩⟩
  · rw [getD_eq_getElem _ _ hj,hb]
  · rw [← hb,getD_eq_getElem _ _ hj]

variable (hsorted : l.SortedLT)
include hsorted

theorem getD_lt (hij : i<j) (hj : j<l.length) :
    l.getD i ⊥<l.getD j ⊥ := by
  rw [getD_eq_getElem _ _ hj,getD_eq_getElem _ _ (hij.trans hj)]
  exact pairwise_iff_getElem.mp hsorted.pairwise i j _ hj hij

theorem getD_le (hij : i≤j) (hj : j<l.length) :
    l.getD i ⊥≤l.getD j ⊥ := by
  cases Nat.lt_or_eq_of_le hij with
  | inl hlt => exact (getD_lt hsorted hlt hj).le
  | inr heq => rw [heq]

theorem bsearchLoop_spec (h : Bracket l value lo hi isEqual) (hlo : lo≤hi)
    (hhi : hi≤l.length) : ∃ n≤l.length, ∃ found,
      bsearchLoop l value lo hi isEqual=(n,found) ∧ Bracket l value n n found := by
  fun_induction bsearchLoop l value lo hi isEqual with
  | case1 lo hi isEqual hlt mid hle heq =>
    refine ⟨mid+1,by omega,true,rfl,fun j hj => ?_,fun j hj hlen => ?_,by simpa using heq⟩
    · exact heq ▸ getD_le hsorted (Nat.le_of_lt_succ hj) (by omega)
    · exact heq ▸ getD_lt hsorted hj hlen
  | case2 lo hi isEqual hlt mid hle hne ih =>
    refine ih ⟨fun j hj => ?_,h.above,by simpa using hne⟩ (by omega) hhi
    exact (getD_le hsorted (Nat.le_of_lt_succ hj) (by omega)).trans hle
  | case3 lo hi isEqual hlt mid hgt ih =>
    refine ih ⟨h.below,fun j hj hlen => ?_,h.equal⟩ (by omega) (by omega)
    exact (not_le.mp hgt).trans_le (getD_le hsorted hj hlen)
  | case4 lo hi isEqual hge =>
    obtain rfl : lo=hi := by omega
    exact ⟨lo,hhi,isEqual,rfl,h⟩

theorem bsearch_spec (a : α) : ∃ n≤l.length, ∃ found,
    partitionRangeDatumBsearch l a=(n,found) ∧ Bracket l (.value a) n n found :=
  bsearchLoop_spec hsorted ⟨by simp,fun j hj hlen => by omega,by simp⟩ (Nat.zero_le _) le_rfl

/-- Without an end the range reaches to the next bound after its start, or to MAXVALUE. -/
theorem deduceUpper_spec (s : α) :
    IsLeast {b | .value s<b ∧ (b∈l ∨ b=⊤)} (deduceUpper l s) := by
  obtain ⟨n,-,found,hr,h⟩ := bsearch_spec hsorted s
  have hleast : ∀ b, .value s<b → b∈l → n<l.length ∧ l.getD n ⊥≤b := by
    intro b hb hmem
    obtain ⟨j,hj,rfl⟩ := mem_iff_getD.mp hmem
    have hnj : n≤j := not_lt.mp fun hlt => (h.below j hlt).not_gt hb
    exact ⟨by omega,getD_le hsorted hnj hj⟩
  simp only [deduceUpper,hr]
  split
  next hn =>
    refine ⟨⟨h.above n le_rfl hn.1,.inl (mem_iff_getD.mpr ⟨n,hn.1,rfl⟩)⟩,fun b hb => ?_⟩
    exact hb.2.elim (fun hmem => (hleast b hb.1 hmem).2) fun heq => heq ▸ le_top
  next hn =>
    refine ⟨⟨coe_lt_coe.mpr (WithTop.coe_lt_top s),.inr rfl⟩,fun b hb => ?_⟩
    refine hb.2.elim (fun hmem => ?_) fun heq => heq.ge
    obtain ⟨hlen,hle⟩ := hleast b hb.1 hmem
    have htop : l.getD n ⊥=⊤ := by
      by_contra hne
      exact hn ⟨hlen,(bot_le.trans_lt (h.above n le_rfl hlen)).ne',hne⟩
    exact htop ▸ hle

/-- Without a start the range begins at the last bound before its end, unless the end is itself a
bound: then it begins at MINVALUE. -/
theorem deduceLower_spec (e : α) :
    (.value e∈l ∧ deduceLower l e=⊥) ∨
      .value e∉l ∧ IsGreatest {b | b<.value e ∧ (b∈l ∨ b=⊥)} (deduceLower l e) := by
  obtain ⟨n,hn,found,hr,h⟩ := bsearch_spec hsorted e
  have hgrt : ∀ b, b≤.value e → b∈l → n≠0 ∧ b≤l.getD (n-1) ⊥ := by
    intro b hb hmem
    obtain ⟨j,hj,rfl⟩ := mem_iff_getD.mp hmem
    have hjn : j<n := not_le.mp fun hle => (h.above j hle hj).not_ge hb
    exact ⟨by omega,getD_le hsorted (Nat.le_sub_one_of_lt hjn) (by omega)⟩
  have hmem : n≠0 → l.getD (n-1) ⊥∈l :=
    fun hpos => mem_iff_getD.mpr ⟨n-1,by omega,rfl⟩
  cases found with
  | true =>
    obtain ⟨hpos,heq⟩ := h.equal.mp rfl
    exact .inl ⟨heq ▸ hmem hpos,by simp [deduceLower,hr]⟩
  | false =>
    have hne : n≠0 → l.getD (n-1) ⊥≠.value e := fun hpos heq => by cases h.equal.mpr ⟨hpos,heq⟩
    refine .inr ⟨fun hend => ?_,?_⟩
    · obtain ⟨hpos,hle⟩ := hgrt _ le_rfl hend
      exact hne hpos ((h.below _ (by omega)).antisymm hle)
    simp only [deduceLower,hr]
    split
    next hc =>
      refine ⟨⟨(h.below _ (by omega)).lt_of_ne (hne hc.1),.inl (hmem hc.1)⟩,fun b hb => ?_⟩
      exact hb.2.elim (fun hmem => (hgrt b hb.1.le hmem).2) fun heq => heq.trans_le bot_le
    next hc =>
      refine ⟨⟨bot_lt_coe _,.inr rfl⟩,fun b hb => ?_⟩
      refine hb.2.elim (fun hmem => ?_) fun heq => heq.le
      obtain ⟨hpos,hle⟩ := hgrt b hb.1.le hmem
      have hbot : l.getD (n-1) ⊥=⊥ := by
        by_contra hne
        have hval : Bound.value e<⊤ := coe_lt_coe.mpr (WithTop.coe_lt_top e)
        exact hc ⟨hpos,trivial,hne,((h.below (n-1) (by omega)).trans_lt hval).ne⟩
      exact hbot ▸ hle

end Searching

section Filling

theorem mem_createRangeBounds {parts : List (PartitionRange α)} :
    b∈createRangeBounds parts ↔ ∃ p∈parts, b=p.lower ∨ b=p.upper := by
  simp [createRangeBounds]

theorem createRangeBounds_sorted (parts : List (PartitionRange α)) :
    (createRangeBounds parts).SortedLT :=
  sortedLT_iff_nodup_and_sortedLE.mpr ⟨nodup_dedup _,
    ((pairwise_insertionSort _ _).sublist (dedup_sublist _)).sortedLE⟩

def PartitionRange.Has (r : PartitionRange α) : GivenBound α → Prop
  | .start value => r.lower=.value value
  | .endBefore value => r.upper=.value value

structure Fills (parts : List (PartitionRange α)) (given : GivenBound α) (r : PartitionRange α) :
    Prop where
  has : r.Has given
  nonempty : r.lower<r.upper
  free : ∀ p∈parts, ¬r.Overlaps p

/-- What the deduced range is for: the largest free range where there is one, and otherwise a range
for which the command is refused. -/
structure FillsGap (parts : List (PartitionRange α)) (given : GivenBound α)
    (r : PartitionRange α) : Prop where
  largest : ∀ r', Fills parts given r' →
    Fills parts given r ∧ r.lower≤r'.lower ∧ r'.upper≤r.upper
  refused : (∀ r', ¬Fills parts given r') → ¬r.lower<r.upper ∨ ∃ p∈parts, r.Overlaps p

/-- A partition starts at the given end, some start before it, and these have ended before it. -/
def GapBefore (parts : List (PartitionRange α)) : GivenBound α → Prop
  | .start _ => False
  | .endBefore value => (∃ p∈parts, p.lower=.value value) ∧ (∃ p∈parts, p.lower<.value value) ∧
    ∀ p∈parts, p.lower<.value value → p.upper<.value value

theorem overlaps_iff {r p : PartitionRange α} (hr : r.lower<r.upper) (hp : p.lower<p.upper) :
    r.Overlaps p ↔ r.lower<p.upper ∧ p.lower<r.upper := by
  simp only [PartitionRange.Overlaps,lt_min_iff,max_lt_iff]
  tauto

variable {parts : List (PartitionRange α)}

theorem exists_upper_bound {e : Bound α} (he : ⊥<e)
    (hends : ∀ p∈parts, p.lower<e → p.upper<e) :
    ∃ x<e, ∀ p∈parts, p.lower<e → p.upper≤x := by
  induction parts with
  | nil => exact ⟨⊥,he,nofun⟩
  | cons q parts ih =>
    obtain ⟨hq,hends⟩ := forall_mem_cons.mp hends
    obtain ⟨x,hx,hall⟩ := ih hends
    by_cases hlow : q.lower<e
    · refine ⟨max q.upper x,max_lt (hq hlow) hx,forall_mem_cons.mpr ⟨fun _ => le_max_left _ _,?_⟩⟩
      exact fun p hp hlt => (hall p hp hlt).trans (le_max_right _ _)
    · exact ⟨x,hx,forall_mem_cons.mpr ⟨fun hlt => absurd hlt hlow,hall⟩⟩

variable (hne : ∀ p∈parts, p.lower<p.upper)
include hne

/-- From a START the next partition's lower bound is as far as the range can go. -/
theorem deduceUpper_fills (hr : Fills parts (.start s) r) :
    Fills parts (.start s) (deduceImplicitRangeBounds parts (.start s)) ∧
      r.upper≤deduceUpper (createRangeBounds parts) s := by
  obtain ⟨⟨hlt,hmem⟩,hleast⟩ := deduceUpper_spec (createRangeBounds_sorted parts) s
  have hs : r.lower=.value s := hr.has
  -- a partition that ends after the start begins after the free range
  have hout : ∀ p∈parts, .value s<p.upper → r.upper≤p.lower := by
    intro p hp hupp
    refine not_lt.mp fun hlt => hr.free p hp ?_
    rw [overlaps_iff hr.nonempty (hne p hp),hs]
    exact ⟨hupp,hlt⟩
  have haft : .value s<r.upper := hs ▸ hr.nonempty
  refine ⟨⟨rfl,hlt,fun p hp hover => ?_⟩,?_⟩
  · obtain ⟨hupp,hlow⟩ := (overlaps_iff hlt (hne p hp)).mp hover
    exact (hleast ⟨haft.trans_le (hout p hp hupp),
      .inl (mem_createRangeBounds.mpr ⟨p,hp,.inl rfl⟩)⟩).not_gt hlow
  · cases hmem with
    | inr htop => exact htop ▸ le_top
    | inl hmem =>
      obtain ⟨p,hp,heq | heq⟩ := mem_createRangeBounds.mp hmem
      · exact heq ▸ hout p hp ((heq ▸ hlt).trans (hne p hp))
      · exact (hout p hp (heq ▸ hlt)).trans (heq ▸ (hne p hp).le)

/-- Up to an END the last partition's upper bound is as far back as it can go. -/
theorem deduceLower_fills (hgap : ¬GapBefore parts (.endBefore e))
    (hr : Fills parts (.endBefore e) r) :
    Fills parts (.endBefore e) (deduceImplicitRangeBounds parts (.endBefore e)) ∧
      deduceLower (createRangeBounds parts) e≤r.lower := by
  have he : r.upper=.value e := hr.has
  -- a partition that begins before the end has ended by the start of the free range
  have hout : ∀ p∈parts, p.lower<.value e → p.upper≤r.lower := by
    intro p hp hlow
    refine not_lt.mp fun hlt => hr.free p hp ?_
    rw [overlaps_iff hr.nonempty (hne p hp),he]
    exact ⟨hlt,hlow⟩
  have hends : ∀ p∈parts, p.lower<.value e → p.upper<.value e :=
    fun p hp hlow => (hout p hp hlow).trans_lt (he ▸ hr.nonempty)
  cases deduceLower_spec (createRangeBounds_sorted parts) e with
  | inl hequal =>
    obtain ⟨hmem,hbot⟩ := hequal
    simp only [deduceImplicitRangeBounds,hbot]
    refine ⟨⟨rfl,bot_lt_coe _,fun p hp hover => hgap ?_⟩,bot_le⟩
    have hlow := ((overlaps_iff (bot_lt_coe _) (hne p hp)).mp hover).2
    obtain ⟨q,hq,heq | heq⟩ := mem_createRangeBounds.mp hmem
    · exact ⟨⟨q,hq,heq.symm⟩,⟨p,hp,hlow⟩,hends⟩
    · exact absurd heq (hends q hq (heq ▸ hne q hq)).ne'
  | inr hlast =>
    obtain ⟨-,⟨hlt,hmem⟩,hgrt⟩ := hlast
    refine ⟨⟨rfl,hlt,fun p hp hover => ?_⟩,?_⟩
    · obtain ⟨hupp,hlow⟩ := (overlaps_iff hlt (hne p hp)).mp hover
      exact (hgrt ⟨hends p hp hlow,
        .inl (mem_createRangeBounds.mpr ⟨p,hp,.inr rfl⟩)⟩).not_gt hupp
    · cases hmem with
      | inr hbot => exact hbot ▸ bot_le
      | inl hmem =>
        obtain ⟨p,hp,heq | heq⟩ := mem_createRangeBounds.mp hmem
        · exact heq ▸ (hne p hp).le.trans (hout p hp (heq ▸ hlt))
        · exact heq ▸ hout p hp ((hne p hp).trans (heq ▸ hlt))

/-- In the gap before a partition the deduced range reaches down to MINVALUE and overlaps the
partitions before the gap. -/
theorem deduceLower_overlaps (hgap : GapBefore parts (.endBefore e)) :
    (∃ r, Fills parts (.endBefore e) r) ∧
      ∃ p∈parts, (deduceImplicitRangeBounds parts (.endBefore e)).Overlaps p := by
  obtain ⟨⟨q,hq,hstart⟩,⟨p,hp,hlow⟩,hends⟩ := hgap
  have hbot : deduceLower (createRangeBounds parts) e=⊥ := by
    rcases deduceLower_spec (createRangeBounds_sorted parts) e with ⟨-,hbot⟩ | ⟨hnot,-⟩
    · exact hbot
    · exact absurd (mem_createRangeBounds.mpr ⟨q,hq,.inl hstart.symm⟩) hnot
  constructor
  · obtain ⟨x,hx,hall⟩ := exists_upper_bound (bot_lt_coe _) hends
    refine ⟨⟨x,.value e⟩,rfl,hx,fun p hp hover => ?_⟩
    obtain ⟨hupp,hlow⟩ := (overlaps_iff hx (hne p hp)).mp hover
    exact (hall p hp hlow).not_gt hupp
  · refine ⟨p,hp,?_⟩
    rw [deduceImplicitRangeBounds,hbot,overlaps_iff (bot_lt_coe _) (hne p hp)]
    exact ⟨bot_le.trans_lt (hne p hp),hlow⟩

/-- The deduced range does what it is for, exactly where the given bound is not an END at which a
partition starts and before which others start and have ended. -/
theorem deduce_fills_gap (given : GivenBound α) :
    FillsGap parts given (deduceImplicitRangeBounds parts given) ↔ ¬GapBefore parts given := by
  constructor
  · intro hfil hgap
    cases given with
    | start s => exact hgap
    | endBefore e =>
      obtain ⟨⟨r,hr⟩,p,hp,hover⟩ := deduceLower_overlaps hne hgap
      exact (hfil.largest r hr).1.free p hp hover
  · intro hgap
    refine ⟨fun r' hr => ?_,fun hnone => ?_⟩
    · cases given with
      | start s =>
        obtain ⟨hfil,hle⟩ := deduceUpper_fills hne hr
        exact ⟨hfil,hr.has.ge,hle⟩
      | endBefore e =>
        obtain ⟨hfil,hle⟩ := deduceLower_fills hne hgap hr
        exact ⟨hfil,hle,hr.has.le⟩
    · by_contra hbad
      obtain ⟨hlt,hfree⟩ := not_or.mp hbad
      have hhas : (deduceImplicitRangeBounds parts given).Has given := by
        cases given with
        | start s => rfl
        | endBefore e => rfl
      exact hnone _ ⟨hhas,not_not.mp hlt,fun p hp hover => hfree ⟨p,hp,hover⟩⟩

end Filling

def apart : List (PartitionRange Nat) := [⟨.value 0,.value 5⟩,⟨.value 10,.value 20⟩]

theorem deduce_fills_gap_apart : (∀ p∈apart, p.lower<p.upper) ∧
    FillsGap apart (.endBefore 30) (deduceImplicitRangeBounds apart (.endBefore 30)) ∧
    ¬FillsGap apart (.endBefore 10) (deduceImplicitRangeBounds apart (.endBefore 10)) := by
  have hne : ∀ p∈apart, p.lower<p.upper := by decide
  refine ⟨hne,(deduce_fills_gap hne _).mpr ?_,fun hfil => (deduce_fills_gap hne _).mp hfil ?_⟩
  · rintro ⟨⟨p,hp,heq⟩,-⟩
    revert p
    decide
  · exact ⟨⟨⟨.value 10,.value 20⟩,by simp [apart],rfl⟩,
      ⟨⟨.value 0,.value 5⟩,by simp [apart],by decide⟩,by decide⟩

/-- A range that ends where the second partition starts is deduced to start at MINVALUE, though the
gap between the two partitions is free. -/
theorem end_at_lower_bound_overlaps : Fills apart (.endBefore 10) ⟨.value 5,.value 10⟩ ∧
    ∃ p∈apart, (deduceImplicitRangeBounds apart (.endBefore 10)).Overlaps p := by
  exact ⟨⟨rfl,by decide,by decide⟩,by decide +kernel⟩

end WarehousePG.Partition
