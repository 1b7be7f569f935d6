import Mathlib.Data.Finset.Sort
import Mathlib.Logic.Relation

namespace WarehousePG.Orca

open Relation

/-- A set of columns, by their ids; its iterator follows the order of the ids. -/
abbrev CColRefSet := Finset Nat

/-- The loop over the classes, with the growing copy of the new class. -/
def addEquivClassToArray (pcrsCopy : CColRefSet) : List CColRefSet → List CColRefSet
  | [] => [pcrsCopy]
  | pcrs::pdrgpcrs =>
    if Disjoint pcrsCopy pcrs then pcrs::addEquivClassToArray pcrsCopy pdrgpcrs
    else addEquivClassToArray (pcrsCopy ∪ pcrs) pdrgpcrs

def pdrgpcrsMergeEquivClasses (pdrgpcrsFst pdrgpcrsSnd : List CColRefSet) : List CColRefSet :=
  pdrgpcrsSnd.foldl (fun pdrgpcrsMerged pcrs => addEquivClassToArray pcrs pdrgpcrsMerged)
    pdrgpcrsFst

/-- One probe of the map from a column to its class, with the classes found and the columns done. -/
def probeEquivClass (pdrgpcrsFst : List CColRefSet) (pcrsSnd : CColRefSet)
    (r : List CColRefSet × CColRefSet) (colref : Nat) : List CColRefSet × CColRefSet :=
  match pdrgpcrsFst.find? (colref∈·) with
  | none => r
  | some pcrs =>
    if colref∈r.2 then r else (r.1 ++ [pcrsSnd ∩ pcrs],r.2 ∪ pcrsSnd ∩ pcrs)

def pdrgpcrsIntersectEquivClasses (pdrgpcrsFst pdrgpcrsSnd : List CColRefSet) : List CColRefSet :=
  if pdrgpcrsSnd=[] ∨ pdrgpcrsFst=[] then []
  else (pdrgpcrsSnd.foldl (fun r pcrsSnd =>
    (pcrsSnd.sort (· ≤ ·)).foldl (probeEquivClass pdrgpcrsFst pcrsSnd) r) ([],∅)).1

structure EquivClasses (l : List CColRefSet) : Prop where
  disjoint : l.Pairwise Disjoint
  nonempty : ∀ s∈l, s.Nonempty

def Shares (l : List CColRefSet) (a b : Nat) : Prop := ∃ s∈l, a∈s ∧ b∈s

/-- The columns are linked by a chain whose neighbours share a class. -/
def Linked (l : List CColRefSet) : Nat → Nat → Prop := TransGen (Shares l)

variable {a b : Nat} {c p q s : CColRefSet} {l l' m m' fst snd : List CColRefSet}

theorem EquivClasses.same (h : EquivClasses l) (hp : p∈l) (hq : q∈l) (ha : a∈p) (hb : a∈q) :
    p=q := by
  by_contra hne
  exact Finset.disjoint_left.mp (h.disjoint.forall hp hq hne) ha hb

section Merge

/-- The classes of `m` are those of `l` merged. -/
structure Merges (l m : List CColRefSet) : Prop where
  classes : EquivClasses m
  includes : ∀ p∈l, ∃ s∈m, p⊆s
  within : ∀ s∈m, ∀ a∈s, ∀ b∈s, Linked l a b

namespace Merges

theorem shares (h : Merges l m) : Shares m a b ↔ Linked l a b := by
  have hstep : ∀ {a b}, Shares l a b → Shares m a b := by
    rintro a b ⟨p,hp,ha,hb⟩
    obtain ⟨s,hs,hsub⟩ := h.includes p hp
    exact ⟨s,hs,hsub ha,hsub hb⟩
  constructor
  · rintro ⟨s,hs,ha,hb⟩
    exact h.within s hs a ha b hb
  · intro hlinked
    induction hlinked with
    | single hab => exact hstep hab
    | tail _ hbd ih =>
      obtain ⟨p,hp,ha,hb⟩ := ih
      obtain ⟨q,hq,hb',hd⟩ := hstep hbd
      obtain rfl := h.classes.same hp hq hb hb'
      exact ⟨p,hp,ha,hd⟩

theorem refl (h : EquivClasses l) : Merges l l :=
  ⟨h,fun p hp => ⟨p,hp,Finset.Subset.refl p⟩,fun s hs _ ha _ hb => .single ⟨s,hs,ha,hb⟩⟩

theorem congr (h : Merges l m) (hmem : ∀ p, p∈l ↔ p∈l') : Merges l' m := by
  refine ⟨h.classes,fun p hp => h.includes p ((hmem p).mpr hp),fun s hs a ha b hb => ?_⟩
  refine TransGen.mono ?_ _ _ (h.within s hs a ha b hb)
  rintro a b ⟨p,hp,hab⟩
  exact ⟨p,(hmem p).mp hp,hab⟩

theorem append (h : Merges l m) (h' : Merges (m ++ l') m') : Merges (l ++ l') m' := by
  refine ⟨h'.classes,fun p hp => ?_,fun s hs a ha b hb => ?_⟩
  · rcases List.mem_append.mp hp with hp | hp
    · obtain ⟨s,hs,hsub⟩ := h.includes p hp
      obtain ⟨s',hs',hsub'⟩ := h'.includes s (List.mem_append_left _ hs)
      exact ⟨s',hs',hsub.trans hsub'⟩
    · exact h'.includes p (List.mem_append_right _ hp)
  · refine TransGen.closed ?_ _ _ (h'.within s hs a ha b hb)
    rintro a b ⟨p,hp,ha,hb⟩
    rcases List.mem_append.mp hp with hp | hp
    · refine TransGen.mono ?_ _ _ (h.within p hp a ha b hb)
      rintro a b ⟨p,hp,hab⟩
      exact ⟨p,List.mem_append_left _ hp,hab⟩
    · exact .single ⟨p,List.mem_append_right _ hp,ha,hb⟩

end Merges

/-- Since the classes are disjoint, the ones that meet the growing set are the ones that meet the
new class. -/
theorem addEquivClassToArray_eq (hl : l.Pairwise Disjoint) :
    ∃ u, addEquivClassToArray c l=l.filter (Disjoint c ·) ++ [u] ∧
      ∀ a, a∈u ↔ a∈c ∨ ∃ p∈l, ¬Disjoint c p ∧ a∈p := by
  induction l generalizing c with
  | nil => exact ⟨c,rfl,by simp⟩
  | cons p l ih =>
    have hl := List.pairwise_cons.mp hl
    rw [addEquivClassToArray]
    split
    next hd =>
      obtain ⟨u,heq,hu⟩ := @ih c hl.2
      exact ⟨u,by simp [heq,hd],by simp [hu,hd]⟩
    next hmeet =>
      obtain ⟨u,heq,hu⟩ := @ih (c ∪ p) hl.2
      have hsame : ∀ q∈l, Disjoint (c ∪ p) q ↔ Disjoint c q := by
        intro q hq
        rw [Finset.disjoint_union_left]
        exact and_iff_left (hl.1 q hq)
      refine ⟨u,?_,fun a => ?_⟩
      · rw [heq,List.filter_cons_of_neg (by simpa using hmeet)]
        congr 1
        exact List.filter_congr fun q hq => by simp [hsame q hq]
      · rw [hu,Finset.mem_union,List.exists_mem_cons_iff,or_assoc]
        apply or_congr_right
        apply or_congr (by simp [hmeet])
        exact exists_congr fun q => and_congr_right fun hq => by rw [hsame q hq]

/-- Adding a class merges it with the classes it meets. -/
theorem add_merges (hl : EquivClasses l) (hc : c.Nonempty) :
    Merges (c::l) (addEquivClassToArray c l) := by
  obtain ⟨u,heq,hu⟩ := @addEquivClassToArray_eq c l hl.disjoint
  rw [heq]
  refine ⟨⟨?disjoint,?nonempty⟩,?includes,?within⟩
  case disjoint =>
    refine List.pairwise_append.mpr ⟨hl.disjoint.filter _,List.pairwise_singleton _ _,?_⟩
    intro p hp v hv
    rw [List.mem_singleton.mp hv]
    obtain ⟨hp,hd⟩ : p∈l ∧ Disjoint c p := by simpa using hp
    refine Finset.disjoint_left.mpr fun a ha hau => ?_
    rcases (hu a).mp hau with hac | ⟨q,hq,hmeet,haq⟩
    · exact Finset.disjoint_left.mp hd hac ha
    · exact hmeet (hl.same hp hq ha haq ▸ hd)
  case nonempty =>
    intro s hs
    rcases List.mem_append.mp hs with hs | hs
    · exact hl.nonempty s (List.mem_of_mem_filter hs)
    · rw [List.mem_singleton.mp hs]
      obtain ⟨a,ha⟩ := hc
      exact ⟨a,(hu a).mpr (Or.inl ha)⟩
  case includes =>
    intro p hp
    rcases List.mem_cons.mp hp with rfl | hp
    · exact ⟨u,by simp,fun a ha => (hu a).mpr (Or.inl ha)⟩
    · by_cases hd : Disjoint c p
      · exact ⟨p,by simp [hp,hd],Finset.Subset.refl p⟩
      · exact ⟨u,by simp,fun a ha => (hu a).mpr (Or.inr ⟨p,hp,hd,ha⟩)⟩
  case within =>
    have hshares : ∀ {s a b}, s∈c::l → a∈s → b∈s → Linked (c::l) a b :=
      fun hs ha hb => .single ⟨_,hs,ha,hb⟩
    -- every column of the union is linked to the columns of the new class
    have hlink : ∀ a∈u, ∀ x∈c, Linked (c::l) a x ∧ Linked (c::l) x a := by
      intro a ha x hx
      rcases (hu a).mp ha with ha | ⟨p,hp,hmeet,ha⟩
      · exact ⟨hshares (by simp) ha hx,hshares (by simp) hx ha⟩
      · obtain ⟨y,hyc,hyp⟩ := Finset.not_disjoint_iff.mp hmeet
        have hp : p∈c::l := List.mem_cons_of_mem _ hp
        exact ⟨(hshares hp ha hyp).trans (hshares (by simp) hyc hx),
          (hshares (by simp) hx hyc).trans (hshares hp hyp ha)⟩
    intro s hs a ha b hb
    rcases List.mem_append.mp hs with hs | hs
    · exact hshares (List.mem_cons_of_mem _ (List.mem_of_mem_filter hs)) ha hb
    · rw [List.mem_singleton.mp hs] at ha hb
      obtain ⟨x,hx⟩ := hc
      exact (hlink a ha x hx).1.trans (hlink b hb x hx).2

theorem merge_merges (hfst : EquivClasses fst) (hsnd : ∀ s∈snd, s.Nonempty) :
    Merges (fst ++ snd) (pdrgpcrsMergeEquivClasses fst snd) := by
  induction snd generalizing fst with
  | nil => exact (Merges.refl hfst).congr (by simp)
  | cons c snd ih =>
    have hsnd := List.forall_mem_cons.mp hsnd
    have hadd := add_merges hfst hsnd.1
    exact (hadd.append (ih hadd.classes hsnd.2)).congr (by simp [or_left_comm])

theorem merge_all {ls : List (List CColRefSet)} (hl : EquivClasses l)
    (hls : ∀ l∈ls, EquivClasses l) :
    Merges (l ++ ls.flatten) (ls.foldl pdrgpcrsMergeEquivClasses l) := by
  induction ls generalizing l with
  | nil => exact (Merges.refl hl).congr (by simp)
  | cons l' ls ih =>
    have hls := List.forall_mem_cons.mp hls
    have hmerge := merge_merges hl hls.1.nonempty
    exact (hmerge.append (ih hmerge.classes hls.2)).congr (by simp)

end Merge

section Intersect

/-- What the probes have found: the columns done are those of the blocks found. -/
structure Probed (fst snd : List CColRefSet) (r : List CColRefSet × CColRefSet) : Prop where
  classes : EquivClasses r.1
  done : ∀ a, a∈r.2 ↔ ∃ s∈r.1, a∈s
  blocks : ∀ s∈r.1, ∃ q∈snd, ∃ p∈fst, s=q ∩ p

/-- The probes go on, and the columns of `cols` that are in a class are done. -/
structure Goes (fst snd : List CColRefSet) (cols : List Nat)
    (r r' : List CColRefSet × CColRefSet) : Prop where
  probed : Probed fst snd r'
  kept : ∀ a∈r.2, a∈r'.2
  found : ∀ a∈cols, ∀ p∈fst, a∈p → a∈r'.2

variable {r : List CColRefSet × CColRefSet}

/-- A probe adds the block of its column unless that is done. -/
theorem probe_goes (hfst : EquivClasses fst) (hsnd : EquivClasses snd) (hr : Probed fst snd r)
    (hq : q∈snd) (ha : a∈q) : Goes fst snd [a] r (probeEquivClass fst q r a) := by
  unfold probeEquivClass
  split
  next hnone =>
    refine ⟨hr,fun _ h => h,List.forall_mem_singleton.mpr fun p hp hap => ?_⟩
    exact absurd hap (by simpa using List.find?_eq_none.mp hnone p hp)
  next p hfind =>
    have hp := List.mem_of_find?_eq_some hfind
    have hap : a∈p := by simpa using List.find?_some hfind
    split
    next hdone => exact ⟨hr,fun _ h => h,List.forall_mem_singleton.mpr fun _ _ _ => hdone⟩
    next hnew =>
      have hblock : a∈q ∩ p := Finset.mem_inter.mpr ⟨ha,hap⟩
      refine ⟨⟨⟨?disjoint,?nonempty⟩,?done,?blocks⟩,fun x hx => Finset.mem_union_left _ hx,?found⟩
      case disjoint =>
        refine List.pairwise_append.mpr ⟨hr.classes.disjoint,List.pairwise_singleton _ _,?_⟩
        intro s hs v hv
        rw [List.mem_singleton.mp hv]
        refine Finset.disjoint_left.mpr fun x hx hx' => hnew ((hr.done a).mpr ⟨s,hs,?_⟩)
        obtain ⟨q',hq',p',hp',rfl⟩ := hr.blocks s hs
        rw [Finset.mem_inter] at hx hx'
        rwa [hsnd.same hq' hq hx.1 hx'.1,hfst.same hp' hp hx.2 hx'.2]
      case nonempty =>
        intro s hs
        rcases List.mem_append.mp hs with hs | hs
        · exact hr.classes.nonempty s hs
        · rw [List.mem_singleton.mp hs]
          exact ⟨a,hblock⟩
      case done =>
        intro x
        simp [hr.done x,or_and_right,exists_or]
      case blocks =>
        intro s hs
        rcases List.mem_append.mp hs with hs | hs
        · exact hr.blocks s hs
        · exact ⟨q,hq,p,hp,List.mem_singleton.mp hs⟩
      case found =>
        exact List.forall_mem_singleton.mpr fun _ _ _ => Finset.mem_union_right _ hblock

theorem Goes.trans {A B : List Nat} {r' r'' : List CColRefSet × CColRefSet}
    (h : Goes fst snd A r r') (h' : Goes fst snd B r' r'') : Goes fst snd (A ++ B) r r'' := by
  refine ⟨h'.probed,fun a ha => h'.kept a (h.kept a ha),fun a ha p hp hap => ?_⟩
  rcases List.mem_append.mp ha with ha | ha
  · exact h'.kept a (h.found a ha p hp hap)
  · exact h'.found a ha p hp hap

variable (hfst : EquivClasses fst) (hsnd : EquivClasses snd)
include hfst hsnd

theorem class_goes (hr : Probed fst snd r) (hq : q∈snd) {cols : List Nat} (hcols : ∀ a∈cols, a∈q) :
    Goes fst snd cols r (cols.foldl (probeEquivClass fst q) r) := by
  induction cols generalizing r with
  | nil => exact ⟨hr,fun _ h => h,by simp⟩
  | cons a cols ih =>
    have hcols := List.forall_mem_cons.mp hcols
    have hprobe := probe_goes hfst hsnd hr hq hcols.1
    exact hprobe.trans (ih hprobe.probed hcols.2)

theorem classes_goes (hr : Probed fst snd r) (hl : l⊆snd) :
    Goes fst snd (l.flatMap (·.sort (· ≤ ·))) r (l.foldl (fun r pcrsSnd =>
      (pcrsSnd.sort (· ≤ ·)).foldl (probeEquivClass fst pcrsSnd) r) r) := by
  induction l generalizing r with
  | nil => exact ⟨hr,fun _ h => h,by simp⟩
  | cons q l ih =>
    have hl := List.cons_subset.mp hl
    have hclass := class_goes hfst hsnd hr hl.1 fun a ha => (Finset.mem_sort (· ≤ ·)).mp ha
    exact hclass.trans (ih hclass.probed hl.2)

/-- Two columns share a block exactly if they share a class in both arrays. -/
theorem intersect_spec : EquivClasses (pdrgpcrsIntersectEquivClasses fst snd) ∧
    ∀ a b, Shares (pdrgpcrsIntersectEquivClasses fst snd) a b ↔
      Shares fst a b ∧ Shares snd a b := by
  unfold pdrgpcrsIntersectEquivClasses
  split
  next hempty =>
    refine ⟨⟨List.Pairwise.nil,by simp⟩,fun a b => ?_⟩
    rcases hempty with rfl | rfl <;> simp [Shares]
  next =>
    have hgoes := classes_goes (r := ([],∅)) hfst hsnd
      ⟨⟨List.Pairwise.nil,by simp⟩,by simp,by simp⟩ (List.Subset.refl snd)
    refine ⟨hgoes.probed.classes,fun a b => ⟨?_,?_⟩⟩
    · rintro ⟨s,hs,ha,hb⟩
      obtain ⟨q,hq,p,hp,rfl⟩ := hgoes.probed.blocks s hs
      rw [Finset.mem_inter] at ha hb
      exact ⟨⟨p,hp,ha.2,hb.2⟩,q,hq,ha.1,hb.1⟩
    · rintro ⟨⟨p,hp,hap,hbp⟩,q,hq,haq,hbq⟩
      have hcol : a∈snd.flatMap (·.sort (· ≤ ·)) :=
        List.mem_flatMap.mpr ⟨q,hq,(Finset.mem_sort _).mpr haq⟩
      obtain ⟨s,hs,ha⟩ := (hgoes.probed.done a).mp (hgoes.found a hcol p hp hap)
      obtain ⟨q',hq',p',hp',rfl⟩ := hgoes.probed.blocks s hs
      rw [Finset.mem_inter] at ha
      obtain rfl := hsnd.same hq hq' haq ha.1
      obtain rfl := hfst.same hp hp' hap ha.2
      exact ⟨_,hs,Finset.mem_inter.mpr ha,Finset.mem_inter.mpr ⟨hbq,hbp⟩⟩

end Intersect

theorem intersect_all {ls : List (List CColRefSet)} (hls : ∀ c∈l::ls, EquivClasses c) :
    ∀ a b, Shares (ls.foldl pdrgpcrsIntersectEquivClasses l) a b ↔ ∀ c∈l::ls, Shares c a b := by
  induction ls generalizing l with
  | nil => simp
  | cons l' ls ih =>
    have hls := List.forall_mem_cons.mp hls
    have hrest := List.forall_mem_cons.mp hls.2
    obtain ⟨hclasses,hshares⟩ := intersect_spec hls.1 hrest.1
    intro a b
    rw [List.foldl_cons,ih (List.forall_mem_cons.mpr ⟨hclasses,hrest.2⟩)]
    simp [hshares,and_assoc]

theorem covered_iff : (∃ s∈l, a∈s) ↔ Linked l a a := by
  constructor
  · rintro ⟨s,hs,ha⟩
    exact .single ⟨s,hs,ha,ha⟩
  · intro hlinked
    obtain ⟨_,⟨s,hs,ha,-⟩,-⟩ := TransGen.head'_iff.mp hlinked
    exact ⟨s,hs,ha⟩

/-- Both combinations are exact, and the order in which arrays are folded does not matter. -/
theorem equiv_classes_combine (fst snd : List CColRefSet) (hfst : EquivClasses fst)
    (hsnd : EquivClasses snd) :
    (EquivClasses (pdrgpcrsMergeEquivClasses fst snd) ∧
      (∀ a, (∃ s∈pdrgpcrsMergeEquivClasses fst snd, a∈s) ↔ ∃ s∈fst ++ snd, a∈s) ∧
      ∀ a b, Shares (pdrgpcrsMergeEquivClasses fst snd) a b ↔ Linked (fst ++ snd) a b) ∧
    (EquivClasses (pdrgpcrsIntersectEquivClasses fst snd) ∧ ∀ a b,
      Shares (pdrgpcrsIntersectEquivClasses fst snd) a b ↔ Shares fst a b ∧ Shares snd a b) ∧
    ∀ l ls l' ls', (∀ c∈l::ls, EquivClasses c) → (l::ls).Perm (l'::ls') → ∀ a b,
      (Shares (ls.foldl pdrgpcrsMergeEquivClasses l) a b ↔
        Shares (ls'.foldl pdrgpcrsMergeEquivClasses l') a b) ∧
      (Shares (ls.foldl pdrgpcrsIntersectEquivClasses l) a b ↔
        Shares (ls'.foldl pdrgpcrsIntersectEquivClasses l') a b) := by
  have hmerge := merge_merges hfst hsnd.nonempty
  refine ⟨⟨hmerge.classes,fun a => ?_,fun a b => hmerge.shares⟩,intersect_spec hfst hsnd,?_⟩
  · have hself : (∃ s∈pdrgpcrsMergeEquivClasses fst snd, a∈s) ↔
        Shares (pdrgpcrsMergeEquivClasses fst snd) a a := by simp [Shares]
    rw [hself,hmerge.shares,covered_iff]
  · intro l ls l' ls' hls hperm a b
    have hls' : ∀ c∈l'::ls', EquivClasses c := fun c hc => hls c (hperm.mem_iff.mpr hc)
    have h := List.forall_mem_cons.mp hls
    have h' := List.forall_mem_cons.mp hls'
    have hall : Merges (l' ++ ls'.flatten) (ls.foldl pdrgpcrsMergeEquivClasses l) := by
      refine (merge_all h.1 h.2).congr fun p => ?_
      rw [← List.flatten_cons,← List.flatten_cons,List.mem_flatten,List.mem_flatten]
      exact exists_congr fun c => and_congr_left fun _ => hperm.mem_iff
    refine ⟨hall.shares.trans (merge_all h'.1 h'.2).shares.symm,?_⟩
    rw [intersect_all hls,intersect_all hls']
    exact forall_congr' fun c => imp_congr_left hperm.mem_iff

/-- The class 2, 3 links the classes 1, 2 and 3, 4, and 5 is in one array only. -/
theorem equiv_classes_combine_linking :
    Shares (pdrgpcrsMergeEquivClasses [{1,2},{3,4}] [{2,3},{5}]) 1 4 ∧
    ¬Shares (pdrgpcrsMergeEquivClasses [{1,2},{3,4}] [{2,3},{5}]) 1 5 ∧
    Shares (pdrgpcrsIntersectEquivClasses [{1,2},{3,4}] [{2,3},{5}]) 2 2 ∧
    ¬Shares (pdrgpcrsIntersectEquivClasses [{1,2},{3,4}] [{2,3},{5}]) 2 3 := by
  have hfst : EquivClasses [{1,2},{3,4}] := ⟨by decide,by decide⟩
  have hsnd : EquivClasses [{2,3},{5}] := ⟨by decide,by decide⟩
  obtain ⟨⟨hmerge,hcover,hlinked⟩,⟨-,hint⟩,-⟩ := equiv_classes_combine _ _ hfst hsnd
  refine ⟨(hlinked 1 4).mpr ?_,?_,(hint 2 2).mpr ?_,fun h => ?_⟩
  · have h12 : Shares ([{1,2},{3,4}] ++ [{2,3},{5}]) 1 2 := ⟨{1,2},by decide,by decide,by decide⟩
    have h23 : Shares ([{1,2},{3,4}] ++ [{2,3},{5}]) 2 3 := ⟨{2,3},by decide,by decide,by decide⟩
    have h34 : Shares ([{1,2},{3,4}] ++ [{2,3},{5}]) 3 4 := ⟨{3,4},by decide,by decide,by decide⟩
    exact ((TransGen.single h12).tail h23).tail h34
  · unfold Shares
    decide
  · exact ⟨⟨{1,2},by decide,by decide,by decide⟩,{2,3},by decide,by decide,by decide⟩
  · exact absurd ((hint 2 3).mp h).1 (by unfold Shares; decide)

end WarehousePG.Orca
