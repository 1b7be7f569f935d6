import Mathlib.Data.List.Sort
import WarehousePG.Orca.BoolExpr

namespace WarehousePG.Orca.BoolExpr

open Framework List Option

variable {α : Type*}

section Descendents

mutual

def pexprProcessDisjDescendents (pfnpepdFunction : List (BoolExpr α) → BoolExpr α) :
    BoolExpr α → BoolExpr α
  | scalarBoolOp .eboolopOr cs => pfnpepdFunction cs
  | scalarBoolOp .eboolopAnd cs => scalarBoolOp .eboolopAnd (processEach pfnpepdFunction cs)
  | scalarBoolNot c => scalarBoolNot (pexprProcessDisjDescendents pfnpepdFunction c)
  | scalarConstBool b => scalarConstBool b
  | atom a => atom a

def processEach (pfnpepdFunction : List (BoolExpr α) → BoolExpr α) :
    List (BoolExpr α) → List (BoolExpr α)
  | [] => []
  | c::cs => pexprProcessDisjDescendents pfnpepdFunction c::processEach pfnpepdFunction cs

end

mutual

def topDisjunctions : BoolExpr α → List (List (BoolExpr α))
  | scalarBoolOp .eboolopOr cs => [cs]
  | scalarBoolOp .eboolopAnd cs => topDisjunctionsEach cs
  | scalarBoolNot c => topDisjunctions c
  | scalarConstBool _ => []
  | atom _ => []

def topDisjunctionsEach : List (BoolExpr α) → List (List (BoolExpr α))
  | [] => []
  | c::cs => topDisjunctions c++topDisjunctionsEach cs

end

variable {v : α → Truth}

theorem processEach_eq : processEach f cs=cs.map (pexprProcessDisjDescendents f) := by
  induction cs with
  | nil => rfl
  | cons c cs ih => rw [processEach,ih,map_cons]

theorem mem_topDisjunctionsEach : l∈topDisjunctionsEach cs ↔ ∃ c∈cs, l∈topDisjunctions c := by
  induction cs with
  | nil => simp [topDisjunctionsEach]
  | cons c cs ih => simp [topDisjunctionsEach,ih]

/-- A rewrite of the topmost disjunctions that keeps their values keeps the value. -/
theorem holds_pexprProcessDisjDescendents (e : BoolExpr α) :
    (∀ cs∈topDisjunctions e, ∀ u, Holds v u (f cs) ↔ Holds v u (scalarBoolOp .eboolopOr cs)) →
      ∀ u, Holds v u (pexprProcessDisjDescendents f e) ↔ Holds v u e := by
  induction e using BoolExpr.induction with
  | const b | atom a => exact fun _ _ => Iff.rfl
  | not c ih =>
    intro h u
    rw [pexprProcessDisjDescendents,holds_not,holds_not,ih h]
  | boolOp op cs ih =>
    intro h u
    cases op with
    | eboolopOr =>
      rw [pexprProcessDisjDescendents]
      exact h cs (by simp [topDisjunctions]) u
    | eboolopAnd =>
      have hch : ∀ c∈cs, Holds v u (pexprProcessDisjDescendents f c) ↔ Holds v u c := by
        intro c hc
        apply ih c hc
        intro l hl
        exact h l (by rw [topDisjunctions]; exact mem_topDisjunctionsEach.mpr ⟨c,hc,hl⟩)
      rw [pexprProcessDisjDescendents,holds_boolOp,holds_boolOp,processEach_eq]
      apply combines_congr
      · intro x hx
        obtain ⟨c,hc,rfl⟩ := mem_map.mp hx
        exact ⟨c,hc,hch c hc⟩
      · exact fun c hc => ⟨_,mem_map_of_mem hc,hch c hc⟩

end Descendents

section Factors

def conjuncts : BoolExpr α → List (BoolExpr α)
  | scalarBoolOp .eboolopAnd cs => cs
  | e => [e]

/-- A map from expressions to counts; a lookup looks in the chain of the hash value. -/
abbrev ExprMap (α : Type*) := List (BoolExpr α × Nat)

def exprMapFind (A : Atoms α) (m : ExprMap α) (e : BoolExpr α) : Option Nat :=
  (m.find? fun entry => inChain A (hashValue A) entry.1 e).map Prod.snd

def exprMapInsert (A : Atoms α) (m : ExprMap α) (e : BoolExpr α) (n : Nat) : ExprMap α :=
  if (exprMapFind A m e).isSome then m else m++[(e,n)]

def exprMapIncrement (A : Atoms α) : ExprMap α → BoolExpr α → ExprMap α
  | [], _ => []
  | entry::m, e =>
    if inChain A (hashValue A) entry.1 e then (entry.1,entry.2+1)::m
    else entry::exprMapIncrement A m e

def countConjunct (A : Atoms α) (ulDisjuncts : Nat) (maps : ExprMap α × ExprMap α)
    (pexprConj : BoolExpr α) : ExprMap α × ExprMap α :=
  let pexprmapGlobal :=
    match exprMapFind A maps.1 pexprConj with
    | none => exprMapInsert A maps.1 pexprConj 1
    | some _ => exprMapIncrement A maps.1 pexprConj
  if exprMapFind A pexprmapGlobal pexprConj=some ulDisjuncts then
    (pexprmapGlobal,exprMapInsert A maps.2 pexprConj ulDisjuncts)
  else (pexprmapGlobal,maps.2)

def pexprmapFactors (A : Atoms α) (disjuncts : List (BoolExpr α)) : ExprMap α :=
  (disjuncts.foldl (fun maps pexprDisj =>
    (conjuncts pexprDisj).foldl (countConjunct A disjuncts.length) maps) ([],[])).2

def addFactor (A : Atoms α) (factorMap : ExprMap α)
    (state : List (BoolExpr α) × List (BoolExpr α)) (e : BoolExpr α) :
    List (BoolExpr α) × List (BoolExpr α) :=
  if (exprMapFind A factorMap e).isSome then
    (if state.1.any (equals A e) then state.1 else state.1++[e],state.2++[scalarConstBool true])
  else (state.1,state.2++[e])

def factorizeDisjunct (A : Atoms α) (factorMap : ExprMap α)
    (state : List (BoolExpr α) × List (BoolExpr α)) :
    BoolExpr α → List (BoolExpr α) × List (BoolExpr α)
  | scalarBoolOp .eboolopAnd cs =>
    let r := cs.foldl (addFactor A factorMap) (state.1,[])
    if r.2.isEmpty then (r.1,state.2) else (r.1,state.2++[pexprConjDisj .eboolopAnd r.2])
  | e => addFactor A factorMap state e

def pexprFactorizeDisj (A : Atoms α) (disjuncts : List (BoolExpr α)) : BoolExpr α :=
  let r := disjuncts.foldl (factorizeDisjunct A (pexprmapFactors A disjuncts)) ([],[])
  pexprConjDisj .eboolopAnd
    (if r.2.isEmpty then r.1 else r.1++[pexprConjDisj .eboolopOr r.2])

def pexprDiscoverFactors (A : Atoms α) (e : BoolExpr α) : BoolExpr α :=
  pexprProcessDisjDescendents (pexprFactorizeDisj A) e

def pexprFactorize (A : Atoms α) (e : BoolExpr α) : BoolExpr α :=
  pexprDedupChildren A (pexprUnnest A (pexprDiscoverFactors A e))

end Factors

section Chains

variable {A : Atoms α} {a e : BoolExpr α}

theorem inChain_iff : inChain A hashFn a b=true ↔
    hashFn a%numChains=hashFn b%numChains ∧ equals A a b=true := by
  simp [inChain]

theorem inChain_refl : inChain A hashFn a a=true := inChain_iff.mpr ⟨rfl,equals_refl a⟩

theorem inChain_comm : inChain A hashFn a b=inChain A hashFn b a := by
  apply Bool.eq_iff_iff.mpr
  rw [inChain_iff,inChain_iff]
  exact ⟨fun h => ⟨h.1.symm,equals_symm h.2⟩,fun h => ⟨h.1.symm,equals_symm h.2⟩⟩

theorem inChain_congr (h : inChain A hashFn a b=true) : inChain A hashFn b=inChain A hashFn a := by
  obtain ⟨hhash,heql⟩ := inChain_iff.mp h
  funext x
  simp only [inChain,hhash,equals_congr a b heql]

theorem inChain_key_congr (h : inChain A hashFn a b=true) :
    inChain A hashFn e a=inChain A hashFn e b := by
  rw [inChain_comm,← inChain_congr h,inChain_comm]

end Chains

section Counting

variable {A : Atoms α} {e : BoolExpr α}

theorem exprMapFind_congr (h : inChain A (hashValue A) c e=true) :
    exprMapFind A m c=exprMapFind A m e := by
  simp only [exprMapFind,inChain_key_congr h]

theorem exprMapFind_insert (hnone : exprMapFind A m c=none) :
    exprMapFind A (exprMapInsert A m c n) e=
      if inChain A (hashValue A) c e then some n else exprMapFind A m e := by
  rw [exprMapInsert,hnone]
  simp only [isSome_none,Bool.false_eq_true,if_false]
  split
  next h =>
    have hnone : m.find? (fun entry => inChain A (hashValue A) entry.1 e)=none := by
      rw [exprMapFind_congr h] at hnone
      exact map_eq_none_iff.mp hnone
    simp [exprMapFind,find?_append,hnone,h]
  next h => simp [exprMapFind,find?_append,h]

theorem exprMapFind_increment : exprMapFind A (exprMapIncrement A m c) e=
      if inChain A (hashValue A) c e then (exprMapFind A m e).map (·+1) else exprMapFind A m e := by
  induction m with
  | nil => simp [exprMapIncrement,exprMapFind]
  | cons entry m ih =>
    rw [exprMapIncrement]
    split
    next hent =>
      -- the entry is in the class of the conjunct
      have hsame : inChain A (hashValue A) entry.1 e=inChain A (hashValue A) c e := by
        rw [inChain_congr hent]
      by_cases hce : inChain A (hashValue A) c e=true
      · simp [exprMapFind,hsame,hce]
      · simp [exprMapFind,hsame,hce]
    next hent =>
      by_cases hee : inChain A (hashValue A) entry.1 e=true
      · have hce : ¬inChain A (hashValue A) c e=true := by
          intro hce
          rw [inChain_key_congr hce] at hent
          exact hent hee
        simp [exprMapFind,hee,hce]
      · simpa [exprMapFind,hee] using ih

structure Counts (A : Atoms α) (n : Nat) (counted : List (BoolExpr α))
    (maps : ExprMap α × ExprMap α) : Prop where
  global : ∀ e, (exprMapFind A maps.1 e).getD 0=counted.countP (inChain A (hashValue A) e)
  factors : ∀ e, (exprMapFind A maps.2 e).isSome ↔ n≤counted.countP (inChain A (hashValue A) e)

def countedGlobal (A : Atoms α) (m : ExprMap α) (c : BoolExpr α) : ExprMap α :=
  match exprMapFind A m c with
  | none => exprMapInsert A m c 1
  | some _ => exprMapIncrement A m c

theorem exprMapFind_countedGlobal : exprMapFind A (countedGlobal A m c) e=
    if inChain A (hashValue A) c e then some ((exprMapFind A m e).getD 0+1)
    else exprMapFind A m e := by
  unfold countedGlobal
  split
  next hnone =>
    rw [exprMapFind_insert hnone]
    split
    next h =>
      rw [exprMapFind_congr h] at hnone
      rw [hnone]
      rfl
    next => rfl
  next k hsome =>
    rw [exprMapFind_increment]
    split
    next h =>
      rw [exprMapFind_congr h] at hsome
      rw [hsome]
      rfl
    next => rfl

theorem isSome_exprMapInsert : (exprMapFind A (exprMapInsert A m c n) e).isSome ↔
    inChain A (hashValue A) c e=true ∨ (exprMapFind A m e).isSome := by
  cases hc : exprMapFind A m c with
  | none =>
    rw [exprMapFind_insert hc]
    split
    next h => simp [h]
    next h => simp [h]
  | some k =>
    have hins : exprMapInsert A m c n=m := by simp [exprMapInsert,hc]
    rw [hins]
    refine ⟨.inr,fun h => ?_⟩
    obtain h | h := h
    · rw [← exprMapFind_congr h,hc]
      rfl
    · exact h

theorem countP_concat : (counted++[c]).countP (inChain A (hashValue A) e)=
    counted.countP (inChain A (hashValue A) e)+if inChain A (hashValue A) c e then 1 else 0 := by
  rw [countP_append,countP_singleton,inChain_comm]

/-- Counting one conjunct. -/
theorem Counts.step (h : Counts A n counted maps) :
    Counts A n (counted++[c]) (countConjunct A n maps c) := by
  have hfind : exprMapFind A (countedGlobal A maps.1 c) c=
      some (counted.countP (inChain A (hashValue A) c)+1) := by
    rw [exprMapFind_countedGlobal,if_pos inChain_refl,h.global]
  have hmaps : countConjunct A n maps c=if exprMapFind A (countedGlobal A maps.1 c) c=some n then
      (countedGlobal A maps.1 c,exprMapInsert A maps.2 c n)
      else (countedGlobal A maps.1 c,maps.2) := rfl
  have hglobal : (countConjunct A n maps c).1=countedGlobal A maps.1 c := by
    rw [hmaps]
    split <;> rfl
  refine ⟨fun e => ?_,fun e => ?_⟩
  · rw [hglobal,exprMapFind_countedGlobal,countP_concat]
    split
    next => simp [h.global]
    next => simp [h.global]
  · rw [countP_concat,hmaps,hfind]
    by_cases hce : inChain A (hashValue A) c e=true
    · have hcnt : counted.countP (inChain A (hashValue A) c)=
          counted.countP (inChain A (hashValue A) e) := by rw [inChain_congr hce]
      rw [if_pos hce]
      split
      next hn =>
        rw [some.injEq] at hn
        simp only [isSome_exprMapInsert,hce,true_or,true_iff]
        omega
      next hn =>
        rw [some.injEq] at hn
        rw [h.factors]
        omega
    · rw [if_neg hce]
      have hfac := h.factors e
      split
      next => simpa [isSome_exprMapInsert,hce] using hfac
      next => exact hfac

theorem Counts.foldl (l : List (BoolExpr α)) (h : Counts A n counted maps) :
    Counts A n (counted++l) (l.foldl (countConjunct A n) maps) := by
  induction l generalizing counted maps with
  | nil => simpa using h
  | cons c l ih => simpa using ih h.step

variable {disjuncts : List (BoolExpr α)}

theorem isSome_pexprmapFactors (hne : disjuncts≠[]) :
    (exprMapFind A (pexprmapFactors A disjuncts) e).isSome ↔
      disjuncts.length≤(disjuncts.flatMap conjuncts).countP (inChain A (hashValue A) e) := by
  have hstart : Counts A disjuncts.length [] (([],[]) : ExprMap α × ExprMap α) := by
    refine ⟨fun e => rfl,fun e => ?_⟩
    have hpos := length_pos_iff.mpr hne
    simp only [exprMapFind,find?_nil,map_none,isSome_none,countP_nil,
      Bool.false_eq_true,false_iff]
    omega
  have hcounts := hstart.foldl (disjuncts.flatMap conjuncts)
  rw [foldl_flatMap,nil_append] at hcounts
  exact hcounts.factors e

/-- The condition for counting: the conjuncts of a disjunct are in different chains, or different. -/
def Apart (A : Atoms α) (disjuncts : List (BoolExpr α)) : Prop :=
  ∀ d∈disjuncts, (conjuncts d).Pairwise fun a b => inChain A (hashValue A) a b=false

theorem countP_le_one {l : List (BoolExpr α)}
    (h : l.Pairwise fun a b => inChain A (hashValue A) a b=false) :
    l.countP (inChain A (hashValue A) e)≤1 := by
  induction l with
  | nil => simp
  | cons c l ih =>
    obtain ⟨hc,hl⟩ := pairwise_cons.mp h
    rw [countP_cons]
    split
    next hec =>
      have hzero : l.countP (inChain A (hashValue A) e)=0 := by
        apply countP_eq_zero.mpr
        intro x hx hex
        rw [← inChain_congr hec,hc x hx] at hex
        exact Bool.false_ne_true hex
      omega
    next => exact ih hl

theorem mem_of_isFactor (hapart : Apart A disjuncts)
    (he : (exprMapFind A (pexprmapFactors A disjuncts) e).isSome) :
    ∀ d∈disjuncts, ∃ c∈conjuncts d, equals A e c=true := by
  intro d hd
  have hcnt := (isSome_pexprmapFactors (ne_nil_of_mem hd)).mp he
  rw [countP_flatMap] at hcnt
  have hone := eq_one_of_length_le_sum (fun d hd => countP_le_one (e := e) (hapart d hd)) hcnt d hd
  obtain ⟨c,hc,hin⟩ := countP_pos_iff.mp (by rw [hone]; exact Nat.one_pos)
  exact ⟨c,hc,(inChain_iff.mp hin).2⟩

end Counting

section Factorization

variable {A : Atoms α} {v : α → Truth} {ds : List (BoolExpr α)} {e : BoolExpr α}

theorem holds_conjuncts : Holds v u d ↔ ∀ c∈conjuncts d, Holds v u c := by
  unfold conjuncts
  split
  next cs => exact holds_boolOp
  next => simp

def residual (A : Atoms α) (m : ExprMap α) (e : BoolExpr α) : BoolExpr α :=
  if (exprMapFind A m e).isSome then scalarConstBool true else e

/-- What happens to the factors when conjuncts are added: only factors of the map enter, and each of
these conjuncts that is one has an equal factor. -/
structure Extended (A : Atoms α) (m : ExprMap α) (factors factors' cs : List (BoolExpr α)) :
    Prop where
  kept : ∀ f∈factors, f∈factors'
  entered : ∀ f∈factors', f∈factors ∨ (exprMapFind A m f).isSome
  covered : ∀ c∈cs, (exprMapFind A m c).isSome → ∃ f∈factors', equals A c f=true

theorem Extended.nil (factors : List (BoolExpr α)) : Extended A m factors factors [] :=
  ⟨fun _ h => h,fun _ h => .inl h,by simp⟩

theorem Extended.append (h : Extended A m factors factors' cs)
    (h' : Extended A m factors' factors'' cs') : Extended A m factors factors'' (cs++cs') := by
  refine ⟨fun f hf => h'.kept f (h.kept f hf),fun f hf => ?_,fun c hc hin => ?_⟩
  · obtain hf | hf := h'.entered f hf
    · exact h.entered f hf
    · exact .inr hf
  · obtain hc | hc := mem_append.mp hc
    · obtain ⟨f,hf,heq⟩ := h.covered c hc hin
      exact ⟨f,h'.kept f hf,heq⟩
    · exact h'.covered c hc hin

theorem addFactor_spec (state : List (BoolExpr α) × List (BoolExpr α)) (e : BoolExpr α) :
    (addFactor A m state e).2=state.2++[residual A m e] ∧
      Extended A m state.1 (addFactor A m state e).1 [e] := by
  unfold addFactor residual
  split
  next hin =>
    refine ⟨rfl,?_⟩
    split
    next hany =>
      obtain ⟨f,hf,heq⟩ := any_eq_true.mp hany
      exact ⟨fun _ h => h,fun _ h => .inl h,by simpa using fun _ => ⟨f,hf,heq⟩⟩
    next =>
      refine ⟨fun f hf => mem_append_left _ hf,fun f hf => ?_,?_⟩
      · obtain hf | hf := mem_append.mp hf
        · exact .inl hf
        · exact .inr (mem_singleton.mp hf ▸ hin)
      · simpa using fun _ => .inr (equals_refl e)
  next hin => exact ⟨rfl,fun _ h => h,fun _ h => .inl h,by simp [hin]⟩

theorem addFactor_foldl (cs : List (BoolExpr α)) (state : List (BoolExpr α) × List (BoolExpr α)) :
    (cs.foldl (addFactor A m) state).2=state.2++cs.map (residual A m) ∧
      Extended A m state.1 (cs.foldl (addFactor A m) state).1 cs := by
  induction cs generalizing state with
  | nil => exact ⟨by simp,Extended.nil _⟩
  | cons c cs ih =>
    obtain ⟨hres,hext⟩ := addFactor_spec (A := A) (m := m) state c
    obtain ⟨hrsd,hextendeds⟩ := ih (addFactor A m state c)
    rw [foldl_cons,hrsd,hres]
    exact ⟨by simp,hext.append hextendeds⟩

/-- A disjunct loses its factors, which are replaced by TRUE. -/
theorem factorizeDisjunct_spec (hd : conjuncts d≠[])
    (state : List (BoolExpr α) × List (BoolExpr α)) :
    (∃ x, (factorizeDisjunct A m state d).2=state.2++[x] ∧
      ∀ u, Holds v u x ↔ ∀ c∈conjuncts d, Holds v u (residual A m c)) ∧
      Extended A m state.1 (factorizeDisjunct A m state d).1 (conjuncts d) := by
  unfold factorizeDisjunct
  split
  next cs =>
    rw [conjuncts] at hd ⊢
    obtain ⟨hres,hext⟩ := addFactor_foldl (A := A) (m := m) cs (state.1,[])
    have hsome : (cs.foldl (addFactor A m) (state.1,[])).2.isEmpty=false := by
      simpa [hres] using hd
    dsimp only
    rw [hsome]
    refine ⟨⟨_,rfl,fun u => ?_⟩,hext⟩
    rw [holds_pexprConjDisj,hres]
    simp [EBoolOperator.Combines]
  next hand =>
    have hconj : conjuncts d=[d] := by
      unfold conjuncts
      split
      next cs => exact absurd rfl (hand cs)
      next => rfl
    obtain ⟨hres,hext⟩ := addFactor_spec (A := A) (m := m) state d
    rw [hconj,hres]
    exact ⟨⟨_,rfl,by simp⟩,hext⟩

theorem factorizeDisjunct_foldl (hds : ∀ d∈ds, conjuncts d≠[])
    (state : List (BoolExpr α) × List (BoolExpr α)) :
    (∃ xs, (ds.foldl (factorizeDisjunct A m) state).2=state.2++xs ∧ (ds≠[] → xs≠[]) ∧
      ∀ u, (∃ x∈xs, Holds v u x) ↔ ∃ d∈ds, ∀ c∈conjuncts d, Holds v u (residual A m c)) ∧
      Extended A m state.1 (ds.foldl (factorizeDisjunct A m) state).1 (ds.flatMap conjuncts) := by
  induction ds generalizing state with
  | nil => exact ⟨⟨[],by simp,by simp,by simp⟩,Extended.nil _⟩
  | cons d ds ih =>
    obtain ⟨hd,hds⟩ := forall_mem_cons.mp hds
    obtain ⟨⟨x,hx,hxholds⟩,hext⟩ := factorizeDisjunct_spec (A := A) (m := m) (v := v) hd state
    obtain ⟨⟨xs,hxs,-,hxsh⟩,hextendeds⟩ := ih hds (factorizeDisjunct A m state d)
    refine ⟨⟨x::xs,?_,by simp,fun u => ?_⟩,?_⟩
    · rw [foldl_cons,hxs,hx]
      simp
    · rw [exists_mem_cons_iff,exists_mem_cons_iff,hxholds,hxsh]
    · rw [foldl_cons,flatMap_cons]
      exact hext.append hextendeds

/-- The common factors and the rest of the disjunction together are the disjunction. -/
theorem holds_pexprFactorizeDisj (hv : Respects A v) (hne : ds≠[])
    (hds : ∀ d∈ds, conjuncts d≠[]) (hapart : Apart A ds) (u : Bool) :
    Holds v u (pexprFactorizeDisj A ds) ↔ Holds v u (scalarBoolOp .eboolopOr ds) := by
  obtain ⟨⟨xs,hxs,hsome,hhd⟩,hext⟩ :=
    factorizeDisjunct_foldl (A := A) (m := pexprmapFactors A ds) (v := v) hds ([],[])
  rw [nil_append] at hxs
  have hfactor : ∀ f∈(ds.foldl (factorizeDisjunct A (pexprmapFactors A ds)) ([],[])).1,
      ∀ d∈ds, Holds v u d → Holds v u f := by
    intro f hf d hd hhd
    have hin : (exprMapFind A (pexprmapFactors A ds) f).isSome := by
      simpa using hext.entered f hf
    obtain ⟨c,hc,heq⟩ := mem_of_isFactor hapart hin d hd
    exact (holds_of_equals hv f c heq u).mpr (holds_conjuncts.mp hhd c hc)
  have hemp : (ds.foldl (factorizeDisjunct A (pexprmapFactors A ds)) ([],[])).2.isEmpty=false := by
    simpa [hxs] using hsome hne
  unfold pexprFactorizeDisj
  dsimp only
  rw [hemp,holds_pexprConjDisj,holds_boolOp]
  simp only [Bool.false_eq_true,if_false,EBoolOperator.Combines,forall_mem_append,
    forall_mem_singleton,holds_pexprConjDisj,hxs,hhd]
  constructor
  · rintro ⟨hfac,d,hd,hres⟩
    refine ⟨d,hd,holds_conjuncts.mpr fun c hc => ?_⟩
    have hc' := hres c hc
    unfold residual at hc'
    split at hc'
    next hin =>
      obtain ⟨f,hf,heq⟩ := hext.covered c (mem_flatMap.mpr ⟨d,hd,hc⟩) hin
      exact (holds_of_equals hv c f heq u).mpr (hfac f hf)
    next => exact hc'
  · rintro ⟨d,hd,hhd⟩
    refine ⟨fun f hf => hfactor f hf d hd hhd,d,hd,fun c hc => ?_⟩
    unfold residual
    split
    next => simp
    next => exact holds_conjuncts.mp hhd c hc

end Factorization

section InferredFilters

mutual

def pcrsUsed (A : Atoms α) : BoolExpr α → List ColumnSource
  | scalarConstBool _ => []
  | atom a => (A.usedColumns a).insertionSort (fun c c' => c.id≤c'.id)
  | scalarBoolNot c => pcrsUsed A c
  | scalarBoolOp _ cs => pcrsUsedEach A cs

def pcrsUsedEach (A : Atoms α) : List (BoolExpr α) → List ColumnSource
  | [] => []
  | c::cs => (pcrsUsed A c ∪ pcrsUsedEach A cs).insertionSort (fun c c' => c.id≤c'.id)

end

mutual

def atoms : BoolExpr α → List α
  | scalarConstBool _ => []
  | atom a => [a]
  | scalarBoolNot c => atoms c
  | scalarBoolOp _ cs => atomsEach cs

def atomsEach : List (BoolExpr α) → List α
  | [] => []
  | c::cs => atoms c++atomsEach cs

end

def pcrsUsedByPushableScalar (A : Atoms α) (e : BoolExpr α) : Option (List ColumnSource) :=
  if (atoms e).any (fun a => A.definesColumns a || A.hasSubquery a || A.isVolatile a) then none
  else some (pcrsUsed A e)

def opSourceLoop : List ColumnSource → Option ColumnSource → Option Nat →
    Option (Option ColumnSource × Option Nat)
  | [], pcrComputed, ulComputedOpSourceId => some (pcrComputed,ulComputedOpSourceId)
  | colref::cols, pcrComputed, ulComputedOpSourceId =>
    match colref.ulSourceOpId with
    | none =>
      if pcrComputed.isSome ∧ pcrComputed≠some colref then none
      else opSourceLoop cols (some colref) ulComputedOpSourceId
    | some ulSourceOpId =>
      if pcrComputed.isSome then none
      else if ulComputedOpSourceId.isSome ∧ ulComputedOpSourceId≠some ulSourceOpId then none
      else opSourceLoop cols pcrComputed (some ulSourceOpId)

def fOpSourceIdOrComputedColumn (A : Atoms α) (e : BoolExpr α) :
    Option (Option ColumnSource × Option Nat) :=
  match pcrsUsedByPushableScalar A e with
  | none => none
  | some [] => none
  | some cols => opSourceLoop cols none none

abbrev ArrayPosMap (κ α : Type*) := List (κ × List (List (BoolExpr α)))

def storeAtPosition (pdrgpdrgpexpr : List (List (BoolExpr α))) (ulPosition : Nat)
    (e : BoolExpr α) : List (List (BoolExpr α)) :=
  if ulPosition=pdrgpdrgpexpr.length then pdrgpdrgpexpr++[[e]]
  else if ulPosition+1=pdrgpdrgpexpr.length then
    pdrgpdrgpexpr.modify ulPosition (·++[e])
  else pdrgpdrgpexpr

/-- The entry of a key is created if new keys are allowed. -/
def storeForKey {κ : Type*} [DecidableEq κ] (m : ArrayPosMap κ α) (fAllowNewSources : Bool)
    (key : κ) (ulPosition : Nat) (e : BoolExpr α) : ArrayPosMap κ α :=
  if m.any (·.1=key) then
    m.map fun entry =>
      if entry.1=key then (entry.1,storeAtPosition entry.2 ulPosition e) else entry
  else if fAllowNewSources then m++[(key,storeAtPosition [] ulPosition e)]
  else m

abbrev FilterMaps (α : Type*) := ArrayPosMap Nat α × ArrayPosMap ColumnSource α

def storeBaseOpToColumnExpr (A : Atoms α) (pcrsProducedByChildren : List ColumnSource)
    (fAllowNewSources : Bool) (ulPosition : Nat) (maps : FilterMaps α) (e : BoolExpr α) :
    FilterMaps α :=
  match fOpSourceIdOrComputedColumn A e with
  | none => maps
  | some (_,some ulOpSourceId) =>
    (storeForKey maps.1 fAllowNewSources ulOpSourceId ulPosition e,maps.2)
  | some (some pcrComputed,none) =>
    if pcrComputed∈pcrsProducedByChildren then maps
    else (maps.1,storeForKey maps.2 fAllowNewSources pcrComputed ulPosition e)
  | some (none,none) => maps

def storeDisjunct (A : Atoms α) (pcrsProducedByChildren : List ColumnSource)
    (maps : FilterMaps α) (ul : Nat) (pexprCurrent : BoolExpr α) : FilterMaps α :=
  (conjuncts pexprCurrent).foldl
    (storeBaseOpToColumnExpr A pcrsProducedByChildren (ul=0) ul) maps

def storeDisjuncts (A : Atoms α) (pcrsProducedByChildren : List ColumnSource) :
    List (BoolExpr α) → Nat → FilterMaps α → FilterMaps α
  | [], _, maps => maps
  | d::ds, ul, maps =>
    storeDisjuncts A pcrsProducedByChildren ds (ul+1)
      (storeDisjunct A pcrsProducedByChildren maps ul d)

def inferredFilter {κ : Type*} (ulDisjChildrenLength : Nat)
    (entry : κ × List (List (BoolExpr α))) : Option (BoolExpr α) :=
  if entry.2.length=ulDisjChildrenLength ∧ 0<ulDisjChildrenLength then
    some (pexprConjDisj .eboolopOr (entry.2.map (pexprConjDisj .eboolopAnd)))
  else none

def pexprAddInferredFilters (disjuncts : List (BoolExpr α)) (maps : FilterMaps α) : BoolExpr α :=
  pexprConjDisj .eboolopAnd (scalarBoolOp .eboolopOr disjuncts::
    (maps.1.filterMap (inferredFilter disjuncts.length)++
      maps.2.filterMap (inferredFilter disjuncts.length)))

def pexprExtractInferredFiltersFromDisj (A : Atoms α) (pcrsProducedByChildren : List ColumnSource)
    (disjuncts : List (BoolExpr α)) : BoolExpr α :=
  match disjuncts with
  | [] => scalarBoolOp .eboolopOr []
  | first::rest =>
    let maps := storeDisjunct A pcrsProducedByChildren ([],[]) 0 first
    if maps.1.isEmpty && maps.2.isEmpty then scalarBoolOp .eboolopOr disjuncts
    else
      pexprDedupChildren A (pexprAddInferredFilters disjuncts
        (storeDisjuncts A pcrsProducedByChildren rest 1 maps))

def pexprExtractInferredFilters (A : Atoms α) (pcrsProducedByChildren : List ColumnSource)
    (e : BoolExpr α) : BoolExpr α :=
  pexprProcessDisjDescendents (pexprExtractInferredFiltersFromDisj A pcrsProducedByChildren) e

variable {A : Atoms α} {v : α → Truth} {κ : Type*} {ds l : List (BoolExpr α)} {e : BoolExpr α}

def FromDisjuncts (ds : List (BoolExpr α)) (arrays : List (List (BoolExpr α))) : Prop :=
  ∀ (i : Nat) l, arrays[i]?=some l → ∃ d, ds[i]?=some d ∧ ∀ c∈l, c∈conjuncts d

theorem FromDisjuncts.store (h : FromDisjuncts ds arrays)
    (hd : ds[i]?=some d) (he : e∈conjuncts d) : FromDisjuncts ds (storeAtPosition arrays i e) := by
  unfold storeAtPosition
  split
  next hlen =>
    intro j l hj
    rw [getElem?_append] at hj
    split at hj
    next => exact h j l hj
    next hlt =>
      obtain ⟨hji,rfl⟩ : j=i ∧ [e]=l := by
        rw [getElem?_singleton] at hj
        split at hj
        next hzero => exact ⟨by omega,some.inj hj⟩
        next => cases hj
      exact ⟨d,by rw [hji,hd],by simpa using he⟩
  next =>
    split
    next =>
      intro j l hj
      rw [getElem?_modify] at hj
      obtain ⟨l',hl',rfl⟩ := map_eq_some_iff.mp hj
      split
      next hij =>
        subst hij
        obtain ⟨d',hd',hl⟩ := h i l' hl'
        obtain rfl : d=d' := some.inj (hd.symm.trans hd')
        exact ⟨d,hd,forall_mem_append.mpr ⟨hl,by simpa using he⟩⟩
      next => exact h j l' hl'
    next => exact h

def AllStored (ds : List (BoolExpr α)) (m : ArrayPosMap κ α) : Prop :=
  ∀ entry∈m, FromDisjuncts ds entry.2

theorem AllStored.store [DecidableEq κ]
    (h : AllStored ds m) (hd : ds[i]?=some d) (he : e∈conjuncts d) (fAllowNewSources : Bool)
    (key : κ) : AllStored ds (storeForKey m fAllowNewSources key i e) := by
  unfold storeForKey
  split
  next =>
    intro entry hent
    obtain ⟨old,hold,rfl⟩ := mem_map.mp hent
    split
    next => exact (h old hold).store hd he
    next => exact h old hold
  next =>
    split
    next =>
      have hnone : FromDisjuncts ds ([] : List (List (BoolExpr α))) := by simp [FromDisjuncts]
      exact forall_mem_append.mpr ⟨h,forall_mem_singleton.mpr (hnone.store hd he)⟩
    next => exact h

def MapsStored (ds : List (BoolExpr α)) (maps : FilterMaps α) : Prop :=
  AllStored ds maps.1 ∧ AllStored ds maps.2

theorem MapsStored.store (h : MapsStored ds maps) (hd : ds[i]?=some d) (he : e∈conjuncts d)
    (produced : List ColumnSource) (fAllowNewSources : Bool) :
    MapsStored ds (storeBaseOpToColumnExpr A produced fAllowNewSources i maps e) := by
  unfold storeBaseOpToColumnExpr
  split
  next => exact h
  next => exact ⟨h.1.store hd he _ _,h.2⟩
  next =>
    split
    next => exact h
    next => exact ⟨h.1,h.2.store hd he _ _⟩
  next => exact h

theorem MapsStored.disjunct
    (h : MapsStored ds maps) (hd : ds[i]?=some d) (produced : List ColumnSource) :
    MapsStored ds (storeDisjunct A produced maps i d) := by
  unfold storeDisjunct
  have hsto : ∀ l : List (BoolExpr α), (∀ c∈l, c∈conjuncts d) → ∀ {maps}, MapsStored ds maps →
      MapsStored ds (l.foldl (storeBaseOpToColumnExpr A produced (i=0) i) maps) := by
    intro l
    induction l with
    | nil => exact fun _ _ hmaps => hmaps
    | cons c l ih =>
      intro hl maps hmaps
      obtain ⟨hc,hl⟩ := forall_mem_cons.mp hl
      exact ih hl (hmaps.store hd hc produced _)
  exact hsto (conjuncts d) (fun _ hc => hc) h

theorem MapsStored.disjuncts (h : MapsStored ds maps)
    (hl : ds.drop i=l) (produced : List ColumnSource) :
    MapsStored ds (storeDisjuncts A produced l i maps) := by
  induction l generalizing i maps with
  | nil => exact h
  | cons d l ih =>
    have hd : ds[i]?=some d := by
      rw [← head?_drop,hl]
      rfl
    have hrest : ds.drop (i+1)=l := by
      rw [← drop_drop,hl]
      rfl
    exact ih (h.disjunct hd produced) hrest

theorem holds_inferredFilter (h : FromDisjuncts ds entry.2)
    (hfilter : inferredFilter ds.length entry=some e)
    (hhd : Holds v u (scalarBoolOp .eboolopOr ds)) : Holds v u e := by
  unfold inferredFilter at hfilter
  obtain ⟨⟨hlen,-⟩,heq⟩ := ite_none_right_eq_some.mp hfilter
  cases heq
  obtain ⟨d,hd,hdholds⟩ := holds_boolOp.mp hhd
  obtain ⟨i,hi⟩ := mem_iff_getElem?.mp hd
  have hlt : i<entry.2.length := hlen ▸ (List.getElem?_eq_some_iff.mp hi).1
  obtain ⟨l,hl⟩ : ∃ l, entry.2[i]?=some l := ⟨_,getElem?_eq_getElem hlt⟩
  obtain ⟨d',hd',hsub⟩ := h i l hl
  obtain rfl : d=d' := some.inj (hi.symm.trans hd')
  apply holds_pexprConjDisj.mpr
  refine ⟨_,mem_map_of_mem (mem_iff_getElem?.mpr ⟨i,hl⟩),?_⟩
  apply holds_pexprConjDisj.mpr
  exact fun c hc => holds_conjuncts.mp hdholds c (hsub c hc)

/-- What is inferred holds wherever the disjunction holds. -/
theorem holds_pexprExtractInferredFiltersFromDisj (hv : Respects A v)
    (produced : List ColumnSource) (ds : List (BoolExpr α)) (u : Bool) :
    Holds v u (pexprExtractInferredFiltersFromDisj A produced ds) ↔
      Holds v u (scalarBoolOp .eboolopOr ds) := by
  unfold pexprExtractInferredFiltersFromDisj
  split
  next => rfl
  next first rest =>
    dsimp only
    split
    next => rfl
    next =>
      have hnone : MapsStored (first::rest) (([],[]) : FilterMaps α) :=
        ⟨by simp [AllStored],by simp [AllStored]⟩
      have hfirst := hnone.disjunct (A := A) (i := 0) (d := first) rfl produced
      have hsto := hfirst.disjuncts (A := A) (i := 1) (l := rest) rfl produced
      rw [holds_pexprDedupChildren hv,pexprAddInferredFilters,holds_pexprConjDisj]
      refine ⟨fun h => h _ mem_cons_self,fun h => ?_⟩
      refine forall_mem_cons.mpr ⟨h,forall_mem_append.mpr ⟨?_,?_⟩⟩
      · intro e he
        obtain ⟨entry,hent,hfilter⟩ := mem_filterMap.mp he
        exact holds_inferredFilter (hsto.1 entry hent) hfilter h
      · intro e he
        obtain ⟨entry,hent,hfilter⟩ := mem_filterMap.mp he
        exact holds_inferredFilter (hsto.2 entry hent) hfilter h

end InferredFilters

section Rewriting

variable {A : Atoms α} {v : α → Truth}

theorem filled_topDisjunctions (e : BoolExpr α) : Filled e →
    ∀ ds∈topDisjunctions e, Filled (scalarBoolOp .eboolopOr ds) := by
  induction e using BoolExpr.induction with
  | const b | atom a => simp [topDisjunctions]
  | not c ih => exact ih
  | boolOp op cs ih =>
    intro h ds hds
    cases op with
    | eboolopOr =>
      obtain rfl : ds=cs := by simpa [topDisjunctions] using hds
      exact h
    | eboolopAnd =>
      rw [topDisjunctions] at hds
      obtain ⟨c,hc,hds⟩ := mem_topDisjunctionsEach.mp hds
      exact ih c hc ((filled_boolOp.mp h).2 c hc) ds hds

theorem Filled.conjuncts_ne_nil (h : Filled d) : conjuncts d≠[] := by
  unfold conjuncts
  split
  next cs => exact (filled_boolOp.mp h).1
  next => simp

theorem holds_pexprFactorize (hv : Respects A v) (hfilled : Filled e)
    (hapart : ∀ ds∈topDisjunctions e, Apart A ds) (u : Bool) :
    Holds v u (pexprFactorize A e) ↔ Holds v u e := by
  rw [pexprFactorize,holds_pexprDedupChildren hv,holds_pexprUnnest hv,pexprDiscoverFactors]
  apply holds_pexprProcessDisjDescendents
  intro ds hds u
  obtain ⟨hne,hdfi⟩ := filled_boolOp.mp (filled_topDisjunctions e hfilled ds hds)
  exact holds_pexprFactorizeDisj hv hne (fun d hd => (hdfi d hd).conjuncts_ne_nil)
    (hapart ds hds) u

/-- Unnesting and the removal of duplicate children keep the value of every expression, and leave
no operator without children. -/
theorem unnest_dedup_keep_value (A : Atoms α) (e : BoolExpr α) (v : α → Truth)
    (hv : Respects A v) :
    (pexprDedupChildren A (pexprUnnest A e)).eval v=e.eval v ∧
      (Filled e → Filled (pexprDedupChildren A (pexprUnnest A e))) := by
  refine ⟨eval_eq_of_holds fun u => ?_,fun h => ?_⟩
  · rw [holds_pexprDedupChildren hv,holds_pexprUnnest hv]
  · exact filled_pexprDedupChildren _ (filled_pexprUnnest e h)

/-- Factors and inferred filters keep the value of every expression in which no two conjuncts of a
disjunct are taken for one factor. -/
theorem factors_and_filters_keep_value (A : Atoms α) (pcrsProducedByChildren : List ColumnSource)
    (e : BoolExpr α) (hfilled : Filled e) (hapart : ∀ ds∈topDisjunctions e, Apart A ds)
    (v : α → Truth) (hv : Respects A v) :
    (pexprExtractInferredFilters A pcrsProducedByChildren (pexprFactorize A e)).eval v=
      e.eval v := by
  apply eval_eq_of_holds
  intro u
  rw [pexprExtractInferredFilters,holds_pexprProcessDisjDescendents _ fun ds _ u =>
    holds_pexprExtractInferredFiltersFromDisj hv pcrsProducedByChildren ds u,
    holds_pexprFactorize hv hfilled hapart]

end Rewriting

/-- Atoms that are numbers, each with itself as its hash value and with a column of its own. An odd
number is the NOT EXISTS of the even one before it, and ten more is the same comparison with a
cast. -/
def numberAtoms : Atoms Nat where
  equals a b := a=b
  refl a := by simp
  symm a b := by simp; exact Eq.symm
  trans a b c := by simp; exact Eq.trans
  pdrgpexprCastEquality a := [a+10]
  pexprNotExists a := if a%2=0 then some (a+1) else none
  hashValue a := a.toUInt32
  ulHashDedup a := a.toUInt32
  hashConst b := b.toNat.toUInt32
  usedColumns a := [⟨a,some (a%2)⟩]
  definesColumns _ := false
  hasSubquery _ := false
  isVolatile _ := false

attribute [local simp] numberAtoms

def numberValue (f : Nat → Truth) (a : Nat) : Truth :=
  if a%2=0 then f (a%10) else Truth.not (f (a%10-1))

theorem numberAtoms_respects (f : Nat → Truth) : Respects numberAtoms (numberValue f) := by
  refine ⟨fun a b h => ?_,fun a b h => ?_,fun a b h => ?_⟩
  · obtain rfl : a=b := by simpa using h
    rfl
  · obtain rfl : b=a+10 := by simpa using h
    have hpar : (a+10)%2=a%2 := by omega
    have hmod : (a+10)%10=a%10 := by omega
    simp only [numberValue,hpar,hmod]
  · obtain ⟨heven,rfl⟩ : a%2=0 ∧ a+1=b := by simpa using h
    have hodd : (a+1)%2≠0 := by omega
    have hmod : (a+1)%10-1=a%10 := by omega
    simp only [numberValue,if_pos heven,if_neg hodd,hmod]

/-- NOT ((2 OR NOT NOT 12 OR (2 OR NOT 4)) AND TRUE). -/
def nestedNot : BoolExpr Nat :=
  scalarBoolNot (scalarBoolOp .eboolopAnd
    [scalarBoolOp .eboolopOr [atom 2,scalarBoolNot (scalarBoolNot (atom 12)),
      scalarBoolOp .eboolopOr [atom 2,scalarBoolNot (atom 4)]],scalarConstBool true])

theorem unnest_dedup_keep_value_nested : Filled nestedNot ∧ ∀ f : Nat → Truth,
    (pexprDedupChildren numberAtoms (pexprUnnest numberAtoms nestedNot)).eval (numberValue f)=
        nestedNot.eval (numberValue f) ∧
      Filled (pexprDedupChildren numberAtoms (pexprUnnest numberAtoms nestedNot)) := by
  have hfilled : Filled nestedNot := by simp [nestedNot,Filled,FilledEach]
  refine ⟨hfilled,fun f => ?_⟩
  obtain ⟨hval,hfil⟩ := unnest_dedup_keep_value numberAtoms nestedNot (numberValue f)
    (numberAtoms_respects f)
  exact ⟨hval,hfil hfilled⟩

/-- 6 AND NOT ((1 AND 2) OR (4 AND 1)), from which the factor 1 is taken. -/
def commonFactor : BoolExpr Nat :=
  scalarBoolOp .eboolopAnd [atom 6,scalarBoolNot (scalarBoolOp .eboolopOr
    [scalarBoolOp .eboolopAnd [atom 1,atom 2],scalarBoolOp .eboolopAnd [atom 4,atom 1]])]

theorem factors_and_filters_keep_value_common : Filled commonFactor ∧ ∀ f : Nat → Truth,
    (pexprExtractInferredFilters numberAtoms [] (pexprFactorize numberAtoms commonFactor)).eval
      (numberValue f)=commonFactor.eval (numberValue f) := by
  have hfilled : Filled commonFactor := by simp [commonFactor,Filled,FilledEach]
  refine ⟨hfilled,fun f => ?_⟩
  apply factors_and_filters_keep_value numberAtoms [] commonFactor hfilled _ (numberValue f)
    (numberAtoms_respects f)
  unfold Apart
  decide +kernel

end WarehousePG.Orca.BoolExpr
