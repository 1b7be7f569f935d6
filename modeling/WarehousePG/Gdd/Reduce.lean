import WarehousePG.Gdd.Detector

namespace WarehousePG.Gdd

open Framework GddCtx Function List

section

def waitSet (L : List GddEdge) : Set WaitEdge := {w | w∈L.map GddEdge.wait}

theorem wait_mem_waitSet {e : GddEdge} (he : e∈L) : e.wait∈waitSet L :=
  mem_map_of_mem he

theorem forall_mem_waitSet {P : WaitEdge → Prop} : (∀ w∈waitSet L, P w) ↔ ∀ e∈L, P e.wait := by
  simp only [waitSet,Set.mem_ofPred_eq,mem_map,forall_exists_index,and_imp,
    forall_apply_eq_imp_iff₂]

/-- The vert gives no reason to take any of its edges out. -/
def Quiet (L : List GddEdge) (s : Int) (v : Nat) : Prop :=
  ∀ e∈L, e.segid=s → (e.vfrom=v → ∃ d∈L, d.vto=v) ∧ (e.vto=v → ¬resolves (waitSet L) e.wait)

theorem stuck_of_quiet
    (h : ∀ e∈L, Quiet L e.segid e.vfrom ∧ Quiet L e.segid e.vto) : Stuck reducible (waitSet L) := by
  unfold Stuck
  rw [forall_mem_waitSet]
  intro e he hr
  rcases hr with hr | hr
  · obtain ⟨d,hd,hdv⟩ := ((h e he).1 e he rfl).1 rfl
    exact hr d.wait (wait_mem_waitSet hd) hdv
  · exact ((h e he).2 e he rfl).2 rfl hr

/-- What a visit to a vert does: it takes out edges that may go, reports whether there were any,
and leaves the vert quiet if there were none. -/
structure Visit (ctx ctx' : GddCtx) (L M : List GddEdge) (s : Int) (v : Nat) (dirty : Bool) :
    Prop where
  linked : Linked ctx' M
  verts : ctx'.verts=ctx.verts
  graphs : ctx'.graphs=ctx.graphs
  peels : Peels reducible (waitSet L) (waitSet M)
  shorter : dirty=true → M.length<L.length
  quiet : dirty=false → M=L ∧ Quiet L s v

theorem frame_unlinkList (es : List GddEdge) (ctx : GddCtx) :
    (es.foldl gddEdgeUnlink ctx).verts=ctx.verts ∧
    (es.foldl gddEdgeUnlink ctx).graphs=ctx.graphs := by
  induction es generalizing ctx with
  | nil => exact ⟨rfl,rfl⟩
  | cons e es ih =>
    have h := ih (ctx.gddEdgeUnlink e)
    exact ⟨h.1,h.2⟩

theorem Peels.ofDiff (hn : L.Nodup) (hr : ∀ e∈R, reducible (waitSet L) e.wait) :
    Peels reducible (waitSet L) (waitSet (L.diff R)) := by
  constructor
  case subset =>
    rintro w hw
    obtain ⟨e,he,rfl⟩ := mem_map.mp hw
    exact wait_mem_waitSet (hn.mem_sdiff_iff.mp he).1
  case removed =>
    rintro w hw hnot
    obtain ⟨e,he,rfl⟩ := mem_map.mp hw
    apply hr
    by_contra hR
    exact hnot (wait_mem_waitSet (hn.mem_sdiff_iff.mpr ⟨he,hR⟩))

section

variable (h : Linked ctx L)
include h

theorem Visit.ofUnlink (hR : R.Nodup) (hsub : R⊆L)
    (hr : ∀ e∈R, reducible (waitSet L) e.wait) (hq : R=[] → Quiet L s v) :
    Visit ctx (R.foldl gddEdgeUnlink ctx) L (L.diff R) s v (!R.isEmpty) := by
  obtain ⟨hv,hg⟩ := frame_unlinkList R ctx
  constructor
  case linked => exact h.unlinkList hR hsub
  case verts => exact hv
  case graphs => exact hg
  case peels => exact Peels.ofDiff h.nodup hr
  case shorter =>
    intro hd
    obtain ⟨e,he⟩ := exists_mem_of_ne_nil R (by simpa using hd)
    have hlen := length_erase_of_mem (hsub he)
    have hpos := length_pos_of_mem (hsub he)
    have hle : (L.diff R).length≤(L.erase e).length := by
      apply List.Subperm.length_le
      apply subperm_of_subset (h.nodup.diff)
      intro d hd
      have hm := h.nodup.mem_sdiff_iff.mp hd
      have hne : d≠e := fun heq => hm.2 (heq ▸ he)
      exact (mem_erase_of_ne hne).mpr hm.1
    omega
  case quiet =>
    intro hd
    have hnil : R=[] := by simpa using hd
    exact ⟨by simp [hnil],hq hnil⟩

theorem Linked.indeg_eq_zero (v : Nat) : (ctx.globals v).indeg=0 ↔ ∀ e∈L, e.vto≠v := by
  rw [h.indeg,Int.natCast_eq_zero,countP_eq_zero]
  simp

theorem Linked.outdeg_eq_zero (v : Nat) : (ctx.globals v).outdeg=0 ↔ ∀ e∈L, e.vfrom≠v := by
  rw [h.outdeg,Int.natCast_eq_zero,countP_eq_zero]
  simp

theorem Linked.unlinkAll (s : Int) (v : Nat) :
    ∃ R : List GddEdge, R.Nodup ∧ (∀ e, e∈R ↔ e∈L ∧ e.segid=s ∧ (e.vto=v ∨ e.vfrom=v)) ∧
      ctx.gddVertUnlinkAll s v=(!R.isEmpty, R.foldl gddEdgeUnlink ctx) := by
  have hin : (ctx.vert s v).edgesIn.Nodup := by
    rw [h.edgesIn]
    exact h.nodup.filter _
  have hinL : (ctx.vert s v).edgesIn⊆L := by
    rw [h.edgesIn]
    exact filter_sublist.subset
  have h1 := h.unlinkList hin hinL
  refine ⟨(ctx.vert s v).edgesIn ++
    (((ctx.vert s v).edgesIn.foldl gddEdgeUnlink ctx).vert s v).edgesOut,?_,?_,?_⟩
  · rw [h1.edgesOut]
    apply List.Nodup.append hin (h1.nodup.filter _)
    intro e he he'
    have hm := (mem_filter.mp he').1
    exact (h.nodup.mem_sdiff_iff.mp hm).2 he
  · intro e
    rw [h1.edgesOut,mem_append,mem_filter,h.nodup.mem_sdiff_iff,h.edgesIn,mem_filter]
    simp only [decide_eq_true_eq]
    tauto
  · have hemp (a b : List GddEdge) : (!a.isEmpty || !b.isEmpty)=!(a ++ b).isEmpty := by
      cases a <;> simp
    simp only [gddVertUnlinkAll,foldl_append,hemp]

/-- A visit unlinks the edges of the vertex that cannot be part of a deadlock. -/
theorem visit_gddVertReduce (s : Int) (v : Nat) :
    ∃ M, Visit ctx (ctx.gddVertReduce s v).2 L M s v (ctx.gddVertReduce s v).1 := by
  unfold gddVertReduce
  by_cases hend : (ctx.globals v).indeg=0 ∨ (ctx.globals v).outdeg=0
  · obtain ⟨R,hR,hmem,heq⟩ := h.unlinkAll s v
    rw [if_pos hend,heq]
    refine ⟨_,Visit.ofUnlink h hR (fun e he => ((hmem e).mp he).1) ?_ ?_⟩
    · intro e he
      obtain ⟨heL,_,hv⟩ := (hmem e).mp he
      rcases hend with hin | hout
      · have hno := (h.indeg_eq_zero v).mp hin
        have hfrom : e.vfrom=v := hv.resolve_left (hno e heL)
        left
        rw [forall_mem_waitSet]
        intro d hd heq
        exact hno d hd (heq.trans hfrom)
      · have hno := (h.outdeg_eq_zero v).mp hout
        have hto : e.vto=v := hv.resolve_right (hno e heL)
        right
        left
        rw [forall_mem_waitSet]
        intro d hd heq
        exact hno d hd (heq.trans hto)
    · intro hnil e he hs
      have hnot : ¬(e.vto=v ∨ e.vfrom=v) := by
        intro hv
        have := (hmem e).mpr ⟨he,hs,hv⟩
        simp [hnil] at this
      exact ⟨fun hf => absurd (.inr hf) hnot,fun ht => absurd (.inl ht) hnot⟩
  · rw [if_neg hend]
    have hin : ∃ d∈L, d.vto=v := by
      by_contra hno
      push Not at hno
      exact hend (.inl ((h.indeg_eq_zero v).mpr hno))
    have hout : ∃ d∈L, d.vfrom=v := by
      by_contra hno
      push Not at hno
      exact hend (.inr ((h.outdeg_eq_zero v).mpr hno))
    obtain ⟨o,hoL,hov⟩ := hout
    have hglob (e : GddEdge) (hv : e.vto=v) : ¬∀ d∈waitSet L, d.waiter≠e.wait.holder :=
      fun hno => hno o.wait (wait_mem_waitSet hoL) (hov.trans hv.symm)
    have hdeg : (ctx.vert s v).edgesOut.length=0 ↔ ∀ d∈L, d.segid=s → d.vfrom≠v := by
      rw [h.edgesOut,length_eq_zero_iff,filter_eq_nil_iff]
      simp
    split_ifs with hloc
    · have hno := hdeg.mp hloc
      rw [h.edgesIn,filter_filter]
      refine ⟨_,Visit.ofUnlink h (h.nodup.filter _) filter_sublist.subset ?_ ?_⟩
      · intro e he
        simp only [mem_filter,Bool.and_eq_true,Bool.not_eq_true',decide_eq_true_eq] at he
        obtain ⟨_,hdot,hs,hv⟩ := he
        right
        right
        refine ⟨hdot,?_⟩
        rw [forall_mem_waitSet]
        intro d hd hds
        have := hno d hd (hds.trans hs)
        exact fun heq => this (heq.trans hv)
      · intro hnil e he hs
        refine ⟨fun _ => hin,fun hv hres => ?_⟩
        rcases hres with hres | ⟨hdot,_⟩
        · exact hglob e hv hres
        · rw [filter_eq_nil_iff] at hnil
          have hdot' : e.solid=false := hdot
          exact hnil e he (by simp [hs,hv,hdot'])
    · refine ⟨L,h,rfl,rfl,.refl _,by simp,fun _ => ⟨rfl,?_⟩⟩
      intro e he hs
      refine ⟨fun _ => hin,fun hv hres => ?_⟩
      rcases hres with hres | ⟨_,hres⟩
      · exact hglob e hv hres
      · apply hloc
        rw [hdeg]
        rw [forall_mem_waitSet] at hres
        intro d hd hds hdv
        exact hres d hd (hds.trans hs.symm) (hdv.trans hv.symm)

end

variable {keys : List Nat}

theorem gddMapDelete_eq (hpos : pos<keys.length) :
    gddMapDelete keys pos=(keys.set pos (keys.get ⟨keys.length-1,by omega⟩)).dropLast := by
  have hlast : keys.getLast?=some (keys.get ⟨keys.length-1,by omega⟩) := by
    rw [getLast?_eq_getElem?,getElem?_eq_getElem (by omega)]
    rfl
  simp only [gddMapDelete,hlast]

theorem length_gddMapDelete (hpos : pos<keys.length) :
    (gddMapDelete keys pos).length=keys.length-1 := by
  simp [gddMapDelete_eq hpos]

theorem getElem?_gddMapDelete (hpos : pos<keys.length) (hj : j<keys.length)
    (hne : j≠pos) : (gddMapDelete keys pos)[if j=keys.length-1 then pos else j]?=keys[j]? := by
  have hlen := length_gddMapDelete hpos
  rw [gddMapDelete_eq hpos,getElem?_dropLast,length_set]
  split_ifs with hlast hlt hlt
  · rw [getElem?_set_self hpos,getElem?_eq_getElem hj]
    simp [hlast]
  · omega
  · rw [getElem?_set_ne (Ne.symm hne)]
  · omega

theorem mem_gddMapDelete (hv : keys[pos]?=some v) (hu : u∈keys) :
    u=v ∨ u∈gddMapDelete keys pos := by
  obtain ⟨hpos,-⟩ := List.getElem?_eq_some_iff.mp hv
  obtain ⟨j,hj⟩ := List.mem_iff_getElem?.mp hu
  have hlt := (List.getElem?_eq_some_iff.mp hj).1
  by_cases hne : j=pos
  · subst hne
    exact .inl (Option.some.inj (hj.symm.trans hv))
  · right
    have hget := (getElem?_gddMapDelete hpos hlt hne).trans hj
    exact List.mem_of_getElem? hget

theorem mem_drop_gddMapDelete (hv : keys[pos]?=some v) (hu : u∈keys.drop pos) :
    u=v ∨ u∈(gddMapDelete keys pos).drop pos := by
  obtain ⟨hpos,-⟩ := List.getElem?_eq_some_iff.mp hv
  obtain ⟨i,hi⟩ := List.mem_iff_getElem?.mp hu
  rw [List.getElem?_drop] at hi
  have hlt := (List.getElem?_eq_some_iff.mp hi).1
  by_cases hne : pos+i=pos
  · rw [hne] at hi
    exact .inl (Option.some.inj (hi.symm.trans hv))
  · right
    have hget := (getElem?_gddMapDelete hpos hlt hne).trans hi
    split_ifs at hget with hlast
    · exact List.mem_iff_getElem?.mpr ⟨0,by simpa [List.getElem?_drop] using hget⟩
    · exact List.mem_iff_getElem?.mpr ⟨i,by simpa [List.getElem?_drop] using hget⟩

structure Swept (L M : List GddEdge) (before after : Bool) : Prop where
  peeled : Relation.ReflTransGen (Peels reducible) (waitSet L) (waitSet M)
  le : M.length≤L.length
  shorter : after=true → before=true ∨ M.length<L.length
  same : after=false → before=false ∧ M=L

theorem Swept.refl (L : List GddEdge) (dirty : Bool) : Swept L L dirty dirty :=
  ⟨.refl,Nat.le_refl _,.inl,fun h => ⟨h,rfl⟩⟩

theorem Swept.trans (h : Swept L M a b) (h' : Swept M N b c) : Swept L N a c := by
  constructor
  case peeled => exact h.peeled.trans h'.peeled
  case le => exact Nat.le_trans h'.le h.le
  case shorter =>
    intro hc
    rcases h'.shorter hc with hb | hlt
    · rcases h.shorter hb with ha | hlt
      · exact .inl ha
      · exact .inr (Nat.lt_of_le_of_lt h'.le hlt)
    · exact .inr (Nat.lt_of_lt_of_le hlt h.le)
  case same =>
    intro hc
    obtain ⟨hb,rfl⟩ := h'.same hc
    exact h.same hb

theorem Visit.swept (h : Visit ctx ctx' L M s v r)
    (dirty : Bool) : Swept L M dirty (dirty || r) := by
  constructor
  case peeled => exact .single h.peels
  case le =>
    cases r with
    | true => exact Nat.le_of_lt (h.shorter rfl)
    | false => exact Nat.le_of_eq (congrArg length (h.quiet rfl).1)
  case shorter =>
    intro hc
    rcases Bool.or_eq_true_iff.mp hc with hd | hr
    · exact .inl hd
    · exact .inr (h.shorter hr)
  case same =>
    intro hc
    obtain ⟨hd,hr⟩ := Bool.or_eq_false_iff.mp hc
    exact ⟨hd,(h.quiet hr).1⟩

theorem Linked.dropVert (h : Linked ctx L)
    (hin : (ctx.vert s v).edgesIn.length=0) (hout : (ctx.vert s v).edgesOut.length=0)
    (hkeys : ∀ u∈ctx.verts s, u=v ∨ u∈keys) :
    Linked { ctx with verts := update ctx.verts s keys } L := by
  rw [h.edgesIn,length_eq_zero_iff,filter_eq_nil_iff] at hin
  rw [h.edgesOut,length_eq_zero_iff,filter_eq_nil_iff] at hout
  refine { h with vfrom := ?_, vto := ?_ }
  · intro e he
    by_cases hs : e.segid=s
    · subst hs
      rcases hkeys _ (h.vfrom e he) with hv | hk
      · exact absurd (by simp [hv]) (hout e he)
      · simpa using hk
    · simpa [hs] using h.vfrom e he
  · intro e he
    by_cases hs : e.segid=s
    · subst hs
      rcases hkeys _ (h.vto e he) with hv | hk
      · exact absurd (by simp [hv]) (hin e he)
      · simpa using hk
    · simpa [hs] using h.vto e he

/-- A pass over the vertices of a graph; one that changes nothing finds all quiet. -/
theorem reduceVerts_spec (n : Nat) (s : Int) (pos : Nat) (dirty : Bool)
    (h : Linked ctx L) (hn : n+pos=(ctx.verts s).length) :
    ∃ M, Linked (reduceVerts n ctx s pos dirty).2 M ∧
      (reduceVerts n ctx s pos dirty).2.graphs=ctx.graphs ∧
      Swept L M dirty (reduceVerts n ctx s pos dirty).1 ∧
      ((reduceVerts n ctx s pos dirty).1=false → ∀ u∈(ctx.verts s).drop pos, Quiet L s u) := by
  induction n generalizing ctx L pos dirty with
  | zero =>
    refine ⟨L,h,rfl,.refl L dirty,?_⟩
    intro _ u hu
    rw [drop_eq_nil_of_le (by omega)] at hu
    simp at hu
  | succ n ih =>
    have hpos : pos<(ctx.verts s).length := by omega
    have hget := getElem?_eq_getElem hpos
    simp only [reduceVerts,hget]
    generalize (ctx.verts s)[pos]=v at hget
    obtain ⟨M,hvis⟩ := visit_gddVertReduce h s v
    have hsw := hvis.swept dirty
    have hver := congrFun hvis.verts s
    -- a quiet visit leaves the edges as they are, so what the rest finds quiet was so before
    have hqt {b : Bool} (hb : b=false) {N : List GddEdge}
        (hrest : Swept M N (dirty || (ctx.gddVertReduce s v).1) b) :
        M=L ∧ Quiet L s v := by
      have hor := (hrest.same hb).1
      exact hvis.quiet (Bool.or_eq_false_iff.mp hor).2
    split_ifs with hemp
    · have hget' : ((ctx.gddVertReduce s v).2.verts s)[pos]?=some v := hver ▸ hget
      have hpos' : pos<((ctx.gddVertReduce s v).2.verts s).length := hver ▸ hpos
      have hl := hvis.linked.dropVert hemp.1 hemp.2 fun u hu => mem_gddMapDelete hget' hu
      have hn' : n+pos=(update (ctx.gddVertReduce s v).2.verts s
          (gddMapDelete ((ctx.gddVertReduce s v).2.verts s) pos) s).length := by
        rw [update_self,length_gddMapDelete hpos',hver]
        omega
      obtain ⟨N,hN,hg,hrest,hq⟩ := ih pos (dirty || (ctx.gddVertReduce s v).1) hl hn'
      refine ⟨N,hN,hg.trans hvis.graphs,hsw.trans hrest,?_⟩
      intro hb u hu
      obtain ⟨rfl,hv⟩ := hqt hb hrest
      rw [← hver] at hu
      rcases mem_drop_gddMapDelete hget' hu with rfl | hu'
      · exact hv
      · apply hq hb u
        simpa using hu'
    · have hn' : n+(pos+1)=((ctx.gddVertReduce s v).2.verts s).length := by
        rw [hver]
        omega
      obtain ⟨N,hN,hg,hrest,hq⟩ := ih (pos+1) (dirty || (ctx.gddVertReduce s v).1) hvis.linked hn'
      refine ⟨N,hN,hg.trans hvis.graphs,hsw.trans hrest,?_⟩
      intro hb u hu
      obtain ⟨rfl,hv⟩ := hqt hb hrest
      rw [drop_eq_getElem_cons hpos,mem_cons] at hu
      rcases hu with hu | hu
      · have huv : u=v := by
          rw [hu]
          exact Option.some.inj ((getElem?_eq_getElem hpos).symm.trans hget)
        exact huv ▸ hv
      · exact hq hb u (hver ▸ hu)

theorem reduceGraphs_spec (gs : List Int) (dirty : Bool) (h : Linked ctx L) :
    let r := gs.foldl (fun (dirty, ctx) s => reduceVerts (ctx.verts s).length ctx s 0 dirty)
      (dirty, ctx)
    ∃ M, Linked r.2 M ∧ Swept L M dirty r.1 ∧
      (r.1=false → ∀ e∈L, e.segid∈gs → Quiet L e.segid e.vfrom ∧ Quiet L e.segid e.vto) := by
  induction gs generalizing ctx L dirty with
  | nil => exact ⟨L,h,.refl L dirty,by simp⟩
  | cons s gs ih =>
    obtain ⟨M,hM,hg,hsw,hq⟩ := reduceVerts_spec (ctx.verts s).length s 0 dirty h rfl
    obtain ⟨N,hN,hrest,hqr⟩ := ih (reduceVerts (ctx.verts s).length ctx s 0 dirty).1 hM
    refine ⟨N,hN,hsw.trans hrest,?_⟩
    intro hb e he hs
    have hfirst := (hrest.same hb).1
    obtain ⟨-,rfl⟩ := hsw.same hfirst
    rcases mem_cons.mp hs with hs | hs
    · have hall := hq hfirst
      rw [drop_zero,← hs] at hall
      exact ⟨hall _ (h.vfrom e he),hall _ (h.vto e he)⟩
    · exact hqr hb e he hs

theorem reducePass_spec (h : Linked ctx L) :
    ∃ M, Linked ctx.reducePass.2 M ∧ Swept L M false ctx.reducePass.1 ∧
      (ctx.reducePass.1=false → Stuck reducible (waitSet L)) := by
  obtain ⟨M,hM,hsw,hq⟩ := reduceGraphs_spec ctx.graphs false h
  refine ⟨M,hM,hsw,?_⟩
  intro hb
  apply stuck_of_quiet
  intro e he
  exact hq hb e he (h.graph e he)

/-- Passes are repeated until nothing can be reduced; each one removes an edge. -/
theorem reduceLoop_spec (n : Nat) (h : Linked ctx L) (hn : L.length<n) :
    ∃ ctx' M, reduceLoop n ctx=some ctx' ∧ Linked ctx' M ∧
      Relation.ReflTransGen (Peels reducible) (waitSet L) (waitSet M) ∧
      Stuck reducible (waitSet M) := by
  induction n generalizing ctx L with
  | zero => omega
  | succ n ih =>
    obtain ⟨M,hM,hsw,hstuck⟩ := reducePass_spec h
    simp only [reduceLoop]
    cases hpass : ctx.reducePass with
    | mk dirty ctx' =>
      rw [hpass] at hM hsw hstuck
      cases dirty with
      | true =>
        have hlt := (hsw.shorter rfl).resolve_left (by simp)
        obtain ⟨c,N,hc,hN,hpeel,hs⟩ := ih hM (by omega)
        exact ⟨c,N,hc,hN,hsw.peeled.trans hpeel,hs⟩
      | false =>
        obtain ⟨-,rfl⟩ := hsw.same rfl
        exact ⟨ctx',M,rfl,hM,.refl,hstuck rfl⟩

theorem gddCtxReduce_spec (h : Linked ctx L) :
    ∃ ctx' M, ctx.gddCtxReduce=some ctx' ∧ Linked ctx' M ∧
      waitSet M=core reducible (waitSet L) := by
  have hlt : L.length<ctx.topstat.indeg.toNat+1 := by
    rw [h.topstat]
    simp
  obtain ⟨c,M,hc,hM,hpeel,hs⟩ := reduceLoop_spec _ h hlt
  exact ⟨c,M,hc,hM,eq_core_of_peeled reducible_hereditary hpeel hs⟩

end

variable {ctx : GddCtx}

def visitAll (ctx : GddCtx) (order : List (Int × Nat)) : GddCtx :=
  order.foldl (fun ctx sv => (ctx.gddVertReduce sv.1 sv.2).2) ctx

def Settled (ctx : GddCtx) : Prop :=
  ∀ s∈ctx.graphs, ∀ v∈ctx.verts s, (ctx.gddVertReduce s v).1=false

theorem visitAll_spec (order : List (Int × Nat)) (h : Linked ctx L) :
    ∃ M, Linked (visitAll ctx order) M ∧
      Relation.ReflTransGen (Peels reducible) (waitSet L) (waitSet M) := by
  induction order generalizing ctx L with
  | nil => exact ⟨L,h,.refl⟩
  | cons sv order ih =>
    obtain ⟨M,hvis⟩ := visit_gddVertReduce h sv.1 sv.2
    obtain ⟨N,hN,hpeel⟩ := ih hvis.linked
    exact ⟨N,hN,.head hvis.peels hpeel⟩

theorem Settled.stuck (hs : Settled ctx) (h : Linked ctx L) : Stuck reducible (waitSet L) := by
  have hqt (s : Int) (v : Nat) (hg : s∈ctx.graphs) (hv : v∈ctx.verts s) : Quiet L s v := by
    obtain ⟨M,hvis⟩ := visit_gddVertReduce h s v
    exact (hvis.quiet (hs s hg v hv)).2
  apply stuck_of_quiet
  intro e he
  exact ⟨hqt _ _ (h.graph e he) (h.vfrom e he),hqt _ _ (h.graph e he) (h.vto e he)⟩

theorem linked_addEdges (ws : List WaitEdge) :
    ∃ L, Linked (gddCtxNew.addEdges ws) L ∧ waitSet L={w | w∈ws} := by
  obtain ⟨L,hL,hmap⟩ := Linked.new.addEdges ws
  refine ⟨L,hL,?_⟩
  simp only [waitSet,hmap,List.map_nil,List.nil_append]

theorem Linked.gddCtxEmpty_iff (h : Linked ctx L) : ctx.gddCtxEmpty=true ↔ waitSet L=∅ := by
  have htop : ctx.gddCtxEmpty=true ↔ L=[] := by simp [gddCtxEmpty,h.topstat]
  rw [htop,waitSet,Set.eq_empty_iff_forall_notMem]
  constructor
  · rintro rfl
    simp
  · intro hno
    cases L with
    | nil => rfl
    | cons e L => exact absurd (List.mem_map_of_mem List.mem_cons_self) (hno e.wait)

/-- The detector empties exactly the wait graphs that drain by themselves, and what it leaves
depends neither on the order of the edges nor on that of the visits. -/
theorem detector_exact_and_order_independent (ws : List WaitEdge) :
    ∃ ctx, (gddCtxNew.addEdges ws).gddCtxReduce=some ctx ∧
      (ctx.gddCtxEmpty=true ↔ Drainable {w | w∈ws}) ∧ (ctx.waits=[] ↔ Drainable {w | w∈ws}) ∧
      ∀ ws', (∀ w, w∈ws' ↔ w∈ws) → (∃ ctx', (gddCtxNew.addEdges ws').gddCtxReduce=some ctx' ∧
          ∀ w, w∈ctx'.waits ↔ w∈ctx.waits) ∧
        ∀ order, Settled (visitAll (gddCtxNew.addEdges ws') order) →
          ∀ w, w∈(visitAll (gddCtxNew.addEdges ws') order).waits ↔ w∈ctx.waits := by
  obtain ⟨L,hL,hset⟩ := linked_addEdges ws
  obtain ⟨ctx,M,hred,hM,hcore⟩ := gddCtxReduce_spec hL
  have hfin : ({w | w∈ws} : Set WaitEdge).Finite := List.finite_toSet ws
  have hdrn : waitSet M=∅ ↔ Drainable {w | w∈ws} := by
    rw [hcore,hset,core_reducible_empty_iff hfin,drainable_iff hfin]
  have hemp : ctx.waits=[] ↔ waitSet M=∅ := by
    rw [Set.eq_empty_iff_forall_notMem,List.eq_nil_iff_forall_not_mem]
    simp only [hM.mem_waits]
    rfl
  refine ⟨ctx,hred,hM.gddCtxEmpty_iff.trans hdrn,hemp.trans hdrn,?_⟩
  intro ws' hsame
  obtain ⟨L',hL',hset'⟩ := linked_addEdges ws'
  have heq : waitSet L'=waitSet L := by
    rw [hset,hset']
    exact Set.ext hsame
  -- both contexts end in the core of the same set
  have hleft {c : GddCtx} {N : List GddEdge} (hN : Linked c N)
      (hc : waitSet N=core reducible (waitSet L')) : ∀ w, w∈c.waits ↔ w∈ctx.waits := by
    intro w
    rw [hN.mem_waits,hM.mem_waits]
    have : waitSet N=waitSet M := by rw [hc,hcore,heq]
    exact Set.ext_iff.mp this w
  refine ⟨?_,?_⟩
  · obtain ⟨ctx',M',hred',hM',hcore'⟩ := gddCtxReduce_spec hL'
    exact ⟨ctx',hred',hleft hM' hcore'⟩
  · intro order hsettled
    obtain ⟨N,hN,hpeel⟩ := visitAll_spec order hL'
    exact hleft hN (eq_core_of_peeled reducible_hereditary hpeel (hsettled.stuck hN))

end WarehousePG.Gdd
