import WarehousePG.Gdd.Reduce

namespace WarehousePG.Gdd

open Framework List GddCtx

namespace GddCtx

/-- The loop over the verts stops at the one it removes: a graph has one vert for a vid. -/
def gddGraphRemoveVid (ctx : GddCtx) (segid : Int) (vid : Nat) : GddCtx :=
  match (ctx.verts segid).findIdx? (·=vid) with
  | none => ctx
  | some pos =>
    let ctx := (ctx.gddVertUnlinkAll segid vid).2
    { ctx with verts := Function.update ctx.verts segid (gddMapDelete (ctx.verts segid) pos) }

def gddCtxRemoveVid (ctx : GddCtx) (vid : Nat) : GddCtx :=
  ctx.graphs.foldl (fun ctx segid => ctx.gddGraphRemoveVid segid vid) ctx

def gddCtxGetMaxVid (ctx : GddCtx) : Nat :=
  ctx.graphs.foldl (fun maxvid segid => (ctx.verts segid).foldl (fun maxvid vid =>
    if (ctx.vert segid vid).edgesIn.length≠0 ∨ (ctx.vert segid vid).edgesOut.length≠0
    then max maxvid vid else maxvid) maxvid) 0

def breakLoop : Nat → GddCtx → Option (List Nat × GddCtx)
  | 0, _ => none
  | n+1, ctx =>
    if ctx.gddCtxEmpty then some ([], ctx)
    else
      let maxvid := ctx.gddCtxGetMaxVid
      (ctx.gddCtxRemoveVid maxvid).gddCtxReduce.bind fun ctx =>
        (breakLoop n ctx).map fun (vids, ctx) => (maxvid::vids, ctx)

def gddCtxBreakDeadLock (ctx : GddCtx) : Option (List Nat × GddCtx) :=
  breakLoop (ctx.topstat.indeg.toNat+1) ctx

/-- The context after the verts of some transactions are removed one after the other, each followed
by a reduction. -/
def cancelAll (ctx : GddCtx) : List Nat → Option GddCtx
  | [] => some ctx
  | vid::vids => (ctx.gddCtxRemoveVid vid).gddCtxReduce.bind fun ctx => ctx.cancelAll vids

end GddCtx

def WaitEdge.Touches (w : WaitEdge) (vid : Nat) : Prop := w.waiter=vid ∨ w.holder=vid
  deriving Decidable

def GddCtx.Youngest (ctx : GddCtx) (vid : Nat) : Prop :=
  (∃ w∈ctx.waits, w.Touches vid) ∧ ∀ w∈ctx.waits, ∀ u, w.Touches u → u≤vid

variable {ctx : GddCtx}

/-- Removing a transaction removes the edges it touches, and no other. -/
theorem Linked.graphRemoveVid (h : Linked ctx L) (s : Int) (vid : Nat) :
    ∃ M, Linked (ctx.gddGraphRemoveVid s vid) M ∧
      ∀ e, e∈M ↔ e∈L ∧ ¬(e.segid=s ∧ e.wait.Touches vid) := by
  unfold gddGraphRemoveVid
  cases hfind : (ctx.verts s).findIdx? (·=vid) with
  | none =>
    refine ⟨L,h,fun e => ⟨fun he => ⟨he,?_⟩,And.left⟩⟩
    rintro ⟨rfl,ht⟩
    have hno := findIdx?_eq_none_iff.mp hfind
    rcases ht with ht | ht
    · exact absurd ht (of_decide_eq_false (hno _ (h.vfrom e he)))
    · exact absurd ht (of_decide_eq_false (hno _ (h.vto e he)))
  | some pos =>
    obtain ⟨R,hR,hmem,heq⟩ := h.unlinkAll s vid
    have hM := h.unlinkList hR fun e he => ((hmem e).mp he).1
    have hverts := (frame_unlinkList R ctx).1
    have hin (e : GddEdge) : e∈L.diff R ↔ e∈L ∧ ¬(e.segid=s ∧ e.wait.Touches vid) := by
      rw [h.nodup.mem_sdiff_iff,hmem]
      simp only [WaitEdge.Touches,GddEdge.wait]
      tauto
    have hno (e : GddEdge) (he : e∈L.diff R) (hs : e.segid=s) : ¬e.wait.Touches vid :=
      fun ht => ((hin e).mp he).2 ⟨hs,ht⟩
    have hget : (ctx.verts s)[pos]?=some vid := by
      obtain ⟨hlt,hv,-⟩ := findIdx?_eq_some_iff_getElem.mp hfind
      rw [getElem?_eq_getElem hlt,of_decide_eq_true hv]
    simp only [heq]
    refine ⟨L.diff R,?_,hin⟩
    apply hM.dropVert (v := vid)
    · rw [hM.edgesIn,length_eq_zero_iff,filter_eq_nil_iff]
      intro e he hc
      obtain ⟨hs,hv⟩ := of_decide_eq_true hc
      exact hno e he hs (.inr hv)
    · rw [hM.edgesOut,length_eq_zero_iff,filter_eq_nil_iff]
      intro e he hc
      obtain ⟨hs,hv⟩ := of_decide_eq_true hc
      exact hno e he hs (.inl hv)
    · intro u hu
      rw [hverts] at hu ⊢
      exact mem_gddMapDelete hget hu

theorem Linked.removeVid (h : Linked ctx L) (vid : Nat) :
    ∃ M, Linked (ctx.gddCtxRemoveVid vid) M ∧ ∀ e, e∈M ↔ e∈L ∧ ¬e.wait.Touches vid := by
  have hfold (gs : List Int) (ctx : GddCtx) (L : List GddEdge) (h : Linked ctx L) :
      ∃ M, Linked (gs.foldl (fun ctx s => ctx.gddGraphRemoveVid s vid) ctx) M ∧
        ∀ e, e∈M ↔ e∈L ∧ ¬(e.segid∈gs ∧ e.wait.Touches vid) := by
    induction gs generalizing ctx L with
    | nil => exact ⟨L,h,by simp⟩
    | cons s gs ih =>
      obtain ⟨M,hM,hmem⟩ := h.graphRemoveVid s vid
      obtain ⟨N,hN,hmem'⟩ := ih _ M hM
      refine ⟨N,hN,fun e => ?_⟩
      rw [hmem',hmem,mem_cons]
      tauto
  obtain ⟨M,hM,hmem⟩ := hfold ctx.graphs ctx L h
  refine ⟨M,hM,fun e => ?_⟩
  rw [hmem]
  have hg := h.graph e
  tauto

theorem foldl_max_spec (l : List Nat) (a : Nat) :
    (a≤l.foldl max a ∧ ∀ x∈l, x≤l.foldl max a) ∧ (l.foldl max a=a ∨ l.foldl max a∈l) := by
  induction l generalizing a with
  | nil => simp
  | cons x l ih =>
    obtain ⟨⟨hle,hall⟩,hor⟩ := ih (max a x)
    simp only [foldl_cons,mem_cons,forall_eq_or_imp]
    refine ⟨⟨by omega,by omega,hall⟩,?_⟩
    rcases hor with heq | hmem
    · rcases Nat.le_total a x with hax | hax
      · exact .inr (.inl (by omega))
      · exact .inl (by omega)
    · exact .inr (.inr hmem)

/-- The victim is the youngest transaction with an edge. -/
theorem Linked.youngest (h : Linked ctx L) (hne : L≠[]) : ctx.Youngest ctx.gddCtxGetMaxVid := by
  let busy (s : Int) (v : Nat) : Bool :=
    (ctx.vert s v).edgesIn.length≠0 ∨ (ctx.vert s v).edgesOut.length≠0
  have hfold : ctx.gddCtxGetMaxVid=
      (ctx.graphs.flatMap fun s => (ctx.verts s).filter (busy s)).foldl max 0 := by
    simp only [foldl_flatMap,foldl_filter,gddCtxGetMaxVid,busy,decide_eq_true_eq]
  have hmem (v : Nat) : v∈(ctx.graphs.flatMap fun s => (ctx.verts s).filter (busy s)) ↔
      ∃ e∈L, e.wait.Touches v := by
    simp only [mem_flatMap,mem_filter,busy,decide_eq_true_eq,h.edgesIn,h.edgesOut,ne_eq,
      length_eq_zero_iff,filter_eq_nil_iff,not_forall,not_not,exists_prop]
    constructor
    · rintro ⟨s,-,-,⟨e,he,-,hv⟩ | ⟨e,he,-,hv⟩⟩
      · exact ⟨e,he,.inr hv⟩
      · exact ⟨e,he,.inl hv⟩
    · rintro ⟨e,he,rfl | rfl⟩
      · exact ⟨e.segid,h.graph e he,h.vfrom e he,.inr ⟨e,he,rfl,rfl⟩⟩
      · exact ⟨e.segid,h.graph e he,h.vto e he,.inl ⟨e,he,rfl,rfl⟩⟩
  obtain ⟨⟨-,hall⟩,hor⟩ := foldl_max_spec
    (ctx.graphs.flatMap fun s => (ctx.verts s).filter (busy s)) 0
  rw [← hfold] at hall hor
  have hle (e : GddEdge) (he : e∈L) (u : Nat) (hu : e.wait.Touches u) : u≤ctx.gddCtxGetMaxVid :=
    hall u ((hmem u).mpr ⟨e,he,hu⟩)
  constructor
  · obtain ⟨e,he,ht⟩ : ∃ e∈L, e.wait.Touches ctx.gddCtxGetMaxVid := by
      rcases hor with hzero | hin
      · -- only the vid 0 has edges
        obtain ⟨e,he⟩ := exists_mem_of_ne_nil L hne
        have := hle e he e.vfrom (.inl rfl)
        exact ⟨e,he,.inl (show e.vfrom=_ by omega)⟩
      · exact (hmem _).mp hin
    exact ⟨e.wait,(h.mem_waits _).mpr (mem_map_of_mem he),ht⟩
  · intro w hw
    obtain ⟨e,he,rfl⟩ := mem_map.mp ((h.mem_waits w).mp hw)
    exact hle e he

/-- What breaking the deadlocks of a context does: each victim is the youngest when it is chosen, and
the victims cancelled one after the other leave no wait. -/
structure Breaks (ctx : GddCtx) (vids : List Nat) (ctx' : GddCtx) : Prop where
  victims : ∀ pre vid post, vids=pre ++ vid::post →
    ∃ c, ctx.cancelAll pre=some c ∧ c.Youngest vid
  decreasing : vids.Pairwise (· > ·)
  cancelled : ctx.cancelAll vids=some ctx'
  empty : ctx'.waits=[]

theorem Breaks.cons (hc : (ctx.gddCtxRemoveVid vid).gddCtxReduce=some c) (hy : ctx.Youngest vid)
    (hlt : ∀ u∈vids, u<vid) (h : Breaks c vids ctx') : Breaks ctx (vid::vids) ctx' := by
  constructor
  case victims =>
    intro pre u post heq
    cases pre with
    | nil =>
      cases heq
      exact ⟨ctx,rfl,hy⟩
    | cons w pre =>
      cases heq
      obtain ⟨d,hd,hu⟩ := h.victims pre u post rfl
      refine ⟨d,?_,hu⟩
      simp only [cancelAll,hc,Option.bind_some,hd]
  case decreasing => exact pairwise_cons.mpr ⟨hlt,h.decreasing⟩
  case cancelled => simp only [cancelAll,hc,Option.bind_some,h.cancelled]
  case empty => exact h.empty

theorem finite_waitSet (L : List GddEdge) : (waitSet L).Finite := finite_toSet _

/-- By induction on the number of waits: each victim takes at least one away. -/
theorem breakLoop_spec (n : Nat) (h : Linked ctx L) (hn : (waitSet L).ncard<n) :
    ∃ vids ctx', ctx.breakLoop n=some (vids,ctx') ∧ Breaks ctx vids ctx' ∧
      (∀ u∈vids, ∃ e∈L, e.wait.Touches u) ∧
      ∀ T⊆waitSet L, Stuck reducible T → (∀ w∈T, ∀ u∈vids, ¬w.Touches u) → T=∅ := by
  induction n generalizing ctx L with
  | zero => omega
  | succ n ih =>
    rw [breakLoop]
    split_ifs with hemp
    · have hset := h.gddCtxEmpty_iff.mp hemp
      have hnil : ctx.waits=[] := by
        rw [eq_nil_iff_forall_not_mem]
        intro w hw
        exact Set.eq_empty_iff_forall_notMem.mp hset w ((h.mem_waits w).mp hw)
      refine ⟨[],ctx,rfl,⟨by simp,.nil,rfl,hnil⟩,by simp,?_⟩
      intro T hT _ _
      exact Set.subset_empty_iff.mp (hset ▸ hT)
    · have hne : L≠[] := by
        rintro rfl
        exact hemp (h.gddCtxEmpty_iff.mpr (by simp [waitSet]))
      have hy := h.youngest hne
      generalize ctx.gddCtxGetMaxVid=vid at hy
      obtain ⟨M,hM,hmem⟩ := h.removeVid vid
      obtain ⟨c,N,hc,hN,hcore⟩ := gddCtxReduce_spec hM
      have hsub : waitSet N⊆{w | w∈waitSet L ∧ ¬w.Touches vid} := by
        rw [hcore]
        refine (core_subset _ _).trans ?_
        intro w hw
        obtain ⟨e,he,rfl⟩ := mem_map.mp hw
        exact ⟨wait_mem_waitSet ((hmem e).mp he).1,((hmem e).mp he).2⟩
      have hcard : (waitSet N).ncard<n := by
        obtain ⟨w,hw,ht⟩ := hy.1
        have hwL : w∈waitSet L := (h.mem_waits w).mp hw
        have hlt := Set.ncard_lt_ncard
          ⟨fun v hv => (hsub hv).1,fun hLN => (hsub (hLN hwL)).2 ht⟩ (finite_waitSet L)
        omega
      obtain ⟨vids,ctx',hloop,hbrk,htouch,hstuc⟩ := ih hN hcard
      have hold (e : GddEdge) (he : e∈N) : e.wait∈waitSet L ∧ ¬e.wait.Touches vid :=
        hsub (wait_mem_waitSet he)
      have hlt (u : Nat) (hu : u∈vids) : u<vid := by
        obtain ⟨e,he,ht⟩ := htouch u hu
        have hle := hy.2 e.wait ((h.mem_waits _).mpr (hold e he).1) u ht
        exact Nat.lt_of_le_of_ne hle fun heq => (hold e he).2 (heq ▸ ht)
      refine ⟨vid::vids,ctx',by simp [hc,hloop],hbrk.cons hc hy hlt,?_,?_⟩
      · intro u hu
        rcases mem_cons.mp hu with rfl | hu
        · obtain ⟨w,hw,ht⟩ := hy.1
          obtain ⟨e,he,rfl⟩ := mem_map.mp ((h.mem_waits w).mp hw)
          exact ⟨e,he,ht⟩
        · obtain ⟨e,he,ht⟩ := htouch u hu
          obtain ⟨d,hd,heq⟩ := mem_map.mp (hold e he).1
          exact ⟨d,hd,heq ▸ ht⟩
      · -- a set in which nothing can go survives the reduction, so it is left in the new context
        intro T hT hs hclr
        apply hstuc T _ hs fun w hw u hu => hclr w hw u (mem_cons_of_mem vid hu)
        rw [hcore]
        apply subset_core _ hs
        intro w hw
        obtain ⟨e,he,rfl⟩ := mem_map.mp (hT hw)
        exact wait_mem_waitSet ((hmem e).mpr ⟨he,hclr _ hw vid mem_cons_self⟩)

theorem ncard_waitSet_le (L : List GddEdge) : (waitSet L).ncard≤L.length := by
  have hcoe : waitSet L=((L.map GddEdge.wait).toFinset : Set WaitEdge) := by
    ext w
    simp [waitSet]
  rw [hcoe,Set.ncard_coe_finset]
  exact (toFinset_card_le _).trans_eq (length_map _)

theorem gddCtxBreakDeadLock_spec (h : Linked ctx L) :
    ∃ vids ctx', ctx.gddCtxBreakDeadLock=some (vids,ctx') ∧ Breaks ctx vids ctx' ∧
      ∀ T⊆waitSet L, Stuck reducible T → (∀ w∈T, ∀ u∈vids, ¬w.Touches u) → T=∅ := by
  have hle := ncard_waitSet_le L
  obtain ⟨vids,ctx',hloop,hbrk,-,hstuc⟩ :=
    breakLoop_spec (ctx.topstat.indeg.toNat+1) h (by rw [h.topstat]; simp; omega)
  exact ⟨vids,ctx',hloop,hbrk,hstuc⟩

/-- Deadlocks are broken, in the context as built or already reduced, by cancelling the youngest
transaction with an edge again and again, and without the waits of the victims nothing of the wait
graph outlasts a reduction. -/
theorem break_deadlock_youngest_first (ws : List WaitEdge) (ctx : GddCtx)
    (hctx : ctx=gddCtxNew.addEdges ws ∨
      (gddCtxNew.addEdges ws).gddCtxReduce=some ctx) :
    ∃ vids ctx', ctx.gddCtxBreakDeadLock=some (vids,ctx') ∧ Breaks ctx vids ctx' ∧
      ∃ rest, (gddCtxNew.addEdges
          (ws.filter fun w => ∀ vid∈vids, ¬w.Touches vid)).gddCtxReduce=some rest ∧
        rest.waits=[] := by
  obtain ⟨L,hL,hset⟩ := linked_addEdges ws
  obtain ⟨N,hN,hkeep⟩ : ∃ N, Linked ctx N ∧ ∀ T⊆waitSet L, Stuck reducible T → T⊆waitSet N := by
    rcases hctx with rfl | hred
    · exact ⟨L,hL,fun T hT _ => hT⟩
    · obtain ⟨c,N,hc,hN,hcore⟩ := gddCtxReduce_spec hL
      cases hred.symm.trans hc
      exact ⟨N,hN,fun T hT hs => hcore ▸ subset_core hT hs⟩
  obtain ⟨vids,ctx',hbreak,hbrk,hstuc⟩ := gddCtxBreakDeadLock_spec hN
  refine ⟨vids,ctx',hbreak,hbrk,?_⟩
  obtain ⟨R,hR,hsetR⟩ := linked_addEdges (ws.filter fun w => ∀ vid∈vids, ¬w.Touches vid)
  obtain ⟨rest,P,hrest,hP,hcore⟩ := gddCtxReduce_spec hR
  refine ⟨rest,hrest,?_⟩
  have hs : Stuck reducible (waitSet P) := hcore ▸ core_stuck reducible_hereditary _
  have hin (w : WaitEdge) (hw : w∈waitSet P) : w∈ws ∧ ∀ vid∈vids, ¬w.Touches vid := by
    have hwR : w∈waitSet R := core_subset _ _ (hcore ▸ hw)
    rw [hsetR] at hwR
    simpa using hwR
  have hnil := hstuc _ (hkeep _ (fun w hw => hset ▸ (hin w hw).1) hs) hs fun w hw => (hin w hw).2
  rw [eq_nil_iff_forall_not_mem]
  intro w hw
  exact Set.eq_empty_iff_forall_notMem.mp hnil w ((hP.mem_waits w).mp hw)

theorem break_deadlock_youngest_first_two_cycles : ∃ vids ctx', (gddCtxNew.addEdges
      [⟨0,1,2,true⟩,⟨1,2,1,true⟩,⟨0,3,4,true⟩,⟨1,4,3,true⟩]).gddCtxBreakDeadLock=some (vids,ctx') ∧
      vids=[4,2] ∧ ctx'.waits=[] := by
  obtain ⟨vids,ctx',hbreak,hbrk,-⟩ := break_deadlock_youngest_first
    [⟨0,1,2,true⟩,⟨1,2,1,true⟩,⟨0,3,4,true⟩,⟨1,4,3,true⟩] _ (.inl rfl)
  refine ⟨vids,ctx',hbreak,?_,hbrk.empty⟩
  have hvids : ((gddCtxNew.addEdges
      [⟨0,1,2,true⟩,⟨1,2,1,true⟩,⟨0,3,4,true⟩,⟨1,4,3,true⟩]).gddCtxBreakDeadLock).map Prod.fst=
        some [4,2] := by decide +kernel
  rw [hbreak] at hvids
  exact Option.some.inj hvids

/-- The transactions that a round of the detector cancels. -/
def doDeadLockCheck (ws : List WaitEdge) : Option (List Nat) :=
  (gddCtxNew.addEdges ws).gddCtxReduce.bind fun ctx =>
    if ctx.gddCtxEmpty then some [] else ctx.gddCtxBreakDeadLock.map (·.1)

/-- Only transactions with a wait in a deadlocked part of the graph are cancelled. -/
theorem only_deadlocked_cancelled (ws : List WaitEdge) :
    ∃ vids, doDeadLockCheck ws=some vids ∧
      ∀ u∈vids, ∃ T⊆{w | w∈ws}, Stuck reducible T ∧ ∃ w∈T, w.Touches u := by
  obtain ⟨L,hL,hset⟩ := linked_addEdges ws
  obtain ⟨ctx,M,hred,hM,hcore⟩ := gddCtxReduce_spec hL
  rw [hset] at hcore
  rw [doDeadLockCheck,hred,Option.bind_some]
  split_ifs
  · exact ⟨[],rfl,by simp⟩
  · have hn : (waitSet M).ncard<ctx.topstat.indeg.toNat+1 := by
      have := ncard_waitSet_le M
      rw [hM.topstat]
      simp
      omega
    obtain ⟨vids,ctx',hloop,-,htouch,-⟩ := breakLoop_spec _ hM hn
    refine ⟨vids,by rw [gddCtxBreakDeadLock,hloop]; rfl,fun u hu => ?_⟩
    obtain ⟨e,he,ht⟩ := htouch u hu
    exact ⟨_,core_subset _ _,core_stuck reducible_hereditary _,_,hcore ▸ wait_mem_waitSet he,ht⟩

end WarehousePG.Gdd
