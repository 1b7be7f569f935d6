import WarehousePG.Framework.Peeling

namespace WarehousePG.Gdd

open Framework

/-- On segment `segid` the transaction `waiter` waits for `holder`; a solid wait lasts until the
holder ends. -/
structure WaitEdge where
  segid : Int
  waiter : Nat
  holder : Nat
  solid : Bool
  deriving DecidableEq

/-- What can resolve without outside help: a transaction that waits nowhere finishes, and a
transaction that does not wait on a segment releases a dotted wait there. -/
inductive Drain : Set WaitEdge → Set WaitEdge → Prop
  | finish (E : Set WaitEdge) (t : Nat) (h : ∀ e∈E, e.waiter≠t) : Drain E {e | e∈E ∧ e.holder≠t}
  | release (E : Set WaitEdge) (e : WaitEdge) (he : e∈E) (hd : e.solid=false)
      (h : ∀ d∈E, d.segid=e.segid → d.waiter≠e.holder) : Drain E (E \ {e})

def Drainable (E : Set WaitEdge) : Prop := Relation.ReflTransGen Drain E ∅

def resolves : PeelRule WaitEdge := fun E e =>
  (∀ d∈E, d.waiter≠e.holder) ∨ e.solid=false ∧ ∀ d∈E, d.segid=e.segid → d.waiter≠e.holder

/-- The detector also drops the edges of a transaction that nothing waits for. -/
def reducible : PeelRule WaitEdge := fun E e => (∀ d∈E, d.holder≠e.waiter) ∨ resolves E e

theorem resolves_hereditary : Hereditary resolves := by
  intro T E e hT _ hr
  rcases hr with h | ⟨hd,h⟩
  · exact .inl fun d hdT => h d (hT hdT)
  · exact .inr ⟨hd,fun d hdT => h d (hT hdT)⟩

theorem reducible_hereditary : Hereditary reducible := by
  intro T E e hT he hr
  rcases hr with h | h
  · exact .inl fun d hdT => h d (hT hdT)
  · exact .inr (resolves_hereditary T E e hT he h)

theorem Drain.peels (h : Drain E F) : Peels resolves E F := by
  cases h with
  | finish t h =>
    constructor
    case subset => exact fun e he => he.1
    case removed =>
      intro e he hn
      have hhol : e.holder=t := by
        by_contra hne
        exact hn ⟨he,hne⟩
      exact .inl fun d hd => hhol ▸ h d hd
  | release e he hd h =>
    constructor
    case subset => exact Set.sdiff_subset
    case removed =>
      intro d hdE hn
      have : d=e := by
        by_contra hne
        exact hn ⟨hdE,hne⟩
      subst this
      exact .inr ⟨hd,h⟩

theorem exists_drain (he : e∈E) (hr : resolves E e) : ∃ F, Drain E F ∧ F⊆E ∧ e∉F := by
  rcases hr with h | ⟨hd,h⟩
  · refine ⟨_,.finish E e.holder h,fun d hd => hd.1,?_⟩
    intro hmem
    exact hmem.2 rfl
  · refine ⟨_,.release E e he hd h,Set.sdiff_subset,?_⟩
    intro hmem
    exact hmem.2 rfl

/-- Waits can drain exactly if nothing of them is stuck. -/
theorem drainable_iff (hfin : E.Finite) : Drainable E ↔ core resolves E=∅ := by
  constructor
  · intro h
    have hpeel : Relation.ReflTransGen (Peels resolves) E ∅ :=
      Relation.ReflTransGen.mono (fun _ _ => Drain.peels) _ _ h
    rw [← core_eq_of_peeled resolves_hereditary hpeel]
    exact Set.subset_empty_iff.mp (core_subset resolves ∅)
  · -- by induction on the size: a set that is not empty is not stuck
    intro hcore
    obtain ⟨n,hn⟩ : ∃ n, E.ncard=n := ⟨_,rfl⟩
    induction n using Nat.strong_induction_on generalizing E with
    | _ n ih =>
      by_cases hE : E=∅
      · subst hE
        exact .refl
      · have hns : ¬Stuck resolves E := by
          intro hs
          rw [core_eq_of_stuck hs] at hcore
          exact hE hcore
        simp only [Stuck,not_forall,not_not] at hns
        obtain ⟨e,he,hr⟩ := hns
        obtain ⟨F,hd,hsub,hout⟩ := exists_drain he hr
        have hcard : F.ncard<n := hn ▸ Set.ncard_lt_ncard ⟨hsub,fun hE => hout (hE he)⟩ hfin
        have hcoreF := (hd.peels.core_eq resolves_hereditary).trans hcore
        exact .head hd (ih _ hcard (hfin.subset hsub) hcoreF rfl)

/-- A stuck set contains one in which no wait can be reduced. -/
theorem exists_stuck_cycle (hfin : E.Finite) (hne : E.Nonempty)
    (hs : Stuck resolves E) : ∃ T⊆E, T.Nonempty ∧ Stuck reducible T := by
  -- every edge of `E` has a next one, on the same segment if it is dotted
  have hex : ∀ e : WaitEdge, ∃ d, e∈E → d∈E ∧ d.waiter=e.holder ∧
      (e.solid=false → d.segid=e.segid) := by
    intro e
    by_cases he : e∈E
    · have hn := hs e he
      simp only [resolves,not_or,not_and] at hn
      push Not at hn
      cases hsolid : e.solid with
      | true =>
        obtain ⟨d,hd,hw⟩ := hn.1
        exact ⟨d,fun _ => ⟨hd,hw,by simp⟩⟩
      | false =>
        obtain ⟨d,hd,hseg,hw⟩ := hn.2 hsolid
        exact ⟨d,fun _ => ⟨hd,hw,fun _ => hseg⟩⟩
    · exact ⟨e,fun h => absurd h he⟩
  choose next hnext using hex
  obtain ⟨T,hT,hTne,hfwd,hback⟩ := exists_closed_cycle hfin hne next fun e he => (hnext e he).1
  refine ⟨T,hT,hTne,?_⟩
  intro e he hr
  have hn := hnext e (hT he)
  rcases hr with h | h | ⟨hd,h⟩
  · obtain ⟨p,hp,rfl⟩ := hback e he
    exact h p hp (hnext p (hT hp)).2.1.symm
  · exact h (next e) (hfwd e he) hn.2.1
  · exact h (next e) (hfwd e he) (hn.2.2 hd) hn.2.1

theorem core_reducible_empty_iff (hfin : E.Finite) : core reducible E=∅ ↔ core resolves E=∅ := by
  constructor
  · intro h
    by_contra hne
    have hsub := core_subset resolves E
    obtain ⟨T,hT,hTne,hs⟩ := exists_stuck_cycle (hfin.subset hsub)
      (Set.nonempty_iff_ne_empty.mpr hne) (core_stuck resolves_hereditary E)
    have hcore := subset_core (hT.trans hsub) hs
    rw [h] at hcore
    exact hTne.ne_empty (Set.subset_empty_iff.mp hcore)
  · intro h
    apply Set.subset_empty_iff.mp
    rw [← h]
    rintro e ⟨T,hT,hs,he⟩
    refine ⟨T,hT,?_,he⟩
    intro d hd hr
    exact hs d hd (.inr hr)

open Function

/-- An edge object; `ref` is its address and the graph it was made in is `segid`. -/
structure GddEdge where
  ref : Nat
  segid : Int
  vfrom : Nat
  vto : Nat
  solid : Bool
  deriving DecidableEq

def GddEdge.wait (e : GddEdge) : WaitEdge := ⟨e.segid,e.vfrom,e.vto,e.solid⟩

structure GddStat where
  indeg : Int
  outdeg : Int
  deriving DecidableEq

@[ext] structure GddVert where
  edgesIn : List GddEdge
  edgesOut : List GddEdge
  deriving DecidableEq

/-- The detector's context. `graphs` and `verts` are the keys of its maps in array order; a vert
stays reachable through the edges that point to it after it has left its map. -/
structure GddCtx where
  topstat : GddStat
  globals : Nat → GddStat
  graphs : List Int
  verts : Int → List Nat
  vert : Int → Nat → GddVert
  nextRef : Nat

namespace GddCtx

def gddCtxNew : GddCtx where
  topstat := ⟨0,0⟩
  globals := fun _ => ⟨0,0⟩
  graphs := []
  verts := fun _ => []
  vert := fun _ _ => ⟨[],[]⟩
  nextRef := 0

def modGlobal (ctx : GddCtx) (vid : Nat) (f : GddStat → GddStat) : GddCtx :=
  { ctx with globals := update ctx.globals vid (f (ctx.globals vid)) }

def modVert (ctx : GddCtx) (segid : Int) (vid : Nat) (f : GddVert → GddVert) : GddCtx :=
  { ctx with
    vert := update ctx.vert segid
      (update (ctx.vert segid) vid (f (ctx.vert segid vid))) }

def gddCtxGetGraph (ctx : GddCtx) (segid : Int) : GddCtx :=
  if segid∈ctx.graphs then ctx else { ctx with graphs := ctx.graphs ++ [segid] }

def gddGraphGetVert (ctx : GddCtx) (segid : Int) (vid : Nat) : GddCtx :=
  if vid∈ctx.verts segid then ctx
  else
    { ctx with verts := update ctx.verts segid (ctx.verts segid ++ [vid]) }.modVert
      segid vid fun _ => ⟨[],[]⟩

def gddEdgeLink (ctx : GddCtx) (e : GddEdge) : GddCtx :=
  let ctx := { ctx with topstat := ⟨ctx.topstat.indeg+1,ctx.topstat.outdeg+1⟩ }
  let ctx := ctx.modGlobal e.vfrom fun g => { g with outdeg := g.outdeg+1 }
  let ctx := ctx.modGlobal e.vto fun g => { g with indeg := g.indeg+1 }
  let ctx := ctx.modVert e.segid e.vfrom fun v => { v with edgesOut := v.edgesOut ++ [e] }
  ctx.modVert e.segid e.vto fun v => { v with edgesIn := v.edgesIn ++ [e] }

def gddCtxAddEdge (ctx : GddCtx) (w : WaitEdge) : GddCtx :=
  let e : GddEdge := ⟨ctx.nextRef,w.segid,w.waiter,w.holder,w.solid⟩
  let ctx := { ctx with nextRef := ctx.nextRef+1 }
  let ctx := ctx.gddCtxGetGraph w.segid
  let ctx := ctx.gddGraphGetVert w.segid w.waiter
  let ctx := ctx.gddGraphGetVert w.segid w.holder
  ctx.gddEdgeLink e

def gddEdgeUnlinkFrom (ctx : GddCtx) (e : GddEdge) : GddCtx :=
  let ctx := { ctx with topstat := { ctx.topstat with outdeg := ctx.topstat.outdeg-1 } }
  let ctx := ctx.modGlobal e.vfrom fun g => { g with outdeg := g.outdeg-1 }
  ctx.modVert e.segid e.vfrom fun v => { v with edgesOut := v.edgesOut.erase e }

def gddEdgeUnlinkTo (ctx : GddCtx) (e : GddEdge) : GddCtx :=
  let ctx := { ctx with topstat := { ctx.topstat with indeg := ctx.topstat.indeg-1 } }
  let ctx := ctx.modGlobal e.vto fun g => { g with indeg := g.indeg-1 }
  ctx.modVert e.segid e.vto fun v => { v with edgesIn := v.edgesIn.erase e }

def gddEdgeUnlink (ctx : GddCtx) (e : GddEdge) : GddCtx :=
  (ctx.gddEdgeUnlinkFrom e).gddEdgeUnlinkTo e

/-- The iteration deletes only the cell it stands on, so it visits the edges found at its start. -/
def gddVertUnlinkAll (ctx : GddCtx) (segid : Int) (vid : Nat) : Bool × GddCtx :=
  let edgesIn := (ctx.vert segid vid).edgesIn
  let ctx := edgesIn.foldl gddEdgeUnlink ctx
  let edgesOut := (ctx.vert segid vid).edgesOut
  let ctx := edgesOut.foldl gddEdgeUnlink ctx
  (!edgesIn.isEmpty || !edgesOut.isEmpty, ctx)

def gddVertReduce (ctx : GddCtx) (segid : Int) (vid : Nat) : Bool × GddCtx :=
  let global := ctx.globals vid
  if global.indeg=0 ∨ global.outdeg=0 then ctx.gddVertUnlinkAll segid vid
  else if (ctx.vert segid vid).edgesOut.length=0 then
    let dotted := (ctx.vert segid vid).edgesIn.filter fun e => !e.solid
    (!dotted.isEmpty, dotted.foldl gddEdgeUnlink ctx)
  else (false, ctx)

def gddMapDelete (keys : List Nat) (pos : Nat) : List Nat :=
  match keys.getLast? with
  | some last => (keys.set pos last).dropLast
  | none => []

def reduceVerts : Nat → GddCtx → Int → Nat → Bool → Bool × GddCtx
  | 0, ctx, _, _, dirty => (dirty, ctx)
  | n+1, ctx, segid, pos, dirty =>
    match (ctx.verts segid)[pos]? with
    | none => (dirty, ctx)
    | some vid =>
      let (reduced, ctx) := ctx.gddVertReduce segid vid
      if (ctx.vert segid vid).edgesIn.length=0 ∧ (ctx.vert segid vid).edgesOut.length=0 then
        let verts := update ctx.verts segid (gddMapDelete (ctx.verts segid) pos)
        reduceVerts n { ctx with verts } segid pos (dirty || reduced)
      else reduceVerts n ctx segid (pos+1) (dirty || reduced)

def reducePass (ctx : GddCtx) : Bool × GddCtx :=
  ctx.graphs.foldl (fun (dirty, ctx) segid =>
    reduceVerts (ctx.verts segid).length ctx segid 0 dirty) (false, ctx)

def reduceLoop : Nat → GddCtx → Option GddCtx
  | 0, _ => none
  | n+1, ctx =>
    match ctx.reducePass with
    | (true, ctx) => reduceLoop n ctx
    | (false, ctx) => some ctx

def gddCtxReduce (ctx : GddCtx) : Option GddCtx := reduceLoop (ctx.topstat.indeg.toNat+1) ctx

def gddCtxEmpty (ctx : GddCtx) : Bool := ctx.topstat.indeg=0

def addEdges (ctx : GddCtx) (ws : List WaitEdge) : GddCtx := ws.foldl gddCtxAddEdge ctx

def edges (ctx : GddCtx) : List GddEdge :=
  ctx.graphs.flatMap fun segid => (ctx.verts segid).flatMap fun vid => (ctx.vert segid vid).edgesOut

def waits (ctx : GddCtx) : List WaitEdge := ctx.edges.map GddEdge.wait

end GddCtx

open GddCtx GddEdge List

namespace GddCtx

variable (ctx : GddCtx)

theorem vert_modVert (s t : Int) (v u : Nat) (f : GddVert → GddVert) :
    (ctx.modVert s v f).vert t u=if t=s ∧ u=v then f (ctx.vert s v) else ctx.vert t u := by
  simp only [modVert,update_apply]
  by_cases ht : t=s
  · subst ht
    by_cases hu : u=v <;> simp [hu]
  · simp [ht]

variable (e : GddEdge)

theorem vert_gddEdgeUnlinkFrom (s : Int) (v : Nat) :
    (ctx.gddEdgeUnlinkFrom e).vert s v=if s=e.segid ∧ v=e.vfrom then
      { ctx.vert e.segid e.vfrom with edgesOut := (ctx.vert e.segid e.vfrom).edgesOut.erase e }
      else ctx.vert s v :=
  vert_modVert ctx e.segid s e.vfrom v fun u => { u with edgesOut := u.edgesOut.erase e }

theorem vert_gddEdgeUnlinkTo (s : Int) (v : Nat) :
    (ctx.gddEdgeUnlinkTo e).vert s v=if s=e.segid ∧ v=e.vto then
      { ctx.vert e.segid e.vto with edgesIn := (ctx.vert e.segid e.vto).edgesIn.erase e }
      else ctx.vert s v :=
  vert_modVert ctx e.segid s e.vto v fun u => { u with edgesIn := u.edgesIn.erase e }

theorem vert_gddEdgeUnlink (s : Int) (v : Nat) : (ctx.gddEdgeUnlink e).vert s v=
      ⟨if e.segid=s ∧ e.vto=v then (ctx.vert s v).edgesIn.erase e else (ctx.vert s v).edgesIn,
        if e.segid=s ∧ e.vfrom=v then (ctx.vert s v).edgesOut.erase e
        else (ctx.vert s v).edgesOut⟩ := by
  rw [gddEdgeUnlink,vert_gddEdgeUnlinkTo,vert_gddEdgeUnlinkFrom,vert_gddEdgeUnlinkFrom]
  apply GddVert.ext <;> grind

theorem globals_gddEdgeUnlink (v : Nat) :
    ((ctx.gddEdgeUnlink e).globals v).indeg= (ctx.globals v).indeg-(if e.vto=v then 1 else 0) ∧
    ((ctx.gddEdgeUnlink e).globals v).outdeg=
      (ctx.globals v).outdeg-(if e.vfrom=v then 1 else 0) := by
  simp only [gddEdgeUnlink,gddEdgeUnlinkTo,gddEdgeUnlinkFrom,modVert,modGlobal,update_apply]
  grind

theorem vert_gddEdgeLink (s : Int) (v : Nat) : (ctx.gddEdgeLink e).vert s v=
      ⟨(ctx.vert s v).edgesIn ++ (if e.segid=s ∧ e.vto=v then [e] else []),
        (ctx.vert s v).edgesOut ++ (if e.segid=s ∧ e.vfrom=v then [e] else [])⟩ := by
  have hout (t : Int) (u : Nat) := vert_modVert ctx e.segid t e.vfrom u
    fun u => { u with edgesOut := u.edgesOut ++ [e] }
  have hin := vert_modVert
    (ctx.modVert e.segid e.vfrom fun u => { u with edgesOut := u.edgesOut ++ [e] })
    e.segid s e.vto v fun u => { u with edgesIn := u.edgesIn ++ [e] }
  rw [hout,hout] at hin
  refine Eq.trans hin ?_
  apply GddVert.ext <;> grind

theorem globals_gddEdgeLink (v : Nat) :
    ((ctx.gddEdgeLink e).globals v).indeg= (ctx.globals v).indeg+(if e.vto=v then 1 else 0) ∧
    ((ctx.gddEdgeLink e).globals v).outdeg=
      (ctx.globals v).outdeg+(if e.vfrom=v then 1 else 0) := by
  simp only [gddEdgeLink,modVert,modGlobal,update_apply]
  grind

end GddCtx

/-- The context holds exactly the edges `L`, listed in the order they were linked: the lists of
every vert and all degree counters are those of `L`. -/
structure Linked (ctx : GddCtx) (L : List GddEdge) : Prop where
  nodup : L.Nodup
  refs : ∀ e∈L, e.ref<ctx.nextRef
  edgesIn : ∀ s v, (ctx.vert s v).edgesIn=L.filter fun e => e.segid=s ∧ e.vto=v
  edgesOut : ∀ s v, (ctx.vert s v).edgesOut=L.filter fun e => e.segid=s ∧ e.vfrom=v
  indeg : ∀ v, (ctx.globals v).indeg=L.countP (·.vto=v)
  outdeg : ∀ v, (ctx.globals v).outdeg=L.countP (·.vfrom=v)
  topstat : ctx.topstat=⟨L.length,L.length⟩
  graph : ∀ e∈L, e.segid∈ctx.graphs
  vfrom : ∀ e∈L, e.vfrom∈ctx.verts e.segid
  vto : ∀ e∈L, e.vto∈ctx.verts e.segid

theorem filter_erase_of_nodup {L : List GddEdge} (hn : L.Nodup) (p : GddEdge → Bool) (e : GddEdge) :
    (L.erase e).filter p=if p e then (L.filter p).erase e else L.filter p := by
  rw [hn.erase_eq_filter,filter_filter]
  split_ifs with hp
  · rw [(hn.filter p).erase_eq_filter,filter_filter]
    simp only [Bool.and_comm]
  · apply filter_congr
    intro d _
    by_cases hd : d=e <;> simp_all

theorem countP_erase_of_mem {L : List GddEdge} (p : GddEdge → Bool) (he : e∈L) :
    ((L.erase e).countP p : Int)=L.countP p-(if p e then 1 else 0) := by
  have h := (perm_cons_erase he).countP_eq p
  rw [h,countP_cons]
  split_ifs <;> simp

namespace Linked

variable {L : List GddEdge}

section

variable (h : Linked ctx L)
include h

/-- Unlinking an edge keeps the degrees in step with the list of edges. -/
theorem unlink (he : e∈L) : Linked (ctx.gddEdgeUnlink e) (L.erase e) := by
  constructor
  case nodup => exact h.nodup.erase e
  case refs => exact fun d hd => h.refs d (mem_of_mem_erase hd)
  case edgesIn =>
    intro s v
    rw [vert_gddEdgeUnlink,h.edgesIn,filter_erase_of_nodup h.nodup]
    simp only [decide_eq_true_eq]
  case edgesOut =>
    intro s v
    rw [vert_gddEdgeUnlink,h.edgesOut,filter_erase_of_nodup h.nodup]
    simp only [decide_eq_true_eq]
  case indeg =>
    intro v
    rw [(globals_gddEdgeUnlink ctx e v).1,h.indeg,countP_erase_of_mem _ he]
    simp only [decide_eq_true_eq]
  case outdeg =>
    intro v
    rw [(globals_gddEdgeUnlink ctx e v).2,h.outdeg,countP_erase_of_mem _ he]
    simp only [decide_eq_true_eq]
  case topstat =>
    have hlen := length_erase_of_mem he
    have hpos := length_pos_of_mem he
    have htop : (ctx.gddEdgeUnlink e).topstat=⟨ctx.topstat.indeg-1,ctx.topstat.outdeg-1⟩ := rfl
    rw [htop,h.topstat,hlen]
    simp only [GddStat.mk.injEq,and_self]
    omega
  case graph => exact fun d hd => h.graph d (mem_of_mem_erase hd)
  case vfrom => exact fun d hd => h.vfrom d (mem_of_mem_erase hd)
  case vto => exact fun d hd => h.vto d (mem_of_mem_erase hd)

theorem unlinkList (hes : es.Nodup) (hsub : es⊆L) :
    Linked (es.foldl gddEdgeUnlink ctx) (L.diff es) := by
  induction es generalizing ctx L with
  | nil => simpa using h
  | cons e es ih =>
    simp only [foldl_cons,diff_cons]
    have hmem := hsub mem_cons_self
    apply ih (h.unlink hmem) (nodup_cons.mp hes).2
    intro d hd
    have hne : d≠e := fun heq => (nodup_cons.mp hes).1 (heq ▸ hd)
    exact (mem_erase_of_ne hne).mpr (hsub (mem_cons_of_mem e hd))

theorem getGraph (s : Int) : Linked (ctx.gddCtxGetGraph s) L ∧ s∈(ctx.gddCtxGetGraph s).graphs := by
  unfold gddCtxGetGraph
  split_ifs with hs
  · exact ⟨h,hs⟩
  · have hg : ∀ e∈L, e.segid∈ctx.graphs ++ [s] := fun e he => mem_append_left _ (h.graph e he)
    exact ⟨{ h with graph := hg },by simp⟩

theorem vert_eq_nil (hv : v∉ctx.verts s) : ctx.vert s v=⟨[],[]⟩ := by
  apply GddVert.ext
  · rw [h.edgesIn,filter_eq_nil_iff]
    intro e he hc
    obtain ⟨rfl,rfl⟩ := of_decide_eq_true hc
    exact hv (h.vto e he)
  · rw [h.edgesOut,filter_eq_nil_iff]
    intro e he hc
    obtain ⟨rfl,rfl⟩ := of_decide_eq_true hc
    exact hv (h.vfrom e he)

theorem getVert (s : Int) (v : Nat) :
    Linked (ctx.gddGraphGetVert s v) L ∧ v∈(ctx.gddGraphGetVert s v).verts s ∧
    (∀ t u, u∈ctx.verts t → u∈(ctx.gddGraphGetVert s v).verts t) ∧
    (ctx.gddGraphGetVert s v).graphs=ctx.graphs ∧
    (ctx.gddGraphGetVert s v).nextRef=ctx.nextRef := by
  unfold gddGraphGetVert
  split_ifs with hv
  · exact ⟨h,hv,fun _ _ hu => hu,rfl,rfl⟩
  · have hmono : ∀ t u, u∈ctx.verts t → u∈update ctx.verts s (ctx.verts s ++ [v]) t := by
      intro t u hu
      by_cases ht : t=s
      · subst ht
        simp [hu]
      · simpa [ht] using hu
    have hnil := h.vert_eq_nil hv
    have hvert : ∀ t u, (({ ctx with verts := update ctx.verts s (ctx.verts s ++ [v]) }
        : GddCtx).modVert s v fun _ => ⟨[],[]⟩).vert t u=ctx.vert t u := by
      intro t u
      rw [vert_modVert]
      split_ifs with hc
      · obtain ⟨rfl,rfl⟩ := hc
        exact hnil.symm
      · rfl
    refine ⟨?_,by simp [modVert],hmono,rfl,rfl⟩
    exact { h with
      edgesIn := fun t u => by rw [hvert,h.edgesIn]
      edgesOut := fun t u => by rw [hvert,h.edgesOut]
      vfrom := fun e he => hmono _ _ (h.vfrom e he)
      vto := fun e he => hmono _ _ (h.vto e he) }

theorem link (hnew : e∉L) (href : e.ref<ctx.nextRef)
    (hg : e.segid∈ctx.graphs) (hf : e.vfrom∈ctx.verts e.segid) (ht : e.vto∈ctx.verts e.segid) :
    Linked (ctx.gddEdgeLink e) (L ++ [e]) := by
  have all {P : GddEdge → Prop} (hL : ∀ d∈L, P d) (he : P e) : ∀ d∈L ++ [e], P d := by
    intro d hd
    rcases mem_append.mp hd with hd | hd
    · exact hL d hd
    · exact mem_singleton.mp hd ▸ he
  constructor
  case nodup => exact nodup_append_comm.mp (nodup_cons.mpr ⟨hnew,h.nodup⟩)
  case refs => exact all h.refs href
  case edgesIn =>
    intro s v
    rw [vert_gddEdgeLink,h.edgesIn,filter_append]
    simp [filter_cons]
  case edgesOut =>
    intro s v
    rw [vert_gddEdgeLink,h.edgesOut,filter_append]
    simp [filter_cons]
  case indeg =>
    intro v
    rw [(globals_gddEdgeLink ctx e v).1,h.indeg,countP_append]
    simp [countP_cons]
  case outdeg =>
    intro v
    rw [(globals_gddEdgeLink ctx e v).2,h.outdeg,countP_append]
    simp [countP_cons]
  case topstat =>
    have htop : (ctx.gddEdgeLink e).topstat=⟨ctx.topstat.indeg+1,ctx.topstat.outdeg+1⟩ := rfl
    rw [htop,h.topstat]
    simp
  case graph => exact all h.graph hg
  case vfrom => exact all h.vfrom hf
  case vto => exact all h.vto ht

/-- An added edge is at the end of the list. -/
theorem addEdge (w : WaitEdge) :
    Linked (ctx.gddCtxAddEdge w) (L ++ [⟨ctx.nextRef,w.segid,w.waiter,w.holder,w.solid⟩]) := by
  have h0 : Linked { ctx with nextRef := ctx.nextRef+1 } L :=
    { h with refs := fun e he => Nat.lt_succ_of_lt (h.refs e he) }
  obtain ⟨h1,hg⟩ := h0.getGraph w.segid
  obtain ⟨h2,hf,_,hg2,hn2⟩ := h1.getVert w.segid w.waiter
  obtain ⟨h3,ht,hmono,hg3,hn3⟩ := h2.getVert w.segid w.holder
  have hn1 : ({ ctx with nextRef := ctx.nextRef+1 }.gddCtxGetGraph w.segid).nextRef=
      ctx.nextRef+1 := by
    unfold gddCtxGetGraph
    split_ifs <;> rfl
  apply h3.link
  · intro hmem
    exact Nat.lt_irrefl _ (h.refs _ hmem)
  · rw [hn3,hn2,hn1]
    exact Nat.lt_succ_self _
  · rw [hg3,hg2]
    exact hg
  · exact hmono _ _ hf
  · exact ht

end

theorem new : Linked gddCtxNew [] := by constructor <;> simp [gddCtxNew]

variable (h : Linked ctx L)
include h

theorem addEdges (ws : List WaitEdge) :
    ∃ M, Linked (ctx.addEdges ws) M ∧ M.map wait=L.map wait ++ ws := by
  induction ws generalizing ctx L with
  | nil => exact ⟨L,h,by simp⟩
  | cons w ws ih =>
    obtain ⟨M,hM,hmap⟩ := ih (h.addEdge w)
    refine ⟨M,hM,?_⟩
    rw [hmap]
    simp [wait]

theorem mem_edges (e : GddEdge) : e∈ctx.edges ↔ e∈L := by
  simp only [edges,mem_flatMap,h.edgesOut,mem_filter,decide_eq_true_eq]
  constructor
  · rintro ⟨s,_,v,_,he,_⟩
    exact he
  · intro he
    exact ⟨e.segid,h.graph e he,e.vfrom,h.vfrom e he,he,rfl,rfl⟩

theorem mem_waits (w : WaitEdge) : w∈ctx.waits ↔ w∈L.map wait := by
  simp only [waits,mem_map,h.mem_edges]

end Linked

end WarehousePG.Gdd
