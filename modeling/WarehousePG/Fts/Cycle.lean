import WarehousePG.Fts.Configuration

namespace WarehousePG.Fts

open Framework SegmentConfig FtsSegmentInfo List Option Prober

variable {rows : List SegmentConfig} {q r r' : SegmentConfig}

namespace Written

section

variable (h : Written rows p m rows') (hw : WellFormed rows)
include h hw

theorem wellFormed : WellFormed rows' := by
  cases h with
  | nothing => exact hw
  | kept p' m' hrows hpid hmid hseg hgood =>
    exact hw.replace hrows hpid hmid hgood hseg (.inl ⟨rfl,rfl⟩)
  | exchanged p' m' hrows hpid hmid hseg hgood =>
    exact hw.replace hrows hpid hmid hgood hseg (.inr ⟨rfl,rfl⟩)

theorem other (hot : PairRows rows q n) (hne : q.segindex≠p.segindex) : PairRows rows' q n := by
  cases h with
  | nothing => exact hot
  | kept p' m' hrows hpid hmid hseg hgood =>
    exact hrows.replace_other hw hseg (hgood.content.trans hseg) hot hne
  | exchanged p' m' hrows hpid hmid hseg hgood =>
    exact hrows.replace_other hw (hgood.content.trans hseg) hseg hot hne

theorem roles (hr : r∈rows) (hr' : r'∈rows') (hdbid : r'.dbid=r.dbid) (hrole : r'.role≠r.role) :
    PairRows rows p m ∧ p.inSync ∧ (r=p ∨ r=m) := by
  cases h with
  | nothing => exact absurd (congrArg role (hw.eq_of_dbid hr' hr hdbid)) hrole
  | kept p' m' hrows hpid hmid hseg hgood =>
    exfalso
    apply hrole
    rcases hrows.mem_replaceRows hw hr' with rfl | rfl | ⟨hold,-⟩
    · have hsame := hw.eq_of_dbid hr hrows.primaryMem (hdbid.symm.trans hpid)
      rw [hsame,hgood.primaryRole,hrows.primaryRole]
    · have hsame := hw.eq_of_dbid hr hrows.mirrorMem (hdbid.symm.trans hmid)
      rw [hsame,hgood.mirrorRole,hrows.mirrorRole]
    · rw [hw.eq_of_dbid hold hr hdbid]
  | exchanged p' m' hrows hpid hmid hseg hgood hsync =>
    refine ⟨hrows,hsync,?_⟩
    rcases hrows.mem_replaceRows hw hr' with rfl | rfl | ⟨hold,-⟩
    · exact .inl (hw.eq_of_dbid hr hrows.primaryMem (hdbid.symm.trans hpid))
    · exact .inr (hw.eq_of_dbid hr hrows.mirrorMem (hdbid.symm.trans hmid))
    · exact absurd (congrArg role (hw.eq_of_dbid hold hr hdbid)) hrole

theorem stateOk (hg : StateOk rows g) (hne : g.primary.segindex≠p.segindex) : StateOk rows' g := by
  have hpair : PairRows rows g.primary g.mirror → PairRows rows' g.primary g.mirror :=
    fun hrows => h.other hw hrows hne
  have hcom : ∀ C, Committed rows g C → Committed rows' g C := by
    rintro C ⟨q,n,hrows,hpid,hmid,hseg,hC⟩
    exact ⟨q,n,h.other hw hrows (by rw [hseg]; exact hne),hpid,hmid,hseg,hC⟩
  rw [StateOk] at hg ⊢
  cases hst : g.state <;> rw [hst] at hg <;> dsimp only at hg ⊢
  case probeSegment | probeRetryWait | probeFailed | probeSuccess => exact ⟨hpair hg.1,hg.2⟩
  all_goals exact hcom _ hg

end

end Written

def MessageOk (rows : List SegmentConfig) (msg : FtsMessage) : Prop :=
  (msg.state=.promoteSegment → ∃ r∈rows, r.dbid=msg.dbid ∧ r.role=.primary) ∧
  (msg.state=.syncrepOffSegment →
    ∃ p m, PairRows rows p m ∧ p.dbid=msg.dbid ∧ m.alive=false ∧ m.inSync=false)

structure ProberInv (s : Prober) : Prop where
  wellFormed : WellFormed s.catalog
  distinct : (s.pairs.map (·.primary.segindex)).Nodup
  states : ∀ f∈s.pairs, StateOk s.catalog f
  recorded : ∀ f∈s.pairs, f.primary∈s.cdbs ∧ f.mirror∈s.cdbs
  quiet : s.phase≠.receive → s.messages=[]
  sent : ∀ msg∈s.messages, MessageOk s.catalog msg

theorem WellFormed.pairRows (hw : WellFormed rows) (hp : p∈rows) (hm : m∈rows)
    (hrole : p.role=.primary) (hseg : m.segindex=p.segindex) (hne : m.dbid≠p.dbid) :
    PairRows rows p m := by
  have hmir : HasMirror rows p.segindex := ⟨p,hp,rfl,.inr ⟨m,hm,hseg,hne⟩⟩
  obtain ⟨q,n,hrows,hsegq⟩ := hw.pairs p.segindex hmir
  have hpq : p=q := by
    obtain h | h := hrows.only p hp hsegq.symm
    · exact h
    · have hn := hrows.mirrorRole
      rw [← h,hrole] at hn
      cases hn
  have hmn : m=n := by
    obtain h | h := hrows.only m hm (hseg.trans hsegq.symm)
    · exact absurd (by rw [h,hpq]) hne
    · exact h
  rw [hpq,hmn]
  exact hrows

variable {f : FtsSegmentInfo}

theorem mem_ftsWalRepInitProbeContext (hw : WellFormed rows)
    (hf : f∈ftsWalRepInitProbeContext rows) :
    PairRows rows f.primary f.mirror ∧ f={ primary := f.primary, mirror := f.mirror } := by
  obtain ⟨p,hp,hfound⟩ := mem_filterMap.mp hf
  obtain ⟨hrole,m,hm,rfl⟩ := of_guard_map hfound
  have hmem := mem_of_find?_eq_some hm
  have hcond := find?_some hm
  simp only [decide_eq_true_eq] at hcond
  exact ⟨hw.pairRows hp hmem hrole hcond.1 hcond.2,rfl⟩

/-- Each content has one pair. -/
theorem ftsWalRepInitProbeContext_distinct (hw : WellFormed rows) :
    ((ftsWalRepInitProbeContext rows).map (·.primary.segindex)).Nodup := by
  have hrows : rows.Pairwise fun a b => a.dbid≠b.dbid := pairwise_map.mp hw.dbids
  rw [List.Nodup,pairwise_map]
  apply pairwise_filterMap.mpr
  refine hrows.imp_of_mem ?_
  intro a b ha hb hne f hf g hg heq
  have hfirst : ∀ {c : SegmentConfig} {k : FtsSegmentInfo}, c∈rows →
      (if c.role=.primary then
        (ftsGetPeerSegment rows c.segindex c.dbid).map fun m =>
          ({ primary := c, mirror := m } : FtsSegmentInfo) else none)=some k →
      k.primary=c ∧ PairRows rows c k.mirror := by
    intro c k hc hk
    obtain ⟨hrole,m,hm,rfl⟩ := of_guard_map hk
    have hcond := find?_some hm
    simp only [decide_eq_true_eq] at hcond
    exact ⟨rfl,hw.pairRows hc (mem_of_find?_eq_some hm) hrole hcond.1 hcond.2⟩
  obtain ⟨hfa,hpa⟩ := hfirst ha hf
  obtain ⟨hgb,hpb⟩ := hfirst hb hg
  rw [hfa,hgb] at heq
  -- The second row would be the mirror of the first.
  obtain h | h := hpa.only b hb heq.symm
  · exact hne (by rw [h])
  · have hrole := hpa.mirrorRole
    rw [← h,hpb.primaryRole] at hrole
    cases hrole

theorem forall₂_mapIdx {α β : Type*} {R : α → β → Prop} (l : List α) (g : Nat → α → β)
    (h : ∀ k, ∀ a, R a (g k a)) : List.Forall₂ R l (l.mapIdx g) := by
  induction l generalizing g with
  | nil => exact List.Forall₂.nil
  | cons a l ih =>
    rw [mapIdx_cons]
    exact List.Forall₂.cons (h 0 a) (ih _ fun k => h (k+1))

theorem exists_of_forall₂ {α β : Type*} {R : α → β → Prop} {l : List α} {l' : List β} {b : β}
    (h : List.Forall₂ R l l') (hb : b∈l') : ∃ a∈l, R a b := by
  induction h with
  | nil => cases hb
  | cons hab _ ih =>
    obtain heq | hmem := mem_cons.mp hb
    · exact ⟨_,mem_cons_self,heq ▸ hab⟩
    · obtain ⟨a,ha,hR⟩ := ih hmem
      exact ⟨a,mem_cons_of_mem _ ha,hR⟩

variable {k : Nat}

theorem set_of_getElem? {α : Type*} {l : List α} {a : α} (h : l[k]?=some a) : l.set k a=l := by
  obtain ⟨hlt,rfl⟩ := List.getElem?_eq_some_iff.mp h
  exact List.set_getElem_self hlt

theorem getElem?_inj_of_nodup {α : Type*} {l : List α} {a : α} {i j : Nat} (h : l.Nodup)
    (hi : l[i]?=some a) (hj : l[j]?=some a) : i=j := by
  have hne := List.nodup_iff_getElem?_ne_getElem?.mp h
  have hlen := (List.getElem?_eq_some_iff.mp hi).1
  have hlen' := (List.getElem?_eq_some_iff.mp hj).1
  rcases Nat.lt_trichotomy i j with hlt | heq | hlt
  · exact absurd (hi.trans hj.symm) (hne i j hlt hlen')
  · exact heq
  · exact absurd (hj.trans hi.symm) (hne j i hlt hlen)

variable {msg : FtsMessage}

theorem FtsSegmentInfo.send_message {env : PairEnv}
    (h : (f.send env).2=some msg) : msg.state=f.state ∧ msg.dbid=f.primary.dbid := by
  rw [send] at h
  cases hconn : f.conn with
  | none => simp [hconn] at h
  | some c =>
    rw [hconn] at h
    dsimp only at h
    split_ifs at h
    cases h
    exact ⟨rfl,rfl⟩

theorem StateOk.message (h : StateOk rows f)
    (hst : msg.state=f.state) (hdbid : msg.dbid=f.primary.dbid) : MessageOk rows msg := by
  constructor
  · intro hprom
    rw [StateOk,← hst,hprom] at h
    obtain ⟨p,m,hrows,hpid,-⟩ := h
    exact ⟨p,hrows.primaryMem,hpid.trans hdbid.symm,hrows.primaryRole⟩
  · intro hoff
    rw [StateOk,← hst,hoff] at h
    obtain ⟨p,m,hrows,hpid,-,-,hdown⟩ := h
    exact ⟨p,m,hrows,hpid.trans hdbid.symm,hdown⟩

variable {a : Action}

/-- Only the response phase changes the catalog. -/
theorem Prober.catalog_changes {s : Prober} (h : s.step cfg a=some t) (hne : t.catalog≠s.catalog) :
    ∃ (k : Nat) (f : FtsSegmentInfo),
      s.pairs[k]?=some f ∧ t.catalog=(f.processResponse s.catalog).2 := by
  cases a with
  | start =>
    cases hph : s.phase <;> simp only [step,hph,reduceCtorEq] at h
    cases h
    exact absurd rfl hne
  | abort =>
    cases h
    exact absurd rfl hne
  | advance env now =>
    cases hph : s.phase with
    | idle => simp [step,hph] at h
    | connect =>
      simp only [step,hph] at h
      split_ifs at h <;> obtain rfl := some.inj h <;> exact absurd rfl hne
    | respond k =>
      simp only [step,hph] at h
      cases hf : s.pairs[k]? with
      | none =>
        rw [hf] at h
        cases h
        exact absurd rfl hne
      | some f =>
        rw [hf] at h
        cases h
        exact ⟨k,f,hf,rfl⟩
    | _ =>
      simp only [step,hph] at h
      cases h
      exact absurd rfl hne

namespace ProberInv

variable {s t : Prober} {cfg : Settings} {env : Nat → PairEnv} {now : Int}

theorem keep (h : ProberInv s) {pairs : List FtsSegmentInfo} {messages : List FtsMessage}
    {phase : Phase} (hpairs : List.Forall₂ (Keeps s.catalog) s.pairs pairs)
    (hqt : phase≠.receive → messages=[]) (hsent : ∀ msg∈messages, MessageOk s.catalog msg) :
    ProberInv { s with pairs := pairs, phase := phase, messages := messages } := by
  have hback : ∀ f'∈pairs, ∃ f∈s.pairs, Keeps s.catalog f f' := by
    intro f' hf'
    exact exists_of_forall₂ hpairs hf'
  have hsegs : pairs.map (·.primary.segindex)=s.pairs.map (·.primary.segindex) := by
    have heq : List.Forall₂ (·=·) (s.pairs.map (·.primary.segindex))
        (pairs.map (·.primary.segindex)) := by
      rw [forall₂_map_left_iff,forall₂_map_right_iff]
      exact List.Forall₂.imp (fun f f' hk => by rw [hk.primary]) hpairs
    rw [forall₂_eq_eq_eq] at heq
    exact heq.symm
  refine { h with
    distinct := by rw [hsegs]; exact h.distinct
    states := fun f' hf' => ?_
    recorded := fun f' hf' => ?_
    quiet := hqt
    sent := hsent }
  · obtain ⟨f,hf,hk⟩ := hback f' hf'
    exact hk.state (h.states f hf)
  · obtain ⟨f,hf,hk⟩ := hback f' hf'
    rw [hk.primary,hk.mirror]
    exact h.recorded f hf

theorem start (hw : WellFormed rows) :
    ProberInv { catalog := rows, cdbs := rows, pairs := ftsWalRepInitProbeContext rows,
                phase := .connect, messages := [] } where
  wellFormed := hw
  distinct := ftsWalRepInitProbeContext_distinct hw
  states := fun f hf => by
    obtain ⟨hrows,hinit⟩ := mem_ftsWalRepInitProbeContext hw hf
    rw [hinit]
    exact ⟨hrows,rfl⟩
  recorded := fun f hf => by
    have hrows := (mem_ftsWalRepInitProbeContext hw hf).1
    exact ⟨hrows.primaryMem,hrows.mirrorMem⟩
  quiet := fun _ => rfl
  sent := fun msg hmsg => nomatch hmsg

variable (h : ProberInv s)
include h

theorem respond (hf : s.pairs[k]?=some f)
    (hqt : s.messages=[]) (phase : Phase) : ProberInv { s with
      pairs := s.pairs.set k (f.processResponse s.catalog).1
      catalog := (f.processResponse s.catalog).2
      phase := phase } := by
  have hmem : f∈s.pairs := mem_iff_getElem?.mpr ⟨k,hf⟩
  have hst := h.states f hmem
  obtain ⟨hwrit,hok⟩ := processResponse_ok h.wellFormed hst
  obtain ⟨hseg,hrefs⟩ := processResponse_refs hst
  have hsegs : (s.pairs.set k (f.processResponse s.catalog).1).map (·.primary.segindex)
      =s.pairs.map (·.primary.segindex) := by
    rw [map_set,hseg]
    exact set_of_getElem? (by simp [hf])
  -- The other pairs have other contents.
  have hot : ∀ j g, j≠k → s.pairs[j]?=some g → g.primary.segindex≠f.primary.segindex := by
    intro j g hne hg heq
    apply hne
    have hj : (s.pairs.map (·.primary.segindex))[j]?=some g.primary.segindex := by simp [hg]
    have hk : (s.pairs.map (·.primary.segindex))[k]?=some g.primary.segindex := by simp [hf,heq]
    exact getElem?_inj_of_nodup h.distinct hj hk
  have hcas : ∀ g∈s.pairs.set k (f.processResponse s.catalog).1,
      g=(f.processResponse s.catalog).1 ∨
        (g∈s.pairs ∧ g.primary.segindex≠f.primary.segindex) := by
    intro g hg
    obtain ⟨j,hj⟩ := mem_iff_getElem?.mp hg
    rw [getElem?_set] at hj
    split_ifs at hj with heq
    · exact .inl (some.inj hj).symm
    · exact .inr ⟨mem_iff_getElem?.mpr ⟨j,hj⟩,hot j g (Ne.symm heq) hj⟩
  refine {
    wellFormed := hwrit.wellFormed h.wellFormed
    distinct := by rw [hsegs]; exact h.distinct
    states := fun g hg => ?_
    recorded := fun g hg => ?_
    quiet := fun _ => hqt
    sent := fun msg hmsg => absurd hmsg (by simp [hqt]) }
  · obtain heq | hold := hcas g hg
    · rw [heq]; exact hok
    · exact hwrit.stateOk h.wellFormed (h.states g hold.1) hold.2
  · obtain heq | hold := hcas g hg
    · obtain ⟨hp,hm⟩ := h.recorded f hmem
      rw [heq]
      obtain hkeep | hswap := hrefs
      · rw [hkeep.1,hkeep.2]; exact ⟨hp,hm⟩
      · rw [hswap.1,hswap.2]; exact ⟨hm,hp⟩
    · exact h.recorded g hold.1

/-- Every step of the prober keeps its invariant. -/
theorem step (ha : a.Honest) (hstep : s.step cfg a=some t) : ProberInv t := by
  cases a with
  | start =>
    cases hph : s.phase <;> simp only [step,hph,reduceCtorEq] at hstep
    cases hstep
    exact start h.wellFormed
  | abort =>
    cases hstep
    exact ⟨h.wellFormed,nodup_nil,by simp,by simp,fun _ => rfl,by simp⟩
  | advance env now =>
    have hnone : ∀ msg∈([] : List FtsMessage), MessageOk s.catalog msg := by simp
    have hsame : List.Forall₂ (Keeps s.catalog) s.pairs s.pairs :=
      forall₂_same.mpr fun f _ => ⟨rfl,rfl,fun hf => hf⟩
    cases hph : s.phase with
    | idle => simp [step,hph] at hstep
    | connect =>
      have hqt := h.quiet (by simp [hph])
      simp only [step,hph] at hstep
      split_ifs at hstep
      · cases hstep
        exact h.keep hsame (fun _ => rfl) hnone
      · cases hstep
        apply h.keep (forall₂_mapIdx _ _ fun k f => connect_keeps)
        · exact fun _ => hqt
        · exact h.sent
    | poll =>
      have hqt := h.quiet (by simp [hph])
      simp only [step,hph] at hstep
      cases hstep
      apply h.keep (forall₂_mapIdx _ _ fun k f => poll_keeps)
      · exact fun _ => hqt
      · exact h.sent
    | send =>
      simp only [step,hph] at hstep
      cases hstep
      apply h.keep
      · rw [forall₂_map_right_iff]
        exact forall₂_mapIdx _ _ fun k f => send_keeps
      · exact absurd rfl
      · intro msg hmsg
        obtain ⟨x,hx,hsnd⟩ := mem_filterMap.mp hmsg
        obtain ⟨f,hf,k,hk⟩ := exists_of_forall₂
          (forall₂_mapIdx (R := fun f x => ∃ k, x=send f (env k)) s.pairs _
            fun k f => ⟨k,rfl⟩) hx
        rw [hk] at hsnd
        obtain ⟨hst,hdbid⟩ := send_message hsnd
        exact (h.states f hf).message hst hdbid
    | receive =>
      simp only [step,hph] at hstep
      cases hstep
      apply h.keep (forall₂_mapIdx _ _ fun k f => receive_keeps (ha k))
      · exact fun _ => rfl
      · exact hnone
    | retry =>
      have hqt := h.quiet (by simp [hph])
      simp only [step,hph] at hstep
      cases hstep
      refine h.keep ?_ (fun _ => hqt) h.sent
      rw [forall₂_map_right_iff]
      exact forall₂_same.mpr fun f _ => processRetry_keeps
    | respond k =>
      have hqt := h.quiet (by simp [hph])
      simp only [step,hph] at hstep
      cases hf : s.pairs[k]? with
      | none =>
        rw [hf] at hstep
        cases hstep
        exact h.keep hsame (fun _ => hqt) h.sent
      | some f =>
        rw [hf] at hstep
        cases hstep
        exact h.respond hf hqt _

theorem roles (hstep : s.step cfg a=some t)
    (hr : r∈s.catalog) (hr' : r'∈t.catalog) (hdbid : r'.dbid=r.dbid) (hrole : r'.role≠r.role) :
    ∃ q∈s.cdbs, q.dbid=r.dbid ∧ q.inSync := by
  have hunc : t.catalog≠s.catalog := by
    intro heq
    rw [heq] at hr'
    exact hrole (by rw [h.wellFormed.eq_of_dbid hr' hr hdbid])
  obtain ⟨k,f,hf,hcat⟩ := catalog_changes hstep hunc
  have hmem : f∈s.pairs := mem_iff_getElem?.mpr ⟨k,hf⟩
  obtain ⟨hwrit,-⟩ := processResponse_ok h.wellFormed (h.states f hmem)
  rw [hcat] at hr'
  obtain ⟨hrows,hsync,hcase⟩ := hwrit.roles h.wellFormed hr hr' hdbid hrole
  obtain ⟨hprim,hmir⟩ := h.recorded f hmem
  obtain heq | heq := hcase
  · exact ⟨f.primary,hprim,by rw [heq],hsync⟩
  · exact ⟨f.mirror,hmir,by rw [heq],by rw [← hrows.mode]; exact hsync⟩

end ProberInv

/-- The prober keeps the segment configuration well formed: in every state of a run the committed
configuration is well formed and the messages just sent fit it, and a step changes roles only of rows
that the cycle has read as in sync. -/
theorem configuration_kept (cfg : Settings) (rows : List SegmentConfig) (acts : List Action)
    (s : Prober) (hw : WellFormed rows) (hacts : ∀ a∈acts, a.Honest)
    (hrun : run (step cfg) { catalog := rows } acts=some s) : WellFormed s.catalog ∧
    (∀ msg∈s.messages, MessageOk s.catalog msg) ∧
    ∀ a t, s.step cfg a=some t → ∀ r∈s.catalog, ∀ r'∈t.catalog, r'.dbid=r.dbid → r'.role≠r.role →
      ∃ q∈s.cdbs, q.dbid=r.dbid ∧ q.inSync := by
  have hinit : ProberInv { catalog := rows } :=
    ⟨hw,nodup_nil,by simp,by simp,fun _ => rfl,by simp⟩
  have hinv : ProberInv s := by
    refine run_invariant_of_everyStep (C := fun _ a => a.Honest)
      (fun s a t hs ha hstep => hs.step ha hstep) hinit ?_ hrun
    exact everyStep_of_forall_mem fun a ha _ => hacts a ha
  exact ⟨hinv.wellFormed,hinv.sent,fun a t hstep r hr r' hr' => hinv.roles hstep hr hr'⟩

def firstRow : SegmentConfig :=
  { dbid := 2, segindex := 0, role := .primary, alive := true, inSync := true }

def secondRow : SegmentConfig :=
  { dbid := 3, segindex := 0, role := .mirror, alive := true, inSync := true }

def syncedRows : List SegmentConfig := [firstRow,secondRow]

theorem syncedRows_wellFormed : WellFormed syncedRows := by
  have hpair : PairRows syncedRows firstRow secondRow :=
    ⟨⟨rfl,rfl,rfl,rfl,rfl,fun _ => rfl⟩,by decide,by decide,by decide⟩
  refine ⟨by decide,?_⟩
  rintro content ⟨r,hr,rfl,-⟩
  have hseg : ∀ q∈syncedRows, firstRow.segindex=q.segindex := by decide
  exact ⟨firstRow,secondRow,hpair,hseg r hr⟩

/-- The primary cannot be reached without a retry; the roles are exchanged and the new primary gets
its message. -/
def failoverCycle : List Action :=
  let down : Action := .advance (fun _ => { connectStarts := false }) 0
  let up : Action := .advance (fun _ => { revents := { pollOut := true } }) 0
  .start::(replicate 7 down ++ replicate 10 up)

theorem failoverCycle_honest : ∀ a∈failoverCycle, a.Honest := by
  have hdef : ∀ env : PairEnv, env.response=.error → env.Honest := by
    intro env herror result hrst
    rw [herror] at hrst
    cases hrst
  intro a ha
  simp only [failoverCycle,mem_cons,mem_append,mem_replicate] at ha
  rcases ha with rfl | ⟨-,rfl⟩ | ⟨-,rfl⟩
  · trivial
  · exact fun _ => hdef _ rfl
  · exact fun _ => hdef _ rfl

theorem configuration_kept_failover :
    ∃ s, run (step { probeTimeout := 20, probeRetries := 0 }) { catalog := syncedRows }
        failoverCycle=some s ∧ s.messages=[{ state := .promoteSegment, dbid := 3, segindex := 0 }] ∧
      WellFormed s.catalog ∧ ∀ msg∈s.messages, MessageOk s.catalog msg := by
  refine exists_run_of (fun s => s.messages=[{ state := .promoteSegment, dbid := 3, segindex := 0 }])
    (by decide +kernel) ?_
  intro s hrun hmes
  obtain ⟨hw,hsent,-⟩ := configuration_kept _ _ _ s syncedRows_wellFormed failoverCycle_honest hrun
  exact ⟨hmes,hw,hsent⟩

end WarehousePG.Fts
