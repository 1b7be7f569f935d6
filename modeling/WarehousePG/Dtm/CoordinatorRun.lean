import WarehousePG.Dtm.CoordinatorSteps

namespace WarehousePG.Dtm

open Framework Backend Coordinator Record List Nat
open Option (ite_none_right_eq_some map_eq_some_iff)

variable {c : Settings} {s : Coordinator} {gs : List Nat} {next : Nat} {log : Log} {wal : List Record}

section

variable (h : CoordInv c s)
include h

theorem activate_coordInv (hp : p<c.numProcs) (hstd : s.dtmStarted=true)
    (hzero : (s.backends p).gxid=0) (hs : s.log.activate=some log) :
    CoordInv c ({ s with log := log }.setBackend p
      { idle with gxid := s.log.nextGxid, state := .activeDistributed }) := by
  have hinv := activate_inv h.log_inv hs
  have hpos := h.log_inv.next_pos
  have hroom := h.log_inv.room
  have hlast : lastGxid=18446744073709551615 := rfl
  unfold Log.activate at hs
  split_ifs at hs with hc
  cases hs
  have hmod : (s.log.nextGxid+1)%2^64=s.log.nextGxid+1 := mod_eq_of_lt (by omega)
  rw [hmod] at hinv ⊢
  have hnc : ¬ Committed s.log.wal s.log.nextGxid := fun hcom => by
    have := h.committed_lt _ hcom
    omega
  have hlt : ∀ q, (s.backends q).gxid<s.log.nextGxid := by
    intro q
    have hok := h.backend_ok q
    unfold BackendOk at hok
    cases hst : (s.backends q).stage <;> simp only [hst] at hok
    case idle => rw [hok]; exact hpos
    all_goals exact hok.1.2
  refine { h with
    log_inv := hinv, committed_lt := ?_, backend_ok := ?_, distinct := ?_, outside := ?_
    accounted := ?_, busy := ?_, latest_le := h.latest_le.trans (le_succ _)
    startup_latest := fun hph => absurd (hph.symm.trans hc.1) (by decide), shutdown_le := ?_
    ckpt_ok := ?_ }
  · exact fun g hg => (h.committed_lt g hg).trans (lt_succ_self _)
  · intro q
    by_cases hq : q=p
    · subst hq
      rw [setBackend_self]
      simp only [BackendOk,stage]
      exact ⟨⟨by omega,lt_succ_self _⟩,hnc,rfl,fun hst => by cases hst⟩
    · rw [setBackend_ne hq]
      exact (h.backend_ok q).extend (le_refl _) (le_succ _) (fun _ _ => id) id Iff.rfl
  · intro q r hne heq
    by_cases hq : q=p
    · by_cases hr : r=p
      · exact hq.trans hr.symm
      · subst hq
        rw [setBackend_self,setBackend_ne hr] at heq
        have := hlt r
        dsimp only at heq
        omega
    · rw [setBackend_ne hq] at hne heq
      by_cases hr : r=p
      · subst hr
        rw [setBackend_self] at heq
        have := hlt q
        dsimp only at heq
        omega
      · rw [setBackend_ne hr] at heq
        exact h.distinct q r hne heq
  · intro q hq
    rw [setBackend_ne (by omega)]
    exact h.outside q hq
  · intro g hg
    rcases h.accounted g hg with hf | ha | ⟨q,hq,hqg,hst⟩
    · exact .inl hf
    · exact .inr (.inl ha)
    · have hqp : q≠p := by
        intro heq
        subst heq
        rw [(h.backend_ok q).gxid_eq_zero.mp hzero] at hst
        simp at hst
      refine .inr (.inr ⟨q,hq,?_⟩)
      rw [setBackend_ne hqp]
      exact ⟨hqg,hst⟩
  · exact fun _ _ => ⟨hstd,hc.1⟩
  · intro r n gs hm
    obtain ⟨h1,h2⟩ := h.shutdown_le r n gs hm
    exact ⟨h1.trans (le_succ _),h2⟩
  · refine h.ckpt_ok.frame h.log_inv.ckpt_ok rfl rfl (prefix_refl _) ?_ ?_ (le_refl _)
      (fun _ => id) fun _ _ _ => id
    · intro q hst _
      by_cases hq : q=p
      · subst hq
        rw [setBackend_self] at hst
        exact Stage.noConfusion hst
      · rw [setBackend_ne hq] at hst ⊢
        exact ⟨hst,rfl,rfl⟩
    · intro j hj
      by_cases hq : j=p
      · subst hq
        have hok := h.backend_ok j
        have hst := hok.gxid_eq_zero.mp hzero
        unfold BackendOk at hok
        simp only [hst] at hok
        rw [hok] at hj
        exact absurd hj (by decide)
      · rw [setBackend_ne hq]
        exact .inl ⟨rfl,hj⟩

/-- Every step of a backend keeps the coordinator's invariant. -/
theorem backendStep_coordInv (hs : s.backendStep c p a=some t) : CoordInv c t := by
  unfold backendStep at hs
  obtain ⟨hpre,hs⟩ := ite_none_right_eq_some.mp hs
  obtain ⟨-,hp⟩ := hpre
  have hlocal : (localMove s.log (s.backends p) a).map (s.setBackend p)=some t → CoordInv c t := by
    intro hm
    obtain ⟨b',hb',rfl⟩ := map_eq_some_iff.mp hm
    obtain ⟨hok,hmove⟩ := localMove_ok (h.backend_ok p) hb'
    exact localMove_coordInv h hp hok hmove
  cases a with
  | activate =>
    dsimp only at hs
    split_ifs at hs with hc
    obtain ⟨log,hlog,rfl⟩ := map_eq_some_iff.mp hs
    exact activate_coordInv h hp hc.1 hc.2 hlog
  | commitInsert =>
    dsimp only at hs
    split_ifs at hs with hc
    obtain ⟨log,hlog,rfl⟩ := map_eq_some_iff.mp hs
    exact commitInsert_coordInv h hp hc.1 hc.2 hlog
  | forgetInsert =>
    dsimp only at hs
    split_ifs at hs with hc
    obtain ⟨log,hlog,rfl⟩ := map_eq_some_iff.mp hs
    exact forgetInsert_coordInv h hp hc.1 hc.2 hlog
  | endGxact =>
    dsimp only at hs
    obtain ⟨hc,rfl⟩ := of_guard hs
    exact endGxact_coordInv h hp hc
  | onePhase | prepare | prepareOk | commitBegin | commitInserted | commitFlushed
  | notifyCommit | notifyFailed | commitDone | forgetInserted | rollback gangLost | abortFailed =>
    exact hlocal hs

theorem recoveryStep_coordInv (hs : s.recoveryStep a=some t) : CoordInv c t := by
  unfold recoveryStep at hs
  obtain ⟨hpre,hs⟩ := ite_none_right_eq_some.mp hs
  cases a with
  | forget =>
    cases hg : s.committedGxids[s.recovering]? with
    | none => simp [hg] at hs
    | some g =>
      simp only [hg] at hs
      obtain ⟨log,hlog,rfl⟩ := map_eq_some_iff.mp hs
      exact recoveryForget_coordInv h hpre.2 hg hlog
  | again =>
    cases hs
    exact ⟨h.log_inv,h.wal_ok,h.committed_lt,h.backend_ok,h.distinct,h.outside,h.accounted,
      h.array_committed,fun j hj => absurd hj (not_lt_zero j),h.started,h.busy,h.control_ok,
      h.latest_le,h.startup_latest,h.logged_le,h.shutdown_le,h.ckpt_ok⟩
  | done =>
    obtain ⟨hlen,rfl⟩ := of_guard hs
    have hall : ∀ g∈s.committedGxids, Forgotten s.log.wal g := by
      intro g hg
      obtain ⟨j,hj⟩ := mem_iff_getElem?.mp hg
      have hlt := (List.getElem?_eq_some_iff.mp hj).1
      exact h.array_forgotten j (hlen ▸ hlt) g hj
    have hacc : ∀ g, Committed s.log.wal g → Forgotten s.log.wal g ∨ g∈([] : List Nat) ∨
        ∃ p<c.numProcs, (s.backends p).gxid=g ∧
          ((s.backends p).stage=.logging ∨ (s.backends p).stage=.committed) := by
      intro g hg
      rcases h.accounted g hg with hf | ha | hb
      · exact .inl hf
      · exact .inl (hall g ha)
      · exact .inr (.inr hb)
    exact ⟨h.log_inv,h.wal_ok,h.committed_lt,h.backend_ok,h.distinct,h.outside,hacc,
      fun g hg => absurd hg not_mem_nil,fun j hj => absurd hj (not_lt_zero j),
      fun _ => rfl,h.busy,h.control_ok,h.latest_le,h.startup_latest,h.logged_le,h.shutdown_le,
      h.ckpt_ok⟩
  | started =>
    obtain ⟨hnil,rfl⟩ := of_guard hs
    exact ⟨h.log_inv,h.wal_ok,h.committed_lt,h.backend_ok,h.distinct,h.outside,h.accounted,
      h.array_committed,h.array_forgotten,fun _ => hnil,fun p hp => ⟨rfl,(h.busy p hp).2⟩,
      h.control_ok,h.latest_le,h.startup_latest,h.logged_le,h.shutdown_le,h.ckpt_ok⟩

theorem CoordInv.withDtxCkpt (d : DtxCkpt)
    (hd : DtxCkptOk c { s with dtxCkpt := d }) : CoordInv c { s with dtxCkpt := d } :=
  ⟨h.log_inv,h.wal_ok,h.committed_lt,h.backend_ok,h.distinct,h.outside,h.accounted,
    h.array_committed,h.array_forgotten,h.started,h.busy,h.control_ok,h.latest_le,
    h.startup_latest,h.logged_le,h.shutdown_le,hd⟩

end

theorem BackendOk.listed (h : BackendOk wal f n b) (hb : b.includeInCkpt=true) :
    Committed wal b.gxid := by
  unfold BackendOk at h
  cases hst : b.stage <;> simp only [hst] at h
  case idle => rw [h] at hb; cases hb
  case uncommitted => rw [h.2.2.1] at hb; cases hb
  all_goals exact h.2.1.committed

theorem ckptWait_coordInv (h : CoordInv c s) (hck : s.log.ckpt=.sampled sd r n) :
    CoordInv c { s with dtxCkpt := .waiting (s.delaying c) } := by
  apply h.withDtxCkpt
  simp only [DtxCkptOk,hck]
  intro p hp hst _
  have hok := h.backend_ok p
  unfold BackendOk at hok
  simp only [hst] at hok
  have hmem : p∈(range c.numProcs).filter fun p => (s.backends p).delayChkpt :=
    mem_filter.mpr ⟨mem_range.mpr hp,hok.2.2.2.2⟩
  exact mem_map_of_mem hmem

theorem DtxCkptOk.exists_sampled (h : DtxCkptOk c s) (hd : s.dtxCkpt≠.idle) :
    ∃ sd r n, s.log.ckpt=.sampled sd r n := by
  unfold DtxCkptOk at h
  cases hc : s.log.ckpt with
  | idle | begun sd r => exact absurd (by simpa only [hc] using h) hd
  | inserted sd r n gs k =>
    simp only [hc] at h
    exact absurd h.1 hd
  | sampled sd r n => exact ⟨sd,r,n,rfl⟩

/-- Once no commit that was in its critical section at the redo pointer is left there, every
commit before the redo pointer is in the array of the recovery or announced by its backend. -/
theorem ckptCollect_coordInv (h : CoordInv c s) (hd : s.dtxCkpt=.waiting vxids)
    (hwait : ∀ v∈vxids, ¬ ((s.backends v.1).gxid=v.2 ∧ (s.backends v.1).delayChkpt=true)) :
    CoordInv c { s with dtxCkpt := .collecting 0 s.committedGxids } := by
  apply h.withDtxCkpt
  have hck := h.ckpt_ok
  unfold DtxCkptOk at hck ⊢
  obtain ⟨sd,r,n,hc⟩ := h.ckpt_ok.exists_sampled (by simp [hd])
  simp only [hc,hd] at hck ⊢
  refine ⟨h.array_committed,fun g hg => ?_⟩
  rcases h.accounted g hg.mono with hf | ha | ⟨p,hp,hpg,hst⟩
  · exact .inr (.inl hf)
  · exact .inl ha
  · have hok := h.backend_ok p
    unfold BackendOk at hok
    rcases hst with hst | hst
    · simp only [hst] at hok
      obtain ⟨i,hi,hget⟩ := (mem_take_iff_getElem? _ _).mp hg
      have heq : (s.backends p).recptr=i := by
        refine commit_position_unique h.wal_ok hok.2.1 ?_
        rw [hpg]
        exact hget
      have hmem := hck p hp hst (by omega)
      exact absurd ⟨rfl,hok.2.2.2.2⟩ (hwait _ hmem)
    · simp only [hst] at hok
      exact .inr (.inr ⟨p,zero_le _,hp,hpg,hok.2.2.2.1⟩)

theorem ckptScan_coordInv (h : CoordInv c s) (hd : s.dtxCkpt=.collecting next gs) :
    CoordInv c { s with
      dtxCkpt := .collecting (next+1)
        (if (s.backends next).includeInCkpt then gs ++ [(s.backends next).gxid] else gs) } := by
  apply h.withDtxCkpt
  have hck := h.ckpt_ok
  unfold DtxCkptOk at hck ⊢
  obtain ⟨sd,r,n,hc⟩ := h.ckpt_ok.exists_sampled (by simp [hd])
  simp only [hc,hd] at hck ⊢
  obtain ⟨hcom,hcov⟩ := hck
  have hsub : ∀ g∈gs, g∈(if (s.backends next).includeInCkpt
      then gs ++ [(s.backends next).gxid] else gs) := by
    intro g hg
    split_ifs
    · exact mem_append_left _ hg
    · exact hg
  constructor
  · intro g hg
    split_ifs at hg with hinc
    · rcases mem_append.mp hg with hg | hg
      · exact hcom g hg
      · rw [mem_singleton.mp hg]
        exact (h.backend_ok next).listed hinc
    · exact hcom g hg
  · intro g hg
    rcases hcov g hg with hm | hf | ⟨j,hij,hj,hjg,hinc⟩
    · exact .inl (hsub g hm)
    · exact .inr (.inl hf)
    · rcases eq_or_lt_of_le hij with heq | hlt
      · subst heq
        rw [if_pos hinc,hjg]
        exact .inl (mem_append_right _ (mem_singleton_self g))
      · exact .inr (.inr ⟨j,hlt,hj,hjg,hinc⟩)

theorem DtxCkptOk.scanned (h : DtxCkptOk c s) (hck : s.log.ckpt=.sampled sd r n)
    (hd : s.dtxCkpt=.collecting next gs) (hnext : next=c.numProcs) :
    (∀ g∈gs, Committed s.log.wal g) ∧
      ∀ g, Committed (s.log.wal.take r) g → g∈gs ∨ Forgotten s.log.wal g := by
  unfold DtxCkptOk at h
  simp only [hck,hd] at h
  refine ⟨h.1,fun g hg => ?_⟩
  rcases h.2 g hg with hm | hf | ⟨j,hij,hj,-⟩
  · exact .inl hm
  · exact .inr hf
  · omega

section

variable (h : CoordInv c s)
include h

theorem ckptSampleLatest_coordInv (hck : s.log.ckpt=.sampled false r n)
    (hd : s.dtxCkpt=.collecting next gs) (hnext : next=c.numProcs) :
    CoordInv c { s with dtxCkpt := .sampledLatest gs s.latestCompletedGxid } := by
  apply h.withDtxCkpt
  obtain ⟨hcom,hcov⟩ := h.ckpt_ok.scanned hck hd hnext
  have hlog := h.log_inv.ckpt_ok
  simp only [CkptOk,hck] at hlog
  have hphase : s.log.phase≠.shutdown := by
    have hnor : s.log.phase=.normal := by
      by_contra hne
      exact Bool.false_ne_true (hlog.1.mpr hne)
    rw [hnor]
    decide
  simp only [DtxCkptOk,hck]
  exact ⟨trivial,hcom,hcov,le_refl _,h.logged_le,fun r n gs hm => (h.shutdown_le r n gs hm).2 hphase⟩

theorem CoordInv.note (x : Record) (ck : Ckpt) (d : DtxCkpt)
    (hinv : LogInv c.prefetch { s.log with wal := s.log.wal ++ [x], ckpt := ck })
    (hadm : Admissible s.log.wal x) (hcom : ∀ g, x≠.distributedCommit g)
    (hfor : ∀ g, x≠.distributedForget g)
    (hlat : ∀ v, x=.latestCompletedGxid v → v ≤ s.latestCompletedGxid)
    (hsd : ∀ r n gs, x=.checkpoint true r n gs → n ≤ s.log.nextGxid ∧
      (s.log.phase≠.shutdown → n ≤ s.latestCompletedGxid)) (hck : DtxCkptOk c { s with
      log := { s.log with wal := s.log.wal ++ [x], ckpt := ck }, dtxCkpt := d }) :
    CoordInv c { s with
      log := { s.log with wal := s.log.wal ++ [x], ckpt := ck }, dtxCkpt := d } := by
  have hc : ∀ g, Committed (s.log.wal ++ [x]) g ↔ Committed s.log.wal g := fun g => by
    rw [committed_concat]
    exact or_iff_left (hcom g)
  have hf : ∀ g, Forgotten (s.log.wal ++ [x]) g ↔ Forgotten s.log.wal g := fun g => by
    rw [forgotten_concat]
    exact or_iff_left (hfor g)
  constructor
  case log_inv => exact hinv
  case wal_ok => exact h.wal_ok.concat x hadm
  case committed_lt => exact fun g hg => h.committed_lt g ((hc g).mp hg)
  case backend_ok => exact fun p => (h.backend_ok p).concat x (hcom _) (hfor _)
  case distinct => exact h.distinct
  case outside => exact h.outside
  case accounted => exact fun g hg => (h.accounted g ((hc g).mp hg)).imp (hf g).mpr id
  case array_committed => exact fun g hg => (hc g).mpr (h.array_committed g hg)
  case array_forgotten => exact fun j hj g hg => (hf g).mpr (h.array_forgotten j hj g hg)
  case started => exact h.started
  case busy => exact h.busy
  case control_ok =>
    obtain ⟨k,sd,hk,hget⟩ := h.control_ok
    exact ⟨k,sd,hk,getElem?_concat x _ k hget⟩
  case latest_le => exact h.latest_le
  case startup_latest => exact h.startup_latest
  case logged_le =>
    intro v hv
    rcases mem_append.mp hv with hv | hv
    · exact h.logged_le v hv
    · exact hlat v (mem_singleton.mp hv).symm
  case shutdown_le =>
    intro r n gs hm
    rcases mem_append.mp hm with hm | hm
    · exact h.shutdown_le r n gs hm
    · exact hsd r n gs (mem_singleton.mp hm).symm
  case ckpt_ok => exact hck

theorem ckptLogLatest_coordInv (hd : s.dtxCkpt=.sampledLatest gs lc)
    (hs : s.log.insert (.latestCompletedGxid lc)=some log) :
    CoordInv c { s with log := log, dtxCkpt := .loggedLatest gs } := by
  have hinv := insert_inv _ h.log_inv hs
  obtain ⟨-,rfl⟩ := insert_eq hs
  have hck := h.ckpt_ok
  have hlog := h.log_inv.ckpt_ok
  unfold DtxCkptOk at hck
  unfold CkptOk at hlog
  obtain ⟨sd,r,n,hc⟩ := h.ckpt_ok.exists_sampled (by simp [hd])
  simp only [hc,hd] at hck hlog
  obtain ⟨hsd,hcom,hcov,hle,hmax,hshut⟩ := hck
  have hr : r ≤ s.log.wal.length := hlog.2.1
  have hokay : DtxCkptOk c { s with
      log := { s.log with wal := s.log.wal ++ [.latestCompletedGxid lc] },
      dtxCkpt := .loggedLatest gs } := by
    simp only [DtxCkptOk,hc]
    refine ⟨hsd,fun g hg => (committed_concat _ g).mpr (.inl (hcom g hg)),
      s.log.wal.length,lc,hr,?_,fun g hg => ?_⟩
    · rw [getElem?_append_right (le_refl _),Nat.sub_self]
      rfl
    · rw [take_append_of_le_length hr] at hg
      rw [take_append_of_le_length (le_refl _),take_length]
      exact hcov g hg
  refine h.note (.latestCompletedGxid lc) s.log.ckpt (.loggedLatest gs) hinv ⟨hmax,hshut⟩
    (by simp) (by simp) ?_ (by simp) hokay
  rintro v hv
  obtain rfl := latestCompletedGxid.inj hv
  exact hle

theorem ckptInsert_coordInv (hck : s.log.ckpt=.sampled sd r n)
    (hadm : Admissible s.log.wal (.checkpoint sd r n gs)) (hs : s.log.ckptInsert gs=some log) :
    CoordInv c { s with log := log, dtxCkpt := .idle } := by
  have hinv := ckptInsert_inv gs h.log_inv hs
  have hlog := h.log_inv.ckpt_ok
  unfold Log.ckptInsert at hs
  simp only [hck] at hs
  simp only [CkptOk,hck] at hlog
  cases hs
  refine h.note (.checkpoint sd r n gs) (.inserted sd r n gs s.log.wal.length) .idle hinv hadm
    (by simp) (by simp) (by simp) ?_ ?_
  · intro r' n' gs' heq
    obtain ⟨hsd,-,rfl,-⟩ := checkpoint.inj heq
    have hphase := hlog.1.mp hsd
    have hn : s.log.nextGxid=n := by
      rw [← h.log_inv.bound_of_not_normal hphase]
      exact hlog.2.2.1 hsd
    refine ⟨hn.ge,fun hne => ?_⟩
    rw [← hn]
    apply h.startup_latest
    cases hph : s.log.phase with
    | startup => rfl
    | normal => exact absurd hph hphase
    | shutdown => exact absurd hph hne
  · simp only [DtxCkptOk]
    refine ⟨trivial,?_⟩
    rw [getElem?_append_right (le_refl _),Nat.sub_self]
    rfl

theorem ckptAdmissible_shutdown (hck : s.log.ckpt=.sampled true r n)
    (hd : s.dtxCkpt=.collecting next gs) (hnext : next=c.numProcs) :
    Admissible s.log.wal (.checkpoint true r n gs) := by
  obtain ⟨hcom,hcov⟩ := h.ckpt_ok.scanned hck hd hnext
  have hlog := h.log_inv.ckpt_ok
  simp only [CkptOk,hck] at hlog
  refine ⟨hcom,hlog.2.1,hcov,fun g hg => ?_⟩
  have hlt := h.committed_lt g hg
  have hle := nextGxid_le_bound s.log
  have hbn := hlog.2.2.1 trivial
  omega

theorem ckptAdmissible_online (hck : s.log.ckpt=.sampled false r n)
    (hd : s.dtxCkpt=.loggedLatest gs) : Admissible s.log.wal (.checkpoint false r n gs) := by
  have hok := h.ckpt_ok
  simp only [DtxCkptOk,hck,hd] at hok
  exact ⟨hok.2.1,hok.2.2⟩

end

/-- Every step of a checkpoint keeps the coordinator's invariant. -/
theorem ckptStep_coordInv (hp : c.prefetch<2^31) (h : CoordInv c s)
    (hs : s.ckptStep c a=some t) : CoordInv c t := by
  cases a with
  | begin =>
    obtain ⟨log,hlog,rfl⟩ := map_eq_some_iff.mp hs
    exact ckptBegin_coordInv hp h hlog
  | sample =>
    obtain ⟨log,hlog,rfl⟩ := map_eq_some_iff.mp hs
    exact ckptSample_coordInv hp h hlog
  | complete =>
    obtain ⟨log,hlog,rfl⟩ := map_eq_some_iff.mp hs
    exact ckptComplete_coordInv hp h hlog
  | wait =>
    simp only [ckptStep] at hs
    split at hs
    · rename_i sd r n hck hd
      cases hs
      exact ckptWait_coordInv h hck
    · cases hs
  | collect =>
    simp only [ckptStep] at hs
    split at hs
    · rename_i vxids hd
      obtain ⟨hwait,rfl⟩ := of_guard hs
      exact ckptCollect_coordInv h hd hwait
    · cases hs
  | scan =>
    simp only [ckptStep] at hs
    split at hs
    · rename_i next gs hd
      obtain ⟨-,rfl⟩ := of_guard hs
      exact ckptScan_coordInv h hd
    · cases hs
  | sampleLatest =>
    simp only [ckptStep] at hs
    split at hs
    · rename_i r n next gs hck hd
      obtain ⟨hnext,rfl⟩ := of_guard hs
      exact ckptSampleLatest_coordInv h hck hd hnext
    · cases hs
  | logLatest =>
    simp only [ckptStep] at hs
    split at hs
    · rename_i gs lc hd
      obtain ⟨log,hlog,rfl⟩ := map_eq_some_iff.mp hs
      exact ckptLogLatest_coordInv h hd hlog
    · cases hs
  | insert =>
    simp only [ckptStep] at hs
    split at hs
    · rename_i r n next gs hck hd
      obtain ⟨hnext,log,hlog,rfl⟩ := of_guard_map hs
      exact ckptInsert_coordInv h hck (ckptAdmissible_shutdown h hck hd hnext) hlog
    · rename_i r n gs hck hd
      obtain ⟨log,hlog,rfl⟩ := map_eq_some_iff.mp hs
      exact ckptInsert_coordInv h hck (ckptAdmissible_online h hck hd) hlog
    · cases hs

/-- What a checkpoint record at `k` vouches for: the redo pointer is not after it, its list is of
committed transactions, and whatever was committed before the redo pointer is listed or was
already forgotten when the record was written. -/
theorem checkpoint_covers (hok : Grammatical Admissible wal)
    (hk : wal[k]?=some (.checkpoint sd r n gs)) : r≤k ∧ (∀ g∈gs, Committed (wal.take k) g) ∧
      ∀ g, Committed (wal.take r) g → g∈gs ∨ Forgotten (wal.take k) g := by
  have hadm := hok k _ hk
  have hklen := (List.getElem?_eq_some_iff.mp hk).1
  have hlen : (wal.take k).length=k := List.length_take_of_le hklen.le
  cases sd with
  | false =>
    obtain ⟨hcom,i,v,hri,hi,hcov⟩ := hadm
    have hik : i<k := hlen ▸ (List.getElem?_eq_some_iff.mp hi).1
    refine ⟨by omega,hcom,fun g hg => ?_⟩
    have htake : (wal.take k).take r=wal.take r := by rw [List.take_take,min_eq_left (by omega)]
    exact (hcov g (htake.symm ▸ hg)).imp id Forgotten.mono
  | true =>
    obtain ⟨hcom,hr,hcov,-⟩ := hadm
    rw [hlen] at hr
    refine ⟨hr,hcom,fun g hg => hcov g ?_⟩
    rw [List.take_take,min_eq_left hr]
    exact hg

/-- From the checkpoint on, the log accounts for every commit that is not forgotten. -/
theorem rebuilt_accounts (hok : Grammatical Admissible wal) {max : Nat}
    (hk : wal[k]?=some (.checkpoint sd r n gs)) (hkf : k<f)
    (hs : rebuildCommittedGxids max gs ((wal.take f).drop r)=some array) :
    (∀ g∈array, Committed (wal.take f) g) ∧
      ∀ g, Committed (wal.take f) g → Forgotten (wal.take f) g ∨ g∈array := by
  obtain ⟨hrk,hcom,hcov⟩ := checkpoint_covers hok hk
  obtain ⟨-,hsub,hsup⟩ := rebuildCommittedGxids_spec hs
  have hpre : ∀ x, x∈wal.take k → x∈wal.take f := fun x hx =>
    (take_prefix_take_left hkf.le).subset hx
  constructor
  · intro g hg
    rcases hsub g hg with hl | hr
    · exact hpre _ (hcom g hl)
    · exact mem_of_mem_drop hr
  · intro g hg
    by_cases hf : Forgotten (wal.take f) g
    · exact .inl hf
    · have hnot : distributedForget g∉(wal.take f).drop r := fun hm => hf (mem_of_mem_drop hm)
      refine .inr (hsup g ?_ hnot)
      -- the commit record stands before the redo pointer or is replayed
      have hsplit : distributedCommit g∈(wal.take f).take r ++ (wal.take f).drop r := by
        rw [take_append_drop]
        exact hg
      rcases mem_append.mp hsplit with hlo | hhi
      · rw [take_take,min_eq_left (by omega)] at hlo
        rcases hcov g hlo with hl | hfk
        · exact .inl hl
        · exact absurd (hpre _ hfk) hf
      · exact .inr hhi

/-- After a crash the array of committed gxids is rebuilt. -/
theorem restart_coordInv (h : CoordInv c s) (hs : s.restart c=some t) : CoordInv c t := by
  unfold restart at hs
  obtain ⟨array,harray,rfl⟩ := map_eq_some_iff.mp hs
  obtain ⟨k,sd,hkf,hk⟩ := h.control_ok
  obtain ⟨hacom,hacc⟩ := rebuilt_accounts h.wal_ok hk hkf harray
  have hnext : s.log.nextGxid ≤ s.log.restart.nextGxid :=
    (nextGxid_le_bound s.log).trans (bound_le_restart h.log_inv)
  constructor
  case log_inv => exact restart_inv h.log_inv
  case wal_ok => exact h.wal_ok.take _
  case committed_lt => exact fun g hg => (h.committed_lt g hg.mono).trans_le hnext
  case backend_ok => exact fun p => rfl
  case distinct => exact fun p q hne => absurd rfl hne
  case outside => exact fun _ _ => rfl
  case accounted => exact fun g hg => (hacc g hg).imp id .inl
  case array_committed => exact hacom
  case array_forgotten => exact fun j hj => absurd hj (not_lt_zero j)
  case started => exact fun hst => by cases hst
  case busy => exact fun p hne => absurd rfl hne
  case control_ok =>
    refine ⟨k,sd,hkf,?_⟩
    change (s.log.wal.take s.log.flushed)[k]?=_
    rw [getElem?_take_of_lt hkf]
    exact hk
  case latest_le => exact le_refl _
  case startup_latest => exact fun _ => le_refl _
  case logged_le =>
    intro v hv
    exact (h.logged_le v (mem_of_mem_take hv)).trans (h.latest_le.trans hnext)
  case shutdown_le =>
    intro r n gs hm
    have hle := (h.shutdown_le r n gs (mem_of_mem_take hm)).1
    exact ⟨hle.trans hnext,fun _ => hle.trans hnext⟩
  case ckpt_ok => exact rfl

variable (hp : c.prefetch<2^31)
include hp

theorem coordInv_bootstrap : CoordInv c .bootstrap := by
  have hnot : ∀ g, ¬ Committed bootstrap.log.wal g := fun g hg => by
    simp [Committed,bootstrap,Log.bootstrap] at hg
  constructor
  case log_inv => exact logInv_bootstrap hp
  case wal_ok =>
    have hadm : Admissible [] (.checkpoint true 0 1 []) := by simp [Admissible,Committed]
    exact Grammatical.concat grammatical_nil _ hadm
  case committed_lt | accounted => exact fun g hg => absurd hg (hnot g)
  case backend_ok => exact fun p => rfl
  case distinct => exact fun p q hne => absurd rfl hne
  case outside => exact fun _ _ => rfl
  case array_committed => exact fun g hg => absurd hg not_mem_nil
  case array_forgotten => exact fun j hj => absurd hj (not_lt_zero j)
  case started => exact fun hst => by cases hst
  case busy => exact fun p hne => absurd rfl hne
  case control_ok => exact ⟨0,true,Nat.one_pos,rfl⟩
  case latest_le => exact le_refl _
  case startup_latest => exact fun _ => le_refl _
  case logged_le => simp [bootstrap,Log.bootstrap]
  case shutdown_le =>
    intro r n gs hm
    obtain ⟨-,-,rfl,-⟩ := checkpoint.inj (mem_singleton.mp hm)
    exact ⟨le_refl _,fun _ => le_refl _⟩
  case ckpt_ok => exact rfl

theorem step_coordInv (s : Coordinator) (a : CoordinatorAction)
    (t : Coordinator) (h : CoordInv c s) (hs : s.step c a=some t) : CoordInv c t := by
  cases a with
  | backend p a => exact backendStep_coordInv h hs
  | ckpt a => exact ckptStep_coordInv hp h hs
  | recovery a => exact recoveryStep_coordInv h hs
  | restart => exact restart_coordInv h hs
  | bumpAcquire | bumpLimit | bumpInsert | bumpFinish | insertOther | flush upto =>
    exact quiet_coordInv hp h hs trivial
  | openForBusiness =>
    obtain ⟨log,hlog,rfl⟩ := map_eq_some_iff.mp hs
    exact openForBusiness_coordInv hp h hlog
  | stop =>
    obtain ⟨hidle,log,hlog,rfl⟩ := of_guard_map hs
    exact stop_coordInv hp h hidle hlog

theorem run_coordInv (hr : run (step c) .bootstrap as=some s) : CoordInv c s :=
  run_invariant (step_coordInv hp) (coordInv_bootstrap hp) hr

end WarehousePG.Dtm
