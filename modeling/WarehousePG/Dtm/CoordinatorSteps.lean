import WarehousePG.Dtm.Coordinator

namespace WarehousePG.Dtm

open Framework Log Coordinator Backend List
open Option (map_eq_some_iff)

variable {c : Settings} {s : Coordinator} {b : Backend} {g n p : Nat} {log : Log}
  {wal : List Record} {x : Record}

structure QuietLog (log log' : Log) : Prop where
  wal : log'.wal=log.wal ∨ ∃ x, Silent x ∧ log'.wal=log.wal ++ [x]
  flushed : log.flushed≤log'.flushed
  nextGxid : log'.nextGxid=log.nextGxid

theorem Silent.facts (hx : Silent x) (pre : List Record) :
    Admissible pre x ∧ (∀ g, x≠.distributedCommit g) ∧ (∀ g, x≠.distributedForget g) ∧
      (∀ v, x≠.latestCompletedGxid v) ∧ ∀ sd r n gs, x≠.checkpoint sd r n gs := by
  cases x with
  | nextGxid g | other => simp [Admissible]
  | distributedCommit g | distributedForget g | latestCompletedGxid g | checkpoint sd r n gs =>
    exact hx.elim

theorem QuietLog.facts (h : QuietLog log log') :
    log.wal <+: log'.wal ∧ (∀ g, Committed log'.wal g ↔ Committed log.wal g) ∧
      (∀ g, Forgotten log'.wal g ↔ Forgotten log.wal g) ∧
      (∀ v, .latestCompletedGxid v∈log'.wal → .latestCompletedGxid v∈log.wal) ∧
      (∀ sd r n gs, .checkpoint sd r n gs∈log'.wal → .checkpoint sd r n gs∈log.wal) ∧
      (Grammatical Admissible log.wal → Grammatical Admissible log'.wal) := by
  rcases h.wal with heq | ⟨x,hx,heq⟩
  · rw [heq]
    exact ⟨prefix_refl _,fun _ => Iff.rfl,fun _ => Iff.rfl,fun _ => id,fun _ _ _ _ => id,id⟩
  · obtain ⟨hadm,hc,hf,hl,hk⟩ := hx.facts log.wal
    rw [heq]
    refine ⟨prefix_append _ _,?_,?_,?_,?_,fun hok => hok.concat x hadm⟩
    · intro g
      rw [committed_concat]
      exact or_iff_left (hc g)
    · intro g
      rw [forgotten_concat]
      exact or_iff_left (hf g)
    · intro v hv
      rcases mem_append.mp hv with hv | hv
      · exact hv
      · exact absurd (mem_singleton.mp hv).symm (hl v)
    · intro sd r n gs hm
      rcases mem_append.mp hm with hm | hm
      · exact hm
      · exact absurd (mem_singleton.mp hm).symm (hk sd r n gs)

theorem getElem?_extends (h : l <+: l') (i : Nat) (y : Record)
    (hi : l[i]?=some y) : l'[i]?=some y := by
  obtain ⟨xs,rfl⟩ := h
  rw [List.getElem?_append_left (List.getElem?_eq_some_iff.mp hi).1]
  exact hi

/-- A change of the log without commit, forget and checkpoint records. -/
theorem CoordInv.quietLog (h : CoordInv c s) (log : Log) (hq : QuietLog s.log log)
    (hinv : LogInv c.prefetch log) (hphas : ∀ p, (s.backends p).gxid≠0 → log.phase=.normal)
    (hsd : log.phase≠.shutdown → s.log.phase≠.shutdown)
    (hstart : log.phase=.startup → s.log.phase=.startup)
    (hctl : ∃ k sd, k<log.flushed ∧ log.wal[k]?=
      some (.checkpoint sd log.control.redo log.control.nextGxid log.control.gxids))
    (hck : DtxCkptOk c { s with log := log }) : CoordInv c { s with log := log } := by
  obtain ⟨hpre,hcom,hfor,hlat,hckp,hgram⟩ := hq.facts
  have hnext := hq.nextGxid
  constructor
  case log_inv => exact hinv
  case wal_ok => exact hgram h.wal_ok
  case committed_lt =>
    intro g hg
    rw [hnext]
    exact h.committed_lt g ((hcom g).mp hg)
  case backend_ok =>
    intro p
    refine (h.backend_ok p).extend hq.flushed hnext.ge (getElem?_extends hpre) ?_ (hfor _)
    exact fun hnot hc => hnot ((hcom _).mp hc)
  case distinct => exact h.distinct
  case outside => exact h.outside
  case accounted =>
    intro g hg
    exact (h.accounted g ((hcom g).mp hg)).imp (hfor g).mpr id
  case array_committed => exact fun g hg => (hcom g).mpr (h.array_committed g hg)
  case array_forgotten => exact fun j hj g hg => (hfor g).mpr (h.array_forgotten j hj g hg)
  case started => exact h.started
  case busy => exact fun p hp => ⟨(h.busy p hp).1,hphas p hp⟩
  case control_ok => exact hctl
  case latest_le =>
    rw [hnext]
    exact h.latest_le
  case startup_latest =>
    intro hph
    rw [hnext]
    exact h.startup_latest (hstart hph)
  case logged_le => exact fun v hv => h.logged_le v (hlat v hv)
  case shutdown_le =>
    intro r n gs hm
    obtain ⟨h1,h2⟩ := h.shutdown_le r n gs (hckp true r n gs hm)
    refine ⟨?_,fun hph => h2 (hsd hph)⟩
    rw [hnext]
    exact h1
  case ckpt_ok => exact hck

theorem CoordInv.quietLog_same (h : CoordInv c s) (log : Log) (hq : QuietLog s.log log)
    (hinv : LogInv c.prefetch log) (hphas : log.phase=s.log.phase)
    (hctl : log.control=s.log.control) (hckpt : log.ckpt=s.log.ckpt) :
    CoordInv c { s with log := log } := by
  obtain ⟨hpre,hcom,hfor,hlat,hckp,-⟩ := hq.facts
  refine h.quietLog log hq hinv ?_ ?_ ?_ ?_ ?_
  · intro p hp
    rw [hphas]
    exact (h.busy p hp).2
  · rw [hphas]
    exact id
  · rw [hphas]
    exact id
  · obtain ⟨k,sd,hk,hkget⟩ := h.control_ok
    refine ⟨k,sd,hk.trans_le hq.flushed,?_⟩
    rw [hctl]
    exact getElem?_extends hpre _ _ hkget
  · exact h.ckpt_ok.frame h.log_inv.ckpt_ok hckpt rfl hpre (fun p hst _ => ⟨hst,rfl,rfl⟩)
      (fun j hj => .inl ⟨rfl,hj⟩) (le_refl _) hlat (hckp true)

theorem insert_eq {r : Record} (h : log.insert r=some log') :
    log.phase≠.shutdown ∧ log'={ log with wal := log.wal ++ [r] } := by
  cases r with
  | nextGxid g | checkpoint sd r n gs => simp [Log.insert] at h
  | distributedCommit g | distributedForget g | latestCompletedGxid g | other =>
    simp only [Log.insert] at h
    split_ifs at h with hc
    exact ⟨hc,(Option.some.inj h).symm⟩

def CoordinatorAction.Quiet : CoordinatorAction → Prop
  | .bumpAcquire | .bumpLimit | .bumpInsert | .bumpFinish | .insertOther | .flush _ => True
  | _ => False

theorem quiet_step {a : CoordinatorAction} (hs : s.step c a=some t) (ha : a.Quiet) :
    ∃ la log, s.log.step c.prefetch la=some log ∧ t={ s with log := log } ∧ QuietLog s.log log ∧
      log.phase=s.log.phase ∧ log.control=s.log.control ∧ log.ckpt=s.log.ckpt := by
  cases a with
  | bumpAcquire =>
    obtain ⟨log,h,rfl⟩ := map_eq_some_iff.mp hs
    refine ⟨.bumpAcquire,log,h,rfl,?_⟩
    unfold bumpAcquire at h
    split_ifs at h <;> obtain rfl := Option.some.inj h <;>
      exact ⟨⟨.inl rfl,le_refl _,rfl⟩,rfl,rfl,rfl⟩
  | bumpLimit =>
    obtain ⟨log,h,rfl⟩ := map_eq_some_iff.mp hs
    refine ⟨.bumpLimit,log,h,rfl,?_⟩
    unfold bumpLimit at h
    dsimp only at h
    split_ifs at h
    cases h
    exact ⟨⟨.inl rfl,le_refl _,rfl⟩,rfl,rfl,rfl⟩
  | bumpInsert =>
    obtain ⟨log,h,rfl⟩ := map_eq_some_iff.mp hs
    refine ⟨.bumpInsert,log,h,rfl,?_⟩
    unfold bumpInsert at h
    split at h
    next l _ =>
      cases h
      exact ⟨⟨.inr ⟨.nextGxid l,trivial,rfl⟩,le_refl _,rfl⟩,rfl,rfl,rfl⟩
    next => cases h
  | bumpFinish =>
    obtain ⟨log,h,rfl⟩ := map_eq_some_iff.mp hs
    refine ⟨.bumpFinish,log,h,rfl,?_⟩
    unfold bumpFinish at h
    split at h
    next =>
      split_ifs at h
      cases h
      exact ⟨⟨.inl rfl,le_refl _,rfl⟩,rfl,rfl,rfl⟩
    next => cases h
  | insertOther =>
    obtain ⟨log,h,rfl⟩ := map_eq_some_iff.mp hs
    refine ⟨.insert .other,log,h,rfl,?_⟩
    obtain ⟨-,rfl⟩ := insert_eq h
    exact ⟨⟨.inr ⟨.other,trivial,rfl⟩,le_refl _,rfl⟩,rfl,rfl,rfl⟩
  | flush upto =>
    obtain ⟨log,h,rfl⟩ := map_eq_some_iff.mp hs
    refine ⟨.flush upto,log,h,rfl,?_⟩
    unfold flush at h
    split_ifs at h with hc
    cases h
    exact ⟨⟨.inl rfl,hc.1,rfl⟩,rfl,rfl,rfl⟩
  | _ => exact ha.elim

section

variable (hp : c.prefetch<2^31) (h : CoordInv c s)
include hp h

theorem quiet_coordInv {a : CoordinatorAction} (hs : s.step c a=some t) (ha : a.Quiet) :
    CoordInv c t := by
  obtain ⟨la,log,hstep,rfl,hq,hphas,hctl,hckpt⟩ := quiet_step hs ha
  exact h.quietLog_same log hq (step_logInv hp _ la _ h.log_inv hstep) hphas hctl hckpt

theorem openForBusiness_coordInv
    (hs : s.log.openForBusiness=some log) : CoordInv c { s with log := log } := by
  have hinv := step_logInv hp _ .openForBusiness _ h.log_inv hs
  unfold openForBusiness at hs
  split_ifs at hs with hc
  cases hs
  refine h.quietLog _ ⟨.inl rfl,le_refl _,rfl⟩ hinv (fun _ _ => rfl) ?_ (fun hph => by cases hph)
    h.control_ok ?_
  · intro _
    rw [hc.1]
    decide
  · have hck := h.ckpt_ok
    simp only [DtxCkptOk,hc.2] at hck ⊢
    exact hck

theorem stop_coordInv (hidle : ∀ p<c.numProcs, (s.backends p).gxid=0) (hs : s.log.stop=some log) :
    CoordInv c { s with log := log } := by
  have hinv := step_logInv hp _ .stop _ h.log_inv hs
  unfold stop at hs
  split_ifs at hs with hc
  cases hs
  refine h.quietLog _ ⟨.inl rfl,le_refl _,rfl⟩ hinv ?_ (absurd rfl)
    (fun hph => by cases hph) h.control_ok ?_
  · intro p hne
    by_cases hlt : p<c.numProcs
    · exact absurd (hidle p hlt) hne
    · exact absurd (by rw [h.outside p (by omega)]; rfl) hne
  · have hck := h.ckpt_ok
    simp only [DtxCkptOk,hc.2.1] at hck ⊢
    exact hck

theorem ckptBegin_coordInv (hs : s.log.ckptBegin=some log) : CoordInv c { s with log := log } := by
  have hinv := step_logInv hp _ .ckptBegin _ h.log_inv hs
  unfold ckptBegin at hs
  split_ifs at hs with hc
  cases hs
  refine h.quietLog _ ⟨.inl rfl,le_refl _,rfl⟩ hinv (fun p hne => (h.busy p hne).2) id id
    h.control_ok ?_
  have hck := h.ckpt_ok
  simp only [DtxCkptOk,hc] at hck ⊢
  exact hck

theorem ckptSample_coordInv
    (hs : s.log.ckptSample=some log) : CoordInv c { s with log := log } := by
  have hinv := step_logInv hp _ .ckptSample _ h.log_inv hs
  unfold ckptSample at hs
  cases hc : s.log.ckpt with
  | begun sd redo =>
    simp only [hc] at hs
    by_cases hb : s.log.bump=.idle
    case neg => simp [hb] at hs
    rw [if_pos hb] at hs
    cases hs
    refine h.quietLog _ ⟨.inl rfl,le_refl _,rfl⟩ hinv (fun p hne => (h.busy p hne).2) id id
      h.control_ok ?_
    have hck := h.ckpt_ok
    simp only [DtxCkptOk,hc] at hck ⊢
    simp [hck]
  | idle | sampled sd redo n | inserted sd redo n gs k => simp [hc] at hs

theorem ckptComplete_coordInv
    (hs : s.log.ckptComplete=some log) : CoordInv c { s with log := log } := by
  have hinv := step_logInv hp _ .ckptComplete _ h.log_inv hs
  unfold ckptComplete at hs
  cases hc : s.log.ckpt with
  | inserted sd redo n gs k =>
    simp only [hc] at hs
    split_ifs at hs with hk
    cases hs
    have hck := h.ckpt_ok
    simp only [DtxCkptOk,hc] at hck
    refine h.quietLog _ ⟨.inl rfl,le_refl _,rfl⟩ hinv (fun p hne => (h.busy p hne).2) id id
      ⟨k,sd,hk.1,hck.2⟩ ?_
    simp only [DtxCkptOk]
    exact hck.1
  | idle | begun sd redo | sampled sd redo n => simp [hc] at hs

end

section

variable (s : Coordinator)

@[simp] theorem setBackend_log (p : Nat) (b : Backend) : (s.setBackend p b).log=s.log := rfl

@[simp] theorem setBackend_latest (p : Nat) (b : Backend) :
    (s.setBackend p b).latestCompletedGxid=s.latestCompletedGxid := rfl

theorem setBackend_self (p : Nat) (b : Backend) :
    (s.setBackend p b).backends p=b := by simp [setBackend]

theorem setBackend_ne {s : Coordinator} {p q : Nat} (h : q≠p) :
    (s.setBackend p b).backends q=s.backends q := by simp [setBackend,h]

theorem setBackend_gxid (p : Nat) (b : Backend) (h : b.gxid=(s.backends p).gxid)
    (q : Nat) : ((s.setBackend p b).backends q).gxid=(s.backends q).gxid := by
  by_cases hq : q=p
  · subst hq
    rw [setBackend_self,h]
  · rw [setBackend_ne hq]

end

structure LocalMoveOk (wal : List Record) (b b' : Backend) : Prop where
  gxid : b'.gxid=b.gxid
  recptr : b'.recptr=b.recptr
  logging : b'.stage=.logging → b.stage=.logging
  traced : b.stage=.logging ∨ b.stage=.committed → b'.stage=.logging ∨ b'.stage=.committed
  listed : b.includeInCkpt=true → b'.includeInCkpt=true ∨ Forgotten wal b.gxid

attribute [local simp] Backend.LoggedAt BackendOk stage

/-- A move of a backend alone is in step with the log. -/
theorem localMove_ok {a : BackendAction} (h : BackendOk wal log.flushed n b)
    (hm : localMove log b a=some b') : BackendOk wal log.flushed n b' ∧ LocalMoveOk wal b b' := by
  cases a with
  | onePhase | prepare | prepareOk | commitBegin =>
    simp only [localMove] at hm
    split_ifs at hm with hc
    cases hm
    refine ⟨?_,⟨rfl,rfl,?_,?_,.inl⟩⟩ <;> simp_all
  | commitInserted =>
    simp only [localMove] at hm
    split_ifs at hm with hc
    cases hm
    refine ⟨?_,⟨rfl,rfl,?_,?_,fun _ => .inl rfl⟩⟩ <;>
      simp_all
  | commitFlushed | notifyCommit =>
    simp only [localMove] at hm
    split_ifs at hm with hc
    cases hm
    refine ⟨?_,⟨rfl,rfl,?_,?_,.inl⟩⟩ <;> simp_all
  | notifyFailed | commitDone =>
    simp only [localMove] at hm
    split_ifs at hm with hc
    cases hm
    rcases hc with hc | hc <;> refine ⟨?_,⟨rfl,rfl,?_,?_,.inl⟩⟩ <;>
      simp_all
  | forgetInserted =>
    simp only [localMove] at hm
    split_ifs at hm with hc
    cases hm
    refine ⟨?_,⟨rfl,rfl,?_,?_,?_⟩⟩ <;> simp_all
  | rollback gangLost =>
    simp only [localMove,Option.map_eq_some_iff] at hm
    obtain ⟨st,hst,rfl⟩ := hm
    cases hb : b.state <;> cases gangLost <;> simp [rollbackState,hb] at hst <;> subst hst <;>
      refine ⟨?_,⟨rfl,rfl,?_,?_,.inl⟩⟩ <;> simp_all
  | abortFailed =>
    simp only [localMove] at hm
    split_ifs at hm with hc
    cases hm
    rcases hc with hc | hc | hc <;> refine ⟨?_,⟨rfl,rfl,?_,?_,.inl⟩⟩ <;>
      simp_all
  | activate | commitInsert | forgetInsert | endGxact => simp [localMove] at hm

theorem BackendOk.gxid_eq_zero {f : Nat} (h : BackendOk wal f n b) : b.gxid=0 ↔ b.stage=.idle := by
  unfold BackendOk at h
  cases hst : b.stage with
  | idle => simp only [hst] at h; subst h; simp [idle]
  | uncommitted | logging | committed | forgetting | forgotten => simp only [hst] at h; simp [h.1.1]

theorem localMove_coordInv (h : CoordInv c s) (hp : p<c.numProcs)
    (hok : BackendOk s.log.wal s.log.flushed s.log.nextGxid b')
    (hmove : LocalMoveOk s.log.wal (s.backends p) b') : CoordInv c (s.setBackend p b') := by
  have hgxid := setBackend_gxid s p b' hmove.gxid
  refine { h with
    backend_ok := ?_, distinct := ?_, outside := ?_, accounted := ?_, busy := ?_, ckpt_ok := ?_ }
  · intro q
    by_cases hq : q=p
    · subst hq
      rw [setBackend_self]
      exact hok
    · rw [setBackend_ne hq]
      exact h.backend_ok q
  · intro q r
    rw [hgxid,hgxid]
    exact h.distinct q r
  · intro q hq
    rw [setBackend_ne (by omega)]
    exact h.outside q hq
  · intro g hg
    rcases h.accounted g hg with hf | ha | ⟨q,hq,hqg,hst⟩
    · exact .inl hf
    · exact .inr (.inl ha)
    · refine .inr (.inr ⟨q,hq,(hgxid q).trans hqg,?_⟩)
      by_cases hqp : q=p
      · subst hqp
        rw [setBackend_self]
        exact hmove.traced hst
      · rw [setBackend_ne hqp]
        exact hst
  · intro q hq
    rw [hgxid] at hq
    exact h.busy q hq
  · refine h.ckpt_ok.frame h.log_inv.ckpt_ok rfl rfl (prefix_refl _) ?_ ?_ (le_refl _)
      (fun _ => id) fun _ _ _ => id
    · intro q hst _
      refine ⟨?_,?_,(hgxid q).symm⟩
      · by_cases hqp : q=p
        · subst hqp
          rw [setBackend_self] at hst
          exact hmove.logging hst
        · rwa [setBackend_ne hqp] at hst
      · by_cases hqp : q=p
        · subst hqp
          rw [setBackend_self]
          exact hmove.recptr.symm
        · rw [setBackend_ne hqp]
    · intro j hj
      by_cases hjp : j=p
      · subst hjp
        rw [setBackend_self]
        rcases hmove.listed hj with hi | hf
        · exact .inl ⟨hmove.gxid,hi⟩
        · exact .inr hf
      · rw [setBackend_ne hjp]
        exact .inl ⟨rfl,hj⟩

theorem mayEnd_stage (h : mayEnd b.state=true) :
    b.stage=.idle ∨ b.stage=.uncommitted ∨ b.stage=.forgotten := by
  cases hs : b.state <;> simp_all [mayEnd]

/-- The end of a transaction moves the latest completed gxid past it. -/
theorem endGxact_coordInv (h : CoordInv c s) (hp : p<c.numProcs)
    (hend : mayEnd (s.backends p).state=true) : CoordInv c ({ s with latestCompletedGxid :=
      if (s.backends p).gxid≠0 ∧ s.latestCompletedGxid<(s.backends p).gxid then (s.backends p).gxid
      else s.latestCompletedGxid }.setBackend p .idle) := by
  have hbp := h.backend_ok p
  have hstg := mayEnd_stage hend
  have hlts : s.latestCompletedGxid≤
      (if (s.backends p).gxid≠0 ∧ s.latestCompletedGxid<(s.backends p).gxid then (s.backends p).gxid
      else s.latestCompletedGxid) := by
    split_ifs <;> omega
  have hlt : (s.backends p).gxid≠0 → (s.backends p).gxid<s.log.nextGxid := by
    intro hne
    unfold BackendOk at hbp
    rcases hstg with hst | hst | hst <;> simp only [hst] at hbp
    · rw [hbp] at hne
      exact absurd rfl hne
    · exact hbp.1.2
    · exact hbp.1.2
  have hinc : (s.backends p).includeInCkpt=true → Forgotten s.log.wal (s.backends p).gxid := by
    intro hi
    unfold BackendOk at hbp
    rcases hstg with hst | hst | hst <;> simp only [hst] at hbp
    · rw [hbp] at hi
      exact absurd hi (by decide)
    · rw [hbp.2.2.1] at hi
      exact absurd hi (by decide)
    · exact hbp.2.2.1
  refine { h with
    backend_ok := ?_, distinct := ?_, outside := ?_, accounted := ?_, busy := ?_, latest_le := ?_
    startup_latest := fun hph => (h.startup_latest hph).trans hlts
    logged_le := fun v hv => (h.logged_le v hv).trans hlts, shutdown_le := ?_, ckpt_ok := ?_ }
  · intro q
    by_cases hq : q=p
    · subst hq
      rw [setBackend_self]
      exact rfl
    · rw [setBackend_ne hq]
      exact h.backend_ok q
  · intro q r hne heq
    by_cases hq : q=p
    · subst hq
      rw [setBackend_self] at hne
      exact absurd rfl hne
    · rw [setBackend_ne hq] at hne heq
      by_cases hr : r=p
      · subst hr
        rw [setBackend_self] at heq
        exact absurd heq hne
      · rw [setBackend_ne hr] at heq
        exact h.distinct q r hne heq
  · intro q hq
    rw [setBackend_ne (by omega)]
    exact h.outside q hq
  · intro g hg
    rcases h.accounted g hg with hf | ha | ⟨q,hq,hqg,hst⟩
    · exact .inl hf
    · exact .inr (.inl ha)
    · have hqp : q≠p := by
        intro heq
        subst heq
        rcases hstg with h1 | h1 | h1 <;> rw [h1] at hst <;> simp at hst
      refine .inr (.inr ⟨q,hq,?_⟩)
      rw [setBackend_ne hqp]
      exact ⟨hqg,hst⟩
  · intro q hne
    by_cases hq : q=p
    · subst hq
      rw [setBackend_self] at hne
      exact absurd rfl hne
    · rw [setBackend_ne hq] at hne
      exact h.busy q hne
  · have hle := h.latest_le
    rw [setBackend_latest,setBackend_log]
    split_ifs with hc
    · exact (hlt hc.1).le
    · exact hle
  · intro r n gs hm
    obtain ⟨h1,h2⟩ := h.shutdown_le r n gs hm
    exact ⟨h1,fun hph => (h2 hph).trans hlts⟩
  · refine h.ckpt_ok.frame h.log_inv.ckpt_ok rfl rfl (prefix_refl _) ?_ ?_ hlts
      (fun _ => id) fun _ _ _ => id
    · intro q hst _
      by_cases hq : q=p
      · subst hq
        rw [setBackend_self] at hst
        exact absurd hst (by decide)
      · rw [setBackend_ne hq] at hst ⊢
        exact ⟨hst,rfl,rfl⟩
    · intro j hj
      by_cases hq : j=p
      · subst hq
        exact .inr (hinc hj)
      · rw [setBackend_ne hq]
        exact .inl ⟨rfl,hj⟩

theorem forgotten_committed (hok : Grammatical Admissible wal) (h : Forgotten wal g) :
    Committed wal g := by
  obtain ⟨i,hi⟩ := mem_iff_getElem?.mp h
  have hadm : Committed (wal.take i) g := hok i _ hi
  exact hadm.mono

theorem mem_concat_of_ne {y : Record} (hne : y≠x) (h : y∈wal ++ [x]) : y∈wal := by
  rcases mem_append.mp h with h | h
  · exact h
  · exact absurd (mem_singleton.mp h) hne

variable (h : CoordInv c s)
include h

/-- A backend adds a record about its own transaction. -/
theorem CoordInv.insertOwn (hp : p<c.numProcs) (hs : s.log.insert x=some log)
    (hx : x=.distributedCommit (s.backends p).gxid ∨ x=.distributedForget (s.backends p).gxid)
    (hadm : Admissible s.log.wal x) (hg : b.gxid=(s.backends p).gxid)
    (hg0 : (s.backends p).gxid≠0) (hlt : (s.backends p).gxid<s.log.nextGxid)
    (hinc : b.includeInCkpt=(s.backends p).includeInCkpt)
    (hown : BackendOk (s.log.wal ++ [x]) s.log.flushed s.log.nextGxid b)
    (hacc : Forgotten (s.log.wal ++ [x]) (s.backends p).gxid ∨ b.stage=.logging)
    (hlgg : b.stage=.logging → s.log.wal.length≤b.recptr) :
    CoordInv c ({ s with log := log }.setBackend p b) := by
  have hinv := insert_inv _ h.log_inv hs
  obtain ⟨hph,rfl⟩ := insert_eq hs
  have hv : ∀ v, .latestCompletedGxid v∈s.log.wal ++ [x] → .latestCompletedGxid v∈s.log.wal :=
    fun v => mem_concat_of_ne (by rcases hx with rfl | rfl <;> simp)
  have hsd : ∀ r n gs, .checkpoint true r n gs∈s.log.wal ++ [x] →
      .checkpoint true r n gs∈s.log.wal :=
    fun r n gs => mem_concat_of_ne (by rcases hx with rfl | rfl <;> simp)
  have hown_g : ∀ g, x=.distributedCommit g → g=(s.backends p).gxid := by
    rintro g rfl
    rcases hx with hx | hx
    · exact Record.distributedCommit.inj hx
    · cases hx
  refine { h with
    log_inv := hinv, wal_ok := h.wal_ok.concat _ hadm, committed_lt := ?_, backend_ok := ?_
    distinct := ?_, outside := ?_, accounted := ?_, array_committed := ?_, array_forgotten := ?_
    busy := ?_, control_ok := ?_, logged_le := fun v hm => h.logged_le v (hv v hm)
    shutdown_le := fun r n gs hm => h.shutdown_le r n gs (hsd r n gs hm), ckpt_ok := ?_ }
  · intro g hc
    rcases (committed_concat _ g).mp hc with hc | hc
    · exact h.committed_lt g hc
    · rw [hown_g g hc]
      exact hlt
  · intro q
    by_cases hq : q=p
    · subst hq
      rw [setBackend_self]
      exact hown
    · have hne : (s.backends q).gxid≠(s.backends p).gxid :=
        fun heq => hq (h.distinct p q hg0 heq.symm).symm
      rw [setBackend_ne hq]
      refine (h.backend_ok q).concat _ ?_ ?_
      all_goals rcases hx with rfl | rfl <;> simp [hne.symm]
  · intro q r
    rw [setBackend_gxid,setBackend_gxid]
    · exact h.distinct q r
    all_goals exact hg
  · intro q hq
    rw [setBackend_ne (by omega)]
    exact h.outside q hq
  · intro g hc
    by_cases hgp : g=(s.backends p).gxid
    · subst hgp
      refine hacc.imp id fun hst => .inr ⟨p,hp,?_⟩
      rw [setBackend_self]
      exact ⟨hg,.inl hst⟩
    rcases (committed_concat _ g).mp hc with hc | hc
    · rcases h.accounted g hc with hf | ha | ⟨q,hq,hqg,hqst⟩
      · exact .inl ((forgotten_concat _ g).mpr (.inl hf))
      · exact .inr (.inl ha)
      · refine .inr (.inr ⟨q,hq,?_⟩)
        rw [setBackend_ne (by rintro rfl; exact hgp hqg.symm)]
        exact ⟨hqg,hqst⟩
    · exact absurd (hown_g g hc) hgp
  · exact fun g hm => (committed_concat _ g).mpr (.inl (h.array_committed g hm))
  · exact fun j hj g hm => (forgotten_concat _ g).mpr (.inl (h.array_forgotten j hj g hm))
  · intro q hne
    rw [setBackend_gxid] at hne
    · exact h.busy q hne
    · exact hg
  · obtain ⟨k,sd,hk,hget⟩ := h.control_ok
    exact ⟨k,sd,hk,getElem?_concat _ _ _ hget⟩
  · refine h.ckpt_ok.frame h.log_inv.ckpt_ok rfl rfl (prefix_append _ _) ?_ ?_ (le_refl _)
      hv hsd
    · intro q hst hrec
      by_cases hq : q=p
      · subst hq
        rw [setBackend_self] at hst hrec
        exact absurd hrec (hlgg hst).not_gt
      · rw [setBackend_ne hq] at hst ⊢
        exact ⟨hst,rfl,rfl⟩
    · intro j hj
      refine .inl ⟨setBackend_gxid _ _ _ hg _,?_⟩
      by_cases hq : j=p
      · subst hq
        rw [setBackend_self]
        exact hinc.trans hj
      · rw [setBackend_ne hq]
        exact hj

theorem commitInsert_coordInv (hp : p<c.numProcs)
    (hst : (s.backends p).state=.insertingCommitted) (hlg : (s.backends p).logged=false)
    (hs : s.log.insert (.distributedCommit (s.backends p).gxid)=some log) :
    CoordInv c ({ s with log := log }.setBackend p
      { s.backends p with logged := true, recptr := s.log.wal.length }) := by
  have hbp := h.backend_ok p
  have hstg : (s.backends p).stage=.uncommitted := by simp [hst,hlg]
  unfold BackendOk at hbp
  simp only [hstg] at hbp
  obtain ⟨⟨hg0,hglt⟩,hnc,hinc,hdel⟩ := hbp
  have hnf : ¬ Forgotten s.log.wal (s.backends p).gxid :=
    fun hf => hnc (forgotten_committed h.wal_ok hf)
  refine h.insertOwn hp hs (.inl rfl) ⟨hg0,hnc,hnf⟩ rfl hg0 hglt rfl ?_
    (.inr (by simp [hst])) fun _ => le_refl _
  have hnf' : ¬ Forgotten (s.log.wal ++ [.distributedCommit (s.backends p).gxid])
      (s.backends p).gxid := by
    rw [forgotten_concat]
    simp [hnf]
  simp only [BackendOk,stage,hst,if_true,Backend.LoggedAt]
  exact ⟨⟨hg0,hglt⟩,by simp,hnf',hinc,hdel hst⟩

theorem forgetInsert_coordInv (hp : p<c.numProcs)
    (hst : (s.backends p).state=.insertingForgetCommitted) (hlg : (s.backends p).logged=false)
    (hs : s.log.insert (.distributedForget (s.backends p).gxid)=some log) :
    CoordInv c ({ s with log := log }.setBackend p { s.backends p with logged := true }) := by
  have hbp := h.backend_ok p
  have hstg : (s.backends p).stage=.committed := by simp [hst,hlg]
  unfold BackendOk at hbp
  simp only [hstg] at hbp
  obtain ⟨⟨hg0,hglt⟩,hlogg,hnf,hinc,hdur⟩ := hbp
  have hflush : (s.backends p).recptr<s.log.flushed := by
    rcases hdur with ⟨h1,-⟩ | h1
    · rw [hst] at h1
      cases h1
    · exact h1
  have hforg : Forgotten (s.log.wal ++ [.distributedForget (s.backends p).gxid])
      (s.backends p).gxid := (forgotten_concat _ _).mpr (.inr rfl)
  refine h.insertOwn hp hs (.inr rfl) hlogg.committed rfl hg0 hglt rfl ?_ (.inl hforg)
    fun hlog => ?_
  · simp only [BackendOk,stage,hst,if_true]
    exact ⟨⟨hg0,hglt⟩,getElem?_concat _ _ _ hlogg,hforg,hflush⟩
  · simp [hst] at hlog

theorem recoveryForget_coordInv (hnot : s.dtmStarted=false)
    (hg : s.committedGxids[s.recovering]?=some g)
    (hs : s.log.insert (.distributedForget g)=some log) :
    CoordInv c { s with log := log, recovering := s.recovering+1 } := by
  have hinv := insert_inv _ h.log_inv hs
  obtain ⟨hph,rfl⟩ := insert_eq hs
  have hcom : Committed s.log.wal g := h.array_committed g (mem_of_getElem? hg)
  -- before DTM recovery is over there are no other backends with a gxid
  have hidle : ∀ q, (s.backends q).gxid=0 := by
    intro q
    by_contra hne
    have := (h.busy q hne).1
    rw [hnot] at this
    cases this
  have hidle' : ∀ q, s.backends q=.idle := by
    intro q
    have hok := h.backend_ok q
    have hstg := hok.gxid_eq_zero.mp (hidle q)
    unfold BackendOk at hok
    simpa only [hstg] using hok
  refine { h with
    log_inv := hinv, wal_ok := h.wal_ok.concat _ hcom, committed_lt := ?_, backend_ok := ?_
    accounted := ?_, array_committed := ?_, array_forgotten := ?_, control_ok := ?_
    logged_le := ?_, shutdown_le := ?_, ckpt_ok := ?_ }
  · intro g' hg'
    rcases (committed_concat _ g').mp hg' with hg' | hg'
    · exact h.committed_lt g' hg'
    · cases hg'
  · intro q
    rw [hidle' q]
    exact rfl
  · intro g' hg'
    rcases (committed_concat _ g').mp hg' with hg' | hg'
    · exact (h.accounted g' hg').imp (fun hf => (forgotten_concat _ g').mpr (.inl hf)) id
    · cases hg'
  · exact fun g' hg' => (committed_concat _ g').mpr (.inl (h.array_committed g' hg'))
  · intro j hj g' hg'
    rcases lt_or_ge j s.recovering with hlt | hge
    · exact (forgotten_concat _ g').mpr (.inl (h.array_forgotten j hlt g' hg'))
    · have hje : j=s.recovering := by
        have : j<s.recovering+1 := hj
        omega
      subst hje
      have hgg : g=g' := Option.some.inj (hg.symm.trans hg')
      exact (forgotten_concat _ g').mpr (.inr (by rw [hgg]))
  · obtain ⟨k,sd,hk,hget⟩ := h.control_ok
    exact ⟨k,sd,hk,getElem?_concat _ _ _ hget⟩
  · exact fun v hv => h.logged_le v (mem_concat_of_ne (by simp) hv)
  · exact fun r n gs hm => h.shutdown_le r n gs (mem_concat_of_ne (by simp) hm)
  · exact h.ckpt_ok.frame h.log_inv.ckpt_ok rfl rfl (prefix_append _ _)
      (fun q hst _ => ⟨hst,rfl,rfl⟩) (fun j hj => .inl ⟨rfl,hj⟩) (le_refl _)
      (fun v hv => mem_concat_of_ne (by simp) hv) fun r n gs hm => mem_concat_of_ne (by simp) hm

end WarehousePG.Dtm
