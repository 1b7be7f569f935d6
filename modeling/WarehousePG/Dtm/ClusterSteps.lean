import WarehousePG.Dtm.Cluster

namespace WarehousePG.Dtm

open Framework Function DtxProtocolCommand Backend Record List
open Option (ite_none_right_eq_some)

variable {s : Cluster}

attribute [local simp] hopeless stage

/-- A transaction that cannot commit any more never can again. -/
theorem localMove_hopeless (hm : localMove log b a=some b') :
    b'.gxid=b.gxid ∧ b'.state≠.activeDistributed ∧
      (hopeless b.state=true → hopeless b'.state=true) ∧
      (b'.state=.preparing → b.state=.activeDistributed) := by
  cases a with
  | rollback lost =>
    obtain ⟨st,hst,rfl⟩ := Option.map_eq_some_iff.mp hm
    refine ⟨rfl,?_⟩
    revert hst
    cases hb : b.state <;> cases lost <;> simp [rollbackState] <;> rintro rfl <;> simp
  | activate | commitInsert | forgetInsert | endGxact => cases hm
  | notifyFailed | commitDone =>
    simp only [localMove] at hm
    obtain ⟨hc,rfl⟩ := of_guard hm
    rcases hc with hc | hc <;> simp [hc]
  | onePhase | prepare | prepareOk | commitBegin | commitInserted | commitFlushed | notifyCommit
    | forgetInserted | abortFailed =>
    simp only [localMove] at hm
    obtain ⟨hc,rfl⟩ := of_guard hm
    refine ⟨rfl,?_⟩
    simp_all

theorem localMove_broadcast (hm : localMove log b a=some b') (ha : broadcasts a=true) :
    ∃ cmd, commandOf b'.state=some cmd ∧ (b'.state=.preparing ∧ cmd=.prepare ∨
        (b'.state=.notifyingCommitPrepared ∨ b'.state=.retryCommitPrepared) ∧ cmd.commits=true ∧
          cmd≠.retryAbortPrepared ∨ hopeless b'.state=true ∧ cmd≠.prepare ∧ cmd.commits=false) := by
  cases a with
  | rollback lost =>
    obtain ⟨st,hst,rfl⟩ := Option.map_eq_some_iff.mp hm
    revert hst
    cases hb : b.state <;> cases lost <;> simp [rollbackState] <;> rintro rfl <;>
      simp [commandOf,commits]
  | onePhase | prepare | notifyCommit | notifyFailed | abortFailed =>
    simp only [localMove] at hm
    obtain ⟨hc,rfl⟩ := of_guard hm
    simp [commandOf,commits]
  | activate | prepareOk | commitBegin | commitInsert | commitInserted | commitFlushed | commitDone
    | forgetInsert | forgetInserted | endGxact => cases ha

theorem BackendOk.durable (h : BackendOk u.log.wal u.log.flushed u.log.nextGxid b)
    (hst : b.state=.notifyingCommitPrepared ∨ b.state=.retryCommitPrepared ∨
      b.state=.insertingForgetCommitted) : Durable u b.gxid := by
  have hlog : b.recptr<u.log.flushed → b.LoggedAt u.log.wal → Durable u b.gxid :=
    fun hlt hget => (mem_take_iff_getElem? _ _).mpr ⟨b.recptr,hlt,hget⟩
  have hne : b.state≠.insertedCommitted := by
    rcases hst with h | h | h <;> rw [h] <;> decide
  have hstg : b.stage=.committed ∨ b.stage=.forgetting := by
    rcases hst with h | h | h
    · exact .inl (by simp [h])
    · exact .inl (by simp [h])
    · cases hl : b.logged <;> simp [h,hl]
  unfold BackendOk at h
  rcases hstg with hstg | hstg
  · simp only [hstg] at h
    rcases h.2.2.2.2 with hbad | hlt
    · exact absurd hbad.1 hne
    · exact hlog hlt h.2.1
  · simp only [hstg] at h
    exact hlog h.2.2.2 h.2.1

theorem Doomed.move (h : Doomed u g) (hg : b'.gxid=(u.backends p).gxid)
    (hhope : hopeless (u.backends p).state=true → hopeless b'.state=true) :
    Doomed (u.setBackend p b') g where
  __ := h
  holder := by
    intro q hq
    by_cases hqp : q=p
    · subst hqp
      rw [setBackend_self] at hq ⊢
      exact hhope (h.holder q (hg ▸ hq))
    · rw [setBackend_ne hqp] at hq ⊢
      exact h.holder q hq

theorem ClusterInv.moveBackend (h : ClusterInv c s) (P : Nat → Option Dispatch)
    (hP : ∀ q, q≠p → P q=s.pending q) (hinv : CoordInv c.qd (s.coord.setBackend p b'))
    (hg : b'.gxid=(s.coord.backends p).gxid) (hact : b'.state≠.activeDistributed)
    (hhope : hopeless (s.coord.backends p).state=true → hopeless b'.state=true)
    (hprep : b'.state=.preparing → (s.coord.backends p).state=.activeDistributed)
    (hhol : HolderOk { s with coord := s.coord.setBackend p b', pending := P } p) :
    ClusterInv c { s with coord := s.coord.setBackend p b', pending := P } := by
  refine h.coordMove ?_ hinv s.dtxSegments P fun q => ?_
  · constructor
    case durable => exact fun _ => id
    case nextGxid => exact le_refl _
    case committed => exact h.kept
    case forgotten => exact h.forgotten
    case doomed => exact fun g hd => hd.move hg hhope
    case active =>
      intro q hst _
      by_cases hqp : q=p
      · subst hqp
        rw [setBackend_self] at hst
        exact absurd hst hact
      · rw [setBackend_ne hqp] at hst ⊢
        exact ⟨rfl,hst⟩
    case preparing =>
      intro q hst
      by_cases hqp : q=p
      · subst hqp
        rw [setBackend_self] at hst ⊢
        exact ⟨hg.symm,.inr (hprep hst)⟩
      · rw [setBackend_ne hqp] at hst ⊢
        exact ⟨rfl,.inl hst⟩
    case array => exact h.array
  · by_cases hq : q=p
    · subst hq
      exact hhol
    · exact (h.holders q).congr (setBackend_ne hq) (fun _ => rfl) rfl (hP q hq)

theorem ClusterInv.send (h : ClusterInv c s) (ms : List Message) (n : Nat)
    (hms : ∀ m∈ms, MessageOk s m) :
    ClusterInv c { s with inFlight := s.inFlight ++ ms, dispatches := n } := by
  refine { h with
    forgotten := ?forgotten, holders := ?holders, messages := ?messages, acks := ?acks }
  case forgotten => exact fun g hf => ⟨(h.forgotten g hf).durable,(h.forgotten g hf).finished⟩
  case holders =>
    intro q
    obtain ⟨h1,h2,h3,h4,h5⟩ := h.holders q
    exact ⟨h1,h2,h3,h4,h5⟩
  case messages =>
    intro m hm
    have hok : MessageOk s m := by
      rcases mem_append.mp hm with hm | hm
      · exact h.messages m hm
      · exact hms m hm
    exact hok.congr rfl fun hd => ⟨hd.durable,hd.finished⟩
  case acks => exact fun m hm => ⟨(h.acks m hm).commits,(h.acks m hm).prepare⟩

theorem BackendOk.uncommitted
    (h : BackendOk wal f n b) (hst : hopeless b.state=true ∨ b.state=.activeDistributed ∨
      b.state=.preparing ∨ b.state=.prepared ∨ (b.state=.insertingCommitted ∧ b.logged=false)) :
    b.gxid≠0 ∧ b.gxid<n ∧ ¬ Committed wal b.gxid := by
  have hstg : b.stage=.uncommitted := by
    rcases hst with hst | hst | hst | hst | hst
    · cases hb : b.state <;> simp_all
    · simp [hst]
    · simp [hst]
    · simp [hst]
    · simp [hst]
  unfold BackendOk at h
  simp only [hstg] at h
  exact ⟨h.1.1,h.1.2,h.2.1⟩

theorem hopeless_doomed {q : ClusterSettings} (h : CoordInv q.qd u)
    (hst : hopeless (u.backends p).state=true) : Doomed u (u.backends p).gxid := by
  obtain ⟨h0,hlt,hnc⟩ := (h.backend_ok p).uncommitted (.inl hst)
  refine ⟨h0,hlt,hnc,fun r hr => ?_⟩
  have heq : p=r := h.distinct p r h0 hr.symm
  rw [← heq]
  exact hst

/-- A broadcast has a message on its way to every segment of the transaction. -/
theorem broadcast_clusterInv (h : ClusterInv c s) (hp : p<c.qd.numProcs)
    (hm : localMove s.coord.log (s.coord.backends p) a=some b') (ha : broadcasts a=true) :
    ClusterInv c ({ s with coord := s.coord.setBackend p b' }.broadcast c p) := by
  obtain ⟨hok,hmove⟩ := localMove_ok (h.coord_inv.backend_ok p) hm
  have hinv := localMove_coordInv h.coord_inv hp hok hmove
  obtain ⟨hg,hact,hhope,hprep⟩ := localMove_hopeless hm
  obtain ⟨cmd,hcmd,hkind⟩ := localMove_broadcast hm ha
  simp only [Cluster.broadcast,setBackend_self,hcmd]
  generalize htgt : (if cmd=.retryAbortPrepared then range c.numSegments
    else s.dtxSegments p)=targets
  have hdtx : cmd≠.retryAbortPrepared → targets=s.dtxSegments p := fun hne => by
    rw [← htgt,if_neg hne]
  have hhol : HolderOk { s with
      coord := s.coord.setBackend p b'
      pending := update s.pending p (some ⟨s.dispatches,b'.gxid,cmd,targets⟩) } p := by
    constructor <;> simp only [setBackend_self,update_self,Option.some.injEq]
    case segs =>
      rw [hg]
      exact (h.holders p).segs
    case voted =>
      rintro (hst | hst) <;> simp [hst] at hkind
    case notified =>
      intro hst
      simp [hst] at hkind
    case asked =>
      rintro d rfl hst
      simp only [hst,hopeless,reduceCtorEq,false_and,or_false,true_and,or_self,
        Bool.false_eq_true] at hkind
      exact ⟨rfl,hkind,hdtx (by rw [hkind]; decide)⟩
    case told =>
      rintro d rfl hst
      rcases hkind with ⟨hbad,-⟩ | ⟨-,hcom,hne⟩ | ⟨hbad,-⟩
      · rcases hst with hst | hst <;> rw [hst] at hbad <;> cases hbad
      · exact ⟨rfl,hcom,hdtx hne⟩
      · rcases hst with hst | hst <;> rw [hst] at hbad <;> cases hbad
  have hmoved := h.moveBackend _ (fun q hq => update_of_ne hq _ _) hinv hg hact hhope hprep
    hhol
  refine hmoved.send (Dispatch.mk s.dispatches b'.gxid cmd targets).messages (s.dispatches+1) ?_
  intro m hmem
  obtain ⟨i,-,rfl⟩ := mem_map.mp hmem
  have hself : (s.coord.setBackend p b').backends p=b' := setBackend_self _ _ _
  rcases hkind with ⟨hst,hcmd⟩ | ⟨hst,hcom,-⟩ | ⟨hst,hne,hcom⟩
  · obtain ⟨h0,hlt,-⟩ := hok.uncommitted (.inr (.inr (.inl hst)))
    refine .ofPrepare hcmd hlt fun q hq => ?_
    have heq : p=q := hinv.distinct p q (by rw [hself]; exact h0) (by rw [hself]; exact hq.symm)
    rw [← heq]
    dsimp only
    rw [hself]
    exact hact
  · have hd := BackendOk.durable (u := s.coord.setBackend p b') hok
      (hst.elim .inl fun h => .inr (.inl h))
    exact .ofCommits hcom hd
  · have hd := hopeless_doomed hinv (p := p) (by rw [hself]; exact hst)
    rw [hself] at hd
    exact .ofOther hcom hne (.inl hd)

theorem Cluster.Succeeded.ack (h : s.Succeeded d) (hi : i∈d.targets) :
    ⟨d.number,d.gxid,i,d.cmd⟩∈s.acks :=
  h _ (mem_map.mpr ⟨i,hi,rfl⟩)

theorem prepareOk_voted (h : ClusterInv c s) (hmay : s.backendMay p .prepareOk)
    (hst : (s.coord.backends p).state=.preparing) :
    ∀ i∈s.dtxSegments p, s.part (s.coord.backends p).gxid i=.prepared := by
  intro i hi
  obtain ⟨d,hd,hsucc⟩ := hmay
  obtain ⟨hgx,hcmd,htgt⟩ := (h.holders p).asked d hd hst
  have hack := h.acks _ (hsucc.ack (htgt ▸ hi))
  have hpart := ((hack.prepare hcmd).2 p hgx.symm).2 hst
  rw [← hgx]
  exact hpart

theorem commitDone_notified (h : ClusterInv c s) (hmay : s.backendMay p .commitDone)
    (hst : (s.coord.backends p).state=.notifyingCommitPrepared ∨
      (s.coord.backends p).state=.retryCommitPrepared) (h0 : (s.coord.backends p).gxid≠0) :
    ∀ i, (s.part (s.coord.backends p).gxid i).finished=true := by
  intro i
  by_cases habs : s.part (s.coord.backends p).gxid i=.absent
  · rw [habs]
    rfl
  · obtain ⟨d,hd,hsucc⟩ := hmay
    obtain ⟨hgx,hcmd,htgt⟩ := (h.holders p).told d hd hst
    have hi := (h.holders p).segs h0 i habs
    have hack := h.acks _ (hsucc.ack (htgt ▸ hi))
    rw [← hgx]
    exact (hack.commits hcmd).2

theorem BackendOk.gxid_ne_zero (h : BackendOk wal f n b) (hst : b.state≠.none) : b.gxid≠0 := by
  intro h0
  have hstg := h.gxid_eq_zero.mp h0
  unfold BackendOk at h
  simp only [hstg] at h
  rw [h] at hst
  exact hst rfl

theorem localMove_clusterInv (h : ClusterInv c s) (hp : p<c.qd.numProcs) (hmay : s.backendMay p a)
    (hm : localMove s.coord.log (s.coord.backends p) a=some b') (ha : broadcasts a=false) :
    ClusterInv c { s with coord := s.coord.setBackend p b' } := by
  obtain ⟨hok,hmove⟩ := localMove_ok (h.coord_inv.backend_ok p) hm
  have hinv := localMove_coordInv h.coord_inv hp hok hmove
  obtain ⟨hg,hact,hhope,hprep⟩ := localMove_hopeless hm
  have hvoted : b'.state=.prepared ∨ (b'.state=.insertingCommitted ∧ b'.logged=false) →
      ∀ i∈s.dtxSegments p, s.part (s.coord.backends p).gxid i=.prepared := by
    cases a with
    | prepareOk =>
      obtain ⟨hst,-⟩ := ite_none_right_eq_some.mp hm
      exact fun _ => prepareOk_voted h hmay hst
    | commitBegin =>
      obtain ⟨hst,-⟩ := ite_none_right_eq_some.mp hm
      exact fun _ => (h.holders p).voted (.inl hst)
    | commitInserted | commitFlushed | commitDone | forgetInserted =>
      obtain ⟨hst,rfl⟩ := of_guard hm
      intro hbad
      simp_all
    | activate | commitInsert | forgetInsert | endGxact => cases hm
    | onePhase | prepare | notifyCommit | notifyFailed | rollback _ | abortFailed => cases ha
  have hntf : b'.state=.insertingForgetCommitted →
      ∀ i, (s.part (s.coord.backends p).gxid i).finished=true := by
    cases a with
    | commitDone =>
      obtain ⟨hst,-⟩ := ite_none_right_eq_some.mp hm
      intro _
      refine commitDone_notified h hmay hst ((h.coord_inv.backend_ok p).gxid_ne_zero ?_)
      rcases hst with hst | hst <;> rw [hst] <;> decide
    | prepareOk | commitBegin | commitInserted | commitFlushed | forgetInserted =>
      obtain ⟨hst,rfl⟩ := of_guard hm
      intro hbad
      simp_all
    | activate | commitInsert | forgetInsert | endGxact => cases hm
    | onePhase | prepare | notifyCommit | notifyFailed | rollback _ | abortFailed => cases ha
  have hstate : b'.state≠.preparing ∧ b'.state≠.notifyingCommitPrepared ∧
      b'.state≠.retryCommitPrepared := by
    cases a with
    | prepareOk | commitBegin | commitInserted | commitFlushed | commitDone | forgetInserted =>
      obtain ⟨hst,rfl⟩ := of_guard hm
      simp_all
    | activate | commitInsert | forgetInsert | endGxact => cases hm
    | onePhase | prepare | notifyCommit | notifyFailed | rollback _ | abortFailed => cases ha
  refine h.moveBackend s.pending (fun _ _ => rfl) hinv hg hact hhope hprep ?_
  constructor <;> simp only [setBackend_self,hg]
  case segs => exact (h.holders p).segs
  case voted => exact hvoted
  case notified => exact hntf
  case asked => exact fun d _ hst => absurd hst hstate.1
  case told => exact fun d _ hst => (hst.elim hstate.2.1 hstate.2.2).elim

theorem Durable.concat (h : Durable u g) (hlen : u.log.flushed≤u.log.wal.length)
    (hwal : v.log.wal=u.log.wal ++ [x]) (hf : v.log.flushed=u.log.flushed) : Durable v g := by
  unfold Durable
  rw [hwal,hf,take_append_of_le_length hlen]
  exact h

theorem CoordMove.ofBackend (hb : v.backends=s.coord.backends)
    (hnext : v.log.nextGxid=s.coord.log.nextGxid) (hdur : ∀ g, Durable s.coord g → Durable v g)
    (hcom : ∀ g i, Committed v.log.wal g → (s.part g i).kept=true)
    (hfor : ∀ g, Forgotten v.log.wal g → Completed s g)
    (harr : ∀ g∈v.committedGxids, Durable s.coord g)
    (hst : b.state≠.activeDistributed ∧ b.state≠.preparing)
    (hdoom : ∀ g, Doomed s.coord g → ¬ Committed v.log.wal g ∧ b.gxid≠g) :
    CoordMove s (v.setBackend p b) := by
  constructor
  case durable => exact hdur
  case nextGxid => exact hnext.ge
  case committed => exact hcom
  case forgotten => exact hfor
  case doomed =>
    intro g hd
    obtain ⟨hnc,hne⟩ := hdoom g hd
    refine ⟨hd.ne_zero,?_,hnc,fun q hq => ?_⟩
    · simp only [setBackend_log,hnext]
      exact hd.lt
    · by_cases hqp : q=p
      · subst hqp
        rw [setBackend_self] at hq
        exact absurd hq hne
      · rw [setBackend_ne hqp,hb] at hq ⊢
        exact hd.holder q hq
  case active =>
    intro q hq _
    by_cases hqp : q=p
    · subst hqp
      rw [setBackend_self] at hq
      exact absurd hq hst.1
    · rw [setBackend_ne hqp,hb] at hq ⊢
      exact ⟨rfl,hq⟩
  case preparing =>
    intro q hq
    by_cases hqp : q=p
    · subst hqp
      rw [setBackend_self] at hq
      exact absurd hq hst.2
    · rw [setBackend_ne hqp,hb] at hq ⊢
      exact ⟨rfl,.inl hq⟩
  case array => exact fun g hg => hdur g (harr g hg)

section

variable (h : ClusterInv c s) (hp : p<c.qd.numProcs)
include h hp

/-- A new gxid is unknown to every segment. -/
theorem activate_clusterInv
    (hstd : s.coord.dtmStarted=true) (hzero : (s.coord.backends p).gxid=0)
    (hs : s.coord.log.activate=some log) : ClusterInv c { s with
      coord := { s.coord with log := log }.setBackend p
        { idle with gxid := s.coord.log.nextGxid, state := .activeDistributed }
      dtxSegments := update s.dtxSegments p []
      pending := update s.pending p none } := by
  have hinv := activate_coordInv h.coord_inv hp hstd hzero hs
  have hroom := h.coord_inv.log_inv.room
  have hlast : lastGxid=18446744073709551615 := rfl
  obtain ⟨hwal,hflus,hnext⟩ : log.wal=s.coord.log.wal ∧ log.flushed=s.coord.log.flushed ∧
      log.nextGxid=s.coord.log.nextGxid+1 := by
    obtain ⟨-,rfl⟩ := of_guard hs
    exact ⟨rfl,rfl,Nat.mod_eq_of_lt (by omega)⟩
  generalize hb : ({ idle with gxid := s.coord.log.nextGxid,
                                       state := .activeDistributed } : Backend)=b at hinv ⊢
  have hbg : b.gxid=s.coord.log.nextGxid := by rw [← hb]
  have hbst : b.state=.activeDistributed := by rw [← hb]
  have hdur : ∀ g, Durable s.coord g → Durable ({ s.coord with log := log }.setBackend p b) g := by
    intro g hg
    unfold Durable
    simp only [setBackend_log,hwal,hflus]
    exact hg
  refine h.coordMove ?_ hinv _ _ fun q => ?_
  · constructor
    case durable => exact hdur
    case nextGxid =>
      simp only [setBackend_log,hnext]
      exact Nat.le_succ _
    case committed =>
      simp only [setBackend_log,hwal]
      exact h.kept
    case forgotten =>
      simp only [setBackend_log,hwal]
      exact h.forgotten
    case doomed =>
      intro g hd
      refine ⟨hd.ne_zero,?_,?_,fun q hq => ?_⟩
      · simp only [setBackend_log,hnext]
        exact hd.lt.trans (Nat.lt_succ_self _)
      · simp only [setBackend_log,hwal]
        exact hd.not_committed
      · by_cases hqp : q=p
        · subst hqp
          rw [setBackend_self,hbg] at hq
          exact absurd hd.lt (by omega)
        · rw [setBackend_ne hqp] at hq ⊢
          exact hd.holder q hq
    case active =>
      intro q hst hlt
      by_cases hqp : q=p
      · subst hqp
        rw [setBackend_self,hbg] at hlt
        exact absurd hlt (lt_irrefl _)
      · rw [setBackend_ne hqp] at hst ⊢
        exact ⟨rfl,hst⟩
    case preparing =>
      intro q hst
      by_cases hqp : q=p
      · subst hqp
        rw [setBackend_self,hbst] at hst
        cases hst
      · rw [setBackend_ne hqp] at hst ⊢
        exact ⟨rfl,.inl hst⟩
    case array => exact fun g hg => hdur g (h.array g hg)
  · by_cases hqp : q=p
    · subst hqp
      constructor <;> simp only [setBackend_self,update_self,hbst,hbg]
      case segs =>
        intro _ i hne
        have := (h.assigned _ i hne).2.1
        omega
      all_goals simp
    · exact (h.holders q).congr (setBackend_ne hqp) (fun _ => rfl)
        (update_of_ne hqp _ _) (update_of_ne hqp _ _)

/-- The commit record is written when all segments are prepared. -/
theorem commitInsert_clusterInv
    (hst : (s.coord.backends p).state=.insertingCommitted) (hlg : (s.coord.backends p).logged=false)
    (hs : s.coord.log.insert (.distributedCommit (s.coord.backends p).gxid)=some log) :
    ClusterInv c { s with
      coord := { s.coord with log := log }.setBackend p
        { s.coord.backends p with logged := true, recptr := s.coord.log.wal.length } } := by
  have hinv := commitInsert_coordInv h.coord_inv hp hst hlg hs
  obtain ⟨-,rfl⟩ := insert_eq hs
  have hlen := h.coord_inv.log_inv.flushed_le
  obtain ⟨h0,-,-⟩ := (h.coord_inv.backend_ok p).uncommitted
    (.inr (.inr (.inr (.inr ⟨hst,hlg⟩))))
  refine h.coordMove ?_ hinv s.dtxSegments s.pending fun q => ?_
  · refine .ofBackend rfl rfl (fun g hg => hg.concat hlen rfl rfl) ?_ ?_ h.array ?_ ?_
    · intro g i hg
      rcases (committed_concat _ g).mp hg with hg | hg
      · exact h.kept g i hg
      · obtain rfl := distributedCommit.inj hg
        by_cases habs : s.part (s.coord.backends p).gxid i=.absent
        · rw [habs]
          rfl
        · have hi := (h.holders p).segs h0 i habs
          rw [(h.holders p).voted (.inr ⟨hst,hlg⟩) i hi]
          rfl
    · intro g hg
      exact h.forgotten g (((forgotten_concat _ g).mp hg).resolve_right (by simp))
    · simp [hst]
    · intro g hd
      have hne : (s.coord.backends p).gxid≠g := by
        intro heq
        have hbad := hd.holder p heq
        rw [hst] at hbad
        cases hbad
      refine ⟨fun hg => ?_,hne⟩
      rcases (committed_concat _ g).mp hg with hg | hg
      · exact hd.not_committed hg
      · exact hne (distributedCommit.inj hg)
  · by_cases hqp : q=p
    · subst hqp
      constructor <;> simp only [setBackend_self,hst]
      case segs => exact (h.holders q).segs
      all_goals simp
    · exact (h.holders q).congr (setBackend_ne hqp) (fun _ => rfl) rfl rfl

/-- The forget record is written when all segments are finished. -/
theorem forgetInsert_clusterInv (hst : (s.coord.backends p).state=.insertingForgetCommitted)
    (hlg : (s.coord.backends p).logged=false)
    (hs : s.coord.log.insert (.distributedForget (s.coord.backends p).gxid)=some log) :
    ClusterInv c { s with
      coord := { s.coord with log := log }.setBackend p
        { s.coord.backends p with logged := true } } := by
  have hinv := forgetInsert_coordInv h.coord_inv hp hst hlg hs
  obtain ⟨-,rfl⟩ := insert_eq hs
  have hlen := h.coord_inv.log_inv.flushed_le
  have hdur := (h.coord_inv.backend_ok p).durable (.inr (.inr hst))
  refine h.coordMove ?_ hinv s.dtxSegments s.pending fun q => ?_
  · refine .ofBackend rfl rfl (fun g hg => hg.concat hlen rfl rfl) ?_ ?_ h.array ?_ ?_
    · intro g i hg
      exact h.kept g i (((committed_concat _ g).mp hg).resolve_right (by simp))
    · intro g hg
      rcases (forgotten_concat _ g).mp hg with hg | hg
      · exact h.forgotten g hg
      · obtain rfl := distributedForget.inj hg
        exact ⟨hdur,(h.holders p).notified hst⟩
    · simp [hst]
    · intro g hd
      refine ⟨fun hg => hd.not_committed (((committed_concat _ g).mp hg).resolve_right (by simp)),?_⟩
      rintro rfl
      exact hd.not_durable hdur
  · by_cases hqp : q=p
    · subst hqp
      constructor <;> simp only [setBackend_self,hst]
      case segs => exact (h.holders q).segs
      case notified => exact fun _ => (h.holders q).notified hst
      all_goals simp
    · exact (h.holders q).congr (setBackend_ne hqp) (fun _ => rfl) rfl rfl

theorem endGxact_clusterInv (hend : mayEnd (s.coord.backends p).state=true) : ClusterInv c { s with
      coord := { s.coord with latestCompletedGxid :=
        if (s.coord.backends p).gxid≠0 ∧ s.coord.latestCompletedGxid<(s.coord.backends p).gxid then
          (s.coord.backends p).gxid else s.coord.latestCompletedGxid }.setBackend p .idle } := by
  have hinv := endGxact_coordInv h.coord_inv hp hend
  refine h.coordMove ?_ hinv s.dtxSegments s.pending fun q => ?_
  · refine .ofBackend rfl rfl (fun _ => id) h.kept h.forgotten h.array ?_ ?_
    · simp [idle]
    · exact fun g hd => ⟨hd.not_committed,hd.ne_zero.symm⟩
  · by_cases hqp : q=p
    · subst hqp
      exact holderOk_idle (setBackend_self _ _ _)
    · exact (h.holders q).congr (setBackend_ne hqp) (fun _ => rfl) rfl rfl

end

theorem recoveryForget_clusterInv (h : ClusterInv c s) (hmay : s.recoveryMay .forget)
    (hnot : s.coord.dtmStarted=false) (hg : s.coord.committedGxids[s.coord.recovering]?=some g)
    (hs : s.coord.log.insert (.distributedForget g)=some log) : ClusterInv c { s with
      coord := { s.coord with log := log, recovering := s.coord.recovering+1 } } := by
  have hinv := recoveryForget_coordInv h.coord_inv hnot hg hs
  obtain ⟨-,rfl⟩ := insert_eq hs
  have hlen := h.coord_inv.log_inv.flushed_le
  obtain ⟨d,hd,hdg,hsucc⟩ := hmay
  obtain ⟨hcmd,htgt⟩ := h.notifying d hd
  obtain rfl := Option.some.inj (hdg.symm.trans hg)
  have hcomp : Completed s d.gxid := by
    refine ⟨h.array _ (mem_of_getElem? hg),fun i => ?_⟩
    by_cases habs : s.part d.gxid i=.absent
    · rw [habs]
      rfl
    · have hi : i∈d.targets := by
        rw [htgt]
        exact mem_range.mpr (h.assigned _ i habs).2.2
      exact ((h.acks _ (hsucc.ack hi)).commits (by rw [hcmd]; rfl)).2
  refine h.coordMove ?_ hinv s.dtxSegments s.pending fun q => (h.holders q).congr rfl (fun _ => rfl) rfl rfl
  constructor
  case durable => exact fun g hg => hg.concat hlen rfl rfl
  case nextGxid => exact le_refl _
  case committed =>
    intro g i hg
    exact h.kept g i (((committed_concat _ g).mp hg).resolve_right (by simp))
  case forgotten =>
    intro g hg
    rcases (forgotten_concat _ g).mp hg with hg | hg
    · exact h.forgotten g hg
    · obtain rfl := distributedForget.inj hg
      exact hcomp
  case doomed =>
    intro g hd
    refine ⟨hd.ne_zero,hd.lt,fun hg => hd.not_committed ?_,hd.holder⟩
    exact ((committed_concat _ g).mp hg).resolve_right (by simp)
  case active => exact fun q hq _ => ⟨rfl,hq⟩
  case preparing => exact fun q hq => ⟨rfl,.inl hq⟩
  case array => exact fun g hg => (h.array g hg).concat hlen rfl rfl

end WarehousePG.Dtm
