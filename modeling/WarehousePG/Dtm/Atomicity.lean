import WarehousePG.Dtm.ClusterSteps

namespace WarehousePG.Dtm

open Framework Function List Option Cluster

section

variable {c : ClusterSettings} {s : Cluster}

/-- Recovery starts from the flushed log with what it says about each segment. -/
theorem restart_clusterInv (h : ClusterInv c s) (hs : s.restart c=some t) : ClusterInv c t := by
  obtain ⟨v,hv,rfl⟩ := map_eq_some_iff.mp hs
  have hinv := restart_coordInv h.coord_inv hv
  obtain ⟨array,-,hvdef⟩ := map_eq_some_iff.mp hv
  have hidle : ∀ q, v.backends q=.idle := fun q => by rw [← hvdef]
  have hwal : v.log.wal=s.coord.log.wal.take s.coord.log.flushed := by rw [← hvdef]; rfl
  have hflus : v.log.flushed=s.coord.log.flushed := by rw [← hvdef]; rfl
  have hnext : s.coord.log.nextGxid≤v.log.nextGxid := by
    rw [← hvdef]
    exact (nextGxid_le_bound _).trans (bound_le_restart h.coord_inv.log_inv)
  have hdur : ∀ g, Durable v g ↔ Durable s.coord g := fun g => by
    unfold Durable
    rw [hwal,hflus,take_take,Nat.min_self]
  have hcom : ∀ g, Committed v.log.wal g → Durable s.coord g := fun g hg => by
    rw [hwal] at hg
    exact hg
  have hmove : CoordMove s v := by
    constructor
    case durable => exact fun g hg => (hdur g).mpr hg
    case nextGxid => exact hnext
    case committed => exact fun g i hg => h.kept g i (hcom g hg).committed
    case forgotten =>
      intro g hg
      rw [hwal] at hg
      exact h.forgotten g hg.mono
    case doomed =>
      intro g hd
      refine ⟨hd.ne_zero,hd.lt.trans_le hnext,fun hg => hd.not_durable (hcom g hg),fun q hq => ?_⟩
      rw [hidle] at hq
      exact absurd hq.symm hd.ne_zero
    case active | preparing =>
      intro q hst
      rw [hidle] at hst
      cases hst
    case array => exact fun g hg => (hdur g).mpr (hcom g (hinv.array_committed g hg))
  have hmov := h.coordMove hmove hinv (fun _ => []) (fun _ => none)
    fun q => holderOk_idle (hidle q)
  constructor
  case coord_inv => exact hinv
  case assigned => exact hmov.assigned
  case durable => exact hmov.durable
  case kept => exact hmov.kept
  case forgotten =>
    intro g hg
    obtain ⟨hd,hf⟩ := hmov.forgotten g hg
    exact ⟨hd,hf⟩
  case writer => exact h.writer
  case holders => exact fun q => holderOk_idle (hidle q)
  case messages =>
    exact fun m hm => (hmov.messages m hm).congr rfl fun hd => ⟨hd.durable,hd.finished⟩
  case acks => exact fun m hm => absurd hm not_mem_nil
  case array => exact hmov.array
  case notifying =>
    intro d hd
    cases hd
  case inDoubt =>
    intro gs hgs
    cases hgs
  case orphans => exact fun g hg => absurd hg not_mem_nil

theorem setPart_part_self (s : Cluster) (g i : Nat) (ctx : QeContext) (part : Part) :
    (s.setPart g i ctx part).part g i=part := by
  simp [setPart]

variable {g : Nat}

theorem setPart_part_ne (s : Cluster) (ctx : QeContext) (part : Part)
    (h : ¬ (g'=g ∧ i'=i)) : (s.setPart g i ctx part).part g' i'=s.part g' i' := by
  unfold setPart
  dsimp only
  by_cases hg : g'=g
  · subst hg
    rw [update_self,update_of_ne fun hi => h ⟨rfl,hi⟩]
  · rw [update_of_ne hg]

theorem setPart_qe (s : Cluster) (g i g' i' : Nat) (ctx : QeContext) (part : Part) :
    (s.setPart g i ctx part).qe g' i'=if g'=g ∧ i'=i then ctx else s.qe g' i' := by
  unfold setPart
  dsimp only
  by_cases hg : g'=g
  · subst hg
    by_cases hi : i'=i
    · subst hi
      simp
    · rw [update_self,update_of_ne hi]
      simp [hi]
  · rw [update_of_ne hg]
    simp [hg]

structure PartMove (s : Cluster) (g i : Nat) (ctx : QeContext) (part : Part) : Prop where
  writer : WriterOk ctx part
  absent : part=.absent ↔ s.part g i=.absent
  durable : part=.committed → Durable s.coord g
  kept : Committed s.coord.log.wal g → part.kept=true
  finished : Committed s.coord.log.wal g → (s.part g i).finished=true → part.finished=true
  prepared : ¬ Committed s.coord.log.wal g → ¬ Doomed s.coord g → s.part g i=.prepared →
    part=.prepared

variable {part : Part}

theorem Completed.setPart (h : Completed s g')
    (hm : PartMove s g i ctx part) : Completed (s.setPart g i ctx part) g' := by
  refine ⟨h.durable,fun i' => ?_⟩
  by_cases heq : g'=g ∧ i'=i
  · obtain ⟨rfl,rfl⟩ := heq
    rw [setPart_part_self]
    exact hm.finished h.durable.committed (h.finished i')
  · rw [setPart_part_ne _ _ _ heq]
    exact h.finished i'

theorem not_doomed (hst : hopeless (s.coord.backends p).state=false) :
    ¬ Doomed s.coord (s.coord.backends p).gxid := by
  intro hd
  have hbad := hd.holder p rfl
  rw [hst] at hbad
  cases hbad

theorem HolderOk.setPart (hinv : CoordInv c.qd s.coord)
    (h : HolderOk s p) (hm : PartMove s g i ctx part) : HolderOk (s.setPart g i ctx part) p := by
  have hok := hinv.backend_ok p
  constructor
  case segs =>
    intro h0 i' hne
    refine h.segs h0 i' ?_
    by_cases heq : (s.coord.backends p).gxid=g ∧ i'=i
    · obtain ⟨hg,rfl⟩ := heq
      change (s.setPart g i' ctx part).part (s.coord.backends p).gxid i'≠.absent at hne
      rw [hg] at hne ⊢
      rw [setPart_part_self] at hne
      exact fun habs => hne (hm.absent.mpr habs)
    · rw [← setPart_part_ne s ctx part heq]
      exact hne
  case voted =>
    intro hst i' hi'
    have hold := h.voted hst i' hi'
    by_cases heq : (s.coord.backends p).gxid=g ∧ i'=i
    · obtain ⟨hg,rfl⟩ := heq
      have hnc := (hok.uncommitted (.inr (.inr (.inr hst)))).2.2
      have hnd : ¬ Doomed s.coord (s.coord.backends p).gxid := by
        apply not_doomed
        have hst' : (s.coord.backends p).state=.prepared ∨
            ((s.coord.backends p).state=.insertingCommitted ∧ _) := hst
        rcases hst' with hst | ⟨hst,-⟩ <;> rw [hst] <;> rfl
      change (s.setPart g i' ctx part).part (s.coord.backends p).gxid i'=.prepared
      rw [hg] at hold hnc hnd ⊢
      rw [setPart_part_self]
      exact hm.prepared hnc hnd hold
    · exact (setPart_part_ne s ctx part heq).trans hold
  case notified =>
    intro hst i'
    have hold := h.notified hst i'
    by_cases heq : (s.coord.backends p).gxid=g ∧ i'=i
    · obtain ⟨hg,rfl⟩ := heq
      have hd := (hok.durable (.inr (.inr hst))).committed
      change ((s.setPart g i' ctx part).part (s.coord.backends p).gxid i').finished=true
      rw [hg] at hold hd ⊢
      rw [setPart_part_self]
      exact hm.finished hd hold
    · change ((s.setPart g i ctx part).part (s.coord.backends p).gxid i').finished=true
      rw [setPart_part_ne s ctx part heq]
      exact hold
  case asked => exact h.asked
  case told => exact h.told

theorem AckOk.setPart
    (hinv : CoordInv c.qd s.coord) (h : AckOk s m) (hm : PartMove s g i ctx part) :
    AckOk (s.setPart g i ctx part) m := by
  constructor
  case commits =>
    intro hc
    obtain ⟨hd,hf⟩ := h.commits hc
    refine ⟨hd,?_⟩
    by_cases heq : m.gxid=g ∧ m.seg=i
    · obtain ⟨rfl,rfl⟩ := heq
      rw [setPart_part_self]
      exact hm.finished hd.committed hf
    · rw [setPart_part_ne _ _ _ heq]
      exact hf
  case prepare =>
    intro hc
    obtain ⟨hlt,hq⟩ := h.prepare hc
    refine ⟨hlt,fun q hgx => ⟨(hq q hgx).1,fun hst => ?_⟩⟩
    have hold := (hq q hgx).2 hst
    by_cases heq : m.gxid=g ∧ m.seg=i
    · obtain ⟨rfl,rfl⟩ := heq
      have hst' : (s.coord.backends q).state=.preparing := hst
      have hgx' : (s.coord.backends q).gxid=m.gxid := hgx
      have hnc := ((hinv.backend_ok q).uncommitted (.inr (.inr (.inl hst')))).2.2
      have hnd := not_doomed (s := s) (p := q) (by rw [hst']; rfl)
      rw [hgx'] at hnc hnd
      rw [setPart_part_self]
      exact hm.prepared hnc hnd hold
    · rw [setPart_part_ne _ _ _ heq]
      exact hold

/-- A segment's move concerns one transaction and agrees with the coordinator's decision. -/
theorem ClusterInv.setPart (h : ClusterInv c s)
    (hm : PartMove s g i ctx part) : ClusterInv c (s.setPart g i ctx part) := by
  have hpart : ∀ (Q : Nat → Nat → Part → Prop), (∀ g' i', Q g' i' (s.part g' i')) → Q g i part →
      ∀ g' i', Q g' i' ((s.setPart g i ctx part).part g' i') := by
    intro Q hold hnew g' i'
    by_cases heq : g'=g ∧ i'=i
    · obtain ⟨rfl,rfl⟩ := heq
      rw [setPart_part_self]
      exact hnew
    · rw [setPart_part_ne _ _ _ heq]
      exact hold g' i'
  constructor
  case coord_inv => exact h.coord_inv
  case assigned =>
    exact hpart (fun g' i' q => q≠.absent → g'≠0 ∧ g'<s.coord.log.nextGxid ∧ i'<c.numSegments)
      h.assigned fun hne => h.assigned g i fun habs => hne (hm.absent.mpr habs)
  case durable => exact hpart (fun g' _ q => q=.committed → Durable s.coord g') h.durable hm.durable
  case kept => exact hpart (fun g' _ q => Committed s.coord.log.wal g' → q.kept=true) h.kept hm.kept
  case forgotten => exact fun g' hf => (h.forgotten g' hf).setPart hm
  case writer =>
    intro g' i'
    rw [setPart_qe]
    by_cases heq : g'=g ∧ i'=i
    · obtain ⟨rfl,rfl⟩ := heq
      rw [setPart_part_self,if_pos ⟨rfl,rfl⟩]
      exact hm.writer
    · rw [setPart_part_ne _ _ _ heq,if_neg heq]
      exact h.writer g' i'
  case holders => exact fun q => (h.holders q).setPart h.coord_inv hm
  case messages => exact fun m hmem => (h.messages m hmem).congr rfl fun hd => hd.setPart hm
  case acks => exact fun m hmem => (h.acks m hmem).setPart h.coord_inv hm
  case array => exact h.array
  case notifying => exact h.notifying
  case inDoubt => exact h.inDoubt
  case orphans => exact h.orphans

theorem ClusterInv.receive (h : ClusterInv c s) (ms as : List Message)
    (hms : ∀ m∈ms, m∈s.inFlight) (has : ∀ m∈as, AckOk s m) :
    ClusterInv c { s with inFlight := ms, acks := as } := by
  refine { h with
    forgotten := ?forgotten, holders := ?holders, messages := ?messages, acks := ?acks }
  case forgotten =>
    intro g hg
    obtain ⟨hd,hf⟩ := h.forgotten g hg
    exact ⟨hd,hf⟩
  case holders => exact fun q => (h.holders q).congr rfl (fun _ => rfl) rfl rfl
  case messages =>
    exact fun m hm => (h.messages m (hms m hm)).congr rfl fun hd => ⟨hd.durable,hd.finished⟩
  case acks => exact fun m hm => ⟨(has m hm).commits,(has m hm).prepare⟩

theorem Part.kept_of_finished (h : part.finished=true) : part.kept=true := by
  cases part <;> simp_all [Part.finished,Part.kept]

/-- A protocol command moves the segment only as its message allows. -/
theorem perform_partMove (ok : Bool) (h : ClusterInv c s) (hm : MessageOk s m) :
    let r := performDtxProtocolCommand m.cmd (s.qe m.gxid m.seg) (s.part m.gxid m.seg) ok
    PartMove s m.gxid m.seg r.1 r.2.1 := by
  intro r
  have hw := h.writer m.gxid m.seg
  obtain ⟨hwr,habs,hcom⟩ := perform_frame m.cmd _ _ ok hw
  have hkept := perform_kept m.cmd _ (s.part m.gxid m.seg) ok hw
  constructor
  case writer => exact hwr
  case absent => exact habs
  case durable =>
    intro hc
    rcases hcom hc with hold | ⟨hcmd,-⟩
    · exact h.durable _ _ hold
    · rw [MessageOk,if_pos hcmd] at hm
      exact hm
  case kept =>
    intro hc
    have hk := h.kept m.gxid m.seg hc
    obtain ⟨hp,hf,hcm⟩ := hkept hk
    unfold MessageOk at hm
    split_ifs at hm with h1 h2
    · exact (hcm h1).1
    · rw [hp h2]
      exact hk
    · rcases hm with hd | hd
      · exact absurd hc hd.not_committed
      · rw [hf (hd.finished m.seg)]
        exact hk
  case finished =>
    intro _ hf
    rw [(hkept (Part.kept_of_finished hf)).2.1 hf]
    exact hf
  case prepared =>
    intro hnc hnd hold
    unfold MessageOk at hm
    split_ifs at hm with h1 h2
    · exact absurd hm.committed hnc
    · have hstay := (hkept (by rw [hold]; rfl)).1 h2
      exact hstay.trans hold
    · rcases hm with hd | hd
      · exact absurd hd hnd
      · exact absurd hd.durable.committed hnc

theorem perform_ackOk (ok : Bool) (h : ClusterInv c s) (hm : MessageOk s m)
    (hack : (performDtxProtocolCommand m.cmd (s.qe m.gxid m.seg) (s.part m.gxid m.seg) ok).2.2=
      true) : let r := performDtxProtocolCommand m.cmd (s.qe m.gxid m.seg) (s.part m.gxid m.seg) ok
    AckOk (s.setPart m.gxid m.seg r.1 r.2.1) m := by
  have hw := h.writer m.gxid m.seg
  constructor
  case commits =>
    intro hc
    rw [MessageOk,if_pos hc] at hm
    have hk := h.kept m.gxid m.seg hm.committed
    refine ⟨hm,?_⟩
    rw [setPart_part_self]
    exact ((perform_kept m.cmd _ _ ok hw hk).2.2 hc).2 hack
  case prepare =>
    intro hc
    rw [MessageOk,if_neg (by rw [hc]; decide),if_pos hc] at hm
    refine ⟨hm.1,fun q hq => ⟨hm.2 q hq,fun _ => ?_⟩⟩
    rw [setPart_part_self]
    rw [hc] at hack ⊢
    exact (perform_prepare _ _ ok hw).1 hack

attribute [local simp] Part.abortActive

section

variable (h : ClusterInv c s)
include h

theorem deliver_clusterInv (hs : s.deliver m ok reported=some t) : ClusterInv c t := by
  obtain ⟨hmem,rfl⟩ := of_guard hs
  have hok := h.messages m hmem
  have hmove := perform_partMove ok h hok
  have hset := h.setPart hmove
  refine hset.receive _ _ (fun m' hm' => mem_of_mem_erase hm') ?_
  intro m' hm'
  split_ifs at hm' with hack
  · rcases mem_cons.mp hm' with rfl | hm'
    · rw [Bool.and_eq_true] at hack
      exact perform_ackOk ok h hok hack.1
    · exact hset.acks m' hm'
  · exact hset.acks m' hm'

theorem qeLost_clusterInv (g i : Nat) : ClusterInv c (s.qeLost g i) := by
  have hw := h.writer g i
  refine h.setPart ⟨?_,?_,?_,?_,?_,?_⟩
  · intro hbad
    cases hbad
  · cases s.part g i <;> simp
  · intro hc
    apply h.durable g i
    cases hp : s.part g i <;> simp_all
  · intro hc
    have hk := h.kept g i hc
    cases hp : s.part g i <;> simp_all [Part.kept]
  · intro _ hf
    cases hp : s.part g i <;> simp_all [Part.finished]
  · intro _ _ hp
    rw [hp]
    rfl

theorem statement_clusterInv (hs : s.statement c p i=some t) : ClusterInv c t := by
  obtain ⟨⟨hst,hi,hnew⟩,rfl⟩ := of_guard hs
  obtain ⟨h0,hlt,hnc⟩ := (h.coord_inv.backend_ok p).uncommitted (.inr (.inl hst))
  generalize hgx : (s.coord.backends p).gxid=g at h0 hlt hnc ⊢
  have hhol : ∀ q, (s.coord.backends q).gxid=g → q=p := fun q hq =>
    h.coord_inv.distinct q p (by rw [hq]; exact h0) (hq.trans hgx.symm)
  have hot : ∀ g' i', g'≠g → (s.setPart g i .writer .active).part g' i'=s.part g' i' :=
    fun g' i' hne => setPart_part_ne _ _ _ fun heq => hne heq.1
  have hcomp : ∀ g', Completed s g' → g'≠g ∧
      ∀ i', ((s.setPart g i .writer .active).part g' i').finished=true := by
    intro g' hd
    have hne : g'≠g := fun heq => hnc (heq ▸ hd.durable.committed)
    refine ⟨hne,fun i' => ?_⟩
    rw [hot g' i' hne]
    exact hd.finished i'
  constructor
  case coord_inv => exact h.coord_inv
  case assigned =>
    intro g' i' hne
    by_cases heq : g'=g ∧ i'=i
    · obtain ⟨rfl,rfl⟩ := heq
      exact ⟨h0,hlt,hi⟩
    · apply h.assigned g' i'
      rw [← setPart_part_ne s .writer .active heq]
      exact hne
  case durable =>
    intro g' i' hc
    by_cases heq : g'=g ∧ i'=i
    · obtain ⟨rfl,rfl⟩ := heq
      rw [setPart_part_self] at hc
      cases hc
    · apply h.durable g' i'
      rw [← setPart_part_ne s .writer .active heq]
      exact hc
  case kept =>
    intro g' i' hc
    have hne : g'≠g := fun heq => hnc (heq ▸ hc)
    dsimp only
    rw [hot g' i' hne]
    exact h.kept g' i' hc
  case forgotten =>
    intro g' hf
    have hd := h.forgotten g' hf
    exact ⟨hd.durable,(hcomp g' hd).2⟩
  case writer =>
    intro g' i'
    rw [setPart_qe]
    by_cases heq : g'=g ∧ i'=i
    · obtain ⟨rfl,rfl⟩ := heq
      rw [setPart_part_self]
      exact fun _ => rfl
    · rw [setPart_part_ne _ _ _ heq,if_neg heq]
      exact h.writer g' i'
  case holders =>
    intro q
    by_cases hq : q=p
    · subst hq
      constructor
      case segs =>
        intro _ i' hne
        change i'∈update s.dtxSegments q (s.dtxSegments q ++ [i]) q
        rw [update_self]
        by_cases heq : i'=i
        · rw [heq]
          exact mem_append_right _ (mem_singleton_self i)
        · apply mem_append_left
          apply (h.holders q).segs (by rw [hgx]; exact h0)
          rw [← setPart_part_ne s .writer .active fun e => heq e.2]
          exact hne
      case voted => rintro (hst' | ⟨hst',-⟩) <;> exact absurd (hst.symm.trans hst') (by decide)
      case notified => exact fun hst' => absurd (hst.symm.trans hst') (by decide)
      case asked => exact fun d _ hst' => absurd (hst.symm.trans hst') (by decide)
      case told => rintro d - (hst' | hst') <;> exact absurd (hst.symm.trans hst') (by decide)
    · have hne : (s.coord.backends q).gxid≠g := fun e => hq (hhol q e)
      exact (h.holders q).congr rfl (fun i' => hot _ i' hne) (update_of_ne hq _ _) rfl
  case messages =>
    exact fun m hm => (h.messages m hm).congr rfl fun hd => ⟨hd.durable,(hcomp m.gxid hd).2⟩
  case acks =>
    intro m hm
    obtain ⟨h1,h2⟩ := h.acks m hm
    constructor
    · intro hc
      obtain ⟨hd,hf⟩ := h1 hc
      have hne : m.gxid≠g := fun heq => hnc (heq ▸ hd.committed)
      refine ⟨hd,?_⟩
      rw [hot _ _ hne]
      exact hf
    · intro hc
      obtain ⟨hlt',hq⟩ := h2 hc
      refine ⟨hlt',fun q hgx' => ⟨(hq q hgx').1,fun hst' => ?_⟩⟩
      have hne : m.gxid≠g := by
        intro heq
        have hqp := hhol q (hgx'.trans heq)
        subst hqp
        exact (hq q hgx').1 hst
      dsimp only
      rw [hot _ _ hne]
      exact (hq q hgx').2 hst'
  case array => exact h.array
  case notifying => exact h.notifying
  case inDoubt => exact h.inDoubt
  case orphans => exact h.orphans

theorem ClusterInv.withRecovery (n : Option Dispatch) (l : Option (List Nat)) (o : List Nat)
    (hn : ∀ d, n=some d → d.cmd=.recoveryCommitPrepared ∧ d.targets=range c.numSegments)
    (hl : ∀ gs, l=some gs → ∀ g∈gs, Doomed s.coord g) (ho : ∀ g∈o, g≠0 ∧ g<s.coord.log.nextGxid) :
    ClusterInv c { s with notifying := n, inDoubt := l, orphans := o } := by
  refine { h with
    forgotten := ?forgotten, holders := ?holders, messages := ?messages, acks := ?acks
    notifying := ?notifying, inDoubt := ?inDoubt, orphans := ?orphans }
  case forgotten =>
    intro g hg
    obtain ⟨hd,hf⟩ := h.forgotten g hg
    exact ⟨hd,hf⟩
  case holders => exact fun q => (h.holders q).congr rfl (fun _ => rfl) rfl rfl
  case messages => exact fun m hm => (h.messages m hm).congr rfl fun hd => ⟨hd.durable,hd.finished⟩
  case acks => exact fun m hm => ⟨(h.acks m hm).commits,(h.acks m hm).prepare⟩
  case notifying => exact hn
  case inDoubt => exact hl
  case orphans => exact ho

theorem decided_of_no_holder (h0 : g≠0)
    (hlt : g<s.coord.log.nextGxid) (harr : s.coord.committedGxids=[])
    (hnone : ∀ q, (s.coord.backends q).gxid≠g) : Doomed s.coord g ∨ Completed s g := by
  by_cases hc : Committed s.coord.log.wal g
  · rcases h.coord_inv.accounted g hc with hf | ha | ⟨q,-,hq,-⟩
    · exact .inr (h.forgotten g hf)
    · rw [harr] at ha
      exact absurd ha not_mem_nil
    · exact absurd hq (hnone q)
  · exact .inl ⟨h0,hlt,hc,fun q hq => absurd hq (hnone q)⟩

end

theorem messages_ok {d : Dispatch} (h : ∀ i, MessageOk s ⟨d.number,d.gxid,i,d.cmd⟩) :
    ∀ m∈d.messages, MessageOk s m := by
  intro m hm
  obtain ⟨i,-,rfl⟩ := mem_map.mp hm
  exact h i

/-- Recovery finishes committed transactions and aborts the prepared ones in doubt. -/
theorem dtxRecoveryStep_clusterInv (h : ClusterInv c s)
    (hs : s.dtxRecoveryStep c a=some t) : ClusterInv c t := by
  cases a with
  | notifyCommitted =>
    simp only [dtxRecoveryStep] at hs
    split at hs
    · rename_i g hg
      obtain ⟨-,rfl⟩ := of_guard hs
      have hd := h.array g (mem_of_getElem? hg)
      have hsent := h.send _ (s.dispatches+1) (messages_ok
        (d := ⟨s.dispatches,g,.recoveryCommitPrepared,range c.numSegments⟩)
        fun i => .ofCommits rfl hd)
      refine hsent.withRecovery _ s.inDoubt s.orphans ?_ h.inDoubt h.orphans
      intro d hd
      cases hd
      exact ⟨rfl,rfl⟩
    · cases hs
  | gatherInDoubt i found =>
    obtain ⟨⟨⟨-,hnot,harr⟩,hfnd⟩,rfl⟩ := of_guard hs
    refine h.withRecovery s.notifying _ s.orphans h.notifying ?_ h.orphans
    intro gs hgs g hg
    cases hgs
    rcases mem_append.mp hg with hold | hnew
    · cases hd : s.inDoubt with
      | none =>
        rw [hd] at hold
        exact absurd hold not_mem_nil
      | some l =>
        rw [hd] at hold
        exact h.inDoubt l hd g hold
    · have hprep := hfnd g hnew
      obtain ⟨h0,hlt,-⟩ := h.assigned g i (by rw [hprep]; decide)
      -- before the DTM is started no backend has a transaction
      have hnone : ∀ q, (s.coord.backends q).gxid≠g := by
        intro q hq
        have hbusy := (h.coord_inv.busy q (by rw [hq]; exact h0)).1
        rw [hnot] at hbusy
        cases hbusy
      rcases decided_of_no_holder h h0 hlt harr hnone with hd | hd
      · exact hd
      · have hfin := hd.finished i
        rw [hprep] at hfin
        cases hfin
  | abortInDoubt =>
    simp only [dtxRecoveryStep] at hs
    split at hs
    · rename_i g gs hd
      cases hs
      have hdoom := h.inDoubt _ hd g mem_cons_self
      have hsent := h.send _ (s.dispatches+1) (messages_ok
        (d := ⟨s.dispatches,g,.recoveryAbortPrepared,range c.numSegments⟩)
        fun i => .ofOther rfl (by simp) (.inl hdoom))
      refine hsent.withRecovery s.notifying _ s.orphans h.notifying ?_ h.orphans
      intro gs' hgs g' hg'
      cases hgs
      exact h.inDoubt _ hd g' (mem_cons_of_mem _ hg')
    · cases hs
  | gatherOrphans i found =>
    obtain ⟨⟨-,hfnd⟩,rfl⟩ := of_guard hs
    refine h.withRecovery s.notifying s.inDoubt _ h.notifying h.inDoubt ?_
    intro g hg
    rcases mem_append.mp hg with hold | hnew
    · exact h.orphans g hold
    · obtain ⟨h0,hlt,-⟩ := h.assigned g i (by rw [hfnd g hnew]; decide)
      exact ⟨h0,hlt⟩
  | checkOrphan =>
    simp only [dtxRecoveryStep] at hs
    split at hs
    · rename_i g gs horph
      obtain ⟨hstd,hs⟩ := ite_none_right_eq_some.mp hs
      obtain ⟨h0,hlt⟩ := h.orphans g (by rw [horph]; exact mem_cons_self)
      have hrest : ∀ g'∈gs, g'≠0 ∧ g'<s.coord.log.nextGxid := fun g' hg' =>
        h.orphans g' (by rw [horph]; exact mem_cons_of_mem _ hg')
      by_cases hprog : ∃ q<c.qd.numProcs, (s.coord.backends q).gxid=g
      · rw [if_pos hprog] at hs
        cases hs
        exact h.withRecovery s.notifying s.inDoubt gs h.notifying h.inDoubt hrest
      · rw [if_neg hprog] at hs
        cases hs
        have hnone : ∀ q, (s.coord.backends q).gxid≠g := by
          intro q hq
          by_cases hlt : q<c.qd.numProcs
          · exact hprog ⟨q,hlt,hq⟩
          · rw [h.coord_inv.outside q (by omega)] at hq
            exact h0 hq.symm
        have hdec := decided_of_no_holder h h0 hlt (h.coord_inv.started hstd) hnone
        have hsent := h.send _ (s.dispatches+1) (messages_ok
          (d := ⟨s.dispatches,g,.recoveryAbortPrepared,range c.numSegments⟩)
          fun i => .ofOther rfl (by simp) hdec)
        exact hsent.withRecovery s.notifying s.inDoubt gs h.notifying h.inDoubt hrest
    · cases hs

end

open Option (ite_none_right_eq_some map_eq_some_iff)

variable {c : ClusterSettings} {s t : Cluster}

theorem backendStep_clusterInv (h : ClusterInv c s)
    (hs : s.backendStep c p a=some t) : ClusterInv c t := by
  obtain ⟨hmay,v,hv,rfl⟩ := of_guard_map hs
  obtain ⟨hpre,hv⟩ := ite_none_right_eq_some.mp hv
  have hloc : (localMove s.coord.log (s.coord.backends p) a).map (s.coord.setBackend p)=some v →
      ClusterInv c (if broadcasts a=true then { s with coord := v }.broadcast c p
        else { s with coord := v }) := by
    intro hm
    obtain ⟨b,hb,rfl⟩ := map_eq_some_iff.mp hm
    split_ifs with hcast
    · exact broadcast_clusterInv h hpre.2 hb hcast
    · exact localMove_clusterInv h hpre.2 hmay hb (by simpa using hcast)
  cases a with
  | activate =>
    obtain ⟨hc,log,hlog,rfl⟩ := of_guard_map hv
    exact activate_clusterInv h hpre.2 hc.1 hc.2 hlog
  | commitInsert =>
    obtain ⟨hc,log,hlog,rfl⟩ := of_guard_map hv
    exact commitInsert_clusterInv h hpre.2 hc.1 hc.2 hlog
  | forgetInsert =>
    obtain ⟨hc,log,hlog,rfl⟩ := of_guard_map hv
    exact forgetInsert_clusterInv h hpre.2 hc.1 hc.2 hlog
  | endGxact =>
    obtain ⟨hc,rfl⟩ := of_guard hv
    exact endGxact_clusterInv h hpre.2 hc
  | onePhase | prepare | prepareOk | commitBegin | commitInserted | commitFlushed
  | notifyCommit | notifyFailed | commitDone | forgetInserted | rollback lost | abortFailed =>
    exact hloc hv

section

variable (hp : c.qd.prefetch<2^31)
include hp

theorem recoveryStep_clusterInv
    (h : ClusterInv c s) (hmay : s.recoveryMay a) (hs : s.coord.recoveryStep a=some v) :
    ClusterInv c { s with coord := v } := by
  have hinv := step_coordInv hp s.coord (.recovery a) v h.coord_inv hs
  cases a with
  | forget =>
    obtain ⟨hpre,hs⟩ := ite_none_right_eq_some.mp hs
    dsimp only at hs
    split at hs
    · rename_i g hg
      obtain ⟨log,hlog,rfl⟩ := map_eq_some_iff.mp hs
      exact recoveryForget_clusterInv h hmay hpre.2 hg hlog
    · cases hs
  | again => exact h.same (background_sameView (c := c) (a := .recovery .again) trivial hs) hinv
  | done => exact h.same (background_sameView (c := c) (a := .recovery .done) trivial hs) hinv
  | started => exact h.same (background_sameView (c := c) (a := .recovery .started) trivial hs) hinv

/-- Every action of the cluster keeps the invariant. -/
theorem step_clusterInv (s : Cluster) (a : ClusterAction) (t : Cluster)
    (h : ClusterInv c s) (hs : s.step c a=some t) : ClusterInv c t := by
  have hbg : ∀ a, Background a →
      (s.coord.step c.qd a).map (fun coord => { s with coord := coord })=some t →
        ClusterInv c t := by
    intro a ha hs
    obtain ⟨v,hv,rfl⟩ := map_eq_some_iff.mp hs
    exact h.same (background_sameView ha hv) (step_coordInv hp _ a _ h.coord_inv hv)
  cases a with
  | statement p i => exact statement_clusterInv h hs
  | deliver m ok reported => exact deliver_clusterInv h hs
  | qeLost g i =>
    cases hs
    exact qeLost_clusterInv h g i
  | dtxRecovery a => exact dtxRecoveryStep_clusterInv h hs
  | coord a =>
    cases a with
    | backend p a => exact backendStep_clusterInv h hs
    | recovery a =>
      obtain ⟨hmay,v,hv,rfl⟩ := of_guard_map hs
      exact recoveryStep_clusterInv hp h hmay hv
    | restart => exact restart_clusterInv h hs
    | ckpt a => exact hbg (.ckpt a) trivial hs
    | bumpAcquire => exact hbg .bumpAcquire trivial hs
    | bumpLimit => exact hbg .bumpLimit trivial hs
    | bumpInsert => exact hbg .bumpInsert trivial hs
    | bumpFinish => exact hbg .bumpFinish trivial hs
    | insertOther => exact hbg .insertOther trivial hs
    | flush upto => exact hbg (.flush upto) trivial hs
    | openForBusiness => exact hbg .openForBusiness trivial hs
    | stop => exact hbg .stop trivial hs

theorem clusterInv_bootstrap : ClusterInv c .bootstrap := by
  constructor
  case coord_inv => exact coordInv_bootstrap hp
  case assigned => exact fun g i hne => absurd rfl hne
  case durable =>
    intro g i hc
    cases hc
  case kept => exact fun _ _ _ => rfl
  case forgotten =>
    intro g hf
    simp [Forgotten,bootstrap,Coordinator.bootstrap,Log.bootstrap] at hf
  case writer =>
    intro g i hw
    cases hw
  case holders => exact fun q => holderOk_idle rfl
  case messages | acks => exact fun m hm => absurd hm List.not_mem_nil
  case array | orphans => exact fun g hg => absurd hg List.not_mem_nil
  case notifying =>
    intro d hd
    cases hd
  case inDoubt =>
    intro gs hgs
    cases hgs

end

variable {as : List ClusterAction}

theorem run_clusterInv (hp : c.qd.prefetch<2^31)
    (hr : run (step c) .bootstrap as=some s) : ClusterInv c s :=
  run_invariant (step_clusterInv hp) (clusterInv_bootstrap hp) hr

theorem broadcast_coord (c : ClusterSettings) (s : Cluster) (p : Nat) :
    (s.broadcast c p).coord=s.coord := by
  unfold broadcast
  dsimp only
  split <;> rfl

/-- A step of the cluster is at most one step of the coordinator. -/
theorem step_coord (hs : s.step c a=some t) :
    t.coord=s.coord ∨ ∃ b, s.coord.step c.qd b=some t.coord := by
  have hmap : ∀ b, (s.coord.step c.qd b).map (fun coord => { s with coord := coord })=some t →
      t.coord=s.coord ∨ ∃ b, s.coord.step c.qd b=some t.coord := by
    intro b hb
    obtain ⟨v,hv,rfl⟩ := map_eq_some_iff.mp hb
    exact Or.inr ⟨b,hv⟩
  cases a with
  | statement p i | deliver m ok reported =>
    obtain ⟨-,rfl⟩ := of_guard hs
    exact Or.inl rfl
  | qeLost g i =>
    cases hs
    exact Or.inl rfl
  | dtxRecovery a =>
    apply Or.inl
    simp only [step] at hs
    cases a <;> simp only [dtxRecoveryStep] at hs <;> (try split at hs) <;>
      (try split_ifs at hs) <;> cases hs <;> rfl
  | coord a =>
    cases a with
    | backend p a =>
      obtain ⟨-,v,hv,rfl⟩ := of_guard_map hs
      refine Or.inr ⟨.backend p a,?_⟩
      split_ifs
      · exact hv
      · rw [broadcast_coord]
        exact hv
      · exact hv
    | recovery a =>
      obtain ⟨-,hs⟩ := ite_none_right_eq_some.mp hs
      exact hmap (.recovery a) hs
    | restart =>
      obtain ⟨v,hv,rfl⟩ := map_eq_some_iff.mp hs
      exact Or.inr ⟨.restart,hv⟩
    | ckpt a => exact hmap (.ckpt a) hs
    | bumpAcquire => exact hmap .bumpAcquire hs
    | bumpLimit => exact hmap .bumpLimit hs
    | bumpInsert => exact hmap .bumpInsert hs
    | bumpFinish => exact hmap .bumpFinish hs
    | insertOther => exact hmap .insertOther hs
    | flush upto => exact hmap (.flush upto) hs
    | openForBusiness => exact hmap .openForBusiness hs
    | stop => exact hmap .stop hs

variable {g : Nat}

/-- A commit record that is flushed stays so. -/
theorem step_durable (h : CoordInv c.qd u)
    (hs : u.step c.qd a=some v) (hg : Durable u g) : Durable v g := by
  have hlen := h.log_inv.flushed_le
  by_cases ha : Background a
  · exact (background_sameView ha hs).durable g hg
  cases a with
  | restart =>
    obtain ⟨array,-,rfl⟩ := map_eq_some_iff.mp hs
    change Committed ((u.log.wal.take u.log.flushed).take u.log.flushed) g
    rw [List.take_take,Nat.min_self]
    exact hg
  | recovery a =>
    cases a with
    | forget =>
      obtain ⟨-,hs⟩ := ite_none_right_eq_some.mp hs
      split at hs
      · obtain ⟨log,hlog,rfl⟩ := map_eq_some_iff.mp hs
        obtain ⟨-,rfl⟩ := insert_eq hlog
        exact hg.concat hlen rfl rfl
      · cases hs
    | again | done | started => exact absurd trivial ha
  | backend p a =>
    obtain ⟨-,hs⟩ := ite_none_right_eq_some.mp hs
    have hloc : (localMove u.log (u.backends p) a).map (u.setBackend p)=some v → Durable v g := by
      intro hm
      obtain ⟨b,-,rfl⟩ := map_eq_some_iff.mp hm
      exact hg
    cases a with
    | activate =>
      obtain ⟨-,log,hlog,rfl⟩ := of_guard_map hs
      obtain ⟨-,rfl⟩ := of_guard hlog
      exact hg
    | commitInsert | forgetInsert =>
      obtain ⟨-,log,hlog,rfl⟩ := of_guard_map hs
      obtain ⟨-,rfl⟩ := insert_eq hlog
      exact hg.concat hlen rfl rfl
    | endGxact =>
      obtain ⟨-,rfl⟩ := of_guard hs
      exact hg
    | onePhase | prepare | prepareOk | commitBegin | commitInserted | commitFlushed | notifyCommit
      | notifyFailed | commitDone | forgetInserted | rollback _ | abortFailed => exact hloc hs
  | ckpt a => exact absurd trivial ha
  | bumpAcquire | bumpLimit | bumpInsert | bumpFinish | insertOther | flush _ | openForBusiness
    | stop => exact absurd trivial ha

theorem run_durable (hp : c.qd.prefetch<2^31) (h : ClusterInv c s)
    (hr : run (step c) s as=some t) (hg : Durable s.coord g) : Durable t.coord g := by
  refine run_related (P := ClusterInv c) (R := fun s t => Durable s.coord g → Durable t.coord g)
    (fun _ => id) (fun _ _ _ h1 h2 hd => h2 (h1 hd)) (step_clusterInv hp) ?_ h hr hg
  intro s a t h hs hd
  rcases step_coord hs with heq | ⟨b,hb⟩
  · rw [heq]
    exact hd
  · exact step_durable h.coord_inv hb hd

/-- Two-phase commit is atomic: a segment commits its part only when the distributed commit record
is on disk, no part of a transaction whose commit record is in the WAL has been or ever will be
aborted, and so no two segments come to different outcomes. -/
theorem two_phase_commit_atomic (c : ClusterSettings)
    (hp : 512≤c.qd.prefetch ∧ c.qd.prefetch≤2^31-1) (as : List ClusterAction) (s : Cluster)
    (hr : run (step c) .bootstrap as=some s) (g : Nat) :
    (∀ i, s.part g i=.committed → Durable s.coord g) ∧
    (∀ i, Committed s.coord.log.wal g → s.part g i≠.aborted) ∧
    (∀ i j, s.part g i=.committed → s.part g j≠.aborted) ∧
    ∀ as' t, run (step c) s as'=some t → Durable s.coord g → ∀ i, t.part g i≠.aborted := by
  have hp' : c.qd.prefetch<2^31 := by omega
  have h := run_clusterInv hp' hr
  have hkept : ∀ {t : Cluster}, ClusterInv c t → Committed t.coord.log.wal g →
      ∀ i, t.part g i≠.aborted := by
    intro t ht hc i hbad
    have hk := ht.kept g i hc
    rw [hbad] at hk
    cases hk
  refine ⟨h.durable g,fun i hc => hkept h hc i,fun i j hi => ?_,fun as' t ht hd => ?_⟩
  · exact hkept h (h.durable g i hi).committed j
  · have hinv := run_invariant (step_clusterInv hp') h ht
    exact hkept hinv (run_durable hp' h ht hd).committed

/-- Two segments prepare a transaction; its coordinator crashes when one of them has committed,
and the recovery tells both. -/
def crashInSecondPhase : List ClusterAction :=
  [.coord .openForBusiness,.dtxRecovery (.gatherInDoubt 0 []),.coord (.recovery .started),
    .coord .bumpAcquire,.coord .bumpLimit,.coord .bumpInsert,.coord (.flush 2),.coord .bumpFinish,
    .coord (.backend 0 .activate),.statement 0 0,.statement 0 1,.coord (.backend 0 .prepare),
    .deliver ⟨0,1,0,.prepare⟩ true true,.deliver ⟨0,1,1,.prepare⟩ true true,
    .coord (.backend 0 .prepareOk),.coord (.backend 0 .commitBegin),
    .coord (.backend 0 .commitInsert),.coord (.backend 0 .commitInserted),.coord (.flush 3),
    .coord (.backend 0 .commitFlushed),.coord (.backend 0 .notifyCommit),
    .deliver ⟨1,1,0,.commitPrepared⟩ true false,.coord .restart,.coord .openForBusiness,
    .dtxRecovery .notifyCommitted,.deliver ⟨2,1,0,.recoveryCommitPrepared⟩ true true,
    .deliver ⟨2,1,1,.recoveryCommitPrepared⟩ true true,.coord (.recovery .forget)]

theorem two_phase_commit_atomic_over_crash :
    ∃ s, run (step ⟨⟨1,512,4⟩,2⟩) .bootstrap crashInSecondPhase=some s ∧
      s.part 1 0=.committed ∧ s.part 1 1=.committed ∧ Durable s.coord 1 := by
  refine exists_run_of (fun s => s.part 1 0=.committed ∧ s.part 1 1=.committed)
    (by decide +kernel) ?_
  rintro s hs ⟨h0,h1⟩
  have hatomic := two_phase_commit_atomic ⟨⟨1,512,4⟩,2⟩ (by decide) crashInSecondPhase s hs 1
  exact ⟨h0,h1,hatomic.1 0 h0⟩

/-- A transaction is forgotten when every segment is done with it. Until then it is in the array
that recovery works through or, after recovery, with a backend. -/
theorem second_phase_never_dropped (c : ClusterSettings)
    (hp : 512≤c.qd.prefetch ∧ c.qd.prefetch≤2^31-1) (as : List ClusterAction) (s : Cluster)
    (hr : run (step c) .bootstrap as=some s) (g : Nat) :
    (Forgotten s.coord.log.wal g → Completed s g) ∧
    (Committed s.coord.log.wal g → ¬Forgotten s.coord.log.wal g →
      if s.coord.dtmStarted then ∃ p<c.qd.numProcs, (s.coord.backends p).gxid=g
      else g∈s.coord.committedGxids) := by
  have h := run_clusterInv (show c.qd.prefetch<2^31 by omega) hr
  have hinv := h.coord_inv
  refine ⟨h.forgotten g,fun hcom hfor => ?_⟩
  rcases (hinv.accounted g hcom).resolve_left hfor with hmem | ⟨p,hp,rfl,hst⟩
  · split_ifs with hstarted
    · rw [hinv.started hstarted] at hmem
      cases hmem
    · exact hmem
  · have hok := hinv.backend_ok p
    have hne : (s.coord.backends p).gxid≠0 := by
      rcases hst with hst | hst <;> rw [BackendOk,hst] at hok <;> exact hok.1.1
    rw [if_pos (hinv.busy p hne).1]
    exact ⟨p,hp,rfl⟩

theorem second_phase_never_dropped_crash :
    ∃ s, run (step ⟨⟨1,512,4⟩,2⟩) .bootstrap (crashInSecondPhase.take 23)=some s ∧
      s.part 1 1=.prepared ∧ 1∈s.coord.committedGxids := by
  refine exists_run_of (fun s => s.part 1 1=.prepared ∧ s.coord.dtmStarted=false ∧
    Committed s.coord.log.wal 1 ∧ ¬Forgotten s.coord.log.wal 1) (by decide +kernel) ?_
  rintro s hs ⟨hpart,hstarted,hcom,hfor⟩
  have hmain := (second_phase_never_dropped _ (by decide) _ s hs 1).2 hcom hfor
  rw [hstarted] at hmain
  exact ⟨hpart,hmain⟩

end WarehousePG.Dtm
