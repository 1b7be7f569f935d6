import WarehousePG.Anchor.Node

namespace WarehousePG.Anchor

open Transam List Option

section

/-- No cleanup applied past the anchor's restore point reaches its xmin. -/
def Fresh (wal : Wal) (s : Node) (f : AnchorFile) : Prop :=
  ∀ l xid, f.lsn<l → s.Replayed wal l (.cleanup xid) → transactionIdIsValid xid=true →
    transactionIdFollows f.xmin xid=true

structure Holds (s : AnchorStore) (h : HeldAnchor) : Prop where
  file : ∃ f, s.files h.name=some f ∧ f.tli=h.tli ∧ f.lsn=h.lsn ∧ f.xmin=h.xmin
  unregistered : ∀ e∈s.registry.entries, e.rpName≠h.name

/-- Every file is accounted for by the registry or a held anchor; `loose` is one that a hook
is about to account for. -/
structure NodeInv (wal : Wal) (loose : Option RpName) (s : Node) : Prop where
  names : (s.store.registry.entries.map (·.rpName)).Nodup
  room : s.store.registry.entries.length ≤ s.store.registry.capacity
  registered : ∀ e∈s.store.registry.entries, ∃ f, s.store.files e.rpName=some f ∧
    f.xmin=e.xmin ∧ f.lsn ≤ s.replayed ∧ s.timeLineAt f.lsn=f.tli
  record : ∀ name f, s.store.files name=some f →
    0<f.lsn ∧ wal f.tli f.lsn=some (.restorePoint name)
  fresh : ∀ name f, s.store.files name=some f →
    (∀ p, s.pending=some p → p.name=name → s.replayed≤p.lsn) → Fresh wal s f
  tracked : ∀ name f, s.store.files name=some f → loose≠some name →
    (∃ e∈s.store.registry.entries, e.rpName=name) ∨
    (∃ p, s.pending=some p ∧ p.name=name) ∨ ∃ k, s.kept=some k ∧ k.name=name
  pending : ∀ p, s.pending=some p → Holds s.store p ∧ s.store.registry.enabled=true ∧
    s.guc.archiveRecoveryRequested=true
  kept : ∀ k, s.kept=some k → Holds s.store k.toHeldAnchor
  one_held : s.pending=none ∨ s.kept=none

/-- Between two records the pending anchor's record still lies ahead. -/
structure AnchorInv (wal : Wal) (s : Node) : Prop extends NodeInv wal none s where
  pending_ahead : ∀ p, s.pending=some p → s.replayed≤p.lsn

variable {s : Node}

theorem Holds.pruned {s : AnchorStore} (hh : Holds s h) (hp : Pruned s t) : Holds t h := by
  constructor
  case file =>
    rw [hp.other_file h.name hh.unregistered]
    exact hh.file
  case unregistered =>
    intro e he
    apply hh.unregistered e (hp.entries.subset he)

namespace NodeInv

/-- Removing entries together with their files keeps the invariant. -/
theorem prune (h : NodeInv wal loose s) (hp : Pruned s.store t) :
    NodeInv wal loose { s with store := t } := by
  constructor
  case names => exact h.names.sublist (hp.entries.map _)
  case room =>
    rw [hp.capacity]
    exact Nat.le_trans hp.entries.length_le h.room
  case registered =>
    intro e he
    have hs := h.registered e (hp.entries.subset he)
    rw [← hp.entry_file e he] at hs
    exact hs
  case record =>
    intro name f hf
    apply h.record name f (hp.file name f hf)
  case fresh =>
    intro name f hf hpend
    apply h.fresh name f (hp.file name f hf) hpend
  case tracked =>
    intro name f hf hl
    rcases h.tracked name f (hp.file name f hf) hl with ⟨e,he,heq⟩ | hheld
    · exact .inl ⟨e,hp.entry_of_file name f hf e he heq,heq⟩
    · exact .inr hheld
  case pending =>
    intro p hs
    have hpend := h.pending p hs
    refine ⟨hpend.1.pruned hp,?_,hpend.2.2⟩
    simpa only [AnchorRegistry.enabled,hp.capacity] using hpend.2.1
  case kept =>
    intro k hk
    apply (h.kept k hk).pruned hp
  case one_held => exact h.one_held

end NodeInv

theorem Holds.removeFile {s : AnchorStore} (hh : Holds s h) (hne : h.name≠name) :
    Holds (s.removeFile name) h := by
  refine { hh with file := ?file }
  case file => simpa [AnchorStore.removeFile,hne] using hh.file

theorem files_removeFile {s : AnchorStore} (h : (s.removeFile name).files n=some f) :
    n≠name ∧ s.files n=some f := by
  by_cases hn : n=name
  · simp [AnchorStore.removeFile,hn] at h
  · simp only [AnchorStore.removeFile,Function.update_of_ne hn] at h
    exact ⟨hn,h⟩

namespace NodeInv

/-- A file may be removed once nothing refers to it but what is forgotten with it. -/
theorem forget (h : NodeInv wal loose s) (pending : Option HeldAnchor) (kept : Option KeptAnchor)
    (hl : loose=none ∨ loose=some name) (hu : ∀ e∈s.store.registry.entries, e.rpName≠name)
    (hpend : ∀ p, pending=some p ↔ s.pending=some p ∧ p.name≠name)
    (hkept : ∀ k, kept=some k ↔ s.kept=some k ∧ k.name≠name) :
    NodeInv wal none { s with pending, kept, store := s.store.removeFile name } := by
  constructor
  case names => exact h.names
  case room => exact h.room
  case registered =>
    intro e he
    have hs := h.registered e he
    rw [← Function.update_of_ne (hu e he) none s.store.files] at hs
    exact hs
  case record =>
    intro n f hf
    apply h.record n f (files_removeFile hf).2
  case fresh =>
    intro n f hf hp
    have hn := files_removeFile hf
    apply h.fresh n f hn.2
    intro p hs hpn
    apply hp p _ hpn
    exact (hpend p).mpr ⟨hs,hpn ▸ hn.1⟩
  case tracked =>
    intro n f hf _
    have hn := files_removeFile hf
    have hloose : loose≠some n := by rcases hl with rfl | rfl <;> simp [hn.1.symm]
    rcases h.tracked n f hn.2 hloose with he | ⟨p,hp,hpn⟩ | ⟨k,hk,hkn⟩
    · exact .inl he
    · exact .inr (.inl ⟨p,(hpend p).mpr ⟨hp,hpn ▸ hn.1⟩,hpn⟩)
    · exact .inr (.inr ⟨k,(hkept k).mpr ⟨hk,hkn ▸ hn.1⟩,hkn⟩)
  case pending =>
    intro p hp
    have hs := (hpend p).mp hp
    have hh := h.pending p hs.1
    exact ⟨hh.1.removeFile hs.2,hh.2⟩
  case kept =>
    intro k hk
    have hs := (hkept k).mp hk
    exact (h.kept k hs.1).removeFile hs.2
  case one_held =>
    rcases h.one_held with hn | hn
    · left
      apply eq_none_iff_forall_ne_some.mpr
      intro p hp
      simp [hn] at hpend
      exact hpend p hp
    · right
      apply eq_none_iff_forall_ne_some.mpr
      intro k hk
      simp [hn] at hkept
      exact hkept k hk

theorem dropKept (h : NodeInv wal none s) (hk : s.kept=some k) :
    NodeInv wal none { s with kept := none, store := s.store.removeFile k.name } := by
  have hp : s.pending=none := h.one_held.resolve_right (by simp [hk])
  apply h.forget s.pending none (.inl rfl) (h.kept k hk).unregistered
  · simp [hp]
  · intro k'
    simp only [reduceCtorEq,false_iff,not_and,not_not,hk,some.injEq]
    rintro rfl
    rfl

theorem dropPending (h : NodeInv wal none s) (hp : s.pending=some p) :
    NodeInv wal none { s with pending := none, store := s.store.removeFile p.name } := by
  have hk : s.kept=none := h.one_held.resolve_left (by simp [hp])
  apply h.forget none s.kept (.inl rfl) (h.pending p hp).1.unregistered
  · intro p'
    simp only [reduceCtorEq,false_iff,not_and,not_not,hp,some.injEq]
    rintro rfl
    rfl
  · simp [hk]

theorem undo (h : NodeInv wal (some name) s) (hu : ∀ e∈s.store.registry.entries, e.rpName≠name)
    (hpend : ∀ p, s.pending=some p → p.name≠name) (hkept : ∀ k, s.kept=some k → k.name≠name) :
    NodeInv wal none { s with store := s.store.removeFile name } := by
  apply h.forget s.pending s.kept (.inr rfl) hu
  · intro p
    exact ⟨fun hp => ⟨hp,hpend p hp⟩,And.left⟩
  · intro k
    exact ⟨fun hk => ⟨hk,hkept k hk⟩,And.left⟩

end NodeInv

structure LooseFile (s : Node) (name : RpName) (f : AnchorFile) : Prop where
  file : s.store.files name=some f
  lsn_le : f.lsn ≤ s.replayed
  timeLine : s.timeLineAt f.lsn=f.tli
  unregistered : ∀ e∈s.store.registry.entries, e.rpName≠name
  not_pending : ∀ p, s.pending=some p → p.name≠name
  not_kept : ∀ k, s.kept=some k → k.name≠name

theorem LooseFile.pruned (h : LooseFile s name f) (hp : Pruned s.store t) :
    LooseFile { s with store := t } name f := by
  refine { h with file := ?file, unregistered := ?unregistered }
  case file =>
    have := hp.other_file name h.unregistered
    exact this.trans h.file
  case unregistered =>
    intro e he
    apply h.unregistered e (hp.entries.subset he)

namespace NodeInv

/-- The one loose file is accounted for by registering it. -/
theorem addEntry (h : NodeInv wal (some name) s) (hf : LooseFile s name f)
    (hroom : s.store.registry.entries.length<s.store.registry.capacity) :
    NodeInv wal none { s with store := s.store.addEntry name f.xmin } := by
  constructor
  case names =>
    simp only [AnchorStore.addEntry,map_append,map_cons,map_nil]
    apply List.Nodup.append h.names (by simp)
    simpa using hf.unregistered
  case room =>
    simp only [AnchorStore.addEntry,length_append,length_cons,length_nil]
    omega
  case registered =>
    intro e he
    rcases mem_append.mp he with he | he
    · exact h.registered e he
    · obtain rfl := mem_singleton.mp he
      exact ⟨f,hf.file,rfl,hf.lsn_le,hf.timeLine⟩
  case record => exact h.record
  case fresh => exact h.fresh
  case tracked =>
    intro n g hg _
    by_cases hn : n=name
    · exact .inl ⟨_,mem_append_right _ (mem_singleton.mpr rfl),hn.symm⟩
    · rcases h.tracked n g hg (by simpa using fun h => hn h.symm) with ⟨e,he,heq⟩ | hheld
      · exact .inl ⟨e,mem_append_left _ he,heq⟩
      · exact .inr hheld
  case pending =>
    intro p hp
    have hs := h.pending p hp
    refine ⟨⟨hs.1.file,?_⟩,hs.2⟩
    intro e he
    rcases mem_append.mp he with he | he
    · exact hs.1.unregistered e he
    · obtain rfl := mem_singleton.mp he
      exact (hf.not_pending p hp).symm
  case kept =>
    intro k hk
    have hs := h.kept k hk
    refine ⟨hs.file,?_⟩
    intro e he
    rcases mem_append.mp he with he | he
    · exact hs.unregistered e he
    · obtain rfl := mem_singleton.mp he
      exact (hf.not_kept k hk).symm
  case one_held => exact h.one_held

theorem register (published : RpName) (h : NodeInv wal (some name) s) (hf : LooseFile s name f) :
    ∃ res t, s.store.registerAnchorEvicting published name f.xmin=(res, t) ∧
      (res=.ok → NodeInv wal none { s with store := t }) ∧
      (res≠.ok → NodeInv wal (some name) { s with store := t } ∧
        LooseFile { s with store := t } name f) := by
  obtain ⟨t,hp,⟨heq,hroom⟩ | ⟨res,hres,heq⟩⟩ :=
    s.store.registerAnchorEvicting_spec published name f.xmin h.names
  · refine ⟨.ok,_,heq,fun _ => ?_,absurd rfl⟩
    exact (h.prune hp).addEntry (hf.pruned hp) hroom
  · exact ⟨res,t,heq,fun hok => absurd hok hres,fun _ => ⟨h.prune hp,hf.pruned hp⟩⟩

theorem publish (h : NodeInv wal none s) (c : Prop) [Decidable c] (name : RpName) : NodeInv wal none
      { s with store := if c then s.store.applyPublication name else s.store } := by
  split_ifs
  · exact h.prune (s.store.applyPublication_pruned name h.names)
  · exact h

theorem keepLoose (h : NodeInv wal (some name) s) (hf : LooseFile s name f) (hp : s.pending=none)
    (hk : s.kept=none) :
    NodeInv wal none { s with kept := some ⟨⟨name,f.tli,f.lsn,f.xmin⟩,false⟩ } := by
  refine { h with tracked := ?tracked, kept := ?kept, one_held := ?one_held }
  case tracked =>
    intro n g hg _
    by_cases hn : n=name
    · exact .inr (.inr ⟨_,rfl,hn.symm⟩)
    · have ht := h.tracked n g hg (by simpa using fun h => hn h.symm)
      simp only [hp,hk,reduceCtorEq,false_and,exists_false,or_false] at ht
      exact .inl ht
  case kept =>
    rintro k ⟨⟩
    exact ⟨⟨f,hf.file,rfl,rfl,rfl⟩,hf.unregistered⟩
  case one_held => exact .inl hp

theorem releasePending (h : NodeInv wal none s) (hp : s.pending=some p) (hle : s.replayed≤p.lsn) :
    NodeInv wal (some p.name) { s with pending := none } := by
  refine { h with fresh := ?fresh, tracked := ?tracked, pending := ?pending, one_held := ?one_held }
  case fresh =>
    intro name f hf _
    apply h.fresh name f hf
    intro p' hp' _
    rw [hp] at hp'
    exact some.inj hp' ▸ hle
  case tracked =>
    intro name f hf hl
    rcases h.tracked name f hf (by simp) with he | ⟨p',hp',hn⟩ | hk
    · exact .inl he
    · rw [hp] at hp'
      exact absurd (congrArg some ((some.inj hp') ▸ hn)) hl
    · exact .inr (.inr hk)
  case pending => simp
  case one_held => exact .inl rfl

theorem confirmKept (h : NodeInv wal none s) (hk : s.kept=some k) :
    NodeInv wal none { s with kept := some { k with awaitingRecord := false } } := by
  refine { h with tracked := ?tracked, kept := ?kept, one_held := ?one_held }
  case tracked =>
    intro name f hf hl
    rcases h.tracked name f hf hl with he | hp | ⟨k',hk',hn⟩
    · exact .inl he
    · exact .inr (.inl hp)
    · rw [hk] at hk'
      exact .inr (.inr ⟨_,rfl,(some.inj hk') ▸ hn⟩)
  case kept =>
    rintro k' ⟨⟩
    exact h.kept k hk
  case one_held => exact .inl (h.one_held.resolve_right (by simp [hk]))

theorem settleKept (h : NodeInv wal none s) (rec : WalRecord) (lsn : XLogRecPtr) :
    NodeInv wal none (s.settleKept rec lsn) := by
  unfold Node.settleKept
  split
  · exact h
  · rename_i k hk
    split_ifs
    · exact h.confirmKept hk
    · exact h.dropKept hk
    · exact h

theorem dropPassedPending (h : NodeInv wal none s) (lsn : XLogRecPtr) :
    NodeInv wal none (s.dropPassedPending lsn) := by
  unfold Node.dropPassedPending
  split
  · exact h
  · rename_i p hp
    split_ifs
    · exact h.dropPending hp
    · exact h

end NodeInv

end

open Framework Function Node AnchorRegistry AnchorStore

variable {s : Node} {lsn : XLogRecPtr} {rec : WalRecord}

theorem exportFile_spec (h : s.exportFile name lsn x=some f) :
    f.lsn=lsn ∧ f.tli=s.timeLineAt lsn ∧ (∀ e∈s.store.registry.entries, e.rpName≠name) ∧
    ∀ p, s.pending=some p → p.name≠name := by
  unfold exportFile at h
  split_ifs at h with _ _ _ hreg hpend _
  obtain ⟨⟨xmin,xmax,overflowed,xids⟩,_,rfl⟩ := map_eq_some_iff.mp h
  refine ⟨rfl,rfl,?_,?_⟩
  · intro e he heq
    exact hreg ((findEntry_isSome_iff _ _).mpr ⟨e,he,heq⟩)
  · intro p hp heq
    simp [hp,heq] at hpend

theorem files_writeFile {s : AnchorStore}
    (h : (s.writeFile name f).files n=some g) : n=name ∧ g=f ∨ n≠name ∧ s.files n=some g := by
  by_cases hn : n=name
  · subst hn
    simp only [writeFile,update_self,some.injEq] at h
    exact .inl ⟨rfl,h.symm⟩
  · simp only [writeFile,update_of_ne hn] at h
    exact .inr ⟨hn,h⟩

theorem Holds.writeFile {s : AnchorStore} (hh : Holds s h) (hne : h.name≠name) :
    Holds (s.writeFile name f) h := by
  refine { hh with file := ?file }
  case file => simpa [AnchorStore.writeFile,hne] using hh.file

def written (s : Node) (name : RpName) (f : AnchorFile) : Node :=
  { s with
    store := s.store.writeFile name f
    kept := if s.kept.any (·.name=name) then none else s.kept }

theorem kept_written (h : (written s name f).kept=some k) : s.kept=some k ∧ k.name≠name := by
  simp only [written] at h
  split_ifs at h with hc
  refine ⟨h,?_⟩
  simpa [h] using hc

theorem LooseFile.ofWritten (hpos : s.replayed=lsn) (hx : s.exportFile name lsn x=some f) :
    LooseFile (written s name f) name f := by
  have hspec := exportFile_spec hx
  constructor
  case file => simp [written,writeFile]
  case lsn_le => exact Nat.le_of_eq (hspec.1.trans hpos.symm)
  case timeLine =>
    change s.timeLineAt f.lsn=f.tli
    rw [hspec.1,hspec.2.1]
  case unregistered => exact hspec.2.2.1
  case not_pending => exact hspec.2.2.2
  case not_kept => exact fun k hk => (kept_written hk).2

section

variable (h : NodeInv wal none s) (hpos : s.replayed=lsn) (h0 : 0<lsn)
  (hrec : wal (s.timeLineAt lsn) lsn=some (.restorePoint name))
  (hx : s.exportFile name lsn x=some f)
include h hpos h0 hrec hx

/-- A file just written is loose: not yet registered, pending or kept. -/
theorem NodeInv.write : NodeInv wal (some name) (written s name f) := by
  have hspec := exportFile_spec hx
  constructor
  case names => exact h.names
  case room => exact h.room
  case registered =>
    intro e he
    have hs := h.registered e he
    rw [← update_of_ne (hspec.2.2.1 e he) (some f) s.store.files] at hs
    exact hs
  case record =>
    intro n g hg
    rcases files_writeFile hg with ⟨rfl,rfl⟩ | ⟨_,hg⟩
    · rw [hspec.2.1,hspec.1]
      exact ⟨h0,hrec⟩
    · exact h.record n g hg
  case fresh =>
    intro n g hg hp
    rcases files_writeFile hg with ⟨rfl,rfl⟩ | ⟨_,hg⟩
    · intro l xid hl hr
      have hle : l ≤ s.replayed := hr.1
      rw [hspec.1,← hpos] at hl
      exact absurd hl (Nat.not_lt.mpr hle)
    · exact h.fresh n g hg hp
  case tracked =>
    intro n g hg hl
    rcases files_writeFile hg with ⟨rfl,rfl⟩ | ⟨hn,hg⟩
    · exact absurd rfl hl
    · rcases h.tracked n g hg (by simp) with he | hp | ⟨k,hk,hkn⟩
      · exact .inl he
      · exact .inr (.inl hp)
      · have hany : ¬ (s.kept.any (·.name=name))=true := by simp [hk,hkn,hn]
        exact .inr (.inr ⟨k,(if_neg hany).trans hk,hkn⟩)
  case pending =>
    intro p hp
    have hs := h.pending p hp
    exact ⟨hs.1.writeFile (hspec.2.2.2 p hp),hs.2⟩
  case kept =>
    intro k hk
    have hs := kept_written hk
    exact (h.kept k hs.1).writeFile hs.2
  case one_held =>
    rcases h.one_held with hp | hk
    · exact .inl hp
    · exact .inr (by simp [written,hk])

theorem NodeInv.registerExported
    (hord : s.store.registry.nextOrdinal≠pgUint32Max ∨ s.kept.any (·.name=name)=true) :
    NodeInv wal none ((written s name f).registerExported name f (s.kept.any (·.name=name))) := by
  have hw := h.write hpos h0 hrec hx
  have hf := LooseFile.ofWritten hpos hx
  obtain ⟨res,t,heq,hok,hno⟩ := hw.register s.guc.anchorName hf
  have hguc : (written s name f).guc.anchorName=s.guc.anchorName := rfl
  simp only [Node.registerExported,hguc,heq]
  cases res with
  | ok => exact (hok rfl).publish (name=s.guc.anchorName) name
  | exhausted =>
    have hlast := registerAnchorEvicting_exhausted hw.names (congrArg Prod.fst heq)
    have hany := hord.resolve_left (fun hne => hne hlast)
    have hloos := hno (by simp)
    have hk : (written s name f).kept=none := by simp [written,hany]
    have hp : s.pending=none := by
      apply h.one_held.resolve_right
      rintro hn
      simp [hn] at hany
    have := hloos.1.keepLoose hloos.2 hp hk
    simpa only [hany,if_true] using this
  | full | duplicate =>
    have hloos := hno (by simp)
    exact hloos.1.undo hloos.2.unregistered hloos.2.not_pending hloos.2.not_kept

end

/-- What an export step may not run into: a directory that cannot be synced after the rename,
or the last ordinal for a name that is not the kept one. -/
def exportTracked (s : Node) (name : RpName) (x : ExportAttempt) : Bool :=
  x.write≠.renamedNotSynced &&
  (s.store.registry.nextOrdinal≠pgUint32Max || s.kept.any (·.name=name))

theorem NodeInv.exportRestorePoint (h : NodeInv wal none s) (hpos : s.replayed=lsn) (h0 : 0<lsn)
    (hrec : wal (s.timeLineAt lsn) lsn=some (.restorePoint name))
    (ht : exportTracked s name x=true) : NodeInv wal none (s.exportRestorePoint name lsn x) := by
  simp only [exportTracked,ne_eq,decide_not,Bool.and_eq_true,Bool.not_eq_true',
    decide_eq_false_iff_not,Bool.or_eq_true] at ht
  unfold Node.exportRestorePoint
  split
  · rename_i f hx
    cases hw : x.write with
    | failed => exact h
    | renamedNotSynced => exact absurd hw ht.1
    | ok => exact h.registerExported hpos h0 hrec hx ht.2
  · exact h

theorem exportRestorePoint_keeps (s : Node) (name : RpName) (lsn : XLogRecPtr) (x : ExportAttempt) :
    (s.exportRestorePoint name lsn x).pending=s.pending ∧
      (s.exportRestorePoint name lsn x).replayed=s.replayed := by
  unfold exportRestorePoint
  split
  · cases x.write with
    | failed | renamedNotSynced => exact ⟨rfl,rfl⟩
    | ok =>
      simp only [Node.writeAnchorFile,registerExported]
      split <;> exact ⟨rfl,rfl⟩
  · exact ⟨rfl,rfl⟩

theorem NodeInv.registerPending (h : NodeInv wal none s) (hpos : s.replayed=lsn)
    (hp : s.pending=some p) (hmeet : s.meetsRecord p rec lsn=true)
    (hcan : s.store.canRegister s.guc.anchorName=true) :
    NodeInv wal none (s.registerPending p) := by
  simp only [meetsRecord,decide_eq_true_eq] at hmeet
  have hheld := (h.pending p hp).1
  obtain ⟨f,hfile,htli,hlsn,hxmin⟩ := hheld.file
  have hr := h.releasePending hp (Nat.le_of_eq (hpos.trans hmeet.2.2))
  have hf : LooseFile { s with pending := none } p.name f := by
    constructor
    case file => exact hfile
    case lsn_le => exact Nat.le_of_eq (hlsn.trans (hmeet.2.2.symm.trans hpos.symm))
    case timeLine =>
      change s.timeLineAt f.lsn=f.tli
      rw [hlsn,← hmeet.2.2,hmeet.2.1,htli]
    case unregistered => exact hheld.unregistered
    case not_pending => simp
    case not_kept =>
      intro k hk
      rcases h.one_held with hn | hn
      · simp [hp] at hn
      · simp [hn] at hk
  obtain ⟨res,t,heq,hok,_⟩ := hr.register s.guc.anchorName hf
  have hres := registerAnchorEvicting_ok f.xmin h.names h.room hheld.unregistered hcan
  have hres' : res=.ok := (congrArg Prod.fst heq).symm.trans hres
  subst hres'
  simp only [Node.registerPending,← hxmin,heq]
  exact (hok rfl).publish (p.name=s.guc.anchorName) p.name

theorem dropPassedPending_frame (s : Node) (lsn : XLogRecPtr) :
    (s.dropPassedPending lsn).replayed=s.replayed ∧ (s.dropPassedPending lsn).history=s.history ∧
    (s.dropPassedPending lsn).kept=s.kept ∧
    (s.dropPassedPending lsn).store.registry=s.store.registry ∧
    ∀ p, (s.dropPassedPending lsn).pending=some p → lsn≤p.lsn := by
  unfold dropPassedPending
  split
  · rename_i hn
    exact ⟨rfl,rfl,rfl,rfl,by simp [hn]⟩
  · rename_i p hp
    split_ifs with hlt
    · exact ⟨rfl,rfl,rfl,rfl,by simp⟩
    · refine ⟨rfl,rfl,rfl,rfl,?_⟩
      intro q hq
      obtain rfl : p=q := some.inj (hp.symm.trans hq)
      exact Nat.not_lt.mp hlt

section

variable (h : NodeInv wal none s)
include h

/-- A record settles the pending anchor, or is exported under its own name. -/
theorem NodeInv.settlePendingAndExport (hpos : s.replayed=lsn) (h0 : 0<lsn)
    (hrec : wal (s.timeLineAt lsn) lsn=some rec)
    (hmeet : ∀ p, s.pending=some p → s.meetsRecord p rec lsn=true →
      s.store.canRegister s.guc.anchorName=true)
    (hexp : ∀ name, rec=.restorePoint name → (∀ p, s.pending=some p →
      s.meetsRecord p rec lsn=false) → exportTracked s name x=true) :
    AnchorInv wal (s.settlePendingAndExport rec lsn x) := by
  unfold Node.settlePendingAndExport
  split
  · rename_i p hfilter
    obtain ⟨hp,hm⟩ := filter_eq_some_iff.mp hfilter
    have hinv := h.registerPending hpos hp hm (hmeet p hp hm)
    refine ⟨hinv,?_⟩
    intro q hq
    simp only [Node.registerPending] at hq
    split at hq <;> simp at hq
  · rename_i hnone
    have hno : ∀ p, s.pending=some p → s.meetsRecord p rec lsn=false := by
      intro p hp
      simpa [hp] using hnone
    have hdrop := h.dropPassedPending lsn
    obtain ⟨hrep,hhist,hkept,hreg,hahead⟩ := dropPassedPending_frame s lsn
    have hpos' := hrep.trans hpos
    have halone : AnchorInv wal (s.dropPassedPending lsn) :=
      ⟨hdrop,fun p hp => Nat.le_trans (Nat.le_of_eq hpos') (hahead p hp)⟩
    split
    · rename_i name
      have ht : exportTracked (s.dropPassedPending lsn) name x=true := by
        have := hexp name rfl hno
        simpa only [exportTracked,hreg,hkept] using this
      have hrec' : wal ((s.dropPassedPending lsn).timeLineAt lsn) lsn=some (.restorePoint name) := by
        simpa only [timeLineAt,hhist] using hrec
      refine ⟨hdrop.exportRestorePoint hpos' h0 hrec' ht,?_⟩
      rw [(exportRestorePoint_keeps _ _ _ _).1,(exportRestorePoint_keeps _ _ _ _).2]
      exact halone.pending_ahead
    · exact halone

theorem NodeInv.invalidateKeptAnchor (xid : TransactionId)
    (lsn : XLogRecPtr) : NodeInv wal none (s.invalidateKeptAnchor xid lsn) := by
  unfold Node.invalidateKeptAnchor
  split
  · exact h
  · rename_i k hk
    split_ifs
    · exact h
    · exact h.dropKept hk

theorem NodeInv.rmRedo (rec : WalRecord) (lsn : XLogRecPtr) :
    NodeInv wal none (s.rmRedo rec lsn) := by
  cases rec with
  | cleanup xid =>
    simp only [Node.rmRedo,Node.anchorSnapshotOnCleanupRecord]
    split_ifs
    · exact h
    · exact h
    · have hp := s.store.invalidateAtOrBelow_pruned xid h.names
      exact (h.prune hp).invalidateKeptAnchor xid lsn
  | restorePoint name | other => exact h

end

theorem invalidateKeptAnchor_frame (s : Node) (xid : TransactionId) (lsn : XLogRecPtr) :
    (s.invalidateKeptAnchor xid lsn).replayed=s.replayed ∧
    (s.invalidateKeptAnchor xid lsn).history=s.history ∧
    (s.invalidateKeptAnchor xid lsn).store.registry=s.store.registry ∧
    ∀ k, (s.invalidateKeptAnchor xid lsn).kept=some k → transactionIdIsValid xid=true →
      lsn≤k.lsn ∨ transactionIdFollows k.xmin xid=true := by
  unfold invalidateKeptAnchor
  split
  · rename_i hn
    exact ⟨rfl,rfl,rfl,by simp [hn]⟩
  · rename_i k hk
    split_ifs with hc
    · refine ⟨rfl,rfl,rfl,?_⟩
      intro k' hk' hv
      obtain rfl : k=k' := some.inj (hk.symm.trans hk')
      simpa [hv] using hc
    · exact ⟨rfl,rfl,rfl,by simp⟩

theorem rmRedo_frame (s : Node) (rec : WalRecord) (lsn : XLogRecPtr) :
    (s.rmRedo rec lsn).replayed=s.replayed ∧ (s.rmRedo rec lsn).history=s.history := by
  cases rec with
  | cleanup xid =>
    simp only [rmRedo,anchorSnapshotOnCleanupRecord]
    split_ifs
    · exact ⟨rfl,rfl⟩
    · exact ⟨rfl,rfl⟩
    · have hf := invalidateKeptAnchor_frame { s with store := s.store.invalidateAtOrBelow xid } xid lsn
      exact ⟨hf.1,hf.2.1⟩
  | restorePoint name | other => exact ⟨rfl,rfl⟩

theorem NodeInv.enabled_of_mem (h : NodeInv wal loose s) (he : e∈s.store.registry.entries) :
    s.store.registry.enabled=true := by
  have hlen := List.length_pos_of_mem he
  have hroom := h.room
  simp only [enabled,decide_eq_true_eq]
  omega

/-- After a cleanup, no file behind it has an xmin that the cleanup reaches. -/
theorem rmRedo_follows {xid : TransactionId} (h : NodeInv wal none s)
    (hv : transactionIdIsValid xid=true)
    (hf : (s.rmRedo (.cleanup xid) lsn).store.files name=some f) (hlt : f.lsn<lsn)
    (hpend : ∀ p, (s.rmRedo (.cleanup xid) lsn).pending=some p → p.name=name → lsn≤p.lsn) :
    transactionIdFollows f.xmin xid=true := by
  have hinv := h.rmRedo (.cleanup xid) lsn
  have held : ∀ g : HeldAnchor, Holds (s.rmRedo (.cleanup xid) lsn).store g → g.name=name →
      g.lsn=f.lsn ∧ g.xmin=f.xmin := by
    rintro g hg rfl
    obtain ⟨f',hf',_,hlsn,hxmin⟩ := hg.file
    obtain rfl : f=f' := some.inj (hf.symm.trans hf')
    exact ⟨hlsn.symm,hxmin.symm⟩
  rcases hinv.tracked name f hf (by simp) with ⟨e,he,rfl⟩ | ⟨p,hp,hn⟩ | ⟨k,hk,hn⟩
  · obtain ⟨f',hf',hxmin,_⟩ := hinv.registered e he
    obtain rfl : f=f' := some.inj (hf.symm.trans hf')
    rw [hxmin]
    simp only [rmRedo,anchorSnapshotOnCleanupRecord,hv,Bool.not_true,
      Bool.false_eq_true,if_false] at he
    split_ifs at he with hc
    · have hon := h.enabled_of_mem he
      have hlen := List.length_pos_of_mem he
      simp [anchorsRegisteredOrKept,hon,hlen] at hc
    · rw [(invalidateKeptAnchor_frame _ xid lsn).2.2.1] at he
      have hp := s.store.invalidateAtOrBelow_pruned xid h.names
      have hon := h.enabled_of_mem (hp.entries.subset he)
      exact follows_of_mem_invalidateAtOrBelow hon hv he
  · have hlsn := (held p (hinv.pending p hp).1 hn).1
    have hle := hpend p hp hn
    rw [hlsn] at hle
    exact absurd hlt (Nat.not_lt.mpr hle)
  · have hs := held k.toHeldAnchor (hinv.kept k hk) hn
    simp only [rmRedo,anchorSnapshotOnCleanupRecord,hv,Bool.not_true,
      Bool.false_eq_true,if_false] at hk
    split_ifs at hk with hc
    · simp [anchorsRegisteredOrKept,hk] at hc
    · rcases (invalidateKeptAnchor_frame _ xid lsn).2.2.2 k hk hv with hle | hfol
      · rw [hs.1] at hle
        exact absurd hlt (Nat.not_lt.mpr hle)
      · rw [← hs.2]
        exact hfol

theorem NodeInv.advance (h : NodeInv wal none s) (hlt : s.replayed<lsn)
    (hnew : ∀ name f l xid, s.store.files name=some f →
      (∀ p, s.pending=some p → p.name=name → lsn≤p.lsn) → f.lsn<l → s.replayed<l → l≤lsn →
      wal (s.timeLineAt l) l=some (.cleanup xid) → transactionIdIsValid xid=true →
      transactionIdFollows f.xmin xid=true) : NodeInv wal none { s with replayed := lsn } := by
  refine { h with registered := ?_, fresh := ?_ }
  · intro e he
    obtain ⟨f,hf,hxmin,hle,htl⟩ := h.registered e he
    exact ⟨f,hf,hxmin,Nat.le_trans hle (Nat.le_of_lt hlt),htl⟩
  · intro name f hf hpend l xid hl hr hv
    by_cases hold : l ≤ s.replayed
    · apply h.fresh name f hf _ l xid hl ⟨hold,hr.2⟩ hv
      intro p hp hn
      exact Nat.le_trans (Nat.le_of_lt hlt) (hpend p hp hn)
    · exact hnew name f l xid hf hpend hl (Nat.not_le.mp hold) hr.1 hr.2 hv

end WarehousePG.Anchor
