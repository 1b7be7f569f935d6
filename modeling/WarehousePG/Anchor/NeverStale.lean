import WarehousePG.Anchor.Invariant

namespace WarehousePG.Anchor

open Framework Transam Node AnchorStore Start

variable {wal : Wal} {s : Node} {f : AnchorFile} {keep : Option RpName} {lsn : XLogRecPtr}
  {name : RpName} {rec : WalRecord} {x : ExportAttempt}

theorem nextRecord_spec (h : s.nextRecord wal lsn=some rec) :
    s.replayed<lsn ∧ (∀ l<lsn, s.replayed<l → wal (s.timeLineAt l) l=none) ∧
    wal (s.timeLineAt lsn) lsn=some rec := by
  unfold nextRecord at h
  split_ifs at h with hc
  refine ⟨hc.1,?_,h⟩
  intro l hl hlt
  simpa using hc.2 l hl hlt

/-- A step whose hook can account for every file it leaves. -/
def trackable (wal : Wal) (s : Node) : Action → Bool
  | .replay lsn x =>
    match s.nextRecord wal lsn with
    | some (.restorePoint name) =>
      if s.pending.any (s.meetsRecord · (.restorePoint name) lsn) then
        s.store.canRegister s.guc.anchorName
      else exportTracked (s.settleKept (.restorePoint name) lsn) name x
    | _ => true
  | _ => true

theorem AnchorInv.applied (h : AnchorInv wal s) (hn : s.nextRecord wal lsn=some rec) :
    NodeInv wal none { s.rmRedo rec lsn with replayed := lsn } := by
  obtain ⟨hlt,hgap,hrec⟩ := nextRecord_spec hn
  have hfr := rmRedo_frame s rec lsn
  have hinv := h.toNodeInv.rmRedo rec lsn
  apply hinv.advance
  · rw [hfr.1]
    exact hlt
  · intro name f l xid hf hp hl hgt hle hw hv
    simp only [timeLineAt,hfr.2] at hw
    rw [hfr.1] at hgt
    rcases Nat.lt_or_eq_of_le hle with hlt' | rfl
    · have hnone := hgap l hlt' hgt
      simp only [timeLineAt] at hnone
      simp [hnone] at hw
    · simp only [timeLineAt] at hrec
      obtain rfl : rec=.cleanup xid := Option.some.inj (hrec.symm.trans hw)
      exact rmRedo_follows h.toNodeInv hv hf hl hp

theorem settleKept_frame (s : Node) (rec : WalRecord) (lsn : XLogRecPtr) :
    (s.settleKept rec lsn).replayed=s.replayed ∧ (s.settleKept rec lsn).history=s.history ∧
    (s.settleKept rec lsn).guc=s.guc ∧ (s.settleKept rec lsn).pending=s.pending ∧
    (s.settleKept rec lsn).store.registry=s.store.registry := by
  unfold settleKept
  split
  · exact ⟨rfl,rfl,rfl,rfl,rfl⟩
  · split_ifs <;> exact ⟨rfl,rfl,rfl,rfl,rfl⟩

theorem settleKept_advance (s : Node) (rec : WalRecord) (lsn pos : XLogRecPtr) :
    { s with replayed := pos }.settleKept rec lsn=
      { s.settleKept rec lsn with replayed := pos } := by
  obtain ⟨guc,store,pending,kept,seen,history,replayed⟩ := s
  cases kept with
  | none => rfl
  | some k =>
    have hmet (pos : XLogRecPtr) : meetsRecord
        ⟨guc,store,pending,some k,seen,history,pos⟩ k.toHeldAnchor rec lsn=
        decide (rec=.restorePoint k.name ∧ history (lsn-1)=k.tli ∧ lsn=k.lsn) := rfl
    simp only [settleKept,hmet]
    split_ifs <;> rfl

theorem NodeInv.exportOnRestorePoint (h : NodeInv wal none s) (hpos : s.replayed=lsn) (h0 : 0<lsn)
    (hrec : wal (s.timeLineAt lsn) lsn=some rec)
    (hmeet : ∀ p, s.pending=some p → s.meetsRecord p rec lsn=true →
      s.store.canRegister s.guc.anchorName=true)
    (hexp : ∀ name, rec=.restorePoint name → (∀ p, s.pending=some p →
      s.meetsRecord p rec lsn=false) → exportTracked (s.settleKept rec lsn) name x=true) :
    AnchorInv wal (s.anchorSnapshotExportOnRestorePoint rec lsn x) := by
  have hk := h.settleKept rec lsn
  obtain ⟨fpos,fhist,fguc,fpend,freg⟩ := settleKept_frame s rec lsn
  simp only [anchorSnapshotExportOnRestorePoint]
  split_ifs with harch hoff
  · refine ⟨h,?_⟩
    intro p hp
    have := (h.pending p hp).2.2
    simp [this] at harch
  · refine ⟨hk,?_⟩
    intro p hp
    have := (hk.pending p hp).2.1
    simp [this] at hoff
  · have hmeets : ∀ p, (s.settleKept rec lsn).meetsRecord p rec lsn=s.meetsRecord p rec lsn := by
      intro p
      have htl : (s.settleKept rec lsn).timeLineAt lsn=s.timeLineAt lsn := congrFun fhist _
      simp only [meetsRecord,htl]
    apply hk.settlePendingAndExport (fpos.trans hpos) h0
    · simpa only [timeLineAt,fhist] using hrec
    · intro p hp hm
      rw [fpend] at hp
      rw [hmeets] at hm
      simpa only [canRegister,freg,fguc] using hmeet p hp hm
    · intro name hname hno
      apply hexp name hname
      intro p hp
      rw [← hmeets]
      exact hno p (fpend.trans hp)

/-- One replayed record: redo, then the restore-point hook. -/
theorem AnchorInv.replayRecord (h : AnchorInv wal s) (hn : s.nextRecord wal lsn=some rec)
    (ht : trackable wal s (.replay lsn x)=true) : AnchorInv wal (s.replayRecord rec lsn x) := by
  have happ := h.applied hn
  obtain ⟨hlt,-,hrec⟩ := nextRecord_spec hn
  have hhist := (rmRedo_frame s rec lsn).2
  apply happ.exportOnRestorePoint rfl (Nat.lt_of_le_of_lt (Nat.zero_le _) hlt)
  · simpa only [timeLineAt,hhist] using hrec
  · intro p hp hm
    have hrp : rec=.restorePoint p.name := by
      simp only [meetsRecord,decide_eq_true_eq] at hm
      exact hm.1
    subst hrp
    have hany : s.pending.any (s.meetsRecord · (.restorePoint p.name) lsn)=true := by
      change s.pending=some p at hp
      rw [hp]
      exact hm
    simp only [trackable,hn,hany,if_true] at ht
    exact ht
  · rintro name rfl hno
    have hany : s.pending.any (s.meetsRecord · (.restorePoint name) lsn)=false := by
      cases hp : s.pending with
      | none => rfl
      | some p => exact hno p hp
    simp only [trackable,hn,hany,Bool.false_eq_true,if_false] at ht
    have hset := settleKept_advance s (.restorePoint name) lsn lsn
    simp only [rmRedo,hset]
    exact ht

structure DiskOk (wal : Wal) (history : XLogRecPtr → TimeLineID) (redoStart : XLogRecPtr)
    (files : RpName → Option AnchorFile) : Prop where
  record : ∀ name f, files name=some f → 0<f.lsn ∧ wal f.tli f.lsn=some (.restorePoint name)
  fresh : ∀ name f, files name=some f → ∀ l xid, f.lsn<l → l≤redoStart →
    wal (history (l-1)) l=some (.cleanup xid) → transactionIdIsValid xid=true →
    transactionIdFollows f.xmin xid=true

theorem files_sweep (h : (sweep s keep).store.files name=some f) :
    keep=some name ∧ s.store.files name=some f := by
  simp only [sweep,sweepAnchorFiles] at h
  split_ifs at h with hk
  exact ⟨hk,h⟩

/-- What a start needs from the disk: the swept directory holds only what is kept. -/
theorem DiskOk.inv_of_tracked (hd : DiskOk wal s.history s.replayed s.store.files)
    (hnames : (s.store.registry.entries.map (·.rpName)).Nodup)
    (hroom : s.store.registry.entries.length ≤ s.store.registry.capacity)
    (hreg : ∀ e∈s.store.registry.entries, keep=some e.rpName ∧ ∃ f,
      s.store.files e.rpName=some f ∧ f.xmin=e.xmin ∧ f.lsn ≤ s.replayed ∧ s.timeLineAt f.lsn=f.tli)
    (hpend : ∀ p, s.pending=some p → keep=some p.name ∧ Holds s.store p ∧
      s.store.registry.enabled=true ∧ s.guc.archiveRecoveryRequested=true)
    (hkept : ∀ k, s.kept=some k → keep=some k.name ∧ Holds s.store k.toHeldAnchor)
    (hone : s.pending=none ∨ s.kept=none)
    (htrac : ∀ name, keep=some name → (∃ e∈s.store.registry.entries, e.rpName=name) ∨
      (∃ p, s.pending=some p ∧ p.name=name) ∨ ∃ k, s.kept=some k ∧ k.name=name) :
    NodeInv wal none (sweep s keep) := by
  have hfile (name : RpName) (hk : keep=some name) :
      (sweep s keep).store.files name=s.store.files name := if_pos hk
  constructor
  case names => exact hnames
  case room => exact hroom
  case registered =>
    intro e he
    have hs := hreg e he
    rw [← hfile _ hs.1] at hs
    exact hs.2
  case record =>
    intro name f hf
    exact hd.record name f (files_sweep hf).2
  case fresh =>
    intro name f hf _ l xid hl hr hv
    exact hd.fresh name f (files_sweep hf).2 l xid hl hr.1 hr.2 hv
  case tracked =>
    intro name f hf _
    exact htrac name (files_sweep hf).1
  case pending =>
    intro p hp
    have hs := hpend p hp
    refine ⟨⟨?_,hs.2.1.unregistered⟩,hs.2.2⟩
    rw [hfile _ hs.1]
    exact hs.2.1.file
  case kept =>
    intro k hk
    have hs := hkept k hk
    refine ⟨?_,hs.2.unregistered⟩
    rw [hfile _ hs.1]
    exact hs.2.file
  case one_held => exact hone

namespace Start

variable {st : Start} {files : RpName → Option AnchorFile}

attribute [local simp] anchorRegistryShmemInit fresh

theorem sweep_none_inv (hd : DiskOk wal st.history st.redoStart files) :
    AnchorInv wal (sweep (st.fresh files) none) := by
  refine ⟨?_,by simp [sweep]⟩
  apply DiskOk.inv_of_tracked hd <;> simp

theorem keepNamed_inv (hd : DiskOk wal st.history st.redoStart files) (name : RpName) :
    AnchorInv wal (st.keepNamed (st.fresh files) name) := by
  unfold keepNamed
  split
  · exact sweep_none_inv hd
  · rename_i f hf
    split_ifs
    · exact sweep_none_inv hd
    · have hfile : files name=some f := by
        simp only [Start.parseAnchorFile] at hf
        split_ifs at hf
        exact hf
      refine ⟨?_,by simp [sweep]⟩
      apply DiskOk.inv_of_tracked hd
      case hkept =>
        rintro k ⟨⟩
        exact ⟨rfl,⟨f,hfile,rfl,rfl,rfl⟩,by simp⟩
      all_goals simp

theorem registerAnchor_fresh {xmin : TransactionId}
    (hon : (st.fresh files).store.registry.enabled=true) :
    (st.fresh files).store.registerAnchor name xmin=
      (.ok, (st.fresh files).store.addEntry name xmin) := by
  have hcap : registryCapacity st.guc≠0 := Nat.pos_iff_ne_zero.mp (of_decide_eq_true hon)
  simp [AnchorStore.registerAnchor,AnchorRegistry.registerAnchor,AnchorRegistry.findEntry,hcap,
    pgUint32Max,AnchorStore.addEntry]

variable (hd : DiskOk wal st.history st.redoStart files)
include hd

theorem restoreNamed_inv (name : RpName) (hexp : (st.fresh files).nodeExportsAnchors=true)
    (harch : st.guc.archiveRecoveryRequested=true) :
    AnchorInv wal (st.restoreNamed (st.fresh files) name) := by
  have hon : (st.fresh files).store.registry.enabled=true := by
    simp only [nodeExportsAnchors,Bool.and_eq_true] at hexp
    exact hexp.1.1
  unfold restoreNamed
  split
  · exact sweep_none_inv hd
  · rename_i f hf
    have hfile : files name=some f := by
      simp only [Start.parseAnchorFile] at hf
      split_ifs at hf
      exact hf
    split_ifs with _ htl _ hle
    · exact sweep_none_inv hd
    · exact sweep_none_inv hd
    · exact sweep_none_inv hd
    · rw [registerAnchor_fresh hon]
      refine ⟨?_,by simp [sweep]⟩
      have htl' : (st.fresh files).timeLineAt f.lsn=f.tli := not_not.mp htl
      apply DiskOk.inv_of_tracked hd
      case hreg =>
        intro e he
        obtain rfl := List.mem_singleton.mp he
        exact ⟨rfl,f,hfile,rfl,hle,htl'⟩
      case hroom => exact Nat.succ_le_of_lt (of_decide_eq_true hon)
      all_goals simp [AnchorStore.addEntry]
    · refine ⟨?_,?_⟩
      · apply DiskOk.inv_of_tracked hd
        case hpend =>
          rintro p ⟨⟩
          exact ⟨rfl,⟨⟨f,hfile,rfl,rfl,rfl⟩,by simp⟩,hon,harch⟩
        all_goals simp
      · rintro p ⟨⟩
        exact Nat.le_of_lt (Nat.not_le.mp hle)

theorem anchorSnapshotStartup_inv : AnchorInv wal (st.anchorSnapshotStartup files) := by
  simp only [anchorSnapshotStartup]
  split_ifs with hkeep hres
  · exact keepNamed_inv hd _
  · simp only [Bool.and_eq_true] at hres
    exact restoreNamed_inv hd _ hres.1.1 hres.1.2
  · exact sweep_none_inv hd

end Start

theorem AnchorInv.diskOk (h : AnchorInv wal s) : DiskOk wal s.history s.replayed s.store.files := by
  refine { h with fresh := ?fresh }
  case fresh =>
    intro name f hf l xid hl hle hw hv
    apply h.fresh name f hf _ l xid hl ⟨hle,hw⟩ hv
    intro p hp _
    exact h.pending_ahead p hp

theorem AnchorInv.settled (h : AnchorInv wal s) (rec : WalRecord) (hlt : s.replayed<lsn) :
    AnchorInv wal ((s.settleKept rec lsn).dropPassedPending lsn) := by
  have hk := h.settleKept rec lsn
  have hpos := (settleKept_frame s rec lsn).1
  obtain ⟨hrep,_,_,_,hahead⟩ := dropPassedPending_frame (s.settleKept rec lsn) lsn
  refine ⟨hk.dropPassedPending lsn,?_⟩
  intro p hp
  rw [hrep,hpos]
  exact Nat.le_trans (Nat.le_of_lt hlt) (hahead p hp)

theorem DiskOk.writeFile (h : DiskOk wal s.history s.replayed s.store.files)
    (hlt : s.replayed<f.lsn) (hrec : wal f.tli f.lsn=some (.restorePoint name)) :
    DiskOk wal s.history s.replayed (s.store.writeFile name f).files := by
  constructor
  case record =>
    intro n g hg
    rcases files_writeFile hg with ⟨rfl,rfl⟩ | ⟨_,hg⟩
    · exact ⟨Nat.lt_of_le_of_lt (Nat.zero_le _) hlt,hrec⟩
    · exact h.record n g hg
  case fresh =>
    intro n g hg l xid hl hle
    rcases files_writeFile hg with ⟨rfl,rfl⟩ | ⟨_,hg⟩
    · exact absurd (Nat.lt_of_le_of_lt hle hlt) (Nat.lt_asymm hl)
    · exact h.fresh n g hg l xid hl hle

/-- A crash between the rename and the registration leaves a file of the record. -/
theorem AnchorInv.tornExport (h : AnchorInv wal s) (hn : s.nextRecord wal lsn=some rec) :
    DiskOk wal s.history s.replayed (s.tornExport rec lsn x).store.files := by
  obtain ⟨hlt,-,hrec⟩ := nextRecord_spec hn
  unfold Node.tornExport
  split
  · rename_i name
    have hd := (h.settled (.restorePoint name) hlt).diskOk
    obtain ⟨fpos,fhist,_⟩ := settleKept_frame s (.restorePoint name) lsn
    obtain ⟨hrep,hhist,_⟩ := dropPassedPending_frame (s.settleKept (.restorePoint name) lsn) lsn
    split_ifs
    · exact h.diskOk
    · dsimp only
      split
      · rename_i f hx
        have hspec := exportFile_spec hx
        rw [← fhist,← hhist,← fpos,← hrep]
        apply hd.writeFile
        · rw [hrep,fpos,hspec.1]
          exact hlt
        · rw [hspec.2.1,hspec.1,timeLineAt,hhist,fhist]
          exact hrec
      · rw [← fhist,← hhist,← fpos,← hrep]
        exact hd
  · exact h.diskOk

/-- The files a crash leaves describe records of the log, half-done work included. -/
theorem AnchorInv.crashFiles (h : AnchorInv wal s) (missing : List RpName)
    (torn : Option (XLogRecPtr × ExportAttempt)) :
    DiskOk wal s.history s.replayed (s.crashFiles wal missing torn) := by
  have hleft (t : Node) (ht : DiskOk wal s.history s.replayed t.store.files) :
      DiskOk wal s.history s.replayed
        fun name => if name∈missing then none else t.store.files name := by
    constructor
    case record =>
      intro name f hf
      split_ifs at hf
      exact ht.record name f hf
    case fresh =>
      intro name f hf
      split_ifs at hf
      exact ht.fresh name f hf
  unfold Node.crashFiles
  apply hleft
  split
  · exact h.diskOk
  · split
    · rename_i hn
      exact h.tornExport hn
    · exact h.diskOk

theorem DiskOk.restart {history : XLogRecPtr → TimeLineID} {pos redoStart : XLogRecPtr}
    {files : RpName → Option AnchorFile} (h : DiskOk wal history pos files)
    (hle : redoStart≤pos) (hsame : sameHistory history history' redoStart) :
    DiskOk wal history' redoStart files := by
  refine ⟨h.record,?_⟩
  intro name f hf l xid hl hlr hw hv
  have hlt : l-1<redoStart := by omega
  rw [hsame _ hlt] at hw
  exact h.fresh name f hf l xid hl (Nat.le_trans hlr hle) hw hv

section

variable (h : AnchorInv wal s)
include h

theorem AnchorInv.rescan {history : XLogRecPtr → TimeLineID}
    (hsame : sameHistory s.history history s.replayed) : AnchorInv wal { s with history } := by
  refine { h with registered := ?_, fresh := ?_ }
  · intro e he
    obtain ⟨f,hf,hxmin,hle,htl⟩ := h.registered e he
    have hpos := (h.record _ f hf).1
    have hlt : f.lsn-1<s.replayed := by omega
    exact ⟨f,hf,hxmin,hle,(hsame _ hlt).trans htl⟩
  · intro name f hf hp l xid hl hr hv
    have hle : l ≤ s.replayed := hr.1
    have hlt : l-1<s.replayed := by omega
    have hw : wal (history (l-1)) l=some (.cleanup xid) := hr.2
    rw [hsame _ hlt] at hw
    exact h.fresh name f hf hp l xid hl ⟨hle,hw⟩ hv

theorem AnchorInv.withGuc {guc : Guc}
    (hg : guc.archiveRecoveryRequested=s.guc.archiveRecoveryRequested) :
    AnchorInv wal { s with guc } := by
  refine { h with pending := ?_ }
  intro p hp
  have hs := h.pending p hp
  exact ⟨hs.1,hs.2.1,hg.trans hs.2.2⟩

theorem AnchorInv.configReload : AnchorInv wal s.anchorSnapshotOnConfigReload := by
  have hseen (n : RpName) : AnchorInv wal { s with lastSeenAnchorName := n } :=
    ⟨{ h.toNodeInv with },h.pending_ahead⟩
  simp only [anchorSnapshotOnConfigReload]
  split_ifs
  · exact h
  · exact hseen _
  · have hp := s.store.applyPublication_pruned s.guc.anchorName h.names
    have hpub := (hseen (s.guc.anchorName.take (maxFNameLen-1))).prune hp
    exact ⟨hpub,h.pending_ahead⟩

theorem AnchorInv.clearAll : AnchorInv wal s.anchorSnapshotClearAll := by
  have hp := s.store.removeEntries_pruned (fun _ => true) h.names
  refine ⟨?_,by simp [anchorSnapshotClearAll]⟩
  have hd : DiskOk wal s.history s.replayed (s.store.removeEntries fun _ => true).files := by
    constructor
    case record =>
      intro name f hf
      exact h.record name f (hp.file name f hf)
    case fresh =>
      intro name f hf
      exact h.diskOk.fresh name f (hp.file name f hf)
  have hbase : NodeInv wal none (sweep { s with
      pending := none
      kept := none
      store := s.store.removeEntries fun _ => true } none) := by
    apply DiskOk.inv_of_tracked hd
    all_goals simp [removeEntries]
  exact hbase

/-- Every action keeps the invariant. -/
theorem step_anchorInv {a : Action}
    (ht : trackable wal s a=true) (hs : s.step wal a=some t) : AnchorInv wal t := by
  cases a with
  | replay lsn x =>
    obtain ⟨rec,hn,rfl⟩ := Option.map_eq_some_iff.mp hs
    exact h.replayRecord hn ht
  | reload name mode =>
    cases hs
    apply AnchorInv.configReload
    exact h.withGuc rfl
  | rescanLatestTimeLine history =>
    obtain ⟨hsame,rfl⟩ := of_guard hs
    exact h.rescan hsame
  | promote =>
    cases hs
    exact h.clearAll
  | restart st missing torn =>
    obtain ⟨hc,rfl⟩ := of_guard hs
    apply anchorSnapshotStartup_inv
    exact (h.crashFiles missing torn).restart hc.1 hc.2

end

theorem boot_anchorInv (wal : Wal) (st : Start) : AnchorInv wal (boot st) := by
  apply anchorSnapshotStartup_inv
  constructor <;> simp

/-- Along every run whose hooks account for the files they leave, a registered anchor's
restore point is part of the data state and no cleanup applied past it reaches its xmin. -/
theorem registered_anchors_never_stale (wal : Wal) (st : Start) (as : List Action) (s : Node)
    (hrun : run (step wal) (boot st) as=some s)
    (htrack : EveryStep (step wal) (fun s a => trackable wal s a=true) (boot st) as) :
    ∀ e∈s.store.registry.entries, ∃ f, s.store.files e.rpName=some f ∧ f.xmin=e.xmin ∧
      s.Replayed wal f.lsn (.restorePoint e.rpName) ∧
      ∀ l xid, f.lsn<l → s.Replayed wal l (.cleanup xid) → transactionIdIsValid xid=true →
        transactionIdFollows e.xmin xid=true := by
  have hinv : AnchorInv wal s := run_invariant_of_everyStep
    (fun s a t hs ht hstep => step_anchorInv hs ht hstep) (boot_anchorInv wal st) htrack hrun
  intro e he
  obtain ⟨f,hf,hxmin,hle,htl⟩ := hinv.registered e he
  have hrec := (hinv.record _ f hf).2
  have hfresh := hinv.fresh _ f hf fun p hp _ => hinv.pending_ahead p hp
  refine ⟨f,hf,hxmin,⟨hle,htl ▸ hrec⟩,?_⟩
  rw [← hxmin]
  exact hfresh

/-- Restore points "B" at 8 and "A" at 10, then a cleanup up to xid 100. -/
def twoRestorePoints : Wal := fun _ lsn =>
  match lsn with
  | 8 => some (.restorePoint [66])
  | 10 => some (.restorePoint [65])
  | 12 => some (.cleanup 100)
  | _ => none

def oneSlot (name : RpName) (redoStart : XLogRecPtr) : Start :=
  ⟨⟨true,true,1,name,.anchored⟩,redoStart,fun _ => 1,3,true⟩

def exportXmin (xmin : TransactionId) : ExportAttempt := ⟨true,some (xmin, 110, false, []),.ok⟩

/-- "A" is exported, held pending by a crash restart and confirmed at its record. -/
def confirmedAfterCrash : List Action :=
  [.replay 8 (exportXmin 90),.replay 10 (exportXmin 100),.restart (oneSlot [65] 9) [] none,
    .replay 10 (exportXmin 100)]

/-- A cleanup up to xid 95 between "A" and the cleanup up to xid 100. -/
def withEarlierCleanup : Wal := fun tli lsn =>
  if lsn=11 then some (.cleanup 95) else twoRestorePoints tli lsn

theorem registered_anchor_fresh_after_cleanup : ∃ s, run (step withEarlierCleanup)
        (boot (oneSlot [65] 5)) (confirmedAfterCrash ++ [.replay 11 (exportXmin 100)])=some s ∧
      s.Replayed withEarlierCleanup 11 (.cleanup 95) ∧
      (∃ e∈s.store.registry.entries, e.rpName=[65] ∧ e.xmin=100) ∧
      ∀ e∈s.store.registry.entries, ∃ f, s.store.files e.rpName=some f ∧ f.xmin=e.xmin ∧
        s.Replayed withEarlierCleanup f.lsn (.restorePoint e.rpName) ∧
        ∀ l xid, f.lsn<l → s.Replayed withEarlierCleanup l (.cleanup xid) →
          transactionIdIsValid xid=true → transactionIdFollows e.xmin xid=true := by
  refine exists_run_of (fun s => s.store.registry.entries=[⟨[65],100,1⟩] ∧ s.replayed=11)
    (by decide +kernel) ?_
  rintro s hs ⟨he,hpos⟩
  refine ⟨⟨by simp [hpos],rfl⟩,⟨⟨[65],100,1⟩,by simp [he],rfl,rfl⟩,?_⟩
  exact registered_anchors_never_stale _ _ _ s hs (by decide +kernel)

/-- "A" is held pending; the name moves to "B", which takes the only slot before the record of
"A" is met, so its file stays unaccounted for while the cleanup is applied. -/
def pendingFindsNoSlot : List Action :=
  [.replay 8 (exportXmin 90),.replay 10 (exportXmin 100),.restart (oneSlot [65] 5) [] none,
    .reload [66] .anchored,.replay 8 (exportXmin 90),.replay 10 (exportXmin 100),
    .replay 12 (exportXmin 100),.restart (oneSlot [65] 12) [] none]

theorem stale_anchor_registered_at_restart :
    ∃ s, run (step twoRestorePoints) (boot (oneSlot [65] 5)) pendingFindsNoSlot=some s ∧
      ∃ e∈s.store.registry.entries, ∃ f, s.store.files e.rpName=some f ∧ f.xmin=e.xmin ∧
        s.Replayed twoRestorePoints f.lsn (.restorePoint e.rpName) ∧
        ∃ l xid, f.lsn<l ∧ s.Replayed twoRestorePoints l (.cleanup xid) ∧
          transactionIdIsValid xid=true ∧ transactionIdFollows e.xmin xid=false := by
  refine exists_run_of (fun s => s.store.registry.entries=[⟨[65],100,1⟩] ∧
    s.store.files [65]=some ⟨1,10,100,110,false,[]⟩ ∧ s.replayed=12) (by decide +kernel) ?_
  rintro s - ⟨hent,hfile,hpos⟩
  refine ⟨⟨[65],100,1⟩,by simp [hent],_,hfile,rfl,?_,12,100,by decide,?_,?_⟩
  · exact ⟨by simp [hpos],rfl⟩
  · exact ⟨by simp [hpos],rfl⟩
  · decide +kernel

/-- No anchor file is left behind: each describes a restore point of the WAL and belongs to a
registered anchor, to the one that waits for its record, or to the one kept. -/
theorem anchor_files_accounted (wal : Wal) (st : Start) (as : List Action) (s : Node)
    (hrun : run (step wal) (boot st) as=some s)
    (htrack : EveryStep (step wal) (fun s a => trackable wal s a=true) (boot st) as) :
    (s.store.registry.entries.map (·.rpName)).Nodup ∧
    s.store.registry.entries.length ≤ s.store.registry.capacity ∧
    ∀ name f, s.store.files name=some f → wal f.tli f.lsn=some (.restorePoint name) ∧
      ((∃ e∈s.store.registry.entries, e.rpName=name) ∨ (∃ p∈s.pending, p.name=name) ∨
        ∃ k∈s.kept, k.name=name) := by
  have hinv : AnchorInv wal s := run_invariant_of_everyStep
    (fun s a t hs ht hstep => step_anchorInv hs ht hstep) (boot_anchorInv wal st) htrack hrun
  refine ⟨hinv.names,hinv.room,fun name f hf => ⟨(hinv.record name f hf).2,?_⟩⟩
  exact hinv.tracked name f hf nofun

theorem anchor_files_accounted_after_crash :
    ∃ s, run (step twoRestorePoints) (boot (oneSlot [65] 5)) confirmedAfterCrash=some s ∧
      s.store.registry.entries.length ≤ s.store.registry.capacity := by
  refine exists_run_of (fun _ => True) (by decide +kernel) ?_
  exact fun s hs _ => (anchor_files_accounted _ _ _ s hs (by decide +kernel)).2.1

end WarehousePG.Anchor
