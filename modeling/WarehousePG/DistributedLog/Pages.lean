import WarehousePG.DistributedLog.Steps

namespace WarehousePG.DistributedLog

open Framework Transam Dtm Slru FullTransactionId

namespace Node

variable {s : Node} {x : FullTransactionId}

theorem readable_zeroPage (h : s.Readable x ∨ transactionIdToPage x.xid=P) :
    ((s.slru.zeroPage distributedLogCtl P).page (transactionIdToPage x.xid)).isSome=true := by
  by_cases heq : transactionIdToPage x.xid=P
  · rw [heq,zeroPage_page_self]
    rfl
  · rw [zeroPage_page_of_ne distributedLogCtl heq]
    exact h.resolve_right heq

theorem lookup_zeroPage (h : transactionIdToPage x.xid≠P) :
    lookup (s.slru.zeroPage distributedLogCtl P) x=lookup s.slru x := by
  rw [lookup,lookup,zeroPage_page_of_ne distributedLogCtl h]

theorem withinWindow_iff {pages : Nat} :
    s.withinWindow pages=true ↔ ∀ v∈s.held, pages*4096+3+2^18≤v.value+2^31 := by
  simp only [withinWindow,List.all_eq_true,decide_eq_true_eq]
  exact Iff.rfl

/-- Replaying the creation of a page. -/
theorem NodeInv.redoZeroPage (h : NodeInv s) (hr : s.inRecovery=true)
    (hwin : s.withinWindow (s.nextPage+1)=true) : NodeInv { s with
              slru := (s.slru.zeroPage distributedLogCtl (s.nextPage%2^20)).writePages
                distributedLogCtl (·=s.nextPage%2^20)
              nextPage := s.nextPage+1 } := by
  rw [withinWindow_iff] at hwin
  let P := s.nextPage%2^20
  let z := s.slru.zeroPage distributedLogCtl P
  let t : Node := { s with
                    slru := z.writePages distributedLogCtl (·=P)
                    nextPage := s.nextPage+1 }
  have hhor := hwin s.oldestXmin (mem_held.mpr (.inr (.inl rfl)))
  have hpag : s.nextPage*4096+3 ≤ s.frontier := le_max_right _ _
  have hz (q : Nat) (hq : (z.page q).isSome=true) : (t.slru.page q).isSome=true := by
    obtain ⟨pg,hpg⟩ := Option.isSome_iff_exists.mp hq
    rw [writePages_page distributedLogCtl _ hpg]
    rfl
  have hread (x : FullTransactionId) (hx : s.Readable x) : t.Readable x :=
    hz _ (readable_zeroPage (.inl hx))
  have hnew (x : FullTransactionId) (hx : fullPage x=s.nextPage) : t.Readable x :=
    hz _ (readable_zeroPage (.inr (by rw [transactionIdToPage_xid,hx])))
  have hbgn (x : FullTransactionId) (hx : t.Begun x) : s.Begun x ∨ t.Readable x := by
    rcases hx with hlt | hlt
    · exact .inl (.inl hlt)
    · rcases Nat.lt_succ_iff_lt_or_eq.mp hlt with hold | heq
      · exact .inl (.inr hold)
      · exact .inr (hnew x heq)
  have hf : Frame s t := { Frame.refl s with page_le := Nat.le_succ _, begun := hbgn }
  refine { h with
    toLogInv := ?toLogInv, window := ?window, settled := ?settled, begun := ?begun
    recorded := ?recorded, phases := ?phases }
  case toLogInv =>
    constructor
    case readable => exact h.readable.frame hf hread
    case in_file => exact (h.in_file.zeroPage distributedLogCtl).writePages distributedLogCtl _
    case physical =>
      intro _ x hx hkept hlt
      rcases Nat.lt_succ_iff_lt_or_eq.mp hlt with hold | heq
      · exact writePages_physical distributedLogCtl _ (h.physical hr x hx hkept hold)
      · have hpage : transactionIdToPage x.xid=P := by rw [transactionIdToPage_xid,heq]
        rw [hpage]
        exact writePages_physical_self distributedLogCtl _ (decide_eq_true rfl)
          (zeroPage_page_self distributedLogCtl)
    case lookup =>
      intro x g hmem hx hkept
      have hne := h.page_ne_of_recorded hmem hx rfl (by omega)
      obtain ⟨pg,hpg,hval⟩ := Option.map_eq_some_iff.mp (h.lookup x g hmem hx hkept)
      have hzpg : z.page (transactionIdToPage x.xid)=some pg := by
        rw [zeroPage_page_of_ne distributedLogCtl hne]
        exact hpg
      show Option.map _ _=_
      rw [writePages_page distributedLogCtl _ hzpg,Option.map_some,hval]
  case window =>
    intro v hv
    have hold := h.window v hv
    have hbig := hwin v hv
    have hsnext : s.nextXid.value ≤ s.frontier := le_max_left _ _
    refine ⟨?_,hold.2⟩
    show max s.nextXid.value ((s.nextPage+1)*4096+3)+2^18≤v.value+2^31
    rcases le_total s.nextXid.value ((s.nextPage+1)*4096+3) with hle | hge
    · rw [Nat.max_eq_right hle]
      exact hbig
    · rw [Nat.max_eq_left hge]
      exact Nat.le_trans (Nat.add_le_add_right hsnext _) hold.1
  case settled => exact h.settled.frame hf h.inWindow_horizon.2
  case begun =>
    intro hprim
    rw [show t.inRecovery=true from hr] at hprim
    cases hprim
  case recorded =>
    intro x g hmem
    have hrec := h.recorded x g hmem
    exact ⟨hrec.1,Nat.lt_succ_of_lt hrec.2.1,hrec.2.2⟩
  case phases =>
    intro q hq
    exact (h.phases q hq).frame hf (fun v hv => h.inWindow_phase hq hv) (fun _ hx => hx)
      fun _ x hx => hread x hx

structure Extended (s : Node) (slru : LogSlru) (nextPage : Nat) : Prop where
  readable : ∀ x, s.Readable x → Readable { s with slru } x
  next : Readable { s with slru } s.nextXid
  pages : s.nextPage≤nextPage
  page_lt : fullPage s.nextXid<nextPage
  begun : ∀ x, fullPage x<nextPage → fullPage x<s.nextPage ∨ Readable { s with slru } x
  in_file : slru.InFile
  physical : s.inRecovery=true → slru=s.slru ∧ nextPage=s.nextPage
  primary : s.inRecovery=false → nextPage=fullPage s.nextXid+1
  lookup : ∀ x g, (x, g)∈s.recorded → s.oldestXmin.value≤x.value → lookup slru x=lookup s.slru x
  window : ∀ v∈s.held, nextPage*4096+3+2^18≤v.value+2^31

/-- A page is begun when its first xid is assigned. -/
theorem NodeInv.extend_spec (h : NodeInv s) (hs : s.extend=some r)
    (hwin : s.pageInWindow (.assignXid b)=true) : Extended s r.1 r.2 := by
  have hpag : s.nextPage*4096+3 ≤ s.frontier := le_max_right _ _
  have hold (v : FullTransactionId) (hv : v∈s.held) :
      s.nextPage*4096+3+2^18≤v.value+2^31 :=
    Nat.le_trans (Nat.add_le_add_right hpag _) (h.window v hv).1
  -- the page of the next xid is set up already
  have hset (hlt : fullPage s.nextXid<s.nextPage)
      (hprim : s.inRecovery=false → s.nextPage=fullPage s.nextXid+1) :
      Extended s s.slru s.nextPage :=
    { readable := fun _ hx => hx
      next := h.readable s.nextXid h.inWindow_horizon.2 (.inr hlt)
      pages := le_refl _
      page_lt := hlt
      begun := fun _ hx => .inl hx
      in_file := h.in_file
      physical := fun _ => ⟨rfl,rfl⟩
      primary := hprim
      lookup := fun _ _ _ _ => rfl
      window := hold }
  unfold Node.extend at hs
  split_ifs at hs with hr hlt hfirst
  · cases hs
    exact hset hlt fun hprim => by rw [hr] at hprim; cases hprim
  · cases hs
    have hrec : s.inRecovery=false := by simpa using hr
    have hbgn := h.begun hrec
    rw [pagesBegun,hfirst,if_pos rfl] at hbgn
    have hbig : s.withinWindow (fullPage s.nextXid+1)=true := by
      simpa [pageInWindow,hrec,hfirst] using hwin
    rw [withinWindow_iff] at hbig
    have hhor := hbig s.oldestXmin (mem_held.mpr (.inr (.inl rfl)))
    have hpage (x : FullTransactionId) (hx : fullPage x=fullPage s.nextXid) :
        transactionIdToPage x.xid=transactionIdToPage s.nextXid.xid := by
      rw [transactionIdToPage_xid,transactionIdToPage_xid,hx]
    exact
      { readable := fun _ hx => readable_zeroPage (.inl hx)
        next := readable_zeroPage (.inr rfl)
        pages := by rw [hbgn]; exact Nat.le_succ _
        page_lt := Nat.lt_succ_self _
        begun := by
          intro x hx
          rcases Nat.lt_succ_iff_lt_or_eq.mp hx with hlt | heq
          · exact .inl (by rw [hbgn]; exact hlt)
          · exact .inr (readable_zeroPage (.inr (hpage x heq)))
        in_file := h.in_file.zeroPage distributedLogCtl
        physical := fun hrec' => absurd hrec' hr
        primary := fun _ => rfl
        lookup := by
          intro x g hmem hx
          apply lookup_zeroPage
          rw [transactionIdToPage_xid s.nextXid]
          exact h.page_ne_of_recorded hmem hx hbgn (by omega)
        window := hbig }
  · cases hs
    have hrec : s.inRecovery=false := by simpa using hr
    have hbgn := h.begun hrec
    rw [pagesBegun,if_neg hfirst] at hbgn
    exact hset (by rw [hbgn]; exact Nat.lt_succ_self _) fun _ => hbgn

theorem NodeInv.assignXid (h : NodeInv s) (hb : s.procs[b]?=some p) {slru : LogSlru} {nextPage : Nat}
    (he : Extended s slru nextPage) :
    NodeInv { s.setProc b { p with xids := s.nextXid::p.xids } with
              slru, nextPage, nextXid := s.nextXid.advance } := by
  have hp := mem_of_getElem? hb
  have hadv := lt_advance s.nextXid
  let t : Node := { s.setProc b { p with xids := s.nextXid::p.xids } with
                    slru, nextPage, nextXid := s.nextXid.advance }
  have hrun (x : FullTransactionId) (hx : t.Running x) : s.Running x ∨ x=s.nextXid := by
    obtain ⟨q,hq,hmem⟩ := hx
    rcases mem_setProc hq with rfl | hold
    · rcases List.mem_cons.mp hmem with rfl | hxid
      · exact .inr rfl
      · exact .inl ⟨p,hp,hxid⟩
    · exact .inl ⟨q,hold,hmem⟩
  have hbgn (x : FullTransactionId) (hx : t.Begun x) : s.Begun x ∨ t.Readable x := by
    rcases hx with hlt | hlt
    · rcases Nat.lt_or_eq_of_le (le_of_lt_advance hlt) with hold | heq
      · exact .inl (.inl hold)
      · rw [ext heq]
        exact .inr he.next
    · rcases he.begun x hlt with hold | hnew
      · exact .inl (.inr hold)
      · exact .inr hnew
  have hf : Frame s t :=
    { Frame.refl s with
      next_le := le_of_lt hadv
      page_le := he.pages
      running := fun x hx => (hrun x hx).imp_right fun heq => by rw [heq]
      begun := hbgn }
  constructor
  case toLogInv =>
    constructor
    case readable => exact h.readable.frame hf he.readable
    case in_file => exact he.in_file
    case physical =>
      intro hr x hx hkept hlt
      obtain ⟨hslru,hpage⟩ := he.physical hr
      show slru.physical _=true
      rw [hslru]
      exact h.physical hr x hx hkept (by rw [← hpage]; exact hlt)
    case lookup =>
      intro x g hmem hx hkept
      show lookup slru x=_
      rw [he.lookup x g hmem hx]
      exact h.lookup x g hmem hx hkept
  case window =>
    -- the next xid is at most the first normal one of the page after
    have hnext : s.nextXid.advance.value≤nextPage*4096+3 := by
      have hpage := he.page_lt
      have hval : fullPage s.nextXid=s.nextXid.value/4096 := rfl
      unfold FullTransactionId.advance
      split_ifs
      · dsimp only
        omega
      · have hn := s.nextXid.normal
        dsimp only
        omega
    have hfront : t.frontier=nextPage*4096+3 := Nat.max_eq_right hnext
    have hwin (v : FullTransactionId) (hv : v∈s.held) : t.InWindow v := by
      refine ⟨?_,?_⟩
      · rw [hfront]
        exact he.window v hv
      · exact le_trans (h.window v hv).2 (le_of_lt hadv)
    have hnex := hwin s.nextXid (mem_held.mpr (.inl rfl))
    intro v hv
    rcases mem_held.mp hv with rfl | rfl | ⟨q,hq,hmem⟩
    · exact hnex.mono (le_of_lt hadv) (le_refl _)
    · exact hwin _ (mem_held.mpr (.inr (.inl rfl)))
    · rcases mem_setProc hq with rfl | hold
      · rcases hmem with hxid | hheld
        · rcases List.mem_cons.mp hxid with rfl | hxid'
          · exact hnex
          · exact hwin v (mem_held.mpr (.inr (.inr ⟨p,hp,.inl hxid'⟩)))
        · exact hwin v (mem_held.mpr (.inr (.inr ⟨p,hp,.inr hheld⟩)))
      · exact hwin v (mem_held.mpr (.inr (.inr ⟨q,hold,hmem⟩)))
  case running_lt =>
    intro x hx
    rcases hrun x hx with hold | rfl
    · exact lt_trans (h.running_lt x hold) hadv
    · exact hadv
  case settled => exact h.settled.frame hf h.inWindow_horizon.2
  case begun =>
    intro hr
    show nextPage=pagesBegun s.nextXid.advance
    rw [pagesBegun_advance,he.primary hr]
  case kept_running =>
    intro hr x hx
    rcases hrun x hx with hold | rfl
    · exact h.kept_running hr x hold
    · exact h.kept_next hr
  case kept_next =>
    intro hr
    exact le_trans (h.kept_next hr) (fullPage_mono (le_of_lt hadv))
  case recorded =>
    intro x g hmem
    have hrec := h.recorded x g hmem
    exact ⟨hrec.1,lt_of_lt_of_le hrec.2.1 he.pages,hrec.2.2⟩
  case floor_le => exact h.floor_le
  case phases =>
    intro q hq
    rcases mem_setProc hq with rfl | hold
    · exact (h.phases p hp).frame hf (fun v hv => h.inWindow_phase hp hv)
        (fun _ hx => List.mem_cons_of_mem _ hx) fun _ x hx => he.readable x hx
    · exact (h.phases q hold).frame hf (fun v hv => h.inWindow_phase hold hv) (fun _ hx => hx)
        fun _ x hx => he.readable x hx

end Node

open List Option

namespace Node

variable {x : FullTransactionId} {slru : LogSlru}

theorem lookup_setEntries (hpg : slru.page P=some pg) (hg : g≠0) (h : lookup slru x=some g) :
    lookup (slru.setPage P (setEntries distribXid pg chunk).1) x=some g := by
  unfold lookup at *
  by_cases heq : transactionIdToPage x.xid=P
  · rw [heq,hpg,map_some,some.injEq] at h
    rw [heq,setPage_page_self,map_some,setEntries_keeps (by rw [h]; exact hg),h]
  · rw [setPage_page_of_ne heq]
    exact h

structure Recording (s : Node) (chunk : List FullTransactionId) (distribXid : Nat)
    (r : LogSlru × List FullTransactionId × Option Phase) : Prop where
  readable : ∀ x, s.Readable x → Readable { s with slru := r.1 } x
  in_file : r.1.InFile
  physical : r.1.physical=s.slru.physical
  lookup : ∀ x g, (x, g)∈s.recorded → s.oldestXmin.value≤x.value → s.kept≤fullPage x →
    lookup r.1 x=some g
  recorded : ∀ x∈r.2.1, x∈chunk ∧ DistributedLog.lookup r.1 x=some distribXid
  phase : r.2.2=none ∨ r.2.2=some (.mismatch distribXid)

variable (h : NodeInv s)
include h

theorem NodeInv.recording_of_page (hg : distribXid≠0) (hc : s.ChunkOk xids distribXid (y::ys))
    (hread : ∀ x, s.Readable x → Readable { s with slru } x) (hfile : slru.InFile)
    (hphys : slru.physical=s.slru.physical)
    (hlook : ∀ x g, (x, g)∈s.recorded → s.oldestXmin.value≤x.value → s.kept≤fullPage x →
      DistributedLog.lookup slru x=some g) (hpg : slru.page (transactionIdToPage y.xid)=some pg) :
    Recording s (y::ys) distribXid
      (slru.setPage (transactionIdToPage y.xid) (setEntries distribXid pg (y::ys)).1,
        (setEntries distribXid pg (y::ys)).2.1,
        if (setEntries distribXid pg (y::ys)).2.2 then none else some (.mismatch distribXid)) where
  readable := by
    intro x hx
    show isSome _=true
    by_cases heq : transactionIdToPage x.xid=transactionIdToPage y.xid
    · rw [heq,setPage_page_self]
      rfl
    · rw [setPage_page_of_ne heq]
      exact hread x hx
  in_file := hfile.setPage
  physical := hphys
  lookup := by
    intro x g hmem hx hkept
    exact lookup_setEntries hpg (h.recorded x g hmem).1 (hlook x g hmem hx hkept)
  recorded := by
    intro x hx
    obtain ⟨hmem,hval⟩ := setEntries_records hg hx
    refine ⟨hmem,?_⟩
    have hpage := hc.same x hmem y mem_cons_self
    rw [DistributedLog.lookup,hpage,setPage_page_self,map_some,hval]
  phase := by
    split_ifs
    · exact .inl rfl
    · exact .inr rfl

/-- The entries of one page are recorded; an entry already there has to agree. -/
theorem NodeInv.setCommittedWithinAPage_spec (hp : p∈s.procs) (hg : distribXid≠0)
    (hc : s.ChunkOk p.xids distribXid chunk) :
    Recording s chunk distribXid (s.setCommittedWithinAPage chunk distribXid) := by
  cases chunk with
  | nil => exact ⟨fun _ hx => hx,h.in_file,rfl,h.lookup,by simp [setCommittedWithinAPage],
      .inl rfl⟩
  | cons y ys =>
    have hrun : s.Running y := running_of_mem hp (hc.mem y mem_cons_self)
    by_cases hzero : s.inRecovery && !s.slru.physical (transactionIdToPage y.xid)
    · -- in redo a page without file holds no mapping that is still needed
      have hprep : preparePage s.slru s.inRecovery (transactionIdToPage y.xid)=
          s.slru.zeroPage distributedLogCtl (transactionIdToPage y.xid) := by
        rw [preparePage,if_pos hzero]
      have hand := Bool.and_eq_true_iff.mp hzero
      have hmiss : s.slru.physical (transactionIdToPage y.xid)=false := by simpa using hand.2
      have hpg := zeroPage_page_self distributedLogCtl (s := s.slru)
        (p := transactionIdToPage y.xid)
      simp only [setCommittedWithinAPage,hprep,readPage_of_page distributedLogCtl _ hpg]
      apply h.recording_of_page hg hc (fun _ hx => readable_zeroPage (.inl hx))
        (h.in_file.zeroPage distributedLogCtl) rfl _ hpg
      intro x g hmem hx hkept
      have hthr := h.physical hand.1 x hx hkept (h.recorded x g hmem).2.1
      have hne : transactionIdToPage x.xid≠transactionIdToPage y.xid := by
        intro heq
        rw [heq,hmiss] at hthr
        cases hthr
      show DistributedLog.lookup (s.slru.zeroPage distributedLogCtl _) x=some g
      rw [lookup_zeroPage hne]
      exact h.lookup x g hmem hx hkept
    · have hprep : preparePage s.slru s.inRecovery (transactionIdToPage y.xid)=s.slru := by
        rw [preparePage,if_neg hzero]
      have hthr : s.Readable y := by
        cases hr : s.inRecovery with
        | true =>
          have hphys : s.slru.physical (transactionIdToPage y.xid)=true := by simpa [hr] using hzero
          exact h.in_file _ hphys
        | false =>
          have hkept := h.kept_running hr y hrun
          have hge : s.oldestXmin.value≤y.value := by
            by_contra hlt
            have := h.settled.running y hrun (Nat.lt_of_not_le hlt)
            omega
          exact h.readable y hge (.inl (h.running_lt y hrun))
      obtain ⟨pg,hpg⟩ := isSome_iff_exists.mp hthr
      simp only [setCommittedWithinAPage,hprep,readPage_of_page distributedLogCtl _ hpg]
      exact h.recording_of_page hg hc (fun _ hx => hx) h.in_file rfl h.lookup hpg

theorem NodeInv.setCommittedPage (hb : s.procs[b]?=some p)
    (hph : p.phase=.committing (chunk::chunks) distribXid) :
    let r := s.setCommittedWithinAPage chunk distribXid
    NodeInv { s.setProc b { p with phase := r.2.2.getD (.committing chunks distribXid) } with
              slru := r.1
              recorded := r.2.1.map (·, distribXid)++s.recorded } := by
  intro r
  have hp := mem_of_getElem? hb
  have hok := h.phases p hp
  rw [hph] at hok
  obtain ⟨hg,hchk⟩ := hok
  have hc := hchk chunk mem_cons_self
  have hrec : Recording s chunk distribXid r := h.setCommittedWithinAPage_spec hp hg hc
  let u : Node := { s with slru := r.1, recorded := r.2.1.map (·, distribXid)++s.recorded }
  -- a mapping is an old one, or of a chunk xid
  have hspt (x : FullTransactionId) (g : Nat) (hmem : (x, g)∈u.recorded) :
      (x, g)∈s.recorded ∨ g=distribXid ∧ x∈r.2.1 := by
    rcases mem_append.mp hmem with hnew | hold
    · obtain ⟨y,hy,heq⟩ := mem_map.mp hnew
      obtain ⟨rfl,rfl⟩ := Prod.mk.inj heq
      exact .inr ⟨rfl,hy⟩
    · exact .inl hold
  have hnewr (x : FullTransactionId) (hx : x∈r.2.1) : s.Running x :=
    running_of_mem hp (hc.mem x (hrec.recorded x hx).1)
  have hnwk (x : FullTransactionId) (hx : x∈r.2.1) : fullPage x<s.nextPage ∧
      (s.kept≤fullPage x ∨ distribXid<s.floor) := by
    cases hr : s.inRecovery with
    | true => exact hc.page hr x (hrec.recorded x hx).1
    | false =>
      rw [h.begun hr]
      exact ⟨fullPage_lt_pagesBegun (h.running_lt x (hnewr x hx)),
        .inl (h.kept_running hr x (hnewr x hx))⟩
  have hf : Frame s u :=
    { Frame.refl s with
      begun := fun _ hx => .inl hx
      recorded := by
        intro x g hmem
        rcases hspt x g hmem with hold | ⟨rfl,hx⟩
        · exact .inl hold
        · exact .inr ⟨hnewr x hx,(hnwk x hx).2⟩ }
  have hu : NodeInv u := by
    refine { h with
      toLogInv := ?toLogInv, settled := ?settled, recorded := ?recorded, phases := ?phases }
    case toLogInv =>
      constructor
      case readable => exact h.readable.frame hf hrec.readable
      case in_file => exact hrec.in_file
      case physical =>
        intro hr x hx hkept hlt
        rw [hrec.physical]
        exact h.physical hr x hx hkept hlt
      case lookup =>
        intro x g hmem hx hkept
        rcases hspt x g hmem with hold | ⟨rfl,hnew⟩
        · exact hrec.lookup x g hold hx hkept
        · exact (hrec.recorded x hnew).2
    case settled => exact h.settled.frame hf h.inWindow_horizon.2
    case recorded =>
      intro x g hmem
      rcases hspt x g hmem with hold | ⟨rfl,hnew⟩
      · exact h.recorded x g hold
      · exact ⟨hg,hnwk x hnew⟩
    case phases =>
      intro q hq
      exact (h.phases q hq).frame hf (fun v hv => h.inWindow_phase hq hv) (fun _ hx => hx)
        fun _ x hx => hrec.readable x hx
  have hrest : ∀ d∈chunks, u.ChunkOk p.xids distribXid d := by
    intro d hd
    exact (hchk d (mem_cons_of_mem _ hd)).frame hf fun _ hx => hx
  have hbu : u.procs[b]?=some p := hb
  rcases hrec.phase with hnone | hmis
  · rw [hnone]
    exact hu.setPhase hbu (by simp [Phase.held]) ⟨hg,hrest⟩
  · rw [hmis]
    exact hu.setPhase hbu (by simp [Phase.held]) trivial

theorem NodeInv.setCommittedTree (hb : s.procs[b]?=some p) {xid : FullTransactionId}
    (hmay : s.mayCommit p (xid::subxids) distribXid=true) :
    NodeInv (s.setProc b { p with phase := .committing (treeChunks xid subxids) distribXid }) := by
  have hall (x : FullTransactionId) (hx : x∈xid::subxids) := all_eq_true.mp hmay x hx
  simp only [Bool.and_eq_true,contains_iff_mem,decide_eq_true_eq,Bool.or_eq_true,
    Bool.not_eq_true'] at hall
  apply h.setPhase hb (by simp [Phase.held])
  refine ⟨(hall xid mem_cons_self).1.2,?_⟩
  intro chunk hmem
  obtain ⟨hsub,hsame⟩ := treeChunks_spec hmem
  refine ⟨fun x hx => (hall x (hsub x hx)).1.1,?_,hsame⟩
  intro hr x hx
  rcases (hall x (hsub x hx)).2 with hprim | hrec
  · rw [hr] at hprim
    cases hprim
  · exact hrec

end Node

end WarehousePG.DistributedLog
