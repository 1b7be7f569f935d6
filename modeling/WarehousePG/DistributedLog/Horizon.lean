import WarehousePG.DistributedLog.Pages

namespace WarehousePG.DistributedLog

open Framework Transam Dtm Slru Node FullTransactionId Start List Option
open Option (ite_none_right_eq_some bind_eq_some_iff map_eq_some_iff some)

namespace Start

variable {c : Start}

theorem horizon_spec (c : Start) :
    c.oldestXid.value≤c.horizon.value ∧ c.horizon.value≤c.nextXid.value ∧
      (c.slru.physical (transactionIdToPage c.horizon.xid)=true ∨ c.horizon=c.nextXid) ∧
      ∀ y : FullTransactionId, c.oldestXid.value≤y.value → y.value<c.horizon.value →
        c.slru.physical (transactionIdToPage y.xid)=false := by
  have hle := c.oldest_le
  have hlive := c.oldest_live
  have hpage : fullPage c.nextXid=c.nextXid.value/4096 := rfl
  have hpage' : fullPage c.oldestXid=c.oldestXid.value/4096 := rfl
  exact initOldestXmin_spec hle hlive (by omega)

theorem pagesBegun_le (x : FullTransactionId) : pagesBegun x≤fullPage x+1 := by
  unfold pagesBegun
  split_ifs
  · exact Nat.le_succ _
  · exact le_refl _

theorem same_page_of_begun (hxy : y.value≤x.value)
    (hx : fullPage x<pagesBegun y) : fullPage x=fullPage y ∧ transactionIdToEntry y.xid≠0 := by
  have hmono := fullPage_mono hxy
  unfold pagesBegun at hx
  split_ifs at hx with hfirst
  · omega
  · refine ⟨by omega,?_⟩
    intro hent
    apply hfirst
    simp [firstOfPage,hent]

/-- Startup keeps every recorded entry and has the page of the next xid. -/
theorem startSlru_spec {slru : LogSlru} (h : c.startSlru=some slru) :
    slru.InFile ∧ slru.physical=c.slru.physical ∧
      (∀ q, (c.slru.page q).isSome=true → (slru.page q).isSome=true) ∧
      (transactionIdToEntry c.nextXid.xid≠0 →
        (slru.page (transactionIdToPage c.nextXid.xid)).isSome=true) ∧
      ∀ x g, (x, g)∈c.recorded → lookup slru x=some g := by
  have hfile : ({ c.slru with latestPageNumber := transactionIdToPage c.nextXid.xid } :
      LogSlru).InFile := c.in_file
  unfold startSlru at h
  dsimp only at h
  split_ifs at h with hent
  · obtain ⟨pg,hread,rfl⟩ := map_eq_some_iff.mp h
    refine ⟨hfile.setPage,rfl,?_,?_,?_⟩
    · intro q hq
      by_cases heq : q=transactionIdToPage c.nextXid.xid
      · rw [heq,setPage_page_self]
        rfl
      · rw [setPage_page_of_ne heq]
        exact hq
    · intro _
      rw [setPage_page_self]
      rfl
    · intro x g hmem
      obtain ⟨hold,hlt,-,hpage,-,hlook⟩ := c.recorded_lookup x g hmem
      unfold lookup at *
      by_cases heq : transactionIdToPage x.xid=transactionIdToPage c.nextXid.xid
      · -- an entry before the next xid's on the last page is not cleared
        have hle := c.oldest_le
        have hlive := c.oldest_live
        have hpx : fullPage x=x.value/4096 := rfl
        have hpn : fullPage c.nextXid=c.nextXid.value/4096 := rfl
        have hfull := fullPage_eq_of_toPage heq (by omega) (by omega)
        have hbef : transactionIdToEntry x.xid<transactionIdToEntry c.nextXid.xid := by
          rw [transactionIdToEntry_xid,transactionIdToEntry_xid]
          omega
        obtain ⟨pg',hpg',hval⟩ := map_eq_some_iff.mp hlook
        rw [heq] at hpg'
        have hsame := readPage_of_page distributedLogCtl c.inRecovery
          (s := { c.slru with latestPageNumber := transactionIdToPage c.nextXid.xid }) hpg'
        rw [hread] at hsame
        cases hsame
        rw [heq,setPage_page_self,map_some,trim,if_neg (not_le.mpr hbef),hval]
      · rw [setPage_page_of_ne heq]
        exact hlook
  · cases h
    exact ⟨hfile,rfl,fun _ hq => hq,fun hne => absurd hne hent,
      fun x g hmem => (c.recorded_lookup x g hmem).2.2.2.2.2⟩

theorem nodeInv_start (h : c.distributedLogStartup=some s) : s.NodeInv := by
  obtain ⟨slru,hslru,rfl⟩ := map_eq_some_iff.mp h
  obtain ⟨hfile,hphys,hkeep,hlast,hlook⟩ := startSlru_spec hslru
  obtain ⟨hge,hle,hpage,hgap⟩ := c.horizon_spec
  have hlive := c.oldest_live
  have hbegun := le_trans c.begun_le (pagesBegun_le c.nextXid)
  have hpn : fullPage c.nextXid=c.nextXid.value/4096 := rfl
  -- the xids in progress lie between the oldest and the next xid
  have hrun (x : FullTransactionId) (hx : ∃ p∈c.procs.map fun xids => (⟨xids,.idle⟩ : Proc),
      x∈p.xids) : c.oldestXid.value≤x.value ∧ x.value<c.nextXid.value ∧
      (c.inRecovery=false → c.kept≤fullPage x) := by
    obtain ⟨p,hp,hmem⟩ := hx
    obtain ⟨xids,hxids,rfl⟩ := mem_map.mp hp
    exact c.running xids hxids x hmem
  -- below the horizon nothing was kept
  have hgone (x : FullTransactionId) (hx : c.oldestXid.value≤x.value)
      (hlt : x.value<c.horizon.value) : fullPage x<c.kept := by
    by_contra hkept
    have hthr := (c.files x hx (fullPage_lt_pagesBegun (Nat.lt_of_lt_of_le hlt hle))).mpr
      (Nat.le_of_not_lt hkept)
    rw [hgap x hx hlt] at hthr
    cases hthr
  constructor
  case toLogInv =>
    constructor
    case readable =>
      intro x hx hb
      rcases lt_or_ge x.value c.nextXid.value with hlt | hge'
      · apply hkeep
        apply c.in_file
        have hbeg := fullPage_lt_pagesBegun hlt
        rw [c.files x (le_trans hge hx) hbeg]
        rcases hpage with hthr | heq
        · have hhor := fullPage_lt_pagesBegun (lt_of_le_of_lt hx hlt)
          rw [c.files c.horizon hge hhor] at hthr
          exact le_trans hthr (fullPage_mono hx)
        · rw [heq] at hx
          exact absurd hlt (not_lt.mpr hx)
      · have hpagex : fullPage x<c.nextPage := by
          rcases hb with hlt | hlt
          · exact absurd hlt (not_lt.mpr hge')
          · exact hlt
        obtain ⟨hsame,hent⟩ :=
          same_page_of_begun hge' (lt_of_lt_of_le hpagex c.begun_le)
        have hthr := hlast hent
        show (slru.page _).isSome=true
        rw [transactionIdToPage_xid,hsame,← transactionIdToPage_xid]
        exact hthr
    case in_file => exact hfile
    case physical =>
      intro _ x hx hkept hlt
      show slru.physical _=true
      rw [hphys]
      exact (c.files x (le_trans hge hx) (lt_of_lt_of_le hlt c.begun_le)).mpr hkept
    case lookup => exact fun x g hmem _ _ => hlook x g hmem
  case window =>
    intro v hv
    have hv' : c.oldestXid.value≤v.value ∧ v.value≤c.nextXid.value := by
      rcases mem_held.mp hv with rfl | rfl | ⟨p,hp,hmem⟩
      · exact ⟨c.oldest_le,le_refl _⟩
      · exact ⟨hge,hle⟩
      · obtain ⟨xids,hxids,rfl⟩ := mem_map.mp hp
        rcases hmem with hxid | hheld
        · have := c.running xids hxids v hxid
          omega
        · simp [Phase.held] at hheld
    refine ⟨?_,hv'.2⟩
    show max c.nextXid.value (c.nextPage*4096+3)+2^18≤v.value+2^31
    have hmax : max c.nextXid.value (c.nextPage*4096+3)≤c.nextXid.value+4099 := by
      apply Nat.max_le.mpr
      omega
    omega
  case running_lt => exact fun x hx => (hrun x hx).2.1
  case settled =>
    constructor
    · intro x g hmem hlt
      have hrec := c.recorded_lookup x g hmem
      have := hgone x hrec.1 hlt
      omega
    · intro x hx hlt
      exact hgone x (hrun x hx).1 hlt
  case begun => exact c.begun_eq
  case kept_running => exact fun hr x hx => (hrun x hx).2.2 hr
  case kept_next => exact c.kept_primary
  case recorded =>
    intro x g hmem
    have hrec := c.recorded_lookup x g hmem
    exact ⟨hrec.2.2.2.2.1,hrec.2.2.2.1,.inl hrec.2.2.1⟩
  case floor_le =>
    intro d hd
    cases hd
  case phases =>
    intro p hp
    obtain ⟨xids,-,rfl⟩ := mem_map.mp hp
    trivial

end Start

namespace Node

variable {s t : Node}

/-- Every step within the window keeps the invariant of the log. -/
theorem step_nodeInv (s : Node) (a : Action) (t : Node) (h : s.NodeInv)
    (hwin : s.pageInWindow a=true) (hs : s.step a=some t) : t.NodeInv := by
  cases a with
  | getSnapshotData b l ds =>
    obtain ⟨p,hb,hrest⟩ := bind_eq_some_iff.mp hs
    split at hrest
    case h_1 hidle =>
      obtain ⟨hguard,rfl⟩ := of_guard hrest
      obtain ⟨hds,hl⟩ := Bool.and_eq_true_iff.mp hguard
      obtain ⟨hlive,hall⟩ := Bool.and_eq_true_iff.mp hl
      have hu := h.withSnapshot hds
      apply hu.setPhase hb
      · intro v hv
        rw [mem_singleton.mp hv]
        exact inWindow_of_live hlive
      · refine ⟨le_max_right _ _,?_⟩
        intro x hx
        obtain ⟨q,hq,hmem⟩ := hx
        have hqall := all_eq_true.mp hall q hq
        exact of_decide_eq_true (all_eq_true.mp hqall x hmem)
    case h_2 => cases hrest
  | dropSnapshot ds =>
    cases hs
    exact h.dropSnapshot ds
  | call b a =>
    obtain ⟨p,hb,hrest⟩ := bind_eq_some_iff.mp hs
    obtain ⟨r,hr,hres⟩ := bind_eq_some_iff.mp hrest
    cases hres
    exact h.call hb hr
  | truncate b =>
    obtain ⟨p,hb,hrest⟩ := bind_eq_some_iff.mp hs
    split at hrest
    case h_1 o hph =>
      obtain ⟨hexcl,rfl⟩ := of_guard hrest
      have hp := mem_of_getElem? hb
      have hok := h.phases p hp
      rw [hph] at hok
      have hwino : s.InWindow o := h.inWindow_phase hp (by simp [hph,Phase.held])
      have hu := h.truncateTo hwino hok hexcl
      generalize s.truncateTo o=slru at hu ⊢
      exact hu.setPhase hb (by simp [Phase.held]) trivial
    case h_2 => cases hrest
  | assignXid b =>
    obtain ⟨p,hb,hrest⟩ := bind_eq_some_iff.mp hs
    obtain ⟨r,hr,hres⟩ := bind_eq_some_iff.mp hrest
    cases hres
    exact h.assignXid hb (h.extend_spec hr hwin)
  | setCommittedTree b xid subxids g =>
    obtain ⟨p,hb,hrest⟩ := bind_eq_some_iff.mp hs
    split at hrest
    case h_1 hidle =>
      obtain ⟨hmay,rfl⟩ := of_guard hrest
      exact h.setCommittedTree hb hmay
    case h_2 => cases hrest
  | setCommittedPage b =>
    obtain ⟨p,hb,hrest⟩ := bind_eq_some_iff.mp hs
    split at hrest
    case h_1 =>
      cases hrest
      exact h.setPhase hb (by simp [Phase.held]) trivial
    case h_2 chunk chunks g hph =>
      cases hrest
      exact h.setCommittedPage hb hph
    case h_3 => cases hrest
  | endTransaction b xids =>
    obtain ⟨p,hb,hrest⟩ := bind_eq_some_iff.mp hs
    split at hrest
    case h_1 hidle =>
      cases hrest
      exact h.endTransaction hb hidle fun x hx => (mem_filter.mp hx).1
    case h_2 => cases hrest
  | redoZeroPage =>
    obtain ⟨hr,hres⟩ := ite_none_right_eq_some.mp hs
    rw [pageCount_eq] at hres
    cases hres
    exact h.redoZeroPage hr hwin
  | redoTruncate P =>
    obtain ⟨hguard,hres⟩ := ite_none_right_eq_some.mp hs
    rw [pageCount_eq] at hres
    cases hres
    simp only [Bool.and_eq_true,decide_eq_true_eq] at hguard
    apply h.redoTruncate hguard.1.2 hguard.2.1
    rw [mul_comm]
    exact hguard.2.2
  | writePage P =>
    have ht : { s with slru := s.slru.writePages distributedLogCtl (·=P) }=t := some.inj hs
    rw [← ht]
    exact h.writePage _

/-- The horizon never moves back. -/
theorem step_horizon_le (h : s.NodeInv) (hs : s.step a=some t) :
    s.oldestXmin.value≤t.oldestXmin.value := by
  cases a with
  | call b a =>
    obtain ⟨p,hb,hrest⟩ := bind_eq_some_iff.mp hs
    obtain ⟨r,hr,hres⟩ := bind_eq_some_iff.mp hrest
    cases hres
    exact (h.callStep_ok (mem_of_getElem? hb) hr).le
  | dropSnapshot ds =>
    cases hs
    exact le_refl _
  | writePage P =>
    cases hs
    exact le_refl _
  | redoZeroPage =>
    obtain ⟨-,rfl⟩ := of_guard hs
    exact le_refl _
  | redoTruncate P =>
    obtain ⟨-,rfl⟩ := of_guard hs
    exact le_refl _
  | assignXid b =>
    obtain ⟨p,-,hrest⟩ := bind_eq_some_iff.mp hs
    obtain ⟨r,-,hres⟩ := bind_eq_some_iff.mp hrest
    cases hres
    exact le_refl _
  | _ =>
    obtain ⟨p,-,hrest⟩ := bind_eq_some_iff.mp hs
    split at hrest
    all_goals grind [setProc]

abbrev Paced (s : Node) (as : List Action) : Prop :=
  EveryStep step (fun u a => u.pageInWindow a=true) s as

theorem run_nodeInv (h : s.NodeInv) (hpace : s.Paced as)
    (hrun : run step s as=some t) : t.NodeInv :=
  run_invariant_of_everyStep step_nodeInv h hpace hrun

theorem run_horizon_le (h : s.NodeInv) (hpace : s.Paced as)
    (hrun : run step s as=some t) : s.oldestXmin.value≤t.oldestXmin.value := by
  have hboth : t.NodeInv ∧ s.oldestXmin.value≤t.oldestXmin.value := by
    apply run_invariant_of_everyStep (P := fun u => u.NodeInv ∧ s.oldestXmin.value ≤
      u.oldestXmin.value) _ ⟨h,le_refl _⟩ hpace hrun
    intro u a v hu hwin hstep
    exact ⟨step_nodeInv u a v hu.1 hwin hstep,le_trans hu.2 (step_horizon_le hu.1 hstep)⟩
  exact hboth.2

theorem xmin_le_of_inProgressFor (h : InProgressFor ds g) : ds.xmin≤g := by
  unfold InProgressFor committedTest at h
  by_contra hlt
  rw [if_pos (Nat.lt_of_not_le hlt)] at h
  split_ifs at h with hall hfalse
  exact hfalse

theorem NodeInv.found (h : s.NodeInv) (hmem : (x, g)∈s.recorded) (hds : ds∈s.snapshots)
    (hprog : InProgressFor ds g) : s.belowHorizon x=false ∧ s.checkRead x=.answered x g := by
  have hfloor := le_trans (h.floor_le ds hds) (xmin_le_of_inProgressFor hprog)
  have hge : s.oldestXmin.value≤x.value := by
    by_contra hlt
    have := h.settled.recorded x g hmem (Nat.lt_of_not_le hlt)
    omega
  obtain ⟨-,hpage,hkept⟩ := h.recorded x g hmem
  have hlook := h.lookup x g hmem hge (hkept.resolve_right (not_lt.mpr hfloor))
  have hlt := begun_lt_frontier (s := s) (.inr hpage)
  have hwin := h.inWindow_horizon.1
  constructor
  · rw [belowHorizon,Bool.eq_false_iff,Ne,precedes_iff (by omega) (by omega)]
    exact not_lt.mpr hge
  · rw [checkRead,hlook]

end Node

/-- In every run that begins no page of the log half the range behind an xid still held, the horizon
never moves back, no reader finds its page removed, and every mapping that a snapshot in use needs
is found: neither test against the horizon rules it out and the read gives its gxid. -/
theorem needed_mappings_survive (c : Start) (s₀ : Node) (hstart : c.distributedLogStartup=some s₀)
    (as : List Action) (hpace : s₀.Paced as) (s : Node) (hrun : run step s₀ as=some s) :
    (∀ bs t, s.Paced bs → run step s bs=some t → s.oldestXmin.value≤t.oldestXmin.value) ∧
    (∀ p∈s.procs, ∀ page, p.phase≠.readFailed page) ∧
    ∀ x g, (x, g)∈s.recorded → ∀ ds∈s.snapshots, InProgressFor ds g →
      s.belowHorizon x=false ∧ s.checkRead x=.answered x g := by
  have h := run_nodeInv (nodeInv_start hstart) hpace hrun
  refine ⟨?_,?_,?_⟩
  · intro bs t hbs hrun'
    exact run_horizon_le h hbs hrun'
  · intro p hp page hph
    have hok := h.phases p hp
    rw [hph] at hok
    exact hok
  · intro x g hmem ds hds hprog
    exact h.found hmem hds hprog

def freshStandby : Start where
  inRecovery := true
  slru := ⟨fun p => if p=0 then some fun _ => 0 else none,fun p => p=0,0⟩
  oldestXid := ⟨3,by decide⟩
  nextXid := ⟨4,by decide⟩
  nextPage := 1
  procs := [[],[],[]]
  floor := 0
  kept := 0
  recorded := []
  oldest_le := by decide
  oldest_live := by decide
  begun_le := by decide
  begun_eq := by decide
  in_file := by
    intro p hp
    have hp0 : p=0 := by simpa using hp
    simp [hp0]
  files := by
    intro x _ hx
    have hone : pagesBegun ⟨4,by decide⟩=1 := by decide
    have hpage : fullPage x=0 := by rw [hone] at hx; omega
    simp [transactionIdToPage_xid,hpage]
  running := by simp
  kept_primary := by decide
  recorded_lookup := by simp

def freshNode : Node where
  inRecovery := true
  nextXid := ⟨4,by decide⟩
  nextPage := 1
  oldestXmin := ⟨3,by decide⟩
  slru := (⟨fun p => if p=0 then some fun _ => 0 else none,fun p => p=0,0⟩ : LogSlru).setPage 0
    (trim 4 fun _ => 0)
  procs := [⟨[],.idle⟩,⟨[],.idle⟩,⟨[],.idle⟩]
  snapshots := []
  floor := 0
  kept := 0
  recorded := []

theorem freshStandby_startup : freshStandby.distributedLogStartup=some freshNode := rfl

def snapshotAt7 : DistributedSnapshot := ⟨1,1,5,6,[]⟩

def commitAndAdvance : List Action :=
  [.assignXid 0,.setCommittedTree 0 ⟨4,by decide⟩ [] 7,.setCommittedPage 0,
    .getSnapshotData 1 ⟨4,by decide⟩ snapshotAt7,.call 1 .lock,.call 1 .scan,.call 1 .scan,
    .call 1 .swap]

theorem mapping_found_above_horizon : ∃ s, run step freshNode commitAndAdvance=some s ∧
      s.checkRead ⟨4,by decide⟩=.answered ⟨4,by decide⟩ 7 := by
  refine exists_run_of (fun s => s.recorded=[(⟨4,by decide⟩, 7)] ∧ s.snapshots=[snapshotAt7])
    ?_ ?_
  · decide +kernel
  rintro s hrun ⟨hrec,hsnap⟩
  have hall := needed_mappings_survive freshStandby freshNode freshStandby_startup commitAndAdvance
    (by decide +kernel) s hrun
  exact (hall.2.2 ⟨4,by decide⟩ 7 (by rw [hrec]; exact mem_cons_self) snapshotAt7
    (by rw [hsnap]; exact mem_cons_self) (by decide)).2

structure Quiet (n : Nat) (s : Node) : Prop where
  recovery : s.inRecovery=true
  next : s.nextXid.value=n
  horizon : s.oldestXmin.value=3
  page_ge : n ≤ s.nextPage*4096
  page_le : s.nextPage*4096≤n+4096
  procs : s.procs=[⟨[],.idle⟩,⟨[],.idle⟩,⟨[],.idle⟩]
  snapshots : s.snapshots=[]
  floor : s.floor=0
  kept : s.kept=0
  recorded : s.recorded=[]
  in_file : s.slru.InFile
  zero : ∀ q pg, s.slru.page q=some pg → ∀ e, pg e=0

theorem Quiet.ready (h : Quiet n s) :
    ∃ as t, run step s as=some t ∧ Quiet n t ∧ n<t.nextPage*4096 := by
  rcases Nat.lt_or_eq_of_le h.page_ge with hlt | heq
  · exact ⟨[],s,rfl,h,hlt⟩
  · let page := s.nextPage%(segmentCount*slruPagesPerSegment)
    let t : Node := { s with
                      slru := (s.slru.zeroPage distributedLogCtl page).writePages distributedLogCtl
                        (·=page)
                      nextPage := s.nextPage+1 }
    have hstep : s.step .redoZeroPage=some t := if_pos h.recovery
    refine ⟨[.redoZeroPage],t,?_,?_⟩
    · rw [run_cons_iff]
      exact ⟨t,hstep,rfl⟩
    · refine ⟨⟨h.recovery,h.next,h.horizon,?_,?_,h.procs,h.snapshots,h.floor,h.kept,
        h.recorded,(h.in_file.zeroPage distributedLogCtl).writePages distributedLogCtl _,?_⟩,?_⟩
      · show n≤(s.nextPage+1)*4096
        omega
      · show (s.nextPage+1)*4096≤n+4096
        omega
      · intro q pg hpg e
        rcases page_of_writePages distributedLogCtl hpg with hold | rfl
        · by_cases hq : q=page
          · rw [hq,zeroPage_page_self] at hold
            rw [← some.inj hold]
            rfl
          · rw [zeroPage_page_of_ne distributedLogCtl hq] at hold
            exact h.zero q pg hold e
        · rfl
      · show n<(s.nextPage+1)*4096
        omega

theorem advance_value {x : FullTransactionId} (h : x.value+1<2^32) : x.advance.value=x.value+1 := by
  have hx := x.normal
  unfold advance
  split_ifs with hn
  · rfl
  · omega

attribute [local simp] setProc

theorem Quiet.step_assign (h : Quiet n s) (hrdy : n<s.nextPage*4096) :
    s.step (.assignXid 0)=some { s with
      procs := [⟨[s.nextXid],.idle⟩,⟨[],.idle⟩,⟨[],.idle⟩]
      nextXid := s.nextXid.advance } := by
  have hpage : fullPage s.nextXid<s.nextPage := by
    have hval : fullPage s.nextXid=s.nextXid.value/4096 := rfl
    have hnext := h.next
    omega
  simp [step,extend,h.procs,h.recovery,hpage]

theorem Quiet.next_xid (h : Quiet n s) (hn : n+1<2^32) :
    ∃ as t, run step s as=some t ∧ Quiet (n+1) t := by
  obtain ⟨as,u,hrun,hu,hrdy⟩ := h.ready
  have hass := hu.step_assign hrdy
  refine ⟨as++[.assignXid 0,.endTransaction 0 [u.nextXid]],
    { u with nextXid := u.nextXid.advance },?_,?_⟩
  · rw [run_append_iff]
    refine ⟨u,hrun,?_⟩
    rw [run_cons_iff]
    refine ⟨_,hass,?_⟩
    simp [run,step,hu.procs]
  · have hval := advance_value (x := u.nextXid) (by rw [hu.next]; exact hn)
    rw [hu.next] at hval
    exact ⟨hu.recovery,hval,hu.horizon,hrdy,le_trans hu.page_le (by omega),hu.procs,
      hu.snapshots,hu.floor,hu.kept,hu.recorded,hu.in_file,hu.zero⟩

theorem exists_quiet (hn : 4≤n) (hlt : n<2^32) :
    ∃ as s, run step freshNode as=some s ∧ Quiet n s := by
  induction n, hn using Nat.le_induction with
  | base =>
    have hfile : freshNode.slru.InFile := freshStandby.in_file.setPage
    have hzero : ∀ q pg, freshNode.slru.page q=some pg → ∀ e, pg e=0 := by
      intro q pg hpg e
      by_cases hq : q=0
      · rw [hq,freshNode,setPage_page_self] at hpg
        rw [← some.inj hpg,trim]
        split_ifs
        · rfl
        · rfl
      · rw [freshNode,setPage_page_of_ne hq] at hpg
        simp [hq] at hpg
    exact ⟨[],freshNode,rfl,rfl,rfl,rfl,by decide,by decide,rfl,rfl,rfl,rfl,rfl,hfile,
      hzero⟩
  | succ n hn ih =>
    obtain ⟨as,s,hrun,hs⟩ := ih (by omega)
    obtain ⟨bs,t,hrun',ht⟩ := hs.next_xid hlt
    exact ⟨as++bs,t,(run_append_iff _ _ _ _).mpr ⟨s,hrun,hrun'⟩,ht⟩

theorem setCommittedWithinAPage_of_zero {s : Node} (hr : s.inRecovery=true) (hfile : s.slru.InFile)
    (hzero : ∀ q pg, s.slru.page q=some pg → ∀ e, pg e=0) (x : FullTransactionId) :
    (s.setCommittedWithinAPage [x] g).2=([x], none) := by
  obtain ⟨pg,hpg,hent⟩ : ∃ pg, (preparePage s.slru true (transactionIdToPage x.xid)).page
      (transactionIdToPage x.xid)=some pg ∧ pg (transactionIdToEntry x.xid)=0 := by
    unfold preparePage
    split_ifs with hmiss
    · exact ⟨_,zeroPage_page_self distributedLogCtl,rfl⟩
    · have hphys : s.slru.physical (transactionIdToPage x.xid)=true := by simpa using hmiss
      obtain ⟨pg,hpg⟩ := isSome_iff_exists.mp (hfile _ hphys)
      exact ⟨pg,hpg,hzero _ pg hpg _⟩
  simp only [setCommittedWithinAPage,hr,readPage_of_page distributedLogCtl true hpg]
  simp [setEntries,hent]

/-- A standby that takes no snapshot while half the xids pass loses the next mapping: the xid that
commits counts as below the horizon, and the committed check answers that there is no gxid. -/
theorem mapping_lost_behind_idle_horizon :
    ∃ as s x g ds, freshStandby.distributedLogStartup=some freshNode ∧
      run step freshNode as=some s ∧ (x, g)∈s.recorded ∧ ds∈s.snapshots ∧ InProgressFor ds g ∧
      s.callStep .idle (.committedCheck x)=some (s.oldestXmin, .answered x 0) := by
  obtain ⟨as,s,hrun,hs⟩ := exists_quiet (n := 2^31+4) (by decide) (by decide)
  obtain ⟨bs,u,hrun',hu,hrdy⟩ := hs.ready
  let x := u.nextXid
  have hx : x.value=2^31+4 := hu.next
  have hpage : fullPage x<u.nextPage := by
    have hval : fullPage x=x.value/4096 := rfl
    omega
  let v : Node := { u with
                    procs := [⟨[x],.idle⟩,⟨[],.idle⟩,⟨[],.idle⟩]
                    nextXid := x.advance }
  have hass : u.step (.assignXid 0)=some v := hu.step_assign hrdy
  have hmay : v.mayCommit ⟨[x],.idle⟩ [x] 7=true := by
    simp [mayCommit,v,hpage,hu.kept]
  let w : Node := { v with procs := [⟨[x],.committing [[x]] 7⟩,⟨[],.idle⟩,⟨[],.idle⟩] }
  have htree : v.step (.setCommittedTree 0 x [] 7)=some w := by
    simp [step,v,w,hmay,treeChunks]
  let slru := (w.setCommittedWithinAPage [x] 7).1
  let y : Node := { w with
                    procs := [⟨[x],.committing [] 7⟩,⟨[],.idle⟩,⟨[],.idle⟩]
                    slru
                    recorded := [(x, 7)] }
  have hpair : w.setCommittedWithinAPage [x] 7=(slru, [x], none) := by
    have hsnd := setCommittedWithinAPage_of_zero (s := w) hu.recovery hu.in_file hu.zero x (g := 7)
    rw [← hsnd]
  have hcom : w.step (.setCommittedPage 0)=some y := by
    have hproc : w.procs[0]?=some ⟨[x],.committing [[x]] 7⟩ := rfl
    simp only [step,hproc,bind_eq_bind,bind_some,hpair]
    simp [w,y,v,hu.recorded]
  have hadv : x.advance.value=2^31+5 := by rw [advance_value (by omega),hx]
  have hfront : y.frontier≤2^31+4+4096+3 := by
    show max x.advance.value (u.nextPage*4096+3)≤_
    have hle := hu.page_le
    omega
  have hlive : y.live x=true := by
    simp only [live,Bool.and_eq_true,decide_eq_true_eq]
    show x.value≤x.advance.value ∧ _
    omega
  let z : Node := { y with
                    procs := [⟨[x],.committing [] 7⟩,⟨[],.entered x 1⟩,⟨[],.idle⟩]
                    snapshots := [snapshotAt7]
                    floor := 1 }
  have harr : y.step (.getSnapshotData 1 x snapshotAt7)=some z := by
    have hall : y.mayArrive snapshotAt7=true := by
      simp [mayArrive,y,w,v,hu.snapshots,hu.floor,snapshotAt7]
    have holdest : y.mayBeOldest x=true := by simp [mayBeOldest,hlive,y]
    have hproc : y.procs[1]?=some ⟨[],.idle⟩ := rfl
    simp only [step,hproc,bind_eq_bind,bind_some,hall,holdest]
    simp [y,z,w,v,hu.snapshots,hu.floor,snapshotAt7]
  refine ⟨as++(bs++[.assignXid 0,.setCommittedTree 0 x [] 7,.setCommittedPage 0,
    .getSnapshotData 1 x snapshotAt7]),z,x,7,snapshotAt7,rfl,?_,mem_cons_self,
    mem_cons_self,by decide,?_⟩
  · rw [run_append_iff]
    refine ⟨s,hrun,(run_append_iff _ _ _ _).mpr ⟨u,hrun',?_⟩⟩
    simp only [run_cons_iff]
    exact ⟨v,hass,w,htree,y,hcom,z,harr,rfl⟩
  · have hbelow : z.belowHorizon x=true := by
      have hxx : x=⟨2^31+4,by decide⟩ := ext hx
      have hhor : u.oldestXmin=⟨3,by decide⟩ := ext hu.horizon
      show transactionIdPrecedes x.xid u.oldestXmin.xid=true
      rw [hxx,hhor]
      decide
    have hlivez : z.live x=true := hlive
    have hlt : x.value<z.nextXid.value := by
      show x.value<x.advance.value
      omega
    simp [callStep,hlivez,hlt,hbelow]

end WarehousePG.DistributedLog
