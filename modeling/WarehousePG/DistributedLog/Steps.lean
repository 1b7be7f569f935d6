import WarehousePG.DistributedLog.Node

namespace WarehousePG.DistributedLog

open Framework Transam Dtm FullTransactionId Phase Option

namespace Node

variable {s : Node} {x y : FullTransactionId} {n : FullTransactionId}

section

variable (hx : s.InWindow x)
include hx

theorem InWindow.precedes_iff (hy : s.InWindow y) :
    transactionIdPrecedes x.xid y.xid=true ↔ x.value<y.value := by
  have hfront : s.nextXid.value ≤ s.frontier := le_max_left _ _
  unfold InWindow at hx hy
  exact FullTransactionId.precedes_iff (by omega) (by omega)

theorem InWindow.precedesOrEquals_iff (hy : s.InWindow y) :
    transactionIdPrecedesOrEquals x.xid y.xid=true ↔ x.value≤y.value := by
  have hfront : s.nextXid.value ≤ s.frontier := le_max_left _ _
  unfold InWindow at hx hy
  exact FullTransactionId.precedesOrEquals_iff (by omega) (by omega)

theorem InWindow.eq_of_xid (hy : s.InWindow y) (h : x.xid=y.xid) : x=y := by
  have hfront : s.nextXid.value ≤ s.frontier := le_max_left _ _
  unfold InWindow at hx hy
  exact xid_inj h (by omega) (by omega)

theorem InWindow.mono (hxy : x.value≤y.value) (hy : y.value ≤ s.nextXid.value) : s.InWindow y := by
  unfold InWindow at hx ⊢
  omega

end

section

variable (h : NodeInv s)
include h

theorem NodeInv.inWindow_horizon : s.InWindow s.oldestXmin :=
  h.window _ (mem_held.mpr (.inr (.inl rfl)))

theorem NodeInv.inWindow_next : s.InWindow s.nextXid :=
  h.window _ (mem_held.mpr (.inl rfl))

theorem NodeInv.inWindow_phase (hp : p∈s.procs) (hv : v∈p.phase.held) : s.InWindow v :=
  h.window _ (mem_held.mpr (.inr (.inr ⟨p,hp,.inr hv⟩)))

theorem NodeInv.inWindow_running (hx : s.Running x) : s.InWindow x := by
  obtain ⟨p,hp,hmem⟩ := hx
  exact h.window _ (mem_held.mpr (.inr (.inr ⟨p,hp,.inl hmem⟩)))

theorem belowHorizon_iff (hx : s.InWindow x) : s.belowHorizon x=true ↔ x.value<s.oldestXmin.value :=
  hx.precedes_iff h.inWindow_horizon

end

theorem frame_setProc (hb : s.procs[b]?=some p) (hsub : ∀ x∈q.xids, x∈p.xids) :
    Frame s (s.setProc b q) :=
  { Frame.refl s with running := fun _ hx => .inl (running_setProc hb hsub hx) }

theorem NodeInv.setProc (h : NodeInv s) (hb : s.procs[b]?=some p) (hsub : ∀ x∈q.xids, x∈p.xids)
    (hwin : ∀ v∈q.phase.held, s.InWindow v) (hok : s.PhaseOk q.xids q.phase) :
    NodeInv (s.setProc b q) := by
  have hp := mem_of_getElem? hb
  have hf := frame_setProc hb hsub
  have hrun : ∀ x, (s.setProc b q).Running x → s.Running x := fun x => running_setProc hb hsub
  refine { h with toLogInv := ⟨h.readable,h.in_file,h.physical,h.lookup⟩, window := ?window
                  running_lt := fun x hx => h.running_lt x (hrun x hx)
                  settled := h.settled.frame hf h.inWindow_horizon.2
                  kept_running := fun hr x hx => h.kept_running hr x (hrun x hx)
                  phases := ?phases }
  case window =>
    intro v hv
    rcases mem_held.mp hv with rfl | rfl | ⟨r,hr,hmem⟩
    · exact h.inWindow_next
    · exact h.inWindow_horizon
    · rcases mem_setProc hr with rfl | hold
      · rcases hmem with hxid | hheld
        · exact h.inWindow_running (running_of_mem hp (hsub v hxid))
        · exact hwin v hheld
      · exact h.window v (mem_held.mpr (.inr (.inr ⟨r,hold,hmem⟩)))
  case phases =>
    intro r hr
    rcases mem_setProc hr with rfl | hold
    · exact hok.frame hf hwin (fun _ hx => hx) fun _ _ hread => hread
    · exact (h.phases r hold).frame hf (fun v hv => h.inWindow_phase hold hv) (fun _ hx => hx)
        fun _ _ hread => hread

theorem NodeInv.setPhase (h : NodeInv s) (hb : s.procs[b]?=some p)
    (hwin : ∀ v∈ph.held, s.InWindow v) (hok : s.PhaseOk p.xids ph) :
    NodeInv (s.setProc b { p with phase := ph }) :=
  h.setProc hb (fun _ hx => hx) hwin hok

theorem NodeInv.advance (h : NodeInv s) (hle : s.oldestXmin.value≤n.value) (hwin : s.InWindow n)
    (hset : s.Settled n) : NodeInv { s with oldestXmin := n } := by
  let t : Node := { s with oldestXmin := n }
  have hf : Frame s t := { Frame.refl s with horizon_le := hle }
  refine { h with toLogInv := ?log, window := ?window, settled := hset.frame hf hwin.2
                  phases := ?phases }
  case log =>
    exact ⟨h.readable.mono hle,h.in_file,fun hr x hx => h.physical hr x (le_trans hle hx),
      fun x g hmem hx => h.lookup x g hmem (le_trans hle hx)⟩
  case window =>
    intro v hv
    rcases mem_held.mp hv with rfl | rfl | hproc
    · exact h.inWindow_next
    · exact hwin
    · exact h.window v (mem_held.mpr (.inr (.inr hproc)))
  case phases =>
    intro q hq
    exact (h.phases q hq).frame hf (fun v hv => h.inWindow_phase hq hv) (fun _ hx => hx)
      fun _ _ hread => hread

structure CallResult (s : Node) (xids : List FullTransactionId)
    (r : FullTransactionId × Phase) : Prop where
  le : s.oldestXmin.value≤r.1.value
  inWindow : s.InWindow r.1
  settled : s.Settled r.1
  held : ∀ v∈r.2.held, s.InWindow v
  ok : PhaseOk { s with oldestXmin := r.1 } xids r.2

attribute [local simp] Phase.held

section

variable (h : NodeInv s)
include h

theorem NodeInv.callResult_same (hwin : ∀ v∈ph.held, s.InWindow v)
    (hok : s.PhaseOk xids ph) : CallResult s xids (s.oldestXmin, ph) :=
  ⟨le_refl _,h.inWindow_horizon,h.settled,hwin,hok⟩

theorem NodeInv.afterLoop_ok (hc : s.CallOk c) (hold : s.InWindow c.oldOldestXmin)
    (hnew : s.InWindow c.oldestXmin) : CallResult s xids (s.oldestXmin, afterLoop c) := by
  unfold afterLoop
  split_ifs with hne
  · apply h.callResult_same
    · simp [hold,hnew]
    · exact ⟨hc.old_le,hc.settled⟩
  · have heq : c.oldOldestXmin.xid=c.oldestXmin.xid := by simpa using hne
    have hidle : afterAdvance c.oldOldestXmin c.oldestXmin=.idle := by simp [afterAdvance,heq]
    rw [hidle]
    exact h.callResult_same (by simp) trivial

theorem NodeInv.settled_advance (hc : s.CallOk c) (hlt : c.oldestXmin.value<c.oldestLocalXmin.value)
    (hpg : s.slru.page (transactionIdToPage c.oldestXmin.xid)=some pg)
    (hent : pg (transactionIdToEntry c.oldestXmin.xid)<c.xminAllDistributedSnapshots) :
    s.Settled c.oldestXmin.advance where
  recorded := by
    intro x g hmem hx
    have hle := le_of_lt_advance hx
    rcases lt_or_ge x.value c.oldestXmin.value with hbel | hge
    · exact hc.settled.recorded x g hmem hbel
    · have hxc : x=c.oldestXmin := ext (le_antisymm hle hge)
      rcases lt_or_ge x.value s.oldestXmin.value with hpast | hhor
      · exact h.settled.recorded x g hmem hpast
      · rcases (h.recorded x g hmem).2.2 with hkept | hg
        · have hlook := h.lookup x g hmem hhor hkept
          rw [hxc,DistributedLog.lookup,hpg,map_some] at hlook
          have hval := some.inj hlook
          have hfloor := hc.xmin_le
          omega
        · exact hg
  running := by
    intro x hrun hx
    have hle := hc.running x hrun
    have hnext := le_of_lt_advance hx
    omega

/-- A scan of entries moves the horizon over settled xids only. -/
theorem NodeInv.scan_ok (hwin : ∀ v∈(scanning c currPage).held, s.InWindow v)
    (hok : s.PhaseOk xids (.scanning c currPage)) :
    CallResult s xids (s.oldestXmin, s.scan c currPage) := by
  obtain ⟨hc,hread⟩ := hok
  have hl := hwin c.oldestLocalXmin (by simp)
  have ho := hwin c.oldOldestXmin (by simp)
  have hn := hwin c.oldestXmin (by simp)
  unfold scan
  split_ifs with hprec
  swap
  · exact h.afterLoop_ok hc ho hn
  have hlt := (hn.precedes_iff hl).mp hprec
  dsimp only
  split_ifs with hpage
  · exact h.callResult_same hwin hc
  · have hthere := hread c.oldestXmin (le_refl _) (.inl (lt_of_lt_of_le hlt hl.2))
    obtain ⟨pg,hpg⟩ := isSome_iff_exists.mp hthere
    rw [hpg]
    dsimp only
    unfold scanEntry
    split_ifs with hent
    · exact h.afterLoop_ok hc ho hn
    · have hadv := advance_le_of_lt hlt
      have hup := lt_advance c.oldestXmin
      have hset := h.settled_advance hc hlt hpg (Nat.lt_of_not_le hent)
      have hcall : s.CallOk { c with oldestXmin := c.oldestXmin.advance } :=
        ⟨hc.xmin_le,hc.running,hset,le_trans hc.old_le (le_of_lt hup)⟩
      apply h.callResult_same
      · simp [hl,ho,hn.mono (le_of_lt hup) (le_trans hadv hl.2)]
      · exact ⟨hcall,hread.mono (le_of_lt hup)⟩

theorem NodeInv.relock_ok (hwin : ∀ v∈(betweenPages c).held, s.InWindow v)
    (hc : s.CallOk c) : CallResult s xids (s.oldestXmin, s.relock c) := by
  have hl := hwin c.oldestLocalXmin (by simp)
  have ho := hwin c.oldOldestXmin (by simp)
  have hn := hwin c.oldestXmin (by simp)
  have hhor := h.inWindow_horizon
  unfold relock
  split_ifs with hprec
  · have hlt := (hn.precedes_iff hhor).mp hprec
    have hcall : s.CallOk { c with oldestXmin := s.oldestXmin } :=
      ⟨hc.xmin_le,hc.running,h.settled,le_trans hc.old_le (le_of_lt hlt)⟩
    apply h.callResult_same
    · simp [hl,ho,hhor]
    · exact ⟨hcall,h.readable⟩
  · have hge : s.oldestXmin.value≤c.oldestXmin.value := by
      rw [hn.precedes_iff hhor] at hprec
      omega
    exact h.callResult_same hwin ⟨hc,h.readable.mono hge⟩

end

theorem truncating_of_afterAdvance (xids : List FullTransactionId)
    (hle : n.value ≤ s.oldestXmin.value) (hn : s.InWindow n) :
    s.PhaseOk xids (afterAdvance o n) ∧ ∀ v∈(afterAdvance o n).held, s.InWindow v := by
  unfold afterAdvance
  split_ifs
  · refine ⟨hle,?_⟩
    intro v hv
    rw [List.mem_singleton.mp hv]
    exact hn
  · exact ⟨trivial,by simp⟩

theorem NodeInv.swap_ok (h : NodeInv s) (hwin : ∀ v∈(swapping o n e).held, s.InWindow v)
    (hok : s.PhaseOk xids (.swapping o n e)) : CallResult s xids (s.swap o n e) := by
  obtain ⟨hen,hset⟩ := hok
  have ho := hwin o (by simp)
  have hn := hwin n (by simp)
  have he := hwin e (by simp)
  have hhor := h.inWindow_horizon
  unfold swap
  split_ifs with hcas hle
  · have heq := hhor.eq_of_xid he hcas
    have hph := truncating_of_afterAdvance xids (o := o) (s := { s with oldestXmin := n })
      (le_refl n.value) hn
    exact ⟨by rw [heq]; exact hen,hn,hset,hph.2,hph.1⟩
  · have hph := truncating_of_afterAdvance xids (o := o) (le_refl _) hhor
    exact h.callResult_same hph.2 hph.1
  · rw [hn.precedesOrEquals_iff hhor] at hle
    apply h.callResult_same
    · simp [ho,hn,hhor]
    · exact ⟨Nat.le_of_lt (Nat.lt_of_not_le hle),hset⟩

theorem inWindow_of_live (h : s.live x=true) : s.InWindow x := by
  simp only [live,Bool.and_eq_true,decide_eq_true_eq] at h
  exact ⟨h.2,h.1⟩

/-- One step of a call to advance the horizon. -/
theorem NodeInv.callStep_ok (h : NodeInv s) (hp : p∈s.procs) (hs : s.callStep p.phase a=some r) :
    CallResult s p.xids r := by
  have hok := h.phases p hp
  have hwin : ∀ v∈p.phase.held, s.InWindow v := fun v hv => h.inWindow_phase hp hv
  unfold callStep at hs
  split at hs
  case h_1 l m heq =>
    cases hs
    rw [heq] at hok hwin
    apply h.callResult_same
    · simp [hwin _ List.mem_cons_self,h.inWindow_horizon]
    · exact ⟨⟨hok.1,hok.2,h.settled,le_refl _⟩,h.readable⟩
  case h_2 c heq =>
    cases hs
    rw [heq] at hok hwin
    exact h.relock_ok hwin hok
  case h_3 c currPage heq =>
    cases hs
    rw [heq] at hok hwin
    exact h.scan_ok hwin hok
  case h_4 o n e heq =>
    cases hs
    rw [heq] at hok hwin
    exact h.swap_ok hwin hok
  case h_5 x heq =>
    obtain ⟨hguard,rfl⟩ := of_guard hs
    simp only [Bool.and_eq_true,decide_eq_true_eq] at hguard
    have hx := inWindow_of_live hguard.1
    split_ifs with hbel
    · exact h.callResult_same (by simpa using hx) trivial
    · exact h.callResult_same (by simpa using hx) hguard.2
  case h_6 x heq =>
    cases hs
    rw [heq] at hok hwin
    have hx := hwin x (by simp)
    split_ifs with hbel
    · exact h.callResult_same (by simpa using hx) trivial
    · apply h.callResult_same (by simpa using hx)
      rw [belowHorizon_iff h hx] at hbel
      exact h.readable x (Nat.le_of_not_lt hbel) (Or.inl hok)
  case h_7 x heq =>
    cases hs
    rw [heq] at hok hwin
    have hx := hwin x (by simp)
    obtain ⟨pg,hpg⟩ := isSome_iff_exists.mp hok
    have hlook : lookup s.slru x=some (pg (transactionIdToEntry x.xid)) := by
      rw [lookup,hpg,map_some]
    rw [checkRead,hlook]
    exact h.callResult_same (by simpa using hx) trivial
  case h_8 x g heq =>
    cases hs
    exact h.callResult_same (by simp) trivial
  case h_9 => cases hs

theorem NodeInv.call (h : NodeInv s) (hb : s.procs[b]?=some p) (hs : s.callStep p.phase a=some r) :
    NodeInv { s.setProc b { p with phase := r.2 } with oldestXmin := r.1 } := by
  have hres := h.callStep_ok (mem_of_getElem? hb) hs
  have hadv := h.advance hres.le hres.inWindow hres.settled
  exact hadv.setPhase (s := { s with oldestXmin := r.1 }) hb hres.held hres.ok

end Node

variable {x : FullTransactionId}

theorem fullPage_mono (h : x.value≤y.value) : fullPage x≤fullPage y := Nat.div_le_div_right h

theorem fullPage_lt_pagesBegun (h : x.value<y.value) : fullPage x<pagesBegun y := by
  have hx := x.normal
  have hfirst : firstOfPage y=true ↔ y.value%4096=0 ∨ y.value%2^32=3 := by
    have hxid : y.xid=firstNormalTransactionId ↔ y.value%2^32=3 := by
      rw [← UInt32.toNat_inj,xid_toNat]
      exact Iff.rfl
    simp [firstOfPage,transactionIdToEntry_xid,hxid]
  unfold pagesBegun
  have hpx : fullPage x=x.value/4096 := rfl
  have hpy : fullPage y=y.value/4096 := rfl
  split_ifs with hf
  · rw [hfirst] at hf
    omega
  · omega

theorem pagesBegun_advance (x : FullTransactionId) : pagesBegun x.advance=fullPage x+1 := by
  have hlt := fullPage_lt_pagesBegun (lt_advance x)
  have hx := x.normal
  have hval : x.advance.value=x.value+1 ∨ x.advance.value=x.value+4 ∧ (x.value+1)%2^32=0 := by
    unfold advance
    split_ifs with hn
    · exact .inl rfl
    · exact .inr ⟨rfl,by omega⟩
  have hpx : fullPage x=x.value/4096 := rfl
  have hpa : fullPage x.advance=x.advance.value/4096 := rfl
  unfold pagesBegun at hlt ⊢
  split_ifs at hlt ⊢ with hf
  · omega
  · have hentry : x.advance.value%4096≠0 := by
      intro heq
      apply hf
      simp [firstOfPage,transactionIdToEntry_xid,heq]
    have hthree : x.advance.value%2^32≠3 := by
      intro heq
      apply hf
      have hxid : x.advance.xid=firstNormalTransactionId := by
        rw [← UInt32.toNat_inj,xid_toNat]
        exact heq
      simp [firstOfPage,hxid]
    omega

namespace Node

variable {s : Node}

theorem begun_lt_frontier (h : s.Begun x) : x.value<s.frontier := by
  have hpage : fullPage x=x.value/4096 := rfl
  have hnext : s.nextXid.value ≤ s.frontier := le_max_left _ _
  have hpag : s.nextPage*4096+3 ≤ s.frontier := le_max_right _ _
  rcases h with hlt | hlt
  · omega
  · omega

theorem NodeInv.withSlru (h : NodeInv s) {slru : LogSlru} (hlog : LogInv { s with slru })
    (hpag : s.exclusive=true ∨ ∀ x, s.Readable x → Readable { s with slru } x) :
    NodeInv { s with slru } := by
  have hf : Frame s { s with slru } := { Frame.refl s with begun := fun _ hx => .inl hx }
  refine { h with toLogInv := hlog, settled := h.settled.frame hf h.inWindow_horizon.2
                  phases := ?phases }
  case phases =>
    intro q hq
    apply (h.phases q hq).frame hf (fun v hv => h.inWindow_phase hq hv) (fun _ hx => hx)
    intro hlock
    rcases hpag with hexcl | hkeep
    · have hno := List.all_eq_true.mp hexcl q hq
      rw [hlock] at hno
      cases hno
    · exact hkeep

theorem keeps_segment (hC : C≤fullPage s.oldestXmin)
    (hwin : s.frontier+2^18≤4096*(C+1)+2^31) (hx : s.oldestXmin.value≤x.value)
    (hbgn : x.value<s.frontier) :
    Slru.mayDeleteSegment distributedLogCtl (Slru.segPage (transactionIdToPage x.xid)) (C%2^20)
      =false := by
  have hmono := fullPage_mono hx
  have hpage : fullPage x=x.value/4096 := rfl
  rw [transactionIdToPage_xid]
  apply mayDeleteSegment_eq_false (by omega)
  rw [slruPagesPerSegment]
  omega

section

variable (h : NodeInv s)
include h

/-- Pages behind the cutoff go; every entry that may still be read stays. -/
theorem NodeInv.truncate_logInv (hC : C≤fullPage s.oldestXmin)
    (hwin : s.frontier+2^18≤4096*(C+1)+2^31) {slru : LogSlru} (hpage : slru.page=s.slru.page)
    (hphys : slru.physical=s.slru.physical) :
    LogInv { s with slru := slru.truncate distributedLogCtl (C%2^20) } := by
  have hkeep (x : FullTransactionId) (hx : s.oldestXmin.value≤x.value)
      (hlt : x.value<s.frontier) := keeps_segment hC hwin hx hlt
  have hfile : slru.InFile := by
    intro q hq
    rw [hpage]
    rw [hphys] at hq
    exact h.in_file q hq
  constructor
  case readable =>
    intro x hx hbgn
    obtain ⟨pg,hpg⟩ := isSome_iff_exists.mp (h.readable x hx hbgn)
    have hlt := begun_lt_frontier (s := s) hbgn
    rw [← hpage] at hpg
    show (isSome _)=true
    rw [Slru.truncate_page distributedLogCtl (hkeep x hx hlt) hpg]
    rfl
  case in_file => exact hfile.truncate distributedLogCtl
  case physical =>
    intro hr x hx hkept hp
    have hlt := begun_lt_frontier (s := s) (.inr hp)
    have hthr := h.physical hr x hx hkept hp
    rw [← hphys] at hthr
    exact Slru.truncate_physical distributedLogCtl (hkeep x hx hlt) hthr
  case lookup =>
    intro x g hmem hx hkept
    have hrec := h.recorded x g hmem
    have hlt := begun_lt_frontier (s := s) (.inr hrec.2.1)
    have hlook := h.lookup x g hmem hx hkept
    obtain ⟨pg,hpg,hval⟩ := map_eq_some_iff.mp hlook
    rw [← hpage] at hpg
    show Option.map _ _=_
    rw [Slru.truncate_page distributedLogCtl (hkeep x hx hlt) hpg,map_some,hval]

theorem NodeInv.truncateTo (hwin : s.InWindow o)
    (hle : o.value ≤ s.oldestXmin.value) (hexcl : s.exclusive=true) :
    NodeInv { s with slru := s.truncateTo o } := by
  have hpage : fullPage o=o.value/4096 := rfl
  unfold Node.truncateTo
  dsimp only
  split_ifs
  · apply h.withSlru _ (.inl hexcl)
    rw [transactionIdToPage_xid]
    apply h.truncate_logInv (fullPage_mono hle) _ rfl rfl
    have := hwin.1
    omega
  · exact h

theorem NodeInv.redoTruncate (hexcl : s.exclusive=true)
    (hP : P ≤ s.nextPage) (hwin : s.frontier+2^18≤4096*P+2^31) :
    NodeInv { s with slru := s.redoTruncate (P%2^20) } := by
  have hhor := h.inWindow_horizon.1
  have hle := h.inWindow_horizon.2
  have hpage : fullPage s.oldestXmin=s.oldestXmin.value/4096 := rfl
  have hnext : s.nextXid.value ≤ s.frontier := le_max_left _ _
  have hpag : s.nextPage*4096+3 ≤ s.frontier := le_max_right _ _
  have hmin : s.frontier+2^18≤4096*(min (fullPage s.oldestXmin) P+1)+2^31 := by
    rcases le_total (fullPage s.oldestXmin) P with hlt | hge
    · rw [Nat.min_eq_left hlt]
      omega
    · rw [Nat.min_eq_right hge]
      omega
  have hprec : pagePrecedes (transactionIdToPage s.oldestXmin.xid) (P%2^20)=true ↔
      fullPage s.oldestXmin<P := by
    rw [transactionIdToPage_xid]
    exact pagePrecedes_iff (by omega) (by omega)
  -- the cutoff is the smaller one of the two pages
  have hcut : (if pagePrecedes (transactionIdToPage s.oldestXmin.xid) (P%2^20) then
      transactionIdToPage s.oldestXmin.xid else P%2^20)=min (fullPage s.oldestXmin) P%2^20 := by
    split_ifs with hlt
    · rw [hprec] at hlt
      rw [transactionIdToPage_xid,Nat.min_eq_left (le_of_lt hlt)]
    · rw [hprec] at hlt
      rw [Nat.min_eq_right (Nat.le_of_not_lt hlt)]
  apply h.withSlru _ (Or.inl hexcl)
  unfold Node.redoTruncate
  dsimp only
  rw [hcut]
  have hsame (c : Bool) (q : Nat) :
      (if c then { s.slru with latestPageNumber := q } else s.slru).page=s.slru.page ∧
        (if c then { s.slru with latestPageNumber := q } else s.slru).physical=s.slru.physical := by
    cases c with
    | false | true => exact ⟨rfl,rfl⟩
  exact h.truncate_logInv (min_le_left _ _) hmin (hsame _ _).1 (hsame _ _).2

theorem NodeInv.writePage (w : Nat → Bool) :
    NodeInv { s with slru := s.slru.writePages distributedLogCtl w } := by
  have hkeep (q : Nat) (pg : LogPage) (hpg : s.slru.page q=some pg) :
      (s.slru.writePages distributedLogCtl w).page q=some pg :=
    Slru.writePages_page distributedLogCtl w hpg
  have hread (x : FullTransactionId) (hx : s.Readable x) :
      Readable { s with slru := s.slru.writePages distributedLogCtl w } x := by
    obtain ⟨pg,hpg⟩ := isSome_iff_exists.mp hx
    show isSome _=true
    rw [hkeep _ pg hpg]
    rfl
  apply h.withSlru _ (.inr hread)
  constructor
  case readable => exact fun x hx hbgn => hread x (h.readable x hx hbgn)
  case in_file => exact h.in_file.writePages distributedLogCtl w
  case physical =>
    intro hr x hx hkept hp
    exact Slru.writePages_physical distributedLogCtl w (h.physical hr x hx hkept hp)
  case lookup =>
    intro x g hmem hx hkept
    obtain ⟨pg,hpg,hval⟩ := map_eq_some_iff.mp (h.lookup x g hmem hx hkept)
    show Option.map _ _=_
    rw [hkeep _ pg hpg,map_some,hval]

theorem NodeInv.page_ne_of_recorded (hmem : (x, g)∈s.recorded)
    (hx : s.oldestXmin.value≤x.value) (hP : s.nextPage=P)
    (hwin : 4096*P ≤ s.oldestXmin.value+2^31) : transactionIdToPage x.xid≠P%2^20 := by
  have hrec := (h.recorded x g hmem).2.1
  have hpage : fullPage x=x.value/4096 := rfl
  rw [transactionIdToPage_xid]
  intro heq
  have := eq_of_mod_eq heq (by omega) (by omega)
  omega

theorem NodeInv.withSnapshot (hds : s.mayArrive ds=true) : NodeInv { s with
              snapshots := ds::s.snapshots
              floor := max s.floor ds.xminAllDistributedSnapshots } := by
  let t : Node := { s with
                    snapshots := ds::s.snapshots
                    floor := max s.floor ds.xminAllDistributedSnapshots }
  have hf : Frame s t :=
    { Frame.refl s with floor_le := le_max_left _ _, recorded := fun _ _ hmem => .inl hmem }
  refine { h with toLogInv := ⟨h.readable,h.in_file,h.physical,h.lookup⟩
                  settled := h.settled.frame hf h.inWindow_horizon.2
                  recorded := ?recorded, floor_le := ?floor_le, phases := ?phases }
  case recorded =>
    intro x g hmem
    have hrec := h.recorded x g hmem
    have hle := hf.floor_le
    refine ⟨hrec.1,hrec.2.1,hrec.2.2.imp_right ?_⟩
    intro hg
    exact lt_of_lt_of_le hg hle
  case floor_le =>
    intro d hd
    have := List.all_eq_true.mp hds d hd
    exact of_decide_eq_true this
  case phases =>
    intro q hq
    exact (h.phases q hq).frame hf (fun v hv => h.inWindow_phase hq hv) (fun _ hx => hx)
      fun _ _ hread => hread

theorem NodeInv.dropSnapshot (ds : DistributedSnapshot) :
    NodeInv { s with snapshots := s.snapshots.erase ds } := by
  have hf : Frame s { s with snapshots := s.snapshots.erase ds } := { Frame.refl s with }
  refine { h with toLogInv := ⟨h.readable,h.in_file,h.physical,h.lookup⟩
                  settled := h.settled.frame hf h.inWindow_horizon.2
                  floor_le := fun d hd => h.floor_le d (List.mem_of_mem_erase hd)
                  phases := ?phases }
  case phases =>
    intro q hq
    exact (h.phases q hq).frame hf (fun v hv => h.inWindow_phase hq hv) (fun _ hx => hx)
      fun _ _ hread => hread

theorem NodeInv.endTransaction (hb : s.procs[b]?=some p) (hidle : p.phase=.idle)
    (hsub : ∀ x∈xids, x∈p.xids) : NodeInv (s.setProc b { p with xids := xids }) := by
  apply h.setProc hb hsub
  · exact fun v hv => h.inWindow_phase (mem_of_getElem? hb) hv
  · rw [show { p with xids := xids : Proc }.phase=.idle from hidle]
    trivial

end

end Node

end WarehousePG.DistributedLog
