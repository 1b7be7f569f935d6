import WarehousePG.Dtm.CoordinatorLog
import WarehousePG.Dtm.DistributedSnapshot

namespace WarehousePG.Dtm

open Framework Function List Nat

/-- A backend inside `CreateDistributedSnapshot`: it holds `ProcArrayLock` in shared mode and
looks at entry `next` of the proc array next. -/
structure Building where
  next : Nat
  scan : SnapshotScan
deriving DecidableEq

/-- A snapshot together with what was true when it was made: the creator's own gxid, the gxids
whose transactions had completed, and the next gxid to be assigned. -/
structure Taken where
  snapshot : DistributedSnapshot
  own : Nat
  completed : List Nat
  nextGxid : Nat
deriving DecidableEq

/-- Shared memory of the primary coordinator. `completed` and `taken` are history. -/
@[ext] structure Primary where
  nextGxid : Nat
  gxidCount : Nat
  latestCompletedGxid : Nat
  numCommittedGxacts : Nat
  nextSnapshotId : Nat
  procs : Nat → TmGxact
  building : Nat → Option Building
  completed : List Nat
  taken : List Taken

open Primary

/-- What `StartupXLOG` leaves at the end of recovery: `latestCompletedGxid` is `nextGxid`. -/
def Primary.startup (nextGxid numCommittedGxacts : Nat) : Primary where
  nextGxid := nextGxid
  gxidCount := 0
  latestCompletedGxid := nextGxid
  numCommittedGxacts := numCommittedGxacts
  nextSnapshotId := 0
  procs := fun _ => ⟨0,0⟩
  building := fun _ => none
  completed := []
  taken := []

/-- `currentDtxActivate` of backend `p`. -/
def Primary.activate (numProcs p : Nat) (s : Primary) : Option Primary :=
  if p<numProcs ∧ s.building p=none ∧ (s.procs p).gxid=0 ∧ 0<s.gxidCount then
    some { s with nextGxid := s.nextGxid+1, gxidCount := s.gxidCount-1,
                  procs := update s.procs p { s.procs p with gxid := s.nextGxid } }
  else none

/-- `bumpGxid`; short of the end of the id space, where it is a PANIC. -/
def Primary.bump (prefetch : Nat) (s : Primary) : Option Primary :=
  if s.nextGxid+(s.gxidCount+prefetch)<lastGxid-prefetch then
    some { s with gxidCount := s.gxidCount+prefetch }
  else none

/-- `ProcArrayEndGxact` of backend `p`, under `ProcArrayLock` in exclusive mode. -/
def Primary.endGxact (numProcs p : Nat) (s : Primary) : Option Primary :=
  if p<numProcs ∧ ∀ q<numProcs, s.building q=none then
    let gxid := (s.procs p).gxid
    some { s with
      procs := update s.procs p ⟨0,0⟩
      latestCompletedGxid :=
        if gxid≠0 ∧ s.latestCompletedGxid<gxid then gxid else s.latestCompletedGxid
      completed := if gxid=0 then s.completed else s.completed ++ [gxid] }
  else none

def Primary.recovered (s : Primary) : Option Primary := some { s with numCommittedGxacts := 0 }

/-- Backend `p` enters `CreateDistributedSnapshot`; before DTM recovery has finished this is an
ERROR. -/
def Primary.snapshotBegin (numProcs p : Nat) (s : Primary) : Option Primary :=
  if p<numProcs ∧ s.building p=none ∧ s.numCommittedGxacts=0 then
    some { s with
      building := update s.building p (some ⟨0,.init s.latestCompletedGxid⟩) }
  else none

def Primary.snapshotScan (numProcs p : Nat) (s : Primary) : Option Primary :=
  match s.building p with
  | some b =>
    if b.next<numProcs then
      let scan := b.scan.addProc (decide (b.next=p)) (s.procs b.next)
      some { s with building := update s.building p (some ⟨b.next+1,scan⟩) }
    else none
  | none => none

def Primary.snapshotEnd (numProcs p : Nat) (s : Primary) : Option Primary :=
  match s.building p with
  | some b =>
    if b.next=numProcs then
      let ds := b.scan.finish ((s.nextSnapshotId+1)%2^32)
      let me := s.procs p
      let xmin := if me.xminDistributedSnapshot=0 then ds.xmin else me.xminDistributedSnapshot
      some { s with
        nextSnapshotId := (s.nextSnapshotId+1)%2^32
        procs := update s.procs p ⟨me.gxid,xmin⟩
        building := update s.building p none
        taken := s.taken ++ [⟨ds,me.gxid,s.completed,s.nextGxid⟩] }
    else none
  | none => none

inductive PrimaryAction where
  | activate (p : Nat)
  | bump
  | endGxact (p : Nat)
  | recovered
  | snapshotBegin (p : Nat)
  | snapshotScan (p : Nat)
  | snapshotEnd (p : Nat)
deriving DecidableEq

def Primary.step (numProcs prefetch : Nat) (s : Primary) : PrimaryAction → Option Primary
  | .activate p => s.activate numProcs p
  | .bump => s.bump prefetch
  | .endGxact p => s.endGxact numProcs p
  | .recovered => s.recovered
  | .snapshotBegin p => s.snapshotBegin numProcs p
  | .snapshotScan p => s.snapshotScan numProcs p
  | .snapshotEnd p => s.snapshotEnd numProcs p

/-- The snapshot is a consistent cut: apart from its creator's own, a gxid is not in progress for
it exactly when that transaction had completed. The transactions below `start` belong to earlier
incarnations and were all settled by recovery. -/
def ConsistentCut (start : Nat) (t : Taken) : Prop :=
  (∀ g, g≠t.own → (¬ InProgressFor t.snapshot g ↔ g<start ∨ g∈t.completed)) ∧
  ∀ g, t.nextGxid≤g → InProgressFor t.snapshot g

def FirstGxidAssigned (start : Nat) (s : Primary) : PrimaryAction → Prop
  | .snapshotBegin _ => start<s.nextGxid
  | _ => True

instance (start : Nat) (s : Primary) (a : PrimaryAction) : Decidable (FirstGxidAssigned start s a) :=
  match a with
  | .snapshotBegin _ => inferInstanceAs (Decidable (_<_))
  | .activate _ => instDecidableTrue
  | .bump => instDecidableTrue
  | .endGxact _ => instDecidableTrue
  | .recovered => instDecidableTrue
  | .snapshotScan _ => instDecidableTrue
  | .snapshotEnd _ => instDecidableTrue

structure BuildingOk (start numProcs : Nat) (s : Primary) (p : Nat) (b : Building) : Prop where
  proc_lt : p<numProcs
  next_le : b.next≤numProcs
  xmax_eq : b.scan.xmax=s.latestCompletedGxid+1
  xmax_le : b.scan.xmax ≤ s.nextGxid
  xmin_le : b.scan.xmin≤b.scan.xmax
  found : ∀ g, start≤g → g<b.scan.xmax → g∉s.completed →
    (∃ j, b.next≤j ∧ j<numProcs ∧ (s.procs j).gxid=g) ∨
      (b.scan.xmin≤g ∧ (g∈b.scan.inProgress ∨ g=(s.procs p).gxid))
  listed : ∀ g∈b.scan.inProgress, b.scan.xmin≤g ∧ start≤g ∧ g<b.scan.xmax ∧ g∉s.completed

structure CutInv (start numProcs : Nat) (s : Primary) : Prop where
  start_le : start ≤ s.nextGxid
  latest_ge : start ≤ s.latestCompletedGxid
  latest_lt : s.latestCompletedGxid=start ∨ s.latestCompletedGxid<s.nextGxid
  slot_range : ∀ p<numProcs, (s.procs p).gxid≠0 →
    start≤(s.procs p).gxid ∧ (s.procs p).gxid<s.nextGxid ∧ (s.procs p).gxid∉s.completed
  slot_distinct : ∀ p<numProcs, ∀ q<numProcs, (s.procs p).gxid≠0 →
    (s.procs p).gxid=(s.procs q).gxid → p=q
  completed_range : ∀ g∈s.completed, start≤g ∧ g ≤ s.latestCompletedGxid ∧ g<s.nextGxid
  accounted : ∀ g, start≤g → g<s.nextGxid →
    g∈s.completed ∨ ∃ p<numProcs, (s.procs p).gxid=g
  building_ok : ∀ p b, s.building p=some b → BuildingOk start numProcs s p b
  taken_ok : ∀ t∈s.taken, ConsistentCut start t

variable {start numProcs prefetch : Nat} {s t : Primary}

theorem cutInv_startup (start numProcs n : Nat) : CutInv start numProcs (.startup start n) where
  start_le := le_refl _
  latest_ge := le_refl _
  latest_lt := .inl rfl
  slot_range := fun _ _ h => absurd rfl h
  slot_distinct := fun _ _ _ _ h => absurd rfl h
  completed_range := fun _ h => by cases h
  accounted := fun g h1 h2 => by
    have : g<start := h2
    omega
  building_ok := fun _ _ h => by cases h
  taken_ok := fun _ h => by cases h

/-- Handing out a gxid keeps the snapshots that are being built in order. -/
theorem activate_cutInv (hpos : 0<start) (p : Nat) (h : CutInv start numProcs s)
    (hs : s.activate numProcs p=some t) : CutInv start numProcs t := by
  unfold activate at hs
  split_ifs at hs with hc
  obtain ⟨hp,hb,hzero,-⟩ := hc
  cases hs
  have hstart := h.start_le
  have hlat := h.latest_ge
  have hnew : s.nextGxid∉s.completed := by
    intro hm
    have := (h.completed_range _ hm).2.2
    omega
  -- entry `p` was empty, so every other valid gxid stays where it was
  have hslot : ∀ q, (update s.procs p { s.procs p with gxid := s.nextGxid } q).gxid =
      if q=p then s.nextGxid else (s.procs q).gxid := by
    intro q
    by_cases hq : q=p
    · subst hq; simp
    · simp [hq]
  constructor
  case start_le => exact hstart.trans (le_succ _)
  case latest_ge => exact hlat
  case latest_lt =>
    rcases h.latest_lt with heq | hlt
    · exact .inl heq
    · exact .inr (hlt.trans (lt_succ_self _))
  case slot_range =>
    intro q hq
    simp only [hslot]
    split_ifs with hqp
    · exact fun _ => ⟨hstart,lt_succ_self _,hnew⟩
    · intro h0
      obtain ⟨h1,h2,h3⟩ := h.slot_range q hq h0
      exact ⟨h1,h2.trans (lt_succ_self _),h3⟩
  case slot_distinct =>
    intro q hq r hr
    simp only [hslot]
    split_ifs with hqp hrp hrp
    · exact fun _ _ => hqp.trans hrp.symm
    · intro _ heq
      have := (h.slot_range r hr (by omega)).2.1
      omega
    · intro h0 heq
      have := (h.slot_range q hq h0).2.1
      omega
    · exact h.slot_distinct q hq r hr
  case completed_range =>
    intro g hg
    obtain ⟨h1,h2,h3⟩ := h.completed_range g hg
    exact ⟨h1,h2,h3.trans (lt_succ_self _)⟩
  case accounted =>
    intro g h1 h2
    by_cases hg : g=s.nextGxid
    · refine .inr ⟨p,hp,?_⟩
      rw [hslot,if_pos rfl,hg]
    · have hlt : g<s.nextGxid := by have : g<s.nextGxid+1 := h2; omega
      rcases h.accounted g h1 hlt with hm | ⟨q,hq,hqg⟩
      · exact .inl hm
      · refine .inr ⟨q,hq,?_⟩
        have hqp : q≠p := by
          intro heq
          subst heq
          omega
        rw [hslot,if_neg hqp,hqg]
  case building_ok =>
    intro q b hqb
    have hok := h.building_ok q b hqb
    have hqp : q≠p := by
      intro heq
      subst heq
      rw [hb] at hqb
      cases hqb
    refine ⟨hok.proc_lt,hok.next_le,hok.xmax_eq,hok.xmax_le.trans (le_succ _),hok.xmin_le,
      ?_,hok.listed⟩
    intro g h1 h2 h3
    rcases hok.found g h1 h2 h3 with ⟨j,hj,hjn,hjg⟩ | ⟨hx,hmem⟩
    · refine .inl ⟨j,hj,hjn,?_⟩
      have hjp : j≠p := by
        intro heq
        subst heq
        omega
      rw [hslot,if_neg hjp,hjg]
    · refine .inr ⟨hx,?_⟩
      rw [hslot,if_neg hqp]
      exact hmem
  case taken_ok => exact h.taken_ok

theorem building_eq_none (h : CutInv start numProcs s)
    (hnone : ∀ q<numProcs, s.building q=none) (q : Nat) : s.building q=none := by
  cases hb : s.building q with
  | none => rfl
  | some b =>
    have hq := (h.building_ok q b hb).proc_lt
    have := hnone q hq
    rw [hb] at this
    cases this

/-- The end of a transaction keeps the snapshots that are being built in order. -/
theorem endGxact_cutInv (p : Nat) (h : CutInv start numProcs s)
    (hs : s.endGxact numProcs p=some t) : CutInv start numProcs t := by
  unfold endGxact at hs
  split_ifs at hs with hc
  obtain ⟨hp,hnone⟩ := hc
  cases hs
  have hslot : ∀ q, (update s.procs p ⟨0,0⟩ q).gxid =
      if q=p then 0 else (s.procs q).gxid := by
    intro q
    by_cases hq : q=p
    · subst hq; simp
    · simp [hq]
  have hot : ∀ q<numProcs, q≠p → (s.procs q).gxid≠0 → (s.procs q).gxid≠(s.procs p).gxid := by
    intro q hq hqp h0 heq
    exact hqp (h.slot_distinct q hq p hp h0 heq)
  have hbuild : ∀ q b, s.building q=some b → False := by
    intro q b hb
    rw [building_eq_none h hnone q] at hb
    cases hb
  have hdis : ∀ q<numProcs, ∀ r<numProcs, (update s.procs p ⟨0,0⟩ q).gxid≠0 →
      (update s.procs p ⟨0,0⟩ q).gxid=(update s.procs p ⟨0,0⟩ r).gxid → q=r := by
    intro q hq r hr
    simp only [hslot]
    split_ifs with hqp hrp hrp
    · exact absurd rfl
    · exact absurd rfl
    · intro h0 heq
      exact absurd heq h0
    · exact h.slot_distinct q hq r hr
  have hlat := h.latest_lt
  by_cases hg : (s.procs p).gxid=0
  · simp only [hg,ne_eq,not_true_eq_false,false_and,if_false,if_true]
    refine ⟨h.start_le,h.latest_ge,hlat,?_,hdis,h.completed_range,?_,
      fun q b hb => (hbuild q b hb).elim,h.taken_ok⟩
    · intro q hq
      simp only [hslot]
      split_ifs
      · exact absurd rfl
      · exact h.slot_range q hq
    · intro g h1 h2
      rcases h.accounted g h1 h2 with hm | ⟨q,hq,hqg⟩
      · exact .inl hm
      · by_cases hqp : q=p
        · subst hqp
          refine .inr ⟨q,hq,?_⟩
          rw [hslot,if_pos rfl,← hqg,hg]
        · refine .inr ⟨q,hq,?_⟩
          rw [hslot,if_neg hqp,hqg]
  · obtain ⟨h1,h2,h3⟩ := h.slot_range p hp hg
    have hge := h.latest_ge
    simp only [hg,ne_eq,not_false_eq_true,true_and,if_false]
    refine ⟨h.start_le,?_,?_,?_,hdis,?_,?_,fun q b hb => (hbuild q b hb).elim,h.taken_ok⟩
    · dsimp only
      split_ifs <;> omega
    · dsimp only
      split_ifs <;> omega
    · intro q hq
      simp only [hslot]
      split_ifs with hqp
      · exact absurd rfl
      · intro h0
        obtain ⟨k1,k2,k3⟩ := h.slot_range q hq h0
        refine ⟨k1,k2,?_⟩
        simp only [mem_append,mem_singleton,not_or]
        exact ⟨k3,hot q hq hqp h0⟩
    · intro g hm
      rcases mem_append.mp hm with hm | hm
      · obtain ⟨k1,k2,k3⟩ := h.completed_range g hm
        refine ⟨k1,?_,k3⟩
        dsimp only
        split_ifs <;> omega
      · rw [mem_singleton.mp hm]
        refine ⟨h1,?_,h2⟩
        dsimp only
        split_ifs <;> omega
    · intro g k1 k2
      rcases h.accounted g k1 k2 with hm | ⟨q,hq,hqg⟩
      · exact .inl (mem_append_left _ hm)
      · by_cases hqp : q=p
        · subst hqp
          refine .inl (mem_append_right _ ?_)
          rw [hqg]
          exact mem_singleton_self _
        · refine .inr ⟨q,hq,?_⟩
          rw [hslot,if_neg hqp,hqg]

theorem bump_cutInv (h : CutInv start numProcs s) (hs : s.bump prefetch=some t) :
    CutInv start numProcs t := by
  unfold bump at hs
  split_ifs at hs with hc
  cases hs
  exact { h with building_ok := fun p b hb => { h.building_ok p b hb with } }

theorem recovered_cutInv (h : CutInv start numProcs s) (hs : s.recovered=some t) :
    CutInv start numProcs t := by
  cases hs
  exact { h with building_ok := fun p b hb => { h.building_ok p b hb with } }

theorem snapshotBegin_cutInv (p : Nat) (h : CutInv start numProcs s)
    (hfirst : start<s.nextGxid) (hs : s.snapshotBegin numProcs p=some t) :
    CutInv start numProcs t := by
  unfold snapshotBegin at hs
  split_ifs at hs with hc
  obtain ⟨hp,hb,-⟩ := hc
  cases hs
  have hlt : s.latestCompletedGxid<s.nextGxid := by
    rcases h.latest_lt with heq | hlt
    · omega
    · exact hlt
  refine { h with building_ok := ?_ }
  intro q b hqb
  by_cases hqp : q=p
  · subst hqp
    simp only [update_self,Option.some.injEq] at hqb
    subst hqb
    refine ⟨hp,zero_le _,rfl,hlt,le_refl _,?_,fun g hg => by cases hg⟩
    intro g h1 h2 h3
    have hgn : g<s.nextGxid := lt_of_lt_of_le h2 hlt
    rcases h.accounted g h1 hgn with hm | ⟨j,hj,hjg⟩
    · exact absurd hm h3
    · exact .inl ⟨j,zero_le _,hj,hjg⟩
  · simp only [update_of_ne hqp] at hqb
    exact { h.building_ok q b hqb with }

/-- One backend is added to a snapshot being built. -/
theorem BuildingOk.scan (hpos : 0<start) (h : CutInv start numProcs s)
    (hok : BuildingOk start numProcs s p b) (hlt : b.next<numProcs) : BuildingOk start numProcs s p
      ⟨b.next+1,b.scan.addProc (decide (b.next=p)) (s.procs b.next)⟩ := by
  have hmin := addProc_xmin_le b.scan (decide (b.next=p)) (s.procs b.next)
  have hslot := h.slot_range b.next hlt
  refine ⟨hok.proc_lt,hlt,?_,?_,?_,?_,?_⟩
  · rw [addProc_xmax]
    exact hok.xmax_eq
  · rw [addProc_xmax]
    exact hok.xmax_le
  · rw [addProc_xmax]
    exact hmin.trans hok.xmin_le
  · intro g h1 h2 h3
    rw [addProc_xmax] at h2
    rcases hok.found g h1 h2 h3 with ⟨j,hj,hjn,hjg⟩ | ⟨hx,hmem⟩
    · rcases eq_or_lt_of_le hj with heq | hgt
      · -- the entry just looked at holds `g`
        subst heq
        have h0 : (s.procs b.next).gxid≠0 := by omega
        have hle := addProc_xmin_le_gxid b.scan (decide (b.next=p)) (s.procs b.next) h0 (by omega)
        refine .inr ⟨by rw [← hjg]; exact hle,?_⟩
        by_cases hown : b.next=p
        · right
          rw [← hjg,hown]
        · left
          rw [mem_addProc]
          exact .inr ⟨hjg.symm,by simpa using hown,h0,by omega⟩
      · exact .inl ⟨j,hgt,hjn,hjg⟩
    · refine .inr ⟨hmin.trans hx,?_⟩
      rcases hmem with hmem | hmem
      · left
        rw [mem_addProc]
        exact .inl hmem
      · exact .inr hmem
  · intro g hg
    rw [addProc_xmax]
    rcases (mem_addProc _ _ _ g).mp hg with hg | ⟨heq,-,h0,hx⟩
    · obtain ⟨k1,k2,k3,k4⟩ := hok.listed g hg
      exact ⟨hmin.trans k1,k2,k3,k4⟩
    · subst heq
      obtain ⟨k1,-,k3⟩ := hslot h0
      exact ⟨addProc_xmin_le_gxid _ _ _ h0 hx,k1,hx,k3⟩

theorem snapshotScan_cutInv (hpos : 0<start) (p : Nat) (h : CutInv start numProcs s)
    (hs : s.snapshotScan numProcs p=some t) : CutInv start numProcs t := by
  unfold snapshotScan at hs
  cases hb : s.building p with
  | none => simp [hb] at hs
  | some b =>
    simp only [hb] at hs
    split_ifs at hs with hlt
    cases hs
    refine { h with building_ok := ?_ }
    intro q c hqc
    by_cases hqp : q=p
    · subst hqp
      simp only [update_self,Option.some.injEq] at hqc
      subst hqc
      exact { (h.building_ok q b hb).scan hpos h hlt with }
    · simp only [update_of_ne hqp] at hqc
      exact { h.building_ok q c hqc with }

/-- A finished scan is a consistent cut. -/
theorem BuildingOk.consistentCut (h : CutInv start numProcs s)
    (hok : BuildingOk start numProcs s p b) (hend : b.next=numProcs) (id : Nat) :
    ConsistentCut start ⟨b.scan.finish id,(s.procs p).gxid,s.completed,s.nextGxid⟩ := by
  have hiff := fun g => inProgressFor_finish b.scan id g hok.xmin_le fun g hg => (hok.listed g hg).1
  have hge := h.latest_ge
  have hxmax := hok.xmax_eq
  refine ⟨?_,?_⟩
  · intro g hown
    rw [hiff]
    constructor
    · intro hnot
      by_contra hcon
      have hcon' : start≤g ∧ g∉s.completed := by
        refine ⟨?_,fun hg => hcon (.inr hg)⟩
        by_contra hlt
        exact hcon (.inl (by omega))
      have hlt : g<b.scan.xmax := by
        by_contra hge'
        exact hnot (.inl (by omega))
      rcases hok.found g hcon'.1 hlt hcon'.2 with ⟨j,hj,hjn,-⟩ | ⟨-,hmem | hmem⟩
      · omega
      · exact hnot (.inr ⟨hmem,hlt⟩)
      · exact hown hmem
    · rintro hold (hmax | ⟨hmem,-⟩)
      · rcases hold with hlt | hm
        · omega
        · have := (h.completed_range g hm).2.1
          omega
      · obtain ⟨-,k2,-,k4⟩ := hok.listed g hmem
        rcases hold with hlt | hm
        · omega
        · exact k4 hm
  · intro g hg
    exact (hiff g).mpr (.inl (hok.xmax_le.trans hg))

theorem CutInv.withProcs (h : CutInv start numProcs s) (procs : Nat → TmGxact)
    (hp : ∀ q, (procs q).gxid=(s.procs q).gxid) :
    CutInv start numProcs { s with procs := procs } where
  __ := h
  slot_range := by simpa only [hp] using h.slot_range
  slot_distinct := by simpa only [hp] using h.slot_distinct
  accounted := by simpa only [hp] using h.accounted
  building_ok := by
    intro q b hb
    have hok := h.building_ok q b hb
    exact { hok with found := by simpa only [hp] using hok.found }

theorem snapshotEnd_cutInv (p : Nat) (h : CutInv start numProcs s)
    (hs : s.snapshotEnd numProcs p=some t) : CutInv start numProcs t := by
  unfold snapshotEnd at hs
  cases hb : s.building p with
  | none => simp [hb] at hs
  | some b =>
    simp only [hb] at hs
    by_cases hend : b.next=numProcs
    case neg => simp [hend] at hs
    rw [if_pos hend] at hs
    cases hs
    have hcut := (h.building_ok p b hb).consistentCut h hend ((s.nextSnapshotId+1)%2^32)
    have h1 := h.withProcs (update s.procs p ⟨(s.procs p).gxid,
      if (s.procs p).xminDistributedSnapshot=0 then b.scan.xmin
      else (s.procs p).xminDistributedSnapshot⟩) (by
        intro q
        by_cases hqp : q=p
        · subst hqp; simp
        · simp [hqp])
    refine { h1 with building_ok := ?_, taken_ok := ?_ }
    · intro q c hqc
      by_cases hqp : q=p
      · subst hqp
        simp only [update_self,reduceCtorEq] at hqc
      · simp only [update_of_ne hqp] at hqc
        exact { h1.building_ok q c hqc with }
    · intro x hx
      rcases mem_append.mp hx with hx | hx
      · exact h.taken_ok x hx
      · rw [mem_singleton.mp hx]
        exact hcut

theorem step_cutInv (hpos : 0<start) (s : Primary) (a : PrimaryAction) (t : Primary)
    (h : CutInv start numProcs s) (hfirst : FirstGxidAssigned start s a)
    (hs : s.step numProcs prefetch a=some t) : CutInv start numProcs t := by
  cases a with
  | activate p => exact activate_cutInv hpos p h hs
  | bump => exact bump_cutInv h hs
  | endGxact p => exact endGxact_cutInv p h hs
  | recovered => exact recovered_cutInv h hs
  | snapshotBegin p => exact snapshotBegin_cutInv p h hfirst hs
  | snapshotScan p => exact snapshotScan_cutInv hpos p h hs
  | snapshotEnd p => exact snapshotEnd_cutInv p h hs

/-- In every run in which no snapshot is begun before the first gxid since the restart has been
handed out, every snapshot is a consistent cut. -/
theorem snapshots_consistent_after_first_gxid (numProcs prefetch nextGxid inDoubt : Nat)
    (hpos : 0<nextGxid) (as : List PrimaryAction) (s : Primary)
    (hfirst : EveryStep (step numProcs prefetch) (FirstGxidAssigned nextGxid)
      (.startup nextGxid inDoubt) as)
    (h : run (step numProcs prefetch) (.startup nextGxid inDoubt) as=some s) :
    ∀ t∈s.taken, ConsistentCut nextGxid t := by
  have hinv : CutInv nextGxid numProcs s :=
    run_invariant_of_everyStep (step_cutInv hpos) (cutInv_startup nextGxid numProcs inDoubt) hfirst h
  exact hinv.taken_ok

def snapshotAroundGxid : List PrimaryAction :=
  [.bump,.activate 1,.snapshotBegin 0,.snapshotScan 0,.snapshotScan 0,.snapshotEnd 0,
    .endGxact 1,.snapshotBegin 0,.snapshotScan 0,.snapshotScan 0,.snapshotEnd 0]

theorem snapshots_consistent_around_gxid :
    ∃ s, run (step 2 512) (.startup 5 0) snapshotAroundGxid=some s ∧
      s.taken.map (fun t => decide (InProgressFor t.snapshot 5))=[true,false] ∧
      ∀ t∈s.taken, ConsistentCut 5 t :=
  ⟨(run (step 2 512) (.startup 5 0) snapshotAroundGxid).get (by decide +kernel),
    (Option.some_get _).symm,by decide +kernel,
    snapshots_consistent_after_first_gxid 2 512 5 0 (by decide) snapshotAroundGxid _
      (by decide +kernel) (Option.some_get _).symm⟩

def snapshotBeforeGxid : List PrimaryAction :=
  [.bump,.snapshotBegin 0,.snapshotScan 0,.snapshotScan 0,.snapshotEnd 0,.activate 1]

theorem snapshot_before_first_gxid_inconsistent :
    ∃ s, run (step 2 512) (.startup 5 0) snapshotBeforeGxid=some s ∧
      (s.procs 1).gxid=5 ∧ s.completed=[] ∧
      ∃ t∈s.taken, ¬ InProgressFor t.snapshot 5 ∧ ¬ ConsistentCut 5 t := by
  refine ⟨(run (step 2 512) (.startup 5 0) snapshotBeforeGxid).get (by decide +kernel),
    (Option.some_get _).symm,by decide +kernel,by decide +kernel,⟨⟨6,1,6,6,[]⟩,0,[],5⟩,
    by decide +kernel,by decide,?_⟩
  intro hcut
  have hseen := (hcut.1 5 (by decide)).mp (by decide)
  rcases hseen with hlt | hmem
  · exact absurd hlt (by decide)
  · cases hmem

end WarehousePG.Dtm
