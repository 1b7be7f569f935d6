import WarehousePG.Runaway.Completion

namespace WarehousePG.Runaway

open Framework Function Process List

/-- What a process has read since it began to look whether it has to clean up. -/
structure Reading where
  runawayStatus : RunawayStatus
  versions : List Int
  deriving DecidableEq

/-- The segment with the processes that are between the unlocked reads of
RunawayCleaner_ShouldStartRunawayCleanup. -/
structure System where
  segment : Segment
  reading : Nat → Option Reading

inductive SystemAction
  /-- Any action but the start of a cleanup. -/
  | move (a : Action)
  | readStatus (p : Nat)
  | readVersion (p : Nat)
  /-- The decision, and RunawayCleaner_StartCleanup after it. -/
  | startCleanup (p : Nat) (q : Query)

def Action.startsCleanup : Action → Bool
  | .startCleanup _ _ => true
  | _ => false

def Action.flagsSession : Action → Bool
  | .flag _ (some _) => true
  | _ => false

namespace System

def init (n : Nat) : System := ⟨.init n,fun _ => none⟩

variable (x : System)

def setReading (p : Nat) (r : Option Reading) : System :=
  { x with reading := update x.reading p r }

/-- A process that does not find its session flagged reads no version. The last of the three reads
decides only for a process that is not active. -/
def step : SystemAction → Option System
  | .move a =>
    if a.startsCleanup then none else (x.segment.step a).map fun s => { x with segment := s }
  | .readStatus p =>
    if x.segment.At p .checking ∧ x.reading p=none then
      if (x.segment.mySession p).runawayStatus=.notRunaway then
        some { x with segment := x.segment.setPhase p .ready }
      else some (x.setReading p (some ⟨(x.segment.mySession p).runawayStatus,[]⟩))
    else none
  | .readVersion p => (x.reading p).bind fun r =>
    if r.versions.length<3 then
      some (x.setReading p (some
        { r with versions := r.versions ++ [x.segment.latestRunawayVersion] }))
    else none
  | .startCleanup p q => (x.reading p).bind fun r =>
    match r.versions with
    | [version₁,version₂,version₃] =>
      some ⟨x.segment.setProc p ((x.segment.procs p).startCleanup
        ((x.segment.procs p).shouldStartRunawayCleanup r.runawayStatus version₁ version₂ version₃)
        (x.segment.mySession p).runawayStatus x.segment.latestRunawayVersion q),
        update x.reading p none⟩
    | _ => none

/-- The steps of the segment are orderly, and no session is flagged while a process is between its
reads. -/
def Orderly : SystemAction → Prop
  | .move a => x.segment.Orderly a ∧
    (a.flagsSession=true → ∀ q<x.segment.nProcs, x.reading q=none)
  | _ => True

instance : (a : SystemAction) → Decidable (x.Orderly a)
  | .move a => inferInstanceAs (Decidable (x.segment.Orderly a ∧
    (a.flagsSession=true → ∀ q<x.segment.nProcs, x.reading q=none)))
  | .readStatus _ | .readVersion _ | .startCleanup _ _ => inferInstanceAs (Decidable True)

end System

section Frame

variable {s t : Segment} {p : Nat}

theorem ne_of_phase (hp : (s.procs p).phase=.checking) (hq : (s.procs q).phase≠.checking) : p≠q :=
  fun heq => hq (heq ▸ hp)

theorem Segment.Runs.ne {phases : List Phase} (h : s.Runs q phases) (hx : .checking∉phases) :
    (s.procs q).phase≠.checking := fun heq => hx (heq ▸ h.2.1)

/-- A step of another process leaves one that is about to look for a cleanup alone, and the version
stays unless a session is flagged. -/
theorem Segment.step_frame (hp : (s.procs p).phase=.checking) (hstart : a.startsCleanup=false)
    (hflag : a.flagsSession=false) (hstep : s.step a=some t) :
    t.procs p=s.procs p ∧ t.nProcs=s.nProcs ∧
      t.latestRunawayVersion=s.latestRunawayVersion := by
  have hset : ∀ {q} {u : Segment} {pr : Process}, (s.procs q).phase≠.checking →
      u.procs=update s.procs q pr → u.procs p=s.procs p := by
    intro q u pr hq hu
    rw [hu,update_of_ne (ne_of_phase hp hq)]
  cases a with
  | startCleanup q query => cases hstart
  | start q k | init q | countDown q | reactivate q =>
    obtain ⟨hq,rfl⟩ := of_guard hstep
    exact ⟨hset (by simp [hq.2]) rfl,rfl,rfl⟩
  | enable q =>
    obtain ⟨hq,rfl⟩ := of_guard hstep
    exact ⟨hset (by simp [hq.2]) rfl,rfl,rfl⟩
  | activate q =>
    obtain ⟨hq,rfl⟩ := of_guard hstep
    exact ⟨hset (hq.1.ne (by simp)) rfl,rfl,rfl⟩
  | deactivate q | catchError q | recover q =>
    obtain ⟨hq,rfl⟩ := of_guard hstep
    exact ⟨hset (hq.ne (by simp)) rfl,rfl,rfl⟩
  | detect q =>
    obtain ⟨hq,hstep⟩ := Option.ite_none_right_eq_some.mp hstep
    split at hstep <;> cases hstep <;> exact ⟨hset (hq.ne (by simp)) rfl,rfl,rfl⟩
  | flag q found =>
    obtain ⟨hq,rfl⟩ := of_guard hstep
    cases found with
    | some choice => cases hflag
    | none => exact ⟨hset (by simp [hq.2]) rfl,rfl,rfl⟩
  | tryReset q =>
    obtain ⟨hq,rfl⟩ := of_guard hstep
    unfold tryReset
    dsimp only
    split <;> exact ⟨hset (by simp [hq.2]) rfl,rfl,rfl⟩
  | unflag q =>
    obtain ⟨hq,rfl⟩ := of_guard hstep
    unfold unflag
    dsimp only
    split <;> exact ⟨hset (by simp [hq.2]) rfl,rfl,rfl⟩
  | exit q =>
    obtain ⟨hq,hstep⟩ := Option.ite_none_right_eq_some.mp hstep
    split at hstep <;> cases hstep <;> exact ⟨hset (hq.ne (by simp)) rfl,rfl,rfl⟩
  | release q =>
    obtain ⟨hq,rfl⟩ := of_guard hstep
    unfold Segment.release endCleanupOf
    dsimp only
    split
    · split <;> exact ⟨hset (by simp [hq.1.2]) rfl,rfl,rfl⟩
    · exact ⟨hset (by simp [hq.1.2]) rfl,rfl,rfl⟩

end Frame

/-- A process that read a flagged status has read nothing but the latest version since, and if it
owes nothing its own versions say so, whether or not its session is still flagged. -/
structure ReadOk (s : Segment) (p : Nat) (r : Reading) : Prop where
  at_checking : s.At p .checking
  flagged : r.runawayStatus≠.notRunaway
  versions : ∀ v∈r.versions, v=s.latestRunawayVersion
  skipped : (s.procs p).owes=false → (s.procs p).beginCleanup≠s.latestRunawayVersion →
    (s.procs p).activationVersion<s.latestRunawayVersion →
    (s.procs p).isProcessActive=false ∧ (s.procs p).deactivationVersion ≤ s.latestRunawayVersion

structure SystemInv (st : Stage) (x : System) : Prop where
  segment : SegmentInv st x.segment
  reads : ∀ p r, x.reading p=some r → ReadOk x.segment p r

variable {x y : System} {p : Nat} {r : Reading}

theorem ReadOk.frame {s t : Segment} (h : ReadOk s p r) (hproc : t.procs p=s.procs p)
    (hn : t.nProcs=s.nProcs) (hlat : t.latestRunawayVersion=s.latestRunawayVersion) :
    ReadOk t p r := by
  obtain ⟨⟨hp,hph⟩,hflg,hvers,hskip⟩ := h
  refine ⟨⟨hn ▸ hp,by rw [hproc]; exact hph⟩,hflg,?_,?_⟩
  · rw [hlat]
    exact hvers
  · rw [hproc,hlat]
    exact hskip

/-- With the versions as they were read the process decides as if it had looked at once: its session
is flagged as long as it owes a cleanup. -/
theorem SystemInv.decides (h : SystemInv st x) (hr : x.reading p=some r)
    (hvers : r.versions=[version₁,version₂,version₃]) :
    (x.segment.procs p).startCleanup ((x.segment.procs p).shouldStartRunawayCleanup
        r.runawayStatus version₁ version₂ version₃) (x.segment.mySession p).runawayStatus
        x.segment.latestRunawayVersion q=x.segment.startCleanupAtOnce p q := by
  obtain ⟨-,hflg,hread,hskip⟩ := h.reads p r hr
  have hsta := h.segment.stage.flagged (x.segment.procs p).session
  simp only [hvers,forall_mem_cons] at hread
  obtain ⟨rfl,rfl,rfl,-⟩ := hread
  rw [Segment.startCleanupAtOnce]
  congr 1
  have hiff := (h.segment.procs p).shouldStart_iff hsta h.segment.owes_flagged
  rw [Bool.eq_iff_iff,Segment.mySession,hiff]
  simp only [shouldStartRunawayCleanup,Bool.and_eq_true,Bool.or_eq_true,Bool.not_eq_true',
    decide_eq_true_eq]
  constructor
  · rintro ⟨⟨-,hbeg⟩,hvers⟩
    refine ⟨?_,hbeg⟩
    by_contra hnot
    have hact : (x.segment.procs p).activationVersion<x.segment.latestRunawayVersion :=
      hvers.elim (·.2) (·.2)
    obtain ⟨hidle,hle⟩ := hskip (by simpa using hnot) hbeg hact
    rcases hvers with hactive | hlater
    · simp [hidle] at hactive
    · omega
  · rintro ⟨howes,hbeg⟩
    obtain ⟨hact,hph⟩ := (h.segment.procs p).pending howes hbeg
    refine ⟨⟨hflg,hbeg⟩,?_⟩
    cases hactive : (x.segment.procs p).isProcessActive with
    | true => exact .inl ⟨rfl,hact⟩
    | false =>
      rcases hph with hyes | hlater
      · simp [hactive] at hyes
      · exact .inr ⟨⟨rfl,hlater.2⟩,hact⟩

/-- What the others have read stays right when one process and what it has read change. -/
theorem SystemInv.others (h : SystemInv st x) {t : Segment}
    (hprocs : ∀ q, q≠p → t.procs q=x.segment.procs q) (hn : t.nProcs=x.segment.nProcs)
    (hlat : t.latestRunawayVersion=x.segment.latestRunawayVersion)
    (hself : ∀ r, o=some r → ReadOk t p r) :
    ∀ q r, update x.reading p o q=some r → ReadOk t q r := by
  intro q r hr
  by_cases hq : q=p
  · rw [hq,update_self] at hr
    rw [hq]
    exact hself r hr
  · rw [update_of_ne hq] at hr
    exact (h.reads q r hr).frame (hprocs q hq) hn hlat

/-- Every orderly step keeps the invariant, the unlocked reads included. -/
theorem SystemInv.step (h : SystemInv st x) (hC : x.Orderly a) (hstep : x.step a=some y) :
    ∃ st', SystemInv st' y := by
  cases a with
  | move a =>
    rw [System.step] at hstep
    split at hstep
    · cases hstep
    next hstart =>
      obtain ⟨t,ht,rfl⟩ := Option.map_eq_some_iff.mp hstep
      obtain ⟨hC,hfree⟩ := hC
      obtain ⟨st',h'⟩ := h.segment.step hC ht
      refine ⟨st',h',fun q r hr => ?_⟩
      have hread := h.reads q r hr
      have hflag : a.flagsSession=false := by
        by_contra hflag
        have hnone := hfree (by simpa using hflag) q hread.at_checking.1
        cases hnone.symm.trans hr
      obtain ⟨hproc,hn,hlat⟩ := Segment.step_frame hread.at_checking.2
        (by simpa using hstart) hflag ht
      exact hread.frame hproc hn hlat
  | readStatus p =>
    obtain ⟨⟨hp,hfree⟩,hstep⟩ := Option.ite_none_right_eq_some.mp hstep
    split at hstep
    next hsta =>
      -- without a flagged session nothing would be started at once either
      cases hstep
      have hready : ∀ q, x.segment.startCleanupAtOnce p q=
          { x.segment.procs p with phase := .ready } := by
        intro q
        simp [Segment.startCleanupAtOnce,shouldStartRunawayCleanup,startCleanup,hsta]
      have hseg := h.segment.startCleanup (q := ⟨false,0,false,false⟩) hp.1 hp.2
      rw [hready] at hseg
      have hreads := h.others (p := p) (t := x.segment.setPhase p .ready) (o := none)
        (fun q hq => update_of_ne hq ..) rfl rfl (by rintro _ ⟨⟩)
      rw [← hfree,update_eq_self] at hreads
      exact ⟨st,hseg,hreads⟩
    next hsta =>
      cases hstep
      refine ⟨st,h.segment,h.others (fun _ _ => rfl) rfl rfl fun r hr => ?_⟩
      cases hr
      exact ⟨hp,hsta,by simp,(h.segment.procs p).skipped ((h.segment.stage.flagged _).mp hsta)⟩
  | readVersion p =>
    obtain ⟨r,hr,hstep⟩ := Option.bind_eq_some_iff.mp hstep
    obtain ⟨-,rfl⟩ := of_guard hstep
    refine ⟨st,h.segment,h.others (fun _ _ => rfl) rfl rfl fun r' hr' => ?_⟩
    cases hr'
    have hread := h.reads p r hr
    refine { hread with versions := fun v hv => ?_ }
    rcases mem_append.mp hv with hv | hv
    · exact hread.versions v hv
    · exact mem_singleton.mp hv
  | startCleanup p q =>
    obtain ⟨r,hr,hstep⟩ := Option.bind_eq_some_iff.mp hstep
    split at hstep
    next hvers =>
      cases hstep
      obtain ⟨hp,hph⟩ := (h.reads p r hr).at_checking
      rw [h.decides hr hvers]
      exact ⟨st,h.segment.startCleanup hp hph,
        h.others (fun q hq => update_of_ne hq ..) rfl rfl (by rintro _ ⟨⟩)⟩
    · cases hstep

theorem systemInv_of_run {n : Nat} {as : List SystemAction}
    (hC : EveryStep System.step System.Orderly (.init n) as)
    (hrun : run System.step (.init n) as=some x) : ∃ st, SystemInv st x := by
  refine run_invariant_of_everyStep (P := fun x => ∃ st, SystemInv st x) ?_ ?_ hC hrun
  · rintro x a y ⟨st,h⟩ hC hstep
    exact h.step hC hstep
  · exact ⟨.idle,segmentInv_init n,nofun⟩

def runningQuery : Query := ⟨false,1,true,false⟩

def criticalSection : Query := ⟨true,1,true,false⟩

/-- The start of a cleanup in a flagged session, with nothing between the reads. -/
def cleanup (p : Nat) (q : Query) : List SystemAction :=
  [.readStatus p,.readVersion p,.readVersion p,.readVersion p,.startCleanup p q]

def flaggedSession : List SystemAction :=
  [.start 0 0,.init 0,.start 1 0,.init 1,.detect 0,.flag 0 (some (0, true))].map .move

/-- A session counts its active processes, those attached to it and, during a cleanup, those that
have not counted down yet. -/
theorem session_counts_exact {n : Nat} {as : List SystemAction} {x : System}
    (hC : EveryStep System.step System.Orderly (.init n) as)
    (hrun : run System.step (.init n) as=some x) (k : Nat) :
    (x.segment.sessions k).activeProcessCount=x.segment.nActive k ∧
      (x.segment.sessions k).pinCount=x.segment.nPinned k ∧
      ((x.segment.sessions k).cleanupCountdown=-1 ∨
        (x.segment.sessions k).cleanupCountdown=x.segment.nOwing) := by
  obtain ⟨st,h⟩ := systemInv_of_run hC hrun
  refine ⟨h.segment.active k,h.segment.pinned k,?_⟩
  rw [h.segment.stage.countdown k]
  split_ifs
  · exact .inr rfl
  · exact .inl rfl

/-- In the middle of a cleanup: one process has counted down, a worker has joined. -/
theorem session_counts_exact_flagged : ∃ x, run System.step (.init 3) (flaggedSession ++
      cleanup 0 criticalSection ++ [.countDown 0,.start 2 0,.init 2].map .move)=some x ∧
    (x.segment.sessions 0).cleanupCountdown=1 ∧ x.segment.nOwing=1 ∧
    (x.segment.sessions 0).pinCount=3 ∧ x.segment.nPinned 0=3 := by
  refine exists_run_of (fun x => (x.segment.sessions 0).cleanupCountdown=1 ∧
    (x.segment.sessions 0).pinCount=3) (by decide +kernel) ?_
  rintro x hx ⟨hcount,hpin⟩
  obtain ⟨-,hpinned,howing⟩ := session_counts_exact (by decide +kernel) hx 0
  exact ⟨hcount,by omega,hpin,by omega⟩

end WarehousePG.Runaway
