import WarehousePG.Vmem.Books

namespace WarehousePG.Vmem

open Framework Function Process View Segment Int
open Option (some)

variable {l : Limits}

namespace Segment

def sum (s : Segment) (f : Process → Int) : Int := sumUpTo s.numProcs s.procs f

/-- What the processes of a session have in its counter, or track. -/
def sumOf (s : Segment) (k : Nat) (f : Process → Int) : Int :=
  s.sum fun p => if p.session=k then f p else 0

def Quiet (s : Segment) : Prop := ∀ p<s.numProcs, (s.procs p).frames=[]

/-- The shared counters are the sums of what the processes track, and these the chunks of their
bytes. -/
structure Balanced (l : Limits) (s : Segment) : Prop where
  segment : s.segmentVmemChunks=s.sum trackedVmemChunks
  session : ∀ k, s.sessionVmem k=s.sumOf k trackedVmemChunks
  chunks : ∀ p<s.numProcs,
    (s.procs p).trackedVmemChunks=l.bytesToChunks (s.procs p).trackedBytes

structure Inv (l : Limits) (s : Segment) : Prop where
  ok : ∀ p<s.numProcs, ProcOk l (s.procs p)
  segment : s.segmentVmemChunks=s.sum inSegment
  session : ∀ k, s.sessionVmem k=s.sumOf k inSession

def Orderly (l : Limits) (s : Segment) : Action → Prop
  | .init _ _ => True
  | .proc p a => (s.view p).Orderly l a

instance (s : Segment) (a : Action) : Decidable (s.Orderly l a) := by
  cases a <;> unfold Orderly <;> infer_instance

variable {s t : Segment} {p : Nat} {v : View}

/-- A step of one process keeps the sums over all of them. -/
theorem Inv.store (h : s.Inv l) (hp : p<s.numProcs) (hv : Kept l (s.view p) v) :
    (s.store p v).Inv l := by
  have hses : v.proc.session=(s.procs p).session := hv.session
  have hise := hv.inSession
  have hinS := hv.inSegment
  simp only [view] at hise hinS
  constructor
  case ok =>
    intro q hq
    by_cases hqp : q=p
    · rw [hqp]
      simpa [Segment.store] using hv.ok
    · simpa [Segment.store,update_of_ne hqp] using h.ok q hq
  case segment =>
    have hseg := h.segment
    rw [sum] at hseg
    show v.segmentVmemChunks=sumUpTo s.numProcs (update s.procs p v.proc) _
    rw [sumUpTo_update hp,← hseg]
    omega
  case session =>
    intro k
    have hk := h.session k
    rw [sumOf,sum] at hk
    rw [sumOf,sum]
    simp only [Segment.store]
    rw [sumUpTo_update hp,hses,← hk]
    by_cases hown : (s.procs p).session=k
    · subst hown
      simp only [update_self,if_true]
      omega
    · simp [update_of_ne (Ne.symm hown),hown]

theorem Inv.init (h : s.Inv l) (session : Nat) (gpRole : GpRole) : Inv l { s with
      numProcs := s.numProcs+1
      procs := update s.procs s.numProcs { session := session, gpRole := gpRole } } := by
  have hsum (f : Process → Int) (hf : f { session := session, gpRole := gpRole }=0) : sum { s with
        numProcs := s.numProcs+1
        procs := update s.procs s.numProcs { session := session, gpRole := gpRole } } f=
        s.sum f := by
    rw [sum,sumUpTo_succ]
    dsimp only
    rw [update_self,hf,add_zero]
    apply sumUpTo_congr
    intro q hq
    rw [update_of_ne (Nat.ne_of_lt hq)]
  constructor
  case ok =>
    intro q hq
    by_cases hqn : q=s.numProcs
    · rw [hqn]
      simp only [update_self]
      refine ⟨(zero_mul _).symm,le_refl 0,?_,by simp⟩
      exact ⟨(zero_ediv _).symm,ofNat_lt.mpr (Nat.zero_lt_succ _),le_refl 0⟩
    · dsimp only at hq ⊢
      rw [update_of_ne hqn]
      exact h.ok q (by omega)
  case segment => rw [hsum _ rfl,← h.segment]
  case session =>
    intro k
    rw [sumOf,hsum _ (by simp [inSession]),← sumOf,← h.session k]

theorem Inv.step (h : s.Inv l) (horderly : s.Orderly l a) (ht : s.step l a=some t) : t.Inv l := by
  cases a with
  | init session gpRole =>
    cases ht
    exact h.init session gpRole
  | proc p a =>
    obtain ⟨hp,v,hv,rfl⟩ := of_guard_map ht
    exact h.store hp (act_kept (h.ok p hp) horderly hv)

theorem Inv.start : Inv l ({} : Segment) where
  ok _ hp := absurd hp (Nat.not_lt_zero _)
  segment := rfl
  session _ := rfl

theorem Inv.balanced (h : s.Inv l) (hqt : s.Quiet) : s.Balanced l := by
  have hidle (p : Nat) (hp : p<s.numProcs) : Idle l (s.procs p) :=
    (h.ok p hp).idle_of_nil (hqt p hp)
  constructor
  case segment =>
    rw [h.segment]
    exact sumUpTo_congr fun p hp => (hidle p hp).inSegment_eq
  case session =>
    intro k
    rw [h.session k,sumOf,sumOf]
    apply sumUpTo_congr
    intro p hp
    rw [(hidle p hp).inSession_eq]
  case chunks =>
    intro p hp
    exact (hidle p hp).settled.exact

end Segment

def Frame.caller : Frame → Option Caller
  | .reserveSession c _ => some c
  | .revertQuery c _ => some c
  | .reserveSegment c _ _ => some c
  | .revertSession c _ => some c
  | .revertSegment c _ => some c
  | _ => none

def Process.Returns (p p' : Process) (found : Tracked) : Prop :=
  ∃ f m, p.frames=f::p'.frames ∧ f.caller=some (.reserveVmem found m)

def Process.PassesSession (p p' : Process) : Prop :=
  ∃ c n waiverUsed rest, p.frames=.reserveSession c n::rest ∧
    p'.frames=.reserveSegment c n waiverUsed::rest

def Process.PassesSegment (p p' : Process) : Prop :=
  ∃ c n waiverUsed, p.frames=.reserveSegment c n waiverUsed::p'.frames

def Process.Limited (p : Process) : Prop := p.Enforced ∧ p.waivedChunks=0

/-- A failed reservation leaves the process as it was found. -/
theorem View.advance_returns {v : View} {found : Tracked} (h : ProcOk l v.proc)
    (hw : v.advance l=some w) (hret : v.proc.Returns w.proc found) :
    w.proc.status=.success ∨ w.proc.tracked=found ∧ Idle l w.proc := by
  obtain ⟨f,m,hf,hcal⟩ := hret
  have htop := h.top_of_cons hf
  have hstay (g : Frame) (u : View) (hu : some u=some w)
      (hfram : u.proc.frames=g::w.proc.frames) : False := by
    rw [some.inj hu] at hfram
    exact List.cons_ne_self g _ hfram.symm
  have hback (n : Int) (status : MemoryAllocationStatus)
      (hc : (Caller.reserveVmem found m).Ok l v.proc n)
      (hproc : v.proc.failed (.reserveVmem found m) w.proc.frames status=w.proc) :
      w.proc.tracked=found ∧ Idle l w.proc := by
    rw [← hproc]
    refine ⟨?_,(h.failed hf hc status).1⟩
    simp only [failed,tracked,hc.1,hc.2.1,Int.add_sub_cancel]
  unfold advance at hw
  rw [hf] at hw
  cases f with
  | reserveSession c n =>
    -- the request goes on, so it does not return here
    dsimp only at hw
    split at hw
    · split at hw
      · exact (hstay _ _ hw rfl).elim
      · exact (hstay _ _ hw rfl).elim
    · exact (hstay _ _ hw rfl).elim
  | revertQuery c n =>
    cases hcal
    exact .inr (hback n _ htop (congrArg proc (some.inj hw)))
  | reserveSegment c n waiverUsed =>
    dsimp only at hw
    split at hw
    · split at hw
      · exact (hstay _ _ hw rfl).elim
      · exact .inl (congrArg (·.proc.status) (some.inj hw)).symm
    · exact .inl (congrArg (·.proc.status) (some.inj hw)).symm
  | revertSession c n => exact (hstay _ _ hw rfl).elim
  | revertSegment c n =>
    cases hcal
    exact .inr (hback n _ htop (congrArg proc (some.inj hw)))
  | _ => exact absurd hcal (by simp [Frame.caller])

/-- A reservation that passes a check is within its limit. -/
theorem View.advance_within {v : View} (hw : v.advance l=some w) (hlim : v.proc.Limited) :
    (v.proc.PassesSession w.proc → l.maxChunksPerQuery=0 ∨ w.sessionVmem≤l.maxChunksPerQuery) ∧
    (v.proc.PassesSegment w.proc → w.segmentVmemChunks≤l.vmemChunksQuota) := by
  obtain ⟨henf,hwaived⟩ := hlim
  unfold advance at hw
  constructor
  · rintro ⟨c,n,waiverUsed,rest,hf,hf'⟩
    rw [hf] at hw
    dsimp only at hw
    split at hw
    · next hover =>
      rw [if_pos (by omega)] at hw
      have := congrArg (·.proc.frames) (some.inj hw)
      simp [hf'] at this
    · next hund =>
      cases hw
      by_cases hzero : l.maxChunksPerQuery=0
      · exact .inl hzero
      · right
        by_contra hgt
        exact hund ⟨hzero,not_le.mp hgt,henf⟩
  · rintro ⟨c,n,waiverUsed,hf⟩
    rw [hf] at hw
    dsimp only at hw
    split at hw
    · next hover =>
      rw [if_pos (by omega)] at hw
      have := congrArg (·.proc.frames) (some.inj hw)
      exact (List.cons_ne_self _ _ this).elim
    · next hund =>
      have hvalue := congrArg segmentVmemChunks (some.inj hw)
      rw [← hvalue]
      by_contra hgt
      exact hund ⟨not_le.mp hgt,henf⟩

/-- The books balance whenever no call is going on. A reservation that fails leaves the process
with what it had, in its own counters and in the shared ones, and one that passes the checks
without a waiver is within the limits. -/
theorem books_balance {as : List Action} {s : Segment} (hrun : run (step l) {} as=some s)
    (horderly : EveryStep (step l) (Segment.Orderly l) {} as) : (s.Quiet → s.Balanced l) ∧
    ∀ p t, s.Orderly l (.proc p .advance) → s.step l (.proc p .advance)=some t →
      (∀ found, (s.procs p).Returns (t.procs p) found → (t.procs p).status≠.success →
        (t.procs p).tracked=found ∧ (t.procs p).inSession=found.chunks ∧
          (t.procs p).inSegment=found.chunks) ∧ ((s.procs p).Limited →
        ((s.procs p).PassesSession (t.procs p) → l.maxChunksPerQuery=0 ∨
          t.sessionVmem (s.procs p).session≤l.maxChunksPerQuery) ∧
        ((s.procs p).PassesSegment (t.procs p) → t.segmentVmemChunks≤l.vmemChunksQuota)) := by
  have hkeep (s : Segment) (a : Action) (t : Segment) (h : s.Inv l) (ha : s.Orderly l a)
      (ht : s.step l a=some t) : t.Inv l := h.step ha ht
  have hinv : s.Inv l := run_invariant_of_everyStep hkeep Segment.Inv.start horderly hrun
  refine ⟨hinv.balanced,?_⟩
  intro p t _ ht
  obtain ⟨hp,v,hv,rfl⟩ := of_guard_map ht
  have hproc : (s.store p v).procs p=v.proc := update_self ..
  rw [hproc]
  constructor
  · intro found hret hfailed
    obtain hsuc | ⟨rfl,hidle⟩ := advance_returns (hinv.ok p hp) hv hret
    · exact absurd hsuc hfailed
    · exact ⟨rfl,hidle.inSession_eq,hidle.inSegment_eq⟩
  · intro hlim
    have hwit := advance_within hv hlim
    refine ⟨?_,hwit.2⟩
    intro hpas
    have hcoun : (s.store p v).sessionVmem (s.procs p).session=v.sessionVmem := update_self ..
    rw [hcoun]
    exact hwit.1 hpas

/-- A process that tracks three chunks of a megabyte asks for one more, and the cleanup of this
reservation reserves two. -/
def cleanupReserves : List Action :=
  [.init 7 .execute,.proc 0 (.reserveVmem 3145728),.proc 0 .endCleanup,.proc 0 .advance,
    .proc 0 .advance,.proc 0 (.reserveVmem 1048576),.proc 0 (.reserveVmem 2097152),
    .proc 0 .endCleanup,.proc 0 .advance,.proc 0 .advance]

theorem books_balance_after_cleanup : ∃ s, run (step ⟨20,100,0,false⟩) {}
    (cleanupReserves++[.proc 0 (.releaseVmem 2097152),.proc 0 .advance,.proc 0 .advance,
      .proc 0 .endCleanup,.proc 0 .advance,.proc 0 .advance])=some s ∧
    s.Quiet ∧ s.segmentVmemChunks=4 ∧ s.Balanced ⟨20,100,0,false⟩ := by
  refine exists_run_of (fun s => (∀ p<s.numProcs, (s.procs p).frames=[]) ∧
    s.segmentVmemChunks=4) (by decide +kernel) ?_
  rintro s hs ⟨hqt,hfour⟩
  exact ⟨hqt,hfour,(books_balance hs (by decide +kernel)).1 hqt⟩

/-- The cleanup keeps what it has reserved: the reservation then asks for a negative number of
chunks, and the process tracks four chunks for its six. -/
theorem books_drift : ∃ s, run (step ⟨20,100,0,false⟩) {}
    (cleanupReserves++[.proc 0 .endCleanup,.proc 0 .advance,.proc 0 .advance])=some s ∧
    s.Quiet ∧ (s.procs 0).trackedBytes=6*1048576 ∧ (s.procs 0).trackedVmemChunks=4 ∧
    ¬s.Balanced ⟨20,100,0,false⟩ := by
  refine exists_run_of (fun s => (∀ p<s.numProcs, (s.procs p).frames=[]) ∧ s.numProcs=1 ∧
    (s.procs 0).trackedBytes=6*1048576 ∧ (s.procs 0).trackedVmemChunks=4) (by decide +kernel) ?_
  rintro s - ⟨hqt,hone,hbyt,hchk⟩
  refine ⟨hqt,hbyt,hchk,?_⟩
  intro hbal
  have hex := hbal.chunks 0 (by omega)
  rw [hbyt,hchk] at hex
  exact absurd hex (by decide)

end WarehousePG.Vmem
