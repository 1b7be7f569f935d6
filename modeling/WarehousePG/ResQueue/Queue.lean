import WarehousePG.Framework.Transition
import WarehousePG.Framework.KeyedList
import Mathlib.Data.Rat.Floor
import Mathlib.Data.Fintype.Basic

namespace WarehousePG.ResQueue

open Framework Function

inductive LimitType
  | count
  | cost
  | memory
  deriving DecidableEq

instance : Fintype LimitType where
  elems := {.count, .cost, .memory}
  complete i := by cases i <;> decide

/-- The settings of a resource queue. A limit whose threshold is INVALID_RES_LIMIT_THRESHOLD has
none. -/
structure Settings where
  threshold : LimitType → Option ℚ
  overcommit : Bool
  ignorecostlimit : ℚ

@[ext] structure ResPortalTag where
  pid : Nat
  portalId : Nat
  deriving DecidableEq

structure ResPortalIncrement where
  tag : ResPortalTag
  increments : LimitType → ℚ

inductive Status
  | ok
  | found
  | error
  deriving DecidableEq

namespace Settings

variable (q : Settings) (current increments : LimitType → ℚ)

/-- What ResLockCheckLimit tests for one limit. An overcommitted cost is let through while no cost
is charged. -/
def OverLimit (i : LimitType) : Prop :=
  ∃ b∈q.threshold i, b<current i+increments i ∧
    (i=.cost → q.overcommit=true → 1/10<current i)
  deriving Decidable

def WillOvercommit : Prop := ∃ b∈q.threshold .cost, b < increments .cost
  deriving Decidable

def resLockCheckLimit : Status :=
  if q.WillOvercommit increments ∧ q.overcommit=false then .error
  else if ∃ i, q.OverLimit current increments i then .found
  else .ok

end Settings

/-- A portal let in by ResLockAcquire or by a process that leaves, and the values it was tested
against. -/
structure Grant where
  tag : ResPortalTag
  increments : LimitType → ℚ
  current : LimitType → ℚ

/-- One queue with its lock. A process on the wait queue is named by its pid and waitPortalId.
`catching` is the portal whose ResLockAcquire has thrown, until the caller has released it. -/
structure Queue where
  current : LimitType → ℚ
  increments : List ResPortalIncrement
  nLocks : Nat → Int
  nRequested : Int
  nGranted : Int
  waitProcs : List ResPortalTag
  catching : Nat → Option Nat
  grants : List Grant

namespace Queue

def initial : Queue where
  current _ := 0
  increments := []
  nLocks _ := 0
  nRequested := 0
  nGranted := 0
  waitProcs := []
  catching _ := none
  grants := []

variable (q : Settings) (s : Queue)

def resIncrementFind (tag : ResPortalTag) : Option ResPortalIncrement :=
  lookup ResPortalIncrement.tag tag s.increments

def resIncrementRemove (tag : ResPortalTag) : Queue :=
  { s with increments := remove ResPortalIncrement.tag tag s.increments }

def resIncrementAdd (e : ResPortalIncrement) : Queue := { s with increments := e::s.increments }

def request : Queue := { s with nRequested := s.nRequested+1 }

def withdraw : Queue := { s with nRequested := s.nRequested-1 }

/-- ResLockAcquire throws; the caller catches it and releases the portal. -/
def raise (tag : ResPortalTag) : Queue :=
  { s with catching := update s.catching tag.pid (some tag.portalId) }

def resGrantLock (pid : Nat) : Queue :=
  { s with
    nGranted := s.nGranted+1
    nLocks := update s.nLocks pid (s.nLocks pid+1) }

def resUnGrantLock (pid : Nat) : Queue :=
  { s with
    nRequested := s.nRequested-1
    nGranted := s.nGranted-1
    nLocks := update s.nLocks pid (s.nLocks pid-1) }

/-- The new value of a limit: rounded up, and never below zero. -/
def newValue (current incrementAmt : ℚ) : ℚ := max (⌈current+incrementAmt⌉ : ℚ) 0

def resLockUpdateLimit (increments : LimitType → ℚ) (increment : Bool) : Queue :=
  { s with
    current := fun i => newValue (s.current i) (if increment then increments i else -increments i) }

def grantAndCharge (e : ResPortalIncrement) : Queue :=
  (s.resGrantLock e.tag.pid).resLockUpdateLimit e.increments true

def admitPortal (e : ResPortalIncrement) : Queue :=
  { s.grantAndCharge e with grants := ⟨e.tag,e.increments,s.current⟩::s.grants }

def totalResPortalIncrements (pid : Nat) (i : LimitType) : ℚ :=
  total (fun e => if e.tag.pid=pid then e.increments i else 0) s.increments

def numPortals (pid : Nat) : Nat := s.increments.countP fun e => e.tag.pid=pid

/-- The portals of the process would exceed a threshold by themselves. -/
def Overcommitted (pid : Nat) (i : LimitType) : Prop :=
  ∃ b∈q.threshold i, b<s.totalResPortalIncrements pid i
  deriving Decidable

def resCheckSelfDeadLock (pid : Nat) : Bool :=
  decide (∃ i, s.Overcommitted q pid i) &&
    !(q.overcommit && decide (s.numPortals pid=1) && !decide (s.Overcommitted q pid .count))

def grantSelf (e : ResPortalIncrement) : Queue :=
  if s.nGranted<s.nRequested then s.grantAndCharge e else s

def joinWaitQueue (tag : ResPortalTag) : Queue := { s with waitProcs := s.waitProcs ++ [tag] }

def takeOrWait (e : ResPortalIncrement) : Queue :=
  match q.resLockCheckLimit s.current e.increments with
  | .error => ((s.resIncrementRemove e.tag).withdraw).raise e.tag
  | .ok => s.admitPortal e
  | .found =>
    if s.resCheckSelfDeadLock q e.tag.pid then (s.grantSelf e).raise e.tag
    else s.joinWaitQueue e.tag

/-- `oosm`: the increment table has no room. A portal that is in the table already loses its
increment. -/
def resLockAcquire (e : ResPortalIncrement) (oosm : Bool) : Queue :=
  if e.increments .cost<q.ignorecostlimit then s.request.withdraw
  else
    match s.resIncrementFind e.tag with
    | some _ => ((s.request.resIncrementRemove e.tag).withdraw).raise e.tag
    | none =>
      if oosm then s.request.withdraw.raise e.tag
      else (s.request.resIncrementAdd e).takeOrWait q e

def unlink (w : ResPortalTag) : Queue := { s with waitProcs := s.waitProcs.erase w }

/-- One pass over the wait queue; the flag says that it was not cut short by an error. -/
def resProcLockRemoveSelfAndWakeup (me : Nat) : Queue → List ResPortalTag → Queue × Bool
  | s, [] => (s, true)
  | s, w::ws =>
    if w.pid=me then resProcLockRemoveSelfAndWakeup me (s.unlink w) ws
    else
      match s.resIncrementFind w with
      | none => (s, false)
      | some e =>
        match q.resLockCheckLimit s.current e.increments with
        | .ok => resProcLockRemoveSelfAndWakeup me ((s.admitPortal e).unlink w) ws
        | _ => resProcLockRemoveSelfAndWakeup me s ws

def resCleanUpLock (me : Nat) : Queue × Bool := resProcLockRemoveSelfAndWakeup q me s s.waitProcs

def resLockRelease (tag : ResPortalTag) : Queue :=
  if s.nLocks tag.pid≤0 then s
  else
    match s.resIncrementFind tag with
    | none => (s.resCleanUpLock q tag.pid).1
    | some e =>
      let r := ((s.resUnGrantLock tag.pid).resLockUpdateLimit e.increments false).resCleanUpLock q
        tag.pid
      if r.2 then r.1.resIncrementRemove tag else r.1

def resRemoveFromWaitQueue (w : ResPortalTag) : Queue :=
  ((((s.unlink w).withdraw).resIncrementRemove w).resCleanUpLock q w.pid).1

def Awake (pid : Nat) : Prop := ∀ w∈s.waitProcs, w.pid≠pid
  deriving Decidable

end Queue

inductive Action
  | acquire (e : ResPortalIncrement) (oosm : Bool)
  | release (tag : ResPortalTag)
  | cancel (pid : Nat)

/-- One section under ResQueueLock. A session whose ResLockAcquire has thrown releases that portal
first; a cancelled waiter is in the same position. -/
def step (q : Settings) (s : Queue) : Action → Option Queue
  | .acquire e oosm =>
    if s.Awake e.tag.pid ∧ s.catching e.tag.pid=none then some (s.resLockAcquire q e oosm) else none
  | .release tag =>
    if s.Awake tag.pid ∧ ∀ p∈s.catching tag.pid, p=tag.portalId then
      some { s.resLockRelease q tag with catching := update s.catching tag.pid none }
    else none
  | .cancel pid => (s.waitProcs.find? fun w => w.pid=pid).map fun w =>
    (s.resRemoveFromWaitQueue q w).raise w

open Queue List ResPortalIncrement

def Whole (x : ℚ) : Prop := 0≤x ∧ x.den=1
  deriving Decidable

namespace Whole

theorem eq_intCast (h : Whole x) : x=(x.num : ℚ) := (Rat.coe_int_num_of_den_eq_one h.2).symm

theorem of_int {n : Int} (hn : 0≤n) : Whole (n : ℚ) := ⟨by exact_mod_cast hn,Rat.den_intCast n⟩

theorem zero : Whole 0 := of_int (le_refl 0)

theorem add (hx : Whole x) (hy : Whole y) : Whole (x+y) := by
  have hsum : x+y=((x.num+y.num : Int) : ℚ) := by rw [Int.cast_add,← hx.eq_intCast,← hy.eq_intCast]
  refine ⟨add_nonneg hx.1 hy.1,?_⟩
  rw [hsum]
  exact Rat.den_intCast _

theorem sub (hx : Whole x) (hy : Whole y) (h : y≤x) : Whole (x-y) := by
  have hdiff : x-y=((x.num-y.num : Int) : ℚ) := by rw [Int.cast_sub,← hx.eq_intCast,← hy.eq_intCast]
  refine ⟨sub_nonneg.mpr h,?_⟩
  rw [hdiff]
  exact Rat.den_intCast _

theorem ceil (h : Whole x) : (⌈x⌉ : ℚ)=x := by rw [h.eq_intCast,Int.ceil_intCast]

theorem eq_zero_of_le (h : Whole x) (hx : x≤1/10) : x=0 := by
  have hnum : (x.num : ℚ)<1 := by
    rw [← h.eq_intCast]
    linarith
  have hpos : 0≤x.num := Rat.num_nonneg.mpr h.1
  have hzero : x.num=0 := by
    have : x.num<1 := by exact_mod_cast hnum
    omega
  exact Rat.zero_of_num_zero hzero

end Whole

theorem newValue_charge (hc : Whole c) (ha : Whole a) : newValue c a=c+a := by
  have h := hc.add ha
  rw [newValue,h.ceil,max_eq_left h.1]

theorem newValue_refund (hc : Whole c) (ha : Whole a) (hle : a≤c) : newValue c (-a)=c-a := by
  have h := hc.sub ha hle
  rw [newValue,← sub_eq_add_neg,h.ceil,max_eq_left h.1]

section heldSum

variable {M : Type} [AddCommGroup M]

def heldSum (waits : List ResPortalTag) (f : ResPortalIncrement → M)
    (l : List ResPortalIncrement) : M :=
  total (fun e => if e.tag∈waits then 0 else f e) l

variable {waits : List ResPortalTag} {f : ResPortalIncrement → M} {l : List ResPortalIncrement}
  {e : ResPortalIncrement}

theorem heldSum_add (he : e.tag∉waits) : heldSum waits f (e::l)=heldSum waits f l+f e := by
  simp only [heldSum,total_cons,he,if_false]
  exact add_comm _ _

theorem heldSum_join (hnew : ∀ b∈l, b.tag≠e.tag) :
    heldSum (waits ++ [e.tag]) f (e::l)=heldSum waits f l := by
  have hsame : heldSum (waits ++ [e.tag]) f l=heldSum waits f l := by
    apply total_congr
    intro b hb
    simp [hnew b hb]
  rw [← hsame]
  simp [heldSum]

variable (hl : UniqueKeys tag l) (he : e∈l)

include hl he

theorem heldSum_wake (hnd : waits.Nodup) (hw : e.tag∈waits) :
    heldSum (waits.erase e.tag) f l=heldSum waits f l+f e := by
  have hoth : ∀ b∈l, b.tag≠e.tag →
      (if b.tag∈waits.erase e.tag then 0 else f b)=(if b.tag∈waits then 0 else f b) := by
    intro b _ hb
    simp only [mem_erase_of_ne hb]
  have hchange := hl.total_change he hoth
  rw [heldSum,hchange]
  simp [heldSum,hw,hnd.not_mem_erase]

theorem heldSum_release (hw : e.tag∉waits) :
    heldSum waits f (remove tag e.tag l)=heldSum waits f l-f e := by
  rw [heldSum,hl.total_remove he]
  simp [heldSum,hw]

theorem heldSum_cancel (hw : e.tag∈waits) :
    heldSum (waits.erase e.tag) f (remove tag e.tag l)=heldSum waits f l := by
  have hsame : heldSum (waits.erase e.tag) f (remove tag e.tag l)
      =heldSum waits f (remove tag e.tag l) := by
    apply total_congr
    intro b hb
    simp only [mem_erase_of_ne (mem_remove.mp hb).2]
  rw [hsame,heldSum,hl.total_remove he]
  simp [heldSum,hw]

end heldSum

def Queue.charged (s : Queue) (i : LimitType) : ℚ :=
  heldSum s.waitProcs (fun e => e.increments i) s.increments

def Queue.heldBy (s : Queue) (pid : Nat) : Int :=
  heldSum s.waitProcs (fun e => if e.tag.pid=pid then 1 else 0) s.increments

structure Table (l : List ResPortalIncrement) (waits : List ResPortalTag) : Prop where
  unique : UniqueKeys tag l
  whole : ∀ e∈l, ∀ i, Whole (e.increments i)
  waiting : ∀ w∈waits, ∃ e∈l, e.tag=w
  queued : UniqueKeys ResPortalTag.pid waits

namespace Table

variable {l : List ResPortalIncrement} {waits : List ResPortalTag} {e : ResPortalIncrement}

section

variable (h : Table l waits)
include h

theorem nodup : waits.Nodup := h.queued.of_map

theorem add (he : ∀ i, Whole (e.increments i))
    (hnew : ∀ b∈l, b.tag≠e.tag) : Table (e::l) waits := by
  refine ⟨h.unique.cons hnew,?whole,?waiting,h.queued⟩
  case whole =>
    intro b hb
    obtain hbe | hbl := mem_cons.mp hb
    · exact hbe ▸ he
    · exact h.whole b hbl
  case waiting =>
    intro w hw
    obtain ⟨b,hb,hbw⟩ := h.waiting w hw
    exact ⟨b,mem_cons_of_mem e hb,hbw⟩

theorem join (he : ∀ i, Whole (e.increments i))
    (hnew : ∀ b∈l, b.tag≠e.tag) (hawake : ∀ w∈waits, w.pid≠e.tag.pid) :
    Table (e::l) (waits ++ [e.tag]) := by
  have hadd := h.add he hnew
  refine ⟨hadd.unique,hadd.whole,?waiting,?queued⟩
  case waiting =>
    intro w hw
    obtain hold | hlast := mem_append.mp hw
    · exact hadd.waiting w hold
    · exact ⟨e,mem_cons_self,(mem_singleton.mp hlast).symm⟩
  case queued =>
    simp only [UniqueKeys,map_append,map_cons,map_nil]
    apply nodup_append_comm.mp
    apply nodup_cons.mpr
    refine ⟨?_,h.queued⟩
    simpa using hawake

theorem wake (w : ResPortalTag) : Table l (waits.erase w) where
  __ := h
  waiting v hv := h.waiting v (mem_of_mem_erase hv)
  queued := h.queued.sublist (erase_sublist.map _)

theorem release {tag : ResPortalTag} (htag : tag∉waits) :
    Table (remove ResPortalIncrement.tag tag l) waits where
  unique := h.unique.removed
  whole e he := h.whole e (mem_remove.mp he).1
  waiting w hw := by
    obtain ⟨b,hb,hbw⟩ := h.waiting w hw
    refine ⟨b,mem_remove.mpr ⟨hb,?_⟩,hbw⟩
    intro hbt
    exact htag (hbt ▸ hbw ▸ hw)
  queued := h.queued

theorem cancel (w : ResPortalTag) : Table (remove ResPortalIncrement.tag w l) (waits.erase w) :=
  (h.wake w).release h.nodup.not_mem_erase

end

end Table

/-- Values and lock counts are those of the portals that hold the queue; `pending` requests are not
granted. -/
structure Books (current : LimitType → ℚ) (nLocks : Nat → Int) (pending : Int)
    (l : List ResPortalIncrement) (waits : List ResPortalTag) : Prop where
  table : Table l waits
  rounded : ∀ i, Whole (current i)
  exact : ∀ i, current i=heldSum waits (fun e => e.increments i) l
  locks : ∀ p, nLocks p=heldSum waits (fun e => if e.tag.pid=p then 1 else 0) l
  pending : pending=waits.length

namespace Books

variable {current : LimitType → ℚ} {nLocks : Nat → Int} {n m : Int} {l : List ResPortalIncrement}
  {waits waits' : List ResPortalTag} {e : ResPortalIncrement}

section

variable (h : Books current nLocks n l waits)
include h

/-- The increments of a portal are added to the totals. -/
theorem charge (htab : Table k waits') (he : ∀ i, Whole (e.increments i)) (hm : m=waits'.length)
    (hsum : ∀ (M : Type) [AddCommGroup M] (f : ResPortalIncrement → M),
      heldSum waits' f k=heldSum waits f l+f e) :
    Books (fun i => newValue (current i) (e.increments i))
      (Function.update nLocks e.tag.pid (nLocks e.tag.pid+1)) m k waits' := by
  have hval : ∀ i, newValue (current i) (e.increments i)=current i+e.increments i :=
    fun i => newValue_charge (h.rounded i) (he i)
  refine ⟨htab,?rounded,?exact,?locks,hm⟩
  case rounded =>
    intro i
    simp only [hval i]
    exact (h.rounded i).add (he i)
  case exact =>
    intro i
    simp only [hval i]
    rw [hsum,← h.exact i]
  case locks =>
    intro p
    rw [hsum,← h.locks p]
    by_cases hp : p=e.tag.pid
    · subst hp
      simp
    · simp [hp,Ne.symm hp]

/-- They are taken away again, exactly. -/
theorem refund (he : e∈l) (hw : e.tag∉waits) :
    Books (fun i => newValue (current i) (-e.increments i))
      (Function.update nLocks e.tag.pid (nLocks e.tag.pid-1)) n
      (remove ResPortalIncrement.tag e.tag l) waits := by
  have htab := h.table.release hw
  have hsum : ∀ (M : Type) [AddCommGroup M] (f : ResPortalIncrement → M),
      heldSum waits f (remove ResPortalIncrement.tag e.tag l)=heldSum waits f l-f e :=
    fun M _ f => heldSum_release h.table.unique he hw
  -- what is left of the charges is a sum of increments, so the refund is not cut off at zero
  have hle : ∀ i, e.increments i≤current i := by
    intro i
    have hrest : 0≤heldSum waits (fun e => e.increments i)
        (remove ResPortalIncrement.tag e.tag l) := by
      apply total_nonneg
      intro b hb
      split
      · exact le_refl 0
      · exact (htab.whole b hb i).1
    rw [hsum,← h.exact i] at hrest
    exact sub_nonneg.mp hrest
  have hwhole := h.table.whole e he
  have hval : ∀ i, newValue (current i) (-e.increments i)=current i-e.increments i :=
    fun i => newValue_refund (h.rounded i) (hwhole i) (hle i)
  refine ⟨htab,?rounded,?exact,?locks,h.pending⟩
  case rounded =>
    intro i
    simp only [hval i]
    exact (h.rounded i).sub (hwhole i) (hle i)
  case exact =>
    intro i
    simp only [hval i]
    rw [hsum,← h.exact i]
  case locks =>
    intro p
    rw [hsum,← h.locks p]
    by_cases hp : p=e.tag.pid
    · subst hp
      simp
    · simp [hp,Ne.symm hp]

theorem same (htab : Table k waits') (hm : m=waits'.length)
    (hsum : ∀ (M : Type) [AddCommGroup M] (f : ResPortalIncrement → M),
      heldSum waits' f k=heldSum waits f l) : Books current nLocks m k waits' :=
  ⟨htab,h.rounded,fun i => by rw [hsum,← h.exact i],fun p => by rw [hsum,← h.locks p],hm⟩

theorem locks_pos (he : e∈l) (hw : e.tag∉waits) : 0<nLocks e.tag.pid := by
  have hrest : 0≤heldSum waits (fun b => if b.tag.pid=e.tag.pid then (1 : Int) else 0)
      (remove tag e.tag l) := by
    apply total_nonneg
    intro b _
    split
    · exact le_refl 0
    · dsimp only
      split <;> decide
  rw [heldSum_release h.table.unique he hw,← h.locks] at hrest
  simp only [if_true] at hrest
  omega

end

end Books

end WarehousePG.ResQueue
