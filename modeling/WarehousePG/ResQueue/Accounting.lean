import WarehousePG.ResQueue.Queue

namespace WarehousePG.ResQueue

open Framework Function Queue List

namespace Settings

variable {q : Settings} {current current' increments : LimitType → ℚ} {e : ResPortalIncrement}
  {w : ResPortalTag}

theorem resLockCheckLimit_eq_ok_iff : q.resLockCheckLimit current increments=.ok ↔
    ¬(q.WillOvercommit increments ∧ q.overcommit=false) ∧
      ∀ i, ¬q.OverLimit current increments i := by
  rw [resLockCheckLimit]
  split
  · next h => simp [h]
  · next h =>
    split
    · next hover =>
      obtain ⟨i,hi⟩ := hover
      simp only [reduceCtorEq,false_iff,not_and,not_forall]
      intro _
      exact ⟨i,not_not.mpr hi⟩
    · next hover => simpa [h] using hover

variable (hle : ∀ i, current i≤current' i)
include hle

theorem OverLimit.mono {i : LimitType}
    (h : q.OverLimit current increments i) : q.OverLimit current' increments i := by
  obtain ⟨b,hb,hover,hidle⟩ := h
  refine ⟨b,hb,?_,?_⟩
  · exact lt_of_lt_of_le hover (add_le_add_left (hle i) _)
  · intro hi hq
    exact lt_of_lt_of_le (hidle hi hq) (hle i)

theorem not_ok_mono (h : q.resLockCheckLimit current increments≠.ok) :
    q.resLockCheckLimit current' increments≠.ok := by
  intro hok
  obtain ⟨hcost,hover⟩ := resLockCheckLimit_eq_ok_iff.mp hok
  exact h (resLockCheckLimit_eq_ok_iff.mpr ⟨hcost,fun i hi => hover i (hi.mono hle)⟩)

end Settings

/-- The grant respected every enabled limit, or was an overcommitted cost on an idle queue. -/
def Grant.Fits (q : Settings) (g : Grant) : Prop :=
  ∀ i, ∀ b∈q.threshold i, g.current i+g.increments i≤b ∨
    (i=.cost ∧ q.overcommit=true ∧ g.current i=0)

theorem Grant.fits_of_ok {g : Grant} (hroun : ∀ i, Whole (g.current i))
    (h : q.resLockCheckLimit g.current g.increments=.ok) : g.Fits q := by
  have hover := (Settings.resLockCheckLimit_eq_ok_iff.mp h).2
  intro i b hb
  by_cases hfit : g.current i+g.increments i≤b
  · exact .inl hfit
  · right
    -- the sum is over the threshold, so only the exception for overcommitted costs is left
    have hidle : ¬(i=.cost → q.overcommit=true → 1/10<g.current i) :=
      fun hno => hover i ⟨b,hb,not_le.mp hfit,hno⟩
    simp only [not_forall,not_lt] at hidle
    obtain ⟨hi,hq,hsmall⟩ := hidle
    exact ⟨hi,hq,(hroun i).eq_zero_of_le hsmall⟩

namespace Queue

/-- A portal in the table that does not wait holds the queue. -/
def Holds (s : Queue) (e : ResPortalIncrement) : Prop := e.tag∉s.waitProcs
  deriving Decidable

def Blocked (q : Settings) (s : Queue) (w : ResPortalTag) : Prop :=
  ∀ e∈s.increments, e.tag=w → q.resLockCheckLimit s.current e.increments≠.ok

def LetIn (s : Queue) (e : ResPortalIncrement) : Prop :=
  ∃ g∈s.grants, g.tag=e.tag ∧ g.increments=e.increments

/-- Costs are whole numbers, and no portal is in the table when it asks. -/
def Orderly (s : Queue) : Action → Prop
  | .acquire e _ => (∀ i, Whole (e.increments i)) ∧ s.resIncrementFind e.tag=none
  | .release _ | .cancel _ => True

instance (s : Queue) : (a : Action) → Decidable (s.Orderly a)
  | .acquire e _ =>
    have : Decidable (s.resIncrementFind e.tag=none) :=
      decidable_of_iff ((s.resIncrementFind e.tag).isNone=true) Option.isNone_iff_eq_none
    inferInstanceAs (Decidable (_ ∧ _))
  | .release _ | .cancel _ => inferInstanceAs (Decidable True)

end Queue

/-- The books are in order, and each portal that holds the queue was let in or is about to be
released by a caller that caught an error. -/
structure Accounts (q : Settings) (s : Queue) : Prop where
  books : Books s.current s.nLocks (s.nRequested-s.nGranted) s.increments s.waitProcs
  granted : ∀ g∈s.grants, g.Fits q
  origin : ∀ e∈s.increments, e.tag∉s.waitProcs →
    s.LetIn e ∨ s.catching e.tag.pid=some e.tag.portalId
  asleep : ∀ w∈s.waitProcs, s.catching w.pid=none

structure QueueInv (q : Settings) (s : Queue) : Prop extends Accounts q s where
  blocked : ∀ w∈s.waitProcs, s.Blocked q w

theorem Queue.LetIn.mono {s t : Queue} (h : s.LetIn e) (hsub : ∀ g∈s.grants, g∈t.grants) :
    t.LetIn e := by
  obtain ⟨g,hg,hge⟩ := h
  exact ⟨g,hsub g hg,hge⟩

section wakeup

variable {q : Settings} {s : Queue}

theorem le_newValue (ha : 0≤a) : c≤newValue c a :=
  calc c≤c+a := by linarith
    _≤(⌈c+a⌉ : ℚ) := Int.le_ceil _
    _≤newValue c a := le_max_left _ _

/-- A waiting portal is let in when its increments fit. -/
theorem Accounts.letIn (h : Accounts q s) (he : e∈s.increments) (hw : e.tag∈s.waitProcs)
    (hok : q.resLockCheckLimit s.current e.increments=.ok) :
    Accounts q ((s.admitPortal e).unlink e.tag) := by
  have htab := h.books.table
  refine ⟨?books,?granted,?origin,fun w hw => h.asleep w (mem_of_mem_erase hw)⟩
  case books =>
    apply h.books.charge (htab.wake e.tag) (htab.whole e he)
    case hm =>
      have hlen := length_erase_of_mem hw
      have hpos := length_pos_of_mem hw
      have hpend := h.books.pending
      simp only [unlink,admitPortal,grantAndCharge,resLockUpdateLimit,resGrantLock]
      omega
    case hsum =>
      intro M _ f
      exact heldSum_wake htab.unique he htab.nodup hw
  case granted =>
    intro g hg
    obtain hnew | hold := mem_cons.mp hg
    · exact hnew ▸ Grant.fits_of_ok h.books.rounded hok
    · exact h.granted g hold
  case origin =>
    intro b hb hout
    by_cases hbe : b.tag=e.tag
    · left
      have := htab.unique.eq_of_key hb he hbe
      exact ⟨_,mem_cons_self,hbe.symm,by rw [this]⟩
    · have hnot : b.tag∉s.waitProcs := by
        intro hin
        exact hout ((mem_erase_of_ne hbe).mpr hin)
      obtain hin | hcatc := h.origin b hb hnot
      · exact .inl (hin.mono fun g hg => mem_cons_of_mem _ hg)
      · exact .inr hcatc

/-- The pass over the wait queue: what was skipped still does not fit at the end, for the values
only grow while others are let in. -/
theorem Accounts.wakeup (h : Accounts q s)
    (hqueue : s.waitProcs=done ++ ws) (hme : ∀ w∈ws, w.pid≠me) (hdone : ∀ w∈done, s.Blocked q w) :
    (resProcLockRemoveSelfAndWakeup q me s ws).2=true ∧
      QueueInv q (resProcLockRemoveSelfAndWakeup q me s ws).1 := by
  induction ws generalizing s done with
  | nil =>
    rw [append_nil] at hqueue
    exact ⟨rfl,h,hqueue ▸ hdone⟩
  | cons w ws ih =>
    have hw : w∈s.waitProcs := by simp [hqueue]
    have hrest : ∀ v∈ws, v.pid≠me := fun v hv => hme v (mem_cons_of_mem w hv)
    obtain ⟨e,he,rfl⟩ := h.books.table.waiting w hw
    have hfind : s.resIncrementFind e.tag=some e := h.books.table.unique.lookup_eq_some he
    rw [resProcLockRemoveSelfAndWakeup,if_neg (hme e.tag mem_cons_self)]
    simp only [hfind]
    split
    · next hok =>
      have hnot : e.tag∉done := by
        have hnd := h.books.table.nodup
        rw [hqueue] at hnd
        intro hin
        exact (disjoint_of_nodup_append hnd) hin mem_cons_self
      have hout : (done ++ e.tag::ws).erase e.tag=done ++ ws := by
        rw [erase_append_right _ hnot,erase_cons_head]
      have hqueue' : ((s.admitPortal e).unlink e.tag).waitProcs=done ++ ws :=
        (congrArg (fun l => l.erase e.tag) hqueue).trans hout
      have hwhol := h.books.table.whole e he
      apply ih (h.letIn he hw hok) hqueue' hrest
      intro v hv b hb hbv
      exact Settings.not_ok_mono (fun i => le_newValue (hwhol i).1) (hdone v hv b hb hbv)
    · next hno =>
      apply ih h (hqueue.trans (append_cons done e.tag ws)) hrest
      intro v hv
      obtain hold | hnew := mem_append.mp hv
      · exact hdone v hold
      · obtain rfl := mem_singleton.mp hnew
        intro b hb hbe
        rw [h.books.table.unique.eq_of_key hb he hbe]
        exact hno

theorem wakeup_frame : (resProcLockRemoveSelfAndWakeup q me s ws).1.increments=s.increments ∧
      (resProcLockRemoveSelfAndWakeup q me s ws).1.catching=s.catching ∧
      (resProcLockRemoveSelfAndWakeup q me s ws).1.waitProcs⊆s.waitProcs := by
  have herase (w : ResPortalTag) : s.waitProcs.erase w⊆s.waitProcs := erase_subset
  induction ws generalizing s with
  | nil => exact ⟨rfl,rfl,List.Subset.refl _⟩
  | cons w ws ih =>
    rw [resProcLockRemoveSelfAndWakeup]
    split
    · have h := ih (s := s.unlink w) fun v => erase_subset
      exact ⟨h.1,h.2.1,List.Subset.trans h.2.2 (herase w)⟩
    · split
      · exact ⟨rfl,rfl,List.Subset.refl _⟩
      · next e _ =>
        split
        · have h := ih (s := (s.admitPortal e).unlink w) fun v => erase_subset
          exact ⟨h.1,h.2.1,List.Subset.trans h.2.2 (herase w)⟩
        · exact ih herase

theorem wakeup_resIncrementRemove (htag : tag∉ws) :
    resProcLockRemoveSelfAndWakeup q me (s.resIncrementRemove tag) ws
      =((resProcLockRemoveSelfAndWakeup q me s ws).1.resIncrementRemove tag,
        (resProcLockRemoveSelfAndWakeup q me s ws).2) := by
  induction ws generalizing s with
  | nil => rfl
  | cons w ws ih =>
    simp only [mem_cons,not_or] at htag
    obtain ⟨hne,hrest⟩ := htag
    have hfind : (s.resIncrementRemove tag).resIncrementFind w=s.resIncrementFind w :=
      lookup_remove (Ne.symm hne)
    rw [resProcLockRemoveSelfAndWakeup,resProcLockRemoveSelfAndWakeup,hfind]
    have hcur : (s.resIncrementRemove tag).current=s.current := rfl
    split
    · exact ih (s := s.unlink w) hrest
    · split
      · rfl
      · next e _ =>
        rw [hcur]
        cases q.resLockCheckLimit s.current e.increments with
        | ok => exact ih (s := (s.admitPortal e).unlink w) hrest
        | found | error => exact ih hrest

end wakeup

section steps

variable {q : Settings} {s : Queue}

theorem Queue.request_withdraw : s.request.withdraw=s := by
  simp [request,withdraw]

theorem Accounts.raise {t : Queue} (h : Accounts q s) (hcat : s.catching tag.pid=none)
    (hawk : s.Awake tag.pid)
    (hbooks : Books t.current t.nLocks (t.nRequested-t.nGranted) t.increments t.waitProcs)
    (hgran : t.grants=s.grants) (hsame : t.catching=s.catching) (hwait : t.waitProcs=s.waitProcs)
    (hinc : ∀ e∈t.increments, e∈s.increments ∨ e.tag=tag) : Accounts q (t.raise tag) := by
  refine ⟨hbooks,?granted,?origin,?asleep⟩
  case granted =>
    intro g hg
    exact h.granted g (hgran ▸ hg)
  case origin =>
    intro e he hout
    change t.LetIn e ∨ update t.catching tag.pid (some tag.portalId) e.tag.pid=_
    rw [hsame]
    by_cases hnew : e.tag=tag
    · right
      rw [hnew,update_self]
    · have hin : e∈s.increments := (hinc e he).resolve_right hnew
      obtain hlin | hcatc := h.origin e hin (hwait ▸ hout)
      · exact .inl (hlin.mono fun g hg => hgran ▸ hg)
      · right
        have hpid : e.tag.pid≠tag.pid := by
          intro hpid
          rw [hpid,hcat] at hcatc
          cases hcatc
        rw [update_of_ne hpid]
        exact hcatc
  case asleep =>
    intro w hw
    change update t.catching tag.pid _ w.pid=none
    have hw : w∈s.waitProcs := hwait ▸ hw
    rw [update_of_ne (hawk w hw),hsame]
    exact h.asleep w hw

theorem Queue.Blocked.mono {t : Queue} (h : s.Blocked q w) (hle : ∀ i, s.current i≤t.current i)
    (hinc : ∀ e∈t.increments, e.tag=w → e∈s.increments) : t.Blocked q w :=
  fun e he hew => Settings.not_ok_mono hle (h e (hinc e he hew) hew)

/-- A portal takes its increments, or waits with them. -/
theorem QueueInv.takeOrWait (h : QueueInv q s) (hwhol : ∀ i, Whole (e.increments i))
    (hnew : ∀ b∈s.increments, b.tag≠e.tag) (hawk : s.Awake e.tag.pid)
    (hcat : s.catching e.tag.pid=none) :
    QueueInv q ((s.request.resIncrementAdd e).takeOrWait q e) := by
  have hnot : e.tag∉s.waitProcs := fun hin => hawk e.tag hin rfl
  have hpend := h.books.pending
  have hadd := h.books.table.add hwhol hnew
  have hchar : Books (fun i => newValue (s.current i) (e.increments i))
      (update s.nLocks e.tag.pid (s.nLocks e.tag.pid+1)) (s.nRequested+1-(s.nGranted+1))
      (e::s.increments) s.waitProcs := by
    apply h.books.charge hadd hwhol (by omega)
    intro M _ f
    exact heldSum_add hnot
  -- the new portal is not the one another process waits with
  have hoth : ∀ w∈s.waitProcs, ∀ b∈e::s.increments, b.tag=w → b∈s.increments := by
    intro w hw b hb hbw
    obtain hbe | hold := mem_cons.mp hb
    · exact absurd (hbe ▸ hbw ▸ hw) hnot
    · exact hold
  have hgrows : ∀ i, s.current i≤newValue (s.current i) (e.increments i) :=
    fun i => le_newValue (hwhol i).1
  rw [Queue.takeOrWait]
  split
  · -- larger than the cost limit allows: the increment is taken out again
    have hback : remove ResPortalIncrement.tag e.tag (e::s.increments)=s.increments := by
      rw [remove_cons_self,remove_of_absent hnew]
    refine ⟨h.raise hcat hawk ?books rfl rfl rfl ?table,?blocked⟩
    case books =>
      change Books s.current s.nLocks (s.nRequested+1-1-s.nGranted)
        (remove ResPortalIncrement.tag e.tag (e::s.increments)) s.waitProcs
      rw [hback,Int.add_sub_cancel]
      exact h.books
    case table =>
      intro b hb
      exact .inl (hback ▸ hb)
    case blocked =>
      intro w hw
      exact (h.blocked w hw).mono (fun i => le_refl _) fun b hb _ => hback ▸ hb
  · next hok =>
    refine ⟨⟨hchar,?granted,?origin,h.asleep⟩,?blocked⟩
    case granted =>
      intro g hg
      obtain hlast | hold := mem_cons.mp hg
      · exact hlast ▸ Grant.fits_of_ok h.books.rounded hok
      · exact h.granted g hold
    case origin =>
      intro b hb hout
      obtain hbe | hold := mem_cons.mp hb
      · exact .inl ⟨_,mem_cons_self,by rw [hbe],by rw [hbe]⟩
      · obtain hlin | hcatc := h.origin b hold hout
        · exact .inl (hlin.mono fun g hg => mem_cons_of_mem _ hg)
        · exact .inr hcatc
    case blocked =>
      intro w hw
      exact (h.blocked w hw).mono hgrows (hoth w hw)
  · next hfnd =>
    split
    · have hless : (s.request.resIncrementAdd e).nGranted
          < (s.request.resIncrementAdd e).nRequested := by
        simp only [request,resIncrementAdd]
        omega
      rw [grantSelf,if_pos hless]
      refine ⟨h.raise hcat hawk hchar rfl rfl rfl ?table,?blocked⟩
      case table =>
        intro b hb
        obtain hbe | hold := mem_cons.mp hb
        · exact .inr (by rw [hbe])
        · exact .inl hold
      case blocked =>
        intro w hw
        exact (h.blocked w hw).mono hgrows (hoth w hw)
    · refine ⟨⟨?books,h.granted,?origin,?asleep⟩,?blocked⟩
      case books =>
        apply h.books.same (h.books.table.join hwhol hnew hawk)
        case hm =>
          simp only [joinWaitQueue,request,resIncrementAdd,length_append,
            length_cons,length_nil]
          omega
        case hsum =>
          intro M _ f
          exact heldSum_join hnew
      case origin =>
        intro b hb hout
        have hout : b.tag∉s.waitProcs ∧ b.tag≠e.tag := by
          simpa [joinWaitQueue,request,resIncrementAdd] using hout
        obtain hbe | hold := mem_cons.mp hb
        · exact absurd (by rw [hbe]) hout.2
        · exact h.origin b hold hout.1
      case asleep =>
        intro w hw
        obtain hold | hlast := mem_append.mp hw
        · exact h.asleep w hold
        · obtain rfl := mem_singleton.mp hlast
          exact hcat
      case blocked =>
        intro w hw
        obtain hold | hlast := mem_append.mp hw
        · exact (h.blocked w hold).mono (fun i => le_refl _) (hoth w hold)
        · obtain rfl := mem_singleton.mp hlast
          intro b hb hbe
          obtain hbe | hold := mem_cons.mp hb
          · rw [hbe]
            exact ne_of_eq_of_ne hfnd (by decide)
          · exact absurd hbe (hnew b hold)

theorem QueueInv.acquire (h : QueueInv q s) (hwhol : ∀ i, Whole (e.increments i))
    (hnew : s.resIncrementFind e.tag=none) (hawk : s.Awake e.tag.pid)
    (hcat : s.catching e.tag.pid=none) : QueueInv q (s.resLockAcquire q e oosm) := by
  rw [resLockAcquire,request_withdraw]
  split
  · exact h
  · rw [hnew]
    dsimp only
    split
    · exact ⟨h.raise hcat hawk h.books rfl rfl rfl fun b hb => .inl hb,h.blocked⟩
    · exact h.takeOrWait hwhol (lookup_eq_none_iff.mp hnew) hawk hcat

theorem Accounts.refund (h : Accounts q s) (he : e∈s.increments) (hw : e.tag∉s.waitProcs) :
    Accounts q (((s.resUnGrantLock e.tag.pid).resLockUpdateLimit e.increments
      false).resIncrementRemove e.tag) := by
  refine ⟨?books,h.granted,?origin,h.asleep⟩
  case books =>
    have hpend : s.nRequested-1-(s.nGranted-1)=s.nRequested-s.nGranted := by omega
    change Books _ _ (s.nRequested-1-(s.nGranted-1)) _ _
    rw [hpend]
    exact h.books.refund he hw
  case origin =>
    intro b hb hout
    exact h.origin b (mem_remove.mp hb).1 hout

/-- A release gives the increments back and lets in whom they suffice for. -/
theorem QueueInv.release (h : QueueInv q s) (hawk : s.Awake tag.pid) :
    QueueInv q (s.resLockRelease q tag) ∧ (∀ e∈(s.resLockRelease q tag).increments, e.tag≠tag) ∧
      (s.resLockRelease q tag).catching=s.catching := by
  have hnot : tag∉s.waitProcs := fun hin => hawk tag hin rfl
  rw [resLockRelease]
  split
  · next hlocks =>
    refine ⟨h,?_,rfl⟩
    intro e he hetag
    have hpos := h.books.locks_pos he (hetag ▸ hnot)
    rw [hetag] at hpos
    omega
  · split
    · next hnone =>
      have hspec := h.toAccounts.wakeup (nil_append s.waitProcs).symm hawk (by simp)
      refine ⟨hspec.2,?_,wakeup_frame.2.1⟩
      intro e he
      exact lookup_eq_none_iff.mp hnone e (wakeup_frame.1 ▸ he)
    · next e hfnd =>
      obtain ⟨he,rfl⟩ := mem_of_lookup hfnd
      generalize ht : (s.resUnGrantLock e.tag.pid).resLockUpdateLimit e.increments false=t
      have hwait : t.waitProcs=s.waitProcs := ht ▸ rfl
      have hcat : t.catching=s.catching := ht ▸ rfl
      have href : Accounts q (t.resIncrementRemove e.tag) := ht ▸ h.toAccounts.refund he hnot
      have hoth : ∀ w∈t.waitProcs, w.pid≠e.tag.pid := hwait ▸ hawk
      have hspec := href.wakeup (nil_append t.waitProcs).symm hoth (by simp)
      rw [wakeup_resIncrementRemove (hwait ▸ hnot)] at hspec
      dsimp only [resCleanUpLock]
      rw [if_pos hspec.1]
      refine ⟨hspec.2,?_,wakeup_frame.2.1.trans hcat⟩
      intro b hb
      exact (mem_remove.mp hb).2

theorem QueueInv.cancel (h : QueueInv q s) (hw : w∈s.waitProcs) :
    QueueInv q ((s.resRemoveFromWaitQueue q w).raise w) := by
  obtain ⟨e,he,rfl⟩ := h.books.table.waiting w hw
  have htab := h.books.table
  have hleft : Accounts q (((s.unlink e.tag).withdraw).resIncrementRemove e.tag) := by
    refine ⟨?books,h.granted,?origin,fun v hv => h.asleep v (mem_of_mem_erase hv)⟩
    case books =>
      apply h.books.same (htab.cancel e.tag)
      case hm =>
        have hlen := length_erase_of_mem hw
        have hpos := length_pos_of_mem hw
        have hpend := h.books.pending
        simp only [unlink,withdraw,resIncrementRemove]
        omega
      case hsum =>
        intro M _ f
        exact heldSum_cancel htab.unique he hw
    case origin =>
      intro b hb hout
      have hb := mem_remove.mp hb
      apply h.origin b hb.1
      intro hin
      exact hout ((mem_erase_of_ne hb.2).mpr hin)
  have hoth : ∀ v∈s.waitProcs.erase e.tag, v.pid≠e.tag.pid := by
    intro v hv hpid
    have hv' : v=e.tag := htab.queued.eq_of_key (mem_of_mem_erase hv) hw hpid
    exact htab.nodup.not_mem_erase (hv' ▸ hv)
  have hspec := (hleft.wakeup (nil_append _).symm hoth (by simp)).2
  have hfr : (s.resRemoveFromWaitQueue q e.tag).catching=s.catching ∧
      (s.resRemoveFromWaitQueue q e.tag).waitProcs⊆s.waitProcs.erase e.tag := wakeup_frame.2
  refine ⟨hspec.raise ?_ ?_ hspec.books rfl rfl rfl fun b hb => .inl hb,hspec.blocked⟩
  · exact (congrFun hfr.1 e.tag.pid).trans (h.asleep e.tag hw)
  · exact fun v hv => hoth v (hfr.2 hv)

end steps

namespace QueueInv

variable {q : Settings} {s t : Queue}

attribute [local simp] initial

theorem init : QueueInv q .initial where
  books := ⟨⟨UniqueKeys.nil,by simp,by simp,UniqueKeys.nil⟩,
    fun _ => Whole.zero,fun _ => rfl,fun _ => rfl,rfl⟩
  granted := by simp
  origin := by simp
  asleep := by simp
  blocked := by simp

/-- Every action keeps the books. -/
theorem step (h : QueueInv q s) (hC : s.Orderly a)
    (hstep : ResQueue.step q s a=some t) : QueueInv q t := by
  cases a with
  | acquire e oosm =>
    obtain ⟨⟨hawk,hcat⟩,rfl⟩ := of_guard hstep
    exact h.acquire hC.1 hC.2 hawk hcat
  | release tag =>
    obtain ⟨⟨hawk,hown⟩,rfl⟩ := of_guard hstep
    obtain ⟨hinv,habs,hsame⟩ := h.release hawk
    refine ⟨⟨hinv.books,hinv.granted,?origin,?asleep⟩,hinv.blocked⟩
    case origin =>
      intro e he hout
      obtain hlin | hcatc := hinv.origin e he hout
      · exact .inl hlin
      · right
        rw [hsame] at hcatc
        have hpid : e.tag.pid≠tag.pid := by
          intro hpid
          rw [hpid] at hcatc
          have hpor := hown _ hcatc
          exact habs e he (ResPortalTag.ext hpid hpor)
        exact (update_of_ne hpid _ _).trans hcatc
    case asleep =>
      intro w hw
      have hold := hinv.asleep w hw
      rw [hsame] at hold
      dsimp only
      rw [update_apply]
      split
      · rfl
      · exact hold
  | cancel pid =>
    obtain ⟨w,hfnd,rfl⟩ := Option.map_eq_some_iff.mp hstep
    exact h.cancel (mem_of_find?_eq_some hfnd)

end QueueInv

/-- In a run of orderly steps the values are those of the portals that hold the queue, no portal is
let in beyond a limit, and no waiter is left that would fit. -/
theorem accounting_exact {q : Settings} {as : List Action} {s : Queue}
    (hC : EveryStep (step q) Queue.Orderly .initial as) (hrun : run (step q) .initial as=some s) :
    (∀ i, s.current i=s.charged i) ∧ (∀ p, s.nLocks p=s.heldBy p) ∧
    ((∀ e∈s.increments, ¬s.Holds e) → ∀ i, s.current i=0) ∧
    (∀ e∈s.increments, s.Holds e → s.LetIn e ∨ s.catching e.tag.pid=some e.tag.portalId) ∧
    (∀ g∈s.grants, ∀ i, ∀ b∈q.threshold i, g.current i+g.increments i≤b ∨
      (i=.cost ∧ q.overcommit=true ∧ g.current i=0)) ∧
    ∀ w∈s.waitProcs, ∃ e, s.resIncrementFind w=some e ∧
      q.resLockCheckLimit s.current e.increments≠.ok := by
  have h : QueueInv q s := run_invariant_of_everyStep (fun _ _ _ h hC hstep => h.step hC hstep)
    QueueInv.init hC hrun
  refine ⟨h.books.exact,h.books.locks,?_,h.origin,h.granted,?_⟩
  · intro hnob i
    have hzero : s.charged i=total (fun _ => 0) s.increments := by
      apply total_congr
      intro e he
      rw [if_pos (not_not.mp (hnob e he))]
    rw [h.books.exact i]
    exact hzero.trans (by simp [total])
  · intro w hw
    obtain ⟨e,he,hew⟩ := h.books.table.waiting w hw
    refine ⟨e,?_,h.blocked w hw e he hew⟩
    rw [← hew]
    exact h.books.table.unique.lookup_eq_some he

def smallQueue : Settings where
  threshold
    | .count => some 1
    | .cost => some 10
    | .memory => none
  overcommit := false
  ignorecostlimit := 1/2

def statement (pid : Nat) (cost : ℚ) : ResPortalIncrement where
  tag := ⟨pid,0⟩
  increments
    | .count => 1
    | .cost => cost
    | .memory => 0

theorem accounting_exact_woken : ∃ s, run (step smallQueue) .initial
        [.acquire (statement 1 3) false,.acquire (statement 2 4) false,
          .acquire (statement 3 5) false,.release ⟨1,0⟩,.cancel 3]=some s ∧
      s.grants.length=2 ∧ s.current .cost=4 ∧ s.current .cost=s.charged .cost := by
  refine exists_run_of (fun s => s.grants.length=2 ∧ s.current .cost=4) (by decide +kernel) ?_
  rintro s hs ⟨hgran,hcost⟩
  exact ⟨hgran,hcost,(accounting_exact (by decide +kernel) hs).1 .cost⟩

/-- A utility statement is charged the ignore limit of one half: the charge and the refund are both
rounded up. A portal that is in the table when it asks again loses its increment. -/
theorem accounting_drifts : (∃ s, run (step smallQueue) .initial
        [.acquire (statement 1 (1/2)) false,.release ⟨1,0⟩]=some s ∧
      s.increments.length=0 ∧ s.nLocks 1=0 ∧ s.charged .cost=0 ∧ s.current .cost=1) ∧
    ∃ s, run (step smallQueue) .initial
        [.acquire (statement 1 3) false,.acquire (statement 1 3) false,.release ⟨1,0⟩]=some s ∧
      s.increments.length=0 ∧ s.charged .count=0 ∧ s.current .count=1 := by
  exact ⟨exists_run (by decide +kernel),exists_run (by decide +kernel)⟩

end WarehousePG.ResQueue
