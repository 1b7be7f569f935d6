import WarehousePG.Dtm.DistributedSnapshot
import WarehousePG.Transam.TransactionId

namespace WarehousePG.Dtm

open Transam List

/-- The caches of a backend: the local xids a distributed snapshot has found in progress, with their
bounds, and the local-to-distributed pairs, the most recently used first. -/
structure XidCaches where
  inProgressMappedLocalXids : List TransactionId
  minCachedLocalXid : TransactionId
  maxCachedLocalXid : TransactionId
  localDistribXactCache : List (TransactionId × Nat)

namespace XidCaches

def init : XidCaches := ⟨[],invalidTransactionId,invalidTransactionId,[]⟩

-- `maxCache` is the setting gp_max_local_distributed_cache
variable (ds : DistributedSnapshot) (log : TransactionId → Option Nat) (maxCache : Nat)

def mappedInProgress (st : XidCaches) (localXid : TransactionId) : Bool :=
  !st.inProgressMappedLocalXids.isEmpty &&
    (localXid=st.minCachedLocalXid || localXid=st.maxCachedLocalXid ||
      transactionIdFollows localXid st.minCachedLocalXid &&
        transactionIdPrecedes localXid st.maxCachedLocalXid &&
        st.inProgressMappedLocalXids.contains localXid)

def committedFind (st : XidCaches) (localXid : TransactionId) : Option Nat × XidCaches :=
  if maxCache=0 then (none, st)
  else match st.localDistribXactCache.find? (·.1=localXid) with
    | none => (none, st)
    | some e => (some e.2, { st with localDistribXactCache := e::st.localDistribXactCache.erase e })

/-- None is the error for a xid that is there already. -/
def addCommitted (st : XidCaches) (localXid : TransactionId) (distribXid : Nat) :
    Option XidCaches :=
  if maxCache=0 then some st
  else
    let kept := if maxCache ≤ st.localDistribXactCache.length
      then st.localDistribXactCache.dropLast else st.localDistribXactCache
    if kept.any (·.1=localXid) then none
    else some { st with localDistribXactCache := (localXid, distribXid)::kept }

def saveInProgress (st : XidCaches) (localXid : TransactionId) : XidCaches :=
  if st.inProgressMappedLocalXids.length<ds.inProgressXidArray.length then
    { st with
      inProgressMappedLocalXids := st.inProgressMappedLocalXids ++ [localXid]
      minCachedLocalXid :=
        if !transactionIdIsValid st.minCachedLocalXid ||
          transactionIdPrecedes localXid st.minCachedLocalXid then localXid
        else st.minCachedLocalXid
      maxCachedLocalXid :=
        if !transactionIdIsValid st.maxCachedLocalXid ||
          transactionIdFollows localXid st.maxCachedLocalXid then localXid
        else st.maxCachedLocalXid }
  else st

def testMapped (st : XidCaches) (localXid : TransactionId) (distribXid : Nat)
    (isVacuumCheck : Bool) : CommittedResult × XidCaches :=
  if distribXid<ds.xminAllDistributedSnapshots then (.ignore, st)
  else if isVacuumCheck then (.inprogress, st)
  else if distribXid<ds.xmin then (.visible, st)
  else if ds.xmax≤distribXid then (.inprogress, st)
  else match scanInProgress distribXid ds.inProgressXidArray with
    | .inprogress => (.inprogress, st.saveInProgress ds localXid)
    | r => (r, st)

/-- `DistributedSnapshotWithLocalMapping_CommittedTest`. -/
def cachedCommittedTest (st : XidCaches) (localXid : TransactionId) (isVacuumCheck : Bool) :
    Option (CommittedResult × XidCaches) :=
  if !transactionIdIsNormal localXid then some (.ignore, st)
  else if st.mappedInProgress localXid then some (.inprogress, st)
  else match st.committedFind maxCache localXid with
    | (some distribXid, st) => some (st.testMapped ds localXid distribXid isVacuumCheck)
    | (none, st) =>
      match log localXid with
      | none => some (.unknown, st)
      | some distribXid =>
        (st.addCommitted maxCache localXid distribXid).map fun st =>
          st.testMapped ds localXid distribXid isVacuumCheck

def performCalls :
    XidCaches → List (TransactionId × Bool) → Option (List CommittedResult × XidCaches)
  | st, [] => some ([], st)
  | st, (localXid, isVacuumCheck)::calls =>
    (st.cachedCommittedTest ds log maxCache localXid isVacuumCheck).bind
      fun (r, st) => (st.performCalls calls).map fun (rs, st) => (r::rs, st)

/-- The answer without caches: look the xid up in the distributed log and compare. -/
def directTest (localXid : TransactionId) (isVacuumCheck : Bool) : CommittedResult :=
  if !transactionIdIsNormal localXid then .ignore
  else match log localXid with
    | none => .unknown
    | some distribXid => committedTest ds distribXid isVacuumCheck

structure CachesOk (st : XidCaches) : Prop where
  mapped : ∀ x∈st.inProgressMappedLocalXids, ∀ isVacuumCheck,
    directTest ds log x isVacuumCheck=.inprogress
  empty : st.inProgressMappedLocalXids=[] →
    st.minCachedLocalXid=invalidTransactionId ∧ st.maxCachedLocalXid=invalidTransactionId
  bounds : st.inProgressMappedLocalXids≠[] → st.minCachedLocalXid∈st.inProgressMappedLocalXids ∧
    st.maxCachedLocalXid∈st.inProgressMappedLocalXids
  pairs : ∀ e∈st.localDistribXactCache, log e.1=some e.2

variable {ds log maxCache} {st : XidCaches}

section

variable (h : CachesOk ds log st)
include h

theorem CachesOk.withPairs (hcache : ∀ e∈cache, log e.1=some e.2) :
    CachesOk ds log { st with localDistribXactCache := cache } :=
  ⟨h.mapped,h.empty,h.bounds,hcache⟩

theorem CachesOk.mappedInProgress (hhit : st.mappedInProgress localXid=true) :
    directTest ds log localXid isVacuumCheck=.inprogress := by
  simp only [XidCaches.mappedInProgress,Bool.and_eq_true,Bool.or_eq_true,Bool.not_eq_true',
    isEmpty_eq_false_iff,decide_eq_true_eq,contains_iff_mem] at hhit
  obtain ⟨hne,(rfl | rfl) | ⟨-,hmem⟩⟩ := hhit
  · exact h.mapped _ (h.bounds hne).1 _
  · exact h.mapped _ (h.bounds hne).2 _
  · exact h.mapped _ hmem _

theorem CachesOk.committedFind (maxCache : Nat) (localXid : TransactionId) :
    CachesOk ds log (st.committedFind maxCache localXid).2 ∧
    (∀ g∈(st.committedFind maxCache localXid).1, log localXid=some g) ∧
    ((st.committedFind maxCache localXid).1=none → (st.committedFind maxCache localXid).2=st ∧
      (maxCache≠0 → ∀ e∈st.localDistribXactCache, e.1≠localXid)) := by
  unfold XidCaches.committedFind
  split_ifs with hzero
  · exact ⟨h,fun _ hg => (nomatch hg),fun _ => ⟨rfl,absurd hzero⟩⟩
  · cases hfind : st.localDistribXactCache.find? (·.1=localXid) with
    | none =>
      have hno := find?_eq_none.mp hfind
      exact ⟨h,fun _ hg => (nomatch hg),fun _ => ⟨rfl,fun _ e he heq => hno e he (by simp [heq])⟩⟩
    | some e =>
      have hmem := mem_of_find?_eq_some hfind
      have hkey : e.1=localXid := by simpa using find?_some hfind
      refine ⟨h.withPairs fun d hd => ?_,fun g hg => ?_,fun hnone => (nomatch hnone)⟩
      · rcases mem_cons.mp hd with rfl | hd
        · exact h.pairs d hmem
        · exact h.pairs d (mem_of_mem_erase hd)
      · cases hg
        exact hkey ▸ h.pairs e hmem

theorem CachesOk.addCommitted (hlog : log localXid=some distribXid)
    (hnew : maxCache≠0 → ∀ e∈st.localDistribXactCache, e.1≠localXid) :
    ∃ st', st.addCommitted maxCache localXid distribXid=some st' ∧ CachesOk ds log st' := by
  unfold XidCaches.addCommitted
  by_cases hzero : maxCache=0
  · exact ⟨st,if_pos hzero,h⟩
  rw [if_neg hzero]
  have hkept : ∀ e∈(if maxCache ≤ st.localDistribXactCache.length
      then st.localDistribXactCache.dropLast else st.localDistribXactCache),
      e∈st.localDistribXactCache := by
    intro e he
    split_ifs at he
    · exact dropLast_subset _ he
    · exact he
  generalize (if maxCache ≤ st.localDistribXactCache.length
      then st.localDistribXactCache.dropLast else st.localDistribXactCache)=kept at hkept
  have hany : kept.any (·.1=localXid)=false := by
    simp only [any_eq_false,decide_eq_true_eq]
    exact fun e he => hnew hzero e (hkept e he)
  simp only [hany,Bool.false_eq_true,if_false]
  refine ⟨_,rfl,h.withPairs fun e he => ?_⟩
  rcases mem_cons.mp he with rfl | he
  · exact hlog
  · exact h.pairs e (hkept e he)

/-- A local xid that is in progress for the snapshot may be saved in it. -/
theorem CachesOk.saveInProgress
    (hin : ∀ isVacuumCheck, directTest ds log localXid isVacuumCheck=.inprogress) :
    CachesOk ds log (st.saveInProgress ds localXid) := by
  unfold XidCaches.saveInProgress
  by_cases hroom : st.inProgressMappedLocalXids.length<ds.inProgressXidArray.length
  case neg => rwa [if_neg hroom]
  rw [if_pos hroom]
  have hold {x : TransactionId} (hx : transactionIdIsValid x=true)
      (hmem : st.inProgressMappedLocalXids≠[] → x∈st.inProgressMappedLocalXids)
      (hemp : st.inProgressMappedLocalXids=[] → x=invalidTransactionId) :
      x∈st.inProgressMappedLocalXids ++ [localXid] := by
    by_cases hnil : st.inProgressMappedLocalXids=[]
    · rw [hemp hnil] at hx
      cases hx
    · exact mem_append_left _ (hmem hnil)
  have hnew : localXid∈st.inProgressMappedLocalXids ++ [localXid] := by simp
  constructor
  case mapped =>
    intro x hx
    rcases mem_append.mp hx with hx | hx
    · exact h.mapped x hx
    · exact mem_singleton.mp hx ▸ hin
  case empty => simp
  case bounds =>
    have hvld {x : TransactionId} {b : Bool} (hc : ¬(!transactionIdIsValid x || b)=true) :
        transactionIdIsValid x=true := by
      simp only [Bool.or_eq_true,Bool.not_eq_true',not_or,Bool.not_eq_false] at hc
      exact hc.1
    refine fun _ => ⟨?_,?_⟩
    · dsimp only
      split_ifs with hc
      · exact hnew
      · exact hold (hvld hc) (fun hne => (h.bounds hne).1) fun hnil => (h.empty hnil).1
    · dsimp only
      split_ifs with hc
      · exact hnew
      · exact hold (hvld hc) (fun hne => (h.bounds hne).2) fun hnil => (h.empty hnil).2
  case pairs => exact h.pairs

theorem CachesOk.testMapped (hnor : transactionIdIsNormal localXid=true)
    (hlog : log localXid=some distribXid) (isVacuumCheck : Bool) :
    (st.testMapped ds localXid distribXid isVacuumCheck).1=directTest ds log localXid isVacuumCheck ∧
    CachesOk ds log (st.testMapped ds localXid distribXid isVacuumCheck).2 := by
  have hdir (b : Bool) : directTest ds log localXid b=committedTest ds distribXid b := by
    simp [directTest,hnor,hlog]
  rw [hdir]
  unfold XidCaches.testMapped committedTest
  split_ifs with hall hvacuum hmin hmax
  case neg =>
    cases hscan : scanInProgress distribXid ds.inProgressXidArray with
    | inprogress =>
      refine ⟨rfl,h.saveInProgress fun b => ?_⟩
      rw [hdir]
      cases b <;> simp [committedTest,hall,hmin,hmax,hscan]
    | unknown | visible | ignore => exact ⟨rfl,h⟩
  all_goals exact ⟨rfl,h⟩

/-- The cached test answers as the test without caches. -/
theorem CachesOk.cachedCommittedTest (maxCache : Nat)
    (localXid : TransactionId) (isVacuumCheck : Bool) :
    ∃ st', st.cachedCommittedTest ds log maxCache localXid isVacuumCheck=
      some (directTest ds log localXid isVacuumCheck,st') ∧ CachesOk ds log st' := by
  unfold XidCaches.cachedCommittedTest
  by_cases hnor : transactionIdIsNormal localXid=true
  case neg => exact ⟨st,by simp [hnor,directTest],h⟩
  simp only [hnor,Bool.not_true,Bool.false_eq_true,if_false]
  by_cases hhit : st.mappedInProgress localXid=true
  · exact ⟨st,by rw [if_pos hhit,h.mappedInProgress hhit],h⟩
  rw [if_neg hhit]
  obtain ⟨hok,hfnd,hmiss⟩ := h.committedFind maxCache localXid
  cases hfind : st.committedFind maxCache localXid with
  | mk found st' =>
    rw [hfind] at hok hfnd hmiss
    cases found with
    | some g =>
      obtain ⟨hr,hst⟩ := hok.testMapped hnor (hfnd g rfl) isVacuumCheck
      exact ⟨_,congrArg some (Prod.ext hr rfl),hst⟩
    | none =>
      cases hlog : log localXid with
      | none => exact ⟨st',by simp [directTest,hnor,hlog],hok⟩
      | some g =>
        obtain ⟨rfl,hnew⟩ := hmiss rfl
        obtain ⟨u,hu,huok⟩ := hok.addCommitted hlog hnew
        obtain ⟨hr,hst⟩ := huok.testMapped hnor hlog isVacuumCheck
        exact ⟨_,by simp only [hu,Option.map_some]; exact congrArg some (Prod.ext hr rfl),hst⟩

end

end XidCaches

open XidCaches

/-- Whatever was asked before and whatever the size of the cache, every call answers as the
distributed log and the snapshot alone do. -/
theorem caches_transparent (ds : DistributedSnapshot) (log : TransactionId → Option Nat)
    (maxCache : Nat) (calls : List (TransactionId × Bool)) :
    ∃ st, performCalls ds log maxCache init calls=
      some (calls.map fun c => directTest ds log c.1 c.2,st) := by
  have hrun (st : XidCaches) (h : CachesOk ds log st) :
      ∃ st', performCalls ds log maxCache st calls=
        some (calls.map fun c => directTest ds log c.1 c.2,st') := by
    induction calls generalizing st with
    | nil => exact ⟨st,rfl⟩
    | cons c calls ih =>
      obtain ⟨t,ht,hok⟩ := h.cachedCommittedTest maxCache c.1 c.2
      obtain ⟨u,hu⟩ := ih t hok
      exact ⟨u,by simp [performCalls,ht,hu]⟩
  exact hrun init ⟨fun _ hx => (nomatch hx),fun _ => ⟨rfl,rfl⟩,absurd rfl,
    fun _ he => (nomatch he)⟩

end WarehousePG.Dtm
