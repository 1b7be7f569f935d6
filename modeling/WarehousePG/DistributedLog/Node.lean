import Mathlib.Data.List.SplitBy
import WarehousePG.Transam.TransactionId
import WarehousePG.Transam.Slru
import WarehousePG.Dtm.DistributedSnapshot
import WarehousePG.Framework.Transition

namespace WarehousePG.DistributedLog

open Transam Function List UInt32 FullTransactionId

section

def entriesPerPage : Nat := 32768/8

theorem entriesPerPage_eq : entriesPerPage=4096 := rfl

def segmentCount : Nat := 2^32/(entriesPerPage*slruPagesPerSegment)

theorem pageCount_eq : segmentCount*slruPagesPerSegment=2^20 := by decide

def transactionIdToPage (localXid : TransactionId) : Nat := localXid.toNat/entriesPerPage

def transactionIdToEntry (localXid : TransactionId) : Nat := localXid.toNat%entriesPerPage

def transactionIdToSegment (localXid : TransactionId) : Nat :=
  localXid.toNat/(entriesPerPage*slruPagesPerSegment)

abbrev LogPage := Nat → Nat

def pagePrecedes (page1 page2 : Nat) : Bool :=
  let xid1 := ofNat page1*ofNat entriesPerPage+firstNormalTransactionId
  let xid2 := ofNat page2*ofNat entriesPerPage+firstNormalTransactionId
  transactionIdPrecedes xid1 xid2

def distributedLogCtl : SlruCtl LogPage := ⟨pagePrecedes,fun _ => 0⟩

abbrev LogSlru := Slru LogPage

def fullPage (x : FullTransactionId) : Nat := x.value/entriesPerPage

/-- The xid is the first one of its page. On page zero that is the first normal xid. -/
def firstOfPage (x : FullTransactionId) : Bool :=
  transactionIdToEntry x.xid=0 || x.xid=firstNormalTransactionId

def pagesBegun (x : FullTransactionId) : Nat := if firstOfPage x then fullPage x else fullPage x+1

def advanceTransactionIdToNextPage (x : FullTransactionId) : FullTransactionId :=
  let y := x.value+entriesPerPage-(x.value+entriesPerPage)%entriesPerPage
  if h : 3≤y%2^32 then ⟨y,h⟩ else ⟨y+(3-y%2^32),by omega⟩

/-- The scan of `DistributedLog_InitOldestXmin` for the first page that exists, with a bound on the
number of pages it visits. -/
def initOldestXmin (slru : LogSlru) (nextXid : FullTransactionId) :
    Nat → FullTransactionId → FullTransactionId
  | 0, oldestXmin => oldestXmin
  | n+1, oldestXmin =>
    if slru.physical (transactionIdToPage oldestXmin.xid) then oldestXmin
    else
      let x := advanceTransactionIdToNextPage oldestXmin
      if transactionIdFollowsOrEquals x.xid nextXid.xid then nextXid
      else initOldestXmin slru nextXid n x

/-- The loop of `DistributedLog_SetCommittedWithinAPage`: the page, the xids recorded, and whether
no entry held another gxid. -/
def setEntries (distribXid : Nat) :
    LogPage → List FullTransactionId → LogPage × List FullTransactionId × Bool
  | pg, [] => (pg, [], true)
  | pg, x::xs =>
    let entryno := transactionIdToEntry x.xid
    if pg entryno≠0 then
      if pg entryno≠distribXid then (pg, [], false)
      else
        let r := setEntries distribXid pg xs
        (r.1, x::r.2.1, r.2.2)
    else
      let r := setEntries distribXid (update pg entryno distribXid) xs
      (r.1, x::r.2.1, r.2.2)

/-- The page for the xids of a commit. In redo a page whose file is missing is zeroed first. -/
def preparePage (slru : LogSlru) (isRedo : Bool) (page : Nat) : LogSlru :=
  if isRedo && !slru.physical page then slru.zeroPage distributedLogCtl page else slru

/-- How `DistributedLog_SetCommittedTree` cuts a transaction tree: the top xid alone, then the
subtransactions page by page. -/
def treeChunks (xid : FullTransactionId) (subxids : List FullTransactionId) :
    List (List FullTransactionId) :=
  [xid]::subxids.splitBy fun a b => transactionIdToPage a.xid=transactionIdToPage b.xid

def lookup (slru : LogSlru) (localXid : FullTransactionId) : Option Nat :=
  (slru.page (transactionIdToPage localXid.xid)).map fun pg => pg (transactionIdToEntry localXid.xid)

theorem transactionIdToPage_xid (x : FullTransactionId) :
    transactionIdToPage x.xid=fullPage x%2^20 := by
  simp only [transactionIdToPage,fullPage,xid_toNat,entriesPerPage]
  omega

theorem transactionIdToEntry_xid (x : FullTransactionId) :
    transactionIdToEntry x.xid=x.value%4096 := by
  simp only [transactionIdToEntry,xid_toNat,entriesPerPage]
  omega

theorem fullPage_eq_of_toPage (h : transactionIdToPage x.xid=transactionIdToPage y.xid)
    (hxy : fullPage x<fullPage y+2^20) (hyx : fullPage y<fullPage x+2^20) :
    fullPage x=fullPage y := by
  rw [transactionIdToPage_xid,transactionIdToPage_xid] at h
  exact Framework.eq_of_mod_eq h hxy hyx

def pageXid (P : Nat) : FullTransactionId := ⟨P*4096+3,by omega⟩

theorem xid_pageXid (P : Nat) :
    ofNat (P%2^20)*ofNat entriesPerPage+firstNormalTransactionId=(pageXid P).xid := by
  apply UInt32.toNat_inj.mp
  rw [xid_toNat,UInt32.toNat_add,UInt32.toNat_mul]
  show ((P%2^20%2^32*(4096%2^32)%2^32)+3)%2^32=(P*4096+3)%2^32
  omega

theorem pagePrecedes_iff (hPQ : P<Q+2^19) (hQP : Q≤P+2^19) :
    pagePrecedes (P%2^20) (Q%2^20)=true ↔ P<Q := by
  have hle : (pageXid P).value<(pageXid Q).value+2^31 := by
    show P*4096+3<Q*4096+3+2^31
    omega
  have hge : (pageXid Q).value≤(pageXid P).value+2^31 := by
    show Q*4096+3≤P*4096+3+2^31
    omega
  simp only [pagePrecedes,xid_pageXid,precedes_iff hle hge]
  show P*4096+3<Q*4096+3 ↔ P<Q
  omega

theorem mayDeleteSegment_eq_false (hCP : C≤P) (hPC : P+slruPagesPerSegment<C+2^19) :
    Slru.mayDeleteSegment distributedLogCtl (Slru.segPage (P%2^20)) (C%2^20)=false := by
  have hlast : Slru.segPage (P%2^20)+slruPagesPerSegment-1=(P-P%32+31)%2^20 := by
    simp only [Slru.segPage,slruPagesPerSegment]
    omega
  have hno : pagePrecedes ((P-P%32+31)%2^20) (C%2^20)=false := by
    rw [slruPagesPerSegment] at hPC
    rw [Bool.eq_false_iff,Ne,pagePrecedes_iff (by omega) (by omega)]
    omega
  simp only [Slru.mayDeleteSegment,hlast,Bool.and_eq_false_iff]
  exact Or.inr hno

section SetEntries

theorem setEntries_keeps (h : pg e≠0) : (setEntries distribXid pg xs).1 e=pg e := by
  induction xs generalizing pg with
  | nil => rfl
  | cons x xs ih =>
    rw [setEntries]
    split_ifs with hset hot
    · rfl
    · exact ih h
    · have hne : e≠transactionIdToEntry x.xid := by
        intro heq
        rw [← heq] at hset
        exact hset h
      have hupd : update pg (transactionIdToEntry x.xid) distribXid e=pg e := update_of_ne hne _ _
      show (setEntries distribXid (update pg (transactionIdToEntry x.xid) distribXid) xs).1 e =pg e
      rw [ih (by rw [hupd]; exact h),hupd]

theorem setEntries_records (hg : distribXid≠0) (h : x∈(setEntries distribXid pg xs).2.1) :
    x∈xs ∧ (setEntries distribXid pg xs).1 (transactionIdToEntry x.xid)=distribXid := by
  induction xs generalizing pg with
  | nil => simp [setEntries] at h
  | cons y ys ih =>
    rw [setEntries] at h ⊢
    split_ifs at h ⊢ with hset hot
    · simp at h
    · have heq : pg (transactionIdToEntry y.xid)=distribXid := by simpa using hot
      rcases mem_cons.mp h with rfl | hmem
      · refine ⟨mem_cons_self,?_⟩
        rw [setEntries_keeps (by rw [heq]; exact hg),heq]
      · exact ⟨mem_cons_of_mem _ (ih hmem).1,(ih hmem).2⟩
    · rcases mem_cons.mp h with rfl | hmem
      · refine ⟨mem_cons_self,?_⟩
        rw [setEntries_keeps (by rw [update_self]; exact hg),update_self]
      · exact ⟨mem_cons_of_mem _ (ih hmem).1,(ih hmem).2⟩

end SetEntries

/-- The xids of a chunk are on one page. -/
theorem treeChunks_spec (h : chunk∈treeChunks x xs) : (∀ y∈chunk, y∈x::xs) ∧
      ∀ y∈chunk, ∀ z∈chunk, transactionIdToPage y.xid=transactionIdToPage z.xid := by
  rcases mem_cons.mp h with rfl | hmem
  · constructor
    · intro y hy
      rw [mem_singleton.mp hy]
      exact mem_cons_self
    · intro y hy z hz
      rw [mem_singleton.mp hy,mem_singleton.mp hz]
  · constructor
    · intro y hy
      have hflat : y∈(xs.splitBy _).flatten := mem_flatten_of_mem hmem hy
      rw [flatten_splitBy] at hflat
      exact mem_cons_of_mem _ hflat
    · have hchn := isChain_of_mem_splitBy hmem
      simp only [decide_eq_true_eq] at hchn
      have htrans : IsTrans FullTransactionId
          fun a b => transactionIdToPage a.xid=transactionIdToPage b.xid :=
        ⟨fun _ _ _ hab hbc => hab.trans hbc⟩
      have hsymm : Std.Symm fun a b : FullTransactionId =>
          transactionIdToPage a.xid=transactionIdToPage b.xid := ⟨fun _ _ hab => hab.symm⟩
      have hpair := isChain_iff_pairwise.mp hchn
      intro y hy z hz
      by_cases hyz : y=z
      · rw [hyz]
      · exact hpair.forall hy hz hyz

open Framework Dtm

structure AdvanceCall where
  oldestLocalXmin : FullTransactionId
  xminAllDistributedSnapshots : Nat
  oldOldestXmin : FullTransactionId
  oldestXmin : FullTransactionId

inductive Phase where
  | idle
  /-- `DistributedLog_AdvanceOldestXmin` is called and waits for the lock. -/
  | entered (oldestLocalXmin : FullTransactionId) (xminAllDistributedSnapshots : Nat)
  | scanning (c : AdvanceCall) (currPage : Option Nat)
  | betweenPages (c : AdvanceCall)
  | swapping (oldOldestXmin oldestXmin expected : FullTransactionId)
  /-- `DistributedLog_Truncate` is called and waits for the exclusive lock. -/
  | truncating (oldestXmin : FullTransactionId)
  /-- `DistributedLog_CommittedCheck` is past its test without the lock. -/
  | checking (localXid : FullTransactionId)
  /-- `DistributedLog_CommittedCheck` is past its second test, under the shared lock. -/
  | reading (localXid : FullTransactionId)
  /-- `DistributedLog_CommittedCheck` has its answer; zero is false. -/
  | answered (localXid : FullTransactionId) (distribXid : Nat)
  /-- In `DistributedLog_SetCommittedTree`, with the pages to go. -/
  | committing (chunks : List (List FullTransactionId)) (distribXid : Nat)
  | readFailed (page : Nat)
  | mismatch (distribXid : Nat)

namespace Phase

def holdsTruncateLock : Phase → Bool
  | .scanning .. | .swapping .. | .reading .. => true
  | _ => false

def held : Phase → List FullTransactionId
  | .entered l _ => [l]
  | .scanning c _ | .betweenPages c => [c.oldestLocalXmin,c.oldOldestXmin,c.oldestXmin]
  | .swapping o n e => [o,n,e]
  | .truncating o => [o]
  | .checking x | .reading x | .answered x _ => [x]
  | _ => []

end Phase

/-- A process and its xids in progress: a backend or a prepared transaction of a primary, or the
startup process of a hot standby with `KnownAssignedXids`. -/
structure Proc where
  xids : List FullTransactionId
  phase : Phase

/-- A node with its distributed log. `nextPage` counts the pages whose ZEROPAGE record is written or
replayed. `snapshots` are the distributed snapshots in use and `floor` is the largest
`xminAllDistributedSnapshots` received. `recorded` lists the mappings recorded so far; the ones of
pages before `kept` had been given up before the start. -/
structure Node where
  inRecovery : Bool
  nextXid : FullTransactionId
  nextPage : Nat
  oldestXmin : FullTransactionId
  slru : LogSlru
  procs : List Proc
  snapshots : List DistributedSnapshot
  floor : Nat
  kept : Nat
  recorded : List (FullTransactionId × Nat)

namespace Node

def frontier (s : Node) : Nat := max s.nextXid.value (s.nextPage*entriesPerPage+3)

/-- An xid that is still in use somewhere. The primary stops assigning xids far before the order of
the oldest and the newest one turns around. -/
def live (s : Node) (x : FullTransactionId) : Bool :=
  x.value ≤ s.nextXid.value && s.frontier+2^18≤x.value+2^31

def exclusive (s : Node) : Bool := s.procs.all fun p => !p.phase.holdsTruncateLock

def setProc (s : Node) (b : Nat) (p : Proc) : Node := { s with procs := s.procs.set b p }

/-- The release of the lock and what follows it in `DistributedLog_AdvanceOldestXmin`. -/
def afterAdvance (oldOldestXmin oldestXmin : FullTransactionId) : Phase :=
  if transactionIdToSegment oldOldestXmin.xid<transactionIdToSegment oldestXmin.xid then
    .truncating oldestXmin
  else .idle

def afterLoop (c : AdvanceCall) : Phase :=
  if c.oldOldestXmin.xid≠c.oldestXmin.xid then
    .swapping c.oldOldestXmin c.oldestXmin c.oldOldestXmin
  else afterAdvance c.oldOldestXmin c.oldestXmin

def scanEntry (c : AdvanceCall) (page : Nat) (pg : LogPage) : Phase :=
  if c.xminAllDistributedSnapshots≤pg (transactionIdToEntry c.oldestXmin.xid) then afterLoop c
  else .scanning { c with oldestXmin := c.oldestXmin.advance } (some page)

def scan (s : Node) (c : AdvanceCall) (currPage : Option Nat) : Phase :=
  if transactionIdPrecedes c.oldestXmin.xid c.oldestLocalXmin.xid then
    let page := transactionIdToPage c.oldestXmin.xid
    if currPage≠some page && currPage.isSome then .betweenPages c
    else
      match s.slru.page page with
      | none => .readFailed page
      | some pg => scanEntry c page pg
  else afterLoop c

/-- `DistributedLogTruncateLock` is taken again after a page; catch up with a horizon that moved
past the call. -/
def relock (s : Node) (c : AdvanceCall) : Phase :=
  if transactionIdPrecedes c.oldestXmin.xid s.oldestXmin.xid then
    .scanning { c with oldestXmin := s.oldestXmin } none
  else .scanning c none

/-- One round of the compare-and-swap loop: the shared horizon and the phase after it. -/
def swap (s : Node) (o n e : FullTransactionId) : FullTransactionId × Phase :=
  if s.oldestXmin.xid=e.xid then (n, afterAdvance o n)
  else if transactionIdPrecedesOrEquals n.xid s.oldestXmin.xid then
    (s.oldestXmin, afterAdvance o s.oldestXmin)
  else (s.oldestXmin, .swapping o n s.oldestXmin)

/-- The test of `DistributedLog_CommittedCheck` against the horizon, made without and again with the
lock. -/
def belowHorizon (s : Node) (localXid : FullTransactionId) : Bool :=
  transactionIdPrecedes localXid.xid s.oldestXmin.xid

def checkRead (s : Node) (localXid : FullTransactionId) : Phase :=
  match lookup s.slru localXid with
  | none => .readFailed (transactionIdToPage localXid.xid)
  | some distribXid => .answered localXid distribXid

/-- `DistributedLog_Truncate` under the exclusive lock. -/
def truncateTo (s : Node) (oldestXmin : FullTransactionId) : LogSlru :=
  let cutoffPage := transactionIdToPage oldestXmin.xid
  if s.slru.reportPresence distributedLogCtl segmentCount cutoffPage then
    s.slru.truncate distributedLogCtl cutoffPage
  else s.slru

def redoTruncate (s : Node) (page : Nat) : LogSlru :=
  let horizonPage := transactionIdToPage s.oldestXmin.xid
  let cutoffPage := if pagePrecedes horizonPage page then horizonPage else page
  let slru := if pagePrecedes s.slru.latestPageNumber page then
      { s.slru with latestPageNumber := page }
    else s.slru
  slru.truncate distributedLogCtl cutoffPage

/-- `DistributedLog_SetCommittedWithinAPage`: the log, the xids recorded and the phase if it
fails. -/
def setCommittedWithinAPage (s : Node) (chunk : List FullTransactionId) (distribXid : Nat) :
    LogSlru × List FullTransactionId × Option Phase :=
  match chunk with
  | [] => (s.slru, [], none)
  | x::_ =>
    let page := transactionIdToPage x.xid
    let slru := preparePage s.slru s.inRecovery page
    match slru.readPage distributedLogCtl s.inRecovery page with
    | none => (slru, [], some (.readFailed page))
    | some pg =>
      let r := setEntries distribXid pg chunk
      (slru.setPage page r.1, r.2.1, if r.2.2 then none else some (.mismatch distribXid))

def held (s : Node) : List FullTransactionId :=
  s.nextXid::s.oldestXmin::s.procs.flatMap fun p => p.xids++p.phase.held

/-- With `pages` pages begun no xid held is half the range behind. Two segments are left over
because truncation compares whole segments. -/
def withinWindow (s : Node) (pages : Nat) : Bool :=
  s.held.all fun x => pages*entriesPerPage+3+2^18≤x.value+2^31

end Node

inductive CallAction where
  | lock
  | scan
  | swap
  | committedCheck (localXid : FullTransactionId)
  | checkLock
  | checkRead
  | finishCheck

inductive Action where
  /-- A distributed snapshot arrives; `DistributedLog_AdvanceOldestXmin` is called with the oldest
  local xmin of the same `GetSnapshotData`. -/
  | getSnapshotData (b : Nat) (oldestLocalXmin : FullTransactionId) (ds : DistributedSnapshot)
  | dropSnapshot (ds : DistributedSnapshot)
  | call (b : Nat) (a : CallAction)
  | truncate (b : Nat)
  /-- A primary assigns an xid, or a hot standby observes one. -/
  | assignXid (b : Nat)
  | setCommittedTree (b : Nat) (xid : FullTransactionId) (subxids : List FullTransactionId)
      (distribXid : Nat)
  | setCommittedPage (b : Nat)
  | endTransaction (b : Nat) (xids : List FullTransactionId)
  | redoZeroPage
  | redoTruncate (page : Nat)
  /-- A buffer is written for a checkpoint or to make room. -/
  | writePage (page : Nat)

namespace Node

def callStep (s : Node) : Phase → CallAction → Option (FullTransactionId × Phase)
  | .entered l m, .lock => some (s.oldestXmin, .scanning ⟨l,m,s.oldestXmin,s.oldestXmin⟩ none)
  | .betweenPages c, .lock => some (s.oldestXmin, s.relock c)
  | .scanning c currPage, .scan => some (s.oldestXmin, s.scan c currPage)
  | .swapping o n e, .swap => some (s.swap o n e)
  | .idle, .committedCheck x =>
    -- callers ask about xids of tuples that are not frozen yet
    if s.live x && x.value<s.nextXid.value then
      some (s.oldestXmin, if s.belowHorizon x then .answered x 0 else .checking x)
    else none
  | .checking x, .checkLock =>
    some (s.oldestXmin, if s.belowHorizon x then .answered x 0 else .reading x)
  | .reading x, .checkRead => some (s.oldestXmin, s.checkRead x)
  | .answered .., .finishCheck => some (s.oldestXmin, .idle)
  | _, _ => none

/-- What a snapshot may look like that arrives now: its xmin and the ones in use are not below any
`xminAllDistributedSnapshots` received. -/
def mayArrive (s : Node) (ds : DistributedSnapshot) : Bool :=
  (ds::s.snapshots).all fun d => max s.floor ds.xminAllDistributedSnapshots≤d.xmin

def mayBeOldest (s : Node) (x : FullTransactionId) : Bool :=
  s.live x && s.procs.all fun p => p.xids.all fun y => x.value≤y.value

/-- `DistributedLog_Extend` on a primary. On a standby the ZEROPAGE record of the page comes before
the first record of the xid. -/
def extend (s : Node) : Option (LogSlru × Nat) :=
  if s.inRecovery then
    if fullPage s.nextXid<s.nextPage then some (s.slru, s.nextPage) else none
  else if firstOfPage s.nextXid then
    some (s.slru.zeroPage distributedLogCtl (transactionIdToPage s.nextXid.xid),
      fullPage s.nextXid+1)
  else some (s.slru, s.nextPage)

/-- What a commit may record: xids in progress of the process, and in redo only on pages that are
set up; a page given up before the start had passed out of use for its gxids. -/
def mayCommit (s : Node) (p : Proc) (xids : List FullTransactionId) (distribXid : Nat) : Bool :=
  xids.all fun x => p.xids.contains x && distribXid≠0 &&
    (!s.inRecovery || fullPage x<s.nextPage && (s.kept≤fullPage x || distribXid<s.floor))

def step (s : Node) : Action → Option Node
  | .getSnapshotData b l ds => do
    let p ← s.procs[b]?
    match p.phase with
    | .idle =>
      if s.mayArrive ds && s.mayBeOldest l then
        some { s.setProc b { p with phase := .entered l ds.xminAllDistributedSnapshots } with
               snapshots := ds::s.snapshots
               floor := max s.floor ds.xminAllDistributedSnapshots }
      else none
    | _ => none
  | .dropSnapshot ds => some { s with snapshots := s.snapshots.erase ds }
  | .call b a => do
    let p ← s.procs[b]?
    let r ← s.callStep p.phase a
    some { s.setProc b { p with phase := r.2 } with oldestXmin := r.1 }
  | .truncate b => do
    let p ← s.procs[b]?
    match p.phase with
    | .truncating o =>
      if s.exclusive then
        some { s.setProc b { p with phase := .idle } with slru := s.truncateTo o }
      else none
    | _ => none
  | .assignXid b => do
    let p ← s.procs[b]?
    let r ← s.extend
    some { s.setProc b { p with xids := s.nextXid::p.xids } with
           slru := r.1
           nextPage := r.2
           nextXid := s.nextXid.advance }
  | .setCommittedTree b xid subxids distribXid => do
    let p ← s.procs[b]?
    match p.phase with
    | .idle =>
      if s.mayCommit p (xid::subxids) distribXid then
        some (s.setProc b { p with phase := .committing (treeChunks xid subxids) distribXid })
      else none
    | _ => none
  | .setCommittedPage b => do
    let p ← s.procs[b]?
    match p.phase with
    | .committing [] _ => some (s.setProc b { p with phase := .idle })
    | .committing (chunk::chunks) distribXid =>
      let r := s.setCommittedWithinAPage chunk distribXid
      some { s.setProc b { p with phase := r.2.2.getD (.committing chunks distribXid) } with
             slru := r.1
             recorded := r.2.1.map (·, distribXid)++s.recorded }
    | _ => none
  | .endTransaction b xids => do
    let p ← s.procs[b]?
    match p.phase with
    | .idle => some (s.setProc b { p with xids := p.xids.filter (!xids.contains ·) })
    | _ => none
  | .redoZeroPage =>
    if s.inRecovery then
      let page := s.nextPage%(segmentCount*slruPagesPerSegment)
      let slru := (s.slru.zeroPage distributedLogCtl page).writePages distributedLogCtl (·=page)
      some { s with slru, nextPage := s.nextPage+1 }
    else none
  | .redoTruncate page =>
    if s.inRecovery && s.exclusive &&
        (page ≤ s.nextPage && s.frontier+2^18≤page*entriesPerPage+2^31) then
      some { s with slru := s.redoTruncate (page%(segmentCount*slruPagesPerSegment)) }
    else none
  | .writePage page => some { s with slru := s.slru.writePages distributedLogCtl (·=page) }

/-- Whenever a page of the log is begun, no xid held is half the range behind it. -/
def pageInWindow (s : Node) : Action → Bool
  | .assignXid _ => s.inRecovery || !firstOfPage s.nextXid || s.withinWindow (fullPage s.nextXid+1)
  | .redoZeroPage => s.withinWindow (s.nextPage+1)
  | _ => true

end Node

end

/-- What `DistributedLog_Startup` finds. The files hold the pages from `kept` on; the ones before had
been removed. `nextPage` is the first page whose ZEROPAGE record lies ahead. -/
structure Start where
  inRecovery : Bool
  slru : LogSlru
  oldestXid : FullTransactionId
  nextXid : FullTransactionId
  nextPage : Nat
  procs : List (List FullTransactionId)
  floor : Nat
  kept : Nat
  recorded : List (FullTransactionId × Nat)
  oldest_le : oldestXid.value≤nextXid.value
  oldest_live : nextXid.value+2^19≤oldestXid.value+2^31
  begun_le : nextPage≤pagesBegun nextXid
  begun_eq : inRecovery=false → nextPage=pagesBegun nextXid
  in_file : slru.InFile
  files : ∀ x : FullTransactionId, oldestXid.value≤x.value → fullPage x<pagesBegun nextXid →
    (slru.physical (transactionIdToPage x.xid)=true ↔ kept≤fullPage x)
  running : ∀ xs∈procs, ∀ x∈xs, oldestXid.value≤x.value ∧ x.value<nextXid.value ∧
    (inRecovery=false → kept≤fullPage x)
  kept_primary : inRecovery=false → kept≤fullPage nextXid
  recorded_lookup : ∀ x g, (x, g)∈recorded → oldestXid.value≤x.value ∧
    x.value<nextXid.value ∧ kept≤fullPage x ∧ fullPage x<nextPage ∧ g≠0 ∧
    lookup slru x=some g

namespace Start

/-- The entries of the last page from the next xid on are cleared. -/
def trim (entryno : Nat) (pg : LogPage) : LogPage := fun e => if entryno≤e then 0 else pg e

def startSlru (c : Start) : Option LogSlru :=
  let endPage := transactionIdToPage c.nextXid.xid
  let entryno := transactionIdToEntry c.nextXid.xid
  let slru := { c.slru with latestPageNumber := endPage }
  if entryno≠0 then
    (slru.readPage distributedLogCtl c.inRecovery endPage).map fun pg =>
      slru.setPage endPage (trim entryno pg)
  else some slru

def horizon (c : Start) : FullTransactionId := initOldestXmin c.slru c.nextXid (2^20) c.oldestXid

def distributedLogStartup (c : Start) : Option Node :=
  c.startSlru.map fun slru =>
    { inRecovery := c.inRecovery
      nextXid := c.nextXid
      nextPage := c.nextPage
      oldestXmin := c.horizon
      slru
      procs := c.procs.map fun xids => ⟨xids,.idle⟩
      snapshots := []
      floor := c.floor
      kept := c.kept
      recorded := c.recorded }

end Start

theorem advanceToNextPage_value (x : FullTransactionId) :
    (advanceTransactionIdToNextPage x).value=(fullPage x+1)*4096 ∨ (fullPage x+1)*4096%2^32=0 ∧
        (advanceTransactionIdToNextPage x).value=(fullPage x+1)*4096+3 := by
  have hstart : x.value+4096-(x.value+4096)%4096=(x.value/4096+1)*4096 := by omega
  simp only [advanceTransactionIdToNextPage,fullPage,entriesPerPage_eq,hstart]
  split_ifs with h
  · exact .inl rfl
  · refine .inr ⟨by omega,?_⟩
    show (x.value/4096+1)*4096+(3-(x.value/4096+1)*4096%2^32)=_
    omega

theorem fullPage_advanceToNextPage (x : FullTransactionId) :
    fullPage (advanceTransactionIdToNextPage x)=fullPage x+1 := by
  have hval := advanceToNextPage_value x
  rw [fullPage,entriesPerPage_eq]
  omega

theorem advanceToNextPage_le (h : fullPage x<fullPage y) :
    (advanceTransactionIdToNextPage x).value≤y.value := by
  have hval := advanceToNextPage_value x
  have hy := y.normal
  have hpage : fullPage y=y.value/4096 := rfl
  omega

/-- The scan stops at the first page that exists, or at the next xid. -/
theorem initOldestXmin_spec (hle : x.value≤nextXid.value)
    (hlive : nextXid.value+2^19≤x.value+2^31) (hn : fullPage nextXid<fullPage x+n) :
    let h := initOldestXmin slru nextXid n x
    x.value≤h.value ∧ h.value≤nextXid.value ∧
      (slru.physical (transactionIdToPage h.xid)=true ∨ h=nextXid) ∧
      ∀ y : FullTransactionId, x.value≤y.value → y.value<h.value →
        slru.physical (transactionIdToPage y.xid)=false := by
  induction n generalizing x with
  | zero =>
    have hpage : fullPage x≤fullPage nextXid := Nat.div_le_div_right hle
    omega
  | succ n ih =>
    simp only [initOldestXmin]
    -- the pages of the xids from `x` on up to the next page are the page of `x`
    have hsame (hmiss : slru.physical (transactionIdToPage x.xid)=false) (y : FullTransactionId)
        (hxy : x.value≤y.value) (hpage : fullPage y≤fullPage x) :
        slru.physical (transactionIdToPage y.xid)=false := by
      have hmono : fullPage x≤fullPage y := Nat.div_le_div_right hxy
      have heq : fullPage y=fullPage x := le_antisymm hpage hmono
      rw [transactionIdToPage_xid,heq,← transactionIdToPage_xid]
      exact hmiss
    have hnext := fullPage_advanceToNextPage x
    have hpage : fullPage x=x.value/4096 := rfl
    have hval := advanceToNextPage_value x
    have hup : x.value<(advanceTransactionIdToNextPage x).value := by omega
    have hbound : (advanceTransactionIdToNextPage x).value≤x.value+4096+3 := by omega
    split_ifs with hthr hend
    · refine ⟨le_refl _,hle,.inl hthr,?_⟩
      intro y hxy hyx
      omega
    · have hmiss : slru.physical (transactionIdToPage x.xid)=false := by simpa using hthr
      rw [FullTransactionId.followsOrEquals_iff (by omega) (by omega)] at hend
      refine ⟨hle,le_refl _,.inr rfl,?_⟩
      intro y hxy hyn
      apply hsame hmiss y hxy
      by_contra hlt
      have := advanceToNextPage_le (Nat.lt_of_not_le hlt)
      omega
    · have hmiss : slru.physical (transactionIdToPage x.xid)=false := by simpa using hthr
      rw [FullTransactionId.followsOrEquals_iff (by omega) (by omega)] at hend
      obtain ⟨hge,hle',hfound,hgap⟩ := ih (x := advanceTransactionIdToNextPage x) (by omega)
        (by omega) (by omega)
      refine ⟨by omega,hle',hfound,?_⟩
      intro y hxy hyh
      rcases lt_or_ge (fullPage x) (fullPage y) with hlt | hge'
      · exact hgap y (advanceToNextPage_le hlt) hyh
      · exact hsame hmiss y hxy hge'

open Framework Dtm

namespace Node

def Running (s : Node) (x : FullTransactionId) : Prop := ∃ p∈s.procs, x∈p.xids

def Begun (s : Node) (x : FullTransactionId) : Prop :=
  x.value<s.nextXid.value ∨ fullPage x<s.nextPage

def Readable (s : Node) (x : FullTransactionId) : Prop :=
  (s.slru.page (transactionIdToPage x.xid)).isSome=true

def ReadableFrom (s : Node) (c : FullTransactionId) : Prop :=
  ∀ x : FullTransactionId, c.value≤x.value → s.Begun x → s.Readable x

/-- No snapshot needs the mapping of an xid below `c`, and none will be recorded there that one
needs. -/
structure Settled (s : Node) (c : FullTransactionId) : Prop where
  recorded : ∀ x g, (x, g)∈s.recorded → x.value<c.value → g<s.floor
  running : ∀ x, s.Running x → x.value<c.value → fullPage x<s.kept

def InWindow (s : Node) (x : FullTransactionId) : Prop :=
  s.frontier+2^18≤x.value+2^31 ∧ x.value ≤ s.nextXid.value

structure CallOk (s : Node) (c : AdvanceCall) : Prop where
  xmin_le : c.xminAllDistributedSnapshots ≤ s.floor
  running : ∀ x, s.Running x → c.oldestLocalXmin.value≤x.value
  settled : s.Settled c.oldestXmin
  old_le : c.oldOldestXmin.value≤c.oldestXmin.value

structure ChunkOk (s : Node) (xids : List FullTransactionId) (distribXid : Nat)
    (chunk : List FullTransactionId) : Prop where
  mem : ∀ x∈chunk, x∈xids
  page : s.inRecovery=true → ∀ x∈chunk, fullPage x<s.nextPage ∧
    (s.kept≤fullPage x ∨ distribXid<s.floor)
  same : ∀ x∈chunk, ∀ y∈chunk, transactionIdToPage x.xid=transactionIdToPage y.xid

def PhaseOk (s : Node) (xids : List FullTransactionId) : Phase → Prop
  | .entered l m => m ≤ s.floor ∧ ∀ x, s.Running x → l.value≤x.value
  | .scanning c _ => s.CallOk c ∧ s.ReadableFrom c.oldestXmin
  | .betweenPages c => s.CallOk c
  | .swapping _ n e => e.value≤n.value ∧ s.Settled n
  | .truncating o => o.value ≤ s.oldestXmin.value
  | .checking x => x.value<s.nextXid.value
  | .reading x => s.Readable x
  | .committing chunks g => g≠0 ∧ ∀ chunk∈chunks, s.ChunkOk xids g chunk
  | .readFailed _ => False
  | _ => True

structure LogInv (s : Node) : Prop where
  readable : s.ReadableFrom s.oldestXmin
  in_file : s.slru.InFile
  physical : s.inRecovery=true → ∀ x : FullTransactionId, s.oldestXmin.value≤x.value →
    s.kept≤fullPage x → fullPage x<s.nextPage →
    s.slru.physical (transactionIdToPage x.xid)=true
  lookup : ∀ x g, (x, g)∈s.recorded → s.oldestXmin.value≤x.value → s.kept≤fullPage x →
    lookup s.slru x=some g

structure NodeInv (s : Node) : Prop extends LogInv s where
  window : ∀ v∈s.held, s.InWindow v
  running_lt : ∀ x, s.Running x → x.value<s.nextXid.value
  settled : s.Settled s.oldestXmin
  begun : s.inRecovery=false → s.nextPage=pagesBegun s.nextXid
  kept_running : s.inRecovery=false → ∀ x, s.Running x → s.kept≤fullPage x
  kept_next : s.inRecovery=false → s.kept≤fullPage s.nextXid
  recorded : ∀ x g, (x, g)∈s.recorded → g≠0 ∧ fullPage x<s.nextPage ∧
    (s.kept≤fullPage x ∨ g<s.floor)
  floor_le : ∀ d∈s.snapshots, s.floor≤d.xmin
  phases : ∀ p∈s.procs, s.PhaseOk p.xids p.phase

structure Frame (s t : Node) : Prop where
  recovery : t.inRecovery=s.inRecovery
  kept : t.kept=s.kept
  floor_le : s.floor≤t.floor
  next_le : s.nextXid.value≤t.nextXid.value
  page_le : s.nextPage≤t.nextPage
  horizon_le : s.oldestXmin.value≤t.oldestXmin.value
  running : ∀ x, t.Running x → s.Running x ∨ s.nextXid.value≤x.value
  recorded : ∀ x g, (x, g)∈t.recorded → (x, g)∈s.recorded ∨
    s.Running x ∧ (s.kept≤fullPage x ∨ g<t.floor)
  begun : ∀ x, t.Begun x → s.Begun x ∨ t.Readable x

variable {s : Node} {b : Nat} {p : Proc} {x c : FullTransactionId}

theorem Frame.refl (s : Node) : Frame s s :=
  ⟨rfl,rfl,le_refl _,le_refl _,le_refl _,le_refl _,fun _ => .inl,fun _ _ => .inl,fun _ => .inl⟩

theorem mem_held : x∈s.held ↔ x=s.nextXid ∨ x=s.oldestXmin ∨
    ∃ p∈s.procs, x∈p.xids ∨ x∈p.phase.held := by
  simp [held]

theorem mem_of_getElem? (h : s.procs[b]?=some p) : p∈s.procs := List.mem_of_getElem? h

theorem mem_setProc {q : Proc} (h : q∈(s.setProc b p).procs) : q=p ∨ q∈s.procs :=
  (List.mem_or_eq_of_mem_set h).symm

theorem running_of_mem (h : p∈s.procs) (hx : x∈p.xids) : s.Running x := ⟨p,h,hx⟩

theorem running_setProc (h : s.procs[b]?=some p) (hsub : ∀ y∈p'.xids, y∈p.xids)
    (hx : (s.setProc b p').Running x) : s.Running x := by
  obtain ⟨q,hq,hxq⟩ := hx
  rcases mem_setProc hq with rfl | hmem
  · exact ⟨p,mem_of_getElem? h,hsub x hxq⟩
  · exact ⟨q,hmem,hxq⟩

theorem Settled.frame (hf : Frame s t) (h : s.Settled c) (hc : c.value ≤ s.nextXid.value) :
    t.Settled c where
  recorded := by
    intro x g hmem hlt
    rcases hf.recorded x g hmem with hold | ⟨hrun,hpage | hg⟩
    · exact lt_of_lt_of_le (h.recorded x g hold hlt) hf.floor_le
    · have := h.running x hrun hlt
      omega
    · exact hg
  running := by
    intro x hrun hlt
    rw [hf.kept]
    rcases hf.running x hrun with hold | hnew
    · exact h.running x hold hlt
    · omega

variable {d : FullTransactionId}

theorem ReadableFrom.mono (h : s.ReadableFrom c) (hd : c.value≤d.value) : s.ReadableFrom d :=
  fun x hx hbgn => h x (le_trans hd hx) hbgn

theorem ReadableFrom.frame (hf : Frame s t) (hpag : ∀ x, s.Readable x → t.Readable x)
    (h : s.ReadableFrom c) : t.ReadableFrom c := by
  intro x hx hbgn
  rcases hf.begun x hbgn with hold | hnew
  · exact hpag x (h x hx hold)
  · exact hnew

theorem CallOk.frame (hf : Frame s t) (h : s.CallOk a)
    (hl : a.oldestLocalXmin.value ≤ s.nextXid.value) (hc : a.oldestXmin.value ≤ s.nextXid.value) :
    t.CallOk a where
  xmin_le := le_trans h.xmin_le hf.floor_le
  running := by
    intro x hrun
    rcases hf.running x hrun with hold | hnew
    · exact h.running x hold
    · omega
  settled := h.settled.frame hf hc
  old_le := h.old_le

theorem ChunkOk.frame (hf : Frame s t)
    (h : s.ChunkOk xids g chunk) (hsub : ∀ x∈xids, x∈ys) : t.ChunkOk ys g chunk where
  mem x hx := hsub x (h.mem x hx)
  page := by
    intro hrec x hx
    rw [hf.recovery] at hrec
    have hpage := h.page hrec x hx
    have hle := hf.page_le
    have hfloor := hf.floor_le
    rw [hf.kept]
    omega
  same := h.same

attribute [local simp] Phase.held

/-- A call keeps what it relies on if the step of another process stays within the frame and, while
the call holds the lock, removes no page. -/
theorem PhaseOk.frame (hf : Frame s t) (hwin : ∀ v∈ph.held, s.InWindow v) (hsub : ∀ x∈xids, x∈ys)
    (hpag : ph.holdsTruncateLock=true → ∀ x, s.Readable x → t.Readable x)
    (h : s.PhaseOk xids ph) : t.PhaseOk ys ph := by
  cases ph with
  | entered l m =>
    have hl := hwin l (by simp)
    refine ⟨le_trans h.1 hf.floor_le,?_⟩
    intro x hrun
    rcases hf.running x hrun with hold | hnew
    · exact h.2 x hold
    · exact le_trans hl.2 hnew
  | scanning c currPage =>
    have hl := hwin c.oldestLocalXmin (by simp)
    have hc := hwin c.oldestXmin (by simp)
    exact ⟨h.1.frame hf hl.2 hc.2,h.2.frame hf (hpag rfl)⟩
  | betweenPages c =>
    have hl := hwin c.oldestLocalXmin (by simp)
    have hc := hwin c.oldestXmin (by simp)
    exact CallOk.frame hf h hl.2 hc.2
  | swapping o n e =>
    have hn := hwin n (by simp)
    exact ⟨h.1,h.2.frame hf hn.2⟩
  | truncating o => exact le_trans h hf.horizon_le
  | checking x => exact lt_of_lt_of_le h hf.next_le
  | reading x => exact hpag rfl x h
  | committing chunks g => exact ⟨h.1,fun chunk hmem => (h.2 chunk hmem).frame hf hsub⟩
  | readFailed page => exact h
  | idle | answered x g | mismatch g => trivial

end Node

end WarehousePG.DistributedLog
