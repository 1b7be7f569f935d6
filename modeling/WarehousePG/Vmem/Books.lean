import WarehousePG.Vmem.Tracker

namespace WarehousePG.Vmem

open Process List Int

section

variable {f : Frame}

def Fits (x : Int) : Prop := -2147483648≤x ∧ x<2147483648
  deriving Decidable

theorem int32_eq (h : Fits x) : int32 x=x := by
  obtain ⟨hlow,hhigh⟩ := h
  apply bmod_eq_of_le <;> omega

namespace Limits

variable (l : Limits)

theorem chunkSizeInBytes_pos : 0<l.chunkSizeInBytes := by
  have : 0<2^l.chunkSizeInBits := Nat.two_pow_pos _
  simp only [chunkSizeInBytes]
  omega

theorem bytesToChunks_mono (h : a≤b) : l.bytesToChunks a≤l.bytesToChunks b :=
  Int.ediv_le_ediv l.chunkSizeInBytes_pos h

theorem bytesToChunks_add (b k : Int) : l.bytesToChunks (b+l.chunksToBytes k)=l.bytesToChunks b+k :=
  add_mul_ediv_right b k (ne_of_gt l.chunkSizeInBytes_pos)

theorem bytesToChunks_sub (b k : Int) :
    l.bytesToChunks (b-l.chunksToBytes k)=l.bytesToChunks b-k := by
  have := l.bytesToChunks_add (b-l.chunksToBytes k) k
  rw [sub_add_cancel] at this
  omega

theorem bytesToChunks_nonneg (h : 0≤b) : 0≤l.bytesToChunks b :=
  ediv_nonneg h (le_of_lt l.chunkSizeInBytes_pos)

theorem chunksToBytes_nonneg (h : 0≤k) : 0≤l.chunksToBytes k :=
  Int.mul_nonneg h (Int.le_of_lt l.chunkSizeInBytes_pos)

end Limits

structure Settled (l : Limits) (startupBytes : Int) (t : Tracked) : Prop where
  exact : t.chunks=l.bytesToChunks t.bytes
  small : t.chunks<2147483648
  startup : startupBytes≤t.bytes

theorem Settled.chunks_eq (ht : Settled l b t) (hu : Settled l b u)
    (h : t.bytes=u.bytes) : t.chunks=u.chunks := by
  rw [ht.exact,hu.exact,h]

theorem Settled.add (ht : Settled l b t) (hm : 0 ≤ m)
    (hsmal : l.bytesToChunks (t.bytes+m)<2147483648) :
    Settled l b ⟨t.bytes+m,l.bytesToChunks (t.bytes+m)⟩ := by
  have := ht.startup
  exact ⟨rfl,hsmal,by dsimp only; omega⟩

namespace Frame

def inSession (startupChunks : Int) : Frame → Int
  | .revertQuery _ n => n
  | .reserveSegment _ n _ => n
  | .revertSession _ n => n
  | .registerSession => -startupChunks
  | _ => 0

def inSegment (startupChunks : Int) : Frame → Int
  | .revertSession _ n => n
  | .revertSegment _ n => n
  | .releaseSession _ reduction => -reduction
  | .registerSession => -startupChunks
  | .registerSegment => -startupChunks
  | .unregisterSession => -startupChunks
  | _ => 0

def Waiting (l : Limits) (startupBytes : Int) : Frame → Prop
  | .cleanup found m newszChunk => Settled l startupBytes found ∧ 0 ≤ m ∧
      newszChunk=l.bytesToChunks (found.bytes+m) ∧ newszChunk<2147483648
  | _ => False

end Frame

namespace Process

def floor (p : Process) : Int := if p.vmemTrackerInited then p.startupBytes else 0

def inSession (p : Process) : Int :=
  match p.frames with
  | [] => p.trackedVmemChunks
  | f::_ => p.trackedVmemChunks+f.inSession p.startupChunks

def inSegment (p : Process) : Int :=
  match p.frames with
  | [] => p.trackedVmemChunks
  | f::_ => p.trackedVmemChunks+f.inSegment p.startupChunks

end Process

def Caller.Ok (l : Limits) (p : Process) (n : Int) : Caller → Prop
  | .reserveVmem found m => p.trackedBytes=found.bytes+m ∧ p.trackedVmemChunks=found.chunks ∧
      Settled l p.floor found ∧ Settled l p.floor ⟨found.bytes+m,found.chunks+n⟩
  | .registerStartupMemory => n=0 ∧ Settled l p.floor p.tracked

def Process.Shrinks (l : Limits) (p : Process) (all : Bool) (reduction : Int) : Prop :=
  if all then reduction=p.trackedVmemChunks ∧ p.vmemTrackerInited=false
  else Settled l p.floor ⟨p.trackedBytes,p.trackedVmemChunks-reduction⟩

def Frame.Ok (l : Limits) (p : Process) : Frame → Prop
  | .cleanup found m newszChunk =>
      Settled l p.floor p.tracked ∧ (Frame.cleanup found m newszChunk).Waiting l p.floor
  | .reserveSession c n => c.Ok l p n
  | .revertQuery c n => c.Ok l p n
  | .reserveSegment c n _ => c.Ok l p n
  | .revertSession c n => c.Ok l p n
  | .revertSegment c n => c.Ok l p n
  | .releaseSegment all reduction => p.Shrinks l all reduction
  | .releaseSession all reduction => p.Shrinks l all reduction
  | .registerSession => Settled l p.floor p.tracked
  | .registerSegment => Settled l p.floor p.tracked
  | .unregisterSegment => Settled l p.floor p.tracked ∧ p.vmemTrackerInited=true ∧ p.frames.tail=[]
  | .unregisterSession => Settled l p.floor p.tracked ∧ p.vmemTrackerInited=true ∧ p.frames.tail=[]

def Process.TopOk (l : Limits) (p : Process) : Prop :=
  match p.frames with
  | [] => Settled l p.floor p.tracked
  | f::_ => f.Ok l p

structure ProcOk (l : Limits) (p : Process) : Prop where
  startup : p.startupBytes=l.chunksToBytes p.startupChunks
  startup_nonneg : 0≤p.startupChunks
  top : p.TopOk l
  below : ∀ f∈p.frames.tail, f.Waiting l p.floor

variable {l : Limits} {p : Process}

theorem Frame.Waiting.owes_nothing (h : f.Waiting l b) : f.inSession k=0 ∧ f.inSegment k=0 := by
  cases f with
  | cleanup found m newszChunk => exact ⟨rfl,rfl⟩
  | _ => exact h.elim

structure Idle (l : Limits) (p : Process) : Prop where
  startup : p.startupBytes=l.chunksToBytes p.startupChunks
  startup_nonneg : 0≤p.startupChunks
  settled : Settled l p.floor p.tracked
  waiting : ∀ f∈p.frames, f.Waiting l p.floor

namespace Idle

theorem inSession_eq (h : Idle l p) : p.inSession=p.trackedVmemChunks := by
  unfold Process.inSession
  split
  · rfl
  · next f rest hf =>
    have := (h.waiting f (by rw [hf]; exact mem_cons_self)).owes_nothing (k := p.startupChunks)
    omega

theorem inSegment_eq (h : Idle l p) : p.inSegment=p.trackedVmemChunks := by
  unfold Process.inSegment
  split
  · rfl
  · next f rest hf =>
    have := (h.waiting f (by rw [hf]; exact mem_cons_self)).owes_nothing (k := p.startupChunks)
    omega

theorem procOk (h : Idle l p) : ProcOk l p := by
  refine ⟨h.startup,h.startup_nonneg,?_,fun f hf => h.waiting f (mem_of_mem_tail hf)⟩
  unfold Process.TopOk
  split
  · exact h.settled
  · next f rest hf =>
    have hwait := h.waiting f (by rw [hf]; exact mem_cons_self)
    cases f with
    | cleanup found m newszChunk => exact ⟨h.settled,hwait⟩
    | _ => exact hwait.elim

end Idle

theorem ProcOk.idle (h : ProcOk l p) (hrun : p.isRunning) : Idle l p := by
  obtain ⟨hstar,hnon,htop,hbel⟩ := h
  unfold isRunning at hrun
  unfold Process.TopOk at htop
  split at hrun
  · next hf =>
    rw [hf] at htop
    exact ⟨hstar,hnon,htop,by simp [hf]⟩
  · next found m newszChunk rest hf =>
    rw [hf] at htop hbel
    refine ⟨hstar,hnon,htop.1,?_⟩
    intro f hmem
    rw [hf] at hmem
    obtain heq | hrest := mem_cons.mp hmem
    · rw [heq]
      exact htop.2
    · exact hbel f hrest
  · cases hrun

theorem ProcOk.idle_of_nil (h : ProcOk l p) (hf : p.frames=[]) : Idle l p :=
  h.idle (by simp [isRunning,hf])

structure Local (l : Limits) (p p' : Process) : Prop where
  ok : ProcOk l p'
  session : p'.session=p.session
  inSession : p'.inSession=p.inSession
  inSegment : p'.inSegment=p.inSegment

open Local

theorem Local.of_idle (h : Idle l p) (h' : Idle l p') (hses : p'.session=p.session)
    (hchk : p'.trackedVmemChunks=p.trackedVmemChunks) : Local l p p' where
  ok := h'.procOk
  session := hses
  inSession := by rw [h'.inSession_eq,h.inSession_eq,hchk]
  inSegment := by rw [h'.inSegment_eq,h.inSegment_eq,hchk]

theorem Local.push (h : Idle l p) (hf : p'.frames=f::p.frames)
    (hses : p'.session=p.session) (hchk : p'.trackedVmemChunks=p.trackedVmemChunks)
    (hflr : p'.floor=p.floor) (hstar : p'.startupBytes=p.startupBytes)
    (hsch : p'.startupChunks=p.startupChunks) (hok : f.Ok l p')
    (howes : f.inSession p.startupChunks=0 ∧ f.inSegment p.startupChunks=0) : Local l p p' where
  ok := {
    startup := by rw [hstar,hsch,h.startup]
    startup_nonneg := by rw [hsch]; exact h.startup_nonneg
    top := by
      unfold Process.TopOk
      rw [hf]
      exact hok
    below := by
      rw [hf,hflr]
      exact h.waiting }
  session := hses
  inSession := by
    rw [h.inSession_eq]
    simp only [Process.inSession,hf,hchk,hsch]
    omega
  inSegment := by
    rw [h.inSegment_eq]
    simp only [Process.inSegment,hf,hchk,hsch]
    omega

theorem Process.floor_eq (h : p.vmemTrackerInited=true) : p.floor=p.startupBytes := by
  simp [floor,h]

theorem Process.inited_of_isActivated (h : p.isActivated l=true) : p.vmemTrackerInited=true := by
  unfold isActivated at h
  split at h
  · exact (Bool.and_eq_true_iff.mp h).1
  · exact h

/-- A reservation starts with the chunks that the new bytes need. -/
theorem Idle.reserveVmem (h : Idle l p) (hm : 0 ≤ m)
    (hsmal : l.bytesToChunks (p.trackedBytes+m)<2147483648) : Local l p (p.reserveVmem l m) := by
  have hgrown := h.settled.add hm hsmal
  have hmono : p.trackedVmemChunks≤l.bytesToChunks (p.trackedBytes+m) := by
    have := l.bytesToChunks_mono (le_add_of_nonneg_right (a := p.trackedBytes) hm)
    have hchk : p.trackedVmemChunks=l.bytesToChunks p.trackedBytes := h.settled.exact
    omega
  unfold Process.reserveVmem
  split
  · next hact =>
    have hflr : 0≤p.floor := by
      rw [p.floor_eq (p.inited_of_isActivated hact),h.startup]
      exact l.chunksToBytes_nonneg h.startup_nonneg
    have hchk : 0≤l.bytesToChunks (p.trackedBytes+m) :=
      l.bytesToChunks_nonneg (le_trans hflr hgrown.startup)
    have hcast : int32 (l.bytesToChunks (p.trackedBytes+m))=l.bytesToChunks (p.trackedBytes+m) :=
      int32_eq ⟨by omega,hsmal⟩
    simp only [hcast]
    split
    · refine push h rfl rfl rfl rfl rfl rfl ?_ ⟨rfl,rfl⟩
      exact ⟨h.settled,h.settled,hm,rfl,hsmal⟩
    · next hfits =>
      refine of_idle h ?_ rfl rfl
      refine ⟨h.startup,h.startup_nonneg,?_,h.waiting⟩
      have heq : p.trackedVmemChunks=l.bytesToChunks (p.trackedBytes+m) := by omega
      exact ⟨heq,h.settled.small,hgrown.startup⟩
  · exact of_idle h ⟨h.startup,h.startup_nonneg,h.settled,h.waiting⟩ rfl rfl

/-- A release gives back the chunks that are not needed any more. -/
theorem Idle.releaseVmem (h : Idle l p) (hr : 0≤r) : Local l p (p.releaseVmem l r) := by
  have hself := of_idle h h rfl rfl
  unfold Process.releaseVmem
  split
  · exact hself
  · next hinit =>
    have hflr : p.floor=p.startupBytes := p.floor_eq (by simp at hinit; exact hinit.1)
    have hstar : 0≤p.startupBytes := by
      rw [h.startup]
      exact l.chunksToBytes_nonneg h.startup_nonneg
    have hbytes : p.startupBytes≤p.trackedBytes := hflr ▸ h.settled.startup
    dsimp only
    split
    · exact hself
    · generalize hf : min (p.trackedBytes-p.startupBytes) r=toBeFreed
      have hless : l.bytesToChunks (p.trackedBytes-toBeFreed)≤p.trackedVmemChunks := by
        rw [show p.trackedVmemChunks=l.bytesToChunks p.trackedBytes from h.settled.exact]
        exact l.bytesToChunks_mono (by omega)
      have hsmal : p.trackedVmemChunks<2147483648 := h.settled.small
      have hnon := l.bytesToChunks_nonneg (b := p.trackedBytes-toBeFreed) (by omega)
      have hroom : p.floor≤p.trackedBytes-toBeFreed := by omega
      simp only [int32_eq (x := l.bytesToChunks (p.trackedBytes-toBeFreed)) ⟨by omega,by omega⟩]
      split
      · next hlt =>
        refine push h rfl rfl rfl rfl rfl rfl ?_ ⟨rfl,rfl⟩
        show Settled l p.floor ⟨p.trackedBytes-toBeFreed,p.trackedVmemChunks-
          (p.trackedVmemChunks-l.bytesToChunks (p.trackedBytes-toBeFreed))⟩
        rw [sub_sub_self]
        exact ⟨rfl,lt_trans hlt hsmal,hroom⟩
      · next hge =>
        refine of_idle h ⟨h.startup,h.startup_nonneg,?_,h.waiting⟩ rfl rfl
        have heq : p.trackedVmemChunks=l.bytesToChunks (p.trackedBytes-toBeFreed) :=
          le_antisymm (not_lt.mp hge) hless
        exact ⟨heq,hsmal,hroom⟩

/-- Startup memory is tracked apart from the rest. -/
theorem Idle.registerStartupMemory (h : Idle l p) (hf : p.frames=[]) (hb : 0≤b)
    (hinit : p.vmemTrackerInited=true)
    (hsmal : p.trackedVmemChunks+l.bytesToChunks (b+l.chunkSizeInBytes-1)<2147483648) :
    Local l p (p.registerStartupMemory l b) := by
  have hsize := l.chunkSizeInBytes_pos
  have hnon := l.bytesToChunks_nonneg (b := b+l.chunkSizeInBytes-1) (by omega)
  have hflr : p.floor=p.startupBytes := p.floor_eq hinit
  have hstar : 0≤p.startupBytes := by
    rw [h.startup]
    exact l.chunksToBytes_nonneg h.startup_nonneg
  have hbytes : p.startupBytes≤p.trackedBytes := hflr ▸ h.settled.startup
  have hchk : p.trackedVmemChunks=l.bytesToChunks p.trackedBytes := h.settled.exact
  have htracked : 0≤p.trackedVmemChunks := by
    rw [hchk]
    exact l.bytesToChunks_nonneg (by omega)
  have hcast := int32_eq (x := l.bytesToChunks (b+l.chunkSizeInBytes-1)) ⟨by omega,by omega⟩
  simp only [Process.registerStartupMemory,hcast]
  generalize l.bytesToChunks (b+l.chunkSizeInBytes-1)=k at *
  constructor
  case ok =>
    refine ⟨rfl,hnon,?_,by simp [hf]⟩
    refine ⟨?_,hsmal,?_⟩
    · show p.trackedVmemChunks+k=l.bytesToChunks (p.trackedBytes+l.chunksToBytes k)
      rw [l.bytesToChunks_add,hchk]
    · simp only [Process.floor,hinit,tracked]
      show l.chunksToBytes k≤p.trackedBytes+l.chunksToBytes k
      omega
  case session => rfl
  case inSession =>
    rw [h.inSession_eq]
    show p.trackedVmemChunks+k+(-k)=p.trackedVmemChunks
    omega
  case inSegment =>
    rw [h.inSegment_eq]
    show p.trackedVmemChunks+k+(-k)=p.trackedVmemChunks
    omega

theorem ProcOk.reserveVmemAfterCleanup {found : Tracked} {rest : List Frame}
    (h : ProcOk l p) (hf : p.frames=.cleanup found m newszChunk::rest)
    (hsame : p.trackedBytes=found.bytes) (hp : p.reserveVmemAfterCleanup=some p') :
    Local l p p' := by
  have hidle : Idle l p := h.idle (by simp [isRunning,hf])
  have hbel := h.below
  rw [hf] at hbel
  have hwait : (Frame.cleanup found m newszChunk).Waiting l p.floor :=
    hidle.waiting _ (by rw [hf]; exact mem_cons_self)
  obtain ⟨hfnd,hm,hnew,hsmal⟩ := hwait
  have hchk : p.trackedVmemChunks=found.chunks := hidle.settled.chunks_eq hfnd hsame
  unfold Process.reserveVmemAfterCleanup at hp
  rw [hf] at hp
  cases hp
  have htgt : found.chunks+(newszChunk-p.trackedVmemChunks)=newszChunk := by omega
  constructor
  case ok =>
    refine ⟨h.startup,h.startup_nonneg,?_,hbel⟩
    refine ⟨congrArg (·+m) hsame,hchk,hfnd,?_⟩
    rw [htgt,hnew]
    exact hfnd.add hm (hnew ▸ hsmal)
  case session => rfl
  case inSession =>
    rw [hidle.inSession_eq]
    exact add_zero _
  case inSegment =>
    rw [hidle.inSegment_eq]
    exact add_zero _

theorem ProcOk.raise (h : ProcOk l p) (hp : p.raise=some p') : Local l p p' := by
  unfold Process.raise at hp
  split at hp
  · next found m newszChunk rest hf =>
    cases hp
    have hidle : Idle l p := h.idle (by simp [isRunning,hf])
    refine of_idle hidle ⟨h.startup,h.startup_nonneg,hidle.settled,?_⟩ rfl rfl
    intro f hmem
    exact hidle.waiting f (by rw [hf]; exact mem_cons_of_mem _ hmem)
  · cases hp

end

open Framework Local Option

variable {c : Caller} {rest : List Frame}

/-- What the next operation of a call adds to the session's and to the segment's counter. -/
def Frame.writes (startupChunks : Int) : Frame → Int × Int
  | .cleanup _ _ _ => (0, 0)
  | .reserveSession _ n => (n, 0)
  | .revertQuery _ n => (-n, 0)
  | .reserveSegment _ n _ => (0, n)
  | .revertSession _ n => (-n, 0)
  | .revertSegment _ n => (0, -n)
  | .releaseSegment _ reduction => (0, -reduction)
  | .releaseSession _ reduction => (-reduction, 0)
  | .registerSession => (startupChunks, 0)
  | .registerSegment => (0, startupChunks)
  | .unregisterSegment => (0, -startupChunks)
  | .unregisterSession => (-startupChunks, 0)

def Frame.found : Frame → Option Tracked
  | .cleanup found _ _ => some found
  | _ => none

namespace View

def WritesFit (v : View) : Prop :=
  ∀ f∈v.proc.frames.head?, Fits (v.sessionVmem+(f.writes v.proc.startupChunks).1) ∧
    Fits (v.segmentVmemChunks+(f.writes v.proc.startupChunks).2)
  deriving Decidable

def CleanupBalanced (v : View) : Prop :=
  ∀ found∈v.proc.frames.head?.bind Frame.found, v.proc.trackedBytes=found.bytes
  deriving Decidable

/-- The cleanup inside a reservation leaves the bytes as it found them, and no count of chunks
leaves the range of its counter. -/
def Orderly (l : Limits) (v : View) : Act → Prop
  | .reserveVmem n => l.bytesToChunks (v.proc.trackedBytes+n)<2147483648
  | .registerStartupMemory n =>
    v.proc.trackedVmemChunks+l.bytesToChunks (n+l.chunkSizeInBytes-1)<2147483648
  | .endCleanup => v.CleanupBalanced
  | .advance => v.WritesFit
  | _ => True

instance (l : Limits) (v : View) (a : Act) : Decidable (v.Orderly l a) := by
  cases a <;> unfold Orderly <;> infer_instance

end View

/-- A step keeps the local counters in order and writes to the shared ones what the process has in
them more or less. -/
structure Kept (l : Limits) (v w : View) : Prop where
  ok : ProcOk l w.proc
  session : w.proc.session=v.proc.session
  inSession : w.sessionVmem-w.proc.inSession=v.sessionVmem-v.proc.inSession
  inSegment : w.segmentVmemChunks-w.proc.inSegment=v.segmentVmemChunks-v.proc.inSegment

variable {v : View}

theorem Local.kept (h : Local l v.proc p') : Kept l v { v with proc := p' } where
  ok := h.ok
  session := h.session
  inSession := by rw [h.inSession]
  inSegment := by rw [h.inSegment]

section

variable (h : ProcOk l p) (hf : p.frames=f::rest)
include h hf

theorem ProcOk.goto (hg : f.Ok l p → g.Ok l { p with frames := g::rest }) :
    ProcOk l { p with frames := g::rest } := by
  have htop := h.top
  have hbel := h.below
  unfold Process.TopOk at htop
  rw [hf] at htop hbel
  exact ⟨h.startup,h.startup_nonneg,hg htop,hbel⟩

theorem ProcOk.top_of_cons : f.Ok l p := by
  have htop := h.top
  unfold Process.TopOk at htop
  rwa [hf] at htop

theorem ProcOk.below_of_cons : ∀ g∈rest, g.Waiting l p.floor := by
  have hbel := h.below
  rwa [hf] at hbel

theorem ProcOk.failed (hc : c.Ok l p n)
    (status : MemoryAllocationStatus) : Idle l (p.failed c rest status) ∧
      (p.failed c rest status).trackedVmemChunks=p.trackedVmemChunks := by
  have hbel := h.below_of_cons hf
  cases c with
  | reserveVmem found m =>
    obtain ⟨hbyt,hchk,hfound,-⟩ := hc
    refine ⟨⟨h.startup,h.startup_nonneg,?_,hbel⟩,rfl⟩
    have htrac : (p.failed (.reserveVmem found m) rest status).tracked=found := by
      simp only [failed,tracked,hbyt,hchk,Int.add_sub_cancel]
    rw [htrac]
    exact hfound
  | registerStartupMemory => exact ⟨⟨h.startup,h.startup_nonneg,hc.2,hbel⟩,rfl⟩

theorem ProcOk.granted (hc : c.Ok l p n) : Idle l (p.granted n waiverUsed rest) := by
  refine ⟨h.startup,h.startup_nonneg,?_,h.below_of_cons hf⟩
  show Settled l p.floor ⟨p.trackedBytes,p.trackedVmemChunks+n⟩
  cases c with
  | reserveVmem found m =>
    obtain ⟨hbyt,hchk,-,hgrown⟩ := hc
    rw [hbyt,hchk]
    exact hgrown
  | registerStartupMemory =>
    obtain ⟨rfl,hsettled⟩ := hc
    rw [add_zero]
    exact hsettled

theorem ProcOk.released {all : Bool}
    (hr : p.Shrinks l all reduction) : Idle l (p.released all reduction rest) := by
  refine ⟨h.startup,h.startup_nonneg,?_,h.below_of_cons hf⟩
  cases all with
  | true =>
    obtain ⟨rfl,hdown⟩ := hr
    show Settled l p.floor ⟨0,p.trackedVmemChunks-p.trackedVmemChunks⟩
    rw [sub_self,Process.floor,hdown]
    exact ⟨(zero_ediv _).symm,by decide,le_refl 0⟩
  | false => exact hr

end

theorem ProcOk.unregistered (h : ProcOk l p) (hs : Settled l p.floor p.tracked)
    (hinit : p.vmemTrackerInited=true) : Idle l (p.unregistered []) := by
  have hex : p.trackedVmemChunks=l.bytesToChunks p.trackedBytes := hs.exact
  have hfloor : p.startupBytes≤p.trackedBytes := p.floor_eq hinit ▸ hs.startup
  have hsmall : p.trackedVmemChunks<2147483648 := hs.small
  have hnonneg := h.startup_nonneg
  refine ⟨?_,le_refl 0,?_,by simp [Process.unregistered]⟩
  · exact (zero_mul _).symm
  · constructor
    case exact =>
      show p.trackedVmemChunks-p.startupChunks=l.bytesToChunks (p.trackedBytes-p.startupBytes)
      rw [h.startup,l.bytesToChunks_sub,hex]
    case small =>
      show p.trackedVmemChunks-p.startupChunks<2147483648
      omega
    case startup =>
      simp only [Process.floor,Process.unregistered,tracked,hinit,if_true]
      omega

theorem View.WritesFit.of_cons (h : v.WritesFit) (hf : v.proc.frames=f::rest) :
    Fits (v.sessionVmem+(f.writes v.proc.startupChunks).1) ∧
      Fits (v.segmentVmemChunks+(f.writes v.proc.startupChunks).2) :=
  h f (by rw [hf]; rfl)

open Kept

theorem Kept.of_goto (h : ProcOk l v.proc)
    (hf : v.proc.frames=f::rest) (hw : w.proc={ v.proc with frames := g::rest })
    (hg : f.Ok l v.proc → g.Ok l { v.proc with frames := g::rest })
    (hses : w.sessionVmem-g.inSession v.proc.startupChunks=
      v.sessionVmem-f.inSession v.proc.startupChunks)
    (hsegm : w.segmentVmemChunks-g.inSegment v.proc.startupChunks=
      v.segmentVmemChunks-f.inSegment v.proc.startupChunks) : Kept l v w := by
  constructor
  case ok =>
    rw [hw]
    exact h.goto hf hg
  case session => rw [hw]
  case inSession =>
    simp only [hw,Process.inSession,hf]
    omega
  case inSegment =>
    simp only [hw,Process.inSegment,hf]
    omega

theorem Kept.of_return (hf : v.proc.frames=f::rest)
    (hidle : Idle l w.proc) (hproc : w.proc.session=v.proc.session)
    (hses : w.sessionVmem-w.proc.trackedVmemChunks=
      v.sessionVmem-(v.proc.trackedVmemChunks+f.inSession v.proc.startupChunks))
    (hsegm : w.segmentVmemChunks-w.proc.trackedVmemChunks=
      v.segmentVmemChunks-(v.proc.trackedVmemChunks+f.inSegment v.proc.startupChunks)) :
    Kept l v w := by
  constructor
  case ok => exact hidle.procOk
  case session => exact hproc
  case inSession =>
    rw [hidle.inSession_eq,hses]
    simp only [Process.inSession,hf]
  case inSegment =>
    rw [hidle.inSegment_eq,hsegm]
    simp only [Process.inSegment,hf]

/-- A process goes on in the function that it is in. -/
theorem View.advance_kept (h : ProcOk l v.proc) (hfit : v.WritesFit)
    (hw : v.advance l=some w) : Kept l v w := by
  unfold View.advance at hw
  split at hw
  · next c n rest hf =>
    have hcast := int32_eq (hfit.of_cons hf).1
    simp only [Frame.writes] at hcast
    simp only [hcast] at hw
    have hgoto (g : Frame) (hg : (Frame.reserveSession c n).Ok l v.proc →
        g.Ok l { v.proc with frames := g::rest }) (hin : g.inSession v.proc.startupChunks=n)
        (hseg : g.inSegment v.proc.startupChunks=0) :
        Kept l v { v with
          proc := { v.proc with frames := g::rest }, sessionVmem := v.sessionVmem+n } := by
      refine of_goto h hf rfl hg ?_ ?_
      · rw [hin]
        simp only [Frame.inSession]
        omega
      · rw [hseg]
        rfl
    split at hw
    · split at hw
      · cases hw
        exact hgoto (.revertQuery c n) id rfl rfl
      · cases hw
        exact hgoto (.reserveSegment c n true) id rfl rfl
    · cases hw
      exact hgoto (.reserveSegment c n false) id rfl rfl
  · next c n rest hf =>
    have hcast := int32_eq (hfit.of_cons hf).1
    cases hw
    obtain ⟨hidle,hchk⟩ := h.failed hf (h.top_of_cons hf) .queryMemoryExhausted
    refine of_return hf hidle ?_ ?_ ?_
    · cases c <;> rfl
    · simp only [hchk,Frame.inSession]
      simp only [Frame.writes,← sub_eq_add_neg] at hcast
      omega
    · simp only [hchk,Frame.inSegment]
      omega
  · next c n waiverUsed rest hf =>
    have hcast := int32_eq (hfit.of_cons hf).2
    simp only [Frame.writes] at hcast
    simp only [hcast] at hw
    have hgrant (used : Bool) : Kept l v { v with
        proc := v.proc.granted n used rest, segmentVmemChunks := v.segmentVmemChunks+n } := by
      refine of_return hf (h.granted hf (h.top_of_cons hf)) rfl rfl ?_
      simp only [granted,Frame.inSegment]
      omega
    split at hw
    · split at hw
      · cases hw
        refine of_goto (g := .revertSession c n) h hf rfl id rfl ?_
        simp only [Frame.inSegment]
        omega
      · cases hw
        exact hgrant true
    · cases hw
      exact hgrant waiverUsed
  · next c n rest hf =>
    have hcast := int32_eq (hfit.of_cons hf).1
    cases hw
    refine of_goto (g := .revertSegment c n) h hf rfl id ?_ rfl
    simp only [Frame.writes,← sub_eq_add_neg] at hcast
    simp only [Frame.inSession]
    omega
  · next c n rest hf =>
    have hcast := int32_eq (hfit.of_cons hf).2
    cases hw
    obtain ⟨hidle,hchk⟩ := h.failed hf (h.top_of_cons hf) .vmemExhausted
    refine of_return hf hidle ?_ ?_ ?_
    · cases c <;> rfl
    · simp only [hchk,Frame.inSession]
      omega
    · simp only [Frame.writes,← sub_eq_add_neg] at hcast
      simp only [hchk,Frame.inSegment]
      omega
  · next all reduction rest hf =>
    have hcast := int32_eq (hfit.of_cons hf).2
    cases hw
    refine of_goto (g := .releaseSession all reduction) h hf rfl id rfl ?_
    simp only [Frame.writes,← sub_eq_add_neg] at hcast
    simp only [Frame.inSegment]
    omega
  · next all reduction rest hf =>
    have hcast := int32_eq (hfit.of_cons hf).1
    cases hw
    refine of_return hf (h.released hf (h.top_of_cons hf)) rfl ?_ ?_
    · simp only [Frame.writes,← sub_eq_add_neg] at hcast
      simp only [released,Frame.inSession]
      omega
    · simp only [released,Frame.inSegment]
      omega
  · next rest hf =>
    have hcast := int32_eq (hfit.of_cons hf).1
    cases hw
    refine of_goto (g := .registerSegment) h hf rfl id ?_ rfl
    simp only [Frame.writes] at hcast
    simp only [Frame.inSession]
    omega
  · next rest hf =>
    have hcast := int32_eq (hfit.of_cons hf).2
    cases hw
    refine of_goto (g := .reserveSession .registerStartupMemory 0) h hf rfl
      (fun hs => ⟨rfl,hs⟩) rfl ?_
    simp only [Frame.writes] at hcast
    simp only [Frame.inSegment]
    omega
  · next rest hf =>
    have hcast := int32_eq (hfit.of_cons hf).2
    cases hw
    refine of_goto (g := .unregisterSession) h hf rfl (fun hs => ?_) rfl ?_
    · exact ⟨hs.1,hs.2.1,by simpa [hf] using hs.2.2⟩
    · simp only [Frame.writes,← sub_eq_add_neg] at hcast
      simp only [Frame.inSegment]
      omega
  · next rest hf =>
    have hcast := int32_eq (hfit.of_cons hf).1
    obtain ⟨hsettled,hinit,hlast⟩ := h.top_of_cons hf
    obtain rfl : rest=[] := by simpa [hf] using hlast
    cases hw
    refine of_return hf (h.unregistered hsettled hinit) rfl ?_ ?_
    · simp only [Frame.writes,← sub_eq_add_neg] at hcast
      simp only [unregistered,Frame.inSession]
      omega
    · simp only [unregistered,Frame.inSegment]
      omega
  · cases hw
  · cases hw

/-- A process calls a function, or goes on in one. -/
theorem View.act_kept (h : ProcOk l v.proc) (horderly : v.Orderly l a)
    (hw : v.act l a=some w) : Kept l v w := by
  cases a with
  | reserveVmem n =>
    obtain ⟨hrun,rfl⟩ := of_guard hw
    exact ((h.idle hrun).reserveVmem (natCast_nonneg n) horderly).kept
  | releaseVmem n =>
    obtain ⟨hrun,rfl⟩ := of_guard hw
    exact ((h.idle hrun).releaseVmem (natCast_nonneg n)).kept
  | registerStartupMemory n =>
    obtain ⟨⟨hf,hinit⟩,rfl⟩ := of_guard hw
    have hidle := h.idle_of_nil hf
    exact (hidle.registerStartupMemory hf (natCast_nonneg n) hinit horderly).kept
  | unregisterStartupMemory =>
    obtain ⟨⟨hf,hinit⟩,rfl⟩ := of_guard hw
    have hidle := h.idle_of_nil hf
    apply kept
    refine push (f := .unregisterSegment) hidle ?_ rfl rfl rfl rfl rfl ?_ ⟨rfl,rfl⟩
    · rw [hf]
    · exact ⟨hidle.settled,hinit,rfl⟩
  | shutdown =>
    obtain ⟨⟨hf,hinit⟩,rfl⟩ := of_guard hw
    have hidle := h.idle_of_nil hf
    refine kept { ok := ?ok, session := rfl, inSession := ?ses, inSegment := ?seg }
    case ok => exact ⟨h.startup,h.startup_nonneg,⟨rfl,rfl⟩,by simp [shutdown,hf]⟩
    case ses =>
      rw [hidle.inSession_eq]
      exact add_zero _
    case seg =>
      rw [hidle.inSegment_eq]
      exact add_zero _
  | requestWaiver n | resetWaiver | setCritSectionCount n =>
    obtain ⟨hrun,rfl⟩ := of_guard hw
    have hidle := h.idle hrun
    apply kept
    exact of_idle hidle { hidle with } rfl rfl
  | activateResGroup =>
    obtain ⟨hf,rfl⟩ := of_guard hw
    have hidle := h.idle_of_nil hf
    apply kept
    exact of_idle hidle { hidle with } rfl rfl
  | endCleanup =>
    obtain ⟨p,hp,rfl⟩ := map_eq_some_iff.mp hw
    have hp' := hp
    unfold reserveVmemAfterCleanup at hp'
    split at hp'
    · next found m newszChunk rest hf =>
      have hsame : v.proc.trackedBytes=found.bytes := horderly found (by rw [hf]; rfl)
      exact (h.reserveVmemAfterCleanup hf hsame hp).kept
    · cases hp'
  | raise =>
    obtain ⟨p,hp,rfl⟩ := map_eq_some_iff.mp hw
    exact (h.raise hp).kept
  | advance => exact View.advance_kept h horderly hw

end WarehousePG.Vmem
