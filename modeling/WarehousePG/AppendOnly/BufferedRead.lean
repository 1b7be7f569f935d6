import Mathlib.Tactic.Linarith
import WarehousePG.Framework.Transition

namespace WarehousePG.AppendOnly

open Framework

/-- A file of blocks, and the lengths `BufferedReadInit` was given. -/
structure ReadSetting where
  blocks : List (List UInt8)
  maxBufferLen : Int
  maxLargeReadLen : Int
  buffer_pos : 0 < maxBufferLen
  buffer_le : maxBufferLen ≤ maxLargeReadLen

namespace ReadSetting

def fileLen (c : ReadSetting) : Int := c.blocks.flatten.length

def byteAt (c : ReadSetting) (off : Int) : UInt8 := c.blocks.flatten.getD off.toNat 0

def boundaries (c : ReadSetting) : List Int :=
  (List.range (c.blocks.length+1)).map fun k => ((c.blocks.take k).flatten.length : Int)

def Inside (c : ReadSetting) (off len : Int) : Prop := ∀ b∈c.boundaries, off<b → off+len≤b
  deriving Decidable

end ReadSetting

/-- `largeReadMemory` is at index 0 of `memory`, so the memory before it ends at -1. -/
structure BufferedRead where
  memory : Int → UInt8
  largeReadPosition : Int := 0
  largeReadLen : Int := 0
  bufferOffset : Int := 0
  bufferLen : Int := 0
  fileOff : Int := 0
  haveTemporaryLimitInEffect : Bool := false
  temporaryLimitFileLen : Int := 0

structure Buffer where
  start : Int
  len : Int
deriving DecidableEq

namespace BufferedRead

def inEffectFileLen (c : ReadSetting) (s : BufferedRead) : Int :=
  if s.haveTemporaryLimitInEffect then s.temporaryLimitFileLen else c.fileLen

def nextBufferPosition (s : BufferedRead) : Int := s.largeReadPosition+s.bufferOffset+s.bufferLen

def currentPosition (s : BufferedRead) : Int := s.largeReadPosition+s.bufferOffset

/-- A read beyond the end of the file is an error. -/
def io (c : ReadSetting) (s : BufferedRead) : Option BufferedRead :=
  if s.largeReadLen≤0 then some s
  else if s.fileOff+s.largeReadLen≤c.fileLen then
    some { s with
      memory := fun i => if 0 ≤ i ∧ i<s.largeReadLen then c.byteAt (s.fileOff+i) else s.memory i
      fileOff := s.fileOff+s.largeReadLen }
  else none

def readLen (c : ReadSetting) (remainingFileLen : Int) : Int :=
  if remainingFileLen>c.maxLargeReadLen then c.maxLargeReadLen else remainingFileLen

def setFile (c : ReadSetting) (memory : Int → UInt8) : Option BufferedRead :=
  { memory, largeReadLen := readLen c c.fileLen : BufferedRead }.io c

def useBeforeBuffer (c : ReadSetting) (maxReadAheadLen : Int) (s : BufferedRead) :
    Option (BufferedRead × Buffer) :=
  let nextPosition := s.largeReadPosition+s.largeReadLen
  if nextPosition=s.inEffectFileLen c then
    some ({ s with bufferLen := s.largeReadLen-s.bufferOffset },
      ⟨s.bufferOffset,s.largeReadLen-s.bufferOffset⟩)
  else
    let nextReadLen := readLen c (s.inEffectFileLen c-nextPosition)
    -- the length of a full read, whatever the length of the current one
    let beforeLen := c.maxLargeReadLen-s.bufferOffset
    if nextReadLen=0 ∨ c.maxBufferLen<beforeLen then none
    else
      ({ s with
        memory := fun i => if -beforeLen ≤ i ∧ i<0 then s.memory (i+beforeLen+s.bufferOffset)
          else s.memory i
        largeReadPosition := nextPosition
        largeReadLen := nextReadLen }.io c).map fun (t : BufferedRead) =>
      let len := beforeLen+min (maxReadAheadLen-beforeLen) nextReadLen
      ({ t with bufferOffset := -beforeLen, bufferLen := len },⟨-beforeLen,len⟩)

/-- How `BufferedReadGetNextBuffer` and `BufferedReadGrowBuffer` end. -/
def takeBuffer (c : ReadSetting) (maxReadAheadLen : Int) (s : BufferedRead) :
    Option (BufferedRead × Buffer) :=
  if s.bufferOffset+maxReadAheadLen>s.largeReadLen then s.useBeforeBuffer c maxReadAheadLen
  else some ({ s with bufferLen := maxReadAheadLen },⟨s.bufferOffset,maxReadAheadLen⟩)

def growBuffer (c : ReadSetting) (newMaxReadAheadLen : Int) (s : BufferedRead) :
    Option (BufferedRead × Buffer) := s.takeBuffer c newMaxReadAheadLen

def getNextBuffer (c : ReadSetting) (maxReadAheadLen : Int) (s : BufferedRead) :
    Option (BufferedRead × Option Buffer) :=
  let inEffect := s.inEffectFileLen c
  let s := { s with bufferOffset := s.bufferOffset+s.bufferLen, bufferLen := 0 }
  if s.largeReadPosition=inEffect then
    some ({ s with haveTemporaryLimitInEffect := false },none)
  else if s.bufferOffset=s.largeReadLen then
    let next := s.largeReadPosition+s.largeReadLen
    let s := { s with
      largeReadPosition := next, bufferOffset := 0, largeReadLen := readLen c (inEffect-next) }
    if s.largeReadLen=0 then some ({ s with haveTemporaryLimitInEffect := false },none)
    else (s.io c).map fun t =>
      let len := min maxReadAheadLen t.largeReadLen
      ({ t with bufferLen := len },some ⟨0,len⟩)
  else (s.takeBuffer c maxReadAheadLen).map fun r => (r.1,some r.2)

def Reuses (s : BufferedRead) (beginFileOffset : Int) : Prop :=
  s.largeReadPosition+min s.bufferOffset 0≤beginFileOffset ∧
    beginFileOffset<s.largeReadPosition+s.largeReadLen
  deriving Decidable

def setTemporaryRange (c : ReadSetting) (beginFileOffset afterFileOffset : Int)
    (s : BufferedRead) : Option BufferedRead :=
  let s := { s with bufferLen := 0 }
  (if s.Reuses beginFileOffset then
    some { s with bufferOffset := beginFileOffset-s.largeReadPosition }
  else { s with
    fileOff := beginFileOffset, bufferOffset := 0, largeReadPosition := beginFileOffset
    largeReadLen := readLen c (afterFileOffset-beginFileOffset) }.io c).map fun t =>
  { t with haveTemporaryLimitInEffect := true, temporaryLimitFileLen := afterFileOffset }

end BufferedRead

inductive ReadCall where
  | setTemporaryRange (beginFileOffset afterFileOffset : Int)
  | getNextBuffer (maxReadAheadLen : Int)
  | growBuffer (newMaxReadAheadLen : Int)

namespace ReadCall

def perform (c : ReadSetting) (s : BufferedRead) : ReadCall → Option (BufferedRead × Option Buffer)
  | setTemporaryRange b a => (s.setTemporaryRange c b a).map fun t => (t,none)
  | getNextBuffer n => s.getNextBuffer c n
  | growBuffer n => (s.growBuffer c n).map fun r => (r.1,some r.2)

/-- Ranges are of whole blocks, requests stay inside a block, and only a buffer that was
returned grows. -/
def Allowed (c : ReadSetting) (s : BufferedRead) : ReadCall → Prop
  | setTemporaryRange b a => b∈c.boundaries ∧ a∈c.boundaries ∧ b≤a
  | getNextBuffer n => (0<n ∧ n≤c.maxBufferLen) ∧ c.Inside s.nextBufferPosition n
  | growBuffer n => (0<s.bufferLen ∧ s.bufferLen<n ∧ n≤c.maxBufferLen) ∧
      c.Inside s.currentPosition n

instance (c : ReadSetting) (s : BufferedRead) : (a : ReadCall) → Decidable (a.Allowed c s)
  | setTemporaryRange _ _ | getNextBuffer _ | growBuffer _ => inferInstanceAs (Decidable (_ ∧ _))

def step (c : ReadSetting) (s : BufferedRead) (a : ReadCall) : Option BufferedRead :=
  if a.Allowed c s then (a.perform c s).map Prod.fst else none

/-- What a call must do: a buffer has the file's bytes, up to the limit at most, and only at
the limit is there no next buffer. -/
def Answers (c : ReadSetting) (s : BufferedRead) (a : ReadCall) (t : BufferedRead)
    (buffer : Option Buffer) : Prop :=
  (∀ b∈buffer, (∀ i, 0 ≤ i → i<b.len → t.memory (b.start+i)=c.byteAt (t.currentPosition+i)) ∧
    t.currentPosition+b.len ≤ s.inEffectFileLen c) ∧
  ∀ n, a=getNextBuffer n → (buffer=none ↔ s.inEffectFileLen c ≤ s.nextBufferPosition)

def Honoured (c : ReadSetting) (s : BufferedRead) (a : ReadCall) : Prop :=
  ∃ t buffer, a.perform c s=some (t,buffer) ∧ a.Answers c s t buffer

/-- A range that begins in the data still in the memory does not end before the large read. -/
def Fits (s : BufferedRead) : ReadCall → Prop
  | setTemporaryRange b a => s.Reuses b → s.largeReadPosition+s.largeReadLen≤a
  | _ => True

instance (s : BufferedRead) : (a : ReadCall) → Decidable (a.Fits s)
  | setTemporaryRange _ _ => inferInstanceAs (Decidable (_ → _))
  | getNextBuffer _ | growBuffer _ => instDecidableTrue

end ReadCall

variable {c : ReadSetting} {s t : BufferedRead}

open ReadSetting

theorem ReadSetting.le_fileLen (h : b∈c.boundaries) : b≤c.fileLen := by
  obtain ⟨k,-,rfl⟩ := List.mem_map.mp h
  unfold fileLen
  nth_rewrite 2 [← List.take_append_drop k c.blocks]
  rw [List.flatten_append,List.length_append,Nat.cast_add]
  exact le_add_of_nonneg_right (Int.natCast_nonneg _)

theorem ReadSetting.fileLen_mem : c.fileLen∈c.boundaries :=
  List.mem_map.mpr ⟨c.blocks.length,by simp,by simp [fileLen]⟩

namespace BufferedRead

structure ReadInv (c : ReadSetting) (s : BufferedRead) : Prop where
  limit : s.inEffectFileLen c∈c.boundaries
  data : ∀ i, min s.bufferOffset 0 ≤ i → i<s.largeReadLen →
    s.memory i=c.byteAt (s.largeReadPosition+i)
  read_le : s.largeReadPosition+s.largeReadLen ≤ s.inEffectFileLen c
  full : s.largeReadPosition+s.largeReadLen∈c.boundaries ∨ s.largeReadLen=c.maxLargeReadLen
  empty : s.largeReadLen=0 → s.bufferOffset=0 ∧ s.bufferLen=0
  len_nonneg : 0 ≤ s.largeReadLen
  bufferLen_nonneg : 0 ≤ s.bufferLen
  buffer_le : s.bufferOffset+s.bufferLen ≤ s.largeReadLen
  fileOff_eq : s.fileOff=s.largeReadPosition+s.largeReadLen

theorem readLen_spec (hr : 0≤r) : 0≤readLen c r ∧ readLen c r≤r ∧
    (readLen c r=0 → r=0) ∧ (readLen c r<r → readLen c r=c.maxLargeReadLen) ∧
    ∀ n≤c.maxBufferLen, n≤r → n≤readLen c r := by
  have hb := c.buffer_pos
  have hle := c.buffer_le
  unfold readLen
  split_ifs <;> refine ⟨?_,?_,?_,?_,fun n hn hr => ?_⟩ <;> omega

theorem full_of_read (hlim : lim∈c.boundaries) (hle : len≤lim-p)
    (hfull : len<lim-p → len=c.maxLargeReadLen) : p+len∈c.boundaries ∨ len=c.maxLargeReadLen := by
  rcases hle.lt_or_eq with hlt | heq
  · exact .inr (hfull hlt)
  · rw [heq,add_sub_cancel]
    exact .inl hlim

theorem io_spec (hlen : 0 ≤ s.largeReadLen) (hle : s.fileOff+s.largeReadLen≤c.fileLen) :
    ∃ m, s.io c=some { s with memory := m, fileOff := s.fileOff+s.largeReadLen } ∧
      (∀ i, 0 ≤ i → i<s.largeReadLen → m i=c.byteAt (s.fileOff+i)) ∧ ∀ i<0, m i=s.memory i := by
  unfold io
  split_ifs with h0
  · have hz : s.fileOff+s.largeReadLen=s.fileOff := by omega
    refine ⟨s.memory,?_,fun i hi hlt => by omega,fun _ _ => rfl⟩
    rw [hz]
  · refine ⟨_,rfl,fun i hi hlt => if_pos ⟨hi,hlt⟩,fun i hi => if_neg ?_⟩
    omega

theorem io_limit (lim : Int) : (s.io c).map (fun t => { t with
      haveTemporaryLimitInEffect := true, temporaryLimitFileLen := lim })
      ={ s with haveTemporaryLimitInEffect := true, temporaryLimitFileLen := lim }.io c := by
  unfold io
  split_ifs <;> rfl

structure Supplied (c : ReadSetting) (s t : BufferedRead) (n : Int) (b : Buffer) : Prop where
  inv : ReadInv c t
  start : b.start=t.bufferOffset
  len : b.len=n
  bufferLen : t.bufferLen=n
  position : t.currentPosition=s.currentPosition
  limit : t.inEffectFileLen c=s.inEffectFileLen c

section

variable (h : ReadInv c s) (hmax : n≤c.maxBufferLen)
include h hmax

/-- A request across the end of a read gets the rest of it and the next read behind it. -/
theorem ReadInv.useBeforeBuffer (hlt : s.bufferOffset<s.largeReadLen)
    (hins : c.Inside s.currentPosition n) (hover : s.largeReadLen<s.bufferOffset+n) :
    ∃ t b, s.useBeforeBuffer c n=some (t,b) ∧ Supplied c s t n b := by
  unfold currentPosition at hins
  have hfull : s.largeReadLen=c.maxLargeReadLen := by
    refine h.full.resolve_left fun hb => ?_
    have := hins _ hb (by omega)
    omega
  have hbl := c.buffer_le
  have hread := h.read_le
  have hfits := hins _ h.limit (by omega)
  have hlim := le_fileLen h.limit
  obtain ⟨hr0,hrle,hrz,hrfull,hrn⟩ := readLen_spec (c := c)
    (r := s.inEffectFileLen c-(s.largeReadPosition+s.largeReadLen)) (by omega)
  have hextra := hrn (n-(c.maxLargeReadLen-s.bufferOffset)) (by omega) (by omega)
  have hoff := h.fileOff_eq
  unfold BufferedRead.useBeforeBuffer
  rw [if_neg (by omega)]
  rw [if_neg (by omega)]
  generalize readLen c _=len at *
  obtain ⟨m,hio,hnew,hold⟩ := io_spec (c := c) (s := { s with
    memory := fun i => if -(c.maxLargeReadLen-s.bufferOffset) ≤ i ∧ i<0 then
      s.memory (i+(c.maxLargeReadLen-s.bufferOffset)+s.bufferOffset) else s.memory i
    largeReadPosition := s.largeReadPosition+s.largeReadLen, largeReadLen := len })
    hr0 (by dsimp only; omega)
  rw [hio,Option.map_some,min_eq_left hextra]
  refine ⟨_,_,rfl,?_,rfl,by dsimp only; omega,by dsimp only; omega,?_,rfl⟩
  · refine ⟨h.limit,fun i hi hlen => ?_,?_,full_of_read h.limit hrle hrfull,?_,hr0,?_,?_,?_⟩ <;>
      dsimp only at *
    · by_cases h0 : 0 ≤ i
      · rw [hnew i h0 hlen,hoff]
      · rw [hold i (by omega),if_pos (by omega),h.data _ (by omega) (by omega)]
        congr 1
        omega
    · change _ ≤ s.inEffectFileLen c
      omega
    all_goals omega
  · unfold currentPosition
    dsimp only
    omega

theorem ReadInv.takeBuffer (hn : 0<n) (hlt : s.bufferOffset<s.largeReadLen)
    (hins : c.Inside s.currentPosition n) :
    ∃ t b, s.takeBuffer c n=some (t,b) ∧ Supplied c s t n b := by
  unfold BufferedRead.takeBuffer
  split_ifs with hover
  · exact h.useBeforeBuffer hmax hlt hins hover
  · refine ⟨_,_,rfl,{ h with empty := fun h0 => ?_, bufferLen_nonneg := hn.le, buffer_le := ?_ },
      rfl,rfl,rfl,rfl,rfl⟩
    · rw [(h.empty h0).1] at hlt
      exact absurd h0 hlt.ne.symm
    · dsimp only
      omega

end

theorem ReadInv.forget (h : ReadInv c s) :
    ReadInv c { s with haveTemporaryLimitInEffect := false } :=
  { h with limit := fileLen_mem
           read_le := h.read_le.trans (le_fileLen h.limit) }

theorem ReadInv.atEnd (h : ReadInv c s)
    (hend : s.inEffectFileLen c=s.largeReadPosition+s.largeReadLen) : ReadInv c { s with
      largeReadPosition := s.largeReadPosition+s.largeReadLen, bufferOffset := 0, bufferLen := 0
      largeReadLen := 0 } := by
  refine ⟨h.limit,fun i hi hlt => ?_,?_,.inl ?_,fun _ => ⟨rfl,rfl⟩,le_rfl,le_rfl,le_rfl,?_⟩
  · exact absurd hlt hi.not_gt
  · exact (add_zero _).trans_le h.read_le
  · rw [add_zero,← hend]
    exact h.limit
  · exact h.fileOff_eq.trans (add_zero _).symm

theorem ReadInv.finish (h : ReadInv c s) :
    ReadInv c { s with bufferOffset := s.bufferOffset+s.bufferLen, bufferLen := 0 } := by
  have hl := h.bufferLen_nonneg
  refine { h with data := fun i hi => h.data i ?_, empty := fun h0 => ?_, bufferLen_nonneg := le_rfl
                  buffer_le := ?_ }
  · dsimp only at hi
    omega
  · obtain ⟨h1,h2⟩ := h.empty h0
    exact ⟨by dsimp only; omega,rfl⟩
  · exact (add_zero _).trans_le h.buffer_le

theorem ReadInv.reads (hlim : s.inEffectFileLen c∈c.boundaries)
    (hp : p ≤ s.inEffectFileLen c) (hpos : s.largeReadPosition=p) (hoff : s.bufferOffset=0)
    (hlen : s.largeReadLen=readLen c (s.inEffectFileLen c-p)) (hl : s.bufferLen=0)
    (hfile : s.fileOff=p) : ∃ m, s.io c=some { s with memory := m, fileOff := p+s.largeReadLen } ∧
      ReadInv c { s with memory := m, fileOff := p+s.largeReadLen } := by
  obtain ⟨hr0,hrle,-,hrfull,-⟩ := readLen_spec (c := c) (r := s.inEffectFileLen c-p) (by omega)
  rw [← hlen] at hr0 hrle hrfull
  have hend := le_fileLen hlim
  obtain ⟨m,hio,hm,-⟩ := io_spec hr0 (c := c) (by omega)
  rw [hfile] at hio hm
  refine ⟨m,hio,hlim,fun i hi hi' => ?_,?_,?_,fun _ => ⟨hoff,hl⟩,hr0,hl.ge,?_,by rw [hpos]⟩
  · rw [hoff] at hi
    rw [hpos]
    exact hm i hi hi'
  · change s.largeReadPosition+s.largeReadLen ≤ s.inEffectFileLen c
    omega
  · rw [hpos]
    exact full_of_read hlim hrle hrfull
  · change s.bufferOffset+s.bufferLen ≤ s.largeReadLen
    omega

/-- The next buffer is the file's bytes at the next position, up to the limit in effect. -/
theorem ReadInv.getNextBuffer (h : ReadInv c s) (hn : 0<n) (hmax : n≤c.maxBufferLen)
    (hins : c.Inside s.nextBufferPosition n) :
    (∃ t, s.getNextBuffer c n=some (t,none) ∧ ReadInv c t ∧
        s.inEffectFileLen c ≤ s.nextBufferPosition) ∨
      ∃ t b, s.getNextBuffer c n=some (t,some b) ∧ s.nextBufferPosition<s.inEffectFileLen c ∧
        Supplied c { s with bufferOffset := s.bufferOffset+s.bufferLen, bufferLen := 0 } t n b := by
  have hfin := h.finish
  have hlim := hins _ h.limit
  have hle := h.read_le
  unfold BufferedRead.getNextBuffer
  unfold nextBufferPosition at *
  dsimp only
  split_ifs with hend hall hzero
  · have h0 : s.largeReadLen=0 := by
      have := h.len_nonneg
      omega
    obtain ⟨h1,h2⟩ := h.empty h0
    exact .inl ⟨_,rfl,hfin.forget,by omega⟩
  · rw [hzero]
    have hz := (readLen_spec (c := c) (sub_nonneg.mpr hle)).2.2.1 hzero
    exact .inl ⟨_,rfl,(h.atEnd (sub_eq_zero.mp hz)).forget,by omega⟩
  · obtain ⟨hr0,hrle,-,-,hrn⟩ := readLen_spec (c := c) (sub_nonneg.mpr hle)
    obtain ⟨m,hio,hinv⟩ := ReadInv.reads (c := c) (s := { s with
      largeReadPosition := s.largeReadPosition+s.largeReadLen, bufferOffset := 0, bufferLen := 0
      largeReadLen := readLen c (s.inEffectFileLen c-(s.largeReadPosition+s.largeReadLen)) })
      h.limit hle rfl rfl rfl rfl h.fileOff_eq
    have hnlen := hrn n hmax (by omega)
    rw [hio,Option.map_some,min_eq_left hnlen]
    refine .inr ⟨_,_,rfl,by omega,?_,rfl,rfl,rfl,?_,rfl⟩
    · refine { hinv with empty := fun h0 => absurd h0 hzero, bufferLen_nonneg := hn.le
                         buffer_le := ?_ }
      exact (zero_add n).trans_le hnlen
    · unfold currentPosition
      dsimp only
      omega
  · have hlt := lt_of_le_of_ne h.buffer_le hall
    rw [add_assoc] at hins
    obtain ⟨t,b,ht,hb⟩ := hfin.takeBuffer hmax hn hlt hins
    rw [ht]
    exact .inr ⟨t,b,rfl,by omega,hb⟩

theorem ReadInv.setTemporaryRange (h : ReadInv c s) (ha : a∈c.boundaries) (hba : b≤a)
    (hfits : (ReadCall.setTemporaryRange b a).Fits s) :
    ∃ t, s.setTemporaryRange c b a=some t ∧ ReadInv c t := by
  unfold BufferedRead.setTemporaryRange
  dsimp only
  split_ifs with hr
  · obtain ⟨hlo,hhi⟩ := hr
    dsimp only at hlo hhi
    refine ⟨_,rfl,ha,fun i hi => h.data i ?_,hfits ⟨hlo,hhi⟩,h.full,fun h0 => ?_,h.len_nonneg,le_rfl,
      ?_,h.fileOff_eq⟩
    · dsimp only at hi
      omega
    · change s.largeReadLen=0 at h0
      have := (h.empty h0).1
      omega
    · dsimp only
      omega
  · rw [io_limit]
    obtain ⟨m,hio,hinv⟩ := ReadInv.reads (c := c) (s := { s with
      bufferLen := 0, fileOff := b, bufferOffset := 0, largeReadPosition := b
      largeReadLen := readLen c (a-b), haveTemporaryLimitInEffect := true
      temporaryLimitFileLen := a }) ha hba rfl rfl rfl rfl rfl
    exact ⟨_,hio,hinv⟩

theorem ReadInv.growBuffer (h : ReadInv c s) (hl : 0<s.bufferLen) (hn : s.bufferLen<n)
    (hmax : n≤c.maxBufferLen) (hins : c.Inside s.currentPosition n) :
    ∃ t b, s.growBuffer c n=some (t,b) ∧ Supplied c s t n b := by
  have hbuf := h.buffer_le
  exact h.takeBuffer hmax (hl.trans hn) (by omega) hins

theorem readInv_setFile (h : setFile c m=some s) : ReadInv c s := by
  have hmem : c.fileLen∈c.boundaries := fileLen_mem
  obtain ⟨m',hio,hinv⟩ := ReadInv.reads (c := c) (p := 0)
    (s := { memory := m, largeReadLen := readLen c c.fileLen }) hmem (Int.natCast_nonneg _) rfl rfl
    (congrArg (readLen c) (sub_zero _).symm) rfl rfl
  cases hio.symm.trans h
  exact hinv

theorem Supplied.holds (h : Supplied c s t n b) (h0 : 0 ≤ i) (hi : i<b.len) :
    t.memory (b.start+i)=c.byteAt (t.currentPosition+i) := by
  have hle := h.inv.buffer_le
  have hlen := h.len
  have hbl := h.bufferLen
  rw [h.start,h.inv.data _ (by omega) (by omega)]
  unfold currentPosition
  rw [add_assoc]

end BufferedRead

open BufferedRead

/-- One call keeps the reader in step with the file. -/
theorem ReadCall.perform_spec {a : ReadCall} (h : ReadInv c s) (hok : a.Allowed c s)
    (hfits : a.Fits s) : ∃ t buffer, a.perform c s=some (t,buffer) ∧ ReadInv c t ∧
      a.Answers c s t buffer := by
  cases a with
  | setTemporaryRange b a =>
    obtain ⟨t,ht,hinv⟩ := h.setTemporaryRange hok.2.1 hok.2.2 hfits
    refine ⟨t,none,?_,hinv,by simp,by simp⟩
    simp only [ReadCall.perform,ht,Option.map_some]
  | getNextBuffer n =>
    obtain ⟨⟨hn,hmax⟩,hins⟩ := hok
    rcases h.getNextBuffer hn hmax hins with ⟨t,ht,hinv,hend⟩ | ⟨t,b,ht,hlt,hb⟩
    · exact ⟨t,none,ht,hinv,by simp,fun _ _ => iff_of_true rfl hend⟩
    · refine ⟨t,some b,ht,hb.inv,?_,fun _ _ => iff_of_false (by simp) hlt.not_ge⟩
      rintro _ ⟨⟩
      refine ⟨fun i h0 hi => hb.holds h0 hi,?_⟩
      have hpos := hins _ h.limit hlt
      rw [hb.position,hb.len,currentPosition,← add_assoc]
      exact hpos
  | growBuffer n =>
    obtain ⟨⟨hl,hn,hmax⟩,hins⟩ := hok
    obtain ⟨t,b,ht,hb⟩ := h.growBuffer hl hn hmax hins
    refine ⟨t,some b,?_,hb.inv,?_,by simp⟩
    · simp only [ReadCall.perform,ht,Option.map_some]
    · rintro _ ⟨⟩
      refine ⟨fun i h0 hi => hb.holds h0 hi,?_⟩
      rw [← hb.limit,hb.len,← hb.bufferLen]
      exact (add_assoc _ _ _).trans_le ((Int.add_le_add_left hb.inv.buffer_le _).trans hb.inv.read_le)

theorem ReadCall.step_readInv {a : ReadCall} (h : ReadInv c s) (hfits : a.Fits s)
    (hs : a.step c s=some t) : ReadInv c t := by
  obtain ⟨hok,hs⟩ := Option.ite_none_right_eq_some.mp hs
  obtain ⟨u,buffer,hu,hinv,-⟩ := ReadCall.perform_spec h hok hfits
  rw [hu] at hs
  cases hs
  exact hinv

/-- Every call does what it must in a run none of whose ranges begins in the data still in the
memory and ends before the large read. -/
theorem temporary_range_honoured (calls : List ReadCall) {m : Int → UInt8} {s₀ : BufferedRead}
    (hfile : setFile c m=some s₀) (hfits : EveryStep (ReadCall.step c) ReadCall.Fits s₀ calls)
    (hrun : run (ReadCall.step c) s₀ calls=some s) {a : ReadCall} (hok : a.Allowed c s)
    (hfit : a.Fits s) : a.Honoured c s := by
  have hinv := run_invariant_of_everyStep (fun u b v hu hfit hv => ReadCall.step_readInv hu hfit hv)
    (readInv_setFile hfile) hfits hrun
  obtain ⟨t,buffer,hp,-,hspec⟩ := ReadCall.perform_spec hinv hok hfit
  exact ⟨t,buffer,hp,hspec⟩

def threeBlocks (n : Nat) : ReadSetting := ⟨[[1,2],[3,4],[5,6]],2,n+2,by decide,by omega⟩

theorem temporary_range_honoured_across : ∃ s₀ s, setFile (threeBlocks 1) (fun _ => 0)=some s₀ ∧
    run (ReadCall.step (threeBlocks 1)) s₀ [.setTemporaryRange 2 6,.getNextBuffer 1]=some s ∧
    (ReadCall.growBuffer 2).Honoured (threeBlocks 1) s :=
  ⟨_,_,rfl,rfl,temporary_range_honoured [.setTemporaryRange 2 6,.getNextBuffer 1]
    (m := fun _ => 0) rfl (by decide) rfl (by decide) trivial⟩

/-- The first block is read as a range of its own, out of a large read of the whole file: the
next request is answered with the second block. -/
theorem temporary_range_overrun : ∃ s₀ s t, setFile (threeBlocks 4) (fun _ => 0)=some s₀ ∧
    run (ReadCall.step (threeBlocks 4)) s₀ [.setTemporaryRange 0 2,.getNextBuffer 2]=some s ∧
    (ReadCall.getNextBuffer 2).Allowed (threeBlocks 4) s ∧
    s.inEffectFileLen (threeBlocks 4)=2 ∧ s.nextBufferPosition=2 ∧
    (ReadCall.getNextBuffer 2).perform (threeBlocks 4) s=some (t,some ⟨2,2⟩) ∧
    ¬(ReadCall.getNextBuffer 2).Honoured (threeBlocks 4) s := by
  refine ⟨_,_,_,rfl,rfl,by decide,rfl,rfl,rfl,?_⟩
  rintro ⟨t,buffer,hp,-,hnull⟩
  cases hp
  cases (hnull 2 rfl).mpr (by decide)

end WarehousePG.AppendOnly
