import WarehousePG.Framework.Bits
import Mathlib.Tactic.SplitIfs

namespace WarehousePG.BitmapCompression

open List
open Option (bind_eq_some_iff ite_none_left_eq_some ite_none_right_eq_some map_eq_some_iff)

/-- The lowest bits of a value, the highest of them first. -/
def bitsOf (v : Nat) : Nat → List Bool
  | 0 => []
  | bitCount+1 => v.testBit bitCount::bitsOf v bitCount

/-- `Bitstream_Put` into a stream that has room for some bits. -/
def put (room : Nat) (out : List Bool) (v bitCount : Nat) : Option (List Bool) :=
  if out.length+bitCount≤room then some (out++bitsOf v bitCount) else none

/-- `Bitstream_Get`: the value and the bits behind it. -/
def get (n : Nat) (bits : List Bool) : Option (Nat × List Bool) :=
  if n≤bits.length then some ((bits.take n).foldl (fun v b => v*2+b.toNat) 0,bits.drop n) else none

def skip (skipBitCount : Nat) (bits : List Bool) : Option (List Bool) :=
  if bits=[] then none else some (bits.drop skipBitCount)

inductive BitmapCompressionType where
  | no
  | default
  deriving DecidableEq

def flagZero : Nat := 0
def flagOne : Nat := 1
def flagRle : Nat := 2
def flagRaw : Nat := 3

def flagOf (blockData : Nat) : Nat :=
  if blockData=0 then flagZero else if blockData=0xFFFFFFFF then flagOne else flagRaw

structure Encoder where
  out : List Bool
  lastBlockData : Nat
  lastBlockFlag : Nat
  rleRepeatCount : Nat

section

variable (room : Nat)

def encodeRLE (out : List Bool) (rleRepeatCount lastBlockFlag : Nat) : Option (List Bool) :=
  if lastBlockFlag=flagRaw ∨ rleRepeatCount>4 then do
    let out ← put room out flagRle 2
    put room out (rleRepeatCount-1) 8
  else (replicate rleRepeatCount lastBlockFlag).foldlM (fun out flag => put room out flag 2) out

/-- What is left of a run is written. -/
def flush (e : Encoder) : Option (List Bool) :=
  if e.rleRepeatCount>0 then encodeRLE room e.out e.rleRepeatCount e.lastBlockFlag else some e.out

def putBlock (out : List Bool) (blockData : Nat) : Option Encoder :=
  (put room out (flagOf blockData) 2).bind fun out =>
    (if flagOf blockData=flagRaw then put room out blockData 32 else some out).map
      (⟨·,blockData,flagOf blockData,0⟩)

def compressBlocks : (i : Nat) → List Nat → Encoder → Option Encoder
  | _, [], e => some e
  | i, blockData::bitmap, e =>
    if blockData=e.lastBlockData ∧ e.rleRepeatCount≤255 ∧ i>0 then
      compressBlocks (i+1) bitmap { e with rleRepeatCount := e.rleRepeatCount+1 }
    else do
      let out ← flush room e
      let e ← putBlock room out blockData
      compressBlocks (i+1) bitmap e

def compressDefault (bitmap : List Nat) (out : List Bool) : Option (List Bool) :=
  (compressBlocks room 0 bitmap ⟨out,0,0,0⟩).bind (flush room)

def writeHeader (compressionType : BitmapCompressionType) (blockCount : Nat) :
    Option (List Bool) := do
  let out ← put room [] (if compressionType=.no then 0 else 1) 1
  put room (out++[false,false,false]) blockCount 12

/-- The output buffer is filled with zeroes at first. -/
def buffer (out : List Bool) : List Bool := out++replicate (room-out.length) false

end

/-- The bits of a word in memory, the low byte first. -/
def memoryBits (w : Nat) : List Bool :=
  bitsOf w 8++bitsOf (w/2^8) 8++bitsOf (w/2^16) 8++bitsOf (w/2^24) 8

def compressNo (bitmap : List Nat) (maxOutDataSize : Nat) : Option (List Bool × Nat) :=
  (writeHeader (8*maxOutDataSize) .no bitmap.length).map fun header =>
    (buffer (8*maxOutDataSize) (header++bitmap.flatMap memoryBits),bitmap.length*4+2)

/-- The bits of the output buffer, and the length in bytes. -/
def bitmapCompress (bitmap : List Nat) (maxOutDataSize : Nat) :
    BitmapCompressionType → Option (List Bool × Nat)
  | .no => compressNo bitmap maxOutDataSize
  | .default => do
    let header ← writeHeader (8*maxOutDataSize) .default bitmap.length
    match compressDefault (8*maxOutDataSize) bitmap header with
    | none => compressNo bitmap maxOutDataSize
    | some out => some (buffer (8*maxOutDataSize) out,(out.length+7)/8)

def readWords : Nat → List Bool → Option (List Nat)
  | 0, _ => some []
  | n+1, bits => do
    let (b0,bits) ← get 8 bits
    let (b1,bits) ← get 8 bits
    let (b2,bits) ← get 8 bits
    let (b3,bits) ← get 8 bits
    (readWords n bits).map ((b0+b1*2^8+b2*2^16+b3*2^24)::·)

/-- A block outside of a run, and how often it is still to be repeated. -/
def readBlock (lastBlockData : Nat) (bits : List Bool) : Option (Nat × Nat × List Bool) := do
  let (flag,bits) ← get 2 bits
  if flag=flagZero then some (0,0,bits)
  else if flag=flagOne then some (0xFFFFFFFF,0,bits)
  else if flag=flagRaw then (get 32 bits).map fun r => (r.1,0,r.2)
  else (get 8 bits).map fun r => (lastBlockData,r)

def prepend (blocks : List Nat) (r : List Nat × List Bool) : List Nat × List Bool :=
  (blocks++r.1,r.2)

/-- The blocks and the bits behind them; a read that fails is an error in the end. -/
def decompressDefault : Nat → (lastBlockData rleRepeatCount : Nat) → List Bool →
    Option (List Nat × List Bool)
  | 0, _, rleRepeatCount, bits => if rleRepeatCount>0 then none else some ([],bits)
  | n+1, lastBlockData, 0, bits => (readBlock lastBlockData bits).bind fun r =>
    (decompressDefault n r.1 r.2.1 r.2.2).map (prepend [r.1])
  | n+1, lastBlockData, rleRepeatCount+1, bits =>
    (decompressDefault n lastBlockData rleRepeatCount bits).map (prepend [lastBlockData])

/-- `BitmapDecompress_Init` and `BitmapDecompress_Decompress`: the stream ends behind `dataSize`
bytes of the memory, the copy of an uncompressed bitmap does not. -/
def bitmapDecompress (memory : List Bool) (dataSize bitmapDataSize : Nat) : Option (List Nat) := do
  let (compressionType,bits) ← get 1 (memory.take (8*dataSize))
  let bits ← skip 3 bits
  let (blockCount,bits) ← get 12 bits
  if blockCount>bitmapDataSize then none
  else if compressionType=0 then readWords blockCount (memory.drop 16)
  else (decompressDefault blockCount 0 0 bits).map (·.1)

@[simp] theorem length_bitsOf (v n : Nat) : (bitsOf v n).length=n := by
  induction n with
  | zero => rfl
  | succ n ih => simp [bitsOf,ih]

theorem foldl_bitsOf (v n a : Nat) :
    (bitsOf v n).foldl (fun v b => v*2+b.toNat) a=a*2^n+v%2^n := by
  induction n generalizing a with
  | zero => simp [bitsOf,Nat.mod_one]
  | succ n ih =>
    rw [bitsOf,foldl_cons,ih,Nat.pow_succ,Nat.mod_mul,Nat.toNat_testBit]
    grind

@[simp] theorem get_bitsOf (v n : Nat) (bits : List Bool) :
    get n (bitsOf v n++bits)=some (v%2^n,bits) := by
  rw [get,if_pos (by simp),take_left' (by simp),drop_left' (by simp),foldl_bitsOf]
  simp

theorem get_append (h : get n bits=some (v,rest)) (more : List Bool) :
    get n (bits++more)=some (v,rest++more) := by
  obtain ⟨hle,heq⟩ := ite_none_right_eq_some.mp h
  cases heq
  rw [get,if_pos (by simp; omega),take_append_of_le_length hle,drop_append_of_le_length hle]

theorem readBlock_append (h : readBlock last bits=some (v,c,rest)) (more : List Bool) :
    readBlock last (bits++more)=some (v,c,rest++more) := by
  obtain ⟨⟨flag,bits'⟩,hget,h⟩ := bind_eq_some_iff.mp h
  rw [readBlock,get_append hget]
  dsimp only at h
  simp only [Option.bind_eq_bind,Option.bind_some]
  split_ifs at h ⊢
  · cases h
    rfl
  · cases h
    rfl
  all_goals
    obtain ⟨⟨d,_⟩,hget',heq⟩ := map_eq_some_iff.mp h
    cases heq
    rw [get_append hget']
    rfl

theorem prepend_comp (a b : List Nat) : prepend a∘prepend b=prepend (a++b) := by
  funext r
  simp [prepend]

/-- A run that is still to be repeated ends within the blocks that are read, or is an error. -/
theorem decompress_repeated (c n last : Nat) (bits : List Bool) :
    decompressDefault n last c bits=if c≤n then
      (decompressDefault (n-c) last 0 bits).map (prepend (replicate c last)) else none := by
  induction c generalizing n with
  | zero => exact Option.map_id'.symm
  | succ c ih =>
    cases n with
    | zero => rfl
    | succ n =>
      rw [decompressDefault,ih]
      simp only [Nat.add_le_add_iff_right,Nat.add_sub_add_right]
      split
      · rw [Option.map_map,prepend_comp]
        rfl
      · rfl

/-- What the default encoding consists of: a word, or further copies of the word before. -/
inductive Item where
  | block (blockData : Nat)
  | rle (lastBlockData rleRepeatCount : Nat)

namespace Item

def words : Item → List Nat
  | block v => [v]
  | rle v c => replicate c v

def bits : Item → List Bool
  | block v => bitsOf (flagOf v) 2++if flagOf v=flagRaw then bitsOf v 32 else []
  | rle _ c => bitsOf flagRle 2++bitsOf (c-1) 8

end Item

/-- Few copies of zeroes or ones are written one by one. -/
def repeats (v c : Nat) : List Item :=
  if c=0 then [] else if flagOf v=flagRaw ∨ c>4 then [.rle v c] else replicate c (.block v)

def itemsFrom (v c : Nat) : List Nat → List Item
  | [] => repeats v c
  | w::bitmap =>
    if w=v ∧ c≤255 then itemsFrom v (c+1) bitmap else repeats v c++.block w::itemsFrom w 0 bitmap

/-- The items of the default encoding of a word list. -/
def items : List Nat → List Item
  | [] => []
  | v::bitmap => .block v::itemsFrom v 0 bitmap

/-- Each run repeats the word before it. -/
def Readable : Nat → List Item → Prop
  | _, [] => True
  | _, .block v::l => v<2^32 ∧ Readable v l
  | last, .rle v c::l => v=last ∧ 0 < c ∧ c≤256 ∧ Readable v l

section Items

variable {v c last : Nat} {l : List Item} {bitmap : List Nat}

theorem words_repeats (v c : Nat) : (repeats v c).flatMap Item.words=replicate c v := by
  unfold repeats
  split_ifs with hzero hrle
  · rw [hzero]
    rfl
  · simp [Item.words]
  · clear hzero hrle
    induction c with
    | zero => rfl
    | succ c ih => rw [replicate_succ,flatMap_cons,ih,replicate_succ]; rfl

theorem words_itemsFrom (v c : Nat) (bitmap : List Nat) :
    (itemsFrom v c bitmap).flatMap Item.words=replicate c v++bitmap := by
  induction bitmap generalizing v c with
  | nil => rw [itemsFrom,words_repeats,append_nil]
  | cons w bitmap ih =>
    rw [itemsFrom]
    split
    next h => rw [ih,h.1,replicate_succ',append_assoc]; rfl
    next => rw [flatMap_append,words_repeats,flatMap_cons,ih]; rfl

theorem words_items (bitmap : List Nat) : (items bitmap).flatMap Item.words=bitmap := by
  cases bitmap with
  | nil => rfl
  | cons v bitmap => rw [items,flatMap_cons,words_itemsFrom]; rfl

theorem readable_repeats (hv : v<2^32) (hc : c≤256) (h : Readable v l) :
    Readable v (repeats v c++l) := by
  unfold repeats
  split_ifs with hzero hrle
  · exact h
  · exact ⟨rfl,Nat.pos_of_ne_zero hzero,hc,h⟩
  · clear hzero hrle hc
    induction c with
    | zero => exact h
    | succ c ih => exact ⟨hv,ih⟩

theorem readable_itemsFrom (hv : v<2^32) (hc : c≤256) (h : ∀ w∈bitmap, w<2^32) :
    Readable v (itemsFrom v c bitmap) := by
  induction bitmap generalizing v c with
  | nil => simpa [itemsFrom] using readable_repeats hv hc (l := []) trivial
  | cons w bitmap ih =>
    obtain ⟨hw,h⟩ := forall_mem_cons.mp h
    rw [itemsFrom]
    split
    next hrep => exact ih hv (by omega) h
    next => exact readable_repeats hv hc ⟨hw,ih hw (by omega) h⟩

theorem readable_items (h : ∀ v∈bitmap, v<2^32) : Readable 0 (items bitmap) := by
  cases bitmap with
  | nil => trivial
  | cons v bitmap =>
    obtain ⟨hv,h⟩ := forall_mem_cons.mp h
    exact ⟨hv,readable_itemsFrom hv (by omega) h⟩

/-- An item is read as its word and the copies that are still to come. -/
theorem readBlock_item {item : Item} (h : Readable last (item::l)) :
    ∃ v c, item.words=replicate (c+1) v ∧ Readable v l ∧
      ∀ rest, readBlock last (item.bits++rest)=some (v,c,rest) := by
  cases item with
  | block v =>
    refine ⟨v,0,rfl,h.2,fun rest => ?_⟩
    have hv : v<2^32 := h.1
    rw [readBlock,Item.bits,append_assoc,get_bitsOf]
    unfold flagOf
    split_ifs <;> simp_all [flagZero,flagOne,flagRaw]
  | rle v c =>
    obtain ⟨rfl,hpos,hc,hl⟩ := h
    obtain ⟨c,rfl⟩ := Nat.exists_eq_add_of_lt hpos
    refine ⟨v,c,by simp [Item.words],hl,fun rest => ?_⟩
    rw [readBlock,Item.bits,append_assoc,get_bitsOf]
    simp [flagRle,flagRaw,flagZero,flagOne]
    omega

theorem readBlock_cut {item : Item} (h : Readable last (item::l)) (hj : j < item.bits.length) :
    readBlock last (item.bits.take j)=none := by
  obtain ⟨v,c,-,-,hread⟩ := readBlock_item h
  rw [Option.eq_none_iff_forall_ne_some]
  rintro ⟨v',c',rest⟩ hsome
  have hall := readBlock_append hsome (item.bits.drop j)
  have hfull := hread []
  rw [append_nil] at hfull
  rw [take_append_drop,hfull] at hall
  simp at hall
  omega

/-- All the items are read as their words, and what follows them is left. -/
theorem decompress_items (h : Readable last l) (rest : List Bool) :
    decompressDefault (l.flatMap Item.words).length last 0 (l.flatMap Item.bits++rest)=
      some (l.flatMap Item.words,rest) := by
  induction l generalizing last with
  | nil => rfl
  | cons item l ih =>
    obtain ⟨v,c,hwords,hl,hread⟩ := readBlock_item h
    have hlen : ((item::l).flatMap Item.words).length=c+(l.flatMap Item.words).length+1 := by
      rw [flatMap_cons,length_append,hwords,length_replicate]
      omega
    rw [hlen,flatMap_cons,append_assoc,decompressDefault,hread,Option.bind_some,
      decompress_repeated,if_pos (Nat.le_add_right _ _),Nat.add_sub_cancel_left,ih hl]
    simp [prepend,hwords,replicate_succ]

/-- From bits that are cut off, `n` blocks are read exactly where some of the items at the front
are complete and have that many words. -/
theorem decompress_cut (h : Readable last l) (n j : Nat) :
    (decompressDefault n last 0 ((l.flatMap Item.bits).take j)).isSome ↔
      ∃ front, front <+: l ∧ (front.flatMap Item.words).length=n ∧
        (front.flatMap Item.bits).length≤j := by
  cases n with
  | zero => exact iff_of_true rfl ⟨[], nil_prefix,rfl,Nat.zero_le j⟩
  | succ n =>
    induction l generalizing last n j with
    | nil =>
      refine iff_of_false (by simp [decompressDefault,readBlock,get]) ?_
      rintro ⟨front,hfront,hlen,-⟩
      simp [prefix_nil.mp hfront] at hlen
    | cons item l ih =>
      obtain ⟨v,c,hwords,hl,hread⟩ := readBlock_item h
      have hfront : (∃ front, front <+: item::l ∧ (front.flatMap Item.words).length=n+1 ∧
          (front.flatMap Item.bits).length≤j) ↔ ∃ front, front <+: l ∧
            c+(front.flatMap Item.words).length=n ∧
            item.bits.length+(front.flatMap Item.bits).length≤j := by
        constructor
        · rintro ⟨front,hpre,hlen,hbits⟩
          cases front with
          | nil => cases hlen
          | cons first front =>
            obtain ⟨heq,hpre⟩ := cons_prefix_cons.mp hpre
            rw [heq,flatMap_cons,length_append] at hlen hbits
            rw [hwords,length_replicate] at hlen
            exact ⟨front,hpre,by omega,hbits⟩
        · rintro ⟨front,hpre,hlen,hbits⟩
          refine ⟨item::front,cons_prefix_cons.mpr ⟨rfl,hpre⟩,?_⟩
          rw [flatMap_cons,flatMap_cons,length_append,length_append,hwords,length_replicate]
          exact ⟨by omega,hbits⟩
      rw [hfront,flatMap_cons,take_append,decompressDefault]
      by_cases hj : j < item.bits.length
      · rw [Nat.sub_eq_zero_of_le (Nat.le_of_lt hj),take_zero,append_nil,readBlock_cut h hj]
        refine iff_of_false (by simp) ?_
        rintro ⟨front,-,-,hbits⟩
        omega
      rw [take_of_length_le (by omega),hread,Option.bind_some,decompress_repeated]
      dsimp only
      split
      next hle =>
        simp only [Option.map_map,Option.isSome_map]
        obtain ⟨k,rfl⟩ := Nat.exists_eq_add_of_le hle
        rw [Nat.add_sub_cancel_left]
        cases k with
        | zero =>
          refine iff_of_true rfl ⟨[], nil_prefix,rfl,?_⟩
          simp
          omega
        | succ k =>
          rw [ih hl]
          refine exists_congr fun front => and_congr_right fun _ => ?_
          omega
      next hlt =>
        refine iff_of_false (by simp) ?_
        rintro ⟨front,-,hlen,-⟩
        exact hlt (hlen ▸ Nat.le_add_right _ _)

theorem front_eq (h : Readable last l) (hfront : front <+: l)
    (hlen : (front.flatMap Item.words).length=(l.flatMap Item.words).length) : front=l := by
  have hne : ∀ item∈l, item.words≠[] := by
    clear hfront hlen
    induction l generalizing last with
    | nil => nofun
    | cons item l ih =>
      obtain ⟨v,c,hwords,hl,-⟩ := readBlock_item h
      exact forall_mem_cons.mpr ⟨by simp [hwords],ih hl⟩
  obtain ⟨rest,rfl⟩ := hfront
  rw [flatMap_append,length_append,Nat.left_eq_add,length_eq_zero_iff,flatMap_eq_nil_iff] at hlen
  cases rest with
  | nil => rw [append_nil]
  | cons item rest => exact absurd (hlen item mem_cons_self) (hne item (by simp))

end Items

section

variable {room : Nat} {out out' header : List Bool}

theorem put_spec (h : put room out v n=some out') : out'=out++bitsOf v n ∧ out'.length≤room := by
  obtain ⟨hle,heq⟩ := ite_none_right_eq_some.mp h
  cases heq
  simpa using hle

theorem encodeRLE_eq (h : encodeRLE room out c (flagOf v)=some out') (hc : 0 < c) :
    out'=out++(repeats v c).flatMap Item.bits ∧ out'.length≤room := by
  rw [encodeRLE] at h
  rw [repeats,if_neg (by omega)]
  split_ifs at h ⊢ with hraw
  · obtain ⟨mid,hmid,hput⟩ := bind_eq_some_iff.mp h
    obtain ⟨rfl,-⟩ := put_spec hmid
    obtain ⟨rfl,hlen⟩ := put_spec hput
    exact ⟨by simp [Item.bits],hlen⟩
  · have hflag : flagOf v≠flagRaw := fun heq => hraw (.inl heq)
    clear hraw
    induction c generalizing out with
    | zero => omega
    | succ c ih =>
      rw [replicate_succ,foldlM_cons] at h
      obtain ⟨mid,hmid,h⟩ := bind_eq_some_iff.mp h
      obtain ⟨rfl,hlen⟩ := put_spec hmid
      obtain rfl | hpos := Nat.eq_zero_or_pos c
      · cases h
        exact ⟨by simp [Item.bits,hflag],hlen⟩
      · obtain ⟨rfl,hlen⟩ := ih hpos h
        exact ⟨by simp [Item.bits,hflag,replicate_succ],hlen⟩

theorem flush_eq {e : Encoder} (h : flush room e=some out)
    (hflag : e.lastBlockFlag=flagOf e.lastBlockData) (hlen : e.out.length≤room) :
    out=e.out++(repeats e.lastBlockData e.rleRepeatCount).flatMap Item.bits ∧
      out.length≤room := by
  rw [flush,hflag] at h
  split_ifs at h with hpos
  · exact encodeRLE_eq h hpos
  · cases h
    rw [show e.rleRepeatCount=0 by omega]
    exact ⟨by simp [repeats],hlen⟩

theorem putBlock_eq {e : Encoder} (h : putBlock room out v=some e) :
    e=⟨out++(Item.block v).bits,v,flagOf v,0⟩ ∧ e.out.length≤room := by
  obtain ⟨mid,hmid,h⟩ := bind_eq_some_iff.mp h
  obtain ⟨out',hput,rfl⟩ := map_eq_some_iff.mp h
  obtain ⟨rfl,hlen⟩ := put_spec hmid
  split_ifs at hput with hraw
  · obtain ⟨rfl,hlen⟩ := put_spec hput
    exact ⟨by simp [Item.bits,hraw],hlen⟩
  · cases hput
    exact ⟨by simp [Item.bits,hraw],hlen⟩

/-- After the first word the loop and the last flush write the items that follow a word repeated
some times. -/
theorem compressBlocks_eq {e e' : Encoder} {bitmap : List Nat} (hi : 0 < i)
    (h : compressBlocks room i bitmap e=some e') (hflush : flush room e'=some out)
    (hflag : e.lastBlockFlag=flagOf e.lastBlockData) (hlen : e.out.length≤room) :
    out=e.out++(itemsFrom e.lastBlockData e.rleRepeatCount bitmap).flatMap Item.bits ∧
      out.length≤room := by
  induction bitmap generalizing i e with
  | nil =>
    cases h
    exact flush_eq hflush hflag hlen
  | cons v bitmap ih =>
    rw [compressBlocks] at h
    rw [itemsFrom]
    by_cases hrep : v=e.lastBlockData ∧ e.rleRepeatCount≤255
    · rw [if_pos ⟨hrep.1,hrep.2,hi⟩] at h
      rw [if_pos hrep]
      exact ih (Nat.succ_pos i) h hflag hlen
    · rw [if_neg fun hc => hrep ⟨hc.1,hc.2.1⟩] at h
      rw [if_neg hrep]
      obtain ⟨out',hout',hblock⟩ := bind_eq_some_iff.mp h
      obtain ⟨e₁,hput,hrest⟩ := bind_eq_some_iff.mp hblock
      obtain ⟨rfl,-⟩ := flush_eq hout' hflag hlen
      obtain ⟨rfl,hlen⟩ := putBlock_eq hput
      obtain ⟨rfl,hlen⟩ := ih (Nat.succ_pos i) hrest rfl hlen
      exact ⟨by simp,hlen⟩

theorem compressDefault_eq (h : compressDefault room bitmap header=some out)
    (hheader : header.length≤room) :
    out=header++(items bitmap).flatMap Item.bits ∧ out.length≤room := by
  obtain ⟨e,he,hflush⟩ := bind_eq_some_iff.mp h
  cases bitmap with
  | nil =>
    cases he
    cases hflush
    exact ⟨by simp [items],hheader⟩
  | cons v bitmap =>
    rw [compressBlocks,if_neg (by simp)] at he
    obtain ⟨out',hout,he⟩ := bind_eq_some_iff.mp he
    cases hout
    obtain ⟨e₁,hput,he⟩ := bind_eq_some_iff.mp he
    obtain ⟨rfl,hlen⟩ := putBlock_eq hput
    obtain ⟨rfl,hlen⟩ := compressBlocks_eq Nat.one_pos he hflush rfl hlen
    exact ⟨by simp [items],hlen⟩

end

/-- The bits of a header. -/
def headerBits (compressionType blockCount : Nat) : List Bool :=
  bitsOf compressionType 1++[false,false,false]++bitsOf blockCount 12

@[simp] theorem length_headerBits (t n : Nat) : (headerBits t n).length=16 := by
  simp [headerBits]

theorem writeHeader_eq (h : 16≤room) (t : BitmapCompressionType) (n : Nat) :
    writeHeader room t n=some (headerBits (if t=.no then 0 else 1) n) := by
  simp [writeHeader,put,headerBits,show 1≤room by omega,h]

/-- The number of words is kept in 12 bits. -/
theorem bitmapDecompress_header (h : memory.take (8*dataSize)=headerBits t n++bits)
    (words : Nat) : bitmapDecompress memory dataSize words=
      if n%4096>words then none else if t%2=0 then readWords (n%4096) (memory.drop 16)
      else (decompressDefault (n%4096) 0 0 bits).map (·.1) := by
  simp only [bitmapDecompress,h,headerBits,append_assoc,get_bitsOf,Option.bind_eq_bind,
    Option.bind_some]
  simp [skip]

theorem bitmapDecompress_cut_header (hk : dataSize<2) (words : Nat) :
    bitmapDecompress memory dataSize words=none := by
  have hlen : (memory.take (8*dataSize)).length<16 := by rw [length_take]; omega
  rw [bitmapDecompress,Option.eq_none_iff_forall_ne_some]
  intro blocks h
  obtain ⟨⟨_,_⟩,h1,h⟩ := bind_eq_some_iff.mp h
  obtain ⟨_,h2,h⟩ := bind_eq_some_iff.mp h
  obtain ⟨⟨_,_⟩,h3,-⟩ := bind_eq_some_iff.mp h
  cases (ite_none_right_eq_some.mp h1).2
  cases (ite_none_left_eq_some.mp h2).2
  have hle := (ite_none_right_eq_some.mp h3).1
  rw [length_drop,length_drop] at hle
  omega

theorem length_flatMap_memoryBits (l : List Nat) :
    (l.flatMap memoryBits).length=32*l.length := by
  induction l with
  | nil => rfl
  | cons v l ih =>
    rw [flatMap_cons,length_append,ih,length_cons]
    simp [memoryBits]
    omega

theorem take_header (hk : 2≤k) (hle : 8*k≤16+bits.length) (t n : Nat) (pad : List Bool) :
    (headerBits t n++bits++pad).take (8*k)=headerBits t n++bits.take (8*k-16) := by
  rw [take_append_of_le_length (by simp; omega),take_append,take_of_length_le (by simp; omega),
    length_headerBits]

theorem readWords_isSome (h : 32*n≤bits.length) : (readWords n bits).isSome := by
  induction n generalizing bits with
  | zero => rfl
  | succ n ih =>
    have hget : ∀ l : List Bool, 8≤l.length → get 8 l=some (_,l.drop 8) := fun l hl => if_pos hl
    simp only [readWords,hget bits (by omega),hget (bits.drop 8) (by simp; omega),drop_drop,
      hget (bits.drop 16) (by simp; omega),hget (bits.drop 24) (by simp; omega),
      Option.bind_eq_bind,Option.bind_some,Option.isSome_map]
    exact ih (by simp; omega)

/-- The two forms of a compressed bitmap, with its length in bytes. -/
inductive Compressed (bitmap : List Nat) : List Bool → Nat → Prop
  | no (pad : List Bool) :
    Compressed bitmap (headerBits 0 bitmap.length++bitmap.flatMap memoryBits++pad)
      (bitmap.length*4+2)
  | default (pad : List Bool)
    (hlen : 16+((items bitmap).flatMap Item.bits).length≤8*len ∧
      8*len<24+((items bitmap).flatMap Item.bits).length) :
    Compressed bitmap (headerBits 1 bitmap.length++(items bitmap).flatMap Item.bits++pad) len

section

variable {bitmap : List Nat} {size : Nat} (t : BitmapCompressionType)
  (hwords : ∀ v∈bitmap, v<2^32) (hsize : bitmap.length*4+2 ≤ size)

include hsize in
theorem compressNo_eq : compressNo bitmap size=some (buffer (8*size)
    (headerBits 0 bitmap.length++bitmap.flatMap memoryBits),bitmap.length*4+2) := by
  rw [compressNo,writeHeader_eq (by omega)]
  rfl

include hsize

/-- What is written lies in one of the two forms in a buffer of the given size. -/
theorem bitmapCompress_compressed :
    ∃ out len, bitmapCompress bitmap size t=some (out,len) ∧
      len ≤ size ∧ out.length=8*size ∧ Compressed bitmap out len := by
  have hbuffer : ∀ out : List Bool, out.length≤8*size → (buffer (8*size) out).length=8*size := by
    intro out hout
    simp [buffer,hout]
  have hraw : (headerBits 0 bitmap.length++bitmap.flatMap memoryBits).length≤8*size := by
    rw [length_append,length_headerBits,length_flatMap_memoryBits]
    omega
  have hheader := writeHeader_eq (show 16≤8*size by omega) .default bitmap.length
  cases t with
  | no => exact ⟨_,_,compressNo_eq hsize,hsize,hbuffer _ hraw,.no _⟩
  | default =>
    simp only [bitmapCompress,hheader,Option.bind_eq_bind,Option.bind_some,reduceCtorEq,if_false]
    cases hout : compressDefault (8*size) bitmap (headerBits 1 bitmap.length) with
    | none => exact ⟨_,_,compressNo_eq hsize,hsize,hbuffer _ hraw,.no _⟩
    | some out =>
      obtain ⟨rfl,hlen⟩ := compressDefault_eq hout (by simp; omega)
      refine ⟨_,_,rfl,?_,hbuffer _ hlen,.default _ ?_⟩
      · omega
      · rw [length_append,length_headerBits]
        omega

include hwords

/-- What was compressed, with either compression type, is read back from exactly its bytes. -/
theorem compress_round_trip (hcount : bitmap.length≤4095) :
    ∃ out len, bitmapCompress bitmap size t=some (out,len) ∧
      len ≤ size ∧
      bitmapDecompress (out.take (8*len)) len bitmap.length=some bitmap := by
  obtain ⟨out,len,hcompress,hlen,-,hform⟩ := bitmapCompress_compressed t hsize
  have hmod : bitmap.length%4096=bitmap.length := Nat.mod_eq_of_lt (by omega)
  refine ⟨out,len,hcompress,hlen,?_⟩
  cases hform with
  | no pad =>
    have hread : ∀ l : List Nat, (∀ v∈l, v<2^32) →
        readWords l.length (l.flatMap memoryBits)=some l := by
      intro l hl
      induction l with
      | nil => rfl
      | cons v l ih =>
        obtain ⟨hv,hl⟩ := forall_mem_cons.mp hl
        simp only [length_cons,readWords,flatMap_cons,memoryBits,append_assoc,get_bitsOf,
          Option.bind_eq_bind,Option.bind_some,ih hl,Option.map_some]
        congr
        omega
    have hbits := length_flatMap_memoryBits bitmap
    rw [take_left' (by simp [hbits]; omega),bitmapDecompress_header
      (take_of_length_le (by simp [hbits]; omega)),hmod,if_neg (by omega),if_pos rfl,
      drop_left' (by simp),hread bitmap hwords]
  | @default len pad hbits =>
    have htake : (headerBits 1 bitmap.length++(items bitmap).flatMap Item.bits++pad).take (8*len)=
        headerBits 1 bitmap.length++((items bitmap).flatMap Item.bits++
          pad.take (8*len-(16+((items bitmap).flatMap Item.bits).length))) := by
      rw [take_append,take_of_length_le (by rw [length_append,length_headerBits]; exact hbits.1),
        append_assoc,length_append,length_headerBits]
    have hread := decompress_items (readable_items hwords)
    rw [words_items] at hread
    rw [bitmapDecompress_header (by rw [take_take,Nat.min_self,htake]),hmod,if_neg (by omega),
      if_neg (by decide),hread,Option.map_some]

/-- A strict prefix is rejected, whatever follows it in memory, exactly where it ends in the header,
the words of the header do not fit in the given room, or it was written with compression and no
complete items at the front have as many words as the header says. The last holds of every list of
at most 4095 words. -/
theorem truncated_rejected (hcompress : bitmapCompress bitmap size t=some (out,len)) (hk : k<len)
    (words : Nat) : (∀ memory, memory.take (8*k)=out.take (8*k) →
        bitmapDecompress memory k words=none) ↔
      k<2 ∨ words<bitmap.length%4096 ∨ out.head?=some true ∧ (bitmap.length≤4095 ∨
        ∀ front, front <+: items bitmap →
          (front.flatMap Item.words).length=bitmap.length%4096 →
          8*k<16+(front.flatMap Item.bits).length) := by
  obtain ⟨_,_,hcompress',-,hout,hform⟩ := bitmapCompress_compressed t hsize
  cases hcompress.symm.trans hcompress'
  by_cases hk2 : k<2
  · exact iff_of_true (fun memory _ => bitmapDecompress_cut_header hk2 words) (.inl hk2)
  cases hform with
  | no pad =>
    have hbits := length_flatMap_memoryBits bitmap
    have htake := @take_header k (bitmap.flatMap memoryBits) (by omega) (by omega) 0 bitmap.length
      pad
    by_cases hfew : words<bitmap.length%4096
    · refine iff_of_true (fun memory hmemory => ?_) (.inr (.inl hfew))
      rw [bitmapDecompress_header (hmemory.trans htake),if_pos hfew]
    · refine iff_of_false (fun hnone => ?_) (by simp [headerBits,bitsOf,hk2,hfew])
      -- the words are copied from the rest of the buffer
      have hcopy := hnone _ rfl
      rw [bitmapDecompress_header htake,if_neg hfew,if_pos rfl] at hcopy
      have hroom : 32*(bitmap.length%4096)≤8*size-16 := by
        have := Nat.mod_le bitmap.length 4096
        omega
      rw [← Option.not_isSome_iff_eq_none] at hcopy
      exact hcopy (readWords_isSome (by rw [length_drop,hout]; exact hroom))
  | @default len pad hlen =>
    have htake := @take_header k ((items bitmap).flatMap Item.bits) (by omega) (by omega) 1
      bitmap.length pad
    by_cases hfew : words<bitmap.length%4096
    · refine iff_of_true (fun memory hmemory => ?_) (.inr (.inl hfew))
      rw [bitmapDecompress_header (hmemory.trans htake),if_pos hfew]
    have hitems := readable_items hwords
    have hread : ∀ memory, memory.take (8*k)=headerBits 1 bitmap.length++
        ((items bitmap).flatMap Item.bits).take (8*k-16) →
        (bitmapDecompress memory k words=none ↔ ∀ front, front <+: items bitmap →
          (front.flatMap Item.words).length=bitmap.length%4096 →
          8*k<16+(front.flatMap Item.bits).length) := by
      intro memory hmemory
      rw [bitmapDecompress_header hmemory,if_neg hfew,if_neg (by decide),
        Option.map_eq_none_iff,← Option.not_isSome_iff_eq_none,decompress_cut hitems]
      simp only [not_exists,not_and,Nat.not_le]
      refine forall_congr' fun front => forall_congr' fun _ => forall_congr' fun _ => ?_
      omega
    have hall : bitmap.length≤4095 → ∀ front, front <+: items bitmap →
        (front.flatMap Item.words).length=bitmap.length%4096 →
          8*k<16+(front.flatMap Item.bits).length := by
      intro hcount front hfront hsame
      rw [Nat.mod_eq_of_lt (by omega)] at hsame
      rw [front_eq hitems hfront (by rw [words_items,hsame])]
      omega
    constructor
    · intro hnone
      exact .inr (.inr ⟨by simp [headerBits,bitsOf],.inr ((hread _ htake).mp (hnone _ rfl))⟩)
    · rintro (hlt | hlt | ⟨-,hcut⟩) memory hmemory
      · exact absurd hlt hk2
      · exact absurd hlt hfew
      · exact (hread memory (hmemory.trans htake)).mpr (hcut.elim hall id)

end

theorem compress_round_trip_runs : ∃ out len, bitmapCompress [7,7,0] 14 .default=some (out,len) ∧
    len≤14 ∧ bitmapDecompress (out.take (8*len)) len [7,7,0].length=some [7,7,0] :=
  compress_round_trip .default (by decide) (by decide) (by decide)

theorem truncated_rejected_runs : ∃ out, bitmapCompress [7,7,0] 14 .default=some (out,8) ∧
    ∀ memory, memory.take (8*7)=out.take (8*7) → bitmapDecompress memory 7 3=none := by
  obtain ⟨out,h,hhead⟩ : ∃ out, bitmapCompress [7,7,0] 14 .default=some (out,8) ∧
    out.head?=some true := ⟨_,rfl,rfl⟩
  exact ⟨out,h,(truncated_rejected .default (by decide) (by decide) h (by decide) 3).mpr
    (.inr (.inr ⟨hhead,.inl (by decide)⟩))⟩

/-- Without compression the words are copied from behind the end of the data. -/
theorem truncated_read : ∃ out, bitmapCompress [7] 6 .no=some (out,6) ∧
    bitmapDecompress out 2 1=some [7] := ⟨_,rfl,by decide +kernel⟩

end WarehousePG.BitmapCompression
