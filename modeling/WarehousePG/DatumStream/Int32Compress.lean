import WarehousePG.Framework.Bits
import Mathlib.Tactic.SplitIfs

namespace WarehousePG.DatumStream

open Framework List

/-- The largest values of one to four bytes; each further byte holds eight more bits. -/
structure ByteLimits where
  oneByte : Nat
  twoByte : Nat
  threeByte : Nat
  fourByte : Nat
  one_lt : oneByte<64
  two_eq : twoByte=oneByte*256+255
  three_eq : threeByte=twoByte*256+255
  four_eq : fourByte=threeByte*256+255

namespace ByteLimits

def size (l : ByteLimits) (value : Nat) : Nat :=
  if value≤l.oneByte then 1
  else if value≤l.twoByte then 2
  else if value≤l.threeByte then 3
  else 4

/-- The high bits of the first byte tell the number of bytes; casts to a byte drop what is above. -/
def encode (l : ByteLimits) (value : Nat) : List Nat :=
  if value≤l.oneByte then [value%256]
  else if value≤l.twoByte then [1<<<6 ||| value>>>8%256,value%256]
  else if value≤l.threeByte then [2<<<6 ||| value>>>16%256,value>>>8%256,value%256]
  else [3<<<6 ||| value>>>24%256,value>>>16%256,value>>>8%256,value%256]

end ByteLimits

/-- The value and the number of bytes read, from the bits of the first byte, the length field and
the following bytes. -/
def assemble (first : Nat) : Nat → List Nat → Option (Nat × Nat)
  | 0, _ => some (first,1)
  | 1, b1::_ => some (first<<<8 ||| b1,2)
  | 2, b1::b2::_ => some (first<<<16 ||| b1<<<8 ||| b2,3)
  | 3, b1::b2::b3::_ => some (first<<<24 ||| b1<<<16 ||| b2<<<8 ||| b3,4)
  | _, _ => none

/-- Repeat counts. -/
def int32Compress : ByteLimits :=
  ⟨0x3F,0x3FFF,0x3FFFFF,0x3FFFFFFF,by decide,by decide,by decide,by decide⟩

def int32CompressDecode : List Nat → Option (Nat × Nat)
  | [] => none
  | b0::buffer => assemble (b0 &&& (0xFF ^^^ 0xC0)) ((b0 &&& 0xC0)>>>6) buffer

/-- Deltas, with a bit for their sign. -/
def int32CompressReserved3 : ByteLimits :=
  ⟨0x1F,0x1FFF,0x1FFFFF,0x1FFFFFFF,by decide,by decide,by decide,by decide⟩

def int32CompressReserved3Encode (delta : Nat × Bool) : List Nat :=
  match int32CompressReserved3.encode delta.1 with
  | [] => []
  | b0::buffer => (if delta.2 then b0 ||| 0x20 else b0)::buffer

def int32CompressReserved3Decode : List Nat → Option ((Nat × Bool) × Nat)
  | [] => none
  | b0::buffer => (assemble (b0 &&& (0xFF ^^^ 0xE0)) ((b0 &&& 0xC0)>>>6) buffer).map fun r =>
      ((r.1,b0 &&& 0x20≠0),r.2)

/-- The values read one after another, and the bytes left. -/
def decodeAll (decode : List Nat → Option (α × Nat)) : Nat → List Nat → Option (List α × List Nat)
  | 0, buffer => some ([],buffer)
  | n+1, buffer => do
    let (value,byteLen) ← decode buffer
    let (values,left) ← decodeAll decode n (buffer.drop byteLen)
    some (value::values,left)

theorem decodeAll_flatMap {encode : α → List Nat} {decode : List Nat → Option (α × Nat)}
    (h : ∀ v∈values, ∀ left, decode (encode v++left)=some (v,(encode v).length)) (left : List Nat) :
    decodeAll decode values.length (values.flatMap encode++left)=some (values,left) := by
  induction values with
  | nil => rfl
  | cons v values ih =>
    obtain ⟨hv,hvalues⟩ := forall_mem_cons.mp h
    simp [decodeAll,hv,ih hvalues]

namespace ByteLimits

variable (l : ByteLimits) (value : Nat)

theorem length_encode : (l.encode value).length=l.size value := by
  unfold encode size
  split_ifs <;> rfl

theorem encode_spec (h : value≤l.fourByte) : ∃ k x bytes, k<4 ∧ x≤l.oneByte ∧
    l.encode value=(k<<<6 ||| x)::bytes ∧
      ∀ left, assemble x k (bytes++left)=some (value,(l.encode value).length) := by
  have h1 := l.one_lt
  have h2 := l.two_eq
  have h3 := l.three_eq
  have h4 := l.four_eq
  rw [encode]
  split_ifs
  · exact ⟨0,value%256,[],by omega,by omega,by simp,fun left => by simp [assemble]; omega⟩
  · refine ⟨1,_,_,by omega,?_,rfl,fun left => ?_⟩ <;> simp only [Nat.shiftRight_eq_div_pow]
    · omega
    · simp only [cons_append,nil_append,assemble,length_cons,length_nil]
      rw [shiftLeft_or _ (by omega)]
      congr
      omega
  · refine ⟨2,_,_,by omega,?_,rfl,fun left => ?_⟩ <;> simp only [Nat.shiftRight_eq_div_pow]
    · omega
    · simp only [cons_append,nil_append,assemble,length_cons,length_nil]
      rw [Nat.or_assoc,shiftLeft_or (value/2^8%256) (by omega),shiftLeft_or _ (by omega)]
      congr
      omega
  · refine ⟨3,_,_,by omega,?_,rfl,fun left => ?_⟩ <;> simp only [Nat.shiftRight_eq_div_pow]
    · omega
    · simp only [cons_append,nil_append,assemble,length_cons,length_nil]
      rw [Nat.or_assoc,Nat.or_assoc,shiftLeft_or (value/2^8%256) (by omega),
        shiftLeft_or (value/2^16%256) (by omega),shiftLeft_or _ (by omega)]
      congr
      omega

end ByteLimits

theorem int32Compress_decodes (h : value≤0x3FFFFFFF) (left : List Nat) :
    int32CompressDecode (int32Compress.encode value++left)=
      some (value,(int32Compress.encode value).length) := by
  obtain ⟨k,x,bytes,hk,hx,henc,hread⟩ := int32Compress.encode_spec value h
  have hfirst : ∀ k<4, ∀ x≤0x3F, (k<<<6 ||| x) &&& (0xFF ^^^ 0xC0)=x ∧
      ((k<<<6 ||| x) &&& 0xC0)>>>6=k := by decide +kernel
  obtain ⟨hval,hlen⟩ := hfirst k hk x hx
  rw [← hread left,henc,cons_append,int32CompressDecode,hval,hlen]

theorem int32CompressReserved3_decodes (h : delta.1≤0x1FFFFFFF) (left : List Nat) :
    int32CompressReserved3Decode (int32CompressReserved3Encode delta++left)=
      some (delta,(int32CompressReserved3Encode delta).length) := by
  obtain ⟨k,x,bytes,hk,hx,henc,hread⟩ := int32CompressReserved3.encode_spec delta.1 h
  have hfirst : ∀ sign : Bool, ∀ k<4, ∀ x≤0x1F,
      let b0 := if sign then k<<<6 ||| x ||| 0x20 else k<<<6 ||| x
      b0 &&& (0xFF ^^^ 0xE0)=x ∧ (b0 &&& 0xC0)>>>6=k ∧ decide (b0 &&& 0x20≠0)=sign := by
    decide +kernel
  obtain ⟨hval,hlen,hsign⟩ := hfirst delta.2 k hk x hx
  rw [int32CompressReserved3Encode]
  rw [henc] at hread ⊢
  simp only [cons_append,int32CompressReserved3Decode,hval,hlen,hsign,hread]
  rfl

/-- Repeat counts and deltas written one after another are read back, whatever follows them, and
the size functions give the number of bytes written. -/
theorem column_integers_decode (counts : List Nat) (deltas : List (Nat × Bool)) (left : List Nat)
    (hcounts : ∀ value∈counts, value≤0x3FFFFFFF) (hdeltas : ∀ delta∈deltas, delta.1≤0x1FFFFFFF) :
    decodeAll int32CompressDecode counts.length (counts.flatMap int32Compress.encode++left)=
        some (counts,left) ∧
      decodeAll int32CompressReserved3Decode deltas.length
        (deltas.flatMap int32CompressReserved3Encode++left)=some (deltas,left) ∧
      (∀ value, (int32Compress.encode value).length=int32Compress.size value) ∧
      ∀ delta, (int32CompressReserved3Encode delta).length=int32CompressReserved3.size delta.1 := by
  refine ⟨decodeAll_flatMap (fun value hv => int32Compress_decodes (hcounts value hv)) left,
    decodeAll_flatMap (fun delta hd => int32CompressReserved3_decodes (hdeltas delta hd)) left,
    int32Compress.length_encode,fun delta => ?_⟩
  rw [← ByteLimits.length_encode,int32CompressReserved3Encode]
  split
  next heq => rw [heq]
  next heq => rw [heq,length_cons,length_cons]

theorem column_integers_decode_boundaries :
    decodeAll int32CompressDecode 3 [63,64,64,255,255,255,255]=
      some ([63,64,0x3FFFFFFF],[]) :=
  (column_integers_decode [63,64,0x3FFFFFFF] [(31,true),(32,false)] [] (by decide) (by decide)).1

end WarehousePG.DatumStream
