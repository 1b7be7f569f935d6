import Mathlib.Data.Nat.Digits.Lemmas
import WarehousePG.Anchor.Registry

namespace WarehousePG.Anchor

open Transam

/-- The steps of the checksum, whatever it is. -/
structure Crc32c where
  init : UInt32
  comp : UInt32 → UInt8 → UInt32
  fin : UInt32 → UInt32

def Crc32c.of (c : Crc32c) (buf : List UInt8) : UInt32 := c.fin (buf.foldl c.comp c.init)

/-- A digit as `snprintf` prints it. -/
def digitChar (d : Nat) : UInt8 := if d<10 then UInt8.ofNat (0x30+d) else UInt8.ofNat (0x37+d)

/-- The conversions `%u` and `%X`. -/
def formatUint (base n : Nat) : List UInt8 :=
  if n=0 then [0x30] else (Nat.digits base n).reverse.map digitChar

/-- The value of a digit; letters of either case count from 10, and what is no digit is 36. -/
def digitValue (c : UInt8) : Nat :=
  if 0x30≤c ∧ c≤0x39 then c.toNat-0x30 else if 0x41≤c ∧ c≤0x5a then c.toNat-0x37
  else if 0x61≤c ∧ c≤0x7a then c.toNat-0x57 else 36

/-- `strtoul`, for a string that begins with a letter or a digit and is used up. -/
def strtoul (base : Nat) (tmp : List UInt8) : Option Nat :=
  let digits := match tmp with
    | 0x30::x::d::rest =>
      if base=16 ∧ (x=0x58 ∨ x=0x78) ∧ digitValue d<16 then d::rest else tmp
    | _ => tmp
  if digits.all (digitValue ·<base) then
    some (digits.foldl (fun v c => v*base+digitValue c) 0)
  else none

def anchorParseUint (base max : Nat) (val : List UInt8) : Option Nat :=
  if val.length=0 ∨ 32≤val.length then none
  else if val.head?.all (digitValue ·<36) then
    -- a null byte ends the string
    (strtoul base (val.takeWhile (·≠0))).filter (· ≤ max)
  else none

def anchorNextField (key cur : List UInt8) : Option (List UInt8 × List UInt8) :=
  if (key++[0x3a]).isPrefixOf cur then
    let p := cur.drop (key.length+1)
    let val := p.takeWhile (·≠0x0a)
    if val.length<p.length then some (val,p.drop (val.length+1)) else none
  else none

/-- A field whose value is a number. -/
def nextUint (key : List UInt8) (base max : Nat) (cur : List UInt8) : Option (Nat × List UInt8) :=
  (anchorNextField key cur).bind fun (val,rest) => (anchorParseUint base max val).map (·,rest)

namespace AnchorKey

def fmt : List UInt8 := [0x66,0x6d,0x74]
def rpName : List UInt8 := [0x72,0x70,0x5f,0x6e,0x61,0x6d,0x65]
def tli : List UInt8 := [0x74,0x6c,0x69]
def lsn : List UInt8 := [0x6c,0x73,0x6e]
def xmin : List UInt8 := [0x78,0x6d,0x69,0x6e]
def xmax : List UInt8 := [0x78,0x6d,0x61,0x78]
def xcnt : List UInt8 := [0x78,0x63,0x6e,0x74]
def sof : List UInt8 := [0x73,0x6f,0x66]
def sxcnt : List UInt8 := [0x73,0x78,0x63,0x6e,0x74]
def sxp : List UInt8 := [0x73,0x78,0x70]
def rec : List UInt8 := [0x72,0x65,0x63]
def crc : List UInt8 := [0x63,0x72,0x63]

end AnchorKey

def anchorFileFormat : Nat := 2

def line (key val : List UInt8) : List UInt8 := key++0x3a::(val++[0x0a])

/-- The buffer of 8192 bytes, what went to the file before, and the running checksum. -/
structure AnchorWriter where
  written : List UInt8 := []
  buf : List UInt8 := []
  crc : UInt32

/-- `ANCHOR_APPEND`. -/
def anchorAppend (c : Crc32c) (text : List UInt8) (w : AnchorWriter) : Option AnchorWriter :=
  let crc := text.foldl c.comp w.crc
  if text.length<8192-w.buf.length then some { w with buf := w.buf++text, crc }
  else if text.length<8192 then some ⟨w.written++w.buf,text,crc⟩
  else none

def xidLine (xid : TransactionId) : List UInt8 := line AnchorKey.sxp (formatUint 10 xid.toNat)

/-- The lines before the checksum. -/
def anchorLines (name : RpName) (f : AnchorFile) : List (List UInt8) :=
  [line AnchorKey.fmt (formatUint 10 anchorFileFormat),line AnchorKey.rpName name,
    line AnchorKey.tli (formatUint 10 f.tli),
    line AnchorKey.lsn (formatUint 16 (f.lsn/2^32%2^32)++0x2f::formatUint 16 (f.lsn%2^32)),
    line AnchorKey.xmin (formatUint 10 f.xmin.toNat),
    line AnchorKey.xmax (formatUint 10 f.xmax.toNat),line AnchorKey.xcnt [0x30],
    line AnchorKey.sof (formatUint 10 f.suboverflowed.toNat),
    line AnchorKey.sxcnt (formatUint 10 f.subxip.length)]
    ++f.subxip.map xidLine
    ++[line AnchorKey.rec [0x31]]

/-- The conversion `%08X`. -/
def formatCrc (n : Nat) : List UInt8 :=
  List.replicate (8-(formatUint 16 n).length) 0x30++formatUint 16 n

def writeAnchorFile (c : Crc32c) (name : RpName) (f : AnchorFile) : Option (List UInt8) :=
  ((anchorLines name f).foldlM (fun w text => anchorAppend c text w) { crc := c.init }).map fun w =>
    w.written++w.buf++line AnchorKey.crc (formatCrc (c.fin w.crc).toNat)

/-- A file is refused with the reason that ends the message. -/
def orRefuse {α : Type} (why : String) : Option α → Except String α
  | some a => .ok a
  | none => .error why

def refuseUnless (why : String) (p : Prop) [Decidable p] : Except String Unit :=
  if p then .ok () else .error why

/-- The loop over the `sxp` lines. -/
def parseXids : Nat → List UInt8 → Except String (List TransactionId × List UInt8)
  | 0, cur => .ok ([],cur)
  | n+1, cur => do
    let (v,cur) ← orRefuse "sxp lines do not match sxcnt or carry an invalid xid"
      (nextUint AnchorKey.sxp 10 0xFFFFFFFF cur)
    refuseUnless "sxp lines do not match sxcnt or carry an invalid xid"
      (transactionIdIsNormal (UInt32.ofNat v))
    let (xids,cur) ← parseXids n cur
    return (UInt32.ofNat v::xids,cur)

/-- The fields in their order; nothing may follow. -/
def parseAnchorBody (name : RpName) (cur : List UInt8) : Except String AnchorFile := do
  let (fmt,cur) ← orRefuse "unknown format" (nextUint AnchorKey.fmt 10 0x7FFFFFFF cur)
  refuseUnless "unknown format" (fmt=anchorFileFormat)
  let (val,cur) ← orRefuse "rp_name line does not name this restore point"
    (anchorNextField AnchorKey.rpName cur)
  refuseUnless "rp_name line does not name this restore point" (val=name)
  let (tli,cur) ← orRefuse "invalid tli line" (nextUint AnchorKey.tli 10 0xFFFFFFFF cur)
  refuseUnless "invalid tli line" (tli≠0)
  let (val,cur) ← orRefuse "invalid lsn line" (anchorNextField AnchorKey.lsn cur)
  refuseUnless "invalid lsn line" (0x2f∈val)
  let hi ← orRefuse "invalid lsn line" (anchorParseUint 16 0xFFFFFFFF (val.takeWhile (·≠0x2f)))
  let lo ← orRefuse "invalid lsn line"
    (anchorParseUint 16 0xFFFFFFFF ((val.dropWhile (·≠0x2f)).drop 1))
  refuseUnless "invalid lsn line" (hi*2^32+lo≠0)
  let (xmin,cur) ← orRefuse "invalid xmin line" (nextUint AnchorKey.xmin 10 0xFFFFFFFF cur)
  refuseUnless "invalid xmin line" (transactionIdIsNormal (UInt32.ofNat xmin))
  let (xmax,cur) ← orRefuse "invalid xmax line" (nextUint AnchorKey.xmax 10 0xFFFFFFFF cur)
  refuseUnless "invalid xmax line" (transactionIdIsNormal (UInt32.ofNat xmax))
  let (xcnt,cur) ← orRefuse "invalid xcnt line" (nextUint AnchorKey.xcnt 10 0x7FFFFFFF cur)
  refuseUnless "invalid xcnt line" (xcnt=0)
  let (sof,cur) ← orRefuse "invalid sof line" (nextUint AnchorKey.sof 10 1 cur)
  let (sxcnt,cur) ← orRefuse "invalid sxcnt line" (nextUint AnchorKey.sxcnt 10 0x7FFFFFFF cur)
  -- every sxp line has at least six bytes
  refuseUnless "invalid sxcnt line" (sxcnt≤cur.length/6)
  let (xids,cur) ← parseXids sxcnt cur
  let (rec,cur) ← orRefuse "invalid rec line" (nextUint AnchorKey.rec 10 1 cur)
  refuseUnless "invalid rec line" (rec=1)
  refuseUnless "unexpected data after the rec line" (cur=[])
  return ⟨tli,hi*2^32+lo,UInt32.ofNat xmin,UInt32.ofNat xmax,sof≠0,xids⟩

def anchorFileMaxSize (maxSubxids : Nat) : Nat := 16*80+16*maxSubxids

def parseAnchorFile (c : Crc32c) (maxSubxids : Nat) (name : RpName) (buf : List UInt8) :
    Except String AnchorFile := do
  refuseUnless "is empty or larger than any file this server writes"
    (0<buf.length ∧ buf.length≤anchorFileMaxSize maxSubxids)
  let body := buf.take (buf.length-13)
  let trailer := buf.drop (buf.length-13)
  refuseUnless "missing or malformed crc line" (13≤buf.length)
  refuseUnless "missing or malformed crc line"
    ((AnchorKey.crc++[0x3a]).isPrefixOf trailer ∧ trailer.getLast?=some 0x0a)
  let v ← orRefuse "missing or malformed crc line"
    (anchorParseUint 16 0xFFFFFFFF ((trailer.drop 4).take 8))
  refuseUnless "checksum mismatch" ((c.of body).toNat=v)
  parseAnchorBody name body

/-- What the export writes for a restore point: a record's timeline and position, normal xids, and
no more of them than the server has room for. -/
structure AnchorFile.Exported (maxSubxids : Nat) (f : AnchorFile) : Prop where
  tli : 0<f.tli ∧ f.tli<2^32
  lsn : 0<f.lsn ∧ f.lsn<2^64
  xmin : transactionIdIsNormal f.xmin=true
  xmax : transactionIdIsNormal f.xmax=true
  xids : ∀ xid∈f.subxip, transactionIdIsNormal xid=true
  count : f.subxip.length ≤ maxSubxids ∧ f.subxip.length<2^31

theorem digitValue_digitChar {d : Nat} (h : d<16) : digitValue (digitChar d)=d := by
  interval_cases d <;> rfl

theorem foldr_digits {base : Nat} (hb : base≤16) {l : List Nat} (hl : ∀ d∈l, d<base) :
    l.foldr (fun d v => v*base+digitValue (digitChar d)) 0=Nat.ofDigits base l := by
  induction l with
  | nil => rfl
  | cons d l ih =>
    obtain ⟨hd,hl⟩ := List.forall_mem_cons.mp hl
    rw [List.foldr_cons,ih hl,digitValue_digitChar (hd.trans_le hb),Nat.ofDigits_cons]
    ring

/-- What `formatUint` prints are digits of the number. -/
structure Prints (base n : Nat) (val : List UInt8) : Prop where
  digits : ∀ ch∈val, digitValue ch<base
  value : val.foldl (fun v ch => v*base+digitValue ch) 0=n
  nonempty : 0<val.length

theorem prints_formatUint {b : Nat} (hb : 1<b) (hb' : b≤16) (n : Nat) :
    Prints b n (formatUint b n) := by
  unfold formatUint
  split_ifs with h0
  · exact ⟨by simpa [digitValue] using by omega,by simp [digitValue,h0],by simp⟩
  have hlt : ∀ d∈Nat.digits b n, d<b := fun d hd => Nat.digits_lt_base hb hd
  refine ⟨?_,?_,?_⟩
  · intro ch hch
    obtain ⟨d,hd,rfl⟩ := List.mem_map.mp hch
    have hd := hlt d (List.mem_reverse.mp hd)
    rw [digitValue_digitChar (hd.trans_le hb')]
    exact hd
  · rw [List.foldl_map,List.foldl_reverse,foldr_digits hb' hlt,Nat.ofDigits_digits]
  · simpa using List.length_pos_of_ne_nil (Nat.digits_ne_nil_iff_ne_zero.mpr h0)

theorem length_formatUint {b n k : Nat} (hb : 1<b) (hk : 0<k) (hn : n<b^k) :
    (formatUint b n).length≤k := by
  unfold formatUint
  split_ifs with h0
  · exact hk
  · simpa using (Nat.digits_length_le_iff hb n).mpr hn

theorem Prints.ne {base n : Nat} {val : List UInt8} (h : Prints base n val) (hb : base≤16)
    {ch : UInt8} (hch : digitValue ch=36) : ch∉val := by
  intro hmem
  have := h.digits ch hmem
  omega

/-- Printed digits are read back, whichever of the parser's limits apply. -/
theorem Prints.parse {base n max : Nat} {val : List UInt8} (h : Prints base n val) (hb : base≤16)
    (hlen : val.length<32) (hmax : n ≤ max) : anchorParseUint base max val=some n := by
  have hnull : val.takeWhile (·≠0)=val := by
    rw [← List.append_nil val,
      List.takeWhile_append_of_pos fun ch hch => by
        simpa using fun h0 : ch=0 => h.ne hb rfl (h0 ▸ hch)]
    simp
  have hhead : val.head?.all (digitValue ·<36)=true := by
    cases val with
    | nil => rfl
    | cons ch val =>
      have := h.digits ch (by simp)
      simp only [List.head?_cons,Option.all_some,decide_eq_true_eq]
      omega
  have hdigits : strtoul base val=some n := by
    unfold strtoul
    have hall : ∀ l : List UInt8, l=val → (if l.all (digitValue ·<base) then
        some (l.foldl (fun v c => v*base+digitValue c) 0) else none)=some n := by
      rintro l rfl
      rw [if_pos (List.all_eq_true.mpr fun ch hch => decide_eq_true (h.digits ch hch)),h.value]
    apply hall
    split
    next x d rest =>
      refine if_neg ?_
      rintro ⟨-,hx,-⟩
      have := h.digits x (by simp)
      rcases hx with rfl | rfl <;> exact absurd this (by simp [digitValue]; omega)
    next => rfl
  have hne := h.nonempty
  unfold anchorParseUint
  rw [if_neg (by omega),if_pos hhead,hnull,hdigits]
  simp [Option.filter,hmax]

theorem anchorNextField_line {key val : List UInt8} (rest : List UInt8) (hval : 0x0a∉val) :
    anchorNextField key (line key val++rest)=some (val,rest) := by
  have htake : (val++0x0a::rest).takeWhile (·≠0x0a)=val := by
    rw [List.takeWhile_append_of_pos fun ch hch => by
      simpa using fun h0 : ch=0x0a => hval (h0 ▸ hch)]
    simp
  have hline : line key val++rest=(key++[0x3a])++(val++0x0a::rest) := by simp [line]
  have hdrop : (line key val++rest).drop (key.length+1)=val++0x0a::rest := by
    rw [hline]
    exact List.drop_left' (by simp)
  unfold anchorNextField
  rw [if_pos (by rw [hline]; simp),hdrop]
  simp only [htake]
  rw [if_pos (by simp)]
  simp

theorem nextUint_line {key : List UInt8} {n max : Nat} (rest : List UInt8) (hn : n<10^10)
    (hmax : n ≤ max) : nextUint key 10 max (line key (formatUint 10 n)++rest)=some (n,rest) := by
  have hp := prints_formatUint (b := 10) (by omega) (by omega) n
  have hlen := length_formatUint (b := 10) (k := 10) (by omega) (by omega) hn
  unfold nextUint
  rw [anchorNextField_line _ (hp.ne (by omega) rfl)]
  simp [hp.parse (by omega) (by omega) hmax]

theorem toNat_lt (xid : TransactionId) : xid.toNat<2^32 := xid.toNat_lt

theorem some_then {α β : Type} (why : String) (a : α) (k : α → Except String β) :
    (orRefuse why (some a) >>= k)=k a := rfl

theorem ok_then {α β : Type} (a : α) (k : α → Except String β) : (Except.ok a >>= k)=k a := rfl

theorem guard_then {p : Prop} [Decidable p] {β : Type} {k : Unit → Except String β}
    (why : String) (h : p) : (refuseUnless why p >>= k)=k () := by
  rw [refuseUnless,if_pos h]
  rfl

theorem parseXids_lines {xids : List TransactionId} (rest : List UInt8)
    (h : ∀ xid∈xids, transactionIdIsNormal xid=true) :
    parseXids xids.length ((xids.map xidLine).flatten++rest)=.ok (xids,rest) := by
  induction xids with
  | nil => rfl
  | cons xid xids ih =>
    obtain ⟨hxid,h⟩ := List.forall_mem_cons.mp h
    have hlt := toNat_lt xid
    rw [List.length_cons,parseXids,List.map_cons,List.flatten_cons,List.append_assoc,xidLine,
      nextUint_line _ (by omega) (by omega)]
    rw [some_then]
    dsimp only
    rw [UInt32.ofNat_toNat,guard_then _ hxid,ih h,ok_then]
    rfl

theorem length_flatten_bounds {l : List (List UInt8)} {a b : Nat}
    (h : ∀ x∈l, a≤x.length ∧ x.length≤b) :
    a*l.length≤l.flatten.length ∧ l.flatten.length≤b*l.length := by
  induction l with
  | nil => simp
  | cons x l ih =>
    obtain ⟨hx,h⟩ := List.forall_mem_cons.mp h
    have := ih h
    rw [List.flatten_cons,List.length_append,List.length_cons,Nat.mul_succ,Nat.mul_succ]
    omega

theorem length_line (key val : List UInt8) : (line key val).length=key.length+val.length+2 := by
  simp [line]
  omega

theorem length_xidLine (xid : TransactionId) :
    6≤(xidLine xid).length ∧ (xidLine xid).length≤16 := by
  have hlt := toNat_lt xid
  have hne := (prints_formatUint (b := 10) (by omega) (by omega) xid.toNat).nonempty
  have hle := length_formatUint (b := 10) (k := 10) (n := xid.toNat) (by omega) (by omega)
    (by omega)
  rw [xidLine,length_line,AnchorKey.sxp]
  simp only [List.length_cons,List.length_nil]
  omega

theorem length_xidLines (xids : List TransactionId) :
    6*xids.length≤(xids.map xidLine).flatten.length ∧
      (xids.map xidLine).flatten.length≤16*xids.length := by
  have := length_flatten_bounds (l := xids.map xidLine) (a := 6) (b := 16) (by
    intro l hl
    obtain ⟨xid,-,rfl⟩ := List.mem_map.mp hl
    exact length_xidLine xid)
  rwa [List.length_map] at this

variable {c : Crc32c} {m : Nat} {name : RpName} {f : AnchorFile}

theorem not_newline (h : anchorNameIsValid name=true) : 0x0a∉name := by
  intro hmem
  simp only [anchorNameIsValid,Bool.and_eq_true,List.all_eq_true] at h
  exact absurd (h.2 _ hmem) (by decide)

section

variable (hi lo : Nat)

theorem newline_not_mem_lsn : 0x0a∉formatUint 16 hi++0x2f::formatUint 16 lo := by
  rw [List.mem_append,List.mem_cons]
  rintro (hmem | hmem | hmem)
  · exact (prints_formatUint (by omega) (by omega) hi).ne (by omega) rfl hmem
  · exact absurd hmem (by decide)
  · exact (prints_formatUint (by omega) (by omega) lo).ne (by omega) rfl hmem

theorem ne_slash_of_mem (ch : UInt8) (hch : ch∈formatUint 16 hi) : decide (ch≠0x2f)=true := by
  simp only [ne_eq,decide_not,Bool.not_eq_eq_eq_not,Bool.not_true,decide_eq_false_iff_not]
  rintro rfl
  exact (prints_formatUint (by omega) (by omega) hi).ne (by omega) rfl hch

/-- The two halves of a position are found again at the slash. -/
theorem takeWhile_lsn :
    (formatUint 16 hi++0x2f::formatUint 16 lo).takeWhile (·≠0x2f)=formatUint 16 hi := by
  rw [List.takeWhile_append_of_pos (ne_slash_of_mem hi)]
  simp

theorem dropWhile_lsn :
    ((formatUint 16 hi++0x2f::formatUint 16 lo).dropWhile (·≠0x2f)).drop 1=formatUint 16 lo := by
  rw [List.dropWhile_append_of_pos (ne_slash_of_mem hi)]
  simp

end

/-- All counts are printed numbers. -/
theorem flatten_anchorLines (name : RpName) (f : AnchorFile) :
    (anchorLines name f).flatten=line AnchorKey.fmt (formatUint 10 anchorFileFormat)++
      (line AnchorKey.rpName name++(line AnchorKey.tli (formatUint 10 f.tli)++(line AnchorKey.lsn
        (formatUint 16 (f.lsn/2^32%2^32)++0x2f::formatUint 16 (f.lsn%2^32))++
      (line AnchorKey.xmin (formatUint 10 f.xmin.toNat)++(line AnchorKey.xmax
        (formatUint 10 f.xmax.toNat)++(line AnchorKey.xcnt (formatUint 10 0)++
      (line AnchorKey.sof (formatUint 10 f.suboverflowed.toNat)++(line AnchorKey.sxcnt
        (formatUint 10 f.subxip.length)++((f.subxip.map xidLine).flatten++
      (line AnchorKey.rec (formatUint 10 1)++[])))))))))) := by
  have hone : line AnchorKey.rec [0x31]=line AnchorKey.rec (formatUint 10 1) := by
    simp [formatUint,digitChar]
  have hzero : line AnchorKey.xcnt [0x30]=line AnchorKey.xcnt (formatUint 10 0) := rfl
  simp [anchorLines,← hone,hzero]

/-- The fields are read in the order in which they are written; only the name can fail. -/
theorem parseAnchorBody_lines (hname : anchorNameIsValid name=true) (hf : f.Exported m)
    (other : RpName) : parseAnchorBody other (anchorLines name f).flatten=
      if name=other then .ok f
      else .error "rp_name line does not name this restore point" := by
  have hxmin := toNat_lt f.xmin
  have hxmax := toNat_lt f.xmax
  obtain ⟨htli,htlt⟩ := hf.tli
  have hcount := hf.count.2
  have hsof : f.suboverflowed.toNat≤1 := Bool.toNat_le _
  have hhi := prints_formatUint (b := 16) (by omega) (by omega) (f.lsn/2^32%2^32)
  have hlo := prints_formatUint (b := 16) (by omega) (by omega) (f.lsn%2^32)
  have hlhi := length_formatUint (b := 16) (k := 8) (n := f.lsn/2^32%2^32) (by omega) (by omega)
    (by omega)
  have hllo := length_formatUint (b := 16) (k := 8) (n := f.lsn%2^32) (by omega) (by omega)
    (by omega)
  obtain ⟨hlsn0,hlsnlt⟩ := hf.lsn
  have hsix : f.subxip.length≤((f.subxip.map xidLine).flatten++
        (line AnchorKey.rec (formatUint 10 1)++[])).length/6 := by
    have := (length_xidLines f.subxip).1
    rw [List.length_append]
    omega
  rw [flatten_anchorLines,parseAnchorBody,nextUint_line _ (by decide) (by decide),some_then]
  dsimp only
  rw [guard_then _ rfl,anchorNextField_line _ (not_newline hname),some_then]
  dsimp only
  by_cases hother : name=other
  · rw [guard_then _ hother,if_pos hother,nextUint_line _ (by omega) (by omega),some_then]
    dsimp only
    rw [guard_then _ htli.ne',anchorNextField_line _ (newline_not_mem_lsn _ _),some_then]
    dsimp only
    rw [guard_then _ (by simp),takeWhile_lsn,dropWhile_lsn,
      hhi.parse (by omega) (by omega) (by omega),some_then,
      hlo.parse (by omega) (by omega) (by omega),some_then,guard_then _ (by omega),
      nextUint_line _ (by omega) (by omega),some_then]
    dsimp only
    rw [UInt32.ofNat_toNat,guard_then _ hf.xmin,nextUint_line _ (by omega) (by omega),some_then]
    dsimp only
    rw [UInt32.ofNat_toNat,guard_then _ hf.xmax,nextUint_line _ (by omega) (by omega),some_then]
    dsimp only
    rw [guard_then _ rfl,nextUint_line _ (by omega) hsof,some_then]
    dsimp only
    rw [nextUint_line _ (by omega) (by omega),some_then]
    dsimp only
    rw [guard_then _ hsix,parseXids_lines _ hf.xids,ok_then]
    dsimp only
    rw [nextUint_line _ (by omega) (by omega),some_then]
    dsimp only
    have hl : f.lsn/2^32%2^32*2^32+f.lsn%2^32=f.lsn := by omega
    have hs : decide (f.suboverflowed.toNat≠0)=f.suboverflowed := by
      cases f.suboverflowed <;> rfl
    rw [guard_then _ rfl,guard_then _ rfl,hl,hs]
    rfl
  · rw [refuseUnless,if_neg hother,if_neg hother]
    rfl

/-- Wherever the buffer is flushed, the file and the checksum are those of the lines. -/
theorem anchorAppend_lines {ls : List (List UInt8)} (h : ∀ l∈ls, l.length<8192)
    (w : AnchorWriter) : ∃ w', ls.foldlM (fun w text => anchorAppend c text w) w=some w' ∧
      w'.written++w'.buf=w.written++w.buf++ls.flatten ∧
      w'.crc=ls.flatten.foldl c.comp w.crc := by
  induction ls generalizing w with
  | nil => exact ⟨w,rfl,by simp,rfl⟩
  | cons l ls ih =>
    obtain ⟨hl,h⟩ := List.forall_mem_cons.mp h
    obtain ⟨u,hu,hbytes,hcrc⟩ : ∃ u, anchorAppend c l w=some u ∧
        u.written++u.buf=w.written++w.buf++l ∧ u.crc=l.foldl c.comp w.crc := by
      unfold anchorAppend
      dsimp only
      split_ifs
      · exact ⟨_,rfl,by simp,rfl⟩
      · exact ⟨_,rfl,rfl,rfl⟩
    obtain ⟨v,hv,hvbytes,hvcrc⟩ := ih h u
    refine ⟨v,?_,?_,?_⟩
    · rw [List.foldlM_cons,hu]
      exact hv
    · rw [hvbytes,hbytes,List.flatten_cons,List.append_assoc]
    · rw [hvcrc,hcrc,List.flatten_cons,List.foldl_append]

/-- Apart from the xids there are ten short lines. -/
theorem anchorLines_le (hname : name.length<64) (hf : f.Exported m) :
    ∃ fixed : List (List UInt8), anchorLines name f=fixed++f.subxip.map xidLine++
      [line AnchorKey.rec [0x31]] ∧ (∀ l∈fixed, l.length≤80) ∧ fixed.length=9 := by
  have hdec : ∀ n<2^32, (formatUint 10 n).length≤10 := fun n hn =>
    length_formatUint (by omega) (by omega) (by omega)
  have hhex : ∀ n<2^32, (formatUint 16 n).length≤8 := fun n hn =>
    length_formatUint (by omega) (by omega) (by omega)
  have h1 := hdec anchorFileFormat (by decide)
  have h2 := hdec _ hf.tli.2
  have h3 := hhex _ (Nat.mod_lt (f.lsn/2^32) (by decide))
  have h4 := hhex _ (Nat.mod_lt f.lsn (by decide))
  have h5 := hdec _ (toNat_lt f.xmin)
  have h6 := hdec _ (toNat_lt f.xmax)
  have h7 := hdec f.suboverflowed.toNat ((Bool.toNat_le _).trans_lt (by decide))
  have h8 := hdec f.subxip.length (hf.count.2.trans (by decide))
  refine ⟨_,rfl,?_,rfl⟩
  simp only [List.forall_mem_cons,length_line,List.length_append,List.length_cons,
    AnchorKey.fmt,AnchorKey.rpName,AnchorKey.tli,AnchorKey.lsn,AnchorKey.xmin,AnchorKey.xmax,
    AnchorKey.xcnt,AnchorKey.sof,AnchorKey.sxcnt,List.length_nil]
  refine ⟨?_,?_,?_,?_,?_,?_,?_,?_,?_,by simp⟩ <;> omega

/-- Each line fits in the buffer, and the file is within the parser's size limit. -/
theorem length_anchorLines (hname : name.length<64) (hf : f.Exported m) :
    (∀ l∈anchorLines name f, l.length<8192) ∧
      (anchorLines name f).flatten.length+13≤anchorFileMaxSize m := by
  obtain ⟨fixed,hlines,hfixed,hnine⟩ := anchorLines_le hname hf
  have htotal := (length_flatten_bounds (a := 0) fun l hl => ⟨Nat.zero_le _,hfixed l hl⟩).2
  have hxids := (length_xidLines f.subxip).2
  have hcount := hf.count.1
  rw [hlines]
  constructor
  · intro l hl
    rcases List.mem_append.mp hl with hl | hl
    · rcases List.mem_append.mp hl with hl | hl
      · have := hfixed l hl
        omega
      · obtain ⟨xid,-,rfl⟩ := List.mem_map.mp hl
        have := (length_xidLine xid).2
        omega
    · rw [List.mem_singleton.mp hl]
      decide
  · simp only [List.flatten_append,List.length_append,List.flatten_cons,List.flatten_nil,
      length_line,AnchorKey.rec,List.length_cons,List.length_nil,anchorFileMaxSize]
    omega

theorem prints_formatCrc (v : UInt32) :
    Prints 16 v.toNat (formatCrc v.toNat) ∧ (formatCrc v.toNat).length=8 := by
  have hlt := toNat_lt v
  have hp := prints_formatUint (b := 16) (by omega) (by omega) v.toNat
  have hle := length_formatUint (b := 16) (k := 8) (n := v.toNat) (by omega) (by omega) (by omega)
  have hzeros : ∀ k, (List.replicate k (0x30 : UInt8)).foldl
      (fun v ch => v*16+digitValue ch) 0=0 := by
    intro k
    induction k with
    | zero => rfl
    | succ k ih => exact ih
  have hlen : (formatCrc v.toNat).length=8 := by
    rw [formatCrc,List.length_append,List.length_replicate]
    omega
  refine ⟨⟨?_,?_,by omega⟩,hlen⟩
  · intro ch hch
    rcases List.mem_append.mp hch with hch | hch
    · rw [List.eq_of_mem_replicate hch]
      decide
    · exact hp.digits ch hch
  · rw [formatCrc,List.foldl_append,hzeros]
    exact hp.value

/-- The last line is found by its fixed length, and its checksum is that of the rest. -/
theorem parseAnchorFile_trailer {body : List UInt8} (hsize : body.length+13≤anchorFileMaxSize m)
    (other : RpName) : parseAnchorFile c m other
      (body++line AnchorKey.crc (formatCrc (c.of body).toNat))=parseAnchorBody other body := by
  obtain ⟨hp,hlen⟩ := prints_formatCrc (c.of body)
  have htrailer : (line AnchorKey.crc (formatCrc (c.of body).toNat)).length=13 := by
    rw [length_line,hlen]
    rfl
  have hall : (body++line AnchorKey.crc (formatCrc (c.of body).toNat)).length=body.length+13 := by
    rw [List.length_append,htrailer]
  have htake : (body++line AnchorKey.crc (formatCrc (c.of body).toNat)).take
      (body.length+13-13)=body := List.take_left' (by omega)
  have hdrop : (body++line AnchorKey.crc (formatCrc (c.of body).toNat)).drop
      (body.length+13-13)=line AnchorKey.crc (formatCrc (c.of body).toNat) :=
    List.drop_left' (by omega)
  have hval : ((line AnchorKey.crc (formatCrc (c.of body).toNat)).drop 4).take 8=
      formatCrc (c.of body).toNat := List.take_left' hlen
  have hlast : (line AnchorKey.crc (formatCrc (c.of body).toNat)).getLast?=some 0x0a := by
    rw [line,← List.cons_append,← List.append_assoc,List.getLast?_concat]
  unfold parseAnchorFile
  dsimp only
  rw [hall,htake,hdrop,hval,guard_then _ (by omega),guard_then _ (by omega),
    guard_then _ ⟨by simp [line],hlast⟩,
    hp.parse (by omega) (by omega) (by have := toNat_lt (c.of body); omega),some_then,
    guard_then _ rfl]

/-- The file written for a restore point is read back for it whole, and for no other name. -/
theorem anchor_file_round_trip (c : Crc32c) (hname : anchorNameIsValid name=true)
    (hf : f.Exported m) : ∃ buf, writeAnchorFile c name f=some buf ∧
      parseAnchorFile c m name buf=.ok f ∧
      ∀ other≠name, parseAnchorFile c m other buf=
        .error "rp_name line does not name this restore point" := by
  have hlen : name.length<64 := by
    simp only [anchorNameIsValid,Bool.and_eq_true,decide_eq_true_eq] at hname
    exact hname.1.1.1.1.2
  obtain ⟨hlines,hsize⟩ := length_anchorLines hlen hf
  obtain ⟨w,hw,hbytes,hcrc⟩ := anchorAppend_lines (c := c) hlines { crc := c.init }
  have hwrite : writeAnchorFile c name f=some ((anchorLines name f).flatten++
      line AnchorKey.crc (formatCrc (c.of (anchorLines name f).flatten).toNat)) := by
    rw [writeAnchorFile,hw,Option.map_some,hbytes,hcrc]
    rfl
  refine ⟨_,hwrite,?_,fun other hne => ?_⟩
  · rw [parseAnchorFile_trailer hsize,parseAnchorBody_lines hname hf,if_pos rfl]
  · rw [parseAnchorFile_trailer hsize,parseAnchorBody_lines hname hf,if_neg hne.symm]

theorem anchor_file_round_trip_two_xids : ∃ buf,
    writeAnchorFile ⟨0,fun v b => v+b.toUInt32,id⟩ [0x61] ⟨1,2^32+5,3,9,true,[4,7]⟩=some buf ∧
      parseAnchorFile ⟨0,fun v b => v+b.toUInt32,id⟩ 2 [0x61] buf=
        .ok ⟨1,2^32+5,3,9,true,[4,7]⟩ ∧
      ∀ other≠[0x61], parseAnchorFile ⟨0,fun v b => v+b.toUInt32,id⟩ 2 other buf=
        .error "rp_name line does not name this restore point" :=
  anchor_file_round_trip _ (by decide)
    ⟨by norm_num,by norm_num,rfl,rfl,by simp [transactionIdIsNormal,firstNormalTransactionId],
      by simp⟩

end WarehousePG.Anchor
