import Mathlib.Data.List.Basic
import Mathlib.Tactic.SplitIfs

namespace WarehousePG.BitmapIndex

open Function List BitVec

abbrev HrlWords := Nat → BitVec 64

/-- Content words, and header words with one bit for each of them, the highest bit first. -/
structure BMBitmap where
  hwords : HrlWords
  cwords : HrlWords

structure BMTIDBuffer extends BMBitmap where
  curword : Nat
  numCwords : Nat

def wordnoGetHeaderBit (cwNo : Nat) : BitVec 64 := 1#64<<<(63-cwNo%64)

def isFillWord (words : HrlWords) (wordno : Nat) : Bool :=
  0<(words (wordno/64) &&& wordnoGetHeaderBit wordno)

def orHeaderBit (words : HrlWords) (off cwNo : Nat) : HrlWords :=
  update words off (words off ||| wordnoGetHeaderBit cwNo)

def andNotHeaderBit (words : HrlWords) (cwNo : Nat) : HrlWords :=
  update words (cwNo/64) (words (cwNo/64) &&& ~~~wordnoGetHeaderBit cwNo)

def bmCalcHWords (cWords : Nat) : Nat := if cWords=0 then cWords else (cWords-1)/64+1

def memcpy (dst src : HrlWords) (n : Nat) : HrlWords := fun i => if i<n then src i else dst i

/-- One turn of the loop of `shift_header_bits`. -/
def shiftWord (maxNumOfWords shift wordNo : Nat) (words : HrlWords) : HrlWords :=
  let shifted := update words wordNo (words wordNo>>>shift)
  if wordNo < maxNumOfWords-1 then
    update shifted (wordNo+1) (shifted (wordNo+1) ||| words wordNo<<<(64-shift))
  else shifted

def shiftHeaderBits (words : HrlWords) (numOfBits maxNumOfWords startLoc shift : Nat) : HrlWords :=
  let startWordNo := startLoc/64
  let words := (range' (startWordNo+1) ((numOfBits-1)/64-startWordNo)).foldr
    (shiftWord maxNumOfWords shift) words
  let tmpWord := words startWordNo<<<(startLoc%64)>>>(startLoc%64)
  let kept := if 0<startLoc%64 then words startWordNo>>>(64-startLoc%64)<<<(64-startLoc%64) else 0
  let finalShift := if 64-startLoc%64<shift then 64-startLoc%64 else shift
  let words := update words startWordNo (kept ||| tmpWord>>>finalShift)
  if startWordNo < maxNumOfWords-1 then
    update words (startWordNo+1)
      (words (startWordNo+1) ||| tmpWord<<<(64-finalShift)>>>(shift-finalShift))
  else words

/-- A word of the page, from the insert position on, moves to its place behind the new words, there
or in the words left over. -/
def moveWord (numCwords n wordNo : Nat) : BMBitmap × BMBitmap → BMBitmap × BMBitmap
  | (words,left) =>
    if numCwords≤wordNo+n then
      let left := { left with
        cwords := update left.cwords (wordNo+n-numCwords) (words.cwords wordNo) }
      if isFillWord words.hwords wordNo then
        ({ words with hwords := andNotHeaderBit words.hwords wordNo },
          { left with hwords := orHeaderBit left.hwords 0 (wordNo+n-numCwords) })
      else (words,left)
    else ({ words with cwords := update words.cwords (wordNo+n) (words.cwords wordNo) },left)

def placeWord (numCwords insertPos : Nat) (new : BMBitmap) :
    BMBitmap × BMBitmap → Nat → BMBitmap × BMBitmap
  | (words,left), wordNo =>
    let n := insertPos+wordNo
    if numCwords≤n then
      let left := { left with cwords := update left.cwords (n-numCwords) (new.cwords wordNo) }
      if isFillWord new.hwords wordNo then
        (words,{ left with hwords := orHeaderBit left.hwords 0 (n-numCwords) })
      else (words,left)
    else ({ words with cwords := update words.cwords n (new.cwords wordNo) },left)

def setNewBit (insertPos : Nat) (new : BMBitmap) (hwords : HrlWords) (i : Nat) : HrlWords :=
  if isFillWord new.hwords i then orHeaderBit hwords ((insertPos+i)/64) (insertPos+i) else hwords

/-- The buffer afterwards, and the words left over. -/
def insertNewwords (numOfHeaderWords : Nat) (words : BMTIDBuffer) (insertPos : Nat)
    (new left : BMTIDBuffer) : BMTIDBuffer × BMTIDBuffer :=
  let n := new.curword
  if words.curword=0 then
    (⟨⟨memcpy words.hwords new.hwords (bmCalcHWords n),memcpy words.cwords new.cwords n⟩,n,
      words.numCwords⟩,{ left with curword := 0 })
  else if insertPos=words.numCwords then
    (words,⟨⟨memcpy left.hwords new.hwords (bmCalcHWords n),memcpy left.cwords new.cwords n⟩,n,
      left.numCwords⟩)
  else
    let numLeft := words.curword+n-words.numCwords
    let cleared := ⟨memcpy left.hwords (fun _ => 0) numOfHeaderWords,left.cwords⟩
    let moved := (range' insertPos (words.curword-insertPos)).foldr (moveWord words.numCwords n)
      (words.toBMBitmap,cleared)
    let placed := (range n).foldl (placeWord words.numCwords insertPos new.toBMBitmap) moved
    let shifted := shiftHeaderBits placed.1.hwords words.curword numOfHeaderWords insertPos n
    let hwords := (range (min n (words.numCwords-insertPos))).foldl
      (setNewBit insertPos new.toBMBitmap) shifted
    (⟨⟨hwords,placed.1.cwords⟩,words.curword+(n-numLeft),words.numCwords⟩,
      ⟨placed.2,numLeft,left.numCwords⟩)

/-- The buffer that stands for a page. -/
def BMTIDBuffer.ofPage (numOfHeaderWords : Nat) (page : BMBitmap) (wordsUsed : Nat) :
    BMTIDBuffer :=
  ⟨⟨memcpy (fun _ => 0) page.hwords (bmCalcHWords wordsUsed),page.cwords⟩,wordsUsed,
    64*numOfHeaderWords⟩

/-- The words of a buffer with their fill flags. -/
def BMTIDBuffer.words (b : BMTIDBuffer) : List (BitVec 64 × Bool) :=
  (range b.curword).map fun i => (b.cwords i,isFillWord b.hwords i)

theorem isFillWord_eq (words : HrlWords) (wordno : Nat) :
    isFillWord words wordno=(words (wordno/64)).getMsbD (wordno%64) := by
  have hpos : 0<twoPow 64 (63-wordno%64) := by
    rw [lt_def,toNat_twoPow_of_lt (by omega)]
    exact Nat.two_pow_pos _
  rw [isFillWord,wordnoGetHeaderBit,← twoPow,and_twoPow,getMsbD]
  split <;> simp_all [Nat.mod_lt]

theorem getMsbD_headerBit (cwNo : Nat) (h : i<64) :
    (wordnoGetHeaderBit cwNo).getMsbD i=decide (i=cwNo%64) := by
  rw [wordnoGetHeaderBit,← twoPow,getMsbD,getLsbD_twoPow]
  grind

theorem isFillWord_orHeaderBit (words : HrlWords) (h : off=cwNo/64) (wordno : Nat) :
    isFillWord (orHeaderBit words off cwNo) wordno=(isFillWord words wordno || wordno=cwNo) := by
  rw [isFillWord_eq,isFillWord_eq,orHeaderBit,update_apply]
  grind [getMsbD_or,getMsbD_headerBit]

theorem isFillWord_andNotHeaderBit (words : HrlWords) (cwNo wordno : Nat) :
    isFillWord (andNotHeaderBit words cwNo) wordno=(isFillWord words wordno && wordno≠cwNo) := by
  rw [isFillWord_eq,isFillWord_eq,andNotHeaderBit,update_apply]
  grind [getMsbD_and,getMsbD_not,getMsbD_headerBit]

section

variable {words : HrlWords} {w n last max start : Nat} (hend : ∀ w, last<w → words w=0#64)
include hend

/-- With nothing behind the last word, every word is shifted alike. -/
theorem shiftWords_apply (m p : Nat) (hm : m=last+1-p) (hw : w < max) :
    (range' p m).foldr (shiftWord max n) words w=
      if w<p then words w else if w=p then words w>>>n
      else words w>>>n ||| words (w-1)<<<(64-n) := by
  induction m generalizing p w with
  | zero =>
    have hzero : ∀ v, p≤v → words v=0#64 := fun v hv => hend v (by omega)
    rw [range'_zero,foldr_nil]
    split_ifs
    · rfl
    · simp [hzero w (by omega)]
    · simp [hzero w (by omega),hzero (w-1) (by omega)]
  | succ m ih =>
    have ih := fun w hw => ih (w := w) (p+1) (by omega) hw
    rw [range'_succ,foldr_cons,shiftWord]
    grind [update_apply]

/-- Shifting opens a gap of zero bits at the start and moves the rest behind it. -/
theorem isFillWord_shiftHeaderBits (hlast : last=(numOfBits-1)/64) (hn : 0 < n) (hn' : n<64)
    (hstart : start<64*max) (hj : j<64*max) :
    isFillWord (shiftHeaderBits words numOfBits max start n) j=
      if j<start then isFillWord words j else if j<start+n then false
      else isFillWord words (j-n) := by
  have hw := fun w (hw : w < max) => shiftWords_apply (w := w) (n := n) hend
    ((numOfBits-1)/64-start/64) (start/64+1) (by omega) hw
  simp only [isFillWord_eq,shiftHeaderBits]
  generalize (range' _ _).foldr _ _=shifted at hw ⊢
  have hs := hw (start/64) (by omega)
  have hsame := hw (j/64) (by omega)
  have hb := Nat.mod_lt j (show 64 > 0 by decide)
  have hword : ∀ A B, (if start/64 < max-1 then
      update (update shifted (start/64) A) (start/64+1)
        (update shifted (start/64) A (start/64+1) ||| B)
      else update shifted (start/64) A) (j/64)=
      if j/64=start/64 then A else if j/64=start/64+1 then shifted (j/64) ||| B
      else shifted (j/64) := by grind [update_apply]
  rw [if_pos (by omega)] at hs
  rw [hs,hword]
  have hsmall : n≤j%64 → (j-n)/64=j/64 ∧ (j-n)%64=j%64-n := by omega
  have hlarge : j%64<n → start+n≤j → (j-n)/64=j/64-1 ∧ (j-n)%64=j%64+(64-n) := by omega
  have hout := getMsbD_of_ge (words (start/64))
  obtain h | h | h | h : j/64<start/64 ∨ j/64=start/64 ∨ j/64=start/64+1 ∨ start/64+1<j/64 := by
    omega
  · rw [if_neg (by omega),if_neg (by omega),hsame,if_pos (by omega),if_pos (by omega)]
  · rw [if_pos h,getMsbD_or,getMsbD_ushiftRight,getMsbD_ushiftRight,getMsbD_shiftLeft,
      apply_ite (getMsbD · (j%64)),getMsbD_shiftLeft,getMsbD_ushiftRight]
    clear hw hword hsame hs hend hlarge
    by_cases hlt : j<start+n
    · grind
    · obtain ⟨hdiv,hmod⟩ := hsmall (by omega)
      rw [hdiv,hmod,h]
      grind
  · rw [if_neg (by omega),if_pos h,hsame,if_neg (by omega),if_pos h]
    simp only [getMsbD_or,getMsbD_ushiftRight,getMsbD_shiftLeft]
    clear hw hword hsame hs hend
    grind
  · rw [if_neg (by omega),if_neg (by omega),hsame,if_neg (by omega),if_neg (by omega),
      if_neg (by omega),if_neg (by omega)]
    simp only [getMsbD_or,getMsbD_ushiftRight,getMsbD_shiftLeft]
    by_cases hlt : j%64<n
    · obtain ⟨hdiv,hmod⟩ := hlarge hlt (by omega)
      simp [hdiv,hmod,hlt]
    · obtain ⟨hdiv,hmod⟩ := hsmall (by omega)
      simp [hdiv,hmod,hlt,hb,show 64≤j%64+(64-n) by omega,getMsbD_of_ge]

end

section

variable {N n p m k : Nat}

/-- The buffers once the words from `p` to `p+m` have moved by `n`. -/
structure Moved (words left : BMBitmap) (N n p m : Nat) (r : BMBitmap × BMBitmap) : Prop where
  cwords : ∀ j, r.1.cwords j=if p+n≤j ∧ j<p+m+n ∧ j<N then words.cwords (j-n) else words.cwords j
  fill : ∀ j, isFillWord r.1.hwords j=(isFillWord words.hwords j && ¬(p≤j ∧ j<p+m ∧ N≤j+n))
  leftCwords : ∀ j, r.2.cwords j=
    if p+n≤j+N ∧ j+N<p+m+n then words.cwords (j+N-n) else left.cwords j
  leftFill : ∀ j, isFillWord r.2.hwords j=
    (isFillWord left.hwords j || decide (p+n≤j+N ∧ j+N<p+m+n) && isFillWord words.hwords (j+N-n))

theorem moveWords_moved (words left : BMBitmap) (hN : p+m≤N) (hn : n<64) :
    Moved words left N n p m ((range' p m).foldr (moveWord N n) (words,left)) := by
  induction m generalizing p with
  | zero => constructor <;> grind
  | succ m ih =>
    rw [range'_succ,foldr_cons]
    have ih := ih (p := p+1) (by omega)
    generalize (range' _ _).foldr _ _=r at ih ⊢
    obtain ⟨w,l⟩ := r
    obtain ⟨h1,h2,h3,h4⟩ := ih
    have hp : w.cwords p=words.cwords p := by rw [h1,if_neg (by omega)]
    have hor := isFillWord_orHeaderBit l.hwords (show 0=(p+n-N)/64 by omega)
    have hand := isFillWord_andNotHeaderBit w.hwords p
    simp only [moveWord,hp]
    split_ifs
    all_goals
      constructor <;> intro j <;> specialize h1 j <;> specialize h3 j <;>
        obtain rfl | hj := eq_or_ne j (p+n)
      all_goals grind [update_apply]

/-- The buffers once the first `k` of the new words are placed. -/
structure Placed (new : BMBitmap) (N p k : Nat) (s r : BMBitmap × BMBitmap) : Prop where
  cwords : ∀ j, r.1.cwords j=if p≤j ∧ j<p+k ∧ j<N then new.cwords (j-p) else s.1.cwords j
  hwords : r.1.hwords=s.1.hwords
  leftCwords : ∀ j, r.2.cwords j=if p≤j+N ∧ j+N<p+k then new.cwords (j+N-p) else s.2.cwords j
  leftFill : ∀ j, isFillWord r.2.hwords j=
    (isFillWord s.2.hwords j || decide (p≤j+N ∧ j+N<p+k) && isFillWord new.hwords (j+N-p))

theorem placeWords_placed (new : BMBitmap) (s : BMBitmap × BMBitmap) (hp : p≤N) (hk : k<64) :
    Placed new N p k s ((range k).foldl (placeWord N p new) s) := by
  induction k with
  | zero => constructor <;> grind
  | succ k ih =>
    rw [range_succ,foldl_append,foldl_cons,foldl_nil]
    have ih := ih (by omega)
    generalize (range k).foldl _ _=r at ih ⊢
    obtain ⟨w,l⟩ := r
    obtain ⟨h1,h2,h3,h4⟩ := ih
    have hor := isFillWord_orHeaderBit l.hwords (show 0=(p+k-N)/64 by omega)
    simp only [placeWord]
    split_ifs
    all_goals constructor <;> grind [update_apply]

theorem isFillWord_setNewBits (new : BMBitmap) (hwords : HrlWords) (k j : Nat) :
    isFillWord ((range k).foldl (setNewBit p new) hwords) j=
      (isFillWord hwords j || decide (p≤j ∧ j<p+k) && isFillWord new.hwords (j-p)) := by
  induction k with
  | zero => grind
  | succ k ih =>
    rw [range_succ,foldl_append,foldl_cons,foldl_nil,setNewBit]
    generalize (range k).foldl _ _=r at ih ⊢
    have hor := isFillWord_orHeaderBit r (Eq.refl ((p+k)/64)) j
    grind

end

/-- `n` entries put before entry `p` of a table. -/
def inserted (old new : Nat → α) (p n j : Nat) : α :=
  if j<p then old j else if j<p+n then new (j-p) else old (j-n)

theorem map_range_inserted {old new f g : Nat → α} (hp : p≤c) (hab : a+b=c+n)
    (hf : ∀ j<a, f j=inserted old new p n j) (hg : ∀ j<b, g j=inserted old new p n (a+j)) :
    (range a).map f++(range b).map g=
      ((range c).map old).take p++(range n).map new++((range c).map old).drop p := by
  have hleft : (range a).map f++(range b).map g=(range (a+b)).map (inserted old new p n) := by
    rw [range_add,map_append,map_map]
    congr 1
    · exact map_congr_left fun j hj => hf j (mem_range.mp hj)
    · exact map_congr_left fun j hj => hg j (mem_range.mp hj)
  obtain ⟨d,rfl⟩ := Nat.exists_eq_add_of_le hp
  rw [hleft,hab,show p+d+n=p+n+d by omega,range_add,range_add,map_append,map_append,range_add,
    map_append,take_left' (by simp),drop_left' (by simp)]
  simp only [map_map]
  congr 1
  · congr 1 <;> apply map_congr_left <;> grind [inserted]
  · apply map_congr_left
    grind [inserted]

theorem words_memcpy (new : BMTIDBuffer) (h c : HrlWords) (numCwords : Nat) :
    BMTIDBuffer.words ⟨⟨memcpy h new.hwords (bmCalcHWords new.curword),
      memcpy c new.cwords new.curword⟩,new.curword,numCwords⟩=new.words := by
  refine map_congr_left fun j hj => ?_
  have hj : j<new.curword := mem_range.mp hj
  have hdiv : j/64<bmCalcHWords new.curword := by
    rw [bmCalcHWords,if_neg (by omega)]
    omega
  simp only [isFillWord_eq,memcpy,if_pos hj,if_pos hdiv]

theorem hwords_eq_zero {words : HrlWords} (h : ∀ i<64, isFillWord words (64*w+i)=false) :
    words w=0#64 := by
  apply eq_of_getMsbD_eq
  intro i hi
  have hbit := h i hi
  rw [isFillWord_eq,show (64*w+i)/64=w by omega,show (64*w+i)%64=i by omega] at hbit
  simp [hbit]

/-- Inserting words into a page is insertion into the list of its words with their fill flags; what
does not fit is left over. -/
theorem insertNewwords_inserts (page : BMBitmap) (new left : BMTIDBuffer) (hH : 0 < H)
    (hused : used≤64*H) (hp : p≤used) (hn : 0 < new.curword) (hn' : new.curword<64) :
    let words := BMTIDBuffer.ofPage H page used
    let r := insertNewwords H words p new left
    r.1.words++r.2.words=words.words.take p++new.words++words.words.drop p ∧
      r.1.curword≤64*H := by
  intro words r
  simp only [r,insertNewwords]
  split_ifs with h0 hN
  · obtain rfl : used=0 := h0
    obtain rfl : p=0 := by omega
    refine ⟨?_,show new.curword≤64*H by omega⟩
    rw [words_memcpy]
    simp [BMTIDBuffer.words,words,BMTIDBuffer.ofPage]
  · obtain rfl : p=64*H := hN
    have hlen : words.words.length≤64*H := by
      simpa [BMTIDBuffer.words,words,BMTIDBuffer.ofPage] using hused
    rw [words_memcpy,take_of_length_le hlen,drop_of_length_le hlen,append_nil]
    exact ⟨rfl,hused⟩
  have h0 : used≠0 := h0
  have hN : p≠64*H := hN
  have hzero : ∀ w, (used-1)/64<w → words.hwords w=0#64 := by
    intro w hw
    simp only [words,BMTIDBuffer.ofPage,memcpy,bmCalcHWords]
    rw [if_neg h0,if_neg (by omega)]
    rfl
  have hleft : ∀ j<64, isFillWord (memcpy left.hwords (fun _ => 0) H) j=false := by
    intro j hj
    rw [isFillWord_eq,memcpy,if_pos (by omega)]
    exact getMsbD_zero
  have hmoved := moveWords_moved words.toBMBitmap ⟨memcpy left.hwords (fun _ => 0) H,left.cwords⟩
    (show p+(used-p)≤64*H by omega) hn'
  have hplaced := fun s => placeWords_placed new.toBMBitmap s (show p≤64*H by omega) hn'
  simp only [words,BMTIDBuffer.ofPage] at *
  generalize (range' p (used-p)).foldr _ _=moved at hmoved ⊢
  have hplaced := hplaced moved
  generalize (range new.curword).foldl _ _=placed at hplaced ⊢
  have hend : ∀ w, (used-1)/64<w → placed.1.hwords w=0#64 := by
    intro w hw
    apply hwords_eq_zero
    intro i hi
    rw [hplaced.hwords,hmoved.fill,isFillWord_eq,show (64*w+i)/64=w by omega]
    simp only [hzero w hw,getMsbD_zero,Bool.false_and]
  generalize hnum : used+new.curword-64*H=numLeft
  refine ⟨map_range_inserted hp (show used+(new.curword-numLeft)+numLeft=used+new.curword by omega)
    ?_ ?_,show used+(new.curword-numLeft)≤64*H by omega⟩ <;> dsimp only <;> intro j hj
  · rw [isFillWord_setNewBits,isFillWord_shiftHeaderBits hend rfl hn hn' (by omega) (by omega),
      hplaced.hwords,hmoved.fill,hmoved.fill,hplaced.cwords,hmoved.cwords,inserted]
    clear hmoved hplaced hend hleft hzero
    split_ifs <;> refine Prod.ext ?_ ?_ <;> grind
  · rw [hplaced.leftFill,hmoved.leftFill,hplaced.leftCwords,hmoved.leftCwords,hleft j (by omega),
      inserted]
    clear hmoved hplaced hend hleft hzero
    split_ifs <;> refine Prod.ext ?_ ?_ <;> grind

/-- A page of one header word, full, in which every third word is a fill word. -/
def fullPage : BMTIDBuffer :=
  .ofPage 1 ⟨fun _ => 0x9249249249249249#64,fun i => BitVec.ofNat 64 i⟩ 64

/-- A literal word and a fill word. -/
def twoWords : BMTIDBuffer :=
  ⟨⟨fun _ => 0x4000000000000000#64,fun i => BitVec.ofNat 64 (100+i)⟩,2,64⟩

theorem insertNewwords_inserts_full_page :
    let r := insertNewwords 1 fullPage 63 twoWords twoWords
    r.1.words++r.2.words=fullPage.words.take 63++twoWords.words++fullPage.words.drop 63 ∧
      r.1.curword≤64*1 :=
  insertNewwords_inserts _ twoWords twoWords (by decide) (by decide) (by decide) (by decide)
    (by decide)

end WarehousePG.BitmapIndex
