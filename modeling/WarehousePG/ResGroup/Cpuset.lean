import Mathlib.Data.Finset.Sort
import Mathlib.Order.Interval.Finset.Nat

namespace WarehousePG.ResGroup

open Finset (Icc singleton_nonempty sort_singleton mem_union mem_union_left mem_union_right
  Icc_self)
open List (forall_mem_cons cons_append exists_cons_of_ne_nil)
open Nat (ofDigitChars toDigits)

def intMax : Nat := 2147483647

def maxCpuSetLength : Nat := 1024

inductive CpusetStatus
  | initial | begin | number | interval | number2
deriving DecidableEq

structure CpusetParser where
  s : CpusetStatus := .initial
  num1 : Nat := 0
  num2 : Nat := 0
  bms : Finset Nat := ∅

namespace CpusetParser

/-- The loop over a range; after the largest `int` its counter overflows, and it does not end. -/
def addRange (p : CpusetParser) : Option (Finset Nat) :=
  if p.num2 < intMax then some (p.bms ∪ Icc p.num1 p.num2) else none

/-- What the function returns at the end of the text; an error is the empty set. -/
def finish (p : CpusetParser) : Option (Finset Nat) :=
  match p.s with
  | .number => some (p.bms ∪ {p.num1})
  | .number2 => if p.num1>p.num2 then some ∅ else p.addRange
  | .initial | .interval => some ∅
  | .begin => some p.bms

def digit (p : CpusetParser) (c : Char) : CpusetParser :=
  let s := match p.s with
    | .initial | .begin => .number
    | .interval => .number2
    | s => s
  if s=.number then { p with s, num1 := 10*p.num1+(c.toNat - '0'.toNat) }
  else { p with s, num2 := 10*p.num2+(c.toNat - '0'.toNat) }

def loop (p : CpusetParser) : List Char → Option (Finset Nat)
  | [] => p.finish
  | c::cs =>
    if c = ',' then
      match p.s with
      | .initial | .begin => p.loop cs
      | .interval => some ∅
      | .number => loop { p with s := .begin, num1 := 0, bms := p.bms ∪ {p.num1} } cs
      | .number2 =>
        if p.num1>p.num2 then some ∅ else p.addRange.bind fun bms => loop { s := .begin, bms } cs
    else if c = '-' then if p.s=.number then loop { p with s := .interval } cs else some ∅
    else if c.isDigit then loop (p.digit c) cs
    else if c = '\n' then p.finish else some ∅

end CpusetParser

def cpusetToBitset (cpuset : List Char) (len : Nat) : Option (Finset Nat) :=
  CpusetParser.loop {} (cpuset.take len)

def intervalText (intervalStart lastContinuousBit : Nat) : List Char :=
  if intervalStart=lastContinuousBit then toDigits 10 intervalStart
  else toDigits 10 intervalStart ++ '-'::toDigits 10 lastContinuousBit

def bitsetLoop (cpusetSize : Nat) (intervalStart lastContinuousBit : Nat) (cpuset : List Char) :
    List Nat → List Char
  | [] =>
    let buffer := intervalText intervalStart lastContinuousBit
    if cpusetSize≤cpuset.length+buffer.length then cpuset else cpuset ++ buffer
  | num::rest =>
    if num=lastContinuousBit+1 then bitsetLoop cpusetSize intervalStart num cpuset rest
    else
      let buffer := intervalText intervalStart lastContinuousBit ++ [',']
      if cpusetSize≤cpuset.length+buffer.length then cpuset
      else bitsetLoop cpusetSize num num (cpuset ++ buffer) rest

/-- The search for a member after the largest `int` overflows, and an empty set is not expected. -/
def bitsetToCpuset (bms : Finset Nat) (cpusetSize : Nat) : Option (List Char) :=
  if intMax∈bms then none
  else match bms.sort (· ≤ ·) with
    | [] => none
    | num::rest => some (bitsetLoop cpusetSize num num [] rest)

/-- `root` is the cpuset of the root group, read when nothing is left. -/
def cpusetOperation (root cpuset1 cpuset2 : List Char) (len : Nat) (sub : Bool) :
    Option (List Char) := do
  let bms1 ← cpusetToBitset cpuset1 len
  let bms2 ← cpusetToBitset cpuset2 len
  let bms := if sub then bms1 \ bms2 else bms1 ∪ bms2
  if bms=∅ then
    let bmsDefault ← cpusetToBitset root maxCpuSetLength
    (bmsDefault.sort (· ≤ ·)).head?.map (toDigits 10)
  else bitsetToCpuset bms len

abbrev Digits (ds : List Char) : Prop := ds≠[] ∧ ∀ c∈ds, c.isDigit

/-- The text of a number or a range, its set, and where the range ends. -/
inductive CpusetItem : List Char → Finset Nat → List Nat → Prop
  | number {ds : List Char} (hds : Digits ds) : CpusetItem ds {ofDigitChars 10 ds 0} []
  | range {ds es : List Char} (hds : Digits ds) (hes : Digits es)
    (hle : ofDigitChars 10 ds 0≤ofDigitChars 10 es 0) :
    CpusetItem (ds ++ '-'::es) (Icc (ofDigitChars 10 ds 0) (ofDigitChars 10 es 0))
      [ofDigitChars 10 es 0]

/-- The accepted texts, the sets they denote and the ends of their ranges. -/
inductive Denotes : List Char → Finset Nat → List Nat → Prop
  | nil : Denotes [] ∅ []
  | newline (rest : List Char) : Denotes ('\n'::rest) ∅ []
  | comma : Denotes cpuset bms ends → Denotes (','::cpuset) bms ends
  | last : CpusetItem text item ends → Denotes text item ends
  | line (rest : List Char) : CpusetItem text item ends → Denotes (text ++ '\n'::rest) item ends
  | item : CpusetItem text item ends → Denotes cpuset bms ends' →
    Denotes (text ++ ','::cpuset) (item ∪ bms) (ends ++ ends')

theorem CpusetItem.ends_mem (h : CpusetItem text item ends) : ∀ e∈ends, e∈item := by
  cases h with
  | number => nofun
  | range _ _ hle => simpa using hle

theorem Denotes.ends_mem (h : Denotes text bms ends) : ∀ e∈ends, e∈bms := by
  induction h with
  | nil | newline => nofun
  | comma _ ih => exact ih
  | last hitem | line _ hitem => exact hitem.ends_mem
  | item hitem _ ih =>
    intro e he
    rcases List.mem_append.mp he with he | he
    · exact mem_union_left _ (hitem.ends_mem e he)
    · exact mem_union_right _ (ih e he)

namespace CpusetParser

variable {s : CpusetStatus} {c : Char} {cs ds text : List Char} {bms item : Finset Nat}
  {ends : List Nat}

theorem loop_digit {p : CpusetParser} (hc : c.isDigit) : p.loop (c::cs)=(p.digit c).loop cs := by
  have hcom : c ≠ ',' := by rintro rfl; cases hc
  have hdash : c ≠ '-' := by rintro rfl; cases hc
  rw [loop,if_neg hcom,if_neg hdash,if_pos hc]

theorem loop_digits {p : CpusetParser} (f : Nat → CpusetParser)
    (hp : ∀ c : Char, p.digit c=f (10*0+(c.toNat - '0'.toNat)))
    (hf : ∀ a (c : Char), (f a).digit c=f (10*a+(c.toNat - '0'.toNat))) (hds : Digits ds) :
    p.loop (ds ++ cs)=(f (ofDigitChars 10 ds 0)).loop cs := by
  have hrest : ∀ a, (∀ c∈ds, c.isDigit) →
      (f a).loop (ds ++ cs)=(f (ofDigitChars 10 ds a)).loop cs := by
    clear hds
    induction ds with
    | nil => exact fun _ _ => rfl
    | cons c ds ih =>
      intro a hds
      obtain ⟨hc,hds⟩ := forall_mem_cons.mp hds
      rw [cons_append,loop_digit hc,hf,ih _ hds,Nat.ofDigitChars_cons]
  obtain ⟨c,ds,rfl⟩ := exists_cons_of_ne_nil hds.1
  have hc := hds.2 c (by simp)
  rw [← hrest 0 hds.2,cons_append,loop_digit hc,loop_digit hc,hp,hf]

/-- An item is added to the set, unless it is a range that ends at the largest `int`. -/
theorem loop_item (hs : s=.initial ∨ s=.begin) (h : CpusetItem text item ends) :
    ∃ q, (∀ cs, loop ⟨s,0,0,bms⟩ (text ++ cs)=loop q cs) ∧
      finish q=(if ∀ e∈ends, e < intMax then some (bms ∪ item) else none) ∧
      ∀ cs, loop q (','::cs)=
        if ∀ e∈ends, e < intMax then loop ⟨.begin,0,0,bms ∪ item⟩ cs else none := by
  have hnumb : ∀ {ds cs}, Digits ds →
      loop ⟨s,0,0,bms⟩ (ds ++ cs)=loop ⟨.number,ofDigitChars 10 ds 0,0,bms⟩ cs := by
    refine loop_digits (⟨.number,·,0,bms⟩) ?_ fun _ _ => rfl
    obtain rfl | rfl := hs <;> exact fun _ => rfl
  cases h with
  | number hds => exact ⟨_,fun cs => hnumb hds,by simp [finish],fun cs => by simp [loop]⟩
  | @range ds es hds hes hle =>
    refine ⟨⟨.number2,ofDigitChars 10 ds 0,ofDigitChars 10 es 0,bms⟩,fun cs => ?_,?_,fun cs => ?_⟩
    · rw [List.append_assoc,hnumb hds]
      show loop ⟨.interval,ofDigitChars 10 ds 0,0,bms⟩ (es ++ cs)=_
      exact loop_digits (⟨.number2,_,·,bms⟩) (fun _ => rfl) (fun _ _ => rfl) hes
    · simp [finish,addRange,hle.not_gt]
    · simp only [loop,addRange,hle.not_gt,if_true,if_false,List.mem_singleton,forall_eq]
      split <;> rfl

theorem loop_denotes (h : Denotes text item ends) (hs : s=.initial ∧ bms=∅ ∨ s=.begin) :
    loop ⟨s,0,0,bms⟩ text=if ∀ e∈ends, e < intMax then some (bms ∪ item) else none := by
  induction h generalizing s bms with
  | nil | newline => obtain ⟨rfl,rfl⟩ | rfl := hs <;> simp [loop,finish]
  | comma _ ih =>
    rw [← ih hs]
    obtain ⟨rfl,rfl⟩ | rfl := hs <;> rfl
  | last hitem =>
    obtain ⟨q,hq,hfin,-⟩ := @loop_item _ _ bms _ _ (hs.imp_left And.left) hitem
    have hend := hq []
    rw [List.append_nil] at hend
    exact hend.trans hfin
  | line rest hitem =>
    obtain ⟨q,hq,hfin,-⟩ := @loop_item _ _ bms _ _ (hs.imp_left And.left) hitem
    exact (hq _).trans hfin
  | item hitem _ ih =>
    obtain ⟨q,hq,-,hcom⟩ := @loop_item _ _ bms _ _ (hs.imp_left And.left) hitem
    rw [hq,hcom,ih (.inr rfl),Finset.union_assoc]
    simp only [List.mem_append,or_imp,forall_and]
    split_ifs <;> simp_all

end CpusetParser

def bitsetText (a b : Nat) : List Nat → List Char
  | [] => intervalText a b
  | num::rest =>
    if num=b+1 then bitsetText a num rest else intervalText a b ++ ','::bitsetText num num rest

def cpusetText (bms : Finset Nat) : List Char :=
  match bms.sort (· ≤ ·) with
  | [] => []
  | num::rest => bitsetText num num rest

section Print

variable {a b : Nat} {l : List Nat} {bms : Finset Nat}

theorem bitsetLoop_eq {cpusetSize : Nat} {cpuset : List Char}
    (h : (cpuset ++ bitsetText a b l).length<cpusetSize) :
    bitsetLoop cpusetSize a b cpuset l=cpuset ++ bitsetText a b l := by
  induction l generalizing a b cpuset with
  | nil =>
    rw [bitsetText,List.length_append] at h
    rw [bitsetLoop,if_neg h.not_ge,bitsetText]
  | cons num rest ih =>
    rw [bitsetText] at h ⊢
    rw [bitsetLoop]
    split_ifs at h ⊢
    · exact ih h
    · dsimp only
      rw [if_neg (by simp at h ⊢; omega),ih (by simpa using h)]
      simp

theorem intervalText_item (h : a≤b) :
    ∃ ends, CpusetItem (intervalText a b) (Icc a b) ends := by
  have hdig : ∀ n, Digits (toDigits 10 n) := fun n =>
    ⟨Nat.toDigits_ne_nil,fun c hc => Nat.isDigit_of_mem_toDigits (by decide) (by decide) hc⟩
  have hval : ∀ n, ofDigitChars 10 (toDigits 10 n) 0=n := fun n => Nat.ofDigitChars_ten_toDigits
  unfold intervalText
  split
  next heq =>
    subst heq
    have hitem := CpusetItem.number (hdig a)
    rw [hval a,← Icc_self] at hitem
    exact ⟨_,hitem⟩
  next =>
    have hitem := CpusetItem.range (hdig a) (hdig b) (by rwa [hval,hval])
    rw [hval,hval] at hitem
    exact ⟨_,hitem⟩

theorem bitsetText_denotes (h : a≤b) (hl : (b::l).Pairwise (· < ·)) :
    ∃ ends, Denotes (bitsetText a b l) (Icc a b ∪ l.toFinset) ends := by
  obtain ⟨ends,hitem⟩ := intervalText_item h
  induction l generalizing a b ends with
  | nil => exact ⟨ends,by simpa [bitsetText] using Denotes.last hitem⟩
  | cons num rest ih =>
    obtain ⟨hlast,hl⟩ := List.pairwise_cons.mp hl
    have hnum := hlast num List.mem_cons_self
    rw [bitsetText]
    split
    next hnext =>
      have hset : Icc a b ∪ (num::rest).toFinset=Icc a num ∪ rest.toFinset := by
        ext x
        simp only [mem_union,Finset.mem_Icc,List.mem_toFinset,List.mem_cons]
        grind
      rw [hset]
      obtain ⟨ends,hitem⟩ := intervalText_item (show a≤num by omega)
      exact ih (by omega) hl ends hitem
    next =>
      have hset : (num::rest).toFinset=Icc num num ∪ rest.toFinset := by simp
      rw [hset]
      obtain ⟨ends,hnext⟩ := intervalText_item (le_refl num)
      obtain ⟨ends',hrest⟩ := ih (le_refl num) hl ends hnext
      exact ⟨_,.item hitem hrest⟩

/-- The text of a set denotes it. -/
theorem cpusetText_denotes (bms : Finset Nat) : ∃ ends, Denotes (cpusetText bms) bms ends := by
  have hsorted := bms.sortedLT_sort.pairwise
  have hset := bms.sort_toFinset (· ≤ ·)
  unfold cpusetText
  cases hsort : bms.sort (· ≤ ·) with
  | nil =>
    rw [hsort,List.toFinset_nil] at hset
    exact ⟨[],hset ▸ .nil⟩
  | cons num rest =>
    rw [hsort] at hsorted hset
    have hden := bitsetText_denotes (le_refl num) hsorted
    rwa [Icc_self,← Finset.insert_eq,← List.toFinset_cons,hset] at hden

theorem bitsetToCpuset_eq {cpusetSize : Nat} (hne : bms.Nonempty) (hmax : intMax∉bms)
    (hfits : (cpusetText bms).length<cpusetSize) :
    bitsetToCpuset bms cpusetSize=some (cpusetText bms) := by
  rw [bitsetToCpuset,if_neg hmax]
  unfold cpusetText at hfits ⊢
  cases hsort : bms.sort (· ≤ ·) with
  | nil => simp [← Finset.card_pos,← Finset.length_sort (· ≤ ·),hsort] at hne
  | cons num rest =>
    rw [hsort] at hfits
    exact congrArg some (bitsetLoop_eq hfits)

theorem cpusetToBitset_eq {cpuset : List Char} {ends : List Nat} {len : Nat}
    (h : Denotes cpuset bms ends) (hlt : ∀ x∈bms, x ≤ intMax) (hlen : cpuset.length<len) :
    cpusetToBitset cpuset len=if intMax∈ends then none else some bms := by
  have hmax : (∀ e∈ends, e < intMax) ↔ intMax∉ends :=
    ⟨fun hall hmem => (hall _ hmem).false,fun hnot e he =>
      (hlt e (h.ends_mem e he)).lt_of_ne fun heq => hnot (heq ▸ he)⟩
  rw [cpusetToBitset,List.take_of_length_le hlen.le,
    CpusetParser.loop_denotes h (.inl ⟨rfl,rfl⟩),Finset.empty_union]
  simp [hmax]

end Print

/-- A printed set is read back exactly where the largest `int` is not in it; and the operations
leave a text of the union or difference exactly where no range of the two texts ends there and it
is not in the set to be printed. -/
theorem cpuset_set_algebra (len : Nat) :
    (∀ bms, bms.Nonempty → (∀ x∈bms, x ≤ intMax) → (cpusetText bms).length<len →
      ((∃ cpuset, bitsetToCpuset bms len=some cpuset ∧ cpusetToBitset cpuset len=some bms) ↔
        intMax∉bms)) ∧
    ∀ root cpuset1 cpuset2 bms1 bms2 ends1 ends2 sub,
      Denotes cpuset1 bms1 ends1 → Denotes cpuset2 bms2 ends2 →
      (∀ x∈bms1 ∪ bms2, x ≤ intMax) → cpuset1.length<len → cpuset2.length<len →
      ∀ bms, bms=(if sub then bms1 \ bms2 else bms1 ∪ bms2) → bms.Nonempty →
        (cpusetText bms).length<len →
        ((∃ cpuset ends, cpusetOperation root cpuset1 cpuset2 len sub=some cpuset ∧
          Denotes cpuset bms ends) ↔ intMax∉ends1 ∧ intMax∉ends2 ∧ intMax∉bms) := by
  constructor
  · intro bms hne hlt hfits
    constructor
    · rintro ⟨cpuset,hprint,-⟩ hmax
      simp [bitsetToCpuset,hmax] at hprint
    · intro hmax
      obtain ⟨ends,hden⟩ := cpusetText_denotes bms
      refine ⟨_,bitsetToCpuset_eq hne hmax hfits,?_⟩
      rw [cpusetToBitset_eq hden hlt hfits,if_neg fun hmem => hmax (hden.ends_mem _ hmem)]
  · intro root cpuset1 cpuset2 bms1 bms2 ends1 ends2 sub h1 h2 hlt hlen1 hlen2 bms hbms hne hfits
    have hread1 := cpusetToBitset_eq h1 (fun x hx => hlt x (mem_union_left _ hx)) hlen1
    have hread2 := cpusetToBitset_eq h2 (fun x hx => hlt x (mem_union_right _ hx)) hlen2
    have hprint : intMax∉ends1 → intMax∉ends2 →
        cpusetOperation root cpuset1 cpuset2 len sub=bitsetToCpuset bms len := by
      intro hmax1 hmax2
      rw [if_neg hmax1] at hread1
      rw [if_neg hmax2] at hread2
      simp only [cpusetOperation,hread1,hread2,Option.bind_eq_bind,Option.bind_some,← hbms]
      rw [if_neg hne.ne_empty]
    constructor
    · rintro ⟨cpuset,ends,hop,-⟩
      have hmax1 : intMax∉ends1 := fun hmax => by
        rw [if_pos hmax] at hread1
        simp [cpusetOperation,hread1] at hop
      have hmax2 : intMax∉ends2 := fun hmax => by
        rw [if_neg hmax1] at hread1
        rw [if_pos hmax] at hread2
        simp [cpusetOperation,hread1,hread2] at hop
      refine ⟨hmax1,hmax2,fun hmax => ?_⟩
      rw [hprint hmax1 hmax2] at hop
      simp [bitsetToCpuset,hmax] at hop
    · rintro ⟨hmax1,hmax2,hmax⟩
      obtain ⟨ends,hden⟩ := cpusetText_denotes bms
      exact ⟨_,ends,by rw [hprint hmax1 hmax2,bitsetToCpuset_eq hne hmax hfits],hden⟩

/-- The largest `int` is read as a number, and taken away. -/
theorem cpuset_set_algebra_difference : ∃ cpuset ends,
    cpusetOperation [] "1-2".toList "2147483647,2".toList 1024 true=some cpuset ∧
      Denotes cpuset {1} ends := by
  have hdgt : ∀ ds : List Char, ds≠[] ∧ ds.all Char.isDigit=true → Digits ds :=
    fun ds h => ⟨h.1,List.all_eq_true.mp h.2⟩
  have h1 : Denotes (['1'] ++ '-'::['2']) (Icc 1 2) [2] :=
    .last (.range (hdgt _ (by decide)) (hdgt _ (by decide)) (by decide))
  have h2 : Denotes ("2147483647".toList ++ ','::['2']) ({intMax} ∪ {2}) [] :=
    .item (.number (hdgt _ (by decide))) (.last (.number (hdgt _ (by decide))))
  exact ((cpuset_set_algebra 1024).2 [] _ _ _ _ _ _ true h1 h2 (by decide) (by decide) (by decide)
    {1} (by decide) (singleton_nonempty 1) (by rw [cpusetText,sort_singleton]; decide)).mpr
    (by decide)

/-- The largest `int` is neither printed nor read as the end of a range. -/
theorem cpuset_max_not_printed : (cpusetText {intMax}).length < maxCpuSetLength ∧
    bitsetToCpuset {intMax} maxCpuSetLength=none ∧
    cpusetToBitset "5-2147483647".toList maxCpuSetLength=none := by
  refine ⟨?_,if_pos (Finset.mem_singleton_self _),by decide +kernel⟩
  rw [cpusetText,sort_singleton]
  decide +kernel

end WarehousePG.ResGroup
