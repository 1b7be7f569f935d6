import Mathlib.Tactic.Common

namespace WarehousePG.Transam

def slruPagesPerSegment : Nat := 32

/-- What the users of an SLRU supply: the order of pages, and the page of zeroes. -/
structure SlruCtl (π : Type) where
  pagePrecedes : Nat → Nat → Bool
  zero : π

/-- A simple LRU. `page` is what a read finds, in a buffer or in the file; `physical` says that the
segment file is long enough to hold the page. -/
structure Slru (π : Type) where
  page : Nat → Option π
  physical : Nat → Bool
  latestPageNumber : Nat

namespace Slru

variable {π : Type} (ctl : SlruCtl π) (s : Slru π)

/-- The first page of the segment that holds `p`. -/
def segPage (p : Nat) : Nat := p-p%slruPagesPerSegment

/-- `SimpleLruZeroPage`: the page is set up in a buffer and becomes the latest one. -/
def zeroPage (p : Nat) : Slru π :=
  { s with
    page := Function.update s.page p (some ctl.zero)
    latestPageNumber := p }

/-- One of the pages from `p` to the end of its segment is in memory and gets written. -/
def extended (w : Nat → Bool) (p : Nat) : Bool :=
  (List.range' p (slruPagesPerSegment-p%slruPagesPerSegment)).any
    fun q => w q && (s.page q).isSome

/-- Write the pages `w` that are in memory. A file that grows reads as zeroes up to its new end. -/
def writePages (w : Nat → Bool) : Slru π :=
  { s with
    page := fun p => s.page p <|> if s.extended w p then some ctl.zero else none
    physical := fun p => s.physical p || s.extended w p }

def mayDeleteSegment (segpage cutoffPage : Nat) : Bool :=
  ctl.pagePrecedes segpage cutoffPage &&
    ctl.pagePrecedes (segpage+slruPagesPerSegment-1) cutoffPage

/-- `SlruScanDirectory` with `SlruScanDirCbReportPresence` over the files of the first `n`
segments. -/
def reportPresence (n cutoffPage : Nat) : Bool :=
  (List.range n).any fun segno =>
    (List.range' (segno*slruPagesPerSegment) slruPagesPerSegment).any s.physical &&
      mayDeleteSegment ctl (segno*slruPagesPerSegment) cutoffPage

/-- `SimpleLruTruncate`: dirty buffers before the cutoff are written out, then the segments that lie
before it are removed. -/
def truncate (cutoffPage : Nat) : Slru π :=
  if ctl.pagePrecedes s.latestPageNumber cutoffPage then s
  else
    let t := s.writePages ctl fun p => ctl.pagePrecedes p cutoffPage
    { t with
      page := fun p => if mayDeleteSegment ctl (segPage p) cutoffPage then none else t.page p
      physical := fun p => !mayDeleteSegment ctl (segPage p) cutoffPage && t.physical p }

/-- `SimpleLruReadPage`: the startup process reads a page of a missing file as zeroes. -/
def readPage (inRecovery : Bool) (p : Nat) : Option π :=
  s.page p <|>
    if inRecovery && !(List.range' (segPage p) slruPagesPerSegment).any s.physical then
      some ctl.zero
    else none

def setPage (p : Nat) (pg : π) : Slru π := { s with page := Function.update s.page p (some pg) }

variable {s}

@[simp] theorem zeroPage_page_self : (s.zeroPage ctl p).page p=some ctl.zero := by simp [zeroPage]

theorem zeroPage_page_of_ne (h : q≠p) : (s.zeroPage ctl p).page q=s.page q := by simp [zeroPage,h]

@[simp] theorem setPage_page_self : (s.setPage p pg).page p=some pg := by simp [setPage]

theorem setPage_page_of_ne (h : q≠p) : (s.setPage p pg).page q=s.page q := by simp [setPage,h]

theorem readPage_of_page (inRecovery : Bool) (h : s.page p=some pg) :
    s.readPage ctl inRecovery p=some pg := by
  simp [readPage,h]

attribute [local simp] Slru.writePages writePages

theorem writePages_page (w : Nat → Bool) (h : s.page p=some pg) :
    (s.writePages ctl w).page p=some pg := by
  simp [h]

theorem page_of_writePages (h : (s.writePages ctl w).page p=some pg) :
    s.page p=some pg ∨ pg=ctl.zero := by
  have hor : (s.page p <|> if s.extended w p then some ctl.zero else none)=some pg := h
  cases hpage : s.page p with
  | some q =>
    rw [hpage] at hor
    exact .inl hor
  | none =>
    rw [hpage] at hor
    obtain ⟨-,hzero⟩ := Option.ite_none_right_eq_some.mp hor
    exact .inr (Option.some.inj hzero).symm

theorem writePages_physical (w : Nat → Bool) (h : s.physical p=true) :
    (s.writePages ctl w).physical p=true := by
  simp [h]

theorem writePages_physical_self (w : Nat → Bool) (hw : w p=true) (h : s.page p=some pg) :
    (s.writePages ctl w).physical p=true := by
  have hmod : p%slruPagesPerSegment<slruPagesPerSegment := Nat.mod_lt _ (by decide)
  have hext : s.extended w p=true := by
    rw [extended,List.any_eq_true]
    refine ⟨p,?_,by simp [hw,h]⟩
    rw [List.mem_range']
    exact ⟨0,by omega,by simp⟩
  simp [hext]

section

variable (hkeep : mayDeleteSegment ctl (segPage p) cutoffPage=false)
include hkeep

theorem truncate_page (h : s.page p=some pg) : (s.truncate ctl cutoffPage).page p=some pg := by
  unfold truncate
  split
  · exact h
  · show (if mayDeleteSegment ctl (segPage p) cutoffPage then none else _)=_
    rw [hkeep]
    exact writePages_page ctl _ h

theorem truncate_physical
    (h : s.physical p=true) : (s.truncate ctl cutoffPage).physical p=true := by
  unfold truncate
  split
  · exact h
  · show (!mayDeleteSegment ctl (segPage p) cutoffPage && _)=true
    rw [hkeep]
    exact writePages_physical ctl _ h

end

def InFile (s : Slru π) : Prop := ∀ p, s.physical p=true → (s.page p).isSome=true

variable (h : s.InFile)
include h

theorem InFile.zeroPage : (s.zeroPage ctl p).InFile := by
  intro q hq
  by_cases hpq : q=p
  · rw [hpq,zeroPage_page_self]
    rfl
  · rw [zeroPage_page_of_ne ctl hpq]
    exact h q hq

theorem InFile.setPage : (s.setPage p pg).InFile := by
  intro q hq
  by_cases hpq : q=p
  · rw [hpq,setPage_page_self]
    rfl
  · rw [setPage_page_of_ne hpq]
    exact h q hq

theorem InFile.writePages (w : Nat → Bool) : (s.writePages ctl w).InFile := by
  intro q hq
  have hor : s.physical q=true ∨ s.extended w q=true := by simpa using hq
  rcases hor with hfile | hext
  · obtain ⟨pg,hpg⟩ := Option.isSome_iff_exists.mp (h q hfile)
    rw [writePages_page ctl w hpg]
    rfl
  · cases hpage : s.page q with
    | none => simp [hpage,hext]
    | some pg => simp [hpage]

theorem InFile.truncate : (s.truncate ctl cutoffPage).InFile := by
  unfold Slru.truncate
  split
  · exact h
  · intro q hq
    have hand := Bool.and_eq_true_iff.mp hq
    have hkeep : mayDeleteSegment ctl (segPage q) cutoffPage=false := by simpa using hand.1
    show (if mayDeleteSegment ctl (segPage q) cutoffPage then none else _).isSome=true
    rw [hkeep]
    exact h.writePages ctl _ q hand.2

end Slru

end WarehousePG.Transam
