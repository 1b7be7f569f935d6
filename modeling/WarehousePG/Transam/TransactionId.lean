import Mathlib.Tactic.Common
import WarehousePG.Framework.Bits

namespace WarehousePG.Transam

abbrev TransactionId := UInt32

def invalidTransactionId : TransactionId := 0

def firstNormalTransactionId : TransactionId := 3

def transactionIdIsValid (xid : TransactionId) : Bool := xid≠invalidTransactionId

def transactionIdIsNormal (xid : TransactionId) : Bool := firstNormalTransactionId≤xid

/-- The order of two xids: plain for the permanent ones, modulo 2^32 for normal ones. -/
def transactionIdPrecedes (id1 id2 : TransactionId) : Bool :=
  if !transactionIdIsNormal id1 || !transactionIdIsNormal id2 then id1 < id2
  else (id1-id2).toInt32<0

def transactionIdFollows (id1 id2 : TransactionId) : Bool :=
  if !transactionIdIsNormal id1 || !transactionIdIsNormal id2 then id1>id2
  else (id1-id2).toInt32>0

def transactionIdPrecedesOrEquals (id1 id2 : TransactionId) : Bool :=
  if !transactionIdIsNormal id1 || !transactionIdIsNormal id2 then id1 ≤ id2
  else (id1-id2).toInt32≤0

def transactionIdFollowsOrEquals (id1 id2 : TransactionId) : Bool :=
  if !transactionIdIsNormal id1 || !transactionIdIsNormal id2 then id1≥id2
  else (id1-id2).toInt32≥0

/-- The loop of the source steps back over the permanent xids. -/
def transactionIdRetreat (xid : TransactionId) : TransactionId :=
  if xid≤firstNormalTransactionId then 0xFFFFFFFF else xid-1

def subtransXactsPerPage : UInt32 := 32768/4

def subTransPagePrecedes (page1 page2 : UInt32) : Bool :=
  let xid1 := page1*subtransXactsPerPage+(firstNormalTransactionId+1)
  let xid2 := page2*subtransXactsPerPage+(firstNormalTransactionId+1)
  transactionIdPrecedes xid1 xid2 &&
    transactionIdPrecedes xid1 (xid2+subtransXactsPerPage-1)

/-- The range that ends at `xmax` lies on pages before the first one zeroed at start. -/
def subTransXidRangeSurvivesStartup (xmax oldestActiveXid : TransactionId) : Bool :=
  let lastPage := transactionIdRetreat xmax/subtransXactsPerPage
  let zeroedPage := oldestActiveXid/subtransXactsPerPage
  lastPage≠zeroedPage && subTransPagePrecedes lastPage zeroedPage

open Framework

/-- A normal xid with its epoch. The code under `DistributedLog` sees the low 32 bits only. -/
structure FullTransactionId where
  value : Nat
  normal : 3≤value%2^32
deriving DecidableEq

namespace FullTransactionId

variable {x y : FullTransactionId}

/-- `XidFromFullTransactionId`. -/
def xid (x : FullTransactionId) : TransactionId := UInt32.ofNat x.value

/-- `FullTransactionIdAdvance`: the loop steps over the three permanent xids of an epoch. -/
def advance (x : FullTransactionId) : FullTransactionId :=
  if h : 3≤(x.value+1)%2^32 then ⟨x.value+1,h⟩
  else ⟨x.value+4,by have := x.normal; omega⟩

@[ext] theorem ext (h : x.value=y.value) : x=y := by
  cases x
  cases y
  simp_all

theorem xid_toNat (x : FullTransactionId) : x.xid.toNat=x.value%2^32 := by simp [xid]

theorem transactionIdIsNormal_xid (x : FullTransactionId) : transactionIdIsNormal x.xid=true := by
  have h := x.normal
  simp only [transactionIdIsNormal,firstNormalTransactionId,decide_eq_true_eq,
    UInt32.le_iff_toNat_le,xid_toNat]
  exact h

theorem lt_advance (x : FullTransactionId) : x.value<x.advance.value := by
  unfold advance
  split <;> simp

theorem advance_le_of_lt (h : x.value<y.value) : x.advance.value≤y.value := by
  have hx := x.normal
  have hy := y.normal
  unfold advance
  split_ifs with hn
  · exact h
  · show x.value+4≤y.value
    omega

theorem le_of_lt_advance (h : y.value<x.advance.value) : y.value≤x.value := by
  by_contra hlt
  have := advance_le_of_lt (Nat.lt_of_not_le hlt)
  omega

section

variable (hxy : x.value<y.value+2^31) (hyx : y.value≤x.value+2^31)
include hxy hyx

theorem toInt_xid_sub : (x.xid-y.xid).toInt32.toInt=(x.value : Int)-y.value :=
  toInt_ofNat_sub_ofNat hxy hyx

theorem precedes_iff : transactionIdPrecedes x.xid y.xid=true ↔ x.value<y.value := by
  have hsub := toInt_xid_sub hxy hyx
  simp only [transactionIdPrecedes,transactionIdIsNormal_xid,Bool.not_true,Bool.or_self,
    Bool.false_eq_true,if_false,decide_eq_true_eq,Int32.lt_iff_toInt_lt,hsub]
  show (x.value : Int)-y.value<0 ↔ _
  omega

theorem precedesOrEquals_iff :
    transactionIdPrecedesOrEquals x.xid y.xid=true ↔ x.value≤y.value := by
  have hsub := toInt_xid_sub hxy hyx
  simp only [transactionIdPrecedesOrEquals,transactionIdIsNormal_xid,Bool.not_true,Bool.or_self,
    Bool.false_eq_true,if_false,decide_eq_true_eq,Int32.le_iff_toInt_le,hsub]
  show (x.value : Int)-y.value≤0 ↔ _
  omega

theorem followsOrEquals_iff : transactionIdFollowsOrEquals x.xid y.xid=true ↔ y.value≤x.value := by
  have hsub := toInt_xid_sub hxy hyx
  simp only [transactionIdFollowsOrEquals,transactionIdIsNormal_xid,Bool.not_true,Bool.or_self,
    Bool.false_eq_true,if_false,decide_eq_true_eq,ge_iff_le,Int32.le_iff_toInt_le,hsub]
  show 0≤(x.value : Int)-y.value ↔ _
  omega

end

theorem xid_inj (h : x.xid=y.xid) (hxy : x.value<y.value+2^32) (hyx : y.value<x.value+2^32) :
    x=y := by
  apply ext
  apply eq_of_mod_eq _ hxy hyx
  rw [← xid_toNat,← xid_toNat,h]

end FullTransactionId

end WarehousePG.Transam
