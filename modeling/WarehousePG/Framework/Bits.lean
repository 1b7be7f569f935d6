import Mathlib.Algebra.Group.Nat.Defs

namespace WarehousePG.Framework

theorem shiftLeft_or (a : Nat) (h : b<2^i) : a<<<i ||| b=a*2^i+b := by
  rw [← Nat.shiftLeft_add_eq_or_of_lt h,Nat.shiftLeft_eq]

variable {w a b : Nat}

/-- Counters at most half the range of a word apart differ by the signed difference of their
words. -/
theorem toInt_ofNat_sub_ofNat (hab : a<b+2^w) (hba : b≤a+2^w) :
    (BitVec.ofNat (w+1) a-BitVec.ofNat (w+1) b).toInt=(a : Int)-b := by
  have hpow : 2^(w+1)=2*2^w := by rw [Nat.pow_succ,Nat.mul_comm]
  have ha : (BitVec.ofNat (w+1) a).toInt=(a : Int).bmod (2^(w+1)) := BitVec.toInt_ofNat a
  have hb : (BitVec.ofNat (w+1) b).toInt=(b : Int).bmod (2^(w+1)) := BitVec.toInt_ofNat b
  rw [BitVec.toInt_sub,ha,hb,Int.bmod_sub_bmod,Int.sub_bmod_bmod]
  apply Int.bmod_eq_of_le
  · omega
  · omega

theorem eq_of_mod_eq {m : Nat} (h : a%m=b%m) (hab : a<b+m) (hba : b<a+m) : a=b := by
  have hd := Nat.div_add_mod a m
  have hd' := Nat.div_add_mod b m
  have hq : a/m=b/m := by
    rcases Nat.lt_trichotomy (a/m) (b/m) with hlt | heq | hgt
    · have := Nat.mul_le_mul_left m hlt
      rw [Nat.mul_succ] at this
      omega
    · exact heq
    · have := Nat.mul_le_mul_left m hgt
      rw [Nat.mul_succ] at this
      omega
  rw [hq,h] at hd
  omega

end WarehousePG.Framework
