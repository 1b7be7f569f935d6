import Mathlib.Data.UInt

namespace WarehousePG.Distribution

inductive CdbHashReduce where
  | reduceLazymod
  | reduceBitmask
  | reduceJumpHash
  deriving DecidableEq

/-- A hash function of a distribution column. The legacy functions continue from the value that
`cdbhash` leaves in `magic_hash_stash`. -/
structure HashFunc (D : Type*) where
  isLegacyCdbHashFunction : Bool
  call : UInt32 → D → UInt32

structure CdbHash (D : Type*) where
  hash : UInt32
  numsegs : Nat
  reducealg : CdbHashReduce
  isLegacyHash : Bool
  hashfuncs : List (HashFunc D)

def fnv1_32Init : UInt32 := 0x811c9dc5

def fastmod (x y : Nat) : Nat := x &&& (y-1)

def ispowof2 (numsegs : Nat) : Bool := numsegs &&& (numsegs-1)=0

section Tuple

variable {D : Type*} (cdblegacyhashNull : UInt32 → UInt32)

def makeCdbHash (numsegs : Nat) (hashfuncs : List (HashFunc D)) : CdbHash D :=
  let isLegacyHash := hashfuncs.any (·.isLegacyCdbHashFunction)
  { hash := 0
    numsegs := numsegs
    reducealg :=
      if isLegacyHash then if ispowof2 numsegs then .reduceBitmask else .reduceLazymod
      else .reduceJumpHash
    isLegacyHash := isLegacyHash
    hashfuncs := hashfuncs }

def cdbhashinit (h : CdbHash D) : CdbHash D :=
  { h with hash := if h.isLegacyHash then fnv1_32Init else 0 }

def rotateLeft1 (hashkey : UInt32) : UInt32 :=
  (hashkey <<< 1) ||| (if hashkey &&& 0x80000000=0 then 0 else 1)

def cdbhash (h : CdbHash D) (hashfunc : HashFunc D) (datum : Option D) : CdbHash D :=
  { h with
    hash :=
      if h.isLegacyHash then
        match datum with
        | some datum => hashfunc.call h.hash datum
        | none => cdblegacyhashNull h.hash
      else
        match datum with
        | some datum => rotateLeft1 h.hash ^^^ hashfunc.call fnv1_32Init datum
        | none => rotateLeft1 h.hash }

def cdbhashTuple (h : CdbHash D) (datums : List (Option D)) : CdbHash D :=
  (h.hashfuncs.zip datums).foldl (fun h a => cdbhash cdblegacyhashNull h a.1 a.2) (cdbhashinit h)

end Tuple

section Jump

def nextKey (key : UInt64) : UInt64 := key*2862933555777941757+1

/-- The jump from `b`: the double arithmetic of the source taken exactly. -/
def jump (b : Nat) (key : UInt64) : Nat := (b+1)*2^31/((key >>> 33).toNat+1)

theorem lt_jump (b : Nat) (key : UInt64) : b<jump b key := by
  have hkey : (key >>> 33).toNat=key.toNat/2^33 := by
    rw [UInt64.toNat_shiftRight,Nat.shiftRight_eq_div_pow]
    rfl
  have hlt := key.toNat_lt
  have hle : (key >>> 33).toNat+1≤2^31 := by omega
  exact (Nat.le_div_iff_mul_le (by omega)).mpr (Nat.mul_le_mul_left (b+1) hle)

def jumpLoop (numSegments : Nat) (key : UInt64) (b : Int) (j : Nat) : Int :=
  if j<numSegments then
    jumpLoop numSegments (nextKey key) j (jump j (nextKey key))
  else b
termination_by numSegments-j
decreasing_by
  have hlt := lt_jump j (nextKey key)
  omega

def jumpConsistentHash (key : UInt64) (numSegments : Nat) : Int := jumpLoop numSegments key (-1) 0

end Jump

def cdbhashreduce {D : Type*} (h : CdbHash D) : Int :=
  match h.reducealg with
  | .reduceBitmask => fastmod h.hash.toNat h.numsegs
  | .reduceLazymod => (h.hash.toNat%h.numsegs : Nat)
  | .reduceJumpHash => jumpConsistentHash h.hash.toUInt64 h.numsegs

variable {m n j : Nat} {b : Int} {key : UInt64}

theorem le_jumpLoop (hb : b<j) : b≤jumpLoop n key b j := by
  fun_induction jumpLoop n key b j with
  | case1 key b j hj ih =>
    have hlt := lt_jump j (nextKey key)
    have hle := ih (by omega)
    omega
  | case2 => exact le_refl _

theorem jumpLoop_lt (hb : b<n) : jumpLoop n key b j<n := by
  fun_induction jumpLoop n key b j with
  | case1 key b j hj ih => exact ih (by omega)
  | case2 => exact hb

theorem jumpConsistentHash_nonneg (hn : 0<n) (key : UInt64) : 0≤jumpConsistentHash key n := by
  unfold jumpConsistentHash
  rw [jumpLoop,if_pos hn]
  have hlt := lt_jump 0 (nextKey key)
  exact le_jumpLoop (by omega)

theorem jumpConsistentHash_lt (hn : 0<n) (key : UInt64) : jumpConsistentHash key n<n := by
  apply jumpLoop_lt
  omega

theorem jumpLoop_eq_or_le (hb : b<j) (hmn : m≤n) :
    jumpLoop n key b j=jumpLoop m key b j ∨ m≤jumpLoop n key b j := by
  fun_induction jumpLoop n key b j with
  | case1 key b j hj ih =>
    have hlt := lt_jump j (nextKey key)
    by_cases hjm : j < m
    · have hm : jumpLoop m key b j=jumpLoop m (nextKey key) j (jump j (nextKey key)) := by
        rw [jumpLoop,if_pos hjm]
      rw [hm]
      exact ih (by omega)
    · have hle : (j : Int)≤jumpLoop n (nextKey key) j (jump j (nextKey key)) :=
        le_jumpLoop (by omega)
      right
      omega
  | case2 key b j hj =>
    left
    rw [jumpLoop,if_neg (by omega)]

theorem jumpConsistentHash_eq_or_le (hmn : m≤n) (key : UInt64) :
    jumpConsistentHash key n=jumpConsistentHash key m ∨ m≤jumpConsistentHash key n :=
  jumpLoop_eq_or_le (by omega) hmn

section Tuples

variable {D : Type*}

/-- The number of segments and the reduction have no influence on the hash of a row. -/
theorem cdbhashTuple_eq (cdblegacyhashNull : UInt32 → UInt32) (h : CdbHash D)
    (datums : List (Option D)) (numsegs : Nat) (reducealg : CdbHashReduce) :
    cdbhashTuple cdblegacyhashNull { h with numsegs, reducealg } datums=
      { h with
        numsegs, reducealg
        hash := (cdbhashTuple cdblegacyhashNull h datums).hash } := by
  have hfold : ∀ (l : List (HashFunc D × Option D)) (h : CdbHash D),
      l.foldl (fun h a => cdbhash cdblegacyhashNull h a.1 a.2) { h with numsegs, reducealg }=
        { h with
          numsegs, reducealg
          hash := (l.foldl (fun h a => cdbhash cdblegacyhashNull h a.1 a.2) h).hash } := by
    intro l
    induction l with
    | nil => exact fun h => rfl
    | cons a l ih => exact fun h => ih (cdbhash cdblegacyhashNull h a.1 a.2)
  exact hfold _ (cdbhashinit h)

/-- Jump consistent hashing moves data minimally: every key has a segment, and when the number of
segments grows from m to n, a key, and a row that is hashed by the jump hash, stays on its segment
or moves to one of the new segments. -/
theorem jump_hash_moves_minimally (cdblegacyhashNull : UInt32 → UInt32) (hm : 0 < m) (hmn : m≤n) :
    (∀ key, 0≤jumpConsistentHash key n ∧ jumpConsistentHash key n<n ∧
      (jumpConsistentHash key n=jumpConsistentHash key m ∨ m≤jumpConsistentHash key n)) ∧
    ∀ (h : CdbHash D) (datums : List (Option D)), h.reducealg=.reduceJumpHash →
      cdbhashreduce (cdbhashTuple cdblegacyhashNull { h with numsegs := n } datums)=
          cdbhashreduce (cdbhashTuple cdblegacyhashNull { h with numsegs := m } datums) ∨
        m≤cdbhashreduce (cdbhashTuple cdblegacyhashNull { h with numsegs := n } datums) := by
  have hn : 0<n := by omega
  constructor
  · intro key
    exact ⟨jumpConsistentHash_nonneg hn key,jumpConsistentHash_lt hn key,
      jumpConsistentHash_eq_or_le hmn key⟩
  · intro h datums halg
    rw [cdbhashTuple_eq _ h datums n h.reducealg,cdbhashTuple_eq _ h datums m h.reducealg]
    simp only [cdbhashreduce,halg]
    exact jumpConsistentHash_eq_or_le hmn _

theorem jump_hash_moves_minimally_three_five :
    (0<3 ∧ 3≤5) ∧
      (jumpConsistentHash 7 5=jumpConsistentHash 7 3 ∨ 3≤jumpConsistentHash 7 5) := by
  have h := jump_hash_moves_minimally (m := 3) (n := 5) (D := Nat) (fun x => x) (by decide)
    (by decide)
  exact ⟨⟨by decide,by decide⟩,(h.1 7).2.2⟩

theorem fastmod_eq (hpow : ispowof2 (n+1)=true) (x : Nat) : fastmod x (n+1)=x%(n+1) := by
  obtain ⟨k,hk⟩ := (Nat.and_sub_one_eq_zero_iff_isPowerOfTwo (Nat.add_one_ne_zero n)).mp
    (of_decide_eq_true hpow)
  rw [fastmod,hk,Nat.and_two_pow_sub_one_eq_mod]

/-- With a legacy hash function a row has one hash, whatever the number of segments, and its segment
is the remainder of the hash, by a mask or by a division. -/
theorem legacy_segment_exact (cdblegacyhashNull : UInt32 → UInt32) (hashfuncs : List (HashFunc D))
    (hlegacy : hashfuncs.any (·.isLegacyCdbHashFunction)=true) (datums : List (Option D)) :
    ∃ hash : UInt32, ∀ n,
      cdbhashreduce (cdbhashTuple cdblegacyhashNull (makeCdbHash (n+1) hashfuncs) datums)=
        ((hash.toNat%(n+1) : Nat) : Int) := by
  refine ⟨(cdbhashTuple cdblegacyhashNull (makeCdbHash 1 hashfuncs) datums).hash,fun n => ?_⟩
  have hmake : makeCdbHash (n+1) hashfuncs={ makeCdbHash 1 hashfuncs with
      numsegs := n+1, reducealg := (makeCdbHash (n+1) hashfuncs).reducealg } := rfl
  rw [hmake,cdbhashTuple_eq]
  cases hpow : ispowof2 (n+1) with
  | true => simp [cdbhashreduce,makeCdbHash,hlegacy,hpow,fastmod_eq]
  | false => simp [cdbhashreduce,makeCdbHash,hlegacy,hpow]

/-- A legacy function of two columns, the second of them NULL. -/
def twoColumns : List (HashFunc UInt32) :=
  [⟨true,fun stash datum => stash*16777619^^^datum⟩,⟨true,fun stash datum => stash^^^datum⟩]

theorem legacy_segment_exact_two_columns : ∃ hash : UInt32, ∀ n, cdbhashreduce (cdbhashTuple (·+1)
      (makeCdbHash (n+1) twoColumns) [some 7,none])=((hash.toNat%(n+1) : Nat) : Int) :=
  legacy_segment_exact (·+1) twoColumns rfl [some 7,none]

end Tuples

end WarehousePG.Distribution
