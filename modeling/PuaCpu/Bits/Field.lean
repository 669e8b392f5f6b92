import Mathlib.Data.BitVec

/-! # Bit fields

Assignment to a field of a bit vector, the masked merge of two bit vectors and
the rounding to a power of two, each described by what it does to one bit.
-/

namespace Bits

variable {n : ℕ}

/-- Replace the bits of `x` from `lo` on by those of `v`. -/
def set (x : BitVec n) (lo : ℕ) {w : ℕ} (v : BitVec w) : BitVec n :=
  (x &&& ~~~((BitVec.allOnes w).setWidth n <<< lo)) ||| (v.setWidth n <<< lo)

/-- Take the bits of `new` where `mask` is set and those of `old` elsewhere. -/
def merge (mask old new : BitVec n) : BitVec n := (new &&& mask) ||| (old &&& ~~~mask)

theorem getLsbD_set (x : BitVec n) (lo : ℕ) {w : ℕ} (v : BitVec w) {i : ℕ} (hi : i < n) :
    (set x lo v).getLsbD i =
      if lo ≤ i ∧ i < lo + w then v.getLsbD (i - lo) else x.getLsbD i := by
  by_cases hlo : i < lo
  · simp [set, hi, hlo, show ¬ lo ≤ i by omega]
  · by_cases hw : i - lo < w
    · simp [set, hi, hlo, hw, show lo ≤ i by omega, show i < lo + w by omega]
    · have hv : v.getLsbD (i - lo) = false := BitVec.getLsbD_of_ge _ _ (by omega)
      simp [set, hi, hlo, hw, hv, show ¬ i < lo + w by omega]

theorem extract_set (x : BitVec n) (lo : ℕ) {w : ℕ} (v : BitVec w) (h : lo + w ≤ n) :
    (set x lo v).extractLsb' lo w = v := by
  apply BitVec.eq_of_getLsbD_eq
  intro i hi
  rw [BitVec.getLsbD_extractLsb', getLsbD_set _ _ _ (by omega), if_pos (by omega)]
  simp [hi]

theorem extract_set_disjoint (x : BitVec n) {lo lo' : ℕ} {w w' : ℕ} (v : BitVec w)
    (h' : lo' + w' ≤ n) (hd : lo' + w' ≤ lo ∨ lo + w ≤ lo') :
    (set x lo v).extractLsb' lo' w' = x.extractLsb' lo' w' := by
  apply BitVec.eq_of_getLsbD_eq
  intro i hi
  rw [BitVec.getLsbD_extractLsb', BitVec.getLsbD_extractLsb',
    getLsbD_set _ _ _ (by omega), if_neg (by omega)]

theorem set_comm (x : BitVec n) {lo lo' : ℕ} {w w' : ℕ} (v : BitVec w) (v' : BitVec w')
    (hd : lo' + w' ≤ lo ∨ lo + w ≤ lo') : set (set x lo v) lo' v' = set (set x lo' v') lo v := by
  apply BitVec.eq_of_getLsbD_eq
  intro i hi
  simp only [getLsbD_set _ _ _ hi]
  split_ifs <;> first | rfl | omega

theorem getLsbD_merge (mask old new : BitVec n) (i : ℕ) :
    (merge mask old new).getLsbD i =
      if mask.getLsbD i then new.getLsbD i else old.getLsbD i := by
  by_cases hi : i < n
  · cases hm : mask.getLsbD i <;>
      simp only [merge, BitVec.getLsbD_or, BitVec.getLsbD_and, BitVec.getLsbD_not, hi, hm] <;>
      simp
  · simp [BitVec.getLsbD_of_ge _ _ (Nat.le_of_not_lt hi)]

theorem extract_merge_of_set {mask : BitVec n} {lo w : ℕ} (old new : BitVec n)
    (h : ∀ j < w, mask.getLsbD (lo + j) = true) :
    (merge mask old new).extractLsb' lo w = new.extractLsb' lo w := by
  apply BitVec.eq_of_getLsbD_eq
  intro j hj
  simp [getLsbD_merge, h j hj]

theorem extract_merge_of_clear {mask : BitVec n} {lo w : ℕ} (old new : BitVec n)
    (h : ∀ j < w, mask.getLsbD (lo + j) = false) :
    (merge mask old new).extractLsb' lo w = old.extractLsb' lo w := by
  apply BitVec.eq_of_getLsbD_eq
  intro j hj
  simp [getLsbD_merge, h j hj]

@[simp] theorem merge_zero (old new : BitVec n) : merge 0#n old new = old := by
  simp [merge]

@[simp] theorem merge_self (mask x : BitVec n) : merge mask x x = x := by
  apply BitVec.eq_of_getLsbD_eq
  intro i _
  rw [getLsbD_merge, ite_self]

@[simp] theorem merge_allOnes (old new : BitVec n) : merge (BitVec.allOnes n) old new = new := by
  simp [merge]

theorem getLsbD_neg_shiftLeft (k m : ℕ) :
    (-(1#n <<< k)).getLsbD m = (decide (m < n) && decide (k ≤ m)) := by
  have h : -(1#n <<< k) = BitVec.allOnes n <<< k := by
    rw [BitVec.shiftLeft_eq_mul_twoPow, BitVec.shiftLeft_eq_mul_twoPow, ← BitVec.neg_mul,
      BitVec.neg_one_eq_allOnes]
  rw [h, BitVec.getLsbD_shiftLeft, BitVec.getLsbD_allOnes, Bool.eq_iff_iff]
  simp only [Bool.and_eq_true, Bool.not_eq_true', decide_eq_true_eq, decide_eq_false_iff_not]
  omega

theorem sub_umod (x : BitVec n) {k : ℕ} (hk : k < n) :
    x - x % (1#n <<< k) = x &&& -(1#n <<< k) := by
  have hp : (1#n <<< k).toNat = 2 ^ k := by
    rw [BitVec.toNat_shiftLeft, BitVec.toNat_ofNat,
      Nat.mod_eq_of_lt (Nat.one_lt_two_pow (by omega)), Nat.shiftLeft_eq, one_mul,
      Nat.mod_eq_of_lt (Nat.pow_lt_pow_right (by decide) hk)]
  have hle : x % (1#n <<< k) ≤ x := by
    rw [BitVec.le_def, BitVec.toNat_umod]
    exact Nat.mod_le _ _
  have hx : (x - x % (1#n <<< k)).toNat = 2 ^ k * (x.toNat / 2 ^ k) := by
    rw [BitVec.toNat_sub_of_le hle, BitVec.toNat_umod, hp]
    exact Nat.sub_eq_of_eq_add (Nat.div_add_mod _ _).symm
  apply BitVec.eq_of_getLsbD_eq
  intro i hi
  rw [BitVec.getLsbD_and, getLsbD_neg_shiftLeft, ← BitVec.testBit_toNat, hx,
    Nat.testBit_two_pow_mul, Nat.testBit_div_two_pow, decide_eq_true hi, Bool.true_and]
  by_cases hik : k ≤ i
  · rw [decide_eq_true hik, Nat.sub_add_cancel hik, BitVec.testBit_toNat, Bool.true_and,
      Bool.and_true]
  · rw [decide_eq_false hik, Bool.false_and, Bool.and_false]

end Bits
