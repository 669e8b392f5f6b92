import Mathlib.Data.BitVec

/-! # Arithmetic at several widths

Sums, products, signed quotients and remainders commute with truncation when
the operands were extended from the narrow width, and a remainder is what is
left of the dividend after the product.
-/

namespace Bits

variable {w v : ℕ}

theorem extract_eq_setWidth (x : BitVec v) : x.extractLsb' 0 w = x.setWidth w := by
  ext i hi
  simp

theorem extract_extract (x : BitVec v) {lo lo' u : ℕ} (h : lo' + w ≤ u) :
    (x.extractLsb' lo u).extractLsb' lo' w = x.extractLsb' (lo + lo') w := by
  apply BitVec.eq_of_getLsbD_eq
  intro i hi
  simp only [BitVec.getLsbD_extractLsb', hi, decide_true, Bool.true_and]
  rw [decide_eq_true (by omega), Bool.true_and, Nat.add_assoc]

theorem toNat_extract (x : BitVec v) (lo : ℕ) :
    (x.extractLsb' lo w).toNat = x.toNat / 2 ^ lo % 2 ^ w := by
  rw [BitVec.extractLsb'_toNat, Nat.shiftRight_eq_div_pow]

theorem setWidth_signExtend_of_le {u : ℕ} (x : BitVec u) (h : w ≤ u) (h' : u ≤ v) :
    (x.signExtend v).setWidth w = x.setWidth w := by
  apply BitVec.eq_of_getLsbD_eq
  intro i hi
  rw [BitVec.getLsbD_setWidth, BitVec.getLsbD_signExtend, if_pos (by omega)]
  simp [hi, show i < v by omega]

theorem setWidth_signExtend (x : BitVec w) (h : w ≤ v) : (x.signExtend v).setWidth w = x := by
  rw [setWidth_signExtend_of_le x le_rfl h, BitVec.setWidth_eq]

theorem setWidth_setWidth_self (x : BitVec w) (h : w ≤ v) : (x.setWidth v).setWidth w = x := by
  apply BitVec.eq_of_getLsbD_eq
  intro i hi
  simp [hi, show i < v by omega]

theorem setWidth_sub (x y : BitVec v) (h : w ≤ v) :
    (x - y).setWidth w = x.setWidth w - y.setWidth w := by
  have he : (x - y).setWidth w + y.setWidth w = x.setWidth w := by
    rw [← BitVec.setWidth_add _ _ h, BitVec.sub_add_cancel]
  rw [← he, BitVec.add_sub_cancel]

theorem toInt_signExtend (x : BitVec w) (h : w ≤ v) : (x.signExtend v).toInt = x.toInt :=
  BitVec.toInt_signExtend_of_le h

theorem signExtend_signExtend {u : ℕ} (x : BitVec w) (h : w ≤ v) (h' : v ≤ u) :
    (x.signExtend v).signExtend u = x.signExtend u := by
  apply BitVec.eq_of_toInt_eq
  rw [toInt_signExtend _ h', toInt_signExtend _ h, toInt_signExtend _ (h.trans h')]

theorem toInt_setWidth_of_le (x : BitVec v) (h : w ≤ v) :
    (x.setWidth w).toInt = x.toInt.bmod (2 ^ w) := by
  rw [BitVec.toInt_setWidth, BitVec.toInt_eq_toNat_bmod,
    Int.bmod_bmod_of_dvd (Nat.pow_dvd_pow 2 h)]

theorem exists_toInt_eq (x : BitVec v) (h : w ≤ v) :
    ∃ k : ℤ, x.toInt = (x.setWidth w).toInt + 2 ^ w * k := by
  refine ⟨x.toInt.bdiv (2 ^ w), ?_⟩
  rw [toInt_setWidth_of_le x h]
  exact_mod_cast (Int.bmod_add_bdiv x.toInt (2 ^ w)).symm

theorem toNat_eq_setWidth_add (x : BitVec v) (h : w ≤ v) :
    x.toNat = (x.setWidth w).toNat + 2 ^ w * (x.extractLsb' w (v - w)).toNat := by
  have hx : x.toNat / 2 ^ w < 2 ^ (v - w) := by
    rw [Nat.div_lt_iff_lt_mul (Nat.two_pow_pos w), ← Nat.pow_add, Nat.sub_add_cancel h]
    exact x.isLt
  rw [toNat_extract, BitVec.toNat_setWidth, Nat.mod_eq_of_lt hx, Nat.mod_add_div]

theorem setWidth_sdiv_signExtend (x y : BitVec w) (h : w ≤ v) :
    ((x.signExtend v).sdiv (y.signExtend v)).setWidth w = x.sdiv y := by
  apply BitVec.eq_of_toInt_eq
  rw [toInt_setWidth_of_le _ h, BitVec.toInt_sdiv, BitVec.toInt_sdiv, toInt_signExtend _ h,
    toInt_signExtend _ h, Int.bmod_bmod_of_dvd (Nat.pow_dvd_pow 2 h)]

theorem setWidth_srem_signExtend (x y : BitVec w) (h : w ≤ v) :
    ((x.signExtend v).srem (y.signExtend v)).setWidth w = x.srem y := by
  apply BitVec.eq_of_toInt_eq
  rw [toInt_setWidth_of_le _ h, BitVec.toInt_srem, toInt_signExtend _ h, toInt_signExtend _ h,
    ← BitVec.toInt_srem, BitVec.toInt_bmod_cancel]

theorem sub_sdiv_mul (x y : BitVec w) : x - x.sdiv y * y = x.srem y := by
  apply BitVec.eq_of_toInt_eq
  rw [BitVec.toInt_sub, BitVec.toInt_mul, BitVec.toInt_sdiv, Int.sub_bmod_bmod,
    ← Int.sub_bmod_bmod, Int.bmod_mul_bmod, Int.sub_bmod_bmod, mul_comm, ← Int.tmod_def,
    ← BitVec.toInt_srem, BitVec.toInt_bmod_cancel]

theorem sub_udiv_mul (x y : BitVec w) : x - x / y * y = x % y := by
  have h : x % y + x / y * y = x := by
    apply BitVec.eq_of_toNat_eq
    have hd := Nat.mod_add_div x.toNat y.toNat
    rw [BitVec.toNat_add, BitVec.toNat_mul, BitVec.toNat_umod, BitVec.toNat_udiv,
      Nat.add_mod_mod, Nat.mul_comm (x.toNat / y.toNat), hd]
    exact Nat.mod_eq_of_lt x.isLt
  rw [← BitVec.add_sub_cancel (x % y) (x / y * y), h]

end Bits
