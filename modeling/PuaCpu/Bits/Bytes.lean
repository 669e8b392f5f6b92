import Mathlib.Data.BitVec

/-! # Byte memories

Little-endian copies between a byte memory and a 64-bit buffer. Both directions
are described by what they do to one bit, or to one byte of the memory. A write
in lanes stores the bytes of a doubleword that a strobe selects.
-/

namespace Bytes

variable {a : ℕ}

/-- A memory with `a` address bits; the addresses wrap around. -/
abbrev Memory (a : ℕ) := BitVec a → BitVec 8

/-- The `n` bytes from `start` on, in the low bytes of the buffer. -/
def load (mem : Memory a) (start : BitVec a) : ℕ → BitVec 64
  | 0 => 0
  | n + 1 => load mem start n ||| (mem (start + BitVec.ofNat a n)).setWidth 64 <<< (8 * n)

/-- The memory with its `n` bytes from `start` on replaced by the low bytes of the buffer. -/
def store (mem : Memory a) (start : BitVec a) (n : ℕ) (buffer : BitVec 64) : Memory a := fun b =>
  if (b - start).toNat < n then buffer.extractLsb' (8 * (b - start).toNat) 8 else mem b

theorem getLsbD_load (mem : Memory a) (start : BitVec a) {n i : ℕ} (hi : i < 64) :
    (load mem start n).getLsbD i =
      (decide (i < 8 * n) && (mem (start + BitVec.ofNat a (i / 8))).getLsbD (i % 8)) := by
  induction n with
  | zero => simp [load]
  | succ n ih =>
    rw [load, BitVec.getLsbD_or, ih, BitVec.getLsbD_shiftLeft, BitVec.getLsbD_setWidth]
    rcases lt_trichotomy (i / 8) n with h | h | h
    · simp [show i < 8 * n by omega, show i < 8 * (n + 1) by omega]
    · subst h
      simp [hi, show ¬ i < 8 * (i / 8) by omega, show i < 8 * (i / 8 + 1) by omega,
        show i - 8 * (i / 8) = i % 8 by omega, show i % 8 < 64 by omega]
    · simp [show ¬ i < 8 * n by omega, show ¬ i < 8 * (n + 1) by omega,
        BitVec.getLsbD_of_ge (mem (start + BitVec.ofNat a n)) (i - 8 * n) (by omega)]

theorem store_congr (mem : Memory a) (start : BitVec a) {n : ℕ} {b b' : BitVec 64}
    (h : ∀ i < 8 * n, b.getLsbD i = b'.getLsbD i) : store mem start n b = store mem start n b' := by
  funext p
  rw [store, store]
  split_ifs with hp
  · apply BitVec.eq_of_getLsbD_eq
    intro i hi
    rw [BitVec.getLsbD_extractLsb', BitVec.getLsbD_extractLsb', h _ (by omega)]
  · rfl

theorem store_injective (mem : Memory a) (start : BitVec a) {n i : ℕ} {b b' : BitVec 64}
    (ha : n ≤ 2 ^ a) (h : store mem start n b = store mem start n b') (hi : i < 8 * n) :
    b.getLsbD i = b'.getLsbD i := by
  have hp : (start + BitVec.ofNat a (i / 8) - start).toNat = i / 8 := by
    rw [BitVec.add_comm, BitVec.add_sub_cancel, BitVec.toNat_ofNat]
    exact Nat.mod_eq_of_lt (by omega)
  have hb := congrFun h (start + BitVec.ofNat a (i / 8))
  simp only [store, hp, show i / 8 < n by omega, if_true] at hb
  have hj := congrArg (·.getLsbD (i % 8)) hb
  simp only [BitVec.getLsbD_extractLsb', show i % 8 < 8 by omega, decide_true, Bool.true_and,
    Nat.div_add_mod] at hj
  exact hj

section Lanes

/-- The memory with those of the eight bytes from `base` on replaced that the strobe selects. -/
def storeLanes (mem : Memory a) (base : BitVec a) (strobe : BitVec 8) (data : BitVec 64) :
    Memory a := fun b =>
  if strobe.getLsbD (b - base).toNat then data.extractLsb' (8 * (b - base).toNat) 8 else mem b

/-- A copy of some bytes of a buffer to their places behind `base`. -/
def storeRange (base : BitVec a) (data : BitVec 64) (mem : Memory a) (r : ℕ × ℕ) : Memory a :=
  store mem (base + BitVec.ofNat a r.1) r.2 (data >>> (8 * r.1))

theorem storeRange_apply (mem : Memory a) (base : BitVec a) (data : BitVec 64) {r : ℕ × ℕ}
    (hr : r.1 + r.2 ≤ 2 ^ a) (b : BitVec a) : storeRange base data mem r b =
      if r.1 ≤ (b - base).toNat ∧ (b - base).toNat < r.1 + r.2 then
        data.extractLsb' (8 * (b - base).toNat) 8
      else mem b := by
  have hb := (b - base).isLt
  have hd : b - (base + BitVec.ofNat a r.1) = b - base - BitVec.ofNat a r.1 :=
    sub_add_eq_sub_sub _ _ _
  by_cases h0 : r.2 = 0
  · rw [storeRange, store, h0, if_neg (Nat.not_lt_zero _), if_neg (by omega)]
  have hn : (BitVec.ofNat a r.1).toNat = r.1 := by
    rw [BitVec.toNat_ofNat, Nat.mod_eq_of_lt (by omega)]
  rw [storeRange, store, hd, BitVec.toNat_sub, hn]
  by_cases hl : r.1 ≤ (b - base).toNat
  · have hm : (2 ^ a - r.1 + (b - base).toNat) % 2 ^ a = (b - base).toNat - r.1 := by
      rw [show 2 ^ a - r.1 + (b - base).toNat = (b - base).toNat - r.1 + 2 ^ a by omega,
        Nat.add_mod_right, Nat.mod_eq_of_lt (by omega)]
    rw [hm]
    refine if_congr (by omega) ?_ rfl
    apply BitVec.eq_of_getLsbD_eq
    intro i hi
    simp only [BitVec.getLsbD_extractLsb', hi, decide_true, Bool.true_and,
      BitVec.getLsbD_ushiftRight]
    rw [show 8 * r.1 + (8 * ((b - base).toNat - r.1) + i) = 8 * (b - base).toNat + i by omega]
  · rw [Nat.mod_eq_of_lt (by omega), if_neg (by omega), if_neg (by omega)]

theorem foldl_storeRange (mem : Memory a) (base : BitVec a) (data : BitVec 64)
    {ranges : List (ℕ × ℕ)} (hr : ∀ r ∈ ranges, r.1 + r.2 ≤ 2 ^ a) (b : BitVec a) :
    ranges.foldl (storeRange base data) mem b =
      if ∃ r ∈ ranges, r.1 ≤ (b - base).toNat ∧ (b - base).toNat < r.1 + r.2 then
        data.extractLsb' (8 * (b - base).toNat) 8
      else mem b := by
  induction ranges generalizing mem with
  | nil => simp
  | cons r ranges ih =>
    rw [List.foldl_cons, ih _ fun r h => hr r (List.mem_cons_of_mem _ h),
      storeRange_apply _ _ _ (hr r List.mem_cons_self)]
    simp only [List.exists_mem_cons_iff]
    by_cases he : ∃ r ∈ ranges, r.1 ≤ (b - base).toNat ∧ (b - base).toNat < r.1 + r.2
    · rw [if_pos he, if_pos (.inr he)]
    · rw [if_neg he]
      exact if_congr (or_iff_left he).symm rfl rfl

theorem getLsbD_load_storeLanes (mem : Memory a) (base : BitVec a) (strobe : BitVec 8)
    (data : BitVec 64) (ha : 8 ≤ 2 ^ a) {i : ℕ} (hi : i < 64) :
    (load (storeLanes mem base strobe data) base 8).getLsbD i =
      if strobe.getLsbD (i / 8) then data.getLsbD i else (load mem base 8).getLsbD i := by
  have hp : (base + BitVec.ofNat a (i / 8) - base).toNat = i / 8 := by
    rw [add_sub_cancel_left, BitVec.toNat_ofNat, Nat.mod_eq_of_lt (by omega)]
  rw [getLsbD_load _ _ hi, getLsbD_load _ _ hi, storeLanes, hp, decide_eq_true (by omega),
    Bool.true_and, Bool.true_and]
  split_ifs
  · rw [BitVec.getLsbD_extractLsb', show 8 * (i / 8) + i % 8 = i by omega,
      decide_eq_true (by omega), Bool.true_and]
  · rfl

theorem load_congr {mem mem' : Memory a} {start start' : BitVec a} {n : ℕ}
    (h : ∀ i < n, mem (start + BitVec.ofNat a i) = mem' (start' + BitVec.ofNat a i)) :
    load mem start n = load mem' start' n := by
  induction n with
  | zero => rfl
  | succ n ih => rw [load, load, ih fun i hi => h i (by omega), h n (by omega)]

theorem load_storeLanes_of_disjoint (mem : Memory a) {base start : BitVec a} (strobe : BitVec 8)
    (data : BitVec 64) {n : ℕ}
    (h : ∀ i < n, 8 ≤ (start + BitVec.ofNat a i - base).toNat) :
    load (storeLanes mem base strobe data) start n = load mem start n := by
  refine load_congr fun i hi => ?_
  rw [storeLanes, BitVec.getLsbD_of_ge _ _ (h i hi)]
  rfl

end Lanes

end Bytes
