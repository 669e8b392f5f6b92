import Mathlib.Tactic.IntervalCases
import PuaCpu.Bits.Width
import PuaCpu.Execute.Lsu
import PuaCpu.Harness.Mapped

/-! # Accesses in the lanes of a doubleword

`Lsu` places an aligned access of `2 ^ k` bytes in the lanes of a doubleword.
Through the crossbar it is the access of these bytes at its own address.
-/

namespace PuaCpu

namespace Lsu

/-- The two low bits of an operation give the size of its access. -/
structure Width (op : FuOp) (k : ℕ) : Prop where
  lt : k < 4
  bits : op.extractLsb' 0 2 = BitVec.ofNat 2 k

variable {op : FuOp} {k : ℕ} {a v : Word}

theorem addrMisaligned_eq (hw : Width op k) :
    addrMisaligned op a = decide (a.toNat % 2 ^ k ≠ 0) := by
  have hb (n : ℕ) : (a.extractLsb' 0 n != 0#n) = decide (a.toNat % 2 ^ n ≠ 0) := by
    rw [Bool.eq_iff_iff, bne_iff_ne, decide_eq_true_eq, ne_eq, ← BitVec.toNat_inj,
      Bits.toNat_extract]
    simp
  obtain ⟨hk, hb'⟩ := hw
  rw [addrMisaligned, hb']
  interval_cases k
  · simp [Nat.mod_one]
  · exact hb 1
  · exact hb 2
  · exact hb 3

theorem strbToRange_memWenTmp (hw : Width op k) (ha : a.toNat % 2 ^ k = 0) :
    strbToRange (memWenTmp op a) = [(a.toNat % 8, 2 ^ k)] := by
  have ht : ∀ (k : Fin 4) (lane : BitVec 3), lane.toNat % 2 ^ k.val = 0 →
      strbToRange ((BitVec.allOnes (2 ^ k.val)).setWidth 8 <<< lane) =
        [(lane.toNat, 2 ^ k.val)] := by decide
  have hs : shift op = (BitVec.allOnes (2 ^ k)).setWidth 8 := by
    obtain ⟨hk, hb⟩ := hw
    rw [shift, hb]
    interval_cases k <;> rfl
  have hl : (a.extractLsb' 0 3).toNat = a.toNat % 8 := by
    rw [Bits.toNat_extract, pow_zero, Nat.div_one]
    rfl
  rw [memWenTmp, hs, ht ⟨k, hw.lt⟩ _ ?_, hl]
  have hk := hw.lt
  rw [hl]
  change a.toNat % 8 % 2 ^ k = 0
  interval_cases k <;> omega

theorem getLsbD_wdata (hw : Width op k) (ha : a.toNat % 2 ^ k = 0) {i : ℕ} (hi : i < 8 * 2 ^ k) :
    (wdata op v >>> (8 * (a.toNat % 8))).getLsbD i = v.getLsbD i := by
  have hr {w n : ℕ} (hn : w * n = 64) (hm : (8 * (a.toNat % 8) + i) % w = i)
      (hl : 8 * (a.toNat % 8) + i < 64) (hiw : i < w) :
      ((v.extractLsb' 0 w).replicate n).getLsbD (8 * (a.toNat % 8) + i) = v.getLsbD i := by
    rw [BitVec.getLsbD_replicate, hm, BitVec.getLsbD_extractLsb', hn, decide_eq_true hl,
      decide_eq_true hiw, Nat.zero_add]
    rfl
  obtain ⟨hk, hb⟩ := hw
  rw [wdata, hb, BitVec.getLsbD_ushiftRight]
  interval_cases k
  · exact hr rfl (by omega) (by omega) (by omega)
  · exact hr rfl (by omega) (by omega) (by omega)
  · exact hr rfl (by omega) (by omega) (by omega)
  · change v.getLsbD _ = _
    rw [show 8 * (a.toNat % 8) + i = i by omega]

end Lsu

section Channel

open SramXbar

variable {op : FuOp} {k : ℕ} {a v rdata : Word} {mem : Bytes.Memory 64} {x : SramXbar MmioMem}

theorem lane_add_le {a k : ℕ} (hk : k < 4) (ha : a % 2 ^ k = 0) : a % 8 + 2 ^ k ≤ 8 := by
  interval_cases k <;> omega

theorem InMemory.of_aligned (hk : k < 4) (ha : a.toNat % 2 ^ k = 0) (h : InMemory a 1) :
    InMemory a (2 ^ k) := by
  obtain ⟨h1, h2⟩ := h
  refine ⟨h1, ?_⟩
  interval_cases k <;> omega

theorem port_addr (h : InMemory a 1) :
    (a.extractLsb' 0 32 &&& BitVec.allOnes 32).setWidth 64 = a := by
  rw [BitVec.and_allOnes]
  apply BitVec.eq_of_toNat_eq
  rw [BitVec.toNat_setWidth, Bits.toNat_extract, pow_zero, Nat.div_one]
  have := h.2
  omega

theorem dataChannel_load (h : x.Maps mem) (ha : InMemory a 1) :
    x.dataChannel ⟨true, a.extractLsb' 0 32, v, 0⟩ rdata =
      (x, Bytes.load mem (place (a - (a &&& 7))) 8) := by
  rw [dataChannel, if_pos rfl]
  simp only [ne_eq, not_true_eq_false, if_false, h.addressMask, port_addr ha]
  exact h.doRead ha rdata

theorem toNat_align (a : Word) : (a - (a &&& 7)).toNat = a.toNat - a.toNat % 8 := by
  have hm : (a &&& 7).toNat = a.toNat % 8 := Nat.and_two_pow_sub_one_eq_mod _ 3
  rw [BitVec.toNat_sub, hm]
  have := a.isLt
  omega

/-- The lanes of an aligned access hold the bytes at its address. -/
theorem getLsbD_load_lane (hk : k < 4) (ha : a.toNat % 2 ^ k = 0) (hm : InMemory a 1) {i : ℕ}
    (hi : i < 8 * 2 ^ k) :
    (Bytes.load mem (place (a - (a &&& 7))) 8 >>> (8 * (a.toNat % 8))).getLsbD i =
      (Bytes.load mem (place a) (2 ^ k)).getLsbD i := by
  have hl := lane_add_le hk ha
  have hp : place (a - (a &&& 7)) + BitVec.ofNat 64 ((8 * (a.toNat % 8) + i) / 8) =
      place a + BitVec.ofNat 64 (i / 8) := by
    have h := toNat_place hm
    have h' := toNat_place (aligned_inMemory hm)
    rw [toNat_align] at h'
    obtain ⟨h1, h2⟩ := hm
    apply BitVec.eq_of_toNat_eq
    rw [BitVec.toNat_add, BitVec.toNat_add, h, h', BitVec.toNat_ofNat, BitVec.toNat_ofNat]
    omega
  rw [BitVec.getLsbD_ushiftRight, Bytes.getLsbD_load _ _ (by omega),
    Bytes.getLsbD_load _ _ (by omega), hp, decide_eq_true (by omega), decide_eq_true hi,
    show (8 * (a.toNat % 8) + i) % 8 = i % 8 by omega]

theorem and_lanes (p : SramAddr) : (p &&& 0xfffffff8).toNat = p.toNat - p.toNat % 8 := by
  have h : p &&& (0xfffffff8 : SramAddr) = p >>> 3 <<< 3 := by
    have hm : (0xfffffff8 : SramAddr) = BitVec.allOnes 32 <<< 3 := by decide
    rw [hm]
    apply BitVec.eq_of_getLsbD_eq
    intro i hi
    simp only [BitVec.getLsbD_and, BitVec.getLsbD_shiftLeft, BitVec.getLsbD_allOnes,
      BitVec.getLsbD_ushiftRight]
    by_cases h3 : i < 3
    · simp [h3]
    · simp [h3, hi, show 3 + (i - 3) = i by omega, show i - 3 < 32 by omega]
  rw [h, BitVec.toNat_shiftLeft, BitVec.toNat_ushiftRight, Nat.shiftRight_eq_div_pow,
    Nat.shiftLeft_eq]
  have := p.isLt
  omega

theorem dataChannel_store (h : x.Maps mem) (hw : Lsu.Width op k) (ha : a.toNat % 2 ^ k = 0)
    (hm : InMemory a 1) :
    (x.dataChannel ⟨true, a.extractLsb' 0 32, Lsu.wdata op v, Lsu.memWenTmp op a⟩ rdata).1.Maps
      (Bytes.store mem (place a) (2 ^ k) v) := by
  have hp : ((a.extractLsb' 0 32 &&& BitVec.allOnes 32) &&& 0xfffffff8) +
      BitVec.ofNat 32 (a.toNat % 8) = a.extractLsb' 0 32 &&& BitVec.allOnes 32 := by
    have hn : (a.extractLsb' 0 32 &&& BitVec.allOnes 32).toNat = a.toNat := by
      have hx := congrArg BitVec.toNat (port_addr hm)
      rwa [BitVec.toNat_setWidth_of_le (by decide)] at hx
    apply BitVec.eq_of_toNat_eq
    have := hm.2
    rw [BitVec.toNat_add, and_lanes, hn, BitVec.toNat_ofNat]
    omega
  obtain ⟨x', hx, hx'⟩ := h.doWrite (.of_aligned hw.lt ha hm)
    (Lsu.wdata op v >>> (8 * (a.toNat % 8)))
  rw [Bytes.store_congr _ _ fun i hi => Lsu.getLsbD_wdata hw ha hi] at hx'
  rw [dataChannel, if_pos rfl]
  simp only [ne_eq, Lsu.memWenTmp_ne_zero, not_false_eq_true, if_true,
    Lsu.strbToRange_memWenTmp hw ha, List.foldl_cons, List.foldl_nil, writeRange, h.addressMask,
    hp, port_addr hm, hx]
  rw [hx'.doRead hm]
  exact hx'

end Channel

end PuaCpu
