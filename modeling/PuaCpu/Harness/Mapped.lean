import PuaCpu.Harness.SramXbar
import PuaCpu.Reference.Harness

/-! # The mapped memories

What the crossbar and the system bus of the test harness do with an access that
lies in the memory behind them: both reach the same place in it.
-/

namespace PuaCpu

open RvCore

/-- Whether the `n` bytes from `a` on lie in the memory of the harness. -/
def InMemory (a : Word) (n : ℕ) : Prop := 0x80000000 ≤ a.toNat ∧ a.toNat + n ≤ 0x88000000

instance (a : Word) (n : ℕ) : Decidable (InMemory a n) := by
  unfold InMemory
  infer_instance

/-- Where the memory keeps the byte of an address. -/
def place (a : Word) : Word := a % RvCore.Test.length

theorem toNat_place {a : Word} {n : ℕ} (ha : InMemory a n) :
    (place a).toNat = a.toNat - 0x80000000 := by
  have h : (place a).toNat = a.toNat % 0x80000000 := BitVec.toNat_umod
  obtain ⟨h1, h2⟩ := ha
  omega

theorem InMemory.toNat_add {a : Word} {n : ℕ} (ha : InMemory a n) :
    (a + BitVec.ofNat 64 n).toNat = a.toNat + n := by
  obtain ⟨h1, h2⟩ := ha
  rw [BitVec.toNat_add, BitVec.toNat_ofNat]
  omega

theorem InMemory.toNat_size {a : Word} {n : ℕ} (ha : InMemory a n) :
    (BitVec.ofNat 64 n).toNat = n := by
  have h := ha.2
  rw [BitVec.toNat_ofNat]
  omega

section Memory

variable (mem : Bytes.Memory 64) {a : Word} {n : ℕ}

theorem place_memory (ha : InMemory a n) :
    (Test.memory mem).place (place a) (BitVec.ofNat 64 n) = some (place a) := by
  refine if_pos ?_
  have hp := toNat_place ha
  have hn := ha.toNat_size
  obtain ⟨h1, h2⟩ := ha
  rw [BitVec.le_def, BitVec.toNat_add, hp, hn]
  change _ ≤ 134217728
  omega

theorem doRead_memory (ha : InMemory a n) :
    (Test.memory mem).doRead (place a) (BitVec.ofNat 64 n) =
      (Test.memory mem, some (Bytes.load mem (place a) n)) := by
  rw [MmioMem.doRead, place_memory mem ha, ha.toNat_size]
  rfl

theorem doWrite_memory (ha : InMemory a n) (buffer : Word) :
    (Test.memory mem).doWrite (place a) (BitVec.ofNat 64 n) buffer =
      (Test.memory (Bytes.store mem (place a) n buffer), true) := by
  rw [MmioMem.doWrite, place_memory mem ha, ha.toNat_size]
  rfl

end Memory

theorem aligned_inMemory {a : Word} (ha : InMemory a 1) : InMemory (a - (a &&& 7)) 8 := by
  have hm : (a &&& 7).toNat = a.toNat % 8 := Nat.and_two_pow_sub_one_eq_mod _ 3
  obtain ⟨h1, h2⟩ := ha
  rw [InMemory, BitVec.toNat_sub, hm]
  omega

namespace SramXbar

/-- `mmio` of `riscv_test_run`. -/
def ofImage (image : Bytes.Memory 64) : SramXbar MmioMem :=
  (addDev ⟨[], fun _ => Test.memory image, BitVec.allOnes 32⟩ Test.base Test.length 0 false).1

/-- The crossbar has the memory with this content behind it. -/
structure Maps (x : SramXbar MmioMem) (mem : Bytes.Memory 64) : Prop where
  devices : x.devices = [⟨0x80000000, 0x100000000, false, 0⟩]
  dev : x.dev 0 = Test.memory mem
  addressMask : x.addressMask = BitVec.allOnes 32

theorem maps_ofImage (image : Bytes.Memory 64) : (ofImage image).Maps image := ⟨rfl, rfl, rfl⟩

section Locate

variable {δ : Type*} {x : SramXbar δ} {m : SramMapping} {a e : Word}

theorem locate_singleton (hd : x.devices = [m]) (hm : m.hi.ult (BitVec.allOnes 64) = true) :
    x.locate a e = if m.lo ≤ a ∧ e ≤ m.hi then some m else none := by
  have hn : m.notAfter (a, BitVec.allOnes 64, true) = decide (m.lo ≤ a) := by
    rw [SramMapping.notAfter, hm, Bool.eq_iff_iff]
    simp [BitVec.ult, BitVec.le_def, ← BitVec.toNat_inj, le_iff_lt_or_eq]
  rw [locate, hd, List.takeWhile_cons, hn]
  by_cases h : m.lo ≤ a
  · simp [h, Option.filter]
  · simp [h]

end Locate

variable {x : SramXbar MmioMem} {mem : Bytes.Memory 64} {a : Word}

theorem Maps.locate (h : x.Maps mem) {e : Word} (ha : 0x80000000 ≤ a.toNat)
    (he : e.toNat ≤ 0x100000000) :
    x.locate a e = some ⟨0x80000000, 0x100000000, false, 0⟩ := by
  rw [locate_singleton h.devices (by decide), if_pos]
  exact ⟨ha, he⟩

theorem Maps.doRead (h : x.Maps mem) (ha : InMemory a 1) (buffer : Word) :
    x.doRead a 8 buffer = (x, Bytes.load mem (place (a - (a &&& 7))) 8) := by
  have he := ha.toNat_add
  have hl : x.locate a (a + 1) = _ := h.locate ha.1 (he.trans_le (ha.2.trans (by decide)))
  have hz : (a - (a &&& 7)) % 8 = 0 := by
    apply BitVec.eq_of_toNat_eq
    have hm : (a &&& 7).toNat = a.toNat % 8 := Nat.and_two_pow_sub_one_eq_mod _ 3
    rw [BitVec.toNat_umod, BitVec.toNat_sub, hm]
    change _ % 8 = 0
    omega
  have hm : MmioDev.doRead (x.dev 0) ((a - (a &&& (8 - 1))) % (0x100000000 - 0x80000000)) 8 =
      (x.dev 0, some (Bytes.load mem (place (a - (a &&& 7))) 8)) := by
    rw [h.dev]
    exact doRead_memory mem (aligned_inMemory ha)
  rw [SramXbar.doRead, hl]
  simp only [Bool.false_eq_true, if_false, hm, Function.update_eq_self]
  change (x, Bits.set buffer (8 * ((a - (a &&& 7)) % 8).toNat) _) = _
  rw [hz]
  have hs (b : Word) : Bits.set buffer 0 (b.extractLsb' 0 64) = b := by
    apply BitVec.eq_of_getLsbD_eq
    intro i hi
    rw [Bits.getLsbD_set _ _ _ hi, if_pos ⟨Nat.zero_le _, by omega⟩]
    simp [hi]
  exact congrArg _ (hs _)

theorem Maps.doWrite (h : x.Maps mem) {n : ℕ} (ha : InMemory a n) (buffer : Word) :
    ∃ x' : SramXbar MmioMem, x.doWrite a (BitVec.ofNat 64 n) buffer = (x', true) ∧
      x'.Maps (Bytes.store mem (place a) n buffer) := by
  have he := ha.toNat_add
  have hl : x.locate a (a + BitVec.ofNat 64 n) = _ :=
    h.locate ha.1 (he.trans_le (ha.2.trans (by decide)))
  have hm : MmioDev.doWrite (x.dev 0) (place a) (BitVec.ofNat 64 n) buffer =
      (Test.memory (Bytes.store mem (place a) n buffer), true) := by
    rw [h.dev]
    exact doWrite_memory mem ha buffer
  rw [SramXbar.doWrite, hl]
  refine ⟨_, rfl, h.devices, ?_, h.addressMask⟩
  change Function.update x.dev 0 _ 0 = _
  rw [Function.update_self]
  exact congrArg Prod.fst hm

end SramXbar

namespace Systembus

/-- The bus has the memory with this content behind it. -/
structure Maps (b : Systembus MmioMem) (mem : Bytes.Memory 64) : Prop where
  devices : b.devices = [⟨0x80000000, 0x100000000, 0, false⟩]
  dev : b.dev 0 = Test.memory mem

variable {b : Systembus MmioMem} {mem : Bytes.Memory 64} {a : Word} {n : ℕ}

theorem maps_bus (image : Bytes.Memory 64) : (Test.bus image b).Maps image := ⟨rfl, rfl⟩

theorem Maps.breakLr (h : b.Maps mem) (size : Word) : (b.breakLr a size).Maps mem := by
  rw [Systembus.breakLr]
  split_ifs
  · exact ⟨h.devices, h.dev⟩
  · exact h

theorem locate_singleton {δ : Type*} {b : Systembus δ} {m : Mapping} {size : Word}
    (hd : b.devices = [m]) (hm : m.hi.ult (BitVec.allOnes 64) = true) :
    b.locate a size = if m.lo ≤ a ∧ a + size ≤ m.hi then some m else none := by
  have hn : m.notAfter (a, BitVec.allOnes 64) = decide (m.lo ≤ a) := by
    have hm' : m.hi.ule (BitVec.allOnes 64) = true := by
      simp only [BitVec.ult, BitVec.ule, decide_eq_true_eq] at hm ⊢
      omega
    rw [Mapping.notAfter, hm', Bool.eq_iff_iff]
    simp [BitVec.ult, BitVec.le_def, ← BitVec.toNat_inj, le_iff_lt_or_eq]
  rw [locate, prev, hd, List.takeWhile_cons, hn]
  by_cases h : m.lo ≤ a
  · simp [h, Option.filter]
  · simp [h]

theorem Maps.locate (h : b.Maps mem) (ha : InMemory a n) :
    b.locate a (BitVec.ofNat 64 n) = some ⟨0x80000000, 0x100000000, 0, false⟩ := by
  have he := ha.toNat_add
  rw [locate_singleton h.devices (by decide), if_pos]
  exact ⟨ha.1, he.trans_le (ha.2.trans (by decide))⟩

theorem Maps.paRead (h : b.Maps mem) (ha : InMemory a n) :
    b.paRead a (BitVec.ofNat 64 n) = (b, some (Bytes.load mem (place a) n)) := by
  have hm : MmioDev.doRead (b.dev 0) (place a) (BitVec.ofNat 64 n) =
      (b.dev 0, some (Bytes.load mem (place a) n)) := by
    rw [h.dev]
    exact doRead_memory mem ha
  rw [Systembus.paRead, h.locate ha]
  change (Systembus.mk _ (Function.update b.dev 0
    (MmioDev.doRead (b.dev 0) (place a) (BitVec.ofNat 64 n)).1) _ _ _ _, _) = _
  rw [hm, Function.update_eq_self]
  exact congrArg _ (congrArg Prod.snd hm)

theorem Maps.paWrite (h : b.Maps mem) (ha : InMemory a n) (buffer : Word) :
    ∃ b' : Systembus MmioMem, b.paWrite a (BitVec.ofNat 64 n) buffer = (b', true) ∧
      b'.Maps (Bytes.store mem (place a) n buffer) := by
  have hb := h.breakLr (a := a) (BitVec.ofNat 64 n)
  rw [Systembus.paWrite]
  generalize b.breakLr a (BitVec.ofNat 64 n) = b at hb
  have hm : MmioDev.doWrite (b.dev 0) (place a) (BitVec.ofNat 64 n) buffer =
      (Test.memory (Bytes.store mem (place a) n buffer), true) := by
    rw [hb.dev]
    exact doWrite_memory mem ha buffer
  simp only [hb.locate ha]
  refine ⟨_, congrArg _ (congrArg Prod.snd hm), hb.devices, ?_⟩
  change Function.update b.dev 0 _ 0 = _
  rw [Function.update_self]
  exact congrArg Prod.fst hm

end Systembus

end PuaCpu
