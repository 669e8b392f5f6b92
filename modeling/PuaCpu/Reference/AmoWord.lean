import PuaCpu.Bits.Width
import PuaCpu.Reference.Harness
import PuaCpu.Reference.Served

/-! # Atomic operations on words

`pa_amo_op` computes on 64 bits, with the sign-extended word and the whole operand
register. Truncation commutes with every operation except the comparisons, which
look at the upper half of the operand.
-/

namespace PuaCpu.Amo

open RvCore

/-- An atomic operation at any width: what it stores, given the operand and the old value. -/
def value {n : ℕ} (op : BitVec 5) (src res : BitVec n) : BitVec n :=
  if op = AmoFunct.swap then src
  else if op = AmoFunct.add then src + res
  else if op = AmoFunct.and then src &&& res
  else if op = AmoFunct.or then src ||| res
  else if op = AmoFunct.xor then src ^^^ res
  else if op = AmoFunct.max then if src.slt res then res else src
  else if op = AmoFunct.min then if res.slt src then res else src
  else if op = AmoFunct.maxu then if src.ult res then res else src
  else if res.ult src then res else src

/-- The signed operands that compare like their low words, unless the word stored is the same. -/
def SignedOk (w : BitVec 32) (s : Word) : Prop :=
  s = (s.setWidth 32).signExtend 64 ∨ (0 ≤ s.toInt ∧ w.toInt ≤ (s.setWidth 32).toInt) ∨
    (s.toInt < 0 ∧ (s.setWidth 32).toInt ≤ w.toInt)

/-- The unsigned operands that do: the upper half continues the word of the memory. -/
def UnsignedOk (w : BitVec 32) (s : Word) : Prop :=
  s.extractLsb' 32 32 = (w.signExtend 64).extractLsb' 32 32 ∨
    (w.msb = false ∧ w ≤ s.setWidth 32) ∨ (w.msb = true ∧ s.setWidth 32 ≤ w)

/-- The operands on which a 64-bit operation does what the 32-bit one does. -/
structure Narrow (op : BitVec 5) (w : BitVec 32) (s : Word) : Prop where
  signed : op ∈ [AmoFunct.max, AmoFunct.min] → SignedOk w s
  unsigned : op ∈ [AmoFunct.maxu, AmoFunct.minu] → UnsignedOk w s

variable {op : BitVec 5} {w : BitVec 32} {s s' : Word}

section Value

theorem ite_eq_ite_iff {α : Type*} {p q : Prop} [Decidable p] [Decidable q] {a b : α} :
    (if p then a else b) = (if q then a else b) ↔ (p ↔ q) ∨ a = b := by
  by_cases hp : p <;> by_cases hq : q <;> simp [hp, hq, eq_comm]

theorem signedOk_iff : SignedOk w s ↔
    (s.toInt = (s.setWidth 32).toInt ∨ (0 ≤ s.toInt ∧ w.toInt ≤ (s.setWidth 32).toInt) ∨
      (s.toInt < 0 ∧ (s.setWidth 32).toInt ≤ w.toInt)) := by
  rw [SignedOk, ← BitVec.toInt_inj, Bits.toInt_signExtend _ (by omega)]

/-- Signed maximum and minimum, whose comparisons have their operands swapped. -/
theorem slt_iff :
    (((s.slt (w.signExtend 64) = true ↔ (s.setWidth 32).slt w = true) ∨ w = s.setWidth 32) ↔
        SignedOk w s) ∧
      ((((w.signExtend 64).slt s = true ↔ w.slt (s.setWidth 32) = true) ∨ w = s.setWidth 32) ↔
        SignedOk w s) := by
  obtain ⟨k, hk⟩ := Bits.exists_toInt_eq (w := 32) s (by omega)
  have hl := (s.setWidth 32).le_toInt
  have hl' := (s.setWidth 32).toInt_lt
  have hw := w.le_toInt
  have hw' := w.toInt_lt
  simp only [signedOk_iff, BitVec.slt_iff_toInt_lt, Bits.toInt_signExtend w (show 32 ≤ 64 by omega),
    ← BitVec.toInt_inj]
  constructor <;> omega

theorem toNat_upper :
    ((w.signExtend 64).extractLsb' 32 32).toNat = if w.msb then 2 ^ 32 - 1 else 0 := by
  have hw : (w.signExtend 64).toNat = ((w.signExtend 64).setWidth 32).toNat +
      2 ^ 32 * ((w.signExtend 64).extractLsb' 32 32).toNat :=
    Bits.toNat_eq_setWidth_add _ (by omega)
  have he : (w.signExtend 64).toNat =
      (w.setWidth 64).toNat + if w.msb then 2 ^ 64 - 2 ^ 32 else 0 :=
    w.toNat_signExtend
  rw [Bits.setWidth_signExtend w (by omega)] at hw
  rw [BitVec.toNat_setWidth_of_le (by omega), hw] at he
  cases hm : w.msb <;> simp only [hm, Bool.false_eq_true, if_false, if_true] at he ⊢ <;> omega

theorem unsignedOk_iff : UnsignedOk w s ↔
    ((s.extractLsb' 32 32).toNat = ((w.signExtend 64).extractLsb' 32 32).toNat ∨
      (w.msb = false ∧ w.toNat ≤ (s.setWidth 32).toNat) ∨
      (w.msb = true ∧ (s.setWidth 32).toNat ≤ w.toNat)) := by
  rw [UnsignedOk, ← BitVec.toNat_inj, BitVec.le_def, BitVec.le_def]

theorem ult_iff :
    (((s.ult (w.signExtend 64) = true ↔ (s.setWidth 32).ult w = true) ∨ w = s.setWidth 32) ↔
        UnsignedOk w s) ∧
      ((((w.signExtend 64).ult s = true ↔ w.ult (s.setWidth 32) = true) ∨ w = s.setWidth 32) ↔
        UnsignedOk w s) := by
  have hs : s.toNat = (s.setWidth 32).toNat + 2 ^ 32 * (s.extractLsb' 32 32).toNat :=
    Bits.toNat_eq_setWidth_add s (by omega)
  have hw : (w.signExtend 64).toNat = ((w.signExtend 64).setWidth 32).toNat +
      2 ^ 32 * ((w.signExtend 64).extractLsb' 32 32).toNat :=
    Bits.toNat_eq_setWidth_add _ (by omega)
  rw [Bits.setWidth_signExtend w (by omega)] at hw
  have hf := @toNat_upper w
  have hl := (s.setWidth 32).isLt
  have hh := (s.extractLsb' 32 32).isLt
  have hx := w.isLt
  simp only [unsignedOk_iff, BitVec.ult_iff_lt, BitVec.lt_def, ← BitVec.toNat_inj]
  cases hm : w.msb <;> simp only [hm, Bool.false_eq_true, if_false, if_true] at hf <;>
    simp only [reduceCtorEq, false_and, true_and, or_false, false_or] <;> constructor <;> omega

theorem amoResult_eq (hop : op ∈ State.amoFuncts) (src res : Word) :
    Systembus.amoResult op src res = some (value op src res) := by
  simp only [State.amoFuncts, List.mem_cons, List.not_mem_nil, or_false] at hop
  rcases hop with rfl | rfl | rfl | rfl | rfl | rfl | rfl | rfl | rfl <;> rfl

theorem narrow_of_not_mem (hs : op ∉ [AmoFunct.max, AmoFunct.min])
    (hu : op ∉ [AmoFunct.maxu, AmoFunct.minu]) : Narrow op w s :=
  ⟨fun h => absurd h hs, fun h => absurd h hu⟩

theorem narrow_signed (hs : op ∈ [AmoFunct.max, AmoFunct.min])
    (hu : op ∉ [AmoFunct.maxu, AmoFunct.minu]) : Narrow op w s ↔ SignedOk w s :=
  ⟨fun h => h.signed hs, fun h => ⟨fun _ => h, fun h' => absurd h' hu⟩⟩

theorem narrow_unsigned (hs : op ∉ [AmoFunct.max, AmoFunct.min])
    (hu : op ∈ [AmoFunct.maxu, AmoFunct.minu]) : Narrow op w s ↔ UnsignedOk w s :=
  ⟨fun h => h.unsigned hu, fun h => ⟨fun h' => absurd h' hs, fun _ => h⟩⟩

/-- Truncation commutes with an operation exactly on the narrow operands. -/
theorem setWidth_value_iff (hop : op ∈ State.amoFuncts) :
    (value op s (w.signExtend 64)).setWidth 32 = value op (s.setWidth 32) w ↔ Narrow op w s := by
  have hw : (w.signExtend 64).setWidth 32 = w := Bits.setWidth_signExtend w (by omega)
  have hite {p q : Prop} [Decidable p] [Decidable q] :
      (if p then w.signExtend 64 else s).setWidth 32 = (if q then w else s.setWidth 32) ↔
        (p ↔ q) ∨ w = s.setWidth 32 := by
    rw [apply_ite (BitVec.setWidth 32), hw, ite_eq_ite_iff]
  simp only [State.amoFuncts, List.mem_cons, List.not_mem_nil, or_false] at hop
  rcases hop with rfl | rfl | rfl | rfl | rfl | rfl | rfl | rfl | rfl
  · exact iff_of_true rfl (narrow_of_not_mem (by decide) (by decide))
  · refine iff_of_true ?_ (narrow_of_not_mem (by decide) (by decide))
    change (s + _).setWidth 32 = s.setWidth 32 + w
    rw [BitVec.setWidth_add _ _ (by omega), hw]
  · refine iff_of_true ?_ (narrow_of_not_mem (by decide) (by decide))
    change (s ^^^ _).setWidth 32 = s.setWidth 32 ^^^ w
    rw [BitVec.setWidth_xor, hw]
  · refine iff_of_true ?_ (narrow_of_not_mem (by decide) (by decide))
    change (s &&& _).setWidth 32 = s.setWidth 32 &&& w
    rw [BitVec.setWidth_and, hw]
  · refine iff_of_true ?_ (narrow_of_not_mem (by decide) (by decide))
    change (s ||| _).setWidth 32 = s.setWidth 32 ||| w
    rw [BitVec.setWidth_or, hw]
  · exact hite.trans (slt_iff.2.trans (narrow_signed (by decide) (by decide)).symm)
  · exact hite.trans (slt_iff.1.trans (narrow_signed (by decide) (by decide)).symm)
  · exact hite.trans (ult_iff.2.trans (narrow_unsigned (by decide) (by decide)).symm)
  · exact hite.trans (ult_iff.1.trans (narrow_unsigned (by decide) (by decide)).symm)

theorem value_eq_or {n : ℕ} (h : op ∈ [AmoFunct.max, AmoFunct.min, AmoFunct.maxu, AmoFunct.minu])
    (src res : BitVec n) : value op src res = res ∨ value op src res = src := by
  simp only [List.mem_cons, List.not_mem_nil, or_false] at h
  rcases h with rfl | rfl | rfl | rfl
  · exact ite_eq_or_eq (src.slt res = true) _ _
  · exact ite_eq_or_eq (res.slt src = true) _ _
  · exact ite_eq_or_eq (src.ult res = true) _ _
  · exact ite_eq_or_eq (res.ult src = true) _ _

/-- Operands with one low half store the same if both are narrow or none is. -/
theorem setWidth_value_eq_iff (hop : op ∈ State.amoFuncts) (hs : s.setWidth 32 = s'.setWidth 32) :
    (value op s (w.signExtend 64)).setWidth 32 = (value op s' (w.signExtend 64)).setWidth 32 ↔
      (Narrow op w s ↔ Narrow op w s') := by
  have h := setWidth_value_iff (w := w) (s := s) hop
  have h' := setWidth_value_iff (w := w) (s := s') hop
  rw [← hs] at h'
  by_cases hn : Narrow op w s
  · rw [h.mpr hn, eq_comm, h', iff_true_left hn]
  by_cases hn' : Narrow op w s'
  · rw [h'.mpr hn', h, iff_true_right hn']
  have hc : op ∈ [AmoFunct.max, AmoFunct.min, AmoFunct.maxu, AmoFunct.minu] := by
    by_contra hc
    simp only [List.mem_cons, List.not_mem_nil, or_false, not_or] at hc
    exact hn (narrow_of_not_mem (by simp [hc]) (by simp [hc]))
  have hw : (w.signExtend 64).setWidth 32 = w := Bits.setWidth_signExtend w (by omega)
  have hsel (x : Word) : (value op x (w.signExtend 64)).setWidth 32 = w ∨
      (value op x (w.signExtend 64)).setWidth 32 = x.setWidth 32 := by
    rcases value_eq_or hc x (w.signExtend 64) with hx | hx <;> rw [hx]
    · exact .inl hw
    · exact .inr rfl
  -- both results are the operand that the 32-bit comparison does not select
  refine iff_of_true ?_ (iff_of_false hn hn')
  rw [← h] at hn
  rw [← h'] at hn'
  have ha := hsel s
  have hb := hsel s'
  rw [← hs] at hb
  rcases value_eq_or hc (s.setWidth 32) w with hv | hv <;> rw [hv] at hn hn'
  · exact (ha.resolve_left hn).trans (hb.resolve_left hn').symm
  · exact (ha.resolve_right hn).trans (hb.resolve_right hn').symm

end Value

section Bus

variable {b : Systembus MmioMem} {pa size start : Word} {m : Mapping}

/-- An access of the bus that a memory serves, and where in its array. -/
structure At (b : Systembus MmioMem) (pa size : Word) (m : Mapping) (start : Word) : Prop where
  locate : b.locate pa size = some m
  place : (b.dev m.dev).place (m.offset pa) size = some start

/-- The word of the memory at an access. -/
def word (b : Systembus MmioMem) (m : Mapping) (start : Word) : BitVec 32 :=
  (Bytes.load (b.dev m.dev).mem start 4).setWidth 32

/-- The bus after a store. -/
def stored (b : Systembus MmioMem) (m : Mapping) (start size buffer : Word) : Systembus MmioMem :=
  let d := b.dev m.dev
  let d' := { d with mem := Bytes.store d.mem start size.toNat buffer }
  { b with dev := Function.update b.dev m.dev d' }

theorem At.paRead (h : At b pa size m start) :
    b.paRead pa size = (b, some (Bytes.load (b.dev m.dev).mem start size.toNat)) := by
  have hd : MmioDev.doRead (b.dev m.dev) (m.offset pa) size =
      (b.dev m.dev, some (Bytes.load (b.dev m.dev).mem start size.toNat)) := by
    change (b.dev m.dev).doRead (m.offset pa) size = _
    rw [MmioMem.doRead, h.place]
    rfl
  rw [Systembus.paRead, h.locate]
  simp only [hd, Function.update_eq_self]

theorem At.paWrite (h : At b pa size m start) (buffer : Word) :
    b.paWrite pa size buffer = (stored (b.breakLr pa size) m start size buffer, true) := by
  have hb : At (b.breakLr pa size) pa size m start := by
    unfold Systembus.breakLr
    split_ifs
    · exact ⟨h.locate, h.place⟩
    · exact h
  have hd : MmioDev.doWrite ((b.breakLr pa size).dev m.dev) (m.offset pa) size buffer =
      ({ (b.breakLr pa size).dev m.dev with
        mem := Bytes.store ((b.breakLr pa size).dev m.dev).mem start size.toNat buffer },
        true) := by
    change ((b.breakLr pa size).dev m.dev).doWrite (m.offset pa) size buffer = _
    rw [MmioMem.doWrite, hb.place]
  rw [Systembus.paWrite, hb.locate]
  simp only [hd]
  rfl

theorem At.paAmoOp (h : At b pa 4 m start) (hop : op ∈ State.amoFuncts) (src : Word) :
    b.paAmoOp pa 4 op src = .ok (stored (b.breakLr pa 4) m start 4
        (value op src ((word b m start).signExtend 64)),
      some ((word b m start).signExtend 64)) := by
  rw [Systembus.paAmoOp, h.paRead]
  simp only [if_true]
  rw [amoResult_eq hop]
  simp only [h.paWrite]
  rfl

/-- The memory after a word operation, and the result. -/
def amoMem (b : Systembus MmioMem) (pa : Word) (op : BitVec 5) (s : Word) (m : Mapping) :
    Outcome (Bytes.Memory 64 × Option Word) :=
  (b.paAmoOp pa 4 op s).map fun r => ((r.1.dev m.dev).mem, r.2)

theorem dev_breakLr (b : Systembus MmioMem) (pa size : Word) : (b.breakLr pa size).dev = b.dev := by
  unfold Systembus.breakLr
  split_ifs <;> rfl

theorem At.amoMem_eq (h : At b pa 4 m start) (hop : op ∈ State.amoFuncts) (s : Word) :
    amoMem b pa op s m = .ok (Bytes.store (b.dev m.dev).mem start 4
        (value op s ((word b m start).signExtend 64)), some ((word b m start).signExtend 64)) := by
  have hd : ((stored (b.breakLr pa 4) m start 4 (value op s ((word b m start).signExtend 64))).dev
      m.dev).mem = Bytes.store (b.dev m.dev).mem start 4
        (value op s ((word b m start).signExtend 64)) := by
    simp only [stored, Function.update_self, dev_breakLr]
    rfl
  rw [amoMem, h.paAmoOp hop, Except.map, hd]

theorem store_eq_iff (mem : Bytes.Memory 64) (start : Word) (x y : Word) :
    Bytes.store mem start 4 x = Bytes.store mem start 4 y ↔ x.setWidth 32 = y.setWidth 32 := by
  constructor
  · intro h
    apply BitVec.eq_of_getLsbD_eq
    intro i hi
    rw [BitVec.getLsbD_setWidth, BitVec.getLsbD_setWidth,
      Bytes.store_injective mem start (by omega) h (show i < 8 * 4 by omega)]
  · intro h
    refine Bytes.store_congr mem start fun i hi => ?_
    have hb := congrArg (·.getLsbD i) h
    simpa [show i < 32 by omega] using hb

theorem At.amoMem_eq_iff (h : At b pa 4 m start) (hop : op ∈ State.amoFuncts) (s : Word)
    (y : Word) :
    amoMem b pa op s m =
        .ok (Bytes.store (b.dev m.dev).mem start 4 y, some ((word b m start).signExtend 64)) ↔
      (value op s ((word b m start).signExtend 64)).setWidth 32 = y.setWidth 32 := by
  rw [h.amoMem_eq hop, ← store_eq_iff (b.dev m.dev).mem start]
  constructor
  · intro he
    exact congrArg Prod.fst (Except.ok.inj he)
  · intro he
    rw [he]

/-- **When `pa_amo_op` is the 32-bit operation**: exactly on narrow operands. Two operands with one
low half have the same effect if both are narrow or none is. -/
theorem amo_word_iff (h : At b pa 4 m start) (hop : op ∈ State.amoFuncts) (s : Word) :
    (amoMem b pa op s m = .ok (Bytes.store (b.dev m.dev).mem start 4
          ((value op (s.setWidth 32) (word b m start)).setWidth 64),
        some ((word b m start).signExtend 64)) ↔ Narrow op (word b m start) s) ∧
      ∀ s' : Word, s.setWidth 32 = s'.setWidth 32 →
        (amoMem b pa op s m = amoMem b pa op s' m ↔
          (Narrow op (word b m start) s ↔ Narrow op (word b m start) s')) := by
  constructor
  · rw [h.amoMem_eq_iff hop, Bits.setWidth_setWidth_self _ (by omega), setWidth_value_iff hop]
  · intro s' hs
    rw [h.amoMem_eq hop s', h.amoMem_eq_iff hop, setWidth_value_eq_iff hop hs]

theorem at_memory (image : Bytes.Memory 64) :
    At (Test.bus image default) 0x80000010 4 ⟨0x80000000, 0x100000000, 0, false⟩ 0x10 where
  locate := rfl
  place := rfl

/-- `amomin.w` of -2 to a 5 stores the -2. -/
theorem amo_word_iff_min :
    amoMem (Test.bus (Test.filled 5) default) 0x80000010 AmoFunct.min (BitVec.allOnes 64 - 1)
      ⟨0x80000000, 0x100000000, 0, false⟩ =
        .ok (Bytes.store (Test.filled 5) 0x10 4 0xfffffffe, some 5) := by
  have hm : Narrow AmoFunct.min 5 (BitVec.allOnes 64 - 1) :=
    (narrow_signed (by decide) (by decide)).mpr (.inl (by decide))
  exact (amo_word_iff (at_memory _) (by decide) _).1.mpr hm

/-- `amomax.w` of `0x80000000` to a zero stores a negative word. -/
theorem not_amo_word : ¬ ∀ (b : Systembus MmioMem) (pa start : Word) (m : Mapping) (op : BitVec 5)
    (s : Word), At b pa 4 m start → op ∈ State.amoFuncts →
    amoMem b pa op s m = .ok (Bytes.store (b.dev m.dev).mem start 4
        ((value op (s.setWidth 32) (word b m start)).setWidth 64),
      some ((word b m start).signExtend 64)) := by
  intro h
  have ha := at_memory fun _ => 0
  have hm := (ha.amoMem_eq_iff (by decide) 0x80000000 _).mp
    (h _ _ _ _ AmoFunct.max 0x80000000 ha (by decide))
  exact absurd hm (by decide +kernel)

end Bus

end PuaCpu.Amo
