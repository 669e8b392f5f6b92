import PuaCpu.Bits.Width
import PuaCpu.Execute.Alu
import PuaCpu.Reference.Alu

/-! # The arithmetic units and the reference model

Every operation of `Alu` and `Mdu` computes what `alu_exec` computes, for all
operands: the widened quotients and products of the units keep the same low
bits, and the special cases of `alu_exec` are what the division yields there.
-/

namespace PuaCpu

namespace RvAlu

section Words

variable (a b : Word)

theorem low_int32 : (int32 a).setWidth 32 = a.setWidth 32 := Bits.setWidth_signExtend _ (by decide)

theorem toNat_shamt : (shamt b false).toNat = (b.extractLsb' 0 6).toNat := by
  have h : shamt b false = b &&& 0x3f := rfl
  rw [h, BitVec.toNat_and, BitVec.extractLsb'_toNat]
  exact (Nat.and_two_pow_sub_one_eq_mod _ 6).trans (by simp)

theorem toNat_shamt_int32 :
    (shamt (int32 b) true).toNat = ((b.extractLsb' 0 32).extractLsb' 0 5).toNat := by
  have h : shamt (int32 b) true = int32 b &&& 0x1f := rfl
  have hl : (int32 b).toNat % 2 ^ 32 = b.toNat % 2 ^ 32 := by
    simpa using congrArg BitVec.toNat (low_int32 b)
  have hm : (int32 b).toNat % 2 ^ 5 = b.toNat % 2 ^ 5 := by omega
  rw [h, BitVec.toNat_and]
  exact (Nat.and_two_pow_sub_one_eq_mod _ 5).trans (hm.trans (by simp))

theorem low_shiftLeft (n : ℕ) : (int32 a <<< n).setWidth 32 = a.setWidth 32 <<< n := by
  rw [BitVec.setWidth_shiftLeft_of_le (by decide), low_int32]

theorem low_ushiftRight (n : ℕ) :
    ((int32 a &&& 0xffffffff) >>> n).setWidth 32 = a.setWidth 32 >>> n := by
  have h : int32 a &&& 0xffffffff = (a.setWidth 32).setWidth 64 := by
    rw [← low_int32]
    apply BitVec.eq_of_toNat_eq
    rw [BitVec.toNat_and]
    rw [BitVec.toNat_setWidth, BitVec.toNat_setWidth]
    exact (Nat.and_two_pow_sub_one_eq_mod _ 32).trans (by omega)
  rw [h]
  apply BitVec.eq_of_getLsbD_eq
  intro i hi
  by_cases h : n + i < 32
  · simp [hi, h, show n + i < 64 by omega]
  · simp [hi, h]

theorem low_sshiftRight {n : ℕ} (hn : n < 32) :
    ((int32 a).sshiftRight n).setWidth 32 = (a.setWidth 32).sshiftRight n := by
  apply BitVec.eq_of_getLsbD_eq
  intro i hi
  rw [BitVec.getLsbD_setWidth, BitVec.getLsbD_sshiftRight, BitVec.getLsbD_sshiftRight, int32,
    BitVec.getLsbD_signExtend]
  by_cases h : n + i < 32
  · simp [hi, h, show n + i < 64 by omega, show ¬ 64 ≤ i by omega]
  · simp [hi, h, show n + i < 64 by omega, show ¬ 64 ≤ i by omega, show ¬ 32 ≤ i by omega]

theorem int32_eq {x : Word} {y : BitVec 32} (h : x.setWidth 32 = y) :
    int32 x = y.signExtend 64 := by
  rw [int32, h]

theorem int32_eq_zero_iff : int32 b = 0 ↔ b.setWidth 32 = 0 := by
  constructor
  · intro h
    rw [← low_int32, h]
    rfl
  · intro h
    rw [int32, h]
    rfl

end Words

end RvAlu

namespace Alu

open RvAlu

variable (src : SrcInfo)

/-- The operation of the reference model for an operation of `Alu`, and whether it is one on
words. -/
def ref (op : FuOp) : AluOp × Bool :=
  if op = ALUOpType.add then (.add, false)
  else if op = ALUOpType.sub then (.sub, false)
  else if op = ALUOpType.sll then (.sll, false)
  else if op = ALUOpType.slt then (.slt, false)
  else if op = ALUOpType.sltu then (.sltu, false)
  else if op = ALUOpType.xor then (.xor, false)
  else if op = ALUOpType.srl then (.srl, false)
  else if op = ALUOpType.sra then (.sra, false)
  else if op = ALUOpType.or then (.or, false)
  else if op = ALUOpType.and then (.and, false)
  else if op = ALUOpType.addw then (.add, true)
  else if op = ALUOpType.subw then (.sub, true)
  else if op = ALUOpType.sllw then (.sll, true)
  else if op = ALUOpType.srlw then (.srl, true)
  else (.sra, true)

def ops : List FuOp :=
  [ALUOpType.add, ALUOpType.sub, ALUOpType.sll, ALUOpType.slt, ALUOpType.sltu, ALUOpType.xor,
    ALUOpType.srl, ALUOpType.sra, ALUOpType.or, ALUOpType.and, ALUOpType.addw, ALUOpType.subw,
    ALUOpType.sllw, ALUOpType.srlw, ALUOpType.sraw]

theorem sllRes_eq : sllRes src = src.src1Data <<< shamt src.src2Data false := by
  rw [sllRes, BitVec.shiftLeft_eq', BitVec.shiftLeft_eq', toNat_shamt]

theorem srlRes_eq : srlRes src = src.src1Data >>> shamt src.src2Data false := by
  rw [srlRes, BitVec.ushiftRight_eq', BitVec.ushiftRight_eq', toNat_shamt]

theorem sraRes_eq : sraRes src = src.src1Data.sshiftRight' (shamt src.src2Data false) := by
  rw [sraRes, BitVec.sshiftRight', BitVec.sshiftRight', toNat_shamt]

theorem src1Low_eq : src1Low src = src.src1Data.setWidth 32 := Bits.extract_eq_setWidth _

theorem src2Low_eq : src2Low src = src.src2Data.setWidth 32 := Bits.extract_eq_setWidth _

theorem addwRes_eq : int32 (int32 src.src1Data + int32 src.src2Data) = addwRes src := by
  apply int32_eq
  rw [BitVec.setWidth_add _ _ (by decide), low_int32, low_int32, src1Low_eq, src2Low_eq]

theorem subwRes_eq : int32 (int32 src.src1Data - int32 src.src2Data) = subwRes src := by
  apply int32_eq
  rw [Bits.setWidth_sub _ _ (by decide), low_int32, low_int32, src1Low_eq, src2Low_eq]

theorem sllwRes_eq :
    int32 (int32 src.src1Data <<< shamt (int32 src.src2Data) true) = sllwRes src := by
  apply int32_eq
  rw [BitVec.shiftLeft_eq', BitVec.shiftLeft_eq', toNat_shamt_int32, low_shiftLeft, src1Low_eq]
  rfl

theorem srlwRes_eq : int32 ((int32 src.src1Data &&& 0xffffffff) >>>
    shamt (int32 src.src2Data) true) = srlwRes src := by
  apply int32_eq
  rw [BitVec.ushiftRight_eq', BitVec.ushiftRight_eq', toNat_shamt_int32, low_ushiftRight,
    src1Low_eq]
  rfl

theorem srawRes_eq : int32 ((int32 src.src1Data).sshiftRight'
    (shamt (int32 src.src2Data) true)) = srawRes src := by
  have hn : ((src2Low src).extractLsb' 0 5).toNat < 32 := BitVec.isLt _
  apply int32_eq
  rw [BitVec.sshiftRight', BitVec.sshiftRight', toNat_shamt_int32, ← src2Low,
    low_sshiftRight _ hn, src1Low_eq]

theorem bit_eq (b : Bool) : (BitVec.ofBool b).setWidth 64 = if b then (1 : Word) else 0 := by
  cases b <;> rfl

theorem result_eq {op : FuOp} (h : op ∈ ops) :
    aluExec src.src1Data src.src2Data (ref op).1 (ref op).2 = some (result src op) := by
  simp only [ops, List.mem_cons, List.not_mem_nil, or_false] at h
  rcases h with rfl | rfl | rfl | rfl | rfl | rfl | rfl | rfl | rfl | rfl | rfl | rfl | rfl | rfl |
    rfl
  · rfl
  · rfl
  · exact congrArg some (sllRes_eq src).symm
  · exact congrArg some (bit_eq _).symm
  · exact congrArg some (bit_eq _).symm
  · rfl
  · exact congrArg some (srlRes_eq src).symm
  · exact congrArg some (sraRes_eq src).symm
  · rfl
  · rfl
  · exact congrArg some (addwRes_eq src)
  · exact congrArg some (subwRes_eq src)
  · exact congrArg some (sllwRes_eq src)
  · exact congrArg some (srlwRes_eq src)
  · exact congrArg some (srawRes_eq src)

end Alu

namespace Mdu

open RvAlu

variable (src : SrcInfo)

/-- The operation of the reference model for an operation of `Mdu`. -/
def ref (op : FuOp) : AluOp × Bool :=
  if op = MDUOpType.mul then (.mul, false)
  else if op = MDUOpType.mulh then (.mulh, false)
  else if op = MDUOpType.mulhsu then (.mulhsu, false)
  else if op = MDUOpType.mulhu then (.mulhu, false)
  else if op = MDUOpType.div then (.div, false)
  else if op = MDUOpType.divu then (.divu, false)
  else if op = MDUOpType.rem then (.rem, false)
  else if op = MDUOpType.remu then (.remu, false)
  else if op = MDUOpType.mulw then (.mul, true)
  else if op = MDUOpType.divw then (.div, true)
  else if op = MDUOpType.divuw then (.divu, true)
  else if op = MDUOpType.remw then (.rem, true)
  else (.remu, true)

def ops : List FuOp :=
  [MDUOpType.mul, MDUOpType.mulh, MDUOpType.mulhsu, MDUOpType.mulhu, MDUOpType.div, MDUOpType.divu,
    MDUOpType.rem, MDUOpType.remu, MDUOpType.mulw, MDUOpType.divw, MDUOpType.divuw, MDUOpType.remw,
    MDUOpType.remuw]

section Doubleword

theorem mul_eq : (mulSigned src).extractLsb' 0 64 = src.src1Data * src.src2Data := by
  rw [mulSigned, Bits.extract_eq_setWidth, BitVec.setWidth_mul _ _ (by decide),
    Bits.setWidth_signExtend _ (by decide), Bits.setWidth_signExtend _ (by decide)]

theorem high_eq (x : BitVec 128) : x.extractLsb' 64 64 = (x >>> 64).setWidth 64 := by
  apply BitVec.eq_of_getLsbD_eq
  intro i hi
  simp [hi]

theorem high_eq_signed (x : BitVec 128) :
    x.extractLsb' 64 64 = (x.sshiftRight 64).setWidth 64 := by
  apply BitVec.eq_of_getLsbD_eq
  intro i hi
  rw [BitVec.getLsbD_setWidth, BitVec.getLsbD_sshiftRight, BitVec.getLsbD_extractLsb']
  simp [hi, show ¬ 128 ≤ i by omega, show 64 + i < 128 by omega]

/-- The quotient, which is -1 for a zero divisor. -/
def quotient {w : ℕ} (x y : BitVec w) : BitVec w := if y = 0 then -1 else x.sdiv y

theorem div_eq : (divSigned src).setWidth 64 = quotient src.src1Data src.src2Data := by
  rw [divSigned, quotient]
  split_ifs
  · decide
  · exact Bits.setWidth_sdiv_signExtend _ _ (by decide)

theorem sub_quotient_mul {w : ℕ} (x y : BitVec w) :
    x - quotient x y * y = if y = 0 then x else x.srem y := by
  rw [quotient]
  split_ifs with h
  · subst h
    simp
  · exact Bits.sub_sdiv_mul x y

theorem rem_eq : (remSigned src).extractLsb' 0 64 =
    if src.src2Data = 0 then src.src1Data else src.src1Data.srem src.src2Data := by
  rw [← sub_quotient_mul, ← div_eq, remSigned, Bits.extract_eq_setWidth,
    Bits.setWidth_sub _ _ (by decide), BitVec.setWidth_mul _ _ (by decide),
    Bits.setWidth_signExtend _ (by decide), Bits.setWidth_signExtend _ (by decide),
    Bits.setWidth_signExtend_of_le _ (by decide) (by decide)]

theorem remu_eq : (remUnsigned src).extractLsb' 0 64 =
    if src.src2Data = 0 then src.src1Data else src.src1Data % src.src2Data := by
  rw [remUnsigned, Bits.extract_eq_setWidth, Bits.setWidth_sub _ _ (by decide),
    BitVec.setWidth_mul _ _ (by decide), Bits.setWidth_setWidth_self _ (by decide),
    Bits.setWidth_setWidth_self _ (by decide), Bits.setWidth_setWidth_self _ (by decide),
    divUnsigned]
  split_ifs with h
  · simp [h]
  · exact Bits.sub_udiv_mul _ _

/-- `alu_exec` sets its special cases to what the division yields there. -/
theorem compute_div (a b : Word) (op32 : Bool) :
    compute a b .div op32 = some (quotient a b) := by
  rw [compute, quotient]
  split_ifs with h h'
  · rfl
  · rw [h'.1, h'.2]
    decide
  · rfl

theorem compute_rem (a b : Word) (op32 : Bool) :
    compute a b .rem op32 = some (if b = 0 then a else a.srem b) := by
  rw [compute]
  split_ifs with h h'
  · rfl
  · rw [h'.1, h'.2]
    decide
  · rfl

theorem exec_div : aluExec src.src1Data src.src2Data .div false =
    some ((divSigned src).extractLsb' 0 64) := by
  rw [Bits.extract_eq_setWidth, div_eq, ← compute_div _ _ false]
  rfl

theorem exec_divu : aluExec src.src1Data src.src2Data .divu false = some (divUnsigned src) := by
  change compute _ _ .divu false = _
  rw [compute, divUnsigned]
  split_ifs <;> first | rfl | contradiction

theorem exec_rem : aluExec src.src1Data src.src2Data .rem false =
    some ((remSigned src).extractLsb' 0 64) := by
  rw [rem_eq, ← compute_rem _ _ false]
  rfl

theorem exec_remu : aluExec src.src1Data src.src2Data .remu false =
    some ((remUnsigned src).extractLsb' 0 64) := by
  change compute _ _ .remu false = _
  rw [compute, remu_eq]
  split_ifs <;> first | rfl | contradiction

end Doubleword

section Single

theorem rs1Low_eq : rs1Low src = src.src1Data.setWidth 32 := Bits.extract_eq_setWidth _

theorem rs2Low_eq : rs2Low src = src.src2Data.setWidth 32 := Bits.extract_eq_setWidth _

theorem mulw_eq : int32 (int32 src.src1Data * int32 src.src2Data) =
    signedExtend ((mulSigned src).extractLsb' 0 32) 64 := by
  apply int32_eq
  rw [mulSigned, Bits.extract_eq_setWidth, BitVec.setWidth_mul _ _ (by decide),
    BitVec.setWidth_mul _ _ (by decide), low_int32, low_int32,
    Bits.setWidth_signExtend_of_le _ (by decide) (by decide),
    Bits.setWidth_signExtend_of_le _ (by decide) (by decide)]

theorem divw_eq : (divwSigned src).setWidth 32 = quotient (rs1Low src) (rs2Low src) := by
  rw [divwSigned, quotient]
  split_ifs
  · decide
  · exact Bits.setWidth_sdiv_signExtend _ _ (by decide)

theorem remw_eq : remwSigned src =
    if rs2Low src = 0 then rs1Low src else (rs1Low src).srem (rs2Low src) := by
  rw [remwSigned, Bits.extract_eq_setWidth, BitVec.setWidth_mul _ _ (by decide),
    Bits.setWidth_signExtend_of_le _ (by decide) (by decide), divw_eq,
    Bits.setWidth_signExtend _ (by decide), sub_quotient_mul]
  split_ifs <;> rfl

theorem remuw_eq : remwUnsigned src =
    if rs2Low src = 0 then rs1Low src else rs1Low src % rs2Low src := by
  rw [remwUnsigned, Bits.extract_eq_setWidth, BitVec.setWidth_mul _ _ (by decide),
    Bits.setWidth_setWidth_self _ (by decide), Bits.setWidth_setWidth_self _ (by decide),
    divwUnsigned]
  split_ifs
  · rfl
  · exact Bits.sub_udiv_mul _ _

theorem exec_divw : aluExec src.src1Data src.src2Data .div true =
    some (signedExtend ((divwSigned src).extractLsb' 0 32) 64) := by
  change (compute _ _ .div true).map int32 = _
  rw [compute_div, Option.map_some, Bits.extract_eq_setWidth, divw_eq, quotient, quotient,
    rs1Low_eq, rs2Low_eq]
  refine congrArg some (int32_eq ?_)
  by_cases h : int32 src.src2Data = 0
  · rw [if_pos h, if_pos ((int32_eq_zero_iff _).mp h)]
    decide
  · rw [if_neg h, if_neg fun hz => h ((int32_eq_zero_iff _).mpr hz)]
    exact Bits.setWidth_sdiv_signExtend _ _ (by decide)

theorem exec_divuw : aluExec src.src1Data src.src2Data .divu true =
    some (signedExtend (divwUnsigned src) 64) := by
  change (compute _ _ .divu true).map int32 = _
  rw [compute, divwUnsigned, rs1Low_eq, rs2Low_eq, low_int32, low_int32]
  by_cases h : int32 src.src2Data = 0
  · rw [if_pos h, if_pos ((int32_eq_zero_iff _).mp h)]
    decide
  · rw [if_neg h, if_neg fun hz => h ((int32_eq_zero_iff _).mpr hz), if_pos rfl]
    exact congrArg some (int32_eq (Bits.setWidth_setWidth_self _ (by decide)))

theorem exec_remw : aluExec src.src1Data src.src2Data .rem true =
    some (signedExtend (remwSigned src) 64) := by
  change (compute _ _ .rem true).map int32 = _
  rw [compute_rem, Option.map_some, remw_eq, rs1Low_eq, rs2Low_eq]
  refine congrArg some (int32_eq ?_)
  by_cases h : int32 src.src2Data = 0
  · rw [if_pos h, if_pos ((int32_eq_zero_iff _).mp h), low_int32]
  · rw [if_neg h, if_neg fun hz => h ((int32_eq_zero_iff _).mpr hz)]
    exact Bits.setWidth_srem_signExtend _ _ (by decide)

theorem exec_remuw : aluExec src.src1Data src.src2Data .remu true =
    some (signedExtend (remwUnsigned src) 64) := by
  change (compute _ _ .remu true).map int32 = _
  rw [compute, remuw_eq, rs1Low_eq, rs2Low_eq, low_int32, low_int32]
  by_cases h : int32 src.src2Data = 0
  · rw [if_pos h, if_pos ((int32_eq_zero_iff _).mp h)]
    exact congrArg some (int32_eq (low_int32 _))
  · rw [if_neg h, if_neg fun hz => h ((int32_eq_zero_iff _).mpr hz), if_pos rfl]
    exact congrArg some (int32_eq (Bits.setWidth_setWidth_self _ (by decide)))

end Single

theorem result_eq {op : FuOp} (h : op ∈ ops) :
    aluExec src.src1Data src.src2Data (ref op).1 (ref op).2 = some (result src op) := by
  simp only [ops, List.mem_cons, List.not_mem_nil, or_false] at h
  rcases h with rfl | rfl | rfl | rfl | rfl | rfl | rfl | rfl | rfl | rfl | rfl | rfl | rfl
  · exact congrArg some (mul_eq src).symm
  · exact congrArg some (high_eq_signed _).symm
  · exact congrArg some (high_eq _).symm
  · exact congrArg some (high_eq _).symm
  · exact exec_div src
  · exact exec_divu src
  · exact exec_rem src
  · exact exec_remu src
  · exact congrArg some (mulw_eq src)
  · exact exec_divw src
  · exact exec_divuw src
  · exact exec_remw src
  · exact exec_remuw src

end Mdu

end PuaCpu
