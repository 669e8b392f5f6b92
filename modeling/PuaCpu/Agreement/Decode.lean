import Mathlib.Tactic.IntervalCases
import PuaCpu.Bits.Width
import PuaCpu.Decode.Operands
import PuaCpu.Decode.Table
import PuaCpu.Execute.Fu
import PuaCpu.Reference.Dispatch

/-! # One word for both decoders

The fetch unit widens an instruction word to 64 bits. The fields of the wide
word are those of the word itself, and the immediates that the decoder puts
together are the sums of bit-fields that the reference model computes.
-/

namespace PuaCpu

namespace RvInstr

variable (inst : RvInstr)

/-- The word as the decoder sees it. -/
def word : Word := inst.setWidth 64

theorem extract_word {lo w : ℕ} (h : lo + w ≤ 32) :
    inst.word.extractLsb' lo w = inst.extractLsb' lo w := by
  apply BitVec.eq_of_getLsbD_eq
  intro i hi
  rw [BitVec.getLsbD_extractLsb', BitVec.getLsbD_extractLsb', word, BitVec.getLsbD_setWidth]
  simp [show lo + i < 64 by omega]

theorem opcode_word : inst.word.extractLsb' 0 7 = inst.opcode := inst.extract_word (by decide)

theorem rd_word : inst.word.extractLsb' 7 5 = inst.rd := inst.extract_word (by decide)

theorem funct3_word : inst.word.extractLsb' 12 3 = inst.funct3 := inst.extract_word (by decide)

theorem rs1_word : inst.word.extractLsb' 15 5 = inst.rs1 := inst.extract_word (by decide)

theorem rs2_word : inst.word.extractLsb' 20 5 = inst.rs2 := inst.extract_word (by decide)

theorem funct7_word : inst.word.extractLsb' 25 7 = inst.funct7 := inst.extract_word (by decide)

theorem funct6_eq : inst.funct7.extractLsb' 1 6 = inst.extractLsb' 26 6 :=
  Bits.extract_extract _ (by decide)

theorem funct6_word : inst.word.extractLsb' 26 6 = inst.funct7.extractLsb' 1 6 := by
  rw [extract_word _ (by decide), funct6_eq]

theorem immI_word : Decoder.immI inst.word = inst.imm12.signExtend 64 := by
  rw [Decoder.immI, extract_word _ (by decide), imm12, Bits.signExtend_signExtend] <;> decide

theorem immU_word : Decoder.immU inst.word = inst.immU := by
  rw [Decoder.immU, extract_word _ (by decide), immU]
  apply BitVec.eq_of_getLsbD_eq
  intro i hi
  simp only [BitVec.getLsbD_shiftLeft, BitVec.getLsbD_signExtend, BitVec.getLsbD_append,
    BitVec.msb_eq_getLsbD_last]
  interval_cases i <;> simp

theorem immS_word : Decoder.immS inst.word = inst.immS.signExtend 64 := by
  have h : inst.immS = (inst.extractLsb' 25 7 ++ inst.extractLsb' 7 5).signExtend 32 := by
    rw [immS]
    apply BitVec.eq_of_getLsbD_eq
    intro i hi
    simp only [BitVec.getLsbD_or, BitVec.getLsbD_shiftLeft, BitVec.getLsbD_signExtend,
      BitVec.getLsbD_setWidth, BitVec.getLsbD_append, BitVec.msb_eq_getLsbD_last]
    interval_cases i <;> simp
  rw [h, Bits.signExtend_signExtend, Decoder.immS, extract_word, extract_word] <;> decide

theorem immB_word : Decoder.immB inst.word = inst.immB.signExtend 64 := by
  have h : inst.immB = (inst.extractLsb' 31 1 ++ inst.extractLsb' 7 1 ++ inst.extractLsb' 25 6 ++
      inst.extractLsb' 8 4 ++ 0#1).signExtend 32 := by
    rw [immB]
    apply BitVec.eq_of_getLsbD_eq
    intro i hi
    simp only [BitVec.getLsbD_or, BitVec.getLsbD_shiftLeft, BitVec.getLsbD_signExtend,
      BitVec.getLsbD_setWidth, BitVec.getLsbD_append, BitVec.msb_eq_getLsbD_last]
    interval_cases i <;> simp
  rw [h, Bits.signExtend_signExtend, Decoder.immB, extract_word, extract_word, extract_word,
    extract_word] <;> decide

theorem immJ_word : Decoder.immJ inst.word = inst.immJ.signExtend 64 := by
  have h : inst.immJ = (inst.extractLsb' 31 1 ++ inst.extractLsb' 12 8 ++ inst.extractLsb' 20 1 ++
      inst.extractLsb' 21 10 ++ 0#1).signExtend 32 := by
    rw [immJ]
    apply BitVec.eq_of_getLsbD_eq
    intro i hi
    simp only [BitVec.getLsbD_or, BitVec.getLsbD_shiftLeft, BitVec.getLsbD_signExtend,
      BitVec.getLsbD_setWidth, BitVec.getLsbD_append, BitVec.msb_eq_getLsbD_last]
    interval_cases i <;> simp
  rw [h, Bits.signExtend_signExtend, Decoder.immJ, extract_word, extract_word, extract_word,
    extract_word] <;> decide

theorem hits_funct3_opcode {inst : RvInstr} {f : BitVec 3} {o : BitVec 7} (h3 : inst.funct3 = f)
    (h : inst.opcode = o) : BitPat.hits [BitPat.funct3 f, BitPat.opcode o] inst.word = true := by
  change (inst.word.extractLsb' 12 3 == f && (inst.word.extractLsb' 0 7 == o && true)) = true
  rw [funct3_word, opcode_word, h3, h]
  simp

end RvInstr

/-- A word in execute, with the operands that decode reads from the registers. -/
def issue (regs : ARegFile) (mode : Priv) (pc : Word) (inst : RvInstr) : IdExeData :=
  let info : Info := { Decoder.info inst.word with valid := true }
  { pc := pc
    info := info
    srcInfo :=
      { src1Data := DecodeUnit.src1Data regs pc info
        src2Data := DecodeUnit.src2Data regs info }
    ex := ExcCtrl.excInfo pc info (Decoder.instIllegal inst.word) mode {} }

section Issue

variable {regs : ARegFile} {mode : Priv} {pc : Word} {inst : RvInstr}

theorem issue_src1Data_reg (h : (Decoder.lookup inst.word).instrType ∈ [InstrType.r, .i, .s, .b]) :
    (issue regs mode pc inst).srcInfo.src1Data = regs.read inst.rs1 := by
  have hr : (issue regs mode pc inst).info.src1Ren = true := by
    change (decide _ || decide _ || decide _ || decide _) = true
    simp only [List.mem_cons, List.not_mem_nil, or_false] at h
    rcases h with h | h | h | h <;> simp [h]
  change DecodeUnit.src1Data regs pc (issue regs mode pc inst).info = _
  rw [DecodeUnit.src1Data, if_pos hr, ← inst.rs1_word]
  rfl

theorem issue_src2Data_reg (h : (Decoder.lookup inst.word).instrType ∈ [InstrType.r, .s, .b]) :
    (issue regs mode pc inst).srcInfo.src2Data = regs.read inst.rs2 := by
  have hr : (issue regs mode pc inst).info.src2Ren = true := by
    change (decide _ || decide _ || decide _) = true
    simp only [List.mem_cons, List.not_mem_nil, or_false] at h
    rcases h with h | h | h <;> simp [h]
  change DecodeUnit.src2Data regs (issue regs mode pc inst).info = _
  rw [DecodeUnit.src2Data, if_pos hr, ← inst.rs2_word]
  rfl

theorem issue_src2Data_imm (h : (Decoder.lookup inst.word).instrType ∈ [InstrType.i, .u, .j]) :
    (issue regs mode pc inst).srcInfo.src2Data =
      Decoder.imm (Decoder.lookup inst.word).instrType inst.word := by
  have hr : (issue regs mode pc inst).info.src2Ren = false := by
    change (decide _ || decide _ || decide _) = false
    simp only [List.mem_cons, List.not_mem_nil, or_false] at h
    rcases h with h | h | h <;> simp [h]
  change DecodeUnit.src2Data regs (issue regs mode pc inst).info = _
  rw [DecodeUnit.src2Data, hr]
  rfl

theorem issue_src1Data_pc (h : (Decoder.lookup inst.word).instrType ∈ [InstrType.u, .j]) :
    (issue regs mode pc inst).srcInfo.src1Data = if inst.opcode = Opcode.lui then 0 else pc := by
  have hr : (issue regs mode pc inst).info.src1Ren = false := by
    change (decide _ || decide _ || decide _ || decide _) = false
    simp only [List.mem_cons, List.not_mem_nil, or_false] at h
    rcases h with h | h <;> simp [h]
  have hl : (issue regs mode pc inst).info.isLui = (inst.opcode == Opcode.lui) := by
    rw [← inst.opcode_word]
    rfl
  change DecodeUnit.src1Data regs pc (issue regs mode pc inst).info = _
  rw [DecodeUnit.src1Data, hr, hl]
  simp

end Issue

end PuaCpu
