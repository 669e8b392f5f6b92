import PuaCpu.Agreement.Alu
import PuaCpu.Agreement.Decode

/-! # Arithmetic agreement

For every word that the decoder sends to `Alu` or `Mdu`, the unit computes the
value that the reference model passes to `set_GPR`: the tables of the decoder
and the switches of `exec` select the same operation and the same operands.
-/

namespace PuaCpu

namespace Arith

open RvAlu RvInstr

/-- What the reference model selects for a word: the operation and the second operand, which is
the immediate up to bits that the operation ignores. -/
inductive Selects (inst : RvInstr) : InstrType → AluOp × Bool → Prop
  | op {r : AluOp} (h : inst.opcode = Opcode.op) (hr : RvCore.op inst = some r) :
    Selects inst .r (r, false)
  | op32 {r : AluOp} (h : inst.opcode = Opcode.op32) (hr : RvCore.op32 inst = some r) :
    Selects inst .r (r, true)
  | opimm {r : AluOp} {imm : Word} (h : inst.opcode = Opcode.opimm)
    (hr : RvCore.opimm inst = some (r, imm))
    (hi : ∀ a, aluExec a imm r false = aluExec a (inst.imm12.signExtend 64) r false) :
    Selects inst .i (r, false)
  | opimm32 {r : AluOp} {imm : Word} (h : inst.opcode = Opcode.opimm32)
    (hr : RvCore.opimm32 inst = some (r, imm))
    (hi : ∀ a, aluExec a imm r true = aluExec a (inst.imm12.signExtend 64) r true) :
    Selects inst .i (r, true)

theorem shamt_and (b : Word) (op32 : Bool) : shamt (b &&& 0x3f) op32 = shamt b op32 := by
  rw [shamt, shamt, BitVec.and_assoc]
  cases op32 <;> rfl

theorem shamt_int32_and (b : Word) : shamt (int32 (b &&& 0x3f)) true = shamt (int32 b) true := by
  apply BitVec.eq_of_toNat_eq
  rw [toNat_shamt_int32, toNat_shamt_int32]
  have h : (b &&& 0x3f).toNat = b.toNat % 2 ^ 6 := Nat.and_two_pow_sub_one_eq_mod _ 6
  simp only [BitVec.extractLsb'_toNat, Nat.shiftRight_zero, h]
  omega

theorem aluExec_shamt {op : AluOp} (h : op ∈ [AluOp.srl, .sra]) (a b : Word) (op32 : Bool) :
    aluExec a (b &&& 0x3f) op op32 = aluExec a b op op32 := by
  simp only [List.mem_cons, List.not_mem_nil, or_false] at h
  rcases h with rfl | rfl <;> cases op32 <;>
    simp only [aluExec, compute, shamt_and, shamt_int32_and, Bool.false_eq_true, if_false, if_true]

theorem not_sle_imm12 {inst : RvInstr} (h : inst.funct7.extractLsb' 1 6 = 0) :
    (64 : Word).sle (inst.imm12.signExtend 64) = false := by
  have hx : (inst.extractLsb' 20 12).toNat < 64 := by
    have h0 := congrArg BitVec.toNat (inst.funct6_eq.symm.trans h)
    rw [Bits.toNat_extract] at h0 ⊢
    have h1 : inst.toNat / 2 ^ 26 % 2 ^ 6 = 0 := h0
    omega
  have hi : (inst.imm12.signExtend 64).toInt = (inst.extractLsb' 20 12).toNat := by
    rw [Bits.toInt_signExtend _ (by decide), imm12, Bits.toInt_signExtend _ (by decide),
      BitVec.toInt_eq_toNat_of_lt (by omega)]
  rw [BitVec.sle, hi]
  exact decide_eq_false (by change ¬ (64 : ℤ) ≤ _; omega)

/-- The operation that an entry selects on the other side. -/
def ref (e : DecodeEntry) : AluOp × Bool :=
  if e.fuType = .alu then Alu.ref e.fuOpType else Mdu.ref e.fuOpType

/-- What is known about an entry of the arithmetic tables. -/
structure Entry (inst : RvInstr) (e : DecodeEntry) : Prop where
  unit : (e.fuType = .alu ∧ e.fuOpType ∈ Alu.ops) ∨ (e.fuType = .mdu ∧ e.fuOpType ∈ Mdu.ops)
  selects : Selects inst e.instrType (ref e) ∨ e.instrType = .u ∧ ref e = (.add, false) ∧
    (inst.opcode = Opcode.lui ∨ inst.opcode = Opcode.auipc)

theorem entry_rv64m {inst : RvInstr} {m : BitPat × DecodeEntry} (hm : m ∈ RV64MInstr.table)
    (h : m.1.hits inst.word = true) : Entry inst m.2 := by
  simp only [RV64MInstr.table, List.mem_cons, List.not_mem_nil, or_false] at hm
  rcases hm with rfl | rfl | rfl | rfl | rfl | rfl | rfl | rfl
  all_goals
    simp only [BitPat.hits, List.all_cons, List.all_nil, Bool.and_true, Bool.and_eq_true,
      beq_iff_eq, BitPat.funct7, BitPat.funct3, BitPat.opcode, funct7_word, funct3_word,
      opcode_word] at h
    obtain ⟨h7, h3, ho⟩ := h
    refine ⟨by decide, .inl (.op ho ?_)⟩
    rw [RvCore.op, h7, h3]
    decide

theorem entry_rv64i {inst : RvInstr} {m : BitPat × DecodeEntry} (hm : m ∈ RV64IInstr.table)
    (h : m.1.hits inst.word = true) : Entry inst m.2 := by
  simp only [RV64IInstr.table, List.mem_cons, List.not_mem_nil, or_false] at hm
  rcases hm with rfl | rfl | rfl | rfl | rfl | rfl | rfl | rfl | rfl | rfl | rfl | rfl | rfl | rfl
  all_goals
    simp only [BitPat.hits, List.all_cons, List.all_nil, Bool.and_true, Bool.and_eq_true,
      beq_iff_eq, BitPat.funct7, BitPat.funct3, BitPat.opcode, funct7_word, funct3_word,
      opcode_word] at h
  · obtain ⟨h3, ho⟩ := h
    exact ⟨by decide, .inl (.opimm32 ho (by rw [RvCore.opimm32, h3]; rfl) fun _ => rfl)⟩
  · obtain ⟨h7, h3, ho⟩ := h
    refine ⟨by decide, .inl (.opimm32 ho ?_ fun _ => rfl)⟩
    rw [RvCore.opimm32, h7, h3, not_sle_imm12 (by rw [h7]; decide)]
    rfl
  · obtain ⟨h7, h3, ho⟩ := h
    refine ⟨by decide, .inl (.opimm32 ho ?_ fun _ => aluExec_shamt (by decide) _ _ _)⟩
    rw [RvCore.opimm32, h7, h3]
    rfl
  · obtain ⟨h7, h3, ho⟩ := h
    refine ⟨by decide, .inl (.opimm32 ho ?_ fun _ => aluExec_shamt (by decide) _ _ _)⟩
    rw [RvCore.opimm32, h7, h3]
    rfl
  all_goals
    obtain ⟨h7, h3, ho⟩ := h
    refine ⟨by decide, .inl (.op32 ho ?_)⟩
    rw [RvCore.op32, h7, h3]
    decide

theorem entry_rv32i {inst : RvInstr} {m : BitPat × DecodeEntry} (hm : m ∈ RV32IALUInstr.table)
    (h : m.1.hits inst.word = true) : Entry inst m.2 := by
  simp only [RV32IALUInstr.table, List.mem_cons, List.not_mem_nil, or_false] at hm
  rcases hm with rfl | rfl | rfl | rfl | rfl | rfl | rfl | rfl | rfl | rfl | rfl | rfl | rfl | rfl |
    rfl | rfl | rfl | rfl | rfl | rfl | rfl
  all_goals
    simp only [BitPat.hits, List.all_cons, List.all_nil, Bool.and_true, Bool.and_eq_true,
      beq_iff_eq, BitPat.funct7, BitPat.funct6, BitPat.funct3, BitPat.opcode, funct7_word,
      funct6_word, funct3_word, opcode_word] at h
  · obtain ⟨h3, ho⟩ := h
    exact ⟨by decide, .inl (.opimm ho (by rw [RvCore.opimm, h3]; rfl) fun _ => rfl)⟩
  · obtain ⟨h6, h3, ho⟩ := h
    refine ⟨by decide, .inl (.opimm ho ?_ fun _ => rfl)⟩
    rw [RvCore.opimm, h3, not_sle_imm12 h6]
    rfl
  · obtain ⟨h3, ho⟩ := h
    exact ⟨by decide, .inl (.opimm ho (by rw [RvCore.opimm, h3]; rfl) fun _ => rfl)⟩
  · obtain ⟨h3, ho⟩ := h
    exact ⟨by decide, .inl (.opimm ho (by rw [RvCore.opimm, h3]; rfl) fun _ => rfl)⟩
  · obtain ⟨h3, ho⟩ := h
    exact ⟨by decide, .inl (.opimm ho (by rw [RvCore.opimm, h3]; rfl) fun _ => rfl)⟩
  · obtain ⟨h6, h3, ho⟩ := h
    refine ⟨by decide, .inl (.opimm ho ?_ fun _ => aluExec_shamt (by decide) _ _ _)⟩
    rw [RvCore.opimm, h3, h6]
    rfl
  · obtain ⟨h3, ho⟩ := h
    exact ⟨by decide, .inl (.opimm ho (by rw [RvCore.opimm, h3]; rfl) fun _ => rfl)⟩
  · obtain ⟨h3, ho⟩ := h
    exact ⟨by decide, .inl (.opimm ho (by rw [RvCore.opimm, h3]; rfl) fun _ => rfl)⟩
  · obtain ⟨h6, h3, ho⟩ := h
    refine ⟨by decide, .inl (.opimm ho ?_ fun _ => aluExec_shamt (by decide) _ _ _)⟩
    rw [RvCore.opimm, h3, h6]
    rfl
  -- the last two entries are `AUIPC` and `LUI`
  on_goal 12 => exact ⟨by decide, .inr ⟨rfl, rfl, .inl h⟩⟩
  on_goal 11 => exact ⟨by decide, .inr ⟨rfl, rfl, .inr h⟩⟩
  all_goals
    obtain ⟨h7, h3, ho⟩ := h
    refine ⟨by decide, .inl (.op ho ?_)⟩
    rw [RvCore.op, h7, h3]
    decide

theorem not_arith : ∀ m ∈ RV64CsrInstr.table ++ RV64MemInstr.table ++ RV64BruInstr.table,
    ¬ (m.2.instrType.isRegWen = true ∧ m.2.fuType ∈ [FuType.alu, .mdu]) := by decide

theorem entry_lookup {inst : RvInstr} (hw : (Decoder.info inst.word).regWen = true)
    (hf : (Decoder.info inst.word).fusel ∈ [FuType.alu, .mdu]) :
    Entry inst (Decoder.lookup inst.word) := by
  have hw' : (Decoder.lookup inst.word).instrType.isRegWen = true := hw
  have hf' : (Decoder.lookup inst.word).fuType ∈ [FuType.alu, .mdu] := hf
  rcases Decoder.hits_or inst.word with ⟨m, hm, h, hl⟩ | ⟨-, hl⟩
  · rw [hl] at hw' hf' ⊢
    have hr := not_arith m
    simp only [Instructions.decodeTable, RVIInstr.table, List.mem_append] at hm hr
    rcases hm with ((((hm | hm) | hm) | hm) | hm) | hm
    · exact entry_rv32i hm h
    · exact entry_rv64i hm h
    · exact entry_rv64m hm h
    · exact absurd ⟨hw', hf'⟩ (hr (.inl (.inl hm)))
    · exact absurd ⟨hw', hf'⟩ (hr (.inl (.inr hm)))
    · exact absurd ⟨hw', hf'⟩ (hr (.inr hm))
  · rw [hl] at hw'
    exact absurd hw' (by decide)

section Result

variable {regs : ARegFile} {mode : Priv} {pc : Word} {inst : RvInstr} {c : Csr.State}
  {lines : ExtInterrupt}

theorem aluExec_ref (he : Entry inst (Decoder.lookup inst.word)) :
    aluExec (issue regs mode pc inst).srcInfo.src1Data (issue regs mode pc inst).srcInfo.src2Data
      (ref (Decoder.lookup inst.word)).1 (ref (Decoder.lookup inst.word)).2 =
        some (Fu.rdInfo c (issue regs mode pc inst) lines).wdata := by
  have hi : (issue regs mode pc inst).info.fusel = (Decoder.lookup inst.word).fuType := rfl
  have ho : (issue regs mode pc inst).info.op = (Decoder.lookup inst.word).fuOpType := rfl
  rw [Fu.rdInfo, hi, ho, ref]
  rcases he.unit with ⟨hu, hop⟩ | ⟨hu, hop⟩
  · rw [hu, if_pos rfl]
    exact Alu.result_eq _ hop
  · rw [hu, if_neg (by decide)]
    exact Mdu.result_eq _ hop

theorem alu_eq {δ : Type} {s : RvCore.State δ} {a b v : Word} {r : AluOp} {w : Bool}
    (h : aluExec a b r w = some v) : s.alu inst a b r w = .ok (s.setGpr inst.rd v).done := by
  rw [RvCore.State.alu, h]

end Result

section Agree

variable {δ : Type} [MmioDev δ] (cfg : RvPriv.Config) (s : RvCore.State δ) (regs : ARegFile)
  (c : Csr.State) (lines : ExtInterrupt) (mode : Priv) (inst : RvInstr)

/-- **Arithmetic agreement.** A word that the decoder sends to `Alu` or `Mdu` and that writes a
register makes the reference model write the value of that unit to the same register. -/
theorem arith_agree (hw : (Decoder.info inst.word).regWen = true)
    (hf : (Decoder.info inst.word).fusel ∈ [FuType.alu, .mdu]) :
    { s with gpr := regs.read }.decodeExec inst cfg =
      .ok ((RvCore.State.fetched { s with gpr := regs.read } inst).setGpr
        (Decoder.info inst.word).regWaddr
        (Fu.rdInfo c (issue regs mode s.pc inst) lines).wdata).done := by
  have he := entry_lookup hw hf
  have hx : aluExec (issue regs mode s.pc inst).srcInfo.src1Data _ _ _ =
      some (Fu.rdInfo c (issue regs mode s.pc inst) lines).wdata := aluExec_ref he
  have hrd : (Decoder.info inst.word).regWaddr = inst.rd := inst.rd_word
  rw [hrd]
  generalize (Fu.rdInfo c (issue regs mode s.pc inst) lines).wdata = v at hx
  rcases he.selects with hs | ⟨ht, hr, ho⟩
  · generalize hr : ref (Decoder.lookup inst.word) = r at hs hx
    generalize ht : (Decoder.lookup inst.word).instrType = t at hs
    cases hs with
    | op h hop =>
      rw [issue_src1Data_reg (by rw [ht]; decide), issue_src2Data_reg (by rw [ht]; decide)] at hx
      rw [RvCore.State.decodeExec_op h, RvCore.State.execOp_eq, hop]
      exact alu_eq hx
    | op32 h hop =>
      rw [issue_src1Data_reg (by rw [ht]; decide), issue_src2Data_reg (by rw [ht]; decide)] at hx
      rw [RvCore.State.decodeExec_op32 h, RvCore.State.execOp32, hop]
      exact alu_eq hx
    | opimm h hop hi =>
      rw [issue_src1Data_reg (by rw [ht]; decide), issue_src2Data_imm (by rw [ht]; decide), ht,
        Decoder.imm, immI_word, ← hi] at hx
      rw [RvCore.State.decodeExec_opimm h, RvCore.State.execOpimm_eq, hop]
      exact alu_eq hx
    | opimm32 h hop hi =>
      rw [issue_src1Data_reg (by rw [ht]; decide), issue_src2Data_imm (by rw [ht]; decide), ht,
        Decoder.imm, immI_word, ← hi] at hx
      rw [RvCore.State.decodeExec_opimm32 h, RvCore.State.execOpimm32, hop]
      exact alu_eq hx
  · rw [hr, issue_src1Data_pc (by rw [ht]; decide), issue_src2Data_imm (by rw [ht]; decide), ht,
      Decoder.imm, immU_word] at hx
    rcases ho with ho | ho
    · rw [if_pos ho] at hx
      have hv : v = inst.immU := by simpa [aluExec, compute, eq_comm] using hx
      rw [RvCore.State.decodeExec_lui ho, hv]
      rfl
    · rw [if_neg (by rw [ho]; decide)] at hx
      have hv : v = inst.immU + s.pc := by
        simpa [aluExec, compute, eq_comm, BitVec.add_comm] using hx
      rw [RvCore.State.decodeExec_auipc ho, hv]
      rfl

/-- `DIV x1, x2, x3` with the most negative dividend and the divisor -1. -/
theorem arith_agree_div :
    { (default : RvCore.State MmioMem) with
      gpr := ARegFile.read fun r => if r = 2 then 1#64 <<< 63 else -1 }.decodeExec
        0x023140b3 ⟨true, false⟩ =
      .ok ((RvCore.State.fetched { (default : RvCore.State MmioMem) with
        gpr := ARegFile.read fun r => if r = 2 then 1#64 <<< 63 else -1 } 0x023140b3).setGpr
          1 (1#64 <<< 63)).done :=
  arith_agree _ default _ Csr.init {} Priv.m 0x023140b3 (by decide) (by decide)

end Agree

end Arith

end PuaCpu
