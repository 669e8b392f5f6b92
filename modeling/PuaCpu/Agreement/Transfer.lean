import PuaCpu.Agreement.Decode
import PuaCpu.Pipeline.Operands
import PuaCpu.Reference.Harness
import PuaCpu.Reference.Trap

/-! # Control-transfer agreement

A branch or jump goes on, transfers control or raises a misaligned address. The
decoder with `Bru` and the reference model resolve every such instruction in
the same way, but for a `JALR` from an odd register: there the reference model
keeps the low bit of the sum.
-/

namespace PuaCpu

/-- How a branch or jump ends, with the registers after it. -/
inductive Transfer
  | fallThrough (regs : RegAddr → Word)
  | jump (target : Word) (regs : RegAddr → Word)
  | misaligned (tval : Word)

namespace Transfer

open RvPriv RvInstr

/-- What the execute stage makes of an instruction. -/
def ofCore (c : Csr.State) (d : IdExeData) (regs : ARegFile) : Transfer :=
  let ex := (Fu.csrIn d {}).excInfo
  let written := (regs.write ⟨d.info.regWen, d.info.regWaddr, (Fu.rdInfo c d {}).wdata⟩).read
  if ex.exception .instAddrMisaligned then .misaligned (ex.tval .instAddrMisaligned)
  else if Bru.branch d.info d.srcInfo then .jump (Bru.target d.pc d.info d.srcInfo) written
  else .fallThrough written

/-- What the reference model makes of it: the last trap that was raised after `s`, or the new
`pc`. -/
def ofRef {δ : Type} (s : RvCore.State δ) : Outcome (RvCore.Exec δ) → Option Transfer
  | .error _ => none
  | .ok e =>
    if e.ri then none
    else match e.core.priv.raised.drop s.priv.raised.length with
    | (cause, tval) :: _ =>
      if cause = .exc .instAddrMisaligned then some (.misaligned tval) else none
    | [] => some (if e.newPc then .jump e.core.pc e.core.gpr else .fallThrough e.core.gpr)

/-- `JAL`, `JALR` and the conditional branches. -/
def IsTransfer (inst : RvInstr) : Prop :=
  inst.opcode = Opcode.jal ∨ (inst.opcode = Opcode.jalr ∧ inst.funct3 = 0) ∨
    (inst.opcode = Opcode.branch ∧
      inst.funct3 ∈ [Funct3.beq, Funct3.bne, Funct3.blt, Funct3.bge, Funct3.bltu, Funct3.bgeu])

instance (inst : RvInstr) : Decidable (IsTransfer inst) :=
  decidable_of_iff (inst.opcode = Opcode.jal ∨ (inst.opcode = Opcode.jalr ∧ inst.funct3 = 0) ∨
    (inst.opcode = Opcode.branch ∧ [Funct3.beq, Funct3.bne, Funct3.blt, Funct3.bge, Funct3.bltu,
      Funct3.bgeu].any (inst.funct3 == ·) = true)) (by simp [IsTransfer])

/-- The end of a transfer, given whether it is taken, its target and the registers. -/
def resolve (taken : Bool) (target : Word) (regs : RegAddr → Word) : Transfer :=
  if taken then if target.extractLsb' 0 2 != 0 then .misaligned target else .jump target regs
  else .fallThrough regs

theorem aligned_iff (x : Word) : x % RvCore.pcAlign = 0 ↔ x.extractLsb' 0 2 = 0 := by
  have h : (x % RvCore.pcAlign).toNat = (x.extractLsb' 0 2).toNat := by
    rw [Bits.toNat_extract, BitVec.toNat_umod]
    change x.toNat % 4 = _
    omega
  constructor <;> intro h0 <;> apply BitVec.eq_of_toNat_eq
  · rw [← h, h0]
    rfl
  · rw [h, h0]
    rfl

section Ref

variable {δ : Type} {s s' : RvCore.State δ} {npc : Word} {inst : RvInstr}

theorem ofRef_trapped (hr : s'.priv.raised = s.priv.raised) (newPc : Bool) :
    ofRef s (.ok ⟨s'.withPriv (s'.priv.trapped (.exc .instAddrMisaligned) npc), false, newPc⟩) =
      some (.misaligned npc) := by
  simp [ofRef, RvCore.State.withPriv, Hart.trapped, hr]

theorem ofRef_done (hr : s'.priv.raised = s.priv.raised) :
    ofRef s (.ok s'.done) = some (.fallThrough s'.gpr) := by
  simp [ofRef, RvCore.State.done, hr]

theorem ofRef_jumped (hr : s'.priv.raised = s.priv.raised) :
    ofRef s (.ok s'.jumped) = some (.jump s'.pc s'.gpr) := by
  simp [ofRef, RvCore.State.jumped, hr]

theorem resolve_taken (regs : RegAddr → Word) : resolve true npc regs =
    if npc % RvCore.pcAlign ≠ 0 then .misaligned npc else .jump npc regs := by
  rw [resolve, if_pos rfl]
  by_cases h : npc.extractLsb' 0 2 = 0
  · rw [if_neg (by simpa using h), if_neg (not_not_intro ((aligned_iff npc).mpr h))]
  · rw [if_pos (by simpa using h), if_pos fun h' => h ((aligned_iff npc).mp h')]

theorem ofRef_link (hn : s'.priv.curNeedTrap = false) (hr : s'.priv.raised = s.priv.raised) :
    ofRef s (s'.link inst npc) = some (resolve true npc (s'.setGpr inst.rd (s'.pc + 4)).gpr) := by
  rw [RvCore.State.link, resolve_taken]
  split_ifs
  · rw [RvCore.State.raiseTrap_eq hn (by decide)]
    exact ofRef_trapped hr false
  · exact ofRef_jumped (by exact hr)

theorem ofRef_branch (hn : s'.priv.curNeedTrap = false) (hr : s'.priv.raised = s.priv.raised)
    {taken : Bool}
    (hb : RvCore.branchTaken inst.funct3 (s'.gpr inst.rs1) (s'.gpr inst.rs2) = some taken) :
    ofRef s (s'.execBranch inst) =
      some (resolve taken (s'.pc + inst.immB.signExtend 64) s'.gpr) := by
  rw [RvCore.State.execBranch, hb]
  cases taken with
  | false => exact ofRef_done hr
  | true =>
    rw [resolve_taken]
    change ofRef s (if (s'.pc + inst.immB.signExtend 64) % RvCore.pcAlign ≠ 0 then _ else _) = _
    split_ifs
    · have hn' : { s' with debugIsBranch := true }.priv.curNeedTrap = false := hn
      have hr' : { s' with debugIsBranch := true }.priv.raised = s.priv.raised := hr
      rw [RvCore.State.raiseTrap_eq hn' (by decide)]
      exact ofRef_trapped hr' true
    · exact ofRef_jumped (by exact hr)

end Ref

section Core

variable {c : Csr.State} {regs : ARegFile} {mode : Priv} {pc : Word} {inst : RvInstr}
  {t : InstrType} {op : FuOp}

theorem issue_ex (hl : Decoder.lookup inst.word = ⟨t, .bru, op⟩) (ht : t ≠ .n)
    (hp : pc.extractLsb' 0 2 = 0) : (issue regs mode pc inst).ex.exception = fun _ => false := by
  have hi : Decoder.instIllegal inst.word = false := by
    rw [Decoder.instIllegal, hl]
    exact decide_eq_false ht
  have hf : (issue regs mode pc inst).info.fusel = .bru := congrArg DecodeEntry.fuType hl
  funext e
  change ExcCtrl.exception pc (issue regs mode pc inst).info (Decoder.instIllegal inst.word) mode
    e = false
  simp [ExcCtrl.exception, ExcCtrl.isEbreak, ExcCtrl.isEcall, hf, hi, hp]

theorem ofCore_issue (hl : Decoder.lookup inst.word = ⟨t, .bru, op⟩) (ht : t ≠ .n)
    (hp : pc.extractLsb' 0 2 = 0) :
    ofCore c (issue regs mode pc inst) regs =
      resolve (Bru.branch (issue regs mode pc inst).info (issue regs mode pc inst).srcInfo)
        (Bru.target pc (issue regs mode pc inst).info (issue regs mode pc inst).srcInfo)
        (regs.write ⟨t.isRegWen, inst.rd, Bru.result pc⟩).read := by
  have hx : (issue regs mode pc inst).ex.exception = fun _ => false := issue_ex hl ht hp
  have hf : (issue regs mode pc inst).info.fusel = .bru := congrArg DecodeEntry.fuType hl
  have hw : (issue regs mode pc inst).info.regWen = t.isRegWen :=
    congrArg (fun e : DecodeEntry => e.instrType.isRegWen) hl
  have hr : (issue regs mode pc inst).info.regWaddr = inst.rd := inst.rd_word
  have hpc : (issue regs mode pc inst).pc = pc := rfl
  generalize issue regs mode pc inst = d at hx hf hw hr hpc ⊢
  subst hpc
  have hlsu : Lsu.ex d.ex d.info d.srcInfo = d.ex := by simp [Lsu.ex, Lsu.hasExc, hf]
  have hrd : (Fu.rdInfo c d {}).wdata = Bru.result d.pc := by rw [Fu.rdInfo, hf]
  rw [ofCore, hw, hr, hrd, resolve]
  simp only [Fu.csrIn, hlsu, Bru.ex]
  have he : orR d.ex.exception = false := by
    rw [hx]
    decide
  have hb : Bru.hasExc d.ex d.pc d.info d.srcInfo = (Bru.branch d.info d.srcInfo &&
      (Bru.target d.pc d.info d.srcInfo).extractLsb' 0 2 != 0) := by
    rw [Bru.hasExc, he]
    simp
  rw [hb]
  generalize ((Bru.target d.pc d.info d.srcInfo).extractLsb' 0 2 != 0) = odd
  cases Bru.branch d.info d.srcInfo <;> cases odd <;> simp [hx, ExceptionInfo.raise]

end Core

section Decode

variable {inst : RvInstr}

theorem lookup_bru {m : BitPat × DecodeEntry} (hm : m ∈ RV64BruInstr.table)
    (h : m.1.hits inst.word = true) : Decoder.lookup inst.word = m.2 :=
  Decoder.lookup_of_hits (List.mem_append_right _ hm) h

theorem lookup_jal (h : inst.opcode = Opcode.jal) :
    Decoder.lookup inst.word = ⟨.j, .bru, BRUOpType.jal⟩ := by
  refine lookup_bru (m := RV64BruInstr.table[0]) (List.getElem_mem _) ?_
  change (inst.word.extractLsb' 0 7 == _ && true) = true
  rw [opcode_word, h]
  decide

theorem lookup_jalr (h : inst.opcode = Opcode.jalr) (h3 : inst.funct3 = 0) :
    Decoder.lookup inst.word = ⟨.i, .bru, BRUOpType.jalr⟩ :=
  lookup_bru (m := RV64BruInstr.table[1]) (List.getElem_mem _) (hits_funct3_opcode h3 h)

theorem lookup_branch (h : inst.opcode = Opcode.branch) (h3 : inst.funct3 ∈
    [Funct3.beq, Funct3.bne, Funct3.blt, Funct3.bge, Funct3.bltu, Funct3.bgeu]) :
    ∃ op, Decoder.lookup inst.word = ⟨.b, .bru, op⟩ ∧ BRUOpType.isBranch op = true ∧
      op ≠ BRUOpType.jalr ∧
      ∀ a b, RvCore.branchTaken inst.funct3 a b = some (Bru.branchBool op ⟨a, b⟩) := by
  simp only [List.mem_cons, List.not_mem_nil, or_false] at h3
  rcases h3 with h3 | h3 | h3 | h3 | h3 | h3
  · exact ⟨_, lookup_bru (m := RV64BruInstr.table[2]) (List.getElem_mem _)
      (hits_funct3_opcode h3 h), by decide, by decide, fun _ _ => by rw [h3]; rfl⟩
  · exact ⟨_, lookup_bru (m := RV64BruInstr.table[3]) (List.getElem_mem _)
      (hits_funct3_opcode h3 h), by decide, by decide, fun _ _ => by rw [h3]; rfl⟩
  · exact ⟨_, lookup_bru (m := RV64BruInstr.table[4]) (List.getElem_mem _)
      (hits_funct3_opcode h3 h), by decide, by decide, fun _ _ => by rw [h3]; rfl⟩
  · exact ⟨_, lookup_bru (m := RV64BruInstr.table[5]) (List.getElem_mem _)
      (hits_funct3_opcode h3 h), by decide, by decide, fun _ _ => by rw [h3]; rfl⟩
  · exact ⟨_, lookup_bru (m := RV64BruInstr.table[6]) (List.getElem_mem _)
      (hits_funct3_opcode h3 h), by decide, by decide, fun _ _ => by rw [h3]; rfl⟩
  · exact ⟨_, lookup_bru (m := RV64BruInstr.table[7]) (List.getElem_mem _)
      (hits_funct3_opcode h3 h), by decide, by decide, fun _ _ => by rw [h3]; rfl⟩

end Decode

section LowBit

theorem getLsbD_clear_low (x : Word) {i : ℕ} (hi : i < 64) :
    (x &&& ~~~1#64).getLsbD i = (x.getLsbD i && !decide (i = 0)) := by
  rw [BitVec.getLsbD_and, BitVec.getLsbD_not, BitVec.getLsbD_one]
  simp [hi]

theorem toNat_clear_low (x : Word) : (x &&& ~~~1#64).toNat = x.toNat / 2 * 2 := by
  have h : x &&& ~~~1#64 = x >>> 1 <<< 1 := by
    apply BitVec.eq_of_getLsbD_eq
    intro i hi
    rw [getLsbD_clear_low x hi]
    rcases i with _ | i
    · simp
    · simp [hi, Nat.add_comm 1 i]
  have hx := x.isLt
  rw [h, BitVec.toNat_shiftLeft, BitVec.toNat_ushiftRight, Nat.shiftLeft_eq,
    Nat.shiftRight_eq_div_pow]
  omega

theorem jalrImm_eq (inst : RvInstr) :
    RvCore.jalrImm inst = inst.imm12.signExtend 64 &&& ~~~1#64 := by
  rw [RvCore.jalrImm]
  generalize inst.imm12 = imm
  have hm : (imm ^^^ 1).msb = imm.msb := by simp [BitVec.msb_xor]
  have hb (i : ℕ) : (imm ^^^ 1).getLsbD i = (imm.getLsbD i ^^ decide (i = 0)) := by
    rw [BitVec.getLsbD_xor]
    exact congrArg _ (by simp [BitVec.getLsbD_one])
  apply BitVec.eq_of_getLsbD_eq
  intro i hi
  rw [getLsbD_clear_low _ hi]
  rcases i with _ | i
  · split_ifs with h <;> simp only [BitVec.getLsbD_signExtend, hb, h] <;> simp
  · split_ifs <;> simp only [BitVec.getLsbD_signExtend, hb, hm] <;> simp

/-- The code clears the low bit of the immediate and `Bru` that of the sum. -/
theorem jalr_target_eq_iff (a imm : Word) :
    a + (imm &&& ~~~1#64) = (a + imm) &&& ~~~1#64 ↔ a.getLsbD 0 = false := by
  have hb : a.getLsbD 0 = decide (a.toNat % 2 = 1) := by
    rw [BitVec.getLsbD, Nat.testBit_zero]
  have ha := a.isLt
  have hi := imm.isLt
  rw [← BitVec.toNat_inj, BitVec.toNat_add, toNat_clear_low, toNat_clear_low, BitVec.toNat_add, hb,
    decide_eq_false_iff_not]
  omega

theorem odd_target {a imm : Word} (h : a.getLsbD 0 = true) :
    (a + (imm &&& ~~~1#64)).extractLsb' 0 2 ≠ 0 := by
  have hb : a.getLsbD 0 = decide (a.toNat % 2 = 1) := by
    rw [BitVec.getLsbD, Nat.testBit_zero]
  intro h0
  have h1 := congrArg BitVec.toNat h0
  rw [Bits.toNat_extract, BitVec.toNat_add, toNat_clear_low] at h1
  have h2 : (a.toNat + imm.toNat / 2 * 2) % 2 ^ 64 / 2 ^ 0 % 2 ^ 2 = 0 := h1
  rw [h] at hb
  have h3 := of_decide_eq_true hb.symm
  omega

end LowBit

section Agree

variable {δ : Type} [MmioDev δ] (cfg : Config) (s : RvCore.State δ) (regs : ARegFile)
  (c : Csr.State) (mode : Priv) (inst : RvInstr)

section Jump

variable {s regs c mode inst}

theorem jal_agree (h : inst.opcode = Opcode.jal) (hp : s.pc.extractLsb' 0 2 = 0)
    (hn : s.priv.curNeedTrap = false) :
    ofRef { s with gpr := regs.read } ({ s with gpr := regs.read }.decodeExec inst cfg) =
      some (ofCore c (issue regs mode s.pc inst) regs) := by
  have hl := lookup_jal h
  have hb : Bru.branch (issue regs mode s.pc inst).info (issue regs mode s.pc inst).srcInfo =
      true := by
    simp only [Bru.branch, issue, Decoder.info, hl]
    rfl
  have ht : Bru.target s.pc (issue regs mode s.pc inst).info (issue regs mode s.pc inst).srcInfo =
      s.pc + inst.immJ.signExtend 64 := by
    rw [← inst.immJ_word]
    simp only [Bru.target, issue, Decoder.info, hl]
    rfl
  rw [RvCore.State.decodeExec_jal h, ofCore_issue hl (by decide) hp, hb, ht]
  change _ = some (resolve _ _ (regs.write ⟨true, _, _⟩).read)
  rw [ARegFile.read_write_wen]
  exact ofRef_link (by exact hn) (by rfl)

theorem branch_agree (h : inst.opcode = Opcode.branch) (h3 : inst.funct3 ∈
    [Funct3.beq, Funct3.bne, Funct3.blt, Funct3.bge, Funct3.bltu, Funct3.bgeu])
    (hp : s.pc.extractLsb' 0 2 = 0) (hn : s.priv.curNeedTrap = false) :
    ofRef { s with gpr := regs.read } ({ s with gpr := regs.read }.decodeExec inst cfg) =
      some (ofCore c (issue regs mode s.pc inst) regs) := by
  obtain ⟨op, hl, hop, hne, hb⟩ := lookup_branch h h3
  have hs : (issue regs mode s.pc inst).srcInfo =
      ⟨regs.read inst.rs1, regs.read inst.rs2⟩ := by
    have h1 : (issue regs mode s.pc inst).srcInfo.src1Data = _ :=
      issue_src1Data_reg (by simp [hl])
    have h2 : (issue regs mode s.pc inst).srcInfo.src2Data = _ :=
      issue_src2Data_reg (by simp [hl])
    rw [← h1, ← h2]
  have hbr : Bru.branch (issue regs mode s.pc inst).info ⟨regs.read inst.rs1, regs.read inst.rs2⟩ =
      Bru.branchBool op ⟨regs.read inst.rs1, regs.read inst.rs2⟩ := by
    simp only [Bru.branch, issue, Decoder.info, hl, hop, BRUOpType.isJump]
    simp
  have ht : Bru.target s.pc (issue regs mode s.pc inst).info
      ⟨regs.read inst.rs1, regs.read inst.rs2⟩ = s.pc + inst.immB.signExtend 64 := by
    rw [← inst.immB_word]
    simp only [Bru.target, issue, Decoder.info, hl, if_neg hne]
    rfl
  rw [RvCore.State.decodeExec_branch h, ofCore_issue hl (by decide) hp, hs, hbr, ht,
    ARegFile.write_of_not_wen (.inl rfl)]
  exact ofRef_branch (by exact hn) (by rfl) (by exact hb _ _)

theorem jalr_agree_iff (h : inst.opcode = Opcode.jalr) (h3 : inst.funct3 = 0)
    (hp : s.pc.extractLsb' 0 2 = 0) (hn : s.priv.curNeedTrap = false) :
    ofRef { s with gpr := regs.read } ({ s with gpr := regs.read }.decodeExec inst cfg) =
      some (ofCore c (issue regs mode s.pc inst) regs) ↔
      (regs.read inst.rs1).getLsbD 0 = false := by
  have hl := lookup_jalr h h3
  have hb : Bru.branch (issue regs mode s.pc inst).info (issue regs mode s.pc inst).srcInfo =
      true := by
    simp only [Bru.branch, issue, Decoder.info, hl]
    rfl
  have ht : Bru.target s.pc (issue regs mode s.pc inst).info (issue regs mode s.pc inst).srcInfo =
      (regs.read inst.rs1 + inst.imm12.signExtend 64) &&& ~~~1#64 := by
    have h1 : (issue regs mode s.pc inst).srcInfo.src1Data = _ :=
      issue_src1Data_reg (by rw [hl]; decide)
    have h2 : (issue regs mode s.pc inst).srcInfo.src2Data = _ :=
      issue_src2Data_imm (by rw [hl]; decide)
    rw [hl, Decoder.imm, inst.immI_word] at h2
    have hop : (issue regs mode s.pc inst).info.op = BRUOpType.jalr :=
      congrArg DecodeEntry.fuOpType hl
    rw [Bru.target, if_pos hop, h1, h2]
  have hr : ofRef { s with gpr := regs.read } ({ s with gpr := regs.read }.decodeExec inst cfg) =
      some (resolve true (regs.read inst.rs1 + (inst.imm12.signExtend 64 &&& ~~~1#64))
        (regs.write ⟨true, inst.rd, Bru.result s.pc⟩).read) := by
    rw [RvCore.State.decodeExec_jalr h, RvCore.State.execJalr, jalrImm_eq, ARegFile.read_write_wen]
    exact ofRef_link (by exact hn) (by rfl)
  rw [hr, ofCore_issue hl (by decide) hp, hb, ht, Option.some_inj]
  constructor
  · -- from an odd register the reference model raises an odd address, which `Bru` never has
    intro heq
    by_contra ho
    rw [Bool.not_eq_false] at ho
    rw [resolve, if_pos rfl, if_pos (by simpa using odd_target ho), resolve, if_pos rfl] at heq
    split_ifs at heq
    · injection heq with heq
      rw [(jalr_target_eq_iff _ _).mp heq] at ho
      exact absurd ho (by decide)
  · intro ho
    rw [(jalr_target_eq_iff _ _).mpr ho]
    rfl

end Jump

/-- **Control-transfer agreement**, which holds but for a `JALR` from an odd register. -/
theorem transfer_agree_iff (hi : IsTransfer inst) (hp : s.pc % RvCore.pcAlign = 0)
    (hn : s.priv.curNeedTrap = false) :
    ofRef { s with gpr := regs.read } ({ s with gpr := regs.read }.decodeExec inst cfg) =
        some (ofCore c (issue regs mode s.pc inst) regs) ↔
      ¬ (inst.opcode = Opcode.jalr ∧ (regs.read inst.rs1).getLsbD 0 = true) := by
  rw [aligned_iff] at hp
  rcases hi with h | ⟨h, h3⟩ | ⟨h, h3⟩
  · exact iff_of_true (jal_agree cfg h hp hn) fun hj => absurd (h.symm.trans hj.1) (by decide)
  · rw [jalr_agree_iff cfg h h3 hp hn, not_and, Bool.not_eq_true]
    exact ⟨fun ho _ => ho, fun ho => ho h⟩
  · exact iff_of_true (branch_agree cfg h h3 hp hn) fun hj =>
      absurd (h.symm.trans hj.1) (by decide)

/-- The registers of a `JALR x1, 0(x2)` whose `x2` holds an address. -/
def jalrRegs (a : Word) : ARegFile := fun r => if r = 2 then a else 0

def testCore : RvCore.State MmioMem := RvCore.Test.core ⟨true, false⟩ (fun _ => 0) default

theorem transfer_agree_even :
    ofRef { testCore with gpr := (jalrRegs 0x80000010).read }
        ({ testCore with gpr := (jalrRegs 0x80000010).read }.decodeExec 0x000100e7 ⟨true, false⟩) =
      some (ofCore Csr.init (issue (jalrRegs 0x80000010) Priv.m testCore.pc 0x000100e7)
        (jalrRegs 0x80000010)) :=
  (transfer_agree_iff ⟨true, false⟩ testCore (jalrRegs 0x80000010) Csr.init Priv.m 0x000100e7
    (by decide) (by decide) rfl).mpr (by decide)

/-- From an odd register the reference model raises a misaligned address where the core jumps. -/
theorem transfer_differs_odd :
    ofRef { testCore with gpr := (jalrRegs 0x80000011).read }
        ({ testCore with gpr := (jalrRegs 0x80000011).read }.decodeExec 0x000100e7 ⟨true, false⟩) ≠
      some (ofCore Csr.init (issue (jalrRegs 0x80000011) Priv.m testCore.pc 0x000100e7)
        (jalrRegs 0x80000011)) := fun h =>
  absurd ((jalr_agree_iff ⟨true, false⟩ (by decide) (by decide) (by decide) rfl).mp h) (by decide)

end Agree

end Transfer

end PuaCpu
