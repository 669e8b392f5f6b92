import PuaCpu.Agreement.Arith
import PuaCpu.Agreement.Memory
import PuaCpu.Agreement.Transfer
import PuaCpu.Lockstep.Step

/-! # One instruction without a trap

What the reference model does in an instruction of `Alu`, `Mdu`, `Bru` and `Lsu`
that the sequential machine completes: the same register, the same address to go
on at and the same memory.
-/

namespace PuaCpu.Lockstep

open RvCore RvPriv CsrValue RvInstr

variable {imem : SramAddr → BitVec 32} {a : Sequential.State} {s b e : RvCore.State MmioMem}
  {mem mem' : Bytes.Memory 64} {inst : RvInstr}

theorem decode_eq (hw : Core.fetchWord imem a.pc = inst.word) :
    Sequential.decode imem a = issue a.regs a.csr.mode a.pc inst := by
  rw [Sequential.decode, hw]
  rfl

theorem refUpdate_setGpr (b : RvCore.State MmioMem) (r : RegAddr) (v : Word) :
    Cosim.refUpdate (b.setGpr r v) = if r ≠ 0 then some (r, v) else none := rfl

theorem refUpdate_of_begun (he : e.debugRegNum = (begun s).debugRegNum) :
    Cosim.refUpdate e = none := by
  have hz : e.debugRegNum = 0 := he
  rw [Cosim.refUpdate, if_neg (not_not_intro hz)]

section Next

theorem not_isWrite (h : ¬((Sequential.decode imem a).info.fusel = .lsu ∧
      LSUOpType.isStore (Sequential.decode imem a).info.op = true)) :
    (Sequential.dataSram imem a).isWrite = false := by
  have hw : (Sequential.dataSram imem a).wen = 0 := by
    change (if ((Sequential.decode imem a).info.valid && _ && _) = true then _ else 0) = _
    refine if_neg fun hc => h ?_
    simp only [Bool.and_eq_true, decide_eq_true_eq] at hc
    exact ⟨hc.1.2, hc.2⟩
  rw [DataSram.isWrite, hw]
  simp

theorem low32_next (ha : InMemory a.pc 4) : Core.low32 (a.pc + 4) = a.pc + 4 := by
  refine Core.low32_eq_self ?_
  have h : (a.pc + 4).toNat = a.pc.toNat + 4 := ha.toNat_add
  have := ha.2
  omega

variable (h : Agrees a s mem) (hq : Quiet imem a)
  (hf : (Sequential.decode imem a).info.fusel ≠ .csr)

include h hq hf

theorem matches_mem (pc : Word) {bus : Systembus MmioMem} {newPc : Bool}
    (he : e.priv = { (begun s).priv with
      toState := { (begun s).priv.toState with curPc := pc }, bus := bus })
    (hp : e.debugPc = (begun s).debugPc) (hd : e.difftestMode = (begun s).difftestMode)
    (hu : Cosim.refUpdate e = Cosim.dutUpdate (Sequential.execute imem a))
    (hn : (if newPc then pc else pc + 4) = (Sequential.step imem a).pc) (hb : bus.Maps mem')
    (hm : Holds (Sequential.step imem a).mem mem') :
    Matches imem a (begun s) e (exitPc e newPc) mem' := by
  have ht : e.priv.curNeedTrap = false := by
    rw [he]
    rfl
  have hpc : e.pc = pc := by rw [State.pc, he]
  have hi : sampleIp e.priv.ip {} = 0 := by
    rw [he]
    change sampleIp (sampleIp s.priv.ip {}) {} = 0
    rw [h.csr.ip]
    decide
  refine ⟨hu, hp, hd, ?_, by rw [he]; exact hb, hm, by rw [he],
    hq.csrAgrees hf h.csr (fun r hr => ?_) (by rw [he]; rfl) hi (by rw [he]; rfl)⟩
  · rw [exitPc, ht, hpc]
    exact hn
  · rw [he]
    revert hr
    cases r <;> first | exact fun _ => rfl | exact fun hr => absurd (by decide) hr

theorem matches_next (ha : InMemory a.pc 4)
    (hb : Bru.branch (Sequential.decode imem a).info (Sequential.decode imem a).srcInfo = false)
    {bus : Systembus MmioMem} (he : e.priv = { (begun s).priv with bus := bus })
    (hp : e.debugPc = (begun s).debugPc) (hd : e.difftestMode = (begun s).difftestMode)
    (hu : Cosim.refUpdate e = Cosim.dutUpdate (Sequential.execute imem a))
    (hbus : bus.Maps mem') (hm : Holds (Sequential.step imem a).mem mem') :
    Matches imem a (begun s) e (exitPc e false) mem' := by
  refine matches_mem h hq hf (begun s).pc he hp hd hu ?_ hbus hm
  have hpc : (begun s).pc = a.pc := h.pc
  rw [hq.pc_step hf, hb, low32_next ha, hpc]
  rfl

omit hq hf in
theorem holds_step (hw : (Sequential.dataSram imem a).isWrite = false) :
    Holds (Sequential.step imem a).mem mem := by
  have hm : (Sequential.step imem a).mem = a.mem := DataSram.write_of_not_isWrite hw _
  rw [hm]
  exact h.mem

end Next

section Arith

theorem decodeExec_selects {t : InstrType} {r : AluOp × Bool} (hs : Arith.Selects inst t r)
    {cfg : Config} {v : Word}
    (hx : RvAlu.aluExec (b.gpr inst.rs1)
      (if t = .r then b.gpr inst.rs2 else inst.imm12.signExtend 64) r.1 r.2 = some v) :
    b.decodeExec inst cfg = .ok ((b.fetched inst).setGpr inst.rd v).done := by
  cases hs with
  | op h hop =>
    rw [State.decodeExec_op h, State.execOp_eq, hop]
    exact Arith.alu_eq hx
  | op32 h hop =>
    rw [State.decodeExec_op32 h, State.execOp32, hop]
    exact Arith.alu_eq hx
  | opimm h hop hi =>
    rw [State.decodeExec_opimm h, State.execOpimm_eq, hop]
    exact Arith.alu_eq ((hi _).trans hx)
  | opimm32 h hop hi =>
    rw [State.decodeExec_opimm32 h, State.execOpimm32, hop]
    exact Arith.alu_eq ((hi _).trans hx)

theorem selects_instrType {t : InstrType} {r : AluOp × Bool} (hs : Arith.Selects inst t r) :
    t = .r ∨ t = .i := by
  cases hs with
  | op => exact .inl rfl
  | op32 => exact .inl rfl
  | opimm => exact .inr rfl
  | opimm32 => exact .inr rfl

/-- The value of the functional unit is the one that the reference model writes. -/
theorem decodeExec_arith {regs : ARegFile} {mode : Priv} {c : Csr.State} {lines : ExtInterrupt}
    (he : Arith.Entry inst (Decoder.lookup inst.word)) (hg : b.gpr = regs.read) {cfg : Config} :
    b.decodeExec inst cfg = .ok ((b.fetched inst).setGpr inst.rd
      (Fu.rdInfo c (issue regs mode b.pc inst) lines).wdata).done := by
  have hx : RvAlu.aluExec (issue regs mode b.pc inst).srcInfo.src1Data _ _ _ =
      some (Fu.rdInfo c (issue regs mode b.pc inst) lines).wdata := Arith.aluExec_ref he
  generalize (Fu.rdInfo c (issue regs mode b.pc inst) lines).wdata = v at hx
  rcases he.selects with hs | ⟨ht, hr, ho⟩
  · refine decodeExec_selects hs ?_
    rcases selects_instrType hs with ht | ht
    · rw [issue_src1Data_reg (by simp [ht]), issue_src2Data_reg (by simp [ht])] at hx
      rw [hg, ht, if_pos rfl, hx]
    · rw [issue_src1Data_reg (by simp [ht]), issue_src2Data_imm (by simp [ht]), ht, Decoder.imm,
        immI_word] at hx
      rw [hg, ht, if_neg (by decide), hx]
  · rw [hr, issue_src1Data_pc (by simp [ht]), issue_src2Data_imm (by simp [ht]), ht, Decoder.imm,
      immU_word] at hx
    rcases ho with ho | ho
    · have hv : v = inst.immU := by simpa [ho, RvAlu.aluExec, RvAlu.compute, eq_comm] using hx
      rw [State.decodeExec_lui ho, hv]
      rfl
    · have hne : inst.opcode ≠ Opcode.lui := by
        rw [ho]
        decide
      have hv : v = inst.immU + b.pc := by
        simpa [hne, RvAlu.aluExec, RvAlu.compute, eq_comm, BitVec.add_comm] using hx
      rw [State.decodeExec_auipc ho, hv]
      rfl

end Arith

/-- Both sides fetch this word. -/
structure Fetched (imem : SramAddr → BitVec 32) (a : Sequential.State) (mem : Bytes.Memory 64)
    (inst : RvInstr) : Prop where
  pc : InMemory a.pc 4
  aligned : a.pc % pcAlign = 0
  core : Core.fetchWord imem a.pc = inst.word
  ref : (Bytes.load mem (place a.pc) 4).setWidth 32 = inst

/-- What decode makes of an entry of the table. -/
structure Decoded (imem : SramAddr → BitVec 32) (a : Sequential.State) (inst : RvInstr)
    (m : DecodeEntry) : Prop where
  fusel : (Sequential.decode imem a).info.fusel = m.fuType
  op : (Sequential.decode imem a).info.op = m.fuOpType
  regWen : (Sequential.decode imem a).info.regWen = m.instrType.isRegWen
  regWaddr : (Sequential.decode imem a).info.regWaddr = inst.rd

theorem Fetched.decoded {m : DecodeEntry} (hc : Fetched imem a mem inst)
    (hl : Decoder.lookup inst.word = m) : Decoded imem a inst m := by
  rw [← hl]
  have hd := decode_eq hc.core
  refine ⟨?_, ?_, ?_, ?_⟩ <;> rw [hd]
  · rfl
  · rfl
  · rfl
  · exact inst.rd_word

/-- What one step of the reference model has to do. -/
def Steps (imem : SramAddr → BitVec 32) (a : Sequential.State) (s : RvCore.State MmioMem) : Prop :=
  ∃ s' mem', s.step testConfig {} = .ok s' ∧ Stepped imem a s s' mem'

section Classes

variable (h : Agrees a s mem) (hc : Fetched imem a mem inst) (hq : Quiet imem a)
  (ht : s.priv.mcycle < 2000000) (hv : State.isRvc inst = false)

include h hc hq ht hv

omit hq in
theorem steps_of_matches {newPc : Bool}
    (hd : (begun s).decodeExec inst testConfig = .ok ⟨e, false, newPc⟩)
    (hm : Matches imem a (begun s) e (exitPc e newPc) mem') : Steps imem a s := by
  obtain ⟨s', hs, hs'⟩ := stepped_of_matches h hc.pc hc.aligned ht hc.ref hv hd hm
  exact ⟨s', mem', hs, hs'⟩

theorem steps_arith (hw : (Decoder.info inst.word).regWen = true)
    (hf : (Decoder.info inst.word).fusel ∈ [FuType.alu, .mdu]) : Steps imem a s := by
  have hd := decode_eq hc.core
  have hfu : (Sequential.decode imem a).info.fusel ∈ [FuType.alu, .mdu] := by
    rw [hd]
    exact hf
  have hne {f : FuType} (hn : f ∉ [FuType.alu, .mdu]) :
      (Sequential.decode imem a).info.fusel ≠ f := fun he => hn (he ▸ hfu)
  have hpc : (begun s).pc = a.pc := h.pc
  have hx : (begun s).decodeExec inst testConfig = .ok (((begun s).fetched inst).setGpr inst.rd
      (Fu.rdInfo a.csr (issue a.regs a.csr.mode (begun s).pc inst) {}).wdata).done :=
    decodeExec_arith (Arith.entry_lookup hw hf) (by exact h.gpr)
  rw [hpc, ← hd] at hx
  have hmem : (Sequential.dataSram imem a).isWrite = false :=
    not_isWrite fun hl => hne (by decide) hl.1
  refine steps_of_matches h hc ht hv hx (matches_next h hq (hne (by decide)) hc.pc ?_ rfl rfl rfl
    ?_ h.bus (holds_step h hmem))
  · simp [Bru.branch, hne (f := .bru) (by decide)]
  · have hwen : (Sequential.decode imem a).info.regWen = true := by
      rw [hd]
      exact hw
    have hrd : (Sequential.decode imem a).info.regWaddr = inst.rd := by
      rw [hd]
      exact inst.rd_word
    have hr : (Sequential.execute imem a).rdInfo = Fu.rdInfo a.csr (Sequential.decode imem a) {} :=
      if_neg (hne (by decide))
    rw [refUpdate_setGpr, hq.dutUpdate, hwen, hrd, hr]
    simp

theorem steps_nop {op : FuOp} (hl : Decoder.lookup inst.word = ⟨.s, .alu, op⟩)
    (hx : (begun s).decodeExec inst testConfig = .ok ((begun s).fetched inst).done) :
    Steps imem a s := by
  have hd := hc.decoded hl
  have hfu := hd.fusel
  have hs : InstrType.isRegWen .s = false := by decide
  have hwen : (Sequential.decode imem a).info.regWen = false := hd.regWen.trans hs
  have hmem : (Sequential.dataSram imem a).isWrite = false := not_isWrite (by simp [hfu])
  have hu : Cosim.refUpdate ((begun s).fetched inst) = none := refUpdate_of_begun (s := s) rfl
  refine steps_of_matches h hc ht hv hx (matches_next h hq (by simp [hfu]) hc.pc ?_ rfl rfl rfl ?_
    h.bus (holds_step h hmem))
  · simp [Bru.branch, hfu]
  · rw [hu, hq.dutUpdate, hwen]
    simp

section Transfer

variable {t : InstrType} {op : FuOp} (hl : Decoder.lookup inst.word = ⟨t, .bru, op⟩)

include hl

theorem steps_link {npc : Word} (hwen : t.isRegWen = true) (hj : BRUOpType.isJump op = true)
    (hx : (begun s).decodeExec inst testConfig = ((begun s).fetched inst).link inst npc)
    (hn : Bru.target a.pc (Sequential.decode imem a).info
      (Sequential.decode imem a).srcInfo = npc) :
    Steps imem a s := by
  have hd := hc.decoded hl
  have hfu := hd.fusel
  have hop := hd.op
  have hw := hd.regWen.trans hwen
  have hrd := hd.regWaddr
  have hv' : (Sequential.decode imem a).info.valid = true := rfl
  have hb : Bru.branch (Sequential.decode imem a).info
      (Sequential.decode imem a).srcInfo = true := by
    simp [Bru.branch, hfu, hop, hj, hv']
  have ha := hq.target_aligned hb
  have hmem : (Sequential.dataSram imem a).isWrite = false := not_isWrite (by simp [hfu])
  rw [hn] at ha
  rw [State.link, if_neg (not_not_intro ha)] at hx
  refine steps_of_matches h hc ht hv hx (matches_mem h hq (by simp [hfu]) npc rfl rfl rfl
    ?_ ?_ h.bus (holds_step h hmem))
  · have hr : (Sequential.execute imem a).rdInfo = Fu.rdInfo a.csr (Sequential.decode imem a) {} :=
      if_neg (by change ¬(Sequential.decode imem a).info.fusel = _; simp [hfu])
    have hres : (Fu.rdInfo a.csr (Sequential.decode imem a) {}).wdata = a.pc + 4 := by
      rw [Fu.rdInfo, hfu]
      rfl
    have hpc : ((begun s).fetched inst).pc = a.pc := h.pc
    rw [hq.dutUpdate, hw, hrd, hr, hres, hpc]
    simp only [true_and]
    rfl
  · rw [hq.pc_step (by simp [hfu]), hb, hn]
    rfl

theorem steps_branch (hwen : t.isRegWen = false) (hob : BRUOpType.isBranch op = true)
    (hj : BRUOpType.isJump op = false) (ho : inst.opcode = Opcode.branch)
    (hs : (Sequential.decode imem a).srcInfo = ⟨a.regs.read inst.rs1, a.regs.read inst.rs2⟩)
    (hn : Bru.target a.pc (Sequential.decode imem a).info (Sequential.decode imem a).srcInfo =
      a.pc + inst.immB.signExtend 64)
    (hk : ∀ x y, branchTaken inst.funct3 x y = some (Bru.branchBool op ⟨x, y⟩)) :
    Steps imem a s := by
  have hd := hc.decoded hl
  have hfu := hd.fusel
  have hop := hd.op
  have hw := hd.regWen.trans hwen
  have hv' : (Sequential.decode imem a).info.valid = true := rfl
  have hb : Bru.branch (Sequential.decode imem a).info (Sequential.decode imem a).srcInfo =
      Bru.branchBool op ⟨a.regs.read inst.rs1, a.regs.read inst.rs2⟩ := by
    simp [Bru.branch, hfu, hop, hob, hj, hv', hs]
  have hg : ((begun s).fetched inst).gpr = a.regs.read := h.gpr
  have hpc : ((begun s).fetched inst).pc = a.pc := h.pc
  have hx : (begun s).decodeExec inst testConfig = ((begun s).fetched inst).execBranch inst :=
    State.decodeExec_branch ho
  have hmem : (Sequential.dataSram imem a).isWrite = false := not_isWrite (by simp [hfu])
  have hu {e : RvCore.State MmioMem} (he : e.debugRegNum = (begun s).debugRegNum) :
      Cosim.refUpdate e = Cosim.dutUpdate (Sequential.execute imem a) := by
    rw [refUpdate_of_begun he, hq.dutUpdate, hw]
    simp
  rw [State.execBranch, hg, hk, ← hb] at hx
  cases hbr : Bru.branch (Sequential.decode imem a).info (Sequential.decode imem a).srcInfo with
  | false =>
    rw [hbr] at hx
    exact steps_of_matches h hc ht hv hx (matches_next h hq (by simp [hfu]) hc.pc hbr rfl rfl rfl
      (hu rfl) h.bus (holds_step h hmem))
  | true =>
    have ha := hq.target_aligned hbr
    rw [hn, ← hpc] at ha
    rw [hbr] at hx
    change _ = (if (((begun s).fetched inst).pc + inst.immB.signExtend 64) % pcAlign ≠ 0 then _
      else _) at hx
    rw [if_neg (not_not_intro ha)] at hx
    refine steps_of_matches h hc ht hv hx (matches_mem h hq (by simp [hfu])
      (((begun s).fetched inst).pc + inst.immB.signExtend 64) rfl rfl rfl (hu rfl) ?_ h.bus
      (holds_step h hmem))
    rw [hq.pc_step (by simp [hfu]), hbr, hn, hpc]
    rfl

end Transfer

end Classes

end PuaCpu.Lockstep
