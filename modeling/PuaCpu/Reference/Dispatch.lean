import PuaCpu.Reference.Core

/-! # The switch on the opcode

Which case of the switch in `exec` an opcode reaches.
-/

namespace PuaCpu.RvCore.State

open RvPriv

theorem isRvc_eq (inst : RvInstr) : isRvc inst = (inst.opcode.extractLsb' 0 2 != 0b11) := by
  have h : inst.opcode.extractLsb' 0 2 = inst.extractLsb' 0 2 := by
    apply BitVec.eq_of_getLsbD_eq
    intro i hi
    simp [RvInstr.opcode, hi]
  rw [h, isRvc]

section Switch

variable {δ : Type} {s : State δ} {inst : RvInstr}

theorem mem_aluFuncts (f : BitVec 3) : f ∈ aluFuncts := by
  revert f
  decide

theorem mem_mulFuncts (f : BitVec 3) : f ∈ mulFuncts := by
  revert f
  decide

theorem execOpimm_eq : s.execOpimm inst =
    match opimm inst with
    | some (op, imm) => s.alu inst (s.gpr inst.rs1) imm op false
    | none => .ok s.illegal :=
  if_neg (not_not_intro (mem_aluFuncts _))

theorem execOp_eq : s.execOp inst =
    match op inst with
    | some op => s.alu inst (s.gpr inst.rs1) (s.gpr inst.rs2) op false
    | none => .ok s.illegal :=
  if_neg (by simp [mem_aluFuncts, mem_mulFuncts])

end Switch

variable {δ : Type} [MmioDev δ] {s : State δ} {inst : RvInstr} {cfg : Config}

/-- The state in which an opcode starts. -/
def fetched (s : State δ) (inst : RvInstr) : State δ := { s with debugInst := inst }

theorem decodeExec_lui (h : inst.opcode = Opcode.lui) :
    s.decodeExec inst cfg = .ok ((s.fetched inst).execLui inst) := by
  simp [decodeExec, isRvc_eq, h, Opcode.lui, fetched]

theorem decodeExec_auipc (h : inst.opcode = Opcode.auipc) :
    s.decodeExec inst cfg = .ok ((s.fetched inst).execAuipc inst) := by
  simp [decodeExec, isRvc_eq, h, Opcode.lui, Opcode.auipc, fetched]

theorem decodeExec_jal (h : inst.opcode = Opcode.jal) :
    s.decodeExec inst cfg = (s.fetched inst).execJal inst := by
  simp [decodeExec, isRvc_eq, h, Opcode.lui, Opcode.auipc, Opcode.jal, fetched]

theorem decodeExec_jalr (h : inst.opcode = Opcode.jalr) :
    s.decodeExec inst cfg = (s.fetched inst).execJalr inst := by
  simp [decodeExec, isRvc_eq, h, Opcode.lui, Opcode.auipc, Opcode.jal, Opcode.jalr, fetched]

theorem decodeExec_branch (h : inst.opcode = Opcode.branch) :
    s.decodeExec inst cfg = (s.fetched inst).execBranch inst := by
  simp [decodeExec, isRvc_eq, h, Opcode.lui, Opcode.auipc, Opcode.jal, Opcode.jalr, Opcode.branch,
    fetched]

theorem decodeExec_load (h : inst.opcode = Opcode.load) :
    s.decodeExec inst cfg = (s.fetched inst).execLoad inst := by
  simp [decodeExec, isRvc_eq, h, Opcode.lui, Opcode.auipc, Opcode.jal, Opcode.jalr, Opcode.branch,
    Opcode.load, fetched]

theorem decodeExec_store (h : inst.opcode = Opcode.store) :
    s.decodeExec inst cfg = (s.fetched inst).execStore inst cfg := by
  simp [decodeExec, isRvc_eq, h, Opcode.lui, Opcode.auipc, Opcode.jal, Opcode.jalr, Opcode.branch,
    Opcode.load, Opcode.store, fetched]

theorem decodeExec_opimm (h : inst.opcode = Opcode.opimm) :
    s.decodeExec inst cfg = (s.fetched inst).execOpimm inst := by
  simp [decodeExec, isRvc_eq, h, Opcode.lui, Opcode.auipc, Opcode.jal, Opcode.jalr, Opcode.branch,
    Opcode.load, Opcode.store, Opcode.opimm, fetched]

theorem decodeExec_opimm32 (h : inst.opcode = Opcode.opimm32) :
    s.decodeExec inst cfg = (s.fetched inst).execOpimm32 inst := by
  simp [decodeExec, isRvc_eq, h, Opcode.lui, Opcode.auipc, Opcode.jal, Opcode.jalr, Opcode.branch,
    Opcode.load, Opcode.store, Opcode.opimm, Opcode.opimm32, fetched]

theorem decodeExec_op (h : inst.opcode = Opcode.op) :
    s.decodeExec inst cfg = (s.fetched inst).execOp inst := by
  simp [decodeExec, isRvc_eq, h, Opcode.lui, Opcode.auipc, Opcode.jal, Opcode.jalr, Opcode.branch,
    Opcode.load, Opcode.store, Opcode.opimm, Opcode.opimm32, Opcode.op, fetched]

theorem decodeExec_op32 (h : inst.opcode = Opcode.op32) :
    s.decodeExec inst cfg = (s.fetched inst).execOp32 inst := by
  simp [decodeExec, isRvc_eq, h, Opcode.lui, Opcode.auipc, Opcode.jal, Opcode.jalr, Opcode.branch,
    Opcode.load, Opcode.store, Opcode.opimm, Opcode.opimm32, Opcode.op, Opcode.op32, fetched]

theorem decodeExec_amo (h : inst.opcode = Opcode.amo) :
    s.decodeExec inst cfg = (s.fetched inst).execAmo inst := by
  simp [decodeExec, isRvc_eq, h, Opcode.lui, Opcode.auipc, Opcode.jal, Opcode.jalr, Opcode.branch,
    Opcode.load, Opcode.store, Opcode.opimm, Opcode.opimm32, Opcode.op, Opcode.op32, Opcode.amo,
    fetched]

theorem decodeExec_fence (h : inst.opcode = Opcode.fence) :
    s.decodeExec inst cfg = .ok (s.fetched inst).done := by
  simp [decodeExec, isRvc_eq, h, Opcode.lui, Opcode.auipc, Opcode.jal, Opcode.jalr, Opcode.branch,
    Opcode.load, Opcode.store, Opcode.opimm, Opcode.opimm32, Opcode.op, Opcode.op32, Opcode.amo,
    Opcode.fence, fetched]

theorem decodeExec_system (h : inst.opcode = Opcode.system) :
    s.decodeExec inst cfg = (s.fetched inst).execSystem inst cfg := by
  simp [decodeExec, isRvc_eq, h, Opcode.lui, Opcode.auipc, Opcode.jal, Opcode.jalr, Opcode.branch,
    Opcode.load, Opcode.store, Opcode.opimm, Opcode.opimm32, Opcode.op, Opcode.op32, Opcode.amo,
    Opcode.fence, Opcode.system, fetched]

/-- The opcodes of the switch. -/
def opcodes : List (BitVec 7) :=
  [Opcode.lui, Opcode.auipc, Opcode.jal, Opcode.jalr, Opcode.branch, Opcode.load, Opcode.store,
    Opcode.opimm, Opcode.opimm32, Opcode.op, Opcode.op32, Opcode.amo, Opcode.fence, Opcode.system]

theorem decodeExec_default (h : inst.opcode ∉ opcodes) :
    s.decodeExec inst cfg = .ok (s.fetched inst).illegal := by
  simp only [opcodes, List.mem_cons, List.not_mem_nil, or_false, not_or] at h
  simp only [decodeExec, h, if_false, ite_self, fetched]

end PuaCpu.RvCore.State
