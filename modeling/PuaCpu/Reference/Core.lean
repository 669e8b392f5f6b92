import PuaCpu.Reference.Alu
import PuaCpu.Reference.Hart

/-! # The core of the reference model

`rv_core`: one definition for each opcode of the switch in `exec`, then the
fetch before it and the exception exit behind it. An opcode reports an illegal
instruction by `ri` and an assigned program counter by `new_pc`.
-/

namespace PuaCpu.RvCore

open RvPriv

/-- The members of `rv_core`; its `pc` is the one that `rv_priv` refers to. -/
structure State (δ : Type) where
  priv : Hart δ
  gpr : RegAddr → Word
  debugPc : Word
  debugRegNum : RegAddr
  debugRegWdata : Word
  debugInst : RvInstr
  debugIsBranch : Bool
  intAllow : Bool
  difftestMode : Bool
  deriving Inhabited

/-- What an opcode leaves behind. -/
structure Exec (δ : Type) where
  core : State δ
  ri : Bool
  newPc : Bool

/-- How a load extends what it reads, by the type of its buffer. -/
structure LoadKind where
  size : Word
  extend : Word → Word

def loadKind (funct3 : BitVec 3) : Option LoadKind :=
  if funct3 = Funct3.lb then some ⟨1, fun x => (x.setWidth 8).signExtend 64⟩
  else if funct3 = Funct3.lh then some ⟨2, fun x => (x.setWidth 16).signExtend 64⟩
  else if funct3 = Funct3.lw then some ⟨4, fun x => (x.setWidth 32).signExtend 64⟩
  else if funct3 = Funct3.ld then some ⟨8, fun x => x⟩
  else if funct3 = Funct3.lbu then some ⟨1, fun x => (x.setWidth 8).setWidth 64⟩
  else if funct3 = Funct3.lhu then some ⟨2, fun x => (x.setWidth 16).setWidth 64⟩
  else if funct3 = Funct3.lwu then some ⟨4, fun x => (x.setWidth 32).setWidth 64⟩
  else none

def storeSize (funct3 : BitVec 3) : Option Word :=
  if funct3 = Funct3.sb then some 1
  else if funct3 = Funct3.sh then some 2
  else if funct3 = Funct3.sw then some 4
  else if funct3 = Funct3.sd then some 8
  else none

/-- The condition of a branch. -/
def branchTaken (funct3 : BitVec 3) (a b : Word) : Option Bool :=
  if funct3 = Funct3.beq then some (a == b)
  else if funct3 = Funct3.bne then some (a != b)
  else if funct3 = Funct3.blt then some (a.slt b)
  else if funct3 = Funct3.bge then some (b.sle a)
  else if funct3 = Funct3.bltu then some (a.ult b)
  else if funct3 = Funct3.bgeu then some (b.ule a)
  else none

/-- The operation and the immediate of `OPCODE_OPIMM`, unless it is illegal. -/
def opimm (inst : RvInstr) : Option (AluOp × Word) :=
  let imm := inst.imm12.signExtend 64
  let fun6 := inst.funct7.extractLsb' 1 6
  if inst.funct3 = Funct3.addSub then some (.add, imm)
  else if inst.funct3 = Funct3.slt then some (.slt, imm)
  else if inst.funct3 = Funct3.sltu then some (.sltu, imm)
  else if inst.funct3 = Funct3.xor then some (.xor, imm)
  else if inst.funct3 = Funct3.or then some (.or, imm)
  else if inst.funct3 = Funct3.and then some (.and, imm)
  else if inst.funct3 = Funct3.sll then
    -- a signed comparison: a negative immediate passes
    if (64 : Word).sle imm then none else some (.sll, imm)
  else if fun6 = Funct6.sra then some (.sra, imm &&& 0x3f)
  else if fun6 = Funct6.normal then some (.srl, imm &&& 0x3f)
  else none

/-- The operation and the immediate of `OPCODE_OPIMM32`, unless it is illegal. -/
def opimm32 (inst : RvInstr) : Option (AluOp × Word) :=
  let imm := inst.imm12.signExtend 64
  if inst.funct3 = Funct3.addSub then some (.add, imm)
  else if inst.funct3 = Funct3.sll then
    if (64 : Word).sle imm ∨ inst.funct7 ≠ Funct7.normal then none else some (.sll, imm)
  else if inst.funct3 = Funct3.srlSra then
    if inst.funct7 = Funct7.subSra then some (.sra, imm &&& 0x3f)
    else if inst.funct7 = Funct7.normal then some (.srl, imm &&& 0x3f)
    else none
  else none

/-- The operation of `OPCODE_OP`, unless it is illegal. -/
def op (inst : RvInstr) : Option AluOp :=
  if inst.funct7 = Funct7.normal then
    if inst.funct3 = Funct3.addSub then some .add
    else if inst.funct3 = Funct3.sll then some .sll
    else if inst.funct3 = Funct3.slt then some .slt
    else if inst.funct3 = Funct3.sltu then some .sltu
    else if inst.funct3 = Funct3.xor then some .xor
    else if inst.funct3 = Funct3.srlSra then some .srl
    else if inst.funct3 = Funct3.or then some .or
    else some .and
  else if inst.funct7 = Funct7.subSra then
    if inst.funct3 = Funct3.addSub then some .sub
    else if inst.funct3 = Funct3.srlSra then some .sra
    else none
  else if inst.funct7 = Funct7.mul then
    if inst.funct3 = Funct3.mul then some .mul
    else if inst.funct3 = Funct3.mulh then some .mulh
    else if inst.funct3 = Funct3.mulhsu then some .mulhsu
    else if inst.funct3 = Funct3.mulhu then some .mulhu
    else if inst.funct3 = Funct3.div then some .div
    else if inst.funct3 = Funct3.divu then some .divu
    else if inst.funct3 = Funct3.rem then some .rem
    else some .remu
  else none

/-- The operation of `OPCODE_OP32`, unless it is illegal. -/
def op32 (inst : RvInstr) : Option AluOp :=
  if inst.funct7 = Funct7.normal then
    if inst.funct3 = Funct3.addSub then some .add
    else if inst.funct3 = Funct3.sll then some .sll
    else if inst.funct3 = Funct3.srlSra then some .srl
    else none
  else if inst.funct7 = Funct7.subSra then
    if inst.funct3 = Funct3.addSub then some .sub
    else if inst.funct3 = Funct3.srlSra then some .sra
    else none
  else if inst.funct7 = Funct7.mul then
    if inst.funct3 = Funct3.mul then some .mul
    else if inst.funct3 = Funct3.div then some .div
    else if inst.funct3 = Funct3.divu then some .divu
    else if inst.funct3 = Funct3.rem then some .rem
    else if inst.funct3 = Funct3.remu then some .remu
    else none
  else none

/-- The offset of a jump: an odd `imm12` loses its low bit. -/
def jalrImm (inst : RvInstr) : Word :=
  (if inst.imm12.getLsbD 0 then inst.imm12 ^^^ 1 else inst.imm12).signExtend 64

/-- `PC_ALIGN`. -/
def pcAlign : Word := 4

namespace State

variable {δ : Type} (s : State δ)

def pc : Word := s.priv.curPc

/-- An assignment to `pc`. -/
def jump (newPc : Word) : State δ :=
  { s with priv := { s.priv with toState := { s.priv.toState with curPc := newPc } } }

def setGpr (r : RegAddr) (value : Word) : State δ :=
  { s with
    gpr := if r ≠ 0 then Function.update s.gpr r value else s.gpr
    debugRegNum := r
    debugRegWdata := value }

/-- The core after an operation on `priv`. -/
def withPriv (h : Hart δ) : State δ := { s with priv := h }

def raiseTrap (cause : Cause) (tval : Word) : Outcome (State δ) :=
  (s.priv.raiseTrap cause tval).map s.withPriv

/-- The ways in which a case of the switch ends. -/
def done : Exec δ := ⟨s, false, false⟩
def illegal : Exec δ := ⟨s, true, false⟩
def jumped : Exec δ := ⟨s, false, true⟩

/-- Finish with a trap for the fault of an access, or go on with its result. -/
def orTrap {α : Type} (r : Hart δ × Except ExcNo α) (tval : Word) (k : State δ → α → State δ) :
    Outcome (State δ) :=
  match r with
  | (h, .ok a) => .ok (k (s.withPriv h) a)
  | (h, .error e) => (s.withPriv h).raiseTrap (.exc e) tval

section Mem

variable [MmioDev δ] (cfg : Config)

/-- `mem_read` and what a load does with a buffer that was read. -/
def memRead (startAddr size : Word) (k : State δ → Word → State δ) : Outcome (State δ) :=
  if startAddr % size ≠ 0 then s.raiseTrap (.exc .loadAddrMisaligned) startAddr
  else do s.orTrap (← s.priv.vaRead startAddr size) startAddr k

def memWrite (startAddr size buffer : Word) : Outcome (State δ) :=
  if startAddr % size ≠ 0 then s.raiseTrap (.exc .storeAddrMisaligned) startAddr
  else do s.orTrap (← s.priv.vaWrite cfg startAddr size buffer) startAddr fun s _ => s

end Mem

variable (inst : RvInstr)

/-- `alu_exec` into a register. -/
def alu (a b : Word) (op : AluOp) (op32 : Bool) : Outcome (Exec δ) :=
  match RvAlu.aluExec a b op op32 with
  | some result => .ok (s.setGpr inst.rd result).done
  | none => .error (.abort .aluExec)

def execLui : Exec δ := (s.setGpr inst.rd inst.immU).done

def execAuipc : Exec δ := (s.setGpr inst.rd (inst.immU + s.pc)).done

/-- The common end of `JAL` and `JALR`. -/
def link (npc : Word) : Outcome (Exec δ) :=
  if npc % pcAlign ≠ 0 then (s.raiseTrap (.exc .instAddrMisaligned) npc).map done
  else .ok ((({ s with debugIsBranch := true }.setGpr inst.rd (s.pc + 4)).jump npc).jumped)

def execJal : Outcome (Exec δ) := s.link inst (s.pc + inst.immJ.signExtend 64)

def execJalr : Outcome (Exec δ) := s.link inst (s.gpr inst.rs1 + jalrImm inst)

def execBranch : Outcome (Exec δ) :=
  match branchTaken inst.funct3 (s.gpr inst.rs1) (s.gpr inst.rs2) with
  | none => .ok s.illegal
  | some false => .ok s.done
  | some true =>
    let s := { s with debugIsBranch := true }
    let npc := s.pc + inst.immB.signExtend 64
    if npc % pcAlign ≠ 0 then (s.raiseTrap (.exc .instAddrMisaligned) npc).map jumped
    else .ok (s.jump npc).jumped

/-- The cases of the switches on `funct3` whose default is an assertion. -/
def aluFuncts : List (BitVec 3) :=
  [Funct3.addSub, Funct3.sll, Funct3.slt, Funct3.sltu, Funct3.xor, Funct3.srlSra, Funct3.or,
    Funct3.and]

def mulFuncts : List (BitVec 3) :=
  [Funct3.mul, Funct3.mulh, Funct3.mulhsu, Funct3.mulhu, Funct3.div, Funct3.divu, Funct3.rem,
    Funct3.remu]

def execOpimm : Outcome (Exec δ) :=
  if inst.funct3 ∉ aluFuncts then .error (.abort .exec)
  else match opimm inst with
  | some (op, imm) => s.alu inst (s.gpr inst.rs1) imm op false
  | none => .ok s.illegal

def execOpimm32 : Outcome (Exec δ) :=
  match opimm32 inst with
  | some (op, imm) => s.alu inst (s.gpr inst.rs1) imm op true
  | none => .ok s.illegal

def execOp : Outcome (Exec δ) :=
  if (inst.funct7 = Funct7.normal ∧ inst.funct3 ∉ aluFuncts) ∨
      (inst.funct7 = Funct7.mul ∧ inst.funct3 ∉ mulFuncts) then .error (.abort .exec)
  else match op inst with
  | some op => s.alu inst (s.gpr inst.rs1) (s.gpr inst.rs2) op false
  | none => .ok s.illegal

def execOp32 : Outcome (Exec δ) :=
  match op32 inst with
  | some op => s.alu inst (s.gpr inst.rs1) (s.gpr inst.rs2) op true
  | none => .ok s.illegal

section Csr

variable (cfg : Config)

/-- A CSR instruction: whether it writes and what it writes, given the value that it reads. -/
def csrOp (write : Bool) (data : Word → Word) : Outcome (Exec δ) :=
  if !s.priv.csrOpPermissionCheck inst.csrIndex write then .ok s.illegal
  else match s.priv.csrRead inst.csrIndex with
  | none => .ok s.illegal
  | some csrResult => do
    let (h, ok) ← if write then s.priv.csrWrite cfg inst.csrIndex (data csrResult)
      else pure (s.priv, true)
    let s := s.withPriv h
    if !ok then return s.illegal
    return (if inst.rd ≠ 0 then s.setGpr inst.rd csrResult else s).done

def zimm : Word := inst.rs1.setWidth 64

def execCsrrw : Outcome (Exec δ) := s.csrOp inst cfg true fun _ => s.gpr inst.rs1

def execCsrrs : Outcome (Exec δ) :=
  s.csrOp inst cfg (inst.rs1 != 0) fun old => old ||| s.gpr inst.rs1

def execCsrrc : Outcome (Exec δ) :=
  s.csrOp inst cfg (inst.rs1 != 0) fun old => old &&& ~~~s.gpr inst.rs1

def execCsrrwi : Outcome (Exec δ) := s.csrOp inst cfg true fun _ => zimm inst

def execCsrrsi : Outcome (Exec δ) := s.csrOp inst cfg (inst.rs1 != 0) fun old => old ||| zimm inst

def execCsrrci : Outcome (Exec δ) :=
  s.csrOp inst cfg (inst.rs1 != 0) fun old => old &&& ~~~zimm inst

/-- An operation of `rv_priv` whose result `false` is an illegal instruction. -/
def orIllegal (r : Option (Hart δ)) : Exec δ :=
  match r with
  | some h => (s.withPriv h).done
  | none => s.illegal

/-- In the RISC-V tests an `ECALL` with the number of `exit` ends the process. -/
def execEcall : Outcome (Exec δ) :=
  if cfg.runRiscvTest ∧ s.gpr 17 = 93 then
    -- tested again
    if s.gpr 17 = 93 then .error (.exit (if s.gpr 10 = 0 then 0 else 1))
    else .error (.abort .exec)
  else s.priv.ecall.map fun h => (s.withPriv h).done

def execEbreak : Outcome (Exec δ) :=
  if cfg.runRiscvTest ∧ s.gpr 10 = 0 then .error (.exit 0)
  else s.priv.ebreak.map fun h => (s.withPriv h).done

/-- `FUNCT3_PRIV` of `OPCODE_SYSTEM`. -/
def execPriv : Outcome (Exec δ) :=
  let zero := inst.rs1 = 0 ∧ inst.rd = 0
  if inst.funct7 = Funct7.ecallEbreak then
    if zero then
      if inst.rs2 = 0 then s.execEcall cfg
      else if inst.rs2 = 1 then s.execEbreak cfg
      else .ok s.illegal
    else .ok s.illegal
  else if inst.funct7 = Funct7.sretWfi then
    if zero then
      if inst.rs2 = 0b00010 then .ok (s.orIllegal s.priv.sret)
      else if inst.rs2 = 0b00101 then .ok s.done
      else .ok s.illegal
    -- no `ri` here
    else .ok s.done
  else if inst.funct7 = Funct7.mret then
    if inst.rs2 = 0b00010 ∧ zero then .ok (s.orIllegal s.priv.mret) else .ok s.illegal
  else if inst.funct7 = Funct7.sfenceVma then
    .ok (s.orIllegal (s.priv.sfenceVma (s.gpr inst.rs1) (s.gpr inst.rs2 &&& 0xffff)))
  else .ok s.illegal

def execSystem : Outcome (Exec δ) :=
  if inst.funct3 = Funct3.priv then s.execPriv inst cfg
  else if inst.funct3 = Funct3.csrrw then s.execCsrrw inst cfg
  else if inst.funct3 = Funct3.csrrs then s.execCsrrs inst cfg
  else if inst.funct3 = Funct3.csrrc then s.execCsrrc inst cfg
  else if inst.funct3 = Funct3.csrrwi then s.execCsrrwi inst cfg
  else if inst.funct3 = Funct3.csrrsi then s.execCsrrsi inst cfg
  else if inst.funct3 = Funct3.csrrci then s.execCsrrci inst cfg
  else .ok s.illegal

end Csr

variable [MmioDev δ] (cfg : Config)

def execLoad : Outcome (Exec δ) :=
  match loadKind inst.funct3 with
  | some k =>
    (s.memRead (s.gpr inst.rs1 + inst.imm12.signExtend 64) k.size fun s buf =>
      s.setGpr inst.rd (k.extend buf)).map done
  | none => .ok s.illegal

def execStore : Outcome (Exec δ) :=
  match storeSize inst.funct3 with
  | some size =>
    (s.memWrite cfg (s.gpr inst.rs1 + inst.immS.signExtend 64) size (s.gpr inst.rs2)).map done
  | none => .ok s.illegal

/-- The operations of `OPCODE_AMO` beside `LR` and `SC`. -/
def amoFuncts : List (BitVec 5) :=
  [AmoFunct.swap, AmoFunct.add, AmoFunct.xor, AmoFunct.and, AmoFunct.or, AmoFunct.min,
    AmoFunct.max, AmoFunct.minu, AmoFunct.maxu]

def execAmo : Outcome (Exec δ) :=
  let funct5 := inst.funct7.extractLsb' 2 5
  let size := 1#64 <<< inst.funct3
  let addr := s.gpr inst.rs1
  if inst.funct3 ≠ 0b010 ∧ inst.funct3 ≠ 0b011 then .ok s.illegal
  else if funct5 = AmoFunct.lr then
    if inst.rs2 ≠ 0 then .ok s.illegal
    else do
      let s ← s.orTrap (← s.priv.vaLr addr size) addr fun s result =>
        s.setGpr inst.rd (if inst.funct3 = 0b011 then result else RvAlu.int32 result)
      return s.done
  else if funct5 = AmoFunct.sc then do
    let s ← s.orTrap (← s.priv.vaSc addr size (s.gpr inst.rs2)) addr fun s result =>
      s.setGpr inst.rd (if result then 1 else 0)
    return s.done
  else if funct5 ∈ amoFuncts then do
    let s ← s.orTrap (← s.priv.vaAmo addr size funct5 (s.gpr inst.rs2)) addr fun s result =>
      s.setGpr inst.rd result
    return s.done
  else .ok s.illegal

/-- Whether the word is a compressed instruction, which the model does not implement. -/
def isRvc : Bool := inst.extractLsb' 0 2 != 0b11

/-- The code at the label `decode_exec`. -/
def decodeExec : Outcome (Exec δ) :=
  let s := { s with debugInst := inst }
  if isRvc inst then .ok s.illegal
  else if inst.opcode = Opcode.lui then .ok (s.execLui inst)
  else if inst.opcode = Opcode.auipc then .ok (s.execAuipc inst)
  else if inst.opcode = Opcode.jal then s.execJal inst
  else if inst.opcode = Opcode.jalr then s.execJalr inst
  else if inst.opcode = Opcode.branch then s.execBranch inst
  else if inst.opcode = Opcode.load then s.execLoad inst
  else if inst.opcode = Opcode.store then s.execStore inst cfg
  else if inst.opcode = Opcode.opimm then s.execOpimm inst
  else if inst.opcode = Opcode.opimm32 then s.execOpimm32 inst
  else if inst.opcode = Opcode.op then s.execOp inst
  else if inst.opcode = Opcode.op32 then s.execOp32 inst
  else if inst.opcode = Opcode.amo then s.execAmo inst
  else if inst.opcode = Opcode.fence then .ok s.done
  else if inst.opcode = Opcode.system then s.execSystem inst cfg
  else .ok s.illegal

/-- The code at the label `exception`. -/
def exception (e : Exec δ) : Outcome (State δ) := do
  let s ← if e.ri then e.core.raiseTrap (.exc .illegalInst) (inst.setWidth 64) else pure e.core
  let s := if s.priv.curNeedTrap then s.jump s.priv.trapPc
    else if e.newPc then s
    else s.jump (s.pc + if isRvc inst then 2 else 4)
  return s.withPriv (← s.priv.postExec)

/-- The code at the label `instr_fetch`; nothing is fetched when a trap is raised. -/
def instrFetch (l : Lines) : Outcome (State δ × Option RvInstr) := do
  let h ← if !s.difftestMode then s.priv.preExec l
    else if s.intAllow then s.priv.checkAndRaiseInt
    else pure s.priv
  let s := s.withPriv h
  if h.curNeedTrap then return (s, none)
  else if s.pc % pcAlign ≠ 0 then
    return (← s.raiseTrap (.exc .instAddrMisaligned) s.pc, none)
  else
    match ← h.vaIf s.pc 4 with
    | (h, .ok curInstr) => return (s.withPriv h, some (curInstr.setWidth 32))
    | (h, .error (e, badVa)) => return (← (s.withPriv h).raiseTrap (.exc e) badVa, none)

/-- The assignments at the start of `exec`. -/
def start : State δ :=
  { s with
    priv := { s.priv with raised := [] }
    debugPc := s.pc
    debugIsBranch := false
    debugRegNum := 0
    debugRegWdata := 0 }

/-- `exec`, which `step` calls. The RISC-V tests time out after two million cycles. -/
def step (l : Lines) : Outcome (State δ) :=
  if cfg.runRiscvTest ∧ 2000000 ≤ s.priv.mcycle then .error (.exit 1)
  else do
    match ← s.start.instrFetch l with
    | (s, none) => exception 0 s.done
    | (s, some inst) => exception inst (← s.decodeExec inst cfg)

/-- The constructor, over uninitialised members. -/
def new : State δ :=
  { s with
    priv := { s.priv with toState := { s.priv.toState with curPc := 0 } }.new cfg
    gpr := fun _ => 0
    difftestMode := false }

def setDifftestMode (value : Bool) : State δ := { s with difftestMode := value }

def importDiffTestInfo (mcycle minstret mip : Word) (interruptOn : Bool) : State δ :=
  { s with
    priv := s.priv.difftestPreexec mcycle minstret mip
    intAllow := interruptOn }

end State

end PuaCpu.RvCore
