import PuaCpu.Pipeline.Forwarding
import PuaCpu.Pipeline.Order
import PuaCpu.Privilege.Status

/-! # The sequential machine

One instruction at a time: fetch, decode, operand select, the functional units
and the extraction of a loaded value, on an architectural state of registers,
memory and CSRs. No interrupt line is ever high.
-/

namespace PuaCpu

namespace Sequential

/-- The architectural state. -/
structure State where
  pc : Word
  regs : ARegFile
  csr : Csr.State
  mem : Dmem

def init (m : Dmem) : State := ⟨Const.pcInit, ARegFile.init, Csr.init, m⟩

variable (imem : SramAddr → BitVec 32) (a : State)

/-- The instruction with its operands. -/
def decode : IdExeData :=
  let inst := Core.fetchWord imem a.pc
  let info : Info := { Decoder.info inst with valid := true }
  { pc := a.pc
    info := info
    srcInfo :=
      { src1Data := DecodeUnit.src1Data a.regs a.pc info
        src2Data := DecodeUnit.src2Data a.regs info }
    ex := ExcCtrl.excInfo a.pc info (Decoder.instIllegal inst) a.csr.mode {} }

def dataSram : DataSram := Fu.dataSram (decode imem a) false

/-- The memory after the instruction's access. -/
def memory : Dmem := (dataSram imem a).write a.mem

/-- The instruction with its result. -/
def execute : MemWbData :=
  MemoryUnit.writeBackStage (Fu.memoryStage a.csr (decode imem a) {})
    (memory imem a (DataSram.index (dataSram imem a).addr))

/-- One instruction. -/
def step : State where
  pc := if Fu.flush a.csr (decode imem a) {} then Fu.target a.csr (decode imem a) {}
    else Core.low32 (a.pc + 4)
  regs := a.regs.write (WriteBackUnit.regfile (execute imem a))
  csr := Fu.csrNext a.csr (decode imem a) {}
  mem := memory imem a

def machine (m : Dmem) : Clocked State Unit := ⟨init m, fun a _ => step imem a⟩

/-- What the instruction commits: its `pc`, its destination and the value for it. -/
def commit (a : State) (_ : Unit) : Option (Word × RegAddr × Word) :=
  some ((execute imem a).pc, (execute imem a).info.regWaddr, (execute imem a).rdInfo.wdata)

/-- What the instruction writes to the data SRAM. -/
def write (a : State) (_ : Unit) : Option DataSram :=
  if (dataSram imem a).isWrite then some (dataSram imem a) else none

end Sequential

namespace Csr

/-- Two states that differ in the cycle counter at most. -/
structure Same (s s' : State) : Prop where
  mode : s.mode = s'.mode
  reg : ∀ c, c ≠ .cycle → s.reg c = s'.reg c

variable {s s' s'' : State} {i : In}

theorem Same.refl (s : State) : Same s s := ⟨rfl, fun _ _ => rfl⟩

theorem Same.trans (h : Same s s') (h' : Same s' s'') : Same s s'' :=
  ⟨h.mode.trans h'.mode, fun c hc => (h.reg c hc).trans (h'.reg c hc)⟩

namespace Same

variable (h : Same s s')

include h

theorem illegalAccess : illegalAccess s i = illegalAccess s' i := by
  simp only [Csr.illegalAccess, illegalMode, h.mode]

theorem wen : wen s i = wen s' i := by
  rw [Csr.wen, h.illegalAccess, ← Csr.wen]

theorem isIllegal : isIllegal s i = isIllegal s' i := by
  rw [Csr.isIllegal, h.illegalAccess, ← Csr.isIllegal]

theorem ex : ex s i = ex s' i := by
  rw [Csr.ex, h.isIllegal, ← Csr.ex]

theorem isInterrupt : isInterrupt s i = isInterrupt s' i := by
  rw [Csr.isInterrupt, h.ex, ← Csr.isInterrupt]

theorem hasExc : hasExc s i = hasExc s' i := by
  rw [Csr.hasExc, isException, h.ex, h.isInterrupt, ← isException, ← Csr.hasExc]

theorem causeNO : causeNO s i = causeNO s' i := by
  rw [Csr.causeNO, interruptNO, exceptionNO, h.ex, h.isInterrupt, ← interruptNO, ← exceptionNO,
    ← Csr.causeNO]

theorem trap : trap s i = trap s' i := by
  rw [Csr.trap, h.hasExc, ← Csr.trap]

theorem mret : mret s i = mret s' i := by
  rw [Csr.mret, h.trap, ← Csr.mret]

theorem flush : flush s i = flush s' i := by
  rw [Csr.flush, h.trap, h.mret, ← Csr.flush]

theorem target : target s i = target s' i := by
  rw [Csr.target, trapTarget, h.trap, h.mret, h.isInterrupt, h.causeNO, h.reg .mtvec (by decide),
    h.reg .mepc (by decide), ← trapTarget, ← Csr.target]

theorem csrRegs {c : CsrName} (hc : c ≠ .cycle) : csrRegs s i c = csrRegs s' i c := by
  rw [Csr.csrRegs, Csr.csrRegs, h.wen, h.reg c hc, if_neg hc]

theorem trapMstatus : trapMstatus s = trapMstatus s' := by
  rw [trapMstatus_eq, trapMstatus_eq, trapMpp, h.mode, h.reg .mstatus (by decide), ← trapMpp]

theorem mretMstatus : mretMstatus s = mretMstatus s' := by
  rw [mretMstatus_eq, mretMstatus_eq, mretMprv, h.reg .mstatus (by decide), ← mretMprv]

theorem trapMcause : trapMcause s i = trapMcause s' i := by
  rw [Csr.trapMcause, h.isInterrupt, h.causeNO, ← Csr.trapMcause]

theorem trapMtval : trapMtval s i = trapMtval s' i := by
  rw [Csr.trapMtval, h.isInterrupt, h.ex, h.causeNO, ← Csr.trapMtval]

theorem step : Same (step s i) (step s' i) where
  mode := by
    simp only [Csr.step]
    rw [nextMode, h.trap, h.mret, h.mode, h.reg .mstatus (by decide), ← nextMode]
  reg c hc := by
    simp only [Csr.step]
    rw [nextReg, h.trap, h.mret, h.csrRegs hc, h.reg .mip (by decide), h.trapMstatus, h.mretMstatus,
      h.trapMcause, h.trapMtval, ← nextReg]

theorem defaultRead (ha : csrAddr i ≠ CsrName.cycle.addr) : defaultRead s i = defaultRead s' i := by
  unfold Csr.defaultRead
  cases hc : CsrName.ofAddr (csrAddr i) with
  | none => rfl
  | some c =>
    have hne : c ≠ .cycle := by
      rintro rfl
      exact ha (CsrName.ofAddr_eq_some_iff.mp hc).symm
    simp only [h.reg c hne]

end Same

end Csr

end PuaCpu
