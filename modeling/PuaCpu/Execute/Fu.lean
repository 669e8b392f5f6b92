import PuaCpu.Execute.Alu
import PuaCpu.Execute.Csr
import PuaCpu.Execute.Lsu

/-! # The functional units together

`Fu` feeds every unit with the instruction in execute. The exception vector runs
through `Lsu`, `Bru` and `Csr` in this order; `MemoryUnit` replaces a load's
result by the value that the data SRAM returns.
-/

namespace PuaCpu

namespace Fu

variable (s : Csr.State) (d : IdExeData) (lines : ExtInterrupt)

/-- The inputs of the CSR unit. -/
def csrIn : Csr.In where
  interruptInfo := lines
  excInfo := Bru.ex (Lsu.ex d.ex d.info d.srcInfo) d.pc d.info d.srcInfo
  info := d.info
  srcInfo := d.srcInfo
  pc := d.pc

def dataSram (reset : Bool) : DataSram := Lsu.dataSram reset d.info d.srcInfo

def hasExc : Bool := Csr.hasExc s (csrIn d lines)

def flush : Bool := Bru.branch d.info d.srcInfo || Csr.flush s (csrIn d lines)

def target : Word :=
  if Csr.flush s (csrIn d lines) then Csr.target s (csrIn d lines)
  else Bru.target d.pc d.info d.srcInfo

def rdInfo : RdInfo where
  wdata :=
    match d.info.fusel with
    | .alu => Alu.result d.srcInfo d.info.op
    | .mdu => Mdu.result d.srcInfo d.info.op
    | .lsu => Lsu.result
    | .bru => Bru.result d.pc
    | .csr => Csr.defaultRead s (csrIn d lines)

/-- What the execute unit hands to the memory stage. -/
def memoryStage : ExeMemData where
  pc := d.pc
  info := d.info
  rdInfo := rdInfo s d lines
  srcInfo := d.srcInfo
  hasExc := hasExc s d lines

/-- The CSR state at the next clock edge. -/
def csrNext : Csr.State := Csr.step s (csrIn d lines)

end Fu

namespace MemoryUnit

/-- What the memory unit hands to the write-back stage. -/
def writeBackStage (m : ExeMemData) (rdata : Word) : MemWbData where
  pc := m.pc
  info := m.info
  rdInfo := if m.info.fusel = .lsu then ⟨LsuMem.result m.info m.srcInfo rdata⟩ else m.rdInfo
  hasExc := m.hasExc

end MemoryUnit

namespace WriteBackUnit

variable (w : MemWbData)

def debug : Debug := ⟨w.info.valid, w.pc, w.info.regWaddr, w.rdInfo.wdata⟩

/-- The register-file write, suppressed for a trapped instruction. -/
def regfile : RegWrite :=
  ⟨w.info.valid && w.info.regWen && !w.hasExc, w.info.regWaddr, w.rdInfo.wdata⟩

def info : WriteBackUnitInfo := ⟨w.info.valid, w.info.regWen, w.info.regWaddr⟩

end WriteBackUnit

end PuaCpu
