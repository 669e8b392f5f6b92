import PuaCpu.Decode.Operands
import PuaCpu.Execute.Fu

/-! # The core

Fetch, the pipeline registers and their control, wired as in `Core`. A state is
the content of every register; an input is what the interrupt lines and the two
SRAMs drive in one cycle. Runs start from the reset values with `reset` low.
-/

namespace PuaCpu

namespace FetchUnit

/-- The phases of the fetch unit. -/
inductive Phase | boot | send | receive
  deriving DecidableEq, Repr

/-- The registers of the fetch unit. -/
structure State where
  state : Phase
  pc : Word
  deriving DecidableEq, Repr

def init : State := ⟨.boot, Const.pcInit - 4⟩

variable (s : State) (flush : Bool) (target : Word) (ctrl : CtrlSignal)

def pcNext : Word := if flush then target else if ctrl.allowToGo then s.pc + 4 else s.pc

def isAlign (pc : Word) : Bool := pc.extractLsb' 0 2 == 0#2

def instSram (reset : Bool) : InstSram where
  en := !reset && isAlign (pcNext s flush target ctrl)
  addr := (pcNext s flush target ctrl).extractLsb' 0 32
  wdata := 0
  wen := 0

/-- The slot handed to decode: a word is taken only if the next `pc` is aligned. -/
def decodeStage (rdata : BitVec 32) : IfIdData where
  valid := s.state = .receive
  pc := s.pc
  inst := if isAlign (pcNext s flush target ctrl) then rdata.setWidth 64 else Const.nop

def Phase.next : Phase → Phase
  | .boot => .send
  | .send => .receive
  | .receive => .receive

/-- One clock cycle: the address port feeds `pc`, except in the first cycle. -/
def step : State where
  state := s.state.next
  pc := if s.state = .boot then s.pc
    else ((pcNext s flush target ctrl).extractLsb' 0 32).setWidth 64

end FetchUnit

namespace CtrlUnit

/-- Whether a source operand of decode is the destination of a load in execute. -/
def exeConflict (dec exe : Info) : Bool :=
  exe.regWen && !(exe.regWaddr == 0) && exe.valid && exe.fusel = .lsu &&
    LSUOpType.isLoad exe.op &&
    ((dec.src1Ren && dec.src1Raddr == exe.regWaddr) ||
      (dec.src2Ren && dec.src2Raddr == exe.regWaddr))

/-- The control of the fetch unit and of the registers before decode and execute. -/
def fetchUnitCtrl (dec exe : Info) (flush : Bool) : CtrlSignal := ⟨!exeConflict dec exe, flush⟩

def decodeUnitCtrl (dec exe : Info) (flush : Bool) : CtrlSignal := ⟨!exeConflict dec exe, flush⟩

/-- The control of the registers before memory and write-back. -/
def executeUnitCtrl : CtrlSignal := ⟨true, false⟩

def memoryUnitCtrl : CtrlSignal := ⟨true, false⟩

end CtrlUnit

/-- The register before decode. -/
def DecodeStage.step (data fetched : IfIdData) (ctrl : CtrlSignal) : IfIdData :=
  if ctrl.doFlush then {} else if ctrl.allowToGo then fetched else data

/-- The register before execute: a stall empties it, for the stalled slot stays in decode. -/
def ExecuteStage.step (decoded : IdExeData) (ctrl : CtrlSignal) : IdExeData :=
  if ctrl.doFlush || !ctrl.allowToGo then {} else decoded

def MemoryStage.step (data executed : ExeMemData) (ctrl : CtrlSignal) : ExeMemData :=
  if ctrl.doFlush then {} else if ctrl.allowToGo then executed else data

def WriteBackStage.step (data loaded : MemWbData) (ctrl : CtrlSignal) : MemWbData :=
  if ctrl.doFlush then {} else if ctrl.allowToGo then loaded else data

namespace Core

/-- Every register of the core. -/
structure State where
  fetch : FetchUnit.State
  dec : IfIdData
  regs : ARegFile
  exe : IdExeData
  csr : Csr.State
  mem : ExeMemData
  wb : MemWbData

/-- What the outside drives in one cycle. -/
structure In where
  interrupt : ExtInterrupt := {}
  instRdata : BitVec 32 := 0
  dataRdata : Word := 0
  deriving DecidableEq, Repr

def init : State where
  fetch := FetchUnit.init
  dec := {}
  regs := ARegFile.init
  exe := {}
  csr := Csr.init
  mem := {}
  wb := {}

variable (s : State) (i : In)

/-- `executeUnit.flush` and `executeUnit.target`. -/
def flush : Bool := Fu.flush s.csr s.exe i.interrupt

def target : Word := Fu.target s.csr s.exe i.interrupt

/-- The outputs of the execute, memory and write-back units. -/
def exeOut : ExeMemData := Fu.memoryStage s.csr s.exe i.interrupt

def memOut : MemWbData := MemoryUnit.writeBackStage s.mem i.dataRdata

def decodeIn : DecodeIn where
  regfile := s.regs
  executeUnitInfo := (exeOut s i).info
  executeUnitRdInfo := (exeOut s i).rdInfo
  memoryUnitInfo := (memOut s i).info
  memoryUnitRdInfo := (memOut s i).rdInfo
  writeBackUnitInfo := WriteBackUnit.info s.wb
  writeBackUnitRdInfo := s.wb.rdInfo
  mode := s.csr.mode
  interruptInfo := Csr.interrupt s.csr

def decOut : IdExeData := DecodeUnit.executeStage s.dec (decodeIn s i)

def fetchUnitCtrl : CtrlSignal :=
  CtrlUnit.fetchUnitCtrl (decOut s i).info (exeOut s i).info (flush s i)

def decodeUnitCtrl : CtrlSignal :=
  CtrlUnit.decodeUnitCtrl (decOut s i).info (exeOut s i).info (flush s i)

/-- The ports of the two SRAMs, with `reset` low. -/
def instSram : InstSram :=
  FetchUnit.instSram s.fetch (flush s i) (target s i) (fetchUnitCtrl s i) false

def dataSram : DataSram := Fu.dataSram s.exe false

def fetched : IfIdData :=
  FetchUnit.decodeStage s.fetch (flush s i) (target s i) (fetchUnitCtrl s i) i.instRdata

def debug : Debug := WriteBackUnit.debug s.wb

/-- One clock cycle. -/
def step : State where
  fetch := FetchUnit.step s.fetch (flush s i) (target s i) (fetchUnitCtrl s i)
  dec := DecodeStage.step s.dec (fetched s i) (fetchUnitCtrl s i)
  regs := s.regs.write (WriteBackUnit.regfile s.wb)
  exe := ExecuteStage.step (decOut s i) (decodeUnitCtrl s i)
  csr := Fu.csrNext s.csr s.exe i.interrupt
  mem := MemoryStage.step s.mem (exeOut s i) CtrlUnit.executeUnitCtrl
  wb := WriteBackStage.step s.wb (memOut s i) CtrlUnit.memoryUnitCtrl

end Core

end PuaCpu
