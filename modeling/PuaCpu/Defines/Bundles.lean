import Mathlib.Data.Fintype.Pi
import PuaCpu.Defines.Const

/-! # Bundles

The records that the stages exchange. The default value of each is the value
`0.U.asTypeOf` of its pipeline register, which is also what a flush writes.
-/

namespace PuaCpu

/-- The three interrupt lines. -/
structure ExtInterrupt where
  mei : Bool := false
  mti : Bool := false
  msi : Bool := false
  deriving DecidableEq, Repr

/-- The source operands of an instruction. -/
structure SrcInfo where
  src1Data : Word := 0
  src2Data : Word := 0
  deriving DecidableEq, Repr

/-- The value an instruction writes to its destination register. -/
structure RdInfo where
  wdata : Word := 0
  deriving DecidableEq, Repr

/-- What decode knows about an instruction. -/
structure Info where
  inst : Word := 0
  valid : Bool := false
  src1Raddr : RegAddr := 0
  src2Raddr : RegAddr := 0
  op : FuOp := 0
  regWen : Bool := false
  regWaddr : RegAddr := 0
  imm : Word := 0
  src1Ren : Bool := false
  src2Ren : Bool := false
  isLui : Bool := false
  fusel : FuType := .alu
  deriving DecidableEq, Repr

/-- The exceptions and interrupts attached to an instruction. -/
structure ExceptionInfo where
  exception : ExcNo → Bool := fun _ => false
  interrupt : IntNo → Bool := fun _ => false
  tval : ExcNo → Word := fun _ => 0
  deriving DecidableEq

/-- Add an exception with its trap value. -/
def ExceptionInfo.raise (e : ExceptionInfo) (i : ExcNo) (tval : Word) : ExceptionInfo :=
  { e with exception := Function.update e.exception i true
           tval := Function.update e.tval i tval }

/-- What the core drives on the instruction SRAM port. -/
structure InstSram where
  en : Bool
  addr : SramAddr
  wdata : BitVec 32
  wen : BitVec 4
  deriving DecidableEq, Repr

/-- What the core drives on the data SRAM port. -/
structure DataSram where
  en : Bool
  addr : SramAddr
  wdata : Word
  wen : BitVec 8
  deriving DecidableEq, Repr

/-- The debug port of the write-back stage. -/
structure Debug where
  commit : Bool
  pc : Word
  rfWnum : RegAddr
  rfWdata : Word
  deriving DecidableEq, Repr

/-- The control of one pipeline register. -/
structure CtrlSignal where
  allowToGo : Bool
  doFlush : Bool
  deriving DecidableEq, Repr

/-- What write-back tells decode about its destination register. -/
structure WriteBackUnitInfo where
  valid : Bool
  regWen : Bool
  regWaddr : RegAddr
  deriving DecidableEq, Repr

/-- The write port of the register file. -/
structure RegWrite where
  wen : Bool
  waddr : RegAddr
  wdata : Word
  deriving DecidableEq, Repr

/-- Fetch to decode. -/
structure IfIdData where
  inst : Word := 0
  valid : Bool := false
  pc : Word := 0
  deriving DecidableEq, Repr

/-- Decode to execute. -/
structure IdExeData where
  pc : Word := 0
  info : Info := {}
  srcInfo : SrcInfo := {}
  ex : ExceptionInfo := {}
  deriving DecidableEq

/-- Execute to memory. -/
structure ExeMemData where
  pc : Word := 0
  info : Info := {}
  rdInfo : RdInfo := {}
  srcInfo : SrcInfo := {}
  hasExc : Bool := false
  deriving DecidableEq, Repr

/-- Memory to write-back. -/
structure MemWbData where
  pc : Word := 0
  info : Info := {}
  rdInfo : RdInfo := {}
  hasExc : Bool := false
  deriving DecidableEq, Repr

end PuaCpu
