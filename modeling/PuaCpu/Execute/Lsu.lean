import PuaCpu.Decode.Decoder

/-! # Memory and branch units

`Lsu` drives the data SRAM in the execute stage, `LsuMem` extracts the loaded
value in the memory stage, and `Bru` resolves branches and jumps. Each passes
the exception vector on and adds its own misalignment exception.
-/

namespace PuaCpu

namespace Lsu

/-- The effective address. -/
def memAddr (info : Info) (src : SrcInfo) : Word := src.src1Data + info.imm

def addrMisaligned (op : FuOp) (addr : Word) : Bool :=
  match op.extractLsb' 0 2 with
  | 0b00#2 => false
  | 0b01#2 => addr.extractLsb' 0 1 != 0#1
  | 0b10#2 => addr.extractLsb' 0 2 != 0#2
  | _ => addr.extractLsb' 0 3 != 0#3

/-- Whether the unit itself raises an exception. -/
def hasExc (info : Info) (src : SrcInfo) : Bool :=
  info.valid && info.fusel = .lsu && addrMisaligned info.op (memAddr info src)

/-- The outgoing exception vector. -/
def ex (e : ExceptionInfo) (info : Info) (src : SrcInfo) : ExceptionInfo :=
  if hasExc info src then
    if LSUOpType.isLoad info.op then e.raise .loadAddrMisaligned (memAddr info src)
    else e.raise .storeAddrMisaligned (memAddr info src)
  else e

/-- The byte lanes of an access at address zero. -/
def shift (op : FuOp) : BitVec 8 :=
  match op.extractLsb' 0 2 with
  | 0b00#2 => 0b00000001#8
  | 0b01#2 => 0b00000011#8
  | 0b10#2 => 0b00001111#8
  | _ => 0b11111111#8

def memWenTmp (op : FuOp) (addr : Word) : BitVec 8 := shift op <<< addr.extractLsb' 0 3

theorem memWenTmp_ne_zero (op : FuOp) (addr : Word) : memWenTmp op addr ≠ 0 := by
  have h : ∀ (op : FuOp) (k : BitVec 3), shift op <<< k ≠ 0 := by decide +kernel
  exact h op _

/-- The store data, replicated over the lanes. -/
def wdata (op : FuOp) (src2Data : Word) : Word :=
  match op.extractLsb' 0 2 with
  | 0b00#2 => (src2Data.extractLsb' 0 8).replicate 8
  | 0b01#2 => (src2Data.extractLsb' 0 16).replicate 4
  | 0b10#2 => (src2Data.extractLsb' 0 32).replicate 2
  | _ => src2Data

def dataSram (reset : Bool) (info : Info) (src : SrcInfo) : DataSram :=
  { en := !reset && !hasExc info src
    wen := if info.valid && info.fusel = .lsu && LSUOpType.isStore info.op then
        memWenTmp info.op (memAddr info src)
      else 0
    addr := (memAddr info src).extractLsb' 0 32
    wdata := wdata info.op src.src2Data }

def result : Word := 0

end Lsu

namespace LsuMem

/-- The SRAM's doubleword with the addressed byte moved to the bottom. -/
def rdataShifted (info : Info) (src : SrcInfo) (rdata : Word) : Word :=
  rdata >>> (8 * ((src.src1Data + info.imm).extractLsb' 0 3).toNat)

def result (info : Info) (src : SrcInfo) (rdata : Word) : Word :=
  let r := rdataShifted info src rdata
  if info.op = LSUOpType.lb then signedExtend (r.extractLsb' 0 8) 64
  else if info.op = LSUOpType.lh then signedExtend (r.extractLsb' 0 16) 64
  else if info.op = LSUOpType.lw then signedExtend (r.extractLsb' 0 32) 64
  else if info.op = LSUOpType.ld then r
  else if info.op = LSUOpType.lbu then zeroExtend (r.extractLsb' 0 8) 64
  else if info.op = LSUOpType.lhu then zeroExtend (r.extractLsb' 0 16) 64
  else if info.op = LSUOpType.lwu then zeroExtend (r.extractLsb' 0 32) 64
  else 0

end LsuMem

namespace Bru

def branchBool (op : FuOp) (src : SrcInfo) : Bool :=
  if op = BRUOpType.beq then src.src1Data == src.src2Data
  else if op = BRUOpType.bne then !(src.src1Data == src.src2Data)
  else if op = BRUOpType.blt then src.src1Data.slt src.src2Data
  else if op = BRUOpType.bge then src.src2Data.sle src.src1Data
  else if op = BRUOpType.bltu then src.src1Data.ult src.src2Data
  else if op = BRUOpType.bgeu then src.src2Data.ule src.src1Data
  else false

/-- Whether control is transferred. -/
def branch (info : Info) (src : SrcInfo) : Bool :=
  info.valid && info.fusel = .bru &&
    ((BRUOpType.isBranch info.op && branchBool info.op src) || BRUOpType.isJump info.op)

def target (pc : Word) (info : Info) (src : SrcInfo) : Word :=
  if info.op = BRUOpType.jalr then (src.src1Data + src.src2Data) &&& ~~~1#64
  else pc + info.imm

def hasExc (e : ExceptionInfo) (pc : Word) (info : Info) (src : SrcInfo) : Bool :=
  branch info src && (target pc info src).extractLsb' 0 2 != 0#2 && !orR e.exception

def ex (e : ExceptionInfo) (pc : Word) (info : Info) (src : SrcInfo) : ExceptionInfo :=
  if hasExc e pc info src then e.raise .instAddrMisaligned (target pc info src) else e

def result (pc : Word) : Word := pc + 4

end Bru

end PuaCpu
