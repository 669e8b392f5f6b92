import PuaCpu.Defines.Bundles
import PuaCpu.Defines.Instructions

/-! # The decoder

`Decoder` turns an instruction word into its `Info` bundle. `ExcCtrl` attaches
the exceptions that decode can see and the interrupts that the CSR unit offers
in that cycle.
-/

namespace PuaCpu

/-- `SignedExtend`: truncate or repeat the sign bit. -/
abbrev signedExtend {w : ℕ} (a : BitVec w) (len : ℕ) : BitVec len := a.signExtend len

/-- `ZeroExtend`: truncate or fill with zeros. -/
abbrev zeroExtend {w : ℕ} (a : BitVec w) (len : ℕ) : BitVec len := a.setWidth len

namespace Decoder

def immI (inst : Word) : Word := signedExtend (inst.extractLsb' 20 12) 64

def immU (inst : Word) : Word := signedExtend (inst.extractLsb' 12 20 ++ 0#12) 64

def immS (inst : Word) : Word :=
  signedExtend (inst.extractLsb' 25 7 ++ inst.extractLsb' 7 5) 64

def immB (inst : Word) : Word :=
  signedExtend (inst.extractLsb' 31 1 ++ inst.extractLsb' 7 1 ++ inst.extractLsb' 25 6 ++
    inst.extractLsb' 8 4 ++ 0#1) 64

def immJ (inst : Word) : Word :=
  signedExtend (inst.extractLsb' 31 1 ++ inst.extractLsb' 12 8 ++ inst.extractLsb' 20 1 ++
    inst.extractLsb' 21 10 ++ 0#1) 64

/-- The immediate that an instruction type selects. -/
def imm (t : InstrType) (inst : Word) : Word :=
  match t with
  | .i => immI inst
  | .u => immU inst
  | .s => immS inst
  | .b => immB inst
  | .j => immJ inst
  | .n | .r => 0

def lookup (inst : Word) : DecodeEntry :=
  listLookup inst Instructions.decodeDefault Instructions.decodeTable

/-- The bundle of an instruction word. Decode overwrites `valid` with the fetched slot's. -/
def info (inst : Word) : Info :=
  let e := lookup inst
  { inst := inst
    valid := false
    src1Raddr := inst.extractLsb' 15 5
    src2Raddr := inst.extractLsb' 20 5
    op := e.fuOpType
    fusel := e.fuType
    regWen := e.instrType.isRegWen
    regWaddr := inst.extractLsb' 7 5
    isLui := inst.extractLsb' 0 7 == 0b0110111#7
    imm := imm e.instrType inst
    src1Ren := e.instrType = .r || e.instrType = .i || e.instrType = .s || e.instrType = .b
    src2Ren := e.instrType = .r || e.instrType = .s || e.instrType = .b }

def instIllegal (inst : Word) : Bool := (lookup inst).instrType = .n

end Decoder

namespace ExcCtrl

def isEbreak (info : Info) : Bool := info.fusel = .csr && info.op == CSROpType.ebreak

def isEcall (info : Info) : Bool := info.fusel = .csr && info.op == CSROpType.ecall

/-- The exception vector of a valid slot. -/
def exception (pc : Word) (info : Info) (isIllegal : Bool) (mode : Priv) (i : ExcNo) : Bool :=
  if i = .instAddrMisaligned then pc.extractLsb' 0 2 != 0#2
  else if i = .illegalInst then isIllegal
  else if i = .breakPoint then isEbreak info
  else if i = .ecallU then isEcall info && mode == Priv.u
  else if i = .ecallM then isEcall info && mode == Priv.m
  else false

def interrupt (interruptInfo : ExtInterrupt) (i : IntNo) : Bool :=
  if i = .msi then interruptInfo.msi
  else if i = .mti then interruptInfo.mti
  else if i = .mei then interruptInfo.mei
  else false

def tval (pc : Word) (info : Info) (i : ExcNo) : Word :=
  if i = .instAddrMisaligned then pc
  else if i = .illegalInst then info.inst
  else 0

/-- What decode attaches to a slot; an empty slot carries nothing. -/
def excInfo (pc : Word) (info : Info) (isIllegal : Bool) (mode : Priv)
    (interruptInfo : ExtInterrupt) : ExceptionInfo :=
  if info.valid then
    { exception := exception pc info isIllegal mode
      interrupt := interrupt interruptInfo
      tval := tval pc info }
  else {}

end ExcCtrl

end PuaCpu
