import Mathlib.Data.Fintype.Pi
import PuaCpu.Decode.Decoder

/-! # The CSR unit

The seventeen CSRs, the privilege mode and the trap logic. Several `when` blocks
drive the same register and the last connection wins: a CSR instruction's write
comes before trap entry and `MRET`, and the pending-bit update of `MIP` last.
-/

namespace PuaCpu

/-- The CSRs of the map `CSR_ADDRS`. -/
inductive CsrName
  | cycle | mvendorid | marchid | mimpid | mhartid | mstatus | misa | mie | mtvec | mcounteren
  | mscratch | mepc | mcause | mtval | mip | tselect | stap
  deriving DecidableEq, Repr

namespace CsrName

def all : List CsrName :=
  [cycle, mvendorid, marchid, mimpid, mhartid, mstatus, misa, mie, mtvec, mcounteren,
    mscratch, mepc, mcause, mtval, mip, tselect, stap]

theorem mem_all (c : CsrName) : c ∈ all := by cases c <;> decide

instance : Fintype CsrName where
  elems := ⟨all, by decide⟩
  complete := mem_all

def addr : CsrName → BitVec 12
  | cycle => 0xc00
  | mvendorid => 0xf11
  | marchid => 0xf12
  | mimpid => 0xf13
  | mhartid => 0xf14
  | mstatus => 0x300
  | misa => 0x301
  | mie => 0x304
  | mtvec => 0x305
  | mcounteren => 0x306
  | mscratch => 0x340
  | mepc => 0x341
  | mcause => 0x342
  | mtval => 0x343
  | mip => 0x344
  | tselect => 0x7a0
  | stap => 0x180

/-- The reset value. -/
def reset : CsrName → Word
  | mstatus => 0x200000000
  | misa => 0x8000000000101100
  | tselect => 1
  | _ => 0

def readMask : CsrName → Word := fun _ => BitVec.allOnes 64

def writeMask : CsrName → Word
  | mstatus => 0x21888
  | mie | mtvec | mscratch | mepc | mcause | mtval => BitVec.allOnes 64
  | mcounteren => 0xfffffffffffffff
  | mip => 0x888
  | _ => 0

/-- The CSR at an address, if the map has one. -/
def ofAddr (a : BitVec 12) : Option CsrName := all.find? fun c => c.addr == a

theorem addr_injective : Function.Injective addr := by
  intro c d h
  revert h
  cases c <;> cases d <;> decide

theorem ofAddr_addr (c : CsrName) : ofAddr c.addr = some c := by cases c <;> decide

theorem ofAddr_eq_some_iff {a : BitVec 12} {c : CsrName} : ofAddr a = some c ↔ c.addr = a := by
  constructor
  · intro h
    simpa using List.find?_some h
  · rintro rfl
    exact ofAddr_addr c

end CsrName

namespace Csr

/-- The registers of the unit. -/
structure State where
  reg : CsrName → Word
  mode : Priv
  deriving DecidableEq

/-- What the unit sees of the instruction in execute, and the interrupt lines. -/
structure In where
  interruptInfo : ExtInterrupt
  excInfo : ExceptionInfo
  info : Info
  srcInfo : SrcInfo
  pc : Word

def init : State := ⟨CsrName.reset, Priv.m⟩

section Access

variable (s : State) (i : In)

def isCsr : Bool := i.info.fusel = .csr

def isMret : Bool := isCsr i && i.info.op == CSROpType.mret

def csrAddr : BitVec 12 := i.info.inst.extractLsb' 20 12

def zimm : Word := zeroExtend (i.info.inst.extractLsb' 15 5) 64

def isImm : Bool := i.info.op.getLsbD 2

def srcValue : Word := if isImm i then zimm i else i.srcInfo.src1Data

/-- Whether the instruction is taken not to write: decided on the value of the operand. -/
def onlyRead : Bool :=
  i.srcInfo.src1Data == 0 &&
    (i.info.op == CSROpType.clear || i.info.op == CSROpType.cleari ||
      i.info.op == CSROpType.set || i.info.op == CSROpType.seti)

def write : Bool := i.info.valid && CSROpType.isCSROp i.info.op && isCsr i

def illegalWrite : Bool := write i && (csrAddr i).extractLsb' 10 2 == 0b11#2 && !onlyRead i

def illegalMode : Bool := s.mode.ult ((csrAddr i).extractLsb' 8 2)

def illegalAccess : Bool := illegalWrite i || illegalMode s i

def illegalAddr : Bool := (CsrName.ofAddr (csrAddr i)).isNone

def wen : Bool := write i && !illegalAccess s i

/-- The value that the operation computes from the old one. -/
def writeData (old : Word) : Word :=
  match i.info.op.extractLsb' 0 2 with
  | 0b01#2 => srcValue i
  | 0b10#2 => old ||| srcValue i
  | 0b11#2 => old &&& ~~~srcValue i
  | _ => 0

/-- The masked value that a CSR instruction stores; `MSTATUS` keeps an unsupported `MPP` out. -/
def writeReg (c : CsrName) (old : Word) : Word :=
  let data := writeData i old
  if c = .mstatus then
    if data.extractLsb' 11 2 == Priv.m || data.extractLsb' 11 2 == Priv.u then
      (data &&& c.writeMask) ||| (old &&& ~~~c.writeMask)
    else (old &&& ~~~0x20088#64) ||| (data &&& 0x20088#64)
  else (data &&& c.writeMask) ||| (old &&& ~~~c.writeMask)

/-- The registers after the cycle increment and the CSR instruction's write. -/
def csrRegs (c : CsrName) : Word :=
  if wen s i && csrAddr i == c.addr then writeReg i c (s.reg c)
  else if c = .cycle then s.reg c + 1
  else s.reg c

/-- The old value of the addressed CSR, and zero at an address outside the map. -/
def defaultRead : Word :=
  match CsrName.ofAddr (csrAddr i) with
  | some c => s.reg c &&& c.readMask
  | none => 0

end Access

section Trap

variable (s : State) (i : In)

/-- Whether the unit itself finds the instruction illegal. -/
def isIllegal : Bool :=
  (write i && illegalAccess s i) || (illegalAddr i && isCsr i && !isMret i && write i)

def ex : ExceptionInfo :=
  if isIllegal s i then i.excInfo.raise .illegalInst i.info.inst else i.excInfo

def isException : Bool := orR (ex s i).exception

def isInterrupt : Bool := orR (ex s i).interrupt

def hasExc : Bool := isException s i || isInterrupt s i

def interruptNO : BitVec 4 :=
  BitVec.ofNat 4 (priorityMux (ex s i).interrupt IntNo.intPriority (by decide)).val

def exceptionNO : BitVec 4 :=
  BitVec.ofNat 4 (priorityMux (ex s i).exception ExcNo.excPriority (by decide)).val

def causeNO : BitVec 4 := if isInterrupt s i then interruptNO s i else exceptionNO s i

/-- Whether the trap-entry block fires. -/
def trap : Bool := hasExc s i && i.info.valid

/-- Whether the `MRET` block fires. -/
def mret : Bool := !trap s i && isMret i && i.info.valid

def trapMtval : Word := if isInterrupt s i then 0 else (ex s i).tval (causeNO s i).toFin

def trapMcause : Word :=
  if isInterrupt s i then zeroExtend (causeNO s i) 64 ||| 1#64 <<< 63
  else zeroExtend (causeNO s i) 64

def trapMpp : BitVec 2 :=
  if s.mode == Priv.m || s.mode == Priv.u then s.mode else (s.reg .mstatus).extractLsb' 11 2

/-- `MPP` takes the mode, `MPIE` takes `MIE`, and `MIE` is cleared. -/
def trapMstatus : Word :=
  let mstatus := s.reg .mstatus
  mstatus.extractLsb' 13 51 ++ trapMpp s ++ mstatus.extractLsb' 8 3 ++ mstatus.extractLsb' 3 1 ++
    mstatus.extractLsb' 4 3 ++ 0#1 ++ mstatus.extractLsb' 0 3

def trapTarget : Word :=
  (s.reg .mtvec).extractLsb' 2 62 ++ 0#2 +
    if (s.reg .mtvec).getLsbD 0 && isInterrupt s i then zeroExtend (causeNO s i ++ 0#2) 64 else 0

def mretMprv : BitVec 1 :=
  if (s.reg .mstatus).extractLsb' 11 2 != Priv.m then 0#1
  else (s.reg .mstatus).extractLsb' 17 1

/-- `MIE` takes `MPIE`, `MPIE` is set, `MPP` becomes U, and `MPRV` is cleared on leaving M. -/
def mretMstatus : Word :=
  let mstatus := s.reg .mstatus
  mstatus.extractLsb' 18 46 ++ mretMprv s ++ mstatus.extractLsb' 13 4 ++ Priv.u ++
    mstatus.extractLsb' 8 3 ++ 1#1 ++ mstatus.extractLsb' 4 3 ++ mstatus.extractLsb' 7 1 ++
    mstatus.extractLsb' 0 3

def flush : Bool := trap s i || mret s i

def target : Word := if trap s i then trapTarget s i else if mret s i then s.reg .mepc else 0

/-- The unconditional last connection of `MIP`. -/
def mipUpdate (mip : Word) (l : ExtInterrupt) : Word :=
  mip.extractLsb' 12 52 ++ (mip.extractLsb' 11 1 ||| BitVec.ofBool l.msi) ++
    mip.extractLsb' 8 3 ++ (mip.extractLsb' 7 1 ||| BitVec.ofBool l.mti) ++
    mip.extractLsb' 4 3 ++ (mip.extractLsb' 3 1 ||| BitVec.ofBool l.mei) ++
    mip.extractLsb' 0 3

/-- The registers at the next clock edge, the later connections first. -/
def nextReg (c : CsrName) : Word :=
  if c = .mip then mipUpdate (s.reg .mip) i.interruptInfo
  else if trap s i then
    if c = .mstatus then trapMstatus s
    else if c = .mepc then i.pc
    else if c = .mcause then trapMcause s i
    else if c = .mtval then trapMtval s i
    else csrRegs s i c
  else if mret s i then
    if c = .mstatus then mretMstatus s else csrRegs s i c
  else csrRegs s i c

def nextMode : Priv :=
  if trap s i then Priv.m
  else if mret s i then (s.reg .mstatus).extractLsb' 11 2
  else s.mode

/-- One clock cycle. -/
def step : State := ⟨nextReg s i, nextMode s i⟩

end Trap

/-- Whether a pending interrupt is enabled. -/
def checkInterrupt (s : State) (irq : Bool) (bit : ℕ) : Bool :=
  irq && (s.reg .mie).getLsbD bit &&
    ((s.mode == Priv.m && (s.reg .mstatus).getLsbD 3) || s.mode.ult Priv.m)

/-- The interrupts offered to decode. -/
def interrupt (s : State) : ExtInterrupt where
  msi := checkInterrupt s ((s.reg .mip).getLsbD 3) 3
  mti := checkInterrupt s ((s.reg .mip).getLsbD 7) 7
  mei := checkInterrupt s ((s.reg .mip).getLsbD 11) 11

end Csr

end PuaCpu
