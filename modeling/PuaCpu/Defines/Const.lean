import Mathlib.Data.List.FinRange

/-! # Constants of the core

Instruction types, functional units, their operation codes, exception numbers
and privilege modes. An operation code is shared by the functional units, so it
stays the five-bit value that the `Info` bundle carries.
-/

namespace PuaCpu

/-- The general register's width. -/
abbrev Word := BitVec 64

/-- The name of a general register. -/
abbrev RegAddr := BitVec 5

/-- The address port of both SRAMs. -/
abbrev SramAddr := BitVec 32

/-- The value of `FuOpType`, wide enough for every functional unit. -/
abbrev FuOp := BitVec 5

namespace Const

def pcInit : Word := 0x80000000#64

def nop : Word := 0x00000013#64

end Const

/-- The instruction types, named after the immediate they carry. -/
inductive InstrType | n | i | r | s | b | u | j
  deriving DecidableEq, Repr

namespace InstrType

/-- The three-bit code of an instruction type. -/
def code : InstrType → BitVec 3
  | n => 0b000
  | i => 0b100
  | r => 0b101
  | s => 0b010
  | b => 0b001
  | u => 0b110
  | j => 0b111

/-- Instructions of type I, R, U and J write a register. -/
def isRegWen (t : InstrType) : Bool := t.code.getLsbD 2

end InstrType

/-- The functional units. -/
inductive FuType | alu | mdu | lsu | bru | csr
  deriving DecidableEq, Repr

namespace ALUOpType

def add : FuOp := 0b00000
def sub : FuOp := 0b01000
def sll : FuOp := 0b00001
def slt : FuOp := 0b00010
def sltu : FuOp := 0b00011
def xor : FuOp := 0b00100
def srl : FuOp := 0b00101
def sra : FuOp := 0b01101
def or : FuOp := 0b00110
def and : FuOp := 0b00111
def addw : FuOp := 0b10000
def subw : FuOp := 0b11000
def sllw : FuOp := 0b10001
def srlw : FuOp := 0b10101
def sraw : FuOp := 0b11101

end ALUOpType

namespace MDUOpType

def mul : FuOp := 0b0000
def mulh : FuOp := 0b0001
def mulhsu : FuOp := 0b0010
def mulhu : FuOp := 0b0011
def div : FuOp := 0b0100
def divu : FuOp := 0b0101
def rem : FuOp := 0b0110
def remu : FuOp := 0b0111
def mulw : FuOp := 0b1000
def divw : FuOp := 0b1100
def divuw : FuOp := 0b1101
def remw : FuOp := 0b1110
def remuw : FuOp := 0b1111

end MDUOpType

namespace LSUOpType

def lb : FuOp := 0b0000
def lh : FuOp := 0b0001
def lw : FuOp := 0b0010
def ld : FuOp := 0b0011
def lbu : FuOp := 0b0100
def lhu : FuOp := 0b0101
def lwu : FuOp := 0b0110
def sb : FuOp := 0b1000
def sh : FuOp := 0b1001
def sw : FuOp := 0b1010
def sd : FuOp := 0b1011

def isStore (func : FuOp) : Bool := func.getLsbD 3
def isLoad (func : FuOp) : Bool := !isStore func

end LSUOpType

namespace BRUOpType

def jal : FuOp := 0b1000
def jalr : FuOp := 0b1010
def beq : FuOp := 0b0000
def bne : FuOp := 0b0001
def blt : FuOp := 0b0100
def bge : FuOp := 0b0101
def bltu : FuOp := 0b0110
def bgeu : FuOp := 0b0111

def isBranch (func : FuOp) : Bool := !func.getLsbD 3
def isJump (func : FuOp) : Bool := !isBranch func

end BRUOpType

namespace CSROpType

def write : FuOp := 0b001
def set : FuOp := 0b010
def clear : FuOp := 0b011
def writei : FuOp := 0b101
def seti : FuOp := 0b110
def cleari : FuOp := 0b111
def ecall : FuOp := 0b1000
def ebreak : FuOp := 0b1001
def mret : FuOp := 0b1010

def isCSROp (op : FuOp) : Bool := !op.getLsbD 3

end CSROpType

/-- The privilege modes. -/
abbrev Priv := BitVec 2

namespace Priv

def u : Priv := 0b00
def s : Priv := 0b01
def h : Priv := 0b10
def m : Priv := 0b11

end Priv

/-- The number of an exception, an index into the exception vector. -/
abbrev ExcNo := Fin 16

/-- The number of an interrupt, an index into the interrupt vector. -/
abbrev IntNo := Fin 12

namespace ExcNo

def instAddrMisaligned : ExcNo := 0
def instAccessFault : ExcNo := 1
def illegalInst : ExcNo := 2
def breakPoint : ExcNo := 3
def loadAddrMisaligned : ExcNo := 4
def loadAccessFault : ExcNo := 5
def storeAddrMisaligned : ExcNo := 6
def storeAccessFault : ExcNo := 7
def ecallU : ExcNo := 8
def ecallS : ExcNo := 9
def ecallM : ExcNo := 11
def instPageFault : ExcNo := 12
def loadPageFault : ExcNo := 13
def storePageFault : ExcNo := 15

/-- The exceptions from the highest to the lowest priority. -/
def excPriority : List ExcNo :=
  [breakPoint, instPageFault, instAccessFault, illegalInst, instAddrMisaligned, ecallM, ecallS,
    ecallU, loadAddrMisaligned, storeAddrMisaligned, loadPageFault, storePageFault,
    loadAccessFault, storeAccessFault]

end ExcNo

namespace IntNo

def msi : IntNo := 3
def mti : IntNo := 7
def mei : IntNo := 11

/-- The interrupts from the highest to the lowest priority. -/
def intPriority : List IntNo := [mei, msi, mti]

end IntNo

/-- `PriorityMux`: the first selected value, or the last one when none is selected. -/
def priorityMux {α : Type*} (sel : α → Bool) (l : List α) (h : l ≠ []) : α :=
  (l.find? sel).getD (l.getLast h)

/-- `asUInt.orR` of a vector of bits. -/
def orR {n : ℕ} (v : Fin n → Bool) : Bool := (List.finRange n).any v

theorem orR_eq_true {n : ℕ} {v : Fin n → Bool} : orR v = true ↔ ∃ i, v i = true := by
  simp [orR]

theorem orR_eq_false {n : ℕ} {v : Fin n → Bool} : orR v = false ↔ ∀ i, v i = false := by
  simp [orR]

end PuaCpu
