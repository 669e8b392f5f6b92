import PuaCpu.Reference.Instr

/-! # The arithmetic of the reference model

`alu_exec` works on `int64_t`; a word operation narrows its operands first and
its result last. The failing assertion of an unknown operation is `none`.
-/

namespace PuaCpu

/-- `alu_op`. -/
inductive AluOp
  | add | sub | sll | slt | sltu | xor | srl | sra | or | and
  | mul | mulh | mulhu | mulhsu | div | divu | rem | remu | nop
  deriving DecidableEq, Repr

namespace RvAlu

/-- The conversion to `int32_t` and back. -/
def int32 (x : Word) : Word := (x.setWidth 32).signExtend 64

/-- `LONG_MIN`. -/
def longMin : Word := 0x8000000000000000

/-- The shift amount. -/
def shamt (b : Word) (op32 : Bool) : Word := b &&& if op32 then 0x1f else 0x3f

/-- The switch of `alu_exec`, on operands that are narrowed already. -/
def compute (a b : Word) (op : AluOp) (op32 : Bool) : Option Word :=
  match op with
  | .add => some (a + b)
  | .sub => some (a - b)
  | .sll => some (a <<< shamt b op32)
  | .slt => some (if a.slt b then 1 else 0)
  | .sltu => some (if a.ult b then 1 else 0)
  | .xor => some (a ^^^ b)
  | .srl => some ((if op32 then a &&& 0xffffffff else a) >>> shamt b op32)
  | .sra => some (a.sshiftRight' (shamt b op32))
  | .or => some (a ||| b)
  | .and => some (a &&& b)
  | .mul => some (a * b)
  | .mulh => some (((a.signExtend 128 * b.signExtend 128).sshiftRight 64).setWidth 64)
  | .mulhu => some (((a.setWidth 128 * b.setWidth 128) >>> 64).setWidth 64)
  -- the unsigned factor makes the product and the shift unsigned
  | .mulhsu => some (((a.signExtend 128 * b.setWidth 128) >>> 64).setWidth 64)
  | .div =>
    if b = 0 then some (-1)
    else if a = longMin ∧ b = -1 then some longMin
    else some (a.sdiv b)
  | .divu =>
    if b = 0 then some (BitVec.allOnes 64)
    else if op32 then some ((a.setWidth 32 / b.setWidth 32).setWidth 64)
    else some (a / b)
  | .rem =>
    if b = 0 then some a
    else if a = longMin ∧ b = -1 then some 0
    else some (a.srem b)
  | .remu =>
    if b = 0 then some a
    else if op32 then some ((a.setWidth 32 % b.setWidth 32).setWidth 64)
    else some (a % b)
  | .nop => none

/-- `alu_exec`. -/
def aluExec (a b : Word) (op : AluOp) (op32 : Bool) : Option Word :=
  if op32 then (compute (int32 a) (int32 b) op true).map int32 else compute a b op false

end RvAlu

end PuaCpu
