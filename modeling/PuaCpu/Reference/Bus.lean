import PuaCpu.Bits.Bytes
import PuaCpu.Reference.Instr

/-! # The system bus of the reference model

Devices sit behind address ranges kept in a map that is ordered by the range.
The bus keeps the reservation of `LR`. A buffer is a word, of which an access
of `size` bytes uses the low ones.
-/

namespace PuaCpu

/-- The functions whose assertions can end the simulator. -/
inductive Assertion
  | exec | aluExec | vaLr | vaSc | vaAmo | raiseTrap | csrWrite | postExec | paAmoOp | localTlbGet
  | localTlbeGet
  deriving DecidableEq, Repr

/-- Why the simulator process ends. -/
inductive Halt
  | exit (code : ℕ)
  | abort (site : Assertion)
  deriving DecidableEq, Repr

/-- The result of code that can end the process. -/
abbrev Outcome := Except Halt

/-- `mmio_dev`. A read that fails returns no buffer. -/
class MmioDev (δ : Type*) where
  doRead : δ → (startAddr size : Word) → δ × Option Word
  doWrite : δ → (startAddr size buffer : Word) → δ × Bool

/-- `mmio_mem`. -/
structure MmioMem where
  mem : Bytes.Memory 64
  memSize : Word
  allowWarp : Bool
  deriving Inhabited

namespace MmioMem

variable (m : MmioMem)

/-- Where an access goes in `mem`, if it fits. -/
def place (startAddr size : Word) : Option Word :=
  if startAddr + size ≤ m.memSize then some startAddr
  else if m.allowWarp then
    if startAddr % m.memSize + size ≤ m.memSize then some (startAddr % m.memSize) else none
  else none

def doRead (startAddr size : Word) : MmioMem × Option Word :=
  (m, (m.place startAddr size).map fun start => Bytes.load m.mem start size.toNat)

def doWrite (startAddr size buffer : Word) : MmioMem × Bool :=
  match m.place startAddr size with
  | some start => ({ m with mem := Bytes.store m.mem start size.toNat buffer }, true)
  | none => (m, false)

instance : MmioDev MmioMem := ⟨doRead, doWrite⟩

end MmioMem

/-- An entry of the map `devices`: the range is the key. -/
structure Mapping where
  lo : Word
  hi : Word
  dev : ℕ
  rawAddr : Bool
  deriving DecidableEq, Repr

namespace Mapping

/-- Whether a key is at most another one in the lexicographic order. -/
def notAfter (m : Mapping) (key : Word × Word) : Bool :=
  m.lo.ult key.1 || (m.lo == key.1 && m.hi.ule key.2)

/-- Whether two ranges share an address. -/
def overlaps (m : Mapping) (lo hi : Word) : Bool :=
  let lMax := if m.lo.ult lo then lo else m.lo
  let rMin := if hi.ult m.hi then hi else m.hi
  lMax.ult rMin

/-- The address that the device sees. -/
def offset (m : Mapping) (startAddr : Word) : Word :=
  if m.rawAddr then startAddr else startAddr % (m.hi - m.lo)

end Mapping

/-- `rv_systembus` with the devices that its pointers lead to. -/
structure Systembus (δ : Type*) where
  devices : List Mapping
  dev : ℕ → δ
  lrPa : Word
  lrSize : Word
  lrHart : Word
  lrValid : Bool
  deriving Inhabited

namespace Systembus

variable {δ : Type*} (b : Systembus δ)

/-- The entry before `upper_bound` of a key. -/
def prev (key : Word × Word) : Option Mapping :=
  (b.devices.takeWhile (·.notAfter key)).getLast?

/-- The entry that serves an access: the last one that starts at its address or before. -/
def locate (startAddr size : Word) : Option Mapping :=
  (b.prev (startAddr, BitVec.allOnes 64)).filter fun m =>
    m.lo ≤ startAddr && startAddr + size ≤ m.hi

/-- `add_dev`. -/
def addDev (startAddr length : Word) (dev : ℕ) (rawAddr : Bool) : Systembus δ × Bool :=
  let range := (startAddr, startAddr + length)
  let before := b.devices.takeWhile (·.notAfter range)
  let after := b.devices.dropWhile (·.notAfter range)
  if startAddr % length ≠ 0 then (b, false)
  else if after.head?.any (·.overlaps range.1 range.2) then (b, false)
  else if before.getLast?.any (·.overlaps range.1 range.2) then (b, false)
  else
    let kept := before.filter fun m => (m.lo, m.hi) ≠ range
    ({ b with devices := kept ++ ⟨range.1, range.2, dev, rawAddr⟩ :: after }, true)

variable [MmioDev δ]

def paRead (startAddr size : Word) : Systembus δ × Option Word :=
  match b.locate startAddr size with
  | some m =>
    let (d, buffer) := MmioDev.doRead (b.dev m.dev) (m.offset startAddr) size
    ({ b with dev := Function.update b.dev m.dev d }, buffer)
  | none => (b, none)

/-- The reservation check that a write makes. -/
def breakLr (startAddr size : Word) : Systembus δ :=
  if startAddr ≤ b.lrPa ∧ b.lrPa + size ≤ startAddr + size then { b with lrValid := false } else b

def paWrite (startAddr size buffer : Word) : Systembus δ × Bool :=
  let b := b.breakLr startAddr size
  match b.locate startAddr size with
  | some m =>
    let (d, ok) := MmioDev.doWrite (b.dev m.dev) (m.offset startAddr) size buffer
    ({ b with dev := Function.update b.dev m.dev d }, ok)
  | none => (b, false)

def paLr (pa size hartId : Word) : Systembus δ × Option Word :=
  let b := { b with lrPa := pa, lrSize := size, lrValid := true, lrHart := hartId }
  b.paRead pa size

/-- `pa_sc`; the result is `sc_fail`, and nothing if the write fails. -/
def paSc (pa size src hartId : Word) : Systembus δ × Option Bool :=
  if !b.lrValid || b.lrPa != pa || b.lrSize != size || b.lrHart != hartId then
    (if hartId = b.lrHart then { b with lrValid := false } else b, some true)
  else
    let (b, ok) := { b with lrValid := false }.paWrite pa size src
    (b, if ok then some false else none)

/-- The switch of `pa_amo_op` on the operation. -/
def amoResult (op : BitVec 5) (src res : Word) : Option Word :=
  if op = AmoFunct.swap then some src
  else if op = AmoFunct.add then some (src + res)
  else if op = AmoFunct.and then some (src &&& res)
  else if op = AmoFunct.or then some (src ||| res)
  else if op = AmoFunct.xor then some (src ^^^ res)
  else if op = AmoFunct.max then some (if src.slt res then res else src)
  else if op = AmoFunct.min then some (if res.slt src then res else src)
  else if op = AmoFunct.maxu then some (if src.ult res then res else src)
  else if op = AmoFunct.minu then some (if res.ult src then res else src)
  else none

/-- `pa_amo_op`; the result is `dst`, and nothing if an access fails. -/
def paAmoOp (pa size : Word) (op : BitVec 5) (src : Word) : Outcome (Systembus δ × Option Word) :=
  match b.paRead pa size with
  | (b, none) => .ok (b, none)
  | (b, some buffer) =>
    let res := if size = 4 then (buffer.setWidth 32).signExtend 64 else buffer
    match amoResult op src res with
    | none => .error (.abort .paAmoOp)
    | some toWrite =>
      let (b, ok) := b.paWrite pa size toWrite
      .ok (b, if ok then some res else none)

end Systembus

end PuaCpu
