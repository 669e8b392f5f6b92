import PuaCpu.Bits.Field
import PuaCpu.Defines.Bundles
import PuaCpu.Reference.Bus

/-! # The SRAM crossbar of the test harness

`nscscc_sram_slave` serves the two ports of the core and `nscscc_sram_xbar`
spreads the accesses over devices. A buffer is a word; a copy to a place in it
leaves the rest of it alone.
-/

namespace PuaCpu

/-- An entry of the map `devices`: the range with the mode is the key. -/
structure SramMapping where
  lo : Word
  hi : Word
  byteMode : Bool
  dev : ℕ
  deriving DecidableEq, Repr

namespace SramMapping

/-- Whether a key is at most another one in the lexicographic order. -/
def notAfter (m : SramMapping) (key : Word × Word × Bool) : Bool :=
  m.lo.ult key.1 || (m.lo == key.1 &&
    (m.hi.ult key.2.1 || (m.hi == key.2.1 && (!m.byteMode || key.2.2))))

def overlaps (m : SramMapping) (lo hi : Word) : Bool :=
  Mapping.overlaps ⟨m.lo, m.hi, m.dev, false⟩ lo hi

end SramMapping

/-- The crossbar with the devices that its pointers lead to, and `address_mask` of the slave. -/
structure SramXbar (δ : Type*) where
  devices : List SramMapping
  dev : ℕ → δ
  addressMask : SramAddr

namespace SramXbar

variable {δ : Type*} (x : SramXbar δ)

def addDev (startAddr length : Word) (dev : ℕ) (byteMode : Bool) : SramXbar δ × Bool :=
  let addrRange := (startAddr, startAddr + length, byteMode)
  let before := x.devices.takeWhile (·.notAfter addrRange)
  let after := x.devices.dropWhile (·.notAfter addrRange)
  if startAddr % length ≠ 0 then (x, false)
  else if after.head?.any (·.overlaps startAddr (startAddr + length)) then (x, false)
  else if before.getLast?.any (·.overlaps startAddr (startAddr + length)) then (x, false)
  else
    let kept := before.filter fun m => (m.lo, m.hi, m.byteMode) ≠ addrRange
    ({ x with devices := kept ++ ⟨startAddr, startAddr + length, byteMode, dev⟩ :: after }, true)

/-- The entry before `upper_bound` of an address, if it covers the addresses up to `endAddr`. -/
def locate (startAddr endAddr : Word) : Option SramMapping :=
  (x.devices.takeWhile (·.notAfter (startAddr, BitVec.allOnes 64, true))).getLast?.filter
    fun m => m.lo ≤ startAddr && endAddr ≤ m.hi

/-- What an access outside of every range leaves in the buffer. -/
def unmapped : BitVec 32 := 0xdec0dee3

variable [MmioDev δ]

/-- `do_read`, with the buffer after it. -/
def doRead (startAddr size buffer : Word) : SramXbar δ × Word :=
  match x.locate startAddr (startAddr + 1) with
  | none => (x, Bits.set buffer 0 unmapped)
  | some m =>
    let size := if m.byteMode then 1 else size
    let startAddr := if m.byteMode then startAddr else startAddr - (startAddr &&& (size - 1))
    let (d, bytes) := MmioDev.doRead (x.dev m.dev) (startAddr % (m.hi - m.lo)) size
    ({ x with dev := Function.update x.dev m.dev d },
      match bytes with
      | some b => Bits.set buffer (8 * (startAddr % size).toNat) (b.extractLsb' 0 (8 * size.toNat))
      | none => buffer)

/-- `do_write`; the result `false` stands for an overwritten buffer. -/
def doWrite (startAddr size buffer : Word) : SramXbar δ × Bool :=
  match x.locate startAddr (startAddr + size) with
  | none => (x, false)
  | some m =>
    let (d, _) := MmioDev.doWrite (x.dev m.dev) (startAddr % (m.hi - m.lo)) size buffer
    ({ x with dev := Function.update x.dev m.dev d }, true)

end SramXbar

/-- The rounds of the inner loop of `strb_to_range`: the first lane from `r` on whose strobe is
low. -/
def strbEnd (wen : BitVec 8) : (rounds : ℕ) → (r : ℕ) → ℕ
  | 0, r => r
  | n + 1, r => if wen.getLsbD r && r < 8 then strbEnd wen n (r + 1) else r

/-- The rounds of its outer loop. -/
def strbRanges (wen : BitVec 8) : (rounds : ℕ) → (l : ℕ) → List (ℕ × ℕ)
  | 0, _ => []
  | n + 1, l =>
    if 8 ≤ l then []
    else if wen.getLsbD l then
      let r := strbEnd wen 8 l
      (l, r - l) :: strbRanges wen n (r + 1)
    else strbRanges wen n (l + 1)

/-- The runs of set bits of a strobe, each with its first lane and its length. -/
def strbToRange (wen : BitVec 8) : List (ℕ × ℕ) := strbRanges wen 8 0

namespace SramXbar

variable {δ : Type*} [MmioDev δ] (x : SramXbar δ)

/-- The write of one run of lanes, with `data_sram_wdata` before and after it. -/
def writeRange (addr : SramAddr) (x : SramXbar δ × Word) (range : ℕ × ℕ) : SramXbar δ × Word :=
  let start := (addr &&& 0xfffffff8) + BitVec.ofNat 32 range.1
  let (x', ok) := x.1.doWrite (start.setWidth 64) (BitVec.ofNat 64 range.2) (x.2 >>> (8 * range.1))
  (x', if ok then x.2 else Bits.set x.2 (8 * range.1) unmapped)

/-- `data_channel`, with `data_sram_rdata` before and after it. -/
def dataChannel (pin : DataSram) (rdata : Word) : SramXbar δ × Word :=
  if pin.en then
    let addr := pin.addr &&& x.addressMask
    let x := if pin.wen ≠ 0 then ((strbToRange pin.wen).foldl (writeRange addr) (x, pin.wdata)).1
      else x
    x.doRead (addr.setWidth 64) 8 rdata
  else (x, rdata)

/-- `inst_channel`, with `inst_sram_rdata` before and after it. The core never writes here. -/
def instChannel (pin : InstSram) (rdata : BitVec 32) : SramXbar δ × BitVec 32 :=
  if pin.en then
    let (x, buffer) := x.doRead ((pin.addr &&& x.addressMask).setWidth 64) 4 (rdata.setWidth 64)
    (x, buffer.setWidth 32)
  else (x, rdata)

end SramXbar

end PuaCpu
