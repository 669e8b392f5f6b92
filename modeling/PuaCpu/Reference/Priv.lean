import PuaCpu.Bits.Field
import PuaCpu.Defines.Const

/-! # The reference model of the privileged state

`rv_priv` of the simulator, as far as traps, returns and CSR writes go. Its
C bit-fields are assigned one by one; an assertion that fails is `none`.
-/

namespace PuaCpu.RvPriv

/-- The flags of the simulator that the model looks at. -/
structure Config where
  runRiscvTest : Bool
  onlyModeM : Bool
  deriving DecidableEq, Repr

/-- `csr_cause_def`. -/
structure Cause where
  cause : BitVec 63
  interrupt : BitVec 1
  deriving DecidableEq, Repr

def Cause.toWord (c : Cause) : Word := c.interrupt ++ c.cause

/-- The positions of the bit-fields of `csr_mstatus_def` and `csr_sstatus_def`. -/
def sie : ℕ := 1
def mie : ℕ := 3
def spie : ℕ := 5
def mpie : ℕ := 7
def spp : ℕ := 8
def mpp : ℕ := 11
def mprv : ℕ := 17
def uxl : ℕ := 32

/-- `s_int_mask` and `m_int_mask`. -/
def sIntMask : Word := 0x222
def mIntMask : Word := sIntMask ||| 0x888

def excInstrPgfault : BitVec 63 := 12

/-- The members of `rv_priv` that the functions below use. -/
structure State where
  curPc : Word
  curPriv : Priv
  curNeedTrap : Bool
  trapPc : Word
  nextPriv : Priv
  status : Word
  misa : Word
  medeleg : Word
  mideleg : Word
  ie : Word
  mtvec : Word
  mscratch : Word
  mepc : Word
  mcause : Word
  mtval : Word
  ip : Word
  mcycle : Word
  stvec : Word
  sepc : Word
  scause : Word
  stval : Word
  deriving DecidableEq, Repr, Inhabited

/-- `rv_ext`. -/
def rvExt (x : Char) : Word := 1#64 <<< (x.toNat - 'a'.toNat)

variable (cfg : Config) (s : State)

/-- `reset` assigns every member but the program counter. `MISA` keeps its extension bits
outside the RISC-V tests. -/
def reset : State where
  curPc := s.curPc
  curPriv := Priv.m
  curNeedTrap := false
  trapPc := 0
  nextPriv := Priv.m
  status :=
    if cfg.runRiscvTest then
      if cfg.onlyModeM then Bits.set 0#64 mpp Priv.m else Bits.set 0#64 uxl 2#2
    else 0
  misa :=
    let ext : BitVec 26 :=
      if cfg.runRiscvTest then
        if cfg.onlyModeM then (rvExt 'i' ||| rvExt 'm').setWidth 26
        else (rvExt 'i' ||| rvExt 'm' ||| rvExt 'u').setWidth 26
      else s.misa.setWidth 26
    2#2 ++ 0#36 ++ ext
  medeleg := 0
  mideleg := 0
  ie := 0
  mtvec := 0
  mscratch := 0
  mepc := 0
  mcause := 0
  mtval := 0
  ip := 0
  mcycle := 0
  stvec := 0
  sepc := 0
  scause := 0
  stval := 0

/-- What `pre_exec` and `difftest_preexec` do to the mode before an instruction. -/
def preExec : State := { s with curNeedTrap := false, curPriv := s.nextPriv }

/-- The entry address for a vector register: `mode` is the low field, `base` the rest. -/
def vector (tvec : Word) (vectored : Bool) (cause : BitVec 63) : Word :=
  (tvec.extractLsb' 2 62).setWidth 64 <<< 2 + if vectored then cause.setWidth 64 * 4 else 0

/-- Whether `raise_trap` delegates to supervisor mode. -/
def trapToS (cause : Cause) : Bool :=
  s.curPriv != Priv.m &&
    if cause.interrupt == 1#1 then s.mideleg &&& (1#64 <<< cause.cause.toNat) != 0
    else s.medeleg &&& (1#64 <<< cause.cause.toNat) != 0

def raiseTrapS (cause : Cause) (tval : Word) : State :=
  let status := Bits.set s.status spie (s.status.extractLsb' sie 1)
  let status := Bits.set status sie 0#1
  { s with
    stval := tval
    scause := cause.toWord
    sepc := s.curPc
    status := Bits.set status spp (s.curPriv.extractLsb' 0 1)
    trapPc := vector s.stvec (s.stvec.extractLsb' 0 2 == 1#2) cause.cause
    nextPriv := Priv.s }

def raiseTrapM (cause : Cause) (tval : Word) : State :=
  let status := Bits.set s.status mpie (s.status.extractLsb' mie 1)
  let status := Bits.set status mie 0#1
  { s with
    mtval := tval
    mcause := cause.toWord
    mepc := s.curPc
    status := Bits.set status mpp s.curPriv
    trapPc := vector s.mtvec (s.mtvec.extractLsb' 0 2 != 0#2) cause.cause
    nextPriv := Priv.m }

def raiseTrap (cause : Cause) (tval : Word) : Option State :=
  if s.curNeedTrap then none
  else
    let s := { s with curNeedTrap := true }
    let s := if trapToS s cause then raiseTrapS s cause tval else raiseTrapM s cause tval
    if cause.cause == excInstrPgfault && tval == s.trapPc then none else some s

/-- The status after `mret`, which looks at `MPP` before it assigns it. -/
def mretStatus : Word :=
  let status := Bits.set s.status mie (s.status.extractLsb' mpie 1)
  let status := Bits.set status mpie 1#1
  let status := if status.extractLsb' mpp 2 != Priv.m then Bits.set status mprv 0#1 else status
  Bits.set status mpp Priv.u

def mretM : State :=
  { s with
    status := mretStatus s
    nextPriv := (Bits.set s.status mie (s.status.extractLsb' mpie 1)).extractLsb' mpp 2
    curNeedTrap := true
    trapPc := s.mepc }

/-- `mret`, where `none` is the result `false`: the core then raises an illegal instruction. -/
def mret : Option State := if s.curPriv != Priv.m then none else some (mretM s)

/-- The status after `csr_write`; the assertions on one-bit fields against 2 always hold. -/
def writeStatus (nstatus : Word) : Word :=
  let status := Bits.set s.status mie (nstatus.extractLsb' mie 1)
  let status := Bits.set status mpie (nstatus.extractLsb' mpie 1)
  if cfg.onlyModeM && cfg.runRiscvTest then status
  else
    let status := Bits.set status mpp
      (if nstatus.extractLsb' mpp 2 == 3#2 || nstatus.extractLsb' mpp 2 == 0#2 then
        nstatus.extractLsb' mpp 2 else status.extractLsb' mpp 2)
    Bits.set status mprv (nstatus.extractLsb' mprv 1)

/-- `csr_write` with its result, which is `false` for an unknown CSR. -/
def csrWrite (csrIndex : BitVec 12) (csrData : Word) : Option (State × Bool) :=
  if csrIndex = 0x301 then some (s, true)
  else if csrIndex = 0x300 then some ({ s with status := writeStatus cfg s csrData }, true)
  else if csrIndex = 0x304 then some ({ s with ie := csrData &&& mIntMask }, true)
  else if csrIndex = 0x305 then
    if csrData.extractLsb' 0 2 ≤ 1#2 then some ({ s with mtvec := csrData }, true) else none
  else if csrIndex = 0x306 then some (s, true)
  else if csrIndex = 0x340 then some ({ s with mscratch := csrData }, true)
  else if csrIndex = 0x341 then some ({ s with mepc := csrData }, true)
  else if csrIndex = 0x342 then some ({ s with mcause := csrData }, true)
  else if csrIndex = 0x343 then some ({ s with mtval := csrData }, true)
  else if csrIndex = 0x344 then some ({ s with ip := csrData &&& mIntMask }, true)
  else if csrIndex = 0xb00 then some ({ s with mcycle := csrData }, true)
  else if csrIndex = 0x7a0 then some (s, true)
  else if csrIndex = 0x7a1 then some (s, true)
  else some (s, false)

end PuaCpu.RvPriv
