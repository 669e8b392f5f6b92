import PuaCpu.Reference.Priv
import PuaCpu.Reference.Sv39

/-! # The hart of the reference model

The rest of `rv_priv`: every member with the bus behind it, interrupts, CSR
accesses and the memory accesses of the core through `va_if`, `va_read`,
`va_write`, `va_lr`, `va_sc` and `va_amo`.
-/

namespace PuaCpu.RvPriv

/-- The interrupt lines that `step` takes. -/
structure Lines where
  meip : Bool := false
  msip : Bool := false
  mtip : Bool := false
  seip : Bool := false
  deriving DecidableEq, Repr

/-- A cause for a member of `rv_exc_code`. -/
def Cause.exc (e : ExcNo) : Cause := ⟨BitVec.ofNat 63 e.val, 0⟩

/-- The members of `rv_priv` with the bus. `raised` collects the calls of `raise_trap` in a step:
no code reads it. -/
structure Hart (δ : Type) extends State where
  hartId : Word
  mcounteren : Word
  minstret : Word
  sscratch : Word
  satp : Word
  scounteren : Word
  sv39 : Sv39 32
  bus : Systembus δ
  raised : List (Cause × Word)
  deriving Inhabited

/-- `exc_custom_ok`. -/
def excCustomOk : Word := 24

/-- `int2index`. -/
def int2index (intMask : Word) : Word :=
  if intMask.getLsbD 11 then 11
  else if intMask.getLsbD 3 then 3
  else if intMask.getLsbD 7 then 7
  else if intMask.getLsbD 9 then 9
  else if intMask.getLsbD 1 then 1
  else if intMask.getLsbD 5 then 5
  else excCustomOk

/-- The interrupt that `check_and_raise_int` takes, and `exc_custom_ok` for none. -/
def finalIntIndex (s : State) : Word :=
  let intBits := s.ip &&& s.ie
  if s.curPriv = Priv.m then
    let mmodeIntBits := intBits &&& ~~~s.mideleg
    if mmodeIntBits ≠ 0 ∧ s.status.getLsbD mie then int2index mmodeIntBits else excCustomOk
  else
    let intIndex := int2index intBits
    if (1#64 <<< intIndex) &&& s.mideleg ≠ 0 then
      if s.status.getLsbD sie || s.curPriv.ult Priv.s then intIndex else excCustomOk
    else
      if s.status.getLsbD mie || s.curPriv.ult Priv.m then intIndex else excCustomOk

/-- The pending bits of the four lines. -/
def sampleIp (ip : Word) (l : Lines) : Word :=
  let ip := Bits.set ip 11 (BitVec.ofBool l.meip)
  let ip := Bits.set ip 3 (BitVec.ofBool l.msip)
  let ip := Bits.set ip 7 (BitVec.ofBool l.mtip)
  Bits.set ip 9 (BitVec.ofBool l.seip)

/-- The fields of `csr_mstatus_def` that `post_exec` expects to be zero. -/
def blanks : List (ℕ × ℕ) := [(0, 1), (2, 1), (4, 1), (23, 9), (38, 25)]

/-- What `sret` does to the status. -/
def sretStatus (status : Word) : Word :=
  let status := Bits.set status sie (status.extractLsb' spie 1)
  let status := Bits.set status spie 1#1
  -- one bit never equals `M_MODE`
  let status := Bits.set status mprv 0#1
  Bits.set status spp 0#1

namespace Hart

variable {δ : Type} (cfg : Config) (h : Hart δ)

/-- The constructor, over uninitialised members. -/
def new : Hart δ where
  toState := RvPriv.reset cfg h.toState
  hartId := h.hartId
  mcounteren := 0
  minstret := 0
  sscratch := 0
  satp := 0
  scounteren := 0
  sv39 := h.sv39.init
  bus := h.bus
  raised := []

def raiseTrap (cause : Cause) (tval : Word) : Outcome (Hart δ) :=
  match RvPriv.raiseTrap h.toState cause tval with
  | some s => .ok { h with toState := s, raised := h.raised ++ [(cause, tval)] }
  | none => .error (.abort .raiseTrap)

def checkAndRaiseInt : Outcome (Hart δ) :=
  let i := finalIntIndex h.toState
  if i ≠ excCustomOk then h.raiseTrap ⟨i.setWidth 63, 1⟩ 0 else .ok h

def preExec (l : Lines) : Outcome (Hart δ) :=
  let s := { h.toState with mcycle := h.mcycle + 1, ip := sampleIp h.ip l }
  { h with toState := RvPriv.preExec s }.checkAndRaiseInt

def difftestPreexec (mcycle minstret mip : Word) : Hart δ :=
  { h with
    toState := { RvPriv.preExec h.toState with mcycle := mcycle, ip := mip }
    minstret := minstret }

def postExec : Outcome (Hart δ) :=
  let h := if h.curNeedTrap then h else { h with minstret := h.minstret + 1 }
  if blanks.all fun (lo, w) => h.status.extractLsb' lo w == 0#w then
    .ok { h with toState := { h.toState with curNeedTrap := false } }
  else .error (.abort .postExec)

/-- `csr_read`; an unknown CSR reads as nothing. -/
def csrRead (csrIndex : BitVec 12) : Option Word :=
  if csrIndex = 0xf11 then some 0
  else if csrIndex = 0xf12 then some 0
  else if csrIndex = 0xf13 then some 0
  else if csrIndex = 0xf14 then some h.hartId
  else if csrIndex = 0xf15 then some 0
  else if csrIndex = 0x300 then some h.status
  else if csrIndex = 0x301 then some h.misa
  else if csrIndex = 0x302 then some h.medeleg
  else if csrIndex = 0x303 then some h.mideleg
  else if csrIndex = 0x304 then some h.ie
  else if csrIndex = 0x305 then some h.mtvec
  else if csrIndex = 0x306 then some h.mcounteren
  else if csrIndex = 0x340 then some h.mscratch
  else if csrIndex = 0x341 then some h.mepc
  else if csrIndex = 0x342 then some h.mcause
  else if csrIndex = 0x343 then some h.mtval
  else if csrIndex = 0x344 then some h.ip
  else if csrIndex = 0xb00 then some h.mcycle
  else if csrIndex = 0xb02 then some h.minstret
  else if csrIndex = 0xc00 then some h.mcycle
  else if csrIndex = 0x7a0 then some 1
  else if csrIndex = 0x7a1 then some 0
  else none

/-- `csr_write` on the whole hart. -/
def csrWrite (csrIndex : BitVec 12) (csrData : Word) : Outcome (Hart δ × Bool) :=
  match RvPriv.csrWrite cfg h.toState csrIndex csrData with
  | some (s, ok) => .ok ({ h with toState := s }, ok)
  | none => .error (.abort .csrWrite)

def csrOpPermissionCheck (csrIndex : BitVec 12) (write : Bool) : Bool :=
  if h.curPriv ≠ Priv.m then false
  else if csrIndex.extractLsb' 10 2 = 3 ∧ write then false
  else true

def ecall : Outcome (Hart δ) := h.raiseTrap ⟨h.curPriv.setWidth 63 + 8, 0⟩ 0

def ebreak : Outcome (Hart δ) := h.raiseTrap (.exc .breakPoint) 0

/-- `mret`, `sret` and `sfence_vma`, where nothing is the result `false`. -/
def mret : Option (Hart δ) := (RvPriv.mret h.toState).map fun s => { h with toState := s }

def sret : Option (Hart δ) :=
  if h.curPriv.ult Priv.s || h.status.getLsbD 22 then none
  else some { h with
    toState := { h.toState with
      status := sretStatus h.status
      nextPriv := (h.status.extractLsb' spp 1).setWidth 2
      curNeedTrap := true
      trapPc := h.sepc } }

def sfenceVma (vaddr asid : Word) : Option (Hart δ) :=
  if h.curPriv.ult Priv.s || (h.curPriv == Priv.s && h.status.getLsbD 20) then none
  else some { h with sv39 := h.sv39.sfenceVma vaddr asid }

section Access

variable {α : Type}

/-- The hart after a bus operation. -/
def withBus (r : Systembus δ × α) : Hart δ × α := ({ h with bus := r.1 }, r.2)

/-- Replace a missing result by a fault. -/
def orFault (e : ExcNo) (r : Hart δ × Option α) : Hart δ × Except ExcNo α :=
  (r.1, match r.2 with
    | some a => .ok a
    | none => .error e)

/-- What the data accesses differ in: their faults and the permission that they need. -/
structure AccessKind where
  crossing : ExcNo
  pageFault : ExcNo
  sumFault : ExcNo
  accessFault : ExcNo
  translatedFault : ExcNo
  permitted : (mxr : Bool) → TlbEntry → Bool

/-- Whether a data access skips translation. -/
def untranslated : Bool :=
  (h.curPriv == Priv.m && (!h.status.getLsbD mprv || h.status.extractLsb' mpp 2 == Priv.m)) ||
    Satp.mode h.satp == 0

/-- The mode that a translated data access is checked in. -/
def dataPriv : Priv :=
  if h.status.getLsbD mprv && h.curPriv == Priv.m then h.status.extractLsb' mpp 2 else h.curPriv

/-- Whether an access leaves its page. -/
def crosses (startAddr size : Word) : Bool := startAddr >>> 12 != (startAddr + size - 1) >>> 12

/-- The hart after a look-up of the translation buffer. -/
def tlbe [MmioDev δ] (va : Word) : Outcome (Hart δ × Option TlbEntry) := do
  let (sv39, bus, e) ← h.sv39.localTlbeGet h.bus h.satp va
  return ({ h with sv39 := sv39, bus := bus }, e)

/-- The physical address of a translated data access. -/
def translate [MmioDev δ] (k : AccessKind) (startAddr size : Word) :
    Outcome (Hart δ × Except ExcNo Word) := do
  if crosses startAddr size then return (h, .error k.crossing)
  match ← h.tlbe startAddr with
  | (h, none) => return (h, .error k.pageFault)
  | (h, some e) =>
    if !k.permitted (h.status.getLsbD 19) e then return (h, .error k.pageFault)
    else if h.dataPriv = Priv.u ∧ !e.u then return (h, .error k.pageFault)
    else if !h.status.getLsbD 18 ∧ h.dataPriv = Priv.s ∧ e.u then return (h, .error k.sumFault)
    else return (h, .ok (e.pa startAddr))

/-- A data access through translation to the bus operation `access`. -/
def vaAccess [MmioDev δ] (k : AccessKind) (startAddr size : Word)
    (access : Hart δ → Word → Outcome (Hart δ × Option α)) :
    Outcome (Hart δ × Except ExcNo α) :=
  if h.untranslated then (access h startAddr).map (orFault k.accessFault)
  else do
    match ← h.translate k startAddr size with
    | (h, .error e) => return (h, .error e)
    | (h, .ok pa) => (access h pa).map (orFault k.translatedFault)

def readKind : AccessKind where
  crossing := .loadAddrMisaligned
  pageFault := .loadPageFault
  sumFault := .loadAccessFault
  accessFault := .loadAccessFault
  translatedFault := .loadAccessFault
  permitted mxr e := e.a && (e.r || (mxr && !e.x))

def writeKind : AccessKind where
  crossing := .storeAddrMisaligned
  pageFault := .storePageFault
  sumFault := .storePageFault
  accessFault := .storeAccessFault
  translatedFault := .storePageFault
  permitted _ e := e.a && e.d && e.w

def lrKind : AccessKind where
  crossing := .storeAddrMisaligned
  pageFault := .storePageFault
  sumFault := .storeAccessFault
  accessFault := .storeAccessFault
  translatedFault := .storeAccessFault
  permitted mxr e := e.a && (e.r || (mxr && !e.x))

variable [MmioDev δ]

def vaRead (startAddr size : Word) : Outcome (Hart δ × Except ExcNo Word) :=
  h.vaAccess readKind startAddr size fun h pa => .ok (h.withBus (h.bus.paRead pa size))

/-- A write of 1 to the address `tohost` ends a test. -/
def vaWrite (startAddr size buffer : Word) : Outcome (Hart δ × Except ExcNo Unit) :=
  h.vaAccess writeKind startAddr size fun h pa =>
    if cfg.runRiscvTest ∧ pa = 0x80001000 ∧ buffer = 1 then .error (.exit 0)
    else
      let (bus, ok) := h.bus.paWrite pa size buffer
      .ok ({ h with bus := bus }, if ok then some () else none)

def vaLr (startAddr size : Word) : Outcome (Hart δ × Except ExcNo Word) :=
  if ¬(size = 4 ∨ size = 8) then .error (.abort .vaLr)
  else h.vaAccess lrKind startAddr size fun h pa => .ok (h.withBus (h.bus.paLr pa size h.hartId))

def vaSc (startAddr size buffer : Word) : Outcome (Hart δ × Except ExcNo Bool) :=
  if ¬(size = 4 ∨ size = 8) then .error (.abort .vaSc)
  else h.vaAccess writeKind startAddr size fun h pa =>
    .ok (h.withBus (h.bus.paSc pa size buffer h.hartId))

def vaAmo (startAddr size : Word) (op : BitVec 5) (src : Word) :
    Outcome (Hart δ × Except ExcNo Word) :=
  if ¬(size = 4 ∨ size = 8) then .error (.abort .vaAmo)
  else h.vaAccess writeKind startAddr size fun h pa =>
    (h.bus.paAmoOp pa size op src).map h.withBus

/-- One bus access of `va_if`. -/
def vaIfPart (startAddr size : Word) : Outcome (Hart δ × Except ExcNo Word) :=
  if h.curPriv = Priv.m ∨ Satp.mode h.satp = 0 then
    .ok (orFault .instAccessFault (h.withBus (h.bus.paRead startAddr size)))
  else if crosses startAddr size then .ok (h, .error .instAddrMisaligned)
  else do
    match ← h.tlbe startAddr with
    | (h, none) => return (h, .error .instPageFault)
    | (h, some e) =>
      if !e.a || !e.x then return (h, .error .instPageFault)
      else if (h.curPriv = Priv.u ∧ !e.u) ∨ (h.curPriv = Priv.s ∧ e.u) then
        return (h, .error .instPageFault)
      else return orFault .instAccessFault (h.withBus (h.bus.paRead (e.pa startAddr) size))

/-- `va_if`; a fault comes with `bad_va`. -/
def vaIf (startAddr size : Word) : Outcome (Hart δ × Except (ExcNo × Word) Word) := do
  if size = 4 ∧ startAddr % 4 = 2 then
    match ← h.vaIfPart startAddr 2 with
    | (h, .error e) => return (h, .error (e, startAddr))
    | (h, .ok lo) =>
      match ← h.vaIfPart (startAddr + 2) 2 with
      | (h, .error e) => return (h, .error (e, startAddr + 2))
      | (h, .ok hi) => return (h, .ok (lo ||| hi <<< 16))
  else
    match ← h.vaIfPart startAddr size with
    | (h, .error e) => return (h, .error (e, startAddr))
    | (h, .ok buffer) => return (h, .ok buffer)

end Access

end Hart

end PuaCpu.RvPriv
