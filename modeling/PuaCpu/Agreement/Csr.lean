import PuaCpu.Agreement.Patterns
import PuaCpu.Reference.Agreement
import PuaCpu.Reference.Run

/-! # CSR values

The CSR unit and the reference model execute the same CSR instructions in
machine mode. They read the same values as long as no write asks for a bit that
only one side implements, and no register that holds zero makes the unit take a
write of a read-only CSR for a read.
-/

namespace PuaCpu.CsrValue

open RvCore RvPriv

section Word

variable {inst : RvInstr}

theorem lookup_csr (ho : inst.opcode = Opcode.system) (hf : inst.funct3 ∈ [1#3, 2, 3, 5, 6, 7]) :
    Decoder.lookup inst.word = ⟨.i, .csr, inst.funct3.setWidth 5⟩ := by
  have hm : ∀ f ∈ [1#3, 2, 3, 5, 6, 7],
      (([BitPat.funct3 f, BitPat.opcode Opcode.system], ⟨.i, .csr, f.setWidth 5⟩) :
        BitPat × DecodeEntry) ∈ Instructions.decodeTable := by decide +kernel
  exact Decoder.lookup_of_hits (hm _ hf) (RvInstr.hits_funct3_opcode rfl ho)

/-- The unit takes a set or clear instruction for a read if its operand is zero. -/
theorem onlyRead_eq {i : Csr.In} {regs : ARegFile} (hf : inst.funct3 ∈ [1#3, 2, 3, 5, 6, 7])
    (hop : i.info.op = inst.funct3.setWidth 5) (hs : i.srcInfo.src1Data = regs.read inst.rs1) :
    Csr.onlyRead i = decide (inst.funct3 ∉ [1#3, 5] ∧ regs.read inst.rs1 = 0) := by
  have h : ∀ f ∈ [1#3, 2, 3, 5, 6, 7], (f.setWidth 5 == CSROpType.clear ||
      f.setWidth 5 == CSROpType.cleari || f.setWidth 5 == CSROpType.set ||
      f.setWidth 5 == CSROpType.seti) = decide (f ∉ [1#3, 5]) := by decide
  rw [Csr.onlyRead, hs, hop, h _ hf, Bool.decide_and, Bool.and_comm]
  rfl

end Word

/-- A CSR instruction on a compared CSR, with the address and the registers that it meets. -/
structure Op where
  inst : RvInstr
  pc : Word
  regs : ARegFile
  csr : CsrName
  opcode : inst.opcode = Opcode.system
  funct3 : inst.funct3 ∈ [1#3, 2, 3, 5, 6, 7]
  index : inst.csrIndex = csr.addr
  compared : csr ∉ [CsrName.cycle, .stap, .mtvec]
  aligned : pc.extractLsb' 0 2 = 0#2

/-- What is in execute in a cycle: an instruction, or an empty slot with any content. -/
inductive Slot
  | op (o : Op)
  | empty (i : Csr.In) (hv : i.info.valid = false) (hl : i.interruptInfo = {})

namespace Op

variable (o : Op)

/-- The input of the CSR unit, with the interrupts that it offers itself. -/
def dutIn (s : Csr.State) : Csr.In :=
  let d := issue o.regs s.mode o.pc o.inst
  Fu.csrIn { d with
    ex := ExcCtrl.excInfo o.pc d.info (Decoder.instIllegal o.inst.word) s.mode
      (Csr.interrupt s) } {}

/-- The value that the CSR unit reads, if the instruction does not trap. -/
def dutValue (s : Csr.State) : Option Word :=
  if Csr.hasExc s (o.dutIn s) then none else some (Csr.defaultRead s (o.dutIn s))

/-- `exec` of the reference model without the fetch, with the value that `csr_read` returned if
the instruction is not illegal. -/
def refStep (cfg : Config) (s : State MmioMem) : Outcome (State MmioMem × Option Word) := do
  let s := (({ s with gpr := o.regs.read } : State MmioMem).jump o.pc).start
  let h ← s.priv.preExec {}
  let s := s.withPriv h
  if h.curNeedTrap then return (← State.exception 0 s.done, none)
  let e ← s.decodeExec o.inst cfg
  return (← State.exception o.inst e, if e.ri then none else h.csrRead o.inst.csrIndex)

end Op

/-- The CSR unit after the slots of the first cycles. -/
def dutRun (slots : ℕ → Slot) : ℕ → Csr.State
  | 0 => Csr.init
  | t + 1 => Csr.step (dutRun slots t) (match slots t with
    | .op o => o.dutIn (dutRun slots t)
    | .empty i _ _ => i)

/-- The reference model after the instructions among them. -/
def refRun (cfg : Config) (s : State MmioMem) (slots : ℕ → Slot) : ℕ → Outcome (State MmioMem)
  | 0 => .ok s
  | t + 1 => do
    let s ← refRun cfg s slots t
    match slots t with
    | .op o => return (← o.refStep cfg s).1
    | .empty _ _ _ => return s

namespace Op

variable (o : Op)

/-- The operation, its operand and the value that it asks for. -/
def fuOp : FuOp := o.inst.funct3.setWidth 5

def src : Word :=
  if o.inst.funct3.getLsbD 2 then State.zimm o.inst else o.regs.read o.inst.rs1

def requested (old : Word) : Word := Csr.requested o.fuOp o.src old

/-- Whether the reference model writes the CSR. -/
def writes : Bool := o.inst.funct3 == 1#3 || o.inst.funct3 == 5#3 || o.inst.rs1 != 0

theorem fuOp_mem : o.fuOp ∈ Csr.csrOps := by
  have h : ∀ f ∈ [1#3, 2, 3, 5, 6, 7], f.setWidth 5 ∈ Csr.csrOps := by decide
  exact h _ o.funct3

theorem lookup_eq : Decoder.lookup o.inst.word = ⟨.i, .csr, o.fuOp⟩ :=
  lookup_csr o.opcode o.funct3

theorem instIllegal_eq : Decoder.instIllegal o.inst.word = false := by
  rw [Decoder.instIllegal, lookup_eq]
  rfl

variable (s : Csr.State)

theorem dutIn_op : (o.dutIn s).info.op = o.fuOp := by
  change (Decoder.lookup o.inst.word).fuOpType = _
  rw [lookup_eq]

theorem dutIn_fusel : (o.dutIn s).info.fusel = .csr := by
  change (Decoder.lookup o.inst.word).fuType = _
  rw [lookup_eq]

theorem dutIn_addr : Csr.csrAddr (o.dutIn s) = o.csr.addr := by
  change o.inst.word.extractLsb' 20 12 = _
  rw [o.inst.extract_word (by decide), ← o.index]
  rfl

theorem dutIn_src1Data : (o.dutIn s).srcInfo.src1Data = o.regs.read o.inst.rs1 := by
  change (issue o.regs s.mode o.pc o.inst).srcInfo.src1Data = _
  exact issue_src1Data_reg (by rw [lookup_eq]; exact List.mem_cons_of_mem _ List.mem_cons_self)

theorem srcValue_dutIn : Csr.srcValue (o.dutIn s) = o.src := by
  have hi : Csr.isImm (o.dutIn s) = o.inst.funct3.getLsbD 2 := by
    rw [Csr.isImm, dutIn_op, fuOp, BitVec.getLsbD_setWidth]
    rfl
  have hz : Csr.zimm (o.dutIn s) = State.zimm o.inst := by
    change zeroExtend (o.inst.word.extractLsb' 15 5) 64 = _
    rw [o.inst.rs1_word]
    rfl
  rw [Csr.srcValue, hi, hz, dutIn_src1Data, src]

theorem requested_dutIn (old : Word) :
    Csr.requested (o.dutIn s).info.op (Csr.srcValue (o.dutIn s)) old = o.requested old := by
  rw [dutIn_op, srcValue_dutIn, requested]

theorem write_dutIn : Csr.write (o.dutIn s) = true :=
  Csr.write_of_csrOps rfl (o.dutIn_fusel s) (o.dutIn_op s ▸ o.fuOp_mem)

/-- Whether the instruction is a write of a read-only CSR. -/
def refused : Bool := decide (o.csr.addr.extractLsb' 10 2 = 3#2) && o.writes

end Op

/-- No bit that only one side implements is asked for, and no register with the value zero stands
for `x0`. -/
structure Kept (s : Csr.State) (o : Op) : Prop where
  mie : o.csr = .mie → o.requested (s.reg .mie) &&& ~~~mIntMask = 0
  mcounteren : o.csr = .mcounteren →
    o.requested (s.reg .mcounteren) &&& CsrName.mcounteren.writeMask = 0
  mip : o.csr = .mip → o.requested (s.reg .mip) &&& 0x22 = 0
  readOnly : o.csr.addr.extractLsb' 10 2 = 3#2 → o.inst.funct3 ∉ [1#3, 5] → o.inst.rs1 ≠ 0 →
    o.regs.read o.inst.rs1 ≠ 0

section Unit

variable {s : Csr.State} {o : Op}

theorem interrupt_eq (hm : s.reg .mip = 0) : Csr.interrupt s = {} := by
  simp [Csr.interrupt, Csr.checkInterrupt, hm]

theorem attached_dutIn (hm : s.reg .mip = 0) : Csr.attached (o.dutIn s) = false := by
  have hop : ∀ op ∈ Csr.csrOps, (op == CSROpType.ebreak) = false ∧
      (op == CSROpType.ecall) = false := by decide
  obtain ⟨hb, hc⟩ := hop _ o.fuOp_mem
  have hinfo : (issue o.regs s.mode o.pc o.inst).info.op = o.fuOp := o.dutIn_op s
  have hf : (issue o.regs s.mode o.pc o.inst).info.fusel = .csr := o.dutIn_fusel s
  have hex : (o.dutIn s).excInfo = ExcCtrl.excInfo o.pc (issue o.regs s.mode o.pc o.inst).info
      (Decoder.instIllegal o.inst.word) s.mode (Csr.interrupt s) := by
    simp [Op.dutIn, Fu.csrIn, Bru.ex, Bru.hasExc, Bru.branch, Lsu.ex, Lsu.hasExc, hf]
  have hx : (o.dutIn s).excInfo = ⟨ExcCtrl.exception o.pc (issue o.regs s.mode o.pc o.inst).info
      (Decoder.instIllegal o.inst.word) s.mode, ExcCtrl.interrupt {},
      ExcCtrl.tval o.pc (issue o.regs s.mode o.pc o.inst).info⟩ := by
    rw [hex, interrupt_eq hm]
    rfl
  rw [Csr.attached, hx, Bool.or_eq_false_iff, orR_eq_false, orR_eq_false]
  refine ⟨fun i => ?_, fun i => ?_⟩
  · simp [ExcCtrl.exception, ExcCtrl.isEbreak, ExcCtrl.isEcall, hinfo, hb, hc, o.aligned,
      o.instIllegal_eq]
  · simp [ExcCtrl.interrupt]

theorem onlyRead_dutIn (h : Kept s o) (hr : o.csr.addr.extractLsb' 10 2 = 3#2) :
    Csr.onlyRead (o.dutIn s) = !o.writes := by
  rw [onlyRead_eq o.funct3 (o.dutIn_op s) (o.dutIn_src1Data s), Op.writes]
  by_cases hf : o.inst.funct3 ∈ [1#3, 5]
  · simp only [List.mem_cons, List.not_mem_nil, or_false] at hf
    rcases hf with hf | hf <;> simp [hf]
  · have hk := h.readOnly hr hf
    have hm : ¬(o.inst.funct3 ∈ [1#3, 5]) := hf
    simp only [List.mem_cons, List.not_mem_nil, or_false, not_or] at hf
    have h1 : (o.inst.funct3 == 1#3) = false := beq_eq_false_iff_ne.mpr hf.1
    have h5 : (o.inst.funct3 == 5#3) = false := beq_eq_false_iff_ne.mpr hf.2
    by_cases h0 : o.inst.rs1 = 0#5
    · rw [h1, h5, h0, decide_eq_true ⟨hm, ARegFile.read_zero _⟩]
      rfl
    · have hv : o.regs.read o.inst.rs1 ≠ 0#64 := hk h0
      simp [h0, hv]

theorem isIllegal_dutIn (h : Kept s o) (hmode : s.mode = Priv.m) :
    Csr.isIllegal s (o.dutIn s) = o.refused := by
  have hl : ∀ l : BitVec 2, Priv.m.ult l = false := by decide
  have ha : Csr.illegalAddr (o.dutIn s) = false := by
    rw [Csr.illegalAddr, o.dutIn_addr, CsrName.ofAddr_addr]
    rfl
  rw [Csr.isIllegal, ha, Csr.illegalAccess, Csr.illegalWrite, Csr.illegalMode, o.write_dutIn,
    o.dutIn_addr, hmode, hl, Op.refused]
  by_cases hr : o.csr.addr.extractLsb' 10 2 = 3#2
  · simp [hr, onlyRead_dutIn h hr]
  · simp [hr]

theorem hasExc_dutIn (h : Kept s o) (hmode : s.mode = Priv.m) (hm : s.reg .mip = 0) :
    Csr.hasExc s (o.dutIn s) = o.refused := by
  have ha := attached_dutIn (o := o) hm
  have hi := isIllegal_dutIn h hmode
  rw [Csr.attached, Bool.or_eq_false_iff, orR_eq_false, orR_eq_false] at ha
  rw [Csr.hasExc, Csr.isException, Csr.isInterrupt, Csr.ex, hi]
  cases o.refused with
  | false => simp [orR_eq_false, ha]
  | true =>
    have he : orR ((o.dutIn s).excInfo.raise .illegalInst (o.dutIn s).info.inst).exception =
        true := by
      rw [orR_eq_true]
      exact ⟨ExcNo.illegalInst, by simp [ExceptionInfo.raise]⟩
    simp [he]

theorem step_mode (hmode : s.mode = Priv.m) : (Csr.step s (o.dutIn s)).mode = Priv.m := by
  change Csr.nextMode s (o.dutIn s) = Priv.m
  rw [Csr.nextMode, Csr.mret_of_write (o.write_dutIn s), hmode]
  cases Csr.trap s (o.dutIn s) <;> rfl

theorem step_mip (hm : s.reg .mip = 0) : (Csr.step s (o.dutIn s)).reg .mip = 0 := by
  change Csr.mipUpdate (s.reg .mip) {} = 0
  rw [hm]
  decide

variable (hk : Kept s o) (hmode : s.mode = Priv.m) (hm : s.reg .mip = 0)
include hk hmode hm

theorem trap_dutIn : Csr.trap s (o.dutIn s) = o.refused := by
  rw [Csr.trap, hasExc_dutIn hk hmode hm]
  exact Bool.and_true _

theorem dutValue_eq : o.dutValue s = if o.refused then none else some (s.reg o.csr) := by
  rw [Op.dutValue, hasExc_dutIn hk hmode hm, Csr.defaultRead_of_addr (o.dutIn_addr s)]

theorem step_stored (hr : o.refused = false) (hc : o.csr ≠ .mip) :
    (Csr.step s (o.dutIn s)).reg o.csr =
      Bits.merge (Csr.storeMask o.csr (o.requested (s.reg o.csr))) (s.reg o.csr)
        (o.requested (s.reg o.csr)) := by
  have ht := (trap_dutIn hk hmode hm).trans hr
  have hw := Csr.wen_of_not_trap rfl (o.write_dutIn s) ht
  have ho : (o.dutIn s).info.op ∈ Csr.csrOps := o.dutIn_op s ▸ o.fuOp_mem
  rw [← o.requested_dutIn s, ← Csr.writeData_of_csrOps ho, ← Csr.writeReg_eq,
    ← Csr.csrRegs_of_wen hw (o.dutIn_addr s)]
  exact Csr.nextReg_of_quiet ht (Csr.mret_of_write (o.write_dutIn s)) hc

theorem step_frame (hr : o.refused = false) {d : CsrName} (hd : d ≠ o.csr) (hcy : d ≠ .cycle)
    (hmip : d ≠ .mip) : (Csr.step s (o.dutIn s)).reg d = s.reg d := by
  have ht := (trap_dutIn hk hmode hm).trans hr
  exact Csr.writeLaw_frame (Csr.wen_of_not_trap rfl (o.write_dutIn s) ht) ht (o.dutIn_addr s) hd hcy
    hmip

end Unit

section Reference

variable {δ : Type}

/-- What the reference model reads from a CSR of the map. -/
def held (h : Hart δ) : CsrName → Word
  | .cycle => h.mcycle
  | .mhartid => h.hartId
  | .misa => h.misa
  | .mie => h.ie
  | .mcounteren => h.mcounteren
  | .mip => h.ip
  | .tselect => 1
  | c => member h.toState c

theorem csrRead_addr (h : Hart δ) {c : CsrName} (hc : c ≠ .stap) :
    h.csrRead c.addr = some (held h c) := by
  cases c <;> first | rfl | exact absurd rfl hc

/-- The members of `rv_priv` after a write of a CSR that both sides store alike. -/
structure Stored (h : Hart δ) (c : CsrName) (data : Word) (t : RvPriv.State) : Prop where
  value : c ≠ .mip →
    held { h with toState := t } c = Bits.merge (Csr.storeMask c data) (held h c) data
  frame : ∀ d, d ≠ c → held { h with toState := t } d = held h d
  ip : sampleIp h.ip {} = 0 → sampleIp t.ip {} = 0
  nextPriv : t.nextPriv = h.nextPriv
  curPriv : t.curPriv = h.curPriv
  curPc : t.curPc = h.curPc
  curNeedTrap : t.curNeedTrap = h.curNeedTrap

theorem getLsbD_sampleIp (ip : Word) {j : ℕ} (hj : j < 64) :
    (sampleIp ip {}).getLsbD j = (ip.getLsbD j && !decide (j ∈ [3, 7, 9, 11])) := by
  simp only [sampleIp, Bits.getLsbD_set _ _ _ hj, List.mem_cons, List.not_mem_nil, or_false]
  split_ifs with h9 h7 h3 h11
  · simp [show j = 9 by omega]
  · simp [show j = 7 by omega]
  · simp [show j = 3 by omega]
  · simp [show j = 11 by omega]
  · simp [show ¬(j = 3 ∨ j = 7 ∨ j = 9 ∨ j = 11) by omega]

theorem Stored.self (h : Hart δ) (c : CsrName) : Stored h c (held h c) h.toState :=
  ⟨fun _ => (Bits.merge_self _ _).symm, fun _ _ => rfl, id, rfl, rfl, rfl, rfl⟩

theorem sampleIp_masked {data : Word} (h : data &&& 0x22 = 0) :
    sampleIp (data &&& mIntMask) {} = 0 := by
  have hm : ∀ j < 64, (mIntMask.getLsbD j && !decide (j ∈ [3, 7, 9, 11])) =
      (0x22#64).getLsbD j := by decide
  apply BitVec.eq_of_getLsbD_eq
  intro j hj
  rw [getLsbD_sampleIp _ hj, BitVec.getLsbD_and, Bool.and_assoc, hm j hj, ← BitVec.getLsbD_and]
  exact congrArg (·.getLsbD j) h

theorem csrWrite_stored (h : Hart δ) {c : CsrName} (data : Word)
    (hc : c ∉ [CsrName.cycle, .stap, .mtvec]) (hr : c.addr.extractLsb' 10 2 ≠ 3#2)
    (hie : c = .mie → data &&& ~~~mIntMask = 0)
    (hen : c = .mcounteren → data &&& CsrName.mcounteren.writeMask = 0)
    (h0 : h.mcounteren = 0) (hip : c = .mip → data &&& 0x22 = 0) :
    ∃ t, RvPriv.csrWrite testConfig h.toState c.addr data = some (t, true) ∧
      Stored h c data t := by
  cases c with
  | cycle | stap | mtvec => exact absurd (by decide) hc
  | mvendorid | marchid | mimpid | mhartid => exact absurd rfl hr
  | mstatus =>
    refine ⟨_, rfl, fun _ => writeStatus_eq _ _, fun d hd => ?_, id, rfl, rfl, rfl, rfl⟩
    cases d <;> first | rfl | exact absurd rfl hd
  | misa | tselect =>
    exact ⟨_, rfl, fun _ => (Bits.merge_zero _ _).symm, fun _ _ => rfl, id, rfl, rfl, rfl, rfl⟩
  | mcounteren =>
    refine ⟨_, rfl, fun _ => ?_, fun _ _ => rfl, id, rfl, rfl, rfl, rfl⟩
    change h.mcounteren = (data &&& _) ||| (h.mcounteren &&& _)
    rw [h0]
    change 0 = (data &&& CsrName.mcounteren.writeMask) ||| _
    rw [hen rfl]
    simp
  | mie =>
    refine ⟨_, rfl, fun _ => ?_, fun d hd => ?_, id, rfl, rfl, rfl, rfl⟩
    · change data &&& mIntMask = Bits.merge (BitVec.allOnes 64) _ data
      rw [Bits.merge_allOnes]
      apply BitVec.eq_of_getLsbD_eq
      intro j hj
      have hb := congrArg (·.getLsbD j) (hie rfl)
      simp only [BitVec.getLsbD_and, BitVec.getLsbD_not, hj, decide_true, Bool.true_and] at hb ⊢
      revert hb
      cases data.getLsbD j <;> cases mIntMask.getLsbD j <;> simp
    · cases d <;> first | rfl | exact absurd rfl hd
  | mip =>
    refine ⟨_, rfl, fun hn => absurd rfl hn, fun d hd => ?_, fun _ => sampleIp_masked (hip rfl),
      rfl, rfl, rfl, rfl⟩
    cases d <;> first | rfl | exact absurd rfl hd
  | mscratch | mepc | mcause | mtval =>
    refine ⟨_, rfl, fun _ => (Bits.merge_allOnes _ _).symm, fun d hd => ?_, id, rfl, rfl, rfl, rfl⟩
    cases d <;> first | rfl | exact absurd rfl hd

theorem execSystem_eq (o : Op) {e : State δ} (hg : e.gpr = o.regs.read) :
    e.execSystem o.inst testConfig = e.csrOp o.inst testConfig o.writes o.requested := by
  have hr {f : BitVec 3} (h : o.inst.funct3 = f) : o.requested = Csr.requested (f.setWidth 5)
      (if f.getLsbD 2 then State.zimm o.inst else e.gpr o.inst.rs1) := by
    funext old
    rw [Op.requested, Op.fuOp, Op.src, h, hg]
  have hw {f : BitVec 3} (h : o.inst.funct3 = f) :
      o.writes = (f == 1#3 || f == 5#3 || o.inst.rs1 != 0) := by
    rw [Op.writes, h]
  have hf := o.funct3
  simp only [List.mem_cons, List.not_mem_nil, or_false] at hf
  rcases hf with h | h | h | h | h | h <;> rw [hr h, hw h, State.execSystem, h] <;> rfl

end Reference

/-- The relation that the operations keep. -/
structure Sim (s : Csr.State) (r : State MmioMem) : Prop where
  inv : r.Inv
  isolated : Csr.Isolated s
  mode : s.mode = Priv.m
  nextPriv : r.priv.nextPriv = Priv.m
  reg : ∀ c ∉ [CsrName.cycle, .stap, .mip], held r.priv c = s.reg c
  mip : s.reg .mip = 0
  ip : sampleIp r.priv.ip {} = 0
  mcounteren : r.priv.mcounteren = 0

section Step

variable {s : Csr.State} {r : State MmioMem} {o : Op}

/-- The reference model when it decodes the instruction. -/
def Op.begun (o : Op) (r : State MmioMem) : State MmioMem :=
  (({ r with gpr := o.regs.read } : State MmioMem).jump o.pc).entered
    (RvPriv.preExec { r.priv.toState with
      curPc := o.pc, mcycle := r.priv.mcycle + 1, ip := sampleIp r.priv.ip {} }) r.priv.bus

theorem finalIntIndex_of_ip {t : RvPriv.State} (hm : t.curPriv = Priv.m) (hip : t.ip = 0) :
    finalIntIndex t = excCustomOk := by
  simp [finalIntIndex, hm, hip]

theorem refStep_eq (h : Sim s r) : o.refStep testConfig r = (do
    let e ← (o.begun r).decodeExec o.inst testConfig
    return (← State.exception o.inst e,
      if e.ri then none else (o.begun r).priv.csrRead o.inst.csrIndex)) := by
  have hpre : (({ r with gpr := o.regs.read } : State MmioMem).jump o.pc).start.priv.preExec {} =
      .ok (o.begun r).priv := by
    rw [Hart.preExec, Hart.checkAndRaiseInt, finalIntIndex_of_ip h.nextPriv h.ip,
      if_neg (not_not_intro rfl)]
    rfl
  rw [Op.refStep, hpre]
  rfl

theorem begun_inv (h : Sim s r) : (o.begun r).Inv :=
  State.Inv.entered (s := ({ r with gpr := o.regs.read } : State MmioMem).jump o.pc)
    ⟨h.inv.priv.step (.mem o.pc r.priv.bus rfl : State.HartStep testConfig _ _),
      h.inv.curNeedTrap⟩
    (l := {}) .sampled r.priv.bus

theorem held_begun (h : Sim s r) {c : CsrName} (hc : c ≠ .cycle) (hs : c ≠ .stap) :
    held (o.begun r).priv c = s.reg c := by
  by_cases hm : c = .mip
  · rw [hm, h.mip]
    exact h.ip
  · rw [← h.reg c (by simp [hc, hs, hm])]
    cases c <;> first | rfl | exact absurd rfl hc | exact absurd rfl hm

theorem csrRead_begun (h : Sim s r) :
    (o.begun r).priv.csrRead o.inst.csrIndex = some (s.reg o.csr) := by
  have hc := o.compared
  simp only [List.mem_cons, List.not_mem_nil, or_false, not_or] at hc
  rw [o.index, csrRead_addr _ hc.2.1, held_begun h hc.1 hc.2.1]

theorem permission_begun (h : Sim s r) :
    (o.begun r).priv.csrOpPermissionCheck o.inst.csrIndex o.writes = !o.refused := by
  have hm : (o.begun r).priv.curPriv = Priv.m := h.nextPriv
  rw [Hart.csrOpPermissionCheck, if_neg (not_not_intro hm), o.index, Op.refused]
  by_cases hr : o.csr.addr.extractLsb' 10 2 = 3#2
  · cases o.writes <;> simp [hr]
  · simp [hr]

theorem decodeExec_refused (h : Sim s r) (hr : o.refused = true) :
    (o.begun r).decodeExec o.inst testConfig = .ok ((o.begun r).fetched o.inst).illegal := by
  rw [State.decodeExec_system o.opcode, execSystem_eq o rfl, State.csrOp]
  exact if_pos (by rw [State.fetched, permission_begun h, hr]; rfl)

theorem requested_of_not_writes (hw : o.writes = false) (old : Word) : o.requested old = old := by
  have hf := o.funct3
  simp only [Op.writes, Bool.or_eq_false_iff, beq_eq_false_iff_ne, bne_eq_false_iff_eq] at hw
  obtain ⟨⟨h1, h5⟩, h0⟩ := hw
  have hsrc : o.src = 0 := by
    rw [Op.src, State.zimm, h0]
    simp [ARegFile.read]
  have hop : ∀ f ∈ [1#3, 2, 3, 5, 6, 7], f ≠ 1#3 → f ≠ 5#3 →
      ¬ (f.setWidth 5 = CSROpType.write ∨ f.setWidth 5 = CSROpType.writei) := by decide
  rw [Op.requested, Csr.requested, Op.fuOp, if_neg (hop _ hf h1 h5), hsrc]
  split_ifs
  · exact BitVec.or_zero
  · exact BitVec.and_allOnes

theorem decodeExec_kept (h : Sim s r) (hk : Kept s o) (hr : o.refused = false) :
    ∃ (e : State MmioMem) (t : RvPriv.State),
      (o.begun r).decodeExec o.inst testConfig = .ok e.done ∧
      e.priv = { (o.begun r).priv with toState := t } ∧
      State.HartStep testConfig (o.begun r).priv e.priv ∧
      Stored (o.begun r).priv o.csr (o.requested (s.reg o.csr)) t := by
  have hp : ((o.begun r).fetched o.inst).priv.csrOpPermissionCheck o.inst.csrIndex o.writes =
      true := by
    rw [State.fetched, permission_begun h, hr]
    rfl
  have hrd : ((o.begun r).fetched o.inst).priv.csrRead o.inst.csrIndex = some (s.reg o.csr) :=
    csrRead_begun h
  have hset (e : State MmioMem) (v : Word) :
      (if o.inst.rd ≠ 0 then e.setGpr o.inst.rd v else e).priv = e.priv := by
    split_ifs <;> rfl
  rw [State.decodeExec_system o.opcode, execSystem_eq o rfl, State.csrOp, hp, hrd]
  cases hw : o.writes with
  | false =>
    refine ⟨_, (o.begun r).priv.toState, rfl, hset _ _, by rw [hset]; exact .refl _ _, ?_⟩
    have hc := o.compared
    simp only [List.mem_cons, List.not_mem_nil, or_false, not_or] at hc
    rw [requested_of_not_writes hw, ← held_begun (o := o) h hc.1 hc.2.1]
    exact .self _ _
  | true =>
    have hro : o.csr.addr.extractLsb' 10 2 ≠ 3#2 := by
      intro hro
      rw [Op.refused, hro, hw] at hr
      exact absurd hr (by decide)
    obtain ⟨t, ht, hs⟩ := csrWrite_stored (o.begun r).priv (o.requested (s.reg o.csr))
      o.compared hro (fun hc => by rw [hc]; exact hk.mie hc)
      (fun hc => by rw [hc]; exact hk.mcounteren hc) h.mcounteren
      (fun hc => by rw [hc]; exact hk.mip hc)
    rw [← o.index] at ht
    refine ⟨_, t, ?_, hset (((o.begun r).fetched o.inst).withPriv
      { (o.begun r).priv with toState := t }) (s.reg o.csr),
      by rw [hset]; exact .csr _ _ t h.nextPriv ht, hs⟩
    have hcw : ((o.begun r).fetched o.inst).priv.csrWrite testConfig o.inst.csrIndex
        (o.requested (s.reg o.csr)) = .ok ({ (o.begun r).priv with toState := t }, true) := by
      rw [Hart.csrWrite, State.fetched, ht]
    simp only [Bool.not_true, Bool.false_eq_true, if_false, if_true, hcw]
    rfl

theorem sim_kept (h : Sim s r) (hk : Kept s o) (hr : o.refused = false) :
    ∃ r', o.refStep testConfig r = .ok (r', o.dutValue s) ∧ Sim (Csr.step s (o.dutIn s)) r' := by
  have hc := o.compared
  simp only [List.mem_cons, List.not_mem_nil, or_false, not_or] at hc
  have hold := held_begun (o := o) h hc.1 hc.2.1
  obtain ⟨e, t, hd, hp, hstep, hs⟩ := decodeExec_kept h hk hr
  obtain ⟨h1, h2, h3, h4, h5, h6⟩ := (begun_inv (o := o) h).priv.step hstep
  obtain ⟨npc, hexc⟩ : ∃ npc, State.exception o.inst e.done = .ok (e.retire npc) :=
    ⟨_, State.exception_eq h6⟩
  have hframe (d : CsrName) : held (e.retire npc).priv d =
      held { (o.begun r).priv with toState := t } d := by
    rw [← hp]
    cases d <;> rfl
  have ht : e.priv.toState = t := by rw [hp]
  refine ⟨e.retire npc, ?_, ⟨⟨⟨h1, h2, h3, h4, h5, h6⟩, rfl⟩, Csr.isolated_step h.isolated,
    step_mode h.mode, ?_, fun d hd => ?_, step_mip h.mip, ?_, ?_⟩⟩
  · rw [refStep_eq h, hd, dutValue_eq hk h.mode h.mip, hr, csrRead_begun h]
    change (do return (← State.exception o.inst e.done, _)) = _
    rw [hexc]
    rfl
  · exact (congrArg RvPriv.State.nextPriv ht).trans (hs.nextPriv.trans h.nextPriv)
  · simp only [List.mem_cons, List.not_mem_nil, or_false, not_or] at hd
    rw [hframe]
    by_cases hdc : d = o.csr
    · subst hdc
      rw [hs.value hd.2.2, hold, step_stored hk h.mode h.mip hr hd.2.2]
    · rw [hs.frame d hdc, held_begun h hd.1 hd.2.1,
        step_frame hk h.mode h.mip hr hdc hd.1 hd.2.2]
  · have heip : e.priv.ip = t.ip := congrArg RvPriv.State.ip ht
    have hbip : (o.begun r).priv.ip = 0 := h.ip
    change sampleIp e.priv.ip {} = 0
    rw [heip]
    exact hs.ip (by rw [hbip]; decide)
  · exact (congrArg Hart.mcounteren hp).trans h.mcounteren

theorem realises_refused (h : Sim s r) (hk : Kept s o) (hr : o.refused = true) :
    Realises s (o.dutIn s) (some (.trap .illegalInst o.inst.word o.pc)) := by
  have ha := attached_dutIn (o := o) h.mip
  have hi := (isIllegal_dutIn hk h.mode).trans hr
  rw [Csr.attached, Bool.or_eq_false_iff, orR_eq_false, orR_eq_false] at ha
  have hx : Csr.ex s (o.dutIn s) = (o.dutIn s).excInfo.raise .illegalInst o.inst.word := if_pos hi
  have he : (Csr.ex s (o.dutIn s)).exception = fun k => decide (k = .illegalInst) := by
    funext k
    rw [hx]
    by_cases hki : k = .illegalInst
    · simp [ExceptionInfo.raise, hki]
    · simp [ExceptionInfo.raise, hki, ha.1 k]
  refine ⟨(trap_dutIn hk h.mode h.mip).trans hr, ?_, ?_, by decide, ?_, rfl, ?_⟩
  · rw [Csr.isInterrupt, hx, orR_eq_false]
    exact ha.2
  · rw [Csr.exceptionNO, he]
    decide
  · rw [hx]
    simp [ExceptionInfo.raise]
  · rintro c ⟨hw, -⟩
    have hl := Csr.not_illegalAccess_of_wen hw
    have hn : Csr.illegalAddr (o.dutIn s) = false := by
      rw [Csr.illegalAddr, o.dutIn_addr, CsrName.ofAddr_addr]
      rfl
    rw [Csr.isIllegal, hl, hn] at hi
    simp at hi

theorem agree_begun (h : Sim s r) : Agree s (o.begun r).priv.toState := by
  refine ⟨fun c hc => ?_, h.nextPriv.trans h.mode.symm⟩
  have hn : c ∉ [CsrName.cycle, .stap, .mip] := by
    revert hc
    cases c <;> decide
  rw [← h.reg c hn]
  revert hc
  cases c <;> first | exact fun _ => rfl | exact fun hc => absurd hc (by decide)

theorem held_trapped (p : Hart MmioMem) (cause : Cause) (tval : Word) (d : CsrName) :
    held (p.trapped cause tval) d =
      held { p with toState := trapEntry p.toState cause tval } d := by
  cases d <;> rfl

theorem held_refused (h : Sim s r) (hk : Kept s o) (hr : o.refused = true) {d : CsrName}
    (hd : d ∉ [CsrName.cycle, .stap, .mip]) :
    held (((o.begun r).fetched o.inst).trapped (.exc .illegalInst) (o.inst.setWidth 64)).priv d =
      (Csr.step s (o.dutIn s)).reg d := by
  have hre := realises_refused h hk hr
  refine (held_trapped (o.begun r).priv (.exc .illegalInst) (o.inst.setWidth 64) d).trans ?_
  rw [(begun_inv (o := o) h).priv.trapEntry_eq (.exc .illegalInst) (o.inst.setWidth 64)]
  by_cases hs : d ∈ sharedRegs
  · rw [← member_trap (agree_begun h) h.isolated hre hs]
    revert hs
    cases d <;> first | exact fun _ => rfl | exact fun hc => absurd hc (by decide)
  · have hd' : d ∉ [CsrName.mip, .mstatus, .mepc, .mcause, .mtval] := by
      revert hs hd
      cases d <;> decide
    simp only [List.mem_cons, List.not_mem_nil, or_false, not_or] at hd
    have hkeep : (Csr.step s (o.dutIn s)).reg d = s.reg d :=
      (Csr.nextReg_of_ne hd').trans (Csr.csrRegs_of_not_stored (hre.2.2.2.2.2.2 d) hd.1)
    rw [hkeep, ← held_begun (o := o) h hd.1 hd.2.1]
    revert hs
    cases d <;> first | exact fun _ => rfl | exact fun hc => absurd (by decide) hc

theorem sim_refused (h : Sim s r) (hk : Kept s o) (hr : o.refused = true) :
    ∃ r', o.refStep testConfig r = .ok (r', o.dutValue s) ∧ Sim (Csr.step s (o.dutIn s)) r' := by
  have hb := begun_inv (o := o) h
  obtain ⟨h1, h2, h3, h4, h5, h6⟩ := hb.priv.trapped (.exc .illegalInst) (o.inst.setWidth 64)
  have hexc : State.exception o.inst ((o.begun r).fetched o.inst).illegal = _ :=
    State.exception_illegal ⟨hb.priv, hb.curNeedTrap⟩
  have hentry := hb.priv.trapEntry_eq (.exc .illegalInst) (o.inst.setWidth 64)
  refine ⟨((o.begun r).fetched o.inst).trapped (.exc .illegalInst) (o.inst.setWidth 64), ?_,
    ⟨⟨⟨h1, h2, h3, h4, h5, h6⟩, rfl⟩, Csr.isolated_step h.isolated, step_mode h.mode,
    ?_, fun d hd => held_refused h hk hr hd, step_mip h.mip, ?_, h.mcounteren⟩⟩
  · rw [refStep_eq h, decodeExec_refused h hr, dutValue_eq hk h.mode h.mip, hr]
    change (do return (← State.exception o.inst ((o.begun r).fetched o.inst).illegal, _)) = _
    rw [hexc]
    rfl
  · change (trapEntry (o.begun r).priv.toState _ _).nextPriv = Priv.m
    rw [hentry]
    rfl
  · change sampleIp (trapEntry (o.begun r).priv.toState _ _).ip {} = 0
    rw [hentry]
    change sampleIp (sampleIp r.priv.ip {}) {} = 0
    rw [h.ip]
    decide

theorem sim_op (h : Sim s r) (hk : Kept s o) :
    ∃ r', o.refStep testConfig r = .ok (r', o.dutValue s) ∧ Sim (Csr.step s (o.dutIn s)) r' := by
  cases hr : o.refused with
  | false => exact sim_kept h hk hr
  | true => exact sim_refused h hk hr

theorem sim_empty (h : Sim s r) {i : Csr.In} (hv : i.info.valid = false)
    (hl : i.interruptInfo = {}) : Sim (Csr.step s i) r := by
  have hiso : Csr.Isolated (Csr.step s i) := Csr.isolated_step h.isolated
  rw [Csr.step_of_not_valid hv, hl] at hiso ⊢
  refine ⟨h.inv, hiso, h.mode, h.nextPriv, fun c hc => ?_, ?_, h.ip, h.mcounteren⟩
  · rw [h.reg c hc, Csr.idle_reg fun he => hc (by rw [he]; decide)]
  · rw [Csr.idle_reg (by decide), h.mip]

end Step

section Run

variable {slots : ℕ → Slot}

theorem sim_init (image : Bytes.Memory 64) (s₀ : State MmioMem) :
    Sim Csr.init (Test.core testConfig image s₀) where
  inv := (State.Reachable.jump (.new _) _ : State.Reachable testConfig _).inv
  isolated := Csr.isolated_init
  mode := rfl
  nextPriv := rfl
  reg c hc := by
    have hs := (RvPriv.sim_init s₀.priv.toState).reg .mstatus (by decide)
    have hm : held (Test.core testConfig image s₀).priv .misa = Csr.init.reg .misa := by
      change 2#2 ++ 0#36 ++ (rvExt 'i' ||| rvExt 'm' ||| rvExt 'u').setWidth 26 =
        0x8000000000101100#64
      decide
    revert hc
    cases c <;> first | exact fun _ => rfl | exact fun _ => hs | exact fun _ => hm
  mip := rfl
  ip := by
    change sampleIp 0 {} = 0
    decide
  mcounteren := rfl

theorem sim_run (image : Bytes.Memory 64) (s₀ : State MmioMem) {t : ℕ}
    (hk : ∀ u < t, ∀ o, slots u = .op o → Kept (dutRun slots u) o) :
    ∃ r, refRun testConfig (Test.core testConfig image s₀) slots t = .ok r ∧
      Sim (dutRun slots t) r := by
  induction t with
  | zero => exact ⟨_, rfl, sim_init image s₀⟩
  | succ t ih =>
    obtain ⟨r, hr, hs⟩ := ih fun u hu => hk u (by omega)
    rw [refRun, hr, dutRun]
    cases ho : slots t with
    | empty i hv hl => exact ⟨r, rfl, sim_empty hs hv hl⟩
    | op o =>
      obtain ⟨r', hr', hs'⟩ := sim_op hs (hk t (by omega) o ho)
      refine ⟨r', ?_, hs'⟩
      change (do return (← o.refStep testConfig r).1) = _
      rw [hr']
      rfl

/-- **The CSR unit and the reference model read the same values** in every run whose instructions
ask for no bit that only one side implements and name no zero register beside `x0` to read a
read-only CSR. -/
theorem csr_values_agree (image : Bytes.Memory 64) (s₀ : State MmioMem) (slots : ℕ → Slot) (t : ℕ)
    (hk : ∀ u ≤ t, ∀ o, slots u = .op o → Kept (dutRun slots u) o) (o : Op)
    (ho : slots t = .op o) :
    ∃ r r' v, refRun testConfig (Test.core testConfig image s₀) slots t = .ok r ∧
      o.refStep testConfig r = .ok (r', v) ∧ v = o.dutValue (dutRun slots t) := by
  obtain ⟨r, hr, hs⟩ := sim_run image s₀ fun u hu => hk u hu.le
  obtain ⟨r', hr', -⟩ := sim_op hs (hk t le_rfl o ho)
  exact ⟨r, r', _, hr, hr', rfl⟩

/-- A CSR instruction at the reset address with zero registers. -/
def Op.ofWord (inst : RvInstr) (csr : CsrName) (ho : inst.opcode = Opcode.system)
    (hf : inst.funct3 ∈ [1#3, 2, 3, 5, 6, 7]) (hi : inst.csrIndex = csr.addr)
    (hc : csr ∉ [CsrName.cycle, .stap, .mtvec]) : Op :=
  ⟨inst, 0x80000000, fun _ => 0, csr, ho, hf, hi, hc, by decide⟩

/-- `csrrw x0, mstatus, x1` with ones in `x1`, and then `csrrs x2, mstatus, x0`. -/
def readStatus (t : ℕ) : Op :=
  if t = 0 then
    { Op.ofWord 0x30009073 .mstatus (by decide) (by decide) (by decide) (by decide) with
      regs := fun _ => BitVec.allOnes 64 }
  else Op.ofWord 0x30002173 .mstatus (by decide) (by decide) (by decide) (by decide)

/-- Both sides read back the bits that both have stored. -/
theorem csr_values_agree_mstatus : ∃ r r', refRun testConfig
    (Test.core testConfig (fun _ => 0) default) (fun t => .op (readStatus t)) 1 = .ok r ∧
      (readStatus 1).refStep testConfig r = .ok (r', some 0x200021888) := by
  have hk : ∀ u ≤ 1, ∀ o, Slot.op (readStatus u) = .op o →
      Kept (dutRun (fun t => .op (readStatus t)) u) o := by
    intro u hu o ho
    obtain rfl := Slot.op.inj ho
    rcases Nat.le_one_iff_eq_zero_or_eq_one.mp hu with rfl | rfl
    · exact ⟨nofun, nofun, nofun, by decide⟩
    · exact ⟨nofun, nofun, nofun, by decide⟩
  obtain ⟨r, r', v, hr, hv, he⟩ :=
    csr_values_agree (fun _ => 0) default (fun t => .op (readStatus t)) 1 hk _ rfl
  have hd : (readStatus 1).dutValue (dutRun (fun t => .op (readStatus t)) 1) =
      some 0x200021888 := by decide +kernel
  exact ⟨r, r', hr, by rw [hv, he, hd]⟩

/-- `csrrwi x0, mcounteren, 1`, and then `csrrs x1, mcounteren, x0`. -/
def readCounteren (t : ℕ) : Op :=
  if t = 0 then Op.ofWord 0x3060d073 .mcounteren (by decide) (by decide) (by decide) (by decide)
  else Op.ofWord 0x306020f3 .mcounteren (by decide) (by decide) (by decide) (by decide)

/-- The unit stores the bit and reads it back; the reference model ignores the write. -/
theorem not_csr_values_agree : ¬ ∀ (image : Bytes.Memory 64) (s₀ : State MmioMem)
    (slots : ℕ → Slot) (t : ℕ) (o : Op), slots t = .op o →
    ∃ r r' v, refRun testConfig (Test.core testConfig image s₀) slots t = .ok r ∧
      o.refStep testConfig r = .ok (r', v) ∧ v = o.dutValue (dutRun slots t) := by
  intro h
  obtain ⟨r, r', v, hr, hv, he⟩ := h (fun _ => 0) default (fun t => .op (readCounteren t)) 1 _ rfl
  have hd : (readCounteren 1).dutValue (dutRun (fun t => .op (readCounteren t)) 1) = some 1 := by
    decide +kernel
  have hz : (do
      let r ← refRun testConfig (Test.core testConfig (fun _ => 0) default)
        (fun t => .op (readCounteren t)) 1
      return (← (readCounteren 1).refStep testConfig r).2) = .ok (some 0) := rfl
  rw [hr] at hz
  change (do return (← (readCounteren 1).refStep testConfig r).2) = _ at hz
  rw [hv] at hz
  have hv0 : v = some 0 := Except.ok.inj hz
  exact absurd (hv0.symm.trans (he.trans hd)) (by decide)

end Run

end PuaCpu.CsrValue
