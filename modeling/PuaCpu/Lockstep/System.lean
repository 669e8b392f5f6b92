import PuaCpu.Agreement.Legality
import PuaCpu.Lockstep.Units

/-! # CSR instructions and returns

The unit that executes the system instructions and the switch of the reference
model, in machine mode: a CSR instruction reads and stores the same value where
both sides implement what it asks for, and `MRET` restores the same status.
-/

namespace PuaCpu.Lockstep

open RvCore RvPriv CsrValue

variable {imem : SramAddr → BitVec 32} {a : Sequential.State} {s e : RvCore.State MmioMem}
  {mem : Bytes.Memory 64} {inst : RvInstr} {csr : CsrName} {regs : ARegFile}

section Instruction

/-- The operand of a CSR instruction. -/
def csrSource (inst : RvInstr) (regs : ARegFile) : Word :=
  if inst.funct3.getLsbD 2 then State.zimm inst else regs.read inst.rs1

/-- The value that it asks for. -/
def csrRequest (inst : RvInstr) (regs : ARegFile) (old : Word) : Word :=
  Csr.requested (inst.funct3.setWidth 5) (csrSource inst regs) old

/-- Whether the reference model writes the CSR. -/
def csrWrites (inst : RvInstr) : Bool :=
  inst.funct3 == 1#3 || inst.funct3 == 5#3 || inst.rs1 != 0

/-- A CSR instruction that asks for nothing that only one side implements. -/
structure CsrShared (c : Csr.State) (regs : ARegFile) (inst : RvInstr) (csr : CsrName) : Prop where
  index : inst.csrIndex = csr.addr
  compared : csr ∉ [CsrName.cycle, .stap]
  mtvec : csr = .mtvec → csrWrites inst = true →
    (csrRequest inst regs (c.reg .mtvec)).extractLsb' 0 2 = 0#2
  mie : csr = .mie → csrRequest inst regs (c.reg .mie) &&& ~~~mIntMask = 0
  mcounteren : csr = .mcounteren →
    csrRequest inst regs (c.reg .mcounteren) &&& CsrName.mcounteren.writeMask = 0
  mip : csr = .mip → csrRequest inst regs (c.reg .mip) &&& 0x22 = 0
  readOnly : csr.addr.extractLsb' 10 2 = 3#2 → inst.funct3 ∉ [1#3, 5] → inst.rs1 ≠ 0 →
    regs.read inst.rs1 ≠ 0

instance (c : Csr.State) (regs : ARegFile) (inst : RvInstr) (csr : CsrName) :
    Decidable (CsrShared c regs inst csr) :=
  decidable_of_iff (inst.csrIndex = csr.addr ∧ csr ∉ [CsrName.cycle, .stap] ∧
    (csr = .mtvec → csrWrites inst = true →
      (csrRequest inst regs (c.reg .mtvec)).extractLsb' 0 2 = 0#2) ∧
    (csr = .mie → csrRequest inst regs (c.reg .mie) &&& ~~~mIntMask = 0) ∧
    (csr = .mcounteren →
      csrRequest inst regs (c.reg .mcounteren) &&& CsrName.mcounteren.writeMask = 0) ∧
    (csr = .mip → csrRequest inst regs (c.reg .mip) &&& 0x22 = 0) ∧
    (csr.addr.extractLsb' 10 2 = 3#2 → ¬[1#3, 5].contains inst.funct3 = true → inst.rs1 ≠ 0 →
      regs.read inst.rs1 ≠ 0))
    ⟨fun ⟨h1, h2, h3, h4, h5, h6, h7⟩ => ⟨h1, h2, h3, h4, h5, h6,
        fun hr hn => h7 hr (mt List.contains_iff_mem.mp hn)⟩,
      fun ⟨h1, h2, h3, h4, h5, h6, h7⟩ => ⟨h1, h2, h3, h4, h5, h6,
        fun hr hn => h7 hr (mt List.contains_iff_mem.mpr hn)⟩⟩

instance (c : Csr.State) (regs : ARegFile) (inst : RvInstr) :
    Decidable (∃ csr, CsrShared c regs inst csr) :=
  decidable_of_iff (∃ csr ∈ CsrName.ofAddr inst.csrIndex, CsrShared c regs inst csr)
    ⟨fun ⟨csr, _, h⟩ => ⟨csr, h⟩,
      fun ⟨csr, h⟩ => ⟨csr, by rw [h.index, CsrName.ofAddr_addr]; rfl, h⟩⟩

theorem execSystem_csr {δ : Type} {e : RvCore.State δ} (hf : inst.funct3 ∈ [1#3, 2, 3, 5, 6, 7])
    (hg : e.gpr = regs.read) : e.execSystem inst testConfig =
      e.csrOp inst testConfig (csrWrites inst) (csrRequest inst regs) := by
  have hr {f : BitVec 3} (h : inst.funct3 = f) : csrRequest inst regs =
      Csr.requested (f.setWidth 5)
        (if f.getLsbD 2 then State.zimm inst else e.gpr inst.rs1) := by
    funext old
    rw [csrRequest, csrSource, h, hg]
  have hw {f : BitVec 3} (h : inst.funct3 = f) :
      csrWrites inst = (f == 1#3 || f == 5#3 || inst.rs1 != 0) := by
    rw [csrWrites, h]
  simp only [List.mem_cons, List.not_mem_nil, or_false] at hf
  rcases hf with h | h | h | h | h | h <;> rw [hr h, hw h, State.execSystem, h] <;> rfl

theorem csrRequest_of_not_writes (hf : inst.funct3 ∈ [1#3, 2, 3, 5, 6, 7])
    (hw : csrWrites inst = false) (old : Word) : csrRequest inst regs old = old := by
  simp only [csrWrites, Bool.or_eq_false_iff, beq_eq_false_iff_ne, bne_eq_false_iff_eq] at hw
  obtain ⟨⟨h1, h5⟩, h0⟩ := hw
  have hsrc : csrSource inst regs = 0 := by
    rw [csrSource, State.zimm, h0]
    simp [ARegFile.read]
  have hop : ∀ f ∈ [1#3, 2, 3, 5, 6, 7], f ≠ 1#3 → f ≠ 5#3 →
      ¬ (f.setWidth 5 = CSROpType.write ∨ f.setWidth 5 = CSROpType.writei) := by decide
  rw [csrRequest, Csr.requested, if_neg (hop _ hf h1 h5), hsrc]
  split_ifs
  · exact BitVec.or_zero
  · exact BitVec.and_allOnes

end Instruction

section Unit

variable (hc : Fetched imem a mem inst) (hf : inst.funct3 ∈ [1#3, 2, 3, 5, 6, 7])
  (ho : inst.opcode = Opcode.system)

include hc hf ho

theorem decoded_csr : Decoded imem a inst ⟨.i, .csr, inst.funct3.setWidth 5⟩ :=
  hc.decoded (lookup_csr ho hf)

theorem csrIn_op : (csrIn imem a).info.op = inst.funct3.setWidth 5 := (decoded_csr hc hf ho).op

theorem csrIn_write : Csr.write (csrIn imem a) = true := by
  have h : ∀ f ∈ [1#3, 2, 3, 5, 6, 7], f.setWidth 5 ∈ Csr.csrOps := by decide
  exact Csr.write_of_csrOps rfl (decoded_csr hc hf ho).fusel (csrIn_op hc hf ho ▸ h _ hf)

omit hf ho in
theorem csrIn_addr (hi : inst.csrIndex = csr.addr) : Csr.csrAddr (csrIn imem a) = csr.addr := by
  change (Sequential.decode imem a).info.inst.extractLsb' 20 12 = _
  rw [decode_eq hc.core, ← hi]
  exact inst.extract_word (by decide)

theorem csrIn_src1Data : (csrIn imem a).srcInfo.src1Data = a.regs.read inst.rs1 := by
  change (Sequential.decode imem a).srcInfo.src1Data = _
  rw [decode_eq hc.core]
  exact issue_src1Data_reg
    (by rw [lookup_csr ho hf]; exact List.mem_cons_of_mem _ List.mem_cons_self)

theorem csrIn_requested (old : Word) : Csr.requested (csrIn imem a).info.op
    (Csr.srcValue (csrIn imem a)) old = csrRequest inst a.regs old := by
  have hi : Csr.isImm (csrIn imem a) = inst.funct3.getLsbD 2 := by
    rw [Csr.isImm, csrIn_op hc hf ho, BitVec.getLsbD_setWidth]
    rfl
  have hz : Csr.zimm (csrIn imem a) = State.zimm inst := by
    change zeroExtend ((Sequential.decode imem a).info.inst.extractLsb' 15 5) 64 = _
    rw [decode_eq hc.core]
    exact congrArg (fun r : BitVec 5 => r.setWidth 64) inst.rs1_word
  rw [csrRequest, csrSource, csrIn_op hc hf ho, Csr.srcValue, hi, hz, csrIn_src1Data hc hf ho]

/-- The unit and the reference model agree on which instructions write a read-only CSR. -/
theorem onlyRead_csrIn (h : CsrShared a.csr a.regs inst csr)
    (hr : csr.addr.extractLsb' 10 2 = 3#2) :
    Csr.onlyRead (csrIn imem a) = !csrWrites inst := by
  rw [onlyRead_eq hf (csrIn_op hc hf ho) (csrIn_src1Data hc hf ho), csrWrites]
  by_cases h3 : inst.funct3 ∈ [1#3, 5]
  · simp only [List.mem_cons, List.not_mem_nil, or_false] at h3
    rcases h3 with h3 | h3 <;> simp [h3]
  · have hk := h.readOnly hr h3
    have hm := h3
    simp only [List.mem_cons, List.not_mem_nil, or_false, not_or] at h3
    have h1 : (inst.funct3 == 1#3) = false := beq_eq_false_iff_ne.mpr h3.1
    have h5 : (inst.funct3 == 5#3) = false := beq_eq_false_iff_ne.mpr h3.2
    by_cases h0 : inst.rs1 = 0#5
    · rw [h1, h5, h0, decide_eq_true ⟨hm, ARegFile.read_zero _⟩]
      rfl
    · have hv : a.regs.read inst.rs1 ≠ 0#64 := hk h0
      simp [h0, hv]

end Unit

/-- Whether a CSR instruction is illegal: in user mode every compared CSR is out of reach. -/
def csrRefused (c : Csr.State) (inst : RvInstr) (csr : CsrName) : Bool :=
  decide (c.mode = Priv.u) || (decide (csr.addr.extractLsb' 10 2 = 3#2) && csrWrites inst)

section Refused

variable (h : Agrees a s mem) (hf : inst.funct3 ∈ [1#3, 2, 3, 5, 6, 7])
  (hk : CsrShared a.csr a.regs inst csr)

include h hf hk

theorem isIllegal_csrIn (hc : Fetched imem a mem inst) (ho : inst.opcode = Opcode.system) :
    Csr.isIllegal a.csr (csrIn imem a) = csrRefused a.csr inst csr := by
  have hl : ∀ l : BitVec 2, Priv.m.ult l = false := by decide
  have hu : ∀ c : CsrName, c ∉ [CsrName.cycle, .stap] →
      Priv.u.ult (c.addr.extractLsb' 8 2) = true := by decide
  have ha : Csr.illegalAddr (csrIn imem a) = false := by
    rw [Csr.illegalAddr, csrIn_addr hc hk.index, CsrName.ofAddr_addr]
    rfl
  rw [Csr.isIllegal, ha, Csr.illegalAccess, Csr.illegalWrite, Csr.illegalMode,
    csrIn_write hc hf ho, csrIn_addr hc hk.index, csrRefused]
  rcases h.csr.isolated.mode_mem with hm | hm
  · simp [hm, hu csr hk.compared]
  · have hn : ¬Priv.m = Priv.u := by decide
    rw [hm, hl, decide_eq_false hn]
    by_cases hr : csr.addr.extractLsb' 10 2 = 3#2
    · simp [hr, onlyRead_csrIn hc hf ho hk hr]
    · simp [hr]

omit hf in
theorem permission_begun : (begun s).priv.csrOpPermissionCheck inst.csrIndex (csrWrites inst) =
    !csrRefused a.csr inst csr := by
  have hm : (begun s).priv.curPriv = a.csr.mode := h.csr.nextPriv
  rw [Hart.csrOpPermissionCheck, hm, hk.index, csrRefused]
  rcases h.csr.isolated.mode_mem with hm | hm
  · have hn : Priv.u ≠ Priv.m := by decide
    rw [hm, if_pos hn]
    rfl
  · have hn : ¬Priv.m = Priv.u := by decide
    rw [hm, if_neg (not_not_intro rfl), decide_eq_false hn]
    by_cases hr : csr.addr.extractLsb' 10 2 = 3#2
    · cases csrWrites inst <;> simp [hr]
    · simp [hr]

theorem decodeExec_refused (ho : inst.opcode = Opcode.system)
    (hr : csrRefused a.csr inst csr = true) :
    (begun s).decodeExec inst testConfig = .ok ((begun s).fetched inst).illegal := by
  have hg : ((begun s).fetched inst).gpr = a.regs.read := h.gpr
  rw [State.decodeExec_system ho, execSystem_csr hf hg, State.csrOp]
  exact if_pos (by rw [State.fetched, permission_begun h hk, hr]; rfl)

omit hf hk in
theorem held_begun {c : CsrName} (hn : c ∉ [CsrName.cycle, .stap]) :
    held (begun s).priv c = a.csr.reg c := by
  simp only [List.mem_cons, List.not_mem_nil, or_false, not_or] at hn
  by_cases hm : c = .mip
  · rw [hm, h.csr.mip]
    exact h.csr.ip
  · rw [← h.csr.reg c (by simp [hn, hm])]
    cases c <;> first | rfl | exact absurd rfl hn.1 | exact absurd rfl hm

end Refused

theorem csrWrite_shared (p : Hart MmioMem) (data : Word) (hn : csr ∉ [CsrName.cycle, .stap])
    (hr : csr.addr.extractLsb' 10 2 ≠ 3#2) (hv : csr = .mtvec → data.extractLsb' 0 2 = 0#2)
    (hie : csr = .mie → data &&& ~~~mIntMask = 0)
    (hen : csr = .mcounteren → data &&& CsrName.mcounteren.writeMask = 0)
    (h0 : p.mcounteren = 0) (hip : csr = .mip → data &&& 0x22 = 0) :
    ∃ t, RvPriv.csrWrite testConfig p.toState csr.addr data = some (t, true) ∧
      Stored p csr data t := by
  by_cases hm : csr = .mtvec
  · subst hm
    have hw : RvPriv.csrWrite testConfig p.toState CsrName.mtvec.addr data =
        some ({ p.toState with mtvec := data }, true) := by
      change (if data.extractLsb' 0 2 ≤ 1#2 then some ({ p.toState with mtvec := data }, true)
        else none) = _
      rw [hv rfl]
      rfl
    refine ⟨_, hw, fun _ => (Bits.merge_allOnes _ _).symm, fun d hd => ?_, id, rfl, rfl, rfl, rfl⟩
    cases d <;> first | rfl | exact absurd rfl hd
  · refine csrWrite_stored p data ?_ hr hie hen h0 hip
    simp only [List.mem_cons, List.not_mem_nil, or_false, not_or] at hn ⊢
    exact ⟨hn.1, hn.2, hm⟩

section Write

variable (h : Agrees a s mem) (hc : Fetched imem a mem inst) (hq : Quiet imem a)
  (hf : inst.funct3 ∈ [1#3, 2, 3, 5, 6, 7]) (ho : inst.opcode = Opcode.system)
  (hk : CsrShared a.csr a.regs inst csr)

include h hc hq hf ho hk

theorem not_csrRefused : csrRefused a.csr inst csr = false :=
  (isIllegal_csrIn h hf hk hc ho).symm.trans hq.isIllegal

omit h in
theorem csrReg_step (hm : csr ≠ .mip) : (Sequential.step imem a).csr.reg csr =
    Bits.merge (Csr.storeMask csr (csrRequest inst a.regs (a.csr.reg csr))) (a.csr.reg csr)
      (csrRequest inst a.regs (a.csr.reg csr)) := by
  have hwr := csrIn_write hc hf ho
  have hw : Csr.wen a.csr (csrIn imem a) = true := Csr.wen_of_not_trap rfl hwr hq
  have hops : ∀ f ∈ [1#3, 2, 3, 5, 6, 7], f.setWidth 5 ∈ Csr.csrOps := by decide
  have hop : (csrIn imem a).info.op ∈ Csr.csrOps := csrIn_op hc hf ho ▸ hops _ hf
  rw [← csrIn_requested hc hf ho, ← Csr.writeData_of_csrOps hop, ← Csr.writeReg_eq,
    ← Csr.csrRegs_of_wen hw (csrIn_addr hc hk.index), csrNext_eq]
  exact Csr.nextReg_of_quiet hq (Csr.mret_of_write hwr) hm

omit h in
theorem csrReg_step_frame {d : CsrName} (hd : d ≠ csr) (hcy : d ≠ .cycle) (hm : d ≠ .mip) :
    (Sequential.step imem a).csr.reg d = a.csr.reg d := by
  have hw : Csr.wen a.csr (csrIn imem a) = true :=
    Csr.wen_of_not_trap rfl (csrIn_write hc hf ho) hq
  rw [csrNext_eq]
  exact Csr.writeLaw_frame hw hq (csrIn_addr hc hk.index) hd hcy hm

theorem csrAgrees_stored {t : RvPriv.State}
    (hs : Stored (begun s).priv csr (csrRequest inst a.regs (a.csr.reg csr)) t) :
    CsrAgrees (Sequential.step imem a).csr { (begun s).priv with toState := t } := by
  have hmode : (Sequential.step imem a).csr.mode = a.csr.mode := by
    change Csr.nextMode a.csr (csrIn imem a) = _
    rw [Csr.nextMode, hq, Csr.mret_of_write (csrIn_write hc hf ho)]
    rfl
  refine ⟨Csr.isolated_step h.csr.isolated, ?_, fun d hd => ?_, mip_step h.csr.mip, ?_,
    h.csr.mcounteren, ?_⟩
  · exact hs.nextPriv.trans (h.csr.nextPriv.trans hmode.symm)
  · simp only [List.mem_cons, List.not_mem_nil, or_false, not_or] at hd
    have hb : held (begun s).priv d = a.csr.reg d := held_begun h (by simp [hd])
    by_cases hdc : d = csr
    · subst hdc
      rw [hs.value hd.2.2, hb, csrReg_step hc hq hf ho hk hd.2.2]
    · rw [hs.frame d hdc, hb, csrReg_step_frame hc hq hf ho hk hdc hd.1 hd.2.2]
  · have hbip : (begun s).priv.ip = 0 := h.csr.ip
    exact hs.ip (by rw [hbip]; decide)
  · by_cases hv : csr = .mtvec
    · subst hv
      have hreg := csrReg_step hc hq hf ho hk (by decide)
      have hmask (data : Word) : Csr.storeMask .mtvec data = BitVec.allOnes 64 := rfl
      rw [hmask, Bits.merge_allOnes] at hreg
      rw [hreg]
      cases hw : csrWrites inst with
      | false => rw [csrRequest_of_not_writes hf hw, h.csr.direct]
      | true => exact hk.mtvec rfl hw
    · rw [csrReg_step_frame hc hq hf ho hk (Ne.symm hv) (by decide) (by decide)]
      exact h.csr.direct

theorem decodeExec_csr : ∃ t, (begun s).decodeExec inst testConfig = .ok
      (if inst.rd ≠ 0 then (((begun s).fetched inst).withPriv
          { (begun s).priv with toState := t }).setGpr inst.rd (a.csr.reg csr)
        else ((begun s).fetched inst).withPriv { (begun s).priv with toState := t }).done ∧
    Stored (begun s).priv csr (csrRequest inst a.regs (a.csr.reg csr)) t := by
  have hr := not_csrRefused h hc hq hf ho hk
  have hg : ((begun s).fetched inst).gpr = a.regs.read := h.gpr
  have hp : ((begun s).fetched inst).priv.csrOpPermissionCheck inst.csrIndex (csrWrites inst) =
      true := by
    rw [State.fetched, permission_begun h hk, hr]
    rfl
  have hheld := held_begun h hk.compared
  have hrd : ((begun s).fetched inst).priv.csrRead inst.csrIndex = some (a.csr.reg csr) := by
    have hn := hk.compared
    simp only [List.mem_cons, List.not_mem_nil, or_false, not_or] at hn
    rw [hk.index, State.fetched, csrRead_addr _ hn.2, hheld]
  rw [State.decodeExec_system ho, execSystem_csr hf hg, State.csrOp, hp, hrd]
  cases hw : csrWrites inst with
  | false =>
    refine ⟨(begun s).priv.toState, rfl, ?_⟩
    rw [csrRequest_of_not_writes hf hw, ← hheld]
    exact .self _ _
  | true =>
    have hro : csr.addr.extractLsb' 10 2 ≠ 3#2 := by
      intro hro
      rw [csrRefused, hro, hw] at hr
      simp at hr
    obtain ⟨t, ht, hs⟩ := csrWrite_shared (begun s).priv (csrRequest inst a.regs (a.csr.reg csr))
      hk.compared hro (fun hv => by rw [hv]; exact hk.mtvec hv hw)
      (fun he => by rw [he]; exact hk.mie he) (fun he => by rw [he]; exact hk.mcounteren he)
      h.csr.mcounteren (fun he => by rw [he]; exact hk.mip he)
    rw [← hk.index] at ht
    have hcw : ((begun s).fetched inst).priv.csrWrite testConfig inst.csrIndex
        (csrRequest inst a.regs (a.csr.reg csr)) =
          .ok ({ (begun s).priv with toState := t }, true) := by
      rw [Hart.csrWrite, State.fetched, ht]
    refine ⟨t, ?_, hs⟩
    simp only [Bool.not_true, Bool.false_eq_true, if_false, if_true, hcw]
    rfl

theorem steps_csr (ht : s.priv.mcycle < 2000000) (hv : State.isRvc inst = false) :
    Steps imem a s := by
  have hd := decoded_csr hc hf ho
  have hi : InstrType.isRegWen .i = true := by decide
  have hwen : (Sequential.decode imem a).info.regWen = true := hd.regWen.trans hi
  obtain ⟨t, hx, hs⟩ := decodeExec_csr h hc hq hf ho hk
  have hb : Bru.branch (Sequential.decode imem a).info (Sequential.decode imem a).srcInfo =
      false := by
    simp [Bru.branch, hd.fusel]
  have hmem : (Sequential.dataSram imem a).isWrite = false := not_isWrite (by simp [hd.fusel])
  have hres : (Sequential.execute imem a).rdInfo.wdata = a.csr.reg csr := by
    have hr : (Sequential.execute imem a).rdInfo = Fu.rdInfo a.csr (Sequential.decode imem a) {} :=
      if_neg (by change ¬(Sequential.decode imem a).info.fusel = _; simp [hd.fusel])
    rw [hr, Fu.rdInfo, hd.fusel]
    exact Csr.defaultRead_of_addr (csrIn_addr hc hk.index)
  have hnpc : a.pc + 4 = (Sequential.step imem a).pc := by
    rw [hq.pc_step_of_not_mret (Csr.mret_of_write (csrIn_write hc hf ho)), hb, low32_next hc.pc]
    rfl
  have hpc : t.curPc = a.pc := hs.curPc.trans h.pc
  have hnt : t.curNeedTrap = false := hs.curNeedTrap
  have hcy : t.mcycle = (begun s).priv.mcycle := hs.frame .cycle fun he =>
    hk.compared (by rw [← he]; decide)
  have hu : Cosim.dutUpdate (Sequential.execute imem a) =
      if inst.rd ≠ 0 then some (inst.rd, a.csr.reg csr) else none := by
    rw [hq.dutUpdate, hwen, hd.regWaddr, hres]
    simp
  -- the two ways in which the switch ends
  have hm {e : RvCore.State MmioMem} (he : e.priv = { (begun s).priv with toState := t })
      (hp : e.debugPc = (begun s).debugPc) (hdm : e.difftestMode = (begun s).difftestMode)
      (hu' : Cosim.refUpdate e = Cosim.dutUpdate (Sequential.execute imem a)) :
      Matches imem a (begun s) e (exitPc e false) mem := by
    refine ⟨hu', hp, hdm, ?_, by rw [he]; exact h.bus, holds_step h hmem, ?_, ?_⟩
    · rw [exitPc, he, hnt, State.pc, he, hpc]
      exact hnpc
    · rw [he]
      exact hcy
    · rw [he]
      exact csrAgrees_stored h hc hq hf ho hk hs
  by_cases hrd : inst.rd ≠ 0
  · rw [if_pos hrd] at hx hu
    exact steps_of_matches h hc ht hv hx (hm rfl rfl rfl (by rw [refUpdate_setGpr, hu, if_pos hrd]))
  · rw [if_neg hrd] at hx hu
    have hn : Cosim.refUpdate (((begun s).fetched inst).withPriv
        { (begun s).priv with toState := t }) = none := refUpdate_of_begun (s := s) rfl
    exact steps_of_matches h hc ht hv hx (hm rfl rfl rfl (by rw [hn, hu]))

end Write

section Priv

/-- A privileged instruction, by its `imm12`. -/
structure PrivWord (inst : RvInstr) (v : BitVec 12) : Prop where
  opcode : inst.opcode = Opcode.system
  funct7 : inst.funct7 = v.extractLsb' 5 7
  rs2 : inst.rs2 = v.extractLsb' 0 5
  rs1 : inst.rs1 = 0
  funct3 : inst.funct3 = 0
  rd : inst.rd = 0

instance (inst : RvInstr) (v : BitVec 12) : Decidable (PrivWord inst v) :=
  decidable_of_iff (inst.opcode = Opcode.system ∧ inst.funct7 = v.extractLsb' 5 7 ∧
    inst.rs2 = v.extractLsb' 0 5 ∧ inst.rs1 = 0 ∧ inst.funct3 = 0 ∧ inst.rd = 0)
    ⟨fun ⟨h1, h2, h3, h4, h5, h6⟩ => ⟨h1, h2, h3, h4, h5, h6⟩,
      fun ⟨h1, h2, h3, h4, h5, h6⟩ => ⟨h1, h2, h3, h4, h5, h6⟩⟩

theorem privWord_of_hits {v : BitVec 12} (h : BitPat.hits [BitPat.imm12 v, BitPat.rs1 0,
    BitPat.funct3 0, BitPat.rd 0, BitPat.opcode Opcode.system] inst.word = true) :
    PrivWord inst v := by
  have ho : inst.opcode = Opcode.system := by
    rw [← inst.opcode_word]
    simp only [BitPat.hits, List.all_cons, List.all_nil, Bool.and_eq_true, beq_iff_eq] at h
    exact h.2.2.2.2.1
  obtain ⟨hi, h1, h3, hd⟩ := (Decoder.hits_priv_iff ho v).mp h
  obtain ⟨h7, h2⟩ := (Legality.imm12_eq_iff v).mp hi
  exact ⟨ho, h7, h2, h1, h3, hd⟩

theorem decodeExec_priv {v : BitVec 12} (hp : PrivWord inst v) :
    (begun s).decodeExec inst testConfig =
      ((begun s).fetched inst).execPriv inst testConfig := by
  rw [State.decodeExec_system hp.opcode]
  exact if_pos hp.funct3

theorem decodeExec_wfi (hp : PrivWord inst 0x105) :
    (begun s).decodeExec inst testConfig = .ok ((begun s).fetched inst).done := by
  rw [decodeExec_priv hp, State.execPriv, hp.funct7, hp.rs2, hp.rs1, hp.rd]
  rfl

theorem decodeExec_mret (hp : PrivWord inst 0x302) (hm : s.priv.nextPriv = Priv.m) :
    (begun s).decodeExec inst testConfig = .ok (((begun s).fetched inst).withPriv
      { (begun s).priv with toState := mretM (begun s).priv.toState }).done := by
  have hr : (begun s).priv.mret =
      some { (begun s).priv with toState := mretM (begun s).priv.toState } := by
    have hc : (begun s).priv.curPriv = Priv.m := hm
    rw [Hart.mret, RvPriv.mret, hc]
    rfl
  have hx : ((begun s).fetched inst).execPriv inst testConfig =
      .ok (((begun s).fetched inst).orIllegal (begun s).priv.mret) := by
    rw [State.execPriv, hp.funct7, hp.rs2, hp.rs1, hp.rd]
    rfl
  rw [decodeExec_priv hp, hx, hr]
  rfl

end Priv

section Mret

variable (h : Agrees a s mem) (hc : Fetched imem a mem inst) (hq : Quiet imem a)
  (hd : Decoded imem a inst ⟨.s, .csr, CSROpType.mret⟩)

omit h hc in
include hq hd in
theorem mret_csrIn : Csr.mret a.csr (csrIn imem a) = true := by
  have hv : (csrIn imem a).info.valid = true := rfl
  have hf : (csrIn imem a).info.fusel = .csr := hd.fusel
  have hop : (csrIn imem a).info.op = CSROpType.mret := hd.op
  rw [Csr.mret, hq, Csr.isMret, Csr.isCsr, hf, hop, hv]
  rfl

include h hc hq hd

omit hc in
theorem csrAgrees_mret : CsrAgrees (Sequential.step imem a).csr
    { (begun s).priv with toState := mretM (begun s).priv.toState } := by
  have hr := mret_csrIn hq hd
  have hw : Csr.write (csrIn imem a) = false := by
    simp only [Csr.mret, Bool.and_eq_true] at hr
    exact Csr.not_write_of_isMret hr.1.2
  have hkeep {c : CsrName} (hmip : c ≠ .mip) (hcy : c ≠ .cycle) (hst : c ≠ .mstatus) :
      (Sequential.step imem a).csr.reg c = a.csr.reg c := by
    have hn : Csr.wen a.csr (csrIn imem a) = false := Csr.wen_of_not_write hw
    have hs : Csr.csrRegs a.csr (csrIn imem a) c = a.csr.reg c :=
      Csr.csrRegs_of_not_stored (by simp [hn]) hcy
    have hq' : Csr.trap a.csr (csrIn imem a) = false := hq
    rw [csrNext_eq]
    simp [Csr.step, Csr.nextReg, hq', hr, hmip, hst, hs]
  have hq' : Csr.trap a.csr (csrIn imem a) = false := hq
  have hst : (Sequential.step imem a).csr.reg .mstatus = Csr.mretMstatus a.csr := by
    rw [csrNext_eq]
    simp [Csr.step, Csr.nextReg_mstatus, hq', hr]
  have hmode : (Sequential.step imem a).csr.mode = (a.csr.reg .mstatus).extractLsb' 11 2 := by
    rw [csrNext_eq]
    simp [Csr.step, Csr.nextMode, hq', hr]
  have hs : (begun s).priv.status = a.csr.reg .mstatus := h.csr.reg .mstatus (by decide)
  refine ⟨Csr.isolated_step h.csr.isolated, ?_, fun d hd => ?_, mip_step h.csr.mip, ?_,
    h.csr.mcounteren, ?_⟩
  · rw [hmode, ← hs]
    exact extract_mpp_set _ _ (by decide)
  · simp only [List.mem_cons, List.not_mem_nil, or_false, not_or] at hd
    by_cases hdm : d = .mstatus
    · subst hdm
      rw [hst]
      exact mretStatus_eq hs
    · rw [hkeep hd.2.2 hd.1 hdm, ← held_begun (s := s) h (by simp [hd])]
      cases d <;> first | rfl | exact absurd rfl hdm
  · have hbip : (begun s).priv.ip = 0 := h.csr.ip
    change sampleIp (begun s).priv.ip {} = 0
    rw [hbip]
    decide
  · rw [hkeep (by decide) (by decide) (by decide), h.csr.direct]

theorem steps_mret (hp : PrivWord inst 0x302) (hm : a.csr.mode = Priv.m)
    (ht : s.priv.mcycle < 2000000) (hv : State.isRvc inst = false) : Steps imem a s := by
  have hx := decodeExec_mret hp (h.csr.nextPriv.trans hm)
  have hmem : (Sequential.dataSram imem a).isWrite = false := not_isWrite (by simp [hd.fusel])
  have hq' : Csr.trap a.csr (Fu.csrIn (Sequential.decode imem a) {}) = false := hq
  have hr : Csr.mret a.csr (Fu.csrIn (Sequential.decode imem a) {}) = true := mret_csrIn hq hd
  have hu : Cosim.refUpdate (((begun s).fetched inst).withPriv { (begun s).priv with
      toState := mretM (begun s).priv.toState }) = none := refUpdate_of_begun (s := s) rfl
  have hwen : (Sequential.decode imem a).info.regWen = false := by
    have hs : InstrType.isRegWen .s = false := by decide
    exact hd.regWen.trans hs
  refine steps_of_matches h hc ht hv hx ⟨?_, rfl, rfl, ?_, h.bus, holds_step h hmem, rfl,
    csrAgrees_mret h hq hd⟩
  · rw [hu, hq.dutUpdate, hwen]
    simp
  · change s.priv.mepc = if Fu.flush a.csr (Sequential.decode imem a) {} then
      Fu.target a.csr (Sequential.decode imem a) {} else _
    have he : s.priv.mepc = a.csr.reg .mepc := h.csr.reg .mepc (by decide)
    rw [Fu.flush, Fu.target, Csr.flush, Csr.target, hq', hr, he, Bool.false_or, Bool.or_true]
    rfl

end Mret

end PuaCpu.Lockstep
