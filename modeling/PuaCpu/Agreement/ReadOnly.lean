import PuaCpu.Agreement.Csr

/-! # Read-only CSRs

A set or clear instruction only reads if its register field is zero. The CSR unit
looks at the value of the operand instead, which for the immediate forms is the
register with the number of the immediate; the reference model looks at the field.
-/

namespace PuaCpu.CsrValue

open RvCore RvPriv

/-- Whether a CSR instruction asks for a write: `CSRRW` and `CSRRWI` always do, the others with a
register field other than zero. -/
def AsksWrite (inst : RvInstr) : Prop := inst.funct3 = 1 ∨ inst.funct3 = 5 ∨ inst.rs1 ≠ 0

instance (inst : RvInstr) : Decidable (AsksWrite inst) :=
  inferInstanceAs (Decidable (_ ∨ _ ∨ _))

/-- A set or clear instruction that names a register with the value zero, and not `x0`. -/
structure NamesZero (inst : RvInstr) (regs : ARegFile) : Prop where
  form : inst.funct3 ∉ [1#3, 5]
  field : inst.rs1 ≠ 0
  value : regs.read inst.rs1 = 0

/-- A CSR instruction on a read-only CSR of the map. -/
structure ReadOnly (inst : RvInstr) (c : CsrName) : Prop where
  opcode : inst.opcode = Opcode.system
  funct3 : inst.funct3 ∈ [1#3, 2, 3, 5, 6, 7]
  index : inst.csrIndex = c.addr
  readOnly : c.addr.extractLsb' 10 2 = 3#2

variable {inst : RvInstr} {c : CsrName} {regs : ARegFile} {pc : Word}

section Unit

variable {s : Csr.State} {l : ExtInterrupt}

/-- What the CSR unit sees of an instruction that decode has issued. -/
def issuedIn (s : Csr.State) (regs : ARegFile) (pc : Word) (inst : RvInstr) (l : ExtInterrupt) :
    Csr.In :=
  Fu.csrIn (issue regs s.mode pc inst) l

theorem issuedIn_op (h : ReadOnly inst c) :
    (issuedIn s regs pc inst l).info.op = inst.funct3.setWidth 5 :=
  congrArg DecodeEntry.fuOpType (lookup_csr h.opcode h.funct3)

theorem issuedIn_src1Data (h : ReadOnly inst c) :
    (issuedIn s regs pc inst l).srcInfo.src1Data = regs.read inst.rs1 :=
  @issue_src1Data_reg _ s.mode pc _ (by
    rw [lookup_csr h.opcode h.funct3]
    exact List.mem_cons_of_mem _ List.mem_cons_self)

theorem issuedIn_addr (h : ReadOnly inst c) :
    Csr.csrAddr (issuedIn s regs pc inst l) = c.addr := by
  rw [← h.index]
  exact inst.extract_word (by decide)

theorem write_issuedIn (h : ReadOnly inst c) : Csr.write (issuedIn s regs pc inst l) = true := by
  have hop : ∀ f ∈ [1#3, 2, 3, 5, 6, 7], f.setWidth 5 ∈ Csr.csrOps := by decide
  refine Csr.write_of_csrOps rfl ?_ (issuedIn_op h ▸ hop _ h.funct3)
  exact congrArg DecodeEntry.fuType (lookup_csr h.opcode h.funct3)

/-- The unit decides on the value of the operand. -/
theorem isIllegal_issuedIn (h : ReadOnly inst c) (hm : s.mode = Priv.m) :
    Csr.isIllegal s (issuedIn s regs pc inst l) = true ↔
      inst.funct3 ∈ [1#3, 5] ∨ regs.read inst.rs1 ≠ 0 := by
  have hl : ∀ l : BitVec 2, Priv.m.ult l = false := by decide
  have ha : Csr.illegalAddr (issuedIn s regs pc inst l) = false := by
    rw [Csr.illegalAddr, issuedIn_addr h, CsrName.ofAddr_addr]
    rfl
  rw [Csr.isIllegal, ha, Csr.illegalAccess, Csr.illegalWrite, Csr.illegalMode, write_issuedIn h,
    issuedIn_addr h, hm, hl, h.readOnly,
    onlyRead_eq h.funct3 (issuedIn_op h) (issuedIn_src1Data h)]
  simp

theorem illegalInst_issuedIn (h : ReadOnly inst c) :
    (Csr.ex s (issuedIn s regs pc inst l)).exception .illegalInst =
      Csr.isIllegal s (issuedIn s regs pc inst l) := by
  have hf : (issue regs s.mode pc inst).info.fusel = .csr :=
    congrArg DecodeEntry.fuType (lookup_csr h.opcode h.funct3)
  have hn : Decoder.instIllegal inst.word = false := by
    rw [Decoder.instIllegal, lookup_csr h.opcode h.funct3]
    rfl
  have hx : (issuedIn s regs pc inst l).excInfo = (issue regs s.mode pc inst).ex := by
    simp [issuedIn, Fu.csrIn, Bru.ex, Bru.hasExc, Bru.branch, Lsu.ex, Lsu.hasExc, hf]
  have hd : (issue regs s.mode pc inst).ex.exception .illegalInst = false := by
    change ExcCtrl.exception pc (issue regs s.mode pc inst).info (Decoder.instIllegal inst.word)
      s.mode .illegalInst = false
    rw [hn]
    rfl
  rw [Csr.ex]
  cases Csr.isIllegal s (issuedIn s regs pc inst l) with
  | false => rw [if_neg (by decide), hx, hd]
  | true => simp [ExceptionInfo.raise]

end Unit

section Reference

variable {δ : Type} {e : State δ} {cfg : Config}

theorem asksWrite_iff : AsksWrite inst ↔
    (inst.funct3 == 1#3 || inst.funct3 == 5#3 || inst.rs1 != 0) = true := by
  simp [AsksWrite, or_assoc]

theorem csrRead_readOnly (h : ReadOnly inst c) (p : Hart δ) :
    p.csrRead inst.csrIndex = some (held p c) := by
  rw [h.index]
  refine csrRead_addr p ?_
  rintro rfl
  exact absurd h.readOnly (by decide)

theorem csrOp_readOnly (h : ReadOnly inst c) (hm : e.priv.curPriv = Priv.m)
    (data : Word → Word) (w : Bool) :
    ∃ x, e.csrOp inst cfg w data = .ok x ∧ x.ri = w := by
  have hp : e.priv.csrOpPermissionCheck inst.csrIndex w = !w := by
    rw [Hart.csrOpPermissionCheck, if_neg (not_not_intro hm), h.index, h.readOnly]
    cases w <;> rfl
  rw [State.csrOp, hp, csrRead_readOnly h]
  cases w
  · exact ⟨_, rfl, rfl⟩
  · exact ⟨_, rfl, rfl⟩

/-- The reference model decides on the register field. -/
theorem decodeExec_readOnly [MmioDev δ] (h : ReadOnly inst c) (hm : e.priv.curPriv = Priv.m) :
    ∃ x, e.decodeExec inst cfg = .ok x ∧ (x.ri = true ↔ AsksWrite inst) := by
  rw [State.decodeExec_system h.opcode, asksWrite_iff]
  have hf := h.funct3
  simp only [List.mem_cons, List.not_mem_nil, or_false] at hf
  have hc (w : Bool) (data : Word → Word) :
      ∃ x, (e.fetched inst).csrOp inst cfg w data = .ok x ∧ (x.ri = true ↔ w = true) := by
    have hop : ∃ x, (e.fetched inst).csrOp inst cfg w data = .ok x ∧ x.ri = w :=
      csrOp_readOnly (e := e.fetched inst) h hm data w
    obtain ⟨x, hx, hr⟩ := hop
    exact ⟨x, hx, by rw [hr]⟩
  rcases hf with hf | hf | hf | hf | hf | hf <;> rw [State.execSystem, hf] <;> exact hc _ _

end Reference

/-- **When both sides follow the read-only rule**: unless a set or clear instruction names a
register that holds zero. -/
theorem read_only_rule {δ : Type} [MmioDev δ] (h : ReadOnly inst c) (s : Csr.State)
    (hs : s.mode = Priv.m) (e : State δ) (he : e.priv.curPriv = Priv.m) (cfg : Config)
    (regs : ARegFile) (pc : Word) (l : ExtInterrupt) :
    (((Csr.ex s (issuedIn s regs pc inst l)).exception .illegalInst = true ↔ AsksWrite inst) ∧
        ∃ x, e.decodeExec inst cfg = .ok x ∧ (x.ri = true ↔ AsksWrite inst)) ↔
      ¬ NamesZero inst regs := by
  have hd : ∃ x, e.decodeExec inst cfg = .ok x ∧ (x.ri = true ↔ AsksWrite inst) :=
    decodeExec_readOnly h he
  rw [illegalInst_issuedIn h, isIllegal_issuedIn h hs]
  constructor
  · rintro ⟨hiff, -⟩ ⟨hf, h0, hv⟩
    exact (hiff.mpr (.inr (.inr h0))).elim hf fun hn => hn hv
  · intro hn
    refine ⟨?_, hd⟩
    rw [AsksWrite, ← or_assoc]
    by_cases hf : inst.funct3 ∈ [1#3, 5]
    · have hf' : inst.funct3 = 1 ∨ inst.funct3 = 5 := by simpa using hf
      exact iff_of_true (.inl hf) (.inl hf')
    · have hf' : ¬(inst.funct3 = 1 ∨ inst.funct3 = 5) := by simpa using hf
      by_cases h0 : inst.rs1 = 0
      · have hv : regs.read inst.rs1 = 0 := h0 ▸ ARegFile.read_zero regs
        exact iff_of_false (fun hc => hc.elim hf fun hr => hr hv)
          fun hc => hc.elim hf' fun hr => hr h0
      · exact iff_of_true (.inr fun hv => hn ⟨hf, h0, hv⟩) (.inr h0)

/-- `csrrsi x1, mhartid, 0` is a read on both sides. -/
theorem read_only_rule_mhartid :
    (Csr.ex Csr.init (issuedIn Csr.init (fun _ => 0) 0x80000000 0xf14060f3 {})).exception
      .illegalInst = false := by
  have h := ((@read_only_rule 0xf14060f3 .mhartid MmioMem _
    ⟨by decide, by decide, by decide, by decide⟩ Csr.init rfl
    ((default : State MmioMem).new testConfig) rfl testConfig (fun _ => 0) 0x80000000 {}).mpr
    fun hn => hn.field rfl).1
  rw [← Bool.not_eq_true, h]
  decide

/-- `csrrsi x1, mhartid, 5` asks for a write. The unit takes it for a read if `x5` is zero. -/
theorem not_read_only_rule : ¬ ∀ (inst : RvInstr) (c : CsrName) (s : Csr.State) (regs : ARegFile)
    (pc : Word) (l : ExtInterrupt), ReadOnly inst c → s.mode = Priv.m →
    ((Csr.ex s (issuedIn s regs pc inst l)).exception .illegalInst = true ↔ AsksWrite inst) := by
  intro h
  have hr : ReadOnly 0xf142e0f3 .mhartid := ⟨by decide, by decide, by decide, by decide⟩
  have hi := h _ _ Csr.init (fun _ => 0) 0x80000000 {} hr rfl
  rw [illegalInst_issuedIn hr, isIllegal_issuedIn hr rfl] at hi
  exact absurd (hi.mpr (by decide)) (by decide)

end PuaCpu.CsrValue
