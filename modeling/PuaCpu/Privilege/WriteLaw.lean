import PuaCpu.Privilege.UserMode

/-! # The CSR write law

What a CSR instruction should leave in the addressed register, and for which
instructions the unit does that. The one exception is `MIP`, whose unconditional
update is connected after the instruction's write and overrides it.
-/

namespace PuaCpu.Csr

/-- The operations that access a CSR. -/
def csrOps : List FuOp :=
  [CSROpType.write, CSROpType.set, CSROpType.clear, CSROpType.writei, CSROpType.seti,
    CSROpType.cleari]

/-- The value an operation asks for. -/
def requested (op : FuOp) (src old : Word) : Word :=
  if op = CSROpType.write ∨ op = CSROpType.writei then src
  else if op = CSROpType.set ∨ op = CSROpType.seti then old ||| src
  else old &&& ~~~src

/-- For `MSTATUS` an unsupported `MPP` is replaced by the old one. -/
def legalised (c : CsrName) (old new : Word) : Word :=
  if c = .mstatus ∧ ¬(new.extractLsb' 11 2 = Priv.m ∨ new.extractLsb' 11 2 = Priv.u) then
    Bits.set new 11 (old.extractLsb' 11 2)
  else new

/-- The interrupt line that a pending bit stands for. -/
def lineOf (l : ExtInterrupt) (j : ℕ) : Bool :=
  (j == 11 && l.mei) || (j == 7 && l.mti) || (j == 3 && l.msi)

/-- The interrupt line that sets a pending bit. -/
def wiredTo (l : ExtInterrupt) (j : ℕ) : Bool :=
  (j == 11 && l.msi) || (j == 7 && l.mti) || (j == 3 && l.mei)

variable (s : State) (i : In) (c : CsrName)

/-- The value that the law asks of the addressed CSR, up to pending bits. -/
def lawValue : Word :=
  (legalised c (s.reg c) (requested i.info.op (srcValue i) (s.reg c)) &&& c.writeMask) |||
    (s.reg c &&& ~~~c.writeMask)

/-- The law: the masked value is stored, the old value is read, and nothing else changes. -/
def WriteLaw : Prop :=
  (if c = .mip then
      ∃ pending : Word, (∀ j, pending.getLsbD j = true → lineOf i.interruptInfo j = true) ∧
        (step s i).reg c = lawValue s i c ||| pending
    else (step s i).reg c = lawValue s i c) ∧
  defaultRead s i = s.reg c ∧
  ∀ d, d ≠ c → d ≠ .cycle → d ≠ .mip → (step s i).reg d = s.reg d

/-- A value for `MIP` that asks for no other pending bits than those the update leaves. -/
def PendingKept (old new : Word) (l : ExtInterrupt) : Prop :=
  ∀ j ∈ [3, 7, 11],
    (new.getLsbD j = true → old.getLsbD j = true ∨ wiredTo l j = true) ∧
    (old.getLsbD j = true ∨ wiredTo l j = true → new.getLsbD j = true ∨ lineOf l j = true)

variable {s i c}

theorem write_of_csrOps (hv : i.info.valid = true) (hf : i.info.fusel = .csr)
    (ho : i.info.op ∈ csrOps) : write i = true := by
  have h : ∀ op ∈ csrOps, CSROpType.isCSROp op = true := by decide
  simp [write, isCsr, hv, hf, h _ ho]

theorem writeData_of_csrOps (ho : i.info.op ∈ csrOps) (old : Word) :
    writeData i old = requested i.info.op (srcValue i) old := by
  simp only [csrOps, List.mem_cons, List.not_mem_nil, or_false] at ho
  rcases ho with h | h | h | h | h | h <;> rw [writeData, requested, h] <;> rfl

theorem wen_of_not_trap (hv : i.info.valid = true) (hw : write i = true)
    (ht : trap s i = false) : wen s i = true := by
  by_contra hn
  have hi : isIllegal s i = true := by
    simp only [wen, hw, Bool.true_and, Bool.not_eq_true', Bool.not_eq_false] at hn
    simp [isIllegal, hw, hn]
  have he : isException s i = true := by
    rw [isException, orR_eq_true]
    exact ⟨ExcNo.illegalInst, by simp [ex, hi, ExceptionInfo.raise]⟩
  simp [trap, hasExc, he, hv] at ht

theorem mret_of_write (hw : write i = true) : mret s i = false := by
  cases hm : isMret i
  · simp [mret, hm]
  · simp [not_write_of_isMret hm] at hw

theorem writeReg_eq_legalised (old : Word) (hc : c ≠ .mip) (ho : i.info.op ∈ csrOps) :
    writeReg i c old =
      (legalised c old (requested i.info.op (srcValue i) old) &&& c.writeMask) |||
        (old &&& ~~~c.writeMask) := by
  rw [writeReg_eq, writeData_of_csrOps ho, storeMask, legalised]
  split_ifs with h
  · -- the narrower mask keeps `MPP`; so does writing the old `MPP` back
    obtain ⟨rfl, -⟩ := h
    apply BitVec.eq_of_getLsbD_eq
    intro j hj
    have hm : ∀ j < 64, CsrName.mstatus.writeMask.getLsbD j =
        ((0x20088#64).getLsbD j || (j == 11 || j == 12)) := by decide
    change _ = (Bits.merge _ _ _).getLsbD j
    rw [Bits.getLsbD_merge, Bits.getLsbD_merge, hm j hj, Bits.getLsbD_set _ _ _ hj]
    cases h2 : (0x20088#64).getLsbD j
    · by_cases hp : j = 11 ∨ j = 12
      · rcases hp with rfl | rfl <;> simp
      · rw [not_or] at hp
        simp [hp.1, hp.2]
    · have hn : ∀ j < 64, (0x20088#64).getLsbD j = true → ¬(11 ≤ j ∧ j < 13) := by decide
      simp [hn j hj h2]
  · rfl

/-- The pending bits of the lines that are high, as `MIP` numbers them. -/
def pendingLines (l : ExtInterrupt) : Word :=
  mipUpdate 0 { mei := l.msi, mti := l.mti, msi := l.mei }

theorem getLsbD_pendingLines (l : ExtInterrupt) (j : ℕ) :
    (pendingLines l).getLsbD j = lineOf l j := by
  simp [pendingLines, getLsbD_mipUpdate, lineOf]

theorem getLsbD_mipUpdate_eq (mip : Word) (l : ExtInterrupt) (j : ℕ) :
    (mipUpdate mip l).getLsbD j = (mip.getLsbD j || wiredTo l j) := by
  simp [getLsbD_mipUpdate, wiredTo, Bool.or_assoc]

theorem getLsbD_mipMask : ∀ j < 64, CsrName.mip.writeMask.getLsbD j = decide (j ∈ [3, 7, 11]) := by
  decide

/-- The masked value of `MIP` is what the update leaves, up to lines that are high, exactly when
it asks for no other pending bits. -/
theorem mipUpdate_law_iff (old new : Word) (l : ExtInterrupt) :
    (∃ pending : Word, (∀ j, pending.getLsbD j = true → lineOf l j = true) ∧
      mipUpdate old l = Bits.merge CsrName.mip.writeMask old new ||| pending) ↔
      PendingKept old new l := by
  constructor
  · rintro ⟨p, hp, he⟩ j hj
    have hlt : j < 64 := by
      simp only [List.mem_cons, List.not_mem_nil, or_false] at hj; omega
    have hb := congrArg (·.getLsbD j) he
    simp only [getLsbD_mipUpdate_eq, BitVec.getLsbD_or, Bits.getLsbD_merge,
      getLsbD_mipMask j hlt, hj, decide_true, if_true] at hb
    have hpj := hp j
    grind
  · intro h
    refine ⟨mipUpdate old l &&& pendingLines l, fun j hj => ?_, ?_⟩
    · simp only [BitVec.getLsbD_and, getLsbD_pendingLines, Bool.and_eq_true] at hj
      exact hj.2
    · apply BitVec.eq_of_getLsbD_eq
      intro j hlt
      simp only [getLsbD_mipUpdate_eq, BitVec.getLsbD_or, BitVec.getLsbD_and, Bits.getLsbD_merge,
        getLsbD_mipMask j hlt, getLsbD_pendingLines, decide_eq_true_eq]
      by_cases hj : j ∈ [3, 7, 11]
      · have hk := h j hj
        grind
      · simp only [hj, if_false]
        simp only [List.mem_cons, List.not_mem_nil, not_or, not_false_eq_true, and_true] at hj
        simp [wiredTo, lineOf, beq_eq_false_iff_ne.mpr hj.1, beq_eq_false_iff_ne.mpr hj.2.1,
          beq_eq_false_iff_ne.mpr hj.2.2]

theorem defaultRead_of_addr (ha : csrAddr i = c.addr) : defaultRead s i = s.reg c := by
  rw [defaultRead, ha, CsrName.ofAddr_addr]
  exact BitVec.and_allOnes

theorem writeLaw_frame (hw : wen s i = true) (ht : trap s i = false) (ha : csrAddr i = c.addr)
    {d : CsrName} (hd : d ≠ c) (hcy : d ≠ .cycle) (hm : d ≠ .mip) : (step s i).reg d = s.reg d := by
  have hn : ¬(wen s i = true ∧ csrAddr i = d.addr) := by
    rintro ⟨-, h⟩
    exact hd (CsrName.addr_injective (h.symm.trans ha))
  exact (nextReg_of_quiet ht (mret_of_write (write_of_wen hw)) hm).trans
    (csrRegs_of_not_stored hn hcy)

theorem writeLaw_value (hw : wen s i = true) (ht : trap s i = false) (ha : csrAddr i = c.addr)
    (ho : i.info.op ∈ csrOps) (hc : c ≠ .mip) :
    (step s i).reg c = lawValue s i c :=
  (nextReg_of_quiet ht (mret_of_write (write_of_wen hw)) hc).trans
    ((csrRegs_of_wen hw ha).trans (writeReg_eq_legalised _ hc ho))

/-- **The write law holds exactly for the CSRs other than `MIP`, and for `MIP` when the written
bits are those that are pending already**, up to the lines of that cycle. -/
theorem csr_write_law (ins : ℕ → In) (t : ℕ) (c : CsrName)
    (hv : (ins t).info.valid = true) (hf : (ins t).info.fusel = .csr)
    (ho : (ins t).info.op ∈ csrOps) (ha : csrAddr (ins t) = c.addr)
    (ht : trap (machine.run ins t) (ins t) = false) :
    WriteLaw (machine.run ins t) (ins t) c ↔
      (c = .mip → PendingKept ((machine.run ins t).reg .mip)
        (requested (ins t).info.op (srcValue (ins t)) ((machine.run ins t).reg .mip))
        (ins t).interruptInfo) := by
  set s := machine.run ins t
  have hw : wen s (ins t) = true := wen_of_not_trap hv (write_of_csrOps hv hf ho) ht
  have hframe : ∀ d, d ≠ c → d ≠ .cycle → d ≠ .mip → (step s (ins t)).reg d = s.reg d :=
    fun d hd hcy hm => writeLaw_frame hw ht ha hd hcy hm
  rw [WriteLaw, and_iff_left ⟨defaultRead_of_addr ha, hframe⟩]
  by_cases hc : c = .mip
  · subst hc
    rw [if_pos rfl, imp_iff_right rfl]
    exact mipUpdate_law_iff _ _ _
  · simp only [hc, if_false, false_imp_iff, iff_true]
    exact writeLaw_value hw ht ha ho hc

/-- `CSRRWI MSCRATCH, 5` out of reset. -/
theorem csr_write_law_mscratch : WriteLaw init (instIn 0x3402d073) .mscratch := by
  have h := csr_write_law (fun _ => instIn 0x3402d073) 0 .mscratch (by decide +kernel)
    (by decide +kernel) (by decide +kernel) (by decide +kernel) (by decide +kernel)
  exact h.mpr (fun hc => absurd hc (by decide))

/-- A timer interrupt becomes pending, and then `CSRRWI MIP, 0` with every line low. -/
def clearMip (t : ℕ) : In :=
  if t = 0 then { instIn 0x13 with interruptInfo := { mti := true } } else instIn 0x34405073

/-- The pending bit that software clears in `MIP` reads back as 1. -/
theorem csr_write_mip_lost :
    (clearMip 1).info.valid = true ∧ (clearMip 1).info.fusel = .csr ∧
    (clearMip 1).info.op ∈ csrOps ∧ csrAddr (clearMip 1) = CsrName.mip.addr ∧
    trap (machine.run clearMip 1) (clearMip 1) = false ∧
    (machine.run clearMip 2).reg .mip = 0x80 ∧
    ¬ WriteLaw (machine.run clearMip 1) (clearMip 1) .mip := by
  refine ⟨by decide +kernel, by decide +kernel, by decide +kernel, by decide +kernel,
    by decide +kernel, by decide +kernel, ?_⟩
  rintro ⟨⟨p, hp, he⟩, -, -⟩
  have h7 := congrArg (·.getLsbD 7) he
  have hl : p.getLsbD 7 = false := by
    by_contra h
    exact absurd (hp 7 (by simpa using h)) (by decide +kernel)
  rw [BitVec.getLsbD_or, hl] at h7
  exact absurd h7 (by decide +kernel)

end PuaCpu.Csr
