import PuaCpu.Reference.Agreement

/-! # Trap vectors

The entry address of a trap is computed in the CSR unit and again in
`raise_trap`. In vectored mode the unit adds the offset of the cause to
interrupts only; the reference model adds it to every cause.
-/

namespace PuaCpu.RvPriv

variable {s : Csr.State} {i : Csr.In} {r r' : State} {cause : Cause} {tval : Word}

/-- The entry address of a trap: the base of the vector register, with an offset of four bytes
for each cause number if the trap is an interrupt and the mode is vectored. -/
def entryAddr (mtvec : Word) (cause : Cause) : Word :=
  (mtvec >>> 2) <<< 2 +
    if mtvec.extractLsb' 0 2 = 1#2 ∧ cause.interrupt = 1#1 then 4 * cause.cause.setWidth 64 else 0

theorem base_eq (mtvec : Word) :
    (mtvec >>> 2) <<< 2 = (mtvec.extractLsb' 2 62).setWidth 64 <<< 2 := by
  have h : mtvec >>> 2 = (mtvec.extractLsb' 2 62).setWidth 64 := by
    apply BitVec.eq_of_getLsbD_eq
    intro j hj
    by_cases hb : j < 62
    · simp [hj, hb]
    · simp [hb, show 64 ≤ 2 + j by omega]
  rw [h]

theorem toWord_interrupt (c : Cause) : c.toWord.getLsbD 63 = c.interrupt.getLsbD 0 := by
  rw [Cause.toWord, BitVec.getLsbD_append, if_neg (by omega)]

theorem toWord_cause (c : Cause) : c.toWord.setWidth 63 = c.cause := by
  rw [Cause.toWord, BitVec.setWidth_append]
  simp

section Unit

theorem trapMcause_interrupt : (Csr.trapMcause s i).getLsbD 63 = Csr.isInterrupt s i := by
  rw [Csr.trapMcause]
  cases Csr.isInterrupt s i <;> simp [zeroExtend]

theorem trapMcause_cause : (Csr.trapMcause s i).setWidth 63 = (Csr.causeNO s i).setWidth 63 := by
  apply BitVec.eq_of_getLsbD_eq
  intro j hj
  have hs : (1#64 <<< 63).getLsbD j = false := by
    rw [BitVec.getLsbD_shiftLeft, decide_eq_true hj]
    simp
  rw [Csr.trapMcause, BitVec.getLsbD_setWidth, BitVec.getLsbD_setWidth]
  cases Csr.isInterrupt s i
  · simp [zeroExtend, show j < 64 by omega]
  · rw [if_pos rfl, BitVec.getLsbD_or, hs]
    simp [zeroExtend, show j < 64 by omega]

theorem interrupt_of_recorded (hc : cause.toWord = Csr.trapMcause s i) :
    cause.interrupt = 1#1 ↔ Csr.isInterrupt s i = true := by
  rw [← trapMcause_interrupt, ← hc, toWord_interrupt]
  generalize cause.interrupt = b
  revert b
  decide

theorem cause_of_recorded (hc : cause.toWord = Csr.trapMcause s i) :
    cause.cause = (Csr.causeNO s i).setWidth 63 := by
  rw [← toWord_cause, hc, trapMcause_cause]

theorem target_eq_entryAddr (hv : (s.reg .mtvec).extractLsb' 0 2 ≤ 1#2)
    (ht : Csr.trap s i = true) (hc : cause.toWord = Csr.trapMcause s i) :
    Csr.target s i = entryAddr (s.reg .mtvec) cause := by
  have hmode : (s.reg .mtvec).getLsbD 0 = decide ((s.reg .mtvec).extractLsb' 0 2 = 1#2) := by
    have hb : (s.reg .mtvec).getLsbD 0 = ((s.reg .mtvec).extractLsb' 0 2).getLsbD 0 := by simp
    rw [hb]
    generalize (s.reg .mtvec).extractLsb' 0 2 = m at hv
    revert hv
    revert m
    decide
  have hoff : zeroExtend (Csr.causeNO s i ++ 0#2) 64 = 4 * cause.cause.setWidth 64 := by
    rw [cause_of_recorded hc]
    generalize Csr.causeNO s i = c
    revert c
    decide
  rw [Csr.target, if_pos ht, Csr.trapTarget, entryAddr, base_eq, base_shift, hmode, hoff]
  simp only [Bool.and_eq_true, decide_eq_true_eq, interrupt_of_recorded hc]

end Unit

section Reference

/-- A trap into machine mode goes where `tvec` points, in vectored mode for every cause. -/
theorem trapPc_eq (hr : raiseTrap r cause tval = some r') (hp : r'.nextPriv = Priv.m) :
    r'.trapPc = vector r.mtvec (r.mtvec.extractLsb' 0 2 != 0#2) cause.cause := by
  unfold raiseTrap at hr
  cases hd : trapToS { r with curNeedTrap := true } cause
  · simp only [hd, Bool.false_eq_true, if_false] at hr
    split_ifs at hr
    obtain rfl := Option.some_inj.mp hr
    rfl
  · simp only [hd, if_true] at hr
    split_ifs at hr
    obtain rfl := Option.some_inj.mp hr
    exact absurd hp (show Priv.s ≠ Priv.m by decide)

theorem trapPc_eq_entryAddr (hv : r.mtvec.extractLsb' 0 2 ≤ 1#2)
    (hr : raiseTrap r cause tval = some r') (hp : r'.nextPriv = Priv.m) :
    r'.trapPc = entryAddr r.mtvec cause ↔
      ¬(r.mtvec.extractLsb' 0 2 = 1#2 ∧ cause.interrupt = 0#1 ∧
        4 * cause.cause.setWidth 64 ≠ 0) := by
  have hmode : r.mtvec.extractLsb' 0 2 != 0#2 ↔ r.mtvec.extractLsb' 0 2 = 1#2 := by
    generalize r.mtvec.extractLsb' 0 2 = m at hv
    revert hv
    revert m
    decide
  have hint : cause.interrupt = 0#1 ↔ ¬cause.interrupt = 1#1 := by
    generalize cause.interrupt = b
    revert b
    decide
  rw [trapPc_eq hr hp, vector, entryAddr, base_eq, BitVec.add_right_inj, hint, BitVec.mul_comm 4]
  by_cases hm : r.mtvec.extractLsb' 0 2 = 1#2
  · by_cases hi : cause.interrupt = 1#1
    · simp [hm, hi]
    · simp [hm, hi]
  · simp [hm, mt hmode.mp hm]

end Reference

/-- **Where the two trap vectors agree**: everywhere but on synchronous exceptions in vectored mode
with a cause other than zero. -/
theorem trap_vectors_agree (hv : (s.reg .mtvec).extractLsb' 0 2 ≤ 1#2)
    (hm : r.mtvec = s.reg .mtvec) (ht : Csr.trap s i = true)
    (hc : cause.toWord = Csr.trapMcause s i) (hr : raiseTrap r cause tval = some r')
    (hp : r'.nextPriv = Priv.m) :
    (Csr.target s i = r'.trapPc ∧ Csr.target s i = entryAddr (s.reg .mtvec) cause ∧
        r'.trapPc = entryAddr (s.reg .mtvec) cause) ↔
      ¬((s.reg .mtvec).extractLsb' 0 2 = 1#2 ∧ cause.interrupt = 0#1 ∧ cause.cause ≠ 0) := by
  have htarget := target_eq_entryAddr hv ht hc
  have htrap := trapPc_eq_entryAddr (hm ▸ hv) hr hp
  have hzero : 4 * cause.cause.setWidth 64 = 0 ↔ cause.cause = 0 := by
    rw [cause_of_recorded hc]
    generalize Csr.causeNO s i = c
    revert c
    decide
  rw [hm, Ne, hzero] at htrap
  constructor
  · rintro ⟨-, -, h⟩
    exact htrap.mp h
  · intro h
    have he := htrap.mpr h
    exact ⟨htarget.trans he.symm, htarget, he⟩

/-- The vector register in vectored mode. -/
def vectored : Csr.State := { Csr.init with reg := Function.update CsrName.reset .mtvec 0x1001 }

/-- A timer interrupt on an `ADDI`. -/
def timerIn : Csr.In :=
  { Csr.instIn 0x13 with
    excInfo := { interrupt := fun k => decide (k.val = 7) } }

/-- A timer interrupt in vectored mode. -/
theorem trap_vectors_agree_timer :
    Csr.target vectored timerIn = 0x101c ∧
      (raiseTrap { reset testConfig default with mtvec := 0x1001 } ⟨7, 1⟩ 0).map State.trapPc =
        some 0x101c := by
  have h := (@trap_vectors_agree vectored timerIn { reset testConfig default with mtvec := 0x1001 }
    _ ⟨7, 1⟩ 0 (by decide) rfl (by decide +kernel) (by decide +kernel) rfl rfl).mpr (by decide)
  exact ⟨h.2.1, congrArg some h.2.2⟩

/-- An illegal instruction in vectored mode: the unit goes to the base, the reference model to the
third entry. -/
theorem not_trap_vectors_agree : ¬ ∀ (s : Csr.State) (i : Csr.In) (r r' : State) (cause : Cause)
    (tval : Word), (s.reg .mtvec).extractLsb' 0 2 ≤ 1#2 → r.mtvec = s.reg .mtvec →
    Csr.trap s i = true → cause.toWord = Csr.trapMcause s i →
    raiseTrap r cause tval = some r' → r'.nextPriv = Priv.m →
    Csr.target s i = r'.trapPc := by
  intro h
  have he := h vectored (dutIn (.trap .illegalInst 0 0x80000000))
    { reset testConfig default with mtvec := 0x1001 } _ ⟨2, 0⟩ 0 (by decide) rfl
    (by decide +kernel) (by decide +kernel) rfl rfl
  revert he
  decide +kernel

end PuaCpu.RvPriv
