import PuaCpu.Decode.Operands
import PuaCpu.Privilege.Isolation

/-! # User mode

In user mode the only accessible CSR is `CYCLE`, so no CSR instruction changes
the machine state. `MRET` is not refused there: it redirects control through
`MEPC` unless an earlier unit has attached an exception or interrupt to it.
-/

namespace PuaCpu.Csr

/-- A valid instruction with no exception or interrupt attached, all lines low. -/
def instIn (inst : Word) : In where
  interruptInfo := {}
  excInfo := {}
  info := { Decoder.info inst with valid := true }
  srcInfo := {}
  pc := 0

variable {s : State} {i : In}

/-- Whether an earlier unit has attached an exception or interrupt. -/
def attached (i : In) : Bool := orR i.excInfo.exception || orR i.excInfo.interrupt

theorem not_write_of_isMret (h : isMret i = true) : write i = false := by
  simp only [isMret, Bool.and_eq_true, beq_iff_eq] at h
  simp [write, h.2, CSROpType.isCSROp, CSROpType.mret]

theorem ex_of_not_write (h : write i = false) : ex s i = i.excInfo := by
  simp [ex, isIllegal, h]

theorem hasExc_of_not_write (h : write i = false) : hasExc s i = attached i := by
  simp [hasExc, isException, isInterrupt, ex_of_not_write h, attached]

theorem wen_of_not_write (h : write i = false) : wen s i = false := by
  simp [wen, h]

theorem csrRegs_of_user (hu : s.mode = Priv.u) {c : CsrName} (hc : c ≠ .cycle) :
    csrRegs s i c = s.reg c := by
  refine csrRegs_of_not_stored ?_ hc
  rintro ⟨hw, ha⟩
  have hl := level_le_mode hw
  rw [ha, hu] at hl
  exact not_level_le_user hc hl

/-- What user code must not do without a trap. -/
def UserSafe (s : State) (i : In) : Prop :=
  trap s i = true ∨
    ((∀ c, c ≠ .cycle → c ≠ .mip → (step s i).reg c = s.reg c) ∧
      (∀ j, j ∉ [3, 7, 11] → ((step s i).reg .mip).getLsbD j = (s.reg .mip).getLsbD j) ∧
      ¬ (flush s i = true ∧ target s i = s.reg .mepc))

theorem not_userSafe_of_mret (ht : trap s i = false) (hr : mret s i = true) : ¬ UserSafe s i := by
  rintro (h | ⟨-, -, h⟩)
  · exact absurd (ht.symm.trans h) (by decide)
  · exact h ⟨by simp [flush, hr], by simp [target, ht, hr]⟩

theorem userSafe_of_not_mret (hu : s.mode = Priv.u) (hr : mret s i = false) : UserSafe s i := by
  cases ht : trap s i
  · refine .inr ⟨fun c hc hm => ?_, fun j hj => getLsbD_mipUpdate_of_ne _ _ hj,
      by simp [flush, ht, hr]⟩
    exact (nextReg_of_quiet ht hr hm).trans (csrRegs_of_user hu hc)
  · exact .inl ht

/-- A valid user-mode instruction traps or leaves the machine state alone exactly when it is
not an `MRET` that reaches the unit without an exception or interrupt. -/
theorem user_mode_safe (ins : ℕ → In) (t : ℕ) (hu : (machine.run ins t).mode = Priv.u)
    (hv : (ins t).info.valid = true) :
    UserSafe (machine.run ins t) (ins t) ↔ (isMret (ins t) = true → attached (ins t) = true) := by
  set s := machine.run ins t
  constructor
  · intro h hm
    by_contra ha
    have ht : trap s (ins t) = false := by
      simp [trap, hasExc_of_not_write (not_write_of_isMret hm), ha]
    exact not_userSafe_of_mret ht (by simp [mret, ht, hm, hv]) h
  · intro h
    apply userSafe_of_not_mret hu
    cases hm : isMret (ins t)
    · simp [mret, hm]
    · have ha := h hm
      simp [mret, trap, hasExc_of_not_write (not_write_of_isMret hm), ha, hv]

/-- `MRET` out of reset, then `ADDI x0, x0, 0` in user mode. -/
theorem user_mode_safe_nop :
    UserSafe (machine.run (fun t => instIn (if t = 0 then 0x30200073 else 0x13)) 1)
      (instIn 0x13) := by
  have h := user_mode_safe (fun t => instIn (if t = 0 then 0x30200073 else 0x13)) 1
    (by decide +kernel) (by decide +kernel)
  exact h.mpr (fun hm => absurd hm (by decide +kernel))

/-- `MRET` twice: the second one runs in user mode and still returns through `MEPC`. -/
theorem user_mode_mret :
    (machine.run (fun _ => instIn 0x30200073) 1).mode = Priv.u ∧
    (instIn 0x30200073).info.valid = true ∧
    ¬ UserSafe (machine.run (fun _ => instIn 0x30200073) 1) (instIn 0x30200073) :=
  ⟨by decide +kernel, by decide +kernel,
    not_userSafe_of_mret (by decide +kernel) (by decide +kernel)⟩

end PuaCpu.Csr
