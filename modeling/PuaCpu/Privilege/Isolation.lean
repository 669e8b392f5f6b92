import PuaCpu.Privilege.Status

/-! # Privilege isolation

`MRET` does not look at the current mode. That user code cannot reach machine
mode by it rests on an invariant of the status register: in user mode the
previous privilege is user mode as well.
-/

namespace PuaCpu.Csr

/-- The previous privilege. -/
def mpp (s : State) : Priv := (s.reg .mstatus).extractLsb' 11 2

/-- The status bits that the unit implements: `MIE`, `MPIE`, `MPP` and `MPRV`. -/
def statusBits : List ℕ := [3, 7, 11, 12, 17]

/-- The invariant of the mode and the status register. -/
structure Isolated (s : State) : Prop where
  mode_mem : s.mode = Priv.u ∨ s.mode = Priv.m
  mpp_mem : mpp s = Priv.u ∨ mpp s = Priv.m
  user : s.mode = Priv.u → mpp s = Priv.u
  frame : ∀ j < 64, j ∉ statusBits →
    (s.reg .mstatus).getLsbD j = (CsrName.reset .mstatus).getLsbD j

theorem isolated_init : Isolated init where
  mode_mem := .inr rfl
  mpp_mem := .inl rfl
  user h := absurd h (by decide)
  frame _ _ _ := rfl

variable {s : State} {i : In}

theorem trapMpp_of_isolated (h : Isolated s) : trapMpp s = s.mode := by
  rcases h.mode_mem with hm | hm <;> simp [trapMpp, hm]

theorem extract_mpp_trap : (trapMstatus s).extractLsb' 11 2 = trapMpp s := by
  rw [trapMstatus_eq, Bits.extract_set_disjoint _ _ (by omega) (by omega),
    Bits.extract_set_disjoint _ _ (by omega) (by omega), Bits.extract_set _ _ _ (by omega)]

theorem extract_mpp_mret : (mretMstatus s).extractLsb' 11 2 = Priv.u := by
  rw [mretMstatus_eq, Bits.extract_set_disjoint _ _ (by omega) (by omega),
    Bits.extract_set_disjoint _ _ (by omega) (by omega), Bits.extract_set _ _ _ (by omega)]

theorem extract_mpp_write (old : Word) :
    (writeReg i .mstatus old).extractLsb' 11 2 = old.extractLsb' 11 2 ∨
      (writeReg i .mstatus old).extractLsb' 11 2 = Priv.u ∨
      (writeReg i .mstatus old).extractLsb' 11 2 = Priv.m := by
  rw [writeReg_eq, storeMask]
  split_ifs with h
  · exact .inl (Bits.extract_merge_of_clear _ _ (by decide))
  · rw [Bits.extract_merge_of_set _ _ (by decide)]
    simp only [true_and, not_not] at h
    exact .inr h.symm

theorem getLsbD_trapMstatus {j : ℕ} (hj : j < 64) (h : j ∉ statusBits) :
    (trapMstatus s).getLsbD j = (s.reg .mstatus).getLsbD j := by
  simp only [statusBits, List.mem_cons, List.not_mem_nil, not_or] at h
  simp only [trapMstatus_eq, Bits.getLsbD_set _ _ _ hj]
  split_ifs <;> first | rfl | omega

theorem getLsbD_mretMstatus {j : ℕ} (hj : j < 64) (h : j ∉ statusBits) :
    (mretMstatus s).getLsbD j = (s.reg .mstatus).getLsbD j := by
  simp only [statusBits, List.mem_cons, List.not_mem_nil, not_or] at h
  simp only [mretMstatus_eq, Bits.getLsbD_set _ _ _ hj]
  split_ifs <;> first | rfl | omega

theorem getLsbD_storeMask_mstatus (data : Word) :
    ∀ j < 64, j ∉ statusBits → (storeMask .mstatus data).getLsbD j = false := by
  unfold storeMask
  split_ifs <;> decide

theorem getLsbD_writeReg_mstatus (old : Word) {j : ℕ} (hj : j < 64) (h : j ∉ statusBits) :
    (writeReg i .mstatus old).getLsbD j = old.getLsbD j := by
  rw [writeReg_eq, Bits.getLsbD_merge, getLsbD_storeMask_mstatus _ j hj h]
  rfl

theorem isolated_step_trap (h : Isolated s) (ht : trap s i = true) : Isolated (step s i) := by
  have hr : (step s i).reg .mstatus = trapMstatus s := by simp [step, nextReg_mstatus, ht]
  have hm : (step s i).mode = Priv.m := by simp [step, nextMode, ht]
  refine ⟨.inr hm, ?_, fun hu => absurd (hm.symm.trans hu) (by decide), fun j hj hb => ?_⟩
  · rw [mpp, hr, extract_mpp_trap, trapMpp_of_isolated h]
    exact h.mode_mem
  · rw [hr, getLsbD_trapMstatus hj hb]
    exact h.frame j hj hb

/-- `MRET` keeps the invariant: the mode takes `MPP`, and `MPP` becomes user mode. -/
theorem isolated_step_mret (h : Isolated s) (ht : trap s i = false) (hr : mret s i = true) :
    Isolated (step s i) := by
  have hs : (step s i).reg .mstatus = mretMstatus s := by
    simp [step, nextReg_mstatus, ht, hr]
  have hm : (step s i).mode = mpp s := by simp [step, nextMode, ht, hr, mpp]
  have hp : mpp (step s i) = Priv.u := by rw [mpp, hs, extract_mpp_mret]
  refine ⟨hm ▸ h.mpp_mem, .inl hp, fun _ => hp, fun j hj hb => ?_⟩
  rw [hs, getLsbD_mretMstatus hj hb]
  exact h.frame j hj hb

/-- A cycle without trap and return keeps the invariant: only machine mode writes `MSTATUS`. -/
theorem isolated_step_quiet (h : Isolated s) (ht : trap s i = false) (hr : mret s i = false) :
    Isolated (step s i) := by
  have hm : (step s i).mode = s.mode := by simp [step, nextMode, ht, hr]
  have hs : (step s i).reg .mstatus = csrRegs s i .mstatus := by
    simp [step, nextReg_mstatus, ht, hr]
  by_cases hw : wen s i = true ∧ csrAddr i = CsrName.mstatus.addr
  · obtain ⟨hw, ha⟩ := hw
    have hmode : s.mode = Priv.m := mode_of_wen hw ha (by decide) (by decide)
    rw [csrRegs_of_wen hw ha] at hs
    refine ⟨.inr (hm.trans hmode), ?_, fun hu => ?_, fun j hj hb => ?_⟩
    · rw [mpp, hs]
      rcases extract_mpp_write (i := i) (s.reg .mstatus) with hp | hp | hp
      · exact hp ▸ h.mpp_mem
      · exact .inl hp
      · exact .inr hp
    · exact absurd (hmode.symm.trans (hm.symm.trans hu)) (by decide)
    · rw [hs, getLsbD_writeReg_mstatus _ hj hb]
      exact h.frame j hj hb
  · have hk : csrRegs s i .mstatus = s.reg .mstatus := csrRegs_of_not_stored hw (by decide)
    have hp : mpp (step s i) = mpp s := by rw [mpp, hs, hk, mpp]
    exact ⟨hm ▸ h.mode_mem, hp ▸ h.mpp_mem, fun hu => hp ▸ h.user (hm ▸ hu), fun j hj hb => by
      rw [hs, hk]; exact h.frame j hj hb⟩

theorem isolated_step (h : Isolated s) : Isolated (step s i) := by
  cases ht : trap s i
  · cases hr : mret s i
    · exact isolated_step_quiet h ht hr
    · exact isolated_step_mret h ht hr
  · exact isolated_step_trap h ht

theorem isolated_of_reachable (h : machine.Reachable s) : Isolated s :=
  h.invariant isolated_init fun _ _ => isolated_step

theorem isolated_run (ins : ℕ → In) (t : ℕ) : Isolated (machine.run ins t) :=
  isolated_of_reachable (Clocked.reachable_run ins t)

theorem trap_of_mode (h : Isolated s) (hu : s.mode = Priv.u)
    (hm : (step s i).mode = Priv.m) : trap s i = true := by
  by_contra ht
  rw [Bool.not_eq_true] at ht
  cases hr : mret s i
  · simp [step, nextMode, ht, hr, hu, Priv.u, Priv.m] at hm
  · have hp : (step s i).mode = mpp s := by simp [step, nextMode, ht, hr, mpp]
    exact absurd ((h.user hu).symm.trans (hp.symm.trans hm)) (by decide)

theorem step_of_trap (ht : trap s i = true) :
    flush s i = true ∧ target s i = trapTarget s i ∧ (step s i).reg .mepc = i.pc ∧
      (step s i).reg .mcause = trapMcause s i ∧ (step s i).reg .mtval = trapMtval s i := by
  simp [flush, target, step, nextReg, ht]

/-- **Privilege isolation.** In every reachable state the mode and `MPP` are user or machine
mode, `MPP` is user mode whenever the mode is, and no other status bit ever changes; user mode
is left for machine mode only in a cycle in which trap entry fires, never by `MRET`. -/
theorem privilege_isolation (ins : ℕ → In) (t : ℕ) :
    ((machine.run ins t).mode = Priv.u ∨ (machine.run ins t).mode = Priv.m) ∧
    (mpp (machine.run ins t) = Priv.u ∨ mpp (machine.run ins t) = Priv.m) ∧
    ((machine.run ins t).mode = Priv.u → mpp (machine.run ins t) = Priv.u) ∧
    (∀ j < 64, j ∉ [3, 7, 11, 12, 17] →
      ((machine.run ins t).reg .mstatus).getLsbD j = (0x200000000#64).getLsbD j) ∧
    ((machine.run ins t).mode = Priv.u → (machine.run ins (t + 1)).mode = Priv.m →
      trap (machine.run ins t) (ins t) = true ∧ mret (machine.run ins t) (ins t) = false ∧
      flush (machine.run ins t) (ins t) = true ∧
      target (machine.run ins t) (ins t) = trapTarget (machine.run ins t) (ins t) ∧
      (machine.run ins (t + 1)).reg .mepc = (ins t).pc ∧
      (machine.run ins (t + 1)).reg .mcause = trapMcause (machine.run ins t) (ins t)) := by
  have h := isolated_run ins t
  refine ⟨h.mode_mem, h.mpp_mem, h.user, h.frame, fun hu hm => ?_⟩
  have ht := trap_of_mode h hu hm
  obtain ⟨hf, hg, he, hc, -⟩ := step_of_trap ht
  exact ⟨ht, by simp [mret, ht], hf, hg, he, hc⟩

end PuaCpu.Csr
