import PuaCpu.Bits.Field
import PuaCpu.Clocked.Machine
import PuaCpu.Execute.Csr

/-! # Status updates as field assignments

The CSR unit builds `MSTATUS` and `MIP` by concatenating slices. Each of these
values is the old register with some fields assigned, which is the form that the
invariants and the comparison with the reference model use.
-/

namespace Bits

variable {n : ℕ}

theorem getLsbD_slice (x : BitVec n) {lo w j i : ℕ} (hj : j < w) (hi : lo + j = i) :
    (decide (j < w) && x.getLsbD (lo + j)) = x.getLsbD i := by
  rw [decide_eq_true hj, Bool.true_and, hi]

end Bits

namespace PuaCpu.Csr

/-- The CSR unit on its own, driven by arbitrary inputs. -/
def machine : Clocked State In := ⟨init, step⟩

variable (s : State) (i : In)

theorem trapMstatus_eq : trapMstatus s =
    Bits.set (Bits.set (Bits.set (s.reg .mstatus) 11 (trapMpp s)) 7
      ((s.reg .mstatus).extractLsb' 3 1)) 3 0#1 := by
  apply BitVec.eq_of_getLsbD_eq
  intro j hj
  simp only [trapMstatus, Bits.getLsbD_set _ _ _ hj, BitVec.getLsbD_append,
    BitVec.getLsbD_extractLsb']
  split_ifs <;> first | rfl | omega | exact Bits.getLsbD_slice _ (by omega) (by omega)

theorem mretMstatus_eq : mretMstatus s =
    Bits.set (Bits.set (Bits.set (Bits.set (s.reg .mstatus) 17 (mretMprv s)) 11 Priv.u) 7 1#1) 3
      ((s.reg .mstatus).extractLsb' 7 1) := by
  apply BitVec.eq_of_getLsbD_eq
  intro j hj
  simp only [mretMstatus, Bits.getLsbD_set _ _ _ hj, BitVec.getLsbD_append,
    BitVec.getLsbD_extractLsb']
  split_ifs <;> first | rfl | omega | exact Bits.getLsbD_slice _ (by omega) (by omega)

theorem getLsbD_mipUpdate (mip : Word) (l : ExtInterrupt) (j : ℕ) :
    (mipUpdate mip l).getLsbD j =
      (mip.getLsbD j || (j == 11 && l.msi) || (j == 7 && l.mti) || (j == 3 && l.mei)) := by
  by_cases hj : j < 64
  · simp only [mipUpdate, BitVec.getLsbD_append, BitVec.getLsbD_extractLsb', BitVec.getLsbD_or,
      BitVec.getLsbD_ofBool]
    by_cases h11 : j = 11
    · subst h11; simp
    by_cases h7 : j = 7
    · subst h7; simp
    by_cases h3 : j = 3
    · subst h3; simp
    simp only [beq_eq_false_iff_ne.mpr h11, beq_eq_false_iff_ne.mpr h7,
      beq_eq_false_iff_ne.mpr h3, Bool.false_and, Bool.or_false]
    split_ifs <;> first | omega | exact Bits.getLsbD_slice _ (by omega) (by omega)
  · simp [BitVec.getLsbD_of_ge _ _ (Nat.le_of_not_lt hj), show j ≠ 11 by omega,
      show j ≠ 7 by omega, show j ≠ 3 by omega]

theorem getLsbD_mipUpdate_of_ne (mip : Word) (l : ExtInterrupt) {j : ℕ} (hj : j ∉ [3, 7, 11]) :
    (mipUpdate mip l).getLsbD j = mip.getLsbD j := by
  simp only [List.mem_cons, List.not_mem_nil, not_or, not_false_eq_true, and_true] at hj
  obtain ⟨h3, h7, h11⟩ := hj
  rw [getLsbD_mipUpdate, beq_eq_false_iff_ne.mpr h3, beq_eq_false_iff_ne.mpr h7,
    beq_eq_false_iff_ne.mpr h11]
  simp

section Write

variable {s i}

/-- The bits that a CSR instruction can change in this state. -/
def storeMask (c : CsrName) (data : Word) : Word :=
  if c = .mstatus ∧ ¬(data.extractLsb' 11 2 = Priv.m ∨ data.extractLsb' 11 2 = Priv.u) then 0x20088
  else c.writeMask

theorem writeReg_eq (c : CsrName) (old : Word) :
    writeReg i c old = Bits.merge (storeMask c (writeData i old)) old (writeData i old) := by
  unfold writeReg storeMask Bits.merge
  by_cases hc : c = .mstatus
  · simp only [hc, ite_true, true_and, Bool.or_eq_true, beq_iff_eq]
    split_ifs with h
    · rfl
    · exact BitVec.or_comm _ _
  · simp [hc]

theorem not_illegalAccess_of_wen (h : wen s i = true) : illegalAccess s i = false := by
  simp only [wen, Bool.and_eq_true, Bool.not_eq_true'] at h
  exact h.2

theorem write_of_wen (h : wen s i = true) : write i = true := by
  simp only [wen, Bool.and_eq_true] at h
  exact h.1

theorem level_le_mode (h : wen s i = true) : (csrAddr i).extractLsb' 8 2 ≤ s.mode := by
  have hm := not_illegalAccess_of_wen h
  simp only [illegalAccess, illegalMode, Bool.or_eq_false_iff, BitVec.ult, decide_eq_false_iff_not,
    Nat.not_lt] at hm
  exact hm.2

theorem level_of_ne_cycle {c : CsrName} (hc : c ≠ .cycle) (hs : c ≠ .stap) :
    c.addr.extractLsb' 8 2 = Priv.m := by
  cases c <;> first | rfl | exact absurd rfl hc | exact absurd rfl hs

/-- `CYCLE` is the only CSR that user mode may access. -/
theorem not_level_le_user {c : CsrName} (hc : c ≠ .cycle) :
    ¬ c.addr.extractLsb' 8 2 ≤ Priv.u := by
  cases c <;> first | decide | exact absurd rfl hc

theorem mode_of_wen {c : CsrName} (h : wen s i = true) (ha : csrAddr i = c.addr)
    (hc : c ≠ .cycle) (hs : c ≠ .stap) : s.mode = Priv.m := by
  have hl := level_le_mode h
  rw [ha, level_of_ne_cycle hc hs] at hl
  have hlt := s.mode.isLt
  simp only [Priv.m, BitVec.le_def, BitVec.reduceToNat] at hl
  exact BitVec.eq_of_toNat_eq (by simp only [Priv.m, BitVec.reduceToNat]; omega)

end Write

section Next

variable {s i}

theorem csrRegs_of_wen {c : CsrName} (h : wen s i = true) (ha : csrAddr i = c.addr) :
    csrRegs s i c = writeReg i c (s.reg c) := by
  simp [csrRegs, h, ha]

theorem csrRegs_of_not_stored {c : CsrName} (h : ¬(wen s i = true ∧ csrAddr i = c.addr))
    (hc : c ≠ .cycle) : csrRegs s i c = s.reg c := by
  simp only [csrRegs, Bool.and_eq_true, beq_iff_eq, h, if_false, hc]

theorem nextReg_mstatus : nextReg s i .mstatus =
    if trap s i then trapMstatus s else if mret s i then mretMstatus s
    else csrRegs s i .mstatus := by
  simp [nextReg]

theorem nextReg_of_ne {c : CsrName} (hm : c ∉ [CsrName.mip, .mstatus, .mepc, .mcause, .mtval]) :
    nextReg s i c = csrRegs s i c := by
  simp only [List.mem_cons, List.not_mem_nil, not_or, not_false_eq_true, and_true] at hm
  simp [nextReg, hm]

theorem nextReg_of_quiet {c : CsrName} (ht : trap s i = false) (hr : mret s i = false)
    (hc : c ≠ .mip) : nextReg s i c = csrRegs s i c := by
  simp [nextReg, ht, hr, hc]

/-- The state after a cycle without an instruction. -/
def idle (s : State) (lines : ExtInterrupt) : State where
  reg c := if c = .mip then mipUpdate (s.reg .mip) lines
    else if c = .cycle then s.reg .cycle + 1 else s.reg c
  mode := s.mode

theorem step_of_not_valid (hv : i.info.valid = false) :
    step s i = idle s i.interruptInfo := by
  have ht : trap s i = false := by simp [trap, hv]
  have hr : mret s i = false := by simp [mret, hv]
  have hw : wen s i = false := by simp [wen, write, hv]
  have hreg : nextReg s i = (idle s i.interruptInfo).reg := by
    funext c
    by_cases hm : c = .mip
    · simp [nextReg, idle, hm]
    · rw [nextReg_of_quiet ht hr hm]
      by_cases hc : c = .cycle
      · simp [csrRegs, idle, hw, hc]
      · simp [csrRegs, idle, hw, hc, hm]
  have hmode : nextMode s i = s.mode := by simp [nextMode, ht, hr]
  rw [step, hreg, hmode]
  rfl

@[simp] theorem idle_mode (lines : ExtInterrupt) : (idle s lines).mode = s.mode := rfl

theorem idle_reg {c : CsrName} (hc : c ≠ .cycle) : (idle s {}).reg c = s.reg c := by
  by_cases hm : c = .mip
  · subst hm
    change mipUpdate (s.reg .mip) {} = s.reg .mip
    exact BitVec.eq_of_getLsbD_eq fun j _ => by simp [getLsbD_mipUpdate]
  · simp [idle, hm, hc]

end Next

end PuaCpu.Csr
