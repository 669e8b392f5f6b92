import PuaCpu.Pipeline.Precise
import PuaCpu.Privilege.WriteLaw

/-! # Interrupts

An interrupt line sets a pending bit, the CSR unit offers the enabled pending
interrupts to decode, and the trap is taken one cycle later in execute. The
enable is not looked at again.
-/

namespace PuaCpu

theorem priorityMux_mem {α : Type*} {sel : α → Bool} {l : List α} {h : l ≠ []}
    (hs : ∃ a ∈ l, sel a = true) :
    priorityMux sel l h ∈ l ∧ sel (priorityMux sel l h) = true := by
  obtain ⟨a, ha⟩ := Option.isSome_iff_exists.mp (List.find?_isSome.mpr hs)
  rw [priorityMux, ha, Option.getD_some]
  exact ⟨List.mem_of_find?_eq_some ha, List.find?_some ha⟩

namespace Csr

/-- Interrupt `k` is pending and enabled. -/
structure Enabled (s : State) (k : ℕ) : Prop where
  mip : (s.reg .mip).getLsbD k = true
  mie : (s.reg .mie).getLsbD k = true
  mode : s.mode.ult Priv.m = true ∨ (s.reg .mstatus).getLsbD 3 = true

theorem checkInterrupt_iff {s : State} {k : ℕ} :
    checkInterrupt s ((s.reg .mip).getLsbD k) k = true ↔ Enabled s k := by
  have hm : ∀ (m : Priv) (b : Bool),
      ((m == Priv.m && b) || m.ult Priv.m) = true ↔ (m.ult Priv.m = true ∨ b = true) := by decide
  rw [checkInterrupt, Bool.and_eq_true, Bool.and_eq_true, hm]
  exact ⟨fun ⟨⟨hp, he⟩, h⟩ => ⟨hp, he, h⟩, fun h => ⟨⟨h.mip, h.mie⟩, h.mode⟩⟩

theorem offered_iff {s : State} {k : IntNo} :
    ExcCtrl.interrupt (interrupt s) k = true ↔ k ∈ IntNo.intPriority ∧ Enabled s k := by
  unfold ExcCtrl.interrupt interrupt
  split_ifs with h3 h7 h11
  · subst h3
    exact checkInterrupt_iff.trans (and_iff_right (by decide)).symm
  · subst h7
    exact checkInterrupt_iff.trans (and_iff_right (by decide)).symm
  · subst h11
    exact checkInterrupt_iff.trans (and_iff_right (by decide)).symm
  · simp only [false_iff, not_and]
    intro hk
    simp only [IntNo.intPriority, List.mem_cons, List.not_mem_nil, or_false] at hk
    rcases hk with hk | hk | hk
    · exact absurd hk h11
    · exact absurd hk h3
    · exact absurd hk h7

section Disable

/-- The CSR instruction clears the enable of interrupt `k`. -/
def Disables (s : State) (i : In) (k : ℕ) : Prop :=
  wen s i = true ∧
    ((csrAddr i = CsrName.mie.addr ∧ (writeData i (s.reg .mie)).getLsbD k = false) ∨
      (csrAddr i = CsrName.mstatus.addr ∧ (writeData i (s.reg .mstatus)).getLsbD 3 = false))

variable {s : State} {i : In} {k : ℕ}

theorem getLsbD_csrRegs_mie (hk : k < 64) : (csrRegs s i .mie).getLsbD k =
    if wen s i = true ∧ csrAddr i = CsrName.mie.addr then (writeData i (s.reg .mie)).getLsbD k
    else (s.reg .mie).getLsbD k := by
  split_ifs with h
  · have hm : storeMask .mie (writeData i (s.reg .mie)) = BitVec.allOnes 64 := by
      simp [storeMask, CsrName.writeMask]
    rw [csrRegs_of_wen h.1 h.2, writeReg_eq, Bits.getLsbD_merge, hm, BitVec.getLsbD_allOnes,
      decide_eq_true hk, if_pos rfl]
  · rw [csrRegs_of_not_stored h (by decide)]

theorem getLsbD_csrRegs_mstatus : (csrRegs s i .mstatus).getLsbD 3 =
    if wen s i = true ∧ csrAddr i = CsrName.mstatus.addr then
      (writeData i (s.reg .mstatus)).getLsbD 3
    else (s.reg .mstatus).getLsbD 3 := by
  split_ifs with h
  · have hm : (storeMask .mstatus (writeData i (s.reg .mstatus))).getLsbD 3 = true := by
      unfold storeMask
      split_ifs <;> decide
    rw [csrRegs_of_wen h.1 h.2, writeReg_eq, Bits.getLsbD_merge, hm, if_pos rfl]
  · rw [csrRegs_of_not_stored h (by decide)]

theorem enabled_quiet_iff (he : Enabled s k) (ht : trap s i = false) (hr : mret s i = false) :
    Enabled (step s i) k ↔ (csrRegs s i .mie).getLsbD k = true ∧
      (s.mode.ult Priv.m = true ∨ (csrRegs s i .mstatus).getLsbD 3 = true) := by
  have hip : ((step s i).reg .mip).getLsbD k = true := by
    change (mipUpdate (s.reg .mip) i.interruptInfo).getLsbD k = true
    rw [getLsbD_mipUpdate_eq, he.mip, Bool.true_or]
  have hie : (step s i).reg .mie = csrRegs s i .mie :=
    nextReg_of_quiet (c := .mie) ht hr (by decide)
  have hst : (step s i).reg .mstatus = csrRegs s i .mstatus :=
    nextReg_of_quiet (c := .mstatus) ht hr (by decide)
  have hm : (step s i).mode = s.mode := by simp [step, nextMode, ht, hr]
  rw [← hie, ← hst, ← hm]
  exact ⟨fun h => ⟨h.mie, h.mode⟩, fun h => ⟨hip, h.1, h.2⟩⟩

theorem enabled_step_iff (he : Enabled s k) (hk : k < 64) (ht : trap s i = false)
    (hr : mret s i = false) : Enabled (step s i) k ↔ ¬ Disables s i k := by
  rw [enabled_quiet_iff he ht hr, getLsbD_csrRegs_mie hk, getLsbD_csrRegs_mstatus, Disables]
  by_cases hw : wen s i = true
  · by_cases ha : csrAddr i = CsrName.mie.addr
    · have hn : CsrName.mie.addr ≠ CsrName.mstatus.addr := by decide
      simpa [hw, ha, hn] using fun _ => he.mode
    · by_cases hb : csrAddr i = CsrName.mstatus.addr
      · -- only machine mode writes `MSTATUS`, and there its bit decides
        have hn : CsrName.mstatus.addr ≠ CsrName.mie.addr := by decide
        have hm : s.mode.ult Priv.m = false := by
          rw [mode_of_wen hw hb (by decide) (by decide)]
          rfl
        simp [hw, hb, hn, hm, he.mie]
      · simpa [hw, ha, hb, he.mie] using he.mode
  · simpa [hw, he.mie] using he.mode

end Disable

/-- The value that trap entry records for an interrupt. -/
def intCause (k : IntNo) : Word := BitVec.ofNat 64 k.val ||| 1#64 <<< 63

variable {s : State} {i : In} {k : IntNo}

theorem isInterrupt_of_trapMcause (h : trapMcause s i = intCause k) : isInterrupt s i = true := by
  by_contra hn
  rw [trapMcause, if_neg hn] at h
  have hb := congrArg (·.getLsbD 63) h
  revert hb
  simp [intCause]

theorem selected_of_trapMcause (h : trapMcause s i = intCause k) :
    priorityMux (ex s i).interrupt IntNo.intPriority (by decide) = k := by
  have hi := isInterrupt_of_trapMcause h
  have hinj : ∀ j k : IntNo, zeroExtend (BitVec.ofNat 4 j.val) 64 ||| 1#64 <<< 63 = intCause k →
      j = k := by decide
  rw [trapMcause, if_pos hi, causeNO, if_pos hi] at h
  exact hinj _ _ h

end Csr

namespace Core

variable {s : State} {i : In} {ins : ℕ → In} {k : IntNo}

/-- In a cycle the core takes a trap and records interrupt `k` as its cause. -/
def Records (ins : ℕ → In) (t : ℕ) (k : IntNo) : Prop :=
  trap (machine.run ins t) (ins t) = true ∧
    (machine.run ins (t + 1)).csr.reg .mcause = Csr.intCause k

section Records

/-- An interrupt that is attached to an instruction in execute was enabled in the cycle before, in
which decode attached it. -/
theorem enabled_of_attached {t : ℕ} (hv : (machine.run ins t).exe.info.valid = true)
    (hk : (machine.run ins t).exe.ex.interrupt k = true) :
    ∃ v, t = v + 1 ∧ k ∈ IntNo.intPriority ∧ Csr.Enabled (machine.run ins v).csr k ∧
      flush (machine.run ins v) (ins v) = false := by
  rcases t with _ | v
  · exact absurd hv (by simp [machine, init])
  · obtain ⟨hf, -, hd, he⟩ := exe_eq_of_valid hv
    have hx : (DecodeUnit.info (machine.run ins v).dec).valid = true := hd
    rw [he] at hk
    change (ExcCtrl.excInfo _ (DecodeUnit.info (machine.run ins v).dec) _ _ _).interrupt k =
      true at hk
    rw [ExcCtrl.excInfo, if_pos hx] at hk
    obtain ⟨hm, hn⟩ := Csr.offered_iff.mp hk
    exact ⟨v, rfl, hm, hn, hf⟩

theorem trapMcause_of_records {t : ℕ} (h : Records ins t k) :
    Csr.trapMcause (machine.run ins t).csr
      (Fu.csrIn (machine.run ins t).exe (ins t).interrupt) = Csr.intCause k := by
  obtain ⟨ht, hc⟩ := h
  exact ((Csr.step_of_trap ht).2.2.2.1).symm.trans hc

theorem attached_of_records {t : ℕ} (h : Records ins t k) :
    (machine.run ins t).exe.ex.interrupt k = true := by
  have hc := trapMcause_of_records h
  have hi := Csr.isInterrupt_of_trapMcause hc
  have hs := Csr.selected_of_trapMcause hc
  rw [Csr.isInterrupt, orR_eq_true] at hi
  simp only [ex_interrupt] at hi hs
  obtain ⟨j, hj⟩ := hi
  obtain ⟨v, -, hm, -, -⟩ := enabled_of_attached (valid_of_trap h.1) hj
  obtain ⟨-, hsel⟩ := priorityMux_mem (h := by decide) ⟨j, hm, hj⟩
  exact hs ▸ hsel

end Records

section Enable

/-- **An attached interrupt is enabled in the cycle of its trap exactly when the instruction before
it does not clear the enable.** -/
theorem interrupt_enabled (ins : ℕ → In) (t : ℕ) (k : IntNo)
    (ht : trap (machine.run ins t) (ins t) = true)
    (hk : (machine.run ins t).exe.ex.interrupt k = true) :
    ∃ v, t = v + 1 ∧
      (Csr.Enabled (machine.run ins t).csr k ↔
        ¬ Csr.Disables (machine.run ins v).csr
          (Fu.csrIn (machine.run ins v).exe (ins v).interrupt) k) := by
  obtain ⟨v, rfl, -, he, hf⟩ := enabled_of_attached (valid_of_trap ht) hk
  obtain ⟨ht', hr⟩ := quiet_of_not_flush hf
  exact ⟨v, rfl, Csr.enabled_step_iff he (by omega) ht' hr⟩

/-- The external line interrupts the NOP in front of an untouched enable. -/
theorem interrupt_enabled_nop : Csr.Enabled (machine.run (interruptRun 0x13) 7).csr 3 := by
  obtain ⟨v, hv, h⟩ := interrupt_enabled (interruptRun 0x13) 7 IntNo.msi (by decide +kernel)
    (by decide +kernel)
  obtain rfl : v = 6 := by omega
  exact h.mpr fun hd => absurd hd.1 (by decide +kernel)

/-- `CSRRWI MIE, 8`, `CSRRWI MSTATUS, 8`, `CSRRWI MIE, 0` and NOPs, with the external line high. -/
def disableRun : ℕ → In :=
  stimulus (fun a => if a = 0x80000000 then 0x30445073 else if a = 0x80000004 then 0x30045073
    else if a = 0x80000008 then 0x30405073 else 0x13) (fun _ => 0) fun _ => { mei := true }

/-- The instruction behind the one that clears the enable is still interrupted. -/
theorem interrupt_after_disable :
    Records disableRun 7 IntNo.msi ∧
    (machine.run disableRun 7).exe.ex.interrupt IntNo.msi = true ∧
    (machine.run disableRun 7).exe.pc = 0x8000000c ∧
    (machine.run disableRun 7).csr.reg .mie = 0 ∧
    ¬ Csr.Enabled (machine.run disableRun 7).csr IntNo.msi := by
  refine ⟨⟨by decide +kernel, by decide +kernel⟩, by decide +kernel, by decide +kernel,
    by decide +kernel, fun h => ?_⟩
  exact absurd h.mie (by decide +kernel)

end Enable

end Core

end PuaCpu
