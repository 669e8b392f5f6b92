import PuaCpu.Pipeline.Bubbles
import PuaCpu.Pipeline.Interrupts
import PuaCpu.Selection.First

/-! # The response to interrupts

An enabled interrupt is attached to the next instruction that leaves decode, which
is at most two cycles away. Trap entry closes the enable in machine mode, and only
a return or a write of `MSTATUS` opens it again.
-/

namespace PuaCpu

open Selection (First)

namespace Csr

variable {s : State} {i : In} {k : IntNo}

/-- Whether interrupts can be enabled, in this mode. -/
def Open (s : State) : Prop := s.mode.ult Priv.m = true ∨ (s.reg .mstatus).getLsbD 3 = true

/-- The instruction returns, or sets the enable of machine mode. -/
def Opens (s : State) (i : In) : Prop :=
  mret s i = true ∨ wen s i = true ∧ csrAddr i = CsrName.mstatus.addr ∧
    (writeData i (s.reg .mstatus)).getLsbD 3 = true

/-- The instruction takes a trap, returns, or clears the enable of interrupt `k`. -/
def Masks (s : State) (i : In) (k : ℕ) : Prop :=
  trap s i = true ∨ mret s i = true ∨ Disables s i k

theorem Enabled.step (he : Enabled s k) (hm : ¬ Masks s i k) : Enabled (step s i) k := by
  rw [Masks, not_or, not_or, Bool.not_eq_true, Bool.not_eq_true] at hm
  obtain ⟨ht, hr, hd⟩ := hm
  exact (enabled_step_iff he (by omega) ht hr).mpr hd

theorem not_disables_of_user (hu : s.mode = Priv.u) : ¬ Disables s i k := by
  have hne : Priv.u ≠ Priv.m := by decide
  rintro ⟨hw, ⟨ha, -⟩ | ⟨ha, -⟩⟩
  · exact hne (hu.symm.trans (mode_of_wen hw ha (by decide) (by decide)))
  · exact hne (hu.symm.trans (mode_of_wen hw ha (by decide) (by decide)))

theorem not_open_of_trap (ht : trap s i = true) : ¬ Open (step s i) := by
  have hm : (step s i).mode = Priv.m := by simp [step, nextMode, ht]
  have hs : (step s i).reg .mstatus = trapMstatus s := by simp [step, nextReg, ht]
  have hb : (trapMstatus s).getLsbD 3 = false := by
    rw [trapMstatus_eq, Bits.getLsbD_set _ _ _ (by decide)]
    rfl
  rw [Open, hm, hs, hb]
  decide

theorem not_open_step (ho : ¬ Open s) (h : ¬ Opens s i) : ¬ Open (step s i) := by
  by_cases ht : trap s i = true
  · exact not_open_of_trap ht
  · rw [Bool.not_eq_true] at ht
    rw [Opens, not_or, Bool.not_eq_true] at h
    obtain ⟨hr, hw⟩ := h
    have hm : (step s i).mode = s.mode := by simp [step, nextMode, ht, hr]
    have hs : (step s i).reg .mstatus = csrRegs s i .mstatus :=
      nextReg_of_quiet (c := .mstatus) ht hr (by decide)
    rw [Open, not_or] at ho
    obtain ⟨hu, hb⟩ := ho
    rw [Open, hm, hs, getLsbD_csrRegs_mstatus, not_or]
    refine ⟨hu, ?_⟩
    split_ifs with hc
    · exact fun hd => hw ⟨hc.1, hc.2, hd⟩
    · exact hb

end Csr

namespace Core

variable {ins : ℕ → In} {t : ℕ} {k : IntNo}

section Selected

theorem trapMcause_of_isInterrupt {s : Csr.State} {i : Csr.In} (h : Csr.isInterrupt s i = true) :
    Csr.trapMcause s i =
      Csr.intCause (priorityMux (Csr.ex s i).interrupt IntNo.intPriority (by decide)) := by
  have hcause : ∀ j : IntNo, zeroExtend (BitVec.ofNat 4 j.val) 64 ||| 1#64 <<< 63 =
      Csr.intCause j := by decide
  rw [Csr.trapMcause, if_pos h, Csr.causeNO, if_pos h]
  exact hcause _

/-- The interrupts of an instruction in execute are those that were enabled in decode. -/
theorem attached_iff (hb : busy ins (t + 1) = true) :
    (machine.run ins (t + 1)).exe.ex.interrupt k = true ↔
      k ∈ IntNo.intPriority ∧ Csr.Enabled (machine.run ins t).csr k := by
  obtain ⟨-, -, hd, hx⟩ := exe_eq_of_valid hb
  have hv : (DecodeUnit.info (machine.run ins t).dec).valid = true := hd
  rw [← Csr.offered_iff, hx]
  change (ExcCtrl.excInfo _ (DecodeUnit.info (machine.run ins t).dec) _ _ _).interrupt k = true ↔ _
  rw [ExcCtrl.excInfo, if_pos hv]
  exact Iff.rfl

/-- The instruction that leaves decode while an interrupt is enabled takes the first one. -/
theorem records_of_enabled (hk : k ∈ IntNo.intPriority)
    (he : Csr.Enabled (machine.run ins t).csr k) (hb : busy ins (t + 1) = true) :
    ∃ j, Records ins (t + 1) j ∧
      First IntNo.intPriority (fun j => Csr.Enabled (machine.run ins t).csr j) j := by
  have ha := (attached_iff hb).mpr ⟨hk, he⟩
  let i := Fu.csrIn (machine.run ins (t + 1)).exe (ins (t + 1)).interrupt
  have hi : Csr.isInterrupt (machine.run ins (t + 1)).csr i = true := by
    rw [Csr.isInterrupt, orR_eq_true]
    exact ⟨k, by rw [ex_interrupt]; exact ha⟩
  have ht : trap (machine.run ins (t + 1)) (ins (t + 1)) = true := by
    rw [trap, Csr.trap, Csr.hasExc, hi, Bool.or_true]
    exact hb
  obtain ⟨j, hj, hfirst⟩ := Selection.exists_first (by decide) ⟨k, hk, ha⟩
  refine ⟨j, ⟨ht, ?_⟩, hfirst.congr fun i hm => ?_⟩
  · refine (Csr.step_of_trap ht).2.2.2.1.trans ?_
    rw [trapMcause_of_isInterrupt hi, ex_interrupt, priorityMux, hj, Option.getD_some]
  · exact (attached_iff hb).trans (and_iff_right hm)

end Selected

section Response

/-- The instruction in execute takes a trap, returns, or clears the enable of interrupt `k`. -/
def Masks (ins : ℕ → In) (t : ℕ) (k : IntNo) : Prop :=
  Csr.Masks (machine.run ins t).csr (Fu.csrIn (machine.run ins t).exe (ins t).interrupt) k

theorem mie_of_le_four (ht : t ≤ 4) : (machine.run ins t).csr.reg .mie = 0 := by
  induction t with
  | zero => rfl
  | succ t ih =>
    have hv : busy ins t = false := not_busy_of_lt_four (by omega)
    change (Csr.step (machine.run ins t).csr
      (Fu.csrIn (machine.run ins t).exe (ins t).interrupt)).reg .mie = 0
    rw [Csr.step_of_not_valid hv]
    exact ih (by omega)

theorem enabled_add (he : Csr.Enabled (machine.run ins t).csr k) (n : ℕ)
    (hm : ∀ u, t ≤ u → u < t + n → ¬ Masks ins u k) :
    Csr.Enabled (machine.run ins (t + n)).csr k := by
  induction n with
  | zero => exact he
  | succ n ih =>
    exact (ih fun u h1 h2 => hm u h1 (by omega)).step (hm (t + n) (by omega) (by omega))

theorem taken_of_not_masks (hk : k ∈ IntNo.intPriority)
    (he : Csr.Enabled (machine.run ins t).csr k)
    (hm : ∀ u, t ≤ u → u ≤ t + 1 → ¬ Masks ins u k) :
    ∃ v j, t ≤ v ∧ v ≤ t + 2 ∧ Records ins (v + 1) j ∧
      First IntNo.intPriority (fun j => Csr.Enabled (machine.run ins v).csr j) j := by
  have ht : 4 < t := by
    by_contra ht
    have hie := he.mie
    rw [mie_of_le_four (Nat.le_of_not_lt ht)] at hie
    exact absurd hie (by simp)
  obtain ⟨n, hn, hb⟩ := exists_busy_window (busy_four ins) (show 4 ≤ t + 1 by omega)
  rw [Nat.add_right_comm] at hb
  have hen := enabled_add he n fun u h1 h2 => hm u h1 (by omega)
  obtain ⟨j, hr, hf⟩ := records_of_enabled hk hen hb
  exact ⟨t + n, j, by omega, by omega, hr, hf⟩

/-- **Interrupts are answered**: an enabled interrupt is taken within three cycles, the first one
that is enabled, unless an instruction takes another trap, returns or clears the enable before. -/
theorem interrupt_response (ins : ℕ → In) (t : ℕ) (k : IntNo) (hk : k ∈ IntNo.intPriority)
    (he : Csr.Enabled (machine.run ins t).csr k) :
    (∃ u, t ≤ u ∧ u ≤ t + 1 ∧ Masks ins u k) ∨
    ∃ v j, t ≤ v ∧ v ≤ t + 2 ∧ Records ins (v + 1) j ∧
      First IntNo.intPriority (fun j => Csr.Enabled (machine.run ins v).csr j) j := by
  by_cases h : ∃ u, t ≤ u ∧ u ≤ t + 1 ∧ Masks ins u k
  · exact .inl h
  · exact .inr (taken_of_not_masks hk he fun u h1 h2 hm => h ⟨u, h1, h2, hm⟩)

/-- The NOP behind the enables of `interruptRun` is interrupted. -/
theorem interrupt_response_nop : (∃ u, 6 ≤ u ∧ u ≤ 7 ∧ Masks (interruptRun 0x13) u IntNo.msi) ∨
    ∃ v j, 6 ≤ v ∧ v ≤ 8 ∧ Records (interruptRun 0x13) (v + 1) j ∧
      First IntNo.intPriority (fun j => Csr.Enabled (machine.run (interruptRun 0x13) v).csr j) j :=
  interrupt_response (interruptRun 0x13) 6 IntNo.msi (by decide)
    ⟨by decide +kernel, by decide +kernel, .inr (by decide +kernel)⟩

end Response

section User

/-- The instruction in execute returns. -/
def returns (ins : ℕ → In) (t : ℕ) : Bool :=
  Csr.mret (machine.run ins t).csr (Fu.csrIn (machine.run ins t).exe (ins t).interrupt)

theorem left_of_masks (hu : (machine.run ins t).csr.mode = Priv.u) (hm : Masks ins t k) :
    trap (machine.run ins t) (ins t) = true ∨ returns ins t = true := by
  rcases hm with h | h | h
  · exact .inl h
  · exact .inr h
  · exact absurd h (Csr.not_disables_of_user hu)

theorem user_succ (hu : (machine.run ins t).csr.mode = Priv.u)
    (ht : trap (machine.run ins t) (ins t) ≠ true) (hr : returns ins t ≠ true) :
    (machine.run ins (t + 1)).csr.mode = Priv.u :=
  (if_neg ht).trans ((if_neg hr).trans hu)

/-- **User code is preempted**: while an interrupt is enabled, three cycles in user mode do not pass
without a trap or a return. -/
theorem user_preempted (ins : ℕ → In) (t : ℕ) (k : IntNo) (hk : k ∈ IntNo.intPriority)
    (hu : (machine.run ins t).csr.mode = Priv.u) (he : Csr.Enabled (machine.run ins t).csr k) :
    ∃ u, t ≤ u ∧ u ≤ t + 3 ∧
      (trap (machine.run ins u) (ins u) = true ∨ returns ins u = true) := by
  by_cases h0 : trap (machine.run ins t) (ins t) = true ∨ returns ins t = true
  · exact ⟨t, by omega, by omega, h0⟩
  by_cases h1 : trap (machine.run ins (t + 1)) (ins (t + 1)) = true ∨ returns ins (t + 1) = true
  · exact ⟨t + 1, by omega, by omega, h1⟩
  have hu1 : (machine.run ins (t + 1)).csr.mode = Priv.u :=
    user_succ hu (fun h => h0 (.inl h)) fun h => h0 (.inr h)
  have hm : ∀ u, t ≤ u → u ≤ t + 1 → ¬ Masks ins u k := by
    rintro u h2 h3 hm
    obtain rfl | rfl : u = t ∨ u = t + 1 := by omega
    · exact h0 (left_of_masks hu hm)
    · exact h1 (left_of_masks hu1 hm)
  obtain ⟨v, j, h2, h3, hr, -⟩ := taken_of_not_masks hk he hm
  exact ⟨v + 1, by omega, by omega, .inl hr.1⟩

/-- `CSRRWI MIE, 8` and `MRET`, and NOPs in user mode, with the external line high. -/
def userRun : ℕ → In :=
  stimulus (fun a => if a = 0x80000000 then 0x30445073 else if a = 0x80000004 then 0x30200073
    else 0x13) (fun _ => 0) fun _ => { mei := true }

/-- The NOPs are left for the handler. -/
theorem user_preempted_nop : ∃ u, 6 ≤ u ∧ u ≤ 9 ∧
    (trap (machine.run userRun u) (userRun u) = true ∨ returns userRun u = true) :=
  user_preempted userRun 6 IntNo.msi (by decide) (by decide +kernel)
    ⟨by decide +kernel, by decide +kernel, .inl (by decide +kernel)⟩

end User

section Nested

/-- The instruction in execute opens the enable. -/
def Opens (ins : ℕ → In) (t : ℕ) : Prop :=
  Csr.Opens (machine.run ins t).csr (Fu.csrIn (machine.run ins t).exe (ins t).interrupt)

theorem not_open_add {u : ℕ} (ht : trap (machine.run ins t) (ins t) = true) (htu : t < u)
    (ho : ∀ w, t < w → w < u → ¬ Opens ins w) : ¬ Csr.Open (machine.run ins u).csr := by
  induction u, htu using Nat.le_induction with
  | base => exact Csr.not_open_of_trap ht
  | succ u htu ih =>
    exact Csr.not_open_step (ih fun w h1 h2 => ho w h1 (by omega)) (ho u htu (by omega))

/-- **Handlers are not interrupted**: after a trap no interrupt is taken before an instruction has
returned or has set the enable in `MSTATUS`. -/
theorem handler_uninterrupted (ins : ℕ → In) (t u : ℕ) (k : IntNo) (htu : t < u)
    (ht : trap (machine.run ins t) (ins t) = true) (hr : Records ins u k) :
    ∃ w, t < w ∧ w + 1 < u ∧ Opens ins w := by
  obtain ⟨v, rfl, -, he, hf⟩ := enabled_of_attached (valid_of_trap hr.1) (attached_of_records hr)
  by_contra hn
  have htv : t < v := by
    refine lt_of_le_of_ne (by omega) ?_
    rintro rfl
    exact absurd ((flush_of_trap ht).symm.trans hf) (by decide)
  refine not_open_add ht htv (fun w h1 h2 ho => hn ⟨w, h1, by omega, ho⟩) he.mode

/-- The program of `interruptRun` with a handler at 0 that sets the enable again. -/
def nestedRun : ℕ → In :=
  stimulus (fun a => if a = 0 then 0x30046073 else interruptProgram 0x13 a) (fun _ => 0)
    fun _ => { mei := true }

/-- The handler is interrupted behind its first instruction. -/
theorem handler_uninterrupted_nested : ∃ w, 7 < w ∧ w + 1 < 12 ∧ Opens nestedRun w :=
  handler_uninterrupted nestedRun 7 12 IntNo.msi (by decide) (by decide +kernel)
    ⟨by decide +kernel, by decide +kernel⟩

end Nested

end Core

end PuaCpu
