import PuaCpu.Core.Sram
import PuaCpu.Pipeline.Operands

/-! # Forwarding and traps

The registers that the non-trapping instructions leave are those that
write-back stores. Every operand is the value of such a register, except that
write-back offers a trapped instruction's result to the network although it
does not store it.
-/

namespace PuaCpu.Core

/-- Whether the instruction in execute takes a trap. -/
def trap (s : State) (i : In) : Bool := Csr.trap s.csr (Fu.csrIn s.exe i.interrupt)

/-- The register write of the instruction in execute, with the value it has at write-back: none
for an empty slot and none for an instruction that takes a trap. -/
def result (ins : ℕ → In) (t : ℕ) : RegWrite where
  wen := (machine.run ins t).exe.info.valid && (machine.run ins t).exe.info.regWen &&
    !trap (machine.run ins t) (ins t)
  waddr := (machine.run ins t).exe.info.regWaddr
  wdata := (machine.run ins (t + 2)).wb.rdInfo.wdata

/-- The architectural registers before the instruction that is in execute in a cycle: what the
older non-trapping instructions leave. -/
def archRegs (ins : ℕ → In) : ℕ → ARegFile
  | 0 => ARegFile.init
  | t + 1 => (archRegs ins t).write (result ins t)

variable {s : State} {i : In} {ins : ℕ → In}

section Arch

theorem trap_eq : trap s i = (Fu.hasExc s.csr s.exe i.interrupt && s.exe.info.valid) := rfl

theorem result_eq (t : ℕ) : result ins t = WriteBackUnit.regfile (machine.run ins (t + 2)).wb := by
  rw [WriteBackUnit.regfile, wb_info, wb_hasExc, result, trap_eq]
  cases (machine.run ins t).exe.info.valid <;> simp

/-- The register file holds the architectural registers once the older instructions are through
write-back. -/
theorem archRegs_eq (t : ℕ) : archRegs ins t = (machine.run ins (t + 2)).regs := by
  induction t with
  | zero =>
    have h : (machine.run ins 2).regs =
        ((machine.run ins 0).regs.write (WriteBackUnit.regfile (machine.run ins 0).wb)).write
          (WriteBackUnit.regfile (machine.run ins 1).wb) := rfl
    have h1 : (WriteBackUnit.regfile (machine.run ins 1).wb).wen = false := by
      rw [WriteBackUnit.regfile, wb_one]
      rfl
    rw [h, ARegFile.write_of_not_wen (.inl h1), ARegFile.write_of_not_wen (.inl rfl)]
    rfl
  | succ t ih =>
    rw [archRegs, ih, result_eq]
    rfl

theorem archRegs_succ_eq (t : ℕ) : archRegs ins (t + 1) =
    (((machine.run ins t).regs.write (WriteBackUnit.regfile (machine.run ins t).wb)).write
      (WriteBackUnit.regfile (machine.run ins (t + 1)).wb)).write
        (WriteBackUnit.regfile (machine.run ins (t + 2)).wb) := by
  rw [archRegs_eq]
  rfl

end Arch

section Trap

theorem flush_of_trap (h : trap s i = true) : flush s i = true := by
  rw [trap] at h
  simp [flush, Fu.flush, Csr.flush, h]

theorem valid_of_trap (h : trap s i = true) : s.exe.info.valid = true :=
  valid_of_flush (flush_of_trap h)

theorem valid_of_hasExc {t : ℕ} {lines : ExtInterrupt}
    (h : Fu.hasExc (machine.run ins t).csr (machine.run ins t).exe lines = true) :
    (machine.run ins t).exe.info.valid = true := by
  by_contra hv
  rw [Bool.not_eq_true] at hv
  simp [Fu.hasExc, Csr.hasExc, Csr.isException, Csr.isInterrupt, Csr.ex, Csr.isIllegal, Csr.write,
    Fu.csrIn, Bru.ex, Bru.hasExc, Bru.branch, Lsu.ex, Lsu.hasExc, hv, exe_ex_run hv, orR] at h

theorem trap_of_hasExc {t : ℕ}
    (h : Fu.hasExc (machine.run ins t).csr (machine.run ins t).exe (ins t).interrupt = true) :
    trap (machine.run ins t) (ins t) = true := by
  rw [trap_eq, h, valid_of_hasExc h]
  rfl

theorem trap_of_wb_hasExc {t : ℕ} (h : (machine.run ins t).wb.hasExc = true) :
    ∃ v, t = v + 2 ∧ trap (machine.run ins v) (ins v) = true := by
  match t with
  | 0 => exact absurd h (by simp [machine, init])
  | 1 => exact absurd h (by simp [machine, step_wb, Clocked.run_succ, memOut, init,
      MemoryUnit.writeBackStage])
  | v + 2 =>
    rw [wb_hasExc] at h
    exact ⟨v, rfl, trap_of_hasExc h⟩

theorem mem_not_hasExc {t : ℕ} (hd : (machine.run ins t).dec.valid = true) :
    (machine.run ins t).mem.hasExc = false := by
  rcases t with _ | t
  · rfl
  · by_contra hn
    rw [Bool.not_eq_false] at hn
    have ht : trap (machine.run ins t) (ins t) = true := trap_of_hasExc hn
    rw [run_succ, step_dec_of_flush (flush_of_trap ht)] at hd
    exact absurd hd (by decide)

end Trap

section Exact

theorem read_pendingWrite {regs regs' : ARegFile} {f : FowardSrc} {w : MemWbData} {r : RegAddr}
    (h : regs.read r = regs'.read r) (hq : Quiet w.info) (hx : w.hasExc = false)
    (hw : f.regWen = w.info.regWen) (ha : f.regWaddr = w.info.regWaddr)
    (hd : w.info.valid = true → f.regWen = true → f.regWaddr = r → r ≠ 0 →
      f.wdata = w.rdInfo.wdata) :
    (regs.write (FowardCtrl.pendingWrite f)).read r =
      (regs'.write (WriteBackUnit.regfile w)).read r := by
  refine ARegFile.read_write_congr h ha fun hr h0 => ?_
  change f.regWaddr = r at hr
  simp only [FowardCtrl.pendingWrite, WriteBackUnit.regfile, hx, hw]
  cases hv : w.info.valid
  · rcases hq hv with hn | hn
    · simp [hn]
    · exact absurd (hr.symm.trans (ha.trans hn)) h0
  · exact ⟨by simp, fun hwen => hd hv (hw.trans hwen) hr h0⟩

/-- Outside the shadow of a trap an operand is an architectural register. -/
theorem forwarded_read {t : ℕ} {r : RegAddr} (hq : Settled ins t 3)
    (hf : flush (machine.run ins t) (ins t) = false) (hs : stall (machine.run ins t) = false)
    (hd : (machine.run ins t).dec.valid = true)
    (hr : Reads (DecodeUnit.info (machine.run ins t).dec) r)
    (hx : (machine.run ins t).wb.hasExc = false) :
    (forwarded (machine.run ins t) (ins t)).read r = (archRegs ins (t + 1)).read r := by
  rw [archRegs_succ_eq, forwarded]
  have hwb : Quiet (machine.run ins t).wb.info := quiet_wb_run hq
  have hmem : Quiet (machine.run ins (t + 1)).wb.info :=
    quiet_mem_run (hq.imp_left fun h => by omega)
  have hexe : Quiet (machine.run ins (t + 2)).wb.info :=
    quiet_exe_run (hq.imp_left fun h => by omega)
  have hexc : Fu.hasExc (machine.run ins t).csr (machine.run ins t).exe (ins t).interrupt =
      false := by
    by_contra hn
    rw [Bool.not_eq_false] at hn
    rw [flush_of_trap (trap_of_hasExc hn)] at hf
    exact absurd hf (by decide)
  refine read_pendingWrite (read_pendingWrite (read_pendingWrite rfl hwb hx rfl rfl ?_) hmem
    (mem_not_hasExc hd) rfl rfl ?_) hexe hexc rfl rfl ?_
  · exact fun _ _ _ _ => rfl
  · exact fun _ _ _ _ => rfl
  · intro hv hw ha h0
    change (machine.run ins t).exe.info.valid = true at hv
    change (machine.run ins t).exe.info.regWen = true at hw
    change (machine.run ins t).exe.info.regWaddr = r at ha
    have hl : (machine.run ins t).exe.info.fusel ≠ .lsu := by
      -- a load whose result is asked for makes decode wait
      intro hl
      have hc : stall (machine.run ins t) = true := by
        simp only [stall, CtrlUnit.exeConflict, hv, hw, ha, hl, exe_isLoad_run hw hl,
          Bool.and_eq_true, Bool.or_eq_true, Bool.not_eq_true', beq_iff_eq, beq_eq_false_iff_ne,
          decide_true, true_and, and_true]
        exact ⟨h0, hr⟩
      rw [hc] at hs
      exact absurd hs (by decide)
    exact (congrArg RdInfo.wdata (if_neg hl)).symm

end Exact

end PuaCpu.Core
