import PuaCpu.Sequential.Refinement

/-! # The refinement in runs with traps

A trapped instruction is committed with its address, but its register write is
suppressed, and what its handler sees of it are the CSRs. The pipeline does the
same as the sequential machine unless a handler starts with a read of the
suppressed result.
-/

namespace PuaCpu

/-- A commit: the `pc` and the register write that takes place. -/
def MemWbData.commit (d : MemWbData) : Word × Option (RegAddr × Word) :=
  (d.pc, if (WriteBackUnit.regfile d).wen then some (d.info.regWaddr, d.rdInfo.wdata) else none)

namespace Sequential

/-- What the instruction commits. -/
def retire (imem : SramAddr → BitVec 32) (a : State) (_ : Unit) :
    Option (Word × Option (RegAddr × Word)) :=
  some (execute imem a).commit

end Sequential

namespace Core

variable {imem : SramAddr → BitVec 32} {m : Dmem} {ins : ℕ → In} {n t : ℕ}

/-- What write-back commits. -/
def retireWrite (s : State) (_ : In) : Option (Word × Option (RegAddr × Word)) :=
  if (debug s).commit then some s.wb.commit else none

theorem Served.commit_eq (h : Served imem m ins n) (ht : t < n)
    (hv : (machine.run ins t).exe.info.valid = true) : (machine.run ins (t + 2)).wb.commit =
      (Sequential.execute imem (reached imem m ins t)).commit := by
  have hs := h.sim_run t ht.le
  cases hq : trap (machine.run ins t) (ins t) with
  | false => rw [h.wb_eq_execute ht hs hv hq]
  | true =>
    have hw : (WriteBackUnit.regfile (machine.run ins (t + 2)).wb).wen = false := by
      rw [← result_eq]
      simp [result, hq]
    have hx : (Sequential.execute imem (reached imem m ins t)).hasExc = true := by
      have hc := (h.trap_eq ht hs hv).symm.trans hq
      rw [Csr.trap, Bool.and_eq_true] at hc
      exact hc.1
    have hw' : (WriteBackUnit.regfile
        (Sequential.execute imem (reached imem m ins t))).wen = false := by
      simp [WriteBackUnit.regfile, hx]
    rw [MemWbData.commit, MemWbData.commit, hw, hw', h.wb_pc ht hs hv]
    rfl

theorem Served.retireWrite_add_two (h : Served imem m ins n) (ht : t < n) :
    retireWrite (machine.run ins (t + 2)) (ins (t + 2)) =
      if issued (machine.run ins t) (ins t) then
        Sequential.retire imem (reached imem m ins t) ()
      else none := by
  have hc : (debug (machine.run ins (t + 2))).commit =
      issued (machine.run ins t) (ins t) := rfl
  rw [retireWrite, hc]
  cases hv : issued (machine.run ins t) (ins t)
  · rfl
  · rw [Sequential.retire, ← h.commit_eq ht hv]

theorem log_retireWrite_two : machine.log retireWrite ins 2 = [] := by
  have h0 : retireWrite (machine.run ins 0) (ins 0) = none := rfl
  have h1 : retireWrite (machine.run ins 1) (ins 1) = none := by
    rw [retireWrite, debug, WriteBackUnit.debug, wb_one]
    rfl
  rw [Clocked.log_succ_none h1, Clocked.log_succ_none h0]
  rfl

/-- **Also with traps the pipeline refines the sequential machine.** The commits with their
register writes and the writes to the data SRAM are those of the instructions one at a time, and
the registers and CSRs behind them agree. -/
theorem trapping_refines (h : Served imem m ins n) :
    machine.log retireWrite ins (n + 2) =
      (Sequential.machine imem m).log (Sequential.retire imem) (fun _ => ())
        (machine.count issued ins n) ∧
    machine.log dataWrite ins n =
      (Sequential.machine imem m).log (Sequential.write imem) (fun _ => ())
        (machine.count issued ins n) ∧
    (machine.run ins (n + 2)).regs = (reached imem m ins n).regs ∧
    Csr.Same (machine.run ins n).csr (reached imem m ins n).csr := by
  have hs := h.sim_run n le_rfl
  refine ⟨?_, ?_, ?_, hs.csr⟩
  · exact Clocked.log_stutter log_retireWrite_two (fun t ht => h.retireWrite_add_two ht) n le_rfl
  · exact Clocked.log_stutter (d := 0) rfl (fun t ht => h.dataWrite_eq ht) n le_rfl
  · rw [hs.regs, archRegs_eq]

section Example

/-- `ecall` at the reset vector, and at the trap vector `addi x1, x1, 1` with a jump back to it. -/
def ecallProgram (a : SramAddr) : BitVec 32 :=
  if a = 0x80000000 then 0x00000073 else if a = 0 then 0x00108093 else 0xffdff06f

def ecallRun : ℕ → In := stimulus ecallProgram (fun _ => 0) fun _ => {}

theorem served_ecallRun : Served ecallProgram (fun _ => 0) ecallRun 12 where
  inst := instSync_stimulus
  data t _ hv _ hq :=
    dataSync_stimulus t (by have := four_le_of_exe_valid hv; omega) (dataSram_en_of_not_trap hq)
  start t ht := fun _ => .inl (by revert t; decide +kernel)
  low t _ := stimulus_interrupt t
  no_leak := by decide +kernel
  target_lt := by decide +kernel
  no_cycle := by decide +kernel

theorem trapping_refines_ecall :
    machine.log retireWrite ecallRun 14 =
      (Sequential.machine ecallProgram fun _ => 0).log (Sequential.retire ecallProgram)
        (fun _ => ()) (machine.count issued ecallRun 12) :=
  (trapping_refines served_ecallRun).1

end Example

end Core

end PuaCpu
