import PuaCpu.Pipeline.Order
import PuaCpu.Pipeline.TrapShadow
import PuaCpu.Privilege.Status

/-! # Precise traps

The memory strobes and the write enable of the CSR unit are decided before the
trap is. A synchronous exception never meets an effect of its own instruction,
but an interrupt can be attached to an aligned store or to a CSR instruction.
-/

namespace PuaCpu

namespace Decoder

theorem fusel_of_instIllegal {inst : Word} (h : instIllegal inst = true) :
    (info inst).fusel = .alu := by
  have hl : (!((lookup inst).instrType = .n : Bool) || (lookup inst).fuType = .alu) = true :=
    lookup_induction (P := fun e => (!(e.instrType = .n : Bool) || e.fuType = .alu) = true)
      (by decide) (by decide) inst
  simp only [instIllegal, decide_eq_true_eq] at h
  simpa [h, info] using hl

end Decoder

namespace Core

/-- The registers that a trap is allowed to change, with the free-running ones. -/
def trapRegs : List CsrName := [.mstatus, .mepc, .mcause, .mtval, .cycle, .mip]

/-- The instruction in execute in a cycle has no effect on memory and general registers, and on
the CSRs only that of trap entry. -/
structure Precise (ins : ℕ → In) (t : ℕ) : Prop where
  sram : (dataSram (machine.run ins t)).isWrite = false
  regfile : (WriteBackUnit.regfile (machine.run ins (t + 2)).wb).wen = false
  csr : ∀ c ∉ trapRegs,
    (machine.run ins (t + 1)).csr.reg c = (machine.run ins t).csr.reg c

/-- Whether decode has attached an interrupt to the instruction in execute. -/
def interrupted (s : State) : Bool := orR s.exe.ex.interrupt

/-- The instruction in execute is a store at an aligned address. -/
structure Storing (s : State) : Prop where
  fusel : s.exe.info.fusel = .lsu
  isStore : LSUOpType.isStore s.exe.info.op = true
  aligned : Lsu.addrMisaligned s.exe.info.op (Lsu.memAddr s.exe.info s.exe.srcInfo) = false

/-- The CSRs that trap entry keeps and CSR instructions can change. -/
def plainRegs : List CsrName := [.mie, .mtvec, .mcounteren, .mscratch]

/-- The instruction in execute is a permitted CSR access whose masked value is new. -/
def SettingCsr (s : State) (i : In) : Prop :=
  let csrIn := Fu.csrIn s.exe i.interrupt
  ∃ c ∈ plainRegs, Csr.wen s.csr csrIn = true ∧ Csr.csrAddr csrIn = c.addr ∧
    Bits.merge c.writeMask (s.csr.reg c) (Csr.writeData csrIn (s.csr.reg c)) ≠ s.csr.reg c

variable {s : State} {i : In} {ins : ℕ → In}

section Effects

theorem isWrite_iff (hv : s.exe.info.valid = true) : (dataSram s).isWrite = true ↔ Storing s := by
  have hw := Lsu.memWenTmp_ne_zero s.exe.info.op (Lsu.memAddr s.exe.info s.exe.srcInfo)
  constructor
  · intro h
    simp only [dataSram, Fu.dataSram, Lsu.dataSram, DataSram.isWrite, Lsu.hasExc, hv,
      Bool.true_and, Bool.not_false, Bool.and_eq_true, Bool.not_eq_true', bne_iff_ne, ne_eq,
      ite_eq_right_iff, Classical.not_imp, decide_eq_true_eq] at h
    obtain ⟨he, ⟨hf, hs⟩, -⟩ := h
    exact ⟨hf, hs, by simpa [hf] using he⟩
  · intro h
    simp only [dataSram, Fu.dataSram, Lsu.dataSram, DataSram.isWrite, Lsu.hasExc, hv, h.fusel,
      h.isStore, h.aligned, decide_true, Bool.and_true, Bool.and_false, Bool.not_false,
      if_true, Bool.true_and]
    exact bne_iff_ne.mpr hw

theorem writeMask_of_not_mem {c : CsrName} (hc : c ∉ trapRegs) (hp : c ∉ plainRegs) :
    c.writeMask = 0#64 := by
  revert hc hp
  cases c <;> decide

theorem writeReg_of_not_mem {c : CsrName} (hc : c ∉ trapRegs) (j : Csr.In) (old : Word) :
    Csr.writeReg j c old = Bits.merge c.writeMask old (Csr.writeData j old) := by
  have hs : c ≠ .mstatus := by
    rintro rfl
    exact hc (by decide)
  rw [Csr.writeReg_eq, Csr.storeMask, if_neg fun h => hs h.1]

theorem csr_kept_iff : (∀ c ∉ trapRegs, (step s i).csr.reg c = s.csr.reg c) ↔ ¬ SettingCsr s i := by
  have hstep : ∀ c ∉ trapRegs,
      (step s i).csr.reg c = Csr.csrRegs s.csr (Fu.csrIn s.exe i.interrupt) c := by
    intro c hc
    exact Csr.nextReg_of_ne fun h => hc (by revert h; cases c <;> decide)
  constructor
  · rintro h ⟨c, hp, hw, ha, hne⟩
    have hc : c ∉ trapRegs := by
      revert hp
      cases c <;> decide
    apply hne
    rw [← writeReg_of_not_mem hc, ← Csr.csrRegs_of_wen hw ha, ← hstep c hc, h c hc]
  · intro h c hc
    have hcy : c ≠ .cycle := (ne_of_mem_of_not_mem (by decide) hc).symm
    rw [hstep c hc]
    by_cases hw : Csr.wen s.csr (Fu.csrIn s.exe i.interrupt) = true ∧
        Csr.csrAddr (Fu.csrIn s.exe i.interrupt) = c.addr
    · obtain ⟨hw, ha⟩ := hw
      rw [Csr.csrRegs_of_wen hw ha, writeReg_of_not_mem hc]
      by_cases hp : c ∈ plainRegs
      · by_contra hne
        exact h ⟨c, hp, hw, ha, hne⟩
      · rw [writeMask_of_not_mem hc hp, Bits.merge_zero]
    · exact Csr.csrRegs_of_not_stored hw hcy

end Effects

section Attached

theorem ex_interrupt : (Csr.ex s.csr (Fu.csrIn s.exe i.interrupt)).interrupt =
    s.exe.ex.interrupt := by
  unfold Csr.ex Fu.csrIn Bru.ex Lsu.ex
  dsimp only
  split_ifs <;> rfl

/-- A slot at a misaligned `pc` carries a NOP, whatever the memory drives. -/
theorem dec_inst_of_misaligned {t : ℕ}
    (h : FetchUnit.isAlign (machine.run ins t).dec.pc = false) :
    (machine.run ins t).dec.inst = Const.nop := by
  induction t with
  | zero => exact absurd h (by simp [machine, init, FetchUnit.isAlign])
  | succ t ih =>
    rw [run_succ] at h ⊢
    cases hf : flush (machine.run ins t) (ins t)
    · cases hs : stall (machine.run ins t)
      · rw [step_dec_of_go hf hs, fetched_eq, fetchNext, hf, hs] at h ⊢
        have h4 := isAlign_add_four (machine.run ins t).fetch.pc
        simp only [Bool.false_eq_true, if_false] at h ⊢
        rw [if_neg (by rw [h4, h]; decide)]
      · rw [step_dec_of_stall hf hs] at h ⊢
        exact ih h
    · rw [step_dec_of_flush hf] at h
      exact absurd h (by decide)

/-- Decode attaches no exception to an instruction outside the ALU, environment calls apart. -/
theorem exe_exception_eq_false {t : ℕ} (hv : (machine.run ins t).exe.info.valid = true)
    (ha : (machine.run ins t).exe.info.fusel ≠ .alu)
    (hb : ExcCtrl.isEbreak (machine.run ins t).exe.info = false)
    (hc : ExcCtrl.isEcall (machine.run ins t).exe.info = false) :
    orR (machine.run ins t).exe.ex.exception = false := by
  rcases t with _ | t
  · exact absurd hv (by simp [machine, init])
  · obtain ⟨-, -, hd, he⟩ := exe_eq_of_valid hv
    rw [he] at ha hb hc ⊢
    rw [orR_eq_false]
    intro k
    change (DecodeUnit.info (machine.run ins t).dec).fusel ≠ .alu at ha
    have hp : (machine.run ins t).dec.pc.extractLsb' 0 2 = 0#2 := by
      by_contra hn
      have hnop : (Decoder.info Const.nop).fusel = .alu := by decide
      rw [DecodeUnit.info, dec_inst_of_misaligned (beq_eq_false_iff_ne.mpr hn)] at ha
      exact ha hnop
    have hl : Decoder.instIllegal (machine.run ins t).dec.inst = false := by
      by_contra hn
      rw [Bool.not_eq_false] at hn
      exact ha (Decoder.fusel_of_instIllegal hn)
    change (ExcCtrl.excInfo _ _ _ _ _).exception k = false
    have hx : (DecodeUnit.info (machine.run ins t).dec).valid = true := hd
    change ExcCtrl.isEbreak (DecodeUnit.info (machine.run ins t).dec) = false at hb
    change ExcCtrl.isEcall (DecodeUnit.info (machine.run ins t).dec) = false at hc
    simp [ExcCtrl.excInfo, hx, ExcCtrl.exception, hp, hl, hb, hc]

theorem interrupted_of_trap (ht : trap s i = true)
    (hx : Csr.ex s.csr (Fu.csrIn s.exe i.interrupt) = s.exe.ex)
    (he : orR s.exe.ex.exception = false) : interrupted s = true := by
  simp only [trap, Csr.trap, Csr.hasExc, Csr.isException, Csr.isInterrupt, hx, he,
    Bool.false_or, Bool.and_eq_true] at ht
  exact ht.1

theorem interrupted_of_storing {t : ℕ} (ht : trap (machine.run ins t) (ins t) = true)
    (h : Storing (machine.run ins t)) : interrupted (machine.run ins t) = true := by
  refine interrupted_of_trap ht ?_ (exe_exception_eq_false (valid_of_trap ht) ?_ ?_ ?_)
  · simp [Csr.ex, Csr.isIllegal, Csr.write, Csr.isCsr, Fu.csrIn, Bru.ex, Bru.hasExc, Bru.branch,
      Lsu.ex, Lsu.hasExc, h.fusel, h.aligned]
  all_goals simp [h.fusel, ExcCtrl.isEbreak, ExcCtrl.isEcall]

theorem interrupted_of_wen {t : ℕ} {c : CsrName} (ht : trap (machine.run ins t) (ins t) = true)
    (hw : Csr.wen (machine.run ins t).csr
      (Fu.csrIn (machine.run ins t).exe (ins t).interrupt) = true)
    (ha : Csr.csrAddr (Fu.csrIn (machine.run ins t).exe (ins t).interrupt) = c.addr) :
    interrupted (machine.run ins t) = true := by
  have hwr := Csr.write_of_wen hw
  simp only [Csr.write, Csr.isCsr, Bool.and_eq_true, CSROpType.isCSROp] at hwr
  obtain ⟨⟨-, hop⟩, hd⟩ := hwr
  have hf : (machine.run ins t).exe.info.fusel = .csr := of_decide_eq_true hd
  change (!(machine.run ins t).exe.info.op.getLsbD 3) = true at hop
  refine interrupted_of_trap ht ?_ (exe_exception_eq_false (valid_of_trap ht) ?_ ?_ ?_)
  · have hi : Csr.isIllegal (machine.run ins t).csr
        (Fu.csrIn (machine.run ins t).exe (ins t).interrupt) = false := by
      simp [Csr.isIllegal, Csr.not_illegalAccess_of_wen hw, Csr.illegalAddr, ha,
        CsrName.ofAddr_addr]
    rw [Csr.ex, hi]
    simp [Fu.csrIn, Bru.ex, Bru.hasExc, Bru.branch, Lsu.ex, Lsu.hasExc, hf]
  · simp [hf]
  all_goals
    simp only [ExcCtrl.isEbreak, ExcCtrl.isEcall, hf, decide_true, Bool.true_and,
      beq_eq_false_iff_ne]
    intro he
    rw [he] at hop
    exact absurd hop (by decide)

theorem interrupted_of_settingCsr {t : ℕ} (ht : trap (machine.run ins t) (ins t) = true)
    (h : SettingCsr (machine.run ins t) (ins t)) : interrupted (machine.run ins t) = true := by
  obtain ⟨c, -, hw, ha, -⟩ := h
  exact interrupted_of_wen ht hw ha

end Attached

/-- **Traps are precise exactly when no interrupt meets an aligned store or a CSR instruction
that changes its CSR.** -/
theorem precise_trap (ins : ℕ → In) (t : ℕ) (h : trap (machine.run ins t) (ins t) = true) :
    Precise ins t ↔ ¬ (interrupted (machine.run ins t) = true ∧
      (Storing (machine.run ins t) ∨ SettingCsr (machine.run ins t) (ins t))) := by
  have hv := valid_of_trap h
  have hr : (WriteBackUnit.regfile (machine.run ins (t + 2)).wb).wen = false := by
    rw [← result_eq]
    simp [result, h]
  constructor
  · rintro hp ⟨-, hs | hs⟩
    · exact absurd ((isWrite_iff hv).mpr hs) (by simp [hp.sram])
    · exact csr_kept_iff.mp hp.csr hs
  · intro hn
    refine ⟨?_, hr, csr_kept_iff.mpr fun hs => ?_⟩
    · by_contra hw
      rw [Bool.not_eq_false, isWrite_iff hv] at hw
      exact hn ⟨interrupted_of_storing h hw, .inl hw⟩
    · exact hn ⟨interrupted_of_settingCsr h hs, .inr hs⟩

/-- The misaligned load of `leakRun` traps precisely. -/
theorem precise_trap_load : Precise leakRun 4 :=
  (precise_trap leakRun 4 (by decide +kernel)).mpr fun h => absurd h.1 (by decide +kernel)

section Example

/-- `CSRRWI MIE, 8`, `CSRRWI MSTATUS, 8` and a NOP, then the instruction that is interrupted. -/
def interruptProgram (inst : BitVec 32) (a : SramAddr) : BitVec 32 :=
  if a = 0x80000000 then 0x30445073 else if a = 0x80000004 then 0x30045073
  else if a = 0x8000000c then inst else 0x13

/-- The run of this program with the external line high. -/
def interruptRun (inst : BitVec 32) : ℕ → In :=
  stimulus (interruptProgram inst) (fun _ => 0x1122334455667788) fun _ => { mei := true }

/-- An interrupted `sd x0, 0(x0)` still clears the doubleword at 0, and an interrupted
`CSRRWI MSCRATCH, 5` still writes its CSR. -/
theorem interrupted_effects :
    (trap (machine.run (interruptRun 0x3023) 7) (interruptRun 0x3023 7) = true ∧
      dataSram (machine.run (interruptRun 0x3023) 7) = ⟨true, 0, 0, 0xff⟩ ∧
      ¬ Precise (interruptRun 0x3023) 7) ∧
    (trap (machine.run (interruptRun 0x3402d073) 7) (interruptRun 0x3402d073 7) = true ∧
      (machine.run (interruptRun 0x3402d073) 8).csr.reg .mscratch = 5 ∧
      ¬ Precise (interruptRun 0x3402d073) 7) := by
  refine ⟨⟨by decide +kernel, by decide +kernel, fun h => ?_⟩,
    ⟨by decide +kernel, by decide +kernel, fun h => ?_⟩⟩
  · exact absurd h.sram (by decide +kernel)
  · exact absurd (h.csr .mscratch (by decide)) (by decide +kernel)

end Example

end Core

end PuaCpu
