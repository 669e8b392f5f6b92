import PuaCpu.Pipeline.TrapShadow
import PuaCpu.Sequential.Machine

/-! # The pipeline refines the sequential machine

In a run without traps the instruction in execute is the one that the sequential
machine decodes in the state that the older instructions leave. The sequential
machine steps in the cycles in which execute holds an instruction; write-back
commits the result two cycles later.
-/

namespace PuaCpu

namespace ExceptionInfo

variable {e : ExceptionInfo} {j k : ExcNo} {v : Word}

theorem raise_exception_self : (e.raise k v).exception k = true := Function.update_self ..

theorem raise_exception_of (h : e.exception j = true) : (e.raise k v).exception j = true := by
  simp [raise, Function.update_apply, h]

end ExceptionInfo

namespace Fu

variable {s s' : Csr.State} {d : IdExeData} {lines : ExtInterrupt}

theorem flush_congr (h : Csr.Same s s') : flush s d lines = flush s' d lines := by
  rw [flush, h.flush, ← flush]

theorem target_congr (h : Csr.Same s s') : target s d lines = target s' d lines := by
  rw [target, h.flush, h.target, ← target]

theorem csrNext_congr (h : Csr.Same s s') : Csr.Same (csrNext s d lines) (csrNext s' d lines) :=
  h.step

theorem memoryStage_congr (h : Csr.Same s s')
    (hr : d.info.fusel = .csr → Csr.csrAddr (csrIn d lines) ≠ CsrName.cycle.addr) :
    memoryStage s d lines = memoryStage s' d lines := by
  have hd : rdInfo s d lines = rdInfo s' d lines := by
    unfold rdInfo
    cases hf : d.info.fusel with
    | csr => rw [h.defaultRead (hr hf)]
    | _ => rfl
  rw [memoryStage, hd, hasExc, h.hasExc, ← hasExc, ← memoryStage]

end Fu

namespace Csr

variable {s : State} {i : In}

theorem same_step_of_not_valid (hv : i.info.valid = false) (hl : i.interruptInfo = {}) :
    Same (step s i) s := by
  rw [step_of_not_valid hv, hl]
  exact ⟨rfl, fun c hc => idle_reg hc⟩

end Csr

namespace Sequential

open PuaCpu.Core

variable {imem : SramAddr → BitVec 32} {a : State} {d : IfIdData} {i : DecodeIn}

/-- Decode makes of a slot what the sequential machine makes of its state when both have the same
operands. -/
theorem executeStage_eq_decode (hpc : d.pc = a.pc) (hd : d.inst = fetchWord imem a.pc)
    (hv : d.valid = true) (hm : i.mode = a.csr.mode) (hi : i.interruptInfo = {})
    (h1 : (DecodeUnit.info d).src1Ren = true →
      (DecodeUnit.srcInfo d i).src1Data = a.regs.read (DecodeUnit.info d).src1Raddr)
    (h2 : (DecodeUnit.info d).src2Ren = true →
      (DecodeUnit.srcInfo d i).src2Data = a.regs.read (DecodeUnit.info d).src2Raddr) :
    DecodeUnit.executeStage d i = decode imem a := by
  have hinfo : DecodeUnit.info d = { Decoder.info (fetchWord imem a.pc) with valid := true } := by
    rw [DecodeUnit.info, hd, hv]
  have hs1 : (DecodeUnit.srcInfo d i).src1Data =
      DecodeUnit.src1Data a.regs a.pc (DecodeUnit.info d) := by
    cases hr : (DecodeUnit.info d).src1Ren
    · simp [DecodeUnit.srcInfo, DecodeUnit.src1Data, FowardCtrl.srcOut, hr, hpc]
    · rw [h1 hr, DecodeUnit.src1Data, if_pos hr]
  have hs2 : (DecodeUnit.srcInfo d i).src2Data =
      DecodeUnit.src2Data a.regs (DecodeUnit.info d) := by
    cases hr : (DecodeUnit.info d).src2Ren
    · simp [DecodeUnit.srcInfo, DecodeUnit.src2Data, FowardCtrl.srcOut, hr]
    · rw [h2 hr, DecodeUnit.src2Data, if_pos hr]
  have hsrc : DecodeUnit.srcInfo d i =
      ⟨DecodeUnit.src1Data a.regs a.pc (DecodeUnit.info d),
        DecodeUnit.src2Data a.regs (DecodeUnit.info d)⟩ := by
    rw [← hs1, ← hs2]
  rw [DecodeUnit.executeStage, hsrc, hinfo, hpc, hd, hm, hi]
  rfl

theorem regs_zero {m : Dmem} (k : ℕ) : ((machine imem m).run (fun _ => ()) k).regs 0 = 0 := by
  induction k with
  | zero => rfl
  | succ k ih =>
    rw [Clocked.run_succ]
    change ARegFile.write _ _ 0 = 0
    rw [ARegFile.write]
    split_ifs with hw
    · rw [Function.update_of_ne _ _ _, ih]
      simp only [Bool.and_eq_true, bne_iff_ne] at hw
      exact hw.2.symm
    · exact ih

end Sequential

namespace Core

variable {imem : SramAddr → BitVec 32} {m : Dmem} {ins : ℕ → In} {n t : ℕ}
  {a : Sequential.State}

/-- The assumptions about the first `n` cycles: SRAMs that drive `imem` and the data memory, low
lines, no trap, redirects within the address space, no read of `CYCLE`, and nothing that writes a
register before the first fetch. -/
structure Plain (imem : SramAddr → BitVec 32) (m : Dmem) (ins : ℕ → In) (n : ℕ) : Prop where
  inst : InstSync imem ins
  data : DataSync m ins
  start : QuietStart ins
  low : ∀ t < n, (ins t).interrupt = {}
  no_trap : ∀ t < n, trap (machine.run ins t) (ins t) = false
  target_lt : ∀ t < n, flush (machine.run ins t) (ins t) = true →
    (target (machine.run ins t) (ins t)).toNat < 2 ^ 32
  no_cycle : ∀ t < n, (machine.run ins t).exe.info.valid = true →
    (machine.run ins t).exe.info.fusel = .csr →
    (machine.run ins t).exe.info.inst.extractLsb' 20 12 ≠ CsrName.cycle.addr

/-- Weaker assumptions: traps are allowed as long as no handler reads a suppressed result, and the
data SRAM drives its memory for the loads and stores that do not trap. -/
structure Served (imem : SramAddr → BitVec 32) (m : Dmem) (ins : ℕ → In) (n : ℕ) : Prop where
  inst : InstSync imem ins
  data : ∀ t < n, (machine.run ins t).exe.info.valid = true →
    (machine.run ins t).exe.info.fusel = .lsu → trap (machine.run ins t) (ins t) = false →
    (ins (t + 1)).dataRdata =
      memory m ins (t + 1) (DataSram.index (dataSram (machine.run ins t)).addr)
  start : QuietStart ins
  low : ∀ t < n, (ins t).interrupt = {}
  no_leak : ∀ t < n, ¬Leak (machine.run ins t)
  target_lt : ∀ t < n, flush (machine.run ins t) (ins t) = true →
    (target (machine.run ins t) (ins t)).toNat < 2 ^ 32
  no_cycle : ∀ t < n, (machine.run ins t).exe.info.valid = true →
    (machine.run ins t).exe.info.fusel = .csr →
    (machine.run ins t).exe.info.inst.extractLsb' 20 12 ≠ CsrName.cycle.addr

instance (info : Info) (r : RegAddr) : Decidable (Reads info r) :=
  inferInstanceAs (Decidable (_ ∨ _))

instance (s : State) : Decidable (Leak s) :=
  decidable_of_iff (s.wb.hasExc = true ∧ s.wb.info.regWen = true ∧ s.wb.info.regWaddr ≠ 0 ∧
    s.dec.valid = true ∧ Reads (DecodeUnit.info s.dec) s.wb.info.regWaddr ∧
    s.wb.rdInfo.wdata ≠ s.regs.read s.wb.info.regWaddr)
    ⟨fun ⟨h1, h2, h3, h4, h5, h6⟩ => ⟨h1, h2, h3, h4, h5, h6⟩,
      fun ⟨h1, h2, h3, h4, h5, h6⟩ => ⟨h1, h2, h3, h4, h5, h6⟩⟩

theorem Served.zero (hi : InstSync imem ins) (hs : QuietStart ins) : Served imem m ins 0 where
  inst := hi
  data _ h := absurd h (Nat.not_lt_zero _)
  start := hs
  low _ h := absurd h (Nat.not_lt_zero _)
  no_leak _ h := absurd h (Nat.not_lt_zero _)
  target_lt _ h := absurd h (Nat.not_lt_zero _)
  no_cycle _ h := absurd h (Nat.not_lt_zero _)

theorem Served.congr {ins' : ℕ → In} (h : Served imem m ins n) (hi : InstSync imem ins')
    (hs : QuietStart ins') (he : ∀ t ≤ n, ins' t = ins t) : Served imem m ins' n := by
  have hr {t : ℕ} (ht : t ≤ n) : machine.run ins' t = machine.run ins t :=
    Clocked.run_congr fun v hv => he v (by omega)
  refine ⟨hi, fun t ht => ?_, hs, fun t ht => ?_, fun t ht => ?_, fun t ht => ?_, fun t ht => ?_⟩
  · rw [hr ht.le, he t ht.le, he (t + 1) ht, memory_congr fun v hv => he v (by omega)]
    exact h.data t ht
  · rw [he t ht.le]
    exact h.low t ht
  · rw [hr ht.le]
    exact h.no_leak t ht
  · rw [hr ht.le, he t ht.le]
    exact h.target_lt t ht
  · rw [hr ht.le]
    exact h.no_cycle t ht

/-- The assumptions for one more cycle. -/
theorem Served.succ (h : Served imem m ins n)
    (hd : (machine.run ins n).exe.info.valid = true → (machine.run ins n).exe.info.fusel = .lsu →
      trap (machine.run ins n) (ins n) = false → (ins (n + 1)).dataRdata =
        memory m ins (n + 1) (DataSram.index (dataSram (machine.run ins n)).addr))
    (hi : (ins n).interrupt = {}) (hl : ¬Leak (machine.run ins n))
    (ht : flush (machine.run ins n) (ins n) = true →
      (target (machine.run ins n) (ins n)).toNat < 2 ^ 32)
    (hc : (machine.run ins n).exe.info.valid = true → (machine.run ins n).exe.info.fusel = .csr →
      (machine.run ins n).exe.info.inst.extractLsb' 20 12 ≠ CsrName.cycle.addr) :
    Served imem m ins (n + 1) := by
  have below {P : ℕ → Prop} (hlt : ∀ t < n, P t) (hn : P n) (t : ℕ) (ht : t < n + 1) : P t :=
    (Nat.lt_succ_iff_lt_or_eq.mp ht).elim (hlt t) fun he => he ▸ hn
  exact ⟨h.inst, below h.data hd, h.start, below h.low hi, below h.no_leak hl,
    below h.target_lt ht, below h.no_cycle hc⟩

/-- The architectural state before the instruction in execute. -/
structure Sim (imem : SramAddr → BitVec 32) (m : Dmem) (ins : ℕ → In) (t : ℕ)
    (a : Sequential.State) : Prop where
  pc : a.pc = path ins t
  regs : a.regs = archRegs ins t
  csr : Csr.Same (machine.run ins t).csr a.csr
  mem : a.mem = memory m ins t

theorem low32_eq_self {pc : Word} (h : pc.toNat < 2 ^ 32) : low32 pc = pc := by
  apply BitVec.eq_of_toNat_eq
  simp only [low32, BitVec.toNat_setWidth, BitVec.extractLsb'_toNat, Nat.shiftRight_zero]
  omega

theorem trap_of_lsu_hasExc {s : State} {i : In}
    (h : Lsu.hasExc s.exe.info s.exe.srcInfo = true) : trap s i = true := by
  have hv : s.exe.info.valid = true := by
    simp only [Lsu.hasExc, Bool.and_eq_true] at h
    exact h.1.1
  have hl : ∃ k, (Lsu.ex s.exe.ex s.exe.info s.exe.srcInfo).exception k = true := by
    rw [Lsu.ex, if_pos h]
    split_ifs
    · exact ⟨_, ExceptionInfo.raise_exception_self⟩
    · exact ⟨_, ExceptionInfo.raise_exception_self⟩
  obtain ⟨k, hk⟩ := hl
  have hb : (Fu.csrIn s.exe i.interrupt).excInfo.exception k = true := by
    change (Bru.ex _ _ _ _).exception k = true
    unfold Bru.ex
    split_ifs
    · exact ExceptionInfo.raise_exception_of hk
    · exact hk
  have hc : (Csr.ex s.csr (Fu.csrIn s.exe i.interrupt)).exception k = true := by
    unfold Csr.ex
    split_ifs
    · exact ExceptionInfo.raise_exception_of hb
    · exact hb
  have he : Csr.isException s.csr (Fu.csrIn s.exe i.interrupt) = true := orR_eq_true.mpr ⟨k, hc⟩
  rw [trap_eq, hv, Fu.hasExc, Csr.hasExc, he]
  rfl

theorem step_mode_of_not_flush {s : State} {i : In} (hf : flush s i = false) :
    (step s i).csr.mode = s.csr.mode := by
  obtain ⟨ht, hr⟩ := quiet_of_not_flush hf
  change Csr.nextMode s.csr (Fu.csrIn s.exe i.interrupt) = s.csr.mode
  simp [Csr.nextMode, ht, hr]

theorem dataSram_en_of_not_trap {s : State} {i : In} (h : trap s i = false) :
    (dataSram s).en = true := by
  by_contra hn
  have hx : Lsu.hasExc s.exe.info s.exe.srcInfo = true := by
    simpa [dataSram, Fu.dataSram, Lsu.dataSram] using hn
  rw [trap_of_lsu_hasExc hx] at h
  exact absurd h (by decide)

theorem Plain.served (h : Plain imem m ins n) : Served imem m ins n where
  inst := h.inst
  data t _ hv _ hq :=
    h.data t (by have := four_le_of_exe_valid hv; omega) (dataSram_en_of_not_trap hq)
  start := h.start
  low := h.low
  no_leak t ht hl := by
    obtain ⟨v, rfl, hv⟩ := trap_of_wb_hasExc hl.hasExc
    rw [h.no_trap v (by omega)] at hv
    exact absurd hv (by decide)
  target_lt := h.target_lt
  no_cycle := h.no_cycle

namespace Served

variable (h : Served imem m ins n)

include h

theorem mip (ht : t ≤ n) : (machine.run ins t).csr.reg .mip = 0 := by
  induction t with
  | zero => rfl
  | succ t ih =>
    change Csr.mipUpdate ((machine.run ins t).csr.reg .mip) (ins t).interrupt = 0
    rw [ih (by omega), h.low t (by omega)]
    decide

theorem interrupt (ht : t ≤ n) : Csr.interrupt (machine.run ins t).csr = {} := by
  simp [Csr.interrupt, Csr.checkInterrupt, h.mip ht]

/-- Behind a trap the forwarding network offers a suppressed result, which nobody reads. -/
theorem forwarded_read {r : RegAddr} (ht : t < n)
    (hf : flush (machine.run ins t) (ins t) = false) (hs : stall (machine.run ins t) = false)
    (hd : (machine.run ins t).dec.valid = true)
    (hr : Reads (DecodeUnit.info (machine.run ins t).dec) r) :
    (forwarded (machine.run ins t) (ins t)).read r = (archRegs ins (t + 1)).read r := by
  cases hx : (machine.run ins t).wb.hasExc with
  | false => exact Core.forwarded_read (.inr h.start) hf hs hd hr hx
  | true =>
    obtain ⟨v, rfl, hv⟩ := trap_of_wb_hasExc hx
    rw [forwarded_of_trap hv, archRegs_of_trap hv, ARegFile.read_write]
    split_ifs with hc
    · obtain ⟨hwen, rfl, h0⟩ := hc
      by_contra hne
      exact h.no_leak _ ht ⟨hx, hwen, h0, hd, hr, hne⟩
    · rfl

/-- The instruction in execute is the one that the sequential machine is at. -/
theorem exe_eq_decode (ht : t ≤ n) (hs : Sim imem m ins t a)
    (hv : (machine.run ins t).exe.info.valid = true) :
    (machine.run ins t).exe = Sequential.decode imem a := by
  rcases t with _ | t
  · exact absurd hv (by simp [machine, init])
  · obtain ⟨hf, hst, hd, he⟩ := exe_eq_of_valid hv
    have hread : ∀ r, Reads (DecodeUnit.info (machine.run ins t).dec) r →
        (forwarded (machine.run ins t) (ins t)).read r = a.regs.read r := by
      intro r hr
      rw [hs.regs]
      exact h.forwarded_read (by omega) hf hst hd hr
    have hpc : (machine.run ins t).dec.pc = a.pc := by
      rw [hs.pc, ← exe_pc_run h.inst hv, he]
      rfl
    rw [he, decOut]
    refine Sequential.executeStage_eq_decode hpc ?_ hd ?_ (h.interrupt (by omega)) ?_ ?_
    · rw [← hpc]
      exact (inOrder_run h.inst t).dec_inst hd
    · rw [← hs.csr.mode]
      exact (step_mode_of_not_flush hf).symm
    · exact fun hr => (decOut_src1Data hr).trans (hread _ (.inl ⟨hr, rfl⟩))
    · exact fun hr => (decOut_src2Data hr).trans (hread _ (.inr ⟨hr, rfl⟩))

theorem exeOut_eq (ht : t < n) (hs : Sim imem m ins t a)
    (hv : (machine.run ins t).exe.info.valid = true) :
    exeOut (machine.run ins t) (ins t) = Fu.memoryStage a.csr (Sequential.decode imem a) {} := by
  have hc : Csr.csrAddr (Fu.csrIn (machine.run ins t).exe (ins t).interrupt) =
      (machine.run ins t).exe.info.inst.extractLsb' 20 12 := rfl
  rw [exeOut, Fu.memoryStage_congr hs.csr fun hf => hc ▸ h.no_cycle t ht hv hf, h.low t ht,
    h.exe_eq_decode ht.le hs hv]

theorem trap_eq (ht : t < n) (hs : Sim imem m ins t a)
    (hv : (machine.run ins t).exe.info.valid = true) : trap (machine.run ins t) (ins t) =
      Csr.trap a.csr (Fu.csrIn (Sequential.decode imem a) {}) := by
  rw [trap, h.exe_eq_decode ht.le hs hv, h.low t ht, hs.csr.trap]

theorem wb_pc (ht : t < n) (hs : Sim imem m ins t a)
    (hv : (machine.run ins t).exe.info.valid = true) :
    (machine.run ins (t + 2)).wb.pc = (Sequential.execute imem a).pc := by
  have hx := congrArg ExeMemData.pc (h.exeOut_eq ht hs hv)
  exact hx

theorem wb_eq_execute (ht : t < n) (hs : Sim imem m ins t a)
    (hv : (machine.run ins t).exe.info.valid = true)
    (hq : trap (machine.run ins t) (ins t) = false) :
    (machine.run ins (t + 2)).wb = Sequential.execute imem a := by
  have hd := h.exe_eq_decode ht.le hs hv
  have hwb : (machine.run ins (t + 2)).wb =
      MemoryUnit.writeBackStage (exeOut (machine.run ins t) (ins t)) (ins (t + 1)).dataRdata := rfl
  have hm : memory m ins (t + 1) = Sequential.memory imem a := by
    rw [memory, dataSram, hd, ← hs.mem]
    rfl
  have hr : (machine.run ins t).exe.info.fusel = .lsu → (ins (t + 1)).dataRdata =
      Sequential.memory imem a (DataSram.index (Sequential.dataSram imem a).addr) := by
    intro hf
    rw [h.data t ht hv hf hq, hm, dataSram, hd]
    rfl
  rw [hd] at hr
  rw [hwb, h.exeOut_eq ht hs hv, Sequential.execute, MemoryUnit.writeBackStage,
    MemoryUnit.writeBackStage]
  split_ifs with hf
  · rw [hr hf]
  · rfl

theorem archRegs_succ (ht : t < n) (hs : Sim imem m ins t a)
    (hv : (machine.run ins t).exe.info.valid = true) :
    archRegs ins (t + 1) = (Sequential.step imem a).regs := by
  rw [archRegs, ← hs.regs]
  change _ = a.regs.write (WriteBackUnit.regfile (Sequential.execute imem a))
  cases hq : trap (machine.run ins t) (ins t) with
  | false => rw [result_eq, h.wb_eq_execute ht hs hv hq]
  | true =>
    have hx : (Sequential.execute imem a).hasExc = true := by
      have hc := (h.trap_eq ht hs hv).symm.trans hq
      rw [Csr.trap, Bool.and_eq_true] at hc
      exact hc.1
    have hw : (WriteBackUnit.regfile (Sequential.execute imem a)).wen = false := by
      simp [WriteBackUnit.regfile, hx]
    rw [ARegFile.write_of_not_wen (.inl (by simp [result, hq])),
      ARegFile.write_of_not_wen (.inl hw)]

/-- An instruction in execute is one step of the sequential machine. -/
theorem sim_step (ht : t < n) (hs : Sim imem m ins t a)
    (hv : (machine.run ins t).exe.info.valid = true) :
    Sim imem m ins (t + 1) (Sequential.step imem a) := by
  have hd := h.exe_eq_decode ht.le hs hv
  have hf : flush (machine.run ins t) (ins t) =
      Fu.flush a.csr (Sequential.decode imem a) {} := by
    rw [flush, Fu.flush_congr hs.csr, hd, h.low t ht]
  have hg : target (machine.run ins t) (ins t) =
      Fu.target a.csr (Sequential.decode imem a) {} := by
    rw [target, Fu.target_congr hs.csr, hd, h.low t ht]
  refine ⟨?_, ?_, ?_, ?_⟩
  · rw [path_succ_of_valid hv, nextPc, Sequential.step, ← hf, ← hg, exe_pc_run h.inst hv, ← hs.pc]
    dsimp only
    split_ifs with hfl
    · exact (low32_eq_self (h.target_lt t ht hfl)).symm
    · rfl
  · exact (h.archRegs_succ ht hs hv).symm
  · have hn : Csr.Same (Fu.csrNext (machine.run ins t).csr (Sequential.decode imem a) {})
        (Sequential.step imem a).csr := Fu.csrNext_congr hs.csr
    rw [run_succ, step_csr, hd, h.low t ht]
    exact hn
  · rw [memory, dataSram, hd, ← hs.mem]
    rfl

/-- A cycle in which execute is empty leaves the architectural state as it is. -/
theorem sim_bubble (ht : t < n) (hs : Sim imem m ins t a)
    (hv : (machine.run ins t).exe.info.valid = false) : Sim imem m ins (t + 1) a := by
  have hw : (result ins t).wen = false := by simp [result, hv]
  have hm : (dataSram (machine.run ins t)).isWrite = false := not_isWrite_of_not_valid hv
  refine ⟨?_, ?_, ?_, ?_⟩
  · rw [hs.pc, path, hv, if_neg (by decide)]
  · rw [hs.regs, archRegs, ARegFile.write_of_not_wen (.inl hw)]
  · exact (Csr.same_step_of_not_valid hv (h.low t ht)).trans hs.csr
  · rw [hs.mem, memory, DataSram.write_of_not_isWrite hm]

end Served

section Run

/-- Whether the sequential machine steps in a cycle. -/
def issued (s : State) (_ : In) : Bool := s.exe.info.valid

/-- What write-back commits: the `pc`, the destination register and the value for it. -/
def retire (s : State) (_ : In) : Option (Word × RegAddr × Word) :=
  if (debug s).commit then some ((debug s).pc, (debug s).rfWnum, (debug s).rfWdata) else none

/-- What is written to the data SRAM. -/
def dataWrite (s : State) (_ : In) : Option DataSram :=
  if (dataSram s).isWrite then some (dataSram s) else none

theorem sim_init : Sim imem m ins 0 (Sequential.init m) := ⟨rfl, rfl, Csr.Same.refl _, rfl⟩

/-- The state of the sequential machine after as many steps as instructions were in execute. -/
def reached (imem : SramAddr → BitVec 32) (m : Dmem) (ins : ℕ → In) (t : ℕ) :
    Sequential.State :=
  (Sequential.machine imem m).run (fun _ => ()) (machine.count issued ins t)

theorem Served.sim_run (h : Served imem m ins n) :
    ∀ t ≤ n, Sim imem m ins t (reached imem m ins t) := by
  refine Clocked.stutter (R := fun t _ a => Sim imem m ins t a) sim_init fun t ht k hs => ?_
  cases hv : (machine.run ins t).exe.info.valid
  · simpa [issued, hv] using h.sim_bubble ht hs hv
  · simp only [issued, hv, Bool.toNat_true]
    exact h.sim_step ht hs hv

theorem Served.retire_add_two (h : Served imem m ins n) (ht : t < n)
    (hq : trap (machine.run ins t) (ins t) = false) :
    retire (machine.run ins (t + 2)) (ins (t + 2)) =
      if issued (machine.run ins t) (ins t) then
        Sequential.commit imem (reached imem m ins t) ()
      else none := by
  have hc : (debug (machine.run ins (t + 2))).commit =
      issued (machine.run ins t) (ins t) := rfl
  rw [retire, hc]
  cases hv : issued (machine.run ins t) (ins t)
  · rfl
  · rw [Sequential.commit, ← h.wb_eq_execute ht (h.sim_run t ht.le) hv hq]
    rfl

theorem retire_add_two (h : Plain imem m ins n) (ht : t < n) :
    retire (machine.run ins (t + 2)) (ins (t + 2)) =
      if issued (machine.run ins t) (ins t) then
        Sequential.commit imem (reached imem m ins t) ()
      else none :=
  h.served.retire_add_two ht (h.no_trap t ht)

theorem Served.dataWrite_eq (h : Served imem m ins n) (ht : t < n) :
    dataWrite (machine.run ins t) (ins t) =
      if issued (machine.run ins t) (ins t) then
        Sequential.write imem (reached imem m ins t) ()
      else none := by
  cases hv : issued (machine.run ins t) (ins t)
  · have hm : (dataSram (machine.run ins t)).isWrite = false := not_isWrite_of_not_valid hv
    simp [dataWrite, hm]
  · rw [dataWrite, dataSram, h.exe_eq_decode ht.le (h.sim_run t ht.le) hv]
    rfl

theorem dataWrite_eq (h : Plain imem m ins n) (ht : t < n) :
    dataWrite (machine.run ins t) (ins t) =
      if issued (machine.run ins t) (ins t) then
        Sequential.write imem (reached imem m ins t) ()
      else none :=
  h.served.dataWrite_eq ht

theorem log_retire_two : machine.log retire ins 2 = [] := by
  have h0 : retire (machine.run ins 0) (ins 0) = none := rfl
  have h1 : retire (machine.run ins 1) (ins 1) = none := by
    rw [retire, debug, WriteBackUnit.debug, wb_one]
    rfl
  rw [Clocked.log_succ_none h1, Clocked.log_succ_none h0]
  rfl

/-- **The pipeline refines the sequential machine.** After any number of cycles the commits and
the writes to the data SRAM are those of the same instructions, executed one at a time. -/
theorem pipeline_refines (h : Plain imem m ins n) :
    machine.log retire ins (n + 2) =
      (Sequential.machine imem m).log (Sequential.commit imem) (fun _ => ())
        (machine.count issued ins n) ∧
    machine.log dataWrite ins n =
      (Sequential.machine imem m).log (Sequential.write imem) (fun _ => ())
        (machine.count issued ins n) ∧
    ∀ k, ((Sequential.machine imem m).run (fun _ => ()) k).regs 0 = 0 := by
  refine ⟨?_, ?_, Sequential.regs_zero⟩
  · exact Clocked.log_stutter log_retire_two (fun t ht => retire_add_two h ht) n le_rfl
  · exact Clocked.log_stutter (d := 0) rfl (fun t ht => dataWrite_eq h ht) n le_rfl

end Run

section Example

/-- `addi x1, x0, 5`, `addi x2, x1, 1`, `sd x2, 0(x0)` and a jump back to the reset vector. -/
def loopProgram (a : SramAddr) : BitVec 32 :=
  if a = 0x80000000 then 0x00500093 else if a = 0x80000004 then 0x00108113
  else if a = 0x80000008 then 0x00203023 else 0xff5ff06f

/-- The run of this program on a cleared data memory. -/
def loopRun : ℕ → In := stimulus loopProgram (fun _ => 0) fun _ => {}

theorem plain_loopRun : Plain loopProgram (fun _ => 0) loopRun 8 where
  inst := instSync_stimulus
  data := dataSync_stimulus
  start t ht := fun _ => .inl (by revert t; decide +kernel)
  low t _ := stimulus_interrupt t
  no_trap := by decide +kernel
  target_lt := by decide +kernel
  no_cycle := by decide +kernel

/-- The first turn of the loop. -/
theorem pipeline_refines_loop :
    machine.log retire loopRun 10 =
      (Sequential.machine loopProgram fun _ => 0).log (Sequential.commit loopProgram)
        (fun _ => ()) 4 := by
  have hc : machine.count issued loopRun 8 = 4 := by decide +kernel
  exact hc ▸ (pipeline_refines plain_loopRun).1

end Example

end Core

end PuaCpu
