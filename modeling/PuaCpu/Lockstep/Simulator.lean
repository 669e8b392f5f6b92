import PuaCpu.Harness.Trace
import PuaCpu.Harness.Walk
import PuaCpu.Lockstep.Soc

/-! # A whole test

On a covered program the loops of the simulator go on for ever: they report no
difference and no timeout, count the instructions of the program, and print the
commits of the core.
-/

namespace PuaCpu

open RvCore Lockstep

/-- A line of the trace file about a commit. The register is shown if the reference model writes
one. -/
structure TraceLine.Tells (l : TraceLine) (d : Debug) : Prop where
  pc : l.pc = d.pc
  reg : l.regNum ≠ 0 → l.regNum = d.rfWnum ∧ l.regWdata = d.rfWdata

theorem TraceLine.tells_of_not_mismatch {s : State MmioMem} {d : Debug}
    (h : Cosim.mismatch d s = false) : (TraceLine.of s).Tells d := by
  simp only [Cosim.mismatch, Bool.or_eq_false_iff, bne_eq_false_iff_eq, Bool.and_eq_false_iff] at h
  exact ⟨h.1.symm, fun hn => ((h.2.resolve_left hn).imp Eq.symm Eq.symm)⟩

namespace Report

variable {k : LoopKind} {o : Options} {s s' : State MmioMem}

theorem limit_pos (k : LoopKind) (o : Options) : 0 < limit k o := by
  unfold limit
  split_ifs <;> omega

/-- Without delay slots a walk without differences steps the reference model at every commit. -/
theorem walk_of_riscvTestRun (hd : o.hasDelayslot = false) {ds : List MemWbData}
    (h : Cosim.riscvTestRun o.cfg s ds = .ok (s', true)) (ls : List TraceLine) :
    ∃ ls', List.Forall₂ TraceLine.Tells ls' ((ds.map WriteBackUnit.debug).filter (·.commit)) ∧
      Report.walk k o ⟨s, 0, 0, ls⟩ ((ds.map WriteBackUnit.debug).filter (·.commit)) =
        .ok ⟨s', 0, 0, ls ++ ls'⟩ := by
  induction ds generalizing s ls with
  | nil =>
    obtain ⟨rfl, -⟩ := Prod.mk.inj (Except.ok.inj h)
    refine ⟨[], .nil, ?_⟩
    rw [List.append_nil]
    rfl
  | cons d ds ih =>
    obtain ⟨hc, h⟩ | ⟨hc, s₂, hstep, hm, h⟩ := Cosim.riscvTestRun_cons h
    · rw [List.map_cons, List.filter_cons_of_neg (by rw [hc]; exact Bool.false_ne_true)]
      exact ih h ls
    · rw [List.map_cons, List.filter_cons_of_pos hc]
      have hcommit : Report.commit o ⟨s, 0, 0, ls⟩ (WriteBackUnit.debug d) =
          .ok ⟨s₂, 0, 0, ls ++ [.of s₂]⟩ := by
        rw [commit, if_pos rfl, hstep]
        simp only [Except.map, hm, hd]
        rfl
      obtain ⟨ls', hls, hwalk⟩ := ih h (ls ++ [.of s₂])
      refine ⟨.of s₂ :: ls', .cons (TraceLine.tells_of_not_mismatch hm) hls, ?_⟩
      have hone : Report.walk k o ⟨s, 0, 0, ls⟩ [WriteBackUnit.debug d] = _ :=
        (walk_single (limit_pos k o)).trans hcommit
      rw [← List.singleton_append, walk_append hone, hwalk, List.append_assoc]
      rfl

end Report

namespace Soc

variable {image : Bytes.Memory 64} {n : ℕ}

/-- Every instruction in execute commits two cycles later. -/
theorem length_commits (image : Bytes.Memory 64) (n : ℕ) :
    (commits image (n + 2)).length = issuedBefore image n := by
  induction n with
  | zero => rfl
  | succ n ih =>
    have hi : issuedBefore image (n + 1) =
        issuedBefore image n + (Core.machine.run (stimulus image) n).exe.info.valid.toNat := rfl
    have hc : (WriteBackUnit.debug (run image (n + 2)).core.wb).commit =
        (Core.machine.run (stimulus image) n).exe.info.valid := by
      rw [← commits_stimulus]
      exact Core.commits_add_two (stimulus image) n
    rw [commits_succ, List.length_append, ih, hi, hc]
    cases (Core.machine.run (stimulus image) n).exe.info.valid <;> rfl

theorem commits_eq (image : Bytes.Memory 64) (n : ℕ) :
    commits image (n + 1) = commits image (n - 1 + 2) := by
  cases n with
  | zero => rfl
  | succ n => rfl

end Soc

namespace Simulator

/-- A test that is not over: it goes on, no difference has been found, the counters are those of
the program, and the trace file tells the commits. -/
structure Passing (k : LoopKind) (image : Bytes.Memory 64) (s₀ : State MmioMem) (n : ℕ)
    (s : Simulator) : Prop where
  running : s.running = true
  passed : Soc.Passed image s₀ (cyclesAfter n - 1) s.cemu
  totalCycle : k.perf = true → s.totalCycle = cyclesAfter n
  totalInstr : k.perf = true → s.totalInstr = Soc.issuedBefore image (cyclesAfter n - 1)
  trace : k.trace = true →
    List.Forall₂ TraceLine.Tells s.trace (Soc.commits image (cyclesAfter n + 1))

/-- The options of a plain test of an I+M+U core. -/
structure Plain (o : Options) : Prop where
  cfg : o.cfg = RvPriv.testConfig
  hasDelayslot : o.hasDelayslot = false
  initGprs : o.initGprs = false
  dualIssue : o.dualIssue = false

variable {image : Bytes.Memory 64} {o : Options} {n : ℕ}

theorem passing (k : LoopKind) (core : Core.State) (s : State MmioMem) (ho : Plain o)
    (ht : 0 < o.simTime) (htime : o.traceOn = true → n ≤ o.simTime)
    (hc : ∀ t < cyclesAfter n - 1, 1 ≤ t → Soc.Coded image t)
    (hk : ∀ j < Soc.issuedBefore image (cyclesAfter n - 1),
      Covered (Soc.code image) (Soc.program image j))
    (hn : Soc.issuedBefore image (cyclesAfter n - 1) ≤ 2000000) :
    ∃ s', run k o image core s n = .ok s' ∧ Passing k image s n s' := by
  obtain ⟨c, hp⟩ := Soc.passes image s (cyclesAfter n - 1) hc hk hn
  have hinit : cemuInit o image s = Test.core RvPriv.testConfig image s := by
    rw [cemuInit, ho.cfg, ho.initGprs]
    rfl
  have hrun : Cosim.riscvTestRun o.cfg (Test.core RvPriv.testConfig image s)
      (Soc.writeBacks image (cyclesAfter n - 1 + 2)) = .ok (c, true) := by
    rw [ho.cfg]
    exact hp.run
  obtain ⟨ls, hls, hwalk⟩ := Report.walk_of_riscvTestRun (k := k) ho.hasDelayslot hrun []
  have hrel := run_related k image core s ho.dualIssue ht htime
  have hds : Soc.commits image (cyclesAfter n + 1) =
      ((Soc.writeBacks image (cyclesAfter n - 1 + 2)).map
        WriteBackUnit.debug).filter (·.commit) := by
    rw [Soc.commits_eq, Soc.writeBacks, List.map_map]
    rfl
  rw [hinit, hds] at hrel
  change Outcome.Related _ _ (Report.walk k o ⟨_, 0, 0, []⟩ _) at hrel
  rw [hwalk] at hrel
  generalize run k o image core s n = x at hrel ⊢
  cases hrel with
  | @ok s' _ h =>
    obtain ⟨hsh, hst⟩ := h
    have hst := hst (Report.limit_pos k o)
    refine ⟨s', rfl, ?_, ?_, ?_, ?_, ?_⟩
    · exact hsh.running.trans (decide_eq_true (Report.limit_pos k o))
    · rw [hsh.cemu]
      exact hp
    · intro hperf
      rw [hst.totalCycle, if_pos hperf]
    · intro hperf
      rw [hst.totalInstr, if_pos hperf, Soc.commits_eq, Soc.length_commits]
    · intro htr
      rw [hsh.trace, if_pos htr, hds]
      exact hls

/-- **A covered program is tested for ever**: in no pass does `riscv_test_run` stop, the reference
model stays equal to the core, and the counters are those of the program. -/
theorem test_passes (o : Options) (image : Bytes.Memory 64) (core : Core.State)
    (s : State MmioMem) (n : ℕ) (ho : Plain o) (ht : 0 < o.simTime)
    (htime : o.traceOn = true → n ≤ o.simTime)
    (hc : ∀ t < cyclesAfter n - 1, 1 ≤ t → Soc.Coded image t)
    (hk : ∀ j < Soc.issuedBefore image (cyclesAfter n - 1),
      Covered (Soc.code image) (Soc.program image j))
    (hn : Soc.issuedBefore image (cyclesAfter n - 1) ≤ 2000000) :
    ∃ s', riscvTestRun o image core s n = .ok s' ∧ s'.running = true ∧
      Soc.Passed image s (cyclesAfter n - 1) s'.cemu ∧ s'.totalCycle = cyclesAfter n ∧
      s'.totalInstr = Soc.issuedBefore image (cyclesAfter n - 1) := by
  obtain ⟨s', hrun, hp⟩ := passing .riscvTestRun core s ho ht htime hc hk hn
  exact ⟨s', hrun, hp.running, hp.passed, hp.totalCycle rfl, hp.totalInstr rfl⟩

/-- **The trace file of a covered program tells its commits**: however the text is read as lines,
there is one line for each commit of the core, in order, with its `pc` and its register. -/
theorem cpu_trace_tells (o : Options) (image : Bytes.Memory 64) (core : Core.State)
    (s : State MmioMem) (n : ℕ) (old : List Char) (ho : Plain o) (ht : 0 < o.simTime)
    (htime : o.traceOn = true → n ≤ o.simTime)
    (hc : ∀ t < cyclesAfter n - 1, 1 ≤ t → Soc.Coded image t)
    (hk : ∀ j < Soc.issuedBefore image (cyclesAfter n - 1),
      Covered (Soc.code image) (Soc.program image j))
    (hn : Soc.issuedBefore image (cyclesAfter n - 1) ≤ 2000000) :
    ∃ s', makeCpuTrace o image core s n = .ok s' ∧ ∀ ls, traceFile old ls = traceFile old s'.trace →
      List.Forall₂ TraceLine.Tells ls (Soc.commits image (cyclesAfter n + 1)) := by
  obtain ⟨s', hrun, hp⟩ := passing .makeCpuTrace core s ho ht htime hc hk hn
  refine ⟨s', hrun, fun ls hls => ?_⟩
  rw [traceFile_injective old hls]
  exact hp.trace rfl

/-- `auipc x5, 0`, `addi x5, x5, 16`, `csrw mtvec, x5` and `ecall`, with the handler
`sd x5, 64(x5)`, `ld x6, 64(x5)` and a jump back to the load. -/
def trapImage : Bytes.Memory 64 := fun a =>
  let word : BitVec 32 :=
    match a.toNat / 4 with
    | 0 => 0x00000297
    | 1 => 0x01028293
    | 2 => 0x30529073
    | 3 => 0x00000073
    | 4 => 0x0452b023
    | 5 => 0x0402b303
    | 6 => 0xffdff06f
    | _ => 0x00000013
  (word >>> (8 * (a.toNat % 4))).setWidth 8

/-- A plain test without end. -/
def plainOptions : Options where
  cfg := RvPriv.testConfig
  hasDelayslot := false
  shouldDelay := false
  dumpPcHistory := false
  initGprs := false
  traceOn := false
  dualIssue := false
  simTime := 100000000

theorem issuedBefore_trapImage : Soc.issuedBefore trapImage 14 = 7 := by decide +kernel

theorem coded_trapImage : ∀ t < 14, 1 ≤ t → Soc.Coded trapImage t := by decide +kernel

theorem covered_trapImage : ∀ j < Soc.issuedBefore trapImage 14,
    Covered (Soc.code trapImage) (Soc.program trapImage j) := by
  rw [issuedBefore_trapImage]
  decide +kernel

/-- In forty passes seven instructions have been compared: the trap is taken, and the handler has
stored and loaded its address. -/
theorem test_passes_trap : (∃ s', riscvTestRun plainOptions trapImage Core.init default 40 =
      .ok s' ∧ s'.running = true ∧ Soc.Passed trapImage default 14 s'.cemu ∧ s'.totalCycle = 15 ∧
      s'.totalInstr = Soc.issuedBefore trapImage 14) ∧
    (Soc.run trapImage 16).core.regs.read 6 = 0x80000010 ∧
    (Soc.run trapImage 14).core.csr.reg .mcause = 11 :=
  ⟨test_passes plainOptions trapImage Core.init default 40 ⟨rfl, rfl, rfl, rfl⟩ (by decide)
    (by decide) coded_trapImage covered_trapImage (issuedBefore_trapImage ▸ by decide),
    by decide +kernel, by decide +kernel⟩

/-- The trace file of the same program has seven lines. -/
theorem cpu_trace_tells_trap : (∃ s', makeCpuTrace plainOptions trapImage Core.init default 40 =
      .ok s' ∧ ∀ ls, traceFile [] ls = traceFile [] s'.trace →
        List.Forall₂ TraceLine.Tells ls (Soc.commits trapImage 16)) ∧
    (Soc.commits trapImage 16).length = 7 :=
  ⟨cpu_trace_tells plainOptions trapImage Core.init default 40 [] ⟨rfl, rfl, rfl, rfl⟩ (by decide)
    (by decide) coded_trapImage covered_trapImage (issuedBefore_trapImage ▸ by decide),
    by decide +kernel⟩

end Simulator

end PuaCpu
