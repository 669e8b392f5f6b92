import PuaCpu.Harness.Simulator

/-! # The loops walk through the commits

After ten ticks of reset every second pass is a cycle of the core. The timeout is
never reached, so that a loop does nothing but walk through the commits of the
core until there are too many differences.
-/

namespace PuaCpu

open RvCore
open Harness (Loop commitTimeout)

section Clock

/-- The rising edges with `reset` low in the first passes. -/
def cyclesAfter (n : ℕ) : ℕ := (n - 9) / 2

theorem loop_run (commit : ℕ → Bool) (n : ℕ) :
    (Loop.run commit false n).clock = decide (n % 2 = 1) ∧
      (Loop.run commit false n).rstTicks = 10 - n ∧
      (Loop.run commit false n).ticks = BitVec.ofNat 64 n ∧
      (Loop.run commit false n).cycles = cyclesAfter n := by
  induction n with
  | zero => exact ⟨rfl, rfl, rfl, rfl⟩
  | succ n ih =>
    obtain ⟨h1, h2, h3, h4⟩ := ih
    rw [Loop.run, Harness.clock_tick, Harness.rstTicks_tick, Harness.ticks_tick h3,
      Harness.cycles_tick, h1, h2, h4]
    refine ⟨?_, by omega, rfl, ?_⟩
    · rw [← decide_not]
      exact decide_eq_decide.mpr (by omega)
    · simp only [decide_eq_false_iff_not]
      unfold cyclesAfter
      split_ifs <;> omega

theorem not_stuck (ins : ℕ → Core.In) (n : ℕ) :
    (Loop.run (Core.commits ins) false n).stuck = false := by
  obtain ⟨m, c, h⟩ := Harness.exists_watched (Core.not_commits_of_lt_six (by omega)) false n
  refine h.not_stuck ?_
  by_contra hn
  rcases h.first with rfl | hc
  · have hs := h.none 6 (by omega) (by omega)
    exact absurd (hs.symm.trans (Core.commits_six ins)) (by decide)
  · obtain ⟨k, h1, h3, hk⟩ := Core.exists_commits_after hc
    have hs := h.none (c + k) (by omega) (by omega)
    exact absurd (hs.symm.trans hk) (by decide)

end Clock

namespace Soc

variable (image : Bytes.Memory 64)

/-- The commits that the debug port has shown before a cycle. -/
def commits (t : ℕ) : List Debug :=
  ((List.range t).map fun u => WriteBackUnit.debug (run image u).core.wb).filter (·.commit)

variable {image} {t : ℕ}

theorem commits_succ (image : Bytes.Memory 64) (t : ℕ) : commits image (t + 1) = commits image t ++
    if (WriteBackUnit.debug (run image t).core.wb).commit
    then [WriteBackUnit.debug (run image t).core.wb] else [] := by
  rw [commits, List.range_succ, List.map_append, List.filter_append, ← commits, List.map_singleton,
    List.filter_cons]
  rfl

theorem commits_stimulus (t : ℕ) : Core.commits (stimulus image) t =
    (WriteBackUnit.debug (run image t).core.wb).commit := by
  rw [Core.commits, run_core]
  rfl

end Soc

namespace Simulator

variable (k : LoopKind) (o : Options) (image : Bytes.Memory 64)

/-- The clock and the ports after some passes. -/
structure Phase (n : ℕ) (s : Simulator) : Prop where
  clock : s.clock = decide (n % 2 = 1)
  reset : 0 < n → s.reset = decide (n ≤ 10)
  rstTicks : s.rstTicks = 10 - n
  first : n = 0 → s.soc.reset = Soc.run image 0
  soc : 0 < n → s.soc = Soc.run image (cyclesAfter n)
  totalCycle : s.totalCycle = if k.perf then cyclesAfter n else 0

/-- The variables after some passes of the loop. -/
structure Stands (n : ℕ) (s : Simulator) : Prop extends Phase k image n s where
  ticks : s.ticks = BitVec.ofNat 64 n
  lastCommit : s.lastCommit = (Loop.run (Core.commits (Soc.stimulus image)) false n).lastCommit
  simTime : s.simTime = if o.traceOn then o.simTime - n else o.simTime
  totalInstr : s.totalInstr =
    if k.perf then (Soc.commits image (cyclesAfter n + 1)).length else 0

variable {k o image} {n : ℕ} {s s' : Simulator} {r r' : Report}

theorem Phase.toggle (h : Phase k image n s) : Phase k image (n + 1) (s.toggle k) := by
  have hclock : (s.toggle k).clock = decide ((n + 1) % 2 = 1) := by
    change (!s.clock) = _
    rw [h.clock, ← decide_not]
    exact decide_eq_decide.mpr (by omega)
  have hreset : (s.toggle k).reset = decide (n + 1 ≤ 10) := by
    change decide (0 < s.rstTicks) = _
    rw [h.rstTicks]
    exact decide_eq_decide.mpr (by omega)
  have hsoc : (s.toggle k).soc = Soc.run image (cyclesAfter (n + 1)) := by
    change (if !(s.toggle k).clock then s.soc else if (s.toggle k).reset then s.soc.reset
      else s.soc.step s.reset) = _
    rw [hclock, hreset]
    by_cases hodd : n % 2 = 1
    · rw [decide_eq_false (by omega), if_pos (by rfl), h.soc (by omega)]
      congr 1
      unfold cyclesAfter
      omega
    · rw [decide_eq_true (by omega), if_neg (by decide)]
      by_cases h10 : n + 1 ≤ 10
      · rw [decide_eq_true h10, if_pos rfl]
        have hz : cyclesAfter (n + 1) = 0 := by
          unfold cyclesAfter
          omega
        rw [hz]
        rcases Nat.eq_zero_or_pos n with h0 | hpos
        · exact h.first h0
        · have hz : cyclesAfter n = 0 := by
            unfold cyclesAfter
            omega
          rw [h.soc hpos, hz]
          rfl
      · have hc : cyclesAfter (n + 1) = cyclesAfter n + 1 := by
          unfold cyclesAfter
          omega
        have hr : s.reset = (cyclesAfter n == 0) := by
          rw [h.reset (by omega)]
          unfold cyclesAfter
          rw [Bool.eq_iff_iff, decide_eq_true_iff, beq_iff_eq]
          omega
        rw [decide_eq_false h10, if_neg Bool.false_ne_true, h.soc (by omega), hr, hc]
        rfl
  have hcycle : (s.toggle k).totalCycle = if k.perf then cyclesAfter (n + 1) else 0 := by
    change (if k.perf && !(s.toggle k).reset && (s.toggle k).clock then s.totalCycle + 1
      else s.totalCycle) = _
    rw [hreset, hclock, h.totalCycle]
    cases k.perf with
    | false => rfl
    | true =>
      have he : (true && !decide (n + 1 ≤ 10) && decide ((n + 1) % 2 = 1)) =
          decide (¬ n + 1 ≤ 10 ∧ (n + 1) % 2 = 1) := by
        rw [Bool.decide_and, decide_not]
        rfl
      rw [he]
      simp only [decide_eq_true_iff, if_true]
      unfold cyclesAfter
      split_ifs <;> omega
  exact ⟨hclock, fun _ => hreset, by change s.rstTicks - 1 = _; rw [h.rstTicks]; omega, nofun,
    fun _ => hsoc, hcycle⟩

theorem debug_toggle (h : Phase k image n s) (hd : o.dualIssue = false) :
    Soc.commits image (cyclesAfter (n + 1) + 1) = Soc.commits image (cyclesAfter n + 1) ++
      if ((s.toggle k).clock && !o.dualIssue || o.dualIssue) && (s.toggle k).debug.commit
      then [(s.toggle k).debug] else [] := by
  have ht := h.toggle
  have hc : (s.toggle k).debug =
      WriteBackUnit.debug (Soc.run image (cyclesAfter (n + 1))).core.wb := by
    rw [debug, ht.soc (Nat.succ_pos n)]
  rw [hc, ht.clock, hd]
  by_cases he : 10 ≤ n ∧ n % 2 = 0
  · have hs : cyclesAfter (n + 1) = cyclesAfter n + 1 := by
      unfold cyclesAfter
      omega
    rw [decide_eq_true (by omega), hs, Soc.commits_succ]
    rfl
  · have hs : cyclesAfter (n + 1) = cyclesAfter n := by
      unfold cyclesAfter
      omega
    rw [hs]
    by_cases hz : (n + 1) % 2 = 1
    · have h0 : cyclesAfter n = 0 := by
        unfold cyclesAfter
        omega
      have hidle : (WriteBackUnit.debug (Soc.run image 0).core.wb).commit = false := rfl
      rw [h0, hidle, Bool.and_false]
      exact (List.append_nil _).symm
    · rw [decide_eq_false hz]
      exact (List.append_nil _).symm

theorem lastCommit_toggle (h : Stands k o image n s) (hd : o.dualIssue = false) :
    (if ((s.toggle k).clock && !o.dualIssue || o.dualIssue) && (s.toggle k).debug.commit
      then s.ticks else s.lastCommit) =
    (Loop.run (Core.commits (Soc.stimulus image)) false (n + 1)).lastCommit := by
  have ht := h.toPhase.toggle
  obtain ⟨hclock, -, -, hcycles⟩ := loop_run (Core.commits (Soc.stimulus image)) (n + 1)
  obtain ⟨-, -, hticks, -⟩ := loop_run (Core.commits (Soc.stimulus image)) n
  rw [Loop.run, Harness.lastCommit_tick, ← Loop.run, hclock, hcycles, hticks, Soc.commits_stimulus,
    ht.clock, hd, debug, ht.soc (Nat.succ_pos n), h.ticks, h.lastCommit]
  simp

theorem finish_stands (hp : Phase k image (n + 1) s) (ht : s.ticks = BitVec.ofNat 64 n)
    (hl : s.lastCommit = (Loop.run (Core.commits (Soc.stimulus image)) false (n + 1)).lastCommit)
    (hs : s.simTime = if o.traceOn then o.simTime - n else o.simTime)
    (hi : s.totalInstr =
      if k.perf then (Soc.commits image (cyclesAfter (n + 1) + 1)).length else 0) :
    Stands k o image (n + 1) (s.finish o) ∧ (s.finish o).running = s.running := by
  have hticks : s.ticks + 1 = BitVec.ofNat 64 (n + 1) := by
    rw [ht, BitVec.ofNat_add]
    rfl
  obtain ⟨-, -, hloop, -⟩ := loop_run (Core.commits (Soc.stimulus image)) (n + 1)
  have hstuck : decide (commitTimeout ≤ s.ticks + 1 - s.lastCommit) = false := by
    rw [hticks, hl, ← hloop]
    exact not_stuck (Soc.stimulus image) (n + 1)
  refine ⟨⟨⟨hp.clock, hp.reset, hp.rstTicks, hp.first, hp.soc, hp.totalCycle⟩, hticks, hl, ?_, hi⟩,
    if_neg (of_decide_eq_false hstuck)⟩
  change (if o.traceOn then s.simTime - 1 else s.simTime) = _
  rw [hs]
  push_cast
  split_ifs <;> omega

theorem Shows.finish (h : Shows k o s r) (hr : (s.finish o).running = s.running) :
    Shows k o (s.finish o) r :=
  ⟨h.cemu, hr.trans h.running, fun ht => h.delay (hr ▸ ht), h.cnt, h.flag, h.plain, h.trace⟩

/-- A pass of the loop is a walk over the commit that it adds, if any. -/
theorem tick_related (hst : Stands k o image n s) (hsh : Shows k o s r)
    (hn : r.errors < Report.limit k o) (hd : o.dualIssue = false) :
    Outcome.Related (fun s' r' => Shows k o s' r' ∧ Stands k o image (n + 1) s') (s.tick k o)
      (r.walk k o
        (if ((s.toggle k).clock && !o.dualIssue || o.dualIssue) && (s.toggle k).debug.commit
          then [(s.toggle k).debug] else [])) := by
  have hphase := hst.toPhase.toggle
  have hlast := lastCommit_toggle hst hd
  have hadd := debug_toggle hst.toPhase hd
  have hshow : Shows k o (s.toggle k) r :=
    ⟨hsh.cemu, hsh.running, hsh.delay, hsh.cnt, hsh.flag, hsh.plain, hsh.trace⟩
  have hinstr := hst.totalInstr
  rw [tick]
  cases hc : ((s.toggle k).clock && !o.dualIssue || o.dualIssue) && (s.toggle k).debug.commit with
  | false =>
    simp only [hc, Bool.false_eq_true, if_false, List.append_nil] at hlast hadd ⊢
    obtain ⟨hs, hr⟩ := finish_stands hphase hst.ticks hlast hst.simTime (by rw [hadd]; exact hinstr)
    exact .ok ⟨hshow.finish hr, hs⟩
  | true =>
    simp only [hc, if_true] at hlast hadd ⊢
    rw [Report.walk_single hn]
    have hrel := commit_related hshow hn
    generalize (s.toggle k).commit k o = x at hrel ⊢
    generalize r.commit o (s.toggle k).debug = y at hrel ⊢
    cases hrel with
    | error e => exact .error e
    | ok h =>
      obtain ⟨hcom, hshow'⟩ := h
      have hphase' : Phase k image (n + 1) _ := ⟨hcom.clock.trans hphase.clock,
        fun h => hcom.reset.trans (hphase.reset h), hcom.rstTicks.trans hphase.rstTicks, nofun,
        fun h => hcom.soc.trans (hphase.soc h), hcom.totalCycle.trans hphase.totalCycle⟩
      obtain ⟨hs, hr⟩ := finish_stands hphase' (hcom.ticks.trans hst.ticks)
        (hcom.lastCommit.trans hlast) (hcom.simTime.trans hst.simTime) (by
          have hi : (s.toggle k).totalInstr = s.totalInstr := rfl
          rw [hcom.totalInstr, hi, hinstr, hadd, List.length_append]
          cases k.perf <;> rfl)
      exact .ok ⟨hshow'.finish hr, hs⟩

variable {core : Core.State} {s₀ : State MmioMem}

theorem shows_init : Shows k o (init k o image core s₀) (Report.start (cemuInit o image s₀)) where
  cemu := rfl
  running := by
    have h : 0 < Report.limit k o := by
      unfold Report.limit
      split_ifs <;> omega
    exact (decide_eq_true h).symm
  delay _ := by
    have hle := k.le
    change (k.delay : ℤ) = delayAfter k o 0
    unfold delayAfter
    split_ifs <;> omega
  cnt := rfl
  flag h := absurd h (Nat.lt_irrefl 0)
  plain _ := rfl
  trace := (ite_self _).symm

theorem stands_init : Stands k o image 0 (init k o image core s₀) where
  clock := rfl
  reset h := absurd h (Nat.lt_irrefl 0)
  rstTicks := rfl
  first _ := rfl
  soc h := absurd h (Nat.lt_irrefl 0)
  totalCycle := (ite_self _).symm
  ticks := rfl
  lastCommit := rfl
  simTime := by
    change o.simTime = _
    simp
  totalInstr := (ite_self _).symm

theorem commits_mono (image : Bytes.Memory 64) (n : ℕ) : ∃ ds,
    Soc.commits image (cyclesAfter (n + 1) + 1) =
      Soc.commits image (cyclesAfter n + 1) ++ ds := by
  have h : cyclesAfter (n + 1) = cyclesAfter n ∨ cyclesAfter (n + 1) = cyclesAfter n + 1 := by
    unfold cyclesAfter
    omega
  rcases h with h | h
  · exact ⟨[], by rw [h, List.append_nil]⟩
  · exact ⟨_, by rw [h, Soc.commits_succ]⟩

variable (k image core s₀) in
theorem run_related (hd : o.dualIssue = false) (ht : 0 < o.simTime)
    (hn : o.traceOn = true → n ≤ o.simTime) :
    Outcome.Related (fun s r => Shows k o s r ∧
        (r.errors < Report.limit k o → Stands k o image n s)) (run k o image core s₀ n)
      ((Report.start (cemuInit o image s₀)).walk k o (Soc.commits image (cyclesAfter n + 1))) := by
  induction n with
  | zero => exact .ok ⟨shows_init, fun _ => stands_init⟩
  | succ n ih =>
    have hn' (h : o.traceOn = true) : (n : ℤ) ≤ o.simTime := by
      have := hn h
      push_cast at this
      omega
    specialize ih hn'
    obtain ⟨ds, hds⟩ := commits_mono image n
    rw [run]
    generalize run k o image core s₀ n = x at ih ⊢
    generalize hy : (Report.start (cemuInit o image s₀)).walk k o
      (Soc.commits image (cyclesAfter n + 1)) = y at ih
    cases ih with
    | error e =>
      rw [hds, Report.walk_append_error hy]
      exact .error e
    | @ok s r h =>
      obtain ⟨hsh, hst⟩ := h
      change Outcome.Related _ (if 0 < s.simTime ∧ s.running = true then s.tick k o else .ok s) _
      by_cases hl : r.errors < Report.limit k o
      · have htime : 0 < s.simTime := by
          rw [(hst hl).simTime]
          split_ifs with h
          · have := hn h
            push_cast at this
            omega
          · exact ht
        rw [if_pos ⟨htime, hsh.running.trans (decide_eq_true hl)⟩, debug_toggle (hst hl).toPhase hd,
          Report.walk_append hy]
        exact (tick_related (hst hl) hsh hl hd).mono fun s r h => ⟨h.1, fun _ => h.2⟩
      · have hr : s.running = false := hsh.running.trans (decide_eq_false hl)
        rw [if_neg (by rw [hr]; simp), hds, Report.walk_append hy,
          Report.walk_of_limit (Nat.le_of_not_lt hl)]
        exact .ok ⟨hsh, fun h => absurd h hl⟩

/-- **The loops walk through the commits**: up to any pass a loop of the simulator has stepped the
reference model, has gone on and has printed as the walk through the commits says. No core is taken
for stuck. -/
theorem loops_walk (k : LoopKind) (o : Options) (image : Bytes.Memory 64) (core : Core.State)
    (s : State MmioMem) (n : ℕ) (hd : o.dualIssue = false) (ht : 0 < o.simTime)
    (hn : o.traceOn = true → n ≤ o.simTime) : (run k o image core s n).map told =
      ((Report.start (cemuInit o image s)).walk k o (Soc.commits image (cyclesAfter n + 1))).map
        (Report.told k o) := by
  have hrel := run_related k image core s hd ht hn
  generalize run k o image core s n = x at hrel ⊢
  generalize Report.walk _ _ _ _ = y at hrel ⊢
  cases hrel with
  | error e => rfl
  | ok h =>
    obtain ⟨hsh, -⟩ := h
    exact congrArg Except.ok (Prod.ext hsh.cemu (Prod.ext hsh.running hsh.trace))

/-- The options of a test with delay slots. -/
def slotOptions : Options where
  cfg := ⟨true, false⟩
  hasDelayslot := true
  shouldDelay := true
  dumpPcHistory := true
  initGprs := false
  traceOn := false
  dualIssue := false
  simTime := 100000000

/-- On a jump to itself one commit in three is compared. -/
theorem loops_walk_jump : ((run .riscvTestRun slotOptions (Test.filled 0x0000006f) Core.init default
      70).map told).map (fun p => (p.1.priv.minstret, p.2.1)) = .ok (3, true) ∧
    (Soc.commits (Test.filled 0x0000006f) (cyclesAfter 70 + 1)).length = 9 := by
  rw [loops_walk _ _ _ _ _ _ rfl (by decide) (by decide)]
  exact ⟨by decide +kernel, by decide +kernel⟩

end Simulator

end PuaCpu
