import PuaCpu.Agreement.Cosim
import PuaCpu.Harness.Soc
import PuaCpu.Harness.Timeout

/-! # The loops of the simulator

`riscv_test_run` and `make_cpu_trace` toggle the clock in every pass. At a commit
they step the reference model and compare, except that with delay slots the two
commits behind a branch are skipped. A difference ends the loop, or is counted
first if the end is delayed. A commit of the loops is one of a walk through the
list of commits.
-/

namespace PuaCpu

open RvCore

/-- The options that the loops look at. -/
structure Options where
  cfg : RvPriv.Config
  hasDelayslot : Bool
  shouldDelay : Bool
  dumpPcHistory : Bool
  initGprs : Bool
  traceOn : Bool
  dualIssue : Bool
  simTime : ℤ
  deriving DecidableEq, Repr

/-- What a line of the trace file shows. -/
structure TraceLine where
  pc : Word
  regNum : RegAddr
  regWdata : Word
  deriving DecidableEq, Repr

def TraceLine.of (s : State MmioMem) : TraceLine := ⟨s.debugPc, s.debugRegNum, s.debugRegWdata⟩

/-- What the two loops differ in: the first value of `delay`, and whether they count and print. -/
structure LoopKind where
  delay : ℕ
  perf : Bool
  trace : Bool
  even : 2 ∣ delay
  le : 10 ≤ delay

namespace LoopKind

def riscvTestRun : LoopKind := ⟨1500, true, false, by decide, by decide⟩

def makeCpuTrace : LoopKind := ⟨10, false, true, by decide, by decide⟩

end LoopKind

/-- The core takes its reset values at a rising edge. -/
def Soc.reset (h : Soc) : Soc := { h with core := Core.init }

/-- The variables of a loop, with what its pointers lead to. -/
structure Simulator where
  clock : Bool
  reset : Bool
  soc : Soc
  cemu : State MmioMem
  rstTicks : ℕ
  ticks : Word
  lastCommit : Word
  delayslotCnt : ℕ
  delayslotFlag : Bool
  delay : ℤ
  simTime : ℤ
  running : Bool
  totalCycle : ℕ
  totalInstr : ℕ
  trace : List TraceLine

namespace Simulator

section Source

variable (k : LoopKind) (o : Options)

/-- `cemu_rvcore` before the loop. -/
def cemuInit (image : Bytes.Memory 64) (s : State MmioMem) : State MmioMem :=
  let s := Test.core o.cfg image s
  if o.initGprs then
    (List.range 32).foldl (fun s i => s.setGpr (BitVec.ofNat 5 i) (BitVec.ofNat 64 i)) s
  else s

/-- The variables before the loop, for any content of the registers. The inputs are low. -/
def init (image : Bytes.Memory 64) (core : Core.State) (s : State MmioMem) : Simulator where
  clock := false
  reset := false
  soc := ⟨core, {}, .ofImage image⟩
  cemu := cemuInit o image s
  rstTicks := 10
  ticks := 0
  lastCommit := 0
  delayslotCnt := 0
  delayslotFlag := true
  delay := k.delay
  simTime := o.simTime
  running := true
  totalCycle := 0
  totalInstr := 0
  trace := []

variable (s : Simulator)

/-- The clock toggles, and the core and the slave take a rising edge. -/
def toggle : Simulator :=
  let reset := decide (0 < s.rstTicks)
  let clock := !s.clock
  { s with
    clock := clock
    reset := reset
    soc := if !clock then s.soc else if reset then s.soc.reset else s.soc.step s.reset
    rstTicks := s.rstTicks - 1
    totalCycle := if k.perf && !reset && clock then s.totalCycle + 1 else s.totalCycle }

/-- The debug port. -/
def debug : Debug := WriteBackUnit.debug s.soc.core.wb

/-- The step of the reference model at a commit. -/
def stepCemu : Outcome Simulator :=
  if o.hasDelayslot then
    if s.delayslotCnt = 0 then
      (s.cemu.step o.cfg {}).map fun cemu => { s with cemu := cemu, delayslotFlag := true }
    else .ok s
  else (s.cemu.step o.cfg {}).map fun cemu => { s with cemu := cemu }

/-- What follows a difference. -/
def failed : Simulator :=
  if !o.shouldDelay then { s with running := false }
  else if o.dumpPcHistory && s.delay == 10 then { s with delay := s.delay - 1 }
  else
    -- the test against 10 has counted down as well
    let delay := if o.dumpPcHistory then s.delay - 1 else s.delay
    { s with delay := delay - 1, running := if delay = 0 then false else s.running }

def compare : Simulator :=
  if Cosim.mismatch s.debug s.cemu && s.delayslotCnt == 0 then s.failed o else s

/-- The count of the commits that are skipped. -/
def countDelayslot : Simulator :=
  if o.hasDelayslot then
    let cnt := if 0 < s.delayslotCnt then s.delayslotCnt - 1 else s.delayslotCnt
    if s.cemu.debugIsBranch && s.delayslotFlag then
      { s with delayslotCnt := 2, delayslotFlag := false }
    else { s with delayslotCnt := cnt }
  else s

def print : Simulator :=
  if k.trace then { s with trace := s.trace ++ [.of s.cemu] } else s

/-- A commit. -/
def commit : Outcome Simulator :=
  let s := if k.perf then { s with totalInstr := s.totalInstr + 1 } else s
  (s.stepCemu o).map fun s =>
    ((({ s with lastCommit := s.ticks } : Simulator).compare o).countDelayslot o).print k

/-- The end of a pass. -/
def finish : Simulator :=
  let ticks := s.ticks + 1
  { s with
    simTime := if o.traceOn then s.simTime - 1 else s.simTime
    ticks := ticks
    running := if Harness.commitTimeout ≤ ticks - s.lastCommit then false else s.running }

/-- One pass. -/
def tick : Outcome Simulator :=
  let s := s.toggle k
  (if (s.clock && !o.dualIssue || o.dualIssue) && s.debug.commit then s.commit k o
    else .ok s).map (finish o)

/-- The loop up to a number of passes. -/
def run (image : Bytes.Memory 64) (core : Core.State) (s : State MmioMem) : ℕ → Outcome Simulator
  | 0 => .ok (init k o image core s)
  | n + 1 => run image core s n >>= fun s =>
    if 0 < s.simTime ∧ s.running = true then s.tick k o else .ok s

def riscvTestRun := run .riscvTestRun

def makeCpuTrace := run .makeCpuTrace

/-- What a loop tells about the two sides. -/
def told : State MmioMem × Bool × List TraceLine := (s.cemu, s.running, s.trace)

end Source

end Simulator

/-- What is known after some commits: the differences so far, and how many commits are still to be
skipped. -/
structure Report where
  cemu : State MmioMem
  errors : ℕ
  skipped : ℕ
  lines : List TraceLine

namespace Report

variable (k : LoopKind) (o : Options)

/-- A commit is skipped, or compared with a step. -/
def commit (r : Report) (d : Debug) : Outcome Report :=
  if r.skipped = 0 then
    (r.cemu.step o.cfg {}).map fun s =>
      { cemu := s
        errors := r.errors + (Cosim.mismatch d s).toNat
        skipped := if o.hasDelayslot && s.debugIsBranch then 2 else 0
        lines := r.lines ++ [.of s] }
  else .ok { r with skipped := r.skipped - 1, lines := r.lines ++ [.of r.cemu] }

/-- The number of differences that ends the loop. -/
def limit : ℕ :=
  if !o.shouldDelay then 1 else if o.dumpPcHistory then k.delay / 2 + 1 else k.delay + 1

/-- The walk through a list of commits. -/
def walk (r : Report) (ds : List Debug) : Outcome Report :=
  ds.foldlM (fun r d => if r.errors < limit k o then r.commit o d else .ok r) r

def start (s : State MmioMem) : Report := ⟨s, 0, 0, []⟩

/-- The reference model, whether the loop goes on, and what it has printed. -/
def told (r : Report) : State MmioMem × Bool × List TraceLine :=
  (r.cemu, decide (r.errors < limit k o), if k.trace then r.lines else [])

variable {k o} {r r' : Report} {ds ds' : List Debug} {d : Debug}

theorem walk_append (h : r.walk k o ds = .ok r') : r.walk k o (ds ++ ds') = r'.walk k o ds' := by
  rw [walk, List.foldlM_append, ← walk, h]
  rfl

theorem walk_append_error {e : Halt} (h : r.walk k o ds = .error e) :
    r.walk k o (ds ++ ds') = .error e := by
  rw [walk, List.foldlM_append, ← walk, h]
  rfl

theorem walk_of_limit (h : limit k o ≤ r.errors) : r.walk k o ds = .ok r := by
  induction ds with
  | nil => rfl
  | cons d ds ih =>
    rw [walk, List.foldlM_cons, if_neg (Nat.not_lt_of_le h)]
    exact ih

theorem walk_single (h : r.errors < limit k o) : r.walk k o [d] = r.commit o d := by
  rw [walk, List.foldlM_cons, if_pos h]
  cases r.commit o d <;> rfl

end Report

/-- Two computations that end alike, with results in a relation. -/
inductive Outcome.Related {α β : Type*} (R : α → β → Prop) : Outcome α → Outcome β → Prop
  | error (e : Halt) : Related R (.error e) (.error e)
  | ok {a : α} {b : β} (h : R a b) : Related R (.ok a) (.ok b)

theorem Outcome.Related.mono {α β : Type*} {R R' : α → β → Prop} {x : Outcome α} {y : Outcome β}
    (h : Outcome.Related R x y) (hr : ∀ a b, R a b → R' a b) : Outcome.Related R' x y := by
  cases h with
  | error e => exact .error e
  | ok h => exact .ok (hr _ _ h)

namespace Simulator

variable (k : LoopKind) (o : Options)

/-- The variable `delay` after some differences. The count by two steps over 10 once. -/
def delayAfter (errors : ℕ) : ℤ :=
  if !o.shouldDelay then k.delay
  else if o.dumpPcHistory then
    if 2 * errors + 10 ≤ k.delay then k.delay - 2 * errors else k.delay - 2 * errors + 1
  else k.delay - errors

/-- The variables that a commit assigns, in terms of the commits so far. -/
structure Shows (s : Simulator) (r : Report) : Prop where
  cemu : s.cemu = r.cemu
  running : s.running = decide (r.errors < Report.limit k o)
  delay : s.running = true → s.delay = delayAfter k o r.errors
  cnt : s.delayslotCnt = r.skipped
  flag : 0 < r.skipped → s.delayslotFlag = false
  plain : o.hasDelayslot = false → r.skipped = 0
  trace : s.trace = if k.trace then r.lines else []

/-- A commit leaves the clock, the ports and the counts of passes alone. -/
structure Committed (s s' : Simulator) : Prop where
  clock : s'.clock = s.clock
  reset : s'.reset = s.reset
  soc : s'.soc = s.soc
  rstTicks : s'.rstTicks = s.rstTicks
  ticks : s'.ticks = s.ticks
  lastCommit : s'.lastCommit = s.ticks
  simTime : s'.simTime = s.simTime
  totalCycle : s'.totalCycle = s.totalCycle
  totalInstr : s'.totalInstr = s.totalInstr + k.perf.toNat

variable {k o} {s s' : Simulator} {r r' : Report} {n : ℕ} {lines : List TraceLine}

section Commit

theorem failed_none (hs : o.shouldDelay = true) (hd : o.dumpPcHistory = false)
    (h : s.delay = delayAfter k o n) (hn : n < Report.limit k o) :
    (s.failed o).running = (s.running && decide (n + 1 < Report.limit k o)) ∧
      (s.failed o).delay = delayAfter k o (n + 1) := by
  simp only [Report.limit, delayAfter, failed, hs, hd, Bool.not_true, Bool.false_eq_true, if_false,
    Bool.false_and] at h hn ⊢
  constructor
  · rw [h]
    by_cases hz : (k.delay : ℤ) - n = 0
    · rw [if_pos hz, decide_eq_false (by omega), Bool.and_false]
    · rw [if_neg hz, decide_eq_true (by omega), Bool.and_true]
  · push_cast
    omega

/-- With the history of `pc` both tests count down, until the first one holds. -/
theorem failed_dump (hs : o.shouldDelay = true) (hd : o.dumpPcHistory = true)
    (h : s.delay = delayAfter k o n) (hn : n < Report.limit k o) :
    (s.failed o).running = (s.running && decide (n + 1 < Report.limit k o)) ∧
      (s.failed o).delay = delayAfter k o (n + 1) := by
  obtain ⟨j, hj⟩ := k.even
  have hle := k.le
  simp only [Report.limit, delayAfter, failed, hs, hd, Bool.not_true, Bool.false_eq_true, if_false,
    if_true, Bool.true_and, beq_iff_eq] at h hn ⊢
  by_cases h10 : s.delay = 10
  · rw [if_pos h10]
    have hc : 2 * n + 10 = k.delay := by
      split_ifs at h
      · omega
      · omega
    constructor
    · rw [decide_eq_true (by omega), Bool.and_true]
    · rw [if_neg (by omega)]
      push_cast
      omega
  · rw [if_neg h10]
    have hc : 2 * n + 10 ≠ k.delay := by
      intro hc
      rw [if_pos hc.le] at h
      omega
    constructor
    · change (if s.delay - 1 = 0 then false else s.running) = _
      by_cases hz : s.delay - 1 = 0
      · rw [if_pos hz, decide_eq_false, Bool.and_false]
        split_ifs at h
        · omega
        · omega
      · rw [if_neg hz, decide_eq_true, Bool.and_true]
        split_ifs at h
        · omega
        · omega
    · change s.delay - 1 - 1 = _
      push_cast
      split_ifs at h ⊢
      · omega
      · omega
      · omega
      · omega

theorem failed_delay (hr : s.running = true) (h : s.delay = delayAfter k o n)
    (hn : n < Report.limit k o) : (s.failed o).running = decide (n + 1 < Report.limit k o) ∧
      ((s.failed o).running = true → (s.failed o).delay = delayAfter k o (n + 1)) := by
  cases hs : o.shouldDelay with
  | false =>
    have hl : Report.limit k o = 1 := by rw [Report.limit, hs]; rfl
    have hf : s.failed o = { s with running := false } := by rw [failed, hs]; rfl
    rw [hl, hf, decide_eq_false (by omega)]
    exact ⟨rfl, nofun⟩
  | true =>
    cases hd : o.dumpPcHistory with
    | false =>
      obtain ⟨h1, h2⟩ := failed_none hs hd h hn
      exact ⟨by rw [h1, hr, Bool.true_and], fun _ => h2⟩
    | true =>
      obtain ⟨h1, h2⟩ := failed_dump hs hd h hn
      exact ⟨by rw [h1, hr, Bool.true_and], fun _ => h2⟩

theorem compare_delay (hr : s.running = true) (h : s.delay = delayAfter k o n)
    (hn : n < Report.limit k o) (hc : s.delayslotCnt = 0) :
    (s.compare o).running =
      decide (n + (Cosim.mismatch s.debug s.cemu).toNat < Report.limit k o) ∧
    ((s.compare o).running = true → (s.compare o).delay =
      delayAfter k o (n + (Cosim.mismatch s.debug s.cemu).toNat)) := by
  have hz : (s.delayslotCnt == 0) = true := beq_iff_eq.mpr hc
  rw [compare, hz, Bool.and_true]
  cases Cosim.mismatch s.debug s.cemu with
  | false =>
    rw [if_neg Bool.false_ne_true, hr]
    exact ⟨(decide_eq_true hn).symm, fun _ => h⟩
  | true => exact failed_delay hr h hn

theorem compare_skip (hc : 0 < s.delayslotCnt) : s.compare o = s := by
  have hz : (s.delayslotCnt == 0) = false := beq_eq_false_iff_ne.mpr hc.ne'
  rw [compare, hz, Bool.and_false]
  rfl

theorem compare_eq (s : Simulator) : s.compare o =
    { s with delay := (s.compare o).delay, running := (s.compare o).running } := by
  unfold compare failed
  split_ifs <;> rfl

theorem settle_eq (s : Simulator) : ((s.compare o).countDelayslot o).print k = { s with
    delay := (s.compare o).delay
    running := (s.compare o).running
    delayslotCnt := (s.countDelayslot o).delayslotCnt
    delayslotFlag := (s.countDelayslot o).delayslotFlag
    trace := (s.print k).trace } := by
  rw [compare_eq]
  unfold countDelayslot print
  split_ifs <;> rfl

theorem countDelayslot_step (hc : s.delayslotCnt = 0)
    (hf : o.hasDelayslot = true → s.delayslotFlag = true) :
    (s.countDelayslot o).delayslotCnt =
      (if o.hasDelayslot && s.cemu.debugIsBranch then 2 else 0) ∧
    (0 < (s.countDelayslot o).delayslotCnt → (s.countDelayslot o).delayslotFlag = false) := by
  unfold countDelayslot
  cases hd : o.hasDelayslot with
  | false => exact ⟨hc, fun h => absurd hc h.ne'⟩
  | true =>
    rw [hf hd]
    cases s.cemu.debugIsBranch with
    | false => simp [hc]
    | true => exact ⟨rfl, fun _ => rfl⟩

theorem countDelayslot_skip (hd : o.hasDelayslot = true) (hc : 0 < s.delayslotCnt)
    (hf : s.delayslotFlag = false) :
    s.countDelayslot o = { s with delayslotCnt := s.delayslotCnt - 1 } := by
  unfold countDelayslot
  rw [hd, hf, if_pos rfl, if_pos hc, Bool.and_false, if_neg Bool.false_ne_true]

theorem print_trace (h : s.trace = if k.trace then lines else []) :
    (s.print k).trace = if k.trace then lines ++ [.of s.cemu] else [] := by
  unfold print
  split_ifs at h ⊢
  · rw [h]
  · exact h

theorem stepCemu_eq (hc : s.delayslotCnt = 0) : s.stepCemu o = (s.cemu.step o.cfg {}).map fun c =>
    { s with cemu := c, delayslotFlag := if o.hasDelayslot then true else s.delayslotFlag } := by
  unfold stepCemu
  split_ifs <;> rfl

theorem stepCemu_skip (hd : o.hasDelayslot = true) (hc : 0 < s.delayslotCnt) :
    s.stepCemu o = .ok s := by
  rw [stepCemu, if_pos hd, if_neg hc.ne']

theorem stepCemu_count (s : Simulator) (m : ℕ) : stepCemu o { s with totalInstr := m } =
    (s.stepCemu o).map fun s => { s with totalInstr := m } := by
  unfold stepCemu
  split_ifs
  · cases s.cemu.step o.cfg {} <;> rfl
  · rfl
  · cases s.cemu.step o.cfg {} <;> rfl

theorem commit_eq (s : Simulator) : s.commit k o = (s.stepCemu o).map fun s' =>
    ((({ s' with lastCommit := s'.ticks, totalInstr := s.totalInstr + k.perf.toNat } :
      Simulator).compare o).countDelayslot o).print k := by
  have h : (if k.perf then { s with totalInstr := s.totalInstr + 1 } else s) =
      { s with totalInstr := s.totalInstr + k.perf.toNat } := by
    cases k.perf <;> rfl
  rw [commit, h, stepCemu_count]
  cases s.stepCemu o <;> rfl

theorem commit_related (h : Shows k o s r) (hn : r.errors < Report.limit k o) :
    Outcome.Related (fun s' r' => Committed k s s' ∧ Shows k o s' r') (s.commit k o)
      (r.commit o s.debug) := by
  have hr : s.running = true := h.running.trans (decide_eq_true hn)
  rw [commit_eq, Report.commit]
  by_cases hz : r.skipped = 0
  · have hc : s.delayslotCnt = 0 := h.cnt.trans hz
    rw [if_pos hz, stepCemu_eq hc, h.cemu]
    cases r.cemu.step o.cfg {} with
    | error e => exact .error e
    | ok c =>
      let s₁ : Simulator := { s with
        cemu := c, delayslotFlag := if o.hasDelayslot then true else s.delayslotFlag
        lastCommit := s.ticks, totalInstr := s.totalInstr + k.perf.toNat }
      have hf : o.hasDelayslot = true → s₁.delayslotFlag = true := fun hd => if_pos hd
      obtain ⟨hrun, hdelay⟩ := compare_delay (s := s₁) hr (h.delay hr) hn hc
      obtain ⟨hcnt, hflag⟩ := countDelayslot_step (s := s₁) hc hf
      change Outcome.Related _ (.ok (((s₁.compare o).countDelayslot o).print k)) (.ok _)
      rw [settle_eq]
      refine .ok ⟨?_, ?_⟩
      · exact ⟨rfl, rfl, rfl, rfl, rfl, rfl, rfl, rfl, rfl⟩
      · refine ⟨rfl, hrun, hdelay, hcnt, ?_, fun hd => ?_, print_trace (s := s₁) h.trace⟩
        · intro hp
          exact hflag (hcnt ▸ hp)
        · change (if o.hasDelayslot && c.debugIsBranch then 2 else 0) = 0
          rw [hd]
          rfl
  · have hpos : 0 < r.skipped := Nat.pos_of_ne_zero hz
    have hc : 0 < s.delayslotCnt := h.cnt ▸ hpos
    have hd : o.hasDelayslot = true := by
      by_contra hd
      exact hz (h.plain (Bool.eq_false_iff.mpr hd))
    let s₁ : Simulator :=
      { s with lastCommit := s.ticks, totalInstr := s.totalInstr + k.perf.toNat }
    have hskip := countDelayslot_skip (s := s₁) hd hc (h.flag hpos)
    rw [if_neg hz, stepCemu_skip hd hc]
    change Outcome.Related _ (.ok (((s₁.compare o).countDelayslot o).print k)) (.ok _)
    rw [settle_eq, compare_skip (s := s₁) hc, hskip]
    refine .ok ⟨?_, ?_⟩
    · exact ⟨rfl, rfl, rfl, rfl, rfl, rfl, rfl, rfl, rfl⟩
    · refine ⟨h.cemu, h.running, h.delay, ?_, fun _ => h.flag hpos, fun hp => ?_, ?_⟩
      · exact congrArg (· - 1) h.cnt
      · exact absurd (hp.symm.trans hd) Bool.false_ne_true
      · rw [← h.cemu]
        exact print_trace (s := s₁) h.trace

end Commit

end Simulator

end PuaCpu
