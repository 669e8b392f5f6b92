import PuaCpu.Pipeline.Bubbles

/-! # The commit timeout of the test harness

`riscv_test_run` toggles the clock in every tick and gives up when no commit was
seen for too many ticks. The core commits often enough, whatever the program and
the interrupt lines do.
-/

namespace PuaCpu.Harness

/-- `commit_timeout`. -/
def commitTimeout : Word := 3000

/-- The variables of the loop that the timeout depends on. `cycles` counts the rising edges of the
clock with `reset` low. -/
structure Loop where
  clock : Bool
  rstTicks : ℕ
  ticks : Word
  lastCommit : Word
  cycles : ℕ
  deriving DecidableEq, Repr

namespace Loop

/-- The variables before the loop, for any level of the clock. -/
def init (clock : Bool) : Loop := ⟨clock, 10, 0, 0, 0⟩

variable (commit : ℕ → Bool) (l : Loop)

/-- One pass of the loop, given whether the core commits after a number of cycles. -/
def tick : Loop :=
  let clock := !l.clock
  let cycles := if clock && l.rstTicks = 0 then l.cycles + 1 else l.cycles
  { clock := clock
    rstTicks := l.rstTicks - 1
    ticks := l.ticks + 1
    lastCommit := if clock && commit cycles then l.ticks else l.lastCommit
    cycles := cycles }

/-- The test at the end of a pass. -/
def stuck : Bool := commitTimeout ≤ l.ticks - l.lastCommit

/-- The variables after the first passes. -/
def run (clock : Bool) : ℕ → Loop
  | 0 => init clock
  | n + 1 => tick commit (run clock n)

end Loop

/-- How the loop stands: `n` ticks have passed, the last commit was seen in tick `m` after `c`
cycles, and none since. During the reset nothing happens. -/
structure Watched (commit : ℕ → Bool) (l : Loop) (n m c : ℕ) : Prop where
  ticks : l.ticks = BitVec.ofNat 64 n
  lastCommit : l.lastCommit = BitVec.ofNat 64 m
  le : m ≤ n
  first : c = 0 ∨ commit c = true
  none : ∀ k, c < k → k ≤ l.cycles → commit k = false
  reset : 0 < l.rstTicks → n + l.rstTicks = 10 ∧ l.cycles = 0 ∧ c = 0
  bound : l.rstTicks = 0 → n + l.clock.toNat + 2 * c ≤ m + 2 * l.cycles + 11

variable {commit : ℕ → Bool} {l : Loop} {n m c : ℕ}

theorem watched_init (clock : Bool) : Watched commit (Loop.init clock) 0 0 0 where
  ticks := rfl
  lastCommit := rfl
  le := le_rfl
  first := .inl rfl
  none _ h0 hk := absurd hk (Nat.not_le_of_lt h0)
  reset _ := ⟨rfl, rfl, rfl⟩
  bound h := absurd h (Nat.succ_ne_zero 9)

theorem ticks_tick (h : l.ticks = BitVec.ofNat 64 n) :
    (l.tick commit).ticks = BitVec.ofNat 64 (n + 1) := by
  rw [BitVec.ofNat_add, ← h]
  rfl

theorem cycles_tick : (l.tick commit).cycles =
    if l.clock = false ∧ l.rstTicks = 0 then l.cycles + 1 else l.cycles := by
  simp [Loop.tick]

theorem clock_tick : (l.tick commit).clock = !l.clock := rfl

theorem rstTicks_tick : (l.tick commit).rstTicks = l.rstTicks - 1 := rfl

theorem lastCommit_tick : (l.tick commit).lastCommit =
    if (l.tick commit).clock && commit (l.tick commit).cycles then l.ticks else l.lastCommit := rfl

theorem Watched.quiet (h : Watched commit l n m c)
    (hc : ((l.tick commit).clock && commit (l.tick commit).cycles) = false) :
    Watched commit (l.tick commit) (n + 1) m c where
  ticks := ticks_tick h.ticks
  lastCommit := by
    rw [lastCommit_tick, hc]
    exact h.lastCommit
  le := h.le.trans (Nat.le_succ n)
  first := h.first
  none k hk hle := by
    by_cases hl : k ≤ l.cycles
    · exact h.none k hk hl
    · rw [cycles_tick] at hle hc
      split_ifs at hle hc with he
      · obtain rfl : k = l.cycles + 1 := by omega
        simpa [clock_tick, he.1] using hc
      · exact absurd hle hl
  reset hr := by
    rw [rstTicks_tick] at hr ⊢
    obtain ⟨hn, hy, hz⟩ := h.reset (by omega)
    rw [cycles_tick, if_neg (by omega)]
    exact ⟨by omega, hy, hz⟩
  bound hr := by
    rw [rstTicks_tick] at hr
    rw [cycles_tick, clock_tick]
    by_cases h0 : l.rstTicks = 0
    · have hb := h.bound h0
      cases hk : l.clock <;> simp [hk, h0] at hb ⊢ <;> omega
    · obtain ⟨hn, hy, rfl⟩ := h.reset (by omega)
      rw [if_neg (by omega), hy]
      have ht := Bool.toNat_le (!l.clock)
      omega

theorem Watched.seen (h : Watched commit l n m c) (h0 : commit 0 = false)
    (hc : ((l.tick commit).clock && commit (l.tick commit).cycles) = true) :
    Watched commit (l.tick commit) (n + 1) n (l.tick commit).cycles where
  ticks := ticks_tick h.ticks
  lastCommit := by
    rw [lastCommit_tick, hc]
    exact h.ticks
  le := Nat.le_succ n
  first := .inr ((Bool.and_eq_true _ _).mp hc).2
  none k hk hle := absurd hle (Nat.not_le_of_lt hk)
  reset hr := by
    rw [rstTicks_tick] at hr
    obtain ⟨-, hy, -⟩ := h.reset (by omega)
    rw [cycles_tick, if_neg (by omega), hy, h0, Bool.and_false] at hc
    exact absurd hc (by decide)
  bound _ := by
    have ht := Bool.toNat_le (l.tick commit).clock
    omega

theorem exists_watched (h0 : commit 0 = false) (clock : Bool) (n : ℕ) :
    ∃ m c, Watched commit (Loop.run commit clock n) n m c := by
  induction n with
  | zero => exact ⟨0, 0, watched_init clock⟩
  | succ n ih =>
    obtain ⟨m, c, h⟩ := ih
    cases hc : ((Loop.run commit clock n).tick commit).clock &&
        commit ((Loop.run commit clock n).tick commit).cycles with
    | false => exact ⟨m, c, h.quiet hc⟩
    | true => exact ⟨n, _, h.seen h0 hc⟩

/-- The loop gives up only after more than a thousand cycles without a commit. -/
theorem Watched.not_stuck (h : Watched commit l n m c) (hy : l.cycles ≤ c + 1000) :
    l.stuck = false := by
  have hle := h.le
  have hn : n ≤ m + 2500 := by
    by_cases h0 : l.rstTicks = 0
    · have hb := h.bound h0
      omega
    · obtain ⟨hn, -⟩ := h.reset (by omega)
      omega
  have hd : (l.ticks - l.lastCommit).toNat = n - m := by
    rw [h.ticks, h.lastCommit, BitVec.toNat_sub, BitVec.toNat_ofNat, BitVec.toNat_ofNat]
    omega
  rw [Loop.stuck, decide_eq_false_iff_not, BitVec.le_def, hd]
  change ¬ 3000 ≤ n - m
  omega

section Core

open PuaCpu.Core

/-- How often execute is empty and how often write-back commits. -/
structure Bounded (ins : ℕ → In) : Prop where
  window : ∀ t₀ t, busy ins t₀ = true → t₀ ≤ t → ∃ k < 3, busy ins (t + k) = true
  stall : ∀ t, stall (machine.run ins t) = true → stall (machine.run ins (t + 1)) = false
  flush : ∀ t, flush (machine.run ins t) (ins t) = true →
    busy ins (t + 1) = false ∧ busy ins (t + 2) = false ∧ busy ins (t + 3) = true
  commit : ∀ t, commits ins t = true → ∃ k, 1 ≤ k ∧ k ≤ 3 ∧ commits ins (t + k) = true
  first : busy ins 4 = true
  timeout : ∀ clock n, (Loop.run (commits ins) clock n).stuck = false

/-- **Bubbles are bounded**, and so the harness never sees the core stuck. -/
theorem bounded_bubbles (ins : ℕ → In) : Bounded ins where
  window t₀ t h ht := exists_busy_window h ht
  stall t := stall_succ_of_stall
  flush t := bubbles_of_flush
  commit t := exists_commits_after
  first := busy_four ins
  timeout clock n := by
    obtain ⟨m, c, h⟩ := exists_watched (not_commits_of_lt_six (by omega)) clock n
    refine h.not_stuck ?_
    by_contra hn
    rcases h.first with rfl | hc
    · have hs := h.none 6 (by omega) (by omega)
      exact absurd (hs.symm.trans (commits_six ins)) (by decide)
    · obtain ⟨k, h1, h3, hk⟩ := exists_commits_after hc
      have hs := h.none (c + k) (by omega) (by omega)
      exact absurd (hs.symm.trans hk) (by decide)

end Core

end PuaCpu.Harness
