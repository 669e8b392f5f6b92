import Mathlib.Logic.Function.Iterate
import Mathlib.Data.List.Basic

/-! # Synchronous machines

A synchronous machine takes one step in every cycle, on the input of that cycle.
This file has its runs over input streams, reachability with the rules for
invariants, the rule for two runs side by side, the log of what a run emits, and
the rule for a machine that overtakes a sequential one: a run either advances
the sequential machine in a cycle or leaves it where it is.
-/

/-- A synchronous machine: a state at reset and the state after each cycle. -/
structure Clocked (σ ι : Type*) where
  init : σ
  step : σ → ι → σ

namespace Clocked

variable {σ ι α β κ : Type*} (M : Clocked σ ι)

/-- The state at the start of a cycle. -/
def run (ins : ℕ → ι) : ℕ → σ
  | 0 => M.init
  | n + 1 => M.step (run ins n) (ins n)

@[simp] theorem run_zero (ins : ℕ → ι) : M.run ins 0 = M.init := rfl

theorem run_succ (ins : ℕ → ι) (n : ℕ) : M.run ins (n + 1) = M.step (M.run ins n) (ins n) := rfl

/-- The states of all runs. -/
inductive Reachable : σ → Prop
  | init : Reachable M.init
  | step {s : σ} (i : ι) : Reachable s → Reachable (M.step s i)

variable {M}

theorem reachable_run (ins : ℕ → ι) (n : ℕ) : M.Reachable (M.run ins n) := by
  induction n with
  | zero => exact .init
  | succ n ih => exact .step _ ih

/-- What holds at reset and is kept by every step holds in every reachable state. -/
theorem Reachable.invariant {P : σ → Prop} (h0 : P M.init) (hs : ∀ s i, P s → P (M.step s i))
    {s : σ} (h : M.Reachable s) : P s := by
  induction h with
  | init => exact h0
  | step i _ ih => exact hs _ i ih

theorem run_invariant {ins : ℕ → ι} {P : ℕ → σ → Prop} (h0 : P 0 M.init)
    (hs : ∀ t, P t (M.run ins t) → P (t + 1) (M.step (M.run ins t) (ins t))) (t : ℕ) :
    P t (M.run ins t) := by
  induction t with
  | zero => exact h0
  | succ t ih => exact hs t ih

/-- The rule for two runs of the machine side by side. -/
theorem run_relation {ins ins' : ℕ → ι} {R : σ → σ → Prop} {n : ℕ} (h0 : R M.init M.init)
    (hs : ∀ t < n, R (M.run ins t) (M.run ins' t) →
      R (M.step (M.run ins t) (ins t)) (M.step (M.run ins' t) (ins' t))) :
    R (M.run ins n) (M.run ins' n) := by
  induction n with
  | zero => exact h0
  | succ n ih => exact hs n (by omega) (ih fun t ht => hs t (by omega))

theorem run_congr {ins ins' : ℕ → ι} {n : ℕ} (h : ∀ t < n, ins t = ins' t) :
    M.run ins n = M.run ins' n :=
  run_relation (R := Eq) rfl fun t ht he => by rw [he, h t ht]

section Log

variable (M)

/-- What a run emits in the cycles before `n`, oldest first. -/
def log (emit : σ → ι → Option α) (ins : ℕ → ι) : ℕ → List α
  | 0 => []
  | n + 1 => log emit ins n ++ (emit (M.run ins n) (ins n)).toList

/-- The number of cycles before `n` in which a condition holds. -/
def count (p : σ → ι → Bool) (ins : ℕ → ι) : ℕ → ℕ
  | 0 => 0
  | n + 1 => count p ins n + (p (M.run ins n) (ins n)).toNat

variable {M} {emit : σ → ι → Option α} {ins : ℕ → ι}

theorem log_succ (n : ℕ) :
    M.log emit ins (n + 1) = M.log emit ins n ++ (emit (M.run ins n) (ins n)).toList := rfl

theorem log_succ_none {n : ℕ} (h : emit (M.run ins n) (ins n) = none) :
    M.log emit ins (n + 1) = M.log emit ins n := by
  rw [log_succ, h, Option.toList_none, List.append_nil]

theorem count_mono {p : σ → ι → Bool} {n m : ℕ} (h : n ≤ m) :
    M.count p ins n ≤ M.count p ins m := by
  induction h with
  | refl => exact Nat.le_refl _
  | step _ ih => exact Nat.le_trans ih (Nat.le_add_right ..)

theorem count_congr {p : σ → ι → Bool} {ins' : ℕ → ι} {n : ℕ} (h : ∀ t < n, ins t = ins' t) :
    M.count p ins n = M.count p ins' n := by
  induction n with
  | zero => rfl
  | succ n ih =>
    rw [count, count, ih fun t ht => h t (by omega), h n (by omega),
      run_congr fun t ht => h t (by omega)]

end Log

section Stutter

variable {N : Clocked β κ} {ins : ℕ → ι} {jns : ℕ → κ} {adv : σ → ι → Bool} {n : ℕ}

/-- A run that advances a second machine in the cycles where `adv` holds stays related to the
state that the second machine has after that many steps. -/
theorem stutter {R : ℕ → σ → β → Prop} (h0 : R 0 M.init N.init)
    (hs : ∀ t < n, ∀ k, R t (M.run ins t) (N.run jns k) →
      R (t + 1) (M.run ins (t + 1)) (N.run jns (k + (adv (M.run ins t) (ins t)).toNat))) :
    ∀ t ≤ n, R t (M.run ins t) (N.run jns (M.count adv ins t)) := by
  intro t ht
  induction t with
  | zero => exact h0
  | succ t ih => exact hs t (by omega) _ (ih (by omega))

/-- If the first machine emits `d` cycles after an advance what the second one emits in the step,
and nothing else, then both logs are equal. -/
theorem log_stutter {emit : σ → ι → Option α} {emit' : β → κ → Option α} {d : ℕ}
    (h0 : M.log emit ins d = [])
    (hs : ∀ t < n, emit (M.run ins (t + d)) (ins (t + d)) =
      if adv (M.run ins t) (ins t) then
        emit' (N.run jns (M.count adv ins t)) (jns (M.count adv ins t))
      else none) :
    ∀ t ≤ n, M.log emit ins (t + d) = N.log emit' jns (M.count adv ins t) := by
  intro t ht
  induction t with
  | zero => rw [Nat.zero_add]; exact h0
  | succ t ih =>
    have he := hs t (by omega)
    rw [Nat.add_right_comm, log_succ, ih (by omega), he, count]
    cases adv (M.run ins t) (ins t)
    · simp
    · simp [log_succ]

end Stutter

end Clocked
