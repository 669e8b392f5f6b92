import Mathlib.Data.Nat.Cast.Defs
import Mathlib.Data.Nat.Count
import Mathlib.Order.Basic

/-! # Histories of transition systems

A flag that some steps raise and others lower says that a step of the first kind
has happened, and none of the second kind since. The steps may be undefined, so
a trace is a run of finitely many steps.
-/

namespace Temporal

/-- `p` has held at an earlier time, and `q` at all times since. -/
def Since (p q : ℕ → Prop) (t : ℕ) : Prop := ∃ u < t, p u ∧ ∀ w, u < w → w < t → q w

variable {p q : ℕ → Prop} {t : ℕ}

theorem not_since_zero : ¬ Since p q 0 := by
  rintro ⟨u, hu, -⟩
  exact absurd hu u.not_lt_zero

theorem since_succ : Since p q (t + 1) ↔ p t ∨ Since p q t ∧ q t := by
  constructor
  · rintro ⟨u, hu, hp, hq⟩
    rcases Nat.lt_succ_iff_lt_or_eq.mp hu with h | rfl
    · exact .inr ⟨⟨u, h, hp, fun w hw hwt => hq w hw (by omega)⟩, hq t h (by omega)⟩
    · exact .inl hp
  · rintro (hp | ⟨⟨u, hu, hp, hq⟩, ht⟩)
    · exact ⟨t, by omega, hp, fun w hw hwt => by omega⟩
    · refine ⟨u, by omega, hp, fun w hw hwt => ?_⟩
      rcases Nat.lt_succ_iff_lt_or_eq.mp hwt with h | rfl
      · exact hq w hw h
      · exact ht

theorem Since.after {u : ℕ} (h : Since p q t) (hu : ¬ Since p q u) (hut : u ≤ t) :
    ∃ w, u ≤ w ∧ w < t ∧ p w ∧ ∀ x, w < x → x < t → q x := by
  obtain ⟨w, hw, hp, hq⟩ := h
  refine ⟨w, ?_, hw, hp, hq⟩
  by_contra hlt
  exact hu ⟨w, by omega, hp, fun x h1 h2 => hq x h1 (by omega)⟩

section Flag

variable {F : ℕ → Prop}

/-- A flag that only a time in `p` raises, and that only a time in `q` keeps. -/
theorem since_of_flag (h0 : ¬ F 0) (hs : ∀ u < t, F (u + 1) → p u ∨ F u ∧ q u) (hF : F t) :
    Since p q t := by
  induction t with
  | zero => exact absurd hF h0
  | succ t ih =>
    rw [since_succ]
    refine (hs t (by omega) hF).imp_right fun h => ⟨ih (fun u hu => hs u (by omega)) h.1, h.2⟩

/-- A flag that every time in `p` raises, and that exactly the times in `q` keep. -/
theorem flag_iff_since (h0 : ¬ F 0) (hs : ∀ u < t, F (u + 1) ↔ p u ∨ F u ∧ q u) :
    F t ↔ Since p q t := by
  induction t with
  | zero => exact iff_of_false h0 not_since_zero
  | succ t ih => rw [hs t (by omega), ih fun u hu => hs u (by omega), since_succ]

end Flag

/-- A counter agrees with the number of times in `p` as long as it starts at zero and advances
by one at these times only. -/
theorem counts_iff {R : Type*} [AddMonoidWithOne R] {c : ℕ → R} [DecidablePred p] {n : ℕ} :
    (∀ t ≤ n, c t = Nat.count p t) ↔
      c 0 = 0 ∧ ∀ t < n, c (t + 1) = c t + if p t then 1 else 0 := by
  have hsucc (t : ℕ) : (Nat.count p (t + 1) : R) = Nat.count p t + if p t then 1 else 0 := by
    rw [Nat.count_succ, Nat.cast_add, Nat.cast_ite, Nat.cast_one, Nat.cast_zero]
  constructor
  · intro h
    refine ⟨?_, fun t ht => ?_⟩
    · rw [h 0 n.zero_le, Nat.count_zero, Nat.cast_zero]
    · rw [h (t + 1) ht, h t ht.le, hsucc]
  · rintro ⟨h0, hs⟩ t ht
    induction t with
    | zero => rw [h0, Nat.count_zero, Nat.cast_zero]
    | succ t ih => rw [hs t (by omega), ih (by omega), hsucc]

/-- Finitely many steps of a transition system with inputs and outputs. -/
structure Trace {σ ι α : Type*} (Step : σ → ι → α → σ → Prop) (n : ℕ) where
  st : ℕ → σ
  inp : ℕ → ι
  out : ℕ → α
  step : ∀ t < n, Step (st t) (inp t) (out t) (st (t + 1))

namespace Trace

variable {σ ι α : Type*} {Step : σ → ι → α → σ → Prop} {n : ℕ}

/-- The states that a function goes through on some inputs. -/
def states (next : σ → ι → σ × α) (inp : ℕ → ι) (s : σ) : ℕ → σ
  | 0 => s
  | t + 1 => (next (states next inp s t) (inp t)).1

/-- The trace of a function, as long as it follows the system. -/
def follow (next : σ → ι → σ × α) (inp : ℕ → ι) (s : σ) (n : ℕ)
    (h : ∀ t < n, Step (states next inp s t) (inp t) (next (states next inp s t) (inp t)).2
      (states next inp s (t + 1))) : Trace Step n :=
  ⟨states next inp s, inp, fun t => (next (states next inp s t) (inp t)).2, h⟩

end Trace

end Temporal
