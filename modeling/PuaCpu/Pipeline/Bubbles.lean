import PuaCpu.Pipeline.TrapShadow

/-! # Bubbles

How long execute can be empty. A stall costs one cycle and a flush two; both need
an instruction in execute, and in an empty cycle decode is refilled, so the next
instruction is at most three cycles behind.
-/

namespace PuaCpu.Core

variable {ins : ℕ → In} {t : ℕ}

/-- Whether execute holds an instruction in a cycle. -/
def busy (ins : ℕ → In) (t : ℕ) : Bool := (machine.run ins t).exe.info.valid

section Step

theorem busy_succ_of_go (hf : flush (machine.run ins t) (ins t) = false)
    (hs : stall (machine.run ins t) = false) :
    busy ins (t + 1) = (machine.run ins t).dec.valid := by
  rw [busy, run_succ, step_exe_of_go hf hs]
  rfl

theorem busy_succ_of_not_busy (h : busy ins t = false) :
    busy ins (t + 1) = (machine.run ins t).dec.valid :=
  busy_succ_of_go (not_flush_of_not_valid h) (not_stall_of_not_valid h)

theorem dec_valid_succ_of_not_busy (h : busy ins t = false) :
    (machine.run ins (t + 1)).dec.valid = decide ((machine.run ins t).fetch.state = .receive) := by
  rw [run_succ, step_dec_of_go (not_flush_of_not_valid h) (not_stall_of_not_valid h), fetched_eq]

theorem busy_succ_of_stall (h : stall (machine.run ins t) = true) : busy ins (t + 1) = false := by
  rw [busy, run_succ, step_exe_of_stall h]

theorem receive_of_busy (h : busy ins t = true) : (machine.run ins t).fetch.state = .receive :=
  (filled_run ins t).receive_of_exe h

end Step

/-- The load-use stall lasts one cycle. -/
theorem stall_succ_of_stall (h : stall (machine.run ins t) = true) :
    stall (machine.run ins (t + 1)) = false :=
  not_stall_of_not_valid (busy_succ_of_stall h)

theorem busy_add_two_of_stall (hf : flush (machine.run ins t) (ins t) = false)
    (hs : stall (machine.run ins t) = true) : busy ins (t + 2) = true := by
  rw [busy_succ_of_not_busy (busy_succ_of_stall hs), run_succ, step_dec_of_stall hf hs]
  exact (filled_run ins t).exe_dec (valid_of_stall hs)

/-- A flush costs two cycles. -/
theorem bubbles_of_flush (h : flush (machine.run ins t) (ins t) = true) :
    busy ins (t + 1) = false ∧ busy ins (t + 2) = false ∧ busy ins (t + 3) = true := by
  have h1 : busy ins (t + 1) = false := by
    rw [busy, run_succ, step_exe_of_flush h]
  have h2 : busy ins (t + 2) = false := by
    rw [busy_succ_of_not_busy h1, run_succ, step_dec_of_flush h]
  have hr : (machine.run ins (t + 1)).fetch.state = .receive :=
    step_fetch_state_of_receive (receive_of_busy (valid_of_flush h))
  refine ⟨h1, h2, ?_⟩
  rw [busy_succ_of_not_busy h2, dec_valid_succ_of_not_busy h1, hr]
  rfl

theorem exists_busy_after (h : busy ins t = true) :
    ∃ k, 1 ≤ k ∧ k ≤ 3 ∧ busy ins (t + k) = true := by
  cases hf : flush (machine.run ins t) (ins t) with
  | true => exact ⟨3, by omega, le_rfl, (bubbles_of_flush hf).2.2⟩
  | false =>
    cases hs : stall (machine.run ins t) with
    | true => exact ⟨2, by omega, by omega, busy_add_two_of_stall hf hs⟩
    | false =>
      refine ⟨1, le_rfl, by omega, ?_⟩
      rw [busy_succ_of_go hf hs]
      exact (filled_run ins t).exe_dec h

/-- From the first instruction on, no three cycles in a row are empty. -/
theorem exists_busy_window {t₀ : ℕ} (h : busy ins t₀ = true) (ht : t₀ ≤ t) :
    ∃ k < 3, busy ins (t + k) = true := by
  induction t, ht using Nat.le_induction with
  | base => exact ⟨0, by omega, h⟩
  | succ t _ ih =>
    obtain ⟨k, hk, hb⟩ := ih
    rcases k with _ | k
    · obtain ⟨j, hj, hj3, hb'⟩ := exists_busy_after hb
      exact ⟨j - 1, by omega, by rwa [show t + 1 + (j - 1) = t + 0 + j by omega]⟩
    · exact ⟨k, by omega, by rwa [show t + 1 + k = t + (k + 1) by omega]⟩

theorem not_busy_of_lt_four (ht : t < 4) : busy ins t = false := by
  by_contra hb
  rw [Bool.not_eq_false] at hb
  have h4 := four_le_of_exe_valid hb
  omega

theorem busy_four (ins : ℕ → In) : busy ins 4 = true := by
  rw [busy_succ_of_not_busy (not_busy_of_lt_four (by omega)),
    dec_valid_succ_of_not_busy (not_busy_of_lt_four (by omega)), fetch_state_run 0]
  rfl

/-- Whether write-back commits in a cycle. -/
def commits (ins : ℕ → In) (t : ℕ) : Bool := (debug (machine.run ins t)).commit

theorem commits_add_two (ins : ℕ → In) (t : ℕ) : commits ins (t + 2) = busy ins t := rfl

theorem not_commits_of_lt_six (ht : t < 6) : commits ins t = false := by
  rcases t with _ | _ | t
  · rfl
  · exact (wb_one : (machine.run ins 1).wb.info.valid = false)
  · rw [commits_add_two, not_busy_of_lt_four (by omega)]

theorem commits_six (ins : ℕ → In) : commits ins 6 = true := busy_four ins

theorem exists_commits_after (h : commits ins t = true) :
    ∃ k, 1 ≤ k ∧ k ≤ 3 ∧ commits ins (t + k) = true := by
  obtain ⟨u, rfl⟩ : ∃ u, t = u + 2 := by
    refine ⟨t - 2, ?_⟩
    by_contra hn
    rw [not_commits_of_lt_six (by omega)] at h
    exact absurd h (by decide)
  rw [commits_add_two] at h
  obtain ⟨k, h1, h3, hb⟩ := exists_busy_after h
  exact ⟨k, h1, h3, by rw [Nat.add_right_comm, commits_add_two, hb]⟩

end PuaCpu.Core
