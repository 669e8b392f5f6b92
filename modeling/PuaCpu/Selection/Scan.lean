import Mathlib.Data.List.Induction
import Mathlib.Data.Prod.Lex
import Mathlib.Data.Set.Basic

/-! # Scans for the best candidate

Candidates have a priority, and among equal priorities the lower number wins. A
scan in ascending order that replaces its choice by strictly better priorities
only ends with the best candidate. Two sets of candidates have the same choice
exactly if each candidate of one that is missing in the other loses there.
-/

namespace Selection

variable {ι κ : Type*} [LinearOrder ι] [LinearOrder κ] {prio : ι → κ} {s t : Set ι} {i j : ι}
  {o o' : Option ι}

section Best

/-- `i` has the higher priority, or the lower number among equals. -/
def Beats (prio : ι → κ) (i j : ι) : Prop := prio j < prio i ∨ prio j = prio i ∧ i < j

/-- The candidate that beats all the others. -/
def Best (prio : ι → κ) (s : Set ι) (i : ι) : Prop := i ∈ s ∧ ∀ j ∈ s, j ≠ i → Beats prio i j

/-- Candidates in the order in which they are chosen. -/
def rank (prio : ι → κ) (i : ι) : κ ×ₗ ιᵒᵈ := toLex (prio i, OrderDual.toDual i)

theorem beats_iff : Beats prio i j ↔ rank prio j < rank prio i := by
  rw [rank, rank, Prod.Lex.toLex_lt_toLex]
  rfl

omit [LinearOrder ι] [LinearOrder κ] in
theorem rank_injective : Function.Injective (rank prio) := by
  intro i j h
  exact congrArg (fun x => OrderDual.ofDual (ofLex x).2) h

theorem best_iff : Best prio s i ↔ i ∈ s ∧ ∀ j ∈ s, rank prio j ≤ rank prio i := by
  refine and_congr_right fun _ => forall₂_congr fun j _ => ?_
  rw [beats_iff, le_iff_lt_or_eq, rank_injective.eq_iff]
  tauto

end Best

section Chosen

/-- The choice among some candidates, and nothing if there are none. -/
inductive Chosen (prio : ι → κ) (s : Set ι) : Option ι → Prop
  | none (h : ∀ i, i ∉ s) : Chosen prio s none
  | some {i : ι} (h : Best prio s i) : Chosen prio s (some i)

/-- The candidates of a set that another one misses lose there. -/
def Covered (prio : ι → κ) (s t : Set ι) : Prop := ∀ i ∈ s, i ∉ t → ∃ j ∈ t, Beats prio j i

theorem covered_iff : Covered prio s t ↔ ∀ i ∈ s, ∃ j ∈ t, rank prio i ≤ rank prio j := by
  refine forall₂_congr fun i _ => ?_
  constructor
  · intro h
    by_cases hi : i ∈ t
    · exact ⟨i, hi, le_rfl⟩
    · obtain ⟨j, hj, hb⟩ := h hi
      exact ⟨j, hj, (beats_iff.mp hb).le⟩
  · rintro ⟨j, hj, hle⟩ hi
    refine ⟨j, hj, beats_iff.mpr (lt_of_le_of_ne hle fun he => hi ?_)⟩
    rwa [rank_injective he]

theorem Best.covered (hs : Best prio s i) (ht : Best prio t i) : Covered prio s t := by
  rw [covered_iff]
  intro j hj
  exact ⟨i, ht.1, (best_iff.mp hs).2 j hj⟩

theorem Best.of_covered (hs : Best prio s i) (hst : Covered prio s t) (hts : Covered prio t s) :
    Best prio t i := by
  rw [best_iff] at hs ⊢
  rw [covered_iff] at hst hts
  have hle (j : ι) (hj : j ∈ t) : rank prio j ≤ rank prio i := by
    obtain ⟨k, hk, hjk⟩ := hts j hj
    exact hjk.trans (hs.2 k hk)
  obtain ⟨j, hj, hij⟩ := hst i hs.1
  obtain rfl := rank_injective (hij.antisymm (hle j hj))
  exact ⟨hj, hle⟩

/-- When two sets have the same choice. -/
theorem chosen_iff_covered (h : Chosen prio s o) :
    Chosen prio t o ↔ Covered prio s t ∧ Covered prio t s := by
  cases h with
  | none hs =>
    constructor
    · rintro ⟨ht⟩
      exact ⟨fun i hi => absurd hi (hs i), fun i hi => absurd hi (ht i)⟩
    · rintro ⟨-, hts⟩
      refine .none fun i hi => ?_
      obtain ⟨j, hj, -⟩ := hts i hi (hs i)
      exact hs j hj
  | some hs =>
    constructor
    · intro h
      cases h with
      | some ht => exact ⟨hs.covered ht, ht.covered hs⟩
    · rintro ⟨hst, hts⟩
      exact .some (hs.of_covered hst hts)

end Chosen

section Scan

variable {ok : ι → Prop} [DecidablePred ok]

/-- One step of a scan. -/
def keep (ok : ι → Prop) [DecidablePred ok] (prio : ι → κ) (best : Option ι) (i : ι) : Option ι :=
  if ok i ∧ ∀ j ∈ best, prio j < prio i then some i else best

/-- The scan ends with the best candidate. -/
theorem chosen_scan {l : List ι} (hl : l.Pairwise (· < ·)) :
    Chosen prio {i | i ∈ l ∧ ok i} (l.foldl (keep ok prio) none) := by
  induction l using List.reverseRecOn with
  | nil => exact .none fun i hi => by simp at hi
  | append_singleton l i ih =>
    rw [List.pairwise_append] at hl
    obtain ⟨hl, -, hlt⟩ := hl
    have hlast (j : ι) (hj : j ∈ l) : j < i := hlt j hj i (List.mem_singleton_self i)
    have hmem (j : ι) : j ∈ l ++ [i] ↔ j ∈ l ∨ j = i := by simp
    rw [List.foldl_append, List.foldl_cons, List.foldl_nil]
    have hc := ih hl
    generalize l.foldl (keep ok prio) none = o at hc ⊢
    unfold keep
    split_ifs with h
    · refine .some ⟨⟨(hmem i).mpr (.inr rfl), h.1⟩, ?_⟩
      rintro j ⟨hj, hok⟩ hji
      have hjl : j ∈ l := ((hmem j).mp hj).resolve_right hji
      cases hc with
      | none hn => exact absurd ⟨hjl, hok⟩ (hn j)
      | @some b hb =>
        refine .inl ((?_ : prio j ≤ prio b).trans_lt (h.2 b rfl))
        by_cases hjb : j = b
        · rw [hjb]
        · exact (hb.2 j ⟨hjl, hok⟩ hjb).elim le_of_lt fun he => he.1.le
    · cases hc with
      | none hn =>
        refine .none ?_
        rintro j ⟨hj, hok⟩
        rcases (hmem j).mp hj with hj | rfl
        · exact hn j ⟨hj, hok⟩
        · exact h ⟨hok, by simp⟩
      | @some b hb =>
        refine .some ⟨⟨(hmem b).mpr (.inl hb.1.1), hb.1.2⟩, ?_⟩
        rintro j ⟨hj, hok⟩ hjb
        rcases (hmem j).mp hj with hj | rfl
        · exact hb.2 j ⟨hj, hok⟩ hjb
        · -- the later candidate was not strictly better
          have hle : prio j ≤ prio b := not_lt.mp fun hlt => h ⟨hok, by simpa using hlt⟩
          rcases hle.lt_or_eq with hlt | he
          · exact .inl hlt
          · exact .inr ⟨he, hlast b hb.1.1⟩

end Scan

end Selection
