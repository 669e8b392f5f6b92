import Mathlib.Data.List.Nodup

/-! # The first alternative

A list orders alternatives, and the first one with a property is chosen. A search
through the list finds it.
-/

namespace Selection

variable {α : Type*} {l : List α} {p q : α → Prop} {a b : α}

/-- `a` has the property, and nothing before it in the list has. -/
structure First (l : List α) (p : α → Prop) (a : α) : Prop where
  mem : a ∈ l
  holds : p a
  before : ∀ b, [b, a].Sublist l → ¬ p b

theorem First.congr (h : First l p a) (hpq : ∀ b ∈ l, p b ↔ q b) : First l q a where
  mem := h.mem
  holds := (hpq a h.mem).mp h.holds
  before b hs hq := h.before b hs ((hpq b (hs.subset List.mem_cons_self)).mpr hq)

theorem pair_sublist (ha : a ∈ l) (hb : b ∈ l) (hne : a ≠ b) :
    [a, b].Sublist l ∨ [b, a].Sublist l := by
  induction l with
  | nil => cases ha
  | cons c l ih =>
    rcases List.mem_cons.mp ha with rfl | ha'
    · have hb' := (List.mem_cons.mp hb).resolve_left hne.symm
      exact .inl ((List.singleton_sublist.mpr hb').cons_cons a)
    · rcases List.mem_cons.mp hb with rfl | hb'
      · exact .inr ((List.singleton_sublist.mpr ha').cons_cons b)
      · exact (ih ha' hb').imp (·.cons c) (·.cons c)

theorem First.unique (ha : First l p a) (hb : First l p b) : a = b := by
  by_contra hne
  rcases pair_sublist ha.mem hb.mem hne with hs | hs
  · exact hb.before a hs ha.holds
  · exact ha.before b hs hb.holds

/-- A search finds the first alternative, if it occurs once. -/
theorem first_of_find? {sel : α → Bool} (hn : l.Nodup) (h : l.find? sel = some a) :
    First l (sel · = true) a where
  mem := List.mem_of_find?_eq_some h
  holds := List.find?_some h
  before b hs := by
    induction l with
    | nil => cases h
    | cons c l ih =>
      obtain ⟨hc, hl⟩ := List.nodup_cons.mp hn
      rw [List.find?_cons] at h
      cases hsel : sel c with
      | true =>
        rw [hsel] at h
        obtain rfl := Option.some_inj.mp h
        cases hs with
        | cons _ hs => exact absurd (hs.subset (by simp)) hc
        | cons_cons _ hs => exact absurd (hs.subset (by simp)) hc
      | false =>
        rw [hsel] at h
        cases hs with
        | cons _ hs => exact ih hl h hs
        | cons_cons _ hs => exact Bool.eq_false_iff.mp hsel

theorem exists_first {sel : α → Bool} (hn : l.Nodup) (h : ∃ a ∈ l, sel a = true) :
    ∃ a, l.find? sel = some a ∧ First l (sel · = true) a := by
  obtain ⟨a, ha⟩ := Option.isSome_iff_exists.mp (List.find?_isSome.mpr h)
  exact ⟨a, ha, first_of_find? hn ha⟩

end Selection
