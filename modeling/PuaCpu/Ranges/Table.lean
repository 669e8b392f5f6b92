import Mathlib.Data.List.Pairwise
import Mathlib.Data.List.TakeWhile
import Mathlib.Order.CompletePartialOrder
import Mathlib.Order.Interval.Set.Disjoint

/-! # Tables of ranges

An ordered map is the list of its entries in the order of their keys. Where the
entries are ranges and the keys follow their starts, a new range that meets
neither of its neighbours meets no entry, and the last entry that starts up to a
point is the only one that can contain it.
-/

namespace Ranges

variable {α κ : Type*} [LinearOrder κ] {f : α → κ} {k : κ} {l : List α} {a b x : α}

/-- The order of the entries of a map. -/
def Ascending (f : α → κ) (l : List α) : Prop := l.Pairwise fun a b => f a < f b

def upTo (f : α → κ) (k : κ) (l : List α) : List α := l.takeWhile fun a => f a ≤ k

def above (f : α → κ) (k : κ) (l : List α) : List α := l.dropWhile fun a => f a ≤ k

/-- The last entry up to a key. -/
def floor (f : α → κ) (k : κ) (l : List α) : Option α := (upTo f k l).getLast?

/-- The first entry above a key. -/
def next (f : α → κ) (k : κ) (l : List α) : Option α := (above f k l).head?

/-- The map with a new entry under its key. -/
def put (f : α → κ) (x : α) (l : List α) : List α :=
  (upTo f (f x) l).filter (fun a => f a ≠ f x) ++ x :: above f (f x) l

section Order

theorem mem_upTo (hl : Ascending f l) : a ∈ upTo f k l ↔ a ∈ l ∧ f a ≤ k := by
  refine ⟨fun h => ⟨(List.takeWhile_prefix _).subset h, ?_⟩, fun ⟨h, hk⟩ => ?_⟩
  · simpa using List.mem_takeWhile_imp h
  · unfold upTo
    induction l with
    | nil => exact h
    | cons b l ih =>
      obtain ⟨hb, hl⟩ := List.pairwise_cons.mp hl
      have hbk : f b ≤ k := by
        rcases List.mem_cons.mp h with rfl | h
        · exact hk
        · exact (hb a h).le.trans hk
      rw [List.takeWhile_cons_of_pos (by simpa using hbk)]
      exact List.mem_cons.mpr ((List.mem_cons.mp h).imp_right fun h => ih hl ⟨h, hk⟩ h)

theorem mem_above (hl : Ascending f l) : a ∈ above f k l ↔ a ∈ l ∧ k < f a := by
  unfold above
  induction l with
  | nil => simp
  | cons b l ih =>
    obtain ⟨hb, hl⟩ := List.pairwise_cons.mp hl
    by_cases hbk : f b ≤ k
    · rw [List.dropWhile_cons_of_pos (by simpa using hbk), ih hl, List.mem_cons]
      refine ⟨fun h => ⟨.inr h.1, h.2⟩, fun h => ⟨h.1.resolve_left ?_, h.2⟩⟩
      rintro rfl
      exact absurd h.2 hbk.not_gt
    · rw [List.dropWhile_cons_of_neg (by simpa using hbk)]
      refine ⟨fun h => ⟨h, ?_⟩, And.left⟩
      rcases List.mem_cons.mp h with rfl | h
      · exact not_le.mp hbk
      · exact (not_le.mp hbk).trans (hb a h)

theorem Ascending.upTo (hl : Ascending f l) : Ascending f (upTo f k l) :=
  hl.sublist (List.takeWhile_prefix _).sublist

theorem Ascending.above (hl : Ascending f l) : Ascending f (above f k l) :=
  hl.sublist (List.dropWhile_suffix _).sublist

theorem mem_put (hl : Ascending f l) : a ∈ put f x l ↔ a = x ∨ a ∈ l ∧ f a ≠ f x := by
  rw [put, List.mem_append, List.mem_filter, List.mem_cons, mem_upTo hl, mem_above hl,
    decide_eq_true_eq]
  constructor
  · rintro (⟨⟨h, -⟩, hn⟩ | rfl | ⟨h, hk⟩)
    · exact .inr ⟨h, hn⟩
    · exact .inl rfl
    · exact .inr ⟨h, hk.ne'⟩
  · rintro (rfl | ⟨h, hn⟩)
    · exact .inr (.inl rfl)
    · rcases lt_or_gt_of_ne hn with hk | hk
      · exact .inl ⟨⟨h, hk.le⟩, hn⟩
      · exact .inr (.inr ⟨h, hk⟩)

theorem pairwise_put {R : α → α → Prop} (hl : Ascending f l) (hR : l.Pairwise R)
    (hb : ∀ a ∈ l, f a < f x → R a x) (ha : ∀ a ∈ l, f x < f a → R x a) :
    (put f x l).Pairwise R := by
  have hsplit : l = upTo f (f x) l ++ above f (f x) l := List.takeWhile_append_dropWhile.symm
  rw [hsplit, List.pairwise_append] at hR
  refine List.pairwise_append.mpr
    ⟨hR.1.filter _, List.pairwise_cons.mpr ⟨fun a h => ?_, hR.2.1⟩, fun a h b hb' => ?_⟩
  · obtain ⟨h, hk⟩ := (mem_above hl).mp h
    exact ha a h hk
  · obtain ⟨h, hn⟩ := List.mem_filter.mp h
    obtain ⟨hm, hk⟩ := (mem_upTo hl).mp h
    rcases List.mem_cons.mp hb' with rfl | hb'
    · exact hb a hm (lt_of_le_of_ne hk (by simpa using hn))
    · exact hR.2.2 a h b hb'

theorem Ascending.put (hl : Ascending f l) : Ascending f (put f x l) :=
  pairwise_put hl hl (fun _ _ h => h) fun _ _ h => h

theorem floor_eq_some (hl : Ascending f l) (h : floor f k l = some a) :
    a ∈ l ∧ f a ≤ k ∧ ∀ b ∈ l, f b ≤ k → f b ≤ f a := by
  obtain ⟨hm, hk⟩ := (mem_upTo hl).mp (List.mem_of_getLast? h)
  refine ⟨hm, hk, fun b hb hbk => ?_⟩
  obtain ⟨m, hs⟩ := List.getLast?_eq_some_iff.mp h
  have hb' := (mem_upTo hl).mpr ⟨hb, hbk⟩
  have hp : Ascending f (m ++ [a]) := hs ▸ hl.upTo
  rw [hs, List.mem_append, List.mem_singleton] at hb'
  rcases hb' with hb' | rfl
  · exact ((List.pairwise_append.mp hp).2.2 b hb' a (List.mem_singleton_self a)).le
  · exact le_rfl

theorem floor_eq_none (hl : Ascending f l) (h : floor f k l = none) (hb : b ∈ l) : k < f b := by
  rw [← not_le]
  intro hk
  have hm := (mem_upTo hl).mpr ⟨hb, hk⟩
  rw [List.getLast?_eq_none_iff.mp h] at hm
  exact List.not_mem_nil hm

theorem next_eq_some (hl : Ascending f l) (h : next f k l = some a) :
    a ∈ l ∧ k < f a ∧ ∀ b ∈ l, k < f b → f a ≤ f b := by
  obtain ⟨hm, hk⟩ := (mem_above hl).mp (List.mem_of_head? h)
  refine ⟨hm, hk, fun b hb hbk => ?_⟩
  obtain ⟨m, hs⟩ := List.head?_eq_some_iff.mp h
  have hb' := (mem_above hl).mpr ⟨hb, hbk⟩
  have hp : Ascending f (a :: m) := hs ▸ hl.above
  rw [hs, List.mem_cons] at hb'
  rcases hb' with rfl | hb'
  · exact le_rfl
  · exact ((List.pairwise_cons.mp hp).1 b hb').le

theorem next_eq_none (hl : Ascending f l) (h : next f k l = none) (hb : b ∈ l) : f b ≤ k := by
  rw [← not_lt]
  intro hk
  have hm := (mem_above hl).mpr ⟨hb, hk⟩
  rw [List.head?_eq_none_iff.mp h] at hm
  exact List.not_mem_nil hm

end Order

section Apart

variable {β : Type*} [LinearOrder β] {lo hi : α → β}

/-- Two half-open ranges without a common point. -/
def Apart (lo hi : α → β) (a b : α) : Prop :=
  Disjoint (Set.Ico (lo a) (hi a)) (Set.Ico (lo b) (hi b))

theorem Apart.symm (h : Apart lo hi a b) : Apart lo hi b a := Disjoint.symm h

instance : Std.Symm (Apart lo hi) := ⟨fun _ _ => Apart.symm⟩

theorem apart_of_le (h : hi a ≤ lo b) : Apart lo hi a b := by
  rw [Apart, Set.Ico_disjoint_Ico]
  exact (min_le_left _ _).trans (h.trans (le_max_right _ _))

theorem Apart.le (h : Apart lo hi a b) (hb : lo b < hi b) (hab : lo a ≤ lo b) :
    hi a ≤ lo b := by
  rw [Apart, Set.Ico_disjoint_Ico, max_eq_right hab, min_le_iff] at h
  exact h.resolve_right hb.not_ge

/-- A range that meets neither of its neighbours meets no other one. -/
theorem apart_of_neighbours (hm : ∀ a b, f a ≤ f b → lo a ≤ lo b) (hl : Ascending f l)
    (hs : ∀ a ∈ l, lo a < hi a) (hp : ∀ a ∈ l, ∀ b ∈ l, a ≠ b → Apart lo hi a b)
    (hf : ∀ a, floor f (f x) l = some a → f a ≠ f x → Apart lo hi a x)
    (hn : ∀ a, next f (f x) l = some a → Apart lo hi a x) (hb : b ∈ l) (hne : f b ≠ f x) :
    Apart lo hi b x := by
  rcases lt_or_gt_of_ne hne with hlt | hgt
  · rcases hfl : floor f (f x) l with _ | a
    · exact absurd (floor_eq_none hl hfl hb) hlt.not_gt
    obtain ⟨ha, hk, hmax⟩ := floor_eq_some hl hfl
    by_cases hab : b = a
    · subst hab
      exact hf b hfl hne
    · have hle := (hp b hb a ha hab).le (hs a ha) (hm b a (hmax b hb hlt.le))
      exact apart_of_le (hle.trans (hm a x hk))
  · rcases hnx : next f (f x) l with _ | a
    · exact absurd (next_eq_none hl hnx hb) hgt.not_ge
    obtain ⟨ha, hk, hmin⟩ := next_eq_some hl hnx
    by_cases hab : a = b
    · subst hab
      exact hn a hnx
    · have hxa := (hn a hnx).symm.le (hs a ha) (hm x a hk.le)
      have hle := (hp a ha b hb hab).le (hs b hb) (hm a b (hmin b hb hgt))
      exact (apart_of_le (hxa.trans ((hs a ha).le.trans hle))).symm

/-- The only entry that can contain a point is the last one that starts up to it. -/
theorem eq_floor {p : β} (hm : ∀ a b, f a ≤ f b → lo a ≤ lo b) (hk : ∀ a, f a ≤ k ↔ lo a ≤ p)
    (hl : Ascending f l) (hs : ∀ a ∈ l, lo a < hi a)
    (hp : ∀ a ∈ l, ∀ b ∈ l, a ≠ b → Apart lo hi a b) (hb : b ∈ l)
    (hpb : p ∈ Set.Ico (lo b) (hi b)) : floor f k l = some b := by
  rcases hfl : floor f k l with _ | a
  · exact absurd ((hk b).mpr hpb.1) (floor_eq_none hl hfl hb).not_ge
  obtain ⟨ha, hak, hmax⟩ := floor_eq_some hl hfl
  by_cases hab : b = a
  · rw [hab]
  · have hle := (hp b hb a ha hab).le (hs a ha) (hm b a (hmax b hb ((hk b).mpr hpb.1)))
    exact absurd (hpb.2.trans_le (hle.trans ((hk a).mp hak))) (lt_irrefl p)

end Apart

end Ranges
