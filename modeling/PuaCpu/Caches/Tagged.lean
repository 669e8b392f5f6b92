import Mathlib.Data.Set.Basic
import Mathlib.Logic.Function.Basic

/-! # Tagged caches of page-wise functions

A function is given in several spaces. Its values say how far around an argument
they hold, which is their page, and whether they are shared by all spaces. An
entry holds a value for one page, under the tag of its space. Entries that agree
with the function, each filled after a miss, never overlap: two of them that hit
one argument hold the same value, for the same page, and the later one has had no
reason to be filled.
-/

namespace Caches

/-- What a look-up compares. -/
structure Scheme (σ τ α V π : Type*) where
  tag : σ → τ
  page : V → α → π
  Shared : V → Prop

structure Entry (τ V π : Type*) where
  tag : τ
  val : V
  page : π

variable {σ τ α V π ι : Type*} {c : Scheme σ τ α V π} {U : Set σ} {tr tr' : σ → α → Option V}
  {m m' : ι → Option (Entry τ V π)} {e : Entry τ V π} {s s' : σ} {a a' : α} {v : V} {i j : ι}

namespace Scheme

variable (c)

/-- Whether an entry serves an argument in a space. -/
def Hits (e : Entry τ V π) (s : σ) (a : α) : Prop :=
  (e.tag = c.tag s ∨ c.Shared e.val) ∧ c.page e.val a = e.page

/-- The entry of a value for an argument. -/
def entry (s : σ) (a : α) (v : V) : Entry τ V π := ⟨c.tag s, v, c.page v a⟩

/-- A function that is constant on pages, and whose shared values are those of all the spaces in
use. -/
structure Source (U : Set σ) (tr : σ → α → Option V) : Prop where
  uniform : ∀ ⦃s a a' v⦄, tr s a = some v → c.page v a' = c.page v a → tr s a' = some v
  tag : ∀ ⦃s s'⦄, s ∈ U → s' ∈ U → c.tag s = c.tag s' → tr s = tr s'
  shared : ∀ ⦃s s' a v⦄, s ∈ U → s' ∈ U → c.Shared v → tr s a = some v → tr s' a = some v

/-- No argument is served by two entries. -/
def Unique (m : ι → Option (Entry τ V π)) : Prop := ∀ ⦃i j e e' s a⦄, m i = some e →
  m j = some e' → c.Hits e s a → c.Hits e' s a → i = j

/-- The entries have tags in use. -/
def Tagged (U : Set σ) (m : ι → Option (Entry τ V π)) : Prop :=
  ∀ ⦃i e⦄, m i = some e → ∃ s ∈ U, c.tag s = e.tag

/-- The entries agree with the function in the spaces in use. -/
def Agrees (U : Set σ) (tr : σ → α → Option V) (m : ι → Option (Entry τ V π)) : Prop :=
  ∀ ⦃i e s a⦄, m i = some e → s ∈ U → c.Hits e s a → tr s a = some e.val

variable {c}

theorem hits_entry : c.Hits (c.entry s a v) s a := ⟨.inl rfl, rfl⟩

section Remove

/-- A cache with fewer entries. -/
def Fewer (m' m : ι → Option (Entry τ V π)) : Prop := ∀ ⦃i e⦄, m' i = some e → m i = some e

theorem Unique.fewer (h : c.Unique m) (hm : Fewer m' m) : c.Unique m' :=
  fun _ _ _ _ _ _ hi hj => h (hm hi) (hm hj)

theorem Tagged.fewer (h : c.Tagged U m) (hm : Fewer m' m) : c.Tagged U m' :=
  fun _ _ hi => h (hm hi)

theorem Agrees.fewer (h : c.Agrees U tr m) (hm : Fewer m' m) : c.Agrees U tr m' :=
  fun _ _ _ _ hi => h (hm hi)

end Remove

theorem Agrees.congr (h : c.Agrees U tr m) (ht : ∀ s ∈ U, tr s = tr' s) : c.Agrees U tr' m :=
  fun _ _ _ _ hi hs hh => ht _ hs ▸ h hi hs hh

section Fill

variable [DecidableEq ι]

theorem update_eq_some {x : Entry τ V π} (h : Function.update m j (some x) i = some e) :
    i = j ∧ e = x ∨ m i = some e := by
  by_cases hij : i = j
  · subst hij
    rw [Function.update_self] at h
    exact .inl ⟨rfl, (Option.some_inj.mp h).symm⟩
  · rw [Function.update_of_ne hij] at h
    exact .inr h

theorem Tagged.fill (h : c.Tagged U m) (hs : s ∈ U) :
    c.Tagged U (Function.update m j (some (c.entry s a v))) := by
  intro i e hi
  rcases update_eq_some hi with ⟨-, rfl⟩ | hi
  · exact ⟨s, hs, rfl⟩
  · exact h hi

theorem Source.entry (hc : c.Source U tr) (hs : s ∈ U) (ht : tr s a = some v) (hs' : s' ∈ U)
    (hh : c.Hits (c.entry s a v) s' a') : tr s' a' = some v := by
  have ha : tr s a' = some v := hc.uniform ht hh.2
  rcases hh.1 with htag | hsh
  · rwa [← hc.tag hs hs' htag]
  · exact hc.shared hs hs' hsh ha

theorem Agrees.fill (h : c.Agrees U tr m) (hc : c.Source U tr) (hs : s ∈ U) (ht : tr s a = some v) :
    c.Agrees U tr (Function.update m j (some (c.entry s a v))) := by
  intro i e s' a' hi hs' hh
  rcases update_eq_some hi with ⟨-, rfl⟩ | hi
  · exact hc.entry hs ht hs' hh
  · exact h hi hs' hh

omit [DecidableEq ι] in
/-- An old entry that overlaps a new one would have hit. -/
theorem not_hits_of_miss (hc : c.Source U tr) (ht : c.Tagged U m) (ha : c.Agrees U tr m)
    (hs : s ∈ U) (hv : tr s a = some v) (hm : ∀ i e, m i = some e → ¬ c.Hits e s a)
    (hi : m i = some e) (hh : c.Hits (c.entry s a v) s' a') : ¬ c.Hits e s' a' := by
  intro he
  -- Both entries serve the argument in a space in use, and so hold one value.
  have hval : e.val = v := by
    by_cases hsh : c.Shared e.val
    · have hes : tr s a' = some e.val := ha hi hs ⟨.inr hsh, he.2⟩
      exact Option.some_inj.mp (hes.symm.trans (hc.uniform hv hh.2))
    · obtain ⟨s₀, hs₀, htag⟩ := ht hi
      have htag' : e.tag = c.tag s' := he.1.resolve_right hsh
      have hes : tr s₀ a' = some e.val := ha hi hs₀ ⟨.inl htag.symm, he.2⟩
      have hns : tr s₀ a' = some v := hc.entry hs hv hs₀
        ⟨hh.1.imp_left fun h => h.trans (htag'.symm.trans htag.symm), hh.2⟩
      exact Option.some_inj.mp (hes.symm.trans hns)
  subst hval
  refine hm i e hi ⟨?_, hh.2.symm.trans he.2⟩
  rcases he.1 with htag | hsh
  · exact hh.1.imp_left fun h => htag.trans h.symm
  · exact .inr hsh

theorem Unique.fill (h : c.Unique m) (hc : c.Source U tr) (ht : c.Tagged U m)
    (ha : c.Agrees U tr m) (hs : s ∈ U) (hv : tr s a = some v)
    (hm : ∀ i e, m i = some e → ¬ c.Hits e s a) :
    c.Unique (Function.update m j (some (c.entry s a v))) := by
  intro i i' e e' s' a' hi hi' hh hh'
  rcases update_eq_some hi with ⟨rfl, rfl⟩ | hold
  · rcases update_eq_some hi' with ⟨rfl, rfl⟩ | hold'
    · rfl
    · exact absurd hh' (not_hits_of_miss hc ht ha hs hv hm hold' hh)
  · rcases update_eq_some hi' with ⟨rfl, rfl⟩ | hold'
    · exact absurd hh (not_hits_of_miss hc ht ha hs hv hm hold hh')
    · exact h hold hold' hh hh'

end Fill

end Scheme

end Caches
