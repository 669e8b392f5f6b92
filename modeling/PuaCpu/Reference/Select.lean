import PuaCpu.Reference.Plic
import PuaCpu.Selection.Scan

/-! # The source that the interrupt controller selects

`get_int` scans the sources for the best one that passes its test. The test
shifts the bit of a source to the end of its word and leaves the higher bits in
place, so a source can pass on the bits of others, or fail on them.
-/

namespace PuaCpu.Plic

open Selection

variable {nrSource nrContext : ℕ} (p : Plic nrSource nrContext)

/-- The bit of a source. -/
def own (a : Arr (sourceWords nrSource) (BitVec 32)) (i : Fin (nrSource + 1)) : Bool :=
  (a (wordOf i)).getLsbD (i.val % 32)

/-- The bit of a source or a higher one in its word. -/
def fromOwn (a : Arr (sourceWords nrSource) (BitVec 32)) (i : Fin (nrSource + 1)) : Prop :=
  ∃ j, i.val % 32 ≤ j ∧ (a (wordOf i)).getLsbD j = true

/-- The priority of a source. -/
def prio (i : Fin (nrSource + 1)) : ℕ := (p.priority i).toNat

/-- A source that may interrupt a context. -/
structure Eligible (c : Fin nrContext) (i : Fin (nrSource + 1)) : Prop where
  source : i ≠ 0
  pending : own p.pending i = true
  enable : own (p.enable c) i = true
  claimed : own p.claimed i = false
  priority : 0 < p.prio i
  threshold : (p.threshold c).toNat ≤ p.prio i

/-- A source that passes the test of `get_int`. -/
structure Passes (c : Fin nrContext) (i : Fin (nrSource + 1)) : Prop where
  source : i ≠ 0
  pending : fromOwn p.pending i
  enable : fromOwn (p.enable c) i
  claimed : ¬ fromOwn p.claimed i
  priority : 0 < p.prio i
  threshold : (p.threshold c).toNat ≤ p.prio i

variable {p} {c : Fin nrContext} {i : Fin (nrSource + 1)}

theorem fromOwn_iff {a : Arr (sourceWords nrSource) (BitVec 32)} :
    fromOwn a i ↔ a (wordOf i) >>> (i.val % 32) ≠ 0 := by
  rw [← not_iff_not, not_ne_iff]
  constructor
  · intro h
    ext k hk
    rw [BitVec.getElem_ushiftRight]
    have hk : (a (wordOf i)).getLsbD (i.val % 32 + k) = false :=
      Bool.eq_false_iff.mpr fun hb => h ⟨i.val % 32 + k, Nat.le_add_right _ _, hb⟩
    simpa using hk
  · rintro h ⟨j, hj, hb⟩
    have hz := congrArg (·.getLsbD (j - i.val % 32)) h
    rw [BitVec.getLsbD_ushiftRight, Nat.add_sub_cancel' hj, hb] at hz
    simp at hz

theorem passes_iff : p.Passes c i ↔ i ≠ 0 ∧ p.ready c i = true ∧ 0 < p.prio i := by
  have hr : p.ready c i = true ↔ (p.threshold c).toNat ≤ p.prio i ∧ fromOwn p.pending i ∧
      fromOwn (p.enable c) i ∧ ¬ fromOwn p.claimed i := by
    simp only [ready, fromOwn_iff, Bool.and_eq_true, bne_iff_ne, beq_iff_eq, BitVec.ule,
      decide_eq_true_eq, not_ne_iff, and_assoc, prio]
  rw [hr]
  constructor
  · rintro ⟨h0, hp, he, hc, hpos, ht⟩
    exact ⟨h0, ⟨ht, hp, he, hc⟩, hpos⟩
  · rintro ⟨h0, ⟨ht, hp, he, hc⟩, hpos⟩
    exact ⟨h0, hp, he, hc, hpos, ht⟩

section Loop

/-- The two variables of the loop of `get_int`. -/
def pair (p : Plic nrSource nrContext) (o : Option (Fin (nrSource + 1))) : ℕ × ℕ :=
  o.elim (0, 0) fun i => (p.prio i, i.val)

theorem pick_pair (o : Option (Fin (nrSource + 1))) : p.pick c (p.pair o) i =
    p.pair (keep (fun i => p.ready c i = true ∧ 0 < p.prio i) p.prio o i) := by
  have hc : (p.ready c i && decide ((p.pair o).1 < (p.priority i).toNat)) = true ↔
      (p.ready c i = true ∧ 0 < p.prio i) ∧ ∀ j ∈ o, p.prio j < p.prio i := by
    rw [Bool.and_eq_true, decide_eq_true_eq, and_assoc]
    refine and_congr_right fun _ => ?_
    cases o with
    | none => simp [pair, prio]
    | some j =>
      simp only [pair, prio, Option.elim_some, Option.mem_def, Option.some_inj, forall_eq']
      omega
  unfold pick keep
  by_cases h : (p.ready c i && decide ((p.pair o).1 < (p.priority i).toNat)) = true
  · rw [if_pos h, if_pos (hc.mp h)]
    rfl
  · rw [if_neg h, if_neg (mt hc.mpr h)]

theorem exists_chosen (p : Plic nrSource nrContext) (c : Fin nrContext) :
    ∃ o, Chosen p.prio {i | p.Passes c i} o ∧ p.best c = o.elim 0 Fin.val := by
  let l := (List.finRange nrSource).map Fin.succ
  have hl : l.Pairwise (· < ·) := by
    rw [List.pairwise_map]
    exact (List.pairwise_lt_finRange nrSource).imp fun h => Fin.succ_lt_succ_iff.mpr h
  have hmem (i : Fin (nrSource + 1)) : i ∈ l ↔ i ≠ 0 := by
    simp only [l, List.mem_map, List.mem_finRange, true_and]
    exact ⟨by rintro ⟨j, rfl⟩; exact Fin.succ_ne_zero j, fun h => ⟨i.pred h, Fin.succ_pred i h⟩⟩
  have hs : {i | p.Passes c i} = {i | i ∈ l ∧ p.ready c i = true ∧ 0 < p.prio i} := by
    ext i
    exact passes_iff.trans (and_congr_left' (hmem i).symm)
  refine ⟨_, hs ▸ chosen_scan hl, ?_⟩
  have hf : l.foldl (p.pick c) (p.pair none) = p.pair (l.foldl _ none) :=
    List.foldl_hom p.pair fun o i => pick_pair o
  rw [best]
  change (l.foldl (p.pick c) (p.pair none)).2 = _
  rw [hf]
  generalize l.foldl _ none = o
  cases o <;> rfl

end Loop

/-- What `get_int` should answer: the claim register names the best eligible source. -/
inductive Selects (p : Plic nrSource nrContext) (c : Fin nrContext) : BitVec 32 → Bool → Prop
  | source {i : Fin (nrSource + 1)} (h : Best p.prio {i | p.Eligible c i} i) :
    Selects p c (BitVec.ofNat 32 i.val) true
  | none (h : ∀ i, ¬ p.Eligible c i) : Selects p c 0 false

theorem selects_iff_chosen (hn : nrSource < 2 ^ 31) {o : Option (Fin (nrSource + 1))}
    (ho : ∀ i ∈ o, i ≠ 0) : Selects p c (BitVec.ofNat 32 (o.elim 0 Fin.val))
      (BitVec.ofNat 32 (o.elim 0 Fin.val) != 0) ↔ Chosen p.prio {i | p.Eligible c i} o := by
  have hval {i j : Fin (nrSource + 1)} (h : BitVec.ofNat 32 i.val = BitVec.ofNat 32 j.val) :
      i = j := by
    have h := congrArg BitVec.toNat h
    rw [BitVec.toNat_ofNat, BitVec.toNat_ofNat] at h
    omega
  generalize hb : BitVec.ofNat 32 (o.elim 0 Fin.val) = v
  generalize hr : (v != 0) = b
  constructor
  · intro h
    cases h with
    | @source i hi =>
      cases o with
      | none => exact absurd (hval (i := 0) hb).symm hi.1.source
      | some j =>
        obtain rfl := hval hb
        exact .some hi
    | none hn =>
      cases o with
      | none => exact .none hn
      | some j => exact absurd (hval (j := 0) hb) (ho j rfl)
  · intro h
    cases h with
    | none hn =>
      subst hb hr
      exact .none hn
    | @some i hi =>
      have hv : v ≠ 0 := fun h0 => ho i rfl (hval (j := 0) (hb.trans h0))
      obtain rfl : true = b := (bne_iff_ne.mpr hv).symm.trans hr
      rw [← hb]
      exact .source hi

theorem getInt_eq (p : Plic nrSource nrContext) (c : Fin nrContext) :
    ∃ p', p.getInt c.val = some (p', BitVec.ofNat 32 (p.best c) != 0) ∧
      p'.claim c = BitVec.ofNat 32 (p.best c) :=
  ⟨_, dif_pos ⟨Int.natCast_nonneg _, c.isLt⟩, Function.update_self c _ p.claim⟩

/-- **When `get_int` selects the right source**: while the sources that pass only on the bits of
others lose to eligible ones, and the eligible sources that fail on the bits of others lose to
sources that pass. -/
theorem selects_iff (hn : nrSource < 2 ^ 31) (p : Plic nrSource nrContext) (c : Fin nrContext) :
    (∃ p' b, p.getInt c.val = some (p', b) ∧ Selects p c (p'.claim c) b) ↔
      Covered p.prio {i | p.Passes c i} {i | p.Eligible c i} ∧
        Covered p.prio {i | p.Eligible c i} {i | p.Passes c i} := by
  obtain ⟨o, ho, hbest⟩ := exists_chosen p c
  obtain ⟨p', hg, hc⟩ := getInt_eq p c
  have h0 : ∀ i ∈ o, i ≠ 0 := by
    rintro i rfl
    cases ho with
    | some hi => exact hi.1.source
  rw [← chosen_iff_covered ho, ← selects_iff_chosen hn h0, ← hbest, hg]
  constructor
  · rintro ⟨p₁, b, h, hs⟩
    obtain ⟨rfl, rfl⟩ := Prod.mk.inj (Option.some_inj.mp h)
    rwa [hc] at hs
  · intro hs
    exact ⟨p', _, rfl, by rwa [hc]⟩

/-- Only source 1 is pending and enabled. -/
def oneSource : Plic 1 2 :=
  { init with priority := fun _ => 1, pending := fun _ => 2, enable := fun _ _ => 2 }

theorem selects_iff_one : ∃ p' b, oneSource.getInt 0 = some (p', b) ∧
    Selects oneSource 0 (p'.claim 0) b := by
  have hp {i : Fin 2} : oneSource.Passes 0 i ↔ i = 1 := by
    rw [passes_iff]
    revert i
    decide
  have he : oneSource.Eligible 0 1 :=
    ⟨by decide, by decide, by decide, by decide, by decide, by decide⟩
  refine (selects_iff (by decide) oneSource 0).mpr ⟨fun i hi hn => ?_, fun i hi hn => ?_⟩
  · obtain rfl := hp.mp hi
    exact absurd he hn
  · exact absurd (hp.mpr (Fin.eq_one_of_ne_zero i hi.source)) hn

/-- Source 1 is enabled, and source 2 is pending. -/
def twoSources : Plic 2 1 :=
  { init with priority := fun _ => 1, pending := fun _ => 4, enable := fun _ _ => 2 }

/-- `get_int` selects source 1. -/
theorem not_selects : ¬ ∀ (nrSource nrContext : ℕ), nrSource < 2 ^ 31 →
    ∀ (p : Plic nrSource nrContext) (c : Fin nrContext),
      ∃ p' b, p.getInt c.val = some (p', b) ∧ Selects p c (p'.claim c) b := by
  intro h
  obtain ⟨p', b, hg, hs⟩ := h 2 1 (by decide) twoSources 0
  obtain ⟨-, rfl⟩ : _ ∧ true = b := Prod.mk.inj (Option.some_inj.mp hg)
  have hn : ∀ i : Fin 3, own twoSources.pending i = true → own (twoSources.enable 0) i ≠ true := by
    decide
  generalize p'.claim 0 = v at hs
  cases hs with
  | @source i hi => exact hn i hi.1.pending hi.1.enable

end PuaCpu.Plic
