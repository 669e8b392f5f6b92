import Mathlib.Data.BitVec
import Mathlib.Data.List.FinRange
import Mathlib.Logic.Function.Basic
import PuaCpu.Defines.Const
import PuaCpu.Temporal.Since

/-! # The interrupt controller

`get_int` computes the claim register of a context, and a read of the register
hands it out. The claimed bits are shared by the contexts, and only `get_int`
looks at them. The code indexes its arrays without looking at their bounds; what
it does outside of them is undefined.
-/

namespace PuaCpu

/-- An array of the source. -/
abbrev Arr (n : ℕ) (α : Type) := Fin n → α

namespace Arr

variable {n : ℕ} {α : Type}

/-- An access, which is undefined outside of the array. -/
def get? (a : Arr n α) (i : ℕ) : Option α := if h : i < n then some (a ⟨i, h⟩) else none

def set? (a : Arr n α) (i : ℕ) (x : α) : Option (Arr n α) :=
  if h : i < n then some (Function.update a ⟨i, h⟩ x) else none

theorem get?_val (a : Arr n α) (i : Fin n) : a.get? i.val = some (a i) := dif_pos i.isLt

theorem get?_set? {a a' : Arr n α} {i : ℕ} {x : α} (h : a.set? i x = some a') (j : ℕ) :
    a'.get? j = if j = i then some x else a.get? j := by
  unfold set? at h
  split_ifs at h with hi
  cases h
  unfold get?
  by_cases hj : j < n
  · rw [dif_pos hj, dif_pos hj, Function.update_apply, apply_ite some]
    simp only [Fin.mk.injEq]
  · rw [dif_neg hj, dif_neg hj, if_neg]
    rintro rfl
    exact hj hi

end Arr

/-- The words of a bit array over the sources. -/
abbrev sourceWords (nrSource : ℕ) : ℕ := (nrSource + 1 + 31) / 32

/-- `rv_plic`. -/
structure Plic (nrSource nrContext : ℕ) where
  priority : Arr (nrSource + 1) (BitVec 32)
  pending : Arr (sourceWords nrSource) (BitVec 32)
  enable : Arr nrContext (Arr (sourceWords nrSource) (BitVec 32))
  threshold : Arr nrContext (BitVec 32)
  claim : Arr nrContext (BitVec 32)
  claimed : Arr (sourceWords nrSource) (BitVec 32)

namespace Plic

variable {nrSource nrContext : ℕ}

def init : Plic nrSource nrContext :=
  ⟨fun _ => 0, fun _ => 0, fun _ _ => 0, fun _ => 0, fun _ => 0, fun _ => 0⟩

/-- What an address decodes to. -/
inductive Register
  | priority (i : ℕ)
  | pending (i : ℕ)
  | enable (context i : ℕ)
  | threshold (context : ℕ)
  | claim (context : ℕ)
  deriving DecidableEq, Repr

/-- The regions that `do_read` and `do_write` have in common, and nothing for an error. -/
def decode (nrSource nrContext : ℕ) (startAddr size : Word) : Option Register :=
  if startAddr + size ≤ 0x1000 then
    if startAddr = 0 then none
    else if 4 * nrSource < startAddr.toNat ∨ 4 * (nrSource + 1) < (startAddr + size).toNat then none
    else some (.priority (startAddr / 4).toNat)
  else if startAddr + size ≤ 0x1080 then some (.pending ((startAddr - 0x1000) / 4).toNat)
  else if startAddr + size ≤ 0x2000 then none
  else if startAddr + size ≤ 0x200000 then
    let contextId := ((startAddr - 0x2000) / 0x80).toNat
    let pos := (startAddr % 0x80).toNat
    if nrContext ≤ contextId then none
    else if nrSource < pos then none
    else some (.enable contextId pos)
  else
    let contextId := ((startAddr - 0x200000) / 0x1000).toNat
    -- One context more than there is passes.
    if nrContext < contextId then none
    else if startAddr % 0x1000 = 0 then some (.threshold contextId)
    else if startAddr % 0x1000 = 4 then some (.claim contextId)
    else none

variable (p : Plic nrSource nrContext)

/-- The bit of a source in its word. -/
def mask (i : ℕ) : BitVec 32 := 1#32 <<< (i % 32)

/-- `update_ext`. A negative source is out of bounds. -/
def updateExt (sourceId : ℤ) (fired : Bool) : Option (Plic nrSource nrContext) := do
  if sourceId < 0 then none
  else
    let i := sourceId.toNat
    let w ← p.pending.get? (i / 32)
    let w := w &&& ~~~mask i
    let pending ← p.pending.set? (i / 32) (if fired then w ||| mask i else w)
    return { p with pending }

/-- The word of a source. -/
def wordOf (i : Fin (nrSource + 1)) : Fin (sourceWords nrSource) := ⟨i / 32, by
  have := i.isLt
  unfold sourceWords
  omega⟩

/-- The condition of `get_int` on a source. The shifts leave the bits of the higher sources of the
word in place. -/
def ready (contextId : Fin nrContext) (i : Fin (nrSource + 1)) : Bool :=
  (p.threshold contextId).ule (p.priority i) &&
    p.pending (wordOf i) >>> (i.val % 32) != 0 &&
    p.enable contextId (wordOf i) >>> (i.val % 32) != 0 &&
    p.claimed (wordOf i) >>> (i.val % 32) == 0

/-- The body of the loop of `get_int`, on the greatest priority and its source. -/
def pick (contextId : Fin nrContext) (best : ℕ × ℕ) (i : Fin (nrSource + 1)) : ℕ × ℕ :=
  if p.ready contextId i && decide (best.1 < (p.priority i).toNat) then
    ((p.priority i).toNat, i.val)
  else best

/-- The loop of `get_int`, over the sources from one on. -/
def best (contextId : Fin nrContext) : ℕ :=
  (((List.finRange nrSource).map Fin.succ).foldl (p.pick contextId) (0, 0)).2

/-- `get_int`. -/
def getInt (contextId : ℤ) : Option (Plic nrSource nrContext × Bool) :=
  if h : 0 ≤ contextId ∧ contextId.toNat < nrContext then
    let c : Fin nrContext := ⟨contextId.toNat, h.2⟩
    let claim := BitVec.ofNat 32 (p.best c)
    some ({ p with claim := Function.update p.claim c claim }, claim != 0)
  else none

/-- `do_read`. A read that fails returns no value. -/
def doRead (startAddr size : Word) : Option (Plic nrSource nrContext × Option (BitVec 32)) :=
  match decode nrSource nrContext startAddr size with
  | none => some (p, none)
  | some (.priority i) => (p.priority.get? i).map fun v => (p, some v)
  | some (.pending i) =>
    if nrSource < i then some (p, none) else (p.pending.get? i).map fun v => (p, some v)
  | some (.enable c i) => do
    let row ← p.enable.get? c
    let v ← row.get? i
    return (p, some v)
  | some (.threshold c) => (p.threshold.get? c).map fun v => (p, some v)
  | some (.claim c) => do
    let v ← p.claim.get? c
    let w ← p.claimed.get? (v.toNat / 32)
    let claimed ← p.claimed.set? (v.toNat / 32) (w ||| mask v.toNat)
    return ({ p with claimed }, some v)

/-- `do_write`. -/
def doWrite (startAddr size : Word) (buffer : BitVec 32) :
    Option (Plic nrSource nrContext × Bool) :=
  match decode nrSource nrContext startAddr size with
  | none => some (p, false)
  | some (.priority i) => do
    let priority ← p.priority.set? i buffer
    return ({ p with priority }, true)
  | some (.pending _) => some (p, true)
  | some (.enable c i) => do
    let row ← p.enable.get? c
    let row ← row.set? i buffer
    let enable ← p.enable.set? c row
    return ({ p with enable }, true)
  | some (.threshold c) => do
    let threshold ← p.threshold.set? c buffer
    return ({ p with threshold }, true)
  | some (.claim _) => do
    let w ← p.claimed.get? (buffer.toNat / 32)
    let claimed ← p.claimed.set? (buffer.toNat / 32) (w &&& ~~~mask buffer.toNat)
    return ({ p with claimed }, true)

/-- A call of the controller. -/
inductive Event
  | updateExt (sourceId : ℤ) (fired : Bool)
  | getInt (contextId : ℤ)
  | read (startAddr size : Word)
  | write (startAddr size : Word) (buffer : BitVec 32)

/-- What a call returns. -/
inductive Reply
  | done (ok : Bool)
  | data (v : BitVec 32)
  deriving DecidableEq

/-- A call, and nothing if it is undefined. -/
def step : Event → Option (Plic nrSource nrContext × Reply)
  | .updateExt sourceId fired => (p.updateExt sourceId fired).map fun p => (p, .done true)
  | .getInt contextId => (p.getInt contextId).map fun r => (r.1, .done r.2)
  | .read startAddr size =>
    (p.doRead startAddr size).map fun r => (r.1, r.2.elim (.done false) .data)
  | .write startAddr size buffer =>
    (p.doWrite startAddr size buffer).map fun r => (r.1, .done r.2)

/-- The steps of the controller. -/
def Calls (nrSource nrContext : ℕ) (p : Plic nrSource nrContext) (e : Event) (r : Reply)
    (p' : Plic nrSource nrContext) : Prop := p.step e = some (p', r)

/-- A read of the claim register of a context. -/
def ReadsClaim (nrSource nrContext : ℕ) (e : Event) (context : ℕ) : Prop :=
  ∃ a n, e = .read a n ∧ decode nrSource nrContext a n = some (.claim context)

/-- A claim read that returns a source. -/
def Claims (nrSource nrContext : ℕ) (e : Event) (r : Reply) (i : BitVec 32) : Prop :=
  (∃ c, ReadsClaim nrSource nrContext e c) ∧ r = .data i

/-- A completion write of a source. -/
def Completes (nrSource nrContext : ℕ) (e : Event) (i : BitVec 32) : Prop :=
  ∃ a n c, e = .write a n i ∧ decode nrSource nrContext a n = some (.claim c)

/-- The claimed bit of a source. -/
def isClaimed (i : BitVec 32) : Bool :=
  (p.claimed.get? (i.toNat / 32)).any (·.getLsbD (i.toNat % 32))

variable {p} {p' : Plic nrSource nrContext} {e : Event} {r : Reply} {i v : BitVec 32}

section Bit

theorem getLsbD_mask (i : ℕ) {j : ℕ} (hj : j < 32) : (mask i).getLsbD j = decide (j = i % 32) := by
  have hi : i % 32 < 32 := Nat.mod_lt _ (by decide)
  rw [mask, BitVec.getLsbD_shiftLeft, BitVec.getLsbD_one, Bool.eq_iff_iff]
  simp only [Bool.and_eq_true, Bool.not_eq_true', decide_eq_true_eq, decide_eq_false_iff_not]
  omega

theorem eq_iff_bit : i = v ↔ i.toNat / 32 = v.toNat / 32 ∧ i.toNat % 32 = v.toNat % 32 := by
  rw [← BitVec.toNat_inj]
  omega

/-- A write to the word of a source. -/
structure Marks (p p' : Plic nrSource nrContext) (v w w' : BitVec 32) : Prop where
  old : p.claimed.get? (v.toNat / 32) = some w
  new : p.claimed.set? (v.toNat / 32) w' = some p'.claimed
  claim : p'.claim = p.claim

variable {w w' : BitVec 32}

theorem Marks.isClaimed_old (h : Marks p p' v w w') (hd : i.toNat / 32 = v.toNat / 32) :
    p.isClaimed i = w.getLsbD (i.toNat % 32) := by
  rw [isClaimed, hd, h.old, Option.any_some]

theorem Marks.isClaimed (h : Marks p p' v w w') : p'.isClaimed i =
    if i.toNat / 32 = v.toNat / 32 then w'.getLsbD (i.toNat % 32) else p.isClaimed i := by
  rw [Plic.isClaimed, Arr.get?_set? h.new]
  split_ifs
  · rfl
  · rfl

theorem Marks.set (h : Marks p p' v w (w ||| mask v.toNat)) :
    p'.isClaimed i = true ↔ i = v ∨ p.isClaimed i = true := by
  rw [h.isClaimed, eq_iff_bit]
  split_ifs with hd
  · rw [h.isClaimed_old hd, BitVec.getLsbD_or, getLsbD_mask _ (Nat.mod_lt _ (by decide)),
      Bool.or_eq_true, decide_eq_true_eq, and_iff_right hd, or_comm]
  · exact (or_iff_right fun hc => hd hc.1).symm

theorem Marks.clear (h : Marks p p' v w (w &&& ~~~mask v.toNat)) :
    p'.isClaimed i = true ↔ p.isClaimed i = true ∧ i ≠ v := by
  have hlt : i.toNat % 32 < 32 := Nat.mod_lt _ (by decide)
  rw [h.isClaimed, Ne, eq_iff_bit]
  split_ifs with hd
  · rw [h.isClaimed_old hd, BitVec.getLsbD_and, BitVec.getLsbD_not, getLsbD_mask _ hlt,
      Bool.and_eq_true, decide_eq_true hlt, Bool.true_and, Bool.not_eq_true',
      decide_eq_false_iff_not, and_iff_right hd]
  · exact (and_iff_left fun hc => hd hc.1).symm

end Bit

/-- What a call can do to the claimed bits. -/
inductive Effect (p : Plic nrSource nrContext) (e : Event) (r : Reply)
    (p' : Plic nrSource nrContext) : Prop
  | claim (c : ℕ) (v w : BitVec 32) (he : ReadsClaim nrSource nrContext e c) (hr : r = .data v)
      (hv : p.claim.get? c = some v) (hm : Marks p p' v w (w ||| mask v.toNat))
  | complete (v w : BitVec 32) (he : Completes nrSource nrContext e v)
      (hm : Marks p p' v w (w &&& ~~~mask v.toNat))
  | getInt (c : ℕ) (claim : BitVec 32) (he : e = .getInt c)
      (hs : p.claim.set? c claim = some p'.claim) (hc : p'.claimed = p.claimed)
  | other (hs : p'.claim = p.claim) (hc : p'.claimed = p.claimed)
      (hr : ∀ c, ¬ ReadsClaim nrSource nrContext e c) (hw : ∀ i, ¬ Completes nrSource nrContext e i)

theorem updateExt_claim {sourceId : ℤ} {fired : Bool} (h : p.updateExt sourceId fired = some p') :
    p'.claim = p.claim ∧ p'.claimed = p.claimed := by
  unfold updateExt at h
  split_ifs at h
  all_goals
    obtain ⟨w, -, h⟩ := Option.bind_eq_some_iff.mp h
    obtain ⟨pending, -, h⟩ := Option.bind_eq_some_iff.mp h
    cases h
    exact ⟨rfl, rfl⟩

theorem getInt_cases {contextId : ℤ} {b : Bool} (h : p.getInt contextId = some (p', b)) :
    ∃ c : Fin nrContext, contextId = c.val ∧
      p.claim.set? c.val (BitVec.ofNat 32 (p.best c)) = some p'.claim ∧ p'.claimed = p.claimed := by
  unfold getInt at h
  split_ifs at h with hc
  cases h
  exact ⟨⟨contextId.toNat, hc.2⟩, (Int.toNat_of_nonneg hc.1).symm, dif_pos hc.2, rfl⟩

theorem doRead_cases {a n : Word} {o : Option (BitVec 32)} (h : p.doRead a n = some (p', o)) :
    (p' = p ∧ ∀ c, decode nrSource nrContext a n ≠ some (.claim c)) ∨
      ∃ c v w, decode nrSource nrContext a n = some (.claim c) ∧ o = some v ∧
        p.claim.get? c = some v ∧ Marks p p' v w (w ||| mask v.toNat) := by
  unfold doRead at h
  rcases hd : decode nrSource nrContext a n with _ | ⟨i | i | ⟨c, i⟩ | c | c⟩ <;> rw [hd] at h
  · cases h
    exact .inl ⟨rfl, fun c => (Option.some_ne_none _).symm⟩
  · obtain ⟨v, -, h⟩ := Option.map_eq_some_iff.mp h
    cases h
    exact .inl ⟨rfl, fun c hc => by cases hc⟩
  · simp only at h
    split_ifs at h
    · cases h
      exact .inl ⟨rfl, fun c hc => by cases hc⟩
    · obtain ⟨v, -, h⟩ := Option.map_eq_some_iff.mp h
      cases h
      exact .inl ⟨rfl, fun c hc => by cases hc⟩
  · obtain ⟨row, -, h⟩ := Option.bind_eq_some_iff.mp h
    obtain ⟨v, -, h⟩ := Option.bind_eq_some_iff.mp h
    cases h
    exact .inl ⟨rfl, fun c hc => by cases hc⟩
  · obtain ⟨v, -, h⟩ := Option.map_eq_some_iff.mp h
    cases h
    exact .inl ⟨rfl, fun c hc => by cases hc⟩
  · obtain ⟨v, hv, h⟩ := Option.bind_eq_some_iff.mp h
    obtain ⟨w, hw, h⟩ := Option.bind_eq_some_iff.mp h
    obtain ⟨claimed, hs, h⟩ := Option.bind_eq_some_iff.mp h
    cases h
    exact .inr ⟨c, v, w, rfl, rfl, hv, hw, hs, rfl⟩

theorem doWrite_cases {a n : Word} {v : BitVec 32} {b : Bool} (h : p.doWrite a n v = some (p', b)) :
    ((p'.claim = p.claim ∧ p'.claimed = p.claimed) ∧
        ∀ c, decode nrSource nrContext a n ≠ some (.claim c)) ∨
      ∃ c w, decode nrSource nrContext a n = some (.claim c) ∧
        Marks p p' v w (w &&& ~~~mask v.toNat) := by
  unfold doWrite at h
  rcases hd : decode nrSource nrContext a n with _ | ⟨i | i | ⟨c, i⟩ | c | c⟩ <;> rw [hd] at h
  · cases h
    exact .inl ⟨⟨rfl, rfl⟩, fun c => (Option.some_ne_none _).symm⟩
  · obtain ⟨priority, -, h⟩ := Option.bind_eq_some_iff.mp h
    cases h
    exact .inl ⟨⟨rfl, rfl⟩, fun c hc => by cases hc⟩
  · cases h
    exact .inl ⟨⟨rfl, rfl⟩, fun c hc => by cases hc⟩
  · obtain ⟨row, -, h⟩ := Option.bind_eq_some_iff.mp h
    obtain ⟨row', -, h⟩ := Option.bind_eq_some_iff.mp h
    obtain ⟨enable, -, h⟩ := Option.bind_eq_some_iff.mp h
    cases h
    exact .inl ⟨⟨rfl, rfl⟩, fun c hc => by cases hc⟩
  · obtain ⟨threshold, -, h⟩ := Option.bind_eq_some_iff.mp h
    cases h
    exact .inl ⟨⟨rfl, rfl⟩, fun c hc => by cases hc⟩
  · obtain ⟨w, hw, h⟩ := Option.bind_eq_some_iff.mp h
    obtain ⟨claimed, hs, h⟩ := Option.bind_eq_some_iff.mp h
    cases h
    exact .inr ⟨c, w, rfl, hw, hs, rfl⟩

theorem ReadsClaim.not_completes {c : ℕ} (hc : ReadsClaim nrSource nrContext e c) :
    ¬ Completes nrSource nrContext e i := by
  obtain ⟨a, n, rfl, -⟩ := hc
  rintro ⟨_, _, _, he, -⟩
  cases he

theorem ReadsClaim.unique {c c' : ℕ} (hc : ReadsClaim nrSource nrContext e c)
    (hc' : ReadsClaim nrSource nrContext e c') : c' = c := by
  obtain ⟨a, n, rfl, hd⟩ := hc
  obtain ⟨_, _, he, hd'⟩ := hc'
  cases he
  exact (Register.claim.inj (Option.some_inj.mp (hd.symm.trans hd'))).symm

theorem effect_step (h : p.step e = some (p', r)) : Effect p e r p' := by
  cases e with
  | updateExt sourceId fired =>
    obtain ⟨p₁, h₁, h⟩ := Option.map_eq_some_iff.mp h
    cases h
    refine .other (updateExt_claim h₁).1 (updateExt_claim h₁).2 ?_ ?_
    · rintro c ⟨a, n, he, -⟩
      cases he
    · rintro i ⟨a, n, c, he, -⟩
      cases he
  | getInt contextId =>
    obtain ⟨⟨p₁, b⟩, h₁, h⟩ := Option.map_eq_some_iff.mp h
    cases h
    obtain ⟨c, rfl, hs, hc⟩ := getInt_cases h₁
    exact .getInt c.val _ rfl hs hc
  | read a n =>
    obtain ⟨⟨p₁, o⟩, h₁, h⟩ := Option.map_eq_some_iff.mp h
    cases h
    rcases doRead_cases h₁ with ⟨rfl, hd⟩ | ⟨c, v, w, hd, rfl, hv, hm⟩
    · refine .other rfl rfl ?_ ?_
      · rintro c ⟨_, _, he, hc⟩
        cases he
        exact hd c hc
      · rintro i ⟨_, _, _, he, -⟩
        cases he
    · exact .claim c v w ⟨a, n, rfl, hd⟩ rfl hv hm
  | write a n buffer =>
    obtain ⟨⟨p₁, b⟩, h₁, h⟩ := Option.map_eq_some_iff.mp h
    cases h
    rcases doWrite_cases h₁ with ⟨hp, hd⟩ | ⟨c, w, hd, hm⟩
    · refine .other hp.1 hp.2 ?_ ?_
      · rintro c ⟨_, _, he, -⟩
        cases he
      · rintro i ⟨_, _, c, he, hc⟩
        cases he
        exact hd c hc
    · exact .complete buffer w ⟨a, n, c, rfl, hd⟩ hm

/-- The claimed bits follow the claims and the completions. -/
theorem isClaimed_step (h : p.step e = some (p', r)) : p'.isClaimed i = true ↔
    Claims nrSource nrContext e r i ∨
      p.isClaimed i = true ∧ ¬ Completes nrSource nrContext e i := by
  cases effect_step h with
  | claim c v w he hr hv hm =>
    have hcl : Claims nrSource nrContext e r i ↔ i = v := by
      rw [Claims, and_iff_right ⟨c, he⟩, hr, Reply.data.injEq, eq_comm]
    rw [hm.set, hcl, and_iff_left he.not_completes]
  | complete v w he hm =>
    have hcl : ¬ Claims nrSource nrContext e r i := fun hcl => hcl.1.elim fun c hc =>
      hc.not_completes he
    have hco : Completes nrSource nrContext e i ↔ i = v := by
      obtain ⟨a, n, c, rfl, hd⟩ := he
      constructor
      · rintro ⟨_, _, _, he, -⟩
        cases he
        rfl
      · rintro rfl
        exact ⟨a, n, c, rfl, hd⟩
    rw [hm.clear, or_iff_right hcl, hco]
  | getInt c claim he hs hc =>
    subst he
    have hr : ¬ Claims nrSource nrContext (.getInt c) r i := by
      rintro ⟨⟨_, _, _, he, -⟩, -⟩
      cases he
    have hw : ¬ Completes nrSource nrContext (.getInt c) i := by
      rintro ⟨_, _, _, he, -⟩
      cases he
    rw [or_iff_right hr, and_iff_left hw, isClaimed, isClaimed, hc]
  | other hs hc hr hw =>
    rw [or_iff_right fun hcl => hcl.1.elim hr, and_iff_left (hw i), isClaimed, isClaimed, hc]

theorem claims_iff {c : ℕ} (h : p.step e = some (p', r)) (hc : ReadsClaim nrSource nrContext e c) :
    Claims nrSource nrContext e r i ↔ p.claim.get? c = some i := by
  cases effect_step h with
  | claim c' v w hc' hr hv hm =>
    obtain rfl := hc.unique hc'
    rw [Claims, and_iff_right ⟨c', hc⟩, hr, hv, Reply.data.injEq, Option.some_inj]
  | complete v w he hm => exact absurd he hc.not_completes
  | getInt c' claim he hs hc' =>
    obtain ⟨a, n, he', -⟩ := hc
    cases he.symm.trans he'
  | other hp hc' hr hw => exact absurd hc (hr c)

theorem claim_step {c : ℕ} (h : p.step e = some (p', r)) (he : e ≠ .getInt c) :
    p'.claim.get? c = p.claim.get? c := by
  cases effect_step h with
  | claim c' v w hc' hr hv hm => rw [hm.claim]
  | complete v w hc hm => rw [hm.claim]
  | getInt c' claim he' hs hc =>
    rw [Arr.get?_set? hs, if_neg]
    rintro rfl
    exact he he'
  | other hs hc hr hw => rw [hs]

section GetInt

theorem ready_best {c : Fin nrContext} (h : p.best c ≠ 0) :
    ∃ i : Fin (nrSource + 1), i.val = p.best c ∧ p.ready c i = true := by
  have hfold (l : List (Fin (nrSource + 1))) (b : ℕ × ℕ)
      (hb : b.2 = 0 ∨ ∃ i, i.val = b.2 ∧ p.ready c i = true) :
      (l.foldl (p.pick c) b).2 = 0 ∨
        ∃ i, i.val = (l.foldl (p.pick c) b).2 ∧ p.ready c i = true := by
    induction l generalizing b with
    | nil => exact hb
    | cons i l ih =>
      refine ih _ ?_
      rw [pick]
      split_ifs with hi
      · exact .inr ⟨i, rfl, (Bool.and_eq_true_iff.mp hi).1⟩
      · exact hb
  exact (hfold _ (0, 0) (.inl rfl)).resolve_left h

theorem isClaimed_of_ready {c : Fin nrContext} {i : Fin (nrSource + 1)} (hn : nrSource < 2 ^ 32)
    (h : p.ready c i = true) : p.isClaimed (BitVec.ofNat 32 i.val) = false := by
  have hi : (BitVec.ofNat 32 i.val).toNat = i.val := by
    rw [BitVec.toNat_ofNat, Nat.mod_eq_of_lt]
    have := i.isLt
    omega
  have hz : p.claimed (wordOf i) >>> (i.val % 32) = 0 := by
    simp only [ready, Bool.and_eq_true, beq_iff_eq] at h
    exact h.2
  have hb := congrArg (·.getLsbD 0) hz
  have hw : p.claimed.get? (i.val / 32) = some (p.claimed (wordOf i)) :=
    Arr.get?_val p.claimed (wordOf i)
  rw [isClaimed, hi, hw, Option.any_some]
  simpa using hb

/-- The register that a claim read hands out names no claimed source. -/
def Offers (p : Plic nrSource nrContext) (c : ℕ) : Prop :=
  ∀ v, p.claim.get? c = some v → v ≠ 0 → p.isClaimed v = false

theorem offers_getInt {c : ℕ} (hn : nrSource < 2 ^ 32)
    (h : p.step (.getInt c) = some (p', r)) : Offers p' c := by
  obtain ⟨⟨p₁, b⟩, h₁, h⟩ := Option.map_eq_some_iff.mp h
  cases h
  obtain ⟨c, hc, hs, hp⟩ := getInt_cases h₁
  obtain rfl := Int.ofNat.inj hc
  intro v hv hv0
  rw [Arr.get?_set? hs, if_pos rfl] at hv
  obtain rfl := Option.some_inj.mp hv
  obtain ⟨i, hi, hr⟩ := ready_best fun h0 => hv0 (by rw [h0]; rfl)
  rw [isClaimed, hp, ← hi]
  exact isClaimed_of_ready hn hr

/-- Without a claim read, a register stays fit to be handed out. -/
theorem Offers.step {c : ℕ} (hn : nrSource < 2 ^ 32) (ho : Offers p c)
    (h : p.step e = some (p', r)) (hr : ∀ c', ¬ ReadsClaim nrSource nrContext e c') :
    Offers p' c := by
  have hle {v : BitVec 32} (hv : p.isClaimed v = false) : p'.isClaimed v = false := by
    rw [← Bool.not_eq_true, isClaimed_step h]
    rintro (hc | ⟨hc, -⟩)
    · exact hc.1.elim hr
    · rw [hv] at hc
      exact Bool.false_ne_true hc
  by_cases he : e = .getInt c
  · subst he
    exact offers_getInt hn h
  · intro v hv hv0
    exact hle (ho v (claim_step h he ▸ hv) hv0)

end GetInt

section Trace

variable {n t : ℕ} (r : Temporal.Trace (Calls nrSource nrContext) n)

/-- A source has been claimed, and not been completed since. -/
def Held (i : BitVec 32) (t : ℕ) : Prop :=
  Temporal.Since (fun u => Claims nrSource nrContext (r.inp u) (r.out u) i)
    (fun u => ¬ Completes nrSource nrContext (r.inp u) i) t

/-- No claim read returns a source that is held. -/
def Exclusive : Prop := ∀ t < n, ∀ i ≠ 0,
  Claims nrSource nrContext (r.inp t) (r.out t) i → ¬ Held r i t

/-- The last `get_int` of a context before a call names a source. -/
structure Named (u t c : ℕ) (v : BitVec 32) : Prop where
  lt : u < t
  getInt : r.inp u = .getInt c
  last : ∀ x, u < x → x < t → r.inp x ≠ .getInt c
  register : (r.st (u + 1)).claim.get? c = some v

/-- After the last `get_int` of a context, a claim read has returned the source that it names, with
no completion behind it. -/
def Taken (t c : ℕ) : Prop := ∃ u v, Named r u t c v ∧ v ≠ 0 ∧ ∃ w, u < w ∧ w < t ∧
  Claims nrSource nrContext (r.inp w) (r.out w) v ∧
  ∀ x, w < x → x < t → ¬ Completes nrSource nrContext (r.inp x) v

variable {r}

theorem isClaimed_init : (init : Plic nrSource nrContext).isClaimed i = false := by
  unfold isClaimed Arr.get?
  split_ifs
  · exact BitVec.getLsbD_zero
  · rfl

/-- The claimed bits are the sources that are held. -/
theorem isClaimed_iff_held (h0 : r.st 0 = init) (ht : t ≤ n) :
    (r.st t).isClaimed i = true ↔ Held r i t := by
  refine Temporal.flag_iff_since (F := fun t => (r.st t).isClaimed i = true) ?_ fun u hu => ?_
  · rw [h0, isClaimed_init]
    exact Bool.false_ne_true
  · exact isClaimed_step (r.step u (by omega))

theorem exclusive_iff_offers (h0 : r.st 0 = init) : Exclusive r ↔
    ∀ t < n, ∀ c, ReadsClaim nrSource nrContext (r.inp t) c → Offers (r.st t) c := by
  constructor
  · intro he t ht c hc v hv hv0
    rw [← Bool.not_eq_true, isClaimed_iff_held h0 ht.le]
    exact he t ht v hv0 ((claims_iff (r.step t ht) hc).mpr hv)
  · rintro ho t ht i hi hcl
    obtain ⟨c, hc⟩ := hcl.1
    rw [← isClaimed_iff_held h0 ht.le, Bool.not_eq_true]
    exact ho t ht c hc i ((claims_iff (r.step t ht) hc).mp hcl) hi

theorem offers_of_getInt {u c : ℕ} (hn : nrSource < 2 ^ 32) (hut : u + 1 ≤ t) (ht : t ≤ n)
    (he : r.inp u = .getInt c)
    (hr : ∀ w, u < w → w < t → ∀ c', ¬ ReadsClaim nrSource nrContext (r.inp w) c') :
    Offers (r.st t) c := by
  induction t, hut using Nat.le_induction with
  | base =>
    have hs := r.step u (by omega)
    rw [he] at hs
    exact offers_getInt hn hs
  | succ t hut ih =>
    have ho := ih (by omega) fun w hu hw => hr w hu (by omega)
    exact ho.step hn (r.step t (by omega)) (hr t (by omega) (by omega))

/-- Claims are exclusive if every claim read follows a `get_int` of its context, and no claim read
comes between. -/
theorem exclusive_of_getInt (hn : nrSource < 2 ^ 32) (h0 : r.st 0 = init)
    (hg : ∀ t < n, ∀ c, ReadsClaim nrSource nrContext (r.inp t) c → ∃ u < t, r.inp u = .getInt c ∧
      ∀ w, u < w → w < t → ∀ c', ¬ ReadsClaim nrSource nrContext (r.inp w) c') : Exclusive r := by
  rw [exclusive_iff_offers h0]
  intro t ht c hc
  obtain ⟨u, hu, he, hr⟩ := hg t ht c hc
  exact offers_of_getInt hn hu ht.le he hr

theorem Named.register_at {u c : ℕ} (h : Named r u t c v) (ht : t ≤ n) :
    (r.st t).claim.get? c = some v := by
  have hk : ∀ w, u + 1 ≤ w → w ≤ t → (r.st w).claim.get? c = some v := by
    intro w huw
    induction w, huw using Nat.le_induction with
    | base => exact fun _ => h.register
    | succ w huw ih =>
      intro hw
      rw [claim_step (r.step w (by omega)) (h.last w (by omega) (by omega))]
      exact ih (by omega)
  exact hk t h.lt le_rfl

theorem exists_named {c : ℕ} (h0 : r.st 0 = init) (ht : t ≤ n)
    (hv : (r.st t).claim.get? c = some v) (hv0 : v ≠ 0) : ∃ u, Named r u t c v := by
  induction t with
  | zero =>
    rw [h0] at hv
    unfold Arr.get? at hv
    split_ifs at hv
    exact absurd (Option.some_inj.mp hv).symm hv0
  | succ t ih =>
    by_cases he : r.inp t = .getInt c
    · exact ⟨t, t.lt_succ_self, he, fun x h1 h2 => by omega, hv⟩
    · rw [claim_step (r.step t ht) he] at hv
      obtain ⟨u, hu⟩ := ih (by omega) hv
      refine ⟨u, by have := hu.lt; omega, hu.getInt, fun x h1 h2 => ?_, hu.register⟩
      rcases Nat.lt_succ_iff_lt_or_eq.mp h2 with hx | rfl
      · exact hu.last x h1 hx
      · exact he

theorem Named.not_held {u c : ℕ} (hn : nrSource < 2 ^ 32) (h0 : r.st 0 = init)
    (h : Named r u t c v) (ht : t ≤ n) (hv0 : v ≠ 0) : ¬ Held r v (u + 1) := by
  have hut := h.lt
  have hs := r.step u (by omega)
  rw [h.getInt] at hs
  rw [← isClaimed_iff_held h0 (by omega), Bool.not_eq_true]
  exact offers_getInt hn hs v h.register hv0

theorem offers_iff {c : ℕ} (hn : nrSource < 2 ^ 32) (h0 : r.st 0 = init) (ht : t ≤ n) :
    Offers (r.st t) c ↔ ¬ Taken r t c := by
  constructor
  · rintro ho ⟨u, v, hu, hv0, w, -, hwt, hcl, hco⟩
    have hc := ho v (hu.register_at ht) hv0
    rw [← Bool.not_eq_true, isClaimed_iff_held h0 ht] at hc
    exact hc ⟨w, hwt, hcl, hco⟩
  · intro hn' v hv hv0
    obtain ⟨u, hu⟩ := exists_named h0 ht hv hv0
    rw [← Bool.not_eq_true, isClaimed_iff_held h0 ht]
    intro hh
    obtain ⟨w, huw, hwt, hcl, hco⟩ := hh.after (hu.not_held hn h0 ht hv0) hu.lt
    exact hn' ⟨u, v, hu, hv0, w, huw, hwt, hcl, hco⟩

/-- **When claims are exclusive**: while no context hands out a register that names a claimed
source, which is while no claim read since the last `get_int` of the context has returned the
source that it named, without a completion behind it. -/
theorem exclusive_iff (h0 : r.st 0 = init) :
    (Exclusive r ↔
      ∀ t < n, ∀ c, ReadsClaim nrSource nrContext (r.inp t) c → Offers (r.st t) c) ∧
    (nrSource < 2 ^ 32 → (Exclusive r ↔
      ∀ t < n, ∀ c, ReadsClaim nrSource nrContext (r.inp t) c → ¬ Taken r t c)) := by
  refine ⟨exclusive_iff_offers h0, fun hn => (exclusive_iff_offers h0).trans ?_⟩
  exact forall₄_congr fun t ht c _ => offers_iff hn h0 ht.le

end Trace

section Runs

/-- A call that is skipped if it is undefined. -/
def next (p : Plic nrSource nrContext) (e : Event) : Plic nrSource nrContext × Reply :=
  (p.step e).getD (p, .done false)

/-- The controller of the default parameters after some calls. -/
def states (events : ℕ → Event) : ℕ → Plic 1 2 := Temporal.Trace.states next events init

/-- The trace of calls that are all defined. -/
def traceOf (events : ℕ → Event) (n : ℕ) (h : ∀ t < n, Calls 1 2 (states events t) (events t)
    (next (states events t) (events t)).2 (states events (t + 1))) :
    Temporal.Trace (Calls 1 2) n := .follow next events _ n h

/-- The source fires and is enabled in a context, which claims it, completes it and claims it
again. -/
def claimAgain (t : ℕ) : Event :=
  [.updateExt 1 true, .write 4 4 1, .write 0x2000 4 2, .getInt 0, .read 0x200004 4,
    .write 0x200004 4 1, .getInt 0].getD t (.read 0x200004 4)

def claimAgainTrace : Temporal.Trace (Calls 1 2) 8 := traceOf claimAgain 8 fun t ht => by
  rcases t with _ | _ | _ | _ | _ | _ | _ | _ | t
  · rfl
  · rfl
  · rfl
  · rfl
  · rfl
  · rfl
  · rfl
  · rfl
  · omega

theorem readsClaim_claimAgain {t c : ℕ} (ht : t < 8)
    (h : ReadsClaim 1 2 (claimAgainTrace.inp t) c) : (t = 4 ∨ t = 7) ∧ c = 0 := by
  obtain ⟨a, n, he, hd⟩ := h
  have hd' : decode 1 2 0x200004 4 = some (.claim 0) := by decide
  rcases t with _ | _ | _ | _ | _ | _ | _ | _ | t
  · cases he
  · cases he
  · cases he
  · cases he
  · cases he
    exact ⟨.inl rfl, (Register.claim.inj (Option.some_inj.mp (hd'.symm.trans hd))).symm⟩
  · cases he
  · cases he
  · cases he
    exact ⟨.inr rfl, (Register.claim.inj (Option.some_inj.mp (hd'.symm.trans hd))).symm⟩
  · omega

/-- Both claims return the source, with the completion between them. -/
theorem exclusive_claimAgain :
    Claims 1 2 (claimAgainTrace.inp 4) (claimAgainTrace.out 4) 1 ∧
    Claims 1 2 (claimAgainTrace.inp 7) (claimAgainTrace.out 7) 1 ∧ Exclusive claimAgainTrace := by
  refine ⟨⟨⟨0, 0x200004, 4, rfl, by decide⟩, rfl⟩, ⟨⟨0, 0x200004, 4, rfl, by decide⟩, rfl⟩,
    ((exclusive_iff rfl).2 (by decide)).mpr fun t ht c hc => ?_⟩
  obtain ⟨ht, rfl⟩ := readsClaim_claimAgain ht hc
  rintro ⟨u, v, hu, -, w, huw, hwt, ⟨⟨c, hc⟩, -⟩, -⟩
  have hw := (readsClaim_claimAgain (by omega) hc).1
  -- the claim between is the first one, and `get_int` has been called again behind it
  obtain rfl : w = 4 := by omega
  exact hu.last 6 (by omega) (by omega) rfl

/-- Two contexts compute their registers, and then both claim. -/
def claimTwice (t : ℕ) : Event :=
  [.updateExt 1 true, .write 4 4 1, .write 0x2000 4 2, .write 0x2080 4 2, .getInt 0, .getInt 1,
    .read 0x200004 4].getD t (.read 0x201004 4)

def claimTwiceTrace : Temporal.Trace (Calls 1 2) 8 := traceOf claimTwice 8 fun t ht => by
  rcases t with _ | _ | _ | _ | _ | _ | _ | _ | t
  · rfl
  · rfl
  · rfl
  · rfl
  · rfl
  · rfl
  · rfl
  · rfl
  · omega

/-- Both claims return the source. -/
theorem not_exclusive : ¬ ∀ (nrSource nrContext n : ℕ)
    (r : Temporal.Trace (Calls nrSource nrContext) n), r.st 0 = init → Exclusive r := by
  intro h
  have hc₀ : Claims 1 2 (claimTwiceTrace.inp 6) (claimTwiceTrace.out 6) 1 :=
    ⟨⟨0, 0x200004, 4, rfl, by decide⟩, rfl⟩
  have hc₁ : Claims 1 2 (claimTwiceTrace.inp 7) (claimTwiceTrace.out 7) 1 :=
    ⟨⟨1, 0x201004, 4, rfl, by decide⟩, rfl⟩
  exact h 1 2 8 claimTwiceTrace rfl 7 (by omega) 1 (by decide) hc₁
    ⟨6, by omega, hc₀, fun w _ _ => by omega⟩

end Runs

end Plic

end PuaCpu
