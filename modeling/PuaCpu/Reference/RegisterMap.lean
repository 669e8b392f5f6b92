import PuaCpu.Reference.Plic

/-! # The register map of the interrupt controller

Every register has one address. The code decodes an address to an array and an
index, and its range checks have to keep the index inside the array.
-/

namespace PuaCpu.Plic

variable {nrSource nrContext : ℕ}

/-- A register, which is one element of an array. -/
inductive Element (nrSource nrContext : ℕ)
  | priority (i : Fin (nrSource + 1))
  | pending (w : Fin (sourceWords nrSource))
  | enable (c : Fin nrContext) (w : Fin (sourceWords nrSource))
  | threshold (c : Fin nrContext)
  | claim (c : Fin nrContext)

/-- The bits of the sources after a claim. -/
def setBit (a : Arr (sourceWords nrSource) (BitVec 32)) (v : BitVec 32) :
    Arr (sourceWords nrSource) (BitVec 32) :=
  fun w => if w.val = v.toNat / 32 then a w ||| mask v.toNat else a w

/-- The bits of the sources after a completion. -/
def clearBit (a : Arr (sourceWords nrSource) (BitVec 32)) (v : BitVec 32) :
    Arr (sourceWords nrSource) (BitVec 32) :=
  fun w => if w.val = v.toNat / 32 then a w &&& ~~~mask v.toNat else a w

namespace Element

/-- Where a register is mapped. -/
def address : Element nrSource nrContext → ℕ
  | priority i => 4 * i.val
  | pending w => 0x1000 + 4 * w.val
  | enable c w => 0x2000 + 0x80 * c.val + 4 * w.val
  | threshold c => 0x200000 + 0x1000 * c.val
  | claim c => 0x200004 + 0x1000 * c.val

/-- A register that has room in the region of its array. Source 0 is reserved. -/
def Mapped : Element nrSource nrContext → Prop
  | priority i => i ≠ 0 ∧ 4 * i.val < 0x1000
  | pending w => w.val < 32
  | enable c w => w.val < 32 ∧ 0x2000 + 0x80 * c.val < 0x200000
  | threshold _ => True
  | claim _ => True

/-- What a read of a register returns. -/
def value (p : Plic nrSource nrContext) : Element nrSource nrContext → BitVec 32
  | priority i => p.priority i
  | pending w => p.pending w
  | enable c w => p.enable c w
  | threshold c => p.threshold c
  | claim c => p.claim c

/-- What a read of a register leaves behind: a claim marks its source. -/
def read (p : Plic nrSource nrContext) : Element nrSource nrContext → Plic nrSource nrContext
  | claim c => { p with claimed := setBit p.claimed (p.claim c) }
  | _ => p

/-- What a write of a register leaves behind: the pending bits are read-only, and a completion
has to name a source. -/
def write (p : Plic nrSource nrContext) (v : BitVec 32) :
    Element nrSource nrContext → Plic nrSource nrContext
  | priority i => { p with priority := Function.update p.priority i v }
  | pending _ => p
  | enable c w =>
    { p with enable := Function.update p.enable c (Function.update (p.enable c) w v) }
  | threshold c => { p with threshold := Function.update p.threshold c v }
  | claim _ =>
    if v ≠ 0 ∧ v.toNat ≤ nrSource then { p with claimed := clearBit p.claimed v } else p

/-- What the code decodes the address of a register to. -/
def register : Element nrSource nrContext → Register
  | priority i => .priority i.val
  | pending w => .pending w.val
  | enable c w => .enable c.val (4 * w.val)
  | threshold c => .threshold c.val
  | claim c => .claim c.val

end Element

section Decode

/-- The addresses that the code decodes to an array and an index. -/
def At (nrSource nrContext n : ℕ) : Register → Prop
  | .priority i => n = 4 * i ∧ i ≠ 0 ∧ i ≤ nrSource ∧ n < 0x1000
  | .pending w => n = 0x1000 + 4 * w ∧ w < 32
  | .enable c k => n = 0x2000 + 0x80 * c + k ∧ k < 0x80 ∧ n < 0x200000 ∧ c < nrContext ∧
    k ≤ nrSource
  | .threshold c => n = 0x200000 + 0x1000 * c ∧ c ≤ nrContext
  | .claim c => n = 0x200004 + 0x1000 * c ∧ c ≤ nrContext

theorem decode_eq_some_iff (hn : nrSource < 2 ^ 31) {a : Word} (ha : a % 4 = 0) {r : Register} :
    decode nrSource nrContext a 4 = some r ↔ At nrSource nrContext a.toNat r := by
  have hlt := a.isLt
  have h4 : a.toNat % 4 = 0 := by simpa using congrArg BitVec.toNat ha
  unfold decode
  simp only [BitVec.le_def, BitVec.toNat_add, BitVec.toNat_udiv, BitVec.toNat_sub,
    BitVec.toNat_umod, ← BitVec.toNat_inj, BitVec.reduceToNat]
  generalize a.toNat = n at *
  constructor
  · intro h
    split_ifs at h <;> cases h
    all_goals
      simp only [At]
      omega
  · intro h
    cases r with
    | priority i =>
      obtain ⟨rfl, h0, hi, h1⟩ := h
      rw [if_pos (by omega), if_neg (by omega), if_neg (by omega)]
      congr 2
      omega
    | pending w =>
      obtain ⟨rfl, hw⟩ := h
      rw [if_neg (by omega), if_pos (by omega)]
      congr 2
      omega
    | enable c k =>
      obtain ⟨rfl, hk, h1, hc, hs⟩ := h
      rw [if_neg (by omega), if_neg (by omega), if_neg (by omega), if_pos (by omega),
        if_neg (by omega), if_neg (by omega)]
      congr 2 <;> omega
    | threshold c =>
      obtain ⟨rfl, hc⟩ := h
      rw [if_neg (by omega), if_neg (by omega), if_neg (by omega), if_neg (by omega),
        if_neg (by omega), if_pos (by omega)]
      congr 2
      omega
    | claim c =>
      obtain ⟨rfl, hc⟩ := h
      rw [if_neg (by omega), if_neg (by omega), if_neg (by omega), if_neg (by omega),
        if_neg (by omega), if_neg (by omega), if_pos (by omega)]
      congr 2
      omega

namespace Element

variable {e e' : Element nrSource nrContext}

theorem register_injective :
    Function.Injective (register : Element nrSource nrContext → Register) := by
  intro e e' h
  cases e <;> cases e' <;> simp [register] at h
  · exact congrArg priority (Fin.ext h)
  · exact congrArg pending (Fin.ext h)
  · exact congrArg₂ enable (Fin.ext h.1) (Fin.ext h.2)
  · exact congrArg threshold (Fin.ext h)
  · exact congrArg claim (Fin.ext h)

theorem four_mul_le (w : Fin (sourceWords nrSource)) : 4 * w.val ≤ nrSource := by
  have := w.isLt
  unfold sourceWords at this
  omega

theorem at_register {n : ℕ} (hm : e.Mapped) (h : e.address = n) :
    At nrSource nrContext n e.register := by
  subst h
  cases e with
  | priority i => exact ⟨rfl, fun h => hm.1 (Fin.ext h), by omega, hm.2⟩
  | pending w => exact ⟨rfl, hm⟩
  | enable c w =>
    obtain ⟨hw, hc⟩ := hm
    have hlt : 0x2000 + 0x80 * c.val + 4 * w.val < 0x200000 := by omega
    exact ⟨rfl, by omega, hlt, c.isLt, four_mul_le w⟩
  | threshold c => exact ⟨rfl, c.isLt.le⟩
  | claim c => exact ⟨rfl, c.isLt.le⟩

theorem decode_address (hn : nrSource < 2 ^ 31) {a : Word} (ha : a % 4 = 0) (hm : e.Mapped)
    (h : e.address = a.toNat) : decode nrSource nrContext a 4 = some e.register :=
  (decode_eq_some_iff hn ha).mpr (at_register hm h)

end Element

end Decode

/-- How a read may end: it is refused for want of a register, or served by one. -/
inductive ReadsAt (p : Plic nrSource nrContext) (a : Word) :
    Option (Plic nrSource nrContext × Option (BitVec 32)) → Prop
  | refused (h : ∀ e : Element nrSource nrContext, e.Mapped → e.address ≠ a.toNat) :
    ReadsAt p a (some (p, none))
  | served (e : Element nrSource nrContext) (hm : e.Mapped) (h : e.address = a.toNat) :
    ReadsAt p a (some (e.read p, some (e.value p)))

/-- How a write may end. -/
inductive WritesAt (p : Plic nrSource nrContext) (a : Word) (v : BitVec 32) :
    Option (Plic nrSource nrContext × Bool) → Prop
  | refused (h : ∀ e : Element nrSource nrContext, e.Mapped → e.address ≠ a.toNat) :
    WritesAt p a v (some (p, false))
  | served (e : Element nrSource nrContext) (hm : e.Mapped) (h : e.address = a.toNat) :
    WritesAt p a v (some (e.write p v, true))

section Reachable

/-- The states of all runs in which no call is undefined. -/
inductive Reachable : Plic nrSource nrContext → Prop
  | init : Reachable init
  | step {p p' : Plic nrSource nrContext} {e : Event} {r : Reply} (h : Reachable p)
    (hs : p.step e = some (p', r)) : Reachable p'

/-- The claim registers and the claimed bits name sources. -/
structure InRange (p : Plic nrSource nrContext) : Prop where
  claim : ∀ c, (p.claim c).toNat ≤ nrSource
  claimed : ∀ v, p.isClaimed v = true → v.toNat ≤ nrSource

variable {p p' : Plic nrSource nrContext} {e : Event} {r : Reply}

theorem best_le (p : Plic nrSource nrContext) (c : Fin nrContext) : p.best c ≤ nrSource := by
  by_cases h : p.best c = 0
  · omega
  · obtain ⟨i, hi, -⟩ := ready_best h
    omega

theorem InRange.step (h : p.InRange) (hs : p.step e = some (p', r)) : p'.InRange := by
  cases effect_step hs with
  | claim c v w he hr hv hm =>
    refine ⟨fun c => by rw [hm.claim]; exact h.claim c, fun i hi => ?_⟩
    rcases hm.set.mp hi with rfl | hi
    · unfold Arr.get? at hv
      split_ifs at hv
      cases hv
      exact h.claim _
    · exact h.claimed i hi
  | complete v w he hm =>
    exact ⟨fun c => by rw [hm.claim]; exact h.claim c, fun i hi => h.claimed i (hm.clear.mp hi).1⟩
  | getInt c claim he _ hc =>
    subst he
    obtain ⟨⟨p₁, b⟩, h₁, hp⟩ := Option.map_eq_some_iff.mp hs
    cases hp
    obtain ⟨c', -, hset, -⟩ := getInt_cases h₁
    refine ⟨fun d => ?_, fun i hi => h.claimed i ?_⟩
    · have hd := Arr.get?_set? hset d.val
      rw [Arr.get?_val, Arr.get?_val] at hd
      split_ifs at hd
      · rw [Option.some_inj.mp hd, BitVec.toNat_ofNat]
        exact (Nat.mod_le _ _).trans (best_le p c')
      · rw [Option.some_inj.mp hd]
        exact h.claim d
    · rwa [isClaimed, hc] at hi
  | other hp hc _ _ =>
    refine ⟨fun c => by rw [hp]; exact h.claim c, fun i hi => h.claimed i ?_⟩
    rwa [isClaimed, hc] at hi

theorem Reachable.inRange (h : p.Reachable) : p.InRange := by
  induction h with
  | init =>
    refine ⟨fun c => Nat.zero_le _, fun v hv => ?_⟩
    rw [isClaimed_init] at hv
    cases hv
  | step h hs ih => exact ih.step hs

end Reachable

section Arrays

variable {n : ℕ} {α : Type}

theorem get?_of_lt (a : Arr n α) {i : ℕ} (h : i < n) : a.get? i = some (a ⟨i, h⟩) := dif_pos h

theorem get?_of_le (a : Arr n α) {i : ℕ} (h : n ≤ i) : a.get? i = none := dif_neg h.not_gt

theorem set?_of_lt (a : Arr n α) {i : ℕ} (h : i < n) (x : α) :
    a.set? i x = some (Function.update a ⟨i, h⟩ x) := dif_pos h

theorem set?_of_le (a : Arr n α) {i : ℕ} (h : n ≤ i) (x : α) : a.set? i x = none :=
  dif_neg h.not_gt

variable (a : Arr (sourceWords nrSource) (BitVec 32)) {v : BitVec 32}

theorem ite_eq_update (f : BitVec 32 → BitVec 32) {k : ℕ} (h : k < sourceWords nrSource) :
    (fun w : Fin (sourceWords nrSource) => if w.val = k then f (a w) else a w) =
      Function.update a ⟨k, h⟩ (f (a ⟨k, h⟩)) := by
  ext1 w
  rw [Function.update_apply]
  split_ifs with hw hw' hw'
  · rw [hw']
  · exact absurd (Fin.ext hw) hw'
  · exact absurd (congrArg Fin.val hw') hw
  · rfl

theorem setBit_eq (h : v.toNat / 32 < sourceWords nrSource) : setBit a v =
    Function.update a ⟨v.toNat / 32, h⟩ (a ⟨v.toNat / 32, h⟩ ||| mask v.toNat) :=
  ite_eq_update a (· ||| mask v.toNat) h

theorem clearBit_eq (h : v.toNat / 32 < sourceWords nrSource) : clearBit a v =
    Function.update a ⟨v.toNat / 32, h⟩ (a ⟨v.toNat / 32, h⟩ &&& ~~~mask v.toNat) :=
  ite_eq_update a (· &&& ~~~mask v.toNat) h

theorem word_lt_of_le (h : v.toNat ≤ nrSource) : v.toNat / 32 < sourceWords nrSource := by
  unfold sourceWords
  omega

theorem clear_of_not_set {w : BitVec 32} {i : ℕ} (h : w.getLsbD (i % 32) = false) :
    w &&& ~~~mask i = w := by
  apply BitVec.eq_of_getLsbD_eq
  intro j hj
  rw [BitVec.getLsbD_and, BitVec.getLsbD_not, getLsbD_mask _ hj, decide_eq_true hj, Bool.true_and]
  by_cases hji : j = i % 32
  · rw [hji, h, Bool.false_and]
  · rw [decide_eq_false hji, Bool.not_false, Bool.and_true]

/-- The completion of a number that has a bit but names no source. -/
theorem clearBit_of_not_claimed {p : Plic nrSource nrContext}
    (hw : v.toNat / 32 < sourceWords nrSource) (h : p.isClaimed v = false) :
    clearBit p.claimed v = p.claimed := by
  rw [isClaimed, get?_of_lt _ hw, Option.any_some] at h
  rw [clearBit_eq _ hw, clear_of_not_set h, Function.update_eq_self]

end Arrays

section Calls

variable {p : Plic nrSource nrContext} {a : Word} {v : BitVec 32} {c k : ℕ}

theorem doRead_enable (hd : decode nrSource nrContext a 4 = some (.enable c k)) (hc : c < nrContext)
    (hk : k < sourceWords nrSource) :
    p.doRead a 4 = some (p, some (p.enable ⟨c, hc⟩ ⟨k, hk⟩)) := by
  simp only [doRead, hd, get?_of_lt p.enable hc, get?_of_lt (p.enable ⟨c, hc⟩) hk,
    Option.bind_eq_bind, Option.bind_some, Option.pure_def]

theorem doWrite_enable (hd : decode nrSource nrContext a 4 = some (.enable c k))
    (hc : c < nrContext) (hk : k < sourceWords nrSource) : p.doWrite a 4 v =
      some ((Element.enable ⟨c, hc⟩ ⟨k, hk⟩).write p v, true) := by
  simp only [doWrite, hd, get?_of_lt p.enable hc, set?_of_lt (p.enable ⟨c, hc⟩) hk,
    set?_of_lt p.enable hc, Option.bind_eq_bind, Option.bind_some, Option.pure_def, Element.write]

theorem enable_of_le (hd : decode nrSource nrContext a 4 = some (.enable c k)) (hc : c < nrContext)
    (hk : sourceWords nrSource ≤ k) : p.doRead a 4 = none ∧ p.doWrite a 4 v = none := by
  simp only [doRead, doWrite, hd, get?_of_lt p.enable hc, get?_of_le (p.enable ⟨c, hc⟩) hk,
    set?_of_le (p.enable ⟨c, hc⟩) hk, Option.bind_eq_bind, Option.bind_some, Option.bind_none,
    and_self]

theorem doRead_claim (hd : decode nrSource nrContext a 4 = some (.claim c)) (hc : c < nrContext)
    (hw : (p.claim ⟨c, hc⟩).toNat / 32 < sourceWords nrSource) :
    p.doRead a 4 = some ((Element.claim ⟨c, hc⟩).read p, some (p.claim ⟨c, hc⟩)) := by
  simp only [doRead, hd, get?_of_lt p.claim hc, get?_of_lt p.claimed hw, set?_of_lt p.claimed hw,
    ← setBit_eq p.claimed hw, Option.bind_eq_bind, Option.bind_some, Option.pure_def, Element.read]

theorem doWrite_claim (hd : decode nrSource nrContext a 4 = some (.claim c))
    (hw : v.toNat / 32 < sourceWords nrSource) :
    p.doWrite a 4 v = some ({ p with claimed := clearBit p.claimed v }, true) := by
  simp only [doWrite, hd, get?_of_lt p.claimed hw, set?_of_lt p.claimed hw,
    ← clearBit_eq p.claimed hw, Option.bind_eq_bind, Option.bind_some, Option.pure_def]

theorem doWrite_claim_of_le (hd : decode nrSource nrContext a 4 = some (.claim c))
    (hw : sourceWords nrSource ≤ v.toNat / 32) : p.doWrite a 4 v = none := by
  simp only [doWrite, hd, get?_of_le p.claimed hw, Option.bind_eq_bind, Option.bind_none]

end Calls

section Cases

variable (hn : nrSource < 2 ^ 31) {a : Word} (ha : a % 4 = 0) {p : Plic nrSource nrContext}

/-- The checks that reads and writes have in common protect the arrays, and the enable bits are
found. -/
structure ChecksOk (nrSource nrContext : ℕ) (a : Word) : Prop where
  enable : ∀ c < nrContext, ∀ w < 32, a.toNat = 0x2000 + 0x80 * c + 4 * w → a.toNat < 0x200000 →
    w = 0 ∨ nrSource < 4 * w
  threshold : a.toNat ≠ 0x200000 + 0x1000 * nrContext
  claim : a.toNat ≠ 0x200004 + 0x1000 * nrContext

/-- When every read of an address keeps to the map. -/
structure ReadOk (nrSource nrContext : ℕ) (a : Word) : Prop extends
    ChecksOk nrSource nrContext a where
  pending : ∀ w < 32, a.toNat = 0x1000 + 4 * w → w < sourceWords nrSource ∨ nrSource < w

/-- When every write of a value to an address keeps to the map. -/
structure WriteOk (nrSource nrContext : ℕ) (a : Word) (v : BitVec 32) : Prop extends
    ChecksOk nrSource nrContext a where
  pending : ∀ w < 32, a.toNat = 0x1000 + 4 * w → w < sourceWords nrSource
  complete : ∀ c < nrContext, a.toNat = 0x200004 + 0x1000 * c →
    v ≠ 0 ∧ v.toNat < 32 * sourceWords nrSource

theorem ChecksOk.threshold_lt (h : ChecksOk nrSource nrContext a) {c : ℕ}
    (hat : At nrSource nrContext a.toNat (.threshold c)) : c < nrContext :=
  lt_of_le_of_ne hat.2 fun he => h.threshold (he ▸ hat.1)

theorem ChecksOk.claim_lt (h : ChecksOk nrSource nrContext a) {c : ℕ}
    (hat : At nrSource nrContext a.toNat (.claim c)) : c < nrContext :=
  lt_of_le_of_ne hat.2 fun he => h.claim (he ▸ hat.1)

/-- A completion keeps to the map. -/
theorem write_claim {v : BitVec 32} {c : Fin nrContext} (h0 : v ≠ 0)
    (hv : v.toNat < 32 * sourceWords nrSource) (hp : p.InRange) :
    (Element.claim c).write p v = { p with claimed := clearBit p.claimed v } := by
  by_cases hle : v.toNat ≤ nrSource
  · exact if_pos ⟨h0, hle⟩
  · have hc : p.isClaimed v = false := Bool.eq_false_iff.mpr fun hc => hle (hp.claimed v hc)
    rw [clearBit_of_not_claimed (by omega) hc]
    exact if_neg fun h => hle h.2

theorem exists_enable_zero (nrSource : ℕ) {c : ℕ} (hc : c < nrContext)
    (h1 : a.toNat = 0x2000 + 0x80 * c + 0) (h3 : a.toNat < 0x200000) :
    ∃ hw : 0 < sourceWords nrSource, (Element.enable ⟨c, hc⟩ ⟨0, hw⟩).Mapped ∧
      (Element.enable ⟨c, hc⟩ ⟨0, hw⟩ : Element nrSource nrContext).address = a.toNat := by
  have hw : 0 < sourceWords nrSource := by unfold sourceWords; omega
  have hlt : 0x2000 + 0x80 * c < 0x200000 := by omega
  exact ⟨hw, ⟨Nat.zero_lt_succ _, hlt⟩, h1.symm⟩

include ha

/-- The index that the code takes for an enable word is the offset in bytes. -/
theorem exists_word {c k : ℕ} (hat : At nrSource nrContext a.toNat (.enable c k)) :
    ∃ w < 32, k = 4 * w := by
  have h4 : a.toNat % 4 = 0 := by simpa using congrArg BitVec.toNat ha
  obtain ⟨h1, h2, -, -, -⟩ := hat
  exact ⟨k / 4, by omega, by omega⟩

theorem ChecksOk.enable_eq (h : ChecksOk nrSource nrContext a) {c k : ℕ}
    (hat : At nrSource nrContext a.toNat (.enable c k)) : k = 0 := by
  obtain ⟨w, hw, rfl⟩ := exists_word ha hat
  obtain ⟨h1, -, h3, h4, h5⟩ := hat
  rcases h.enable c h4 w hw h1 h3 with h0 | h0
  · rw [h0]
  · omega

include hn

/-- An address that the code does not decode has no register. -/
theorem no_element (hd : decode nrSource nrContext a 4 = none) (e : Element nrSource nrContext)
    (hm : e.Mapped) : e.address ≠ a.toNat := by
  intro h
  rw [Element.decode_address hn ha hm h] at hd
  cases hd

theorem readsAt_of_readOk (h : ReadOk nrSource nrContext a) (hp : p.InRange) :
    ReadsAt p a (p.doRead a 4) := by
  rcases hd : decode nrSource nrContext a 4 with _ | r
  · rw [doRead, hd]
    exact .refused (no_element hn ha hd)
  have hat := (decode_eq_some_iff hn ha).mp hd
  cases r with
  | priority i =>
    obtain ⟨h1, h2, h3, h4⟩ := hat
    have hi : i < nrSource + 1 := by omega
    simp only [doRead, hd, get?_of_lt p.priority hi, Option.map_some]
    exact .served (.priority ⟨i, hi⟩) ⟨fun h => h2 (congrArg Fin.val h), h1 ▸ h4⟩ h1.symm
  | pending w =>
    obtain ⟨h1, h2⟩ := hat
    simp only [doRead, hd]
    split_ifs with hw
    · refine .refused fun e hm he => ?_
      have hr := (Element.decode_address hn ha hm he).symm.trans hd
      cases e <;> simp [Element.register] at hr
      rename_i w'
      have := Element.four_mul_le w'
      omega
    · have hw' := (h.pending w h2 h1).resolve_right hw
      rw [get?_of_lt _ hw']
      exact .served (.pending ⟨w, hw'⟩) h2 h1.symm
  | enable c k =>
    obtain rfl := h.enable_eq ha hat
    obtain ⟨h1, -, h3, h4, -⟩ := hat
    obtain ⟨hw, hm, he⟩ := exists_enable_zero nrSource h4 h1 h3
    rw [doRead_enable hd h4 hw]
    exact .served (.enable ⟨c, h4⟩ ⟨0, hw⟩) hm he
  | threshold c =>
    have hc := h.threshold_lt hat
    simp only [doRead, hd, get?_of_lt p.threshold hc, Option.map_some]
    exact .served (.threshold ⟨c, hc⟩) trivial hat.1.symm
  | claim c =>
    have hc := h.claim_lt hat
    rw [doRead_claim hd hc (word_lt_of_le (hp.claim ⟨c, hc⟩))]
    exact .served (.claim ⟨c, hc⟩) trivial hat.1.symm

theorem writesAt_of_writeOk {v : BitVec 32} (h : WriteOk nrSource nrContext a v)
    (hp : p.InRange) : WritesAt p a v (p.doWrite a 4 v) := by
  rcases hd : decode nrSource nrContext a 4 with _ | r
  · rw [doWrite, hd]
    exact .refused (no_element hn ha hd)
  have hat := (decode_eq_some_iff hn ha).mp hd
  cases r with
  | priority i =>
    obtain ⟨h1, h2, h3, h4⟩ := hat
    have hi : i < nrSource + 1 := by omega
    simp only [doWrite, hd, set?_of_lt p.priority hi, Option.bind_eq_bind, Option.bind_some]
    exact .served (.priority ⟨i, hi⟩) ⟨fun h => h2 (congrArg Fin.val h), h1 ▸ h4⟩ h1.symm
  | pending w =>
    obtain ⟨h1, h2⟩ := hat
    simp only [doWrite, hd]
    exact .served (.pending ⟨w, h.pending w h2 h1⟩) h2 h1.symm
  | enable c k =>
    obtain rfl := h.enable_eq ha hat
    obtain ⟨h1, -, h3, h4, -⟩ := hat
    obtain ⟨hw, hm, he⟩ := exists_enable_zero nrSource h4 h1 h3
    rw [doWrite_enable hd h4 hw]
    exact .served (.enable ⟨c, h4⟩ ⟨0, hw⟩) hm he
  | threshold c =>
    have hc := h.threshold_lt hat
    simp only [doWrite, hd, set?_of_lt p.threshold hc, Option.bind_eq_bind, Option.bind_some]
    exact .served (.threshold ⟨c, hc⟩) trivial hat.1.symm
  | claim c =>
    have hc := h.claim_lt hat
    obtain ⟨h0, hv⟩ := h.complete c hc hat.1
    rw [doWrite_claim hd (by omega), ← write_claim (c := ⟨c, hc⟩) h0 hv hp]
    exact .served (.claim ⟨c, hc⟩) trivial hat.1.symm

end Cases

section Converse

variable {a : Word} {v : BitVec 32} {c k w : ℕ} {r : Register} {p p' : Plic nrSource nrContext}

theorem ReadsAt.element (hn : nrSource < 2 ^ 31) (ha : a % 4 = 0)
    (hd : decode nrSource nrContext a 4 = some r) (h : ReadsAt p a (some (p', some v))) :
    ∃ e : Element nrSource nrContext, e.register = r ∧ e.value p = v := by
  cases h with
  | served e hm he =>
    exact ⟨e, Option.some_inj.mp ((Element.decode_address hn ha hm he).symm.trans hd), rfl⟩

theorem WritesAt.element (hn : nrSource < 2 ^ 31) (ha : a % 4 = 0)
    (hd : decode nrSource nrContext a 4 = some r) (h : WritesAt p a v (some (p', true))) :
    ∃ e : Element nrSource nrContext, e.register = r ∧ e.write p v = p' := by
  cases h with
  | served e hm he =>
    exact ⟨e, Option.some_inj.mp ((Element.decode_address hn ha hm he).symm.trans hd), rfl⟩

theorem Element.register_enable {e : Element nrSource nrContext}
    (h : e.register = .enable c (4 * w)) :
    ∃ (hc : c < nrContext) (hw : w < sourceWords nrSource), e = .enable ⟨c, hc⟩ ⟨w, hw⟩ := by
  cases e with
  | enable c' w' =>
    obtain ⟨rfl, hw⟩ := Register.enable.inj h
    obtain rfl : w'.val = w := by omega
    exact ⟨c'.isLt, w'.isLt, rfl⟩
  | _ => cases h

theorem exists_written (hd : decode nrSource nrContext a 4 = some (.enable c k))
    (hc : c < nrContext) (hk : k < sourceWords nrSource) (v : BitVec 32) :
    ∃ p : Plic nrSource nrContext, p.Reachable ∧ p.enable ⟨c, hc⟩ ⟨k, hk⟩ = v ∧
      ∀ w, w ≠ ⟨k, hk⟩ → p.enable ⟨c, hc⟩ w = 0 := by
  have hs : (init : Plic nrSource nrContext).step (.write a 4 v) = _ :=
    congrArg (Option.map _) (doWrite_enable hd hc hk)
  refine ⟨_, .step .init hs, ?_, fun w hw => ?_⟩
  · simp only [Element.write, Function.update_self]
  · simp only [Element.write, Function.update_self, Function.update_of_ne hw]
    rfl

/-- The read of a claim register that holds no source marks the reserved one. -/
theorem exists_marked (hc : c < nrContext) (hd : decode nrSource nrContext a 4 = some (.claim c)) :
    ∃ p : Plic nrSource nrContext, p.Reachable ∧ p.isClaimed 0 = true := by
  have hr : (init : Plic nrSource nrContext).doRead a 4 = _ :=
    doRead_claim hd hc (word_lt_of_le (Nat.zero_le _))
  have hs : (init : Plic nrSource nrContext).step (.read a 4) =
      some ((Element.claim ⟨c, hc⟩).read init, .data 0) := congrArg (Option.map _) hr
  refine ⟨_, .step .init hs, ?_⟩
  rw [isClaimed_step hs]
  exact .inl ⟨⟨c, a, 4, rfl, hd⟩, rfl⟩

variable (hn : nrSource < 2 ^ 31) (ha : a % 4 = 0)

include hn ha

/-- An enable word passes the checks, or it is one that the code takes for another. -/
theorem enable_ok (hc : c < nrContext) (hw : w < 32) (h1 : a.toNat = 0x2000 + 0x80 * c + 4 * w)
    (h3 : a.toNat < 0x200000)
    (h : w ≠ 0 → decode nrSource nrContext a 4 ≠ some (.enable c (4 * w))) :
    w = 0 ∨ nrSource < 4 * w := by
  by_contra hne
  obtain ⟨h0, hle⟩ := not_or.mp hne
  have hat : At nrSource nrContext a.toNat (.enable c (4 * w)) :=
    ⟨h1, by omega, h3, hc, not_lt.mp hle⟩
  exact h h0 ((decode_eq_some_iff hn ha).mpr hat)

theorem enable_read (h : ∀ p : Plic nrSource nrContext, p.Reachable → ReadsAt p a (p.doRead a 4))
    (hc : c < nrContext) (hw : w ≠ 0)
    (hd : decode nrSource nrContext a 4 = some (.enable c (4 * w))) : False := by
  by_cases hk : 4 * w < sourceWords nrSource
  · obtain ⟨p, hp, hx, hz⟩ := exists_written hd hc hk 1
    have hs := h p hp
    rw [doRead_enable hd hc hk, hx] at hs
    obtain ⟨e, he, hv⟩ := hs.element hn ha hd
    obtain ⟨_, hw', rfl⟩ := Element.register_enable he
    have hne : (⟨w, hw'⟩ : Fin (sourceWords nrSource)) ≠ ⟨4 * w, hk⟩ := by
      simp only [ne_eq, Fin.mk.injEq]
      omega
    have h0 : (0 : BitVec 32) = 1 := (hz _ hne).symm.trans hv
    exact absurd h0 (by decide)
  · have hs := h init .init
    rw [(enable_of_le (v := 0) hd hc (not_lt.mp hk)).1] at hs
    cases hs

theorem enable_write
    (h : ∀ p : Plic nrSource nrContext, p.Reachable → WritesAt p a v (p.doWrite a 4 v))
    (hc : c < nrContext) (hw : w ≠ 0)
    (hd : decode nrSource nrContext a 4 = some (.enable c (4 * w))) : False := by
  by_cases hk : 4 * w < sourceWords nrSource
  · obtain ⟨p, hp, hx, -⟩ := exists_written hd hc hk (v + 1)
    have hs := h p hp
    rw [doWrite_enable hd hc hk] at hs
    obtain ⟨e, he, hv⟩ := hs.element hn ha hd
    obtain ⟨_, hw', rfl⟩ := Element.register_enable he
    have hne : (⟨4 * w, hk⟩ : Fin (sourceWords nrSource)) ≠ ⟨w, hw'⟩ := by
      simp only [ne_eq, Fin.mk.injEq]
      omega
    have hv := congrArg (fun p : Plic nrSource nrContext => p.enable ⟨c, hc⟩ ⟨4 * w, hk⟩) hv
    simp only [Element.write, Function.update_self, Function.update_of_ne hne, hx] at hv
    have h1 : v + 1 - v = v - v := congrArg (· - v) hv
    rw [BitVec.sub_self, BitVec.add_comm, BitVec.add_sub_cancel] at h1
    exact absurd h1 (by decide)
  · have hs := h init .init
    rw [(enable_of_le hd hc (not_lt.mp hk)).2] at hs
    cases hs

theorem readOk_of_readsAt
    (h : ∀ p : Plic nrSource nrContext, p.Reachable → ReadsAt p a (p.doRead a 4)) :
    ReadOk nrSource nrContext a where
  enable c hc w hw h1 h3 :=
    enable_ok hn ha hc hw h1 h3 fun h0 => enable_read hn ha h hc h0
  threshold h1 := by
    have hd : decode nrSource nrContext a 4 = some (.threshold nrContext) :=
      (decode_eq_some_iff hn ha).mpr ⟨h1, le_rfl⟩
    have hs := h init .init
    simp only [doRead, hd, get?_of_le _ le_rfl, Option.map_none] at hs
    cases hs
  claim h1 := by
    have hd : decode nrSource nrContext a 4 = some (.claim nrContext) :=
      (decode_eq_some_iff hn ha).mpr ⟨h1, le_rfl⟩
    have hs := h init .init
    simp only [doRead, hd, get?_of_le _ le_rfl, Option.bind_eq_bind, Option.bind_none] at hs
    cases hs
  pending w hw h1 := by
    by_contra hne
    obtain ⟨h0, hle⟩ := not_or.mp hne
    have hd : decode nrSource nrContext a 4 = some (.pending w) :=
      (decode_eq_some_iff hn ha).mpr ⟨h1, hw⟩
    have hs := h init .init
    simp only [doRead, hd, if_neg hle, get?_of_le _ (not_lt.mp h0), Option.map_none] at hs
    cases hs

theorem writeOk_of_writesAt
    (h : ∀ p : Plic nrSource nrContext, p.Reachable → WritesAt p a v (p.doWrite a 4 v)) :
    WriteOk nrSource nrContext a v where
  enable c hc w hw h1 h3 :=
    enable_ok hn ha hc hw h1 h3 fun h0 => enable_write hn ha h hc h0
  threshold h1 := by
    have hd : decode nrSource nrContext a 4 = some (.threshold nrContext) :=
      (decode_eq_some_iff hn ha).mpr ⟨h1, le_rfl⟩
    have hs := h init .init
    simp only [doWrite, hd, set?_of_le _ le_rfl, Option.bind_eq_bind, Option.bind_none] at hs
    cases hs
  claim h1 := by
    have hd : decode nrSource nrContext a 4 = some (.claim nrContext) :=
      (decode_eq_some_iff hn ha).mpr ⟨h1, le_rfl⟩
    have hs := h init .init
    by_cases hw : v.toNat / 32 < sourceWords nrSource
    · rw [doWrite_claim hd hw] at hs
      obtain ⟨e, he, -⟩ := hs.element hn ha hd
      cases e with
      | claim c => exact c.isLt.ne (Register.claim.inj he)
      | _ => cases he
    · rw [doWrite_claim_of_le hd (not_lt.mp hw)] at hs
      cases hs
  pending w hw h1 := by
    by_contra hne
    have hd : decode nrSource nrContext a 4 = some (.pending w) :=
      (decode_eq_some_iff hn ha).mpr ⟨h1, hw⟩
    have hs := h init .init
    simp only [doWrite, hd] at hs
    obtain ⟨e, he, -⟩ := hs.element hn ha hd
    cases e <;> cases he
    rename_i w
    exact hne w.isLt
  complete c hc h1 := by
    have hd : decode nrSource nrContext a 4 = some (.claim c) :=
      (decode_eq_some_iff hn ha).mpr ⟨h1, hc.le⟩
    have hw : v.toNat / 32 < sourceWords nrSource := by
      by_contra hw
      have hs := h init .init
      rw [doWrite_claim_of_le hd (not_lt.mp hw)] at hs
      cases hs
    refine ⟨?_, by omega⟩
    rintro rfl
    obtain ⟨p, hp, h0⟩ := exists_marked hc hd
    have hs := h p hp
    rw [doWrite_claim hd hw] at hs
    obtain ⟨e, he, hv⟩ := hs.element hn ha hd
    cases e <;> cases he
    -- the number 0 names no source, and yet its bit is cleared
    have hst : p.step (.write a 4 0) =
        some ({ p with claimed := clearBit p.claimed 0 }, .done true) :=
      congrArg (Option.map _) (doWrite_claim hd hw)
    have hc' := (isClaimed_step (i := 0) hst).mp (by rw [← hv]; exact h0)
    rcases hc' with ⟨⟨_, _, _, he, -⟩, -⟩ | ⟨-, hn⟩
    · cases he
    · exact hn ⟨a, 4, _, rfl, hd⟩

end Converse

theorem Element.unique (hn : nrSource < 2 ^ 31) {a : Word} (ha : a % 4 = 0)
    {e e' : Element nrSource nrContext} (hm : e.Mapped) (he : e.address = a.toNat)
    (hm' : e'.Mapped) (he' : e'.address = a.toNat) : e = e' :=
  register_injective (Option.some_inj.mp
    ((decode_address hn ha hm he).symm.trans (decode_address hn ha hm' he')))

/-- **When an aligned access keeps to the register map**: a read or a write of four bytes is
refused or served by the one register at its address, in every state, unless it meets one of the
checks that do not protect their array. -/
theorem register_map_iff (hn : nrSource < 2 ^ 31) {a : Word} (ha : a % 4 = 0) :
    ((∀ p : Plic nrSource nrContext, p.Reachable → ReadsAt p a (p.doRead a 4)) ↔
      ReadOk nrSource nrContext a) ∧
    ∀ v, (∀ p : Plic nrSource nrContext, p.Reachable → WritesAt p a v (p.doWrite a 4 v)) ↔
      WriteOk nrSource nrContext a v :=
  ⟨⟨readOk_of_readsAt hn ha, fun h _ hp => readsAt_of_readOk hn ha h hp.inRange⟩,
    fun _ => ⟨writeOk_of_writesAt hn ha, fun h _ hp => writesAt_of_writeOk hn ha h hp.inRange⟩⟩

/-- The enable bits of the second context. -/
theorem register_map_iff_enable :
    (∀ p : Plic 1 2, p.Reachable → ReadsAt p 0x2080 (p.doRead 0x2080 4)) ∧
      ∀ v, ∀ p : Plic 1 2, p.Reachable → WritesAt p 0x2080 v (p.doWrite 0x2080 4 v) := by
  obtain ⟨hr, hw⟩ := @register_map_iff 1 2 (by decide) 0x2080 (by decide)
  have ha : (0x2080 : Word).toNat = 0x2080 := rfl
  have hc : ChecksOk 1 2 0x2080 := ⟨fun c hc w hw h _ => by omega, by decide, by decide⟩
  exact ⟨hr.mpr ⟨hc, fun w hw h => by omega⟩,
    fun v => (hw v).mpr ⟨hc, fun w hw h => by omega, fun c hc h => by omega⟩⟩

/-- The read of a second pending word, where one source needs one word only. -/
theorem not_register_map : ¬ ∀ (nrSource nrContext : ℕ), nrSource < 2 ^ 31 → ∀ a : Word, a % 4 = 0 →
    (∀ p : Plic nrSource nrContext, p.Reachable → ReadsAt p a (p.doRead a 4)) ∧
      ∀ v, ∀ p : Plic nrSource nrContext, p.Reachable → WritesAt p a v (p.doWrite a 4 v) := by
  intro h
  have hs := (h 1 2 (by decide) 0x1004 (by decide)).1 init .init
  have hd : (init : Plic 1 2).doRead 0x1004 4 = none := rfl
  rw [hd] at hs
  cases hs

end PuaCpu.Plic
