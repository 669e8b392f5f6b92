import PuaCpu.Reference.Sv39

/-! # Table walks

Reads of memory have no side effect, so a look-up leaves the bus alone.
-/

namespace PuaCpu

/-- Devices that a read leaves alone. -/
def PureReads (δ : Type) [MmioDev δ] : Prop :=
  ∀ (d : δ) (startAddr size : Word), (MmioDev.doRead d startAddr size).1 = d

theorem pureReads_mmioMem : PureReads MmioMem := fun _ _ _ => rfl

variable {δ : Type} [MmioDev δ]

theorem Systembus.paRead_fst (hp : PureReads δ) (b : Systembus δ) (startAddr size : Word) :
    (b.paRead startAddr size).1 = b := by
  unfold paRead
  cases b.locate startAddr size with
  | none => rfl
  | some m =>
    change { b with dev := Function.update b.dev m.dev _ } = b
    rw [hp, Function.update_eq_self]

namespace Sv39

variable {n : ℕ} [NeZero n] {t t' : Sv39 n} {b b' : Systembus δ} {satp va : Word}
  {e : Option TlbEntry}

theorem ptwLevels_fst (hp : PureReads δ) (va : Word) (i : ℕ) (ptAddr : Word) (b : Systembus δ) :
    (ptwLevels va i ptAddr b).1 = b := by
  induction i generalizing ptAddr with
  | zero => rfl
  | succ i ih =>
    have hb := b.paRead_fst hp (ptAddr + vpn va i * 8) 8
    rw [ptwLevels]
    rcases hr : b.paRead (ptAddr + vpn va i * 8) 8 with ⟨b', _ | pte⟩ <;> rw [hr] at hb <;>
      obtain rfl : b' = b := hb
    · rfl
    · simp only
      split_ifs
      · rfl
      · rfl
      · rfl
      · exact ih _

theorem ptw_fst (hp : PureReads δ) (satp va : Word) (b : Systembus δ) : (ptw satp va b).1 = b := by
  unfold ptw
  split_ifs
  · rfl
  · exact ptwLevels_fst hp _ _ _ _

/-- The buffer after the refill of a walk. -/
def filled (t : Sv39 n) (satp va pte pageSize : Word) : Sv39 n where
  random := t.random + 1
  tlb := Function.update t.tlb t.random (refill satp va pte pageSize)

/-- The cases of a look-up that ends. -/
inductive Lookup (t : Sv39 n) (b : Systembus δ) (satp va : Word) :
    Sv39 n → Systembus δ → Option TlbEntry → Prop
  | hit {i : Fin n} (h : t.localTlbGet satp va = .ok (some i)) :
    Lookup t b satp va t b (some (t.tlb i))
  | fail (h : t.localTlbGet satp va = .ok none) (hw : (ptw satp va b).2 = none) :
    Lookup t b satp va t (ptw satp va b).1 none
  | fill {pte pageSize : Word} (h : t.localTlbGet satp va = .ok none)
    (hw : (ptw satp va b).2 = some (pte, pageSize))
    (hr : (t.filled satp va pte pageSize).localTlbGet satp va = .ok (some t.random)) :
    Lookup t b satp va (t.filled satp va pte pageSize) (ptw satp va b).1
      (some (refill satp va pte pageSize))

theorem lookup_of_localTlbeGet (h : t.localTlbeGet b satp va = .ok (t', b', e)) :
    Lookup t b satp va t' b' e := by
  have hthrow {α β : Type} {x : Halt} {k : α → Outcome β} {y : β} :
      ¬((throw x : Outcome α) >>= k) = .ok y := fun h => by cases h
  unfold localTlbeGet at h
  by_cases hc : canonical va = true
  · simp only [hc, Bool.not_true, Bool.false_eq_true, if_false] at h
    rcases hg : t.localTlbGet satp va with x | _ | i <;> rw [hg] at h
    · cases h
    · rcases hw : ptw satp va b with ⟨b₁, _ | ⟨pte, pageSize⟩⟩
      · have hf := Lookup.fail (b := b) hg (by rw [hw])
        rw [hw] at h hf
        cases h
        exact hf
      · rw [hw] at h
        change (do
          if (← (t.filled satp va pte pageSize).localTlbGet satp va) ≠ some t.random then
            throw (Halt.abort .localTlbeGet)
          return (t.filled satp va pte pageSize, b₁,
            some ((t.filled satp va pte pageSize).tlb t.random))) = _ at h
        rcases hr : (t.filled satp va pte pageSize).localTlbGet satp va with x | r <;> rw [hr] at h
        · cases h
        · by_cases hrr : r = some t.random
          · subst hrr
            have hf := Lookup.fill (b := b) hg (by rw [hw]) hr
            have he : (t.filled satp va pte pageSize).tlb t.random = refill satp va pte pageSize :=
              Function.update_self _ _ _
            simp only [bind, Except.bind, ne_eq, not_true_eq_false, if_false, pure, Except.pure,
              he] at h
            cases h
            rw [hw] at hf
            exact hf
          · simp only [bind, Except.bind, ne_eq, hrr, not_false_eq_true, if_true] at h
            cases h
    · cases h
      exact .hit hg
  · simp only [hc, Bool.not_false, if_true] at h
    exact absurd h hthrow

theorem Lookup.localTlbeGet (hc : canonical va = true) (h : Lookup t b satp va t' b' e) :
    t.localTlbeGet b satp va = .ok (t', b', e) := by
  unfold Sv39.localTlbeGet
  rw [hc]
  cases h with
  | hit h =>
    rw [h]
    rfl
  | fail h hw =>
    rcases hp : ptw satp va b with ⟨b₁, r⟩
    rw [hp] at hw
    obtain rfl : r = none := hw
    rw [h]
    simp only [bind, Except.bind, Bool.not_true, Bool.false_eq_true, if_false, pure, Except.pure]
  | @fill pte pageSize h hw hr =>
    rcases hp : ptw satp va b with ⟨b₁, r⟩
    rw [hp] at hw
    obtain rfl : r = some (pte, pageSize) := hw
    have he : (t.filled satp va pte pageSize).tlb t.random = refill satp va pte pageSize :=
      Function.update_self _ _ _
    rw [h, ← he]
    unfold filled at hr ⊢
    simp only [bind, Except.bind, hr, Bool.not_true, Bool.false_eq_true, if_false, ne_eq,
      not_true_eq_false, pure, Except.pure]

theorem localTlbeGet_bus (hp : PureReads δ) (h : t.localTlbeGet b satp va = .ok (t', b', e)) :
    b' = b := by
  cases lookup_of_localTlbeGet h with
  | hit => rfl
  | fail => exact ptw_fst hp satp va b
  | fill => exact ptw_fst hp satp va b

end Sv39

end PuaCpu
