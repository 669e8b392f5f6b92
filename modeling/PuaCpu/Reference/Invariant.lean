import PuaCpu.Reference.Effect

/-! # The modes of the reference model

Nothing delegates a trap or turns translation on, so the hart stays in machine
and user mode and the reserved fields of its status stay zero.
-/

namespace PuaCpu

namespace RvPriv

/-- Fields of the status that stay zero: those that `post_exec` checks, `SPP` and `TSR`. -/
def zeroFields : List (ℕ × ℕ) := (spp, 1) :: (22, 1) :: blanks

/-- The modes that are implemented. -/
def Implemented (p : Priv) : Prop := p = Priv.m ∨ p = Priv.u

/-- What holds of the status in every state. -/
structure StatusInv (status : Word) : Prop where
  zero : ∀ f ∈ zeroFields, status.extractLsb' f.1 f.2 = 0#f.2
  mpp : Implemented (status.extractLsb' RvPriv.mpp 2)

namespace StatusInv

variable {status : Word}

theorem set (h : StatusInv status) {lo w : ℕ} (v : BitVec w)
    (hd : ∀ f ∈ (RvPriv.mpp, 2) :: zeroFields, f.1 + f.2 ≤ 64 ∧ (f.1 + f.2 ≤ lo ∨ lo + w ≤ f.1)) :
    StatusInv (Bits.set status lo v) := by
  refine ⟨fun f hf => ?_, ?_⟩
  · obtain ⟨h1, h2⟩ := hd f (List.mem_cons_of_mem _ hf)
    rw [Bits.extract_set_disjoint _ _ h1 h2, h.zero f hf]
  · obtain ⟨h1, h2⟩ := hd _ List.mem_cons_self
    rw [Bits.extract_set_disjoint _ _ h1 h2]
    exact h.mpp

theorem set_mpp (h : StatusInv status) {p : Priv} (hp : Implemented p) :
    StatusInv (Bits.set status RvPriv.mpp p) := by
  refine ⟨fun f hf => ?_, ?_⟩
  · have hd : ∀ f ∈ zeroFields, f.1 + f.2 ≤ 64 ∧
        (f.1 + f.2 ≤ RvPriv.mpp ∨ RvPriv.mpp + 2 ≤ f.1) := by decide
    rw [Bits.extract_set_disjoint _ _ (hd f hf).1 (hd f hf).2, h.zero f hf]
  · rw [Bits.extract_set _ _ _ (by decide)]
    exact hp

theorem set_spp (h : StatusInv status) : StatusInv (Bits.set status spp 0#1) := by
  have hd : ∀ f ∈ (RvPriv.mpp, 2) :: (22, 1) :: blanks, f.1 + f.2 ≤ 64 ∧
      (f.1 + f.2 ≤ spp ∨ spp + 1 ≤ f.1) := by decide
  refine ⟨fun f hf => ?_, ?_⟩
  · rcases List.mem_cons.mp hf with rfl | hm
    · exact Bits.extract_set _ _ _ (by decide)
    · have hm' := hd f (List.mem_cons_of_mem _ hm)
      rw [Bits.extract_set_disjoint _ _ hm'.1 hm'.2, h.zero f hf]
  · rw [Bits.extract_set_disjoint _ _ (by decide) (by decide)]
    exact h.mpp

end StatusInv

theorem statusInv_reset (cfg : Config) (s : State) : StatusInv (reset cfg s).status := by
  have hz : StatusInv 0 := ⟨by decide, .inr (by decide)⟩
  rw [reset]
  refine iteInduction (fun _ => iteInduction (fun _ => ?_) fun _ => ?_) fun _ => hz
  · exact hz.set_mpp (.inl rfl)
  · exact hz.set _ (by decide)

theorem statusInv_write (cfg : Config) {s : State} (h : StatusInv s.status) (data : Word) :
    StatusInv (writeStatus cfg s data) := by
  have h0 : StatusInv (Bits.set s.status mie (data.extractLsb' mie 1)) := h.set _ (by decide)
  have h1 : StatusInv (Bits.set _ mpie (data.extractLsb' mpie 1)) := h0.set _ (by decide)
  refine iteInduction (fun _ => h1) fun _ => ?_
  refine (h1.set_mpp ?_).set _ (by decide)
  split_ifs with hm
  · simpa [Implemented, Priv.m, Priv.u] using hm
  · exact h1.mpp

theorem statusInv_mret {s : State} (h : StatusInv s.status) : StatusInv (mretStatus s) := by
  have h0 : StatusInv (Bits.set s.status mie (s.status.extractLsb' mpie 1)) :=
    h.set _ (by decide)
  have h1 : StatusInv (Bits.set _ mpie 1#1) := h0.set _ (by decide)
  refine StatusInv.set_mpp ?_ (.inr rfl)
  exact iteInduction (fun _ => h1.set _ (by decide)) fun _ => h1

theorem statusInv_sret {status : Word} (h : StatusInv status) : StatusInv (sretStatus status) :=
  (((h.set _ (by decide)).set _ (by decide)).set _ (by decide)).set_spp

theorem statusInv_trap {s : State} {cause : Cause} {tval : Word} (h : StatusInv s.status)
    (hp : Implemented s.curPriv) : StatusInv (raiseTrapM s cause tval).status :=
  ((h.set _ (by decide)).set _ (by decide)).set_mpp hp

/-- The invariant of the hart. -/
structure Hart.Inv {δ : Type} (h : Hart δ) : Prop where
  satp : h.satp = 0
  medeleg : h.medeleg = 0
  mideleg : h.mideleg = 0
  curPriv : Implemented h.curPriv
  nextPriv : Implemented h.nextPriv
  status : StatusInv h.status

namespace Hart

variable {δ : Type} {cfg : Config} {h h' : Hart δ}

theorem inv_new (cfg : Config) (h : Hart δ) : (h.new cfg).Inv :=
  ⟨rfl, rfl, rfl, .inl rfl, .inl rfl, statusInv_reset cfg _⟩

namespace Inv

theorem mode (hi : h.Inv) : Satp.mode h.satp = 0 := by
  rw [hi.satp]
  decide

theorem trapEntry_eq (hi : h.Inv) (cause : Cause) (tval : Word) :
    trapEntry h.toState cause tval = raiseTrapM { h.toState with curNeedTrap := true } cause tval :=
  if_neg (by rw [RvPriv.trapToS, hi.mideleg, hi.medeleg]; simp)

theorem trapped (hi : h.Inv) (cause : Cause) (tval : Word) : (h.trapped cause tval).Inv := by
  rw [Hart.trapped, hi.trapEntry_eq]
  exact ⟨hi.satp, hi.medeleg, hi.mideleg, hi.curPriv, .inl rfl,
    statusInv_trap (by exact hi.status) (by exact hi.curPriv)⟩

theorem step (hi : h.Inv) (hs : RvCore.State.HartStep cfg h h') : h'.Inv := by
  cases hs with
  | mem pc b => exact ⟨hi.satp, hi.medeleg, hi.mideleg, hi.curPriv, hi.nextPriv, hi.status⟩
  | csr csrIndex data s hm hw =>
    have hc := csrWritten cfg h.toState csrIndex data
    rw [hw] at hc
    cases hc with
    | status =>
      exact ⟨hi.satp, hi.medeleg, hi.mideleg, hi.curPriv, hi.nextPriv,
        statusInv_write cfg hi.status data⟩
    | plain => exact ⟨hi.satp, hi.medeleg, hi.mideleg, hi.curPriv, hi.nextPriv, hi.status⟩
  | mret hm =>
    have hp : Implemented (mretM h.toState).nextPriv := by
      have h1 : StatusInv (Bits.set h.status mie (h.status.extractLsb' mpie 1)) :=
        hi.status.set _ (by decide)
      exact h1.mpp
    exact ⟨hi.satp, hi.medeleg, hi.mideleg, hi.curPriv, hp, statusInv_mret hi.status⟩
  | sret _ hs =>
    unfold Hart.sret at hs
    split_ifs at hs
    obtain rfl := Option.some_inj.mp hs
    have hp : Implemented ((h.status.extractLsb' spp 1).setWidth 2) := by
      rw [hi.status.zero (spp, 1) List.mem_cons_self]
      exact .inr rfl
    exact ⟨hi.satp, hi.medeleg, hi.mideleg, hi.curPriv, hp, statusInv_sret hi.status⟩
  | sfence t => exact ⟨hi.satp, hi.medeleg, hi.mideleg, hi.curPriv, hi.nextPriv, hi.status⟩

end Inv

end Hart

end RvPriv

end PuaCpu
