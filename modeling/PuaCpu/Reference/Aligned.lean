import PuaCpu.Reference.Dispatch
import PuaCpu.Reference.Harness
import PuaCpu.Reference.Trap
import PuaCpu.Reference.Walk

/-! # The alignment of atomics

The bus operations of `LR`, `SC` and the AMOs leave the alignment of their address
to the core, and the core leaves it to `rv_priv`, which looks at page borders in
translated accesses only.
-/

namespace PuaCpu

theorem bind_eq_ok {α β : Type} {x : Outcome α} {k : α → Outcome β} {y : β}
    (h : x >>= k = .ok y) : ∃ a, x = .ok a ∧ k a = .ok y := by
  cases x with
  | error e => cases h
  | ok a => exact ⟨a, rfl, h⟩

namespace RvPriv.Hart

variable {δ : Type} [MmioDev δ] {h h' : Hart δ} {k : AccessKind} {a n va : Word}

/-- The physical address that a data access hands to its bus operation, and nothing for an access
that ends before. -/
def busAddr (h : Hart δ) (k : AccessKind) (a n : Word) : Outcome (Option Word) :=
  if h.untranslated then .ok (some a)
  else do
    match ← h.translate k a n with
    | (_, .ok pa) => return some pa
    | (_, .error _) => return none

section Bus

variable {α : Type}

theorem vaAccess_of_busAddr {pa : Word} (hb : h.busAddr k a n = .ok (some pa)) :
    ∃ h' f, ∀ access : Hart δ → Word → Outcome (Hart δ × Option α),
      h.vaAccess k a n access = (access h' pa).map (orFault f) := by
  unfold busAddr at hb
  cases hu : h.untranslated with
  | true =>
    rw [hu] at hb
    obtain rfl : a = pa := Option.some_inj.mp (Except.ok.inj hb)
    exact ⟨h, k.accessFault, fun access => by rw [vaAccess, hu, if_pos rfl]⟩
  | false =>
    rw [hu, if_neg (by decide)] at hb
    rcases ht : h.translate k a n with x | ⟨h', e | pa'⟩ <;> rw [ht] at hb
    · cases hb
    · cases hb
    · obtain rfl : pa' = pa := Option.some_inj.mp (Except.ok.inj hb)
      refine ⟨h', k.translatedFault, fun access => ?_⟩
      rw [vaAccess, hu, if_neg (by decide), ht]
      rfl

theorem translate_of_busAddr (hb : h.busAddr k a n = .ok none) :
    h.untranslated = false ∧ ∃ h' e, h.translate k a n = .ok (h', .error e) := by
  unfold busAddr at hb
  cases hu : h.untranslated with
  | true =>
    rw [hu] at hb
    exact absurd (Except.ok.inj hb) (Option.some_ne_none _)
  | false =>
    rw [hu, if_neg (by decide)] at hb
    rcases ht : h.translate k a n with x | ⟨h', e | pa⟩ <;> rw [ht] at hb
    · cases hb
    · exact ⟨rfl, h', e, rfl⟩
    · exact absurd (Except.ok.inj hb) (Option.some_ne_none _)

theorem vaAccess_of_translate (hu : h.untranslated = false) {e : ExcNo}
    (ht : h.translate k a n = .ok (h', .error e))
    (access : Hart δ → Word → Outcome (Hart δ × Option α)) :
    h.vaAccess k a n access = .ok (h', .error e) := by
  rw [vaAccess, hu, if_neg (by decide), ht]
  rfl

theorem busAddr_of_translate (hu : h.untranslated = false) {e : ExcNo}
    (ht : h.translate k a n = .ok (h', .error e)) : h.busAddr k a n = .ok none := by
  rw [busAddr, hu, if_neg (by decide), ht]
  rfl

end Bus

section Translate

/-- Translation changes the translation buffer only. -/
def Refilled (h h' : Hart δ) : Prop := ∃ t, h' = { h with sv39 := t }

theorem tlbe_refilled (hp : PureReads δ) {e : Option TlbEntry} (ht : h.tlbe va = .ok (h', e)) :
    Refilled h h' := by
  unfold tlbe at ht
  rcases hl : h.sv39.localTlbeGet h.bus h.satp va with x | ⟨t, b, e'⟩ <;> rw [hl] at ht
  · cases ht
  · obtain rfl := Sv39.localTlbeGet_bus hp hl
    cases ht
    exact ⟨t, rfl⟩

/-- A user page that supervisor mode may not touch. -/
structure SumFault (h : Hart δ) (k : AccessKind) (a : Word) : Prop where
  entry : ∃ h' e, h.tlbe a = .ok (h', some e) ∧ k.permitted (h.status.getLsbD 19) e = true ∧
    e.u = true
  priv : h.dataPriv = Priv.s
  sum : h.status.getLsbD 18 = false

theorem translate_error (hp : PureReads δ) {e : ExcNo}
    (ht : h.translate k a n = .ok (h', .error e)) :
    Refilled h h' ∧ (crosses a n = true ∧ e = k.crossing ∨ e = k.pageFault ∨
      SumFault h k a ∧ e = k.sumFault) := by
  unfold translate at ht
  by_cases hc : crosses a n = true
  · rw [if_pos hc] at ht
    cases ht
    exact ⟨⟨h.sv39, rfl⟩, .inl ⟨hc, rfl⟩⟩
  rw [if_neg hc] at ht
  rcases hl : h.tlbe a with x | ⟨h₁, _ | en⟩ <;> rw [hl] at ht
  · cases ht
  · cases ht
    exact ⟨tlbe_refilled hp hl, .inr (.inl rfl)⟩
  obtain ⟨t, rfl⟩ := tlbe_refilled hp hl
  simp only [bind, Except.bind] at ht
  split_ifs at ht with h1 h2 h3
  · cases ht
    exact ⟨⟨t, rfl⟩, .inr (.inl rfl)⟩
  · cases ht
    exact ⟨⟨t, rfl⟩, .inr (.inl rfl)⟩
  · cases ht
    obtain ⟨hs, hd, hu⟩ := h3
    refine ⟨⟨t, rfl⟩, .inr (.inr ⟨⟨⟨_, en, hl, ?_, hu⟩, hd, ?_⟩, rfl⟩)⟩
    · simpa using h1
    · simpa using hs
  · cases ht

theorem translate_of_crosses (hc : crosses a n = true) :
    h.translate k a n = .ok (h, .error k.crossing) := by
  rw [translate, if_pos hc]
  rfl

theorem translate_of_sumFault (hp : PureReads δ) (hc : crosses a n = false)
    (hs : SumFault h k a) : ∃ h', h.translate k a n = .ok (h', .error k.sumFault) := by
  obtain ⟨⟨h', e, hl, hperm, hu⟩, hd, hsum⟩ := hs
  obtain ⟨t, rfl⟩ := tlbe_refilled hp hl
  refine ⟨{ h with sv39 := t }, ?_⟩
  have hd' : ({ h with sv39 := t } : Hart δ).dataPriv = Priv.s := hd
  have hus : Priv.s ≠ Priv.u := by decide
  rw [translate, if_neg (by rw [hc]; decide), hl]
  simp only [bind, Except.bind, hperm, hd', hsum, hu, hus, Bool.not_true, Bool.not_false,
    Bool.false_eq_true, if_false, if_true, and_self, pure, Except.pure]

end Translate

end RvPriv.Hart

namespace RvCore

open RvPriv

/-- The fields of an atomic instruction. -/
def amoFunct5 (inst : RvInstr) : BitVec 5 := inst.funct7.extractLsb' 2 5

def amoSize (inst : RvInstr) : Word := 1#64 <<< inst.funct3

def amoKind (inst : RvInstr) : Hart.AccessKind :=
  if amoFunct5 inst = AmoFunct.lr then Hart.lrKind else Hart.writeKind

/-- An `LR`, an `SC` or an AMO. -/
structure IsAmo (inst : RvInstr) : Prop where
  opcode : inst.opcode = Opcode.amo
  funct3 : inst.funct3 = 0b010 ∨ inst.funct3 = 0b011
  funct5 : (amoFunct5 inst = AmoFunct.lr ∧ inst.rs2 = 0) ∨ amoFunct5 inst = AmoFunct.sc ∨
    amoFunct5 inst ∈ State.amoFuncts

namespace State

/-- An atomic that ends with one misaligned-address or access fault. Its bus operation is not
called, and the memory, the registers and the reservation stay. -/
structure Refused (cfg : Config) (s : State MmioMem) (inst : RvInstr) : Prop where
  trap : ∃ e cause, s.decodeExec inst cfg = .ok e ∧ e.ri = false ∧
    cause ∈ [ExcNo.storeAddrMisaligned, .storeAccessFault] ∧
    e.core.priv.raised = s.priv.raised ++ [(.exc cause, s.gpr inst.rs1)] ∧
    e.core.gpr = s.gpr ∧ e.core.priv.bus = s.priv.bus
  noCall : s.priv.busAddr (amoKind inst) (s.gpr inst.rs1) (amoSize inst) = .ok none

variable {δ : Type} [MmioDev δ] {s : State δ} {cfg : Config} {inst : RvInstr}

/-- The three kinds of atomics differ in the bus operation and in what they do with its result. -/
theorem execAmo_eq (hi : IsAmo inst) :
    ∃ (α : Type) (access : Hart δ → Word → Outcome (Hart δ × Option α))
      (k : State δ → α → State δ), s.execAmo inst = (do
        let s ← s.orTrap (← s.priv.vaAccess (amoKind inst) (s.gpr inst.rs1) (amoSize inst) access)
          (s.gpr inst.rs1) k
        return s.done) := by
  have h3 : ¬(inst.funct3 ≠ 0b010 ∧ inst.funct3 ≠ 0b011) := by
    rcases hi.funct3 with h | h <;> simp [h]
  have hz : ¬¬(amoSize inst = 4 ∨ amoSize inst = 8) := by
    rcases hi.funct3 with h | h <;> simp [amoSize, h]
  have hops : ∀ f ∈ amoFuncts, f ≠ AmoFunct.lr ∧ f ≠ AmoFunct.sc := by decide
  unfold execAmo
  rw [if_neg h3]
  change ∃ α access k, (if amoFunct5 inst = AmoFunct.lr then _ else _) = _
  rcases hi.funct5 with ⟨h5, h2⟩ | h5 | h5
  · rw [if_pos h5, if_neg (not_not_intro h2), amoKind, if_pos h5]
    refine ⟨Word, fun h pa => .ok (h.withBus (h.bus.paLr pa (amoSize inst) h.hartId)),
      fun s result =>
        s.setGpr inst.rd (if inst.funct3 = 0b011 then result else RvAlu.int32 result), ?_⟩
    change (do
      let r ← s.priv.vaLr (s.gpr inst.rs1) (amoSize inst)
      _) = _
    rw [Hart.vaLr, if_neg hz]
  · have hn : amoFunct5 inst ≠ AmoFunct.lr := by rw [h5]; decide
    rw [if_neg hn, amoKind, if_neg hn]
    change ∃ α access k, (if amoFunct5 inst = AmoFunct.sc then _ else _) = _
    rw [if_pos h5]
    refine ⟨Bool, fun h pa =>
      .ok (h.withBus (h.bus.paSc pa (amoSize inst) (s.gpr inst.rs2) h.hartId)),
      fun s result => s.setGpr inst.rd (if result then 1 else 0), ?_⟩
    change (do
      let r ← s.priv.vaSc (s.gpr inst.rs1) (amoSize inst) (s.gpr inst.rs2)
      _) = _
    rw [Hart.vaSc, if_neg hz]
  · obtain ⟨hn, hn'⟩ := hops _ h5
    rw [if_neg hn, amoKind, if_neg hn]
    change ∃ α access k, (if amoFunct5 inst = AmoFunct.sc then _ else _) = _
    rw [if_neg hn']
    change ∃ α access k, (if amoFunct5 inst ∈ amoFuncts then _ else _) = _
    rw [if_pos h5]
    refine ⟨Word, fun h pa => (h.bus.paAmoOp pa (amoSize inst) (amoFunct5 inst)
      (s.gpr inst.rs2)).map h.withBus, fun s result => s.setGpr inst.rd result, ?_⟩
    change (do
      let r ← s.priv.vaAmo (s.gpr inst.rs1) (amoSize inst) (amoFunct5 inst) (s.gpr inst.rs2)
      _) = _
    rw [Hart.vaAmo, if_neg hz]

theorem decodeExec_of_translate (hp : PureReads δ) (hn : s.priv.curNeedTrap = false)
    (hi : IsAmo inst) (hu : s.priv.untranslated = false) {h' : Hart δ} {e : ExcNo}
    (ht : s.priv.translate (amoKind inst) (s.gpr inst.rs1) (amoSize inst) =
      .ok (h', .error e)) :
    s.decodeExec inst cfg =
      .ok ((s.fetched inst).withPriv (h'.trapped (.exc e) (s.gpr inst.rs1))).done := by
  obtain ⟨⟨t, rfl⟩, he⟩ := Hart.translate_error hp ht
  have hne : e ≠ .instPageFault := by
    rcases he with ⟨-, rfl⟩ | rfl | ⟨-, rfl⟩ <;> (rw [amoKind]; split_ifs <;> decide)
  obtain ⟨α, access, k, hx⟩ := execAmo_eq (s := s.fetched inst) hi
  have ha := Hart.vaAccess_of_translate hu ht access
  have hr : ((s.fetched inst).withPriv { s.priv with sv39 := t }).raiseTrap (.exc e)
      (s.gpr inst.rs1) = _ := raiseTrap_eq hn hne
  rw [decodeExec_amo hi.opcode, hx]
  change (do
    let r ← s.priv.vaAccess (amoKind inst) (s.gpr inst.rs1) (amoSize inst) access
    _) = _
  rw [ha]
  change (do
    let s ← ((s.fetched inst).withPriv { s.priv with sv39 := t }).raiseTrap (.exc e)
      (s.gpr inst.rs1)
    return s.done) = _
  rw [hr]
  rfl

theorem exc_injective : Function.Injective Cause.exc := by
  intro e e' h
  have hc : BitVec.ofNat 63 e.val = BitVec.ofNat 63 e'.val := congrArg Cause.cause h
  revert hc
  revert e e'
  decide

section Fetch

variable {h h' : Hart δ} {a n : Word} {l : Lines} {s₀ : State δ}

/-- A fetch changes the translation buffer only. -/
theorem vaIfPart_refilled (hp : PureReads δ) {r : Except ExcNo Word}
    (hv : h.vaIfPart a n = .ok (h', r)) : Hart.Refilled h h' := by
  have hbus (h : Hart δ) (pa : Word) : { h with bus := (h.bus.paRead pa n).1 } = h := by
    rw [Systembus.paRead_fst hp]
  unfold Hart.vaIfPart at hv
  split_ifs at hv
  · cases hv
    exact ⟨h.sv39, hbus h a⟩
  · cases hv
    exact ⟨h.sv39, rfl⟩
  · rcases hl : h.tlbe a with x | ⟨h₁, _ | e⟩ <;> rw [hl] at hv
    · cases hv
    · cases hv
      exact Hart.tlbe_refilled hp hl
    · obtain ⟨t, rfl⟩ := Hart.tlbe_refilled hp hl
      simp only [bind, Except.bind] at hv
      split_ifs at hv
      · cases hv
        exact ⟨t, rfl⟩
      · cases hv
        exact ⟨t, rfl⟩
      · cases hv
        exact ⟨t, hbus { h with sv39 := t } (e.pa a)⟩

theorem vaIf_refilled (hp : PureReads δ) {r : Except (ExcNo × Word) Word}
    (hv : h.vaIf a n = .ok (h', r)) : Hart.Refilled h h' := by
  unfold Hart.vaIf at hv
  split_ifs at hv
  · rcases h₁ : h.vaIfPart a 2 with x | ⟨h₁, e | lo⟩ <;> rw [h₁] at hv
    · cases hv
    · cases hv
      exact vaIfPart_refilled hp h₁
    · obtain ⟨t, rfl⟩ := vaIfPart_refilled hp h₁
      simp only [bind, Except.bind] at hv
      rcases h₂ : ({ h with sv39 := t } : Hart δ).vaIfPart (a + 2) 2 with x | ⟨h₂, e | hi⟩ <;>
        rw [h₂] at hv
      · cases hv
      · cases hv
        obtain ⟨t', rfl⟩ := vaIfPart_refilled hp h₂
        exact ⟨t', rfl⟩
      · cases hv
        obtain ⟨t', rfl⟩ := vaIfPart_refilled hp h₂
        exact ⟨t', rfl⟩
  · rcases h₁ : h.vaIfPart a n with x | ⟨h₁, e | buffer⟩ <;> rw [h₁] at hv
    · cases hv
    · cases hv
      exact vaIfPart_refilled hp h₁
    · cases hv
      exact vaIfPart_refilled hp h₁

theorem instrFetch_curNeedTrap (hp : PureReads δ)
    (hf : s₀.instrFetch l = .ok (s, some inst)) : s.priv.curNeedTrap = false := by
  unfold instrFetch at hf
  -- the code behind the interrupt check is the same in the three cases
  split_ifs at hf
  all_goals
    obtain ⟨h, -, hk⟩ := bind_eq_ok hf
    simp only at hk
    split_ifs at hk with hn ha
    · cases hk
    · obtain ⟨_, -, hk⟩ := bind_eq_ok hk
      cases hk
    · obtain ⟨⟨h₁, r⟩, hv, hk⟩ := bind_eq_ok hk
      obtain ⟨t, rfl⟩ := vaIf_refilled hp hv
      rcases r with e | w
      · obtain ⟨_, -, hk⟩ := bind_eq_ok hk
        cases hk
      · cases hk
        exact Bool.eq_false_iff.mpr hn

end Fetch

theorem crossing_amoKind (inst : RvInstr) : (amoKind inst).crossing = .storeAddrMisaligned := by
  rw [amoKind]
  split_ifs <;> rfl

theorem pageFault_amoKind (inst : RvInstr) : (amoKind inst).pageFault = .storePageFault := by
  rw [amoKind]
  split_ifs <;> rfl

section Memory

variable {s : State MmioMem}

/-- A translation that fails with one of the two faults refuses the atomic. -/
theorem refused_of_translate (hn : s.priv.curNeedTrap = false) (hi : IsAmo inst)
    (hu : s.priv.untranslated = false) {h' : Hart MmioMem} {e : ExcNo}
    (ht : s.priv.translate (amoKind inst) (s.gpr inst.rs1) (amoSize inst) = .ok (h', .error e))
    (he : e ∈ [ExcNo.storeAddrMisaligned, .storeAccessFault]) : Refused cfg s inst := by
  have hp := pureReads_mmioMem
  obtain ⟨t, rfl⟩ := (Hart.translate_error hp ht).1
  refine ⟨⟨_, e, decodeExec_of_translate hp hn hi hu ht, rfl, he, rfl, rfl, rfl⟩, ?_⟩
  exact Hart.busAddr_of_translate hu ht

theorem translate_of_refused (hn : s.priv.curNeedTrap = false) (hi : IsAmo inst)
    (hr : Refused cfg s inst) : s.priv.untranslated = false ∧ ∃ h' e,
      s.priv.translate (amoKind inst) (s.gpr inst.rs1) (amoSize inst) = .ok (h', .error e) ∧
        e ∈ [ExcNo.storeAddrMisaligned, .storeAccessFault] := by
  obtain ⟨⟨x, cause, hx, -, hc, hr, -, -⟩, hb⟩ := hr
  obtain ⟨hu, h', e, ht⟩ := Hart.translate_of_busAddr hb
  obtain ⟨t, rfl⟩ := (Hart.translate_error pureReads_mmioMem ht).1
  have hd : s.decodeExec inst cfg = _ := decodeExec_of_translate pureReads_mmioMem hn hi hu ht
  obtain rfl := Except.ok.inj (hd.symm.trans hx)
  have hl := List.append_cancel_left hr
  obtain rfl : e = cause := exc_injective (congrArg Prod.fst (List.cons.inj hl).1)
  exact ⟨hu, _, e, ht, hc⟩

/-- **When an atomic is refused without its bus operation**: in a translated access that crosses a
page border, and for an `LR` of a user page that supervisor mode may not touch. -/
theorem refused_iff {s₀ s : State MmioMem} {l : Lines} (hf : s₀.instrFetch l = .ok (s, some inst))
    (hi : IsAmo inst) :
    Refused cfg s inst ↔ s.priv.untranslated = false ∧
      (Hart.crosses (s.gpr inst.rs1) (amoSize inst) = true ∨
        amoFunct5 inst = AmoFunct.lr ∧ s.priv.SumFault Hart.lrKind (s.gpr inst.rs1)) := by
  have hp := pureReads_mmioMem
  have hn := instrFetch_curNeedTrap hp hf
  constructor
  · intro hr
    obtain ⟨hu, h', e, ht, hc⟩ := translate_of_refused hn hi hr
    refine ⟨hu, ?_⟩
    rcases (Hart.translate_error hp ht).2 with ⟨h, -⟩ | rfl | ⟨h, rfl⟩
    · exact .inl h
    · rw [pageFault_amoKind] at hc
      exact absurd hc (by decide)
    · right
      by_cases hlr : amoFunct5 inst = AmoFunct.lr
      · rw [amoKind, if_pos hlr] at h
        exact ⟨hlr, h⟩
      · rw [amoKind, if_neg hlr] at hc
        exact absurd hc (by decide)
  · rintro ⟨hu, hc⟩
    by_cases hcr : Hart.crosses (s.gpr inst.rs1) (amoSize inst) = true
    · refine refused_of_translate hn hi hu (Hart.translate_of_crosses hcr) ?_
      rw [crossing_amoKind]
      decide
    · obtain ⟨hlr, hs⟩ := hc.resolve_left hcr
      have hk : amoKind inst = Hart.lrKind := if_pos hlr
      obtain ⟨h', ht⟩ := Hart.translate_of_sumFault hp (Bool.eq_false_iff.mpr hcr) hs
      rw [← hk] at ht
      refine refused_of_translate hn hi hu ht ?_
      rw [hk]
      decide

end Memory

/-- A program of `amoadd.w x0, x0, (x1)` with an address in `x1`. -/
def amoCore (addr : Word) : State MmioMem :=
  (Test.core ⟨true, false⟩ (Test.filled 0x0000a02f) default).setGpr 1 addr

theorem isAmo_amoadd : IsAmo 0x0000a02f := ⟨rfl, .inl rfl, .inr (.inr (by decide))⟩

/-- The program in machine mode, with the data accesses of user mode. -/
def mprvCore (addr : Word) : State MmioMem :=
  let s := amoCore addr
  s.withPriv { s.priv with
    satp := 8#64 <<< 60
    toState := { s.priv.toState with status := 1#64 <<< mprv } }

/-- A word at the end of a page. -/
theorem refused_page_border : ∃ s, (mprvCore 0x80000ffe).instrFetch {} = .ok (s, some 0x0000a02f) ∧
    Refused ⟨true, false⟩ s 0x0000a02f := by
  refine ⟨_, rfl, ?_⟩
  exact (@refused_iff _ _ (mprvCore 0x80000ffe) _ {} rfl isAmo_amoadd).mpr
    ⟨by decide, .inl (by decide)⟩

/-- A misaligned AMO in machine mode reaches the bus. -/
theorem not_refused : ¬ ∀ (cfg : Config) (l : Lines) (s₀ s : State MmioMem) (inst : RvInstr),
    s₀.instrFetch l = .ok (s, some inst) → IsAmo inst →
    s.gpr inst.rs1 % amoSize inst ≠ 0 → Refused cfg s inst := by
  intro h
  have hr := h ⟨true, false⟩ {} (amoCore 0x80000001) _ _ rfl isAmo_amoadd (by decide)
  exact absurd (Hart.translate_of_busAddr hr.noCall).1 (by decide)

end State

end RvCore

end PuaCpu
