import PuaCpu.Reference.Load
import PuaCpu.Temporal.Since

/-! # Virtual memory

The translation buffer does not show in the accesses of a hart. A hart with the
buffer gives the same values and the same faults, and leaves the same memory, as
one that fences before every access, as long as software fences after it has
changed a translation.
-/

namespace PuaCpu.RvPriv.Hart

open Sv39

/-- What the core does with memory, and what else happens to the hart and the memory. -/
inductive MemOp (δ : Type)
  | fetch (a n : Word)
  | read (a n : Word)
  | write (a n v : Word)
  | lr (a n : Word)
  | sc (a n v : Word)
  | amo (a n : Word) (op : BitVec 5) (src : Word)
  | sfence (vaddr asid : Word)
  | set (s : State) (satp : Word) (bus : Systembus δ)

/-- A value, or a fault with its address. -/
abbrev Reply := Except (ExcNo × Word) Word

variable {δ α : Type}

/-- The reply of a data access. -/
def reply (a : Word) (f : α → Word) (r : Hart δ × Except ExcNo α) : Hart δ × Reply :=
  (r.1, match r.2 with
    | .ok v => .ok (f v)
    | .error e => .error (e, a))

def perform [MmioDev δ] (cfg : Config) (h : Hart δ) : MemOp δ → Outcome (Hart δ × Reply)
  | .fetch a n => h.vaIf a n
  | .read a n => (h.vaRead a n).map (reply a id)
  | .write a n v => (h.vaWrite cfg a n v).map (reply a fun _ => 0)
  | .lr a n => (h.vaLr a n).map (reply a id)
  | .sc a n v => (h.vaSc a n v).map (reply a fun scFail => if scFail then 1 else 0)
  | .amo a n op src => (h.vaAmo a n op src).map (reply a id)
  | .sfence vaddr asid =>
    match h.sfenceVma vaddr asid with
    | some h' => .ok (h', .ok 0)
    | none => .ok (h, .error (.illegalInst, 0))
  | .set s satp bus => .ok ({ h with toState := s, satp := satp, bus := bus }, .ok 0)

/-- The hart with another buffer. -/
def withTlb (h : Hart δ) (t : Sv39 32) : Hart δ := { h with sv39 := t }

/-- The hart that makes no use of its buffer: it fences before every operation. -/
def performFenced [MmioDev δ] (cfg : Config) (h : Hart δ) (op : MemOp δ) :
    Outcome (Hart δ × Reply) :=
  (h.withTlb (h.sv39.sfenceVma 0 0)).perform cfg op

/-- Whether an operation is translated. -/
def Translates (h : Hart δ) : MemOp δ → Prop
  | .fetch .. => ¬(h.curPriv = Priv.m ∨ Satp.mode h.satp = 0)
  | .sfence .. | .set .. => False
  | _ => h.untranslated = false

/-- The addresses that an operation may look up. -/
def MemOp.addrs : MemOp δ → List Word
  | .fetch a n => if n = 4 ∧ a % 4 = 2 then [a, a + 2] else [a]
  | .read a _ | .write a _ _ | .lr a _ | .sc a _ _ | .amo a _ _ _ => [a]
  | .sfence .. | .set .. => []

/-- The same result up to the buffer, of which `P` and `Q` hold. -/
inductive SameResult (P Q : Sv39 32 → Prop) : Outcome (Hart δ × α) → Outcome (Hart δ × α) → Prop
  | ok (h : Hart δ) {t t' : Sv39 32} (ht : P t) (ht' : Q t') (a : α) :
    SameResult P Q (.ok (h.withTlb t, a)) (.ok (h.withTlb t', a))
  | error (e : Halt) : SameResult P Q (.error e) (.error e)

/-- A bus operation that does not look at the buffer. -/
def Blind (access : Hart δ → Word → Outcome (Hart δ × Option α)) : Prop :=
  ∀ (h : Hart δ) (t : Sv39 32) (pa : Word),
    access (h.withTlb t) pa = (access h pa).map fun r => (r.1.withTlb t, r.2)

/-- A check that looks at the leaf only. -/
def LeafOnly (k : AccessKind) : Prop :=
  ∀ (m : Bool) (e e' : TlbEntry), e.leaf = e'.leaf → k.permitted m e = k.permitted m e'

variable {cfg : Config} {h : Hart δ} {k : AccessKind} {a n : Word} {P Q : Sv39 32 → Prop}
  {t t' : Sv39 32} {U : Set Word}

section Same

theorem SameResult.orFault {r r' : Outcome (Hart δ × Option α)} (hr : SameResult P Q r r')
    (e : ExcNo) : SameResult P Q (r.map (orFault e)) (r'.map (orFault e)) := by
  cases hr with
  | ok h ht ht' a => exact .ok h ht ht' _
  | error e => exact .error e

theorem SameResult.reply {r r' : Outcome (Hart δ × Except ExcNo α)} (hr : SameResult P Q r r')
    (a : Word) (f : α → Word) : SameResult P Q (r.map (reply a f)) (r'.map (reply a f)) := by
  cases hr with
  | ok h ht ht' v => exact .ok h ht ht' _
  | error e => exact .error e

/-- The second part of a computation sees the buffers that the first one leaves. -/
theorem SameResult.bind {β : Type} {P' Q' : Sv39 32 → Prop} {r r' : Outcome (Hart δ × α)}
    {f : Hart δ × α → Outcome (Hart δ × β)} (hr : SameResult P Q r r')
    (hf : ∀ h t t' a, r = .ok (withTlb h t, a) → P t → Q t' →
      SameResult P' Q' (f (withTlb h t, a)) (f (withTlb h t', a))) :
    SameResult P' Q' (r >>= f) (r' >>= f) := by
  cases hr with
  | ok h ht ht' a => exact hf h _ _ a rfl ht ht'
  | error e => exact .error e

theorem Blind.same {access : Hart δ → Word → Outcome (Hart δ × Option α)} (hb : Blind access)
    (h : Hart δ) (pa : Word) (ht : P t) (ht' : Q t') :
    SameResult P Q (access (h.withTlb t) pa) (access (h.withTlb t') pa) := by
  rw [hb h t pa, hb h t' pa]
  cases access h pa with
  | ok r => exact .ok r.1 ht ht' r.2
  | error e => exact .error e

end Same

section Lookup

variable [MmioDev δ]

/-- What a look-up needs of the buffer and of software. -/
structure Ready (U : Set Word) (h : Hart δ) : Prop where
  pure : PureReads δ
  source : scheme.Source U (walk h.bus)
  satp : h.satp ∈ U

theorem Ready.tlbe (hr : Ready U h) (hc : canonical a = true) (ht : Sync U h.bus t) :
    ∃ t₁ e, (h.withTlb t).tlbe a = .ok (h.withTlb t₁, e) ∧ Sync U h.bus t₁ ∧
      e.map TlbEntry.leaf = walk h.bus h.satp a ∧ ∀ x ∈ e, x.hit h.satp a = true := by
  obtain ⟨t₁, e, hl, he, ht₁⟩ := ht.localTlbeGet hr.pure hr.source hr.satp hc
  have htlbe : (h.withTlb t).tlbe a = .ok (h.withTlb t₁, e) := by
    change (do
      let r ← t.localTlbeGet h.bus h.satp a
      return (({ h with sv39 := r.1, bus := r.2.1 } : Hart δ), r.2.2)) = _
    rw [hl]
    rfl
  obtain ⟨h', e', hl', -, -, hh⟩ :=
    tlbe_of_coherent (h := h.withTlb t) hc (ht.coherent hr.satp)
  obtain rfl : e = e' := (Prod.mk.inj (Except.ok.inj (htlbe.symm.trans hl'))).2
  exact ⟨t₁, e, htlbe, ht₁, he, hh⟩

/-- Two entries for an address with one leaf. -/
structure SameEntry (a : Word) (e e' : TlbEntry) : Prop where
  leaf : e.leaf = e'.leaf
  pa : e.pa a = e'.pa a

/-- Two buffers in step find the same leaf. -/
inductive SameLookup (U : Set Word) (h : Hart δ) (a : Word) :
    Outcome (Hart δ × Option TlbEntry) → Outcome (Hart δ × Option TlbEntry) → Prop
  | none {t t' : Sv39 32} (ht : Sync U h.bus t) (ht' : Sync U h.bus t') :
    SameLookup U h a (.ok (h.withTlb t, none)) (.ok (h.withTlb t', none))
  | some {t t' : Sv39 32} {e e' : TlbEntry} (ht : Sync U h.bus t) (ht' : Sync U h.bus t')
    (he : SameEntry a e e') :
    SameLookup U h a (.ok (h.withTlb t, some e)) (.ok (h.withTlb t', some e'))

theorem Ready.sameLookup (hr : Ready U h) (hc : canonical a = true) (ht : Sync U h.bus t)
    (ht' : Sync U h.bus t') :
    SameLookup U h a ((h.withTlb t).tlbe a) ((h.withTlb t').tlbe a) := by
  obtain ⟨t₁, e, hl, ht₁, he, hh⟩ := hr.tlbe hc ht
  obtain ⟨t₁', e', hl', ht₁', he', hh'⟩ := hr.tlbe hc ht'
  have hleaf : e.map TlbEntry.leaf = e'.map TlbEntry.leaf := he.trans he'.symm
  rw [hl, hl']
  cases e with
  | none =>
    obtain rfl : e' = none := Option.map_eq_none_iff.mp hleaf.symm
    exact .none ht₁ ht₁'
  | some e =>
    obtain ⟨e', rfl, heq⟩ := Option.map_eq_some_iff.mp hleaf.symm
    refine .some ht₁ ht₁' ⟨heq.symm, ?_⟩
    rw [pa_eq (hh e rfl), pa_eq (hh' e' rfl), heq]

theorem SameEntry.u {e e' : TlbEntry} (h : SameEntry a e e') : e.u = e'.u :=
  congrArg Leaf.u h.leaf

theorem SameEntry.accessed {e e' : TlbEntry} (h : SameEntry a e e') : e.a = e'.a :=
  congrArg Leaf.a h.leaf

theorem SameEntry.x {e e' : TlbEntry} (h : SameEntry a e e') : e.x = e'.x :=
  congrArg Leaf.x h.leaf

theorem Ready.translate (hr : Ready U h) (hk : LeafOnly k) (hc : canonical a = true)
    (ht : Sync U h.bus t) (ht' : Sync U h.bus t') :
    SameResult (Sync U h.bus) (Sync U h.bus) ((h.withTlb t).translate k a n)
      ((h.withTlb t').translate k a n) := by
  have hl := hr.sameLookup hc ht ht'
  unfold Hart.translate
  split_ifs
  · exact .ok h ht ht' _
  · generalize (h.withTlb t).tlbe a = r at hl ⊢
    generalize (h.withTlb t').tlbe a = r' at hl ⊢
    cases hl with
    | none ht₁ ht₁' => exact .ok h ht₁ ht₁' _
    | @some t₁ t₁' e e' ht₁ ht₁' he =>
      have hd (t : Sv39 32) : (h.withTlb t).dataPriv = h.dataPriv := rfl
      have hst (t : Sv39 32) : (h.withTlb t).status = h.status := rfl
      simp only [bind, Except.bind, hd, hst, hk _ e e' he.leaf, he.u, he.pa]
      split_ifs
      · exact .ok h ht₁ ht₁' _
      · exact .ok h ht₁ ht₁' _
      · exact .ok h ht₁ ht₁' _
      · exact .ok h ht₁ ht₁' _

theorem Ready.vaAccess (hr : Ready U h) (hu : h.untranslated = false) (hk : LeafOnly k)
    (hc : canonical a = true) {access : Hart δ → Word → Outcome (Hart δ × Option α)}
    (hb : Blind access) (ht : Sync U h.bus t) (ht' : Sync U h.bus t') :
    SameResult (Sync U h.bus) (Sync U h.bus) ((h.withTlb t).vaAccess k a n access)
      ((h.withTlb t').vaAccess k a n access) := by
  have hu' (t : Sv39 32) : (h.withTlb t).untranslated = false := hu
  rw [Hart.vaAccess, Hart.vaAccess, hu', hu', if_neg Bool.false_ne_true, if_neg Bool.false_ne_true]
  refine (hr.translate hk hc ht ht').bind fun h₁ t₁ t₁' r _ ht₁ ht₁' => ?_
  cases r with
  | error e => exact .ok h₁ ht₁ ht₁' _
  | ok pa => exact (hb.same h₁ pa ht₁ ht₁').orFault _

omit [MmioDev δ] in
theorem vaAccess_withTlb [MmioDev δ] (hu : h.untranslated = true)
    {access : Hart δ → Word → Outcome (Hart δ × Option α)} (hb : Blind access) (t : Sv39 32) :
    (h.withTlb t).vaAccess k a n access =
      (h.vaAccess k a n access).map fun r => (r.1.withTlb t, r.2) := by
  have hu' : (h.withTlb t).untranslated = true := hu
  rw [Hart.vaAccess, Hart.vaAccess, hu, hu', if_pos rfl, if_pos rfl, hb h t a]
  cases access h a <;> rfl

/-- Whether fetches are translated. -/
def FetchTranslates (h : Hart δ) : Prop := ¬(h.curPriv = Priv.m ∨ Satp.mode h.satp = 0)

theorem Ready.vaIfPart (hr : Ready U h) (hu : FetchTranslates h) (hc : canonical a = true)
    (ht : Sync U h.bus t) (ht' : Sync U h.bus t') :
    SameResult (Sync U h.bus) (Sync U h.bus) ((h.withTlb t).vaIfPart a n)
      ((h.withTlb t').vaIfPart a n) := by
  have hl := hr.sameLookup hc ht ht'
  have hu' (t : Sv39 32) :
      ¬((h.withTlb t).curPriv = Priv.m ∨ Satp.mode (h.withTlb t).satp = 0) := hu
  rw [Hart.vaIfPart, Hart.vaIfPart, if_neg (hu' t), if_neg (hu' t')]
  split_ifs
  · exact .ok h ht ht' _
  · generalize (h.withTlb t).tlbe a = r at hl ⊢
    generalize (h.withTlb t').tlbe a = r' at hl ⊢
    cases hl with
    | none ht₁ ht₁' => exact .ok h ht₁ ht₁' _
    | @some t₁ t₁' e e' ht₁ ht₁' he =>
      have hp (t : Sv39 32) : (h.withTlb t).curPriv = h.curPriv := rfl
      simp only [bind, Except.bind, hp, he.accessed, he.x, he.u, he.pa]
      split_ifs
      · exact .ok h ht₁ ht₁' _
      · exact .ok h ht₁ ht₁' _
      · exact .ok { h with bus := (h.bus.paRead (e'.pa a) n).1 } ht₁ ht₁' _

/-- The second half of a fetch starts like the first one. -/
theorem Ready.vaIf (hr : Ready U h) (hu : FetchTranslates h)
    (hc : ∀ x ∈ (MemOp.fetch a n : MemOp δ).addrs, canonical x = true) (ht : Sync U h.bus t)
    (ht' : Sync U h.bus t') :
    SameResult (Sync U h.bus) (Sync U h.bus) ((h.withTlb t).vaIf a n)
      ((h.withTlb t').vaIf a n) := by
  unfold Hart.vaIf
  by_cases hn : n = 4 ∧ a % 4 = 2
  · rw [if_pos hn, if_pos hn]
    rw [MemOp.addrs, if_pos hn] at hc
    refine (hr.vaIfPart hu (hc a (by simp)) ht ht').bind fun h₁ t₁ t₁' r he ht₁ ht₁' => ?_
    obtain ⟨t₂, ht₂⟩ := RvCore.State.vaIfPart_refilled hr.pure he
    obtain ⟨t₃, rfl⟩ : ∃ t₃, h₁ = h.withTlb t₃ := by
      refine ⟨h₁.sv39, ?_⟩
      calc h₁ = (h₁.withTlb t₁).withTlb h₁.sv39 := rfl
        _ = h.withTlb h₁.sv39 := by rw [ht₂]; rfl
    cases r with
    | error e => exact .ok _ ht₁ ht₁' _
    | ok lo =>
      refine (hr.vaIfPart hu (hc (a + 2) (by simp)) ht₁ ht₁').bind fun h₂ t₂ t₂' r _ ht₂ ht₂' => ?_
      cases r with
      | error e => exact .ok h₂ ht₂ ht₂' _
      | ok hi => exact .ok h₂ ht₂ ht₂' _
  · rw [if_neg hn, if_neg hn]
    rw [MemOp.addrs, if_neg hn] at hc
    refine (hr.vaIfPart hu (hc a (by simp)) ht ht').bind fun h₁ t₁ t₁' r _ ht₁ ht₁' => ?_
    cases r with
    | error e => exact .ok h₁ ht₁ ht₁' _
    | ok buffer => exact .ok h₁ ht₁ ht₁' _

end Lookup

section Perform

variable [MmioDev δ]

theorem leafOnly_readKind : LeafOnly readKind := by
  intro m e e' h
  have ha : e.a = e'.a := congrArg Leaf.a h
  have hr : e.r = e'.r := congrArg Leaf.r h
  have hx : e.x = e'.x := congrArg Leaf.x h
  simp only [readKind, ha, hr, hx]

theorem leafOnly_writeKind : LeafOnly writeKind := by
  intro m e e' h
  have ha : e.a = e'.a := congrArg Leaf.a h
  have hd : e.d = e'.d := congrArg Leaf.d h
  have hw : e.w = e'.w := congrArg Leaf.w h
  simp only [writeKind, ha, hd, hw]

theorem leafOnly_lrKind : LeafOnly lrKind := leafOnly_readKind

/-- A data access of the core: its kind and its operation on the bus. -/
inductive DataOp (cfg : Config) (a n : Word) : MemOp δ → Prop
  | mk {α : Type} {op : MemOp δ} {k : AccessKind}
    {access : Hart δ → Word → Outcome (Hart δ × Option α)} {f : α → Word} (hk : LeafOnly k)
    (hb : Blind access) (ha : op.addrs = [a])
    (ht : ∀ h : Hart δ, Translates h op ↔ h.untranslated = false)
    (hp : ∀ h : Hart δ, perform cfg h op = (h.vaAccess k a n access).map (reply a f)) :
    DataOp cfg a n op

/-- The operations of the core: a fetch, a data access, or an atomic of a wrong size. -/
inductive CoreOp (cfg : Config) : MemOp δ → Prop
  | fetch (a n : Word) : CoreOp cfg (.fetch a n)
  | data {a n : Word} {op : MemOp δ} (hd : DataOp cfg a n op) : CoreOp cfg op
  | abort {op : MemOp δ} {e : Halt} (hp : ∀ h : Hart δ, perform cfg h op = .error e) : CoreOp cfg op
  | sfence (vaddr asid : Word) : CoreOp cfg (.sfence vaddr asid)
  | set (s : State) (satp : Word) (bus : Systembus δ) : CoreOp cfg (.set s satp bus)

theorem coreOp (cfg : Config) (op : MemOp δ) : CoreOp cfg op := by
  cases op with
  | fetch a n => exact .fetch a n
  | sfence vaddr asid => exact .sfence vaddr asid
  | set s satp bus => exact .set s satp bus
  | read a n =>
    exact .data (.mk leafOnly_readKind (fun _ _ _ => rfl) rfl (fun _ => Iff.rfl) fun _ => rfl)
  | write a n v =>
    refine .data (.mk (a := a) (n := n) leafOnly_writeKind ?_ rfl (fun _ => Iff.rfl) fun _ => rfl)
    intro h t pa
    beta_reduce
    by_cases hx : cfg.runRiscvTest ∧ pa = 0x80001000 ∧ v = 1
    · rw [if_pos hx, if_pos hx]
      rfl
    · rw [if_neg hx, if_neg hx]
      rfl
  | lr a n =>
    by_cases hn : n = 4 ∨ n = 8
    · have hb : Blind fun (h : Hart δ) pa => .ok (h.withBus (h.bus.paLr pa n h.hartId)) :=
        fun _ _ _ => rfl
      refine .data (.mk (a := a) (n := n) (f := id) leafOnly_lrKind hb rfl (fun _ => Iff.rfl)
        fun h => ?_)
      change (h.vaLr a n).map _ = _
      rw [vaLr, if_neg (not_not_intro hn)]
    · refine .abort (e := .abort .vaLr) fun h => ?_
      change (h.vaLr a n).map _ = _
      rw [vaLr, if_pos hn]
      rfl
  | sc a n v =>
    by_cases hn : n = 4 ∨ n = 8
    · have hb : Blind fun (h : Hart δ) pa => .ok (h.withBus (h.bus.paSc pa n v h.hartId)) :=
        fun _ _ _ => rfl
      refine .data (.mk (a := a) (n := n) (f := fun scFail => if scFail then 1 else 0)
        leafOnly_writeKind hb rfl (fun _ => Iff.rfl) fun h => ?_)
      change (h.vaSc a n v).map _ = _
      rw [vaSc, if_neg (not_not_intro hn)]
    · refine .abort (e := .abort .vaSc) fun h => ?_
      change (h.vaSc a n v).map _ = _
      rw [vaSc, if_pos hn]
      rfl
  | amo a n op src =>
    by_cases hn : n = 4 ∨ n = 8
    · have hb : Blind fun (h : Hart δ) pa => (h.bus.paAmoOp pa n op src).map h.withBus := by
        intro h t pa
        change (h.bus.paAmoOp pa n op src).map _ = ((h.bus.paAmoOp pa n op src).map _).map _
        cases h.bus.paAmoOp pa n op src <;> rfl
      refine .data (.mk (a := a) (n := n) (f := id) leafOnly_writeKind hb rfl (fun _ => Iff.rfl)
        fun h => ?_)
      change (h.vaAmo a n op src).map _ = _
      rw [vaAmo, if_neg (not_not_intro hn)]
    · refine .abort (e := .abort .vaAmo) fun h => ?_
      change (h.vaAmo a n op src).map _ = _
      rw [vaAmo, if_pos hn]
      rfl

variable {op : MemOp δ}

theorem Ready.perform (hr : Ready U h) (cfg : Config) (hu : Translates h op)
    (hc : ∀ x ∈ op.addrs, canonical x = true) (ht : Sync U h.bus t) (ht' : Sync U h.bus t') :
    SameResult (Sync U h.bus) (Sync U h.bus) ((h.withTlb t).perform cfg op)
      ((h.withTlb t').perform cfg op) := by
  cases coreOp cfg op with
  | fetch a n => exact hr.vaIf hu hc ht ht'
  | @data a n op hd =>
    obtain ⟨hk, hb, ha, hiff, hp⟩ := hd
    rw [hp, hp]
    exact (hr.vaAccess ((hiff h).mp hu) hk (hc a (by simp [ha])) hb ht ht').reply a _
  | abort hp =>
    rw [hp, hp]
    exact .error _
  | sfence | set => exact hu.elim

theorem vaIf_withTlb (hu : ¬ FetchTranslates h) (t : Sv39 32) : (h.withTlb t).vaIf a n =
    (h.vaIf a n).map fun r => (r.1.withTlb t, r.2) := by
  have hpart (h : Hart δ) (hu : h.curPriv = Priv.m ∨ Satp.mode h.satp = 0) (a n : Word) :
      h.vaIfPart a n = .ok (orFault .instAccessFault (h.withBus (h.bus.paRead a n))) := if_pos hu
  have hu : h.curPriv = Priv.m ∨ Satp.mode h.satp = 0 := not_not.mp hu
  unfold Hart.vaIf
  by_cases hn : n = 4 ∧ a % 4 = 2
  · rw [if_pos hn, if_pos hn, hpart _ hu, hpart (h.withTlb t) hu]
    have hbus (h : Hart δ) : (h.withTlb t).bus = h.bus := rfl
    rcases hr : h.bus.paRead a 2 with ⟨b, _ | lo⟩
    · simp only [bind, Except.bind, orFault, withBus, hbus, hr]
      rfl
    · simp only [bind, Except.bind, orFault, withBus, hbus, hr]
      rw [hpart { h with bus := b } hu, hpart { h.withTlb t with bus := b } hu]
      simp only [orFault, withBus]
      rcases b.paRead (a + 2) 2 with ⟨b', _ | hi⟩ <;> rfl
  · rw [if_neg hn, if_neg hn, hpart _ hu, hpart (h.withTlb t) hu]
    have hbus (h : Hart δ) : (h.withTlb t).bus = h.bus := rfl
    simp only [bind, Except.bind, orFault, withBus, hbus]
    rcases h.bus.paRead a n with ⟨b, _ | buffer⟩ <;> rfl

theorem perform_withTlb (hu : ¬ Translates h op) (hs : ∀ vaddr asid, op ≠ .sfence vaddr asid)
    (cfg : Config) (t : Sv39 32) : (h.withTlb t).perform cfg op =
      (h.perform cfg op).map fun r => (r.1.withTlb t, r.2) := by
  cases coreOp cfg op with
  | fetch a n => exact vaIf_withTlb hu t
  | @data a n op hd =>
    obtain ⟨hk, hb, ha, hiff, hp⟩ := hd
    have hu : h.untranslated = true := Bool.eq_true_of_not_eq_false fun hf => hu ((hiff h).mpr hf)
    rw [hp, hp, vaAccess_withTlb hu hb t]
    cases h.vaAccess _ a n _ <;> rfl
  | abort hp =>
    rw [hp, hp]
    rfl
  | sfence vaddr asid => exact absurd rfl (hs vaddr asid)
  | set s satp bus => rfl

end Perform

section Run

variable [MmioDev δ] {n : ℕ}

/-- The steps of a hart. -/
def Steps (f : Hart δ → MemOp δ → Outcome (Hart δ × Reply)) (h : Hart δ) (op : MemOp δ)
    (r : Reply) (h' : Hart δ) : Prop := f h op = .ok (h', r)

variable (r : Temporal.Trace (Steps (performFenced (δ := δ) cfg)) n)

/-- The operations of a run that are translated. -/
def Looks (k : ℕ) : Prop := k < n ∧ Translates (r.st k) (r.inp k)

/-- The values of `satp` that are used. -/
def Used : Set Word := {satp | ∃ k, Looks r k ∧ (r.st k).satp = satp}

/-- An operation that changes a translation in use. -/
def Remaps (k : ℕ) : Prop :=
  ∃ satp ∈ Used r, walk (r.st k).bus satp ≠ walk (r.st (k + 1)).bus satp

/-- A full fence, in a mode that may fence. -/
def Fences (k : ℕ) : Prop := r.inp k = .sfence 0 0 ∧ r.out k = .ok 0

/-- A translation in use has been changed without a full fence since. -/
def Stale (k : ℕ) : Prop := Temporal.Since (Remaps r) (fun w => ¬ Fences r w) k

/-- What software has to keep to. -/
structure Disciplined : Prop where
  canonical : ∀ k, Looks r k → ∀ x ∈ (r.inp k).addrs, canonical x = true
  root : ∀ satp ∈ Used r, ∀ satp' ∈ Used r, Satp.asid satp = Satp.asid satp' →
    Satp.mode satp = Satp.mode satp' ∧ Satp.ppn satp = Satp.ppn satp'
  global : ∀ k, Looks r k → ∀ satp ∈ Used r, ∀ satp' ∈ Used r, ∀ va l,
    walk (r.st k).bus satp va = some l → l.g = true → walk (r.st k).bus satp' va = some l
  fence : ∀ k, Looks r k → ¬ Stale r k

/-- What a run keeps of the buffer. -/
structure Kept (k : ℕ) (t : Sv39 32) : Prop where
  unique : scheme.Unique t.entries
  tagged : scheme.Tagged (Used r) t.entries
  agrees : ¬ Stale r k → scheme.Agrees (Used r) (walk (r.st k).bus) t.entries

variable {r} {k : ℕ}

theorem stale_succ : Stale r (k + 1) ↔ Remaps r k ∨ Stale r k ∧ ¬ Fences r k := Temporal.since_succ

theorem walk_succ (hs : ¬ Stale r (k + 1)) : ∀ satp ∈ Used r,
    walk (r.st k).bus satp = walk (r.st (k + 1)).bus satp := by
  intro satp hU
  by_contra hne
  exact hs (stale_succ.mpr (.inl ⟨satp, hU, hne⟩))

theorem Kept.agrees_succ (h : Kept r k t) (hf : ¬ Fences r k) (hs : ¬ Stale r (k + 1)) :
    scheme.Agrees (Used r) (walk (r.st (k + 1)).bus) t.entries :=
  (h.agrees fun hk => hs (stale_succ.mpr (.inr ⟨hk, hf⟩))).congr (walk_succ hs)

theorem Disciplined.ready (hd : Disciplined r) (hp : PureReads δ) (hk : Looks r k) :
    Ready (Used r) (r.st k) where
  pure := hp
  source := by
    refine ⟨fun s a a' v h hv => ?_, fun s s' hs hs' ht => ?_, fun s s' a v hs hs' hg h => ?_⟩
    · obtain ⟨pte, j, -, -, rfl, hc⟩ := walk_eq_some h
      exact hc a' hv
    · obtain ⟨hm, hp⟩ := hd.root s hs s' hs' ht
      funext a
      rw [walk, walk, ptw, ptw, hm, hp]
    · exact hd.global k hk s hs s' hs' a v h hg
  satp := ⟨k, hk, rfl⟩

theorem sync_sfenceVma (U : Set Word) (b : Systembus δ) (t : Sv39 32) :
    Sync U b (t.sfenceVma 0 0) := by
  have hno {i : Fin 32} {e} (h : (t.sfenceVma 0 0).entries i = some e) : False := by
    rw [entries_sfenceVma] at h
    cases h
  exact ⟨fun _ _ _ _ _ _ h => (hno h).elim, fun _ _ h => (hno h).elim,
    fun _ _ _ _ h => (hno h).elim⟩

omit [MmioDev δ] in
theorem SameResult.exists_of_ok {α : Type} {x : Outcome (Hart δ × α)} {h' : Hart δ} {v : α}
    (hx : SameResult P Q x (.ok (h', v))) : ∃ t, P t ∧ x = .ok (h'.withTlb t, v) := by
  generalize hy : (.ok (h', v) : Outcome (Hart δ × α)) = y at hx
  cases hx with
  | ok h ht ht' a =>
    obtain ⟨rfl, rfl⟩ := Prod.mk.inj (Except.ok.inj hy)
    exact ⟨_, ht, rfl⟩
  | error e => cases hy

theorem Kept.sfence (h : Kept r k t) (hk : k < n) {vaddr asid : Word}
    (ho : r.inp k = .sfence vaddr asid) :
    ∃ t', ((r.st k).withTlb t).perform cfg (r.inp k) = .ok ((r.st (k + 1)).withTlb t', r.out k) ∧
      Kept r (k + 1) t' := by
  have hs : ((r.st k).withTlb ((r.st k).sv39.sfenceVma 0 0)).perform cfg (r.inp k) =
    .ok (r.st (k + 1), r.out k) := r.step k hk
  have hperm (t : Sv39 32) : ((r.st k).withTlb t).perform cfg (.sfence vaddr asid) =
      if (r.st k).curPriv.ult Priv.s || ((r.st k).curPriv == Priv.s && (r.st k).status.getLsbD 20)
        then .ok ((r.st k).withTlb t, .error (.illegalInst, 0))
      else .ok ((r.st k).withTlb (t.sfenceVma vaddr asid), .ok 0) := by
    have hx : ((r.st k).withTlb t).sfenceVma vaddr asid =
        if (r.st k).curPriv.ult Priv.s ||
          ((r.st k).curPriv == Priv.s && (r.st k).status.getLsbD 20) then none
        else some ((r.st k).withTlb (t.sfenceVma vaddr asid)) := rfl
    rw [perform, hx]
    split_ifs <;> rfl
  rw [ho, hperm] at hs
  rw [ho, hperm]
  split_ifs at hs ⊢ with hc
  · obtain ⟨h', hout⟩ := Prod.mk.inj (Except.ok.inj hs)
    have hf : ¬ Fences r k := fun hf => by
      rw [Fences, ← hout] at hf
      cases hf.2
    rw [← h', ← hout]
    refine ⟨t, rfl, h.unique, h.tagged, fun hst => ?_⟩
    exact h.agrees_succ hf hst
  · obtain ⟨h', hout⟩ := Prod.mk.inj (Except.ok.inj hs)
    have hfew := fewer_sfenceVma t vaddr asid
    rw [← h', ← hout]
    refine ⟨t.sfenceVma vaddr asid, rfl, h.unique.fewer hfew, h.tagged.fewer hfew, fun hst => ?_⟩
    by_cases hz : vaddr = 0 ∧ asid = 0
    · obtain ⟨rfl, rfl⟩ := hz
      intro i e s a he
      rw [entries_sfenceVma] at he
      cases he
    · refine (h.agrees_succ (fun hf => hz ?_) hst).fewer hfew
      exact MemOp.sfence.inj (ho.symm.trans hf.1)

/-- One operation: the hart with the buffer follows the one that fences. -/
theorem Kept.step (h : Kept r k t) (hp : PureReads δ) (hd : Disciplined r) (hk : k < n) :
    ∃ t', ((r.st k).withTlb t).perform cfg (r.inp k) = .ok ((r.st (k + 1)).withTlb t', r.out k) ∧
      Kept r (k + 1) t' := by
  have hs : ((r.st k).withTlb ((r.st k).sv39.sfenceVma 0 0)).perform cfg (r.inp k) =
    .ok (r.st (k + 1), r.out k) := r.step k hk
  by_cases hu : Translates (r.st k) (r.inp k)
  · have hl : Looks r k := ⟨hk, hu⟩
    have hsync : Sync (Used r) (r.st k).bus t := ⟨h.unique, h.tagged, h.agrees (hd.fence k hl)⟩
    have hsame := (hd.ready hp hl).perform cfg hu (hd.canonical k hl) hsync
      (sync_sfenceVma _ _ (r.st k).sv39)
    rw [hs] at hsame
    obtain ⟨t', ht', he⟩ := hsame.exists_of_ok
    exact ⟨t', he, ht'.unique, ht'.tagged, fun hs => ht'.agrees.congr (walk_succ hs)⟩
  by_cases ho : ∃ vaddr asid, r.inp k = .sfence vaddr asid
  · obtain ⟨vaddr, asid, ho⟩ := ho
    exact h.sfence hk ho
  · have hno : ∀ vaddr asid, r.inp k ≠ .sfence vaddr asid := fun v a he => ho ⟨v, a, he⟩
    rw [perform_withTlb hu hno] at hs ⊢
    cases hx : (r.st k).perform cfg (r.inp k) with
    | error e =>
      rw [hx] at hs
      cases hs
    | ok x =>
      rw [hx] at hs
      obtain ⟨h', hout⟩ := Prod.mk.inj (Except.ok.inj hs)
      rw [← h', ← hout]
      refine ⟨t, rfl, h.unique, h.tagged, ?_⟩
      exact h.agrees_succ fun hf => hno 0 0 hf.1

/-- The next state of a hart, if no assertion fails. -/
def next (f : Hart δ → MemOp δ → Outcome (Hart δ × Reply)) (h : Hart δ) (op : MemOp δ) :
    Hart δ × Reply :=
  match f h op with
  | .ok r => r
  | .error _ => (h, .ok 0)

theorem kept_init (t : Sv39 32) : Kept r 0 t.init := by
  have hno {i : Fin 32} {e} (h : t.init.entries i = some e) : False := by
    rw [entries_init] at h
    cases h
  exact ⟨fun _ _ _ _ _ _ h => (hno h).elim, fun _ _ h => (hno h).elim,
    fun _ _ _ _ _ h => (hno h).elim⟩

/-- The table of `tableBus` is cleared between two reads of a page, and fenced. -/
def remapOps (k : ℕ) : MemOp MmioMem :=
  [.read 0 8, .set (tableHart tableBus 0).toState tableSatp clearedBus, .sfence 0 0].getD k
    (.read 0 8)

def remapTrace : Temporal.Trace (Steps (performFenced (δ := MmioMem) ⟨false, false⟩)) 4 :=
  .follow (next (performFenced ⟨false, false⟩)) remapOps (tableHart tableBus 0) 4 fun k hk => by
    rcases k with _ | _ | _ | _ | k
    · rfl
    · rfl
    · rfl
    · rfl
    · omega

theorem looks_remapTrace {k : ℕ} (h : Looks remapTrace k) : k = 0 ∨ k = 3 := by
  obtain ⟨hk, hu⟩ := h
  rcases k with _ | _ | _ | _ | k
  · exact .inl rfl
  · exact hu.elim
  · exact hu.elim
  · exact .inr rfl
  · omega

theorem used_remapTrace {satp : Word} (h : satp ∈ Used remapTrace) : satp = tableSatp := by
  obtain ⟨k, hk, rfl⟩ := h
  rcases looks_remapTrace hk with rfl | rfl
  · rfl
  · rfl

theorem disciplined_remapTrace : Disciplined remapTrace where
  canonical k hk x hx := by
    have ha : (remapTrace.inp k).addrs = [0] := by
      rcases looks_remapTrace hk with rfl | rfl <;> rfl
    rw [ha, List.mem_singleton] at hx
    rw [hx]
    decide
  root satp h satp' h' _ := by
    rw [used_remapTrace h, used_remapTrace h']
    exact ⟨rfl, rfl⟩
  global k _ satp h satp' h' va l hl _ := by
    rwa [used_remapTrace h', ← used_remapTrace h]
  fence k hk := by
    rcases looks_remapTrace hk with rfl | rfl
    · exact Temporal.not_since_zero
    · rintro hs
      rcases stale_succ.mp hs with ⟨satp, -, hne⟩ | ⟨-, hf⟩
      · exact hne rfl
      · exact hf ⟨rfl, rfl⟩

end Run

end PuaCpu.RvPriv.Hart
