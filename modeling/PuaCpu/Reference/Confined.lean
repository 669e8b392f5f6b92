import PuaCpu.Reference.Causes

/-! # User mode

An instruction in user mode changes none of the machine CSRs, except for the counters
and the pending interrupts. User mode is left by a trap only, to the handler that
machine mode has set up.
-/

namespace PuaCpu

namespace RvPriv

/-- The CSRs that only machine mode writes. -/
structure MachineCsrs where
  status : Word
  misa : Word
  medeleg : Word
  mideleg : Word
  ie : Word
  mtvec : Word
  mscratch : Word
  mepc : Word
  mcause : Word
  mtval : Word
  mcounteren : Word
  stvec : Word
  sscratch : Word
  sepc : Word
  scause : Word
  stval : Word
  satp : Word
  scounteren : Word
  hartId : Word

def Hart.machineCsrs {δ : Type} (h : Hart δ) : MachineCsrs where
  status := h.status
  misa := h.misa
  medeleg := h.medeleg
  mideleg := h.mideleg
  ie := h.ie
  mtvec := h.mtvec
  mscratch := h.mscratch
  mepc := h.mepc
  mcause := h.mcause
  mtval := h.mtval
  mcounteren := h.mcounteren
  stvec := h.stvec
  sscratch := h.sscratch
  sepc := h.sepc
  scause := h.scause
  stval := h.stval
  satp := h.satp
  scounteren := h.scounteren
  hartId := h.hartId

/-- The status after a trap from user mode. -/
def userTrapStatus (status : Word) : Word :=
  let status' := Bits.set (Bits.set status mpie (status.extractLsb' mie 1)) mie 0#1
  Bits.set status' mpp Priv.u

/-- The CSRs after a trap from user mode. -/
def MachineCsrs.trapped (c : MachineCsrs) (pc : Word) (cause : Cause) (tval : Word) : MachineCsrs :=
  { c with status := userTrapStatus c.status, mepc := pc, mcause := cause.toWord, mtval := tval }

end RvPriv

namespace RvCore.State

open RvPriv

variable {δ : Type} {cfg : Config} {l : Lines} {s s' : State δ}

/-- The next instruction is executed in user mode. -/
structure User (s : State δ) : Prop where
  nextPriv : s.priv.nextPriv = Priv.u
  curPriv : s.priv.curPriv = Priv.u ∨ s.difftestMode = false

/-- A trap from user mode has entered the handler of machine mode. -/
structure Entered (s s' : State δ) (cause : Cause) (tval : Word) : Prop where
  raised : s'.priv.raised = [(cause, tval)]
  nextPriv : s'.priv.nextPriv = Priv.m
  csrs : s'.priv.machineCsrs = s.priv.machineCsrs.trapped s.pc cause tval
  pc : s'.pc = vector s.priv.mtvec (s.priv.mtvec.extractLsb' 0 2 != 0#2) cause.cause

section Step

/-- A step in user mode. -/
inductive UserStep (cfg : Config) (l : Lines) (s : State δ) : State δ → Prop
  | trap {t : RvPriv.State} (ht : Sampled l s.priv.toState t) (hu : t.curPriv = Priv.u)
    (b : Systembus δ) (inst : RvInstr) (isBranch : Bool) (cause : Cause) (tval : Word) :
    UserStep cfg l s ({ s.entered t b with
      debugInst := inst, debugIsBranch := isBranch }.trapped cause tval)
  | complete {t : RvPriv.State} (ht : Sampled l s.priv.toState t) (hu : t.curPriv = Priv.u)
    (b : Systembus δ) {s' : State δ} (hp : HartStep cfg (s.entered t b).priv s'.priv)
    (npc : Word) : UserStep cfg l s (s'.retire npc)

theorem user_step [MmioDev δ] (hi : s.Inv) (hu : s.User) (hs : s.step cfg l = .ok s') :
    UserStep cfg l s s' := by
  obtain ⟨hn, hc | hd⟩ := hu
  · have he : Ends cfg l s (s.step cfg l) := step_ends hi
    rw [hs] at he
    cases he with
    | @trap t b ht _ inst br cause tval =>
      exact .trap ht (by cases ht <;> assumption) b inst br cause tval
    | @complete t b ht _ s₂ _ hp npc =>
      exact .complete ht (by cases ht <;> assumption) b hp npc
  · cases step_takes hi hd hs with
    | interrupt => exact .trap .sampled hn s.priv.bus s.debugInst false _ 0
    | exception _ b inst br x _ tval => exact .trap .sampled hn b inst br _ tval
    | complete _ b hp npc => exact .complete .sampled hn b hp npc

/-- An instruction in user mode can only move the program counter and use the bus. -/
theorem HartStep.user {h h' : Hart δ} (hp : HartStep cfg h h') (hu : h.curPriv = Priv.u) :
    h'.machineCsrs = h.machineCsrs ∧ h'.curPriv = h.curPriv ∧ h'.nextPriv = h.nextPriv := by
  have hne : Priv.u ≠ Priv.m := by decide
  cases hp with
  | mem pc b hb => exact ⟨rfl, rfl, rfl⟩
  | csr csrIndex data s hm => exact absurd (hu.symm.trans hm) hne
  | mret hm => exact absurd (hu.symm.trans hm) hne
  | sret _ hs =>
    rw [Hart.sret, hu] at hs
    cases hs
  | sfence t => exact ⟨rfl, rfl, rfl⟩

theorem UserStep.entered (hi : s.Inv) (h : UserStep cfg l s s') (hr : s'.priv.raised ≠ []) :
    ∃ cause tval, Entered s s' cause tval := by
  cases h with
  | @trap t ht hu b inst br cause tval =>
    have he : trapEntry t cause tval = raiseTrapM { t with curNeedTrap := true } cause tval :=
      (hi.priv.sampled ht b []).trapEntry_eq cause tval
    refine ⟨cause, tval, rfl, ?_, ?_, ?_⟩
    · change (trapEntry t cause tval).nextPriv = _
      rw [he]
      rfl
    · change ({ s.priv with toState := trapEntry t cause tval } : Hart δ).machineCsrs = _
      rw [he, MachineCsrs.trapped, userTrapStatus, ← hu]
      cases ht <;> rfl
    · change (trapEntry t cause tval).trapPc = _
      rw [he]
      cases ht <;> rfl
  | complete ht hu b hp npc =>
    exact absurd hp.kept.1 hr

theorem UserStep.user (hu : s.User) (h : UserStep cfg l s s') (hr : s'.priv.raised = []) :
    s'.User ∧ s'.priv.machineCsrs = s.priv.machineCsrs := by
  cases h with
  | trap => exact absurd hr (trapped_raised _ _ _)
  | @complete t ht hc b s₂ hp npc =>
    obtain ⟨hk, hcur, hnext⟩ := hp.user hc
    have h0 : (s.entered t b).priv.machineCsrs = s.priv.machineCsrs := by
      cases ht <;> rfl
    have ht' : t.nextPriv = Priv.u := by
      cases ht <;> exact hu.nextPriv
    exact ⟨⟨hnext.trans ht', .inl (hcur.trans hc)⟩, hk.trans h0⟩

end Step

section Run

variable [MmioDev δ] {n : ℕ}

theorem reachable_steps (r : Temporal.Trace (Steps (δ := δ) cfg) n) (h0 : Reachable cfg (r.st 0)) :
    ∀ t ≤ n, Reachable cfg (r.st t) := by
  intro t ht
  induction t with
  | zero => exact h0
  | succ t ih => exact .step (.bus (ih (by omega)) (r.inp t).1) _ (r.step t (by omega)).1

/-- **User mode is confined**: in a run from user mode no step changes a machine CSR or leaves user
mode until one raises a trap. That step enters the handler, and saves where it came from. -/
theorem user_confined (r : Temporal.Trace (Steps (δ := δ) cfg) n) (h0 : Reachable cfg (r.st 0))
    (hu : (r.st 0).User) : ∀ t ≤ n, (∀ u < t, r.out u = []) → (r.st t).User ∧
      (r.st t).priv.machineCsrs = (r.st 0).priv.machineCsrs ∧
      (t < n → r.out t ≠ [] → ∃ cause tval, Entered (r.st t) (r.st (t + 1)) cause tval) := by
  have hstep (t : ℕ) (ht : t < n) (hu : (r.st t).User) :
      UserStep cfg (r.inp t).2 ((r.st t).onBus (r.inp t).1) (r.st (t + 1)) := by
    have hi := (Reachable.bus (reachable_steps r h0 t ht.le) (r.inp t).1).inv
    exact user_step hi ⟨hu.nextPriv, hu.curPriv⟩ (r.step t ht).1
  intro t ht hq
  have hkept : (r.st t).User ∧ (r.st t).priv.machineCsrs = (r.st 0).priv.machineCsrs := by
    induction t with
    | zero => exact ⟨hu, rfl⟩
    | succ t ih =>
      obtain ⟨hu, hk⟩ := ih (by omega) fun u hu => hq u (by omega)
      have hr := (r.step t (by omega)).2.symm.trans (hq t (by omega))
      obtain ⟨hu', hk'⟩ := UserStep.user (s := (r.st t).onBus (r.inp t).1)
        ⟨hu.nextPriv, hu.curPriv⟩ (hstep t (by omega) hu) hr
      exact ⟨hu', hk'.trans hk⟩
  refine ⟨hkept.1, hkept.2, fun ht hr => ?_⟩
  have hi := (Reachable.bus (reachable_steps r h0 t ht.le) (r.inp t).1).inv
  obtain ⟨cause, tval, he⟩ := (hstep t ht hkept.1).entered hi fun h =>
    hr ((r.step t ht).2.trans h)
  exact ⟨cause, tval, he.raised, he.nextPriv, he.csrs, he.pc⟩

/-- `auipc x5, 0`, `addi x5, x5, 16`, `csrw mepc, x5` and `mret`, and then `nop` and `ecall` in
user mode. -/
def callImage : Bytes.Memory 64 := fun a =>
  let word : BitVec 32 :=
    match a.toNat / 4 with
    | 0 => 0x00000297
    | 1 => 0x01028293
    | 2 => 0x34129073
    | 3 => 0x30200073
    | 4 => 0x00000013
    | _ => 0x00000073
  (word >>> (8 * (a.toNat % 4))).setWidth 8

/-- The core behind the `mret`. -/
def callCore : State MmioMem :=
  match (Test.core ⟨true, false⟩ callImage default).run ⟨true, false⟩ [{}, {}, {}, {}] with
  | .ok s => s
  | .error _ => default

theorem reachable_callCore : Reachable ⟨true, false⟩ callCore := by
  have hr : Reachable ⟨true, false⟩ (Test.core ⟨true, false⟩ callImage default) := .jump (.new _) _
  exact (((hr.step {} rfl).step {} rfl).step {} rfl).step {} rfl

/-- The two steps in user mode. -/
def callRun : Temporal.Trace (Steps (δ := MmioMem) ⟨true, false⟩) 2 :=
  .follow (next ⟨true, false⟩) (fun _ => (Test.bus callImage default, {})) callCore 2 fun t ht => by
    obtain rfl | rfl : t = 0 ∨ t = 1 := by omega
    · exact steps_next rfl
    · exact steps_next rfl

/-- The call enters the handler. -/
theorem user_confined_ecall : (∃ cause tval, Entered (callRun.st 1) (callRun.st 2) cause tval) ∧
    (callRun.st 2).priv.mcause = 8 := by
  have hq : ∀ u < 1, callRun.out u = [] := by
    intro u hu
    obtain rfl : u = 0 := by omega
    rfl
  refine ⟨(user_confined callRun reachable_callCore ⟨rfl, .inr rfl⟩ 1 (by decide) hq).2.2
    (by decide) ?_, rfl⟩
  exact List.cons_ne_nil _ _

end Run

end RvCore.State

end PuaCpu
