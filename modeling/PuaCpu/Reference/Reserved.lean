import PuaCpu.Reference.Run

/-! # Writes of reserved values

A CSR instruction that writes is applied, legalised or an illegal instruction,
and no step violates an assertion. A write of `mtvec` with a reserved mode is the
exception: it ends the simulator, where a write of a reserved `MPP` is legalised.
-/

namespace PuaCpu.RvCore.State

open RvPriv

variable {δ : Type} {cfg : Config} {l : Lines} {s s' : State δ} {inst : RvInstr}

/-- How a CSR instruction that writes may end a step that reached it in the state `s`. -/
def CsrSettled (cfg : Config) (s : State δ) (inst : RvInstr) (s' : State δ) : Prop :=
  s'.priv.raised = [(.exc .illegalInst, inst.setWidth 64)] ∨
    ∃ old data t, s.priv.csrRead inst.csrIndex = some old ∧ s.csrData inst old = some data ∧
      RvPriv.csrWrite cfg s.priv.toState inst.csrIndex data = some (t, true) ∧
      s'.priv.toState = { t with curPc := s.pc + 4, curNeedTrap := false }

theorem execSystem_csr (cfg : Config) (hd : (s.csrData inst 0).isSome) :
    ∃ f, s.execSystem inst cfg = s.csrOp inst cfg true f ∧
      ∀ old, s.csrData inst old = some (f old) := by
  unfold csrData at hd ⊢
  split_ifs at hd with h1 h2 h0 h3 h4 h5 h6
  · exact ⟨_, by rw [execSystem, h1]; rfl, fun _ => if_pos h1⟩
  · exact ⟨_, by rw [execSystem, h2]; rfl, fun _ => by rw [if_neg h1, if_pos h2]⟩
  · exact absurd hd (by decide)
  all_goals
    have hw : (inst.rs1 != 0) = true := by simpa using h0
    simp only [if_neg h1, if_neg h2, if_neg h0]
  · exact ⟨_, by rw [execSystem, h3, ← hw]; rfl, fun _ => if_pos h3⟩
  · exact ⟨_, by rw [execSystem, h4, ← hw]; rfl, fun _ => by rw [if_neg h3, if_pos h4]⟩
  · exact ⟨_, by rw [execSystem, h5, ← hw]; rfl,
      fun _ => by rw [if_neg h3, if_neg h4, if_pos h5]⟩
  · exact ⟨_, by rw [execSystem, h6, ← hw]; rfl,
      fun _ => by rw [if_neg h3, if_neg h4, if_neg h5, if_pos h6]⟩
  · exact absurd hd (by decide)

theorem csrWrite_control {t t' : RvPriv.State} {i : BitVec 12} {data : Word} {ok : Bool}
    (h : RvPriv.csrWrite cfg t i data = some (t', ok)) :
    t'.curPc = t.curPc ∧ t'.curNeedTrap = t.curNeedTrap ∧ (ok = false → t' = t) := by
  have hw := csrWritten cfg t i data
  rw [h] at hw
  cases hw with
  | unknown => exact ⟨rfl, rfl, fun _ => rfl⟩
  | status => exact ⟨rfl, rfl, nofun⟩
  | plain => exact ⟨rfl, rfl, nofun⟩

/-- How a CSR instruction that writes ends. -/
inductive CsrEnd (cfg : Config) (s : State δ) (inst : RvInstr) (data : Word → Word) :
    Outcome (Exec δ) → Prop
  | illegal : CsrEnd cfg s inst data (.ok s.illegal)
  | abort : CsrEnd cfg s inst data (.error (.abort .csrWrite))
  | write {old : Word} {t : RvPriv.State} {s' : State δ}
    (hm : s.priv.curPriv = Priv.m) (hr : s.priv.csrRead inst.csrIndex = some old)
    (hw : RvPriv.csrWrite cfg s.priv.toState inst.csrIndex (data old) = some (t, true))
    (hp : s'.priv = { s.priv with toState := t }) : CsrEnd cfg s inst data (.ok s'.done)

theorem csrOp_ends (data : Word → Word) :
    CsrEnd cfg s inst data (s.csrOp inst cfg true data) := by
  refine iteInduction (fun _ => .illegal) fun hp => ?_
  have hm : s.priv.curPriv = Priv.m := by
    by_contra hm
    exact hp (by rw [Hart.csrOpPermissionCheck, if_pos hm]; rfl)
  cases hr : s.priv.csrRead inst.csrIndex with
  | none => exact .illegal
  | some old =>
    change CsrEnd cfg s inst data (do
      let r ← s.priv.csrWrite cfg inst.csrIndex (data old)
      if !r.2 then return (s.withPriv r.1).illegal
      return (if inst.rd ≠ 0 then (s.withPriv r.1).setGpr inst.rd old else s.withPriv r.1).done)
    rw [Hart.csrWrite]
    rcases hw : RvPriv.csrWrite cfg s.priv.toState inst.csrIndex (data old) with _ | ⟨t, _ | _⟩
    · exact .abort
    · obtain rfl := (csrWrite_control hw).2.2 rfl
      exact .illegal
    · refine .write hm hr hw ?_
      split_ifs <;> rfl

theorem csrData_isSome (old : Word) : (s.csrData inst old).isSome = (s.csrData inst 0).isSome := by
  unfold csrData
  split_ifs <;> rfl

variable [MmioDev δ]

/-- A RISC-V test that ran for too long. -/
def TimedOut (cfg : Config) (s : State δ) : Prop := cfg.runRiscvTest ∧ 2000000 ≤ s.priv.mcycle

/-- What a step owes to the guest: no assertion is violated, and a CSR instruction that writes
is settled. -/
structure Handled (cfg : Config) (l : Lines) (s : State δ) : Prop where
  noAbort : ∀ site, s.step cfg l ≠ .error (.abort site)
  csr : ∀ s' s₁ inst, s.step cfg l = .ok s' → s.start.instrFetch l = .ok (s₁, some inst) →
    inst.opcode = Opcode.system → (s₁.csrData inst 0).isSome → CsrSettled cfg s₁ inst s'

theorem not_timedOut (hs : s.step cfg l = .ok s') : ¬ TimedOut cfg s := by
  intro ht
  have h : s.step cfg l = .error (.exit 1) := if_pos ht
  exact absurd (h.symm.trans hs) nofun

theorem step_fetched {s₁ : State δ} (ht : ¬ TimedOut cfg s)
    (hf : s.start.instrFetch l = .ok (s₁, some inst)) :
    s.step cfg l = (do exception inst (← s₁.decodeExec inst cfg)) := by
  have h : s.step cfg l = _ := if_neg ht
  rw [h, hf]
  rfl

theorem fetched_entered {s₁ : State δ} (hi : s.Inv)
    (hf : s.start.instrFetch l = .ok (s₁, some inst)) : s₁.Inv ∧ s₁.priv.raised = [] := by
  have h : Fetch l s.start (s.start.instrFetch l) := instrFetch_fetch hi.curNeedTrap hi.priv.mode
  rw [hf] at h
  cases h with
  | inst ht hb => exact ⟨hi.entered ht _, rfl⟩

theorem decodeExec_csr (cfg : Config) {s₁ : State δ} (ho : inst.opcode = Opcode.system)
    (hd : (s₁.csrData inst 0).isSome) : ∃ f : Word → Word,
      s₁.decodeExec inst cfg = (s₁.fetched inst).csrOp inst cfg true f ∧
        ∀ old, s₁.csrData inst old = some (f old) := by
  obtain ⟨f, hf, hd⟩ := execSystem_csr (s := s₁.fetched inst) cfg hd
  exact ⟨f, by rw [decodeExec_system ho, hf], hd⟩

theorem reserved_aborts (h : s.ReservedMtvec inst) :
    s.decodeExec inst cfg = .error (.abort .csrWrite) := by
  obtain ⟨v, hv, hmode⟩ := h.mode
  obtain ⟨f, hf, hd⟩ := decodeExec_csr cfg h.opcode
    (by rw [← csrData_isSome s.priv.mtvec, hv]; rfl)
  obtain rfl := Option.some_inj.mp (hv.symm.trans (hd _))
  have hp : s.priv.csrOpPermissionCheck inst.csrIndex true = true := by
    rw [Hart.csrOpPermissionCheck, h.csrIndex, if_neg (not_not_intro h.curPriv)]
    rfl
  have hr : s.priv.csrRead inst.csrIndex = some s.priv.mtvec := by
    rw [h.csrIndex]
    rfl
  have hw : RvPriv.csrWrite cfg s.priv.toState inst.csrIndex (f s.priv.mtvec) = none := by
    rw [h.csrIndex]
    exact if_neg hmode
  rw [hf]
  simp only [csrOp, fetched, hp, hr, Hart.csrWrite, hw]
  rfl

theorem csr_settled {s₁ : State δ} (hi : s.Inv) (hs : s.step cfg l = .ok s')
    (hf : s.start.instrFetch l = .ok (s₁, some inst)) (ho : inst.opcode = Opcode.system)
    (hd : (s₁.csrData inst 0).isSome) : CsrSettled cfg s₁ inst s' := by
  have ht := not_timedOut hs
  obtain ⟨hi₁, hraised⟩ := fetched_entered hi hf
  obtain ⟨f, hcsr, hdata⟩ := decodeExec_csr cfg ho hd
  have he : CsrEnd cfg (s₁.fetched inst) inst f _ := csrOp_ends f
  rw [step_fetched ht hf, hcsr] at hs
  generalize (s₁.fetched inst).csrOp inst cfg true f = r at he hs
  have hrvc : isRvc inst = false := by
    rw [isRvc_eq, ho]
    decide
  cases he with
  | illegal =>
    left
    have hill : exception inst (s₁.fetched inst).illegal = _ :=
      exception_illegal ⟨hi₁.priv, hi₁.curNeedTrap⟩
    obtain rfl := Except.ok.inj (hill.symm.trans hs)
    change s₁.priv.raised ++ [_] = _
    rw [hraised]
    rfl
  | abort => exact absurd hs nofun
  | @write old t s₂ hm hr hw hp =>
    right
    obtain ⟨hpc, hn, -⟩ := csrWrite_control hw
    have hst : s₂.priv.Inv := by
      rw [hp]
      exact hi₁.priv.step (.csr _ _ t hm hw)
    have hdone : exception inst s₂.done = _ := exception_eq hst.status
    obtain rfl := Except.ok.inj (hdone.symm.trans hs)
    refine ⟨old, f old, t, hr, hdata old, hw, ?_⟩
    have hn₂ : s₂.priv.curNeedTrap = false := by
      rw [hp]
      exact hn.trans hi₁.curNeedTrap
    have hpc₂ : s₂.pc = s₁.pc := by
      rw [pc, hp]
      exact hpc
    rw [hn₂, hrvc]
    change { s₂.priv.toState with curPc := s₂.pc + 4, curNeedTrap := false } = _
    rw [hpc₂, hp]

/-- A step handles its instruction unless it executes a write of `mtvec` with a reserved mode. -/
theorem handled_iff (hr : Reachable cfg s) (l : Lines) :
    Handled cfg l s ↔ TimedOut cfg s ∨ ¬ s.FetchesReserved l := by
  constructor
  · intro h
    by_contra hn
    obtain ⟨ht, s₁, inst, hf, hm⟩ := by simpa only [not_or, not_not] using hn
    refine h.noAbort .csrWrite ?_
    rw [step_fetched ht hf, reserved_aborts hm]
    rfl
  · intro h
    refine ⟨fun site hs => ?_, fun s' s₁ inst hs hf => csr_settled hr.inv hs hf⟩
    have he : Ends cfg l s (s.step cfg l) := step_ends hr.inv
    rcases h with ht | hn
    · have h : s.step cfg l = .error (.exit 1) := if_pos ht
      exact absurd (h.symm.trans hs) nofun
    · rw [hs] at he
      cases he with
      | mtvec h => exact hn h

/-- A run of `step`. -/
def run (cfg : Config) (s : State δ) : List Lines → Outcome (State δ)
  | [] => .ok s
  | l :: ls => do (← s.step cfg l).run cfg ls

/-- The steps of a run, each with the state that it starts in. -/
def StepOf (cfg : Config) (s : State δ) (ls : List Lines) (s₁ : State δ) (l : Lines) : Prop :=
  ∃ ls₁ ls₂, ls = ls₁ ++ l :: ls₂ ∧ s.run cfg ls₁ = .ok s₁

theorem stepOf_cons {ls : List Lines} {s₁ : State δ} {l₁ : Lines}
    (hs : s.step cfg l = .ok s') (h : StepOf cfg s' ls s₁ l₁) : StepOf cfg s (l :: ls) s₁ l₁ := by
  obtain ⟨ls₁, ls₂, rfl, hr⟩ := h
  refine ⟨l :: ls₁, ls₂, rfl, ?_⟩
  rw [run, hs]
  exact hr

theorem reachable_stepOf {ls : List Lines} {s₁ : State δ} (hr : Reachable cfg s)
    (h : StepOf cfg s ls s₁ l) : Reachable cfg s₁ := by
  obtain ⟨ls₁, ls₂, -, h⟩ := h
  induction ls₁ generalizing s with
  | nil =>
    obtain rfl := Except.ok.inj h
    exact hr
  | cons l₁ ls₁ ih =>
    rw [run] at h
    rcases hs : s.step cfg l₁ with e | s'
    · rw [hs] at h
      exact absurd h nofun
    · rw [hs] at h
      exact ih (hr.step l₁ hs) h

/-- In a run no assertion is violated, and every CSR instruction that writes is settled, exactly
if no step executes a write of `mtvec` with a reserved mode. -/
theorem run_handled_iff (hr : Reachable cfg s) (ls : List Lines) :
    ((∀ site, s.run cfg ls ≠ .error (.abort site)) ∧
      ∀ s₁ l, StepOf cfg s ls s₁ l → Handled cfg l s₁) ↔
    ∀ s₁ l, StepOf cfg s ls s₁ l → TimedOut cfg s₁ ∨ ¬ s₁.FetchesReserved l := by
  constructor
  · intro h s₁ l hs
    exact (handled_iff (reachable_stepOf hr hs) l).mp (h.2 s₁ l hs)
  · intro h
    refine ⟨?_, fun s₁ l hs => (handled_iff (reachable_stepOf hr hs) l).mpr (h s₁ l hs)⟩
    induction ls generalizing s with
    | nil => exact nofun
    | cons l ls ih =>
      have hl := (handled_iff hr l).mpr (h s l ⟨[], ls, rfl, rfl⟩)
      intro site
      rw [run]
      rcases hs : s.step cfg l with e | s'
      · intro he
        exact hl.noAbort site (hs.trans he)
      · exact ih (hr.step l hs) (fun s₁ l₁ h₁ => h s₁ l₁ (stepOf_cons hs h₁)) site

theorem stepOf_pair {l₁ l₂ : Lines} {s₁ : State δ} (h : StepOf cfg s [l₁, l₂] s₁ l) :
    s₁ = s ∧ l = l₁ ∨ s.run cfg [l₁] = .ok s₁ ∧ l = l₂ := by
  obtain ⟨ls₁, ls₂, hls, hrun⟩ := h
  rcases ls₁ with _ | ⟨l', _ | ⟨l'', ls₁⟩⟩
  · exact .inl ⟨(Except.ok.inj hrun).symm, (List.cons.inj hls).1.symm⟩
  · obtain ⟨hl, hls⟩ := List.cons.inj hls
    exact .inr ⟨hl ▸ hrun, (List.cons.inj hls).1.symm⟩
  · simp at hls

theorem fetchesReserved_iff {s₁ : State δ} (inst : RvInstr)
    (hf : s.start.instrFetch l = .ok (s₁, some inst)) :
    s.FetchesReserved l ↔ s₁.ReservedMtvec inst := by
  constructor
  · rintro ⟨s₂, inst', h, hm⟩
    obtain ⟨rfl, hi⟩ := Prod.mk.inj (Except.ok.inj (hf.symm.trans h))
    obtain rfl := Option.some_inj.mp hi
    exact hm
  · intro hm
    exact ⟨s₁, inst, hf, hm⟩

/-- The core in front of `csrrwi x0, mstatus, 8` and `csrrwi x0, mtvec, 16`. -/
def setsCsrs : State MmioMem :=
  Test.core ⟨true, false⟩ (Test.program [0x30045073, 0x30585073]) default

/-- Both writes are stored. -/
theorem run_handled_mtvec : ((∀ site, setsCsrs.run ⟨true, false⟩ [{}, {}] ≠ .error (.abort site)) ∧
      ∀ s₁ l, StepOf ⟨true, false⟩ setsCsrs [{}, {}] s₁ l → Handled ⟨true, false⟩ l s₁) ∧
    ∃ s', setsCsrs.run ⟨true, false⟩ [{}, {}] = .ok s' ∧ s'.priv.mtvec = 16 ∧
      s'.priv.status.getLsbD 3 = true := by
  have hr : Reachable ⟨true, false⟩ setsCsrs := .jump (.new _) _
  refine ⟨(run_handled_iff hr [{}, {}]).mpr fun s₁ l h => .inr ?_, _, rfl, rfl, rfl⟩
  rcases stepOf_pair h with ⟨rfl, rfl⟩ | ⟨hrun, rfl⟩
  · rw [fetchesReserved_iff 0x30045073 rfl]
    exact fun hm => absurd hm.csrIndex (by decide)
  · obtain rfl := Except.ok.inj hrun
    rw [fetchesReserved_iff 0x30585073 rfl]
    intro hm
    obtain ⟨v, hv, hv'⟩ := hm.mode
    obtain rfl : 16 = v := Option.some_inj.mp hv
    exact hv' (by decide)

/-- The program writes a reserved mode: `csrrwi x0, mtvec, 2`. -/
theorem not_handled_reserved : ¬ ∀ (cfg : Config) (s : State MmioMem), Reachable cfg s →
    ∀ ls, (∀ site, s.run cfg ls ≠ .error (.abort site)) ∧
      ∀ s₁ l, StepOf cfg s ls s₁ l → Handled cfg l s₁ := by
  intro h
  have hr : Reachable ⟨true, false⟩
      (Test.core ⟨true, false⟩ (Test.filled 0x30515073) default) := .jump (.new _) _
  exact (h _ _ hr [{}]).1 .csrWrite rfl

end PuaCpu.RvCore.State
