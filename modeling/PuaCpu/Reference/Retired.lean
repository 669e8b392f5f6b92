import Mathlib.Data.BitVec
import PuaCpu.Reference.Reserved
import PuaCpu.Temporal.Since

/-! # Retired instructions

`post_exec` counts an instruction unless a trap is pending. The returns from
traps leave through the same flag, so they complete without being counted.
-/

namespace PuaCpu.RvCore.State

open RvPriv

variable {δ : Type} {cfg : Config} {l : Lines} {s s' : State δ} {inst : RvInstr}

/-- `MRET` and `SRET`. -/
structure IsReturn (inst : RvInstr) : Prop where
  opcode : inst.opcode = Opcode.system
  funct3 : inst.funct3 = Funct3.priv
  rs1 : inst.rs1 = 0
  rd : inst.rd = 0
  rs2 : inst.rs2 = 0b00010
  funct7 : inst.funct7 = Funct7.mret ∨ inst.funct7 = Funct7.sretWfi

/-- An instruction that returns from a trap. -/
structure Returns (s : State δ) (inst : RvInstr) : Prop where
  isReturn : IsReturn inst
  curPriv : s.priv.curPriv = Priv.m

section Calm

/-- Behind an instruction a trap is pending only if one has been raised. -/
def Calm (r : Outcome (Exec δ)) : Prop :=
  ∀ e, r = .ok e → e.core.priv.raised = [] → e.core.priv.curNeedTrap = false

theorem calm_error (e : Halt) : Calm (.error e : Outcome (Exec δ)) := by
  rintro _ ⟨⟩

theorem calm_ok {e : Exec δ} (h : e.core.priv.curNeedTrap = false) : Calm (.ok e) := by
  rintro _ ⟨⟩ -
  exact h

theorem raises (h : s.raiseTrap cause tval = .ok s') : s'.priv.raised ≠ [] := by
  rw [raiseTrap, Hart.raiseTrap] at h
  cases ht : RvPriv.raiseTrap s.priv.toState cause tval with
  | none =>
    rw [ht] at h
    cases h
  | some t =>
    rw [ht] at h
    obtain rfl := Except.ok.inj h
    exact List.append_ne_nil_of_right_ne_nil _ (List.cons_ne_nil _ _)

theorem calm_raiseTrap (s : State δ) (cause : Cause) (tval : Word) (newPc : Bool) :
    Calm ((s.raiseTrap cause tval).map fun s => ⟨s, false, newPc⟩) := by
  intro e he hr
  cases ht : s.raiseTrap cause tval with
  | error e =>
    rw [ht] at he
    cases he
  | ok s' =>
    rw [ht] at he
    obtain rfl := Except.ok.inj he
    exact absurd hr (raises ht)

theorem raise_calm (s : State δ) (cause : Cause) :
    Calm ((s.priv.raiseTrap cause 0).map fun h => (s.withPriv h).done) := by
  have h := calm_raiseTrap s cause 0 false
  rw [raiseTrap] at h
  cases hr : s.priv.raiseTrap cause 0 <;> rw [hr] at h <;> exact h

theorem execEcall_calm : Calm (s.execEcall cfg) :=
  iteInduction (fun _ => iteInduction (fun _ => calm_error _) fun _ => calm_error _)
    fun _ => raise_calm s _

theorem execEbreak_calm : Calm (s.execEbreak cfg) :=
  iteInduction (fun _ => calm_error _) fun _ => raise_calm s _

section Opcodes

variable (hn : s.priv.curNeedTrap = false)

include hn

theorem alu_calm (a b : Word) (op : AluOp) (op32 : Bool) : Calm (s.alu inst a b op op32) := by
  rw [alu]
  cases RvAlu.aluExec a b op op32 with
  | none => exact calm_error _
  | some result => exact calm_ok hn

theorem link_calm (npc : Word) : Calm (s.link inst npc) := by
  rw [link]
  split_ifs
  · exact calm_raiseTrap s _ npc false
  · exact calm_ok hn

theorem execBranch_calm : Calm (s.execBranch inst) := by
  rw [execBranch]
  rcases branchTaken inst.funct3 (s.gpr inst.rs1) (s.gpr inst.rs2) with _ | _ | _
  · exact calm_ok hn
  · exact calm_ok hn
  · dsimp only
    split_ifs
    · exact calm_raiseTrap _ _ _ true
    · exact calm_ok hn

theorem execOpimm_calm : Calm (s.execOpimm inst) := by
  rw [execOpimm_eq]
  cases opimm inst with
  | none => exact calm_ok hn
  | some r => exact alu_calm hn _ _ _ _

theorem execOpimm32_calm : Calm (s.execOpimm32 inst) := by
  rw [execOpimm32]
  cases opimm32 inst with
  | none => exact calm_ok hn
  | some r => exact alu_calm hn _ _ _ _

theorem execOp_calm : Calm (s.execOp inst) := by
  rw [execOp_eq]
  cases op inst with
  | none => exact calm_ok hn
  | some r => exact alu_calm hn _ _ _ _

theorem execOp32_calm : Calm (s.execOp32 inst) := by
  rw [execOp32]
  cases op32 inst with
  | none => exact calm_ok hn
  | some r => exact alu_calm hn _ _ _ _

section System

theorem csrOp_calm (write : Bool) (data : Word → Word) : Calm (s.csrOp inst cfg write data) := by
  have hsets (h : Hart δ) (old : Word) (hh : h.curNeedTrap = false) :
      (if inst.rd ≠ 0 then (s.withPriv h).setGpr inst.rd old
        else s.withPriv h).priv.curNeedTrap = false := by
    split_ifs <;> exact hh
  rw [csrOp]
  refine iteInduction (fun _ => calm_ok hn) fun _ => ?_
  cases s.priv.csrRead inst.csrIndex with
  | none => exact calm_ok hn
  | some old =>
    cases write with
    | false => exact calm_ok (hsets s.priv old hn)
    | true =>
      change Calm (do
        let r ← s.priv.csrWrite cfg inst.csrIndex (data old)
        if !r.2 then return (s.withPriv r.1).illegal
        return (if inst.rd ≠ 0 then (s.withPriv r.1).setGpr inst.rd old else s.withPriv r.1).done)
      rw [Hart.csrWrite]
      rcases hw : RvPriv.csrWrite cfg s.priv.toState inst.csrIndex (data old) with _ | ⟨t, ok⟩
      · exact calm_error _
      · have ht : t.curNeedTrap = false := (csrWrite_control hw).2.1.trans hn
        cases ok with
        | false => exact calm_ok ht
        | true => exact calm_ok (hsets { s.priv with toState := t } old ht)

theorem orIllegal_calm {r : Option (Hart δ)} (hr : ∀ h, r = some h → h.curNeedTrap = false) :
    Calm (.ok (s.orIllegal r)) := by
  cases r with
  | none => exact calm_ok hn
  | some h => exact calm_ok (hr h rfl)

theorem execPriv_calm (hi : s.priv.Inv) (ho : inst.opcode = Opcode.system)
    (h3 : inst.funct3 = Funct3.priv) (hr : ¬ s.Returns inst) : Calm (s.execPriv inst cfg) := by
  have hill : Calm (.ok s.illegal) := calm_ok hn
  have hdone : Calm (.ok s.done) := calm_ok hn
  -- the other implemented mode, in which `mret` and `sret` fail
  have hmode (h2 : inst.rs2 = 0b00010) (hz : inst.rs1 = 0 ∧ inst.rd = 0)
      (h7 : inst.funct7 = Funct7.mret ∨ inst.funct7 = Funct7.sretWfi) :
      s.priv.curPriv = Priv.u := by
    refine hi.curPriv.resolve_left fun hm => hr ⟨⟨ho, h3, hz.1, hz.2, h2, h7⟩, hm⟩
  refine iteInduction (fun _ => iteInduction (fun _ => ?_) fun _ => hill) fun _ => ?_
  · exact iteInduction (fun _ => execEcall_calm) fun _ =>
      iteInduction (fun _ => execEbreak_calm) fun _ => hill
  refine iteInduction (fun h7 => iteInduction (fun hz => ?_) fun _ => hdone) fun _ => ?_
  · refine iteInduction (fun h2 => ?_) fun _ => iteInduction (fun _ => hdone) fun _ => hill
    refine orIllegal_calm hn fun h hs => ?_
    rw [Hart.sret, hmode h2 hz (.inr h7)] at hs
    cases hs
  refine iteInduction (fun h7 => iteInduction (fun hz => ?_) fun _ => hill) fun _ => ?_
  · refine orIllegal_calm hn fun h hs => ?_
    rw [Hart.mret, RvPriv.mret, hmode hz.1 hz.2 (.inl h7)] at hs
    cases hs
  refine iteInduction (fun _ => orIllegal_calm hn fun h hs => ?_) fun _ => hill
  rw [Hart.sfenceVma] at hs
  split_ifs at hs
  obtain rfl := Option.some_inj.mp hs
  exact hn

theorem execSystem_calm (hi : s.priv.Inv) (ho : inst.opcode = Opcode.system)
    (hr : ¬ s.Returns inst) : Calm (s.execSystem inst cfg) := by
  refine iteInduction (fun h => execPriv_calm hn hi ho h hr) fun _ => ?_
  refine iteInduction (fun _ => csrOp_calm hn _ _) fun _ => ?_
  refine iteInduction (fun _ => csrOp_calm hn _ _) fun _ => ?_
  refine iteInduction (fun _ => csrOp_calm hn _ _) fun _ => ?_
  refine iteInduction (fun _ => csrOp_calm hn _ _) fun _ => ?_
  refine iteInduction (fun _ => csrOp_calm hn _ _) fun _ => ?_
  exact iteInduction (fun _ => csrOp_calm hn _ _) fun _ => calm_ok hn

end System

section Mem

variable [MmioDev δ]

theorem orTrap_calm {α : Type} {r : Outcome (Hart δ × Except ExcNo α)} (hr : s.priv.Served r)
    (tval : Word) {k : State δ → α → State δ} (hk : ∀ s' a, (k s' a).priv = s'.priv) :
    Calm (do return (← s.orTrap (← r) tval k).done) := by
  cases hr with
  | exit code => exact calm_error _
  | value b x hb =>
    refine calm_ok ?_
    change (k (s.withPriv { s.priv with bus := b }) x).priv.curNeedTrap = false
    rw [hk]
    exact hn
  | fault b e hb he => exact calm_raiseTrap (s.withPriv { s.priv with bus := b }) _ tval false

theorem execLoad_calm (hm : Satp.mode s.priv.satp = 0) : Calm (s.execLoad inst) := by
  rw [execLoad]
  cases loadKind inst.funct3 with
  | none => exact calm_ok hn
  | some k =>
    dsimp only
    rw [memRead]
    split_ifs
    · exact calm_raiseTrap s _ _ false
    · generalize s.gpr inst.rs1 + inst.imm12.signExtend 64 = startAddr
      have h : Calm _ := orTrap_calm hn (Hart.vaRead_served (a := startAddr) (n := k.size) hm)
        startAddr (k := fun s buf => s.setGpr inst.rd (k.extend buf)) fun _ _ => rfl
      generalize s.priv.vaRead startAddr k.size = r at h ⊢
      rcases r with _ | ⟨_, _ | _⟩ <;> exact h

theorem execStore_calm (hm : Satp.mode s.priv.satp = 0) : Calm (s.execStore inst cfg) := by
  rw [execStore]
  cases storeSize inst.funct3 with
  | none => exact calm_ok hn
  | some size =>
    dsimp only
    rw [memWrite]
    split_ifs
    · exact calm_raiseTrap s _ _ false
    · generalize s.gpr inst.rs1 + inst.immS.signExtend 64 = startAddr
      have hv : s.priv.Served (s.priv.vaWrite cfg startAddr size (s.gpr inst.rs2)) :=
        Hart.vaWrite_served cfg hm
      have h : Calm _ := orTrap_calm hn hv startAddr (k := fun s _ => s) fun _ _ => rfl
      generalize s.priv.vaWrite cfg startAddr size (s.gpr inst.rs2) = r at h ⊢
      rcases r with _ | ⟨_, _ | _⟩ <;> exact h

theorem execAmo_calm (hm : Satp.mode s.priv.satp = 0) : Calm (s.execAmo inst) := by
  rw [execAmo]
  refine iteInduction (fun _ => calm_ok hn) fun h3 => ?_
  have hz := amo_size h3
  refine iteInduction (fun _ => iteInduction (fun _ => calm_ok hn) fun _ => ?_) fun _ =>
    iteInduction (fun _ => ?_) fun _ => iteInduction (fun hop => ?_) fun _ => calm_ok hn
  · exact orTrap_calm hn (Hart.vaLr_served hm hz) _ fun _ _ => rfl
  · exact orTrap_calm hn (Hart.vaSc_served hm hz) _ fun _ _ => rfl
  · exact orTrap_calm hn (Hart.vaAmo_served hm hz (Systembus.amoResult_isSome hop)) _
      fun _ _ => rfl

end Mem

end Opcodes

/-- No instruction but a return leaves a pending trap that it has not raised. -/
theorem decodeExec_calm [MmioDev δ] (hi : s.Inv) (hr : ¬ s.Returns inst) :
    Calm (s.decodeExec inst cfg) := by
  have hn : (s.fetched inst).priv.curNeedTrap = false := hi.curNeedTrap
  have hm : Satp.mode (s.fetched inst).priv.satp = 0 := hi.priv.mode
  refine iteInduction (fun _ => calm_ok hn) fun _ => ?_
  refine iteInduction (fun _ => calm_ok hn) fun _ => ?_
  refine iteInduction (fun _ => calm_ok hn) fun _ => ?_
  refine iteInduction (fun _ => link_calm hn _) fun _ => ?_
  refine iteInduction (fun _ => link_calm hn _) fun _ => ?_
  refine iteInduction (fun _ => execBranch_calm hn) fun _ => ?_
  refine iteInduction (fun _ => execLoad_calm hn hm) fun _ => ?_
  refine iteInduction (fun _ => execStore_calm hn hm) fun _ => ?_
  refine iteInduction (fun _ => execOpimm_calm hn) fun _ => ?_
  refine iteInduction (fun _ => execOpimm32_calm hn) fun _ => ?_
  refine iteInduction (fun _ => execOp_calm hn) fun _ => ?_
  refine iteInduction (fun _ => execOp32_calm hn) fun _ => ?_
  refine iteInduction (fun _ => execAmo_calm hn hm) fun _ => ?_
  refine iteInduction (fun _ => calm_ok hn) fun _ => ?_
  refine iteInduction (fun ho => execSystem_calm hn hi.priv ho ?_) fun _ => calm_ok hn
  exact fun h => hr ⟨h.isReturn, h.curPriv⟩

end Calm

section Step

variable [MmioDev δ]

/-- A return completes with a trap pending that it has not raised. -/
theorem decodeExec_return (cfg : Config) (hi : s.Inv) (hr : s.Returns inst) : ∃ h,
    s.decodeExec inst cfg = .ok ((s.fetched inst).withPriv h).done ∧
      h.curNeedTrap = true ∧ HartStep cfg s.priv h := by
  obtain ⟨⟨ho, h3, h1, hd, h2, h7⟩, hm⟩ := hr
  rw [decodeExec_system ho, execSystem, if_pos h3, execPriv]
  rcases h7 with h7 | h7 <;> rw [h7, h2, h1, hd]
  · have hs : s.priv.mret = some { s.priv with toState := mretM s.priv.toState } := by
      rw [Hart.mret, RvPriv.mret, hm]
      rfl
    refine ⟨_, ?_, rfl, .mret hm⟩
    change Except.ok ((s.fetched inst).orIllegal s.priv.mret) = _
    rw [hs]
    rfl
  · have htsr : s.priv.status.getLsbD 22 = false := by
      simpa using congrArg (·.getLsbD 0) (hi.priv.status.zero (22, 1) (by decide))
    obtain ⟨h, hs, ht⟩ : ∃ h, s.priv.sret = some h ∧ h.curNeedTrap = true := by
      rw [Hart.sret, hm, htsr]
      exact ⟨_, rfl, rfl⟩
    refine ⟨h, ?_, ht, .sret h hs⟩
    change Except.ok ((s.fetched inst).orIllegal s.priv.sret) = _
    rw [hs]
    rfl

/-- The instruction at `pc` returns from a trap. -/
def FetchesReturn (s : State δ) (l : Lines) : Prop :=
  ∃ s₁ inst, s.start.instrFetch l = .ok (s₁, some inst) ∧ s₁.Returns inst

/-- How a step treats the counter. -/
inductive Retires (l : Lines) (s s' : State δ) : Prop
  | trapped (hf : ¬ s.FetchesReturn l) (hr : s'.priv.raised ≠ [])
    (hm : s'.priv.minstret = s.priv.minstret)
  | returned (hf : s.FetchesReturn l) (hr : s'.priv.raised = [])
    (hm : s'.priv.minstret = s.priv.minstret)
  | completed (hf : ¬ s.FetchesReturn l) (hr : s'.priv.raised = [])
    (hm : s'.priv.minstret = s.priv.minstret + 1)

omit [MmioDev δ] in
theorem trapped_minstret (s : State δ) (cause : Cause) (tval : Word) :
    (s.trapped cause tval).priv.minstret = s.priv.minstret :=
  if_pos (trapEntry_curNeedTrap ..)

omit [MmioDev δ] in
theorem trapped_raised (s : State δ) (cause : Cause) (tval : Word) :
    (s.trapped cause tval).priv.raised ≠ [] :=
  List.append_ne_nil_of_right_ne_nil _ (List.cons_ne_nil _ _)

theorem fetchesReturn_iff {s₁ : State δ} (hf : s.start.instrFetch l = .ok (s₁, some inst)) :
    s.FetchesReturn l ↔ s₁.Returns inst := by
  constructor
  · rintro ⟨s₂, inst', h, hr⟩
    obtain ⟨rfl, hi⟩ := Prod.mk.inj (Except.ok.inj (hf.symm.trans h))
    obtain rfl := Option.some_inj.mp hi
    exact hr
  · intro hr
    exact ⟨s₁, inst, hf, hr⟩

theorem Idle.kept (h : s.Idle s') (hi : s.Inv) : s'.Inv ∧ s'.priv.minstret = s.priv.minstret := by
  obtain ⟨b, i, br, -, rfl⟩ := h
  obtain ⟨⟨h1, h2, h3, h4, h5, h6⟩, h7⟩ := hi
  exact ⟨⟨⟨h1, h2, h3, h4, h5, h6⟩, h7⟩, rfl⟩

theorem fetched_retires (hi : s.Inv) {s₁ : State δ} (hm : s₁.priv.minstret = s.priv.minstret)
    (hf : s.start.instrFetch l = .ok (s₁, some inst))
    (hs : (do exception inst (← s₁.decodeExec inst cfg)) = .ok s') : Retires l s s' := by
  obtain ⟨hi₁, hraised⟩ := fetched_entered hi hf
  have hret := fetchesReturn_iff hf
  by_cases hr : s₁.Returns inst
  · obtain ⟨h, hd, hn, hp⟩ := decodeExec_return cfg hi₁ hr
    rw [hd] at hs
    have he : exception inst ((s₁.fetched inst).withPriv h).done = _ :=
      exception_eq (hi₁.priv.step hp).status
    obtain rfl := Except.ok.inj (he.symm.trans hs)
    refine .returned (hret.mpr hr) (hp.kept.1.trans hraised) ?_
    exact (if_pos hn).trans (hp.kept.2.trans hm)
  · have hn : ¬ s.FetchesReturn l := fun h => hr (hret.mp h)
    have he : Effect cfg inst s₁ _ := decodeExec_effect hi₁.curNeedTrap hi₁.priv.mode
    have hc : Calm (s₁.decodeExec inst cfg) := decodeExec_calm hi₁ hr
    generalize s₁.decodeExec inst cfg = r at he hc hs
    cases he with
    | exit => cases hs
    | mtvec => cases hs
    | @illegal s₂ h =>
      obtain ⟨hi₂, hm₂⟩ := h.kept hi₁
      obtain rfl := Except.ok.inj ((exception_illegal hi₂).symm.trans hs)
      exact .trapped hn (trapped_raised _ _ _) ((trapped_minstret ..).trans (hm₂.trans hm))
    | @trap s₂ h cause tval newPc _ =>
      obtain ⟨hi₂, hm₂⟩ := h.kept hi₁
      obtain rfl := Except.ok.inj ((exception_trapped hi₂.priv).symm.trans hs)
      exact .trapped hn (trapped_raised _ _ _) ((trapped_minstret ..).trans (hm₂.trans hm))
    | @complete s₂ newPc _ hp =>
      -- nothing has been raised, so the flag is down and `post_exec` counts
      have hr₂ : s₂.priv.raised = [] := hp.kept.1.trans hraised
      have hn₂ : s₂.priv.curNeedTrap = false := hc _ rfl hr₂
      have hdone : exception inst ⟨s₂, false, newPc⟩ = _ := exception_eq (hi₁.priv.step hp).status
      obtain rfl := Except.ok.inj (hdone.symm.trans hs)
      refine .completed hn hr₂ ((if_neg (by simp [hn₂])).trans ?_)
      rw [hp.kept.2, hm]

theorem step_retires (hi : s.Inv) (hs : s.step cfg l = .ok s') : Retires l s s' := by
  have ht := not_timedOut hs
  have hf : Fetch l s.start (s.start.instrFetch l) := instrFetch_fetch hi.curNeedTrap hi.priv.mode
  generalize hr : s.start.instrFetch l = r at hf
  cases hf with
  | @trap t b hsam _ cause tval _ =>
    have h : s.step cfg l = _ := if_neg ht
    rw [h, hr] at hs
    have he : exception 0 ⟨_, false, false⟩ = .ok ((s.entered t b).trapped cause tval) :=
      exception_trapped (hi.priv.sampled hsam b [])
    obtain rfl := Except.ok.inj (he.symm.trans hs)
    refine .trapped ?_ (trapped_raised _ _ _) (trapped_minstret ..)
    rintro ⟨s₁, inst, hf, -⟩
    cases hr.symm.trans hf
  | inst hsam _ inst =>
    rw [step_fetched ht hr] at hs
    refine fetched_retires hi ?_ hr hs
    rfl

/-- The counter advances with the completed steps exactly where no step returns from a trap. -/
theorem minstret_step_iff (hi : s.Inv) (hs : s.step cfg l = .ok s') :
    s'.priv.minstret = s.priv.minstret + (if s'.priv.raised = [] then 1 else 0) ↔
      ¬ s.FetchesReturn l := by
  cases step_retires hi hs with
  | trapped hf hr hm => exact iff_of_true (by simp [hm, hr]) hf
  | returned hf hr hm =>
    refine iff_of_false (fun h => ?_) (not_not_intro hf)
    rw [hm, if_pos hr] at h
    exact absurd (left_eq_add.mp h) (by decide)
  | completed hf hr hm => exact iff_of_true (by rw [hm, if_pos hr]) hf

end Step

section Run

variable [MmioDev δ] {n : ℕ}

/-- The core over devices that have changed. -/
def onBus (s : State δ) (b : Systembus δ) : State δ := s.withPriv { s.priv with bus := b }

/-- The steps of the core. The devices may change before a step, which puts out what it raised. -/
def Steps (cfg : Config) (s : State δ) (i : Systembus δ × Lines) (raised : List (Cause × Word))
    (s' : State δ) : Prop :=
  (s.onBus i.1).step cfg i.2 = .ok s' ∧ raised = s'.priv.raised

/-- What the guest reads as `minstret` is the number of steps that raised nothing. -/
def CountsRetired (r : Temporal.Trace (Steps (δ := δ) cfg) n) (t : ℕ) : Prop :=
  (r.st t).priv.csrRead 0xb02 = some (Nat.count (fun t => r.out t = []) t : BitVec 64)

theorem reachable_st {r : Temporal.Trace (Steps (δ := δ) cfg) n} {newPc : Word}
    (h0 : r.st 0 = (s.new cfg).jump newPc) : ∀ t ≤ n, Reachable cfg (r.st t) := by
  intro t ht
  induction t with
  | zero =>
    rw [h0]
    exact .jump (.new s) newPc
  | succ t ih => exact .step (.bus (ih (by omega)) (r.inp t).1) _ (r.step t (by omega)).1

/-- **The retired instructions**: in a run from reset the guest reads the number of completed
instructions in every state exactly if no step executes `MRET` or `SRET` in machine mode. -/
theorem counts_retired_iff (r : Temporal.Trace (Steps (δ := δ) cfg) n) (newPc : Word)
    (h0 : r.st 0 = (s.new cfg).jump newPc) :
    (∀ t ≤ n, CountsRetired r t) ↔
      ∀ t < n, ¬ ((r.st t).onBus (r.inp t).1).FetchesReturn (r.inp t).2 := by
  have hzero : (r.st 0).priv.minstret = 0 := by
    rw [h0]
    rfl
  have hcount (t : ℕ) : CountsRetired r t ↔
      (r.st t).priv.minstret = (Nat.count (fun t => r.out t = []) t : BitVec 64) :=
    Option.some_inj
  simp only [hcount, Temporal.counts_iff, hzero, true_and]
  refine forall₂_congr fun t ht => ?_
  obtain ⟨hs, hout⟩ := r.step t ht
  have hb : ((r.st t).onBus (r.inp t).1).Inv := (Reachable.bus (reachable_st h0 t ht.le) _).inv
  have hstep := minstret_step_iff hb hs
  simp only [hout]
  exact hstep

/-- A step as a function. -/
def next (cfg : Config) (s : State δ) (i : Systembus δ × Lines) : State δ × List (Cause × Word) :=
  match (s.onBus i.1).step cfg i.2 with
  | .ok s' => (s', s'.priv.raised)
  | .error _ => (s, [])

theorem steps_next {i : Systembus δ × Lines} (hs : (s.onBus i.1).step cfg i.2 = .ok s') :
    Steps cfg s i (next cfg s i).2 (next cfg s i).1 := by
  rw [next, hs]
  exact ⟨hs, rfl⟩

/-- A step of a program that repeats one word. -/
def filledRun (word : BitVec 32)
    (h : ∃ s',
      (Test.core ⟨true, false⟩ (Test.filled word) default).step ⟨true, false⟩ {} = .ok s') :
    Temporal.Trace (Steps (δ := MmioMem) ⟨true, false⟩) 1 :=
  .follow (next _) (fun _ => (Test.bus (Test.filled word) default, {}))
    (Test.core ⟨true, false⟩ (Test.filled word) default) 1 fun t ht => by
      obtain rfl : t = 0 := by omega
      obtain ⟨s', hs⟩ := h
      exact steps_next hs

theorem not_fetchesReturn {s₁ : State δ} (inst : RvInstr)
    (hf : s.start.instrFetch l = .ok (s₁, some inst)) (hi : ¬ IsReturn inst) :
    ¬ s.FetchesReturn l :=
  fun h => hi ((fetchesReturn_iff hf).mp h).isReturn

/-- The core in front of `nop` and `ecall`. -/
def callNop : State MmioMem :=
  Test.core ⟨true, false⟩ (Test.program [0x00000013, 0x00000073]) default

def callNopRun : Temporal.Trace (Steps (δ := MmioMem) ⟨true, false⟩) 2 :=
  .follow (next _) (fun _ => (Test.bus (Test.program [0x00000013, 0x00000073]) default, {}))
    callNop 2 fun t ht => by
      rcases Nat.lt_succ_iff_lt_or_eq.mp ht with ht | rfl
      · obtain rfl := Nat.lt_one_iff.mp ht
        exact steps_next rfl
      · exact steps_next rfl

/-- The call traps, and only the `nop` is counted. -/
theorem counts_retired_ecall : callNopRun.out 1 ≠ [] ∧ (callNopRun.st 2).priv.minstret = 1 ∧
    CountsRetired callNopRun 2 := by
  refine ⟨List.cons_ne_nil _ _, rfl, (counts_retired_iff _ Test.base rfl).mpr ?_ 2 le_rfl⟩
  intro t ht
  obtain rfl | rfl : t = 0 ∨ t = 1 := by omega
  · exact not_fetchesReturn 0x00000013 rfl fun h => absurd h.opcode (by decide)
  · exact not_fetchesReturn 0x00000073 rfl fun h => absurd h.rs2 (by decide)

/-- The program starts with `mret`, which completes without being counted. -/
theorem not_counts_retired : ¬ ∀ (cfg : Config) (s : State MmioMem) (newPc : Word) (n : ℕ)
    (r : Temporal.Trace (Steps cfg) n), r.st 0 = (s.new cfg).jump newPc →
      ∀ t ≤ n, CountsRetired r t := by
  intro h
  have hr := h _ _ Test.base 1 (filledRun 0x30200073 ⟨_, rfl⟩) rfl 1 le_rfl
  exact absurd (Option.some_inj.mp hr) (by decide)

end Run

end PuaCpu.RvCore.State
