import PuaCpu.Reference.Retired
import PuaCpu.Selection.First

/-! # The causes of traps

A step takes the first enabled interrupt. Only without one it fetches, and then it
raises an exception that its instruction can raise in its mode, or none. No page
fault is among them.
-/

namespace PuaCpu

namespace RvCore

open RvPriv

/-- The exceptions of an instruction, besides being illegal. -/
def exceptionsOf (inst : RvInstr) (p : Priv) : List ExcNo :=
  if inst.opcode ∈ [Opcode.jal, Opcode.jalr, Opcode.branch] then [.instAddrMisaligned]
  else if inst.opcode = Opcode.load then [.loadAddrMisaligned, .loadAccessFault]
  else if inst.opcode = Opcode.store then [.storeAddrMisaligned, .storeAccessFault]
  else if inst.opcode = Opcode.amo then [.storeAccessFault]
  else if inst.opcode = Opcode.system then
    [.breakPoint, if p = Priv.m then .ecallM else .ecallU]
  else []

end RvCore

namespace RvPriv.Hart

variable {δ : Type} [MmioDev δ] {α : Type} {h h' : Hart δ} {k : AccessKind} {a n v : Word}
  {e : ExcNo}

theorem error_of_untranslated {access : Hart δ → Word → Outcome (Hart δ × Option α)}
    (hm : Satp.mode h.satp = 0) (hr : h.vaAccess k a n access = .ok (h', .error e)) :
    e = k.accessFault := by
  rw [vaAccess, if_pos (untranslated_of_mode hm)] at hr
  generalize access h a = r at hr
  rcases r with _ | ⟨h₁, _ | x⟩
  · cases hr
  · cases hr
    rfl
  · cases hr

end RvPriv.Hart

namespace RvCore.State

open RvPriv
open Selection (First)

variable {δ : Type} {cfg : Config} {l : Lines} {s s' : State δ} {inst : RvInstr} {es : List ExcNo}

section Raises

/-- An instruction raises exceptions from a list only. -/
def Raises (es : List ExcNo) (r : Outcome (Exec δ)) : Prop :=
  ∀ e, r = .ok e → ∀ c ∈ e.core.priv.raised, ∃ x ∈ es, c.1 = .exc x

theorem raises_error (e : Halt) : Raises es (.error e : Outcome (Exec δ)) := by
  rintro _ ⟨⟩

theorem raises_none {e : Exec δ} (h : e.core.priv.raised = []) : Raises es (.ok e) := by
  rintro _ ⟨⟩ c hc
  rw [h] at hc
  exact absurd hc List.not_mem_nil

variable (hq : s.priv.raised = [])

include hq

theorem raises_raiseTrap {x : ExcNo} (hx : x ∈ es) (tval : Word) (newPc : Bool) :
    Raises es ((s.raiseTrap (.exc x) tval).map fun s => ⟨s, false, newPc⟩) := by
  intro e he c hc
  rw [raiseTrap, Hart.raiseTrap] at he
  cases ht : RvPriv.raiseTrap s.priv.toState (.exc x) tval with
  | none =>
    rw [ht] at he
    cases he
  | some t =>
    rw [ht] at he
    obtain rfl := Except.ok.inj he
    change c ∈ s.priv.raised ++ [(Cause.exc x, tval)] at hc
    rw [hq, List.nil_append, List.mem_singleton] at hc
    exact ⟨x, hx, by rw [hc]⟩

theorem alu_raises (a b : Word) (op : AluOp) (op32 : Bool) :
    Raises es (s.alu inst a b op op32) := by
  rw [alu]
  cases RvAlu.aluExec a b op op32 with
  | none => exact raises_error _
  | some result => exact raises_none hq

theorem link_raises (npc : Word) : Raises [.instAddrMisaligned] (s.link inst npc) := by
  rw [link]
  split_ifs
  · exact raises_raiseTrap hq List.mem_cons_self npc false
  · exact raises_none hq

theorem execBranch_raises : Raises [.instAddrMisaligned] (s.execBranch inst) := by
  rw [execBranch]
  rcases branchTaken inst.funct3 (s.gpr inst.rs1) (s.gpr inst.rs2) with _ | _ | _
  · exact raises_none hq
  · exact raises_none hq
  · dsimp only
    split_ifs
    · exact raises_raiseTrap (s := { s with debugIsBranch := true }) hq List.mem_cons_self _ true
    · exact raises_none hq

theorem execOpimm_raises : Raises es (s.execOpimm inst) := by
  rw [execOpimm_eq]
  cases opimm inst with
  | none => exact raises_none hq
  | some r => exact alu_raises hq _ _ _ _

theorem execOpimm32_raises : Raises es (s.execOpimm32 inst) := by
  rw [execOpimm32]
  cases opimm32 inst with
  | none => exact raises_none hq
  | some r => exact alu_raises hq _ _ _ _

theorem execOp_raises : Raises es (s.execOp inst) := by
  rw [execOp_eq]
  cases op inst with
  | none => exact raises_none hq
  | some r => exact alu_raises hq _ _ _ _

theorem execOp32_raises : Raises es (s.execOp32 inst) := by
  rw [execOp32]
  cases op32 inst with
  | none => exact raises_none hq
  | some r => exact alu_raises hq _ _ _ _

theorem csrOp_raises (write : Bool) (data : Word → Word) :
    Raises es (s.csrOp inst cfg write data) := by
  have hsets (h : Hart δ) (old : Word) (hh : h.raised = []) :
      (if inst.rd ≠ 0 then (s.withPriv h).setGpr inst.rd old
        else s.withPriv h).priv.raised = [] := by
    split_ifs <;> exact hh
  rw [csrOp]
  refine iteInduction (fun _ => raises_none hq) fun _ => ?_
  cases s.priv.csrRead inst.csrIndex with
  | none => exact raises_none hq
  | some old =>
    cases write with
    | false => exact raises_none (hsets s.priv old hq)
    | true =>
      change Raises es (do
        let r ← s.priv.csrWrite cfg inst.csrIndex (data old)
        if !r.2 then return (s.withPriv r.1).illegal
        return (if inst.rd ≠ 0 then (s.withPriv r.1).setGpr inst.rd old else s.withPriv r.1).done)
      rw [Hart.csrWrite]
      rcases RvPriv.csrWrite cfg s.priv.toState inst.csrIndex (data old) with _ | ⟨t, _ | _⟩
      · exact raises_error _
      · exact raises_none hq
      · exact raises_none (hsets { s.priv with toState := t } old hq)

theorem orIllegal_raises {r : Option (Hart δ)} (hr : ∀ h, r = some h → h.raised = []) :
    Raises es (.ok (s.orIllegal r)) := by
  cases r with
  | none => exact raises_none hq
  | some h => exact raises_none (hr h rfl)

theorem execEcall_raises (hp : Implemented s.priv.curPriv)
    (hx : (if s.priv.curPriv = Priv.m then ExcNo.ecallM else .ecallU) ∈ es) :
    Raises es (s.execEcall cfg) := by
  refine iteInduction (fun _ => iteInduction (fun _ => raises_error _) fun _ => raises_error _)
    fun _ => ?_
  have hc : (⟨s.priv.curPriv.setWidth 63 + 8, 0⟩ : Cause) =
      .exc (if s.priv.curPriv = Priv.m then ExcNo.ecallM else .ecallU) := by
    rcases hp with hp | hp <;> rw [hp] <;> rfl
  have h := raises_raiseTrap hq hx 0 false
  rw [raiseTrap, ← hc] at h
  rw [Hart.ecall]
  cases hr : s.priv.raiseTrap ⟨s.priv.curPriv.setWidth 63 + 8, 0⟩ 0 <;> rw [hr] at h <;> exact h

theorem execEbreak_raises (hx : ExcNo.breakPoint ∈ es) : Raises es (s.execEbreak cfg) := by
  refine iteInduction (fun _ => raises_error _) fun _ => ?_
  have h := raises_raiseTrap hq hx 0 false
  rw [raiseTrap] at h
  rw [Hart.ebreak]
  cases hr : s.priv.raiseTrap (.exc .breakPoint) 0 <;> rw [hr] at h <;> exact h

theorem execPriv_raises (hp : Implemented s.priv.curPriv) :
    Raises [.breakPoint, if s.priv.curPriv = Priv.m then .ecallM else .ecallU]
      (s.execPriv inst cfg) := by
  have hill : Raises [.breakPoint, if s.priv.curPriv = Priv.m then .ecallM else .ecallU]
      (.ok s.illegal) := raises_none hq
  have hdone : Raises [.breakPoint, if s.priv.curPriv = Priv.m then .ecallM else .ecallU]
      (.ok s.done) := raises_none hq
  refine iteInduction (fun _ => iteInduction (fun _ => ?_) fun _ => hill) fun _ => ?_
  · exact iteInduction (fun _ => execEcall_raises hq hp (by simp)) fun _ =>
      iteInduction (fun _ => execEbreak_raises hq (by simp)) fun _ => hill
  refine iteInduction (fun _ => iteInduction (fun _ => ?_) fun _ => hdone) fun _ => ?_
  · refine iteInduction (fun _ => ?_) fun _ => iteInduction (fun _ => hdone) fun _ => hill
    refine orIllegal_raises hq fun h hs => ?_
    unfold Hart.sret at hs
    split_ifs at hs
    obtain rfl := Option.some_inj.mp hs
    exact hq
  refine iteInduction (fun _ => iteInduction (fun _ => ?_) fun _ => hill) fun _ => ?_
  · refine orIllegal_raises hq fun h hs => ?_
    obtain ⟨t, -, rfl⟩ := Option.map_eq_some_iff.mp hs
    exact hq
  refine iteInduction (fun _ => orIllegal_raises hq fun h hs => ?_) fun _ => hill
  rw [Hart.sfenceVma] at hs
  split_ifs at hs
  obtain rfl := Option.some_inj.mp hs
  exact hq

theorem execSystem_raises (hp : Implemented s.priv.curPriv) :
    Raises [.breakPoint, if s.priv.curPriv = Priv.m then .ecallM else .ecallU]
      (s.execSystem inst cfg) := by
  refine iteInduction (fun _ => execPriv_raises hq hp) fun _ => ?_
  refine iteInduction (fun _ => csrOp_raises hq _ _) fun _ => ?_
  refine iteInduction (fun _ => csrOp_raises hq _ _) fun _ => ?_
  refine iteInduction (fun _ => csrOp_raises hq _ _) fun _ => ?_
  refine iteInduction (fun _ => csrOp_raises hq _ _) fun _ => ?_
  refine iteInduction (fun _ => csrOp_raises hq _ _) fun _ => ?_
  exact iteInduction (fun _ => csrOp_raises hq _ _) fun _ => raises_none hq

variable [MmioDev δ]

theorem orTrap_raises {α : Type} {r : Outcome (Hart δ × Except ExcNo α)} (hr : s.priv.Served r)
    (he : ∀ h e, r = .ok (h, .error e) → e ∈ es) (tval : Word) {k : State δ → α → State δ}
    (hk : ∀ s' a, (k s' a).priv = s'.priv) :
    Raises es (do return (← s.orTrap (← r) tval k).done) := by
  cases hr with
  | exit code => exact raises_error _
  | value b x hb =>
    refine raises_none ?_
    change (k (s.withPriv { s.priv with bus := b }) x).priv.raised = []
    rw [hk]
    exact hq
  | fault b e hb =>
    exact raises_raiseTrap (s := s.withPriv { s.priv with bus := b }) hq (he _ _ rfl) tval false

theorem execLoad_raises (hm : Satp.mode s.priv.satp = 0) :
    Raises [.loadAddrMisaligned, .loadAccessFault] (s.execLoad inst) := by
  rw [execLoad]
  cases loadKind inst.funct3 with
  | none => exact raises_none hq
  | some k =>
    dsimp only
    rw [memRead]
    split_ifs
    · exact raises_raiseTrap hq (by simp) _ false
    · generalize s.gpr inst.rs1 + inst.imm12.signExtend 64 = startAddr
      have h : Raises [.loadAddrMisaligned, .loadAccessFault] _ := orTrap_raises hq
        (Hart.vaRead_served (a := startAddr) (n := k.size) hm)
        (fun h e hr => by simp [Hart.error_of_untranslated hm hr, Hart.readKind])
        startAddr (k := fun s buf => s.setGpr inst.rd (k.extend buf)) fun _ _ => rfl
      generalize s.priv.vaRead startAddr k.size = r at h ⊢
      rcases r with _ | ⟨_, _ | _⟩ <;> exact h

theorem execStore_raises (hm : Satp.mode s.priv.satp = 0) :
    Raises [.storeAddrMisaligned, .storeAccessFault] (s.execStore inst cfg) := by
  rw [execStore]
  cases storeSize inst.funct3 with
  | none => exact raises_none hq
  | some size =>
    dsimp only
    rw [memWrite]
    split_ifs
    · exact raises_raiseTrap hq (by simp) _ false
    · generalize s.gpr inst.rs1 + inst.immS.signExtend 64 = startAddr
      have hv : s.priv.Served (s.priv.vaWrite cfg startAddr size (s.gpr inst.rs2)) :=
        Hart.vaWrite_served cfg hm
      have h : Raises [.storeAddrMisaligned, .storeAccessFault] _ := orTrap_raises hq hv
        (fun h e hr => by simp [Hart.error_of_untranslated hm hr, Hart.writeKind])
        startAddr (k := fun s _ => s) fun _ _ => rfl
      generalize s.priv.vaWrite cfg startAddr size (s.gpr inst.rs2) = r at h ⊢
      rcases r with _ | ⟨_, _ | _⟩ <;> exact h

theorem execAmo_raises (hm : Satp.mode s.priv.satp = 0) :
    Raises [.storeAccessFault] (s.execAmo inst) := by
  rw [execAmo]
  refine iteInduction (fun _ => raises_none hq) fun h3 => ?_
  have hz := amo_size h3
  refine iteInduction (fun _ => iteInduction (fun _ => raises_none hq) fun _ => ?_) fun _ =>
    iteInduction (fun _ => ?_) fun _ => iteInduction (fun hop => ?_) fun _ => raises_none hq
  · refine orTrap_raises hq (Hart.vaLr_served hm hz) (fun h e hr => ?_) _ fun _ _ => rfl
    rw [Hart.vaLr, if_neg (not_not_intro hz)] at hr
    simp [Hart.error_of_untranslated hm hr, Hart.lrKind]
  · refine orTrap_raises hq (Hart.vaSc_served hm hz) (fun h e hr => ?_) _ fun _ _ => rfl
    rw [Hart.vaSc, if_neg (not_not_intro hz)] at hr
    simp [Hart.error_of_untranslated hm hr, Hart.writeKind]
  · refine orTrap_raises hq (Hart.vaAmo_served hm hz (Systembus.amoResult_isSome hop))
      (fun h e hr => ?_) _ fun _ _ => rfl
    rw [Hart.vaAmo, if_neg (not_not_intro hz)] at hr
    simp [Hart.error_of_untranslated hm hr, Hart.writeKind]

end Raises

section Step

variable [MmioDev δ]

theorem decodeExec_raises (hi : s.Inv) (hq : s.priv.raised = []) :
    Raises (exceptionsOf inst s.priv.curPriv) (s.decodeExec inst cfg) := by
  have hq : (s.fetched inst).priv.raised = [] := hq
  have hm : Satp.mode (s.fetched inst).priv.satp = 0 := hi.priv.mode
  have hjump (ho : inst.opcode ∈ [Opcode.jal, Opcode.jalr, Opcode.branch]) :
      exceptionsOf inst s.priv.curPriv = [.instAddrMisaligned] := if_pos ho
  refine iteInduction (fun _ => raises_none hq) fun _ => ?_
  refine iteInduction (fun _ => raises_none hq) fun _ => ?_
  refine iteInduction (fun _ => raises_none hq) fun _ => ?_
  refine iteInduction (fun ho => ?_) fun _ => ?_
  · rw [hjump (by simp [ho])]
    exact link_raises hq _
  refine iteInduction (fun ho => ?_) fun _ => ?_
  · rw [hjump (by simp [ho])]
    exact link_raises hq _
  refine iteInduction (fun ho => ?_) fun _ => ?_
  · rw [hjump (by simp [ho])]
    exact execBranch_raises hq
  refine iteInduction (fun ho => ?_) fun _ => ?_
  · rw [exceptionsOf, ho]
    exact execLoad_raises hq hm
  refine iteInduction (fun ho => ?_) fun _ => ?_
  · rw [exceptionsOf, ho]
    exact execStore_raises hq hm
  refine iteInduction (fun _ => execOpimm_raises hq) fun _ => ?_
  refine iteInduction (fun _ => execOpimm32_raises hq) fun _ => ?_
  refine iteInduction (fun _ => execOp_raises hq) fun _ => ?_
  refine iteInduction (fun _ => execOp32_raises hq) fun _ => ?_
  refine iteInduction (fun ho => ?_) fun _ => ?_
  · rw [exceptionsOf, ho]
    exact execAmo_raises hq hm
  refine iteInduction (fun _ => raises_none hq) fun _ => ?_
  refine iteInduction (fun ho => ?_) fun _ => raises_none hq
  rw [exceptionsOf, ho]
  exact execSystem_raises hq hi.priv.curPriv

/-- The members of `rv_priv` when an instruction is fetched, outside the difftest mode. -/
def sampled (s : State δ) (l : Lines) : RvPriv.State :=
  preExec { s.priv.toState with mcycle := s.priv.mcycle + 1, ip := sampleIp s.priv.ip l }

/-- How the fetch ends outside the difftest mode. -/
inductive Fetches (l : Lines) (s : State δ) : Outcome (State δ × Option RvInstr) → Prop
  | interrupt (hi : finalIntIndex (s.sampled l) ≠ excCustomOk) :
    Fetches l s (.ok (s.withPriv ({ s.priv with toState := s.sampled l }.trapped
      ⟨(finalIntIndex (s.sampled l)).setWidth 63, 1⟩ 0), none))
  | fault (hi : finalIntIndex (s.sampled l) = excCustomOk) {b : Systembus δ}
    (hb : s.priv.bus.Idle b) (x : ExcNo) (hx : x ∈ [ExcNo.instAddrMisaligned, .instAccessFault])
    (tval : Word) : Fetches l s
      (.ok (s.withPriv ({ s.priv with toState := s.sampled l, bus := b }.trapped (.exc x) tval),
        none))
  | inst (hi : finalIntIndex (s.sampled l) = excCustomOk) {b : Systembus δ}
    (hb : s.priv.bus.Idle b) (inst : RvInstr) : Fetches l s
      (.ok (s.withPriv { s.priv with toState := s.sampled l, bus := b }, some inst))

theorem vaIf_fetches (hi : finalIntIndex (s.sampled l) = excCustomOk)
    (hm : Satp.mode s.priv.satp = 0) (ha : (s.sampled l).curPc % pcAlign = 0) : Fetches l s (do
      match ← { s.priv with toState := s.sampled l }.vaIf (s.sampled l).curPc 4 with
      | (h, .ok curInstr) => return (s.withPriv h, some (curInstr.setWidth 32))
      | (h, .error (e, badVa)) => return (← (s.withPriv h).raiseTrap (.exc e) badVa, none)) := by
  obtain ⟨b, hb, h | ⟨v, h⟩⟩ := vaIf_cases (h := { s.priv with toState := s.sampled l }) hm ha
  · rw [h]
    change Fetches l s (do
      return (← (s.withPriv { s.priv with toState := s.sampled l, bus := b }).raiseTrap
        (.exc .instAccessFault) (s.sampled l).curPc, none))
    rw [raiseTrap_eq rfl (by decide)]
    exact .fault hi hb _ (by simp) _
  · rw [h]
    exact .inst hi hb _

theorem instrFetch_fetches (hd : s.difftestMode = false) (hm : Satp.mode s.priv.satp = 0) :
    Fetches l s (s.instrFetch l) := by
  have hpre : s.priv.preExec l =
      ({ s.priv with toState := s.sampled l } : Hart δ).checkAndRaiseInt := rfl
  rw [instrFetch, if_pos (by rw [hd]; rfl), hpre, Hart.checkAndRaiseInt]
  by_cases hi : finalIntIndex (s.sampled l) = excCustomOk
  · rw [if_neg (not_not_intro hi)]
    refine iteInduction (fun _ => ?_) fun ha => vaIf_fetches hi hm (not_not.mp ha)
    rw [raiseTrap_eq rfl (by decide)]
    exact .fault hi (.refl _) _ List.mem_cons_self _
  · rw [if_pos hi, Hart.raiseTrap_eq rfl (finalIntIndex_notPgfault _)]
    refine iteInduction (fun _ => .interrupt hi) fun h => ?_
    exact absurd (trapEntry_curNeedTrap (s.sampled l) _ 0) h

/-- Where an exception of a step can come from: the fetch, or the instruction in its mode. -/
def Possible (l : Lines) (s : State δ) (x : ExcNo) : Prop :=
  (x ∈ [ExcNo.instAddrMisaligned, .instAccessFault] ∧
    ∃ s₁, s.start.instrFetch l = .ok (s₁, none)) ∨
  ∃ s₁ inst, s.start.instrFetch l = .ok (s₁, some inst) ∧
    x ∈ .illegalInst :: exceptionsOf inst s.priv.nextPriv

/-- What a step does outside the difftest mode. -/
inductive Takes (cfg : Config) (l : Lines) (s : State δ) : State δ → Prop
  | interrupt (hi : finalIntIndex (s.sampled l) ≠ excCustomOk) :
    Takes cfg l s ((s.entered (s.sampled l) s.priv.bus).trapped
      ⟨(finalIntIndex (s.sampled l)).setWidth 63, 1⟩ 0)
  | exception (hi : finalIntIndex (s.sampled l) = excCustomOk) (b : Systembus δ) (inst : RvInstr)
    (isBranch : Bool) (x : ExcNo) (hx : s.Possible l x) (tval : Word) :
    Takes cfg l s ({ s.entered (s.sampled l) b with
      debugInst := inst, debugIsBranch := isBranch }.trapped (.exc x) tval)
  | complete (hi : finalIntIndex (s.sampled l) = excCustomOk) (b : Systembus δ) {s' : State δ}
    (hp : HartStep cfg (s.entered (s.sampled l) b).priv s'.priv) (npc : Word) :
    Takes cfg l s (s'.retire npc)

theorem fetched_takes (hi : s.Inv) (hint : finalIntIndex (s.sampled l) = excCustomOk)
    {b : Systembus δ} (hf : s.start.instrFetch l = .ok (s.entered (s.sampled l) b, some inst))
    (hs : (do exception inst (← (s.entered (s.sampled l) b).decodeExec inst cfg)) = .ok s') :
    Takes cfg l s s' := by
  obtain ⟨hi₁, hq⟩ := fetched_entered hi hf
  have he : Effect cfg inst _ _ := decodeExec_effect hi₁.curNeedTrap hi₁.priv.mode
  have hr : Raises (exceptionsOf inst _) ((s.entered (s.sampled l) b).decodeExec inst cfg) :=
    decodeExec_raises hi₁ hq
  have hpos (x : ExcNo) (hx : x ∈ .illegalInst :: exceptionsOf inst s.priv.nextPriv) :
      s.Possible l x := .inr ⟨_, inst, hf, hx⟩
  generalize (s.entered (s.sampled l) b).decodeExec inst cfg = r at he hr hs
  cases he with
  | exit => cases hs
  | mtvec => cases hs
  | @illegal s₂ h =>
    have hi₂ := (h.kept hi₁).1
    obtain ⟨b', i, br, -, rfl⟩ := h
    obtain rfl := Except.ok.inj ((exception_illegal hi₂).symm.trans hs)
    exact .exception hint b' i br _ (hpos _ List.mem_cons_self) _
  | @trap s₂ h cause tval newPc _ =>
    have hi₂ := (h.kept hi₁).1
    obtain ⟨b', i, br, -, rfl⟩ := h
    obtain rfl := Except.ok.inj ((exception_trapped hi₂.priv).symm.trans hs)
    have hmem : (cause, tval) ∈ [(cause, tval)] := List.mem_singleton_self _
    obtain ⟨x, hx, hc⟩ := hr _ rfl _ hmem
    obtain rfl : cause = .exc x := hc
    exact .exception hint b' i br x (hpos x (List.mem_cons_of_mem _ hx)) tval
  | @complete s₂ newPc _ hp₂ =>
    have hdone : exception inst ⟨s₂, false, newPc⟩ = _ := exception_eq (hi₁.priv.step hp₂).status
    obtain rfl := Except.ok.inj (hdone.symm.trans hs)
    exact .complete hint b hp₂ _

theorem step_takes (hi : s.Inv) (hd : s.difftestMode = false) (hs : s.step cfg l = .ok s') :
    Takes cfg l s s' := by
  have ht := not_timedOut hs
  have hf : Fetches l s.start (s.start.instrFetch l) := instrFetch_fetches hd hi.priv.mode
  generalize hr : s.start.instrFetch l = r at hf
  have hstep : s.step cfg l = _ := if_neg ht
  rw [hr] at hstep
  cases hf with
  | interrupt hint =>
    have he : exception 0 ⟨_, false, false⟩ = .ok ((s.entered (s.sampled l) s.priv.bus).trapped
        ⟨(finalIntIndex (s.sampled l)).setWidth 63, 1⟩ 0) :=
      exception_trapped (hi.priv.sampled .sampled s.priv.bus [])
    obtain rfl := Except.ok.inj ((hstep.symm.trans hs).symm.trans he)
    exact .interrupt hint
  | @fault hint b hb x hx tval =>
    have he : exception 0 ⟨_, false, false⟩ =
        .ok ((s.entered (s.sampled l) b).trapped (.exc x) tval) :=
      exception_trapped (hi.priv.sampled .sampled b [])
    obtain rfl := Except.ok.inj ((hstep.symm.trans hs).symm.trans he)
    have hpos : s.Possible l x := .inl ⟨hx, _, hr⟩
    exact .exception (s := s) hint b s.debugInst false x hpos tval
  | inst hint hb inst =>
    exact fetched_takes hi hint hr (hstep.symm.trans hs)

end Step

section Interrupts

/-- The interrupts from the highest to the lowest priority. -/
def interrupts : List ℕ := [11, 3, 7, 9, 1, 5]

/-- Interrupt `i` is pending and enabled when the next step starts. -/
structure Interrupted (l : Lines) (s : State δ) (i : ℕ) : Prop where
  ip : (sampleIp s.priv.ip l).getLsbD i = true
  ie : s.priv.ie.getLsbD i = true
  mode : s.priv.nextPriv = Priv.m → s.priv.status.getLsbD mie = true

theorem int2index_eq (m : Word) : int2index m =
    match interrupts.find? fun i => m.getLsbD i with
    | some i => BitVec.ofNat 64 i
    | none => excCustomOk := by
  simp only [interrupts, List.find?_cons, List.find?_nil, int2index]
  generalize m.getLsbD 11 = b11, m.getLsbD 3 = b3, m.getLsbD 7 = b7, m.getLsbD 9 = b9,
    m.getLsbD 1 = b1, m.getLsbD 5 = b5
  revert b11 b3 b7 b9 b1 b5
  decide

theorem csrWrite_ie {t : RvPriv.State} {i : BitVec 12} {data : Word} :
    ∀ r ∈ RvPriv.csrWrite cfg t i data, r.1.ie = t.ie ∨ r.1.ie = data &&& mIntMask := by
  unfold RvPriv.csrWrite
  repeat' refine iteInduction (motive := fun o : Option (RvPriv.State × Bool) =>
    ∀ r ∈ o, r.1.ie = t.ie ∨ r.1.ie = data &&& mIntMask) (fun _ => ?_) fun _ => ?_
  all_goals
    rintro r hr
    cases hr <;> first | exact .inl rfl | exact .inr rfl

/-- Only the bits of interrupts are ever enabled. -/
def IeMasked (ie : Word) : Prop := ∀ i, ie.getLsbD i = true → i ∈ interrupts

theorem ieMasked_mask (data : Word) : IeMasked (data &&& mIntMask) := by
  intro i hi
  rw [BitVec.getLsbD_and, Bool.and_eq_true] at hi
  have hm : ∀ i < 64, mIntMask.getLsbD i = true → i ∈ interrupts := by decide
  exact hm i (BitVec.lt_of_getLsbD hi.2) hi.2

theorem HartStep.ieMasked {h h' : Hart δ} (hp : HartStep cfg h h') (hi : IeMasked h.ie) :
    IeMasked h'.ie := by
  cases hp with
  | mem => exact hi
  | csr csrIndex data s hm hw =>
    rcases csrWrite_ie (s, true) hw with h | h
    · change IeMasked s.ie
      rwa [h]
    · change IeMasked s.ie
      rw [h]
      exact ieMasked_mask data
  | mret => exact hi
  | sret _ hs =>
    unfold Hart.sret at hs
    split_ifs at hs
    obtain rfl := Option.some_inj.mp hs
    exact hi
  | sfence => exact hi

theorem Reachable.ieMasked [MmioDev δ] (hr : Reachable cfg s) : IeMasked s.priv.ie := by
  induction hr with
  | new s => exact fun i hi => absurd hi (by simp [State.new, Hart.new, reset])
  | jump h newPc ih => exact ih
  | setGpr h r value ih => exact ih
  | setDifftestMode h value ih => exact ih
  | importDiffTestInfo h mcycle minstret mip interruptOn ih => exact ih
  | bus h b ih => exact ih
  | @step s s' h l hs ih =>
    have hi := h.inv
    have he : Ends cfg l s (s.step cfg l) := step_ends hi
    rw [hs] at he
    cases he with
    | @trap t b ht hb inst br cause tval =>
      change IeMasked (trapEntry t cause tval).ie
      have hte : trapEntry t cause tval = raiseTrapM { t with curNeedTrap := true } cause tval :=
        (hi.priv.sampled ht b []).trapEntry_eq cause tval
      rw [hte]
      cases ht <;> exact ih
    | @complete t b ht hb s₁ hw hp npc =>
      refine hp.ieMasked ?_
      cases ht <;> exact ih

theorem finalIntIndex_eq (hi : s.priv.Inv) : finalIntIndex (s.sampled l) =
    if s.priv.nextPriv = Priv.m ∧ s.priv.status.getLsbD mie = false then excCustomOk
    else int2index (sampleIp s.priv.ip l &&& s.priv.ie) := by
  have hz : int2index 0 = excCustomOk := rfl
  have hdeleg : (s.sampled l).mideleg = 0 := hi.mideleg
  have hp : (s.sampled l).curPriv = s.priv.nextPriv := rfl
  have hbits : (s.sampled l).ip &&& (s.sampled l).ie = sampleIp s.priv.ip l &&& s.priv.ie := rfl
  have hst : (s.sampled l).status = s.priv.status := rfl
  rw [finalIntIndex, hdeleg, hp, hbits, hst]
  generalize sampleIp s.priv.ip l &&& s.priv.ie = m
  rcases hi.nextPriv with h | h
  · have hand : m &&& ~~~(0 : Word) = m := by
      have hones : ~~~(0 : Word) = BitVec.allOnes 64 := by decide
      rw [hones, BitVec.and_allOnes]
    rw [h, if_pos rfl]
    simp only [hand, true_and]
    cases s.priv.status.getLsbD mie with
    | false => simp
    | true =>
      by_cases hm : m = 0
      · rw [if_neg (by simp [hm]), if_neg (by decide), hm, hz]
      · rw [if_pos ⟨hm, rfl⟩, if_neg (by decide)]
  · have hu : Priv.u ≠ Priv.m := by decide
    have hlt : Priv.u.ult Priv.m = true := by decide
    rw [h]
    simp [hu, hlt]

/-- Either an interrupt is taken, the first one, or none is enabled. -/
theorem finalIntIndex_cases (hi : s.priv.Inv) (hm : IeMasked s.priv.ie) :
    (finalIntIndex (s.sampled l) = excCustomOk ∧ ∀ i, ¬ s.Interrupted l i) ∨
    ∃ i, First interrupts (s.Interrupted l) i ∧
      finalIntIndex (s.sampled l) = BitVec.ofNat 64 i := by
  rw [finalIntIndex_eq hi]
  by_cases hmask : s.priv.nextPriv = Priv.m ∧ s.priv.status.getLsbD mie = false
  · refine .inl ⟨if_pos hmask, fun i h => ?_⟩
    exact absurd (hmask.2.symm.trans (h.mode hmask.1)) Bool.false_ne_true
  · have hmode : s.priv.nextPriv = Priv.m → s.priv.status.getLsbD mie = true := by
      intro h
      by_contra hs
      exact hmask ⟨h, Bool.eq_false_iff.mpr hs⟩
    have hbit (i : ℕ) : (sampleIp s.priv.ip l &&& s.priv.ie).getLsbD i = true ↔
        s.Interrupted l i := by
      rw [BitVec.getLsbD_and, Bool.and_eq_true]
      exact ⟨fun h => ⟨h.1, h.2, hmode⟩, fun h => ⟨h.ip, h.ie⟩⟩
    rw [if_neg hmask, int2index_eq]
    cases hf : interrupts.find? fun i => (sampleIp s.priv.ip l &&& s.priv.ie).getLsbD i with
    | none =>
      refine .inl ⟨rfl, fun i h => ?_⟩
      exact List.find?_eq_none.mp hf i (hm i h.ie) ((hbit i).mpr h)
    | some i =>
      exact .inr ⟨i, (Selection.first_of_find? (by decide) hf).congr fun j _ => hbit j, rfl⟩

/-- **The traps of the reference model**: a step takes the first enabled interrupt, and it takes
none only if none is enabled. Then it raises nothing, or one exception that the fetch or its
instruction can raise in its mode. -/
theorem trap_law [MmioDev δ] (hr : Reachable cfg s) (hd : s.difftestMode = false)
    (hs : s.step cfg l = .ok s') :
    (∃ i, First interrupts (s.Interrupted l) i ∧
      s'.priv.raised = [(⟨BitVec.ofNat 63 i, 1⟩, 0)]) ∨
    (∀ i, ¬ s.Interrupted l i) ∧
      (s'.priv.raised = [] ∨ ∃ x v, s.Possible l x ∧ s'.priv.raised = [(.exc x, v)]) := by
  have hcase := finalIntIndex_cases (l := l) hr.inv.priv hr.ieMasked
  cases step_takes hr.inv hd hs with
  | interrupt hi =>
    rcases hcase with ⟨h, -⟩ | ⟨i, hf, h⟩
    · exact absurd h hi
    · have hw : ∀ i ∈ interrupts, (BitVec.ofNat 64 i).setWidth 63 = BitVec.ofNat 63 i := by decide
      rw [h, hw i hf.mem]
      exact .inl ⟨i, hf, rfl⟩
  | exception hi b inst isBranch x hx tval =>
    rcases hcase with ⟨-, hn⟩ | ⟨i, hf, h⟩
    · exact .inr ⟨hn, .inr ⟨x, tval, hx, rfl⟩⟩
    · have hne : ∀ i ∈ interrupts, BitVec.ofNat 64 i ≠ excCustomOk := by decide
      exact absurd (h.symm.trans hi) (hne i hf.mem)
  | complete hi b hp npc =>
    rcases hcase with ⟨-, hn⟩ | ⟨i, hf, h⟩
    · exact .inr ⟨hn, .inl hp.kept.1⟩
    · have hne : ∀ i ∈ interrupts, BitVec.ofNat 64 i ≠ excCustomOk := by decide
      exact absurd (h.symm.trans hi) (hne i hf.mem)

/-- A program that starts with `CSRRWI MIE, 8` and `CSRRWI MSTATUS, 8`. -/
def enableImage : Bytes.Memory 64 := fun a =>
  ((if a.toNat / 4 = 0 then 0x30445073 else 0x30045073 : BitVec 32) >>>
    (8 * (a.toNat % 4))).setWidth 8

/-- The state behind its two instructions. -/
def enabledCore : Outcome (State MmioMem) := do
  (← (Test.core ⟨true, false⟩ enableImage default).step ⟨true, false⟩ {}).step ⟨true, false⟩ {}

/-- The software line interrupts the third instruction. -/
theorem trap_law_msip : ∃ s s', enabledCore = .ok s ∧
    s.step ⟨true, false⟩ { msip := true } = .ok s' ∧
    ((∃ i, First interrupts (s.Interrupted { msip := true }) i ∧
        s'.priv.raised = [(⟨BitVec.ofNat 63 i, 1⟩, 0)]) ∨
      (∀ i, ¬ s.Interrupted { msip := true } i) ∧ (s'.priv.raised = [] ∨
        ∃ x v, s.Possible { msip := true } x ∧ s'.priv.raised = [(.exc x, v)])) ∧
    s'.priv.raised = [(⟨3, 1⟩, 0)] := by
  have hr : Reachable ⟨true, false⟩ (Test.core ⟨true, false⟩ enableImage default) :=
    .jump (.new _) _
  exact ⟨_, _, rfl, rfl, trap_law ((hr.step {} rfl).step {} rfl) rfl rfl, rfl⟩

end Interrupts

end RvCore.State

end PuaCpu
