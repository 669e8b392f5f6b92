import PuaCpu.Reference.Dispatch
import PuaCpu.Reference.Served
import PuaCpu.Reference.Trap

/-! # What an instruction does

Each case of the switch in `exec` fails before it changes anything, raises one
trap, or completes with at most one register and one step of the privileged
state. The only assertion in its way is the one on the mode of `mtvec`.
-/

namespace PuaCpu

namespace RvPriv

/-- What `csr_write` can do. -/
inductive CsrWritten (cfg : Config) (s : State) (csrIndex : BitVec 12) (data : Word) :
    Option (State × Bool) → Prop
  | reserved (hi : csrIndex = 0x305) (hm : ¬ data.extractLsb' 0 2 ≤ 1#2) :
    CsrWritten cfg s csrIndex data none
  | unknown : CsrWritten cfg s csrIndex data (some (s, false))
  | status : CsrWritten cfg s csrIndex data
    (some ({ s with status := writeStatus cfg s data }, true))
  | plain (ie mtvec mscratch mepc mcause mtval ip mcycle : Word) :
    CsrWritten cfg s csrIndex data (some ({ s with
      ie := ie, mtvec := mtvec, mscratch := mscratch, mepc := mepc, mcause := mcause
      mtval := mtval, ip := ip, mcycle := mcycle }, true))

theorem csrWritten (cfg : Config) (s : State) (csrIndex : BitVec 12) (data : Word) :
    CsrWritten cfg s csrIndex data (csrWrite cfg s csrIndex data) := by
  refine iteInduction (fun _ => .plain ..) fun _ => ?_
  refine iteInduction (fun _ => .status) fun _ => ?_
  refine iteInduction (fun _ => .plain ..) fun _ => ?_
  refine iteInduction (fun hi => iteInduction (fun _ => .plain ..) fun hm => .reserved hi hm)
    fun _ => ?_
  refine iteInduction (fun _ => .plain ..) fun _ => ?_
  refine iteInduction (fun _ => .plain ..) fun _ => ?_
  refine iteInduction (fun _ => .plain ..) fun _ => ?_
  refine iteInduction (fun _ => .plain ..) fun _ => ?_
  refine iteInduction (fun _ => .plain ..) fun _ => ?_
  refine iteInduction (fun _ => .plain ..) fun _ => ?_
  refine iteInduction (fun _ => .plain ..) fun _ => ?_
  refine iteInduction (fun _ => .plain ..) fun _ => ?_
  exact iteInduction (fun _ => .plain ..) fun _ => .unknown

end RvPriv

namespace RvCore.State

open RvPriv

variable {δ : Type}

/-- At most one register has been written, and the debug port shows it. -/
inductive Sets (s s' : State δ) : Prop
  | none (hg : s'.gpr = s.gpr) (hn : s'.debugRegNum = s.debugRegNum)
    (hd : s'.debugRegWdata = s.debugRegWdata)
  | one (r : RegAddr) (v : Word) (hg : s'.gpr = if r ≠ 0 then Function.update s.gpr r v else s.gpr)
    (hn : s'.debugRegNum = r) (hd : s'.debugRegWdata = v)

/-- What a completed instruction does to the hart. -/
inductive HartStep (cfg : Config) (h : Hart δ) : Hart δ → Prop
  | mem (pc : Word) (b : Systembus δ) (hb : b.devices = h.bus.devices) :
    HartStep cfg h { h with toState := { h.toState with curPc := pc }, bus := b }
  | csr (csrIndex : BitVec 12) (data : Word) (s : RvPriv.State) (hm : h.curPriv = Priv.m)
    (hw : RvPriv.csrWrite cfg h.toState csrIndex data = some (s, true)) :
    HartStep cfg h { h with toState := s }
  | mret (hm : h.curPriv = Priv.m) : HartStep cfg h { h with toState := mretM h.toState }
  | sret (h' : Hart δ) (hs : h.sret = some h') : HartStep cfg h h'
  | sfence (t : Sv39 32) : HartStep cfg h { h with sv39 := t }

/-- The value that a CSR instruction writes over an old one. -/
def csrData (s : State δ) (inst : RvInstr) (old : Word) : Option Word :=
  if inst.funct3 = Funct3.csrrw then some (s.gpr inst.rs1)
  else if inst.funct3 = Funct3.csrrwi then some (zimm inst)
  else if inst.rs1 = 0 then none
  else if inst.funct3 = Funct3.csrrs then some (old ||| s.gpr inst.rs1)
  else if inst.funct3 = Funct3.csrrc then some (old &&& ~~~s.gpr inst.rs1)
  else if inst.funct3 = Funct3.csrrsi then some (old ||| zimm inst)
  else if inst.funct3 = Funct3.csrrci then some (old &&& ~~~zimm inst)
  else none

/-- A permitted write of `mtvec` with a reserved mode. -/
structure ReservedMtvec (s : State δ) (inst : RvInstr) : Prop where
  opcode : inst.opcode = Opcode.system
  csrIndex : inst.csrIndex = 0x305
  curPriv : s.priv.curPriv = Priv.m
  mode : ∃ v, csrData s inst s.priv.mtvec = some v ∧ ¬ v.extractLsb' 0 2 ≤ 1#2

theorem HartStep.refl (cfg : Config) (h : Hart δ) : HartStep cfg h h := .mem _ _ rfl

variable [MmioDev δ]

/-- The core after a part of an instruction that had no effect: the reservation, the trace of the
debugger and nothing else may differ. -/
def Idle (s s' : State δ) : Prop :=
  ∃ b inst isBranch, s.priv.bus.Idle b ∧
    s' = { s with priv := { s.priv with bus := b }, debugInst := inst, debugIsBranch := isBranch }

/-- How an instruction ends. -/
inductive Effect (cfg : Config) (inst : RvInstr) (s : State δ) : Outcome (Exec δ) → Prop
  | exit (code : ℕ) : Effect cfg inst s (.error (.exit code))
  | mtvec (h : s.ReservedMtvec inst) : Effect cfg inst s (.error (.abort .csrWrite))
  | illegal {s' : State δ} (h : s.Idle s') : Effect cfg inst s (.ok s'.illegal)
  | trap {s' : State δ} (h : s.Idle s') (cause : Cause) (tval : Word) (newPc : Bool)
    (hc : cause.cause ≠ excInstrPgfault) :
    Effect cfg inst s (.ok ⟨s'.withPriv (s'.priv.trapped cause tval), false, newPc⟩)
  | complete {s' : State δ} (newPc : Bool) (hs : s.Sets s') (hp : HartStep cfg s.priv s'.priv) :
    Effect cfg inst s (.ok ⟨s', false, newPc⟩)

variable {cfg : Config} {inst : RvInstr} {s s' : State δ}

theorem Idle.refl (s : State δ) : s.Idle s :=
  ⟨_, _, _, .refl _, rfl⟩

theorem Idle.fetched (h : (s.fetched inst).Idle s') : s.Idle s' := by
  obtain ⟨b, i, br, hb, rfl⟩ := h
  exact ⟨b, i, br, hb, rfl⟩

theorem Effect.fetched {r : Outcome (Exec δ)} (h : Effect cfg inst (s.fetched inst) r) :
    Effect cfg inst s r := by
  cases h with
  | exit code => exact .exit code
  | mtvec h => exact .mtvec ⟨h.opcode, h.csrIndex, h.curPriv, h.mode⟩
  | illegal h => exact .illegal h.fetched
  | trap h cause tval newPc hc => exact .trap h.fetched cause tval newPc hc
  | complete newPc hs hp =>
    refine .complete newPc ?_ hp
    cases hs with
    | none hg hn hd => exact .none hg hn hd
    | one r v hg hn hd => exact .one r v hg hn hd

section Opcodes

theorem raiseTrap_effect (h : s.Idle s') (hn : s.priv.curNeedTrap = false) {e : ExcNo}
    (he : e ≠ .instPageFault) (tval : Word) (newPc : Bool) :
    Effect cfg inst s ((s'.raiseTrap (.exc e) tval).map fun s => ⟨s, false, newPc⟩) := by
  have hn' : s'.priv.curNeedTrap = false := by
    obtain ⟨b, i, br, -, rfl⟩ := h
    exact hn
  rw [raiseTrap_eq hn' he]
  exact .trap h _ tval newPc (exc_ne_pgfault he)

theorem setGpr_effect (r : RegAddr) (v : Word) : Effect cfg inst s (.ok (s.setGpr r v).done) :=
  .complete false (.one r v rfl rfl rfl) (.refl cfg _)

theorem alu_effect (a b : Word) {op : AluOp} (hop : op ≠ .nop) (op32 : Bool) :
    Effect cfg inst s (s.alu inst a b op op32) := by
  have hc (a b : Word) (op32 : Bool) : ∃ v, RvAlu.compute a b op op32 = some v := by
    cases op <;> simp only [RvAlu.compute] <;> first
      | exact ⟨_, rfl⟩
      | (split_ifs <;> exact ⟨_, rfl⟩)
      | exact absurd rfl hop
  have hx : ∃ v, RvAlu.aluExec a b op op32 = some v := by
    cases op32 with
    | false => exact hc a b false
    | true =>
      obtain ⟨v, hv⟩ := hc (RvAlu.int32 a) (RvAlu.int32 b) true
      exact ⟨RvAlu.int32 v, congrArg (Option.map RvAlu.int32) hv⟩
  obtain ⟨v, hv⟩ := hx
  rw [alu, hv]
  exact setGpr_effect _ _

theorem link_effect (hn : s.priv.curNeedTrap = false) (npc : Word) :
    Effect cfg inst s (s.link inst npc) := by
  rw [link]
  split_ifs
  · exact raiseTrap_effect (.refl s) hn (by decide) npc false
  · exact .complete true (.one inst.rd (s.pc + 4) rfl rfl rfl) (.mem npc _ rfl)

theorem execJal_effect (hn : s.priv.curNeedTrap = false) :
    Effect cfg inst s (s.execJal inst) := link_effect hn _

theorem execJalr_effect (hn : s.priv.curNeedTrap = false) :
    Effect cfg inst s (s.execJalr inst) := link_effect hn _

theorem execBranch_effect (hn : s.priv.curNeedTrap = false) :
    Effect cfg inst s (s.execBranch inst) := by
  rw [execBranch]
  rcases branchTaken inst.funct3 (s.gpr inst.rs1) (s.gpr inst.rs2) with _ | _ | _
  · exact .illegal (.refl s)
  · exact .complete false (.none rfl rfl rfl) (.refl cfg _)
  · have hi : s.Idle { s with debugIsBranch := true } := ⟨_, _, _, .refl _, rfl⟩
    change Effect cfg inst s (if (s.pc + inst.immB.signExtend 64) % pcAlign ≠ 0 then _ else _)
    split_ifs
    · exact raiseTrap_effect hi hn (by decide) _ true
    · exact .complete true (.none rfl rfl rfl) (.mem _ _ rfl)

theorem opimm_ne_nop : (opimm inst).map Prod.fst ≠ some .nop := by
  unfold opimm
  dsimp only
  repeat' refine iteInduction (motive := fun o : Option (AluOp × Word) =>
      o.map Prod.fst ≠ some .nop) (fun _ => ?_) fun _ => ?_
  all_goals simp

theorem opimm32_ne_nop : (opimm32 inst).map Prod.fst ≠ some .nop := by
  unfold opimm32
  dsimp only
  repeat' refine iteInduction (motive := fun o : Option (AluOp × Word) =>
      o.map Prod.fst ≠ some .nop) (fun _ => ?_) fun _ => ?_
  all_goals simp

theorem op_ne_nop : op inst ≠ some .nop := by
  unfold op
  repeat' refine iteInduction (motive := (· ≠ some AluOp.nop)) (fun _ => ?_) fun _ => ?_
  all_goals simp

theorem op32_ne_nop : op32 inst ≠ some .nop := by
  unfold op32
  repeat' refine iteInduction (motive := (· ≠ some AluOp.nop)) (fun _ => ?_) fun _ => ?_
  all_goals simp

theorem execOpimm_effect : Effect cfg inst s (s.execOpimm inst) := by
  rw [execOpimm_eq]
  cases h : opimm inst with
  | none => exact .illegal (.refl s)
  | some r => exact alu_effect _ _ (fun hn => opimm_ne_nop (by rw [h, ← hn]; rfl)) false

theorem execOpimm32_effect : Effect cfg inst s (s.execOpimm32 inst) := by
  rw [execOpimm32]
  cases h : opimm32 inst with
  | none => exact .illegal (.refl s)
  | some r => exact alu_effect _ _ (fun hn => opimm32_ne_nop (by rw [h, ← hn]; rfl)) true

theorem execOp_effect : Effect cfg inst s (s.execOp inst) := by
  rw [execOp_eq]
  cases h : op inst with
  | none => exact .illegal (.refl s)
  | some r => exact alu_effect _ _ (fun hn => op_ne_nop (by rw [h, ← hn])) false

theorem execOp32_effect : Effect cfg inst s (s.execOp32 inst) := by
  rw [execOp32]
  cases h : op32 inst with
  | none => exact .illegal (.refl s)
  | some r => exact alu_effect _ _ (fun hn => op32_ne_nop (by rw [h, ← hn])) true

end Opcodes

section Mem

variable {α : Type}

theorem orTrap_effect (hn : s.priv.curNeedTrap = false)
    {r : Outcome (Hart δ × Except ExcNo α)} (hr : s.priv.Served r) (tval : Word)
    {k : State δ → α → State δ} (hs : ∀ s' a, s'.Sets (k s' a) ∧ (k s' a).priv = s'.priv) :
    Effect cfg inst s (do return (← s.orTrap (← r) tval k).done) := by
  cases hr with
  | exit code => exact .exit code
  | value b x hb =>
    obtain ⟨hs, hp⟩ := hs (s.withPriv { s.priv with bus := b }) x
    refine .complete false ?_ ?_
    · cases hs with
      | none hg hn hd => exact .none hg hn hd
      | one r v hg hn hd => exact .one r v hg hn hd
    · rw [hp]
      exact .mem _ b hb
  | fault b e hb he =>
    have hi : s.Idle (s.withPriv { s.priv with bus := b }) := ⟨b, _, _, hb, rfl⟩
    exact raiseTrap_effect hi hn he tval false

theorem memRead_effect (hn : s.priv.curNeedTrap = false) (hm : Satp.mode s.priv.satp = 0)
    (startAddr size : Word) (extend : Word → Word) :
    Effect cfg inst s ((s.memRead startAddr size fun s buf =>
      s.setGpr inst.rd (extend buf)).map done) := by
  rw [memRead]
  split_ifs
  · exact raiseTrap_effect (.refl s) hn (by decide) _ false
  · have h : Effect cfg inst s _ := orTrap_effect hn
      (Hart.vaRead_served (a := startAddr) (n := size) hm) startAddr
      (k := fun s buf => s.setGpr inst.rd (extend buf))
      fun s' a => ⟨.one inst.rd (extend a) rfl rfl rfl, rfl⟩
    generalize s.priv.vaRead startAddr size = r at h ⊢
    rcases r with _ | ⟨_, _ | _⟩ <;> exact h

theorem execLoad_effect (hn : s.priv.curNeedTrap = false) (hm : Satp.mode s.priv.satp = 0) :
    Effect cfg inst s (s.execLoad inst) := by
  rw [execLoad]
  cases loadKind inst.funct3 with
  | none => exact .illegal (.refl s)
  | some k => exact memRead_effect hn hm _ k.size k.extend

theorem execStore_effect (hn : s.priv.curNeedTrap = false) (hm : Satp.mode s.priv.satp = 0) :
    Effect cfg inst s (s.execStore inst cfg) := by
  rw [execStore]
  cases storeSize inst.funct3 with
  | none => exact .illegal (.refl s)
  | some size =>
    dsimp only
    rw [memWrite]
    split_ifs
    · exact raiseTrap_effect (.refl s) hn (by decide) _ false
    · have hv : s.priv.Served (s.priv.vaWrite cfg (s.gpr inst.rs1 + inst.immS.signExtend 64) size
          (s.gpr inst.rs2)) := Hart.vaWrite_served cfg hm
      have h : Effect cfg inst s _ :=
        orTrap_effect hn hv (s.gpr inst.rs1 + inst.immS.signExtend 64)
          (k := fun s _ => s) fun s' _ => ⟨.none rfl rfl rfl, rfl⟩
      generalize s.priv.vaWrite cfg _ size (s.gpr inst.rs2) = r at h ⊢
      rcases r with _ | ⟨_, _ | _⟩ <;> exact h

theorem amo_size {f : BitVec 3} (h : ¬ (f ≠ 0b010 ∧ f ≠ 0b011)) :
    1#64 <<< f = 4 ∨ 1#64 <<< f = 8 := by
  revert h
  revert f
  decide

theorem execAmo_effect (hn : s.priv.curNeedTrap = false) (hm : Satp.mode s.priv.satp = 0) :
    Effect cfg inst s (s.execAmo inst) := by
  rw [execAmo]
  refine iteInduction (fun _ => .illegal (.refl s)) fun h3 => ?_
  have hz := amo_size h3
  refine iteInduction (fun _ => iteInduction (fun _ => .illegal (.refl s)) fun _ => ?_) fun _ =>
    iteInduction (fun _ => ?_) fun _ => iteInduction (fun hop => ?_) fun _ => .illegal (.refl s)
  · exact orTrap_effect hn (Hart.vaLr_served hm hz) _ fun _ _ =>
      ⟨.one inst.rd _ rfl rfl rfl, rfl⟩
  · exact orTrap_effect hn (Hart.vaSc_served hm hz) _ fun _ _ =>
      ⟨.one inst.rd _ rfl rfl rfl, rfl⟩
  · exact orTrap_effect hn (Hart.vaAmo_served hm hz (Systembus.amoResult_isSome hop)) _ fun _ _ =>
      ⟨.one inst.rd _ rfl rfl rfl, rfl⟩

end Mem

section System

theorem csrOp_effect {write : Bool} {data : Word → Word} (ho : inst.opcode = Opcode.system)
    (hd : write = true → ∀ old, csrData s inst old = some (data old)) :
    Effect cfg inst s (s.csrOp inst cfg write data) := by
  rw [csrOp]
  refine iteInduction (fun _ => .illegal (.refl s)) fun hp => ?_
  have hm : s.priv.curPriv = Priv.m := by
    by_contra hm
    exact hp (by rw [Hart.csrOpPermissionCheck, if_pos hm]; rfl)
  have hsets (h : Hart δ) (old : Word) : s.Sets
      (if inst.rd ≠ 0 then (s.withPriv h).setGpr inst.rd old else s.withPriv h) := by
    split_ifs
    · exact .one inst.rd old rfl rfl rfl
    · exact .none rfl rfl rfl
  have hpriv (h : Hart δ) (old : Word) :
      (if inst.rd ≠ 0 then (s.withPriv h).setGpr inst.rd old else s.withPriv h).priv = h := by
    split_ifs <;> rfl
  cases hr : s.priv.csrRead inst.csrIndex with
  | none => exact .illegal (.refl s)
  | some old =>
    cases write with
    | false => exact .complete false (hsets s.priv old) (by rw [hpriv]; exact .refl cfg _)
    | true =>
      have hw := csrWritten cfg s.priv.toState inst.csrIndex (data old)
      change Effect cfg inst s (do
        let r ← s.priv.csrWrite cfg inst.csrIndex (data old)
        if !r.2 then return (s.withPriv r.1).illegal
        return (if inst.rd ≠ 0 then (s.withPriv r.1).setGpr inst.rd old else s.withPriv r.1).done)
      rw [Hart.csrWrite]
      generalize hc : RvPriv.csrWrite cfg s.priv.toState inst.csrIndex (data old) = r at hw
      cases hw with
      | reserved hi hmode =>
        refine .mtvec ⟨ho, hi, hm, data old, ?_, hmode⟩
        have hold : old = s.priv.mtvec := by
          rw [hi] at hr
          exact (Option.some_inj.mp hr).symm
        rw [← hold]
        exact hd rfl old
      | unknown => exact .illegal (.refl s)
      | status =>
        exact .complete false (hsets _ old) (by rw [hpriv]; exact .csr _ _ _ hm hc)
      | plain =>
        exact .complete false (hsets _ old) (by rw [hpriv]; exact .csr _ _ _ hm hc)

theorem raise_effect (hn : s.priv.curNeedTrap = false) {cause : Cause}
    (hc : cause.cause ≠ excInstrPgfault) :
    Effect cfg inst s ((s.priv.raiseTrap cause 0).map fun h => (s.withPriv h).done) := by
  rw [Hart.raiseTrap_eq hn hc]
  exact .trap (.refl s) cause 0 false hc

theorem execEcall_effect (hn : s.priv.curNeedTrap = false) :
    Effect cfg inst s (s.execEcall cfg) := by
  have hc : ∀ p : Priv, p.setWidth 63 + 8 ≠ excInstrPgfault := by decide
  refine iteInduction (fun h => ?_) fun _ => raise_effect hn (hc _)
  rw [if_pos h.2]
  exact .exit _

theorem execEbreak_effect (hn : s.priv.curNeedTrap = false) :
    Effect cfg inst s (s.execEbreak cfg) :=
  iteInduction (fun _ => .exit 0) fun _ => raise_effect hn (by decide)

theorem orIllegal_effect {r : Option (Hart δ)} (hr : ∀ h, r = some h → HartStep cfg s.priv h) :
    Effect cfg inst s (.ok (s.orIllegal r)) := by
  cases r with
  | none => exact .illegal (.refl s)
  | some h => exact .complete false (.none rfl rfl rfl) (hr h rfl)

theorem mret_effect : Effect cfg inst s (.ok (s.orIllegal s.priv.mret)) := by
  refine orIllegal_effect fun h hr => ?_
  by_cases hm : s.priv.curPriv = Priv.m
  · rw [Hart.mret, RvPriv.mret, hm] at hr
    obtain rfl := Option.some_inj.mp hr
    exact .mret hm
  · rw [Hart.mret, RvPriv.mret, if_pos (by simpa using hm)] at hr
    exact absurd hr.symm (Option.some_ne_none h)

theorem sfence_effect (vaddr asid : Word) :
    Effect cfg inst s (.ok (s.orIllegal (s.priv.sfenceVma vaddr asid))) := by
  refine orIllegal_effect fun h hr => ?_
  rw [Hart.sfenceVma] at hr
  split_ifs at hr
  obtain rfl := Option.some_inj.mp hr
  exact .sfence _

theorem execPriv_effect (hn : s.priv.curNeedTrap = false) :
    Effect cfg inst s (s.execPriv inst cfg) := by
  have hi : Effect cfg inst s (.ok s.illegal) := .illegal (.refl s)
  have hdone : Effect cfg inst s (.ok s.done) := .complete false (.none rfl rfl rfl) (.refl cfg _)
  refine iteInduction (fun _ => iteInduction (fun _ => ?_) fun _ => hi) fun _ => ?_
  · exact iteInduction (fun _ => execEcall_effect hn) fun _ =>
      iteInduction (fun _ => execEbreak_effect hn) fun _ => hi
  refine iteInduction (fun _ => iteInduction (fun _ => ?_) fun _ => hdone) fun _ => ?_
  · exact iteInduction (fun _ => orIllegal_effect fun h hr => .sret h hr) fun _ =>
      iteInduction (fun _ => hdone) fun _ => hi
  refine iteInduction (fun _ => iteInduction (fun _ => mret_effect) fun _ => hi) fun _ => ?_
  exact iteInduction (fun _ => sfence_effect _ _) fun _ => hi

theorem execSystem_effect (hn : s.priv.curNeedTrap = false) (ho : inst.opcode = Opcode.system) :
    Effect cfg inst s (s.execSystem inst cfg) := by
  refine iteInduction (fun _ => execPriv_effect hn) fun _ => ?_
  have hw {f : BitVec 3} (h : inst.funct3 = f) (hf : f ∉ [Funct3.csrrw, Funct3.csrrwi])
      (hz : (inst.rs1 != 0) = true) (old : Word) : s.csrData inst old =
      if f = Funct3.csrrs then some (old ||| s.gpr inst.rs1)
      else if f = Funct3.csrrc then some (old &&& ~~~s.gpr inst.rs1)
      else if f = Funct3.csrrsi then some (old ||| zimm inst)
      else if f = Funct3.csrrci then some (old &&& ~~~zimm inst)
      else none := by
    simp only [List.mem_cons, List.not_mem_nil, or_false, not_or] at hf
    rw [csrData, h, if_neg hf.1, if_neg hf.2, if_neg (by simpa using hz)]
  refine iteInduction (fun h => csrOp_effect ho fun _ _ => if_pos h) fun h1 => ?_
  refine iteInduction (fun h => csrOp_effect ho fun hz _ => hw h (by decide) hz _) fun _ => ?_
  refine iteInduction (fun h => csrOp_effect ho fun hz _ => hw h (by decide) hz _) fun _ => ?_
  refine iteInduction (fun h => csrOp_effect ho fun _ _ => ?_) fun _ => ?_
  · rw [csrData, if_neg h1, if_pos h]
  refine iteInduction (fun h => csrOp_effect ho fun hz _ => hw h (by decide) hz _) fun _ => ?_
  refine iteInduction (fun h => csrOp_effect ho fun hz _ => hw h (by decide) hz _) fun _ => ?_
  exact .illegal (.refl s)

end System

/-- Every instruction word ends in one of these ways. -/
theorem decodeExec_effect (hn : s.priv.curNeedTrap = false) (hm : Satp.mode s.priv.satp = 0) :
    Effect cfg inst s (s.decodeExec inst cfg) := by
  refine .fetched ?_
  refine iteInduction (fun _ => .illegal (.refl _)) fun _ => ?_
  refine iteInduction (fun _ => setGpr_effect _ _) fun _ => ?_
  refine iteInduction (fun _ => setGpr_effect _ _) fun _ => ?_
  refine iteInduction (fun _ => execJal_effect hn) fun _ => ?_
  refine iteInduction (fun _ => execJalr_effect hn) fun _ => ?_
  refine iteInduction (fun _ => execBranch_effect hn) fun _ => ?_
  refine iteInduction (fun _ => execLoad_effect hn hm) fun _ => ?_
  refine iteInduction (fun _ => execStore_effect hn hm) fun _ => ?_
  refine iteInduction (fun _ => execOpimm_effect) fun _ => ?_
  refine iteInduction (fun _ => execOpimm32_effect) fun _ => ?_
  refine iteInduction (fun _ => execOp_effect) fun _ => ?_
  refine iteInduction (fun _ => execOp32_effect) fun _ => ?_
  refine iteInduction (fun _ => execAmo_effect hn hm) fun _ => ?_
  refine iteInduction (fun _ => .complete false (.none rfl rfl rfl) (.refl cfg _)) fun _ => ?_
  exact iteInduction (fun h => execSystem_effect hn h) fun _ => .illegal (.refl _)

end RvCore.State

end PuaCpu
