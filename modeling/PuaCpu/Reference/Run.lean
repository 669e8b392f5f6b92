import PuaCpu.Reference.Harness
import PuaCpu.Reference.Step

/-! # Runs of the reference model

The invariant holds in every state that the simulator can bring the core to.
A step that raises a trap raises one and changes nothing else, and after any
other step the debug port shows the register that the step wrote.
-/

namespace PuaCpu.RvCore.State

open RvPriv

variable {δ : Type} [MmioDev δ]

/-- The states that the simulator brings the core to. The devices may change between steps. -/
inductive Reachable (cfg : Config) : State δ → Prop
  | new (s : State δ) : Reachable cfg (s.new cfg)
  | jump {s : State δ} (h : Reachable cfg s) (newPc : Word) : Reachable cfg (s.jump newPc)
  | setGpr {s : State δ} (h : Reachable cfg s) (r : RegAddr) (value : Word) :
    Reachable cfg (s.setGpr r value)
  | setDifftestMode {s : State δ} (h : Reachable cfg s) (value : Bool) :
    Reachable cfg (s.setDifftestMode value)
  | importDiffTestInfo {s : State δ} (h : Reachable cfg s) (mcycle minstret mip : Word)
    (interruptOn : Bool) : Reachable cfg (s.importDiffTestInfo mcycle minstret mip interruptOn)
  | bus {s : State δ} (h : Reachable cfg s) (b : Systembus δ) :
    Reachable cfg (s.withPriv { s.priv with bus := b })
  | step {s s' : State δ} (h : Reachable cfg s) (l : Lines) (hs : s.step cfg l = .ok s') :
    Reachable cfg s'

variable {cfg : Config} {l : Lines} {s s' : State δ}

theorem Inv.step (hi : s.Inv) (hs : s.step cfg l = .ok s') : s'.Inv := by
  have he : Ends cfg l s (s.step cfg l) := step_ends hi
  rw [hs] at he
  cases he with
  | @trap t b ht hb inst br cause tval =>
    obtain ⟨h1, h2, h3, h4, h5, h6⟩ := (hi.priv.sampled ht b []).trapped cause tval
    exact ⟨⟨h1, h2, h3, h4, h5, h6⟩, rfl⟩
  | @complete t b ht hb s1 hw hp npc =>
    obtain ⟨h1, h2, h3, h4, h5, h6⟩ := (hi.priv.sampled ht b []).step hp
    exact ⟨⟨h1, h2, h3, h4, h5, h6⟩, rfl⟩

theorem Reachable.inv (hr : Reachable cfg s) : s.Inv := by
  induction hr with
  | new s => exact ⟨Hart.inv_new cfg _, rfl⟩
  | jump h newPc ih =>
    exact ⟨ih.priv.step (.mem newPc _ rfl : HartStep cfg _ _), ih.curNeedTrap⟩
  | setGpr h r value ih => exact ⟨ih.priv, ih.curNeedTrap⟩
  | setDifftestMode h value ih => exact ⟨ih.priv, ih.curNeedTrap⟩
  | importDiffTestInfo h mcycle minstret mip interruptOn ih =>
    obtain ⟨h1, h2, h3, h4, h5, h6⟩ := ih.priv
    exact ⟨⟨h1, h2, h3, h5, h5, h6⟩, rfl⟩
  | bus h b ih =>
    obtain ⟨h1, h2, h3, h4, h5, h6⟩ := ih.priv
    exact ⟨⟨h1, h2, h3, h4, h5, h6⟩, ih.curNeedTrap⟩
  | step h l hs ih => exact ih.step hs

/-- After a step the debug port shows the only register that the step wrote. -/
theorem step_gpr (hi : s.Inv) (hs : s.step cfg l = .ok s') : s'.gpr =
    if s'.debugRegNum ≠ 0 then Function.update s.gpr s'.debugRegNum s'.debugRegWdata
    else s.gpr := by
  have he : Ends cfg l s (s.step cfg l) := step_ends hi
  rw [hs] at he
  cases he with
  | trap => rfl
  | @complete t b ht hb s1 hw hp npc =>
    cases hw with
    | none hg hn hd =>
      change s1.gpr = if s1.debugRegNum ≠ 0 then _ else _
      rw [hg, hn]
      rfl
    | one r v hg hn hd =>
      change s1.gpr =
        if s1.debugRegNum ≠ 0 then Function.update s.gpr s1.debugRegNum s1.debugRegWdata else s.gpr
      rw [hg, hn, hd]
      rfl

section Atomic

/-- The members of `rv_priv` that hold CSRs, after a trap. -/
structure CsrFrame (l : Lines) (h h' : Hart δ) : Prop where
  misa : h'.misa = h.misa
  medeleg : h'.medeleg = h.medeleg
  mideleg : h'.mideleg = h.mideleg
  ie : h'.ie = h.ie
  mtvec : h'.mtvec = h.mtvec
  mcounteren : h'.mcounteren = h.mcounteren
  mscratch : h'.mscratch = h.mscratch
  ip : h'.ip = h.ip ∨ h'.ip = sampleIp h.ip l
  mcycle : h'.mcycle = h.mcycle ∨ h'.mcycle = h.mcycle + 1
  minstret : h'.minstret = h.minstret
  hartId : h'.hartId = h.hartId
  stvec : h'.stvec = h.stvec
  sscratch : h'.sscratch = h.sscratch
  sepc : h'.sepc = h.sepc
  scause : h'.scause = h.scause
  stval : h'.stval = h.stval
  satp : h'.satp = h.satp
  scounteren : h'.scounteren = h.scounteren

/-- A step that did nothing but raise one trap. -/
structure Atomic (l : Lines) (s s' : State δ) : Prop where
  once : ∃ cause tval, s'.priv.raised = [(cause, tval)]
  gpr : s'.gpr = s.gpr
  mem : s'.priv.bus.dev = s.priv.bus.dev
  debugRegNum : s'.debugRegNum = 0
  mepc : s'.priv.mepc = s.pc
  pc : s'.pc = s'.priv.trapPc
  csrs : CsrFrame l s.priv s'.priv

omit [MmioDev δ] in
/-- An instruction that completes raises nothing, and leaves the counter of instructions alone. -/
theorem HartStep.kept {h h' : Hart δ} (hp : HartStep cfg h h') :
    h'.raised = h.raised ∧ h'.minstret = h.minstret := by
  cases hp with
  | mem => exact ⟨rfl, rfl⟩
  | csr => exact ⟨rfl, rfl⟩
  | mret => exact ⟨rfl, rfl⟩
  | sret _ hs =>
    unfold Hart.sret at hs
    split_ifs at hs
    obtain rfl := Option.some_inj.mp hs
    exact ⟨rfl, rfl⟩
  | sfence => exact ⟨rfl, rfl⟩

theorem atomic_trapped {s : State MmioMem} (hi : s.Inv) {t : RvPriv.State} {b : Systembus MmioMem}
    (ht : Sampled l s.priv.toState t) (hb : s.priv.bus.Idle b) (inst : RvInstr) (isBranch : Bool)
    (cause : Cause) (tval : Word) :
    Atomic l s ({ s.entered t b with
      debugInst := inst, debugIsBranch := isBranch }.trapped cause tval) := by
  have he : trapEntry t cause tval = raiseTrapM { t with curNeedTrap := true } cause tval :=
    (hi.priv.sampled ht b []).trapEntry_eq cause tval
  refine ⟨⟨cause, tval, rfl⟩, rfl, hb.dev passive_mmioMem, rfl, ?_, rfl, ?_⟩
  · change (trapEntry t cause tval).mepc = s.pc
    rw [he]
    cases ht <;> rfl
  · change CsrFrame l s.priv { s.priv with
      toState := { trapEntry t cause tval with
        curPc := (trapEntry t cause tval).trapPc, curNeedTrap := false }
      bus := b
      minstret := if (trapEntry t cause tval).curNeedTrap then s.priv.minstret
        else s.priv.minstret + 1
      raised := [(cause, tval)] }
    rw [he]
    cases ht with
    | kept =>
      exact ⟨rfl, rfl, rfl, rfl, rfl, rfl, rfl, .inl rfl, .inl rfl, rfl, rfl, rfl, rfl, rfl, rfl,
        rfl, rfl, rfl⟩
    | sampled =>
      exact ⟨rfl, rfl, rfl, rfl, rfl, rfl, rfl, .inr rfl, .inr rfl, rfl, rfl, rfl, rfl, rfl, rfl,
        rfl, rfl, rfl⟩

/-- Every step that raises a trap is atomic. -/
theorem trap_atomic {cfg : Config} {s : State MmioMem} (hr : Reachable cfg s) (l : Lines) :
    s.step cfg l ≠ .error (.abort .raiseTrap) ∧
      ∀ s', s.step cfg l = .ok s' → s'.priv.raised ≠ [] → Atomic l s s' := by
  have he : Ends cfg l s (s.step cfg l) := step_ends hr.inv
  generalize s.step cfg l = r at he
  cases he with
  | exit code => exact ⟨nofun, nofun⟩
  | mtvec h => exact ⟨nofun, nofun⟩
  | trap ht hb inst isBranch cause tval =>
    refine ⟨nofun, fun s' hs _ => ?_⟩
    obtain rfl := Except.ok.inj hs
    exact atomic_trapped hr.inv ht hb inst isBranch cause tval
  | complete ht hb hs hp npc =>
    refine ⟨nofun, fun s' hs' hn => absurd ?_ hn⟩
    obtain rfl := Except.ok.inj hs'
    exact hp.kept.1

/-- The first word of an empty program is an illegal instruction. -/
theorem trap_atomic_illegal : ∃ s', (Test.core ⟨true, false⟩ (fun _ => 0) default).step
      ⟨true, false⟩ {} = .ok s' ∧
    Atomic {} (Test.core ⟨true, false⟩ (fun _ => 0) default) s' := by
  have hr : Reachable ⟨true, false⟩ (Test.core ⟨true, false⟩ (fun _ => 0) default) :=
    .jump (.new _) _
  exact ⟨_, rfl, (trap_atomic hr {}).2 _ rfl (by decide)⟩

end Atomic

end PuaCpu.RvCore.State
