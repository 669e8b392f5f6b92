import PuaCpu.Agreement.Cosim
import PuaCpu.Agreement.Csr
import PuaCpu.Harness.Beat
import PuaCpu.Sequential.Machine

/-! # The state of both machines

What the sequential machine and the reference model agree on between two
instructions, and how the reference model fetches the next one: the program
counter, the registers, the memory, the mode and the CSRs that both implement.
-/

namespace PuaCpu.Lockstep

open RvCore RvPriv CsrValue

/-- The CSRs of both sides, with all lines low and a direct trap vector. -/
structure CsrAgrees (c : Csr.State) (h : Hart MmioMem) : Prop where
  isolated : Csr.Isolated c
  nextPriv : h.nextPriv = c.mode
  reg : ∀ r ∉ [CsrName.cycle, .stap, .mip], held h r = c.reg r
  mip : c.reg .mip = 0
  ip : sampleIp h.ip {} = 0
  mcounteren : h.mcounteren = 0
  direct : (c.reg .mtvec).extractLsb' 0 2 = 0#2

/-- The states of both sides, over one memory. -/
structure Agrees (a : Sequential.State) (s : State MmioMem) (mem : Bytes.Memory 64) : Prop where
  inv : s.Inv
  difftestMode : s.difftestMode = false
  pc : s.pc = a.pc
  gpr : s.gpr = a.regs.read
  bus : s.priv.bus.Maps mem
  mem : Holds a.mem mem
  csr : CsrAgrees a.csr s.priv

theorem agrees_init (image : Bytes.Memory 64) (s : State MmioMem) :
    Agrees (Sequential.init (dmemOf image)) (Test.core testConfig image s) image where
  inv := (CsrValue.sim_init image s).inv
  difftestMode := rfl
  pc := rfl
  gpr := by
    funext r
    change 0 = if r = 0 then 0 else 0
    rw [ite_self]
  bus := Systembus.maps_bus image
  mem := holds_dmemOf image
  csr :=
    { isolated := Csr.isolated_init
      nextPriv := rfl
      reg := (CsrValue.sim_init image s).reg
      mip := rfl
      ip := (CsrValue.sim_init image s).ip
      mcounteren := rfl
      direct := rfl }

section Fetch

/-- The reference model when it decodes the instruction at `pc`. -/
def begun (s : State MmioMem) : State MmioMem :=
  s.entered (preExec { s.priv.toState with
    mcycle := s.priv.mcycle + 1, ip := sampleIp s.priv.ip {} }) s.priv.bus

/-- Without a pending bit no interrupt is taken, whatever the mode. -/
theorem finalIntIndex_of_not_pending {t : RvPriv.State} (hip : t.ip = 0) (hd : t.mideleg = 0) :
    finalIntIndex t = excCustomOk := by
  have hi : int2index 0#64 = excCustomOk := rfl
  by_cases hm : t.curPriv = Priv.m
  · simp [finalIntIndex, hip, hm]
  · simp [finalIntIndex, hip, hd, hm, ← hi]

variable {a : Sequential.State} {s : State MmioMem} {mem : Bytes.Memory 64}

theorem begun_inv (hi : s.Inv) : (begun s).Inv := State.Inv.entered (l := {}) hi .sampled s.priv.bus

theorem preExec_start (h : Agrees a s mem) :
    s.start.priv.preExec {} = .ok (begun s).priv := by
  have hf : finalIntIndex (begun s).priv.toState = excCustomOk :=
    finalIntIndex_of_not_pending h.csr.ip h.inv.priv.mideleg
  change (begun s).priv.checkAndRaiseInt = _
  rw [Hart.checkAndRaiseInt, hf, if_neg (not_not_intro rfl)]

theorem instrFetch_eq (h : Agrees a s mem) (ha : InMemory a.pc 4)
    (h4 : a.pc % pcAlign = 0) : s.start.instrFetch {} =
      .ok (begun s, some ((Bytes.load mem (place a.pc) 4).setWidth 32)) := by
  have hpc : (s.start.withPriv (begun s).priv).pc = a.pc := h.pc
  have hif : (begun s).priv.vaIf a.pc 4 =
      .ok ((begun s).priv, .ok (Bytes.load mem (place a.pc) 4)) := by
    have h2 : ¬((4 : Word) = 4 ∧ a.pc % 4 = 2) := by
      rintro ⟨-, h⟩
      exact absurd (h4.symm.trans h) (by decide)
    have hb : (begun s).priv.bus.Maps mem := h.bus
    have hr : (begun s).priv.bus.paRead a.pc 4 = _ := hb.paRead ha
    rw [Hart.vaIf, if_neg h2, Hart.vaIfPart, if_pos (.inr (begun_inv h.inv).priv.mode), hr]
    rfl
  have hd : s.start.difftestMode = false := h.difftestMode
  rw [State.instrFetch, hd, if_pos (by decide), preExec_start h]
  change (if (begun s).priv.curNeedTrap = true then (.ok (begun s, none) : Outcome _)
    else if (s.start.withPriv (begun s).priv).pc % pcAlign ≠ 0 then _ else _) = _
  rw [if_neg (by exact Bool.false_ne_true), hpc, if_neg (not_not_intro h4), hif]
  rfl

/-- A step that does not time out executes the fetched instruction. -/
theorem step_eq (h : Agrees a s mem) (ha : InMemory a.pc 4) (h4 : a.pc % pcAlign = 0)
    (ht : s.priv.mcycle < 2000000) : s.step testConfig {} = (do
      State.exception ((Bytes.load mem (place a.pc) 4).setWidth 32)
        (← (begun s).decodeExec ((Bytes.load mem (place a.pc) 4).setWidth 32) testConfig)) := by
  have hn : ¬(testConfig.runRiscvTest ∧ 2000000 ≤ s.priv.mcycle) := by
    rintro ⟨-, hle⟩
    exact absurd hle (BitVec.not_le.mpr ht)
  rw [State.step, if_neg hn, instrFetch_eq h ha h4]
  rfl

end Fetch

end PuaCpu.Lockstep
