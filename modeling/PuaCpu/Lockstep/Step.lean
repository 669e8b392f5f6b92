import PuaCpu.Agreement.Transfer
import PuaCpu.Lockstep.Relation
import PuaCpu.Reference.Retired
import PuaCpu.Sequential.Refinement

/-! # The end of a step

An instruction without a trap on either side. Whatever it does, the two steps
end in the same way: the exit of the reference model adds nothing to what the
instruction did, and the CSRs of an instruction of another unit stay as they are.
-/

namespace PuaCpu.Lockstep

open RvCore RvPriv CsrValue

variable {imem : SramAddr → BitVec 32} {a : Sequential.State} {s b e : RvCore.State MmioMem}
  {mem mem' : Bytes.Memory 64} {inst : RvInstr}

section Core

variable (imem a)

/-- What the CSR unit sees of the instruction. -/
def csrIn : Csr.In := Fu.csrIn (Sequential.decode imem a) {}

/-- The instruction of the sequential machine does not trap. -/
def Quiet : Prop := Csr.trap a.csr (csrIn imem a) = false

instance : Decidable (Quiet imem a) := inferInstanceAs (Decidable (_ = _))

variable {imem a}

theorem csrNext_eq : (Sequential.step imem a).csr = Csr.step a.csr (csrIn imem a) := rfl

theorem dutUpdate_of_trap (h : Csr.trap a.csr (csrIn imem a) = true) :
    Cosim.dutUpdate (Sequential.execute imem a) = none := by
  rw [Csr.trap, Bool.and_eq_true] at h
  have hx : (Sequential.execute imem a).hasExc = true := h.1
  rw [Cosim.dutUpdate, WriteBackUnit.regfile, hx]
  simp

theorem Quiet.hasExc (hq : Quiet imem a) : Csr.hasExc a.csr (csrIn imem a) = false := by
  have hv : (csrIn imem a).info.valid = true := rfl
  rwa [Quiet, Csr.trap, hv, Bool.and_true] at hq

theorem Quiet.exception (hq : Quiet imem a) (k : ExcNo) :
    (csrIn imem a).excInfo.exception k = false := by
  have hx := hq.hasExc
  rw [Csr.hasExc, Bool.or_eq_false_iff, Csr.isException, orR_eq_false, Csr.ex] at hx
  have hk := hx.1 k
  split_ifs at hk hx
  · exact absurd (hx.1 ExcNo.illegalInst) (by rw [ExceptionInfo.raise_exception_self]; decide)
  · exact hk

theorem Quiet.isIllegal (hq : Quiet imem a) : Csr.isIllegal a.csr (csrIn imem a) = false := by
  have hx := hq.hasExc
  rw [Csr.hasExc, Bool.or_eq_false_iff, Csr.isException, orR_eq_false, Csr.ex] at hx
  by_contra hi
  rw [Bool.not_eq_false] at hi
  have hk := hx.1 ExcNo.illegalInst
  rw [if_pos hi, ExceptionInfo.raise_exception_self] at hk
  exact absurd hk (by decide)

theorem Quiet.not_bru_hasExc (hq : Quiet imem a) :
    Bru.hasExc (Lsu.ex (Sequential.decode imem a).ex (Sequential.decode imem a).info
      (Sequential.decode imem a).srcInfo) a.pc (Sequential.decode imem a).info
      (Sequential.decode imem a).srcInfo = false := by
  by_contra hb
  rw [Bool.not_eq_false] at hb
  have hk : (Bru.ex _ _ _ _).exception _ = false := hq.exception .instAddrMisaligned
  have hb' : Bru.hasExc _ (Sequential.decode imem a).pc _ _ = true := hb
  rw [Bru.ex, if_pos hb', ExceptionInfo.raise_exception_self] at hk
  exact absurd hk (by decide)

theorem Quiet.not_lsu_hasExc (hq : Quiet imem a) :
    Lsu.hasExc (Sequential.decode imem a).info (Sequential.decode imem a).srcInfo = false := by
  by_contra hl
  rw [Bool.not_eq_false] at hl
  have hb : Bru.hasExc _ (Sequential.decode imem a).pc _ _ = false := hq.not_bru_hasExc
  have hk (k : ExcNo) : (Bru.ex _ _ _ _).exception k = false := hq.exception k
  rw [Bru.ex, hb, if_neg Bool.false_ne_true, Lsu.ex, if_pos hl] at hk
  split_ifs at hk
  · exact absurd (hk .loadAddrMisaligned) (by rw [ExceptionInfo.raise_exception_self]; decide)
  · exact absurd (hk .storeAddrMisaligned) (by rw [ExceptionInfo.raise_exception_self]; decide)

theorem Quiet.decode_exception (hq : Quiet imem a) (k : ExcNo) :
    (Sequential.decode imem a).ex.exception k = false := by
  have hb : Bru.hasExc _ (Sequential.decode imem a).pc _ _ = false := hq.not_bru_hasExc
  have hk : (Bru.ex _ _ _ _).exception k = false := hq.exception k
  rw [Bru.ex, hb, if_neg Bool.false_ne_true, Lsu.ex, hq.not_lsu_hasExc] at hk
  exact hk

theorem Quiet.target_aligned (hq : Quiet imem a)
    (hb : Bru.branch (Sequential.decode imem a).info (Sequential.decode imem a).srcInfo = true) :
    Bru.target a.pc (Sequential.decode imem a).info (Sequential.decode imem a).srcInfo % pcAlign =
      0 := by
  have he : orR (Lsu.ex (Sequential.decode imem a).ex (Sequential.decode imem a).info
      (Sequential.decode imem a).srcInfo).exception = false := by
    rw [Lsu.ex, hq.not_lsu_hasExc]
    exact orR_eq_false.mpr hq.decode_exception
  have hx := hq.not_bru_hasExc
  rw [Bru.hasExc, hb, he] at hx
  rw [Transfer.aligned_iff]
  simpa using hx

theorem Quiet.dutUpdate (hq : Quiet imem a) : Cosim.dutUpdate (Sequential.execute imem a) =
    if (Sequential.decode imem a).info.regWen ∧ (Sequential.decode imem a).info.regWaddr ≠ 0 then
      some ((Sequential.decode imem a).info.regWaddr, (Sequential.execute imem a).rdInfo.wdata)
    else none := by
  have hv : (Sequential.execute imem a).info.valid = true := rfl
  have hx : (Sequential.execute imem a).hasExc = false := hq.hasExc
  rw [Cosim.dutUpdate, WriteBackUnit.regfile, hx, hv]
  simp only [Bool.true_and, Bool.not_false, Bool.and_true, Bool.and_eq_true, bne_iff_ne]
  rfl

theorem mip_step (h : a.csr.reg .mip = 0) : (Sequential.step imem a).csr.reg .mip = 0 := by
  change Csr.mipUpdate (a.csr.reg .mip) {} = 0
  rw [h]
  decide

theorem Quiet.pc_step_of_not_mret (hq : Quiet imem a)
    (hm : Csr.mret a.csr (csrIn imem a) = false) : (Sequential.step imem a).pc =
    if Bru.branch (Sequential.decode imem a).info (Sequential.decode imem a).srcInfo then
      Bru.target a.pc (Sequential.decode imem a).info (Sequential.decode imem a).srcInfo
    else Core.low32 (a.pc + 4) := by
  have hc : Csr.flush a.csr (Fu.csrIn (Sequential.decode imem a) {}) = false := by
    have ht : Csr.trap a.csr (Fu.csrIn (Sequential.decode imem a) {}) = false := hq
    have hm : Csr.mret a.csr (Fu.csrIn (Sequential.decode imem a) {}) = false := hm
    rw [Csr.flush, ht, hm]
    rfl
  change (if Fu.flush a.csr (Sequential.decode imem a) {} then
    Fu.target a.csr (Sequential.decode imem a) {} else _) = _
  rw [Fu.flush, Fu.target, hc, Bool.or_false, if_neg Bool.false_ne_true]
  rfl

variable (hf : (Sequential.decode imem a).info.fusel ≠ .csr)

include hf

theorem not_isCsr : Csr.isCsr (csrIn imem a) = false := decide_eq_false hf

theorem not_mret : Csr.mret a.csr (csrIn imem a) = false := by
  rw [Csr.mret, Csr.isMret, not_isCsr hf]
  simp

theorem not_write : Csr.write (csrIn imem a) = false := by
  rw [Csr.write, not_isCsr hf, Bool.and_false]

/-- An instruction of another unit goes on, or to where the branch unit sends it. -/
theorem Quiet.pc_step (hq : Quiet imem a) : (Sequential.step imem a).pc =
    if Bru.branch (Sequential.decode imem a).info (Sequential.decode imem a).srcInfo then
      Bru.target a.pc (Sequential.decode imem a).info (Sequential.decode imem a).srcInfo
    else Core.low32 (a.pc + 4) :=
  hq.pc_step_of_not_mret (not_mret hf)

theorem Quiet.csrAgrees (hq : Quiet imem a) {h h' : Hart MmioMem} (hc : CsrAgrees a.csr h)
    (hr : ∀ r ∉ [CsrName.cycle, .stap, .mip], held h' r = held h r)
    (hn : h'.nextPriv = h.nextPriv) (hi : sampleIp h'.ip {} = 0)
    (hm : h'.mcounteren = h.mcounteren) : CsrAgrees (Sequential.step imem a).csr h' := by
  have hret := not_mret hf
  have hw : Csr.wen a.csr (csrIn imem a) = false := Csr.wen_of_not_write (not_write hf)
  have hkeep {r : CsrName} (hcy : r ≠ .cycle) (hm : r ≠ .mip) :
      (Csr.step a.csr (csrIn imem a)).reg r = a.csr.reg r := by
    have h1 : (Csr.step a.csr (csrIn imem a)).reg r = Csr.csrRegs a.csr (csrIn imem a) r :=
      Csr.nextReg_of_quiet hq hret hm
    rw [h1, Csr.csrRegs_of_not_stored (by simp [hw]) hcy]
  rw [csrNext_eq]
  refine ⟨Csr.isolated_step hc.isolated, ?_, fun r hr' => ?_, mip_step hc.mip, hi,
    hm.trans hc.mcounteren, by rw [hkeep (by decide) (by decide), hc.direct]⟩
  · rw [hn, hc.nextPriv]
    change _ = Csr.nextMode a.csr (csrIn imem a)
    rw [Csr.nextMode, hq, hret]
    rfl
  · rw [hr r hr', hc.reg r hr']
    simp only [List.mem_cons, List.not_mem_nil, or_false, not_or] at hr'
    rw [hkeep hr'.1 hr'.2.2]

end Core

section Exit

/-- The privileged state keeps its invariant in an instruction, however it ends. -/
theorem decodeExec_inv {r : Exec MmioMem} (hi : b.Inv)
    (hd : b.decodeExec inst testConfig = .ok r) : r.core.priv.Inv := by
  have he : State.Effect testConfig inst b (b.decodeExec inst testConfig) :=
    State.decodeExec_effect hi.curNeedTrap hi.priv.mode
  rw [hd] at he
  cases he with
  | illegal h => exact (h.kept hi).1.priv
  | trap h cause tval newPc _ => exact (h.kept hi).1.priv.trapped cause tval
  | complete newPc _ hp => exact hi.priv.step hp

/-- The reference model has completed the instruction in the same way: `e` is the core behind the
switch and `npc` the address that it goes on at. -/
structure Matches (imem : SramAddr → BitVec 32) (a : Sequential.State) (b e : RvCore.State MmioMem)
    (npc : Word) (mem' : Bytes.Memory 64) : Prop where
  update : Cosim.refUpdate e = Cosim.dutUpdate (Sequential.execute imem a)
  debugPc : e.debugPc = b.debugPc
  difftestMode : e.difftestMode = b.difftestMode
  npc : npc = (Sequential.step imem a).pc
  bus : e.priv.bus.Maps mem'
  mem : Holds (Sequential.step imem a).mem mem'
  mcycle : e.priv.mcycle = b.priv.mcycle
  csr : CsrAgrees (Sequential.step imem a).csr e.priv

/-- Where an instruction without `ri` goes on. -/
def exitPc (e : RvCore.State MmioMem) (newPc : Bool) : Word :=
  if e.priv.curNeedTrap then e.priv.trapPc else if newPc then e.pc else e.pc + 4

/-- The outcome of one step of both sides. -/
structure Stepped (imem : SramAddr → BitVec 32) (a : Sequential.State)
    (s s' : RvCore.State MmioMem) (mem' : Bytes.Memory 64) : Prop where
  agrees : Agrees (Sequential.step imem a) s' mem'
  shown : Cosim.mismatch (WriteBackUnit.debug (Sequential.execute imem a)) s' = false
  mcycle : s'.priv.mcycle = s.priv.mcycle + 1
  hidden : Csr.trap a.csr (csrIn imem a) = true → s'.debugRegNum = 0

theorem applyUpdate_refUpdate (g : RegAddr → Word) (s : RvCore.State MmioMem) :
    Cosim.applyUpdate g (Cosim.refUpdate s) =
      if s.debugRegNum ≠ 0 then Function.update g s.debugRegNum s.debugRegWdata else g := by
  rw [Cosim.refUpdate]
  split_ifs <;> rfl

theorem read_step (a : Sequential.State) : (Sequential.step imem a).regs.read =
    Cosim.applyUpdate a.regs.read (Cosim.dutUpdate (Sequential.execute imem a)) := by
  change (a.regs.write (WriteBackUnit.regfile (Sequential.execute imem a))).read = _
  rw [Cosim.write_regfile]
  generalize hu : Cosim.dutUpdate (Sequential.execute imem a) = u
  cases u with
  | none => rfl
  | some u =>
    have hne : u.1 ≠ 0 := by
      rw [Cosim.dutUpdate] at hu
      split_ifs at hu with hw
      obtain rfl := Option.some_inj.mp hu
      simp only [Bool.and_eq_true, bne_iff_ne] at hw
      exact hw.2
    funext r
    by_cases hr : r = 0
    · subst hr
      exact (Function.update_of_ne hne.symm _ _).symm
    · change (if r = 0 then 0 else Function.update a.regs u.1 u.2 r) =
        Function.update a.regs.read u.1 u.2 r
      rw [if_neg hr, Function.update_apply, Function.update_apply, ARegFile.read, if_neg hr]

theorem mismatch_of_update {d : MemWbData} (hp : d.pc = e.debugPc)
    (hu : Cosim.refUpdate e = Cosim.dutUpdate d) :
    Cosim.mismatch (WriteBackUnit.debug d) e = false := by
  have hr : e.debugRegNum ≠ 0 → d.info.regWaddr = e.debugRegNum ∧
      d.rdInfo.wdata = e.debugRegWdata := by
    intro hn
    rw [Cosim.refUpdate, if_pos hn, Cosim.dutUpdate] at hu
    split_ifs at hu
    obtain ⟨h1, h2⟩ := Prod.mk.inj (Option.some_inj.mp hu)
    exact ⟨h1.symm, h2.symm⟩
  rw [Cosim.mismatch, WriteBackUnit.debug]
  by_cases hn : e.debugRegNum = 0
  · simp [hp, hn]
  · obtain ⟨h1, h2⟩ := hr hn
    simp [hp, h1, h2]

/-- An instruction that both sides complete in the same way is one step of both. -/
theorem stepped_of_matches (h : Agrees a s mem) (ha : InMemory a.pc 4) (h4 : a.pc % pcAlign = 0)
    (ht : s.priv.mcycle < 2000000) (hc : (Bytes.load mem (place a.pc) 4).setWidth 32 = inst)
    (hv : State.isRvc inst = false) {newPc : Bool}
    (hd : (begun s).decodeExec inst testConfig = .ok ⟨e, false, newPc⟩)
    (hm : Matches imem a (begun s) e (exitPc e newPc) mem') :
    ∃ s', s.step testConfig {} = .ok s' ∧ Stepped imem a s s' mem' := by
  have hi : e.priv.Inv := decodeExec_inv (begun_inv h.inv) hd
  have hs : s.step testConfig {} = .ok (e.retire (exitPc e newPc)) := by
    rw [step_eq h ha h4 ht, hc, hd]
    change State.exception inst ⟨e, false, newPc⟩ = _
    rw [State.exception_eq hi.status, hv]
    rfl
  refine ⟨_, hs, ⟨?_, ?_, ?_, ?_⟩⟩
  · refine ⟨h.inv.step hs, hm.difftestMode.trans h.difftestMode, hm.npc, ?_, hm.bus, hm.mem, ?_⟩
    · rw [State.step_gpr h.inv hs, read_step, ← hm.update, ← h.gpr, applyUpdate_refUpdate]
      rfl
    · obtain ⟨h1, h2, h3, h4, h5, h6, h7⟩ := hm.csr
      refine ⟨h1, h2, fun r hr => ?_, h4, h5, h6, h7⟩
      rw [← h3 r hr]
      cases r <;> rfl
  · refine mismatch_of_update ?_ hm.update
    exact h.pc.symm.trans hm.debugPc.symm
  · exact hm.mcycle
  · intro htrap
    have hu : Cosim.refUpdate e = none := hm.update.trans (dutUpdate_of_trap htrap)
    rw [Cosim.refUpdate] at hu
    split_ifs at hu with hn
    exact not_not.mp hn

end Exit

end PuaCpu.Lockstep
