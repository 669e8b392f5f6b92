import PuaCpu.Pipeline.Interrupts
import PuaCpu.Reference.Priv

/-! # The CSR unit and the reference model

Both are driven by the same events: a synchronous exception, a return from
machine mode, or the write of a CSR instruction. They agree on the trap
registers, the status, the mode and the redirect target after every event.
-/

namespace PuaCpu.RvPriv

/-- What happens to the privileged state in one instruction. -/
inductive Event
  | trap (cause : ExcNo) (tval pc : Word)
  | mret
  | write (c : CsrName) (data : Word)
  deriving DecidableEq, Repr

/-- The causes that some unit of the core raises. -/
def dutCauses : List ExcNo :=
  [.instAddrMisaligned, .illegalInst, .breakPoint, .loadAddrMisaligned, .storeAddrMisaligned,
    .ecallU, .ecallM]

/-- The registers that are compared, beside the mode. -/
def sharedRegs : List CsrName := [.mstatus, .mepc, .mcause, .mtval, .mscratch, .mtvec]

/-- The machine with user mode that the RISC-V tests run on. -/
def testConfig : Config := ⟨true, false⟩

/-- One instruction of the reference model. -/
def exec (cfg : Config) (r : State) : Event → Option State
  | .trap cause tval pc =>
    raiseTrap { preExec r with curPc := pc } ⟨BitVec.ofNat 63 cause.val, 0⟩ tval
  | .mret => mret (preExec r)
  | .write c data => (csrWrite cfg (preExec r) c.addr data).bind fun (r, ok) =>
    if ok then some r else none

/-- The reference model after the events of the first cycles, from uninitialised members. -/
def run (cfg : Config) (r : State) (ev : ℕ → Option Event) : ℕ → Option State
  | 0 => some (reset cfg r)
  | t + 1 => (run cfg r ev t).bind fun r =>
    match ev t with
    | none => some r
    | some e => exec cfg r e

/-- The input of the CSR unit carries an event: an exception without interrupt of an instruction
that accesses no CSR of the map, an `MRET` in machine mode, or a CSR instruction that stores a
value. Without an event none of the compared registers is accessed. -/
def Realises (s : Csr.State) (i : Csr.In) : Option Event → Prop
  | none => Csr.trap s i = false ∧ Csr.mret s i = false ∧
      ∀ c ∈ sharedRegs, ¬(Csr.wen s i = true ∧ Csr.csrAddr i = c.addr)
  | some (.trap cause tval pc) => Csr.trap s i = true ∧ Csr.isInterrupt s i = false ∧
      Csr.exceptionNO s i = BitVec.ofNat 4 cause.val ∧ cause ∈ dutCauses ∧
      (Csr.ex s i).tval cause = tval ∧ i.pc = pc ∧
      ∀ c : CsrName, ¬(Csr.wen s i = true ∧ Csr.csrAddr i = c.addr)
  | some .mret => Csr.mret s i = true ∧ s.mode = Priv.m
  | some (.write c data) => i.info.valid = true ∧ i.info.fusel = .csr ∧ i.info.op ∈ Csr.csrOps ∧
      Csr.csrAddr i = c.addr ∧ Csr.trap s i = false ∧ c ∈ sharedRegs ∧
      Csr.requested i.info.op (Csr.srcValue i) (s.reg c) = data ∧
      (c = .mtvec → data.extractLsb' 0 2 = 0#2)

/-- The member of the reference model that a register is compared with. -/
def member (r : State) : CsrName → Word
  | .mstatus => r.status
  | .mepc => r.mepc
  | .mcause => r.mcause
  | .mtval => r.mtval
  | .mscratch => r.mscratch
  | .mtvec => r.mtvec
  | _ => 0

/-- The two machines hold the same registers and the same mode. -/
structure Agree (s : Csr.State) (r : State) : Prop where
  reg : ∀ c ∈ sharedRegs, member r c = s.reg c
  priv : r.nextPriv = s.mode

/-- The relation that the events keep: nothing is delegated and the trap vector is direct. -/
structure Sim (s : Csr.State) (r : State) : Prop extends Agree s r where
  medeleg : r.medeleg = 0
  mideleg : r.mideleg = 0
  direct : (s.reg .mtvec).extractLsb' 0 2 = 0#2

/-- The redirect of an event is the same on both sides. -/
def SameTarget (s : Csr.State) (i : Csr.In) (r : State) : Prop :=
  Csr.flush s i = r.curNeedTrap ∧ (r.curNeedTrap = true → Csr.target s i = r.trapPc)

variable {s : Csr.State} {i : Csr.In} {r : State}

theorem sim_init (r : State) : Sim Csr.init (reset testConfig r) where
  reg c hc := by
    have hs : member (reset testConfig r) .mstatus = Csr.init.reg .mstatus := by
      change Bits.set 0#64 uxl 2#2 = 0x200000000#64
      decide
    simp only [sharedRegs, List.mem_cons, List.not_mem_nil, or_false] at hc
    rcases hc with rfl | rfl | rfl | rfl | rfl | rfl <;> first | exact hs | rfl
  priv := rfl
  medeleg := rfl
  mideleg := rfl
  direct := by decide

section Trap

theorem base_shift (x : Word) :
    (x.extractLsb' 2 62).setWidth 64 <<< 2 = x.extractLsb' 2 62 ++ 0#2 := by
  apply BitVec.eq_of_getLsbD_eq
  intro j hj
  rw [BitVec.getLsbD_append, BitVec.getLsbD_shiftLeft, BitVec.getLsbD_setWidth]
  by_cases h : j < 2
  · simp [h]
  · simp [h, hj, show j - 2 < 64 by omega]

theorem not_trapToS (hm : r.medeleg = 0) (hi : r.mideleg = 0) (c : Cause) :
    trapToS r c = false := by
  simp [trapToS, hm, hi]

theorem kept_of_trap (hw : ∀ c : CsrName, ¬(Csr.wen s i = true ∧ Csr.csrAddr i = c.addr))
    {c : CsrName} (hc : c ∈ [CsrName.mscratch, .mtvec]) : (Csr.step s i).reg c = s.reg c := by
  have hn : c ∉ [CsrName.mip, .mstatus, .mepc, .mcause, .mtval] := by
    revert hc
    cases c <;> decide
  have hcy : c ≠ .cycle := ne_of_mem_of_not_mem hc (by decide)
  exact (Csr.nextReg_of_ne hn).trans (Csr.csrRegs_of_not_stored (hw c) hcy)

theorem trapStatus_eq (h : Agree s r) (hiso : Csr.Isolated s) (pc tval : Word) (cause : Cause) :
    (raiseTrapM { preExec r with curPc := pc, curNeedTrap := true } cause tval).status =
      Csr.trapMstatus s := by
  rw [Csr.trapMstatus_eq, Csr.trapMpp_of_isolated hiso, ← h.reg .mstatus (by decide), ← h.priv]
  change Bits.set (Bits.set (Bits.set r.status 7 _) 3 _) 11 _ = _
  rw [Bits.set_comm _ _ _ (show 11 + 2 ≤ 3 ∨ 3 + 1 ≤ 11 by omega),
    Bits.set_comm _ _ _ (show 11 + 2 ≤ 7 ∨ 7 + 1 ≤ 11 by omega)]
  rfl

theorem trapTarget_eq (hd : (s.reg .mtvec).extractLsb' 0 2 = 0#2)
    (hi : Csr.isInterrupt s i = false) (cause : BitVec 63) :
    Csr.trapTarget s i =
      vector (s.reg .mtvec) ((s.reg .mtvec).extractLsb' 0 2 != 0#2) cause := by
  rw [Csr.trapTarget, hi, Bool.and_false, if_neg (by decide), ← base_shift, vector, hd]
  rfl

theorem member_trap (h : Agree s r) (hiso : Csr.Isolated s) {cause : ExcNo} {tval pc : Word}
    (he : Realises s i (some (.trap cause tval pc))) {c : CsrName} (hc : c ∈ sharedRegs) :
    member (raiseTrapM { preExec r with curPc := pc, curNeedTrap := true }
      ⟨BitVec.ofNat 63 cause.val, 0⟩ tval) c = (Csr.step s i).reg c := by
  obtain ⟨ht, hi, hno, -, htv, hpc, hw⟩ := he
  have hcause : ∀ c : ExcNo, zeroExtend (BitVec.ofNat 4 c.val) 64 =
      (⟨BitVec.ofNat 63 c.val, 0⟩ : Cause).toWord := by decide
  have hfin : ∀ c : ExcNo, (BitVec.ofNat 4 c.val).toFin = c := by decide
  have hcn : Csr.causeNO s i = BitVec.ofNat 4 cause.val := by
    rw [Csr.causeNO, hi, if_neg (by decide), hno]
  obtain ⟨-, -, hmepc, hmc, hmt⟩ := Csr.step_of_trap ht
  simp only [sharedRegs, List.mem_cons, List.not_mem_nil, or_false] at hc
  rcases hc with rfl | rfl | rfl | rfl | rfl | rfl
  · have hst : (Csr.step s i).reg .mstatus = Csr.trapMstatus s := by
      simp [Csr.step, Csr.nextReg_mstatus, ht]
    rw [hst]
    exact trapStatus_eq h hiso pc tval _
  · rw [hmepc, hpc]
    rfl
  · rw [hmc, Csr.trapMcause, hi, hcn, if_neg (by decide), hcause]
    rfl
  · rw [hmt, Csr.trapMtval, hi, hcn, hfin, htv]
    rfl
  · rw [kept_of_trap hw (by decide)]
    exact h.reg .mscratch (by decide)
  · rw [kept_of_trap hw (by decide)]
    exact h.reg .mtvec (by decide)

theorem sim_trap (h : Sim s r) (hiso : Csr.Isolated s) {cause : ExcNo} {tval pc : Word}
    (he : Realises s i (some (.trap cause tval pc))) :
    ∃ r', exec testConfig r (.trap cause tval pc) = some r' ∧ Sim (Csr.step s i) r' ∧
      SameTarget s i r' := by
  have hreg := fun c (hc : c ∈ sharedRegs) => member_trap h.toAgree hiso he hc
  obtain ⟨ht, hi, -, hc, -, -, hw⟩ := he
  have hpg : ∀ c ∈ dutCauses, (BitVec.ofNat 63 c.val == excInstrPgfault) = false := by decide
  obtain ⟨hf, htg, -⟩ := Csr.step_of_trap ht
  have hmode : (Csr.step s i).mode = Priv.m := by simp [Csr.step, Csr.nextMode, ht]
  refine ⟨_, ?_, ⟨⟨hreg, hmode.symm⟩, h.medeleg, h.mideleg, ?_⟩, hf, fun _ => ?_⟩
  · rw [exec, raiseTrap, if_neg (by simp [preExec])]
    dsimp only
    rw [not_trapToS (by exact h.medeleg) (by exact h.mideleg), hpg cause hc]
    rfl
  · rw [kept_of_trap hw (by decide)]
    exact h.direct
  · have hv : r.mtvec = s.reg .mtvec := h.reg .mtvec (by decide)
    rw [htg, trapTarget_eq h.direct hi (BitVec.ofNat 63 cause.val), ← hv]
    rfl

end Trap

section Mret

theorem extract_mpp_set (x : Word) {lo : ℕ} (v : BitVec 1) (h : lo < 11) :
    (Bits.set x lo v).extractLsb' 11 2 = x.extractLsb' 11 2 :=
  Bits.extract_set_disjoint _ _ (by omega) (by omega)

theorem mretStatus_eq (hs : r.status = s.reg .mstatus) : mretStatus r = Csr.mretMstatus s := by
  have hx : (Bits.set (Bits.set r.status 3 (r.status.extractLsb' 7 1)) 7 1#1).extractLsb' 11 2 =
      r.status.extractLsb' 11 2 :=
    (extract_mpp_set _ _ (by omega)).trans (extract_mpp_set _ _ (by omega))
  rw [Csr.mretMstatus_eq, Csr.mretMprv, ← hs]
  simp only [mretStatus, mie, mpie, mpp, mprv, hx]
  apply BitVec.eq_of_getLsbD_eq
  intro j hj
  cases hm : r.status.extractLsb' 11 2 != Priv.m <;>
    simp only [if_true, if_false, Bool.false_eq_true, Bits.getLsbD_set _ _ _ hj] <;>
    split_ifs <;> first | with_reducible rfl | omega | skip
  -- in machine mode `MPRV` keeps its value
  obtain rfl : j = 17 := by omega
  simp

theorem sim_mret (h : Sim s r) (he : Realises s i (some .mret)) :
    ∃ r', exec testConfig r .mret = some r' ∧ Sim (Csr.step s i) r' ∧ SameTarget s i r' := by
  obtain ⟨hr, hm⟩ := he
  have ht : Csr.trap s i = false := by
    simp only [Csr.mret, Bool.and_eq_true, Bool.not_eq_true'] at hr
    exact hr.1.1
  have hw : Csr.write i = false := by
    simp only [Csr.mret, Bool.and_eq_true] at hr
    exact Csr.not_write_of_isMret hr.1.2
  have hkeep : ∀ c, c ≠ .mip → c ≠ .cycle → c ≠ .mstatus → (Csr.step s i).reg c = s.reg c := by
    intro c hmip hcy hst
    have hn : Csr.wen s i = false := Csr.wen_of_not_write hw
    have hc : Csr.csrRegs s i c = s.reg c := Csr.csrRegs_of_not_stored (by simp [hn]) hcy
    simp [Csr.step, Csr.nextReg, ht, hr, hmip, hst, hc]
  have hst : (Csr.step s i).reg .mstatus = Csr.mretMstatus s := by
    simp [Csr.step, Csr.nextReg_mstatus, ht, hr]
  have hmode : (Csr.step s i).mode = (s.reg .mstatus).extractLsb' 11 2 := by
    simp [Csr.step, Csr.nextMode, ht, hr]
  have hp : r.nextPriv = Priv.m := h.priv.trans hm
  have hs : r.status = s.reg .mstatus := h.reg .mstatus (by decide)
  have hreg : ∀ c ∈ sharedRegs, member (mretM (preExec r)) c = (Csr.step s i).reg c := by
    intro c hc
    by_cases hcs : c = .mstatus
    · subst hcs
      rw [hst]
      exact mretStatus_eq (r := preExec r) hs
    · have hm' : member (mretM (preExec r)) c = member r c := by
        revert hcs
        cases c <;> first | exact fun _ => rfl | exact fun h => absurd rfl h
      rw [hm', h.reg c hc, hkeep c (ne_of_mem_of_not_mem hc (by decide))
        (ne_of_mem_of_not_mem hc (by decide)) hcs]
  refine ⟨mretM (preExec r), by rw [exec, mret, if_neg (by simp [preExec, hp])],
    ⟨⟨hreg, ?_⟩, h.medeleg, h.mideleg, ?_⟩, ?_, fun _ => ?_⟩
  · rw [hmode, ← hs]
    exact extract_mpp_set _ _ (by decide)
  · rw [hkeep _ (by decide) (by decide) (by decide)]
    exact h.direct
  · simp [Csr.flush, hr, mretM]
  · have he : r.mepc = s.reg .mepc := h.reg .mepc (by decide)
    simp [Csr.target, ht, hr, mretM, preExec, he]

end Mret

section Write

theorem writeStatus_eq (r : State) (data : Word) :
    writeStatus testConfig r data = Bits.merge (Csr.storeMask .mstatus data) r.status data := by
  have hx : (Bits.set (Bits.set r.status 3 (data.extractLsb' 3 1)) 7
      (data.extractLsb' 7 1)).extractLsb' 11 2 = r.status.extractLsb' 11 2 :=
    (extract_mpp_set _ _ (by omega)).trans (extract_mpp_set _ _ (by omega))
  have hfull : ∀ j < 64, (CsrName.writeMask .mstatus).getLsbD j =
      decide (j = 3 ∨ j = 7 ∨ j = 11 ∨ j = 12 ∨ j = 17) := by decide
  have hpart : ∀ j < 64, (0x20088 : Word).getLsbD j = decide (j = 3 ∨ j = 7 ∨ j = 17) := by
    decide
  simp only [writeStatus, testConfig, Bool.false_and, mie, mpie, mpp, mprv, hx, Csr.storeMask,
    true_and, Bool.false_eq_true, if_false, Bool.or_eq_true, beq_iff_eq]
  apply BitVec.eq_of_getLsbD_eq
  intro j hj
  by_cases hm : data.extractLsb' 11 2 = 3#2 ∨ data.extractLsb' 11 2 = 0#2
  · have hm' : data.extractLsb' 11 2 = Priv.m ∨ data.extractLsb' 11 2 = Priv.u := hm
    rw [if_pos hm, if_neg (not_not.mpr hm'), Bits.getLsbD_merge]
    simp only [hfull j hj, Bits.getLsbD_set _ _ _ hj, decide_eq_true_eq,
      BitVec.getLsbD_extractLsb']
    grind
  · have hm' : ¬(data.extractLsb' 11 2 = Priv.m ∨ data.extractLsb' 11 2 = Priv.u) := hm
    rw [if_neg hm, if_pos hm', Bits.getLsbD_merge]
    simp only [hpart j hj, Bits.getLsbD_set _ _ _ hj, decide_eq_true_eq,
      BitVec.getLsbD_extractLsb']
    grind

theorem csrWrite_of_mem (r : State) {c : CsrName} (hc : c ∈ sharedRegs) {data : Word}
    (hd : c = .mtvec → data.extractLsb' 0 2 = 0#2) :
    ∃ r', csrWrite testConfig r c.addr data = some (r', true) ∧
      member r' c = (if c = .mstatus then writeStatus testConfig r data else data) ∧
      (∀ d, d ≠ c → member r' d = member r d) ∧
      r'.nextPriv = r.nextPriv ∧ r'.curNeedTrap = r.curNeedTrap ∧
      r'.medeleg = r.medeleg ∧ r'.mideleg = r.mideleg := by
  simp only [sharedRegs, List.mem_cons, List.not_mem_nil, or_false] at hc
  rcases hc with rfl | rfl | rfl | rfl | rfl | rfl
  case inr.inr.inr.inr.inr =>
    have hv : csrWrite testConfig r CsrName.mtvec.addr data =
        some ({ r with mtvec := data }, true) := by
      change (if data.extractLsb' 0 2 ≤ 1#2 then some ({ r with mtvec := data }, true)
        else none) = _
      rw [hd rfl, if_pos (by decide)]
    refine ⟨_, hv, rfl, fun d hne => ?_, rfl, rfl, rfl, rfl⟩
    cases d <;> first | rfl | exact absurd rfl hne
  all_goals
    refine ⟨_, rfl, rfl, fun d hne => ?_, rfl, rfl, rfl, rfl⟩
    cases d <;> first | rfl | exact absurd rfl hne

theorem sim_write (h : Sim s r) {c : CsrName} {data : Word}
    (he : Realises s i (some (.write c data))) :
    ∃ r', exec testConfig r (.write c data) = some r' ∧ Sim (Csr.step s i) r' ∧
      SameTarget s i r' := by
  obtain ⟨hv, hf, ho, ha, ht, hc, hd, hdir⟩ := he
  have hw := Csr.wen_of_not_trap hv (Csr.write_of_csrOps hv hf ho) ht
  have hr := Csr.mret_of_write (s := s) (Csr.write_of_wen hw)
  have hmode : (Csr.step s i).mode = s.mode := by simp [Csr.step, Csr.nextMode, ht, hr]
  have hflush : Csr.flush s i = false := by simp [Csr.flush, ht, hr]
  have hkeep : ∀ d ∈ sharedRegs, d ≠ c → (Csr.step s i).reg d = s.reg d := by
    intro d hd' hne
    exact Csr.writeLaw_frame hw ht ha hne (ne_of_mem_of_not_mem hd' (by decide))
      (ne_of_mem_of_not_mem hd' (by decide))
  have hset : (Csr.step s i).reg c = Bits.merge (Csr.storeMask c data) (s.reg c) data := by
    have hmip : c ≠ .mip := ne_of_mem_of_not_mem hc (by decide)
    rw [← hd, ← Csr.writeData_of_csrOps ho, ← Csr.writeReg_eq, ← Csr.csrRegs_of_wen hw ha]
    exact Csr.nextReg_of_quiet ht hr hmip
  have hval : c ≠ .mstatus → (Csr.step s i).reg c = data := by
    intro hne
    have hm : Csr.storeMask c data = BitVec.allOnes 64 := by
      rw [Csr.storeMask, if_neg fun h => hne h.1]
      revert hc hne
      cases c <;> decide
    rw [hset, hm, Bits.merge_allOnes]
  obtain ⟨r', hr', hm, hother, hp, hn, hme, hmi⟩ := csrWrite_of_mem (preExec r) hc hdir
  refine ⟨r', by rw [exec, hr']; rfl, ⟨⟨fun d hd' => ?_, ?_⟩, hme.trans h.medeleg,
    hmi.trans h.mideleg, ?_⟩, hflush.trans hn.symm, fun hn' => ?_⟩
  · by_cases hdc : d = c
    · subst hdc
      rw [hm]
      split_ifs with hst
      · subst hst
        rw [writeStatus_eq, hset, ← h.reg .mstatus (by decide)]
        rfl
      · exact (hval hst).symm
    · rw [hother d hdc, hkeep d hd' hdc, ← h.reg d hd']
      cases d <;> rfl
  · rw [hp, hmode]
    exact h.priv
  · by_cases hct : c = .mtvec
    · subst hct
      rw [hval (by decide), hdir rfl]
    · rw [hkeep _ (by decide) (Ne.symm hct)]
      exact h.direct
  · have hpre : (preExec r).curNeedTrap = false := rfl
    exact absurd (hpre.symm.trans (hn.symm.trans hn')) (by decide)

end Write

section Run

theorem sim_none (h : Sim s r) (he : Realises s i none) : Sim (Csr.step s i) r := by
  obtain ⟨ht, hr, hw⟩ := he
  have hkeep : ∀ c ∈ sharedRegs, (Csr.step s i).reg c = s.reg c := by
    intro c hc
    have hmip : c ≠ .mip := ne_of_mem_of_not_mem hc (by decide)
    have hcy : c ≠ .cycle := ne_of_mem_of_not_mem hc (by decide)
    exact (Csr.nextReg_of_quiet ht hr hmip).trans (Csr.csrRegs_of_not_stored (hw c hc) hcy)
  refine ⟨⟨fun c hc => (h.reg c hc).trans (hkeep c hc).symm, ?_⟩, h.medeleg, h.mideleg, ?_⟩
  · simp [Csr.step, Csr.nextMode, ht, hr, h.priv]
  · rw [hkeep _ (by decide), h.direct]

theorem sim_some (h : Sim s r) (hiso : Csr.Isolated s) {e : Event}
    (he : Realises s i (some e)) :
    ∃ r', exec testConfig r e = some r' ∧ Sim (Csr.step s i) r' ∧ SameTarget s i r' := by
  cases e with
  | trap cause tval pc => exact sim_trap h hiso he
  | mret => exact sim_mret h he
  | write c data => exact sim_write h he

variable {ins : ℕ → Csr.In} {ev : ℕ → Option Event}

theorem sim_run (r : State)
    (h : ∀ t, Realises (Csr.machine.run ins t) (ins t) (ev t)) (t : ℕ) :
    ∃ r', run testConfig r ev t = some r' ∧ Sim (Csr.machine.run ins t) r' := by
  induction t with
  | zero => exact ⟨_, rfl, sim_init r⟩
  | succ t ih =>
    obtain ⟨r', hr', hs⟩ := ih
    have he := h t
    cases hev : ev t with
    | none =>
      rw [hev] at he
      exact ⟨r', by simp [run, hr', hev], sim_none hs he⟩
    | some e =>
      rw [hev] at he
      obtain ⟨r'', hr'', hs', -⟩ := sim_some hs (Csr.isolated_run ins t) he
      exact ⟨r'', by simp [run, hr', hev, hr''], hs'⟩

/-- **The CSR unit and the reference model agree.** Over every sequence of synchronous exceptions,
returns from machine mode and CSR writes they hold the same registers and mode, and they redirect
to the same address. -/
theorem trap_machines_agree (r : State) (ins : ℕ → Csr.In) (ev : ℕ → Option Event)
    (h : ∀ t, Realises (Csr.machine.run ins t) (ins t) (ev t)) (t : ℕ) :
    ∃ r', run testConfig r ev t = some r' ∧ Agree (Csr.machine.run ins t) r' ∧
      ∀ e, ev t = some e → ∃ r'', exec testConfig r' e = some r'' ∧
        Agree (Csr.machine.run ins (t + 1)) r'' ∧
        SameTarget (Csr.machine.run ins t) (ins t) r'' := by
  obtain ⟨r', hr', hs⟩ := sim_run r h t
  refine ⟨r', hr', hs.toAgree, fun e he => ?_⟩
  have ht := h t
  rw [he] at ht
  obtain ⟨r'', hr'', hs', htg⟩ := sim_some hs (Csr.isolated_run ins t) ht
  exact ⟨r'', hr'', hs'.toAgree, htg⟩

end Run

section Inputs

/-- An input that carries an event. -/
def dutIn : Event → Csr.In
  | .trap cause tval pc =>
    { Csr.instIn 0x13 with
      excInfo := { exception := fun k => k = cause, tval := fun _ => tval }
      pc := pc }
  | .mret => Csr.instIn 0x30200073
  | .write c data =>
    { Csr.instIn ((c.addr ++ 0x1073#20).setWidth 64) with srcInfo := { src1Data := data } }

/-- The events that are possible in a state. -/
def Possible (s : Csr.State) : Event → Prop
  | .trap cause _ _ => cause ∈ dutCauses
  | .mret => s.mode = Priv.m
  | .write c data => s.mode = Priv.m ∧ c ∈ sharedRegs ∧
      (c = .mtvec → data.extractLsb' 0 2 = 0#2)

theorem realises_trap (s : Csr.State) {cause : ExcNo} (hc : cause ∈ dutCauses) (tval pc : Word) :
    Realises s (dutIn (.trap cause tval pc)) (some (.trap cause tval pc)) := by
  have hw : Csr.write (dutIn (.trap cause tval pc)) = false := by
    change Csr.write (Csr.instIn 0x13) = false
    decide +kernel
  have hx := Csr.ex_of_not_write (s := s) hw
  have hsel : ∀ c ∈ dutCauses,
      priorityMux (fun k : ExcNo => decide (k = c)) ExcNo.excPriority (by decide) = c := by decide
  refine ⟨?_, ?_, ?_, hc, by rw [hx]; rfl, rfl, fun c h => ?_⟩
  · have he : Csr.isException s (dutIn (.trap cause tval pc)) = true := by
      rw [Csr.isException, hx, orR_eq_true]
      exact ⟨cause, decide_eq_true rfl⟩
    rw [Csr.trap, Csr.hasExc, he]
    rfl
  · rw [Csr.isInterrupt, hx, orR_eq_false]
    exact fun _ => rfl
  · rw [Csr.exceptionNO, hx]
    exact congrArg (fun k : ExcNo => BitVec.ofNat 4 k.val) (hsel cause hc)
  · exact absurd h.1 (by simp [Csr.wen_of_not_write hw])

theorem realises_mret {s : Csr.State} (hm : s.mode = Priv.m) :
    Realises s (dutIn .mret) (some .mret) := by
  have hw : Csr.write (dutIn .mret) = false := by decide +kernel
  have ht : Csr.trap s (dutIn .mret) = false := by
    rw [Csr.trap, Csr.hasExc_of_not_write hw]
    decide +kernel
  refine ⟨?_, hm⟩
  rw [Csr.mret, ht]
  decide +kernel

theorem realises_write {s : Csr.State} (hm : s.mode = Priv.m) {c : CsrName} (hc : c ∈ sharedRegs)
    {data : Word} (hd : c = .mtvec → data.extractLsb' 0 2 = 0#2) :
    Realises s (dutIn (.write c data)) (some (.write c data)) := by
  have hinfo : ∀ c ∈ sharedRegs,
      (Csr.instIn ((c.addr ++ 0x1073#20).setWidth 64)).info.fusel = .csr ∧
      (Csr.instIn ((c.addr ++ 0x1073#20).setWidth 64)).info.op = CSROpType.write ∧
      Csr.csrAddr (Csr.instIn ((c.addr ++ 0x1073#20).setWidth 64)) = c.addr ∧
      c.addr.extractLsb' 10 2 = 0#2 := by decide +kernel
  obtain ⟨hf, hop, ha, hl⟩ := hinfo c hc
  have ha' : Csr.csrAddr (dutIn (.write c data)) = c.addr := ha
  have hop' : (dutIn (.write c data)).info.op = CSROpType.write := hop
  have hill : Csr.isIllegal s (dutIn (.write c data)) = false := by
    have hmode : ∀ l : BitVec 2, Priv.m.ult l = false := by decide
    simp [Csr.isIllegal, Csr.illegalAccess, Csr.illegalWrite, Csr.illegalMode, Csr.illegalAddr, ha',
      hl, hm, hmode, CsrName.ofAddr_addr]
  have hx : Csr.ex s (dutIn (.write c data)) = {} := by
    rw [Csr.ex, hill]
    rfl
  refine ⟨rfl, hf, by rw [hop']; decide, ha', ?_, hc, ?_, hd⟩
  · simp [Csr.trap, Csr.hasExc, Csr.isException, Csr.isInterrupt, hx, orR]
  · rw [hop', Csr.requested, if_pos (.inl rfl), Csr.srcValue, Csr.isImm, hop']
    rfl

theorem realises_dutIn {s : Csr.State} {e : Event} (h : Possible s e) :
    Realises s (dutIn e) (some e) := by
  cases e with
  | trap cause tval pc => exact realises_trap s h tval pc
  | mret => exact realises_mret h
  | write c data => exact realises_write h.1 h.2.1 h.2.2

/-- A write of `MTVEC`, and then illegal instructions. -/
def trapEvents (t : ℕ) : Event :=
  if t = 0 then .write .mtvec 0x1000 else .trap ExcNo.illegalInst 0x13 0x80000000

theorem possible_trapEvents (t : ℕ) :
    Possible (Csr.machine.run (fun t => dutIn (trapEvents t)) t) (trapEvents t) := by
  by_cases ht : t = 0
  · subst ht
    exact ⟨rfl, by decide, fun _ => by decide⟩
  · rw [trapEvents, if_neg ht]
    exact (by decide : ExcNo.illegalInst ∈ dutCauses)

/-- The trap vector is written, and two traps follow. -/
theorem trap_machines_agree_illegal :
    ∃ r', run testConfig default (fun t => some (trapEvents t)) 3 = some r' ∧
      Agree (Csr.machine.run (fun t => dutIn (trapEvents t)) 3) r' := by
  obtain ⟨r', hr', ha, -⟩ := trap_machines_agree default
    (fun t => dutIn (trapEvents t)) (fun t => some (trapEvents t))
    (fun t => realises_dutIn (possible_trapEvents t)) 3
  exact ⟨r', hr', ha⟩

end Inputs

section Core

variable {ins : ℕ → Core.In}

theorem exception_raise {e : ExceptionInfo} {j k : ExcNo} {v : Word}
    (h : (e.raise j v).exception k = true) : k = j ∨ e.exception k = true := by
  by_cases hk : k = j
  · exact .inl hk
  · have hn : (e.raise j v).exception k = e.exception k := Function.update_of_ne hk _ _
    exact .inr (hn.symm.trans h)

theorem mem_dutCauses_exe {t : ℕ} {k : ExcNo}
    (h : (Core.machine.run ins t).exe.ex.exception k = true) : k ∈ dutCauses := by
  rcases t with _ | t
  · exact absurd h (by simp [Core.machine, Core.init])
  · rcases Core.exe_run_cases ins t with he | he <;> rw [he] at h
    · exact absurd h (by simp)
    · change (ExcCtrl.excInfo _ _ _ _ _).exception k = true at h
      unfold ExcCtrl.excInfo at h
      split_ifs at h
      · simp only [ExcCtrl.exception] at h
        split_ifs at h <;> (subst k; decide)

theorem mem_dutCauses {t : ℕ} {k : ExcNo}
    (h : (Csr.ex (Core.machine.run ins t).csr
      (Fu.csrIn (Core.machine.run ins t).exe (ins t).interrupt)).exception k = true) :
    k ∈ dutCauses := by
  have hraise : ∀ {e : ExceptionInfo} {j : ExcNo} {v : Word}, j ∈ dutCauses →
      (∀ k, e.exception k = true → k ∈ dutCauses) →
      ∀ k, (e.raise j v).exception k = true → k ∈ dutCauses := by
    intro e j v hj he k hk
    rcases exception_raise hk with rfl | hk
    · exact hj
    · exact he k hk
  have hexe : ∀ k, (Core.machine.run ins t).exe.ex.exception k = true → k ∈ dutCauses :=
    fun k => mem_dutCauses_exe
  have hlsu : ∀ k, (Lsu.ex (Core.machine.run ins t).exe.ex (Core.machine.run ins t).exe.info
      (Core.machine.run ins t).exe.srcInfo).exception k = true → k ∈ dutCauses := by
    unfold Lsu.ex
    split_ifs
    · exact hraise (by decide) hexe
    · exact hraise (by decide) hexe
    · exact hexe
  have hbru : ∀ k, (Fu.csrIn (Core.machine.run ins t).exe (ins t).interrupt).excInfo.exception k =
      true → k ∈ dutCauses := by
    unfold Fu.csrIn Bru.ex
    dsimp only
    split_ifs
    · exact hraise (by decide) hlsu
    · exact hlsu
  unfold Csr.ex at h
  split_ifs at h
  · exact hraise (by decide) hbru k h
  · exact hbru k h

/-- In a run of the core every trap without interrupt is such an event. -/
theorem realises_core {t : ℕ} (ht : Core.trap (Core.machine.run ins t) (ins t) = true)
    (hi : Core.interrupted (Core.machine.run ins t) = false) :
    ∃ cause tval, Realises (Core.machine.run ins t).csr
      (Fu.csrIn (Core.machine.run ins t).exe (ins t).interrupt)
      (some (.trap cause tval (Core.machine.run ins t).exe.pc)) := by
  have hint : Csr.isInterrupt (Core.machine.run ins t).csr
      (Fu.csrIn (Core.machine.run ins t).exe (ins t).interrupt) = false := by
    rw [Csr.isInterrupt, Core.ex_interrupt]
    exact hi
  have hexc : Csr.isException (Core.machine.run ins t).csr
      (Fu.csrIn (Core.machine.run ins t).exe (ins t).interrupt) = true := by
    simp only [Core.trap, Csr.trap, Csr.hasExc, hint, Bool.or_false, Bool.and_eq_true] at ht
    exact ht.1
  rw [Csr.isException, orR_eq_true] at hexc
  obtain ⟨k, hk⟩ := hexc
  have hp : ∀ k ∈ dutCauses, k ∈ ExcNo.excPriority := by decide
  obtain ⟨-, hsel⟩ := priorityMux_mem (h := by decide) ⟨k, hp k (mem_dutCauses hk), hk⟩
  refine ⟨_, _, ht, hint, rfl, mem_dutCauses hsel, rfl, rfl, fun c hc => ?_⟩
  rw [Core.interrupted_of_wen ht hc.1 hc.2] at hi
  exact absurd hi (by decide)

end Core

end PuaCpu.RvPriv
