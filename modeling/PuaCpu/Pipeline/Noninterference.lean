import PuaCpu.Pipeline.Causes
import PuaCpu.Pipeline.Response

/-! # Noninterference

In user mode the core depends on the counter and on the enabled and pending
interrupts, and on no other CSR. Two runs that differ in the other CSRs have the
same commits and the same accesses to memory in every cycle, until a trap or a
return.
-/

namespace PuaCpu

namespace Csr

/-- The CSRs with an influence on user mode. -/
def userCsrs : List CsrName := [.cycle, .mie, .mip]

/-- Two states that user mode cannot tell apart. -/
structure UserAlike (s s' : State) : Prop where
  mode : s.mode = s'.mode
  reg : ∀ c ∈ userCsrs, s.reg c = s'.reg c

variable {s s' : State} {i : In}

theorem checkInterrupt_of_user (hu : s.mode = Priv.u) (irq : Bool) (k : ℕ) :
    checkInterrupt s irq k = (irq && (s.reg .mie).getLsbD k) := by
  simp [checkInterrupt, hu, Priv.u, Priv.m]

section UserAlike

variable (h : UserAlike s s')
include h

theorem UserAlike.isIllegal : isIllegal s i = isIllegal s' i := by
  simp only [Csr.isIllegal, illegalAccess, illegalMode, h.mode]

theorem UserAlike.hasExc : hasExc s i = hasExc s' i := by
  simp only [Csr.hasExc, isException, isInterrupt, ex, h.isIllegal]

theorem UserAlike.trap : trap s i = trap s' i := by
  rw [Csr.trap, Csr.trap, h.hasExc]

theorem UserAlike.mret : mret s i = mret s' i := by
  rw [Csr.mret, Csr.mret, h.trap]

theorem UserAlike.flush : flush s i = flush s' i := by
  rw [Csr.flush, Csr.flush, h.trap, h.mret]

theorem UserAlike.csrRegs {c : CsrName} (hc : c ∈ userCsrs) : csrRegs s i c = csrRegs s' i c := by
  have hw : wen s i = wen s' i := by simp only [wen, illegalAccess, illegalMode, h.mode]
  rw [Csr.csrRegs, Csr.csrRegs, hw, h.reg c hc]

theorem UserAlike.interrupt (hu : s.mode = Priv.u) : interrupt s = interrupt s' := by
  have hu' : s'.mode = Priv.u := h.mode ▸ hu
  simp only [Csr.interrupt, checkInterrupt_of_user hu, checkInterrupt_of_user hu',
    h.reg .mie (by decide), h.reg .mip (by decide)]

/-- A trap writes none of these CSRs, but a return takes the mode from `MSTATUS`. -/
theorem UserAlike.step (hr : Csr.mret s i = false) : UserAlike (step s i) (step s' i) where
  mode := by
    change nextMode s i = nextMode s' i
    rw [nextMode, nextMode, ← h.mret, hr, ← h.trap, h.mode]
    rfl
  reg c hc := by
    by_cases hp : c = .mip
    · subst hp
      change mipUpdate _ _ = mipUpdate _ _
      rw [h.reg .mip hc]
    · have hne : c ∉ [CsrName.mip, .mstatus, .mepc, .mcause, .mtval] := by
        revert hp hc
        cases c <;> decide
      change nextReg s i c = nextReg s' i c
      rw [nextReg_of_ne hne, nextReg_of_ne hne, h.csrRegs hc]

theorem UserAlike.defaultRead (ha : csrAddr i = CsrName.cycle.addr) :
    defaultRead s i = defaultRead s' i := by
  have hc : CsrName.ofAddr (csrAddr i) = some .cycle := by rw [ha, CsrName.ofAddr_addr]
  rw [Csr.defaultRead, Csr.defaultRead, hc]
  change s.reg .cycle &&& _ = s'.reg .cycle &&& _
  rw [h.reg .cycle (by decide)]

end UserAlike

theorem csrAddr_of_user (hu : s.mode = Priv.u) (hw : write i = true) (hn : isIllegal s i = false) :
    csrAddr i = CsrName.cycle.addr := by
  simp only [isIllegal, hw, Bool.true_and, Bool.and_true, Bool.or_eq_false_iff] at hn
  obtain ⟨ha, hn⟩ := hn
  have hwen : wen s i = true := by rw [wen, hw, ha]; rfl
  have hcsr : isCsr i = true := by
    simp only [write, Bool.and_eq_true] at hw
    exact hw.2
  have hret : isMret i = false := by
    by_contra hm
    rw [not_write_of_isMret (Bool.eq_true_of_not_eq_false hm)] at hw
    exact absurd hw (by decide)
  rw [hcsr, hret, Bool.not_false, Bool.and_true, Bool.and_true, illegalAddr,
    Option.isNone_eq_false_iff, Option.isSome_iff_exists] at hn
  obtain ⟨c, hc⟩ := hn
  have hc := CsrName.ofAddr_eq_some_iff.mp hc
  have hl := level_le_mode hwen
  rw [← hc, hu] at hl
  by_cases he : c = .cycle
  · exact he ▸ hc.symm
  · exact absurd hl (not_level_le_user he)

end Csr

namespace Decoder

theorem op_of_not_isCSROp {inst : Word} (hf : (info inst).fusel = .csr)
    (ho : CSROpType.isCSROp (info inst).op = false) :
    (info inst).op = CSROpType.ecall ∨ (info inst).op = CSROpType.ebreak ∨
      (info inst).op = CSROpType.mret := by
  revert hf ho
  exact lookup_induction (P := fun e => e.fuType = .csr → CSROpType.isCSROp e.fuOpType = false →
    e.fuOpType = CSROpType.ecall ∨ e.fuOpType = CSROpType.ebreak ∨ e.fuOpType = CSROpType.mret)
    (by decide) (by decide) inst

end Decoder

namespace Core

variable {ins ins' : ℕ → In} {s s' : State} {i i' : In} {t : ℕ}

/-- Two states that user mode cannot tell apart. -/
structure UserAlike (s s' : State) : Prop where
  fetch : s.fetch = s'.fetch
  dec : s.dec = s'.dec
  regs : s.regs = s'.regs
  exe : s.exe = s'.exe
  csr : Csr.UserAlike s.csr s'.csr
  mem : s.mem = s'.mem
  wb : s.wb = s'.wb

section Slots

/-- Behind the first fetches an empty slot holds no word. -/
theorem dec_inst_of_not_valid (hd : (machine.run ins (t + 3)).dec.valid = false) :
    (machine.run ins (t + 3)).dec.inst = 0 := by
  rw [run_succ] at hd ⊢
  cases hf : flush (machine.run ins (t + 2)) (ins (t + 2)) with
  | true => rw [step_dec_of_flush hf]
  | false =>
    cases hs : stall (machine.run ins (t + 2)) with
    | true =>
      rw [step_dec_of_stall hf hs] at hd
      rw [(filled_run ins (t + 2)).exe_dec (valid_of_stall hs)] at hd
      exact absurd hd (by decide)
    | false =>
      rw [step_dec_of_go hf hs, fetched_eq, fetch_state_run] at hd
      exact absurd hd (by simp)

theorem exe_fusel_of_not_valid (hd : (machine.run ins (t + 4)).exe.info.valid = false) :
    (machine.run ins (t + 4)).exe.info.fusel = .alu := by
  rw [run_succ] at hd ⊢
  cases hf : flush (machine.run ins (t + 3)) (ins (t + 3)) with
  | true => rw [step_exe_of_flush hf]
  | false =>
    cases hs : stall (machine.run ins (t + 3)) with
    | true => rw [step_exe_of_stall hs]
    | false =>
      rw [step_exe_of_go hf hs] at hd ⊢
      change (Decoder.info (machine.run ins (t + 3)).dec.inst).fusel = .alu
      rw [dec_inst_of_not_valid hd]
      decide

/-- Out of reset no instruction leaves machine mode before the first one is in execute. -/
theorem mode_of_le_four (ht : t ≤ 4) : (machine.run ins t).csr.mode = Priv.m := by
  induction t with
  | zero => rfl
  | succ t ih =>
    have hv : busy ins t = false := not_busy_of_lt_four (by omega)
    change (Csr.step (machine.run ins t).csr
      (Fu.csrIn (machine.run ins t).exe (ins t).interrupt)).mode = Priv.m
    rw [Csr.step_of_not_valid hv]
    exact ih (by omega)

theorem four_lt_of_user (hu : (machine.run ins t).csr.mode = Priv.u) : 4 < t := by
  by_contra ht
  exact absurd ((mode_of_le_four (Nat.le_of_not_lt ht)).symm.trans hu) (by decide)

theorem trap_of_causes (hv : s.exe.info.valid = true) {k : ExcNo} (hk : causes s i k = true) :
    trap s i = true := by
  have he : Csr.isException s.csr (Fu.csrIn s.exe i.interrupt) = true := orR_eq_true.mpr ⟨k, hk⟩
  rw [trap, Csr.trap, Csr.hasExc, he]
  exact hv

theorem not_isIllegal_of_not_trap (hv : s.exe.info.valid = true) (ht : trap s i = false) :
    Csr.isIllegal s.csr (Fu.csrIn s.exe i.interrupt) = false := by
  by_contra hi
  rw [Bool.not_eq_false] at hi
  have hc : causes s i .illegalInst = true := by
    rw [causes, Csr.ex, if_pos hi]
    rfl
  exact absurd (ht.symm.trans (trap_of_causes hv hc)) (by decide)

theorem trap_of_call (hu : (machine.run ins t).csr.mode = Priv.u)
    (hv : (machine.run ins t).exe.info.valid = true)
    (h : ExcCtrl.isEbreak (machine.run ins t).exe.info = true ∨
      ExcCtrl.isEcall (machine.run ins t).exe.info = true) :
    trap (machine.run ins t) (ins t) = true := by
  rcases h with h | h
  · rcases t with _ | t
    · exact absurd hv (by simp [machine, init])
    · obtain ⟨hi, he⟩ := exe_of_valid hv
      refine trap_of_causes hv (k := ExcNo.breakPoint) ?_
      rw [causes_of_call (.inl h), he]
      rw [hi] at h
      exact h
  · exact trap_of_causes hv ((causes_ecall hv h).1.mpr hu)

theorem csrAddr_of_user (hu : (machine.run ins t).csr.mode = Priv.u)
    (hf : (machine.run ins t).exe.info.fusel = .csr)
    (ht : trap (machine.run ins t) (ins t) = false) (hr : returns ins t = false) :
    Csr.csrAddr (Fu.csrIn (machine.run ins t).exe (ins t).interrupt) = CsrName.cycle.addr := by
  have hv : (machine.run ins t).exe.info.valid = true := by
    by_contra hv
    obtain ⟨u, rfl⟩ : ∃ u, t = u + 4 := ⟨t - 4, by have := four_lt_of_user hu; omega⟩
    rw [exe_fusel_of_not_valid (Bool.eq_false_of_not_eq_true hv)] at hf
    exact absurd hf (by decide)
  refine Csr.csrAddr_of_user hu ?_ (not_isIllegal_of_not_trap hv ht)
  cases ho : CSROpType.isCSROp (machine.run ins t).exe.info.op with
  | true =>
    have hc : Csr.isCsr (Fu.csrIn (machine.run ins t).exe (ins t).interrupt) = true :=
      decide_eq_true hf
    rw [Csr.write, hc, Bool.and_true, Bool.and_eq_true]
    exact ⟨hv, ho⟩
  | false =>
    have hop : (machine.run ins t).exe.info.op = CSROpType.ecall ∨
        (machine.run ins t).exe.info.op = CSROpType.ebreak ∨
          (machine.run ins t).exe.info.op = CSROpType.mret := by
      rcases t with _ | t
      · exact absurd hv (by simp [machine, init])
      · rw [(exe_of_valid hv).1] at hf ho ⊢
        exact Decoder.op_of_not_isCSROp hf ho
    rcases hop with h | h | h
    · have hc : ExcCtrl.isEcall (machine.run ins t).exe.info = true := by
        simp [ExcCtrl.isEcall, hf, h]
      exact absurd (ht.symm.trans (trap_of_call hu hv (.inr hc))) (by decide)
    · have hc : ExcCtrl.isEbreak (machine.run ins t).exe.info = true := by
        simp [ExcCtrl.isEbreak, hf, h]
      exact absurd (ht.symm.trans (trap_of_call hu hv (.inl hc))) (by decide)
    · have hc : Csr.isMret (Fu.csrIn (machine.run ins t).exe (ins t).interrupt) = true := by
        simp [Csr.isMret, Csr.isCsr, Fu.csrIn, hf, h]
      have hm : returns ins t = true := by
        change Csr.mret _ _ = true
        rw [Csr.mret, hc, Bool.and_true]
        exact Bool.and_eq_true _ _ ▸ ⟨by rw [trap] at ht; rw [ht]; rfl, hv⟩
      exact absurd (hr.symm.trans hm) (by decide)

end Slots

section Alike

variable (h : UserAlike s s')
include h

theorem UserAlike.trap : trap s i = trap s' i := by
  rw [Core.trap, Core.trap, ← h.exe]
  exact h.csr.trap

theorem UserAlike.flush : flush s i = flush s' i := by
  rw [Core.flush, Core.flush, Fu.flush, Fu.flush, ← h.exe, h.csr.flush]

theorem UserAlike.debug : debug s = debug s' := by
  rw [Core.debug, Core.debug, h.wb]

theorem UserAlike.dataSram : dataSram s = dataSram s' := by
  rw [Core.dataSram, Core.dataSram, h.exe]

theorem UserAlike.stall : stall s = stall s' := by
  rw [Core.stall, Core.stall, h.dec, h.exe]

theorem UserAlike.target (hf : Csr.flush s.csr (Fu.csrIn s.exe i.interrupt) = false) :
    target s i = target s' i := by
  have hf' := h.csr.flush.symm.trans hf
  rw [Core.target, Core.target, Fu.target, Fu.target, if_neg (by simp [hf]), ← h.exe,
    if_neg (by simp [hf'])]

theorem UserAlike.fetchNext (hf : Csr.flush s.csr (Fu.csrIn s.exe i.interrupt) = false) :
    fetchNext s i = fetchNext s' i := by
  rw [Core.fetchNext, Core.fetchNext, h.flush, h.target hf, h.stall, h.fetch]

theorem UserAlike.fetchUnitCtrl : fetchUnitCtrl s i = fetchUnitCtrl s' i := by
  change (⟨!Core.stall s, Core.flush s i⟩ : CtrlSignal) = ⟨!Core.stall s', Core.flush s' i⟩
  rw [h.stall, h.flush]

theorem UserAlike.instSram (hf : Csr.flush s.csr (Fu.csrIn s.exe i.interrupt) = false) :
    instSram s i = instSram s' i := by
  rw [Core.instSram, Core.instSram, h.fetch, h.flush, h.target hf, h.fetchUnitCtrl]

theorem UserAlike.fetched (hf : Csr.flush s.csr (Fu.csrIn s.exe i.interrupt) = false) :
    fetched s i = fetched s' i := by
  rw [Core.fetched, Core.fetched, h.fetch, h.flush, h.target hf, h.fetchUnitCtrl]

theorem UserAlike.memOut : memOut s i = memOut s' i := by
  rw [Core.memOut, Core.memOut, h.mem]

theorem UserAlike.exeOut (hc : s.exe.info.fusel = .csr →
    Csr.csrAddr (Fu.csrIn s.exe i.interrupt) = CsrName.cycle.addr) :
    exeOut s i = exeOut s' i := by
  have hrd : Fu.rdInfo s.csr s.exe i.interrupt = Fu.rdInfo s'.csr s'.exe i.interrupt := by
    rw [Fu.rdInfo, Fu.rdInfo, ← h.exe]
    congr 1
    cases hf : s.exe.info.fusel with
    | csr => exact h.csr.defaultRead (hc hf)
    | alu | mdu | lsu | bru => rfl
  have hex : Fu.hasExc s.csr s.exe i.interrupt = Fu.hasExc s'.csr s'.exe i.interrupt := by
    rw [Fu.hasExc, Fu.hasExc, ← h.exe, h.csr.hasExc]
  rw [Core.exeOut, Core.exeOut, Fu.memoryStage, Fu.memoryStage, hrd, hex, h.exe]

/-- A step in user mode that reads no other CSR than the counter. -/
theorem UserAlike.step (hu : s.csr.mode = Priv.u)
    (hf : Csr.flush s.csr (Fu.csrIn s.exe i.interrupt) = false)
    (hc : s.exe.info.fusel = .csr →
      Csr.csrAddr (Fu.csrIn s.exe i.interrupt) = CsrName.cycle.addr) :
    UserAlike (step s i) (step s' i) := by
  have hin : decodeIn s i = decodeIn s' i := by
    rw [decodeIn, decodeIn, h.regs, h.exeOut hc, h.memOut, h.wb, h.csr.mode, h.csr.interrupt hu]
  have hd : decOut s i = decOut s' i := by rw [Core.decOut, Core.decOut, hin, h.dec]
  have hctrl : decodeUnitCtrl s i = decodeUnitCtrl s' i := h.fetchUnitCtrl
  have hret : Csr.mret s.csr (Fu.csrIn s.exe i.interrupt) = false := by
    rw [Csr.flush, Bool.or_eq_false_iff] at hf
    exact hf.2
  constructor
  · change FetchUnit.step _ _ _ _ = FetchUnit.step _ _ _ _
    rw [h.fetch, h.flush, h.target hf, h.fetchUnitCtrl]
  · change DecodeStage.step _ _ _ = DecodeStage.step _ _ _
    rw [h.dec, h.fetched hf, h.fetchUnitCtrl]
  · change s.regs.write _ = s'.regs.write _
    rw [h.regs, h.wb]
  · change ExecuteStage.step _ _ = ExecuteStage.step _ _
    rw [hd, hctrl]
  · change Csr.UserAlike (Csr.step _ _) (Csr.step _ _)
    rw [← h.exe]
    exact h.csr.step hret
  · change Core.exeOut s i = Core.exeOut s' i
    exact h.exeOut hc
  · exact h.memOut

end Alike

section Run

/-- What is seen of a cycle in user mode. -/
structure SameCycle (s s' : State) (i : In) : Prop where
  debug : debug s = debug s'
  dataSram : dataSram s = dataSram s'
  trap : trap s i = trap s' i
  flush : flush s i = flush s' i
  instSram : Csr.flush s.csr (Fu.csrIn s.exe i.interrupt) = false → instSram s i = instSram s' i

theorem UserAlike.sameCycle (h : UserAlike s s') (i : In) : SameCycle s s' i :=
  ⟨h.debug, h.dataSram, h.trap, h.flush, h.instSram⟩

/-- **Noninterference**: two runs in user mode that differ in CSRs of machine mode only, and in
which the outside drives the same, have the same commits, accesses and traps in every cycle, as
long as no trap is taken and no instruction returns. -/
theorem user_noninterference (ins ins' : ℕ → In) (t n : ℕ)
    (hu : (machine.run ins t).csr.mode = Priv.u)
    (h : UserAlike (machine.run ins t) (machine.run ins' t))
    (hi : ∀ k ≤ n, ins (t + k) = ins' (t + k))
    (hq : ∀ k < n, trap (machine.run ins (t + k)) (ins (t + k)) = false ∧
      returns ins (t + k) = false) :
    UserAlike (machine.run ins (t + n)) (machine.run ins' (t + n)) ∧
      SameCycle (machine.run ins (t + n)) (machine.run ins' (t + n)) (ins (t + n)) := by
  have hrun : (machine.run ins (t + n)).csr.mode = Priv.u ∧
      UserAlike (machine.run ins (t + n)) (machine.run ins' (t + n)) := by
    induction n with
    | zero => exact ⟨hu, h⟩
    | succ n ih =>
      obtain ⟨hu, h⟩ := ih (fun k hk => hi k (by omega)) fun k hk => hq k (by omega)
      obtain ⟨ht, hr⟩ := hq n (by omega)
      refine ⟨user_succ hu (by simp [ht]) (by simp [hr]), ?_⟩
      have hf : Csr.flush (machine.run ins (t + n)).csr
          (Fu.csrIn (machine.run ins (t + n)).exe (ins (t + n)).interrupt) = false := by
        rw [trap] at ht
        rw [returns] at hr
        rw [Csr.flush, ht, hr]
        rfl
      have hs := h.step hu hf fun hc => csrAddr_of_user hu hc ht hr
      rw [← Nat.add_assoc, run_succ, run_succ, ← hi n (by omega)]
      exact hs
  exact ⟨hrun.2, hrun.2.sameCycle _⟩

theorem regs_of_not_written {n : ℕ} (h : ∀ k < n,
    (WriteBackUnit.regfile (machine.run ins k).wb).wen = false ∨
      (WriteBackUnit.regfile (machine.run ins k).wb).waddr = 0) :
    (machine.run ins n).regs = ARegFile.init := by
  induction n with
  | zero => rfl
  | succ n ih =>
    exact (ARegFile.write_of_not_wen (h n (by omega))).trans (ih fun k hk => h k (by omega))

/-- A flush leaves what is behind execute. -/
theorem userAlike_of_flush (hf : flush s i = true) (hf' : flush s' i' = true)
    (hb : s.fetch.state = .receive) (hb' : s'.fetch.state = .receive)
    (ht : target s i = target s' i') (hr : (step s i).regs = (step s' i').regs)
    (hc : Csr.UserAlike (step s i).csr (step s' i').csr) (he : exeOut s i = exeOut s' i')
    (hm : memOut s i = memOut s' i') : UserAlike (step s i) (step s' i') := by
  refine ⟨congrArg₂ FetchUnit.State.mk ?_ ?_, ?_, hr, ?_, hc, he, hm⟩
  · rw [hb, hb']
  · have hpc : fetchNext s i = fetchNext s' i' := by
      rw [fetchNext, fetchNext, hf, hf', ht]
      rfl
    rw [pcNext_eq, pcNext_eq, hb, hb', hpc]
    rfl
  · rw [step_dec_of_flush hf, step_dec_of_flush hf']
  · rw [step_exe_of_flush hf, step_exe_of_flush hf']

/-- `CSRRWI MSCRATCH, secret`, and behind a read of `CYCLE` an `MRET`, and reads of `CYCLE` in user
mode. -/
def secretRun (secret : BitVec 5) (t : ℕ) : In where
  instRdata := if t = 2 then 0x340#12 ++ secret ++ 0x5073#15
    else if t = 4 then 0x30200073 else 0xc0002373

/-- The reads show nothing of the secret. -/
theorem user_noninterference_cycle :
    UserAlike (machine.run (secretRun 1) 12) (machine.run (secretRun 2) 12) ∧
      SameCycle (machine.run (secretRun 1) 12) (machine.run (secretRun 2) 12) (secretRun 1 12) := by
  refine user_noninterference (secretRun 1) (secretRun 2) 7 5 (by decide +kernel) ?_
    (by decide +kernel) (by decide +kernel)
  refine userAlike_of_flush (by decide +kernel) (by decide +kernel) (fetch_state_run 4)
    (fetch_state_run 4) (by decide +kernel) ?_ ⟨by decide +kernel, by decide +kernel⟩
    (by decide +kernel) (by decide +kernel)
  exact (regs_of_not_written (n := 7) (by decide +kernel)).trans
    (regs_of_not_written (n := 7) (by decide +kernel)).symm

end Run

end Core

end PuaCpu
