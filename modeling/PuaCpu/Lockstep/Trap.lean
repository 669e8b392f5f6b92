import PuaCpu.Lockstep.Access
import PuaCpu.Lockstep.System

/-! # One instruction with a trap

An exception ends the instruction on both sides: no register and no byte of the
memory changes, the trap registers take the same values, and both go on at the
trap vector.
-/

namespace PuaCpu.Lockstep

open RvCore RvPriv CsrValue

variable {imem : SramAddr → BitVec 32} {a : Sequential.State} {s c : RvCore.State MmioMem}
  {mem : Bytes.Memory 64} {inst : RvInstr} {e : ExcNo} {tval : Word}

/-- The instruction of the sequential machine raises one exception, and accesses neither a CSR nor
the memory. -/
structure Raises (imem : SramAddr → BitVec 32) (a : Sequential.State) (e : ExcNo) (tval : Word) :
    Prop where
  exception : (Csr.ex a.csr (csrIn imem a)).exception = fun k => decide (k = e)
  tval : (Csr.ex a.csr (csrIn imem a)).tval e = tval
  cause : e ∈ dutCauses
  wen : Csr.wen a.csr (csrIn imem a) = false
  isWrite : (Sequential.dataSram imem a).isWrite = false

section Core

theorem interrupt_csrIn (imem : SramAddr → BitVec 32) (a : Sequential.State) :
    Csr.isInterrupt a.csr (csrIn imem a) = false := by
  have hd : (Sequential.decode imem a).ex.interrupt = fun _ => false := by
    funext k
    change ExcCtrl.interrupt {} k = false
    simp [ExcCtrl.interrupt]
  have hl : (Lsu.ex (Sequential.decode imem a).ex (Sequential.decode imem a).info
      (Sequential.decode imem a).srcInfo).interrupt = fun _ => false := by
    rw [← hd, Lsu.ex]
    split_ifs <;> rfl
  have hb : (csrIn imem a).excInfo.interrupt = fun _ => false := by
    change (Bru.ex _ _ _ _).interrupt = _
    rw [← hl, Bru.ex]
    split_ifs <;> rfl
  have hc : (Csr.ex a.csr (csrIn imem a)).interrupt = fun _ => false := by
    rw [← hb, Csr.ex]
    split_ifs <;> rfl
  rw [Csr.isInterrupt, hc, orR_eq_false]
  exact fun _ => rfl

variable (hr : Raises imem a e tval)

include hr

theorem Raises.hasExc : Csr.hasExc a.csr (csrIn imem a) = true := by
  have he : orR (Csr.ex a.csr (csrIn imem a)).exception = true := by
    rw [orR_eq_true, hr.exception]
    exact ⟨e, decide_eq_true rfl⟩
  rw [Csr.hasExc, Csr.isException, he]
  rfl

theorem Raises.trap : Csr.trap a.csr (csrIn imem a) = true := by
  rw [Csr.trap, hr.hasExc]
  rfl

theorem Raises.realises : Realises a.csr (csrIn imem a) (some (.trap e tval a.pc)) := by
  refine ⟨hr.trap, interrupt_csrIn imem a, ?_, hr.cause, hr.tval, rfl, fun c hc => ?_⟩
  · have h : ∀ e ∈ dutCauses, BitVec.ofNat 4 (priorityMux (fun k : ExcNo => decide (k = e))
        ExcNo.excPriority (by decide)).val = BitVec.ofNat 4 e.val := by decide
    rw [Csr.exceptionNO, hr.exception, h e hr.cause]
  · exact absurd (hr.wen.symm.trans hc.1) (by decide)

theorem Raises.dutUpdate : Cosim.dutUpdate (Sequential.execute imem a) = none :=
  dutUpdate_of_trap hr.trap

theorem Raises.pc_step : (Sequential.step imem a).pc = Csr.trapTarget a.csr (csrIn imem a) := by
  have ht : Csr.trap a.csr (Fu.csrIn (Sequential.decode imem a) {}) = true := hr.trap
  change (if Fu.flush a.csr (Sequential.decode imem a) {} then
    Fu.target a.csr (Sequential.decode imem a) {} else _) = _
  rw [Fu.flush, Fu.target, Csr.flush, Csr.target, ht, Bool.true_or, Bool.or_true]
  rfl

end Core

section Cases

/-- What the three units add to the exceptions of decode. -/
theorem bru_ex_of_not_hasExc {x : ExceptionInfo} {pc : Word} {info : Info} {src : SrcInfo}
    (h : Bru.hasExc x pc info src = false) : Bru.ex x pc info src = x := by
  rw [Bru.ex, h]
  rfl

theorem lsu_ex_of_not_hasExc {x : ExceptionInfo} {info : Info} {src : SrcInfo}
    (h : Lsu.hasExc info src = false) : Lsu.ex x info src = x := by
  rw [Lsu.ex, h]
  rfl

theorem lsu_not_hasExc (hf : (Sequential.decode imem a).info.fusel ≠ .lsu) :
    Lsu.hasExc (Sequential.decode imem a).info (Sequential.decode imem a).srcInfo = false := by
  simp [Lsu.hasExc, hf]

theorem bru_not_hasExc (x : ExceptionInfo) (pc : Word)
    (hf : (Sequential.decode imem a).info.fusel ≠ .bru) :
    Bru.hasExc x pc (Sequential.decode imem a).info (Sequential.decode imem a).srcInfo =
      false := by
  simp [Bru.hasExc, Bru.branch, hf]

theorem not_isIllegal (hf : (Sequential.decode imem a).info.fusel ≠ .csr) :
    Csr.isIllegal a.csr (csrIn imem a) = false := by
  rw [Csr.isIllegal, not_write hf]
  simp

theorem exception_raise {x : ExceptionInfo} (hx : x.exception = fun _ => false) (e : ExcNo)
    (v : Word) : (x.raise e v).exception = fun k => decide (k = e) := by
  funext k
  by_cases hk : k = e <;> simp [ExceptionInfo.raise, hx, hk]

/-- Without an exception of decode or a unit there is no trap. -/
theorem quiet_of (hd : (Sequential.decode imem a).ex.exception = fun _ => false)
    (hl : Lsu.hasExc (Sequential.decode imem a).info (Sequential.decode imem a).srcInfo = false)
    (hb : Bru.hasExc (Sequential.decode imem a).ex a.pc (Sequential.decode imem a).info
      (Sequential.decode imem a).srcInfo = false)
    (hi : Csr.isIllegal a.csr (csrIn imem a) = false) : Quiet imem a := by
  have hx : Csr.ex a.csr (csrIn imem a) = (Sequential.decode imem a).ex := by
    rw [Csr.ex, hi]
    change Bru.ex (Lsu.ex _ _ _) a.pc _ _ = _
    rw [lsu_ex_of_not_hasExc hl, bru_ex_of_not_hasExc hb]
  have he : Csr.isException a.csr (csrIn imem a) = false := by
    rw [Csr.isException, hx, hd, orR_eq_false]
    exact fun _ => rfl
  rw [Quiet, Csr.trap, Csr.hasExc, he, interrupt_csrIn]
  rfl

theorem wen_of_fusel (hf : (Sequential.decode imem a).info.fusel ≠ .csr) :
    Csr.wen a.csr (csrIn imem a) = false := Csr.wen_of_not_write (not_write hf)

theorem raises_decode (hd : (Sequential.decode imem a).ex.exception = fun k => decide (k = e))
    (hv : (Sequential.decode imem a).ex.tval e = tval) (hc : e ∈ dutCauses)
    (hl : (Sequential.decode imem a).info.fusel ≠ .lsu)
    (hb : (Sequential.decode imem a).info.fusel ≠ .bru)
    (hw : Csr.write (csrIn imem a) = false) : Raises imem a e tval := by
  have hx : Csr.ex a.csr (csrIn imem a) = (Sequential.decode imem a).ex := by
    have hi : Csr.isIllegal a.csr (csrIn imem a) = false := by
      rw [Csr.isIllegal, hw]
      simp
    rw [Csr.ex, hi]
    change Bru.ex (Lsu.ex _ _ _) a.pc _ _ = _
    rw [lsu_ex_of_not_hasExc (lsu_not_hasExc hl), bru_ex_of_not_hasExc (bru_not_hasExc _ _ hb)]
  exact ⟨by rw [hx, hd], by rw [hx, hv], hc, Csr.wen_of_not_write hw, not_isWrite fun h => hl h.1⟩

theorem raises_lsu (hd : (Sequential.decode imem a).ex.exception = fun _ => false)
    (hf : (Sequential.decode imem a).info.fusel = .lsu)
    (hl : Lsu.hasExc (Sequential.decode imem a).info (Sequential.decode imem a).srcInfo = true) :
    Raises imem a (if LSUOpType.isLoad (Sequential.decode imem a).info.op then .loadAddrMisaligned
        else .storeAddrMisaligned)
      (Lsu.memAddr (Sequential.decode imem a).info (Sequential.decode imem a).srcInfo) := by
  have hx : Csr.ex a.csr (csrIn imem a) = (Sequential.decode imem a).ex.raise
      (if LSUOpType.isLoad (Sequential.decode imem a).info.op then .loadAddrMisaligned
        else .storeAddrMisaligned)
      (Lsu.memAddr (Sequential.decode imem a).info (Sequential.decode imem a).srcInfo) := by
    rw [Csr.ex, not_isIllegal (by simp [hf])]
    change Bru.ex (Lsu.ex _ _ _) a.pc _ _ = _
    rw [bru_ex_of_not_hasExc (bru_not_hasExc _ _ (by simp [hf])), Lsu.ex, if_pos hl]
    split_ifs <;> rfl
  refine ⟨by rw [hx, exception_raise hd], by rw [hx]; simp [ExceptionInfo.raise], ?_,
    wen_of_fusel (by simp [hf]), ?_⟩
  · split_ifs <;> decide
  · rw [DataSram.isWrite, Sequential.dataSram, Fu.dataSram, Lsu.dataSram, hl]
    rfl

theorem raises_bru (hd : (Sequential.decode imem a).ex.exception = fun _ => false)
    (hf : (Sequential.decode imem a).info.fusel = .bru)
    (hb : Bru.hasExc (Sequential.decode imem a).ex a.pc (Sequential.decode imem a).info
      (Sequential.decode imem a).srcInfo = true) :
    Raises imem a .instAddrMisaligned
      (Bru.target a.pc (Sequential.decode imem a).info (Sequential.decode imem a).srcInfo) := by
  have hx : Csr.ex a.csr (csrIn imem a) = (Sequential.decode imem a).ex.raise .instAddrMisaligned
      (Bru.target a.pc (Sequential.decode imem a).info (Sequential.decode imem a).srcInfo) := by
    rw [Csr.ex, not_isIllegal (by simp [hf])]
    change Bru.ex (Lsu.ex _ _ _) a.pc _ _ = _
    rw [lsu_ex_of_not_hasExc (lsu_not_hasExc (by simp [hf])), Bru.ex, if_pos hb]
  exact ⟨by rw [hx, exception_raise hd], by rw [hx]; simp [ExceptionInfo.raise], by decide,
    wen_of_fusel (by simp [hf]), not_isWrite (by simp [hf])⟩

theorem raises_csr (hd : (Sequential.decode imem a).ex.exception = fun _ => false)
    (hf : (Sequential.decode imem a).info.fusel = .csr)
    (ha : Csr.illegalAddr (csrIn imem a) = false)
    (hi : Csr.isIllegal a.csr (csrIn imem a) = true) :
    Raises imem a .illegalInst (Sequential.decode imem a).info.inst := by
  have hx : Csr.ex a.csr (csrIn imem a) = (Sequential.decode imem a).ex.raise .illegalInst
      (Sequential.decode imem a).info.inst := by
    rw [Csr.ex, if_pos hi]
    change (Bru.ex (Lsu.ex _ _ _) a.pc _ _).raise _ _ = _
    rw [lsu_ex_of_not_hasExc (lsu_not_hasExc (by simp [hf])),
      bru_ex_of_not_hasExc (bru_not_hasExc _ _ (by simp [hf]))]
    rfl
  have hw : Csr.wen a.csr (csrIn imem a) = false := by
    by_contra hn
    rw [Bool.not_eq_false] at hn
    rw [Csr.isIllegal, Csr.not_illegalAccess_of_wen hn, ha] at hi
    simp at hi
  exact ⟨by rw [hx, exception_raise hd], by rw [hx]; simp [ExceptionInfo.raise], by decide, hw,
    not_isWrite (by simp [hf])⟩

end Cases

section Both

variable (h : Agrees a s mem) (hr : Raises imem a e tval)

include h in
theorem agree_begun : Agree a.csr (begun s).priv.toState := by
  refine ⟨fun r hr => ?_, h.csr.nextPriv⟩
  have hn : r ∉ [CsrName.cycle, .stap] := by
    revert hr
    cases r <;> decide
  rw [← held_begun h hn]
  revert hr
  cases r <;> first | exact fun _ => rfl | exact fun hr => absurd hr (by decide)

include h hr

theorem held_trapped_eq {d : CsrName} (hd : d ∉ [CsrName.cycle, .stap, .mip]) :
    held ((begun s).priv.trapped (.exc e) tval) d = (Sequential.step imem a).csr.reg d := by
  have hre := hr.realises
  have hpc : (begun s).priv.curPc = a.pc := h.pc
  rw [csrNext_eq, held_trapped, (begun_inv h.inv).priv.trapEntry_eq]
  by_cases hs : d ∈ sharedRegs
  · rw [← member_trap (agree_begun h) h.csr.isolated hre hs, ← hpc]
    revert hs
    cases d <;> first | exact fun _ => rfl | exact fun hc => absurd hc (by decide)
  · have hd' : d ∉ [CsrName.mip, .mstatus, .mepc, .mcause, .mtval] := by
      revert hs hd
      cases d <;> decide
    simp only [List.mem_cons, List.not_mem_nil, or_false, not_or] at hd
    have hkeep : (Csr.step a.csr (csrIn imem a)).reg d = a.csr.reg d :=
      (Csr.nextReg_of_ne hd').trans (Csr.csrRegs_of_not_stored (by simp [hr.wen]) hd.1)
    rw [hkeep, ← held_begun (s := s) h (by simp [hd])]
    revert hs
    cases d <;> first | exact fun _ => rfl | exact fun hc => absurd (by decide) hc

/-- A trap that leaves the state of the fetch alone is one step of both sides. -/
theorem steps_of_trapped (hc : Fetched imem a mem inst) (ht : s.priv.mcycle < 2000000)
    (hi : (begun s).Idle c) (hd : ∃ r, (begun s).decodeExec inst testConfig = .ok r ∧
      State.exception inst r = .ok (c.trapped (.exc e) tval)) : Steps imem a s := by
  obtain ⟨r, hx, hexc⟩ := hd
  obtain ⟨b, i, br, hb, rfl⟩ := hi
  have hbi := begun_inv h.inv
  have hentry := hbi.priv.trapEntry_eq (.exc e) tval
  have hs : s.step testConfig {} = .ok (State.trapped { begun s with
      priv := { (begun s).priv with bus := b }, debugInst := i, debugIsBranch := br }
      (.exc e) tval) := by
    rw [step_eq h hc.pc hc.aligned ht, hc.ref, hx]
    exact hexc
  have hmaps : b.Maps mem := by
    have hm : (begun s).priv.bus.Maps mem := h.bus
    exact ⟨hb.devices.trans hm.devices, by rw [hb.dev passive_mmioMem, hm.dev]⟩
  have hmem : (Sequential.step imem a).mem = a.mem := DataSram.write_of_not_isWrite hr.isWrite _
  refine ⟨_, mem, hs, ⟨?_, ?_, ?_, fun _ => rfl⟩⟩
  · refine ⟨h.inv.step hs, h.difftestMode, ?_, ?_, hmaps, by rw [hmem]; exact h.mem, ?_⟩
    · -- the trap vector
      have hv : s.priv.mtvec = a.csr.reg .mtvec := h.csr.reg .mtvec (by decide)
      rw [hr.pc_step, trapTarget_eq h.csr.direct (interrupt_csrIn imem a) (BitVec.ofNat 63 e.val),
        ← hv]
      change (trapEntry (begun s).priv.toState _ _).trapPc = _
      rw [hentry]
      rfl
    · rw [read_step, hr.dutUpdate]
      exact h.gpr
    · refine ⟨Csr.isolated_step h.csr.isolated, ?_, fun d hd => ?_, mip_step h.csr.mip, ?_,
        h.csr.mcounteren, ?_⟩
      · have hm : (Sequential.step imem a).csr.mode = Priv.m := by
          rw [csrNext_eq]
          simp [Csr.step, Csr.nextMode, hr.trap]
        rw [hm]
        change (trapEntry (begun s).priv.toState _ _).nextPriv = _
        rw [hentry]
        rfl
      · rw [← held_trapped_eq h hr hd]
        cases d <;> rfl
      · change sampleIp (trapEntry (begun s).priv.toState _ _).ip {} = 0
        rw [hentry]
        change sampleIp (sampleIp s.priv.ip {}) {} = 0
        rw [h.csr.ip]
        decide
      · rw [csrNext_eq, kept_of_trap hr.realises.2.2.2.2.2.2 (by decide), h.csr.direct]
  · have hp : (WriteBackUnit.debug (Sequential.execute imem a)).pc = (begun s).debugPc := h.pc.symm
    rw [Cosim.mismatch]
    change ((WriteBackUnit.debug (Sequential.execute imem a)).pc != (begun s).debugPc ||
      ((0 : RegAddr) != 0 && _)) = false
    rw [hp]
    simp
  · change (trapEntry (begun s).priv.toState _ _).mcycle = _
    rw [hentry]
    rfl

end Both

end PuaCpu.Lockstep
