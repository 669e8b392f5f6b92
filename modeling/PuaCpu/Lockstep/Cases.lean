import PuaCpu.Lockstep.Trap

/-! # Every instruction

The instructions that both sides implement and check in the same way, and one
step of both for each of them: legal or illegal, with or without a trap, in
machine mode and in user mode.
-/

namespace PuaCpu.Lockstep

open RvCore RvPriv CsrValue Access

variable {imem : SramAddr → BitVec 32} {a : Sequential.State} {s : RvCore.State MmioMem}
  {mem : Bytes.Memory 64} {inst : RvInstr}

/-- An instruction on which the two sides are not known to differ: a word that is illegal to the
core is neither an extension nor unchecked in the reference model, a `JALR` starts from an even
register, an access stays in the memory, a CSR instruction asks for what both sides implement,
`MRET` is executed in machine mode, and no environment call ends the test. -/
structure Shared (imem : SramAddr → BitVec 32) (a : Sequential.State) (inst : RvInstr) : Prop where
  illegal : Decoder.instIllegal inst.word = true →
    ¬Legality.Extension inst ∧ ¬Legality.Unchecked inst
  jalr : inst.opcode = Opcode.jalr → (a.regs.read inst.rs1).getLsbD 0 = false
  access : IsLoad inst ∨ IsStore inst → Quiet imem a → InReach inst a.regs
  csr : inst.opcode = Opcode.system → inst.funct3 ∈ [1#3, 2, 3, 5, 6, 7] →
    ∃ csr, CsrShared a.csr a.regs inst csr
  mret : PrivWord inst 0x302 → a.csr.mode = Priv.m
  ecall : PrivWord inst 0 → a.regs.read 17 ≠ 93
  ebreak : PrivWord inst 1 → a.regs.read 10 ≠ 0

section Decidable

open Legality

instance (inst : RvInstr) : Decidable (Atomic inst) := inferInstanceAs (Decidable (_ ∧ _))

instance (inst : RvInstr) : Decidable (Extension inst) := inferInstanceAs (Decidable (_ ∨ _))

instance (inst : RvInstr) : Decidable (Unchecked inst) := inferInstanceAs (Decidable (_ ∨ _))

instance (imem : SramAddr → BitVec 32) (a : Sequential.State) (inst : RvInstr) :
    Decidable (Shared imem a inst) :=
  decidable_of_iff ((Decoder.instIllegal inst.word = true → ¬Extension inst ∧ ¬Unchecked inst) ∧
    (inst.opcode = Opcode.jalr → (a.regs.read inst.rs1).getLsbD 0 = false) ∧
    (IsLoad inst ∨ IsStore inst → Quiet imem a → InReach inst a.regs) ∧
    (inst.opcode = Opcode.system → [1#3, 2, 3, 5, 6, 7].contains inst.funct3 = true →
      ∃ csr, CsrShared a.csr a.regs inst csr) ∧
    (PrivWord inst 0x302 → a.csr.mode = Priv.m) ∧ (PrivWord inst 0 → a.regs.read 17 ≠ 93) ∧
    (PrivWord inst 1 → a.regs.read 10 ≠ 0))
    ⟨fun ⟨h1, h2, h3, h4, h5, h6, h7⟩ => ⟨h1, h2, h3,
        fun ho hf => h4 ho (List.contains_iff_mem.mpr hf), h5, h6, h7⟩,
      fun ⟨h1, h2, h3, h4, h5, h6, h7⟩ => ⟨h1, h2, h3,
        fun ho hf => h4 ho (List.contains_iff_mem.mp hf), h5, h6, h7⟩⟩

end Decidable

section Decode

variable (hc : Fetched imem a mem inst)

include hc

theorem decode_exception (k : ExcNo) : (Sequential.decode imem a).ex.exception k =
    ExcCtrl.exception a.pc (Sequential.decode imem a).info (Decoder.instIllegal inst.word)
      a.csr.mode k := by
  rw [decode_eq hc.core]
  rfl

theorem decode_tval (k : ExcNo) : (Sequential.decode imem a).ex.tval k =
    ExcCtrl.tval a.pc (Sequential.decode imem a).info k := by
  rw [decode_eq hc.core]
  rfl

theorem decode_inst : (Sequential.decode imem a).info.inst = inst.word := by
  rw [decode_eq hc.core]
  rfl

theorem aligned_extract : a.pc.extractLsb' 0 2 = 0#2 := (Transfer.aligned_iff _).mp hc.aligned

theorem decode_none {t : InstrType} {f : FuType} {op : FuOp}
    (hl : Decoder.lookup inst.word = ⟨t, f, op⟩) (ht : t ≠ .n)
    (hx : f = .csr → op ≠ CSROpType.ebreak ∧ op ≠ CSROpType.ecall) :
    (Sequential.decode imem a).ex.exception = fun _ => false := by
  have hd := hc.decoded hl
  have hi : Decoder.instIllegal inst.word = false := by
    rw [Decoder.instIllegal, hl]
    exact decide_eq_false ht
  have hb : ExcCtrl.isEbreak (Sequential.decode imem a).info = false ∧
      ExcCtrl.isEcall (Sequential.decode imem a).info = false := by
    rw [ExcCtrl.isEbreak, ExcCtrl.isEcall, hd.fusel, hd.op]
    by_cases hf : f = .csr
    · simp [hf, hx hf]
    · simp [hf]
  funext k
  rw [decode_exception hc, ExcCtrl.exception, hi, hb.1, hb.2, aligned_extract hc]
  simp

end Decode

theorem idle_fetched (s : RvCore.State MmioMem) (inst : RvInstr) :
    (begun s).Idle ((begun s).fetched inst) := ⟨_, _, _, .refl _, rfl⟩

theorem map_raiseTrap (c : RvCore.State MmioMem) (cause : Cause) (tval : Word) :
    (c.priv.raiseTrap cause tval).map (fun h => (c.withPriv h).done) =
      (c.raiseTrap cause tval).map State.done := by
  rw [State.raiseTrap]
  cases c.priv.raiseTrap cause tval <;> rfl

section Legal

variable (h : Agrees a s mem) (hc : Fetched imem a mem inst) (ht : s.priv.mcycle < 2000000)
  (hv : State.isRvc inst = false)

include h hc ht hv

theorem cases_arith (hw : (Decoder.info inst.word).regWen = true)
    (hf : (Decoder.info inst.word).fusel ∈ [FuType.alu, .mdu]) : Steps imem a s := by
  have hd := hc.decoded rfl
  have hf' : (Sequential.decode imem a).info.fusel ∈ [FuType.alu, .mdu] := hd.fusel ▸ hf
  have hne {f : FuType} (hn : f ∉ [FuType.alu, .mdu]) :
      (Sequential.decode imem a).info.fusel ≠ f := fun he => hn (he ▸ hf')
  have hn : (Decoder.lookup inst.word).instrType ≠ .n := by
    intro he
    have hw' : (Decoder.lookup inst.word).instrType.isRegWen = true := hw
    rw [he] at hw'
    exact absurd hw' (by decide)
  have hx := decode_none hc (t := (Decoder.lookup inst.word).instrType) rfl hn
    fun he => absurd (hd.fusel.trans he) (hne (by decide))
  have hq : Quiet imem a := quiet_of hx (lsu_not_hasExc (hne (by decide)))
    (bru_not_hasExc _ _ (hne (by decide))) (not_isIllegal (hne (by decide)))
  exact steps_arith h hc hq ht hv hw hf

theorem cases_nop {op : FuOp} (hl : Decoder.lookup inst.word = ⟨.s, .alu, op⟩)
    (hx : (begun s).decodeExec inst testConfig = .ok ((begun s).fetched inst).done) :
    Steps imem a s := by
  have hd := hc.decoded hl
  have hq : Quiet imem a := quiet_of
    (decode_none hc hl (by decide) (fun he => absurd he (by decide)))
    (lsu_not_hasExc (by simp [hd.fusel])) (bru_not_hasExc _ _ (by simp [hd.fusel]))
    (not_isIllegal (by simp [hd.fusel]))
  exact steps_nop h hc hq ht hv hl hx

omit hv in
theorem cases_misaligned {t : InstrType} {op : FuOp} {k : ℕ} {e : ExcNo}
    (hl : Decoder.lookup inst.word = ⟨t, .lsu, op⟩) (htn : t ≠ .n) (hw : Lsu.Width op k)
    (hm : Lsu.memAddr (Sequential.decode imem a).info (Sequential.decode imem a).srcInfo =
      address inst a.regs)
    (he : (if LSUOpType.isLoad op then ExcNo.loadAddrMisaligned else .storeAddrMisaligned) = e)
    (hx : ¬address inst a.regs % BitVec.ofNat 64 (2 ^ k) = 0 →
      (begun s).decodeExec inst testConfig = (((begun s).fetched inst).raiseTrap (.exc e)
        (address inst a.regs)).map State.done)
    (hq : Quiet imem a → Steps imem a s) : Steps imem a s := by
  have hd := hc.decoded hl
  have hi := issued_accessOf h hc
  have hnone := decode_none hc hl htn fun he => absurd he (by decide)
  have hexc : Lsu.hasExc (accessOf a s inst).issued.info (accessOf a s inst).issued.srcInfo =
      decide ((address inst a.regs).toNat % 2 ^ k ≠ 0) :=
    hasExc_issued hl hw (by rw [hi]; exact hm)
  rw [hi] at hexc
  cases hb : Lsu.hasExc (Sequential.decode imem a).info (Sequential.decode imem a).srcInfo with
  | false =>
    exact hq (quiet_of hnone hb (bru_not_hasExc _ _ (by simp [hd.fusel]))
      (not_isIllegal (by simp [hd.fusel])))
  | true =>
    have hr := raises_lsu hnone hd.fusel hb
    rw [hb] at hexc
    have hn := mt (mod_size_iff hw.lt).mp (of_decide_eq_true hexc.symm)
    have hnt : ((begun s).fetched inst).priv.curNeedTrap = false := rfl
    have hne : e ≠ .instPageFault := by
      rw [← he]
      split_ifs <;> decide
    rw [hd.op, hm, he] at hr
    have hx' := hx hn
    rw [State.raiseTrap_eq hnt hne] at hx'
    exact steps_of_trapped h hr hc ht (idle_fetched s inst)
      ⟨_, hx', State.exception_trapped (begun_inv h.inv).priv⟩

theorem cases_load (hs : Shared imem a inst) (hi : IsLoad inst) : Steps imem a s := by
  obtain ⟨op, k, extend, hl⟩ := hi.load
  have hm : Lsu.memAddr (Sequential.decode imem a).info (Sequential.decode imem a).srcInfo =
      address inst a.regs := by
    rw [← issued_accessOf h hc]
    exact memAddr_load (s := accessOf a s inst) hl hi.1
  refine cases_misaligned h hc ht (e := .loadAddrMisaligned) hl.lookup (by decide) hl.width hm
    (by rw [hl.isLoad]; rfl) (fun hn => ?_)
    fun hq => steps_load h hc hq ht hv (hs.access (.inl hi) hq) hi
  have haddr : ((begun s).fetched inst).gpr inst.rs1 + inst.imm12.signExtend 64 =
      address inst a.regs := by
    have hg : ((begun s).fetched inst).gpr = a.regs.read := h.gpr
    rw [hg, address, if_pos hi.1]
  rw [State.decodeExec_load hi.1, State.execLoad, hl.kind]
  simp only [haddr]
  rw [State.memRead, if_pos hn]

theorem cases_store (hs : Shared imem a inst) (hi : IsStore inst) : Steps imem a s := by
  obtain ⟨op, k, hl⟩ := hi.store
  have hm : Lsu.memAddr (Sequential.decode imem a).info (Sequential.decode imem a).srcInfo =
      address inst a.regs := by
    rw [← issued_accessOf h hc]
    exact memAddr_store (s := accessOf a s inst) hl hi.1
  have hload : LSUOpType.isLoad op = false := by
    rw [LSUOpType.isLoad, hl.isStore]
    rfl
  refine cases_misaligned h hc ht (e := .storeAddrMisaligned) hl.lookup (by decide) hl.width hm
    (by rw [hload]; rfl) (fun hn => ?_)
    fun hq => steps_store h hc hq ht hv (hs.access (.inr hi) hq) hi
  have haddr : ((begun s).fetched inst).gpr inst.rs1 + inst.immS.signExtend 64 =
      address inst a.regs := by
    have hg : ((begun s).fetched inst).gpr = a.regs.read := h.gpr
    rw [hg, address, if_neg (by rw [hi.1]; decide)]
  rw [State.decodeExec_store hi.1, State.execStore, hl.size]
  simp only [haddr]
  rw [State.memWrite, if_pos hn]

omit hv in
theorem cases_transfer {t : InstrType} {op : FuOp} {target : Word} {c : RvCore.State MmioMem}
    (newPc : Bool) (hl : Decoder.lookup inst.word = ⟨t, .bru, op⟩) (htn : t ≠ .n)
    (hn : Bru.target a.pc (Sequential.decode imem a).info (Sequential.decode imem a).srcInfo =
      target) (hi : (begun s).Idle c) (hci : c.priv.Inv)
    (hx : Bru.branch (Sequential.decode imem a).info (Sequential.decode imem a).srcInfo = true →
      target % pcAlign ≠ 0 → (begun s).decodeExec inst testConfig =
        .ok ⟨c.withPriv (c.priv.trapped (.exc .instAddrMisaligned) target), false, newPc⟩)
    (hq : Quiet imem a → Steps imem a s) : Steps imem a s := by
  have hd := hc.decoded hl
  have hnone := decode_none hc hl htn fun he => absurd he (by decide)
  cases hb : Bru.hasExc (Sequential.decode imem a).ex a.pc (Sequential.decode imem a).info
      (Sequential.decode imem a).srcInfo with
  | false =>
    exact hq (quiet_of hnone (lsu_not_hasExc (by simp [hd.fusel])) hb
      (not_isIllegal (by simp [hd.fusel])))
  | true =>
    have hr := raises_bru hnone hd.fusel hb
    rw [Bru.hasExc, Bool.and_eq_true, Bool.and_eq_true, hn] at hb
    have hna : target % pcAlign ≠ 0 := fun h0 => by
      rw [Transfer.aligned_iff] at h0
      rw [h0] at hb
      exact absurd hb.1.2 (by decide)
    rw [hn] at hr
    exact steps_of_trapped h hr hc ht hi ⟨_, hx hb.1.1 hna, State.exception_trapped hci⟩

theorem cases_link {t : InstrType} {op : FuOp} (npc : Word)
    (hl : Decoder.lookup inst.word = ⟨t, .bru, op⟩) (hwen : t.isRegWen = true)
    (hj : BRUOpType.isJump op = true)
    (hx : (begun s).decodeExec inst testConfig = ((begun s).fetched inst).link inst npc)
    (hn : Bru.target a.pc (Sequential.decode imem a).info (Sequential.decode imem a).srcInfo =
      npc) : Steps imem a s := by
  have htn : t ≠ .n := by
    rintro rfl
    exact absurd hwen (by decide)
  refine cases_transfer h hc ht false hl htn hn (idle_fetched s inst) (begun_inv h.inv).priv
    (fun _ hna => ?_) fun hq => steps_link h hc hq ht hv hl hwen hj hx hn
  have hnt : ((begun s).fetched inst).priv.curNeedTrap = false := rfl
  rw [hx, State.link, if_pos hna, State.raiseTrap_eq hnt (by decide)]
  rfl

theorem cases_jal (ho : inst.opcode = Opcode.jal) : Steps imem a s := by
  have hl := Transfer.lookup_jal ho
  have hpc : ((begun s).fetched inst).pc = a.pc := h.pc
  refine cases_link h hc ht hv (a.pc + inst.immJ.signExtend 64) hl (by decide) (by decide) ?_ ?_
  · rw [State.decodeExec_jal ho, State.execJal, hpc]
  · have hop : (Sequential.decode imem a).info.op ≠ BRUOpType.jalr := by
      rw [(hc.decoded hl).op]
      decide
    have hi : (Sequential.decode imem a).info.imm = inst.immJ.signExtend 64 := by
      rw [decode_eq hc.core, ← inst.immJ_word]
      change Decoder.imm (Decoder.lookup inst.word).instrType inst.word = _
      rw [hl]
      rfl
    rw [Bru.target, if_neg hop, hi]

theorem cases_jalr (hs : Shared imem a inst) (ho : inst.opcode = Opcode.jalr)
    (h3 : inst.funct3 = 0) : Steps imem a s := by
  have hl := Transfer.lookup_jalr ho h3
  have hg : ((begun s).fetched inst).gpr = a.regs.read := h.gpr
  refine cases_link h hc ht hv (a.regs.read inst.rs1 + (inst.imm12.signExtend 64 &&& ~~~1#64)) hl
    (by decide) (by decide) ?_ ?_
  · rw [State.decodeExec_jalr ho, State.execJalr, hg, Transfer.jalrImm_eq]
  · have h1 : (Sequential.decode imem a).srcInfo.src1Data = a.regs.read inst.rs1 := by
      rw [decode_eq hc.core]
      exact issue_src1Data_reg (by rw [hl]; decide)
    have h2 : (Sequential.decode imem a).srcInfo.src2Data = inst.imm12.signExtend 64 := by
      rw [decode_eq hc.core, issue_src2Data_imm (by rw [hl]; decide), hl, Decoder.imm,
        inst.immI_word]
    rw [Bru.target, if_pos (hc.decoded hl).op, h1, h2]
    exact ((Transfer.jalr_target_eq_iff _ _).mpr (hs.jalr ho)).symm

theorem cases_branch (ho : inst.opcode = Opcode.branch) (h3 : inst.funct3 ∈ [Funct3.beq,
    Funct3.bne, Funct3.blt, Funct3.bge, Funct3.bltu, Funct3.bgeu]) : Steps imem a s := by
  obtain ⟨op, hl, hb, hne, hk⟩ := Transfer.lookup_branch ho h3
  have hd := hc.decoded hl
  have hg : ((begun s).fetched inst).gpr = a.regs.read := h.gpr
  have hpc : ((begun s).fetched inst).pc = a.pc := h.pc
  have hj : BRUOpType.isJump op = false := by
    simpa [BRUOpType.isJump, BRUOpType.isBranch] using hb
  have hsrc : (Sequential.decode imem a).srcInfo =
      ⟨a.regs.read inst.rs1, a.regs.read inst.rs2⟩ := by
    have h1 : (Sequential.decode imem a).srcInfo.src1Data = a.regs.read inst.rs1 := by
      rw [decode_eq hc.core]
      exact issue_src1Data_reg (by rw [hl]; simp)
    have h2 : (Sequential.decode imem a).srcInfo.src2Data = a.regs.read inst.rs2 := by
      rw [decode_eq hc.core]
      exact issue_src2Data_reg (by rw [hl]; simp)
    rw [← h1, ← h2]
  have hn : Bru.target a.pc (Sequential.decode imem a).info (Sequential.decode imem a).srcInfo =
      a.pc + inst.immB.signExtend 64 := by
    have hi : (Sequential.decode imem a).info.imm = inst.immB.signExtend 64 := by
      rw [decode_eq hc.core, ← inst.immB_word]
      change Decoder.imm (Decoder.lookup inst.word).instrType inst.word = _
      rw [hl]
      rfl
    rw [Bru.target, if_neg (by rw [hd.op]; exact hne), hi]
  have hwen : InstrType.isRegWen .b = false := by decide
  have hn' : Bru.target a.pc (Sequential.decode imem a).info (Sequential.decode imem a).srcInfo =
      ((begun s).fetched inst).pc + inst.immB.signExtend 64 := by rw [hn, hpc]
  refine cases_transfer h hc ht (c := { (begun s).fetched inst with debugIsBranch := true }) true hl
    (by decide) hn'
    ⟨_, _, _, .refl _, rfl⟩ (begun_inv h.inv).priv (fun hbr hna => ?_)
    fun hq => steps_branch h hc hq ht hv hl hwen hb hj ho hsrc hn hk
  have hv' : (Sequential.decode imem a).info.valid = true := rfl
  have htk : Bru.branchBool op ⟨a.regs.read inst.rs1, a.regs.read inst.rs2⟩ = true := by
    simpa [Bru.branch, hd.fusel, hd.op, hb, hj, hv', hsrc] using hbr
  have hnt : { (begun s).fetched inst with debugIsBranch := true }.priv.curNeedTrap = false := rfl
  have hkt : branchTaken inst.funct3 (((begun s).fetched inst).gpr inst.rs1)
      (((begun s).fetched inst).gpr inst.rs2) = some true := by rw [hg, hk, htk]
  rw [State.decodeExec_branch ho, State.execBranch, hkt]
  change (if (((begun s).fetched inst).pc + inst.immB.signExtend 64) % pcAlign ≠ 0 then _
    else _) = _
  rw [if_pos hna, State.raiseTrap_eq hnt (by decide)]
  rfl

theorem cases_csr (hs : Shared imem a inst) (ho : inst.opcode = Opcode.system)
    (hf : inst.funct3 ∈ [1#3, 2, 3, 5, 6, 7]) : Steps imem a s := by
  obtain ⟨csr, hk⟩ := hs.csr ho hf
  have hl := lookup_csr ho hf
  have hd := hc.decoded hl
  have hx : ∀ f ∈ [1#3, 2, 3, 5, 6, 7],
      f.setWidth 5 ≠ CSROpType.ebreak ∧ f.setWidth 5 ≠ CSROpType.ecall := by decide
  have hnone := decode_none hc hl (by decide) fun _ => hx _ hf
  cases hi : Csr.isIllegal a.csr (csrIn imem a) with
  | false =>
    have hq : Quiet imem a := quiet_of hnone (lsu_not_hasExc (by simp [hd.fusel]))
      (bru_not_hasExc _ _ (by simp [hd.fusel])) hi
    exact steps_csr h hc hq hf ho hk ht hv
  | true =>
    have hr : csrRefused a.csr inst csr = true := (isIllegal_csrIn h hf hk hc ho).symm.trans hi
    have ha : Csr.illegalAddr (csrIn imem a) = false := by
      rw [Csr.illegalAddr, csrIn_addr hc hk.index, CsrName.ofAddr_addr]
      rfl
    have hraise := raises_csr hnone hd.fusel ha hi
    rw [decode_inst hc] at hraise
    exact steps_of_trapped h hraise hc ht (idle_fetched s inst)
      ⟨_, decodeExec_refused h hf hk ho hr,
        State.exception_illegal ⟨(begun_inv h.inv).priv, (begun_inv h.inv).curNeedTrap⟩⟩

theorem cases_mret (hs : Shared imem a inst) (hp : PrivWord inst 0x302)
    (hl : Decoder.lookup inst.word = ⟨.s, .csr, CSROpType.mret⟩) : Steps imem a s := by
  have hd := hc.decoded hl
  have hnone := decode_none hc hl (by decide) fun _ => by decide
  have hw : Csr.write (csrIn imem a) = false := by
    have hop : (csrIn imem a).info.op = CSROpType.mret := hd.op
    have hn : CSROpType.isCSROp CSROpType.mret = false := by decide
    rw [Csr.write, hop, hn, Bool.and_false, Bool.false_and]
  have hi : Csr.isIllegal a.csr (csrIn imem a) = false := by
    rw [Csr.isIllegal, hw]
    simp
  have hq : Quiet imem a := quiet_of hnone (lsu_not_hasExc (by simp [hd.fusel]))
    (bru_not_hasExc _ _ (by simp [hd.fusel])) hi
  exact steps_mret h hc hq hd hp (hs.mret hp) ht hv

omit hv in
theorem cases_environment {op : FuOp} {e : ExcNo}
    (hl : Decoder.lookup inst.word = ⟨.s, .csr, op⟩) (hop : CSROpType.isCSROp op = false)
    (he : ∀ k, ExcCtrl.exception a.pc (Sequential.decode imem a).info false a.csr.mode k =
      decide (k = e)) (hm : e ∈ [ExcNo.breakPoint, .ecallU, .ecallM])
    (hx : (begun s).decodeExec inst testConfig =
      (((begun s).fetched inst).raiseTrap (.exc e) 0).map State.done) : Steps imem a s := by
  have hd := hc.decoded hl
  have hi : Decoder.instIllegal inst.word = false := by
    rw [Decoder.instIllegal, hl]
    rfl
  have hw : Csr.write (csrIn imem a) = false := by
    have ho : (csrIn imem a).info.op = op := hd.op
    rw [Csr.write, ho, hop, Bool.and_false, Bool.false_and]
  have hc' : ∀ e ∈ [ExcNo.breakPoint, .ecallU, .ecallM], e ∈ dutCauses ∧ e ≠ .instPageFault ∧
      e ≠ .instAddrMisaligned ∧ e ≠ .illegalInst := by decide
  obtain ⟨h1, h2, h3, h4⟩ := hc' e hm
  have hr : Raises imem a e 0 := by
    refine raises_decode ?_ ?_ h1 (by simp [hd.fusel]) (by simp [hd.fusel]) hw
    · funext k
      rw [decode_exception hc, hi, he]
    · rw [decode_tval hc, ExcCtrl.tval, if_neg h3, if_neg h4]
  have hnt : ((begun s).fetched inst).priv.curNeedTrap = false := rfl
  rw [State.raiseTrap_eq hnt h2] at hx
  exact steps_of_trapped h hr hc ht (idle_fetched s inst)
    ⟨_, hx, State.exception_trapped (begun_inv h.inv).priv⟩

omit hv in
theorem cases_ecall (hs : Shared imem a inst) (hp : PrivWord inst 0)
    (hl : Decoder.lookup inst.word = ⟨.s, .csr, CSROpType.ecall⟩) : Steps imem a s := by
  have hd := hc.decoded hl
  have hg : ((begun s).fetched inst).gpr = a.regs.read := h.gpr
  have hn : ¬(testConfig.runRiscvTest ∧ ((begun s).fetched inst).gpr 17 = 93) := by
    rw [hg]
    exact fun hx => hs.ecall hp hx.2
  have hx {e : ExcNo} (he : (⟨(begun s).priv.curPriv.setWidth 63 + 8, 0⟩ : Cause) = .exc e) :
      (begun s).decodeExec inst testConfig =
        (((begun s).fetched inst).raiseTrap (.exc e) 0).map State.done := by
    have hx' : ((begun s).fetched inst).execPriv inst testConfig =
        ((begun s).fetched inst).execEcall testConfig := by
      rw [State.execPriv, hp.funct7, hp.rs2, hp.rs1, hp.rd]
      rfl
    have he' : (begun s).priv.ecall = (begun s).priv.raiseTrap (.exc e) 0 := by
      rw [Hart.ecall, he]
    rw [decodeExec_priv hp, hx', State.execEcall, if_neg hn]
    change ((begun s).priv.ecall).map _ = _
    rw [he']
    exact map_raiseTrap ((begun s).fetched inst) _ _
  have hm : (begun s).priv.curPriv = a.csr.mode := h.csr.nextPriv
  have hb : ExcCtrl.isEbreak (Sequential.decode imem a).info = false := by
    rw [ExcCtrl.isEbreak, hd.op]
    simp [CSROpType.ebreak, CSROpType.ecall]
  have hc' : ExcCtrl.isEcall (Sequential.decode imem a).info = true := by
    rw [ExcCtrl.isEcall, hd.fusel, hd.op]
    rfl
  rcases h.csr.isolated.mode_mem with hu | hu
  · refine cases_environment h hc ht (e := .ecallU) hl (by decide) (fun k => ?_) (by decide)
      (hx (by rw [hm, hu]; rfl))
    rw [ExcCtrl.exception, hb, hc', aligned_extract hc, hu]
    revert k
    decide
  · refine cases_environment h hc ht (e := .ecallM) hl (by decide) (fun k => ?_) (by decide)
      (hx (by rw [hm, hu]; rfl))
    rw [ExcCtrl.exception, hb, hc', aligned_extract hc, hu]
    revert k
    decide

omit hv in
theorem cases_ebreak (hs : Shared imem a inst) (hp : PrivWord inst 1)
    (hl : Decoder.lookup inst.word = ⟨.s, .csr, CSROpType.ebreak⟩) : Steps imem a s := by
  have hd := hc.decoded hl
  have hg : ((begun s).fetched inst).gpr = a.regs.read := h.gpr
  have hn : ¬(testConfig.runRiscvTest ∧ ((begun s).fetched inst).gpr 10 = 0) := by
    rw [hg]
    exact fun hx => hs.ebreak hp hx.2
  have hx : (begun s).decodeExec inst testConfig =
      (((begun s).fetched inst).raiseTrap (.exc .breakPoint) 0).map State.done := by
    have hx' : ((begun s).fetched inst).execPriv inst testConfig =
        ((begun s).fetched inst).execEbreak testConfig := by
      rw [State.execPriv, hp.funct7, hp.rs2, hp.rs1, hp.rd]
      rfl
    rw [decodeExec_priv hp, hx', State.execEbreak, if_neg hn]
    exact map_raiseTrap ((begun s).fetched inst) _ _
  have hb : ExcCtrl.isEbreak (Sequential.decode imem a).info = true := by
    rw [ExcCtrl.isEbreak, hd.fusel, hd.op]
    rfl
  have hc' : ExcCtrl.isEcall (Sequential.decode imem a).info = false := by
    rw [ExcCtrl.isEcall, hd.op]
    simp [CSROpType.ebreak, CSROpType.ecall]
  refine cases_environment h hc ht (e := .breakPoint) hl (by decide) (fun k => ?_) (by decide) hx
  rw [ExcCtrl.exception, hb, hc', aligned_extract hc]
  generalize a.csr.mode = mode
  revert k mode
  decide

end Legal

end PuaCpu.Lockstep
