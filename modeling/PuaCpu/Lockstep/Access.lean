import PuaCpu.Lockstep.Units

/-! # Loads and stores

An access of the sequential machine is one access of the data port. It reads and
writes the bytes that the reference model reaches over the bus.
-/

namespace PuaCpu.Lockstep

open RvCore RvPriv Access

variable {imem : SramAddr → BitVec 32} {a : Sequential.State} {s : RvCore.State MmioMem}
  {mem : Bytes.Memory 64} {inst : RvInstr}

section Lanes

variable {x v : Word} {op : FuOp} {k : ℕ}

theorem port_setWidth (h : InMemory x 1) : (x.extractLsb' 0 32).setWidth 64 = x := by
  have hp := port_addr h
  rwa [BitVec.and_allOnes] at hp

theorem portInMemory (h : InMemory x 1) : PortInMemory (x.extractLsb' 0 32) := by
  rw [PortInMemory, port_setWidth h]
  exact h

theorem lanes_port (h : InMemory x 1) : lanes (x.extractLsb' 0 32) = place (x - (x &&& 7)) := by
  rw [lanes, port_setWidth h]

/-- The lanes of an aligned store are the bytes at its address. -/
theorem storeLanes_wdata (hw : Lsu.Width op k) (ha : x.toNat % 2 ^ k = 0) (h : InMemory x 1) :
    Bytes.storeLanes mem (lanes (x.extractLsb' 0 32)) (Lsu.memWenTmp op x) (Lsu.wdata op v) =
      Bytes.store mem (place x) (2 ^ k) v := by
  have hb : lanes (x.extractLsb' 0 32) + BitVec.ofNat 64 (x.toNat % 8) = place x := by
    apply BitVec.eq_of_toNat_eq
    have hl := toNat_place (aligned_inMemory h)
    rw [toNat_align] at hl
    rw [lanes_port h, BitVec.toNat_add, hl, toNat_place h, BitVec.toNat_ofNat]
    obtain ⟨h1, h2⟩ := h
    omega
  rw [← foldl_strbToRange, Lsu.strbToRange_memWenTmp hw ha, List.foldl_cons, List.foldl_nil,
    Bytes.storeRange, hb]
  exact Bytes.store_congr _ _ fun i hi => Lsu.getLsbD_wdata hw ha hi

end Lanes

/-- An access that the memory of the harness serves and that does not end the test. -/
structure InReach (inst : RvInstr) (regs : ARegFile) : Prop where
  inMemory : InMemory (address inst regs) 1
  noExit : IsStore inst → ¬(address inst regs = 0x80001000 ∧ regs.read inst.rs2 = 1)

instance (inst : RvInstr) (regs : ARegFile) : Decidable (InReach inst regs) :=
  decidable_of_iff (InMemory (address inst regs) 1 ∧
    (IsStore inst → ¬(address inst regs = 0x80001000 ∧ regs.read inst.rs2 = 1)))
    ⟨fun ⟨h1, h2⟩ => ⟨h1, h2⟩, fun ⟨h1, h2⟩ => ⟨h1, h2⟩⟩

variable (h : Agrees a s mem) (hc : Fetched imem a mem inst) (hq : Quiet imem a)
  (ht : s.priv.mcycle < 2000000) (hv : State.isRvc inst = false) (hr : InReach inst a.regs)

/-- The instruction as one of a sequence of accesses. -/
def accessOf (a : Sequential.State) (s : RvCore.State MmioMem) (inst : RvInstr) : Access.Step :=
  ⟨inst, a.regs, a.csr, a.csr.mode, begun s⟩

section Issued

include h hc

theorem issued_accessOf : (accessOf a s inst).issued = Sequential.decode imem a := by
  have hpc : (begun s).pc = a.pc := h.pc
  rw [decode_eq hc.core, Step.issued, accessOf, hpc]

variable {t : InstrType} {op : FuOp} {k : ℕ} (hl : Decoder.lookup inst.word = ⟨t, .lsu, op⟩)
  (hw : Lsu.Width op k)
  (hm : Lsu.memAddr (Sequential.decode imem a).info (Sequential.decode imem a).srcInfo =
    address inst a.regs)

include hq hl hw hm

theorem address_aligned : (address inst a.regs).toNat % 2 ^ k = 0 := by
  have hi := issued_accessOf h hc
  have hx : Lsu.hasExc (accessOf a s inst).issued.info (accessOf a s inst).issued.srcInfo =
      decide ((address inst a.regs).toNat % 2 ^ k ≠ 0) :=
    hasExc_issued hl hw (by rw [hi]; exact hm)
  rw [hi, hq.not_lsu_hasExc] at hx
  by_contra hn
  rw [decide_eq_true hn] at hx
  exact absurd hx (by decide)

omit h hw in
theorem dataSram_eq : Sequential.dataSram imem a =
    ⟨true, (address inst a.regs).extractLsb' 0 32,
      Lsu.wdata op (Sequential.decode imem a).srcInfo.src2Data,
      if LSUOpType.isStore op then Lsu.memWenTmp op (address inst a.regs) else 0⟩ := by
  have hd := hc.decoded hl
  have hvd : (Sequential.decode imem a).info.valid = true := rfl
  rw [Sequential.dataSram, Fu.dataSram, Lsu.dataSram, hq.not_lsu_hasExc, hvd, hd.fusel, hd.op, hm]
  rfl

end Issued

include h hc hq ht hv hr

theorem steps_load (hload : IsLoad inst) : Steps imem a s := by
  obtain ⟨op, k, extend, hl⟩ := hload.load
  have hd := hc.decoded hl.lookup
  have hi' := issued_accessOf h hc
  have hm : Lsu.memAddr (Sequential.decode imem a).info (Sequential.decode imem a).srcInfo =
      address inst a.regs := by
    rw [← hi']
    exact memAddr_load (s := accessOf a s inst) hl hload.1
  have ha := address_aligned h hc hq hl.lookup hl.width hm
  have hp := dataSram_eq hc hq hl.lookup hm
  have hst : LSUOpType.isStore op = false := by simpa [LSUOpType.isLoad] using hl.isLoad
  have hf := hd.fusel
  have hop := hd.op
  have hi : InstrType.isRegWen .i = true := by decide
  have hwen : (Sequential.decode imem a).info.regWen = true := hd.regWen.trans hi
  have hmem : (Sequential.dataSram imem a).isWrite = false :=
    not_isWrite fun hs => by
      rw [hop, hst] at hs
      exact absurd hs.2 (by decide)
  -- the doubleword of the port
  have hdw : Sequential.memory imem a (DataSram.index (Sequential.dataSram imem a).addr) =
      Bytes.load mem (place (address inst a.regs - (address inst a.regs &&& 7))) 8 := by
    rw [Sequential.memory, DataSram.write_of_not_isWrite hmem, hp,
      h.mem _ (portInMemory hr.inMemory), lanes_port hr.inMemory]
  have hlow : (address inst a.regs).extractLsb' 0 3 =
      ((Sequential.decode imem a).srcInfo.src1Data +
        (Sequential.decode imem a).info.imm).extractLsb' 0 3 := by
    rw [← hm]
    rfl
  have hres : (Sequential.execute imem a).rdInfo.wdata =
      extend (Bytes.load mem (place (address inst a.regs)) (2 ^ k)) := by
    have hx : (Sequential.execute imem a).rdInfo = ⟨LsuMem.result
        (Sequential.decode imem a).info (Sequential.decode imem a).srcInfo _⟩ := if_pos hf
    rw [hx, hdw, hl.result _ _ _ hop]
    refine hl.congr fun i hi => ?_
    rw [LsuMem.rdataShifted, ← hlow, Bits.toNat_extract, pow_zero, Nat.div_one]
    exact getLsbD_load_lane hl.width.lt ha hr.inMemory hi
  have haddr : ((begun s).fetched inst).gpr inst.rs1 + inst.imm12.signExtend 64 =
      address inst a.regs := by
    have hg : ((begun s).fetched inst).gpr = a.regs.read := h.gpr
    rw [hg, address, if_pos hload.1]
  have hx : (begun s).decodeExec inst testConfig = .ok (((begun s).fetched inst).setGpr inst.rd
      (extend (Bytes.load mem (place (address inst a.regs)) (2 ^ k)))).done := by
    have hva : ((begun s).fetched inst).priv.vaRead (address inst a.regs) _ = _ :=
      vaRead_eq (begun_inv h.inv).priv.mode (by exact h.bus)
        (.of_aligned hl.width.lt ha hr.inMemory)
    rw [State.decodeExec_load hload.1, State.execLoad, hl.kind]
    simp only [haddr]
    rw [State.memRead, if_neg (not_not_intro ((mod_size_iff hl.width.lt).mpr ha)), hva]
    rfl
  refine steps_of_matches h hc ht hv hx (matches_next h hq (by simp [hf]) hc.pc ?_ rfl rfl rfl
    ?_ h.bus (holds_step h hmem))
  · simp [Bru.branch, hf]
  · rw [refUpdate_setGpr, hq.dutUpdate, hwen, hd.regWaddr, hres]
    simp

theorem steps_store (hi : IsStore inst) : Steps imem a s := by
  obtain ⟨op, k, hl⟩ := hi.store
  have hd := hc.decoded hl.lookup
  have hi' := issued_accessOf h hc
  have hm : Lsu.memAddr (Sequential.decode imem a).info (Sequential.decode imem a).srcInfo =
      address inst a.regs := by
    rw [← hi']
    exact memAddr_store (s := accessOf a s inst) hl hi.1
  have ha := address_aligned h hc hq hl.lookup hl.width hm
  have hp := dataSram_eq hc hq hl.lookup hm
  have hf := hd.fusel
  have hs : InstrType.isRegWen .s = false := by decide
  have hwen : (Sequential.decode imem a).info.regWen = false := hd.regWen.trans hs
  have h2 : (Sequential.decode imem a).srcInfo.src2Data = a.regs.read inst.rs2 := by
    rw [decode_eq hc.core]
    exact issue_src2Data_reg (by simp [hl.lookup])
  have hmem : Holds (Sequential.step imem a).mem (Bytes.store mem
      (place (address inst a.regs)) (2 ^ k) (a.regs.read inst.rs2)) := by
    have hw := h.mem.write (p := Sequential.dataSram imem a) (by rw [hp])
      (by rw [hp]; exact portInMemory hr.inMemory)
    rw [hp, hl.isStore, h2] at hw
    simp only [if_true] at hw
    rw [storeLanes_wdata hl.width ha hr.inMemory] at hw
    change Holds ((Sequential.dataSram imem a).write a.mem) _
    rw [hp, hl.isStore, h2]
    exact hw
  have hg : ((begun s).fetched inst).gpr = a.regs.read := h.gpr
  have haddr : ((begun s).fetched inst).gpr inst.rs1 + inst.immS.signExtend 64 =
      address inst a.regs := by
    rw [hg, address, if_neg (by rw [hi.1]; decide)]
  obtain ⟨b, hva, hb⟩ := vaWrite_eq (h := ((begun s).fetched inst).priv) testConfig
    (begun_inv h.inv).priv.mode (by exact h.bus) (.of_aligned hl.width.lt ha hr.inMemory)
    fun he => hr.noExit hi he.2
  have hx : (begun s).decodeExec inst testConfig = .ok (((begun s).fetched inst).withPriv
      { (begun s).priv with bus := b }).done := by
    rw [State.decodeExec_store hi.1, State.execStore, hl.size]
    simp only [haddr]
    rw [hg, State.memWrite, if_neg (not_not_intro ((mod_size_iff hl.width.lt).mpr ha)), hva]
    rfl
  have hu : Cosim.refUpdate (((begun s).fetched inst).withPriv
      { (begun s).priv with bus := b }) = none := refUpdate_of_begun (s := s) rfl
  refine steps_of_matches h hc ht hv hx (matches_next h hq (by simp [hf]) hc.pc ?_ rfl rfl rfl
    ?_ hb hmem)
  · simp [Bru.branch, hf]
  · rw [hu, hq.dutUpdate, hwen]
    simp

end PuaCpu.Lockstep
