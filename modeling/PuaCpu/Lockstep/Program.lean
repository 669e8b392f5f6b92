import PuaCpu.Lockstep.Run

/-! # The pipeline on a covered program

Over a program of covered instructions the pipeline needs no more of the data
port than that it serves the accesses in the memory of the harness: no handler
reads a suppressed result, no redirect leaves the address space and no
instruction reads the cycle counter.
-/

namespace PuaCpu.Lockstep

open RvCore RvPriv PuaCpu.Core Access

variable {imem : SramAddr → BitVec 32} {a : Sequential.State} {mem : Bytes.Memory 64}
  {inst : RvInstr} {m : Dmem} {ins : ℕ → In} {t : ℕ}

section Word

theorem entry_of_fusel {f : FuType} (hf : (Decoder.lookup inst.word).fuType = f)
    (hn : f ≠ .alu) : ∃ m ∈ Instructions.decodeTable, m.1.hits inst.word = true ∧
      Decoder.lookup inst.word = m.2 ∧ m.2.fuType = f := by
  rcases Decoder.hits_or inst.word with ⟨m, hm, hh, hl⟩ | ⟨-, hl⟩
  · exact ⟨m, hm, hh, hl, hl ▸ hf⟩
  · rw [hl] at hf
    exact absurd hf.symm hn

theorem isAccess_of_fusel (hf : (Decoder.lookup inst.word).fuType = .lsu) :
    IsLoad inst ∨ IsStore inst := by
  obtain ⟨m, hm, hh, -, hu⟩ := entry_of_fusel hf (by decide)
  have hrows : ∀ m ∈ Instructions.decodeTable, m.2.fuType = .lsu →
      m.1 ∈ Decoder.funct3Rows Opcode.load [0, 1, 2, 3, 4, 5, 6] ∨
        m.1 ∈ Decoder.funct3Rows Opcode.store [0, 1, 2, 3] := by decide +kernel
  rcases hrows m hm hu with hp | hp
  · exact .inl (fields_of_hits hp hh)
  · exact .inr (fields_of_hits hp hh)

variable (hc : Fetched imem a mem inst)

include hc

theorem memAddr_eq (hi : IsLoad inst ∨ IsStore inst) :
    Lsu.memAddr (Sequential.decode imem a).info (Sequential.decode imem a).srcInfo =
      address inst a.regs := by
  rw [decode_eq hc.core]
  rcases hi with hi | hi
  · obtain ⟨op, k, extend, hl⟩ := hi.load
    exact memAddr_load (s := ⟨inst, a.regs, a.csr, a.csr.mode,
      (default : RvCore.State MmioMem).jump a.pc⟩) hl hi.1
  · obtain ⟨op, k, hl⟩ := hi.store
    exact memAddr_store (s := ⟨inst, a.regs, a.csr, a.csr.mode,
      (default : RvCore.State MmioMem).jump a.pc⟩) hl hi.1

theorem port_inMemory (hs : Shared imem a inst)
    (hf : (Sequential.decode imem a).info.fusel = .lsu)
    (he : (Sequential.dataSram imem a).en = true) :
    PortInMemory (Sequential.dataSram imem a).addr := by
  have hd := hc.decoded rfl
  have hf' : (Decoder.lookup inst.word).fuType = .lsu := hd.fusel.symm.trans hf
  have hi := isAccess_of_fusel hf'
  have hx : Lsu.hasExc (Sequential.decode imem a).info (Sequential.decode imem a).srcInfo =
      false := by
    change (!false && !Lsu.hasExc _ _) = true at he
    simpa using he
  have hn : (Decoder.lookup inst.word).instrType ≠ .n := by
    obtain ⟨m, hm, -, hl, -⟩ := entry_of_fusel hf' (by decide)
    have ht : ∀ m ∈ Instructions.decodeTable, m.2.instrType ≠ .n := by decide
    rw [hl]
    exact ht m hm
  have hq : Quiet imem a := quiet_of
    (decode_none hc (t := (Decoder.lookup inst.word).instrType) rfl hn
      fun h => absurd (hf'.symm.trans h) (by decide)) hx
    (bru_not_hasExc _ _ (by simp [hf])) (not_isIllegal (by simp [hf]))
  have hr := hs.access hi hq
  have ha : (Sequential.dataSram imem a).addr = (address inst a.regs).extractLsb' 0 32 := by
    rw [← memAddr_eq hc hi]
    rfl
  rw [ha]
  exact portInMemory hr.inMemory

theorem csr_ne_cycle (hs : Shared imem a inst)
    (hf : (Sequential.decode imem a).info.fusel = .csr) :
    (Sequential.decode imem a).info.inst.extractLsb' 20 12 ≠ CsrName.cycle.addr := by
  have hd := hc.decoded rfl
  obtain ⟨m, hm, hh, -, hu⟩ := entry_of_fusel (hd.fusel.symm.trans hf) (by decide)
  have hrows : ∀ m ∈ Instructions.decodeTable, m.2.fuType = .csr →
      m.1 ∈ Decoder.funct3Rows Opcode.system [1, 2, 3, 5, 6, 7] ∨
        m.1.asks 20 12 [0x000, 0x001, 0x302] = true := by decide +kernel
  rw [decode_inst hc]
  intro he
  rcases hrows m hm hu with hp | hp
  · obtain ⟨ho, hf3⟩ := fields_of_hits hp hh
    obtain ⟨csr, hk⟩ := hs.csr ho hf3
    have hi : inst.csrIndex = CsrName.cycle.addr := by
      rw [← he, inst.extract_word (by decide)]
      rfl
    have hcsr : csr = .cycle := by
      have h1 := CsrName.ofAddr_addr csr
      rw [← hk.index, hi] at h1
      exact Option.some_inj.mp h1.symm
    exact hk.compared (by simp [hcsr])
  · have hv := BitPat.mem_of_asks hp hh
    rw [he] at hv
    exact absurd hv (by decide)

end Word

section Pipeline

variable (h : Served imem m ins t) (hk : ∀ v ≤ t, (machine.run ins v).exe.info.valid = true →
  Covered imem (reached imem m ins v))

include h hk

/-- The first instruction of a handler does not read what the trapped one would have written. -/
theorem not_leak : ¬Leak (machine.run ins t) := by
  intro hl
  obtain ⟨v, rfl, hv⟩ := trap_of_wb_hasExc hl.hasExc
  have hval := valid_of_trap hv
  have hsim := h.sim_run v (by omega)
  have hd := h.exe_eq_decode (by omega) hsim hval
  have hw : (machine.run ins (v + 2)).wb.info =
      (Sequential.decode imem (reached imem m ins v)).info := congrArg IdExeData.info hd
  obtain ⟨he, hev⟩ := exe_add_three_of_trap hv hl.valid
  have hpc : (machine.run ins (v + 2)).dec.pc =
      (Sequential.step imem (reached imem m ins v)).pc := by
    have h3 := exe_pc_run h.inst hev
    rw [he] at h3
    have hb : path ins (v + 3) = path ins (v + 1) := by
      refine path_of_bubbles (by omega) fun u h1 h2 => ?_
      obtain rfl | rfl : u = v + 1 ∨ u = v + 2 := by omega
      · rw [exe_add_one_of_trap hv]
      · exact (exe_add_two_of_trap hv).1
    exact h3.trans (hb.trans (h.sim_step (by omega) hsim hval).pc.symm)
  have hinst := (inOrder_run h.inst (v + 2)).dec_inst hl.valid
  refine (hk v (by omega) hval).handler ((h.trap_eq (by omega) hsim hval).symm.trans hv) ?_ ?_
  · rw [← hw]
    exact hl.regWen
  · rw [← hpc, ← hinst, ← hw]
    exact hl.reads

/-- The assumptions about the pipeline hold for one more cycle. -/
theorem served_succ (hm : Holds (memory m ins t) mem) (hl : (ins t).interrupt = {})
    (hd : 1 ≤ t → (dataSram (machine.run ins t)).en = true →
      PortInMemory (dataSram (machine.run ins t)).addr → (ins (t + 1)).dataRdata =
        memory m ins (t + 1) (DataSram.index (dataSram (machine.run ins t)).addr)) :
    Served imem m ins (t + 1) := by
  have hsim := h.sim_run t le_rfl
  have hexe := fun hv => h.exe_eq_decode le_rfl hsim hv
  have hfetch := fun hv => (hk t le_rfl hv).fetched (hsim.mem ▸ hm)
  refine h.succ (fun hv hf hq => ?_) hl (not_leak h hk) (fun hf => ?_) fun hv hf => ?_
  · have he := dataSram_en_of_not_trap hq
    refine hd (by have := four_le_of_exe_valid hv; omega) he ?_
    rw [dataSram, hexe hv] at he ⊢
    rw [hexe hv] at hf
    exact port_inMemory (hfetch hv) (hk t le_rfl hv).shared hf he
  · have hv := valid_of_flush hf
    have hn : (Sequential.step imem (reached imem m ins t)).pc =
        target (machine.run ins t) (ins t) := by
      have hg : target (machine.run ins t) (ins t) =
          Fu.target (reached imem m ins t).csr
            (Sequential.decode imem (reached imem m ins t)) {} := by
        rw [target, Fu.target_congr hsim.csr, hexe hv, hl]
      have hf' : Fu.flush (reached imem m ins t).csr
          (Sequential.decode imem (reached imem m ins t)) {} = true := by
        rw [← Fu.flush_congr hsim.csr, ← hexe hv, ← hl]
        exact hf
      rw [hg]
      exact if_pos hf'
    rw [← hn]
    exact (hk t le_rfl hv).next
  · rw [hexe hv] at hf ⊢
    exact csr_ne_cycle (hfetch hv) (hk t le_rfl hv).shared hf

end Pipeline

end PuaCpu.Lockstep
