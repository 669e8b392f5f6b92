import PuaCpu.Lockstep.Cases

/-! # One step of both sides

A word that no pattern of the decode table matches is illegal to both sides; a
word that one matches is one of the instructions of `Lockstep.Cases`. So the
two sides stay in agreement over any instruction on which they are not known
to differ.
-/

namespace PuaCpu.Lockstep

open RvCore RvPriv Legality

variable {imem : SramAddr → BitVec 32} {a : Sequential.State} {s : RvCore.State MmioMem}
  {mem : Bytes.Memory 64} {inst : RvInstr}

section Illegal

variable (hw : Decoder.instIllegal inst.word = true) (hx : ¬Extension inst) (hu : ¬Unchecked inst)

include hw hx hu

/-- No privileged instruction is illegal to the core, beside the extensions. -/
theorem not_privileged (ho : inst.opcode = Opcode.system) (h3 : inst.funct3 = 0) :
    ¬Privileged inst := by
  have hz : inst.funct7 = Funct7.sretWfi → inst.rs1 = 0 ∧ inst.rd = 0 := by
    intro h7
    by_contra hn
    exact hu (.inr (.inr ⟨ho, h3, .inl ⟨h7, hn⟩⟩))
  -- the verdict of `legality_agree` in any state in machine mode
  obtain ⟨c, hi, hm⟩ : ∃ c : RvCore.State MmioMem, c.Inv ∧ c.priv.curPriv = Priv.m :=
    ⟨_, (State.Reachable.new default : State.Reachable testConfig _).inv, rfl⟩
  have hr : RaisesIllegal testConfig c inst := (agree_priv hi hm ho h3 hu).mpr ⟨hw, hx⟩
  have hp : (c.fetched inst).execSystem inst testConfig =
      (c.fetched inst).execPriv inst testConfig := if_pos h3
  rw [RaisesIllegal, State.decodeExec_system ho, hp] at hr
  exact (ri_priv (s := c.fetched inst) ⟨hi.priv, hi.curNeedTrap⟩ hm hz).mp hr

theorem ri_priv_of_illegal (c : RvCore.State MmioMem) (ho : inst.opcode = Opcode.system)
    (h3 : inst.funct3 = 0) : Ri (c.execPriv inst testConfig) := by
  have hp := not_privileged hw hx hu ho h3
  have hz : inst.funct7 = Funct7.sretWfi → inst.rs1 = 0 ∧ inst.rd = 0 := by
    intro h7
    by_contra hn
    exact hu (.inr (.inr ⟨ho, h3, .inl ⟨h7, hn⟩⟩))
  have hill : Ri (.ok c.illegal) := ri_illegal c
  simp only [Privileged, not_or, not_and, List.mem_cons, List.not_mem_nil, or_false] at hp
  obtain ⟨h0, h1, h2, h4⟩ := hp
  rw [State.execPriv]
  by_cases hecall : inst.funct7 = Funct7.ecallEbreak
  · rw [if_pos hecall]
    by_cases hzero : inst.rs1 = 0 ∧ inst.rd = 0
    · obtain ⟨hr0, hr1⟩ := h0 hecall hzero
      exact (if_pos hzero).trans ((if_neg hr0).trans (if_neg hr1)) ▸ hill
    · rwa [if_neg hzero]
  rw [if_neg hecall]
  by_cases hwfi : inst.funct7 = Funct7.sretWfi
  · obtain ⟨hr2, hr5⟩ := h1 hwfi (hz hwfi)
    rw [if_pos hwfi]
    exact (if_pos (hz hwfi)).trans ((if_neg hr2).trans (if_neg hr5)) ▸ hill
  rw [if_neg hwfi]
  by_cases hmret : inst.funct7 = Funct7.mret
  · rwa [if_pos hmret, if_neg fun hn => h2 hmret hn.2 hn.1]
  rwa [if_neg hmret, if_neg h4]

/-- A word that is illegal to the core is illegal to the reference model, in every mode. -/
theorem raisesIllegal (c : RvCore.State MmioMem) : RaisesIllegal testConfig c inst := by
  have both {P : Prop} (h : P ↔ Decoder.instIllegal inst.word = true ∧ ¬Extension inst) : P :=
    h.mpr ⟨hw, hx⟩
  have legal {o : BitVec 7} (h : inst.opcode = o) (hp : [BitPat.opcode o] ∈ Decoder.patterns) :
      RaisesIllegal testConfig c inst := by
    rw [Decoder.legal_opcode h hp] at hw
    exact absurd hw (by decide)
  by_cases ho : inst.opcode ∈ State.opcodes
  · simp only [State.opcodes, List.mem_cons, List.not_mem_nil, or_false] at ho
    rcases ho with h | h | h | h | h | h | h | h | h | h | h | h | h | h
    · exact legal h (by decide +kernel)
    · exact legal h (by decide +kernel)
    · exact legal h (by decide +kernel)
    · exact both (agree_jalr h (not_not.mp fun h3 => hu (.inl ⟨h, h3⟩)))
    · exact both (agree_branch h)
    · exact both (agree_load h)
    · exact both (agree_store h)
    · exact both (agree_opimm h fun h3 => by simpa using fun hb => hu (.inr (.inl ⟨h, h3, hb⟩)))
    · exact both (agree_opimm32 h)
    · exact both (agree_op h)
    · exact both (agree_op32 h)
    · exact both (agree_amo h)
    · exact both (agree_fence h)
    · -- the mode decides nothing, as the words that it decides on are extensions
      have h3 : inst.funct3 ∉ [1#3, 2, 3, 5, 6, 7] := by
        intro h3
        rw [Decoder.instIllegal, CsrValue.lookup_csr h h3] at hw
        exact Bool.false_ne_true hw
      by_cases h0 : inst.funct3 = 0
      · have hp : (c.fetched inst).execSystem inst testConfig =
            (c.fetched inst).execPriv inst testConfig := if_pos h0
        rw [RaisesIllegal, State.decodeExec_system h, hp]
        exact ri_priv_of_illegal hw hx hu _ h h0
      · have h4 : inst.funct3 = 4 := by
          revert h0 h3
          generalize inst.funct3 = f
          revert f
          decide
        have hp : (c.fetched inst).execSystem inst testConfig = .ok (c.fetched inst).illegal := by
          rw [State.execSystem, h4]
          rfl
        rw [RaisesIllegal, State.decodeExec_system h, hp]
        exact ri_illegal _
  · exact both (agree_default ho)

end Illegal

section Table

theorem fields_of_hits {o : BitVec 7} {keys : List (BitVec 3)} {p : BitPat}
    (hp : p ∈ Decoder.funct3Rows o keys) (hh : p.hits inst.word = true) :
    inst.opcode = o ∧ inst.funct3 ∈ keys := by
  obtain ⟨f, hf, rfl⟩ := List.mem_map.mp hp
  have hb : (inst.word.extractLsb' 12 3 == f && (inst.word.extractLsb' 0 7 == o && true)) =
      true := hh
  rw [inst.funct3_word, inst.opcode_word, Bool.and_true, Bool.and_eq_true, beq_iff_eq,
    beq_iff_eq] at hb
  exact ⟨hb.2, hb.1 ▸ hf⟩

theorem isRvc_of_hits {m : BitPat × DecodeEntry} (hm : m ∈ Instructions.decodeTable)
    (hh : m.1.hits inst.word = true) : State.isRvc inst = false := by
  have ha : ∀ m ∈ Instructions.decodeTable, m.1.asks 0 7 Decoder.opcodes = true := by
    decide +kernel
  have ho := BitPat.mem_of_asks (ha m hm) hh
  rw [inst.opcode_word] at ho
  rw [State.isRvc_eq]
  generalize inst.opcode = o at ho
  revert o
  decide

end Table

section Words

variable (h : Agrees a s mem) (hc : Fetched imem a mem inst) (ht : s.priv.mcycle < 2000000)
  (hs : Shared imem a inst)

include h hc ht hs

theorem cases_illegal (hw : Decoder.instIllegal inst.word = true) : Steps imem a s := by
  have hl : Decoder.lookup inst.word = Instructions.decodeDefault :=
    Decoder.lookup_of_not_hits ((Decoder.instIllegal_iff _).mp hw)
  have hd := hc.decoded hl
  have hr : Raises imem a .illegalInst inst.word := by
    have hf : (Sequential.decode imem a).info.fusel = .alu := hd.fusel
    refine raises_decode ?_ ?_ (by decide) (by simp [hf]) (by simp [hf]) ?_
    · funext k
      have hb : ExcCtrl.isEbreak (Sequential.decode imem a).info = false := by
        simp [ExcCtrl.isEbreak, hf]
      have he : ExcCtrl.isEcall (Sequential.decode imem a).info = false := by
        simp [ExcCtrl.isEcall, hf]
      rw [decode_exception hc, hw, ExcCtrl.exception, hb, he, aligned_extract hc]
      revert k
      generalize a.csr.mode = mode
      revert mode
      decide
    · rw [decode_tval hc, ExcCtrl.tval, decode_inst hc]
      rfl
    · have hf : (csrIn imem a).info.fusel = .alu := hd.fusel
      simp [Csr.write, Csr.isCsr, hf]
  obtain ⟨hx, hu⟩ := hs.illegal hw
  obtain ⟨e, he, hri⟩ := raisesIllegal hw hx hu (begun s)
  have heff : State.Effect testConfig inst (begun s) (.ok e) :=
    he ▸ State.decodeExec_effect (begun_inv h.inv).curNeedTrap (begun_inv h.inv).priv.mode
  cases heff with
  | illegal hi =>
    have hk := hi.kept (begun_inv h.inv)
    exact steps_of_trapped h hr hc ht hi ⟨_, he, State.exception_illegal hk.1⟩
  | trap => exact absurd hri Bool.false_ne_true
  | complete => exact absurd hri Bool.false_ne_true

section Hits

variable {m : BitPat × DecodeEntry} (hh : m.1.hits inst.word = true)
  (hl : Decoder.lookup inst.word = m.2) (hv : State.isRvc inst = false)

include hh hl hv

omit hs hh in
theorem cases_unit (hm : m ∈ RV32IALUInstr.table ++ RV64IInstr.table ++ RV64MInstr.table) :
    Steps imem a s := by
  have hu : ∀ m ∈ RV32IALUInstr.table ++ RV64IInstr.table ++ RV64MInstr.table,
      m.2.instrType.isRegWen = true ∧ m.2.fuType ∈ [FuType.alu, .mdu] := by decide
  obtain ⟨hw, hf⟩ := hu m hm
  rw [← hl] at hw hf
  exact cases_arith h hc ht hv hw hf

theorem cases_system (hm : m ∈ RV64CsrInstr.table) : Steps imem a s := by
  have hrows : ∀ m ∈ RV64CsrInstr.table,
      m.1 ∈ Decoder.funct3Rows Opcode.system [1, 2, 3, 5, 6, 7] ∨
        m ∈ RV64CsrInstr.table.drop 6 := by decide
  rcases hrows m hm with hp | hp
  · obtain ⟨ho, hf⟩ := fields_of_hits hp hh
    exact cases_csr h hc ht hv hs ho hf
  simp only [RV64CsrInstr.table, List.drop, List.mem_cons, List.not_mem_nil, or_false] at hp
  rcases hp with rfl | rfl | rfl | rfl | rfl
  · exact cases_ecall h hc ht hs (privWord_of_hits hh) hl
  · exact cases_ebreak h hc ht hs (privWord_of_hits hh) hl
  · have ho : inst.opcode = Opcode.fence := by
      rw [← inst.opcode_word]
      simp only [BitPat.hits, List.all_cons, List.all_nil, Bool.and_eq_true, beq_iff_eq] at hh
      exact hh.2.2.2.2.1
    exact cases_nop h hc ht hv hl (State.decodeExec_fence ho)
  · exact cases_mret h hc ht hv hs (privWord_of_hits hh) hl
  · exact cases_nop h hc ht hv hl (decodeExec_wfi (privWord_of_hits hh))

omit hl in
theorem cases_mem (hm : m ∈ RV64MemInstr.table) : Steps imem a s := by
  have hrows : ∀ m ∈ RV64MemInstr.table,
      m.1 ∈ Decoder.funct3Rows Opcode.load [0, 1, 2, 3, 4, 5, 6] ∨
        m.1 ∈ Decoder.funct3Rows Opcode.store [0, 1, 2, 3] := by decide
  rcases hrows m hm with hp | hp
  · exact cases_load h hc ht hv hs (fields_of_hits hp hh)
  · exact cases_store h hc ht hv hs (fields_of_hits hp hh)

omit hl in
theorem cases_bru (hm : m ∈ RV64BruInstr.table) : Steps imem a s := by
  have hrows : ∀ m ∈ RV64BruInstr.table, m.1 = [BitPat.opcode Opcode.jal] ∨
      m.1 ∈ Decoder.funct3Rows Opcode.jalr [0] ∨
        m.1 ∈ Decoder.funct3Rows Opcode.branch [0, 1, 4, 5, 6, 7] := by decide
  rcases hrows m hm with hp | hp | hp
  · have ho : inst.opcode = Opcode.jal := by
      rw [hp] at hh
      rw [← inst.opcode_word]
      simpa [BitPat.hits, BitPat.opcode] using hh
    exact cases_jal h hc ht hv ho
  · obtain ⟨ho, h3⟩ := fields_of_hits hp hh
    exact cases_jalr h hc ht hv hs ho (List.mem_singleton.mp h3)
  · obtain ⟨ho, h3⟩ := fields_of_hits hp hh
    exact cases_branch h hc ht hv ho h3

end Hits

/-- One instruction of both sides. -/
theorem steps : Steps imem a s := by
  rcases Decoder.hits_or inst.word with ⟨m, hm, hh, hl⟩ | ⟨hn, -⟩
  · have hv := isRvc_of_hits hm hh
    rw [Instructions.decodeTable, RVIInstr.table, List.mem_append, List.mem_append,
      List.mem_append] at hm
    rcases hm with ((hm | hm) | hm) | hm
    · exact cases_unit h hc ht hl hv hm
    · exact cases_system h hc ht hs hh hl hv hm
    · exact cases_mem h hc ht hs hh hv hm
    · exact cases_bru h hc ht hs hh hv hm
  · exact cases_illegal h hc ht hs ((Decoder.instIllegal_iff _).mpr hn)

end Words

end PuaCpu.Lockstep
