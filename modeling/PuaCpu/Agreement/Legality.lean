import PuaCpu.Agreement.Patterns
import PuaCpu.Reference.Reserved

/-! # Illegal instructions

The decoder matches bit patterns, the reference model nests switches. Their
verdicts agree, except where the reference model implements more than the core:
the atomic instructions, every word of the fence opcode, `SRET` and `SFENCE.VMA`.
-/

namespace PuaCpu.Legality

open RvCore RvPriv

variable {δ : Type} {s : State δ} {inst : RvInstr}

/-- The code behind the switch raises an illegal instruction. -/
def Ri (r : Outcome (Exec δ)) : Prop := ∃ e, r = .ok e ∧ e.ri = true

theorem ri_illegal (s : State δ) : Ri (.ok s.illegal) := ⟨_, rfl, rfl⟩

theorem not_ri_ok {e : Exec δ} (h : e.ri = false) : ¬ Ri (.ok e) := by
  rintro ⟨e', he, hr⟩
  obtain rfl := Except.ok.inj he
  exact absurd (hr.symm.trans h) (by decide)

theorem not_ri_error (h : Halt) : ¬ Ri (.error h : Outcome (Exec δ)) := by
  rintro ⟨e, he, -⟩
  exact absurd he (by simp)

theorem not_ri_map {α : Type} {f : α → Exec δ} (hf : ∀ a, (f a).ri = false) (r : Outcome α) :
    ¬ Ri (r.map f) := by
  cases r with
  | error h => exact not_ri_error h
  | ok a => exact not_ri_ok (hf a)

theorem not_ri_bind {α : Type} {r : Outcome α} {f : α → Outcome (Exec δ)}
    (hf : ∀ a, ¬ Ri (f a)) : ¬ Ri (r >>= f) := by
  cases r with
  | error h => exact not_ri_error h
  | ok a => exact hf a

theorem not_ri_ite {p : Prop} [Decidable p] {r r' : Outcome (Exec δ)} (h : ¬ Ri r)
    (h' : ¬ Ri r') : ¬ Ri (if p then r else r') := by
  split_ifs
  · exact h
  · exact h'

theorem not_ri_alu (a b : Word) (op : AluOp) (op32 : Bool) : ¬ Ri (s.alu inst a b op op32) := by
  rw [State.alu]
  cases RvAlu.aluExec a b op op32 with
  | none => exact not_ri_error _
  | some result => exact not_ri_ok rfl

theorem not_ri_link (npc : Word) : ¬ Ri (s.link inst npc) :=
  not_ri_ite (not_ri_map (fun _ => rfl) _) (not_ri_ok rfl)

theorem ri_branch : Ri (s.execBranch inst) ↔ branchTaken inst.funct3 (s.gpr inst.rs1)
    (s.gpr inst.rs2) = none := by
  rw [State.execBranch]
  rcases branchTaken inst.funct3 (s.gpr inst.rs1) (s.gpr inst.rs2) with _ | _ | _
  · exact iff_of_true (ri_illegal s) rfl
  · exact iff_of_false (not_ri_ok rfl) (Option.some_ne_none _)
  · exact iff_of_false (not_ri_ite (not_ri_map (fun _ => rfl) _) (not_ri_ok rfl))
      (Option.some_ne_none _)

theorem ri_op : Ri (s.execOp inst) ↔ op inst = none := by
  rw [State.execOp_eq]
  cases op inst with
  | none => exact iff_of_true (ri_illegal s) rfl
  | some o => exact iff_of_false (not_ri_alu _ _ o false) (Option.some_ne_none _)

theorem ri_op32 : Ri (s.execOp32 inst) ↔ op32 inst = none := by
  rw [State.execOp32]
  cases op32 inst with
  | none => exact iff_of_true (ri_illegal s) rfl
  | some o => exact iff_of_false (not_ri_alu _ _ o true) (Option.some_ne_none _)

theorem ri_opimm : Ri (s.execOpimm inst) ↔ opimm inst = none := by
  rw [State.execOpimm_eq]
  cases opimm inst with
  | none => exact iff_of_true (ri_illegal s) rfl
  | some o => exact iff_of_false (not_ri_alu _ _ o.1 false) (Option.some_ne_none _)

theorem ri_opimm32 : Ri (s.execOpimm32 inst) ↔ opimm32 inst = none := by
  rw [State.execOpimm32]
  cases opimm32 inst with
  | none => exact iff_of_true (ri_illegal s) rfl
  | some o => exact iff_of_false (not_ri_alu _ _ o.1 true) (Option.some_ne_none _)

section Tables

theorem branchTaken_eq_none_iff (f3 : BitVec 3) (a b : Word) :
    branchTaken f3 a b = none ↔ f3 ∉ [0#3, 1, 4, 5, 6, 7] := by
  by_cases h : f3 ∈ [0#3, 1, 4, 5, 6, 7]
  · refine iff_of_false ?_ (not_not_intro h)
    simp only [List.mem_cons, List.not_mem_nil, or_false] at h
    rcases h with rfl | rfl | rfl | rfl | rfl | rfl <;> exact Option.some_ne_none _
  · refine iff_of_true ?_ h
    simp only [List.mem_cons, List.not_mem_nil, or_false, not_or] at h
    obtain ⟨h0, h1, h4, h5, h6, h7⟩ := h
    exact (if_neg h0).trans ((if_neg h1).trans ((if_neg h4).trans ((if_neg h5).trans
      ((if_neg h6).trans (if_neg h7)))))

theorem loadKind_eq_none_iff (f3 : BitVec 3) :
    loadKind f3 = none ↔ f3 ∉ [0#3, 1, 2, 3, 4, 5, 6] := by
  rw [← Option.isNone_iff_eq_none]
  revert f3
  decide

theorem storeSize_eq_none_iff (f3 : BitVec 3) : storeSize f3 = none ↔ f3 ∉ [0#3, 1, 2, 3] := by
  revert f3
  decide

theorem eq_none_iff_of_funct7 {α : Type} {o : Option α} {a : BitVec 7} {b : BitVec 3}
    {keys : List (BitVec 7 × BitVec 3)}
    (hk : keys.all (fun k => [Funct7.normal, Funct7.subSra, Funct7.mul].contains k.1) = true)
    (h : a ∈ [Funct7.normal, Funct7.subSra, Funct7.mul] → (o = none ↔ (a, b) ∉ keys))
    (hn : a ∉ [Funct7.normal, Funct7.subSra, Funct7.mul] → o = none) :
    o = none ↔ (a, b) ∉ keys := by
  by_cases ha : a ∈ [Funct7.normal, Funct7.subSra, Funct7.mul]
  · exact h ha
  · refine iff_of_true (hn ha) fun hm => ha ?_
    simpa only [List.contains_iff_mem] using List.all_eq_true.mp hk _ hm

theorem op_eq_none_iff : op inst = none ↔ (inst.funct7, inst.funct3) ∉ Decoder.opKeys := by
  unfold op
  generalize inst.funct3 = b
  refine eq_none_iff_of_funct7 (by decide) (fun ha => ?_) fun ha => ?_
  · simp only [List.mem_cons, List.not_mem_nil, or_false] at ha
    rcases ha with ha | ha | ha <;> rw [ha] <;> revert b <;> decide
  · simp only [List.mem_cons, List.not_mem_nil, or_false, not_or] at ha
    rw [if_neg ha.1, if_neg ha.2.1, if_neg ha.2.2]

theorem op32_eq_none_iff : op32 inst = none ↔ (inst.funct7, inst.funct3) ∉ Decoder.op32Keys := by
  unfold op32
  generalize inst.funct3 = b
  refine eq_none_iff_of_funct7 (by decide) (fun ha => ?_) fun ha => ?_
  · simp only [List.mem_cons, List.not_mem_nil, or_false] at ha
    rcases ha with ha | ha | ha <;> rw [ha] <;> revert b <;> decide
  · simp only [List.mem_cons, List.not_mem_nil, or_false, not_or] at ha
    rw [if_neg ha.1, if_neg ha.2.1, if_neg ha.2.2]

theorem opimm_eq_none_iff : opimm inst = none ↔
    (inst.funct3 = 1 ∧ (64 : Word).sle (inst.imm12.signExtend 64) = true) ∨
      (inst.funct3 = 5 ∧ inst.funct7.extractLsb' 1 6 ∉ [0#6, 0x10]) := by
  unfold opimm
  dsimp only
  generalize (64 : Word).sle (inst.imm12.signExtend 64) = big
  generalize inst.imm12.signExtend 64 = imm
  generalize inst.funct7.extractLsb' 1 6 = f6
  rw [← Option.isNone_iff_eq_none]
  simp only [apply_ite Option.isNone, Option.isNone_some, Option.isNone_none]
  generalize inst.funct3 = f3
  revert f3 f6 big
  decide +kernel

theorem opimm32_eq_none_iff : opimm32 inst = none ↔ inst.funct3 ∉ [0#3, 1, 5] ∨
    (inst.funct3 = 1 ∧ ((64 : Word).sle (inst.imm12.signExtend 64) = true ∨ inst.funct7 ≠ 0)) ∨
      (inst.funct3 = 5 ∧ inst.funct7 ∉ [0#7, 0x20]) := by
  unfold opimm32
  dsimp only
  generalize (64 : Word).sle (inst.imm12.signExtend 64) = big
  generalize inst.imm12.signExtend 64 = imm
  rw [← Option.isNone_iff_eq_none]
  simp only [apply_ite Option.isNone, Option.isNone_some, Option.isNone_none]
  generalize inst.funct3 = f3
  generalize inst.funct7 = f7
  revert f3 f7 big
  decide +kernel

theorem sle_imm {x : BitVec 12} (hx : x.msb = false) :
    (64 : Word).sle (x.signExtend 64) = true ↔ x.extractLsb' 6 6 ≠ 0 := by
  have h1 : (x.signExtend 64).toInt = x.toNat := by
    rw [BitVec.toInt_signExtend_of_le (by decide), BitVec.toInt_eq_toNat_of_msb hx]
  have h2 : x.toNat < 2048 := by
    have := BitVec.msb_eq_false_iff_two_mul_lt.mp hx
    omega
  have h3 : (x.extractLsb' 6 6).toNat = x.toNat / 64 % 64 := by
    rw [BitVec.extractLsb'_toNat, Nat.shiftRight_eq_div_pow]
  rw [BitVec.sle_iff_toInt_le, h1, ne_eq, ← BitVec.toNat_inj, h3]
  change (64 : ℤ) ≤ _ ↔ ¬ x.toNat / 64 % 64 = 0
  omega

theorem sle_imm12 (h : inst.getLsbD 31 = false) :
    (64 : Word).sle (inst.imm12.signExtend 64) = true ↔ inst.funct7.extractLsb' 1 6 ≠ 0 := by
  have hm : (inst.extractLsb' 20 12).msb = false := by
    rw [BitVec.msb_eq_getLsbD_last, BitVec.getLsbD_extractLsb']
    exact h
  rw [RvInstr.imm12, Bits.signExtend_signExtend _ (by decide) (by decide), sle_imm hm,
    Bits.extract_extract _ (by decide), inst.funct6_eq]

end Tables

section Mem

variable [MmioDev δ] {cfg : Config}

theorem ri_load : Ri (s.execLoad inst) ↔ loadKind inst.funct3 = none := by
  rw [State.execLoad]
  cases loadKind inst.funct3 with
  | none => exact iff_of_true (ri_illegal s) rfl
  | some k => exact iff_of_false (not_ri_map (fun _ => rfl) _) (Option.some_ne_none _)

theorem ri_store : Ri (s.execStore inst cfg) ↔ storeSize inst.funct3 = none := by
  rw [State.execStore]
  cases storeSize inst.funct3 with
  | none => exact iff_of_true (ri_illegal s) rfl
  | some size => exact iff_of_false (not_ri_map (fun _ => rfl) _) (Option.some_ne_none _)

/-- The atomic instructions of the reference model. -/
def Atomic (inst : RvInstr) : Prop :=
  (inst.funct3 = 0b010 ∨ inst.funct3 = 0b011) ∧
    ((inst.funct7.extractLsb' 2 5 = AmoFunct.lr ∧ inst.rs2 = 0) ∨
      inst.funct7.extractLsb' 2 5 = AmoFunct.sc ∨
      inst.funct7.extractLsb' 2 5 ∈ State.amoFuncts)

theorem ri_amo : Ri (s.execAmo inst) ↔ ¬ Atomic inst := by
  have hlr : AmoFunct.lr ≠ AmoFunct.sc ∧ AmoFunct.lr ∉ State.amoFuncts := by decide
  have hill : Ri (.ok s.illegal) := ri_illegal s
  have hdone {α : Type} (r : Outcome α) (f : α → Outcome (State δ)) :
      ¬ Ri (do let s ← f (← r); return s.done) :=
    not_ri_bind fun _ => not_ri_bind fun _ => not_ri_ok rfl
  rw [State.execAmo, Atomic]
  by_cases h3 : inst.funct3 ≠ 0b010 ∧ inst.funct3 ≠ 0b011
  · rw [if_pos h3]
    refine iff_of_true hill ?_
    rintro ⟨h | h, -⟩
    · exact h3.1 h
    · exact h3.2 h
  rw [if_neg h3]
  have hf : inst.funct3 = 0b010 ∨ inst.funct3 = 0b011 := by tauto
  by_cases hl : inst.funct7.extractLsb' 2 5 = AmoFunct.lr
  · rw [if_pos hl]
    by_cases hr : inst.rs2 ≠ 0
    · rw [if_pos hr]
      refine iff_of_true hill ?_
      rintro ⟨-, ⟨-, h⟩ | h | h⟩
      · exact hr h
      · exact hlr.1 (hl ▸ h)
      · exact hlr.2 (hl ▸ h)
    · rw [if_neg hr]
      exact iff_of_false (hdone _ _) (not_not_intro ⟨hf, .inl ⟨hl, not_not.mp hr⟩⟩)
  rw [if_neg hl]
  by_cases hs : inst.funct7.extractLsb' 2 5 = AmoFunct.sc
  · rw [if_pos hs]
    exact iff_of_false (hdone _ _) (not_not_intro ⟨hf, .inr (.inl hs)⟩)
  rw [if_neg hs]
  by_cases ho : inst.funct7.extractLsb' 2 5 ∈ State.amoFuncts
  · rw [if_pos ho]
    exact iff_of_false (hdone _ _) (not_not_intro ⟨hf, .inr (.inr ho)⟩)
  rw [if_neg ho]
  refine iff_of_true hill ?_
  rintro ⟨-, ⟨h, -⟩ | h | h⟩
  · exact hl h
  · exact hs h
  · exact ho h

end Mem

section System

variable {cfg : Config}

theorem ri_orIllegal (r : Option (Hart δ)) : Ri (.ok (s.orIllegal r)) ↔ r = none := by
  cases r with
  | none => exact iff_of_true (ri_illegal s) rfl
  | some h => exact iff_of_false (not_ri_ok rfl) (Option.some_ne_none _)

/-- The privileged instructions of the reference model in machine mode. -/
def Privileged (inst : RvInstr) : Prop :=
  (inst.funct7 = Funct7.ecallEbreak ∧ (inst.rs1 = 0 ∧ inst.rd = 0) ∧ inst.rs2 ∈ [0#5, 1]) ∨
  (inst.funct7 = Funct7.sretWfi ∧ (inst.rs1 = 0 ∧ inst.rd = 0) ∧ inst.rs2 ∈ [2#5, 5]) ∨
  (inst.funct7 = Funct7.mret ∧ (inst.rs1 = 0 ∧ inst.rd = 0) ∧ inst.rs2 = 2) ∨
  inst.funct7 = Funct7.sfenceVma

theorem sret_ne_none (hi : s.Inv) (hm : s.priv.curPriv = Priv.m) : s.priv.sret ≠ none := by
  have ht : s.priv.status.extractLsb' 22 1 = 0 := hi.priv.status.zero (22, 1) (by decide)
  have hb : s.priv.status.getLsbD 22 = false := by
    rw [show s.priv.status.getLsbD 22 = (s.priv.status.extractLsb' 22 1).getLsbD 0 by
      rw [BitVec.getLsbD_extractLsb']; rfl, ht]
    rfl
  rw [Hart.sret, hm, hb]
  exact Option.some_ne_none _

theorem mret_ne_none (hm : s.priv.curPriv = Priv.m) : s.priv.mret ≠ none := by
  rw [Hart.mret, RvPriv.mret, hm]
  exact Option.some_ne_none _

theorem sfenceVma_ne_none (hm : s.priv.curPriv = Priv.m) (va asid : Word) :
    s.priv.sfenceVma va asid ≠ none := by
  rw [Hart.sfenceVma, hm]
  exact Option.some_ne_none _

theorem not_ri_ecall : ¬ Ri (s.execEcall cfg) :=
  not_ri_ite (not_ri_ite (not_ri_error _) (not_ri_error _))
    (not_ri_map (f := fun h => (s.withPriv h).done) (fun _ => rfl) _)

theorem not_ri_ebreak : ¬ Ri (s.execEbreak cfg) :=
  not_ri_ite (not_ri_error _) (not_ri_map (f := fun h => (s.withPriv h).done) (fun _ => rfl) _)

theorem ri_priv (hi : s.Inv) (hm : s.priv.curPriv = Priv.m)
    (hz : inst.funct7 = Funct7.sretWfi → inst.rs1 = 0 ∧ inst.rd = 0) :
    Ri (s.execPriv inst cfg) ↔ ¬ Privileged inst := by
  have hill : Ri (.ok s.illegal) := ri_illegal s
  rw [State.execPriv, Privileged]
  by_cases h0 : inst.funct7 = Funct7.ecallEbreak
  · have hd : Funct7.ecallEbreak ≠ Funct7.sretWfi ∧ Funct7.ecallEbreak ≠ Funct7.mret ∧
        Funct7.ecallEbreak ≠ Funct7.sfenceVma := by decide
    have hecall : ¬ Ri (s.execEcall cfg) := not_ri_ecall
    have hebreak : ¬ Ri (s.execEbreak cfg) := not_ri_ebreak
    rw [if_pos h0, h0]
    split_ifs <;> simp_all
  rw [if_neg h0]
  by_cases h1 : inst.funct7 = Funct7.sretWfi
  · have hd : Funct7.sretWfi ≠ Funct7.ecallEbreak ∧ Funct7.sretWfi ≠ Funct7.mret ∧
        Funct7.sretWfi ≠ Funct7.sfenceVma := by decide
    have hdone : ¬ Ri (.ok s.done) := not_ri_ok rfl
    have hsret := sret_ne_none hi hm
    rw [if_pos h1, if_pos (hz h1), h1]
    split_ifs <;> simp_all [ri_orIllegal]
  rw [if_neg h1]
  by_cases h2 : inst.funct7 = Funct7.mret
  · have hd : Funct7.mret ≠ Funct7.ecallEbreak ∧ Funct7.mret ≠ Funct7.sretWfi ∧
        Funct7.mret ≠ Funct7.sfenceVma := by decide
    rw [if_pos h2, h2]
    split_ifs with h
    · rw [ri_orIllegal]
      exact iff_of_false (mret_ne_none hm) (not_not_intro (.inr (.inr (.inl ⟨rfl, h.2, h.1⟩))))
    · refine iff_of_true hill ?_
      rintro (⟨h', -⟩ | ⟨h', -⟩ | ⟨-, hz, hr⟩ | h')
      · exact hd.1 h'
      · exact hd.2.1 h'
      · exact h ⟨hr, hz⟩
      · exact hd.2.2 h'
  rw [if_neg h2]
  by_cases h3 : inst.funct7 = Funct7.sfenceVma
  · rw [if_pos h3, ri_orIllegal]
    exact iff_of_false (sfenceVma_ne_none hm _ _) (not_not_intro (.inr (.inr (.inr h3))))
  rw [if_neg h3]
  refine iff_of_true hill ?_
  rintro (⟨h, -⟩ | ⟨h, -⟩ | ⟨h, -⟩ | h)
  · exact h0 h
  · exact h1 h
  · exact h2 h
  · exact h3 h

end System

/-- `exec` raises an illegal instruction for a word. -/
def RaisesIllegal [MmioDev δ] (cfg : Config) (s : State δ) (inst : RvInstr) : Prop :=
  Ri (s.decodeExec inst cfg)

/-- A CSR access. -/
def CsrAccess (inst : RvInstr) : Prop :=
  inst.opcode = Opcode.system ∧ inst.funct3 ∉ [0#3, 4]

/-- What the reference model implements beyond the core: its atomic instructions, fences of every
form, and the return and the fence of supervisor mode. -/
def Extension (inst : RvInstr) : Prop :=
  (inst.opcode = Opcode.amo ∧ Atomic inst) ∨ inst.opcode = Opcode.fence ∨
    (inst.opcode = Opcode.system ∧ inst.funct3 = Funct3.priv ∧ inst.rd = 0 ∧
      ((inst.funct7 = Funct7.sretWfi ∧ inst.rs2 = 2 ∧ inst.rs1 = 0) ∨
        inst.funct7 = Funct7.sfenceVma))

/-- The words for which a case of the switch forgets a check: `funct3` of `JALR`, a negative shift
amount of `SLLI`, and the register fields of the supervisor instructions. -/
def Unchecked (inst : RvInstr) : Prop :=
  (inst.opcode = Opcode.jalr ∧ inst.funct3 ≠ 0) ∨
    (inst.opcode = Opcode.opimm ∧ inst.funct3 = Funct3.sll ∧ inst.getLsbD 31) ∨
    (inst.opcode = Opcode.system ∧ inst.funct3 = Funct3.priv ∧
      ((inst.funct7 = Funct7.sretWfi ∧ ¬ (inst.rs1 = 0 ∧ inst.rd = 0)) ∨
        (inst.funct7 = Funct7.sfenceVma ∧ inst.rd ≠ 0)))

section Agreement

variable [MmioDev δ] {cfg : Config}

/-- The two verdicts on a word. -/
def Agree (cfg : Config) (s : State δ) (inst : RvInstr) : Prop :=
  RaisesIllegal cfg s inst ↔ Decoder.instIllegal inst.word = true ∧ ¬ Extension inst

theorem agree_of_opcode (ho : inst.opcode ∉ [Opcode.amo, Opcode.fence, Opcode.system])
    (h : RaisesIllegal cfg s inst ↔ Decoder.instIllegal inst.word = true) : Agree cfg s inst := by
  simp only [List.mem_cons, List.not_mem_nil, or_false, not_or] at ho
  refine h.trans (and_iff_left ?_).symm
  rintro (⟨h, -⟩ | h | ⟨h, -⟩)
  · exact ho.1 h
  · exact ho.2.1 h
  · exact ho.2.2 h

theorem agree_legal {o : BitVec 7} (h : inst.opcode = o)
    (ho : o ∉ [Opcode.amo, Opcode.fence, Opcode.system]) (hp : [BitPat.opcode o] ∈ Decoder.patterns)
    (hr : ¬ RaisesIllegal cfg s inst) : Agree cfg s inst :=
  agree_of_opcode (h ▸ ho) (iff_of_false hr (by simp [Decoder.legal_opcode h hp]))

theorem agree_opimm (h : inst.opcode = Opcode.opimm)
    (hs : inst.funct3 = Funct3.sll → inst.getLsbD 31 = false) : Agree cfg s inst := by
  refine agree_of_opcode (h ▸ by decide) ?_
  rw [RaisesIllegal, State.decodeExec_opimm h, ri_opimm, opimm_eq_none_iff,
    Decoder.illegal_opimm h]
  exact or_congr_left (and_congr_right fun h1 => sle_imm12 (hs h1))

theorem agree_opimm32 (h : inst.opcode = Opcode.opimm32) : Agree cfg s inst := by
  refine agree_of_opcode (h ▸ by decide) ?_
  rw [RaisesIllegal, State.decodeExec_opimm32 h, ri_opimm32, opimm32_eq_none_iff,
    Decoder.illegal_opimm32 h]
  refine or_congr_right (or_congr_left (and_congr_right fun _ => ?_))
  refine or_iff_right_of_imp fun hle h0 => ?_
  have hb : inst.getLsbD 31 = false := by
    rw [show inst.getLsbD 31 = inst.funct7.getLsbD 6 by
      rw [RvInstr.funct7, BitVec.getLsbD_extractLsb']; rfl, h0]
    rfl
  refine (sle_imm12 hb).mp hle ?_
  rw [h0]
  rfl

theorem agree_op (h : inst.opcode = Opcode.op) : Agree cfg s inst := by
  refine agree_of_opcode (h ▸ by decide) ?_
  rw [RaisesIllegal, State.decodeExec_op h, ri_op, op_eq_none_iff, Decoder.illegal_op h]

theorem agree_op32 (h : inst.opcode = Opcode.op32) : Agree cfg s inst := by
  refine agree_of_opcode (h ▸ by decide) ?_
  rw [RaisesIllegal, State.decodeExec_op32 h, ri_op32, op32_eq_none_iff, Decoder.illegal_op32 h]

theorem agree_branch (h : inst.opcode = Opcode.branch) : Agree cfg s inst := by
  refine agree_of_opcode (h ▸ by decide) ?_
  rw [RaisesIllegal, State.decodeExec_branch h, ri_branch, branchTaken_eq_none_iff,
    Decoder.illegal_branch h]

theorem agree_load (h : inst.opcode = Opcode.load) : Agree cfg s inst := by
  refine agree_of_opcode (h ▸ by decide) ?_
  rw [RaisesIllegal, State.decodeExec_load h, ri_load, loadKind_eq_none_iff,
    Decoder.illegal_load h]

theorem agree_store (h : inst.opcode = Opcode.store) : Agree cfg s inst := by
  refine agree_of_opcode (h ▸ by decide) ?_
  rw [RaisesIllegal, State.decodeExec_store h, ri_store, storeSize_eq_none_iff,
    Decoder.illegal_store h]

theorem agree_jalr (h : inst.opcode = Opcode.jalr) (h3 : inst.funct3 = 0) : Agree cfg s inst := by
  refine agree_of_opcode (h ▸ by decide) ?_
  rw [RaisesIllegal, State.decodeExec_jalr h, Decoder.illegal_jalr h]
  exact iff_of_false (not_ri_link _) (by simp [h3])

theorem agree_amo (h : inst.opcode = Opcode.amo) : Agree cfg s inst := by
  have hd : Decoder.instIllegal inst.word = true := Decoder.illegal_opcode (h ▸ by decide)
  have he : Extension inst ↔ Atomic inst := by
    rw [Extension, h]
    simp [Opcode.amo, Opcode.fence, Opcode.system]
  rw [Agree, RaisesIllegal, State.decodeExec_amo h, ri_amo, hd, he]
  simp

theorem agree_fence (h : inst.opcode = Opcode.fence) : Agree cfg s inst := by
  rw [Agree, RaisesIllegal, State.decodeExec_fence h]
  exact iff_of_false (not_ri_ok rfl) fun hd => hd.2 (.inr (.inl h))

theorem agree_default (h : inst.opcode ∉ State.opcodes) : Agree cfg s inst := by
  have hd : Decoder.instIllegal inst.word = true := by
    refine Decoder.illegal_opcode fun hm => h ?_
    generalize inst.opcode = o at hm
    revert o
    decide
  have ho : ∀ o ∈ [Opcode.amo, Opcode.fence, Opcode.system], o ∈ State.opcodes := by decide
  refine agree_of_opcode (fun hm => h (ho _ hm)) ?_
  rw [RaisesIllegal, State.decodeExec_default h]
  exact iff_of_true (ri_illegal _) hd

theorem imm12_eq_iff (v : BitVec 12) : inst.extractLsb' 20 12 = v ↔
    inst.funct7 = v.extractLsb' 5 7 ∧ inst.rs2 = v.extractLsb' 0 5 := by
  have h7 : inst.funct7 = (inst.extractLsb' 20 12).extractLsb' 5 7 := by
    rw [Bits.extract_extract _ (by decide)]
    rfl
  have h2 : inst.rs2 = (inst.extractLsb' 20 12).extractLsb' 0 5 := by
    rw [Bits.extract_extract _ (by decide)]
    rfl
  rw [h7, h2]
  generalize inst.extractLsb' 20 12 = x
  constructor
  · rintro rfl
    exact ⟨rfl, rfl⟩
  · rintro ⟨hh, hl⟩
    have hh := congrArg BitVec.toNat hh
    have hl := congrArg BitVec.toNat hl
    simp only [BitVec.extractLsb'_toNat, Nat.shiftRight_eq_div_pow] at hh hl
    have hx := x.isLt
    have hv := v.isLt
    apply BitVec.eq_of_toNat_eq
    omega

theorem agree_priv (hi : s.Inv) (hm : s.priv.curPriv = Priv.m) (h : inst.opcode = Opcode.system)
    (h3 : inst.funct3 = 0) (hu : ¬ Unchecked inst) : Agree cfg s inst := by
  have hz : inst.funct7 = Funct7.sretWfi → inst.rs1 = 0 ∧ inst.rd = 0 := by
    intro h7
    by_contra hn
    exact hu (.inr (.inr ⟨h, h3, .inl ⟨h7, hn⟩⟩))
  have hf : inst.funct7 = Funct7.sfenceVma → inst.rd = 0 := by
    intro h7
    by_contra hn
    exact hu (.inr (.inr ⟨h, h3, .inr ⟨h7, hn⟩⟩))
  have hp : State.execSystem (s.fetched inst) inst cfg = (s.fetched inst).execPriv inst cfg :=
    if_pos h3
  have hi' : (s.fetched inst).Inv := ⟨hi.priv, hi.curNeedTrap⟩
  rw [Agree, RaisesIllegal, State.decodeExec_system h, hp, ri_priv hi' hm hz,
    Decoder.illegal_system h (by simp [h3])]
  have hv : inst.extractLsb' 20 12 ∈ [0x000#12, 0x001, 0x302, 0x105] ↔
      (inst.funct7 = Funct7.ecallEbreak ∧ (inst.rs2 = 0 ∨ inst.rs2 = 1)) ∨
        (inst.funct7 = Funct7.mret ∧ inst.rs2 = 2) ∨
        (inst.funct7 = Funct7.sretWfi ∧ inst.rs2 = 5) := by
    simp only [List.mem_cons, List.not_mem_nil, or_false, imm12_eq_iff]
    rw [and_or_left, or_assoc]
    rfl
  have he : Extension inst ↔ inst.rd = 0 ∧
      ((inst.funct7 = Funct7.sretWfi ∧ inst.rs2 = 2 ∧ inst.rs1 = 0) ∨
        inst.funct7 = Funct7.sfenceVma) := by
    rw [Extension, h]
    have h3' : inst.funct3 = Funct3.priv := h3
    simp [Opcode.amo, Opcode.fence, Opcode.system, h3']
  rw [hv, he, ← not_or]
  refine not_congr ?_
  simp only [Privileged, List.mem_cons, List.not_mem_nil, or_false]
  constructor
  · rintro (⟨h7, h0, hr⟩ | ⟨h7, h0, hr | hr⟩ | ⟨h7, h0, hr⟩ | h7)
    · exact .inl ⟨h3, h0.1, h0.2, .inl ⟨h7, hr⟩⟩
    · exact .inr ⟨h0.2, .inl ⟨h7, hr, h0.1⟩⟩
    · exact .inl ⟨h3, h0.1, h0.2, .inr (.inr ⟨h7, hr⟩)⟩
    · exact .inl ⟨h3, h0.1, h0.2, .inr (.inl ⟨h7, hr⟩)⟩
    · exact .inr ⟨hf h7, .inr h7⟩
  · rintro (⟨-, h1, hd, ⟨h7, hr⟩ | ⟨h7, hr⟩ | ⟨h7, hr⟩⟩ | ⟨hd, ⟨h7, hr, h1⟩ | h7⟩)
    · exact .inl ⟨h7, ⟨h1, hd⟩, hr⟩
    · exact .inr (.inr (.inl ⟨h7, ⟨h1, hd⟩, hr⟩))
    · exact .inr (.inl ⟨h7, ⟨h1, hd⟩, .inr hr⟩)
    · exact .inr (.inl ⟨h7, ⟨h1, hd⟩, .inl hr⟩)
    · exact .inr (.inr (.inr h7))

theorem agree_system (hi : s.Inv) (hm : s.priv.curPriv = Priv.m) (h : inst.opcode = Opcode.system)
    (hc : ¬ CsrAccess inst) (hu : ¬ Unchecked inst) : Agree cfg s inst := by
  have h3 : inst.funct3 ∈ [0#3, 4] := by
    by_contra hn
    exact hc ⟨h, hn⟩
  have hor := h3
  simp only [List.mem_cons, List.not_mem_nil, or_false] at hor
  rcases hor with h0 | h4
  · exact agree_priv hi hm h h0 hu
  · have hs : State.execSystem (s.fetched inst) inst cfg = .ok (s.fetched inst).illegal := by
      rw [State.execSystem, h4]
      rfl
    rw [Agree, RaisesIllegal, State.decodeExec_system h, hs, Decoder.illegal_system h h3]
    refine iff_of_true (ri_illegal _) ⟨fun hn => ?_, ?_⟩
    · rw [h4] at hn
      exact absurd hn.1 (by decide)
    · rintro (⟨ho, -⟩ | ho | ⟨-, ho, -⟩)
      · exact absurd (h.symm.trans ho) (by decide)
      · exact absurd (h.symm.trans ho) (by decide)
      · exact absurd (h4.symm.trans ho) (by decide)

/-- The verdicts agree on the words that both sides implement and check. -/
theorem legality_agree {s s₁ : State δ} (hr : State.Reachable ⟨true, false⟩ s) {l : Lines}
    (hf : s.start.instrFetch l = .ok (s₁, some inst)) (hm : s₁.priv.curPriv = Priv.m)
    (hc : ¬ CsrAccess inst) (hu : ¬ Unchecked inst) :
    RaisesIllegal ⟨true, false⟩ s₁ inst ↔
      Decoder.instIllegal inst.word = true ∧ ¬ Extension inst := by
  have hi := (State.fetched_entered hr.inv hf).1
  by_cases ho : inst.opcode ∈ State.opcodes
  · simp only [State.opcodes, List.mem_cons, List.not_mem_nil, or_false] at ho
    rcases ho with h | h | h | h | h | h | h | h | h | h | h | h | h | h
    · refine agree_legal h (by decide) (by decide +kernel) ?_
      rw [RaisesIllegal, State.decodeExec_lui h]
      exact not_ri_ok rfl
    · refine agree_legal h (by decide) (by decide +kernel) ?_
      rw [RaisesIllegal, State.decodeExec_auipc h]
      exact not_ri_ok rfl
    · refine agree_legal h (by decide) (by decide +kernel) ?_
      rw [RaisesIllegal, State.decodeExec_jal h]
      exact not_ri_link _
    · exact agree_jalr h (not_not.mp fun h3 => hu (.inl ⟨h, h3⟩))
    · exact agree_branch h
    · exact agree_load h
    · exact agree_store h
    · exact agree_opimm h fun h3 => by simpa using fun hb => hu (.inr (.inl ⟨h, h3, hb⟩))
    · exact agree_opimm32 h
    · exact agree_op h
    · exact agree_op32 h
    · exact agree_amo h
    · exact agree_fence h
    · exact agree_system hi hm h hc hu
  · exact agree_default ho

end Agreement

section Examples

/-- The first instruction is `addi x0, x0, 0`. -/
theorem legality_agree_addi : ∃ s₁ : State MmioMem,
    (Test.core ⟨true, false⟩ (Test.filled 0x13) default).start.instrFetch {} =
      .ok (s₁, some 0x13) ∧
    (RaisesIllegal ⟨true, false⟩ s₁ 0x13 ↔
      Decoder.instIllegal (RvInstr.word 0x13) = true ∧ ¬ Extension 0x13) := by
  have hr : State.Reachable ⟨true, false⟩
      (Test.core ⟨true, false⟩ (Test.filled 0x13) default) := .jump (.new _) _
  refine ⟨_, rfl, legality_agree (l := {}) hr rfl rfl (fun h => absurd h.1 (by decide)) ?_⟩
  rintro (⟨h, -⟩ | ⟨-, h, -⟩ | ⟨h, -⟩) <;> exact absurd h (by decide)

/-- The first instruction is `amoadd.w x0, x0, (x0)`. -/
theorem not_legality_agree_amo : ¬ ∀ (s s₁ : State MmioMem) (l : Lines) (inst : RvInstr),
    State.Reachable ⟨true, false⟩ s → s.start.instrFetch l = .ok (s₁, some inst) →
    s₁.priv.curPriv = Priv.m → ¬ CsrAccess inst →
      (RaisesIllegal ⟨true, false⟩ s₁ inst ↔ Decoder.instIllegal inst.word = true) := by
  intro h
  have hr : State.Reachable ⟨true, false⟩
      (Test.core ⟨true, false⟩ (Test.filled 0x202f) default) := .jump (.new _) _
  have hd : Decoder.instIllegal (RvInstr.word 0x202f) = true := by decide +kernel
  have hi := (h _ _ {} 0x202f hr rfl rfl fun h => absurd h.1 (by decide)).mpr hd
  rw [RaisesIllegal, State.decodeExec_amo (by decide)] at hi
  exact ri_amo.mp hi ⟨.inl (by decide), .inr (.inr (by decide))⟩

end Examples

end PuaCpu.Legality
