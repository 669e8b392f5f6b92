import PuaCpu.Agreement.Decode

/-! # Which words the decoder knows

For each opcode, the values of the other fields with which a word hits a
pattern of the decode table.
-/

namespace PuaCpu

deriving instance DecidableEq for BitField

namespace BitPat

/-- Whether a pattern asks for one of some values in a field. -/
def asks (p : BitPat) (lo width : ℕ) (vs : List ℕ) : Bool :=
  p.any fun f => f.lo == lo && f.width == width && vs.contains f.value.toNat

theorem mem_of_asks {p : BitPat} {lo width : ℕ} {vs : List ℕ} {inst : Word}
    (ha : p.asks lo width vs = true) (hp : p.hits inst = true) :
    (inst.extractLsb' lo width).toNat ∈ vs := by
  rw [asks, List.any_eq_true] at ha
  obtain ⟨⟨lo, w, v⟩, hf, h⟩ := ha
  simp only [Bool.and_eq_true, beq_iff_eq, List.contains_eq_mem, decide_eq_true_eq] at h
  obtain ⟨⟨rfl, rfl⟩, hv⟩ := h
  have he := List.all_eq_true.mp hp _ hf
  simp only [beq_iff_eq] at he
  rwa [he]

end BitPat

namespace Decoder

variable {inst : RvInstr}

/-- The patterns of the table. -/
def patterns : List BitPat := Instructions.decodeTable.map Prod.fst

/-- The opcodes of the table. -/
def opcodes : List ℕ :=
  [0x03, 0x0f, 0x13, 0x17, 0x1b, 0x23, 0x33, 0x37, 0x3b, 0x63, 0x67, 0x6f, 0x73]

theorem illegal_iff_rows {o : BitVec 7} (ho : inst.opcode = o) (rows : List BitPat)
    (hr : ∀ p ∈ rows, p ∈ patterns)
    (ht : ∀ p ∈ patterns, p.asks 0 7 (opcodes.erase o.toNat) = true ∨ p ∈ rows) :
    instIllegal inst.word = true ↔ ∀ p ∈ rows, p.hits inst.word = false := by
  rw [instIllegal_iff]
  constructor
  · intro h p hp
    obtain ⟨m, hm, rfl⟩ := List.mem_map.mp (hr p hp)
    exact h m hm
  · intro h m hm
    rcases ht m.1 (List.mem_map_of_mem hm) with ha | hp
    · by_contra hn
      have hv := BitPat.mem_of_asks ha (by simpa using hn)
      rw [inst.opcode_word, ho] at hv
      have hd : opcodes.Nodup := by decide
      exact hd.not_mem_erase hv
    · exact h _ hp

theorem hits_funct3_iff {o : BitVec 7} (ho : inst.opcode = o) (f3 : BitVec 3) :
    BitPat.hits [BitPat.funct3 f3, BitPat.opcode o] inst.word = true ↔ inst.funct3 = f3 := by
  change (inst.word.extractLsb' 12 3 == f3 && (inst.word.extractLsb' 0 7 == o && true)) = true ↔ _
  rw [inst.funct3_word, inst.opcode_word, ho]
  simp

theorem hits_funct7_iff {o : BitVec 7} (ho : inst.opcode = o) (f : BitVec 7 × BitVec 3) :
    BitPat.hits [BitPat.funct7 f.1, BitPat.funct3 f.2, BitPat.opcode o] inst.word = true ↔
      (inst.funct7, inst.funct3) = f := by
  change (inst.word.extractLsb' 25 7 == f.1 && (inst.word.extractLsb' 12 3 == f.2 &&
    (inst.word.extractLsb' 0 7 == o && true))) = true ↔ _
  rw [inst.funct3_word, inst.funct7_word, inst.opcode_word, ho]
  simp [Prod.ext_iff]

/-- The functions of the register operations. -/
def opKeys : List (BitVec 7 × BitVec 3) :=
  [(0, 0), (0, 1), (0, 2), (0, 3), (0, 4), (0, 5), (0, 6), (0, 7), (0x20, 0), (0x20, 5),
    (1, 0), (1, 1), (1, 2), (1, 3), (1, 4), (1, 5), (1, 6), (1, 7)]

def op32Keys : List (BitVec 7 × BitVec 3) :=
  [(0, 0), (0, 1), (0, 5), (0x20, 0), (0x20, 5), (1, 0), (1, 4), (1, 5), (1, 6), (1, 7)]

def opimmRows : List BitPat :=
  [0, 2, 3, 4, 6, 7].map (fun f => [BitPat.funct3 f, BitPat.opcode Opcode.opimm]) ++
    [(0, 1), (0, 5), (0x10, 5)].map fun k =>
      [BitPat.funct6 k.1, BitPat.funct3 k.2, BitPat.opcode Opcode.opimm]

def opimm32Rows : List BitPat :=
  [0].map (fun f => [BitPat.funct3 f, BitPat.opcode Opcode.opimm32]) ++
    [(0, 1), (0, 5), (0x20, 5)].map fun k =>
      [BitPat.funct7 k.1, BitPat.funct3 k.2, BitPat.opcode Opcode.opimm32]

def systemRows : List BitPat :=
  [1, 2, 3, 5, 6, 7].map (fun f => [BitPat.funct3 f, BitPat.opcode Opcode.system]) ++
    [0x000, 0x001, 0x302, 0x105].map fun v => [BitPat.imm12 v, BitPat.rs1 0, BitPat.funct3 0,
      BitPat.rd 0, BitPat.opcode Opcode.system]

/-- The rows of an opcode whose patterns look at `funct3` only. -/
def funct3Rows (o : BitVec 7) (keys : List (BitVec 3)) : List BitPat :=
  keys.map fun k => [BitPat.funct3 k, BitPat.opcode o]

/-- The rows of an opcode whose patterns look at `funct7` and `funct3`. -/
def funct7Rows (o : BitVec 7) (keys : List (BitVec 7 × BitVec 3)) : List BitPat :=
  keys.map fun k => [BitPat.funct7 k.1, BitPat.funct3 k.2, BitPat.opcode o]

/-- The rows of the table by opcode, where there is more than one value to look at. -/
def groups : List (BitVec 7 × List BitPat) :=
  [(Opcode.op, funct7Rows Opcode.op opKeys), (Opcode.op32, funct7Rows Opcode.op32 op32Keys),
    (Opcode.jalr, funct3Rows Opcode.jalr [0]),
    (Opcode.branch, funct3Rows Opcode.branch [0, 1, 4, 5, 6, 7]),
    (Opcode.load, funct3Rows Opcode.load [0, 1, 2, 3, 4, 5, 6]),
    (Opcode.store, funct3Rows Opcode.store [0, 1, 2, 3]), (Opcode.opimm, opimmRows),
    (Opcode.opimm32, opimm32Rows), (Opcode.system, systemRows)]

theorem groups_complete : ∀ g ∈ groups, (∀ p ∈ g.2, p ∈ patterns) ∧
    ∀ p ∈ patterns, p.asks 0 7 (opcodes.erase g.1.toNat) = true ∨ p ∈ g.2 := by
  decide +kernel

theorem illegal_iff_group {o : BitVec 7} (ho : inst.opcode = o) {rows : List BitPat}
    (hg : (o, rows) ∈ groups) :
    instIllegal inst.word = true ↔ ∀ p ∈ rows, p.hits inst.word = false :=
  illegal_iff_rows ho rows (groups_complete _ hg).1 (groups_complete _ hg).2

theorem illegal_iff_keys {α : Type} {o : BitVec 7} (ho : inst.opcode = o) (keys : List α)
    (row : α → BitPat) (hg : (o, keys.map row) ∈ groups) {key : α}
    (hk : ∀ k, (row k).hits inst.word = true ↔ key = k) :
    instIllegal inst.word = true ↔ key ∉ keys := by
  rw [illegal_iff_group ho hg]
  simp only [List.forall_mem_map, ← Bool.not_eq_true, hk]
  exact ⟨fun h hm => h key hm rfl, fun h k hm hk => h (hk ▸ hm)⟩

theorem illegal_op (h : inst.opcode = Opcode.op) :
    instIllegal inst.word = true ↔ (inst.funct7, inst.funct3) ∉ opKeys :=
  illegal_iff_keys h opKeys _ (by simp [groups, funct7Rows]) (hits_funct7_iff h)

theorem illegal_op32 (h : inst.opcode = Opcode.op32) :
    instIllegal inst.word = true ↔ (inst.funct7, inst.funct3) ∉ op32Keys :=
  illegal_iff_keys h op32Keys _ (by simp [groups, funct7Rows]) (hits_funct7_iff h)

theorem illegal_funct3 {o : BitVec 7} (h : inst.opcode = o) (keys : List (BitVec 3))
    (hg : (o, funct3Rows o keys) ∈ groups) :
    instIllegal inst.word = true ↔ inst.funct3 ∉ keys :=
  illegal_iff_keys h keys _ hg (hits_funct3_iff h)

theorem illegal_jalr (h : inst.opcode = Opcode.jalr) :
    instIllegal inst.word = true ↔ inst.funct3 ∉ [0#3] :=
  illegal_funct3 h _ (by simp [groups])

theorem illegal_branch (h : inst.opcode = Opcode.branch) :
    instIllegal inst.word = true ↔ inst.funct3 ∉ [0#3, 1, 4, 5, 6, 7] :=
  illegal_funct3 h _ (by simp [groups])

theorem illegal_load (h : inst.opcode = Opcode.load) :
    instIllegal inst.word = true ↔ inst.funct3 ∉ [0#3, 1, 2, 3, 4, 5, 6] :=
  illegal_funct3 h _ (by simp [groups])

theorem illegal_store (h : inst.opcode = Opcode.store) :
    instIllegal inst.word = true ↔ inst.funct3 ∉ [0#3, 1, 2, 3] :=
  illegal_funct3 h _ (by simp [groups])

theorem legal_opcode {o : BitVec 7} (h : inst.opcode = o) (hp : [BitPat.opcode o] ∈ patterns) :
    instIllegal inst.word = false := by
  obtain ⟨m, hm, hr⟩ := List.mem_map.mp hp
  by_contra hn
  have hf := (instIllegal_iff _).mp (by simpa using hn) m hm
  rw [hr] at hf
  change (inst.word.extractLsb' 0 7 == o && true) = false at hf
  rw [inst.opcode_word, h] at hf
  simp at hf

theorem illegal_opcode (h : inst.opcode.toNat ∉ opcodes) : instIllegal inst.word = true := by
  refine (illegal_iff_rows rfl [] (by simp) fun p hp => .inl ?_).mpr (by simp)
  rw [List.erase_of_not_mem h]
  revert p
  decide +kernel

theorem hits_funct6_iff {o : BitVec 7} (ho : inst.opcode = o) (f6 : BitVec 6) (f3 : BitVec 3) :
    BitPat.hits [BitPat.funct6 f6, BitPat.funct3 f3, BitPat.opcode o] inst.word = true ↔
      inst.funct7.extractLsb' 1 6 = f6 ∧ inst.funct3 = f3 := by
  change (inst.word.extractLsb' 26 6 == f6 && (inst.word.extractLsb' 12 3 == f3 &&
    (inst.word.extractLsb' 0 7 == o && true))) = true ↔ _
  rw [inst.funct3_word, inst.funct6_word, inst.opcode_word, ho]
  simp

theorem hits_priv_iff (ho : inst.opcode = Opcode.system) (v : BitVec 12) :
    BitPat.hits [BitPat.imm12 v, BitPat.rs1 0, BitPat.funct3 0, BitPat.rd 0,
      BitPat.opcode Opcode.system] inst.word = true ↔
      inst.extractLsb' 20 12 = v ∧ inst.rs1 = 0 ∧ inst.funct3 = 0 ∧ inst.rd = 0 := by
  change (inst.word.extractLsb' 20 12 == v && (inst.word.extractLsb' 15 5 == 0 &&
    (inst.word.extractLsb' 12 3 == 0 && (inst.word.extractLsb' 7 5 == 0 &&
      (inst.word.extractLsb' 0 7 == Opcode.system && true))))) = true ↔ _
  rw [inst.extract_word (by decide), inst.rs1_word, inst.funct3_word, inst.rd_word,
    inst.opcode_word, ho]
  simp

theorem funct3_cases (f : BitVec 3) :
    f = 0 ∨ f = 1 ∨ f = 2 ∨ f = 3 ∨ f = 4 ∨ f = 5 ∨ f = 6 ∨ f = 7 := by
  revert f
  decide

theorem illegal_opimm (h : inst.opcode = Opcode.opimm) : instIllegal inst.word = true ↔
    (inst.funct3 = 1 ∧ inst.funct7.extractLsb' 1 6 ≠ 0) ∨
      (inst.funct3 = 5 ∧ inst.funct7.extractLsb' 1 6 ∉ [0#6, 0x10]) := by
  rw [illegal_iff_group h (by simp [groups] : (Opcode.opimm, opimmRows) ∈ groups)]
  simp only [opimmRows, List.forall_mem_append, List.forall_mem_map, ← Bool.not_eq_true,
    hits_funct3_iff h, hits_funct6_iff h]
  rcases funct3_cases inst.funct3 with h3 | h3 | h3 | h3 | h3 | h3 | h3 | h3 <;> simp [h3]

theorem illegal_opimm32 (h : inst.opcode = Opcode.opimm32) : instIllegal inst.word = true ↔
    inst.funct3 ∉ [0#3, 1, 5] ∨ (inst.funct3 = 1 ∧ inst.funct7 ≠ 0) ∨
      (inst.funct3 = 5 ∧ inst.funct7 ∉ [0#7, 0x20]) := by
  rw [illegal_iff_group h (by simp [groups] : (Opcode.opimm32, opimm32Rows) ∈ groups)]
  simp only [opimm32Rows, List.forall_mem_append, List.forall_mem_map, ← Bool.not_eq_true,
    hits_funct3_iff h, hits_funct7_iff h, Prod.ext_iff]
  rcases funct3_cases inst.funct3 with h3 | h3 | h3 | h3 | h3 | h3 | h3 | h3 <;> simp [h3]

theorem illegal_system (h : inst.opcode = Opcode.system) (h3 : inst.funct3 ∈ [0#3, 4]) :
    instIllegal inst.word = true ↔ ¬ (inst.funct3 = 0 ∧ inst.rs1 = 0 ∧ inst.rd = 0 ∧
      inst.extractLsb' 20 12 ∈ [0x000#12, 0x001, 0x302, 0x105]) := by
  rw [illegal_iff_group h (by simp [groups] : (Opcode.system, systemRows) ∈ groups)]
  simp only [systemRows, List.forall_mem_append, List.forall_mem_map, ← Bool.not_eq_true,
    hits_funct3_iff h, hits_priv_iff h]
  constructor
  · rintro ⟨-, hp⟩ ⟨h0, h1, h2, hv⟩
    exact hp _ hv ⟨rfl, h1, h0, h2⟩
  · intro hn
    refine ⟨fun f hf he => ?_, fun v hv ⟨he, h1, h0, h2⟩ => hn ⟨h0, h1, h2, he ▸ hv⟩⟩
    have hd : ∀ f ∈ [1#3, 2, 3, 5, 6, 7], f ∉ [0#3, 4] := by decide
    exact hd f hf (he ▸ h3)

end Decoder

end PuaCpu
