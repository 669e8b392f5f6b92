import PuaCpu.Agreement.Decode
import PuaCpu.Harness.Lanes
import PuaCpu.Pipeline.Operands
import PuaCpu.Reference.Served
import PuaCpu.Reference.Trap

/-! # Load and store agreement

The core accesses a memory in lanes through the crossbar and the reference model
byte-wise through the system bus. Over any sequence of loads and stores they
return the same values, raise the same misaligned addresses and leave the same
memories.
-/

namespace PuaCpu

/-- How a load or store ends: with the value that a load returns and the registers after it, or
with an exception. -/
inductive Access
  | complete (value : Option Word) (regs : RegAddr → Word)
  | misaligned (e : ExcNo) (tval : Word)

namespace Access

open RvPriv RvInstr

/-- `LB`, `LH`, `LW`, `LD`, `LBU`, `LHU` and `LWU`. -/
def IsLoad (inst : RvInstr) : Prop :=
  inst.opcode = Opcode.load ∧ inst.funct3 ∈ [Funct3.lb, Funct3.lh, Funct3.lw, Funct3.ld,
    Funct3.lbu, Funct3.lhu, Funct3.lwu]

/-- `SB`, `SH`, `SW` and `SD`. -/
def IsStore (inst : RvInstr) : Prop :=
  inst.opcode = Opcode.store ∧ inst.funct3 ∈ [Funct3.sb, Funct3.sh, Funct3.sw, Funct3.sd]

instance (inst : RvInstr) : Decidable (IsLoad inst) :=
  decidable_of_iff (inst.opcode = Opcode.load ∧ [Funct3.lb, Funct3.lh, Funct3.lw, Funct3.ld,
    Funct3.lbu, Funct3.lhu, Funct3.lwu].any (inst.funct3 == ·) = true) (by simp [IsLoad])

instance (inst : RvInstr) : Decidable (IsStore inst) :=
  decidable_of_iff (inst.opcode = Opcode.store ∧ [Funct3.sb, Funct3.sh, Funct3.sw, Funct3.sd].any
    (inst.funct3 == ·) = true) (by simp [IsStore])

/-- The effective address. -/
def address (inst : RvInstr) (regs : ARegFile) : Word :=
  regs.read inst.rs1 +
    (if inst.opcode = Opcode.load then inst.imm12.signExtend 64 else inst.immS.signExtend 64)

/-- One instruction of a sequence, with the registers that it starts from. The rest of both
machines is arbitrary, but for what `Ok` says. -/
structure Step where
  inst : RvInstr
  regs : ARegFile
  csr : Csr.State
  mode : Priv
  core : RvCore.State MmioMem

/-- A load or store in the memory, without translation and outside of the convention that ends a
test. -/
structure Step.Ok (cfg : Config) (s : Step) : Prop where
  isAccess : IsLoad s.inst ∨ IsStore s.inst
  inMemory : InMemory (address s.inst s.regs) 1
  mode : Satp.mode s.core.priv.satp = 0
  curNeedTrap : s.core.priv.curNeedTrap = false
  noExit : IsStore s.inst → ¬ (cfg.runRiscvTest ∧ address s.inst s.regs = 0x80001000 ∧
    s.regs.read s.inst.rs2 = 1)

/-- What the execute stage, the crossbar and the memory stage make of an instruction, from the
crossbar and `data_sram_rdata` to those after it. -/
def ofCore (s : Step) (x : SramXbar MmioMem) (rdata : Word) : Access × SramXbar MmioMem × Word :=
  let d := issue s.regs s.mode s.core.pc s.inst
  let x := x.dataChannel (Fu.dataSram d false) rdata
  let ex := (Fu.csrIn d {}).excInfo
  let w := MemoryUnit.writeBackStage (Fu.memoryStage s.csr d {}) x.2
  if ex.exception .loadAddrMisaligned then
    (.misaligned .loadAddrMisaligned (ex.tval .loadAddrMisaligned), x)
  else if ex.exception .storeAddrMisaligned then
    (.misaligned .storeAddrMisaligned (ex.tval .storeAddrMisaligned), x)
  else
    (.complete (if w.info.regWen then some w.rdInfo.wdata else none)
      (s.regs.write ⟨w.info.regWen, w.info.regWaddr, w.rdInfo.wdata⟩).read, x)

/-- The reference model before an instruction, over a bus. -/
def Step.before (s : Step) (b : Systembus MmioMem) : RvCore.State MmioMem :=
  { s.core with gpr := s.regs.read, priv := { s.core.priv with bus := b } }

/-- How the reference model ends an instruction, by the last trap that was raised after `s`. -/
def ofExec {δ : Type} (inst : RvInstr) (s : RvCore.State δ) (e : RvCore.Exec δ) : Option Access :=
  if e.ri then none
  else match e.core.priv.raised.drop s.priv.raised.length with
  | (cause, tval) :: _ =>
    if cause = .exc .loadAddrMisaligned then some (.misaligned .loadAddrMisaligned tval)
    else if cause = .exc .storeAddrMisaligned then some (.misaligned .storeAddrMisaligned tval)
    else none
  | [] =>
    some (.complete (if inst.opcode = Opcode.load then some e.core.debugRegWdata else none)
      e.core.gpr)

/-- What the reference model makes of an instruction. -/
def ofRef (cfg : Config) (s : Step) (b : Systembus MmioMem) : Option (Access × Systembus MmioMem) :=
  match (s.before b).decodeExec s.inst cfg with
  | .error _ => none
  | .ok e => (ofExec s.inst (s.before b) e).map fun a => (a, e.core.priv.bus)

/-- The outcome of every instruction of a sequence with the memory after it. -/
def runCore : List Step → SramXbar MmioMem → Word → List (Access × Bytes.Memory 64)
  | [], _, _ => []
  | s :: steps, x, rdata =>
    let (a, x, rdata) := ofCore s x rdata
    (a, (x.dev 0).mem) :: runCore steps x rdata

def runRef (cfg : Config) : List Step → Systembus MmioMem →
    Option (List (Access × Bytes.Memory 64))
  | [], _ => some []
  | s :: steps, b => do
    let (a, b) ← ofRef cfg s b
    return (a, (b.dev 0).mem) :: (← runRef cfg steps b)

section Tables

variable {inst : RvInstr}

/-- What both sides know about a load of `2 ^ k` bytes. -/
structure Load (inst : RvInstr) (op : FuOp) (k : ℕ) (extend : Word → Word) : Prop where
  lookup : Decoder.lookup inst.word = ⟨.i, .lsu, op⟩
  kind : RvCore.loadKind inst.funct3 = some ⟨BitVec.ofNat 64 (2 ^ k), extend⟩
  width : Lsu.Width op k
  isLoad : LSUOpType.isLoad op = true
  result : ∀ (info : Info) (src : SrcInfo) (rdata : Word), info.op = op →
    LsuMem.result info src rdata = extend (LsuMem.rdataShifted info src rdata)
  congr : ∀ {x y : Word}, (∀ i < 8 * 2 ^ k, x.getLsbD i = y.getLsbD i) → extend x = extend y

/-- What both sides know about a store of `2 ^ k` bytes. -/
structure Store (inst : RvInstr) (op : FuOp) (k : ℕ) : Prop where
  lookup : Decoder.lookup inst.word = ⟨.s, .lsu, op⟩
  size : RvCore.storeSize inst.funct3 = some (BitVec.ofNat 64 (2 ^ k))
  width : Lsu.Width op k
  isStore : LSUOpType.isStore op = true

theorem lookup_mem {m : BitPat × DecodeEntry} (hm : m ∈ RV64MemInstr.table)
    (h : m.1.hits inst.word = true) : Decoder.lookup inst.word = m.2 :=
  Decoder.lookup_of_hits (List.mem_append_left _ (List.mem_append_right _ hm)) h

theorem setWidth_congr {w : ℕ} {x y : Word} (h : ∀ i < w, x.getLsbD i = y.getLsbD i) :
    x.setWidth w = y.setWidth w := by
  apply BitVec.eq_of_getLsbD_eq
  intro i hi
  rw [BitVec.getLsbD_setWidth, BitVec.getLsbD_setWidth, h i hi]

theorem Load.of {f : BitVec 3} {op : FuOp} {k : ℕ} {extend : BitVec (8 * 2 ^ k) → Word}
    (hm : ([BitPat.funct3 f, BitPat.opcode Opcode.load], ⟨.i, .lsu, op⟩) ∈ RV64MemInstr.table)
    (ho : inst.opcode = Opcode.load) (h3 : inst.funct3 = f)
    (hk : RvCore.loadKind f = some ⟨BitVec.ofNat 64 (2 ^ k), fun x => extend (x.setWidth _)⟩)
    (hw : k < 4 ∧ op.extractLsb' 0 2 = BitVec.ofNat 2 k ∧ LSUOpType.isLoad op = true)
    (hr : ∀ (info : Info) (src : SrcInfo) (rdata : Word), info.op = op →
      LsuMem.result info src rdata =
        extend ((LsuMem.rdataShifted info src rdata).extractLsb' 0 (8 * 2 ^ k))) :
    Load inst op k fun x => extend (x.setWidth _) where
  lookup := lookup_mem hm (hits_funct3_opcode h3 ho)
  kind := by rw [h3, hk]
  width := ⟨hw.1, hw.2.1⟩
  isLoad := hw.2.2
  result info src rdata hi := by rw [hr info src rdata hi, Bits.extract_eq_setWidth]
  congr hx := congrArg extend (setWidth_congr hx)

theorem Store.of {f : BitVec 3} {op : FuOp} {k : ℕ}
    (hm : ([BitPat.funct3 f, BitPat.opcode Opcode.store], ⟨.s, .lsu, op⟩) ∈ RV64MemInstr.table)
    (ho : inst.opcode = Opcode.store) (h3 : inst.funct3 = f)
    (hs : RvCore.storeSize f = some (BitVec.ofNat 64 (2 ^ k)))
    (hw : k < 4 ∧ op.extractLsb' 0 2 = BitVec.ofNat 2 k ∧ LSUOpType.isStore op = true) :
    Store inst op k where
  lookup := lookup_mem hm (hits_funct3_opcode h3 ho)
  size := by rw [h3, hs]
  width := ⟨hw.1, hw.2.1⟩
  isStore := hw.2.2

theorem IsLoad.load (h : IsLoad inst) : ∃ op k extend, Load inst op k extend := by
  obtain ⟨ho, h3⟩ := h
  simp only [List.mem_cons, List.not_mem_nil, or_false] at h3
  have hr {info : Info} {src : SrcInfo} {rdata : Word} {op : FuOp} (hi : info.op = op) :
      LsuMem.result info src rdata = LsuMem.result { info with op := op } src rdata := by
    rw [← hi]
  rcases h3 with h3 | h3 | h3 | h3 | h3 | h3 | h3
  · exact ⟨_, 0, _, .of (List.getElem_mem (n := 0) (by decide)) ho h3 rfl (by decide)
      fun _ _ _ hi => hr hi⟩
  · exact ⟨_, 1, _, .of (List.getElem_mem (n := 1) (by decide)) ho h3 rfl (by decide)
      fun _ _ _ hi => hr hi⟩
  · exact ⟨_, 2, _, .of (List.getElem_mem (n := 2) (by decide)) ho h3 rfl (by decide)
      fun _ _ _ hi => hr hi⟩
  · refine ⟨_, 3, _, @Load.of inst _ _ 3 (fun x => x) (List.getElem_mem (n := 3) (by decide)) ho h3
      ?_ (by decide) fun info src rdata hi => ?_⟩
    · simp only [Nat.reducePow, Nat.reduceMul, BitVec.setWidth_eq]
      rfl
    · rw [Bits.extract_eq_setWidth]
      exact (hr hi).trans (BitVec.setWidth_eq _).symm
  · exact ⟨_, 0, _, .of (List.getElem_mem (n := 4) (by decide)) ho h3 rfl (by decide)
      fun _ _ _ hi => hr hi⟩
  · exact ⟨_, 1, _, .of (List.getElem_mem (n := 5) (by decide)) ho h3 rfl (by decide)
      fun _ _ _ hi => hr hi⟩
  · exact ⟨_, 2, _, .of (List.getElem_mem (n := 6) (by decide)) ho h3 rfl (by decide)
      fun _ _ _ hi => hr hi⟩

theorem IsStore.store (h : IsStore inst) : ∃ op k, Store inst op k := by
  obtain ⟨ho, h3⟩ := h
  simp only [List.mem_cons, List.not_mem_nil, or_false] at h3
  rcases h3 with h3 | h3 | h3 | h3
  · exact ⟨_, 0, .of (List.getElem_mem (n := 7) (by decide)) ho h3 rfl (by decide)⟩
  · exact ⟨_, 1, .of (List.getElem_mem (n := 8) (by decide)) ho h3 rfl (by decide)⟩
  · exact ⟨_, 2, .of (List.getElem_mem (n := 9) (by decide)) ho h3 rfl (by decide)⟩
  · exact ⟨_, 3, .of (List.getElem_mem (n := 10) (by decide)) ho h3 rfl (by decide)⟩

end Tables

section Core

variable {s : Step} {x : SramXbar MmioMem} {mem : Bytes.Memory 64} {rdata : Word}
  {t : InstrType} {op : FuOp} {k : ℕ} {extend : Word → Word}

/-- The instruction of a step in execute. -/
def Step.issued (s : Step) : IdExeData := issue s.regs s.mode s.core.pc s.inst

theorem issued_ex {e : ExcNo} (he : e ∈ [ExcNo.loadAddrMisaligned, .storeAddrMisaligned]) :
    s.issued.ex.exception e = false := by
  simp only [List.mem_cons, List.not_mem_nil, or_false] at he
  rcases he with rfl | rfl <;> rfl

theorem memAddr_load (hl : Load s.inst op k extend) (ho : s.inst.opcode = Opcode.load) :
    Lsu.memAddr s.issued.info s.issued.srcInfo = address s.inst s.regs := by
  have h1 : s.issued.srcInfo.src1Data = _ := issue_src1Data_reg (by simp [hl.lookup])
  have hi : s.issued.info.imm = s.inst.imm12.signExtend 64 := by
    rw [← s.inst.immI_word]
    simp only [Step.issued, issue, Decoder.info, hl.lookup]
    rfl
  rw [Lsu.memAddr, h1, hi, address, if_pos ho]

theorem memAddr_store (hs : Store s.inst op k) (ho : s.inst.opcode = Opcode.store) :
    Lsu.memAddr s.issued.info s.issued.srcInfo = address s.inst s.regs := by
  have h1 : s.issued.srcInfo.src1Data = _ := issue_src1Data_reg (by simp [hs.lookup])
  have hi : s.issued.info.imm = s.inst.immS.signExtend 64 := by
    rw [← s.inst.immS_word]
    simp only [Step.issued, issue, Decoder.info, hs.lookup]
    rfl
  rw [Lsu.memAddr, h1, hi, address, if_neg (by rw [ho]; decide)]

theorem excInfo_issued (hl : Decoder.lookup s.inst.word = ⟨t, .lsu, op⟩) :
    (Fu.csrIn s.issued {}).excInfo =
      Lsu.ex s.issued.ex s.issued.info s.issued.srcInfo := by
  have hf : s.issued.info.fusel = .lsu := congrArg DecodeEntry.fuType hl
  simp [Fu.csrIn, Bru.ex, Bru.hasExc, Bru.branch, hf]

theorem hasExc_issued (hl : Decoder.lookup s.inst.word = ⟨t, .lsu, op⟩) (hw : Lsu.Width op k)
    (hm : Lsu.memAddr s.issued.info s.issued.srcInfo = address s.inst s.regs) :
    Lsu.hasExc s.issued.info s.issued.srcInfo =
      decide ((address s.inst s.regs).toNat % 2 ^ k ≠ 0) := by
  have hf : s.issued.info.fusel = .lsu := congrArg DecodeEntry.fuType hl
  have hop : s.issued.info.op = op := congrArg DecodeEntry.fuOpType hl
  have hv : s.issued.info.valid = true := rfl
  simp only [Lsu.hasExc, hv, hf, hm, hop, Lsu.addrMisaligned_eq hw, decide_true, Bool.true_and]

theorem ofCore_misaligned (hl : Decoder.lookup s.inst.word = ⟨t, .lsu, op⟩) (hw : Lsu.Width op k)
    (hm : Lsu.memAddr s.issued.info s.issued.srcInfo = address s.inst s.regs)
    (ha : (address s.inst s.regs).toNat % 2 ^ k ≠ 0) :
    ofCore s x rdata =
      (.misaligned (if LSUOpType.isLoad op then .loadAddrMisaligned else .storeAddrMisaligned)
        (address s.inst s.regs), x, rdata) := by
  have hop : s.issued.info.op = op := congrArg DecodeEntry.fuOpType hl
  have he : Lsu.hasExc s.issued.info s.issued.srcInfo = true := by
    rw [hasExc_issued hl hw hm, decide_eq_true ha]
  have hx : x.dataChannel (Fu.dataSram s.issued false) rdata = (x, rdata) := by
    rw [SramXbar.dataChannel, Fu.dataSram, Lsu.dataSram, he]
    rfl
  have hn (b : Bool) : Function.update s.issued.ex.exception .storeAddrMisaligned b
      .loadAddrMisaligned = false :=
    (Function.update_of_ne (by decide) _ _).trans (issued_ex (by decide))
  change (if (Fu.csrIn s.issued {}).excInfo.exception .loadAddrMisaligned = true then _ else
    if (Fu.csrIn s.issued {}).excInfo.exception .storeAddrMisaligned = true then _ else _) = _
  rw [show issue s.regs s.mode s.core.pc s.inst = s.issued from rfl, hx, excInfo_issued hl,
    Lsu.ex, if_pos he, hm, hop]
  cases LSUOpType.isLoad op <;> simp [ExceptionInfo.raise, hn]

theorem ofCore_aligned (hl : Decoder.lookup s.inst.word = ⟨t, .lsu, op⟩) (hw : Lsu.Width op k)
    (hm : Lsu.memAddr s.issued.info s.issued.srcInfo = address s.inst s.regs)
    (ha : (address s.inst s.regs).toNat % 2 ^ k = 0) :
    ofCore s x rdata =
      let x := x.dataChannel ⟨true, (address s.inst s.regs).extractLsb' 0 32,
        Lsu.wdata op s.issued.srcInfo.src2Data,
        if LSUOpType.isStore op then Lsu.memWenTmp op (address s.inst s.regs) else 0⟩ rdata
      let v := LsuMem.result s.issued.info s.issued.srcInfo x.2
      (.complete (if t.isRegWen then some v else none)
        (s.regs.write ⟨t.isRegWen, s.inst.rd, v⟩).read, x) := by
  have hf : s.issued.info.fusel = .lsu := congrArg DecodeEntry.fuType hl
  have hop : s.issued.info.op = op := congrArg DecodeEntry.fuOpType hl
  have hwen : s.issued.info.regWen = t.isRegWen :=
    congrArg (fun e : DecodeEntry => e.instrType.isRegWen) hl
  have hrd : s.issued.info.regWaddr = s.inst.rd := s.inst.rd_word
  have hv : s.issued.info.valid = true := rfl
  have he : Lsu.hasExc s.issued.info s.issued.srcInfo = false := by
    rw [hasExc_issued hl hw hm, decide_eq_false (not_not_intro ha)]
  have hp : Fu.dataSram s.issued false = ⟨true, (address s.inst s.regs).extractLsb' 0 32,
      Lsu.wdata op s.issued.srcInfo.src2Data,
      if LSUOpType.isStore op then Lsu.memWenTmp op (address s.inst s.regs) else 0⟩ := by
    rw [Fu.dataSram, Lsu.dataSram, he, hv, hf, hop, hm]
    rfl
  have hex : (Fu.csrIn s.issued {}).excInfo = s.issued.ex := by
    rw [excInfo_issued hl, Lsu.ex, he]
    rfl
  change (if (Fu.csrIn s.issued {}).excInfo.exception .loadAddrMisaligned = true then _ else
    if (Fu.csrIn s.issued {}).excInfo.exception .storeAddrMisaligned = true then _ else _) = _
  rw [hex, issued_ex (by decide), issued_ex (by decide)]
  simp only [Bool.false_eq_true, if_false]
  rw [← hp]
  have hr (r : Word) : (MemoryUnit.writeBackStage (Fu.memoryStage s.csr s.issued {}) r).rdInfo =
      ⟨LsuMem.result s.issued.info s.issued.srcInfo r⟩ := if_pos hf
  rw [← hwen, ← hrd, show issue s.regs s.mode s.core.pc s.inst = s.issued from rfl, hr]
  rfl

theorem ofCore_load (hl : Load s.inst op k extend) (ho : s.inst.opcode = Opcode.load)
    (hx : x.Maps mem) (hm : InMemory (address s.inst s.regs) 1)
    (ha : (address s.inst s.regs).toNat % 2 ^ k = 0) :
    ∃ rdata', ofCore s x rdata =
      (.complete (some (extend (Bytes.load mem (place (address s.inst s.regs)) (2 ^ k))))
        (s.regs.write ⟨true, s.inst.rd,
          extend (Bytes.load mem (place (address s.inst s.regs)) (2 ^ k))⟩).read, x, rdata') := by
  have hmem := memAddr_load hl ho
  have hop : s.issued.info.op = op := congrArg DecodeEntry.fuOpType hl.lookup
  have hst : LSUOpType.isStore op = false := by simpa [LSUOpType.isLoad] using hl.isLoad
  have hlow : (address s.inst s.regs).extractLsb' 0 3 =
      (s.issued.srcInfo.src1Data + s.issued.info.imm).extractLsb' 0 3 := by
    rw [← hmem]
    rfl
  have hv (r : Word) : LsuMem.rdataShifted s.issued.info s.issued.srcInfo r =
      r >>> (8 * ((address s.inst s.regs).toNat % 8)) := by
    rw [LsuMem.rdataShifted, ← hlow, Bits.toNat_extract, pow_zero, Nat.div_one]
    rfl
  refine ⟨Bytes.load mem (place (address s.inst s.regs - (address s.inst s.regs &&& 7))) 8, ?_⟩
  rw [ofCore_aligned hl.lookup hl.width hmem ha, hst]
  simp only [show InstrType.i.isRegWen = true from rfl, if_true, Bool.false_eq_true, if_false,
    dataChannel_load hx hm]
  rw [hl.result _ _ _ hop, hv,
    hl.congr fun i hi => getLsbD_load_lane hl.width.lt ha hm hi]

theorem ofCore_store (hl : Store s.inst op k) (ho : s.inst.opcode = Opcode.store)
    (hx : x.Maps mem) (hm : InMemory (address s.inst s.regs) 1)
    (ha : (address s.inst s.regs).toNat % 2 ^ k = 0) :
    ∃ x' rdata', ofCore s x rdata = (.complete none s.regs.read, x', rdata') ∧
      x'.Maps (Bytes.store mem (place (address s.inst s.regs)) (2 ^ k)
        (s.regs.read s.inst.rs2)) := by
  have h2 : s.issued.srcInfo.src2Data = s.regs.read s.inst.rs2 :=
    issue_src2Data_reg (by simp [hl.lookup])
  rw [ofCore_aligned hl.lookup hl.width (memAddr_store hl ho) ha, hl.isStore, h2]
  have hst : (x.dataChannel ⟨true, _, Lsu.wdata op (s.regs.read s.inst.rs2), _⟩ rdata).1.Maps _ :=
    dataChannel_store hx hl.width ha hm
  simp only [show InstrType.s.isRegWen = false from rfl, if_true, Bool.false_eq_true, if_false]
  rw [ARegFile.write_of_not_wen (.inl rfl)]
  exact ⟨_, _, rfl, hst⟩

end Core

section Ref

variable {h : Hart MmioMem} {mem : Bytes.Memory 64} {a : Word} {n k : ℕ}

theorem vaRead_eq (hm : Satp.mode h.satp = 0) (hb : h.bus.Maps mem) (ha : InMemory a n) :
    h.vaRead a (BitVec.ofNat 64 n) = .ok (h, .ok (Bytes.load mem (place a) n)) := by
  rw [Hart.vaRead, Hart.vaAccess, if_pos (Hart.untranslated_of_mode hm), hb.paRead ha]
  rfl

theorem vaWrite_eq (cfg : Config) (hm : Satp.mode h.satp = 0) (hb : h.bus.Maps mem)
    (ha : InMemory a n) {buffer : Word}
    (he : ¬ (cfg.runRiscvTest ∧ a = 0x80001000 ∧ buffer = 1)) :
    ∃ b, h.vaWrite cfg a (BitVec.ofNat 64 n) buffer = .ok ({ h with bus := b }, .ok ()) ∧
      b.Maps (Bytes.store mem (place a) n buffer) := by
  obtain ⟨b, hw, hb'⟩ := hb.paWrite ha buffer
  refine ⟨b, ?_, hb'⟩
  rw [Hart.vaWrite, Hart.vaAccess, if_pos (Hart.untranslated_of_mode hm), if_neg he, hw]
  rfl

theorem mod_size_iff (hk : k < 4) : a % BitVec.ofNat 64 (2 ^ k) = 0 ↔ a.toNat % 2 ^ k = 0 := by
  have hp : (BitVec.ofNat 64 (2 ^ k)).toNat = 2 ^ k := by
    interval_cases k <;> rfl
  rw [← BitVec.toNat_inj, BitVec.toNat_umod, hp]
  rfl

theorem ofRef_ok {cfg : Config} {s : Step} {b : Systembus MmioMem}
    {e : RvCore.Exec MmioMem} (h : (s.before b).decodeExec s.inst cfg = .ok e) :
    ofRef cfg s b = (ofExec s.inst (s.before b) e).map fun a => (a, e.core.priv.bus) := by
  rw [ofRef, h]

section Trap

variable {s s' : RvCore.State MmioMem} {inst : RvInstr}

theorem ofExec_trapped (hr : s'.priv.raised = s.priv.raised) {e : ExcNo}
    (he : e ∈ [ExcNo.loadAddrMisaligned, .storeAddrMisaligned]) :
    ofExec inst s (s'.withPriv (s'.priv.trapped (.exc e) a)).done = some (.misaligned e a) := by
  simp only [List.mem_cons, List.not_mem_nil, or_false] at he
  rcases he with rfl | rfl <;>
    simp [ofExec, RvCore.State.withPriv, RvCore.State.done, Hart.trapped, hr]
  decide

theorem ofExec_done (hr : s'.priv.raised = s.priv.raised) :
    ofExec inst s s'.done =
      some (.complete
        (if inst.opcode = Opcode.load then some s'.debugRegWdata else none) s'.gpr) := by
  simp [ofExec, RvCore.State.done, hr]

end Trap

variable {cfg : Config} {s : Step} {b : Systembus MmioMem} {extend : Word → Word}

theorem ofRef_load (hs : s.Ok cfg) (ho : s.inst.opcode = Opcode.load) (hk : k < 4)
    (hl : RvCore.loadKind s.inst.funct3 = some ⟨BitVec.ofNat 64 (2 ^ k), extend⟩)
    (hb : b.Maps mem) :
    ofRef cfg s b = some (if (address s.inst s.regs).toNat % 2 ^ k ≠ 0 then
        (.misaligned .loadAddrMisaligned (address s.inst s.regs), b)
      else (.complete (some (extend (Bytes.load mem (place (address s.inst s.regs)) (2 ^ k))))
        (s.regs.write ⟨true, s.inst.rd,
          extend (Bytes.load mem (place (address s.inst s.regs)) (2 ^ k))⟩).read, b)) := by
  have hd : (s.before b).decodeExec s.inst cfg =
      (((s.before b).fetched s.inst).memRead (address s.inst s.regs) (BitVec.ofNat 64 (2 ^ k))
        fun s' buf => s'.setGpr s.inst.rd (extend buf)).map RvCore.State.done := by
    rw [RvCore.State.decodeExec_load ho, RvCore.State.execLoad, hl, address, if_pos ho]
    rfl
  by_cases ha : (address s.inst s.regs).toNat % 2 ^ k = 0
  · have hv : ((s.before b).fetched s.inst).priv.vaRead (address s.inst s.regs) _ = _ :=
      vaRead_eq (by exact hs.mode) (by exact hb) (.of_aligned hk ha hs.inMemory)
    rw [RvCore.State.memRead, if_neg (not_not_intro ((mod_size_iff hk).mpr ha)), hv] at hd
    rw [if_neg (not_not_intro ha), ofRef_ok hd, ofExec_done (by rfl), if_pos ho,
      ARegFile.read_write_wen]
    rfl
  · have hn : ((s.before b).fetched s.inst).priv.curNeedTrap = false := hs.curNeedTrap
    rw [RvCore.State.memRead, if_pos (mt (mod_size_iff hk).mp ha),
      RvCore.State.raiseTrap_eq hn (by decide)] at hd
    rw [if_pos ha, ofRef_ok hd, ofExec_trapped (by rfl) (by decide)]
    rfl

theorem ofRef_store (hs : s.Ok cfg) (hi : IsStore s.inst) (hk : k < 4)
    (hl : RvCore.storeSize s.inst.funct3 = some (BitVec.ofNat 64 (2 ^ k))) (hb : b.Maps mem) :
    if (address s.inst s.regs).toNat % 2 ^ k ≠ 0 then
      ofRef cfg s b = some (.misaligned .storeAddrMisaligned (address s.inst s.regs), b)
    else ∃ b', ofRef cfg s b = some (.complete none s.regs.read, b') ∧
      b'.Maps (Bytes.store mem (place (address s.inst s.regs)) (2 ^ k)
        (s.regs.read s.inst.rs2)) := by
  have ho : s.inst.opcode ≠ Opcode.load := by
    rw [hi.1]
    decide
  have hd : (s.before b).decodeExec s.inst cfg =
      (((s.before b).fetched s.inst).memWrite cfg (address s.inst s.regs)
        (BitVec.ofNat 64 (2 ^ k)) (s.regs.read s.inst.rs2)).map RvCore.State.done := by
    rw [RvCore.State.decodeExec_store hi.1, RvCore.State.execStore, hl, address, if_neg ho]
    rfl
  by_cases ha : (address s.inst s.regs).toNat % 2 ^ k = 0
  · rw [if_neg (not_not_intro ha)]
    obtain ⟨b', hv, hb'⟩ := vaWrite_eq (h := ((s.before b).fetched s.inst).priv) cfg hs.mode hb
      (.of_aligned hk ha hs.inMemory) (hs.noExit hi)
    rw [RvCore.State.memWrite, if_neg (not_not_intro ((mod_size_iff hk).mpr ha)), hv] at hd
    refine ⟨b', ?_, hb'⟩
    rw [ofRef_ok hd, ofExec_done (by rfl), if_neg ho]
    rfl
  · have hn : ((s.before b).fetched s.inst).priv.curNeedTrap = false := hs.curNeedTrap
    rw [RvCore.State.memWrite, if_pos (mt (mod_size_iff hk).mp ha),
      RvCore.State.raiseTrap_eq hn (by decide)] at hd
    rw [if_pos ha, ofRef_ok hd, ofExec_trapped (by rfl) (by decide)]
    rfl

end Ref

section Run

variable {cfg : Config} {s : Step} {x : SramXbar MmioMem} {b : Systembus MmioMem}
  {mem : Bytes.Memory 64}

/-- From equal memories an access ends in the same way and with equal memories. -/
theorem access_step (hs : s.Ok cfg) (hx : x.Maps mem) (hb : b.Maps mem) (rdata : Word) :
    ∃ a x' rdata' b' mem', ofCore s x rdata = (a, x', rdata') ∧ ofRef cfg s b = some (a, b') ∧
      x'.Maps mem' ∧ b'.Maps mem' := by
  rcases hs.isAccess with hi | hi
  · obtain ⟨op, k, extend, hl⟩ := hi.load
    have hr := ofRef_load hs hi.1 hl.width.lt hl.kind hb
    by_cases ha : (address s.inst s.regs).toNat % 2 ^ k = 0
    · obtain ⟨rdata', hc⟩ := ofCore_load hl hi.1 hx hs.inMemory ha
      rw [if_neg (not_not_intro ha)] at hr
      exact ⟨_, x, rdata', b, mem, hc, hr, hx, hb⟩
    · have hc : ofCore s x rdata = _ :=
        ofCore_misaligned hl.lookup hl.width (memAddr_load hl hi.1) ha
      rw [if_pos ha] at hr
      rw [hl.isLoad] at hc
      exact ⟨_, x, rdata, b, mem, hc, hr, hx, hb⟩
  · obtain ⟨op, k, hl⟩ := hi.store
    have hr := ofRef_store hs hi hl.width.lt hl.size hb
    by_cases ha : (address s.inst s.regs).toNat % 2 ^ k = 0
    · obtain ⟨x', rdata', hc, hx'⟩ := ofCore_store hl hi.1 hx hs.inMemory ha
      rw [if_neg (not_not_intro ha)] at hr
      obtain ⟨b', hr, hb'⟩ := hr
      exact ⟨_, x', rdata', b', _, hc, hr, hx', hb'⟩
    · have hc : ofCore s x rdata = _ :=
        ofCore_misaligned hl.lookup hl.width (memAddr_store hl hi.1) ha
      rw [if_pos ha] at hr
      rw [LSUOpType.isLoad, hl.isStore] at hc
      exact ⟨_, x, rdata, b, mem, hc, hr, hx, hb⟩

theorem access_run {steps : List Step} (hs : ∀ s ∈ steps, s.Ok cfg) (hx : x.Maps mem)
    (hb : b.Maps mem) (rdata : Word) : runRef cfg steps b = some (runCore steps x rdata) := by
  induction steps generalizing x b mem rdata with
  | nil => rfl
  | cons s steps ih =>
    obtain ⟨a, x', rdata', b', mem', hc, hr, hx', hb'⟩ :=
      access_step (hs s List.mem_cons_self) hx hb rdata
    have hi := ih (fun s h => hs s (List.mem_cons_of_mem _ h)) hx' hb' rdata'
    have hm : (b'.dev 0).mem = (x'.dev 0).mem := by rw [hb'.dev, hx'.dev]
    rw [runRef, runCore, hr, hc]
    simp only [Option.bind_eq_bind, Option.bind_some, hi, hm]
    rfl

end Run

/-- **Load and store agreement.** From the same image, every sequence of loads and stores in the
memory gives the same outcomes and the same memory after every instruction. -/
theorem access_agree (cfg : Config) (image : Bytes.Memory 64) (b : Systembus MmioMem)
    (rdata : Word) (steps : List Step) (hs : ∀ s ∈ steps, s.Ok cfg) :
    runRef cfg steps (RvCore.Test.bus image b) =
      some (runCore steps (SramXbar.ofImage image) rdata) :=
  access_run hs (SramXbar.maps_ofImage image) (Systembus.maps_bus image) rdata

/-- A doubleword is stored, one byte of it is loaded and a halfword is misaligned. -/
def testSteps : List Step :=
  [0x0020b023, 0x0010c183, 0x00109203].map fun inst =>
    { inst := inst
      regs := fun r => if r = 1 then 0x80000000 else 0x1122334455667788
      csr := Csr.init
      mode := Priv.m
      core := RvCore.Test.core ⟨true, false⟩ (fun _ => 0) default }

theorem access_agree_sd_lbu_lh :
    runRef ⟨true, false⟩ testSteps (RvCore.Test.bus (fun _ => 0) default) =
      some (runCore testSteps (SramXbar.ofImage fun _ => 0) 0) := by
  refine access_agree ⟨true, false⟩ (fun _ => 0) default 0 testSteps fun s hs => ?_
  simp only [testSteps, List.map_cons, List.map_nil, List.mem_cons, List.not_mem_nil,
    or_false] at hs
  rcases hs with rfl | rfl | rfl
  · exact ⟨by decide, by decide, rfl, rfl, by decide⟩
  · exact ⟨by decide, by decide, rfl, rfl, by decide⟩
  · exact ⟨by decide, by decide, rfl, rfl, by decide⟩

end Access

end PuaCpu
