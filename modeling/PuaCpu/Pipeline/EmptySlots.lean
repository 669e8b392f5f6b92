import PuaCpu.Pipeline.Forwarding
import PuaCpu.Privilege.Status

/-! # Empty slots

A slot without an instruction stalls nothing, redirects nothing and writes
nothing. Only the forwarding network does not look at the valid bit: in the first
cycles it can take an operand from a word that was never fetched. Runs in which
it does not are independent of these words.
-/

namespace PuaCpu

namespace ARegFile

theorem write_congr {regs : ARegFile} {w w' : RegWrite}
    (h : w = w' ∨ (w.wen = false ∧ w'.wen = false)) : regs.write w = regs.write w' := by
  rcases h with rfl | ⟨h, h'⟩
  · rfl
  · rw [write_of_not_wen (.inl h), write_of_not_wen (.inl h')]

end ARegFile

namespace Core

/-- Whether an instruction word names a register as its destination. -/
def Names (info : Info) (r : RegAddr) : Prop := info.regWen = true ∧ info.regWaddr = r

/-- The network takes a register from an empty slot. -/
def Stale (s : State) (r : RegAddr) : Prop :=
  r ≠ 0 ∧
    ((Names s.exe.info r ∧ s.exe.info.valid = false) ∨
      (¬ Names s.exe.info r ∧ Names s.mem.info r ∧ s.mem.info.valid = false) ∨
      (¬ Names s.exe.info r ∧ ¬ Names s.mem.info r ∧ Names s.wb.info r ∧
        s.wb.info.valid = false))

/-- An instruction enters execute with an operand from an empty slot. -/
structure TakesStale (s : State) (i : In) : Prop where
  valid : s.dec.valid = true
  flush : flush s i = false
  stall : stall s = false
  reads : ∃ r, Reads (DecodeUnit.info s.dec) r ∧ Stale s r

/-- The write that an instruction has pending: none in an empty slot. -/
def pending (info : Info) (wdata : Word) : RegWrite :=
  ⟨info.valid && info.regWen, info.regWaddr, wdata⟩

/-- The register file with the results of the instructions in flight written to it. -/
def resolved (s : State) (i : In) : ARegFile :=
  ((s.regs.write (pending s.wb.info s.wb.rdInfo.wdata)).write
    (pending s.mem.info (memOut s i).rdInfo.wdata)).write
    (pending s.exe.info (exeOut s i).rdInfo.wdata)

/-- What a commit shows: the `pc` and the register write. -/
def committed (s : State) : Option (Word × RegWrite) :=
  if (debug s).commit then some ((debug s).pc, WriteBackUnit.regfile s.wb) else none

/-- What the core writes to the data SRAM. -/
def stored (s : State) : Option DataSram :=
  if (dataSram s).isWrite then some (dataSram s) else none

/-- No empty slot has an influence in this cycle. -/
structure Silent (s : State) (i : In) : Prop where
  operand : s.dec.valid = true → flush s i = false → stall s = false →
    ∀ r, Reads (DecodeUnit.info s.dec) r → (forwarded s i).read r = (resolved s i).read r
  stall : s.exe.info.valid = false → stall s = false
  flush : s.exe.info.valid = false → flush s i = false
  stored : s.exe.info.valid = false → stored s = none
  csr : s.exe.info.valid = false → (step s i).csr = Csr.idle s.csr i.interrupt
  regs : s.wb.info.valid = false → (step s i).regs = s.regs
  committed : s.wb.info.valid = false → committed s = none

variable {s s' : State} {i i' : In}

section Silent

/-- Both reads stop at a write of an instruction and pass the other stages by. -/
theorem read_write_valid {regs regs' : ARegFile} {info : Info} {r : RegAddr} {v : Word}
    (h0 : r ≠ 0) (hn : Names info r → info.valid = true)
    (h : ¬ Names info r → regs.read r = regs'.read r) :
    (regs.write ⟨info.regWen, info.regWaddr, v⟩).read r =
      (regs'.write (pending info v)).read r := by
  rw [ARegFile.read_write, ARegFile.read_write, pending]
  by_cases hr : Names info r
  · rw [if_pos ⟨hr.1, hr.2, h0⟩, if_pos ⟨by rw [hn hr, hr.1]; rfl, hr.2, h0⟩]
  · have hne : ¬(info.regWen = true ∧ info.regWaddr = r ∧ r ≠ 0) := fun hc => hr ⟨hc.1, hc.2.1⟩
    have hne' : ¬((info.valid && info.regWen) = true ∧ info.regWaddr = r ∧ r ≠ 0) := fun hc =>
      hr ⟨(Bool.and_eq_true _ _ ▸ hc.1).2, hc.2.1⟩
    rw [if_neg hne, if_neg hne', h hr]

theorem read_of_not_stale {r : RegAddr} (h : ¬ Stale s r) :
    (forwarded s i).read r = (resolved s i).read r := by
  by_cases h0 : r = 0
  · simp [h0]
  have hv {b : Bool} (hb : b ≠ false) : b = true := Bool.eq_true_of_not_eq_false hb
  refine read_write_valid h0 (fun hx => hv fun hb => h ⟨h0, .inl ⟨hx, hb⟩⟩) fun hx => ?_
  refine read_write_valid h0 (fun hm => hv fun hb => h ⟨h0, .inr (.inl ⟨hx, hm, hb⟩)⟩) fun hm => ?_
  exact read_write_valid h0 (fun hw => hv fun hb => h ⟨h0, .inr (.inr ⟨hx, hm, hw, hb⟩)⟩)
    fun _ => rfl

theorem step_csr_of_not_valid (hv : s.exe.info.valid = false) :
    (step s i).csr = Csr.idle s.csr i.interrupt :=
  Csr.step_of_not_valid hv

theorem step_regs_of_not_valid (hv : s.wb.info.valid = false) : (step s i).regs = s.regs :=
  ARegFile.write_of_not_wen (.inl (by simp [WriteBackUnit.regfile, hv]))

/-- Only an operand can come from an empty slot. -/
theorem silent_of_not_takesStale (h : ¬ TakesStale s i) : Silent s i where
  operand hv hf hs r hr := read_of_not_stale fun hst => h ⟨hv, hf, hs, r, hr, hst⟩
  stall := not_stall_of_not_valid
  flush := not_flush_of_not_valid
  stored hv := if_neg (by simp [not_isWrite_of_not_valid hv])
  csr := step_csr_of_not_valid
  regs := step_regs_of_not_valid
  committed hv := if_neg (by simp [debug, WriteBackUnit.debug, hv])

end Silent

section Runs

/-- The same slot, or two empty ones. -/
def SameSlot {α : Type} (valid : α → Bool) (a b : α) : Prop :=
  a = b ∨ (valid a = false ∧ valid b = false)

theorem SameSlot.eq_of_valid {α : Type} {valid : α → Bool} {a b : α} (h : SameSlot valid a b)
    (hv : valid a = true) : a = b := by
  rcases h with h | ⟨ha, -⟩
  · exact h
  · exact absurd (ha.symm.trans hv) (by decide)

/-- Two states that differ in what empty slots hold. -/
structure Alike (s s' : State) : Prop where
  fetch : s.fetch = s'.fetch
  regs : s.regs = s'.regs
  csr : s.csr = s'.csr
  dec : SameSlot IfIdData.valid s.dec s'.dec
  exe : SameSlot (fun d => d.info.valid) s.exe s'.exe
  mem : SameSlot (fun d => d.info.valid) s.mem s'.mem
  wb : SameSlot (fun d => d.info.valid) s.wb s'.wb

/-- Two inputs that differ in what empty slots take. -/
structure AlikeIn (s : State) (i i' : In) : Prop where
  interrupt : i.interrupt = i'.interrupt
  instRdata : s.fetch.state = .receive → i.instRdata = i'.instRdata
  dataRdata : s.mem.info.valid = true → i.dataRdata = i'.dataRdata

theorem write_pending {regs regs' : ARegFile} {a b : Info} {v w : Word} (hr : regs = regs')
    (h : (a = b ∧ v = w) ∨ (a.valid = false ∧ b.valid = false)) :
    regs.write (pending a v) = regs'.write (pending b w) := by
  subst hr
  refine ARegFile.write_congr ?_
  rcases h with ⟨rfl, rfl⟩ | ⟨ha, hb⟩
  · exact .inl rfl
  · exact .inr ⟨by simp [pending, ha], by simp [pending, hb]⟩

theorem alike_refl (s : State) : Alike s s :=
  ⟨rfl, rfl, rfl, .inl rfl, .inl rfl, .inl rfl, .inl rfl⟩

theorem decOut_congr (hd : s.dec = s'.dec) (hc : s.csr = s'.csr)
    (h1 : (DecodeUnit.info s.dec).src1Ren = true →
      (decOut s i).srcInfo.src1Data = (decOut s' i').srcInfo.src1Data)
    (h2 : (DecodeUnit.info s.dec).src2Ren = true →
      (decOut s i).srcInfo.src2Data = (decOut s' i').srcInfo.src2Data) :
    decOut s i = decOut s' i' := by
  have hsrc1 : (decOut s i).srcInfo.src1Data = (decOut s' i').srcInfo.src1Data := by
    cases hr : (DecodeUnit.info s.dec).src1Ren with
    | true => exact h1 hr
    | false =>
      simp only [decOut, DecodeUnit.executeStage, DecodeUnit.srcInfo, DecodeUnit.src1Data, ← hd,
        hr, FowardCtrl.srcOut, Bool.false_eq_true, if_false]
  have hsrc2 : (decOut s i).srcInfo.src2Data = (decOut s' i').srcInfo.src2Data := by
    cases hr : (DecodeUnit.info s.dec).src2Ren with
    | true => exact h2 hr
    | false =>
      simp only [decOut, DecodeUnit.executeStage, DecodeUnit.srcInfo, DecodeUnit.src2Data, ← hd,
        hr, FowardCtrl.srcOut, Bool.false_eq_true, if_false]
  have hsrc : (decOut s i).srcInfo = (decOut s' i').srcInfo := congrArg₂ SrcInfo.mk hsrc1 hsrc2
  have hex : (decOut s i).ex = (decOut s' i').ex := by
    simp only [decOut, DecodeUnit.executeStage, decodeIn, hd, hc]
  calc decOut s i = ⟨s.dec.pc, DecodeUnit.info s.dec, (decOut s i).srcInfo, (decOut s i).ex⟩ := rfl
    _ = decOut s' i' := by
      rw [hsrc, hex, hd]
      rfl

section Step

variable (h : Alike s s') (hi : AlikeIn s i i')
include h hi

theorem Alike.flush_eq : flush s i = flush s' i' := by
  rcases h.exe with he | ⟨he, he'⟩
  · rw [flush, flush, h.csr, he, hi.interrupt]
  · rw [not_flush_of_not_valid he, not_flush_of_not_valid he']

theorem Alike.target_eq (hf : flush s i = true) : target s i = target s' i' := by
  rw [target, target, h.csr, h.exe.eq_of_valid (valid_of_flush hf), hi.interrupt]

omit hi in
theorem Alike.stall_eq (hs : Filled s) : stall s = stall s' := by
  rcases h.exe with he | ⟨he, he'⟩
  · cases hv : s.exe.info.valid
    · rw [not_stall_of_not_valid hv, not_stall_of_not_valid (he ▸ hv)]
    · rw [stall, stall, he, h.dec.eq_of_valid (hs.exe_dec hv)]
  · rw [not_stall_of_not_valid he, not_stall_of_not_valid he']

theorem Alike.fetchNext_eq (hs : Filled s) : fetchNext s i = fetchNext s' i' := by
  rw [fetchNext, fetchNext, ← h.flush_eq hi, ← h.stall_eq hs, ← h.fetch]
  cases hf : flush s i with
  | false => rfl
  | true => rw [h.target_eq hi hf]

theorem Alike.exeOut : SameSlot (fun d => d.info.valid) (exeOut s i) (exeOut s' i') := by
  rcases h.exe with he | he
  · left
    rw [Core.exeOut, Core.exeOut, h.csr, he, hi.interrupt]
  · exact .inr he

theorem Alike.memOut : SameSlot (fun d => d.info.valid) (memOut s i) (memOut s' i') := by
  rcases h.mem with hm | hm
  · cases hv : s.mem.info.valid with
    | false => exact .inr ⟨hv, (congrArg (·.info.valid) hm).symm.trans hv⟩
    | true =>
      left
      rw [Core.memOut, Core.memOut, hm, hi.dataRdata hv]
  · exact .inr hm

theorem Alike.resolved_eq : resolved s i = resolved s' i' := by
  refine write_pending (write_pending (write_pending h.regs ?_) ?_) ?_
  · exact h.wb.imp_left fun e => ⟨congrArg (·.info) e, congrArg (·.rdInfo.wdata) e⟩
  · exact (h.memOut hi).imp_left fun e => ⟨congrArg (·.info) e, congrArg (·.rdInfo.wdata) e⟩
  · exact (h.exeOut hi).imp_left fun e => ⟨congrArg (·.info) e, congrArg (·.rdInfo.wdata) e⟩

theorem Alike.decOut (hn : ¬ TakesStale s i) (hn' : ¬ TakesStale s' i') (hs : Filled s)
    (hf : flush s i = false) (hst : stall s = false) :
    SameSlot (fun d => d.info.valid) (decOut s i) (decOut s' i') := by
  rcases h.dec with hd | hd
  · cases hv : s.dec.valid with
    | false => exact .inr ⟨hv, (congrArg (·.valid) hd).symm.trans hv⟩
    | true =>
      left
      have hread (r : RegAddr) (hr : Reads (DecodeUnit.info s.dec) r) :
          (forwarded s i).read r = (forwarded s' i').read r := by
        rw [(silent_of_not_takesStale hn).operand hv hf hst r hr, h.resolved_eq hi]
        refine ((silent_of_not_takesStale hn').operand (hd ▸ hv) ?_ ?_ r (hd ▸ hr)).symm
        · rw [← h.flush_eq hi, hf]
        · rw [← h.stall_eq hs, hst]
      have hinfo : DecodeUnit.info s.dec = DecodeUnit.info s'.dec := by rw [hd]
      refine decOut_congr hd h.csr (fun h1 => ?_) fun h2 => ?_
      · rw [decOut_src1Data h1, decOut_src1Data (hinfo ▸ h1), ← hinfo]
        exact hread _ (.inl ⟨h1, rfl⟩)
      · rw [decOut_src2Data h2, decOut_src2Data (hinfo ▸ h2), ← hinfo]
        exact hread _ (.inr ⟨h2, rfl⟩)
  · exact .inr hd

theorem Alike.fetched (hs : Filled s) :
    SameSlot IfIdData.valid (fetched s i) (fetched s' i') := by
  rw [fetched_eq, fetched_eq, ← h.fetchNext_eq hi hs, ← h.fetch]
  by_cases hr : s.fetch.state = .receive
  · exact .inl (by rw [hi.instRdata hr])
  · exact .inr ⟨decide_eq_false hr, decide_eq_false hr⟩

/-- A cycle in which no operand comes from an empty slot. -/
theorem Alike.step (hs : Filled s) (hn : ¬ TakesStale s i) (hn' : ¬ TakesStale s' i') :
    Alike (step s i) (step s' i') where
  fetch := by
    have hpc : (Core.step s i).fetch.pc = (Core.step s' i').fetch.pc := by
      rw [step_fetch_pc, step_fetch_pc, h.fetchNext_eq hi hs, h.fetch]
    have hst : (Core.step s i).fetch.state = (Core.step s' i').fetch.state := by
      rw [step_fetch_state, step_fetch_state, h.fetch]
    exact congrArg₂ FetchUnit.State.mk hst hpc
  regs := by
    change s.regs.write (WriteBackUnit.regfile s.wb) = s'.regs.write (WriteBackUnit.regfile s'.wb)
    rw [h.regs]
    refine ARegFile.write_congr ?_
    exact h.wb.imp (congrArg _) fun hv =>
      ⟨by simp [WriteBackUnit.regfile, hv.1], by simp [WriteBackUnit.regfile, hv.2]⟩
  csr := by
    rcases h.exe with he | ⟨he, he'⟩
    · rw [step_csr, step_csr, h.csr, he, hi.interrupt]
    · rw [step_csr_of_not_valid he, step_csr_of_not_valid he', h.csr, hi.interrupt]
  dec := by
    have hf := h.flush_eq hi
    have hst := h.stall_eq hs
    cases hf' : flush s i with
    | true => exact .inl ((step_dec_of_flush hf').trans (step_dec_of_flush (hf ▸ hf')).symm)
    | false =>
      cases hst' : stall s with
      | true =>
        rw [step_dec_of_stall hf' hst', step_dec_of_stall (hf ▸ hf') (hst ▸ hst')]
        exact h.dec
      | false =>
        rw [step_dec_of_go hf' hst', step_dec_of_go (hf ▸ hf') (hst ▸ hst')]
        exact h.fetched hi hs
  exe := by
    have hf := h.flush_eq hi
    have hst := h.stall_eq hs
    cases hf' : flush s i with
    | true => exact .inl ((step_exe_of_flush hf').trans (step_exe_of_flush (hf ▸ hf')).symm)
    | false =>
      cases hst' : stall s with
      | true => exact .inl ((step_exe_of_stall hst').trans (step_exe_of_stall (hst ▸ hst')).symm)
      | false =>
        rw [step_exe_of_go hf' hst', step_exe_of_go (hf ▸ hf') (hst ▸ hst')]
        exact h.decOut hi hn hn' hs hf' hst'
  mem := h.exeOut hi
  wb := h.memOut hi

end Step

theorem Alike.outputs (h : Alike s s') : committed s = committed s' ∧ stored s = stored s' := by
  constructor
  · rcases h.wb with hb | ⟨hb, hb'⟩
    · rw [committed, committed, debug, debug, hb]
    · rw [committed, committed, if_neg, if_neg] <;> simp [debug, WriteBackUnit.debug, hb, hb']
  · rcases h.exe with he | ⟨he, he'⟩
    · rw [stored, stored, dataSram, dataSram, he]
    · rw [stored, stored, if_neg, if_neg] <;> simp [not_isWrite_of_not_valid, he, he']

/-- Once the first words are through, or if they name no register, nothing is stale. -/
theorem not_takesStale_of_settled {ins : ℕ → In} {t : ℕ} (h : Settled ins t 3) :
    ¬ TakesStale (machine.run ins t) (ins t) := by
  have hq {info : Info} {r : RegAddr} (h0 : r ≠ 0) (hq : Quiet info) (hn : Names info r)
      (hv : info.valid = false) : False := by
    rcases hq hv with hw | ha
    · exact absurd (hw.symm.trans hn.1) (by decide)
    · exact h0 (hn.2.symm.trans ha)
  rintro ⟨-, -, -, r, -, h0, ⟨hn, hv⟩ | ⟨-, hn, hv⟩ | ⟨-, -, hn, hv⟩⟩
  · exact hq h0 (quiet_exe_run (h.imp_left fun h => by omega)) hn hv
  · exact hq h0 (quiet_mem_run (h.imp_left fun h => by omega)) hn hv
  · exact hq h0 (quiet_wb_run h) hn hv

/-- **Empty slots have no influence** in runs in which none of the first instructions takes an
operand from them: such runs commit and store the same, whatever words are driven before the
first fetch. -/
theorem empty_slots_silent (ins ins' : ℕ → In) (n : ℕ)
    (hi : ∀ t ≤ n, AlikeIn (machine.run ins t) (ins t) (ins' t))
    (hn : ∀ t ≤ 5, ¬ TakesStale (machine.run ins t) (ins t))
    (hn' : ∀ t ≤ 5, ¬ TakesStale (machine.run ins' t) (ins' t)) :
    committed (machine.run ins n) = committed (machine.run ins' n) ∧
      stored (machine.run ins n) = stored (machine.run ins' n) ∧
      (machine.run ins n).csr = (machine.run ins' n).csr ∧
      Silent (machine.run ins n) (ins n) ∧ Silent (machine.run ins' n) (ins' n) := by
  have hall {jns : ℕ → In} (hj : ∀ t ≤ 5, ¬ TakesStale (machine.run jns t) (jns t)) (t : ℕ) :
      ¬ TakesStale (machine.run jns t) (jns t) := by
    rcases Nat.lt_or_ge 5 t with ht | ht
    · exact not_takesStale_of_settled (.inl ht)
    · exact hj t ht
  have h : Alike (machine.run ins n) (machine.run ins' n) :=
    Clocked.run_relation (alike_refl _) fun t ht h =>
      h.step (hi t ht.le) (filled_run ins t) (hall hn t) (hall hn' t)
  exact ⟨h.outputs.1, h.outputs.2, h.csr, silent_of_not_takesStale (hall hn n),
    silent_of_not_takesStale (hall hn' n)⟩

/-- The words before the first fetch, and `addi x1, x1, 1` before empty code. -/
def started (word : BitVec 32) (t : ℕ) : In :=
  { instRdata := if t < 2 then word else if t = 2 then 0x00108093 else 0x13 }

theorem alikeIn_started (word word' : BitVec 32) (t : ℕ) :
    AlikeIn (machine.run (started word) t) (started word t) (started word' t) where
  interrupt := rfl
  dataRdata _ := rfl
  instRdata h := by
    match t with
    | 0 =>
      have hs : (machine.run (started word) 0).fetch.state = .boot := rfl
      exact absurd (hs.symm.trans h) (by decide)
    | 1 =>
      have hs : (machine.run (started word) 1).fetch.state = .send := rfl
      exact absurd (hs.symm.trans h) (by decide)
    | t + 2 => rfl

/-- `NOP` words and zero words before the first fetch. -/
theorem empty_slots_silent_nop :
    committed (machine.run (started 0x13) 6) = committed (machine.run (started 0) 6) ∧
      stored (machine.run (started 0x13) 6) = stored (machine.run (started 0) 6) ∧
      (machine.run (started 0x13) 6).csr = (machine.run (started 0) 6).csr ∧
      Silent (machine.run (started 0x13) 6) (started 0x13 6) ∧
      Silent (machine.run (started 0) 6) (started 0 6) := by
  have hnop : QuietStart (started 0x13) := by
    intro t ht
    rw [started, if_pos ht]
    exact quietWord_nop
  have hzero : QuietStart (started 0) := by
    intro t ht
    rw [started, if_pos ht]
    exact fun _ => .inl (by decide)
  exact empty_slots_silent _ _ 6 (fun t _ => alikeIn_started _ _ t)
    (fun t _ => not_takesStale_of_settled (.inr hnop))
    fun t _ => not_takesStale_of_settled (.inr hzero)

/-- The word `addi x1, x0, 5` that is driven before the first fetch makes the first instruction
commit 6 instead of 1. -/
theorem not_empty_slots_silent : ¬ ∀ ins ins' : ℕ → In,
    (∀ t, (ins t).interrupt = (ins' t).interrupt ∧ (ins t).dataRdata = (ins' t).dataRdata ∧
      ((machine.run ins t).fetch.state = .receive → (ins t).instRdata = (ins' t).instRdata)) →
    ∀ n, committed (machine.run ins n) = committed (machine.run ins' n) ∧
      stored (machine.run ins n) = stored (machine.run ins' n) ∧
      (machine.run ins n).csr = (machine.run ins' n).csr ∧
      Silent (machine.run ins n) (ins n) ∧ Silent (machine.run ins' n) (ins' n) := by
  intro h
  have hc := (h (started 0x13) (started 0x00500093)
    (fun t => ⟨rfl, rfl, (alikeIn_started _ _ t).instRdata⟩) 6).1
  have h1 : (committed (machine.run (started 0x13) 6)).map (·.2.wdata) = some 1 := by
    decide +kernel
  have h6 : (committed (machine.run (started 0x00500093) 6)).map (·.2.wdata) = some 6 := by
    decide +kernel
  rw [hc, h6] at h1
  exact absurd h1 (by decide)

end Runs

end Core

end PuaCpu
