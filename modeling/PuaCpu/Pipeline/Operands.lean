import PuaCpu.Core.Flow
import PuaCpu.Decode.Table

/-! # The operands of an instruction

Forwarding from three stages reads the register file as it will be once the
three pending results are written. The network looks at the destination
registers only, so this needs that an empty slot names none and that the value
taken from a stage is the one it writes back.
-/

namespace PuaCpu

namespace ARegFile

@[simp] theorem read_zero (regs : ARegFile) : regs.read 0#5 = 0 := if_pos rfl

theorem read_write (regs : ARegFile) (w : RegWrite) (r : RegAddr) :
    (regs.write w).read r = if w.wen = true ∧ w.waddr = r ∧ r ≠ 0 then w.wdata
      else regs.read r := by
  by_cases h0 : r = 0
  · simp [h0]
  · by_cases hw : w.wen = true ∧ w.waddr = r
    · obtain ⟨hw, rfl⟩ := hw
      rw [if_pos ⟨hw, rfl, h0⟩, read, if_neg h0, write, if_pos (by simpa [hw] using h0),
        Function.update_self]
    · have hn : ¬(w.wen = true ∧ w.waddr = r ∧ r ≠ 0) := fun h => hw ⟨h.1, h.2.1⟩
      rw [if_neg hn, read, read, if_neg h0, if_neg h0, write]
      split_ifs with h
      · simp only [Bool.and_eq_true] at h
        exact Function.update_of_ne (fun he => hw ⟨h.1, he.symm⟩) _ _
      · rfl

theorem write_of_not_wen {regs : ARegFile} {w : RegWrite} (h : w.wen = false ∨ w.waddr = 0) :
    regs.write w = regs := by
  rcases h with h | h <;> simp [write, h]

theorem read_write_wen (regs : ARegFile) (r : RegAddr) (v : Word) : (regs.write ⟨true, r, v⟩).read =
    if r ≠ 0 then Function.update regs.read r v else regs.read := by
  funext q
  rw [read_write]
  by_cases h0 : r = 0
  · subst h0
    rw [if_neg (fun h => h.2.2 h.2.1.symm), if_neg (not_not_intro rfl)]
  · rw [if_pos h0]
    by_cases hq : r = q
    · subst hq
      rw [if_pos ⟨rfl, rfl, h0⟩, Function.update_self]
    · rw [if_neg (fun h => hq h.2.1), Function.update_of_ne (Ne.symm hq)]

theorem read_write_congr {regs regs' : ARegFile} {w w' : RegWrite} {r : RegAddr}
    (h : regs.read r = regs'.read r) (ha : w.waddr = w'.waddr)
    (hw : w.waddr = r → r ≠ 0 → w.wen = w'.wen ∧ (w.wen = true → w.wdata = w'.wdata)) :
    (regs.write w).read r = (regs'.write w').read r := by
  rw [read_write, read_write, ← ha]
  by_cases hr : w.waddr = r ∧ r ≠ 0
  · obtain ⟨hwen, hdata⟩ := hw hr.1 hr.2
    rw [← hwen]
    by_cases he : w.wen = true
    · rw [if_pos ⟨he, hr⟩, if_pos ⟨he, hr⟩, hdata he]
    · rw [if_neg fun hc => he hc.1, if_neg fun hc => he hc.1, h]
  · rw [if_neg fun hc => hr hc.2, if_neg fun hc => hr hc.2, h]

end ARegFile

namespace FowardCtrl

/-- The write that a stage seems to have pending. -/
def pendingWrite (f : FowardSrc) : RegWrite := ⟨f.regWen, f.regWaddr, f.wdata⟩

/-- **The forwarding law.** A forwarded operand is the register after the pending writes, the
oldest first. -/
theorem srcOut_eq_read (regs : ARegFile) (r : RegAddr) (ex me wb : FowardSrc) :
    srcOut true r (regs.read r) ex me wb =
      (((regs.write (pendingWrite wb)).write (pendingWrite me)).write
        (pendingWrite ex)).read r := by
  have hit_iff (f : FowardSrc) (h0 : r ≠ 0) : hit r f = true ↔
      (pendingWrite f).wen = true ∧ (pendingWrite f).waddr = r ∧ r ≠ 0 := by
    simp only [hit, pendingWrite, Bool.and_eq_true, beq_iff_eq]
    exact ⟨fun ⟨ha, hw⟩ => ⟨hw, ha.symm, h0⟩, fun ⟨hw, ha, _⟩ => ⟨ha.symm, hw⟩⟩
  by_cases h0 : r = 0
  · simp [srcOut, h0]
  · simp only [srcOut, if_true, h0, if_false, ARegFile.read_write, hit_iff _ h0]
    rfl

end FowardCtrl

namespace Decoder

theorem lookup_induction {P : DecodeEntry → Prop} (hd : P Instructions.decodeDefault)
    (ht : ∀ m ∈ Instructions.decodeTable, P m.2) (inst : Word) : P (lookup inst) := by
  rcases hits_or inst with ⟨m, hm, -, hl⟩ | ⟨-, hl⟩
  · rw [hl]
    exact ht m hm
  · rw [hl]
    exact hd

/-- Whether the memory accesses that write a register are loads. -/
def loadsOnly (e : DecodeEntry) : Bool :=
  !(e.fuType = .lsu && e.instrType.isRegWen) || LSUOpType.isLoad e.fuOpType

theorem isLoad_of_regWen {inst : Word} (hw : (info inst).regWen = true)
    (hf : (info inst).fusel = .lsu) : LSUOpType.isLoad (info inst).op = true := by
  have h : loadsOnly (lookup inst) = true :=
    lookup_induction (P := fun e => loadsOnly e = true) (by decide) (by decide) inst
  simp only [info] at hw hf
  simpa [loadsOnly, hw, hf, info] using h

end Decoder

namespace Core

/-- An empty slot names no register that a result could be forwarded to. -/
def Quiet (info : Info) : Prop :=
  info.valid = false → info.regWen = false ∨ info.regWaddr = 0

/-- Whether an instruction reads a register. -/
def Reads (info : Info) (r : RegAddr) : Prop :=
  (info.src1Ren = true ∧ info.src1Raddr = r) ∨ (info.src2Ren = true ∧ info.src2Raddr = r)

/-- The results that the forwarding network sees in the three stages. -/
def exeFoward (s : State) (i : In) : FowardSrc :=
  ⟨s.exe.info.regWen, s.exe.info.regWaddr, (exeOut s i).rdInfo.wdata⟩

def memFoward (s : State) (i : In) : FowardSrc :=
  ⟨s.mem.info.regWen, s.mem.info.regWaddr, (memOut s i).rdInfo.wdata⟩

def wbFoward (s : State) : FowardSrc :=
  ⟨s.wb.info.regWen, s.wb.info.regWaddr, s.wb.rdInfo.wdata⟩

/-- The register file with the results that the network sees written to it. -/
def forwarded (s : State) (i : In) : ARegFile :=
  ((s.regs.write (FowardCtrl.pendingWrite (wbFoward s))).write
    (FowardCtrl.pendingWrite (memFoward s i))).write (FowardCtrl.pendingWrite (exeFoward s i))

variable {s : State} {i : In} {ins : ℕ → In}

theorem decOut_src1Data (h : (DecodeUnit.info s.dec).src1Ren = true) :
    (decOut s i).srcInfo.src1Data =
      (forwarded s i).read (DecodeUnit.info s.dec).src1Raddr := by
  rw [forwarded, ← FowardCtrl.srcOut_eq_read]
  change FowardCtrl.srcOut (DecodeUnit.info s.dec).src1Ren _
    (DecodeUnit.src1Data s.regs s.dec.pc (DecodeUnit.info s.dec)) _ _ _ = _
  rw [DecodeUnit.src1Data, h, if_pos rfl]
  rfl

theorem decOut_src2Data (h : (DecodeUnit.info s.dec).src2Ren = true) :
    (decOut s i).srcInfo.src2Data =
      (forwarded s i).read (DecodeUnit.info s.dec).src2Raddr := by
  rw [forwarded, ← FowardCtrl.srcOut_eq_read]
  change FowardCtrl.srcOut (DecodeUnit.info s.dec).src2Ren _
    (DecodeUnit.src2Data s.regs (DecodeUnit.info s.dec)) _ _ _ = _
  rw [DecodeUnit.src2Data, h, if_pos rfl]
  rfl

section Quiet

theorem quiet_empty : Quiet (DecodeUnit.info {}) := fun _ => .inl (by decide)

/-- A word whose slot, if it is empty, names no register. -/
def QuietWord (inst : Word) : Prop := Quiet (Decoder.info inst)

theorem quiet_of_quietWord {d : IfIdData} (h : QuietWord d.inst) : Quiet (DecodeUnit.info d) :=
  fun _ => h rfl

theorem quietWord_nop : QuietWord Const.nop := fun _ => .inr (by decide)

/-- Once fetch receives words, decode holds an instruction or nothing. -/
theorem quiet_dec_step (h : Filled s)
    (hw : s.fetch.state = .receive ∨ QuietWord (i.instRdata.setWidth 64)) :
    Quiet (DecodeUnit.info (step s i).dec) := by
  cases hf : flush s i
  · cases hs : stall s
    · rw [step_dec_of_go hf hs]
      rcases hw with hw | hw
      · intro hv
        have hr : decide (s.fetch.state = .receive) = false := hv
        exact absurd hw (of_decide_eq_false hr)
      · refine quiet_of_quietWord (d := fetched s i) ?_
        rw [fetched_eq]
        dsimp only
        split_ifs
        · exact hw
        · exact quietWord_nop
    · rw [step_dec_of_stall hf hs]
      intro hv
      exact absurd (h.exe_dec (valid_of_stall hs)) (Bool.eq_false_iff.mp hv)
  · rw [step_dec_of_flush hf]
    exact quiet_empty

theorem quiet_exe_step (h : Quiet (DecodeUnit.info s.dec)) : Quiet (step s i).exe.info := by
  cases hf : flush s i
  · cases hs : stall s
    · rw [step_exe_of_go hf hs]
      exact h
    · rw [step_exe_of_stall hs]
      exact fun _ => .inl rfl
  · rw [step_exe_of_flush hf]
    exact fun _ => .inl rfl

/-- Whether the words that the SRAM drives before the first fetch name no register. -/
def QuietStart (ins : ℕ → In) : Prop := ∀ t < 2, QuietWord ((ins t).instRdata.setWidth 64)

/-- In cycle `t` the words of the first two cycles are `k` stages behind or write nothing. -/
def Settled (ins : ℕ → In) (t k : ℕ) : Prop := 2 + k < t ∨ QuietStart ins

theorem quiet_dec_run {t : ℕ} (h : Settled ins t 0) :
    Quiet (DecodeUnit.info (machine.run ins t).dec) := by
  rcases t with _ | t
  · exact quiet_empty
  · apply quiet_dec_step (filled_run ins t)
    match t with
    | 0 => exact .inr (h.resolve_left (by omega) 0 (by omega))
    | 1 => exact .inr (h.resolve_left (by omega) 1 (by omega))
    | t + 2 => exact .inl (fetch_state_run t)

theorem quiet_exe_run {t : ℕ} (h : Settled ins t 1) : Quiet (machine.run ins t).exe.info := by
  rcases t with _ | t
  · exact fun _ => .inl rfl
  · exact quiet_exe_step (quiet_dec_run (h.imp_left fun h => by omega))

theorem quiet_mem_run {t : ℕ} (h : Settled ins t 2) : Quiet (machine.run ins t).mem.info := by
  rcases t with _ | t
  · exact fun _ => .inl rfl
  · exact quiet_exe_run (h.imp_left fun h => by omega)

theorem quiet_wb_run {t : ℕ} (h : Settled ins t 3) : Quiet (machine.run ins t).wb.info := by
  rcases t with _ | t
  · exact fun _ => .inl rfl
  · exact quiet_mem_run (h.imp_left fun h => by omega)

end Quiet

section Slots

theorem exe_run_cases (ins : ℕ → In) (t : ℕ) :
    (machine.run ins (t + 1)).exe = {} ∨
      (machine.run ins (t + 1)).exe = decOut (machine.run ins t) (ins t) := by
  cases hf : flush (machine.run ins t) (ins t)
  · cases hs : stall (machine.run ins t)
    · exact .inr (step_exe_of_go hf hs)
    · exact .inl (step_exe_of_stall hs)
  · exact .inl (step_exe_of_flush hf)

theorem exe_isLoad_run {t : ℕ} (hw : (machine.run ins t).exe.info.regWen = true)
    (hf : (machine.run ins t).exe.info.fusel = .lsu) :
    LSUOpType.isLoad (machine.run ins t).exe.info.op = true := by
  rcases t with _ | t
  · exact absurd hw (by simp [machine, init])
  · rcases exe_run_cases ins t with he | he <;> rw [he] at hw hf ⊢
    · exact absurd hw (by decide)
    · exact Decoder.isLoad_of_regWen hw hf

theorem exe_ex_run {t : ℕ} (hv : (machine.run ins t).exe.info.valid = false) :
    (machine.run ins t).exe.ex = {} := by
  rcases t with _ | t
  · rfl
  · rcases exe_run_cases ins t with he | he <;> rw [he] at hv ⊢
    exact if_neg (Bool.eq_false_iff.mp hv)

end Slots

end Core

end PuaCpu
