import PuaCpu.Pipeline.Forwarding

/-! # The shadow of a trap

The first instruction of the handler is in decode while the trapped one is in
write-back. It reads architectural registers unless it names the destination of
the trapped instruction, whose result is still offered to it.
-/

namespace PuaCpu.Core

/-- Whether the register operands of the instruction in execute are architectural. -/
def OperandsExact (ins : ℕ → In) (t : ℕ) : Prop :=
  let exe := (machine.run ins t).exe
  (exe.info.src1Ren = true →
    exe.srcInfo.src1Data = (archRegs ins t).read exe.info.src1Raddr) ∧
  (exe.info.src2Ren = true →
    exe.srcInfo.src2Data = (archRegs ins t).read exe.info.src2Raddr)

/-- Decode asks for the destination of a trapped instruction in write-back, whose result differs
from what the register holds. -/
structure Leak (s : State) : Prop where
  hasExc : s.wb.hasExc = true
  regWen : s.wb.info.regWen = true
  ne_zero : s.wb.info.regWaddr ≠ 0
  valid : s.dec.valid = true
  reads : Reads (DecodeUnit.info s.dec) s.wb.info.regWaddr
  differs : s.wb.rdInfo.wdata ≠ s.regs.read s.wb.info.regWaddr

variable {ins : ℕ → In}

section Slots

theorem two_le_of_receive {t : ℕ} (h : (machine.run ins t).fetch.state = .receive) : 2 ≤ t := by
  rcases t with _ | _ | t
  · exact absurd h (by simp [machine, init, FetchUnit.init])
  · have hs : (machine.run ins 1).fetch.state = .send := rfl
    exact absurd (hs.symm.trans h) (by decide)
  · omega

theorem receive_of_dec_valid {t : ℕ} (h : (machine.run ins (t + 1)).dec.valid = true) :
    (machine.run ins t).fetch.state = .receive := by
  rw [run_succ] at h
  cases hf : flush (machine.run ins t) (ins t)
  · cases hs : stall (machine.run ins t)
    · rw [step_dec_of_go hf hs, fetched_eq] at h
      exact of_decide_eq_true h
    · exact (filled_run ins t).receive_of_exe (valid_of_stall hs)
  · rw [step_dec_of_flush hf] at h
    exact absurd h (by decide)

theorem three_le_of_dec_valid {t : ℕ} (h : (machine.run ins t).dec.valid = true) : 3 ≤ t := by
  rcases t with _ | t
  · exact absurd h (by simp [machine, init])
  · have h2 := two_le_of_receive (receive_of_dec_valid h)
    omega

theorem exe_eq_of_valid {t : ℕ} (h : (machine.run ins (t + 1)).exe.info.valid = true) :
    flush (machine.run ins t) (ins t) = false ∧ stall (machine.run ins t) = false ∧
      (machine.run ins t).dec.valid = true ∧
      (machine.run ins (t + 1)).exe = decOut (machine.run ins t) (ins t) := by
  rw [run_succ] at h ⊢
  cases hf : flush (machine.run ins t) (ins t)
  · cases hs : stall (machine.run ins t)
    · rw [step_exe_of_go hf hs] at h ⊢
      exact ⟨rfl, rfl, h, rfl⟩
    · rw [step_exe_of_stall hs] at h
      exact absurd h (by decide)
  · rw [step_exe_of_flush hf] at h
    exact absurd h (by decide)

theorem four_le_of_exe_valid {t : ℕ} (h : (machine.run ins t).exe.info.valid = true) : 4 ≤ t := by
  rcases t with _ | t
  · exact absurd h (by simp [machine, init])
  · have hd := three_le_of_dec_valid (exe_eq_of_valid h).2.2.1
    omega

end Slots

section Shadow

variable {t : ℕ} (h : trap (machine.run ins t) (ins t) = true)

include h in
theorem exe_add_one_of_trap : (machine.run ins (t + 1)).exe = {} :=
  step_exe_of_flush (flush_of_trap h)

include h in
theorem dec_add_one_of_trap : (machine.run ins (t + 1)).dec = {} :=
  step_dec_of_flush (flush_of_trap h)

include h in
theorem exe_add_two_of_trap : (machine.run ins (t + 2)).exe.info.valid = false ∧
    (machine.run ins (t + 2)).exe.info.regWen = false := by
  rcases exe_run_cases ins (t + 1) with he | he
  · rw [he]
    exact ⟨rfl, rfl⟩
  · have hi : (machine.run ins (t + 2)).exe.info = DecodeUnit.info {} := by
      rw [he, ← dec_add_one_of_trap h]
      rfl
    rw [hi]
    exact ⟨rfl, by decide⟩

include h in
theorem forwarded_of_trap :
    forwarded (machine.run ins (t + 2)) (ins (t + 2)) =
      (machine.run ins (t + 2)).regs.write
        (FowardCtrl.pendingWrite (wbFoward (machine.run ins (t + 2)))) := by
  have hm : (machine.run ins (t + 2)).mem.info = {} := by
    change (machine.run ins (t + 1)).exe.info = {}
    rw [exe_add_one_of_trap h]
  rw [forwarded, ARegFile.write_of_not_wen (.inl (exe_add_two_of_trap h).2),
    ARegFile.write_of_not_wen (.inl (by rw [memFoward, hm]; rfl))]

include h in
theorem archRegs_of_trap : archRegs ins (t + 3) = (machine.run ins (t + 2)).regs := by
  have h0 : (result ins t).wen = false := by simp [result, h]
  have h1 : (result ins (t + 1)).wen = false := by simp [result, exe_add_one_of_trap h]
  have h2 : (result ins (t + 2)).wen = false := by simp [result, (exe_add_two_of_trap h).1]
  rw [archRegs, archRegs, archRegs, ARegFile.write_of_not_wen (.inl h2),
    ARegFile.write_of_not_wen (.inl h1), ARegFile.write_of_not_wen (.inl h0), archRegs_eq]

include h in
theorem exe_add_three_of_trap (hd : (machine.run ins (t + 2)).dec.valid = true) :
    (machine.run ins (t + 3)).exe = decOut (machine.run ins (t + 2)) (ins (t + 2)) ∧
      (machine.run ins (t + 3)).exe.info.valid = true := by
  have hv := (exe_add_two_of_trap h).1
  have hf : flush (machine.run ins (t + 2)) (ins (t + 2)) = false := not_flush_of_not_valid hv
  have hs : stall (machine.run ins (t + 2)) = false := not_stall_of_not_valid hv
  have he : (machine.run ins (t + 3)).exe = decOut (machine.run ins (t + 2)) (ins (t + 2)) :=
    step_exe_of_go hf hs
  exact ⟨he, by rw [he]; exact hd⟩

end Shadow

section Exact

theorem operandsExact_of_forwarded {t : ℕ}
    (he : (machine.run ins (t + 1)).exe = decOut (machine.run ins t) (ins t))
    (h : ∀ r, Reads (DecodeUnit.info (machine.run ins t).dec) r →
      (forwarded (machine.run ins t) (ins t)).read r = (archRegs ins (t + 1)).read r) :
    OperandsExact ins (t + 1) := by
  unfold OperandsExact
  rw [he]
  exact ⟨fun hr => (decOut_src1Data hr).trans (h _ (.inl ⟨hr, rfl⟩)),
    fun hr => (decOut_src2Data hr).trans (h _ (.inr ⟨hr, rfl⟩))⟩

theorem forwarded_of_operandsExact {t : ℕ} {r : RegAddr}
    (he : (machine.run ins (t + 1)).exe = decOut (machine.run ins t) (ins t))
    (h : OperandsExact ins (t + 1)) (hr : Reads (DecodeUnit.info (machine.run ins t).dec) r) :
    (forwarded (machine.run ins t) (ins t)).read r = (archRegs ins (t + 1)).read r := by
  unfold OperandsExact at h
  rw [he] at h
  rcases hr with ⟨hr, rfl⟩ | ⟨hr, rfl⟩
  · exact (decOut_src1Data hr).symm.trans (h.1 hr)
  · exact (decOut_src2Data hr).symm.trans (h.2 hr)

/-- Behind a trap an instruction has architectural operands unless it is in the shadow. -/
theorem operandsExact_of_not_leak {t u : ℕ} (htu : t < u)
    (ht : trap (machine.run ins t) (ins t) = true)
    (hu : (machine.run ins u).exe.info.valid = true) (hl : ∀ v, ¬ Leak (machine.run ins v)) :
    OperandsExact ins u := by
  obtain ⟨v, rfl⟩ : ∃ v, u = v + 1 := ⟨u - 1, by omega⟩
  obtain ⟨hf, hs, hd, he⟩ := exe_eq_of_valid hu
  refine operandsExact_of_forwarded he fun r hr => ?_
  cases hx : (machine.run ins v).wb.hasExc
  · refine forwarded_read (.inl ?_) hf hs hd hr hx
    -- the two cycles behind the trap hold no instruction
    have h4 := four_le_of_exe_valid (valid_of_trap ht)
    have h1 : v ≠ t := by
      rintro rfl
      rw [exe_add_one_of_trap ht] at hu
      exact absurd hu (by decide)
    have h2 : v ≠ t + 1 := by
      rintro rfl
      exact absurd hu (Bool.eq_false_iff.mp (exe_add_two_of_trap ht).1)
    omega
  · obtain ⟨w, rfl, hw⟩ := trap_of_wb_hasExc hx
    rw [forwarded_of_trap hw, archRegs_of_trap hw, ARegFile.read_write]
    split_ifs with hc
    · obtain ⟨hwen, rfl, h0⟩ := hc
      by_contra hne
      exact hl _ ⟨hx, hwen, h0, hd, hr, hne⟩
    · rfl

/-- A leak hands the suppressed result to the first handler instruction. -/
theorem not_operandsExact_of_leak {t : ℕ} (ht : trap (machine.run ins t) (ins t) = true)
    (hl : Leak (machine.run ins (t + 2))) : ¬ OperandsExact ins (t + 3) := by
  intro h
  have hr := forwarded_of_operandsExact (exe_add_three_of_trap ht hl.valid).1 h hl.reads
  rw [forwarded_of_trap ht, archRegs_of_trap ht, ARegFile.read_write,
    if_pos ⟨hl.regWen, rfl, hl.ne_zero⟩] at hr
  exact hl.differs hr

/-- **A trapped instruction is invisible to its handler exactly in the runs without a leak.** -/
theorem trapped_result_hidden (ins : ℕ → In) :
    (∀ t u, t < u → trap (machine.run ins t) (ins t) = true →
      (machine.run ins u).exe.info.valid = true → OperandsExact ins u) ↔
      ∀ t, ¬ Leak (machine.run ins t) := by
  constructor
  · intro h t hl
    obtain ⟨v, rfl, ht⟩ := trap_of_wb_hasExc hl.hasExc
    exact not_operandsExact_of_leak ht hl
      (h v (v + 3) (by omega) ht (exe_add_three_of_trap ht hl.valid).2)
  · exact fun hl t u htu ht hu => operandsExact_of_not_leak htu ht hu hl

end Exact

section Example

/-- `lw x1, 1(x0)` at the reset vector, and `addi x2, x1, 0` at the trap vector. -/
def leakProgram (a : SramAddr) : BitVec 32 :=
  if a = 0x80000000 then 0x00102083 else if a = 0 then 0x00008113 else 0x13

/-- The run of this program on a data memory of one repeated doubleword. -/
def leakRun : ℕ → In := stimulus leakProgram (fun _ => 0x1122334455667788) fun _ => {}

/-- The misaligned load traps, and the first handler instruction still receives the loaded word:
it reads `0x44556677` from `x1`, which holds 0. -/
theorem leaked_load :
    trap (machine.run leakRun 4) (leakRun 4) = true ∧
    (machine.run leakRun 7).exe.info.valid = true ∧
    (machine.run leakRun 7).exe.info.src1Ren = true ∧
    (machine.run leakRun 7).exe.srcInfo.src1Data = 0x44556677 ∧
    (archRegs leakRun 7).read (machine.run leakRun 7).exe.info.src1Raddr = 0 ∧
    ¬ (∀ t u, t < u → trap (machine.run leakRun t) (leakRun t) = true →
      (machine.run leakRun u).exe.info.valid = true → OperandsExact leakRun u) := by
  have ht : trap (machine.run leakRun 4) (leakRun 4) = true := by decide +kernel
  have hv : (machine.run leakRun 7).exe.info.valid = true := by decide +kernel
  have hr : (machine.run leakRun 7).exe.info.src1Ren = true := by decide +kernel
  have hs : (machine.run leakRun 7).exe.srcInfo.src1Data = 0x44556677 := by decide +kernel
  have ha : (archRegs leakRun 7).read (machine.run leakRun 7).exe.info.src1Raddr = 0 := by
    decide +kernel
  refine ⟨ht, hv, hr, hs, ha, fun h => ?_⟩
  have he := (h 4 7 (by decide) ht hv).1 hr
  rw [hs, ha] at he
  exact absurd he (by decide)

end Example

end PuaCpu.Core
