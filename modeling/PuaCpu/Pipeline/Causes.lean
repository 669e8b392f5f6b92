import PuaCpu.Reference.Agreement

/-! # The cause of an exception

Decode and the functional units add to the exception vector. At most one bit of it
is ever set, so the priorities of the CSR unit decide nothing, and an `ECALL`
carries the mode in which it traps.
-/

namespace PuaCpu.Core

/-- The exception vector that the CSR unit sees. -/
def causes (s : State) (i : In) : ExcNo → Bool :=
  (Csr.ex s.csr (Fu.csrIn s.exe i.interrupt)).exception

/-- What the exception vector says about the instruction in execute. -/
structure UniqueCause (s : State) (i : In) : Prop where
  unique : ∀ j k, causes s i j = true → causes s i k = true → j = k
  recorded : Csr.isInterrupt s.csr (Fu.csrIn s.exe i.interrupt) = false →
    ∀ k, causes s i k = true →
      Csr.trapMcause s.csr (Fu.csrIn s.exe i.interrupt) = BitVec.ofNat 64 k.val ∧
      Csr.trapMtval s.csr (Fu.csrIn s.exe i.interrupt) =
        (Csr.ex s.csr (Fu.csrIn s.exe i.interrupt)).tval k
  ecall : ExcCtrl.isEcall s.exe.info = true →
    (causes s i .ecallU = true ↔ s.csr.mode = Priv.u) ∧
      (causes s i .ecallM = true ↔ s.csr.mode = Priv.m) ∧
      (s.csr.mode = Priv.u ∨ s.csr.mode = Priv.m)

variable {s : State} {i : In} {ins : ℕ → In} {t : ℕ}

section Decode

variable {pc : Word} {info : Info} {illegal : Bool} {mode : Priv} {k : ExcNo}

/-- The first exception that decode finds. -/
def firstCause (pc : Word) (info : Info) (illegal : Bool) (mode : Priv) : Option ExcNo :=
  if pc.extractLsb' 0 2 ≠ 0#2 then some .instAddrMisaligned
  else if illegal then some .illegalInst
  else if ExcCtrl.isEbreak info then some .breakPoint
  else if ExcCtrl.isEcall info then
    if mode = Priv.u then some .ecallU else if mode = Priv.m then some .ecallM else none
  else none

theorem isEbreak_eq_false (h : info.fusel = .alu) : ExcCtrl.isEbreak info = false := by
  simp [ExcCtrl.isEbreak, h]

theorem isEcall_eq_false (h : info.fusel = .alu) : ExcCtrl.isEcall info = false := by
  simp [ExcCtrl.isEcall, h]

theorem not_isEbreak_of_isEcall (h : ExcCtrl.isEcall info = true) :
    ExcCtrl.isEbreak info = false := by
  simp only [ExcCtrl.isEcall, Bool.and_eq_true, beq_iff_eq] at h
  rw [ExcCtrl.isEbreak, h.2]
  exact Bool.and_false _

/-- A word at a misaligned address is a legal ALU instruction, and so is no illegal word a call:
decode finds no second exception. -/
theorem firstCause_of_exception
    (hp : pc.extractLsb' 0 2 ≠ 0#2 → info.fusel = .alu ∧ illegal = false)
    (hl : illegal = true → info.fusel = .alu)
    (h : ExcCtrl.exception pc info illegal mode k = true) :
    firstCause pc info illegal mode = some k := by
  unfold ExcCtrl.exception at h
  unfold firstCause
  by_cases hm : pc.extractLsb' 0 2 ≠ 0#2
  · obtain ⟨ha, hi⟩ := hp hm
    rw [isEbreak_eq_false ha, isEcall_eq_false ha, hi] at h
    rw [if_pos hm]
    split_ifs at h with h0
    · rw [h0]
    all_goals simp at h
  · rw [if_neg hm]
    by_cases hi : illegal = true
    · rw [isEbreak_eq_false (hl hi), isEcall_eq_false (hl hi)] at h
      rw [if_pos hi]
      split_ifs at h with h0 h2
      · exact absurd (bne_iff_ne.mp h) hm
      · rw [h2]
      all_goals simp at h
    · rw [if_neg hi]
      split_ifs at h with h0 h2 h3 h8 h11
      · exact absurd (bne_iff_ne.mp h) hm
      · exact absurd h hi
      · rw [if_pos h, h3]
      · obtain ⟨he, hu⟩ := (Bool.and_eq_true _ _).mp h
        rw [not_isEbreak_of_isEcall he, if_neg (by decide), if_pos he, if_pos (beq_iff_eq.mp hu),
          h8]
      · obtain ⟨he, hu⟩ := (Bool.and_eq_true _ _).mp h
        have hum : Priv.m ≠ Priv.u := by decide
        rw [not_isEbreak_of_isEcall he, if_neg (by decide), if_pos he, beq_iff_eq.mp hu,
          if_neg hum, if_pos rfl, h11]

end Decode

section Slot

theorem alu_of_misaligned (h : (machine.run ins t).dec.pc.extractLsb' 0 2 ≠ 0#2) :
    (DecodeUnit.info (machine.run ins t).dec).fusel = .alu ∧
      Decoder.instIllegal (machine.run ins t).dec.inst = false := by
  have hn : (Decoder.info Const.nop).fusel = .alu := by decide
  rw [DecodeUnit.info, dec_inst_of_misaligned (beq_eq_false_iff_ne.mpr h)]
  exact ⟨hn, by decide⟩

/-- The mode does not change while an instruction goes from decode to execute. -/
theorem exe_of_valid (hv : (machine.run ins (t + 1)).exe.info.valid = true) :
    (machine.run ins (t + 1)).exe.info = DecodeUnit.info (machine.run ins t).dec ∧
      (machine.run ins (t + 1)).exe.ex.exception =
        ExcCtrl.exception (machine.run ins t).dec.pc (DecodeUnit.info (machine.run ins t).dec)
          (Decoder.instIllegal (machine.run ins t).dec.inst)
          (machine.run ins (t + 1)).csr.mode := by
  obtain ⟨hf, -, hd, he⟩ := exe_eq_of_valid hv
  obtain ⟨ht, hr⟩ := quiet_of_not_flush hf
  have hm : (machine.run ins (t + 1)).csr.mode = (machine.run ins t).csr.mode := by
    rw [run_succ, step_csr]
    simp [Fu.csrNext, Csr.step, Csr.nextMode, ht, hr]
  refine ⟨by rw [he]; rfl, ?_⟩
  rw [he, hm]
  change (ExcCtrl.excInfo _ (DecodeUnit.info (machine.run ins t).dec) _ _ _).exception = _
  have hx : (DecodeUnit.info (machine.run ins t).dec).valid = true := hd
  rw [ExcCtrl.excInfo, if_pos hx]
  rfl

theorem exe_exception_unique (hv : (machine.run ins t).exe.info.valid = true) {j k : ExcNo}
    (hj : (machine.run ins t).exe.ex.exception j = true)
    (hk : (machine.run ins t).exe.ex.exception k = true) : j = k := by
  rcases t with _ | t
  · exact absurd hv (by simp [machine, init])
  · obtain ⟨-, he⟩ := exe_of_valid hv
    rw [he] at hj hk
    have hl : Decoder.instIllegal (machine.run ins t).dec.inst = true →
        (DecodeUnit.info (machine.run ins t).dec).fusel = .alu := Decoder.fusel_of_instIllegal
    have hc := firstCause_of_exception alu_of_misaligned hl hj
    exact Option.some_inj.mp (hc.symm.trans (firstCause_of_exception alu_of_misaligned hl hk))

end Slot

section Units

theorem lsu_ex_of_ne {e : ExceptionInfo} {info : Info} {src : SrcInfo} (h : info.fusel ≠ .lsu) :
    Lsu.ex e info src = e := by
  simp [Lsu.ex, Lsu.hasExc, h]

theorem bru_ex_of_ne {e : ExceptionInfo} {pc : Word} {info : Info} {src : SrcInfo}
    (h : info.fusel ≠ .bru) : Bru.ex e pc info src = e := by
  simp [Bru.ex, Bru.hasExc, Bru.branch, h]

theorem not_write_of_ne (h : s.exe.info.fusel ≠ .csr) :
    Csr.write (Fu.csrIn s.exe i.interrupt) = false := by
  simp [Csr.write, Csr.isCsr, Fu.csrIn, h]

theorem causes_of_plain (hl : s.exe.info.fusel ≠ .lsu) (hb : s.exe.info.fusel ≠ .bru)
    (hw : Csr.write (Fu.csrIn s.exe i.interrupt) = false) : causes s i = s.exe.ex.exception := by
  rw [causes, Csr.ex_of_not_write hw, Fu.csrIn, lsu_ex_of_ne hl, bru_ex_of_ne hb]

theorem not_write_of_call (h : ExcCtrl.isEbreak s.exe.info = true ∨
    ExcCtrl.isEcall s.exe.info = true) : Csr.write (Fu.csrIn s.exe i.interrupt) = false := by
  have hop : s.exe.info.op = CSROpType.ebreak ∨ s.exe.info.op = CSROpType.ecall := by
    simp only [ExcCtrl.isEbreak, ExcCtrl.isEcall, Bool.and_eq_true, beq_iff_eq] at h
    exact h.imp And.right And.right
  have hn : CSROpType.isCSROp s.exe.info.op = false := by
    rcases hop with hop | hop <;> (rw [hop]; decide)
  simp [Csr.write, Fu.csrIn, hn]

theorem fusel_of_call (h : ExcCtrl.isEbreak s.exe.info = true ∨
    ExcCtrl.isEcall s.exe.info = true) : s.exe.info.fusel = .csr := by
  simp only [ExcCtrl.isEbreak, ExcCtrl.isEcall, Bool.and_eq_true, decide_eq_true_eq] at h
  exact h.elim And.left And.left

theorem causes_of_call (h : ExcCtrl.isEbreak s.exe.info = true ∨
    ExcCtrl.isEcall s.exe.info = true) : causes s i = s.exe.ex.exception := by
  have hf := fusel_of_call h
  exact causes_of_plain (by rw [hf]; decide) (by rw [hf]; decide) (not_write_of_call h)

theorem causes_unique_of_empty (he : ∀ k, s.exe.ex.exception k = false) {j k : ExcNo}
    (hj : causes s i j = true) (hk : causes s i k = true) : j = k := by
  have hraise {a : ExcNo} {v : Word} {k : ExcNo}
      (h : (s.exe.ex.raise a v).exception k = true) : k = a :=
    (RvPriv.exception_raise h).resolve_right (by simp [he])
  have hnone {k : ExcNo} (h : s.exe.ex.exception k = true) : False :=
    absurd ((he k).symm.trans h) (by decide)
  by_cases hl : s.exe.info.fusel = .lsu
  · have hx : causes s i = (Lsu.ex s.exe.ex s.exe.info s.exe.srcInfo).exception := by
      rw [causes, Csr.ex_of_not_write (not_write_of_ne (by rw [hl]; decide)), Fu.csrIn,
        bru_ex_of_ne (by rw [hl]; decide)]
    rw [hx, Lsu.ex] at hj hk
    split_ifs at hj hk
    · exact (hraise hj).trans (hraise hk).symm
    · exact (hraise hj).trans (hraise hk).symm
    · exact (hnone hj).elim
  by_cases hb : s.exe.info.fusel = .bru
  · have hx : causes s i = (Bru.ex s.exe.ex s.exe.pc s.exe.info s.exe.srcInfo).exception := by
      rw [causes, Csr.ex_of_not_write (not_write_of_ne (by rw [hb]; decide)), Fu.csrIn,
        lsu_ex_of_ne hl]
    rw [hx, Bru.ex] at hj hk
    split_ifs at hj hk
    · exact (hraise hj).trans (hraise hk).symm
    · exact (hnone hj).elim
  have hx : (Fu.csrIn s.exe i.interrupt).excInfo = s.exe.ex := by
    rw [Fu.csrIn, lsu_ex_of_ne hl, bru_ex_of_ne hb]
  rw [causes, Csr.ex, hx] at hj hk
  split_ifs at hj hk
  · exact (hraise hj).trans (hraise hk).symm
  · exact (hnone hj).elim

/-- Decode has attached an exception to ALU instructions and environment calls only, to which no
unit adds. -/
theorem causes_unique (hv : (machine.run ins t).exe.info.valid = true) {j k : ExcNo}
    (hj : causes (machine.run ins t) (ins t) j = true)
    (hk : causes (machine.run ins t) (ins t) k = true) : j = k := by
  by_cases hc : ExcCtrl.isEbreak (machine.run ins t).exe.info = true ∨
      ExcCtrl.isEcall (machine.run ins t).exe.info = true
  · rw [causes_of_call hc] at hj hk
    exact exe_exception_unique hv hj hk
  by_cases ha : (machine.run ins t).exe.info.fusel = .alu
  · rw [causes_of_plain (by rw [ha]; decide) (by rw [ha]; decide)
      (not_write_of_ne (by rw [ha]; decide))] at hj hk
    exact exe_exception_unique hv hj hk
  rw [not_or, Bool.not_eq_true, Bool.not_eq_true] at hc
  have he := orR_eq_false.mp (exe_exception_eq_false hv ha hc.1 hc.2)
  exact causes_unique_of_empty he hj hk

end Units

section Ecall

theorem isolated_csr_run (ins : ℕ → In) (t : ℕ) : Csr.Isolated (machine.run ins t).csr :=
  Clocked.run_invariant (P := fun _ (s : State) => Csr.Isolated s.csr) Csr.isolated_init
    (fun _ h => Csr.isolated_step h) t

theorem causes_ecall (hv : (machine.run ins t).exe.info.valid = true)
    (h : ExcCtrl.isEcall (machine.run ins t).exe.info = true) :
    (causes (machine.run ins t) (ins t) .ecallU = true ↔ (machine.run ins t).csr.mode = Priv.u) ∧
      (causes (machine.run ins t) (ins t) .ecallM = true ↔
        (machine.run ins t).csr.mode = Priv.m) := by
  rw [causes_of_call (.inr h)]
  rcases t with _ | t
  · exact absurd hv (by simp [machine, init])
  · obtain ⟨hi, he⟩ := exe_of_valid hv
    rw [hi] at h
    have hu (mode : Priv) : ExcCtrl.exception (machine.run ins t).dec.pc
        (DecodeUnit.info (machine.run ins t).dec)
        (Decoder.instIllegal (machine.run ins t).dec.inst) mode .ecallU =
          (ExcCtrl.isEcall (DecodeUnit.info (machine.run ins t).dec) && mode == Priv.u) := rfl
    have hm (mode : Priv) : ExcCtrl.exception (machine.run ins t).dec.pc
        (DecodeUnit.info (machine.run ins t).dec)
        (Decoder.instIllegal (machine.run ins t).dec.inst) mode .ecallM =
          (ExcCtrl.isEcall (DecodeUnit.info (machine.run ins t).dec) && mode == Priv.m) := rfl
    rw [he, hu, hm, h, Bool.true_and, Bool.true_and, beq_iff_eq, beq_iff_eq]
    exact ⟨Iff.rfl, Iff.rfl⟩

end Ecall

section Recorded

theorem recorded_of_unique (hd : ∀ k, causes s i k = true → k ∈ RvPriv.dutCauses)
    (hu : ∀ j k, causes s i j = true → causes s i k = true → j = k)
    (hint : Csr.isInterrupt s.csr (Fu.csrIn s.exe i.interrupt) = false) {k : ExcNo}
    (hk : causes s i k = true) :
    Csr.trapMcause s.csr (Fu.csrIn s.exe i.interrupt) = BitVec.ofNat 64 k.val ∧
      Csr.trapMtval s.csr (Fu.csrIn s.exe i.interrupt) =
        (Csr.ex s.csr (Fu.csrIn s.exe i.interrupt)).tval k := by
  have hp : ∀ k ∈ RvPriv.dutCauses, k ∈ ExcNo.excPriority := by decide
  obtain ⟨-, hsel⟩ := priorityMux_mem (h := by decide) ⟨k, hp k (hd k hk), hk⟩
  have hno : Csr.causeNO s.csr (Fu.csrIn s.exe i.interrupt) = BitVec.ofNat 4 k.val := by
    rw [Csr.causeNO, hint, if_neg (by decide), Csr.exceptionNO]
    exact congrArg (fun k : ExcNo => BitVec.ofNat 4 k.val) (hu _ _ hsel hk)
  have hval : ∀ k : ExcNo, zeroExtend (BitVec.ofNat 4 k.val) 64 = BitVec.ofNat 64 k.val ∧
      (BitVec.ofNat 4 k.val).toFin = k := by decide
  rw [Csr.trapMcause, Csr.trapMtval, hint, if_neg (by decide), if_neg (by decide), hno]
  exact ⟨(hval k).1, congrArg _ (hval k).2⟩

end Recorded

/-- **An exception has one cause** in every cycle of every run. -/
theorem unique_cause (ins : ℕ → In) (t : ℕ)
    (hv : (machine.run ins t).exe.info.valid = true) :
    UniqueCause (machine.run ins t) (ins t) where
  unique _ _ := causes_unique hv
  recorded hi _ hk :=
    recorded_of_unique (fun _ => RvPriv.mem_dutCauses) (fun _ _ => causes_unique hv) hi hk
  ecall h :=
    ⟨(causes_ecall hv h).1, (causes_ecall hv h).2, (isolated_csr_run ins t).mode_mem⟩

/-- The misaligned load of `leakRun` has one cause. -/
theorem unique_cause_load : UniqueCause (machine.run leakRun 4) (leakRun 4) :=
  unique_cause leakRun 4 (by decide +kernel)

end PuaCpu.Core
