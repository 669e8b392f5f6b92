import PuaCpu.Core.Sram

/-! # In-order commit

The `pc` of the oldest instruction that has not left execute follows the
instructions that did: it is the redirect target of the last one, or the address
after it. No slot is lost, duplicated or fetched from another path.
-/

namespace PuaCpu.Core

/-- The word that fetch hands to decode for a `pc`. -/
def fetchWord (imem : SramAddr → BitVec 32) (pc : Word) : Word :=
  if FetchUnit.isAlign pc then (imem (pc.extractLsb' 0 32)).setWidth 64 else Const.nop

/-- The `pc` after the instruction in execute. -/
def nextPc (s : State) (i : In) : Word :=
  if flush s i then low32 (target s i) else low32 (s.exe.pc + 4)

/-- The `pc` of the oldest instruction in execute, decode or fetch. -/
def oldestPc (s : State) : Word :=
  if s.exe.info.valid then s.exe.pc
  else if s.dec.valid then s.dec.pc
  else if s.fetch.state = .receive then s.fetch.pc
  else Const.pcInit

section Address

theorem low32_low32 (pc : Word) : low32 (low32 pc) = low32 pc := by
  unfold low32
  apply BitVec.eq_of_getLsbD_eq
  intro j hj
  simp only [BitVec.getLsbD_setWidth, BitVec.getLsbD_extractLsb']
  by_cases h : j < 32 <;> simp [h, hj]

theorem extract_low32 (pc : Word) : (low32 pc).extractLsb' 0 32 = pc.extractLsb' 0 32 := by
  unfold low32
  apply BitVec.eq_of_getLsbD_eq
  intro j hj
  simp [hj, show j < 64 by omega]

theorem isAlign_low32 (pc : Word) : FetchUnit.isAlign (low32 pc) = FetchUnit.isAlign pc := by
  have h : (low32 pc).extractLsb' 0 2 = pc.extractLsb' 0 2 := by
    unfold low32
    apply BitVec.eq_of_getLsbD_eq
    intro j hj
    simp [hj, show j < 64 by omega, show j < 32 by omega]
  rw [FetchUnit.isAlign, h, FetchUnit.isAlign]

theorem isAlign_add_four (pc : Word) : FetchUnit.isAlign (pc + 4) = FetchUnit.isAlign pc := by
  have h : (pc + 4).extractLsb' 0 2 = pc.extractLsb' 0 2 := by
    apply BitVec.eq_of_toNat_eq
    simp only [BitVec.extractLsb'_toNat, BitVec.toNat_add, Nat.shiftRight_zero,
      BitVec.reduceToNat]
    omega
  rw [FetchUnit.isAlign, h, FetchUnit.isAlign]

end Address

/-- The invariant of the front of the pipeline, for the word that the SRAM drives. -/
structure InOrder (imem : SramAddr → BitVec 32) (rdata : BitVec 32) (s : State) : Prop
    extends Filled s where
  low : low32 s.fetch.pc = s.fetch.pc
  idle : s.fetch.state ≠ .receive → s.fetch.pc = Const.pcInit - 4
  word : s.fetch.state = .receive → FetchUnit.isAlign s.fetch.pc = true →
    rdata = imem (s.fetch.pc.extractLsb' 0 32)
  dec_next : s.dec.valid = true → s.fetch.pc = low32 (s.dec.pc + 4)
  dec_inst : s.dec.valid = true → s.dec.inst = fetchWord imem s.dec.pc
  exe_next : s.exe.info.valid = true → s.dec.pc = low32 (s.exe.pc + 4)
  exe_info : s.exe.info.valid = true →
    s.exe.info = { Decoder.info (fetchWord imem s.exe.pc) with valid := true }

variable {imem : SramAddr → BitVec 32} {rdata : BitVec 32} {s : State} {i : In} {ins : ℕ → In}

theorem inOrder_init : InOrder imem rdata init where
  toFilled := filled_init
  low := by decide
  idle _ := rfl
  word h := absurd h (by decide)
  dec_next h := absurd h (by decide)
  dec_inst h := absurd h (by decide)
  exe_next h := absurd h (by decide)
  exe_info h := absurd h (by decide)

/-- The word that the SRAM drives in the cycle after a request. -/
def NextWord (imem : SramAddr → BitVec 32) (rdata : BitVec 32) (s : State) (i : In) : Prop :=
  (step s i).fetch.state = .receive → (instSram s i).en = true →
    rdata = imem (instSram s i).addr

theorem step_fetch_pc_of_receive (hv : s.fetch.state = .receive) :
    (step s i).fetch.pc = low32 (fetchNext s i) := by
  rw [step_fetch_pc, if_neg (by simp [hv])]

theorem word_step (hr : NextWord imem rdata s i) (hv : (step s i).fetch.state = .receive)
    (ha : FetchUnit.isAlign (step s i).fetch.pc = true) :
    rdata = imem ((step s i).fetch.pc.extractLsb' 0 32) := by
  have hb : s.fetch.state ≠ .boot := by
    intro hb
    rw [step_fetch_state, hb] at hv
    exact absurd hv (by decide)
  rw [step_fetch_pc, if_neg hb] at ha ⊢
  rw [isAlign_low32] at ha
  rw [hr hv (by rw [instSram_en, ha]), instSram_addr, extract_low32]

namespace InOrder

theorem fetched_inst (h : InOrder imem i.instRdata s) (hf : flush s i = false)
    (hs : stall s = false) (hv : s.fetch.state = .receive) :
    (fetched s i).inst = fetchWord imem s.fetch.pc := by
  have hn : fetchNext s i = s.fetch.pc + 4 := by simp [fetchNext, hf, hs]
  rw [fetched_eq, hn, isAlign_add_four, fetchWord]
  split_ifs with ha
  · rw [h.word hv ha]
  · rfl

theorem step_of_flush (h : InOrder imem i.instRdata s) (hr : NextWord imem rdata s i)
    (hf : flush s i = true) : InOrder imem rdata (step s i) := by
  have hv := h.receive_of_exe (valid_of_flush hf)
  have hx := step_exe_of_flush hf
  have hd := step_dec_of_flush hf
  have hs : (step s i).fetch.state = .receive := step_fetch_state_of_receive hv
  refine ⟨h.toFilled.step, ?_, fun hn => absurd hs hn, word_step hr, ?_, ?_, ?_, ?_⟩
  · rw [step_fetch_pc_of_receive hv, low32_low32]
  all_goals intro hn; simp [hx, hd] at hn

theorem step_of_stall (h : InOrder imem i.instRdata s) (hr : NextWord imem rdata s i)
    (hf : flush s i = false) (hs : stall s = true) : InOrder imem rdata (step s i) := by
  have he := valid_of_stall hs
  have hv := h.receive_of_exe he
  have hx : (step s i).exe = {} := step_exe_of_stall hs
  have hd := step_dec_of_stall hf hs
  have hp : (step s i).fetch.pc = s.fetch.pc := by
    rw [step_fetch_pc_of_receive hv, fetchNext, if_neg (by simp [hf]), if_pos hs, h.low]
  have hst : (step s i).fetch.state = .receive := step_fetch_state_of_receive hv
  refine ⟨h.toFilled.step, by rw [hp, h.low], fun hn => absurd hst hn, word_step hr, ?_, ?_, ?_,
    ?_⟩
  · rw [hd, hp]
    exact h.dec_next
  · rw [hd]
    exact h.dec_inst
  all_goals intro hn; simp [hx] at hn

theorem step_of_go (h : InOrder imem i.instRdata s) (hr : NextWord imem rdata s i)
    (hf : flush s i = false) (hs : stall s = false) : InOrder imem rdata (step s i) := by
  have hx := step_exe_of_go (i := i) hf hs
  have hd := step_dec_of_go (i := i) hf hs
  have hn : fetchNext s i = s.fetch.pc + 4 := by simp [fetchNext, hf, hs]
  have hvalid : (step s i).dec.valid = true → s.fetch.state = .receive := by
    rw [hd, fetched_eq]
    simp
  have hdpc : (step s i).dec.pc = s.fetch.pc := by rw [hd, fetched_eq]
  have hpc : s.fetch.state = .receive → (step s i).fetch.pc = low32 (s.fetch.pc + 4) := by
    intro hv
    rw [step_fetch_pc_of_receive hv, hn]
  have hxv : (step s i).exe.info.valid = s.dec.valid := by rw [hx]; rfl
  have hxpc : (step s i).exe.pc = s.dec.pc := by rw [hx]; rfl
  refine ⟨h.toFilled.step, ?_, ?_, word_step hr, ?_, ?_, ?_, ?_⟩
  · rw [step_fetch_pc]
    split_ifs
    · exact h.low
    · rw [low32_low32]
  · intro hne
    rw [step_fetch_pc]
    cases hb : s.fetch.state with
    | boot => exact h.idle (by simp [hb])
    | send => exact absurd (by rw [step_fetch_state, hb]; rfl) hne
    | receive => exact absurd (step_fetch_state_of_receive hb) hne
  · intro hv
    rw [hpc (hvalid hv), hdpc]
  · intro hv
    rw [hdpc, hd]
    exact h.fetched_inst hf hs (hvalid hv)
  · intro hv
    rw [hxv] at hv
    rw [hdpc, hxpc, h.dec_next hv]
  · intro hv
    rw [hxv] at hv
    rw [hxpc, ← h.dec_inst hv, hx]
    change { Decoder.info s.dec.inst with valid := s.dec.valid } = _
    rw [hv]

theorem step (h : InOrder imem i.instRdata s) (hr : NextWord imem rdata s i) :
    InOrder imem rdata (step s i) := by
  cases hf : flush s i
  · cases hs : stall s
    · exact h.step_of_go hr hf hs
    · exact h.step_of_stall hr hf hs
  · exact h.step_of_flush hr hf

/-- One cycle of the oldest `pc`: it moves exactly when an instruction leaves execute. -/
theorem oldestPc_step (h : InOrder imem i.instRdata s) :
    oldestPc (Core.step s i) = if s.exe.info.valid then nextPc s i else oldestPc s := by
  cases hf : flush s i
  · cases hs : stall s
    · have hx := step_exe_of_go (i := i) hf hs
      have hd := step_dec_of_go (i := i) hf hs
      have hxv : (Core.step s i).exe.info.valid = s.dec.valid := by rw [hx]; rfl
      have hxpc : (Core.step s i).exe.pc = s.dec.pc := by rw [hx]; rfl
      cases hdv : s.dec.valid
      · have hev : s.exe.info.valid = false := by
          by_contra hne
          rw [h.exe_dec (by simpa using hne)] at hdv
          exact absurd hdv (by decide)
        rw [oldestPc, oldestPc, hxv, hdv, hev, hd, fetched_eq, step_fetch_state, step_fetch_pc]
        -- the first three cycles after reset
        cases hb : s.fetch.state with
        | boot => simp [FetchUnit.Phase.next]
        | send =>
          have hp := h.idle (by simp [hb])
          simp [FetchUnit.Phase.next, fetchNext, hf, hs, hp, low32, Const.pcInit]
        | receive => simp
      · rw [oldestPc, oldestPc, hxv, hdv, hxpc, nextPc, hf]
        cases hev : s.exe.info.valid
        · simp
        · simp [h.exe_next hev]
    · have he := valid_of_stall hs
      rw [oldestPc, nextPc, step_exe_of_stall hs, step_dec_of_stall hf hs, h.exe_dec he,
        ← h.exe_next he, hf, he]
      simp
  · have he := valid_of_flush hf
    have hv := h.receive_of_exe he
    rw [oldestPc, nextPc, step_exe_of_flush hf, step_dec_of_flush hf, step_fetch_state, hv,
      step_fetch_pc_of_receive hv, fetchNext, hf, he]
    simp [FetchUnit.Phase.next]

end InOrder

section Run

/-- The `pc` and the word of the instruction in execute. -/
def issue (s : State) (_ : In) : Option (Word × Word) :=
  if s.exe.info.valid then some (s.exe.pc, s.exe.info.inst) else none

/-- The `pc` and the word of the instruction that write-back commits. -/
def commit (s : State) (_ : In) : Option (Word × Word) :=
  if (debug s).commit then some ((debug s).pc, s.wb.info.inst) else none

/-- The `pc` that the instructions executed before a cycle lead to. -/
def path (ins : ℕ → In) : ℕ → Word
  | 0 => Const.pcInit
  | t + 1 => if (machine.run ins t).exe.info.valid then nextPc (machine.run ins t) (ins t)
    else path ins t

theorem commit_add_two (t : ℕ) :
    commit (machine.run ins (t + 2)) (ins (t + 2)) = issue (machine.run ins t) (ins t) := rfl

theorem exists_add_two_of_commit {t : ℕ} {a : Word × Word}
    (hc : commit (machine.run ins t) (ins t) = some a) : ∃ v, t = v + 2 := by
  match t with
  | 0 => exact absurd hc (by simp [commit, debug, WriteBackUnit.debug, machine, init])
  | 1 => exact absurd hc (by simp [commit, debug, WriteBackUnit.debug, wb_one])
  | v + 2 => exact ⟨v, rfl⟩

theorem log_commit (n : ℕ) : machine.log commit ins (n + 2) = machine.log issue ins n := by
  induction n with
  | zero => rfl
  | succ n ih => rw [Clocked.log_succ, ih, commit_add_two, Clocked.log_succ]

variable (h : InstSync imem ins)

include h in
theorem inOrder_run (t : ℕ) : InOrder imem (ins t).instRdata (machine.run ins t) := by
  induction t with
  | zero => exact inOrder_init
  | succ t ih =>
    refine ih.step fun hv he => h t ?_ he
    -- the boot cycle leads to the second phase only
    by_contra ht
    obtain rfl : t = 0 := by omega
    have hs : (step (machine.run ins 0) (ins 0)).fetch.state = .send := rfl
    exact absurd (hs.symm.trans hv) (by decide)

include h in
theorem oldestPc_run (t : ℕ) : oldestPc (machine.run ins t) = path ins t := by
  induction t with
  | zero => rfl
  | succ t ih => rw [Clocked.run_succ, path, ← ih]; exact (inOrder_run h t).oldestPc_step

include h in
theorem exe_pc_run {t : ℕ} (hv : (machine.run ins t).exe.info.valid = true) :
    (machine.run ins t).exe.pc = path ins t := by
  rw [← oldestPc_run h, oldestPc, hv, if_pos rfl]

theorem path_of_bubbles {t u : ℕ} (htu : t ≤ u)
    (hb : ∀ v, t ≤ v → v < u → (machine.run ins v).exe.info.valid = false) :
    path ins u = path ins t := by
  induction u, htu using Nat.le_induction with
  | base => rfl
  | succ u hu ih =>
    rw [path, hb u hu (by omega), if_neg (by decide)]
    exact ih fun v h₁ h₂ => hb v h₁ (by omega)

theorem path_succ_of_valid {t : ℕ} (hv : (machine.run ins t).exe.info.valid = true) :
    path ins (t + 1) = nextPc (machine.run ins t) (ins t) := by
  rw [path, hv, if_pos rfl]

theorem issue_eq_some_iff {s : State} {i : In} {a : Word × Word} :
    issue s i = some a ↔ s.exe.info.valid = true ∧ a = (s.exe.pc, s.exe.info.inst) := by
  unfold issue
  split_ifs with hv <;> simp [hv, eq_comm]

theorem issue_eq_none_iff {s : State} {i : In} :
    issue s i = none ↔ s.exe.info.valid = false := by
  unfold issue
  split_ifs with hv <;> simp [hv]

/-- **In-order, exactly-once commit.** The instructions that commit are those that pass through
execute, in the same order and two cycles later; each one lies on the path of the program, follows
its predecessor at the redirect target or at the next address, and carries the word of the
instruction memory at its `pc`. -/
theorem in_order_commit (h : InstSync imem ins) :
    (∀ n, machine.log commit ins (n + 2) = machine.log issue ins n) ∧
    (∀ t, commit (machine.run ins (t + 2)) (ins (t + 2)) = issue (machine.run ins t) (ins t)) ∧
    (∀ t a, commit (machine.run ins t) (ins t) = some a → 2 ≤ t ∧ a.2 = fetchWord imem a.1) ∧
    (∀ t a, issue (machine.run ins t) (ins t) = some a → a.1 = path ins t) ∧
    (∀ t u a b, t < u → commit (machine.run ins (t + 2)) (ins (t + 2)) = some a →
      commit (machine.run ins (u + 2)) (ins (u + 2)) = some b →
      (∀ v, t < v → v < u → commit (machine.run ins (v + 2)) (ins (v + 2)) = none) →
      b.1 = if flush (machine.run ins t) (ins t) then low32 (target (machine.run ins t) (ins t))
        else low32 (a.1 + 4)) := by
  refine ⟨log_commit, commit_add_two, fun t a hc => ?_, fun t a hi => ?_,
    fun t u a b htu ha hb hn => ?_⟩
  · obtain ⟨v, rfl⟩ := exists_add_two_of_commit hc
    rw [commit_add_two, issue_eq_some_iff] at hc
    obtain ⟨hv, rfl⟩ := hc
    refine ⟨by omega, ?_⟩
    rw [(inOrder_run h v).exe_info hv]
    rfl
  · obtain ⟨hv, rfl⟩ := issue_eq_some_iff.mp hi
    exact exe_pc_run h hv
  · simp only [commit_add_two, issue_eq_some_iff, issue_eq_none_iff] at ha hb hn
    obtain ⟨hv, rfl⟩ := ha
    obtain ⟨hu, rfl⟩ := hb
    calc (machine.run ins u).exe.pc = path ins u := exe_pc_run h hu
      _ = path ins (t + 1) := path_of_bubbles htu hn
      _ = nextPc (machine.run ins t) (ins t) := path_succ_of_valid hv

/-- A loop of one jump, run by the harness with the external line high. -/
def jumpRun : ℕ → In := stimulus (fun _ => 0x6f) 0 fun _ => { mei := true }

theorem in_order_commit_loop : (machine.run jumpRun 4).exe.pc = Const.pcInit := by
  have hi : InstSync (fun _ => 0x6f) jumpRun := instSync_stimulus
  have hp := (in_order_commit hi).2.2.2.1 4 _ (issue_eq_some_iff.mpr ⟨by decide +kernel, rfl⟩)
  exact hp.trans (by decide +kernel)

end Run

end PuaCpu.Core
