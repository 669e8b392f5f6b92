import PuaCpu.Clocked.Machine
import PuaCpu.Core.Basic

/-! # Flow through the pipeline

What one clock cycle does to each pipeline register. The registers before
decode and execute hold, empty or advance; those before memory and write-back
always advance, so a slot that is in execute is in write-back two cycles later.
-/

namespace PuaCpu.Core

/-- The core as a synchronous machine. -/
def machine : Clocked State In := ⟨init, step⟩

/-- The load-use stall. -/
def stall (s : State) : Bool := CtrlUnit.exeConflict (DecodeUnit.info s.dec) s.exe.info

variable {s : State} {i : In} {ins : ℕ → In}

theorem run_succ (t : ℕ) :
    machine.run ins (t + 1) = step (machine.run ins t) (ins t) := rfl

theorem step_fetch_state : (step s i).fetch.state = s.fetch.state.next := rfl

theorem step_csr : (step s i).csr = Fu.csrNext s.csr s.exe i.interrupt := rfl

theorem step_wb : (step s i).wb = memOut s i := rfl

section Front

theorem step_exe_of_flush (h : flush s i = true) : (step s i).exe = {} := by
  change ExecuteStage.step (decOut s i) ⟨!stall s, flush s i⟩ = {}
  simp [ExecuteStage.step, h]

theorem step_exe_of_stall (h : stall s = true) : (step s i).exe = {} := by
  change ExecuteStage.step (decOut s i) ⟨!stall s, flush s i⟩ = {}
  simp [ExecuteStage.step, h]

theorem step_exe_of_go (hf : flush s i = false) (hs : stall s = false) :
    (step s i).exe = decOut s i := by
  change ExecuteStage.step (decOut s i) ⟨!stall s, flush s i⟩ = _
  simp [ExecuteStage.step, hf, hs]

theorem step_dec_of_flush (h : flush s i = true) : (step s i).dec = {} := by
  change DecodeStage.step s.dec (fetched s i) ⟨!stall s, flush s i⟩ = {}
  simp [DecodeStage.step, h]

theorem step_dec_of_stall (hf : flush s i = false) (hs : stall s = true) :
    (step s i).dec = s.dec := by
  change DecodeStage.step s.dec (fetched s i) ⟨!stall s, flush s i⟩ = _
  simp [DecodeStage.step, hf, hs]

theorem step_dec_of_go (hf : flush s i = false) (hs : stall s = false) :
    (step s i).dec = fetched s i := by
  change DecodeStage.step s.dec (fetched s i) ⟨!stall s, flush s i⟩ = _
  simp [DecodeStage.step, hf, hs]

/-- The `pc` that fetch asks for in this cycle. -/
def fetchNext (s : State) (i : In) : Word :=
  if flush s i then target s i else if stall s then s.fetch.pc else s.fetch.pc + 4

theorem pcNext_eq :
    FetchUnit.pcNext s.fetch (flush s i) (target s i) (fetchUnitCtrl s i) = fetchNext s i := by
  change (if flush s i then target s i else if !stall s then s.fetch.pc + 4 else s.fetch.pc) = _
  unfold fetchNext
  cases stall s <;> rfl

/-- What the address port leaves of a `pc`. -/
def low32 (pc : Word) : Word := (pc.extractLsb' 0 32).setWidth 64

theorem step_fetch_pc :
    (step s i).fetch.pc =
      if s.fetch.state = .boot then s.fetch.pc else low32 (fetchNext s i) := by
  rw [← pcNext_eq]
  rfl

theorem fetched_eq : fetched s i =
    { valid := s.fetch.state = .receive
      pc := s.fetch.pc
      inst := if FetchUnit.isAlign (fetchNext s i) then i.instRdata.setWidth 64
        else Const.nop } := by
  rw [← pcNext_eq]
  rfl

theorem instSram_en : (instSram s i).en = FetchUnit.isAlign (fetchNext s i) := by
  rw [← pcNext_eq]
  rfl

theorem instSram_addr : (instSram s i).addr = (fetchNext s i).extractLsb' 0 32 := by
  rw [← pcNext_eq]
  rfl

end Front

theorem valid_of_flush (h : flush s i = true) : s.exe.info.valid = true := by
  simp only [flush, Fu.flush, Bru.branch, Csr.flush, Csr.trap, Csr.mret, Fu.csrIn,
    Bool.or_eq_true, Bool.and_eq_true] at h
  rcases h with h | h | h
  · exact h.1.1
  · exact h.2
  · exact h.2

theorem quiet_of_not_flush (hf : flush s i = false) :
    Csr.trap s.csr (Fu.csrIn s.exe i.interrupt) = false ∧
      Csr.mret s.csr (Fu.csrIn s.exe i.interrupt) = false := by
  simp only [flush, Fu.flush, Csr.flush, Bool.or_eq_false_iff] at hf
  exact hf.2

theorem valid_of_stall (h : stall s = true) : s.exe.info.valid = true := by
  simp only [stall, CtrlUnit.exeConflict, Bool.and_eq_true] at h
  exact h.1.1.1.2

theorem not_flush_of_not_valid (hv : s.exe.info.valid = false) : flush s i = false := by
  by_contra hn
  rw [Bool.not_eq_false] at hn
  rw [valid_of_flush hn] at hv
  exact absurd hv (by decide)

theorem not_stall_of_not_valid (hv : s.exe.info.valid = false) : stall s = false := by
  by_contra hn
  rw [Bool.not_eq_false] at hn
  rw [valid_of_stall hn] at hv
  exact absurd hv (by decide)

/-- Where the valid slots are: an instruction in execute has its successor in decode. -/
structure Filled (s : State) : Prop where
  dec_state : s.dec.valid = true → s.fetch.state = .receive
  exe_dec : s.exe.info.valid = true → s.dec.valid = true

theorem filled_init : Filled init where
  dec_state h := absurd h (by decide)
  exe_dec h := absurd h (by decide)

theorem step_fetch_state_of_receive (h : s.fetch.state = .receive) :
    (step s i).fetch.state = .receive := by
  rw [step_fetch_state, h]
  rfl

theorem Filled.receive_of_exe (h : Filled s) (hv : s.exe.info.valid = true) :
    s.fetch.state = .receive :=
  h.dec_state (h.exe_dec hv)

theorem Filled.step (h : Filled s) : Filled (step s i) := by
  cases hf : flush s i
  · cases hs : stall s
    · have hx : (Core.step s i).exe.info.valid = s.dec.valid := by
        rw [step_exe_of_go hf hs]
        rfl
      have hd : (Core.step s i).dec.valid = decide (s.fetch.state = .receive) := by
        rw [step_dec_of_go hf hs, fetched_eq]
      exact ⟨fun hv => step_fetch_state_of_receive (of_decide_eq_true (hd ▸ hv)),
        fun hv => hd ▸ decide_eq_true (h.dec_state (hx ▸ hv))⟩
    · refine ⟨fun _ => ?_, fun hv => ?_⟩
      · exact step_fetch_state_of_receive (h.receive_of_exe (valid_of_stall hs))
      · simp [step_exe_of_stall hs] at hv
  · refine ⟨fun hv => ?_, fun hv => ?_⟩
    · simp [step_dec_of_flush hf] at hv
    · simp [step_exe_of_flush hf] at hv

theorem filled_run (ins : ℕ → In) (t : ℕ) : Filled (machine.run ins t) :=
  Clocked.run_invariant (P := fun _ => Filled) filled_init (fun _ h => h.step) t

theorem fetch_state_run (t : ℕ) : (machine.run ins (t + 2)).fetch.state = .receive := by
  induction t with
  | zero => rfl
  | succ t ih => exact step_fetch_state_of_receive ih

section Slots

theorem wb_info (t : ℕ) :
    (machine.run ins (t + 2)).wb.info = (machine.run ins t).exe.info := rfl

theorem wb_hasExc (t : ℕ) : (machine.run ins (t + 2)).wb.hasExc =
    Fu.hasExc (machine.run ins t).csr (machine.run ins t).exe (ins t).interrupt := rfl

theorem wb_one : (machine.run ins 1).wb.info.valid = false := rfl

end Slots

end PuaCpu.Core
