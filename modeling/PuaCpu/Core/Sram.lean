import PuaCpu.Bits.Field
import PuaCpu.Core.Flow

/-! # Synchronous memories

Both SRAM ports have one cycle of latency: the word addressed in a cycle is
driven in the next one. The data SRAM stores doublewords and writes the bytes
that the strobe selects. `drive` closes the loop between the core and the two
memories as the simulation harness does.
-/

namespace PuaCpu

/-- The doublewords of the data SRAM. -/
abbrev Dmem := BitVec 29 → Word

namespace DataSram

/-- Repeat each bit of the strobe over its byte. -/
def byteMask (wen : BitVec 8) : Word :=
  (wen.extractLsb' 7 1).signExtend 8 ++ (wen.extractLsb' 6 1).signExtend 8 ++
    (wen.extractLsb' 5 1).signExtend 8 ++ (wen.extractLsb' 4 1).signExtend 8 ++
    (wen.extractLsb' 3 1).signExtend 8 ++ (wen.extractLsb' 2 1).signExtend 8 ++
    (wen.extractLsb' 1 1).signExtend 8 ++ (wen.extractLsb' 0 1).signExtend 8

/-- The doubleword that a byte address falls into. -/
def index (addr : SramAddr) : BitVec 29 := addr.extractLsb' 3 29

variable (p : DataSram)

/-- Whether some byte is written. -/
def isWrite : Bool := p.en && p.wen != 0

/-- The memory after the access. -/
def write (m : Dmem) : Dmem :=
  if p.en then Function.update m (index p.addr)
    (Bits.merge (byteMask p.wen) (m (index p.addr)) p.wdata)
  else m

variable {p}

theorem byteMask_zero : byteMask 0 = 0#64 := by decide

theorem write_of_not_isWrite (h : p.isWrite = false) (m : Dmem) : p.write m = m := by
  unfold write
  split_ifs with he
  · have hw : p.wen = 0 := by simpa [isWrite, he] using h
    rw [hw, byteMask_zero, Bits.merge_zero, Function.update_eq_self]
  · rfl

end DataSram

namespace Core

theorem not_isWrite_of_not_valid {s : State} (hv : s.exe.info.valid = false) :
    (dataSram s).isWrite = false := by
  simp [dataSram, Fu.dataSram, Lsu.dataSram, DataSram.isWrite, hv]

/-- The data memory at the start of a cycle. -/
def memory (m : Dmem) (ins : ℕ → In) : ℕ → Dmem
  | 0 => m
  | t + 1 => (dataSram (machine.run ins t)).write (memory m ins t)

/-- The instruction SRAM drives the words of `imem`. The request of the boot cycle may be lost: the
ports can still be sampled as they are under reset. -/
def InstSync (imem : SramAddr → BitVec 32) (ins : ℕ → In) : Prop :=
  ∀ t, 1 ≤ t → (instSram (machine.run ins t) (ins t)).en = true →
    (ins (t + 1)).instRdata = imem (instSram (machine.run ins t) (ins t)).addr

/-- The data SRAM drives the doublewords of the memory that starts as `m`. -/
def DataSync (m : Dmem) (ins : ℕ → In) : Prop :=
  ∀ t, 1 ≤ t → (dataSram (machine.run ins t)).en = true →
    (ins (t + 1)).dataRdata =
      memory m ins (t + 1) (DataSram.index (dataSram (machine.run ins t)).addr)

theorem memory_congr {m : Dmem} {ins ins' : ℕ → In} {t : ℕ} (h : ∀ v < t, ins v = ins' v) :
    memory m ins t = memory m ins' t := by
  induction t with
  | zero => rfl
  | succ t ih =>
    rw [memory, memory, ih fun v hv => h v (by omega),
      Clocked.run_congr fun v hv => h v (by omega)]

section Harness

/-- The core with the words that the SRAMs drive and the content of the data SRAM. -/
structure Harness where
  core : State
  input : In
  dmem : Dmem

variable (imem : SramAddr → BitVec 32) (m : Dmem) (lines : ℕ → ExtInterrupt)

/-- One cycle of the harness, with the interrupt lines of the next one. The ports are not served
while `reset` is sampled. -/
def Harness.step (h : Harness) (reset : Bool) (lines : ExtInterrupt) : Harness where
  core := Core.step h.core h.input
  input :=
    { interrupt := lines
      instRdata := if !reset && (instSram h.core h.input).en then
          imem (instSram h.core h.input).addr
        else h.input.instRdata
      dataRdata := if !reset && (dataSram h.core).en then
          (dataSram h.core).write h.dmem (DataSram.index (dataSram h.core).addr)
        else h.input.dataRdata }
  dmem := (dataSram h.core).write h.dmem

/-- The run of the harness on a program, a data memory and the interrupt lines. The ports that it
samples at the first edge are those under reset. -/
def drive : ℕ → Harness
  | 0 => ⟨init, { interrupt := lines 0 }, m⟩
  | t + 1 => Harness.step imem (drive t) (t == 0) (lines (t + 1))

/-- What the harness drives. -/
def stimulus (t : ℕ) : In := (drive imem m lines t).input

variable {imem m lines}

theorem stimulus_interrupt (t : ℕ) : (stimulus imem m lines t).interrupt = lines t := by
  cases t <;> rfl

theorem run_stimulus (t : ℕ) :
    machine.run (stimulus imem m lines) t = (drive imem m lines t).core := by
  induction t with
  | zero => rfl
  | succ t ih =>
    rw [Clocked.run_succ, ih]
    rfl

theorem memory_stimulus (t : ℕ) :
    memory m (stimulus imem m lines) t = (drive imem m lines t).dmem := by
  induction t with
  | zero => rfl
  | succ t ih =>
    rw [memory, ih, run_stimulus]
    rfl

theorem served_of_pos {t : ℕ} {en : Bool} (ht : 1 ≤ t) (h : en = true) :
    (!(t == 0) && en) = true := by
  simp [h, Nat.one_le_iff_ne_zero.mp ht]

theorem instSync_stimulus : InstSync imem (stimulus imem m lines) := by
  intro t ht h
  rw [run_stimulus] at h ⊢
  exact if_pos (served_of_pos ht h)

theorem dataSync_stimulus : DataSync m (stimulus imem m lines) := by
  intro t ht h
  rw [memory_stimulus, run_stimulus] at *
  exact if_pos (served_of_pos ht h)

end Harness

section Continued

variable (imem : SramAddr → BitVec 32) (ins : ℕ → In) (n : ℕ)

/-- A run that is served with the words of `imem` after cycle `n`. -/
def continued : ℕ → State × In
  | 0 => (init, ins 0)
  | t + 1 =>
    let (s, i) := continued t
    (step s i, if t < n then ins (t + 1) else { instRdata := imem (instSram s i).addr })

def continuation (t : ℕ) : In := (continued imem ins n t).2

variable {imem ins n} {t : ℕ}

theorem run_continuation (t : ℕ) :
    machine.run (continuation imem ins n) t = (continued imem ins n t).1 := by
  induction t with
  | zero => rfl
  | succ t ih =>
    rw [Clocked.run_succ, ih]
    rfl

theorem continuation_eq (ht : t ≤ n) : continuation imem ins n t = ins t := by
  cases t with
  | zero => rfl
  | succ t => exact if_pos ht

/-- A fetch that is served up to a cycle is served for ever in the continuation. -/
theorem instSync_continuation (h : ∀ t < n, 1 ≤ t →
    (instSram (machine.run ins t) (ins t)).en = true →
    (ins (t + 1)).instRdata = imem (instSram (machine.run ins t) (ins t)).addr) :
    InstSync imem (continuation imem ins n) := by
  intro t ht he
  by_cases hn : t < n
  · have hr : machine.run (continuation imem ins n) t = machine.run ins t :=
      Clocked.run_congr fun v hv => continuation_eq (by omega)
    rw [hr, continuation_eq hn.le] at he ⊢
    rw [continuation_eq hn]
    exact h t hn ht he
  · rw [run_continuation] at he ⊢
    exact congrArg In.instRdata (if_neg hn)

end Continued

section Shared

variable {m : Dmem} {ins : ℕ → In}

/-- The instruction word at an address of the data memory. -/
def instWord (m : Dmem) (a : SramAddr) : BitVec 32 :=
  (m (DataSram.index a)).extractLsb' (if a.getLsbD 2 then 32 else 0) 32

/-- No store of the run overwrites a word that is fetched later. -/
def Unmodified (m : Dmem) (ins : ℕ → In) : Prop :=
  ∀ t, (instSram (machine.run ins t) (ins t)).en = true → ∀ v < t,
    instWord (memory m ins (v + 1)) (instSram (machine.run ins t) (ins t)).addr =
      instWord (memory m ins v) (instSram (machine.run ins t) (ins t)).addr

/-- One memory behind both ports serves as an instruction memory while its code is left alone. -/
theorem instSync_of_unmodified (hm : Unmodified m ins)
    (hs : ∀ t, 1 ≤ t → (instSram (machine.run ins t) (ins t)).en = true →
      (ins (t + 1)).instRdata =
        instWord (memory m ins t) (instSram (machine.run ins t) (ins t)).addr) :
    InstSync (instWord m) ins := by
  intro t ht he
  have hk : ∀ v ≤ t, instWord (memory m ins v) (instSram (machine.run ins t) (ins t)).addr =
      instWord m (instSram (machine.run ins t) (ins t)).addr := by
    intro v hv
    induction v with
    | zero => rfl
    | succ v ih => exact (hm t he v hv).trans (ih (by omega))
  exact (hs t ht he).trans (hk t le_rfl)

end Shared

end Core

end PuaCpu
