import PuaCpu.Harness.Simulator
import PuaCpu.Text.Hex

/-! # The trace file

`make_cpu_trace` prints a line for each commit, with columns of a fixed width.
-/

namespace PuaCpu

namespace TraceLine

/-- The format `1 %016lx %02lx %016lx`, with the end of the line. -/
def text (l : TraceLine) : List Char :=
  ['1', ' '] ++ (Hex.print 16 l.pc.toNat ++ ([' '] ++ (Hex.print 2 l.regNum.toNat ++
    ([' '] ++ (Hex.print 16 l.regWdata.toNat ++ ['\n'])))))

theorem length_pc (l : TraceLine) : (Hex.print 16 l.pc.toNat).length = 16 :=
  Hex.length_print (by decide) l.pc.isLt

theorem length_regNum (l : TraceLine) : (Hex.print 2 l.regNum.toNat).length = 2 :=
  Hex.length_print (by decide) (l.regNum.isLt.trans (by decide))

theorem length_regWdata (l : TraceLine) : (Hex.print 16 l.regWdata.toNat).length = 16 :=
  Hex.length_print (by decide) l.regWdata.isLt

theorem length_text (l : TraceLine) : l.text.length = 39 := by
  simp only [text, List.length_append, length_pc, length_regNum, length_regWdata]
  rfl

theorem text_injective : Function.Injective text := by
  intro l l' h
  have h1 := List.append_cancel_left h
  obtain ⟨hpc, h2⟩ := List.append_inj h1 ((length_pc l).trans (length_pc l').symm)
  have h3 := List.append_cancel_left h2
  obtain ⟨hnum, h4⟩ := List.append_inj h3 ((length_regNum l).trans (length_regNum l').symm)
  have h5 := List.append_cancel_left h4
  have hdata := List.append_cancel_right h5
  cases l
  cases l'
  rw [TraceLine.mk.injEq]
  exact ⟨BitVec.eq_of_toNat_eq (Hex.print_injective 16 hpc),
    BitVec.eq_of_toNat_eq (Hex.print_injective 2 hnum),
    BitVec.eq_of_toNat_eq (Hex.print_injective 16 hdata)⟩

end TraceLine

/-- The content of the file behind what it holds before. -/
def traceFile (old : List Char) (ls : List TraceLine) : List Char :=
  old ++ ls.flatMap TraceLine.text

theorem length_flatMap_text (ls : List TraceLine) :
    (ls.flatMap TraceLine.text).length = 39 * ls.length := by
  induction ls with
  | nil => rfl
  | cons l ls ih =>
    rw [List.flatMap_cons, List.length_append, ih, l.length_text, List.length_cons]
    omega

/-- The text determines the lines, in the append mode as well. -/
theorem traceFile_injective (old : List Char) : Function.Injective (traceFile old) := by
  intro ls ls' h
  have h : ls.flatMap TraceLine.text = ls'.flatMap TraceLine.text := List.append_cancel_left h
  induction ls generalizing ls' with
  | nil =>
    have hl := congrArg List.length h
    rw [length_flatMap_text, length_flatMap_text] at hl
    exact (List.length_eq_zero_iff.mp (by simpa using hl.symm)).symm
  | cons l ls ih =>
    cases ls' with
    | nil =>
      have hl := congrArg List.length h
      rw [length_flatMap_text, length_flatMap_text] at hl
      simp at hl
    | cons l' ls' =>
      rw [List.flatMap_cons, List.flatMap_cons] at h
      obtain ⟨h1, h2⟩ := List.append_inj h (l.length_text.trans l'.length_text.symm)
      rw [TraceLine.text_injective h1, ih (by rw [traceFile, traceFile, h2]) h2]

end PuaCpu
