import Mathlib.Algebra.Group.Nat.Defs
import Mathlib.Data.List.Basic
import Mathlib.Data.Nat.Basic

/-! # Numbers in hexadecimal

The digits of a number, filled up with zeros to a width. A number that fits the
width takes exactly that many digits, and the digits give it back.
-/

namespace Hex

/-- The conversion `%0wlx`. -/
def print (w n : ℕ) : List Char := (Nat.toDigits 16 n).leftpad w '0'

def digit (c : Char) : ℕ := if c.isDigit then c.toNat - '0'.toNat else c.toNat - 'a'.toNat + 10

/-- The number that digits stand for. -/
def value (cs : List Char) : ℕ := cs.foldl (fun v c => 16 * v + digit c) 0

variable {w n : ℕ}

theorem digit_digitChar (h : n < 16) : digit n.digitChar = n := by
  revert n
  decide

theorem value_append_singleton (cs : List Char) (c : Char) :
    value (cs ++ [c]) = 16 * value cs + digit c := by
  rw [value, List.foldl_append]
  rfl

theorem value_toDigits (n : ℕ) : value (Nat.toDigits 16 n) = n := by
  induction n using Nat.base_induction 16 (by decide) with
  | single n hn =>
    rw [Nat.toDigits_of_lt_base hn]
    exact (Nat.zero_add _).trans (digit_digitChar hn)
  | digit m k hk hm ih =>
    rw [← Nat.toDigits_append_toDigits (by decide) hm hk, Nat.toDigits_of_lt_base hk,
      value_append_singleton, ih, digit_digitChar hk]

theorem value_replicate_zero (m : ℕ) (cs : List Char) :
    value (List.replicate m '0' ++ cs) = value cs := by
  induction m with
  | zero => rfl
  | succ m ih => exact ih

/-- The digits give the number back, whatever the width. -/
theorem value_print (w n : ℕ) : value (print w n) = n :=
  (value_replicate_zero _ _).trans (value_toDigits n)

theorem print_injective (w : ℕ) : Function.Injective (print w) :=
  Function.LeftInverse.injective (value_print w)

theorem length_print (hw : 0 < w) (h : n < 16 ^ w) : (print w n).length = w := by
  have hl : (Nat.toDigits 16 n).length ≤ w := (Nat.length_toDigits_le_iff (by decide) hw).mpr h
  rw [print, List.length_leftpad, max_eq_left hl]

end Hex
