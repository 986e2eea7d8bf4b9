/-
Numerals: the digits of a number in a base, the most significant first.

* `digitsValue_numeral` — the digits of a number denote it.
* `digitsValue_zeros`, `digitsValue_shifted` — zeros before the digits change nothing, and each one
  behind them multiplies by the base.
-/

import Mathlib.Data.Nat.Digits.Defs

namespace SoTp.Lib

/-- What digits denote. -/
def digitsValue (base : Nat) (ds : List Nat) : Nat := Nat.ofDigits base ds.reverse

/-- The digits of a number. It has one at least. -/
def numeral (base n : Nat) : List Nat := if n = 0 then [0] else (Nat.digits base n).reverse

section Numerals

variable {base n : Nat} {ds : List Nat}

/-- Every number has a digit, -/
theorem numeral_ne_nil : numeral base n ≠ [] := by
  unfold numeral
  split
  · exact List.cons_ne_nil _ _
  · rename_i nonzero
    rw [ne_eq, List.reverse_eq_nil_iff]
    exact Nat.digits_ne_nil_iff_ne_zero.mpr nonzero

/-- and its digits are below the base. -/
theorem numeral_lt (large : 1 < base) {d : Nat} (mem : d ∈ numeral base n) : d < base := by
  unfold numeral at mem
  split at mem
  · rw [List.mem_singleton.mp mem]
    omega
  · exact Nat.digits_lt_base large (List.mem_reverse.mp mem)

/-- The last digit is the remainder. -/
theorem numeral_of_lt (lt : n < base) : numeral base n = [n] := by
  unfold numeral
  split
  · rename_i zero
    rw [zero]
  · rename_i nonzero
    rw [Nat.digits_of_lt base n nonzero lt, List.reverse_singleton]

/-- The last digit is the remainder, behind the digits of the quotient. -/
theorem numeral_of_le (large : 1 < base) (le : base ≤ n) :
    numeral base n = numeral base (n / base) ++ [n % base] := by
  have positive : n ≠ 0 := by omega
  have quotient : n / base ≠ 0 := (Nat.div_pos le (by omega)).ne'
  rw [numeral, numeral, if_neg positive, if_neg quotient,
    Nat.digits_eq_cons_digits_div large positive, List.reverse_cons]

/-- The digits of a number are worth the number. -/
theorem digitsValue_numeral : digitsValue base (numeral base n) = n := by
  unfold digitsValue numeral
  split
  · rename_i zero
    rw [List.reverse_singleton, Nat.ofDigits_singleton, zero]
  · rw [List.reverse_reverse, Nat.ofDigits_digits]

/-- Digits in front count as many places more. -/
theorem digitsValue_append (ds es : List Nat) :
    digitsValue base (ds ++ es) = base ^ es.length * digitsValue base ds + digitsValue base es := by
  rw [digitsValue, List.reverse_append, Nat.ofDigits_append, List.length_reverse, Nat.add_comm]
  rfl

/-- Zeros in front count nothing, -/
theorem digitsValue_zeros (k : Nat) (ds : List Nat) : digitsValue base (List.replicate k 0 ++ ds) =
    digitsValue base ds := by
  rw [digitsValue, List.reverse_append, List.reverse_replicate, Nat.ofDigits_append_replicate_zero]
  rfl

/-- and zeros behind a power of the base each. -/
theorem digitsValue_shifted (k : Nat) (ds : List Nat) :
    digitsValue base (ds ++ List.replicate k 0) = base ^ k * digitsValue base ds := by
  have zeros : digitsValue base (List.replicate k 0) = 0 := by
    rw [digitsValue, List.reverse_replicate, Nat.ofDigits_replicate_zero]
  rw [digitsValue_append, zeros, List.length_replicate, Nat.add_zero]

end Numerals

end SoTp.Lib
