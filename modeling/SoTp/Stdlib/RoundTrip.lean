/-
Numbers read back from their text. The writer divides in 64 bits and the reader adds up in
an `int32_t`, from the last digit on, so what is read is the number modulo `2^32`.

* `addDigits_digits` — the reader's loop adds up what the digits denote.
* `strToInt_written` — what `intToBase` writes in decimal, and `uintToBase` in hexadecimal
  behind `0x`, is read back.
-/

import SoTp.Stdlib.Numbers
import Mathlib.Tactic.Ring

namespace SoTp.Stdlib

open SoTp.Lib

section Wrapping

theorem int32_of_range {n : Int} (range : -2 ^ 31 ≤ n ∧ n < 2 ^ 31) : int32 n = n := by
  unfold int32
  rw [Int.bmod_def]
  omega

/-- Wrapping once at the end is wrapping all along. -/
theorem int32_add_int32 (a b c : Int) : int32 (int32 a + int32 b * c) = int32 (a + b * c) := by
  unfold int32
  rw [Int.bmod_add_bmod, Int.add_bmod_eq_add_bmod_left a Int.bmod_mul_bmod]

theorem int32_mul (a b : Int) : int32 (int32 a * b) = int32 (a * b) := Int.bmod_mul_bmod

end Wrapping

/-! ### The reader's loop -/

section Reading

variable {ds : List Nat}

/-- A digit is taken for what it is, and is neither the sign nor the `x` of the prefix. -/
theorem hexCharToDec_digit : ∀ d < 16, hexCharToDec (digit d) = d ∧
    IS_HEX_LETTER (digit d) = decide (10 ≤ d) ∧
    IS_DIGIT (digit d) = decide (d < 10) ∧ digit d ≠ 'x' := by decide

/-- The digits of a base are read up to the first. -/
theorem digit_read {base d : Nat} (known : base = 10 ∨ base = 16) (lt : d < base) :
    (IS_DIGIT (digit d) || ((base : Int) == 16 && IS_HEX_LETTER (digit d))) = true := by
  have small : d < 16 := by omega
  obtain ⟨-, letter, decimal, -⟩ := hexCharToDec_digit d small
  rw [letter, decimal]
  rcases known with rfl | rfl
  · simp [lt]
  · by_cases le : d < 10
    · simp [le]
    · simp [Nat.not_lt.mp le]

/-- The loop adds the number of the digits, times the weight it starts with. -/
theorem addDigits_digits {base : Nat} (known : base = 10 ∨ base = 16) (lt : ∀ d ∈ ds, d < base)
    (n k : Int) :
    int32 (addDigits base (ds.map digit) n k) = int32 (n + k * Nat.ofDigits base ds) := by
  induction ds generalizing n k with
  | nil => simp [addDigits]
  | cons d ds ih =>
      have first : d < base := lt d List.mem_cons_self
      have value : hexCharToDec (digit d) = d := (hexCharToDec_digit d (by omega)).1
      rw [List.map_cons, addDigits, if_pos (digit_read known first), value,
        ih fun e mem => lt e (List.mem_cons_of_mem _ mem), int32_add_int32, Nat.ofDigits_cons]
      congr 1
      push_cast
      ring

/-- The digits of a number, read from the last one on. -/
theorem addDigits_numeral {base : Nat} (known : base = 10 ∨ base = 16) (n : Nat) :
    int32 (addDigits base ((numeral base n).map digit).reverse 0 1) = int32 n := by
  have large : 1 < base := by omega
  have lt : ∀ d ∈ (numeral base n).reverse, d < base :=
    fun d mem => numeral_lt large (List.mem_reverse.mp mem)
  have value : Nat.ofDigits base (numeral base n).reverse = n := digitsValue_numeral
  rw [← List.map_reverse, addDigits_digits known lt, value, zero_add, one_mul]

/-- A decimal numeral has no prefix. -/
theorem unprefixed (n : Nat) : ((numeral 10 n).map digit).take 2 ≠ ['0', 'x'] := by
  intro eq
  have second : ((numeral 10 n).map digit)[1]? = some 'x' := by
    have both := congrArg (fun s : Text => s[1]?) eq
    simpa [List.getElem?_take] using both
  rw [List.getElem?_map, Option.map_eq_some_iff] at second
  obtain ⟨d, at_one, letter⟩ := second
  have lt : d < 10 := numeral_lt (by decide) (List.mem_of_getElem? at_one)
  exact (hexCharToDec_digit d (by omega)).2.2.2 letter

end Reading

/-! ### Reading back -/

/-- A decimal number is read back as it wraps, -/
theorem strToInt_decimal (n : Int) : strToInt (sign n ++ digits 10 n) = int32 n := by
  have read := addDigits_numeral (Or.inl rfl) n.natAbs
  rw [Nat.cast_ofNat] at read
  unfold strToInt sign digits
  by_cases negative : n < 0
  · have minus : (n.natAbs : Int) * -1 = n := by omega
    simp only [if_pos negative, List.singleton_append, List.head?_cons, List.tail_cons, if_true,
      if_neg (unprefixed n.natAbs)]
    rw [← int32_mul, read, int32_mul, minus]
  · have positive : (n.natAbs : Int) * 1 = n := by omega
    have unsigned : ((numeral 10 n.natAbs).map digit).head? ≠ some '-' := by
      have some_digit : numeral 10 n.natAbs ≠ [] := numeral_ne_nil
      obtain ⟨d, ds, eq⟩ := List.exists_cons_of_ne_nil some_digit
      have lt : d < 10 := numeral_lt (by decide) (eq ▸ List.mem_cons_self)
      rw [eq, List.map_cons, List.head?_cons]
      intro minus
      exact (digit_ne d (by omega)).1 (Option.some.inj minus)
    simp only [if_neg negative, List.nil_append, if_neg unsigned, if_neg (unprefixed n.natAbs)]
    rw [← int32_mul, read, int32_mul, positive]

/-- and a hexadecimal one. -/
theorem strToInt_hexadecimal (n : Nat) : strToInt (['0', 'x'] ++ (numeral 16 n).map digit) =
    int32 n := by
  have read := addDigits_numeral (Or.inr rfl) n
  rw [Nat.cast_ofNat] at read
  unfold strToInt
  simp only [List.cons_append, List.nil_append, List.head?_cons, Option.some.injEq,
    Char.reduceEq, if_false,
    List.take_succ_cons, List.take_zero, if_true, List.drop_succ_cons, List.drop_zero]
  rw [← int32_mul, read, int32_mul, mul_one]

/-- Every `int32_t` comes back from decimal, and every `uint32_t` from hexadecimal, as the
`int32_t` of its bits. -/
theorem strToInt_written {v : Int} {w : Nat} (signed : -2 ^ 31 ≤ v ∧ v < 2 ^ 31)
    (unsigned : w < 2 ^ 32) :
    strToInt (intToBase v 10).1 = v ∧ strToInt (['0', 'x'] ++ (uintToBase w 16).1) = int32 w := by
  constructor
  · rw [intToBase_text (by decide) (by omega), strToInt_decimal, int32_of_range signed]
  · rw [uintToBase_text (by decide) (by omega), strToInt_hexadecimal]

/-- The least `int32_t`, whose absolute value does not fit, and the greatest `uint32_t`. -/
theorem strToInt_written_extremes : strToInt (intToBase (-2 ^ 31) 10).1 = -2 ^ 31 ∧
    strToInt (['0', 'x'] ++ (uintToBase (2 ^ 32 - 1) 16).1) = int32 (2 ^ 32 - 1 : Nat) :=
  strToInt_written (by decide) (by decide)

end SoTp.Stdlib
