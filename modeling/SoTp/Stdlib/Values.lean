/-
The values that `printf` prints. `%u` and `%x` fetch an `int`, whose sign is extended, and so
does `%li`, which loses what an `int` does not hold.

* `printf_values_iff` — for every format, when the digits of all conversions denote their
  arguments, and when the fields as a whole do.
-/

import Mathlib.RingTheory.Coprime.Lemmas
import Mathlib.Tactic.Ring
import SoTp.Stdlib.Pieces

namespace SoTp.Stdlib

open SoTp.Lib

/-- The argument, of the conversion's type. -/
def Conversion.value : Conversion → Nat → Int
  | d, w => int32 w
  | u, w | x, w => (w % 2 ^ 32 : Nat)
  | li, w => int64 w
  | lu, w | lx, w => (w % 2 ^ 64 : Nat)

/-- What is fetched is the argument. -/
def Conversion.Fits : Conversion → Nat → Prop
  | d, _ | lu, _ | lx, _ => True
  | u, w => (u.value w) < 2 ^ 31
  | x, w => (x.value w) < 2 ^ 31
  | li, w => -2 ^ 31 ≤ li.value w ∧ li.value w < 2 ^ 31

/-- Zeros fill the field behind the digits. -/
def ZerosBehind (padding : Option Padding) (n : Nat) : Prop :=
  ∃ x, padding = some x ∧ x.minus = true ∧ x.zero = true ∧ n < x.width

def notBlank (c : Char) : Bool := c != ' '

namespace Piece

/-- The digits of a number, with their sign, denote the argument. -/
def DigitsRight : Piece → Prop
  | number _ k w =>
      readInt k.base (sign (k.fetched w) ++ digits k.base (k.fetched w)) = some (k.value w)
  | _ => True

/-- The field of a number denotes the argument, also with what fills it. -/
def FieldRight : Piece → Prop
  | number padding k w =>
      readInt k.base (((number padding k w).prints.drop k.mark.length).filter notBlank) =
        some (k.value w)
  | _ => True

def Fits : Piece → Prop
  | number _ k w => k.Fits w
  | _ => True

/-- No zeros stand behind the digits, unless they are zeros too. -/
def NotShifted : Piece → Prop
  | number padding k w =>
      k.value w = 0 ∨ ¬ ZerosBehind padding (sign (k.value w) ++ digits k.base (k.value w)).length
  | _ => True

end Piece

section Values

variable {k : Conversion} {w : Nat} {padding : Option Padding}

theorem base_range (k : Conversion) : 1 < k.base ∧ k.base ≤ 16 := by
  cases k <;> decide

theorem uint64_int64 (n : Int) : (uint64 (int64 n) : Int) = n % 2 ^ 64 := by
  have same : int64 n % 2 ^ 64 = n % 2 ^ 64 := Int.bmod_emod
  rw [uint64, same]
  omega

/-- A word goes through `int` unchanged exactly when it has no sign bit. -/
theorem uint64_int32 (w : Nat) :
    (uint64 (int32 w) : Int) = (w % 2 ^ 32 : Nat) ↔ ((w % 2 ^ 32 : Nat) : Int) < 2 ^ 31 := by
  unfold uint64 int32
  rw [Int.bmod_def]
  split <;> omega

/-- Otherwise the sign is extended. -/
theorem uint64_int32_lost {w : Nat} (large : ¬ ((w % 2 ^ 32 : Nat) : Int) < 2 ^ 31) :
    w % 2 ^ 32 < uint64 (int32 w) := by
  unfold uint64 int32
  rw [Int.bmod_def]
  split <;> omega

/-- The two readings of a word differ by a multiple of `2^32`. -/
theorem int64_sub_int32 (n : Int) : (int64 n - int32 n) % 2 ^ 32 = 0 := by
  unfold int64 int32
  rw [Int.bmod_def, Int.bmod_def]
  split <;> split <;> omega

/-- They are the same exactly in the range of `int`. -/
theorem int32_int64 (n : Int) : int32 n = int64 n ↔ -2 ^ 31 ≤ int64 n ∧ int64 n < 2 ^ 31 := by
  unfold int32 int64
  rw [Int.bmod_def, Int.bmod_def]
  split <;> split <;> omega

/-- A conversion fetches the value that it stands for exactly when that value fits. -/
theorem fetched_iff (k : Conversion) (w : Nat) : k.fetched w = k.value w ↔ k.Fits w := by
  cases k with
  | d => exact iff_of_true rfl trivial
  | u => exact uint64_int32 w
  | x => exact uint64_int32 w
  | li => exact int32_int64 w
  | lu => exact iff_of_true (uint64_int64 w) trivial
  | lx => exact iff_of_true (uint64_int64 w) trivial

/-- So the digits that are printed are right exactly then. -/
theorem digitsRight_iff (piece : Piece) : piece.DigitsRight ↔ piece.Fits := by
  cases piece with
  | number padding k w =>
      rw [Piece.DigitsRight, readInt_number (base_range k).1 (base_range k).2, Option.some_inj]
      exact fetched_iff k w
  | literal _ _ => exact Iff.rfl
  | percent => exact Iff.rfl
  | char _ => exact Iff.rfl
  | string _ _ => exact Iff.rfl

/-- How many zeros fill a text of `n` characters. -/
def zeros (padding : Option Padding) (n : Nat) : Nat :=
  match padding with
  | none => 0
  | some x => if x.zero then x.width - n else 0

/-- Of the padding only the zeros are digits. -/
theorem fill_filter (padding : Option Padding) (n : Nat) :
    (fill padding n).filter notBlank = (List.replicate (zeros padding n) 0).map digit := by
  cases padding with
  | none => rfl
  | some x =>
      rw [fill, zeros, Padding.filler, List.map_replicate]
      cases x.zero with
      | false => exact List.filter_replicate_of_neg Bool.false_ne_true
      | true => exact List.filter_replicate_of_pos rfl

/-- They stand behind the number under the minus flag, when there are any. -/
theorem zerosBehind_iff (padding : Option Padding) (n : Nat) :
    ZerosBehind padding n ↔ padding.any Padding.minus = true ∧ 0 < zeros padding n := by
  constructor
  · rintro ⟨x, rfl, minus, zero, lt⟩
    refine ⟨minus, ?_⟩
    rw [zeros, if_pos zero]
    omega
  · rintro ⟨minus, positive⟩
    cases padding with
    | none => cases minus
    | some x =>
        by_cases zero : x.zero = true
        · rw [zeros, if_pos zero] at positive
          exact ⟨x, rfl, minus, zero, by omega⟩
        · rw [zeros, if_neg zero] at positive
          exact absurd positive (Nat.lt_irrefl 0)

theorem digits_filter {base : Nat} (range : 1 < base ∧ base ≤ 16) (n : Int) :
    (digits base n).filter notBlank = digits base n := by
  rw [List.filter_eq_self]
  intro c mem
  obtain ⟨d, is_digit, rfl⟩ := List.mem_map.mp mem
  have small : d < 16 := Nat.lt_of_lt_of_le (numeral_lt range.1 is_digit) range.2
  exact bne_iff_ne.mpr (digit_ne d small).2

/-- A field without its mark and spaces: there may be zeros before the digits, or behind. -/
theorem field_filter (padding : Option Padding) {base : Nat} (range : 1 < base ∧ base ≤ 16)
    (mark : Text) (n : Int) :
    ∃ i j, ((numberText padding base mark n).drop mark.length).filter notBlank =
        sign n ++ (List.replicate i 0 ++ numeral base n.natAbs ++ List.replicate j 0).map digit ∧
      (0 < j ↔ ZerosBehind padding (sign n ++ digits base n).length) := by
  have signed : (sign n).filter notBlank = sign n := by
    unfold sign
    split <;> rfl
  have digited := digits_filter range n
  have filled := fill_filter padding (sign n ++ digits base n).length
  have behind := zerosBehind_iff padding (sign n ++ digits base n).length
  have dropped : ((numberText padding base mark n).drop mark.length) = sign n ++
      left padding (sign n ++ digits base n).length ++ digits base n ++
      right padding (sign n ++ digits base n).length := by
    simp only [numberText, List.append_assoc, List.drop_left]
  rw [dropped, List.filter_append, List.filter_append, List.filter_append, signed, digited,
    left, right]
  cases minus : padding.any Padding.minus with
  | true =>
      refine ⟨0, zeros padding (sign n ++ digits base n).length, ?_, ?_⟩
      · simp only [if_pos, filled, List.filter_nil, List.replicate_zero, List.nil_append,
          List.append_nil, List.map_append, List.append_assoc]
        rfl
      · rw [behind, minus]
        exact ⟨fun positive => ⟨rfl, positive⟩, And.right⟩
  | false =>
      refine ⟨zeros padding (sign n ++ digits base n).length, 0, ?_, ?_⟩
      · simp only [Bool.false_eq_true, if_false, filled, List.filter_nil, List.replicate_zero,
          List.append_nil, List.map_append, List.append_assoc]
        rfl
      · rw [behind, minus]
        exact ⟨fun zero => absurd zero (Nat.lt_irrefl 0), fun both =>
          absurd both.1 Bool.false_ne_true⟩

/-- A field reads as the number with as many zeros as stand behind it. -/
theorem field_reads (padding : Option Padding) {base : Nat} (range : 1 < base ∧ base ≤ 16)
    (mark : Text) (n : Int) :
    ∃ j : Nat, readInt base (((numberText padding base mark n).drop mark.length).filter notBlank) =
        some (n * base ^ j) ∧
      (0 < j ↔ ZerosBehind padding (sign n ++ digits base n).length) := by
  obtain ⟨i, j, filtered, positive⟩ := field_filter padding range mark n
  refine ⟨j, ?_, positive⟩
  have small : ∀ d ∈ List.replicate i 0 ++ numeral base n.natAbs ++ List.replicate j 0,
      d < base := by
    intro d mem
    rcases List.mem_append.mp mem with mem | mem
    · rcases List.mem_append.mp mem with mem | mem
      · rw [(List.mem_replicate.mp mem).2]
        omega
      · exact numeral_lt range.1 mem
    · rw [(List.mem_replicate.mp mem).2]
      omega
  have nonempty : List.replicate i 0 ++ numeral base n.natAbs ++ List.replicate j 0 ≠ [] := by
    simp [numeral_ne_nil]
  rw [filtered, readInt_digits range.2 nonempty small, digitsValue_shifted, digitsValue_zeros,
    digitsValue_numeral]
  congr 1
  split
  · have value : n = -(n.natAbs : Int) := by omega
    rw [Nat.cast_mul, Nat.cast_pow, value]
    simp [Int.mul_comm]
  · have value : n = (n.natAbs : Int) := by omega
    rw [Nat.cast_mul, Nat.cast_pow, Int.mul_comm, ← value]

/-- An odd factor, less one, does not bring a number back to what an `int` has lost. -/
theorem lost_value {n v : Int} {j : Nat} (small : -2 ^ 31 ≤ n ∧ n < 2 ^ 31)
    (same : (v - n) % 2 ^ 32 = 0) (shifted : n * 10 ^ j = v) : n = v := by
  cases j with
  | zero => simpa using shifted
  | succ j =>
      have even : (10 : Int) ^ (j + 1) = 2 * (5 * 10 ^ j) := by ring
      have factor : v - n = n * (2 * (5 * 10 ^ j) - 1) := by
        rw [← shifted, even]
        ring
      have divides : (2 ^ 32 : Int) ∣ n := by
        have coprime : IsCoprime (2 ^ 32 : Int) (2 * (5 * 10 ^ j) - 1) := by
          apply IsCoprime.pow_left
          exact ⟨5 * 10 ^ j, -1, by ring⟩
        apply coprime.dvd_of_dvd_mul_right
        rw [← factor]
        exact Int.dvd_of_emod_eq_zero same
      obtain ⟨m, multiple⟩ := divides
      have zero : n = 0 := by omega
      rw [← shifted, zero, Int.zero_mul]

/-- Zeros behind a word do not make up for a sign that was extended. -/
theorem unsigned_of_shifted {base j w : Nat} (large : 1 < base)
    (shifted : (uint64 (int32 w) : Int) * base ^ j = (w % 2 ^ 32 : Nat)) :
      ((w % 2 ^ 32 : Nat) : Int) < 2 ^ 31 := by
  by_contra lost
  have more := uint64_int32_lost lost
  have ge : uint64 (int32 w) ≤ uint64 (int32 w) * base ^ j :=
    Nat.le_mul_of_pos_right _ (Nat.pow_pos (by omega))
  have eq : uint64 (int32 w) * base ^ j = w % 2 ^ 32 := by exact_mod_cast shifted
  omega

/-- Nor do they make up for a value that does not fit, -/
theorem fits_of_shifted {j : Nat} (shifted : k.fetched w * k.base ^ j = k.value w) : k.Fits w := by
  cases k with
  | d => trivial
  | u =>
      have large : 1 < 10 := by decide
      exact unsigned_of_shifted large shifted
  | x =>
      have large : 1 < 16 := by decide
      exact unsigned_of_shifted large shifted
  | li => exact (int32_int64 w).mp (lost_value (int32_range w) (int64_sub_int32 w) shifted)
  | lu => trivial
  | lx => trivial

/-- so the whole field is right exactly when the value fits and no zeros are behind it. -/
theorem fieldRight_iff (piece : Piece) : piece.FieldRight ↔ piece.Fits ∧ piece.NotShifted := by
  cases piece with
  | number padding k w =>
      obtain ⟨j, reads, positive⟩ := field_reads padding (base_range k) k.mark (k.fetched w)
      have large := (base_range k).1
      rw [Piece.FieldRight, Piece.prints, reads, Option.some_inj]
      constructor
      · intro shifted
        have fits := fits_of_shifted shifted
        refine ⟨fits, ?_⟩
        rw [(fetched_iff k w).mpr fits] at shifted positive
        by_cases zero : k.value w = 0
        · exact Or.inl zero
        · refine Or.inr fun behind => ?_
          have factor : (k.base : Int) ^ j = 1 := by
            apply Int.eq_one_of_mul_eq_self_right zero shifted
          have one : k.base ^ j = 1 := by exact_mod_cast factor
          have := Nat.one_lt_pow (Nat.pos_iff_ne_zero.mp (positive.mpr behind)) large
          omega
      · rintro ⟨fits, zero | not_behind⟩
        · rw [(fetched_iff k w).mpr fits, zero, Int.zero_mul]
        · rw [(fetched_iff k w).mpr fits] at positive ⊢
          have none : j = 0 := Nat.eq_zero_of_not_pos fun some => not_behind (positive.mp some)
          rw [none, pow_zero, Int.mul_one]
  | literal _ _ => exact ⟨fun _ => ⟨trivial, trivial⟩, fun _ => trivial⟩
  | percent => exact ⟨fun _ => ⟨trivial, trivial⟩, fun _ => trivial⟩
  | char _ => exact ⟨fun _ => ⟨trivial, trivial⟩, fun _ => trivial⟩
  | string _ _ => exact ⟨fun _ => ⟨trivial, trivial⟩, fun _ => trivial⟩

end Values

/-- For every format made of pieces, with its arguments: all digits denote their arguments
exactly when what is fetched for them fits. The fields as a whole do when, besides, no zeros
are put behind a number. -/
theorem printf_values_iff (paddingChar : Char) (paddingSign : Int) (pieces : List Piece)
    {rounds : Nat} (enough : 2 * pieces.length < rounds) :
    (∃ p n, printf rounds paddingChar paddingSign (pieces.flatMap Piece.fmt)
        (pieces.flatMap Piece.args) = .ok (p, n) ∧ p.out = pieces.flatMap Piece.prints) ∧
      ((∀ piece ∈ pieces, piece.DigitsRight) ↔ ∀ piece ∈ pieces, piece.Fits) ∧
      ((∀ piece ∈ pieces, piece.FieldRight) ↔ ∀ piece ∈ pieces, piece.Fits ∧ piece.NotShifted) := by
  refine ⟨?_, ?_, ?_⟩
  · obtain ⟨p, run, out⟩ := printf_pieces paddingChar paddingSign pieces enough
    exact ⟨p, _, run, out⟩
  · exact forall₂_congr fun piece _ => digitsRight_iff piece
  · exact forall₂_congr fun piece _ => fieldRight_iff piece

/-- `%u,%d,%li` of 7, -5 and -1. -/
def threeNumbers : List Piece :=
  [.number none .u 7, .literal ',' (by decide), .number none .d (2 ^ 32 - 5),
    .literal ',' (by decide), .number none .li (2 ^ 64 - 1)]

theorem printf_values_iff_three : (∃ p n,
    printf 11 ' ' 1 (threeNumbers.flatMap Piece.fmt) (threeNumbers.flatMap Piece.args) = .ok (p, n) ∧
      p.out = threeNumbers.flatMap Piece.prints) ∧ ∀ piece ∈ threeNumbers, piece.DigitsRight := by
  obtain ⟨prints, right, -⟩ := printf_values_iff ' ' 1 threeNumbers (by decide : 2 * 5 < 11)
  refine ⟨prints, right.mpr fun piece mem => ?_⟩
  simp only [threeNumbers, List.mem_cons, List.not_mem_nil, or_false] at mem
  rcases mem with rfl | rfl | rfl | rfl | rfl
  · exact (by decide : ((7 % 2 ^ 32 : Nat) : Int) < 2 ^ 31)
  · trivial
  · trivial
  · trivial
  · exact (by decide +kernel : -2 ^ 31 ≤ Conversion.li.value (2 ^ 64 - 1) ∧
      Conversion.li.value (2 ^ 64 - 1) < 2 ^ 31)

/-- `%u` of `2^31`, and `%li` of `2^32`. -/
theorem printf_sign_extended :
    ((printf 3 ' ' 1 "%u".toList [.word (2 ^ 31)]).toOption.map fun r => r.1.out) =
        some "18446744071562067968".toList ∧
      ((printf 3 ' ' 1 "%li".toList [.word (2 ^ 32)]).toOption.map fun r => r.1.out) =
        some "0".toList ∧
      ¬ (Piece.number none .u (2 ^ 31)).DigitsRight ∧
        ¬ (Piece.number none .li (2 ^ 32)).DigitsRight := by
  refine ⟨by decide +kernel, by decide +kernel, ?_, ?_⟩
  · rw [digitsRight_iff]
    exact (by decide : ¬ ((2 ^ 31 % 2 ^ 32 : Nat) : Int) < 2 ^ 31)
  · rw [digitsRight_iff]
    exact fun fits => absurd fits.2 (by decide)

end SoTp.Stdlib
