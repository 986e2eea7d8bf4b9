/-
Numbers as text (`Userland/UserModule/c2/stdlib.c`): `uintToBase` and `intToBase` write
them, `strToInt` reads them. A text is a list of characters, without the NUL, and an
`int32_t` wraps.

* `uintToBase_text` — what is written is the numeral.
* `readInt_number` — the sign and the digits denote the number.
-/

import SoTp.Lib.Numerals

namespace SoTp.Stdlib

open SoTp.Lib

def NUL : Char := Char.ofNat 0

abbrev Text := List Char

/-- A number in an `int32_t`. -/
def int32 (n : Int) : Int := n.bmod (2 ^ 32)

/-- A number in an `int64_t`. -/
def int64 (n : Int) : Int := n.bmod (2 ^ 64)

/-- A number in a `uint64_t`. -/
def uint64 (n : Int) : Nat := (n % 2 ^ 64).toNat

theorem int32_range (n : Int) : -2 ^ 31 ≤ int32 n ∧ int32 n < 2 ^ 31 := by
  unfold int32
  rw [Int.bmod_def]
  omega

/-! ### Writing -/

/-- `(remainder < 10) ? remainder + '0' : remainder + 'A' - 10`. -/
def digit (remainder : Nat) : Char :=
  if remainder < 10 then Char.ofNat (remainder + '0'.toNat)
    else Char.ofNat (remainder + 'A'.toNat - 10)

/-- `do … while (value /= base)`, for as many rounds as there is fuel. -/
def pushDigits (base : Nat) : Nat → Nat → Text
  | 0, _ => []
  | fuel + 1, value =>
      digit (value % base) :: if value / base = 0 then [] else pushDigits base fuel (value / base)

/-- `while (p1 < p2)`, which swaps the two characters and goes inwards. -/
def swapEnds : Text → Nat → Nat → Text
  | buffer, _, 0 => buffer
  | buffer, p1, p2 + 1 =>
      if p1 < p2 + 1 then
        swapEnds ((buffer.set p1 (buffer.getD (p2 + 1) NUL)).set (p2 + 1) (buffer.getD p1 NUL))
          (p1 + 1) p2
      else buffer

/-- The text and the number of its digits. A `uint64_t` has 64 digits at most. -/
def uintToBase (value base : Nat) : Text × Nat :=
  let buffer := pushDigits base 64 value
  (swapEnds buffer 0 (buffer.length - 1), buffer.length)

/-- The digits are counted without the sign. -/
def intToBase (value : Int) (base : Nat) : Text × Nat :=
  if value < 0 then
    let (text, digits) := uintToBase (uint64 (int64 (-value))) base
    ('-' :: text, digits)
  else uintToBase (uint64 value) base

/-! ### Reading -/

def TO_LOWER (c : Char) : Char :=
  if 'A' ≤ c ∧ c ≤ 'Z' then Char.ofNat (c.toNat + 'a'.toNat - 'A'.toNat) else c

def IS_HEX_LETTER (c : Char) : Bool := 'a' ≤ TO_LOWER c && TO_LOWER c ≤ 'f'

def IS_DIGIT (c : Char) : Bool := '0' ≤ c && c ≤ '9'

def hexCharToDec (c : Char) : Int :=
  let c := TO_LOWER c
  if IS_DIGIT c then c.toNat - '0'.toNat
  else if IS_HEX_LETTER c then c.toNat - 'a'.toNat + 10
  else -1

/-- The loop of `strToInt`, from the last character on. -/
def addDigits (base : Int) : Text → Int → Int → Int
  | [], n, _ => n
  | c :: s, n, k =>
      if IS_DIGIT c || (base == 16 && IS_HEX_LETTER c) then
        addDigits base s (int32 (n + hexCharToDec c * k)) (int32 (k * base))
      else n

def strToInt (s : Text) : Int :=
  let (multiplier, s) := if s.head? = some '-' then (-1, s.tail) else (1, s)
  let (base, s) := if s.take 2 = ['0', 'x'] then (16, s.drop 2) else (10, s)
  int32 (addDigits base s.reverse 0 1 * multiplier)

/-! ### What is written -/

section Writing

variable {base : Nat}

/-- The loop pushes the digits, the last one first. -/
theorem pushDigits_eq (large : 1 < base) (fuel value : Nat) (fits : value < 2 ^ (fuel + 1)) :
    pushDigits base (fuel + 1) value = (numeral base value).reverse.map digit := by
  induction fuel generalizing value with
  | zero =>
      have lt : value < base := by omega
      have quotient : value / base = 0 := Nat.div_eq_of_lt lt
      rw [pushDigits, if_pos quotient, Nat.mod_eq_of_lt lt, numeral_of_lt lt]
      rfl
  | succ fuel ih =>
      rw [pushDigits]
      by_cases lt : value < base
      · have quotient : value / base = 0 := Nat.div_eq_of_lt lt
        rw [if_pos quotient, Nat.mod_eq_of_lt lt, numeral_of_lt lt]
        rfl
      · have le : base ≤ value := Nat.not_lt.mp lt
        have quotient : value / base ≠ 0 := (Nat.div_pos le (by omega)).ne'
        have halved : value / base ≤ value / 2 := Nat.div_le_div_left large (by decide)
        rw [if_neg quotient, ih (value / base) (by omega), numeral_of_le large le,
          List.reverse_append, List.reverse_singleton, List.singleton_append, List.map_cons]

/-- Swapping the ends inwards turns the part between them round. -/
theorem swapEnds_getElem? (buffer : Text) (p1 p2 : Nat) (lt : p2 < buffer.length) (k : Nat) :
    (swapEnds buffer p1 p2)[k]? = if p1 ≤ k ∧ k ≤ p2 then buffer[p1 + p2 - k]? else buffer[k]? := by
  induction p2 generalizing buffer p1 with
  | zero =>
      rw [swapEnds]
      split
      · congr 1
        omega
      · rfl
  | succ p2 ih =>
      rw [swapEnds]
      by_cases inwards : p1 < p2 + 1
      · rw [if_pos inwards, ih _ _ (by simp; omega)]
        have lt₁ : p1 < buffer.length := by omega
        have at_p1 : buffer[p1]? = some (buffer.getD p1 NUL) := by
          rw [List.getD_eq_getElem?_getD, List.getElem?_eq_getElem lt₁]
          rfl
        have at_p2 : buffer[p2 + 1]? = some (buffer.getD (p2 + 1) NUL) := by
          rw [List.getD_eq_getElem?_getD, List.getElem?_eq_getElem lt]
          rfl
        have swapped : ∀ j,
            ((buffer.set p1 (buffer.getD (p2 + 1) NUL)).set (p2 + 1) (buffer.getD p1 NUL))[j]? =
            if p2 + 1 = j then buffer[p1]? else if p1 = j then buffer[p2 + 1]? else buffer[j]? := by
          intro j
          rw [List.getElem?_set, List.getElem?_set, List.length_set, if_pos lt, if_pos lt₁,
            at_p1, at_p2]
        rw [swapped, swapped]
        -- Where `k` is one of the ends, between them, or outside.
        split_ifs <;> first | rfl | omega | (congr 1; omega)
      · rw [if_neg inwards]
        split
        · congr 1
          omega
        · rfl

/-- Over the whole buffer it is its reverse. -/
theorem swapEnds_reverse (buffer : Text) : swapEnds buffer 0 (buffer.length - 1) =
    buffer.reverse := by
  cases buffer with
  | nil => rfl
  | cons c buffer =>
      apply List.ext_getElem?
      intro k
      have nonempty : 0 < (c :: buffer).length := Nat.succ_pos _
      rw [swapEnds_getElem? _ _ _ (by omega)]
      by_cases lt : k < (c :: buffer).length
      · rw [if_pos ⟨Nat.zero_le k, by omega⟩, List.getElem?_reverse lt, Nat.zero_add]
      · rw [if_neg (by omega), List.getElem?_eq_none (by omega),
          List.getElem?_eq_none (by rw [List.length_reverse]; omega)]

/-- The digits of a number and how many there are, for every `uint64_t`. -/
theorem uintToBase_text (large : 1 < base) {value : Nat} (fits : value < 2 ^ 64) :
    uintToBase value base = ((numeral base value).map digit, (numeral base value).length) := by
  have pushed : pushDigits base 64 value = _ := pushDigits_eq large 63 value fits
  rw [uintToBase, swapEnds_reverse, pushed, List.map_reverse, List.reverse_reverse,
    List.length_reverse, List.length_map]

/-- The sign of a number. -/
def sign (n : Int) : Text := if n < 0 then ['-'] else []

theorem sign_natCast (n : Nat) : sign n = [] := if_neg (by omega)

/-- The digits of its absolute value. -/
def digits (base : Nat) (n : Int) : Text := (numeral base n.natAbs).map digit

@[simp] theorem digits_length (n : Int) : (digits base n).length = (numeral base n.natAbs).length :=
  List.length_map _

/-- The sign and the digits, with the digits counted only. -/
theorem intToBase_text (large : 1 < base) {n : Int} (fits : -2 ^ 63 ≤ n ∧ n < 2 ^ 63) :
    intToBase n base = (sign n ++ digits base n, (digits base n).length) := by
  unfold intToBase sign
  by_cases negative : n < 0
  · have value : uint64 (int64 (-n)) = n.natAbs := by
      unfold uint64 int64
      rw [Int.bmod_def]
      omega
    rw [if_pos negative, if_pos negative, value, uintToBase_text large (by omega), digits_length]
    rfl
  · have value : uint64 n = n.natAbs := by
      unfold uint64
      omega
    rw [if_neg negative, if_neg negative, value, uintToBase_text large (by omega), digits_length]
    rfl

end Writing

/-! ### What a text denotes -/

/-- The value of a digit, up to `F`. -/
def digitValue (c : Char) : Option Nat :=
  if '0' ≤ c ∧ c ≤ '9' then some (c.toNat - '0'.toNat)
  else if 'A' ≤ c ∧ c ≤ 'F' then some (c.toNat - 'A'.toNat + 10)
  else none

def readUint (base : Nat) (s : Text) : Option Nat := do
  let ds ← s.mapM digitValue
  if ds ≠ [] ∧ ∀ d ∈ ds, d < base then some (digitsValue base ds) else none

def readInt (base : Nat) (s : Text) : Option Int :=
  if s.head? = some '-' then (readUint base s.tail).map fun n : Nat => -(n : Int)
  else (readUint base s).map fun n : Nat => (n : Int)

section Reading

variable {base : Nat} {ds : List Nat}

/-- A digit that is read is the one that was written. -/
theorem digitValue_digit : ∀ d < 16, digitValue (digit d) = some d := by decide

theorem digit_ne : ∀ d < 16, digit d ≠ '-' ∧ digit d ≠ ' ' := by decide

/-- Digits are read as the number they are the digits of, -/
theorem readUint_digits (small : base ≤ 16) (some_digit : ds ≠ []) (lt : ∀ d ∈ ds, d < base) :
    readUint base (ds.map digit) = some (digitsValue base ds) := by
  have read : (ds.map digit).mapM digitValue = some ds := by
    clear some_digit
    induction ds with
    | nil => rfl
    | cons d ds ih =>
        have first := digitValue_digit d (Nat.lt_of_lt_of_le (lt d List.mem_cons_self) small)
        have rest := ih fun e mem => lt e (List.mem_cons_of_mem _ mem)
        simp [first, rest]
  rw [readUint, read, Option.bind_eq_bind, Option.bind_some, if_pos ⟨some_digit, lt⟩]

/-- behind a sign as its negative, -/
theorem readInt_digits (small : base ≤ 16) (some_digit : ds ≠ [])
    (lt : ∀ d ∈ ds, d < base) (n : Int) :
    readInt base (sign n ++ ds.map digit) = some (if n < 0 then -(digitsValue base ds : Int)
      else digitsValue base ds) := by
  have read := readUint_digits small some_digit lt
  unfold readInt sign
  by_cases negative : n < 0
  · simp [negative, read]
  · have first : (ds.map digit).head? ≠ some '-' := by
      cases ds with
      | nil => exact absurd rfl some_digit
      | cons d ds =>
          intro minus
          exact (digit_ne d (Nat.lt_of_lt_of_le (lt d List.mem_cons_self) small)).1
            (Option.some.inj minus)
    simp only [if_neg negative, List.nil_append, if_neg first, read, Option.map_some]

/-- so a number that was written is read back. -/
theorem readInt_number (large : 1 < base) (small : base ≤ 16) (n : Int) :
    readInt base (sign n ++ digits base n) = some n := by
  rw [digits, readInt_digits small numeral_ne_nil (fun d mem => numeral_lt large mem),
    digitsValue_numeral]
  congr 1
  split <;> omega

end Reading

end SoTp.Stdlib
