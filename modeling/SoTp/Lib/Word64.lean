/-
64-bit unsigned arithmetic on natural numbers: sums and differences modulo
2^64, complement, and what masking with the complement of 2^k - 1 (rounding
down) or with the top bit (a flag) computes.
-/

import Mathlib.Data.Nat.Bitwise
import Mathlib.Tactic.Common
import Mathlib.Tactic.NormNum

namespace SoTp.Lib

/-- Number of values of a `uint64_t`. -/
def word : Nat := 2 ^ 64

def add64 (a b : Nat) : Nat := (a + b) % word

def sub64 (a b : Nat) : Nat := (a + (word - b % word)) % word

/-- `~m` on 64 bits. -/
def not64 (m : Nat) : Nat := (word - 1) ^^^ m

/-- The flag in the most significant bit. -/
def topBit : Nat := 2 ^ 63

theorem add64_of_lt {a b : Nat} (h : a + b < word) : add64 a b = a + b := Nat.mod_eq_of_lt h

theorem sub64_of_le {a b : Nat} (le : b ≤ a) (h : a < word) : sub64 a b = a - b := by
  unfold sub64
  rw [Nat.mod_eq_of_lt (Nat.lt_of_le_of_lt le h)]
  have e : a + (word - b) = (a - b) + word := by omega
  rw [e, Nat.add_mod_right, Nat.mod_eq_of_lt (by omega)]

/-- Masking with the complement of 2^k - 1 rounds down to a multiple of 2^k. -/
theorem and_not64_low {n k : Nat} (small : n < word) (hk : k ≤ 64) :
    n &&& not64 (2 ^ k - 1) = n / 2 ^ k * 2 ^ k := by
  apply Nat.eq_of_testBit_eq
  intro i
  have top : n.testBit i = true → i < 64 := fun h => by
    by_contra ge
    have : n < 2 ^ i := lt_of_lt_of_le small (Nat.pow_le_pow_right (by omega) (by omega))
    rw [Nat.testBit_lt_two_pow this] at h
    cases h
  simp only [not64, word, Nat.testBit_and, Nat.testBit_xor, Nat.testBit_two_pow_sub_one,
    Nat.testBit_mul_two_pow, Nat.testBit_div_two_pow]
  by_cases low : k ≤ i
  · rw [show i - k + k = i by omega]
    cases h : n.testBit i with
    | false => simp
    | true => simp [low, top h, Nat.not_lt.mpr low]
  · simp [low, show i < 64 by omega, Nat.lt_of_not_le low]

/-- The flag is clear exactly in the words below 2^63. -/
theorem and_topBit_eq_zero {n : Nat} (small : n < word) : n &&& topBit = 0 ↔ n < topBit := by
  unfold topBit word at *
  rw [Nat.and_two_pow, Nat.testBit_eq_decide_div_mod_eq]
  by_cases clear : n / 2 ^ 63 % 2 = 1
  · simp only [clear, decide_true, Bool.toNat_true]
    omega
  · simp only [clear, decide_false, Bool.toNat_false]
    omega

/-- Setting a clear flag adds it. -/
theorem or_topBit {n : Nat} (clear : n < topBit) : n ||| topBit = n + topBit := by
  have e := Nat.two_pow_add_eq_or_of_lt clear 1
  rw [Nat.mul_one] at e
  rw [Nat.or_comm, Nat.add_comm]
  exact e.symm

/-- Clearing the flag of a flagged word gives the word below. -/
theorem and_not64_topBit {n : Nat} (clear : n < topBit) : (n + topBit) &&& not64 topBit = n := by
  have e : not64 topBit = 2 ^ 63 - 1 := by decide
  rw [e, Nat.and_two_pow_sub_one_eq_mod]
  unfold topBit at *
  omega

end SoTp.Lib
