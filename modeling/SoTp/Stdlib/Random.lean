/-
Random numbers (`rand` and `randBetween` in `Userland/UserModule/c2/stdlib.c`, `commandRand`
in `shellCommands.c`). A division by zero ends the program. The number of values of an
`int32_t` does not fit one, so that a range of all of them has the width 0.

* `randBetween_value` — in any other range, the number drawn is the one of the exact arithmetic.
* `randBetween_iff` — a number of the range is drawn exactly if the range is not all of them.
* `commandRand_numbers` — so are all numbers of the command `rand`.
-/

import SoTp.Stdlib.RoundTrip

namespace SoTp.Stdlib

/-- A number in a `uint32_t`. -/
def uint32 (n : Int) : Nat := (n % 2 ^ 32).toNat

/-- What is returned is also the new `srand`. -/
def rand (srand : Nat) : Nat := (22695477 * srand + 1) % (2 <<< 31) &&& 0x3FFFFFFF

/-- The number, `none` where it divides by zero, and `srand`. -/
def randBetween (srand : Nat) (min max : Int) : Option Nat × Nat :=
  let srand := rand srand
  let width := uint32 (int32 (int32 (max - min) + 1))
  (if width = 0 then none else some (uint32 ((srand % width : Nat) + uint32 min)), srand)

/-! ### The command -/

/-- `while (count--)`, for as many rounds as there are. -/
def draw (min max : Int) : Nat → Nat → Option (List Nat) × Nat
  | 0, srand => (some [], srand)
  | count + 1, srand =>
      match randBetween srand min max with
      | (none, srand) => (none, srand)
      | (some r, srand) => ((draw min max count srand).1.map (r :: ·), (draw min max count srand).2)

/-- The static variables. -/
structure Generator where
  randInitialized : Bool
  srand : Nat
deriving DecidableEq

/-- How the command ends; a negative `count` comes to 0 by way of all the others. -/
inductive Rand where
  | missingArguments
  | illegalArgument (min max : Int)
  | zeroDivision
  | numbers (drawn : List Nat)
deriving DecidableEq

def commandRand (ticks : Nat) (g : Generator) (argv : List Text) : Rand × Generator :=
  let srand := if g.randInitialized then g.srand else ticks % 2 ^ 32
  if argv.length < 3 then (.missingArguments, ⟨true, srand⟩)
  else
    let min := strToInt (argv.getD 1 [])
    let max := strToInt (argv.getD 2 [])
    if max < min then (.illegalArgument min max, ⟨true, srand⟩)
    else
      let count := if argv.length > 3 then strToInt (argv.getD 3 []) else 1
      match draw min max (uint32 count) srand with
      | (none, srand) => (.zeroDivision, ⟨true, srand⟩)
      | (some drawn, srand) => (.numbers drawn, ⟨true, srand⟩)

/-! ### What is drawn -/

/-- A number of the range is drawn. -/
def Between (srand : Nat) (min max : Int) : Prop :=
  ∃ r, (randBetween srand min max).1 = some r ∧ min ≤ int32 r ∧ int32 r ≤ max

/-- The ends of a range that is not empty. -/
structure Range (min max : Int) : Prop where
  least : -2 ^ 31 ≤ min
  order : min ≤ max
  greatest : max < 2 ^ 31

/-- The range is all of the `int32_t`. -/
def Full (min max : Int) : Prop := min = -2 ^ 31 ∧ max = 2 ^ 31 - 1

section Drawing

variable {min max : Int}

/-- The width of the range is the number of its elements, modulo `2^32`. -/
theorem width_eq (range : Range min max) :
    uint32 (int32 (int32 (max - min) + 1)) = if max - min + 1 = 2 ^ 32 then 0
      else (max - min + 1).toNat := by
  obtain ⟨least, order, greatest⟩ := range
  have wrapped : uint32 (int32 (int32 (max - min) + 1)) = ((max - min + 1) % 2 ^ 32).toNat := by
    unfold uint32 int32
    rw [Int.bmod_def, Int.bmod_def]
    omega
  rw [wrapped]
  split <;> omega

/-- `randBetween` for the width it computes: no number when it is zero, and the least one
plus the remainder otherwise. -/
theorem randBetween_eq (srand : Nat) {width : Nat}
    (eq : uint32 (int32 (int32 (max - min) + 1)) = width) : (randBetween srand min max).1 =
      if width = 0 then none else some (uint32 ((rand srand % width : Nat) + uint32 min)) := by
  rw [← eq]
  rfl

/-- A range of all numbers has no width. -/
theorem randBetween_full (srand : Nat) (range : Range min max) (full : Full min max) :
    (randBetween srand min max).1 = none := by
  have all : max - min + 1 = 2 ^ 32 := by
    obtain ⟨least, greatest⟩ := full
    omega
  rw [randBetween_eq srand (width_eq range), if_pos all, if_pos rfl]

/-- In any other range, the number is what the exact arithmetic gives. -/
theorem randBetween_value (srand : Nat) (range : Range min max) (part : ¬ Full min max) :
    ∃ r, (randBetween srand min max).1 = some r ∧
      int32 r = min + (rand srand % (max - min + 1).toNat : Nat) := by
  have width := width_eq range
  obtain ⟨least, order, greatest⟩ := range
  have short : max - min + 1 ≠ 2 ^ 32 := fun all => part ⟨by omega, by omega⟩
  rw [if_neg short] at width
  have positive : (max - min + 1).toNat ≠ 0 := by omega
  refine ⟨uint32 ((rand srand % (max - min + 1).toNat : Nat) + uint32 min), ?_, ?_⟩
  · rw [randBetween_eq srand width, if_neg positive]
  · have below : rand srand % (max - min + 1).toNat < (max - min + 1).toNat :=
      Nat.mod_lt _ (by omega)
    generalize rand srand % (max - min + 1).toNat = r at below
    unfold uint32 int32
    rw [Int.bmod_def]
    omega

theorem between_of_part (srand : Nat) (range : Range min max) (part : ¬ Full min max) :
    Between srand min max := by
  obtain ⟨r, drawn, value⟩ := randBetween_value srand range part
  have below : rand srand % (max - min + 1).toNat < (max - min + 1).toNat :=
    Nat.mod_lt _ (by have := range.order; omega)
  exact ⟨r, drawn, by omega, by omega⟩

/-- Not all of the `int32_t`: then there is no division by zero and the number is in the
range. -/
theorem randBetween_iff (srand : Nat) (range : Range min max) : Between srand min max ↔
    ¬ Full min max := by
  constructor
  · rintro ⟨r, drawn, -⟩ full
    rw [randBetween_full srand range full] at drawn
    cases drawn
  · exact between_of_part srand range

/-- A range around zero. -/
theorem randBetween_iff_around_zero : Between 7 (-1) 1 ↔ ¬ Full (-1) 1 :=
  randBetween_iff 7 ⟨by decide, by decide, by decide⟩

/-- `rand -2147483648 2147483647` is admitted, and divides by zero. -/
theorem rand_divides_by_zero : Range (-2 ^ 31) (2 ^ 31 - 1) ∧ ¬ Between 0 (-2 ^ 31) (2 ^ 31 - 1) ∧
    (commandRand 0 ⟨true, 0⟩ [['r', 'a', 'n', 'd'],
      ['-', '2', '1', '4', '7', '4', '8', '3', '6', '4', '8'],
      ['2', '1', '4', '7', '4', '8', '3', '6', '4', '7']]).1 = .zeroDivision := by
  have range : Range (-2 ^ 31) (2 ^ 31 - 1) := ⟨by decide, by decide, by decide⟩
  refine ⟨range, ?_, by decide +kernel⟩
  rintro ⟨r, drawn, -⟩
  cases (randBetween_full 0 range ⟨rfl, rfl⟩).symm.trans drawn

/-- One draw more. -/
theorem draw_succ {count srand srand' r : Nat}
    (round : randBetween srand min max = (some r, srand')) :
    draw min max (count + 1) srand =
      ((draw min max count srand').1.map (r :: ·), (draw min max count srand').2) := by
  show (match randBetween srand min max with
    | (none, srand) => (none, srand)
    | (some r, srand) =>
        ((draw min max count srand).1.map (r :: ·), (draw min max count srand).2)) = _
  rw [round]

/-- As many as are asked for, and all of the range. -/
theorem draw_between (range : Range min max) (part : ¬ Full min max) (count srand : Nat) :
    ∃ drawn, (draw min max count srand).1 = some drawn ∧ drawn.length = count ∧
      ∀ r ∈ drawn, min ≤ int32 r ∧ int32 r ≤ max := by
  induction count generalizing srand with
  | zero => exact ⟨[], rfl, rfl, fun r mem => by cases mem⟩
  | succ count ih =>
      obtain ⟨r, first, ge, le⟩ := between_of_part srand range part
      obtain ⟨drawn, rest, length, inside⟩ := ih (rand srand)
      have round : randBetween srand min max = (some r, rand srand) := Prod.ext first rfl
      refine ⟨r :: drawn, ?_, by rw [List.length_cons, length], ?_⟩
      · rw [draw_succ round, rest]
        rfl
      · rintro s (_ | ⟨_, later⟩)
        · exact ⟨ge, le⟩
        · exact inside s later

end Drawing

/-- Where the range is not all of the `int32_t`, the command ends with as many numbers of the
range as it is asked for. -/
theorem commandRand_numbers (ticks : Nat) (g : Generator) {argv : List Text}
    (enough : 3 ≤ argv.length) (order : strToInt (argv.getD 1 []) ≤ strToInt (argv.getD 2 []))
    (part : ¬ Full (strToInt (argv.getD 1 [])) (strToInt (argv.getD 2 []))) :
    ∃ drawn, (commandRand ticks g argv).1 = .numbers drawn ∧
      drawn.length = uint32 (if argv.length > 3 then strToInt (argv.getD 3 []) else 1) ∧
      ∀ r ∈ drawn, strToInt (argv.getD 1 []) ≤ int32 r ∧ int32 r ≤ strToInt (argv.getD 2 []) := by
  have range : Range (strToInt (argv.getD 1 [])) (strToInt (argv.getD 2 [])) :=
    ⟨(int32_range _).1, order, (int32_range _).2⟩
  obtain ⟨drawn, all, length, inside⟩ := draw_between range part
    (uint32 (if argv.length > 3 then strToInt (argv.getD 3 []) else 1))
    (if g.randInitialized then g.srand else ticks % 2 ^ 32)
  refine ⟨drawn, ?_, length, inside⟩
  unfold commandRand
  rw [if_neg (Nat.not_lt.mpr enough), if_neg (Int.not_lt.mpr order)]
  dsimp only
  generalize draw _ _ _ _ = out at all ⊢
  obtain ⟨result, srand⟩ := out
  obtain rfl : result = some drawn := all
  rfl

end SoTp.Stdlib
