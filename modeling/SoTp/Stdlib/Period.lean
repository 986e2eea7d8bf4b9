/-
The period of `rand`. The comment at its source says that the numbers seem to alternate between even
and odd ones; the two lowest bits have a cycle of four, and so on up to all thirty.

* `rand_iterate` — `rand` is a linear congruential sequence modulo `2 ^ 30`.
* `draw_value` — what the rounds of the command draw.
* `draw_cycles` — in a range of `2 ^ k` numbers, each one comes once in any `2 ^ k` rounds.
-/

import SoTp.Lib.Congruential
import SoTp.Stdlib.Random

namespace SoTp.Stdlib

open SoTp.Lib

section Period

variable {min max : Int} {k : Nat}

/-- The low 30 bits of `rand` are a step of a congruential generator, -/
theorem rand_congruential (srand : Nat) :
    rand srand ≡ congruential 22695477 1 srand [MOD 2 ^ 30] := by
  have bits : rand srand = (22695477 * srand + 1) % 2 ^ 32 % 2 ^ 30 :=
    Nat.and_two_pow_sub_one_eq_mod _ 30
  have divides : 2 ^ 30 ∣ 2 ^ 32 := pow_dvd_pow 2 (by decide)
  rw [bits, Nat.mod_mod_of_dvd _ divides]
  exact Nat.mod_modEq _ _

/-- and so are those of all the draws. -/
theorem rand_iterate (n srand : Nat) :
    rand^[n] srand ≡ (congruential 22695477 1)^[n] srand [MOD 2 ^ 30] := by
  induction n with
  | zero => rfl
  | succ n ih =>
      rw [Function.iterate_succ_apply', Function.iterate_succ_apply']
      exact (rand_congruential _).trans (congruential_congr ih)

/-- The numbers that are drawn, and from which `srand`. -/
theorem draw_value (range : Range min max) (part : ¬ Full min max) (count srand : Nat) :
    ∃ drawn, (draw min max count srand).1 = some drawn ∧ drawn.length = count ∧ ∀ n, n < count →
      (drawn[n]?).map int32 = some (min + (rand^[n + 1] srand % (max - min + 1).toNat : Nat)) := by
  induction count generalizing srand with
  | zero => exact ⟨[], rfl, rfl, fun n lt => absurd lt (Nat.not_lt_zero n)⟩
  | succ count ih =>
      obtain ⟨r, first, value⟩ := randBetween_value srand range part
      obtain ⟨drawn, rest, length, values⟩ := ih (rand srand)
      have round : randBetween srand min max = (some r, rand srand) := Prod.ext first rfl
      refine ⟨r :: drawn, ?_, congrArg (· + 1) length, fun n lt => ?_⟩
      · rw [draw_succ round, rest]
        rfl
      · cases n with
        | zero => exact congrArg some value
        | succ n => exact values n (Nat.lt_of_succ_lt_succ lt)

/-- The numbers of a range whose width is a power of two come each once in as many rounds. -/
theorem draw_cycles (range : Range min max) (width : max - min + 1 = 2 ^ k) (small : k ≤ 30)
    (count srand : Nat) :
    ∃ drawn, (draw min max count srand).1 = some drawn ∧ drawn.length = count ∧
      ∀ start v, start + 2 ^ k ≤ count → min ≤ v → v ≤ max →
        ∃! i, i < 2 ^ k ∧ (drawn[start + i]?).map int32 = some v := by
  have bound : (2 : Int) ^ k ≤ 2 ^ 30 := pow_le_pow_right₀ (by decide) small
  have part : ¬ Full min max := fun ⟨least, greatest⟩ => by omega
  obtain ⟨drawn, draws, length, values⟩ := draw_value range part count srand
  refine ⟨drawn, draws, length, fun start v window ge le => ?_⟩
  have elements : (max - min + 1).toNat = 2 ^ k := by
    rw [width]
    exact Int.toNat_natCast (2 ^ k)
  -- A number is its place in the range, modulo `2 ^ k`.
  have place : ∀ i, i < 2 ^ k → ((drawn[start + i]?).map int32 = some v ↔
      (congruential 22695477 1)^[i] (rand^[start + 1] srand) ≡ (v - min).toNat [MOD 2 ^ k]) := by
    intro i lt
    have divides : 2 ^ k ∣ 2 ^ 30 := pow_dvd_pow 2 small
    have same : rand^[start + i + 1] srand ≡ (congruential 22695477 1)^[i] (rand^[start + 1] srand)
        [MOD 2 ^ k] := by
      have order : start + i + 1 = i + (start + 1) := by omega
      rw [order, Function.iterate_add_apply]
      exact (rand_iterate i _).of_dvd divides
    have inside : (v - min).toNat < 2 ^ k := by omega
    rw [values (start + i) (by omega), elements, Option.some.injEq, same, Nat.ModEq,
      Nat.mod_eq_of_lt inside]
    omega
  obtain ⟨i, ⟨lt, residue⟩, unique⟩ :=
    iterate_covers (by decide : 22695477 % 4 = 1) (by decide : 1 % 2 = 1) k (rand^[start + 1] srand)
      (v - min).toNat
  refine ⟨i, ⟨lt, (place i lt).mpr residue⟩, ?_⟩
  rintro j ⟨lt', drawn'⟩
  exact unique j ⟨lt', (place j lt').mp drawn'⟩

theorem draw_cycles_eight : ∃ drawn, (draw (-3) 4 20 5).1 = some drawn ∧ drawn.length = 20 ∧
    ∀ (start : Nat) (v : Int), start + 2 ^ 3 ≤ 20 → -3 ≤ v → v ≤ 4 →
      ∃! i, i < 2 ^ 3 ∧ (drawn[start + i]?).map int32 = some v :=
  draw_cycles ⟨by decide, by decide, by decide⟩ (by decide) (by decide) 20 5

end Period

end SoTp.Stdlib
