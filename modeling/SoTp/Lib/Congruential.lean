/-
Linear congruential sequences modulo powers of two, `x ↦ a * x + c` with `a % 4 = 1` and an odd `c`.
Modulo `2 ^ k` such a sequence goes through all residues before it comes back, so the low bits run
through cycles of their own.

* `iterate_increment` — `2 ^ k` steps are one step with another multiplier and another increment.
* `iterate_returns` — the sequence comes back exactly after the multiples of `2 ^ k` steps.
* `iterate_covers` — each residue comes once in any `2 ^ k` steps.
-/

import Mathlib.Data.Fintype.EquivFin
import Mathlib.Data.Nat.ModEq
import Mathlib.Logic.Function.Iterate
import Mathlib.Tactic.Ring

namespace SoTp.Lib

def congruential (a c x : Nat) : Nat := a * x + c

/-- The increment of `2 ^ k` steps in one. -/
def increment (a c : Nat) : Nat → Nat
  | 0 => c
  | k + 1 => increment a c k * (a ^ 2 ^ k + 1)

section Congruential

variable {a c x y n i j k m : Nat}

/-- `2 ^ k` steps are one affine step, -/
theorem iterate_increment (k x : Nat) :
    (congruential a c)^[2 ^ k] x = a ^ 2 ^ k * x + increment a c k := by
  induction k generalizing x with
  | zero => simp [congruential, increment]
  | succ k ih =>
      have halves : 2 ^ (k + 1) = 2 ^ k + 2 ^ k := by ring
      rw [halves, Function.iterate_add_apply, ih, ih, increment, pow_add]
      ring

/-- with a multiplier that is 1 modulo `2 ^ (k + 2)`, -/
theorem multiplier_form (four : a % 4 = 1) (k : Nat) : ∃ t, a ^ 2 ^ k = 1 + 2 ^ (k + 2) * t := by
  induction k with
  | zero => exact ⟨a / 4, by norm_num; omega⟩
  | succ k ih =>
      obtain ⟨t, form⟩ := ih
      refine ⟨t + 2 ^ (k + 1) * t * t, ?_⟩
      rw [pow_succ 2 k, pow_mul, form]
      ring

/-- and an increment that is an odd multiple of `2 ^ k`. -/
theorem increment_form (four : a % 4 = 1) (odd : c % 2 = 1) (k : Nat) :
    ∃ s, increment a c k = 2 ^ k * (2 * s + 1) := by
  induction k with
  | zero => exact ⟨c / 2, by rw [increment]; omega⟩
  | succ k ih =>
      obtain ⟨s, form⟩ := ih
      obtain ⟨t, form'⟩ := multiplier_form four k
      refine ⟨s + (2 * s + 1) * 2 ^ k * t, ?_⟩
      rw [increment, form, form']
      ring

/-- A step respects every modulus. -/
theorem congruential_congr (same : x ≡ y [MOD m]) :
    congruential a c x ≡ congruential a c y [MOD m] :=
  (same.mul_left a).add_right c

/-- After `2 ^ k` steps bit `k` is another one, and those below are the same. -/
theorem iterate_flips (four : a % 4 = 1) (odd : c % 2 = 1) (k x : Nat) :
    (congruential a c)^[2 ^ k] x ≡ x + 2 ^ k [MOD 2 ^ (k + 1)] := by
  obtain ⟨t, form⟩ := multiplier_form four k
  obtain ⟨s, form'⟩ := increment_form four odd k
  have all : (congruential a c)^[2 ^ k] x = x + 2 ^ k + 2 ^ (k + 1) * (2 * t * x + s) := by
    rw [iterate_increment, form, form']
    ring
  rw [all]
  exact Nat.modEq_iff_dvd.mpr ⟨-(2 * t * x + s : Nat), by push_cast; ring⟩

/-- `2 ^ k * m` steps add as much, modulo `2 ^ (k + 1)`, -/
theorem iterate_multiples (four : a % 4 = 1) (odd : c % 2 = 1) (k x m : Nat) :
    (congruential a c)^[2 ^ k * m] x ≡ x + 2 ^ k * m [MOD 2 ^ (k + 1)] := by
  induction m with
  | zero => rfl
  | succ m ih =>
      have steps : 2 ^ k * (m + 1) = 2 ^ k + 2 ^ k * m := by ring
      have target : x + (2 ^ k + 2 ^ k * m) = x + 2 ^ k * m + 2 ^ k := by ring
      rw [steps, Function.iterate_add_apply, target]
      exact (iterate_flips four odd k _).trans (ih.add_right _)

/-- so modulo `2 ^ k` the generator is back exactly after the multiples of `2 ^ k`, -/
theorem iterate_returns (four : a % 4 = 1) (odd : c % 2 = 1) (k n x : Nat) :
    (congruential a c)^[n] x ≡ x [MOD 2 ^ k] ↔ 2 ^ k ∣ n := by
  induction k with
  | zero => simp [Nat.modEq_one]
  | succ k ih =>
      have multiples : ∀ m, (congruential a c)^[2 ^ k * m] x ≡ x [MOD 2 ^ (k + 1)] ↔
          2 ^ (k + 1) ∣ 2 ^ k * m := by
        intro m
        have returns : x + 2 ^ k * m ≡ x [MOD 2 ^ (k + 1)] ↔ 2 ^ (k + 1) ∣ 2 ^ k * m := by
          rw [← Nat.modEq_zero_iff_dvd]
          exact ⟨fun same => Nat.ModEq.add_left_cancel' x same, fun same => same.add_left x⟩
        rw [← returns]
        exact ⟨(iterate_multiples four odd k x m).symm.trans,
          (iterate_multiples four odd k x m).trans⟩
      have coarser : 2 ^ k ∣ 2 ^ (k + 1) := pow_dvd_pow 2 (Nat.le_succ k)
      constructor
      · intro same
        obtain ⟨m, rfl⟩ := ih.mp (same.of_dvd coarser)
        exact (multiples m).mp same
      · intro divides
        obtain ⟨m, rfl⟩ := coarser.trans divides
        exact (multiples m).mpr divides

/-- and two of its numbers agree exactly when that is how far they are apart. -/
theorem iterate_agree (four : a % 4 = 1) (odd : c % 2 = 1) (k x : Nat) :
    (congruential a c)^[i] x ≡ (congruential a c)^[j] x [MOD 2 ^ k] ↔ i ≡ j [MOD 2 ^ k] := by
  wlog order : i ≤ j generalizing i j
  · rw [Nat.ModEq.comm, this (Nat.le_of_not_le order), Nat.ModEq.comm]
  obtain ⟨n, rfl⟩ := Nat.exists_eq_add_of_le' order
  rw [Function.iterate_add_apply, Nat.ModEq.comm, iterate_returns four odd,
    Nat.modEq_iff_dvd' order, Nat.add_sub_cancel]

/-- Any `2 ^ k` terms in a row are all the residues, each once. -/
theorem iterate_covers (four : a % 4 = 1) (odd : c % 2 = 1) (k x v : Nat) :
    ∃! i, i < 2 ^ k ∧ (congruential a c)^[i] x ≡ v [MOD 2 ^ k] := by
  have positive : 0 < 2 ^ k := Nat.two_pow_pos k
  let residue (i : Fin (2 ^ k)) : Fin (2 ^ k) :=
    ⟨(congruential a c)^[i] x % 2 ^ k, Nat.mod_lt _ positive⟩
  have injective : Function.Injective residue := by
    intro i j same
    have agree : i.val ≡ j.val [MOD 2 ^ k] := (iterate_agree four odd k x).mp (Fin.mk.inj same)
    exact Fin.ext (agree.eq_of_lt_of_lt i.isLt j.isLt)
  obtain ⟨i, found⟩ := Finite.surjective_of_injective injective ⟨v % 2 ^ k, Nat.mod_lt _ positive⟩
  refine ⟨i, ⟨i.isLt, Fin.mk.inj found⟩, ?_⟩
  rintro j ⟨lt, other⟩
  have agree : j ≡ i.val [MOD 2 ^ k] :=
    (iterate_agree four odd k x).mp (other.trans (Fin.mk.inj found).symm)
  exact agree.eq_of_lt_of_lt lt i.isLt

end Congruential

end SoTp.Lib
