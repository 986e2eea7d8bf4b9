/-
Pictures that are painted point by point: points in one color, and a part of the picture that is
copied to another place while it is read. A line of points is cut into pieces of one width; the
last points of a piece are in front of the next one.

* `paint_apply` — the points that were painted have the color, and the others what they had.
* `shiftPicture_apply` — a copy in place towards the front gets what stood there before.
* `in_piece_iff`, `before_piece_iff` — the points at the front of a piece, and those before it.
-/

import Mathlib.Algebra.Ring.Int.Defs
import Mathlib.Data.Int.Init
import Mathlib.Data.List.Basic
import Mathlib.Logic.Function.Basic
import Mathlib.Tactic.Common

namespace SoTp.Lib

variable {P κ : Type} [DecidableEq P]

def paint (color : κ) (points : List P) (picture : P → κ) : P → κ :=
  points.foldl (fun picture p => Function.update picture p color) picture

/-- Place by place from the front, each gets what stands `shift` places further. -/
def shiftPicture (place : Nat → P) (shift n : Nat) (picture : P → κ) : P → κ :=
  (List.range n).foldl (fun picture k =>
    Function.update picture (place k) (picture (place (k + shift)))) picture

section Painting

variable {place : Nat → P}

/-- Painting colours its points and no others. -/
theorem paint_apply (color : κ) (points : List P) (picture : P → κ) (p : P) :
    (p ∈ points → paint color points picture p = color) ∧
      (p ∉ points → paint color points picture p = picture p) := by
  induction points generalizing picture with
  | nil => exact ⟨fun mem => absurd mem List.not_mem_nil, fun _ => rfl⟩
  | cons q points ih =>
      obtain ⟨painted, left⟩ := ih (Function.update picture q color)
      constructor
      · intro mem
        by_cases later : p ∈ points
        · exact painted later
        · have here : p = q := (List.mem_cons.mp mem).resolve_right later
          rw [here] at left later ⊢
          exact (left later).trans (Function.update_self q color picture)
      · intro absent
        have later : p ∉ points := fun mem => absent (List.mem_cons_of_mem q mem)
        have here : p ≠ q := fun same => absent (same ▸ List.mem_cons_self)
        exact (left later).trans (Function.update_of_ne here color picture)

/-- Shifting moves the first `n` places and leaves the rest. -/
theorem shiftPicture_apply (shift n : Nat) (picture : P → κ)
    (injective : Function.Injective place) : (∀ i, shiftPicture place shift n picture (place i) =
      if i < n then picture (place (i + shift)) else picture (place i)) ∧
    ∀ p, (∀ i, p ≠ place i) → shiftPicture place shift n picture p = picture p := by
  induction n with
  | zero => exact ⟨fun i => (if_neg (Nat.not_lt_zero i)).symm, fun p _ => rfl⟩
  | succ n ih =>
      have last : shiftPicture place shift (n + 1) picture =
          Function.update (shiftPicture place shift n picture) (place n)
            (shiftPicture place shift n picture (place (n + shift))) := by
        unfold shiftPicture
        rw [List.range_succ, List.foldl_append]
        rfl
      constructor
      · intro i
        rw [last]
        by_cases here : i = n
        · -- What is read was not written yet.
          have later : ¬ n + shift < n := Nat.not_lt.mpr (Nat.le_add_right n shift)
          rw [here, Function.update_self, ih.1, if_neg later, if_pos (Nat.lt_succ_self n)]
        · rw [Function.update_of_ne fun same => here (injective same), ih.1]
          have order : i < n + 1 ↔ i < n := by omega
          rw [if_congr order rfl rfl]
      · intro p away
        rw [last, Function.update_of_ne (away n), ih.2 p away]

end Painting

section Pieces

variable {width size gap n i : Int}

/-- The first `size` points of piece `i`. -/
theorem in_piece_iff (pos : 0 < width) (size_le : size ≤ width) :
    (i * width ≤ n ∧ n < i * width + size) ↔ (n / width = i ∧ n % width < size) := by
  constructor
  · intro ⟨lower, upper⟩
    have split : n - i * width + width * i = n := by
      rw [Int.mul_comm]
      omega
    obtain ⟨div, mod⟩ := (Int.ediv_emod_unique pos).mpr ⟨split, by omega, by omega⟩
    exact ⟨div, by omega⟩
  · intro ⟨div, mod⟩
    have split := Int.mul_ediv_add_emod n width
    have nonneg := Int.emod_nonneg n (Int.ne_of_gt pos)
    rw [div, Int.mul_comm] at split
    omega

/-- `size` of the last `gap` points before piece `i`. -/
theorem before_piece_iff (gap_le : gap ≤ width) (size_le : size ≤ gap) (pos : 0 < gap) :
    (i * width - gap ≤ n ∧ n < i * width - gap + size) ↔
      (n / width + 1 = i ∧ width - gap ≤ n % width ∧ n % width < width - gap + size) := by
  have width_pos : 0 < width := by omega
  constructor
  · intro ⟨lower, upper⟩
    have split : n - (i - 1) * width + width * (i - 1) = n := by
      rw [Int.mul_comm]
      omega
    rw [Int.sub_mul, Int.one_mul] at split
    obtain ⟨div, mod⟩ := (Int.ediv_emod_unique width_pos).mpr ⟨split, by omega, by omega⟩
    omega
  · intro ⟨div, lower, upper⟩
    have split := Int.mul_ediv_add_emod n width
    have next : i * width = n / width * width + width := by rw [← div, Int.add_mul, Int.one_mul]
    rw [Int.mul_comm] at split
    omega

end Pieces

end SoTp.Lib
