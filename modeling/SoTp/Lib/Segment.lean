/-
Linked segments. `Segment next a xs b` says that following `next` from `a`
visits exactly the cells `xs`, in this order, and arrives at `b`. It is the one
notion behind every linked structure of the development: a list that ends at
NULL, a list that ends at a marker block, and a ring that ends where it began.

* `segment_append`, `segment_concat` — a segment splits at every cell.
* `segment_update` — a write to a cell outside a segment leaves it alone.
* `segment_relink` — redirecting the last cell redirects the end.
* `segment_length_unique` — two walks of one length agree.
-/

import Mathlib.Data.List.Basic
import Mathlib.Logic.Function.Basic

namespace SoTp.Lib

variable {α : Type}

/-- Following `next` from `a` visits the cells `xs` and arrives at `b`. -/
def Segment (next : α → α) : α → List α → α → Prop
  | a, [], b => a = b
  | a, x :: xs, b => a = x ∧ Segment next (next x) xs b

@[simp] theorem segment_nil {next : α → α} {a b : α} : Segment next a [] b ↔ a = b := Iff.rfl

@[simp] theorem segment_cons {next : α → α} {a x b : α} {xs : List α} :
    Segment next a (x :: xs) b ↔ a = x ∧ Segment next (next x) xs b := Iff.rfl

/-- A segment splits wherever its list of cells does. -/
theorem segment_append {next : α → α} {a b : α} {xs ys : List α} :
    Segment next a (xs ++ ys) b ↔ ∃ c, Segment next a xs c ∧ Segment next c ys b := by
  induction xs generalizing a with
  | nil => simp
  | cons x xs ih =>
      simp only [List.cons_append, segment_cons, ih]
      constructor
      · rintro ⟨rfl, c, h₁, h₂⟩
        exact ⟨c, ⟨rfl, h₁⟩, h₂⟩
      · rintro ⟨c, ⟨rfl, h₁⟩, h₂⟩
        exact ⟨rfl, c, h₁, h₂⟩

/-- The last cell of a segment points at its end. -/
theorem segment_concat {next : α → α} {a x b : α} {xs : List α} :
    Segment next a (xs ++ [x]) b ↔ Segment next a xs x ∧ next x = b := by
  rw [segment_append]
  constructor
  · rintro ⟨c, h, rfl, e⟩
    exact ⟨h, e⟩
  · rintro ⟨h, e⟩
    exact ⟨x, h, rfl, e⟩

/-- A segment that passes through a cell, cut before it. -/
theorem segment_middle {next : α → α} {a x b : α} {xs ys : List α} :
    Segment next a (xs ++ x :: ys) b ↔ Segment next a xs x ∧ Segment next (next x) ys b := by
  rw [segment_append]
  constructor
  · rintro ⟨c, h, rfl, e⟩
    exact ⟨h, e⟩
  · rintro ⟨h, e⟩
    exact ⟨x, h, rfl, e⟩

/-- Two link functions that agree on the cells give the same segment. -/
theorem segment_congr {next next' : α → α} {a b : α} {xs : List α}
    (agree : ∀ x ∈ xs, next' x = next x) : Segment next' a xs b ↔ Segment next a xs b := by
  induction xs generalizing a with
  | nil => simp
  | cons x xs ih =>
      simp only [segment_cons, agree x List.mem_cons_self]
      rw [ih fun y hy => agree y (List.mem_cons_of_mem x hy)]

/-- A write to a cell outside a segment leaves it alone. -/
theorem segment_update [DecidableEq α] {next : α → α} {a b y v : α} {xs : List α}
    (outside : y ∉ xs) : Segment (Function.update next y v) a xs b ↔ Segment next a xs b :=
  segment_congr fun _ hx => Function.update_of_ne (ne_of_mem_of_not_mem hx outside) v next

/-- Redirecting the last cell redirects the end of the segment. -/
theorem segment_relink [DecidableEq α] {next : α → α} {a b x v : α} {xs : List α}
    (h : Segment next a (xs ++ [x]) b) (once : x ∉ xs) :
    Segment (Function.update next x v) a (xs ++ [x]) v := by
  rw [segment_concat] at h ⊢
  exact ⟨(segment_update once).mpr h.1, Function.update_self x v next⟩

theorem segment_length_unique {next : α → α} {a b c : α} {xs ys : List α} (hx : Segment next a xs b)
    (hy : Segment next a ys c) (length : xs.length = ys.length) : xs = ys := by
  induction xs generalizing a ys with
  | nil => exact (List.length_eq_zero_iff.mp length.symm).symm
  | cons x xs ih =>
      cases ys with
      | nil => cases length
      | cons y ys =>
          obtain ⟨rfl, hx⟩ := hx
          obtain ⟨rfl, hy⟩ := hy
          rw [ih hx hy (Nat.succ.inj length)]

end SoTp.Lib
