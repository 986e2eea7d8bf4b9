/-
Lists of what was used most recently, newest first, with a cursor that reads backwards in
time. An entry that is recorded goes to the front, an older one that is the same is
dropped, and so is the oldest one beyond the size.

* `Distinct.record` — no two entries are the same.
* `prevs_rest` — reading back from the newest entry gives the whole list.
-/

import Mathlib.Data.List.Basic
import Mathlib.Tactic.Common

namespace SoTp.Lib

/-- The entries, newest first, and how many of them have been read. -/
structure Recent (α : Type) where
  entries : List α
  cursor : Nat

namespace Recent

variable {α : Type}

/-- The most recent entries with `e` recorded. -/
def recorded (same : α → α → Bool) (size : Nat) (e : α) (entries : List α) : List α :=
  (e :: entries.filter fun x => !same e x).take size

def record (same : α → α → Bool) (size : Nat) (e : α) (r : Recent α) : Recent α :=
  ⟨recorded same size e r.entries, 0⟩

/-- The next older entry, if there is one. -/
def prev (r : Recent α) : Option α × Recent α :=
  if r.cursor < r.entries.length then (r.entries[r.cursor]?, { r with cursor := r.cursor + 1 })
  else (none, r)

/-- Back towards the newest entry, which is not read again. -/
def next (r : Recent α) : Option α × Recent α :=
  if r.cursor ≤ 1 then (none, r)
  else (r.entries[r.cursor - 2]?, { r with cursor := r.cursor - 1 })

def rest (r : Recent α) : Recent α := { r with cursor := 0 }

/-- What `n` reads give. -/
def prevs : Nat → Recent α → List (Option α)
  | 0, _ => []
  | n + 1, r => r.prev.1 :: prevs n r.prev.2

/-- No two entries are the same. -/
def Distinct (same : α → α → Bool) (entries : List α) : Prop :=
  entries.Pairwise fun x y => same x y = false

section Recorded

variable {same : α → α → Bool} {e : α} {entries : List α} {size : Nat}

theorem same_symm (equiv : Equivalence fun x y => same x y = true) (x y : α) :
    same x y = same y x := by
  rw [Bool.eq_iff_iff]
  exact ⟨equiv.symm, equiv.symm⟩

/-- Recording keeps the entries different. -/
theorem Distinct.record (distinct : Distinct same entries) :
    Distinct same (recorded same size e entries) := by
  refine List.Pairwise.sublist (List.take_sublist size _) ?_
  refine List.Pairwise.cons (fun x mem => ?_) (distinct.sublist List.filter_sublist)
  have := (List.mem_filter.mp mem).2
  simpa using this

/-- What is the same as an entry is the same as no other one. -/
theorem Distinct.filter_found (equiv : Equivalence fun x y => same x y = true)
    {before after : List α}
    {x : α} (distinct : Distinct same (before ++ x :: after)) (found : same e x = true) :
    (before ++ x :: after).filter (fun y => !same e y) = before ++ after := by
  obtain ⟨-, behind, ahead⟩ := List.pairwise_append.mp distinct
  have other : ∀ y, same x y = false → same e y = false := fun y ne => by
    by_contra eq
    rw [Bool.not_eq_false] at eq
    have := equiv.trans (equiv.symm found) eq
    simp only [ne, Bool.false_eq_true] at this
  have kept : ∀ y ∈ before, same e y = false := fun y mem =>
    other y (by rw [same_symm equiv]; exact ahead y mem x List.mem_cons_self)
  have kept' : ∀ y ∈ after, same e y = false := fun y mem =>
    other y ((List.pairwise_cons.mp behind).1 y mem)
  rw [List.filter_append, List.filter_cons_of_neg (by simp [found]),
    List.filter_eq_self.mpr fun y mem => by simp [kept y mem],
    List.filter_eq_self.mpr fun y mem => by simp [kept' y mem]]

/-- What is the same as no entry is new. -/
theorem filter_new (new : ∀ y ∈ entries, same e y = false) :
    entries.filter (fun y => !same e y) = entries :=
  List.filter_eq_self.mpr fun y mem => by simp [new y mem]

end Recorded

section Prevs

variable {r : Recent α}

/-- Reading back gives the entries from the cursor on. -/
theorem prevs_getElem? (n : Nat) (le : r.cursor ≤ r.entries.length) :
    prevs n r = (List.range n).map fun i => r.entries[r.cursor + i]? := by
  induction n generalizing r with
  | zero => rfl
  | succ n ih =>
      rw [List.range_succ_eq_map, List.map_cons, List.map_map, prevs, prev]
      split_ifs with more
      · rw [ih (r := { r with cursor := r.cursor + 1 }) more, Nat.add_zero]
        congr 1
        refine List.map_congr_left fun i _ => ?_
        simp only [Function.comp, Nat.succ_eq_add_one]
        rw [Nat.add_right_comm, Nat.add_assoc]
      · have past : ∀ i, r.entries[r.cursor + i]? = none := fun i =>
          List.getElem?_eq_none (by omega)
        rw [ih le]
        simp only [past]
        rfl

/-- Reading back from the newest entry gives the whole list, and then nothing more. -/
theorem prevs_rest (n : Nat) : prevs n r.rest = (List.range n).map fun i => r.entries[i]? := by
  rw [prevs_getElem? n (Nat.zero_le _)]
  simp only [rest, Nat.zero_add]

end Prevs

end Recent

end SoTp.Lib
