/-
Looking for a key in a list that is sorted by keys. The search leaves at the first larger
key, and finds what a scan of the whole list finds.

* `seek_eq_find` — the search is the scan.
* `find_sorted_iff` — the scan finds the one element of the key.
-/

import Mathlib.Order.Lattice
import Mathlib.Tactic.Common

namespace SoTp.Lib

variable {α β : Type} [LinearOrder β]

/-- The first element of the key, looked for up to the first larger key. -/
def seek (key : α → β) (x : β) : List α → Option α
  | [] => none
  | [a] => if key a = x then some a else none
  | a :: b :: rest =>
      if key a = x then some a else if key b ≤ x then seek key x (b :: rest) else none

section Sorted

variable {key : α → β} {x : β} {xs : List α}

/-- In a sorted list, seeking stops early and still finds what a search finds. -/
theorem seek_eq_find (sorted : xs.Pairwise fun a b => key a < key b) :
    seek key x xs = xs.find? fun a => decide (key a = x) := by
  induction xs with
  | nil => rfl
  | cons a rest ih =>
      obtain ⟨first, later⟩ := List.pairwise_cons.mp sorted
      by_cases found : key a = x
      · cases rest <;> simp [seek, found]
      · cases rest with
        | nil => simp [seek, found]
        | cons b rest =>
            rw [seek, if_neg found, List.find?_cons_of_neg (by simpa using found)]
            by_cases le : key b ≤ x
            · rw [if_pos le, ih later]
            · -- All keys from `b` on are larger.
              rw [if_neg le, eq_comm, List.find?_eq_none]
              intro c mem same
              have above : key b ≤ key c := by
                rcases List.mem_cons.mp mem with rfl | mem
                · exact le_refl _
                · exact le_of_lt ((List.pairwise_cons.mp later).1 c mem)
              exact le (of_decide_eq_true same ▸ above)

/-- No two elements have one key. -/
theorem find_sorted_iff (sorted : xs.Pairwise fun a b => key a < key b) {a : α} :
    (xs.find? fun a => decide (key a = x)) = some a ↔ a ∈ xs ∧ key a = x := by
  constructor
  · intro found
    have same := List.find?_some found
    exact ⟨List.mem_of_find?_eq_some found, of_decide_eq_true same⟩
  · rintro ⟨mem, rfl⟩
    induction xs with
    | nil => cases mem
    | cons b rest ih =>
        obtain ⟨first, later⟩ := List.pairwise_cons.mp sorted
        rcases List.mem_cons.mp mem with rfl | mem
        · exact List.find?_cons_of_pos (by simp)
        · have other : key b ≠ key a := ne_of_lt (first a mem)
          rw [List.find?_cons_of_neg (by simpa using other)]
          exact ih later mem

end Sorted

end SoTp.Lib
