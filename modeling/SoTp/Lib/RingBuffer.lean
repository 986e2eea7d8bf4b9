/-
A ring buffer, related to the sequences of what was stored and what was taken. The
two indices are those sequences' lengths modulo the size, and what was not taken yet
is in place. Storing needs room and taking needs something stored; the buffer itself
checks neither.

* `Buffered.empty`, `Buffered.store`, `Buffered.take`.
-/

import Mathlib.Data.List.Infix
import Mathlib.Logic.Function.Basic

namespace SoTp.Lib

variable {α : Type}

/-- The buffer holds what is left of `stored` after `taken`. -/
structure Buffered (size : Nat) (buffer : Nat → α) (readIdx writeIdx : Nat)
    (stored taken : List α) : Prop where
  front : taken <+: stored
  bound : stored.length ≤ taken.length + size
  readIdx : readIdx = taken.length % size
  writeIdx : writeIdx = stored.length % size
  unread : ∀ i b, taken.length ≤ i → stored[i]? = some b → buffer (i % size) = b

namespace Buffered

variable {size readIdx writeIdx : Nat} {buffer : Nat → α} {stored taken : List α}

theorem empty (buffer : Nat → α) : Buffered size buffer 0 0 [] [] :=
  ⟨List.prefix_rfl, Nat.zero_le _, (Nat.zero_mod _).symm, (Nat.zero_mod _).symm, fun _ _ _ h => by
    simp at h⟩

/-- No more was taken than stored. -/
theorem length_le (h : Buffered size buffer readIdx writeIdx stored taken) :
    taken.length ≤ stored.length := h.front.length_le

/-- Two places less than the size apart are different slots. -/
theorem slot_ne {size i j : Nat} (lt : i < j) (near : j < i + size) : i % size ≠ j % size := by
  intro e
  have divides : size ∣ j - i := Nat.dvd_of_mod_eq_zero (Nat.sub_mod_eq_zero_of_mod_eq e.symm)
  exact absurd (Nat.le_of_dvd (by omega) divides) (by omega)

/-- With room for it, a byte is stored behind the others. -/
theorem store (h : Buffered size buffer readIdx writeIdx stored taken)
    (room : stored.length < taken.length + size) (b : α) :
    Buffered size (Function.update buffer writeIdx b) readIdx ((writeIdx + 1) % size)
      (stored ++ [b]) taken where
  front := h.front.trans (List.prefix_append _ _)
  bound := by
    rw [List.length_append, List.length_singleton]
    omega
  readIdx := h.readIdx
  writeIdx := by
    rw [h.writeIdx, List.length_append, List.length_singleton, Nat.mod_add_mod]
  unread i c ge found := by
    rw [h.writeIdx, Function.update_apply]
    by_cases old : i < stored.length
    · rw [if_neg (slot_ne old (by omega))]
      exact h.unread i c ge (by rwa [List.getElem?_append_left old] at found)
    · have e : i = stored.length := by
        have := (List.getElem?_eq_some_iff.mp found).1
        rw [List.length_append, List.length_singleton] at this
        omega
      subst e
      rw [if_pos rfl]
      simpa using found

/-- The next value to be taken is the oldest one that was stored and not taken. -/
theorem take (h : Buffered size buffer readIdx writeIdx stored taken)
    (some : taken.length < stored.length) :
    Buffered size buffer ((readIdx + 1) % size) writeIdx stored (taken ++ [buffer readIdx]) := by
  have found : stored[taken.length]? = .some (buffer readIdx) := by
    rw [List.getElem?_eq_getElem some, h.readIdx,
      h.unread taken.length _ (Nat.le_refl _) (List.getElem?_eq_getElem some)]
  obtain ⟨rest, e⟩ := h.front
  refine ⟨?_, ?_, ?_, h.writeIdx, fun i b ge => h.unread i b ?_⟩
  · cases rest with
    | nil =>
        rw [List.append_nil] at e
        rw [e] at some
        exact absurd some (Nat.lt_irrefl _)
    | cons c rest =>
        rw [← e] at found
        simp only [List.getElem?_append_right (Nat.le_refl _), Nat.sub_self,
          List.getElem?_cons_zero, Option.some.injEq] at found
        exact ⟨rest, by rw [← e, found, List.append_assoc]; rfl⟩
  · have := h.bound
    rw [List.length_append, List.length_singleton]
    omega
  · rw [h.readIdx, List.length_append, List.length_singleton, Nat.mod_add_mod]
  · rw [List.length_append, List.length_singleton] at ge
    omega

end Buffered

end SoTp.Lib
