/-
`memcpy` of `Kernel/c/lib.c`: words where addresses and length allow it, bytes elsewhere,
always forwards.

* `memcpy_spec` — both ways carry the source over, also onto an earlier part of itself.
* `memcpy_forward` — the same as what is in memory, for each of the two loops.
-/

import SoTp.Lib.Bytes

namespace SoTp.Modules

open SoTp.Lib

/-- `for (i = 0; i < length / sizeof(uint32_t); i++) d[i] = s[i]` on words. -/
def copyWords (mem : Bytes) (d s : Nat) : Nat → Bytes
  | 0 => mem
  | i + 1 =>
      storeWord (copyWords mem d s i) (d + 4 * i) (loadWord (copyWords mem d s i) (s + 4 * i))

/-- The same on bytes. -/
def copyBytes (mem : Bytes) (d s : Nat) : Nat → Bytes
  | 0 => mem
  | i + 1 => Function.update (copyBytes mem d s i) (d + i) (copyBytes mem d s i (s + i))

def memcpy (mem : Bytes) (destination source length : Nat) : Bytes :=
  if destination % 4 = 0 ∧ source % 4 = 0 ∧ length % 4 = 0 then
    copyWords mem destination source (length / 4)
  else copyBytes mem destination source length

/-! ### What is copied -/

/-- No address lies in both regions. -/
def Apart (a n b m : Nat) : Prop := ∀ x, InRegion a n x → ¬ InRegion b m x

/-- `mem` with the region at `s` carried over to `d`. -/
def moved (mem : Bytes) (d s n : Nat) : Bytes := fun x =>
  if InRegion d n x then mem (s + (x - d)) else mem x

section Copying

variable {mem : Bytes} {d s n : Nat}

/-- A copy of the first part leaves the rest of the source alone. -/
theorem moved_source (forward : d ≤ s ∨ Apart d n s n) {i : Nat} {x : Nat} (le : i ≤ n)
    (rest : s + i ≤ x) (inside : x < s + n) : moved mem d s i x = mem x := by
  apply if_neg
  intro written
  rcases forward with before | apart
  · have := written.2
    omega
  · exact apart x ⟨written.1, by have := written.2; omega⟩ ⟨by omega, inside⟩

/-- A byte at a time, the bytes are moved when the target does not run over what is still to
be read, -/
theorem copyBytes_spec (forward : d ≤ s ∨ Apart d n s n) {i : Nat} (le : i ≤ n) :
    copyBytes mem d s i = moved mem d s i := by
  induction i with
  | zero =>
      funext x
      exact (if_neg fun inside => by have := inside.1; have := inside.2; omega).symm
  | succ i ih =>
      have before := ih (by omega)
      have source : moved mem d s i (s + i) = mem (s + i) :=
        moved_source forward (by omega) (by omega) (by omega)
      funext x
      rw [copyBytes, before, source]
      by_cases here : x = d + i
      · rw [here, Function.update_self, moved, if_pos ⟨by omega, by omega⟩, Nat.add_sub_cancel_left]
      · rw [Function.update_of_ne here]
        refine if_congr ⟨fun inside => ?_, fun inside => ?_⟩ rfl rfl
        · exact ⟨inside.1, by have := inside.2; omega⟩
        · exact ⟨inside.1, by have := inside.2; omega⟩

/-- and four at a time too, -/
theorem copyWords_spec (forward : d ≤ s ∨ Apart d n s n) {i : Nat} (le : 4 * i ≤ n) :
    copyWords mem d s i = moved mem d s (4 * i) := by
  induction i with
  | zero =>
      funext x
      exact (if_neg fun inside => by have := inside.1; have := inside.2; omega).symm
  | succ i ih =>
      have before := ih (by omega)
      have source : ∀ j < 4, moved mem d s (4 * i) (s + 4 * i + j) = mem (s + 4 * i + j) :=
        fun j lt => moved_source forward (by omega) (by omega) (by omega)
      funext x
      rw [copyWords, before, storeWord_loadWord]
      by_cases here : InRegion (d + 4 * i) 4 x
      · obtain ⟨ge, lt⟩ := here
        rw [if_pos ⟨ge, lt⟩, source _ (by omega), moved, if_pos ⟨by omega, by omega⟩]
        congr 1
        omega
      · rw [if_neg here]
        refine if_congr ⟨fun inside => ?_, fun inside => ?_⟩ rfl rfl
        · exact ⟨inside.1, by have := inside.2; omega⟩
        · refine ⟨inside.1, ?_⟩
          by_contra beyond
          exact here ⟨by omega, by have := inside.2; omega⟩

/-- Both ways of copying carry the source over. -/
theorem memcpy_spec (forward : d ≤ s ∨ Apart d n s n) : memcpy mem d s n = moved mem d s n := by
  unfold memcpy
  split_ifs with aligned
  · rw [copyWords_spec forward (by omega)]
    congr 1
    omega
  · exact copyBytes_spec forward (Nat.le_refl n)

/-- `after` has the source's bytes at the destination, and the old ones everywhere else. -/
structure Copied (mem : Bytes) (d s n : Nat) (after : Bytes) : Prop where
  carried : ∀ i < n, after (d + i) = mem (s + i)
  kept : ∀ x, ¬ InRegion d n x → after x = mem x

/-- and moved bytes are copied ones. -/
theorem moved_copied : Copied mem d s n (moved mem d s n) where
  carried i lt := by
    rw [moved, if_pos ⟨by omega, by omega⟩, Nat.add_sub_cancel_left]
  kept x outside := if_neg outside

/-- Whichever of the two loops runs, the source is carried over and nothing else changes,
also when the destination overlaps the source from below. -/
theorem memcpy_forward (forward : d ≤ s ∨ Apart d n s n) :
    Copied mem d s n (copyBytes mem d s n) ∧
      (n % 4 = 0 → Copied mem d s n (copyWords mem d s (n / 4))) ∧
        Copied mem d s n (memcpy mem d s n) := by
  refine ⟨?_, fun aligned => ?_, ?_⟩
  · rw [copyBytes_spec forward (Nat.le_refl n)]
    exact moved_copied
  · have whole : 4 * (n / 4) = n := by omega
    rw [copyWords_spec forward (Nat.le_of_eq whole), whole]
    exact moved_copied
  · rw [memcpy_spec forward]
    exact moved_copied

/-- Eight bytes go four bytes down, in words, over half of themselves. -/
theorem memcpy_forward_overlap : Copied (fun x => UInt8.ofNat x) 100 104 8
    (copyWords (fun x => UInt8.ofNat x) 100 104 2) :=
  (memcpy_forward (Or.inl (by decide))).2.1 rfl

end Copying

end SoTp.Modules
