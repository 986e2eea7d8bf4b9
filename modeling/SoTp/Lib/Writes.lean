/-
Memory that keeps a log of the addresses written to it, and numbers in it of any width,
the lowest byte first.

* `store_written`, `store_outside`, `store_holds` — what one store logs, leaves and puts.
* `load_bytesOf` — a number reads back from its bytes.
-/

import SoTp.Lib.Bytes

namespace SoTp.Lib

structure Tracked where
  mem : Bytes
  written : List Nat

namespace Tracked

def put (l : Tracked) (a : Nat) (b : UInt8) : Tracked :=
  ⟨Function.update l.mem a b, l.written ++ [a]⟩

/-- `data` from address `a` on, byte after byte. -/
def store (l : Tracked) (a : Nat) : List UInt8 → Tracked
  | [] => l
  | b :: data => (l.put a b).store (a + 1) data

end Tracked

/-- The lowest `n` bytes of a number. -/
def bytesOf : Nat → Nat → List UInt8
  | 0, _ => []
  | n + 1, w => UInt8.ofNat w :: bytesOf n (w / 256)

/-- The number in the `n` bytes from `a` on. -/
def load (mem : Bytes) (a : Nat) : Nat → Nat
  | 0 => 0
  | n + 1 => (mem a).toNat + 256 * load mem (a + 1) n

section Stores

variable {l : Tracked} {a x : Nat} {b : UInt8} {data : List UInt8}

/-- One byte, -/
theorem put_outside (out : x ≠ a) : (l.put a b).mem x = l.mem x := Function.update_of_ne out _ _

/-- or several: what was written is logged, -/
theorem store_written (l : Tracked) (a : Nat) (data : List UInt8) :
    (l.store a data).written = l.written ++ List.range' a data.length := by
  induction data generalizing l a with
  | nil => simp [Tracked.store]
  | cons b data ih =>
      rw [Tracked.store, ih, Tracked.put, List.length_cons, List.range'_succ, List.append_assoc]
      rfl

theorem mem_store_written :
    x ∈ (l.store a data).written ↔ x ∈ l.written ∨ InRegion a data.length x := by
  rw [store_written, List.mem_append, List.mem_range'_1]
  rfl

/-- nothing else is changed, -/
theorem store_outside (out : ¬ InRegion a data.length x) : (l.store a data).mem x = l.mem x := by
  induction data generalizing l a with
  | nil => rfl
  | cons b data ih =>
      rw [InRegion, List.length_cons] at out
      rw [Tracked.store, ih (by rw [InRegion]; omega)]
      exact put_outside (by omega)

/-- and the data are there. -/
theorem store_holds : Holds (l.store a data).mem a data := by
  induction data generalizing l a with
  | nil =>
      intro i h
      cases h
  | cons b data ih =>
      intro i h
      cases i with
      | zero =>
          rw [Tracked.store, store_outside (by rw [InRegion]; omega)]
          exact Function.update_self _ _ _
      | succ i =>
          rw [show a + (i + 1) = a + 1 + i by omega]
          exact ih i (Nat.lt_of_succ_lt_succ h)

/-- What is held apart from a store stays. -/
theorem Holds.store {xs : List UInt8} {p : Nat} (held : Holds l.mem p xs)
    (apart : ∀ x, InRegion p xs.length x → ¬ InRegion a data.length x) :
    Holds (l.store a data).mem p xs :=
  held.congr fun x inside => store_outside (apart x inside)

end Stores

section Numbers

@[simp] theorem bytesOf_length (n w : Nat) : (bytesOf n w).length = n := by
  induction n generalizing w with
  | zero => rfl
  | succ n ih => rw [bytesOf, List.length_cons, ih]

theorem load_congr {mem mem' : Bytes} {a n : Nat} (same : ∀ x, InRegion a n x → mem' x = mem x) :
    load mem' a n = load mem a n := by
  induction n generalizing a with
  | zero => rfl
  | succ n ih =>
      rw [load, load, same a ⟨by omega, by omega⟩, ih]
      intro x inside
      exact same x ⟨by have := inside.1; omega, by have := inside.2; omega⟩

/-- A number reads back from its bytes. -/
theorem load_bytesOf {mem : Bytes} {a n w : Nat} (held : Holds mem a (bytesOf n w)) :
    load mem a n = w % 256 ^ n := by
  induction n generalizing a w with
  | zero => rw [load, pow_zero, Nat.mod_one]
  | succ n ih =>
      have first : mem a = UInt8.ofNat w := held 0 (Nat.succ_pos _)
      have rest : Holds mem (a + 1) (bytesOf n (w / 256)) := by
        intro i h
        have := held (i + 1) (Nat.succ_lt_succ h)
        rwa [← Nat.add_assoc, Nat.add_right_comm] at this
      rw [load, ih rest, first, toNat_lane, pow_succ', Nat.mod_mul]

end Numbers

end SoTp.Lib
