/-
Elements of one size that lie in memory one after the other, read as a list.

* `elements_add` — the first elements, and those behind them.
* `elements_carried` — elements depend on their own bytes only, wherever these lie.
-/

import SoTp.Lib.Bytes

namespace SoTp.Lib

/-- The bytes from an address on. -/
def readBytes (mem : Bytes) (p n : Nat) : List UInt8 := (List.range n).map fun k => mem (p + k)

/-- The first `n` elements of `size` bytes each. -/
def elements (mem : Bytes) (size p n : Nat) : List (List UInt8) :=
  (List.range n).map fun i => readBytes mem (p + size * i) size

section Reading

variable {mem mem' : Bytes} {size p q n : Nat}

@[simp] theorem readBytes_length : (readBytes mem p n).length = n := by simp [readBytes]

@[simp] theorem elements_length : (elements mem size p n).length = n := by simp [elements]

@[simp] theorem elements_zero : elements mem size p 0 = [] := rfl

theorem elements_one : elements mem size p 1 = [readBytes mem p size] := rfl

/-- An element is the bytes at its place. -/
theorem elements_getElem? {i : Nat} (lt : i < n) :
    (elements mem size p n)[i]? = some (readBytes mem (p + size * i) size) := by
  rw [elements, List.getElem?_map, List.getElem?_range lt]
  rfl

/-- The elements in two parts, -/
theorem elements_add (m : Nat) :
    elements mem size p (m + n) = elements mem size p m ++ elements mem size (p + size * m) n := by
  rw [elements, List.range_add, List.map_append, List.map_map]
  congr 1
  apply List.map_congr_left
  intro i _
  show readBytes mem (p + size * (m + i)) size = readBytes mem (p + size * m + size * i) size
  rw [Nat.mul_add, Nat.add_assoc]

/-- the first ones -/
theorem elements_take {m : Nat} (le : m ≤ n) :
    (elements mem size p n).take m = elements mem size p m := by
  obtain ⟨rest, rfl⟩ := Nat.exists_eq_add_of_le le
  rw [elements_add, List.take_left' elements_length]

/-- and those behind them. -/
theorem elements_drop {m : Nat} (le : m ≤ n) :
    (elements mem size p n).drop m = elements mem size (p + size * m) (n - m) := by
  obtain ⟨rest, rfl⟩ := Nat.exists_eq_add_of_le le
  rw [elements_add, List.drop_left' elements_length, Nat.add_sub_cancel_left]

/-- Bytes that were carried elsewhere are read there, -/
theorem readBytes_carried (same : ∀ k < n, mem' (q + k) = mem (p + k)) :
    readBytes mem' q n = readBytes mem p n := by
  apply List.map_congr_left
  intro k inside
  exact same k (List.mem_range.mp inside)

/-- and elements are, -/
theorem elements_carried (same : ∀ k < size * n, mem' (q + k) = mem (p + k)) :
    elements mem' size q n = elements mem size p n := by
  apply List.map_congr_left
  intro i inside
  apply readBytes_carried
  intro k lt
  have room : size * i + size ≤ size * n := by
    rw [← Nat.mul_succ]
    exact Nat.mul_le_mul_left size (List.mem_range.mp inside)
  rw [Nat.add_assoc, Nat.add_assoc]
  exact same _ (by omega)

/-- and they stay while their memory does. -/
theorem elements_same (same : ∀ x, InRegion p (size * n) x → mem' x = mem x) :
    elements mem' size p n = elements mem size p n := by
  apply elements_carried
  intro k lt
  exact same _ ⟨by omega, by omega⟩

end Reading

end SoTp.Lib
