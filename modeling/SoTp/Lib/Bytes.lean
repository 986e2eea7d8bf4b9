/-
Memory byte by byte, and 32-bit words in it. A word takes four bytes, the lowest
first, at any address.

* `loadWord_bytes` — a word reads back from its bytes.
* `storeWord_loadWord` — a word that is copied carries its four bytes over.
* `holds_append` — a run of bytes in memory splits wherever its list does.
-/

import Mathlib.Algebra.Ring.Nat
import Mathlib.Data.List.Basic
import Mathlib.Logic.Function.Basic
import Mathlib.Tactic.Common

namespace SoTp.Lib

/-- A byte at every address. -/
abbrev Bytes := Nat → UInt8

/-- The bytes of `data` lie from address `a` on. -/
def Holds (mem : Bytes) (a : Nat) (data : List UInt8) : Prop :=
  ∀ i (h : i < data.length), mem (a + i) = data[i]

/-- The addresses from `a` on, `n` of them. -/
def InRegion (a n x : Nat) : Prop := a ≤ x ∧ x < a + n

instance (a n x : Nat) : Decidable (InRegion a n x) := by unfold InRegion; infer_instance

/-- The bytes of a `uint32_t`. -/
def uint32Bytes (w : Nat) : List UInt8 :=
  [UInt8.ofNat w, UInt8.ofNat (w / 256), UInt8.ofNat (w / 65536), UInt8.ofNat (w / 16777216)]

def loadWord (mem : Bytes) (a : Nat) : Nat :=
  (mem a).toNat + 256 * (mem (a + 1)).toNat + 65536 * (mem (a + 2)).toNat +
    16777216 * (mem (a + 3)).toNat

def storeWord (mem : Bytes) (a w : Nat) : Bytes := fun x =>
  if x = a then UInt8.ofNat w
  else if x = a + 1 then UInt8.ofNat (w / 256)
  else if x = a + 2 then UInt8.ofNat (w / 65536)
  else if x = a + 3 then UInt8.ofNat (w / 16777216)
  else mem x

section Words

variable {mem : Bytes}

@[simp] theorem uint32Bytes_length (w : Nat) : (uint32Bytes w).length = 4 := rfl

theorem toNat_lane (n : Nat) : (UInt8.ofNat n).toNat = n % 256 := rfl

/-- A word reads back from its bytes. -/
theorem loadWord_bytes {a w : Nat} (small : w < 2 ^ 32) (held : Holds mem a (uint32Bytes w)) :
    loadWord mem a = w := by
  have b0 : mem a = UInt8.ofNat w := held 0 (by simp)
  have b1 : mem (a + 1) = UInt8.ofNat (w / 256) := held 1 (by simp)
  have b2 : mem (a + 2) = UInt8.ofNat (w / 65536) := held 2 (by simp)
  have b3 : mem (a + 3) = UInt8.ofNat (w / 16777216) := held 3 (by simp)
  simp only [loadWord, b0, b1, b2, b3, toNat_lane]
  omega

theorem ofNat_eq_of_mod {n : Nat} {b : UInt8} (e : n % 256 = b.toNat) : UInt8.ofNat n = b := by
  apply UInt8.toNat_inj.mp
  rw [toNat_lane, e]

/-- A word that is copied carries its four bytes over. -/
theorem storeWord_loadWord (dst : Bytes) (d s x : Nat) : storeWord dst d (loadWord mem s) x =
    if InRegion d 4 x then mem (s + (x - d)) else dst x := by
  have l0 := (mem s).toNat_lt
  have l1 := (mem (s + 1)).toNat_lt
  have l2 := (mem (s + 2)).toNat_lt
  have l3 := (mem (s + 3)).toNat_lt
  by_cases inside : InRegion d 4 x
  · rw [if_pos inside]
    obtain ⟨ge, lt⟩ := inside
    obtain rfl | rfl | rfl | rfl : x = d ∨ x = d + 1 ∨ x = d + 2 ∨ x = d + 3 := by omega
    · rw [storeWord, if_pos rfl, Nat.sub_self, Nat.add_zero]
      exact ofNat_eq_of_mod (by unfold loadWord; omega)
    · rw [storeWord, if_neg (by omega), if_pos rfl, Nat.add_sub_cancel_left]
      exact ofNat_eq_of_mod (by unfold loadWord; omega)
    · rw [storeWord, if_neg (by omega), if_neg (by omega), if_pos rfl, Nat.add_sub_cancel_left]
      exact ofNat_eq_of_mod (by unfold loadWord; omega)
    · rw [storeWord, if_neg (by omega), if_neg (by omega), if_neg (by omega), if_pos rfl,
        Nat.add_sub_cancel_left]
      exact ofNat_eq_of_mod (by unfold loadWord; omega)
  · rw [if_neg inside]
    simp only [InRegion, not_and, Nat.not_lt] at inside
    unfold storeWord
    split_ifs <;> first | rfl | omega

end Words

section Runs

variable {mem mem' : Bytes} {a : Nat} {xs ys : List UInt8}

/-- A run of bytes splits wherever its list does. -/
theorem holds_append : Holds mem a (xs ++ ys) ↔ Holds mem a xs ∧ Holds mem (a + xs.length) ys := by
  constructor
  · intro held
    refine ⟨fun i h => ?_, fun i h => ?_⟩
    · rw [held i (by rw [List.length_append]; omega), List.getElem_append_left h]
    · rw [Nat.add_assoc, held (xs.length + i) (by rw [List.length_append]; omega),
        List.getElem_append_right (by omega)]
      simp
  · rintro ⟨first, rest⟩ i h
    by_cases lt : i < xs.length
    · rw [List.getElem_append_left lt, first i lt]
    · rw [List.length_append] at h
      rw [List.getElem_append_right (by omega), ← rest (i - xs.length) (by omega)]
      congr 1
      omega

/-- A run of bytes stays as long as its region does. -/
theorem Holds.congr (held : Holds mem a xs) (same : ∀ x, InRegion a xs.length x → mem' x = mem x) :
    Holds mem' a xs := fun i h => by
  rw [same (a + i) ⟨by omega, by omega⟩]
  exact held i h

end Runs

end SoTp.Lib
