/-
Tilings of an interval. `Tiled a ts e` says that the tiles `ts` follow each
other from address `a` to address `e` without gap or overlap. Tiles carry a
label of any type; the allocators of the development label them free or live.

* `tiled_append`, `tiled_middle` — a tiling splits at every tile.
* `tiled_bounds`, `tiled_pairwise` — tiles lie inside the interval and in order.
* `tiled_sum` — the sizes add up to the length of the interval.
* `tiled_eq_nil` — an empty interval has no tile of positive size.
* `tiled_cover`, `tiled_before`, `tiled_after` — every address has its tile, and
  every tile its neighbours.
-/

import Mathlib.Data.List.Basic
import Mathlib.Algebra.BigOperators.Group.List.Basic
import Mathlib.Algebra.Ring.Nat
import Mathlib.Tactic.Common

namespace SoTp.Lib

/-- A labelled piece of memory. -/
structure Tile (κ : Type) where
  addr : Nat
  size : Nat
  label : κ
deriving DecidableEq, Repr

variable {κ : Type}

/-- First address after the tile. -/
def Tile.stop (t : Tile κ) : Nat := t.addr + t.size

/-- The tiles follow each other from `a` to `e`. -/
def Tiled : Nat → List (Tile κ) → Nat → Prop
  | a, [], e => a = e
  | a, t :: ts, e => t.addr = a ∧ Tiled t.stop ts e

@[simp] theorem tiled_nil {a e : Nat} : Tiled a ([] : List (Tile κ)) e ↔ a = e := Iff.rfl

@[simp] theorem tiled_cons {a e : Nat} {t : Tile κ} {ts : List (Tile κ)} :
    Tiled a (t :: ts) e ↔ t.addr = a ∧ Tiled t.stop ts e := Iff.rfl

/-- A tiling splits wherever its list of tiles does. -/
theorem tiled_append {a e : Nat} {ss ts : List (Tile κ)} :
    Tiled a (ss ++ ts) e ↔ ∃ m, Tiled a ss m ∧ Tiled m ts e := by
  induction ss generalizing a with
  | nil => simp
  | cons s ss ih =>
      simp only [List.cons_append, tiled_cons, ih]
      constructor
      · rintro ⟨rfl, m, h₁, h₂⟩
        exact ⟨m, ⟨rfl, h₁⟩, h₂⟩
      · rintro ⟨m, ⟨rfl, h₁⟩, h₂⟩
        exact ⟨rfl, m, h₁, h₂⟩

/-- A tiling cut before and after one of its tiles. -/
theorem tiled_middle {a e : Nat} {t : Tile κ} {ss ts : List (Tile κ)} :
    Tiled a (ss ++ t :: ts) e ↔ Tiled a ss t.addr ∧ Tiled t.stop ts e := by
  rw [tiled_append]
  constructor
  · rintro ⟨m, h, rfl, e⟩
    exact ⟨h, e⟩
  · rintro ⟨h, e⟩
    exact ⟨t.addr, h, rfl, e⟩

/-- The interval of a tiling runs upwards. -/
theorem tiled_le {a e : Nat} {ts : List (Tile κ)} (h : Tiled a ts e) : a ≤ e := by
  induction ts generalizing a with
  | nil => exact Nat.le_of_eq h
  | cons t ts ih =>
      obtain ⟨rfl, h⟩ := h
      have := ih h
      unfold Tile.stop at this
      omega

/-- Every tile lies inside the interval. -/
theorem tiled_bounds {a e : Nat} {ts : List (Tile κ)} (h : Tiled a ts e) {t : Tile κ}
    (mem : t ∈ ts) : a ≤ t.addr ∧ t.stop ≤ e := by
  obtain ⟨ss, us, rfl⟩ := List.append_of_mem mem
  rw [tiled_middle] at h
  exact ⟨tiled_le h.1, tiled_le h.2⟩

/-- The tiles come in address order and do not overlap. -/
theorem tiled_pairwise {a e : Nat} {ts : List (Tile κ)} (h : Tiled a ts e) :
    ts.Pairwise fun s t => s.stop ≤ t.addr := by
  induction ts generalizing a with
  | nil => exact List.Pairwise.nil
  | cons t ts ih =>
      obtain ⟨-, h⟩ := h
      exact List.pairwise_cons.mpr ⟨fun u hu => (tiled_bounds h hu).1, ih h⟩

/-- The sizes add up to the length of the interval. -/
theorem tiled_sum {a e : Nat} {ts : List (Tile κ)} (h : Tiled a ts e) :
    a + (ts.map Tile.size).sum = e := by
  induction ts generalizing a with
  | nil => exact h
  | cons t ts ih =>
      obtain ⟨rfl, h⟩ := h
      have := ih h
      simp only [List.map_cons, List.sum_cons, Tile.stop] at this ⊢
      omega

/-- Two different tiles of one tiling lie one before the other. -/
theorem tiled_apart {a e : Nat} {ts : List (Tile κ)} (h : Tiled a ts e) {s t : Tile κ}
    (hs : s ∈ ts) (ht : t ∈ ts) (ne : s ≠ t) : s.stop ≤ t.addr ∨ t.stop ≤ s.addr := by
  obtain ⟨us, vs, rfl⟩ := List.append_of_mem hs
  rw [tiled_middle] at h
  rcases List.mem_append.mp ht with ht | ht
  · exact Or.inr (tiled_bounds h.1 ht).2
  · rcases List.mem_cons.mp ht with rfl | ht
    · exact absurd rfl ne
    · exact Or.inl (tiled_bounds h.2 ht).1

/-- An empty interval has no tile of positive size. -/
theorem tiled_eq_nil {a : Nat} {ts : List (Tile κ)} (h : Tiled a ts a)
    (pos : ∀ t ∈ ts, 0 < t.size) : ts = [] := by
  cases ts with
  | nil => rfl
  | cons t ts =>
      have bounds := tiled_bounds h List.mem_cons_self
      have := pos t List.mem_cons_self
      unfold Tile.stop at bounds
      omega

/-- Every address of the interval lies in a tile. -/
theorem tiled_cover {a e x : Nat} {ts : List (Tile κ)} (h : Tiled a ts e) (lo : a ≤ x)
    (hi : x < e) : ∃ t ∈ ts, t.addr ≤ x ∧ x < t.stop := by
  induction ts generalizing a with
  | nil =>
      rw [tiled_nil] at h
      omega
  | cons t ts ih =>
      obtain ⟨rfl, h⟩ := h
      rcases Nat.lt_or_ge x t.stop with inside | after
      · exact ⟨t, List.mem_cons_self, lo, inside⟩
      · obtain ⟨s, hs, found⟩ := ih h after
        exact ⟨s, List.mem_cons_of_mem t hs, found⟩

/-- A tile starts where the interval does or where another tile stops. -/
theorem tiled_before {a e : Nat} {ts : List (Tile κ)} (h : Tiled a ts e) {t : Tile κ}
    (mem : t ∈ ts) : t.addr = a ∨ ∃ s ∈ ts, s.stop = t.addr := by
  obtain ⟨ss, us, rfl⟩ := List.append_of_mem mem
  have front := (tiled_middle.mp h).1
  rcases List.eq_nil_or_concat ss with rfl | ⟨rest, s, rfl⟩
  · exact Or.inl front.symm
  · rw [List.concat_eq_append] at front
    exact Or.inr ⟨s, by simp, (tiled_middle.mp front).2⟩

/-- A tile stops where the interval does or where another tile starts. -/
theorem tiled_after {a e : Nat} {ts : List (Tile κ)} (h : Tiled a ts e) {t : Tile κ}
    (mem : t ∈ ts) : t.stop = e ∨ ∃ s ∈ ts, s.addr = t.stop := by
  obtain ⟨ss, us, rfl⟩ := List.append_of_mem mem
  have tail := (tiled_middle.mp h).2
  cases us with
  | nil => exact Or.inl tail
  | cons u us => exact Or.inr ⟨u, by simp, tail.1⟩

end SoTp.Lib
