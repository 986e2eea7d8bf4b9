/-
Dyadic trees. A tree of order `k` stands for an interval of `2 ^ k` addresses:
a leaf is the whole interval, a node cuts it into two trees of order `k - 1`.
The leaves, read from left to right, tile the interval.

A context is a tree with a hole, listed from the hole up to the root, so that
climbing from a leaf towards the root is a walk along a list.

* `tiled_tiles` — the leaves tile the interval.
* `tiles_aligned` — a leaf lies at a multiple of its size, a power of two.
* `tiles_plug` — the leaves of a filled context: those before the hole, those of
  the tree in it, those after.
* `exists_hole` — every leaf is the filling of a context.
* `merged_plug` — filling a context keeps buddies merged.
* `not_buddies` — in a merged tree no two leaves to be merged are buddies.
-/

import Mathlib.Algebra.Ring.Nat
import Mathlib.Data.List.Perm.Basic
import Mathlib.Tactic.Ring
import SoTp.Lib.Tiling

namespace SoTp.Lib

/-- An interval cut in halves again and again. -/
inductive Dyadic (κ : Type) where
  | leaf (label : κ)
  | node (left right : Dyadic κ)

namespace Dyadic

variable {κ : Type}

/-- The leaves of a tree of the given order at the given address. -/
def tiles : Nat → Nat → Dyadic κ → List (Tile κ)
  | k, a, leaf x => [⟨a, 2 ^ k, x⟩]
  | 0, _, node _ _ => []
  | k + 1, a, node l r => tiles k a l ++ tiles k (a + 2 ^ k) r

/-- The tree is not deeper than its order. -/
def Fits : Nat → Dyadic κ → Prop
  | _, leaf _ => True
  | 0, node _ _ => False
  | k + 1, node l r => Fits k l ∧ Fits k r

@[simp] theorem tiles_leaf {k a : Nat} {x : κ} : tiles k a (leaf x) = [⟨a, 2 ^ k, x⟩] := by
  unfold tiles
  rfl

@[simp] theorem tiles_node {k a : Nat} {l r : Dyadic κ} :
    tiles (k + 1) a (node l r) = tiles k a l ++ tiles k (a + 2 ^ k) r := rfl

@[simp] theorem fits_leaf {k : Nat} {x : κ} : Fits k (leaf x) := by
  unfold Fits
  trivial

@[simp] theorem fits_node {k : Nat} {l r : Dyadic κ} :
    Fits (k + 1) (node l r) ↔ Fits k l ∧ Fits k r := Iff.rfl

theorem not_fits_zero {l r : Dyadic κ} : ¬ Fits 0 (node l r) := id

/-! ### Leaves -/

/-- The tiles of a tree that fits fill its block, -/
theorem tiled_tiles {k a : Nat} {t : Dyadic κ} (fits : Fits k t) :
    Tiled a (tiles k a t) (a + 2 ^ k) := by
  induction t generalizing k a with
  | leaf x => simp [Tile.stop]
  | node l r ihl ihr =>
      cases k with
      | zero => exact absurd fits not_fits_zero
      | succ k =>
          rw [tiles_node, tiled_append]
          refine ⟨a + 2 ^ k, ihl fits.1, ?_⟩
          have double : a + 2 ^ (k + 1) = a + 2 ^ k + 2 ^ k := by ring
          rw [double]
          exact ihr fits.2

/-- Leaves have a power of two for a size and lie at multiples of it. -/
theorem tiles_aligned {k a : Nat} {t : Dyadic κ} (fits : Fits k t) {b : Tile κ}
    (hb : b ∈ tiles k a t) : ∃ j, j ≤ k ∧ b.size = 2 ^ j ∧ ∃ m, b.addr = a + m * 2 ^ j := by
  induction t generalizing k a with
  | leaf x =>
      obtain rfl : b = ⟨a, 2 ^ k, x⟩ := by simpa using hb
      exact ⟨k, Nat.le_refl _, rfl, 0, by simp⟩
  | node l r ihl ihr =>
      cases k with
      | zero => exact absurd fits not_fits_zero
      | succ k =>
          rw [tiles_node, List.mem_append] at hb
          rcases hb with hb | hb
          · obtain ⟨j, le, size, m, addr⟩ := ihl fits.1 hb
            exact ⟨j, by omega, size, m, addr⟩
          · obtain ⟨j, le, size, m, addr⟩ := ihr fits.2 hb
            have shift : 2 ^ k = 2 ^ (k - j) * 2 ^ j := by
              rw [← Nat.pow_add, Nat.sub_add_cancel le]
            refine ⟨j, by omega, size, 2 ^ (k - j) + m, ?_⟩
            rw [addr, Nat.add_mul, ← shift]
            omega

/-- The leaf at the start of a tree: all of it, or less than all of it. -/
theorem exists_first {k a : Nat} {t : Dyadic κ} (fits : Fits k t) :
    ∃ b ∈ tiles k a t, b.addr = a ∧ (t = leaf b.label ∧ b.size = 2 ^ k ∨
      (∃ l r, t = node l r) ∧ b.size < 2 ^ k) := by
  induction t generalizing k a with
  | leaf x => exact ⟨⟨a, 2 ^ k, x⟩, by simp, rfl, Or.inl ⟨rfl, rfl⟩⟩
  | node l r ihl ihr =>
      cases k with
      | zero => exact absurd fits not_fits_zero
      | succ k =>
          obtain ⟨b, hb, addr, size⟩ := ihl (a := a) fits.1
          refine ⟨b, by simp [hb], addr, Or.inr ⟨⟨l, r, rfl⟩, ?_⟩⟩
          have pos : 0 < 2 ^ k := Nat.two_pow_pos k
          rw [Nat.pow_succ]
          rcases size with ⟨-, size⟩ | ⟨-, size⟩
          · omega
          · omega

/-- and none of them is empty. -/
theorem tiles_pos {k a : Nat} {t : Dyadic κ} (fits : Fits k t) {b : Tile κ}
    (hb : b ∈ tiles k a t) : 0 < b.size := by
  obtain ⟨j, -, size, -⟩ := tiles_aligned fits hb
  rw [size]
  exact Nat.two_pow_pos j

/-- A leaf as large as its tree is the tree. -/
theorem eq_leaf_of_full {k a : Nat} {t : Dyadic κ} (fits : Fits k t) {b : Tile κ}
    (hb : b ∈ tiles k a t) (full : b.size = 2 ^ k) : t = leaf b.label := by
  obtain ⟨first, hf, addr, outcome⟩ := exists_first (a := a) fits
  have tiled := tiled_tiles (a := a) fits
  have same : b = first := by
    by_contra ne
    have apart := tiled_apart tiled hb hf ne
    have bounds := tiled_bounds tiled hb
    have bounds' := tiled_bounds tiled hf
    have pos := tiles_pos fits hf
    unfold Tile.stop at apart bounds bounds'
    omega
  subst same
  rcases outcome with ⟨whole, -⟩ | ⟨-, less⟩
  · exact whole
  · omega

/-! ### Contexts -/

/-- One level of a context: which half the hole is in, and the other half. -/
inductive Level (κ : Type) where
  | inLeft (sibling : Dyadic κ)
  | inRight (sibling : Dyadic κ)

def Level.sibling : Level κ → Dyadic κ
  | .inLeft r => r
  | .inRight l => l

/-- Where the other half of the interval is, when the hole of order `k` is at `a`. -/
def Level.buddy : Level κ → Nat → Nat → Nat
  | .inLeft _, k, a => a + 2 ^ k
  | .inRight _, k, a => a - 2 ^ k

/-- Where the interval of both halves starts. -/
def Level.low : Level κ → Nat → Nat → Nat
  | .inLeft _, _, a => a
  | .inRight _, k, a => a - 2 ^ k

/-- Puts a tree into the hole. -/
def plug : List (Level κ) → Dyadic κ → Dyadic κ
  | [], t => t
  | .inLeft r :: c, t => plug c (node t r)
  | .inRight l :: c, t => plug c (node l t)

/-- The hole of the context is at this order and address, in a tree of order
`top` at `start`. -/
def Hole (start top : Nat) : List (Level κ) → Nat → Nat → Prop
  | [], k, a => k = top ∧ a = start
  | .inLeft _ :: c, k, a => Hole start top c (k + 1) a
  | .inRight _ :: c, k, a => 2 ^ k ≤ a ∧ Hole start top c (k + 1) (a - 2 ^ k)

/-- The leaves before the hole, -/
def before : List (Level κ) → Nat → Nat → List (Tile κ)
  | [], _, _ => []
  | .inLeft _ :: c, k, a => before c (k + 1) a
  | .inRight l :: c, k, a => before c (k + 1) (a - 2 ^ k) ++ tiles k (a - 2 ^ k) l

/-- and the leaves after it. -/
def after : List (Level κ) → Nat → Nat → List (Tile κ)
  | [], _, _ => []
  | .inLeft r :: c, k, a => tiles k (a + 2 ^ k) r ++ after c (k + 1) a
  | .inRight _ :: c, k, a => after c (k + 1) (a - 2 ^ k)

/-- The siblings along a context fit. -/
def FitsAround : List (Level κ) → Nat → Prop
  | [], _ => True
  | s :: c, k => Fits k s.sibling ∧ FitsAround c (k + 1)

section Contexts

variable {start top k a : Nat} {c : List (Level κ)} {t : Dyadic κ}

/-- The tiles of a tree in a context: those of the context before and behind its own. -/
theorem tiles_plug (hole : Hole start top c k a) :
    tiles top start (plug c t) = before c k a ++ (tiles k a t ++ after c k a) := by
  induction c generalizing k a t with
  | nil =>
      obtain ⟨rfl, rfl⟩ := hole
      simp [plug, before, after]
  | cons s c ih =>
      cases s with
      | inLeft r =>
          rw [plug, ih hole]
          simp [before, after]
      | inRight l =>
          obtain ⟨le, hole⟩ := hole
          rw [plug, ih hole, tiles_node, Nat.sub_add_cancel le]
          simp [before, after]

/-- It fits when both do. -/
theorem fits_plug (hole : Hole start top c k a) :
    Fits top (plug c t) ↔ Fits k t ∧ FitsAround c k := by
  induction c generalizing k a t with
  | nil =>
      obtain ⟨rfl, rfl⟩ := hole
      simp [plug, FitsAround]
  | cons s c ih =>
      cases s with
      | inLeft r =>
          rw [plug, ih hole, fits_node, FitsAround]
          simp only [Level.sibling]
          tauto
      | inRight l =>
          rw [plug, ih hole.2, fits_node, FitsAround]
          simp only [Level.sibling]
          tauto

/-- The hole one level up. -/
theorem Hole.up {s : Level κ} (hole : Hole start top (s :: c) k a) :
    Hole start top c (k + 1) (s.low k a) := by
  cases s with
  | inLeft r => exact hole
  | inRight l => exact hole.2

/-- The leaves around a hole: those of the sibling, and those around the hole one
level up. -/
theorem around_up {s : Level κ} :
    (before (s :: c) k a ++ after (s :: c) k a).Perm
      (tiles k (s.buddy k a) s.sibling ++
        (before c (k + 1) (s.low k a) ++ after c (k + 1) (s.low k a))) := by
  cases s with
  | inLeft r => exact List.perm_append_comm_assoc _ _ _
  | inRight l =>
      simp only [before, after, List.append_assoc, Level.buddy, Level.sibling, Level.low]
      exact List.perm_append_comm_assoc _ _ _

/-- A tree with a hole below its root has a node. -/
theorem plug_ne_leaf {x : κ} (inner : c ≠ []) : plug c t ≠ leaf x := by
  have node_ne : ∀ (c : List (Level κ)) (l r : Dyadic κ), plug c (node l r) ≠ leaf x := by
    intro c
    induction c with
    | nil =>
        intro l r e
        cases e
    | cons s c ih =>
        intro l r
        cases s with
        | inLeft r' => exact ih _ _
        | inRight l' => exact ih _ _
  cases c with
  | nil => exact absurd rfl inner
  | cons s c =>
      cases s with
      | inLeft r => exact node_ne c t r
      | inRight l => exact node_ne c l t

/-- A hole is as far below the root as its context is long. -/
theorem Hole.order (hole : Hole start top c k a) : k + c.length = top := by
  induction c generalizing k a with
  | nil => exact hole.1
  | cons s c ih =>
      have rest : k + 1 + c.length = top := by
        cases s with
        | inLeft r => exact ih hole
        | inRight l => exact ih hole.2
      rw [List.length_cons]
      omega

/-- A hole is at a multiple of its size. -/
theorem Hole.aligned (hole : Hole start top c k a) : ∃ m, a = start + m * 2 ^ k := by
  induction c generalizing k a with
  | nil => exact ⟨0, by simp [hole.2]⟩
  | cons s c ih =>
      cases s with
      | inLeft r =>
          obtain ⟨m, addr⟩ := ih hole
          exact ⟨2 * m, by rw [addr]; ring⟩
      | inRight l =>
          obtain ⟨le, hole⟩ := hole
          obtain ⟨m, addr⟩ := ih hole
          refine ⟨2 * m + 1, ?_⟩
          have : a = a - 2 ^ k + 2 ^ k := (Nat.sub_add_cancel le).symm
          rw [this, addr]
          ring

/-- Every leaf is the filling of a context. -/
theorem exists_hole (hole : Hole start top c k a) {b : Tile κ} (hb : b ∈ tiles k a t) :
    ∃ d j, plug d (leaf b.label) = plug c t ∧ Hole start top d j b.addr ∧ b.size = 2 ^ j := by
  induction t generalizing c k a with
  | leaf x =>
      obtain rfl : b = ⟨a, 2 ^ k, x⟩ := by simpa using hb
      exact ⟨c, k, rfl, hole, rfl⟩
  | node l r ihl ihr =>
      cases k with
      | zero => simp [tiles] at hb
      | succ k =>
          rw [tiles_node, List.mem_append] at hb
          rcases hb with hb | hb
          · obtain ⟨d, j, filled, rest⟩ := ihl (c := .inLeft r :: c) hole hb
            exact ⟨d, j, filled, rest⟩
          · have inner : Hole start top (.inRight l :: c) k (a + 2 ^ k) :=
              ⟨Nat.le_add_left _ _, by rwa [Nat.add_sub_cancel]⟩
            obtain ⟨d, j, filled, rest⟩ := ihr inner hb
            exact ⟨d, j, filled, rest⟩

end Contexts

/-! ### Merged buddies -/

/-- The tree is one leaf, with a label in `P`. -/
def WholeLeaf (P : κ → Prop) (t : Dyadic κ) : Prop := ∃ x, t = leaf x ∧ P x

/-- No node is made of two leaves with labels in `P`. -/
def Merged (P : κ → Prop) : Dyadic κ → Prop
  | leaf _ => True
  | node l r => ¬ (WholeLeaf P l ∧ WholeLeaf P r) ∧ Merged P l ∧ Merged P r

section Merged

variable {P : κ → Prop} {start top k a : Nat} {c : List (Level κ)} {t : Dyadic κ}

@[simp] theorem merged_leaf {x : κ} : Merged P (leaf x) := trivial

theorem not_wholeLeaf_node {l r : Dyadic κ} : ¬ WholeLeaf P (node l r) := by
  rintro ⟨x, e, -⟩
  cases e

/-- In a merged tree every part is merged, and so is each sibling on the way. -/
theorem merged_of_plug (merged : Merged P (plug c t)) :
    Merged P t ∧ ∀ s ∈ c, Merged P s.sibling := by
  induction c generalizing t with
  | nil => exact ⟨merged, by simp⟩
  | cons s c ih =>
      cases s with
      | inLeft r =>
          obtain ⟨⟨-, left, right⟩, around⟩ := ih merged
          exact ⟨left, List.forall_mem_cons.mpr ⟨right, around⟩⟩
      | inRight l =>
          obtain ⟨⟨-, left, right⟩, around⟩ := ih merged
          exact ⟨right, List.forall_mem_cons.mpr ⟨left, around⟩⟩

/-- Filling a context keeps buddies merged, unless the filling and its sibling
are to be merged themselves. -/
theorem merged_plug (merged : Merged P t) (around : ∀ s ∈ c, Merged P s.sibling)
    (apart : WholeLeaf P t → ∀ s ∈ c.head?, ¬ WholeLeaf P s.sibling) : Merged P (plug c t) := by
  induction c generalizing t with
  | nil => exact merged
  | cons s c ih =>
      have own := fun both => apart both s (by simp)
      have sibling := around s List.mem_cons_self
      have rest : ∀ s ∈ c, Merged P s.sibling := fun s hs => around s (List.mem_cons_of_mem _ hs)
      cases s with
      | inLeft r =>
          exact ih ⟨fun both => own both.1 both.2, merged, sibling⟩ rest
            fun whole => absurd whole not_wholeLeaf_node
      | inRight l =>
          exact ih ⟨fun both => own both.2 both.1, sibling, merged⟩ rest
            fun whole => absurd whole not_wholeLeaf_node

/-- A merged tree whose leaves all have labels in `P` is one leaf. -/
theorem wholeLeaf_of_merged (fits : Fits k t) (merged : Merged P t)
    (all : ∀ b ∈ tiles k a t, P b.label) : WholeLeaf P t := by
  induction t generalizing k a with
  | leaf x => exact ⟨x, rfl, all ⟨a, 2 ^ k, x⟩ (by simp)⟩
  | node l r ihl ihr =>
      cases k with
      | zero => exact absurd fits not_fits_zero
      | succ k =>
          have left := ihl (a := a) fits.1 merged.2.1 fun b hb => all b (by simp [hb])
          have right := ihr (a := a + 2 ^ k) fits.2 merged.2.2 fun b hb => all b (by simp [hb])
          exact absurd ⟨left, right⟩ merged.1

/-- In a merged tree an aligned interval that meets only leaves with labels in `P` meets
one that is at least as large. -/
theorem exists_large {P : κ → Prop} {t : Dyadic κ} {k a j m : Nat} (fits : Fits k t)
    (merged : Merged P t) (inside : (m + 1) * 2 ^ j ≤ 2 ^ k)
    (clear : ∀ b ∈ tiles k a t, b.addr < a + (m + 1) * 2 ^ j → a + m * 2 ^ j < b.stop → P b.label) :
    ∃ b ∈ tiles k a t, P b.label ∧ 2 ^ j ≤ b.size := by
  have one : 2 ^ j ≤ (m + 1) * 2 ^ j := Nat.le_mul_of_pos_left _ (Nat.succ_pos m)
  have pos : 0 < 2 ^ j := Nat.two_pow_pos j
  have width : (m + 1) * 2 ^ j = m * 2 ^ j + 2 ^ j := Nat.succ_mul m (2 ^ j)
  induction t generalizing k a m with
  | leaf x =>
      refine ⟨⟨a, 2 ^ k, x⟩, by simp, clear _ (by simp) ?_ ?_, by simp only; omega⟩
      · simp only
        omega
      · simp only [Tile.stop]
        omega
  | node l r ihl ihr =>
      cases k with
      | zero => exact absurd fits not_fits_zero
      | succ k =>
          rw [tiles_node] at clear ⊢
          rcases Nat.lt_or_ge k j with large | small
          · -- The interval is the whole one.
            exfalso
            have whole : 2 ^ (k + 1) ≤ 2 ^ j := Nat.pow_le_pow_right (by decide) large
            have zero : m * 2 ^ j = 0 := by omega
            refine not_wholeLeaf_node (wholeLeaf_of_merged (a := a) fits merged fun b hb => ?_)
            have bounds := tiled_bounds (tiled_tiles fits) hb
            have size := tiles_pos fits hb
            rw [tiles_node] at hb
            unfold Tile.stop at bounds clear
            exact clear b hb (by omega) (by omega)
          · have half : 2 ^ k = 2 ^ (k - j) * 2 ^ j := by
              rw [← Nat.pow_add, Nat.sub_add_cancel small]
            rcases Nat.lt_or_ge m (2 ^ (k - j)) with low | high
            · have left : (m + 1) * 2 ^ j ≤ 2 ^ k := by
                rw [half]
                exact Nat.mul_le_mul_right _ low
              obtain ⟨b, hb, rest⟩ := ihl fits.1 merged.2.1 left
                (fun b hb => clear b (List.mem_append_left _ hb)) one width
              exact ⟨b, List.mem_append_left _ hb, rest⟩
            · have shift : m * 2 ^ j = 2 ^ k + (m - 2 ^ (k - j)) * 2 ^ j := by
                rw [half, ← Nat.add_mul, Nat.add_sub_cancel' high]
              have width' := Nat.succ_mul (m - 2 ^ (k - j)) (2 ^ j)
              rw [Nat.succ_eq_add_one] at width'
              rw [Nat.pow_succ] at inside
              obtain ⟨b, hb, rest⟩ := ihr (a := a + 2 ^ k) fits.2 merged.2.2
                (m := m - 2 ^ (k - j)) (by omega)
                (fun b hb lo hi => clear b (List.mem_append_right _ hb) (by omega) (by omega))
                (by omega) width'
              exact ⟨b, List.mem_append_right _ hb, rest⟩

/-- A block is a whole number of pairs of smaller ones. -/
theorem two_pow_half {j k : Nat} (lt : j < k) : 2 ^ k = 2 ^ (k - j - 1) * (2 * 2 ^ j) := by
  rw [← Nat.pow_succ', ← Nat.pow_add]
  congr 1
  omega

/-- In a merged tree no two leaves with labels in `P` are the two halves of an
aligned interval. -/
theorem not_buddies (fits : Fits k t) (merged : Merged P t) {b d : Tile κ}
    (hb : b ∈ tiles k a t) (hd : d ∈ tiles k a t) (pb : P b.label) (pd : P d.label)
    (size : d.size = b.size) (next : d.addr = b.addr + b.size) {m : Nat}
    (even : b.addr = a + m * (2 * b.size)) : False := by
  induction t generalizing k a m with
  | leaf x =>
      obtain rfl : b = ⟨a, 2 ^ k, x⟩ := by simpa using hb
      obtain rfl : d = ⟨a, 2 ^ k, x⟩ := by simpa using hd
      have pos : 0 < 2 ^ k := Nat.two_pow_pos k
      simp only at next
      omega
  | node l r ihl ihr =>
      cases k with
      | zero => exact absurd fits not_fits_zero
      | succ k =>
          have boundsl := fun {e} (he : e ∈ tiles k a l) => tiled_bounds (tiled_tiles fits.1) he
          have boundsr := fun {e} (he : e ∈ tiles k (a + 2 ^ k) r) =>
            tiled_bounds (tiled_tiles fits.2) he
          rw [tiles_node, List.mem_append] at hb hd
          unfold Tile.stop at boundsl boundsr
          rcases hb with hb | hb <;> rcases hd with hd | hd
          · exact ihl fits.1 merged.2.1 hb hd even
          · -- The two halves of this very node.
            obtain ⟨j, le, bsize, n, baddr⟩ := tiles_aligned fits.1 hb
            have middle : b.addr + b.size = a + 2 ^ k := by
              have := boundsl hb
              have := boundsr hd
              omega
            have whole : j = k := by
              by_contra ne
              have half := two_pow_half (show j < k by omega)
              rw [bsize] at even middle
              rw [even, half] at middle
              have odd : (2 * m + 1) * 2 ^ j = (2 * 2 ^ (k - j - 1)) * 2 ^ j := by
                have cancel : m * (2 * 2 ^ j) + 2 ^ j = 2 ^ (k - j - 1) * (2 * 2 ^ j) := by omega
                calc (2 * m + 1) * 2 ^ j = m * (2 * 2 ^ j) + 2 ^ j := by ring
                  _ = 2 ^ (k - j - 1) * (2 * 2 ^ j) := cancel
                  _ = (2 * 2 ^ (k - j - 1)) * 2 ^ j := by ring
              have := Nat.eq_of_mul_eq_mul_right (Nat.two_pow_pos j) odd
              omega
            subst whole
            have left := eq_leaf_of_full fits.1 hb bsize
            have right := eq_leaf_of_full fits.2 hd (size.trans bsize)
            exact merged.1 ⟨⟨_, left, pb⟩, ⟨_, right, pd⟩⟩
          · have := boundsr hb
            have := boundsl hd
            have := tiles_pos fits.2 hb
            omega
          · obtain ⟨j, le, bsize, n, baddr⟩ := tiles_aligned fits.2 hb
            have less : j ≠ k := by
              rintro rfl
              have := boundsr hb
              have := boundsr hd
              have := tiles_pos fits.2 hd
              omega
            have half := two_pow_half (show j < k by omega)
            refine ihr fits.2 merged.2.2 hb hd (m := m - 2 ^ (k - j - 1)) ?_
            have inside := (boundsr hb).1
            rw [bsize] at even ⊢
            rw [Nat.sub_mul, ← half]
            omega

end Merged

end Dyadic

end SoTp.Lib
