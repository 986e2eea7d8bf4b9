/-
What a well-formed buddy heap is. The blocks of the heap are the leaves of a
dyadic tree. A block's label is `none` when it is free and the requested number
of bytes when it is live.

* `Layout area h t` — headers and free lists of `h` say what the tree `t` says.
* `Limbo area h c k a` — the same for a tree with a hole: the block of order `k`
  at `a` is free but in no list. Every operation passes through this state.
* `init_layout` — `internalFreeListInit` builds a layout with one free block.
-/

import Mathlib.Data.List.Pairwise
import Mathlib.Data.List.Perm.Basic
import SoTp.Buddy.Basic
import SoTp.Lib.Dyadic

namespace SoTp.Buddy

open SoTp.Lib Dyadic
open SoTp.FreeList (NULL structSize alignUp alignUp_eq Block payload lives)

abbrev Tree := Dyadic (Option Nat)

/-- The label of a free block. -/
def Unused (label : Option Nat) : Prop := label = none

/-! ### The memory of a heap -/

/-- A piece of memory given to the allocator: `2 ^ (orderCount - 1)` bytes from
the aligned `heapStart` on, which is not NULL. -/
structure Area where
  heapStart : Nat
  orderCount : Nat
  some : 1 ≤ orderCount
  uint32 : orderCount ≤ 32
  notNull : 0 < heapStart
  room : heapStart + 7 + 2 ^ (orderCount - 1) ≤ word

namespace Area

variable (area : Area)

/-- The order of the whole heap. -/
def top : Nat := area.orderCount - 1

def heapSize : Nat := 2 ^ area.top

/-- The address of the initial block. -/
def start : Nat := alignUp area.heapStart

def init (mem freeList : Nat → Nat) : Heap :=
  internalFreeListInit mem freeList area.orderCount area.heapStart area.heapSize

theorem top_lt : area.top < area.orderCount := by
  have := area.some
  unfold top
  omega

theorem start_bounds : area.heapStart ≤ area.start ∧ area.start ≤ area.heapStart + 7 := by
  have room := area.room
  have pos := Nat.two_pow_pos (area.orderCount - 1)
  have small : area.heapStart + 7 < word := by omega
  unfold start
  rw [alignUp_eq, Nat.mod_eq_of_lt small]
  omega

theorem start_pos : 0 < area.start := Nat.lt_of_lt_of_le area.notNull area.start_bounds.1

theorem heapSize_le : area.heapSize ≤ 2 ^ 31 := by
  have := area.uint32
  exact Nat.pow_le_pow_right (by decide) (by unfold top; omega)

end Area

/-! ### Headers and lists -/

/-- The header of a block tells the truth. -/
def Headed (h : Heap) (b : Block) : Prop :=
  h.size b.addr = b.size ∧ (h.isFree b.addr ↔ b.label = none)

/-- The free list of an order visits the cells. -/
def Listed (h : Heap) (order : Nat) (cells : List Nat) : Prop :=
  Segment h.next (h.freeList order) cells NULL

/-- Addresses of the free blocks of an order. -/
def freesAt (order : Nat) (ts : List Block) : List Nat :=
  (ts.filter fun b => b.label.isNone ∧ b.size = 2 ^ order).map Tile.addr

section Views

variable {order : Nat} {ss ts : List Block} {b : Block}

@[simp] theorem freesAt_nil : freesAt order [] = [] := rfl

@[simp] theorem freesAt_append :
    freesAt order (ss ++ ts) = freesAt order ss ++ freesAt order ts := by
  simp [freesAt]

theorem freesAt_cons_free (free : b.label = none) (size : b.size = 2 ^ order) :
    freesAt order (b :: ts) = b.addr :: freesAt order ts := by
  simp [freesAt, free, size]

theorem freesAt_cons_other (other : b.label = none → b.size ≠ 2 ^ order) :
    freesAt order (b :: ts) = freesAt order ts := by
  unfold freesAt
  rw [List.filter_cons_of_neg]
  cases label : b.label with
  | none => simp [other label]
  | some n => simp

theorem mem_freesAt {a : Nat} :
    a ∈ freesAt order ts ↔ ∃ b ∈ ts, b.label = none ∧ b.size = 2 ^ order ∧ b.addr = a := by
  simp [freesAt, and_assoc]

end Views

/-! ### Fields of distinct headers -/

/-- Two headers that do not overlap. -/
def Apart (x y : Nat) : Prop := x + structSize ≤ y ∨ y + structSize ≤ x

/-- The header at `x` is the same in both heaps. -/
def SameHeader (h h' : Heap) (x : Nat) : Prop :=
  h'.mem x = h.mem x ∧ h'.mem (x + 8) = h.mem (x + 8) ∧ h'.mem (x + 12) = h.mem (x + 12)

theorem Apart.symm {x y : Nat} (apart : Apart x y) : Apart y x := Or.symm apart

theorem Apart.ne {x y : Nat} (apart : Apart x y) : x ≠ y := by
  unfold Apart structSize at apart
  omega

section Fields

variable {h h' h'' : Heap} {x y v order : Nat} {w : Bool}

theorem SameHeader.refl : SameHeader h h x := ⟨rfl, rfl, rfl⟩

theorem SameHeader.trans (s : SameHeader h h' x) (t : SameHeader h' h'' x) : SameHeader h h'' x :=
  ⟨t.1.trans s.1, t.2.1.trans s.2.1, t.2.2.trans s.2.2⟩

/-- A write into one header leaves the others alone. -/
theorem write_same {o u : Nat} (apart : Apart x y) (inside : o < structSize) :
    SameHeader h { h with mem := Function.update h.mem (x + o) u } y := by
  unfold Apart structSize at apart
  unfold structSize at inside
  have field : ∀ i < 16, y + i ≠ x + o := fun i hi => by omega
  refine ⟨?_, ?_, ?_⟩
  · exact Function.update_of_ne (field 0 (by decide)) u h.mem
  · exact Function.update_of_ne (field 8 (by decide)) u h.mem
  · exact Function.update_of_ne (field 12 (by decide)) u h.mem

theorem setNext_same (apart : Apart x y) : SameHeader h (h.setNext x v) y :=
  write_same (o := 0) apart (by decide)

theorem setSize_same (apart : Apart x y) : SameHeader h (h.setSize x v) y :=
  write_same (o := 8) apart (by decide)

theorem setIsFree_same (apart : Apart x y) : SameHeader h (h.setIsFree x w) y :=
  write_same (o := 12) apart (by decide)

theorem setFreeList_same : SameHeader h (h.setFreeList order v) x := .refl

@[simp] theorem setNext_next : (h.setNext x v).next x = v := Function.update_self _ _ _

@[simp] theorem setNext_size : (h.setNext x v).size x = h.size x := by
  simp [Heap.setNext, Heap.size]

@[simp] theorem setNext_isFree : (h.setNext x v).isFree x ↔ h.isFree x := by
  simp [Heap.setNext, Heap.isFree]

@[simp] theorem setSize_next : (h.setSize x v).next x = h.next x := by
  simp [Heap.setSize, Heap.next]

@[simp] theorem setSize_size : (h.setSize x v).size x = v := Function.update_self _ _ _

@[simp] theorem setSize_isFree : (h.setSize x v).isFree x ↔ h.isFree x := by
  simp [Heap.setSize, Heap.isFree]

@[simp] theorem setIsFree_next : (h.setIsFree x w).next x = h.next x := by
  simp [Heap.setIsFree, Heap.next]

@[simp] theorem setIsFree_size : (h.setIsFree x w).size x = h.size x := by
  simp [Heap.setIsFree, Heap.size]

@[simp] theorem setIsFree_isFree : (h.setIsFree x w).isFree x ↔ w = true := by
  cases w <;> simp [Heap.setIsFree, Heap.isFree]

@[simp] theorem setFreeList_next : (h.setFreeList order v).next x = h.next x := rfl

@[simp] theorem setFreeList_size : (h.setFreeList order v).size x = h.size x := rfl

@[simp] theorem setFreeList_isFree : (h.setFreeList order v).isFree x ↔ h.isFree x := Iff.rfl

@[simp] theorem setNext_freeList : (h.setNext x v).freeList = h.freeList := rfl

@[simp] theorem setSize_freeList : (h.setSize x v).freeList = h.freeList := rfl

@[simp] theorem setIsFree_freeList : (h.setIsFree x w).freeList = h.freeList := rfl

theorem setFreeList_freeList :
    (h.setFreeList order v).freeList y = if y = order then v else h.freeList y :=
  Function.update_apply _ _ _ _

theorem SameHeader.size (s : SameHeader h h' x) : h'.size x = h.size x := s.2.1

theorem SameHeader.isFree (s : SameHeader h h' x) : h'.isFree x ↔ h.isFree x := by
  unfold Heap.isFree
  rw [s.2.2]

theorem Headed.congr {b : Block} (headed : Headed h b) (same : SameHeader h h' b.addr) :
    Headed h' b :=
  ⟨same.size.trans headed.1, same.isFree.trans headed.2⟩

theorem Listed.congr {cells : List Nat} (listed : Listed h order cells)
    (head : h'.freeList order = h.freeList order) (same : ∀ x ∈ cells, h'.next x = h.next x) :
    Listed h' order cells := by
  unfold Listed
  rw [head]
  exact (segment_congr same).mpr listed

end Fields

/-! ### The invariant -/

/-- The blocks around a hole. -/
def around (c : List (Level (Option Nat))) (k a : Nat) : List Block := before c k a ++ after c k a

/-- What both states of the heap say about a list of blocks. -/
structure Blocks (area : Area) (h : Heap) (ts : List Block) : Prop where
  headed : ∀ b ∈ ts, Headed h b
  room : ∀ b ∈ ts, ∀ n, b.label = some n → n + structSize ≤ b.size
  listed : ∀ order < area.orderCount, ∃ cells, Listed h order cells ∧ cells.Perm (freesAt order ts)

/-- The heap is laid out as the tree says. -/
structure Layout (area : Area) (h : Heap) (t : Tree) : Prop
    extends Blocks area h (tiles area.top area.start t) where
  fits : Fits area.top t
  /-- Only the whole heap may be smaller than a header. -/
  roomy : (∃ x, t = leaf x) ∨ ∀ b ∈ tiles area.top area.start t, structSize ≤ b.size
  merged : Merged Unused t
  /-- The block of the whole heap has no stale link. -/
  last : ∀ n, t = leaf (some n) → h.next area.start = NULL

/-- The block of order `k` at `a` is free and in no list; the other blocks are
laid out as the context says. -/
structure Limbo (area : Area) (h : Heap) (c : List (Level (Option Nat))) (k a : Nat) : Prop
    extends Blocks area h (around c k a) where
  hole : Hole area.start area.top c k a
  fits : FitsAround c k
  size : h.size a = 2 ^ k
  isFree : h.isFree a
  roomy : ∀ b ∈ around c k a, structSize ≤ b.size
  large : c ≠ [] → 4 ≤ k
  merged : ∀ s ∈ c, Merged Unused s.sibling
  last : c = [] → h.next a = NULL

section Geometry

variable {area : Area} {h : Heap} {c : List (Level (Option Nat))} {k a : Nat} {t : Tree}

theorem Layout.tiled (l : Layout area h t) :
    Tiled area.start (tiles area.top area.start t) (area.start + area.heapSize) :=
  tiled_tiles l.fits

/-- Different blocks have headers that do not overlap. -/
theorem Layout.apart (l : Layout area h t) {b d : Block} (hb : b ∈ tiles area.top area.start t)
    (hd : d ∈ tiles area.top area.start t) (ne : b ≠ d) : Apart b.addr d.addr := by
  rcases l.roomy with ⟨x, rfl⟩ | roomy
  · rw [tiles_leaf, List.mem_singleton] at hb hd
    exact absurd (hb.trans hd.symm) ne
  · have apart := tiled_apart l.tiled hb hd ne
    have bsize := roomy b hb
    have dsize := roomy d hd
    unfold Tile.stop at apart
    unfold Apart
    omega

/-- The tiling of a heap with a hole. -/
theorem Limbo.tiled (l : Limbo area h c k a) (label : Option Nat) :
    Tiled area.start (before c k a ++ (⟨a, 2 ^ k, label⟩ :: after c k a))
      (area.start + area.heapSize) := by
  have tiled := tiled_tiles (a := area.start)
    ((fits_plug l.hole).mpr ⟨fits_leaf (x := label), l.fits⟩)
  rwa [tiles_plug l.hole, tiles_leaf] at tiled

theorem mem_around {b : Block} :
    b ∈ around c k a ↔ b ∈ before c k a ∨ b ∈ after c k a := List.mem_append

/-- A block around the hole lies outside of the hole. -/
theorem Limbo.clear (l : Limbo area h c k a) {b : Block} (hb : b ∈ around c k a) :
    b.stop ≤ a ∨ a + 2 ^ k ≤ b.addr := by
  have tiled := tiled_middle.mp (l.tiled none)
  rcases mem_around.mp hb with hb | hb
  · exact Or.inl (tiled_bounds tiled.1 hb).2
  · exact Or.inr (tiled_bounds tiled.2 hb).1

/-- The hole has room for a header, unless it is the whole heap. -/
theorem Limbo.large_of_mem (l : Limbo area h c k a) {b : Block} (hb : b ∈ around c k a) :
    structSize ≤ 2 ^ k := by
  have inner : c ≠ [] := by
    rintro rfl
    cases hb
  have big : 2 ^ 4 ≤ 2 ^ k := Nat.pow_le_pow_right (by decide) (l.large inner)
  exact big

theorem Limbo.apart (l : Limbo area h c k a) {b : Block} (hb : b ∈ around c k a) :
    Apart a b.addr := by
  have size := l.roomy b hb
  have large := l.large_of_mem hb
  have clear := l.clear hb
  unfold Tile.stop at clear
  unfold Apart
  omega

/-- The headers of the blocks around the hole do not overlap. -/
theorem Limbo.pairwise (l : Limbo area h c k a) :
    (around c k a).Pairwise fun b d => Apart b.addr d.addr := by
  have order := (tiled_pairwise (l.tiled none)).sublist
    ((List.sublist_cons_self _ _).append_left (before c k a))
  refine order.imp_of_mem fun {b d} hb _ le => ?_
  have size := l.roomy b hb
  unfold Tile.stop at le
  unfold Apart
  omega

theorem Limbo.apart_around (l : Limbo area h c k a) {b d : Block} (hb : b ∈ around c k a)
    (hd : d ∈ around c k a) (ne : b ≠ d) : Apart b.addr d.addr := by
  have symm : Std.Symm fun b d : Block => Apart b.addr d.addr := ⟨fun _ _ apart => apart.symm⟩
  exact l.pairwise.forall hb hd ne

theorem Limbo.cells_apart (l : Limbo area h c k a) (order : Nat) :
    (freesAt order (around c k a)).Pairwise Apart :=
  List.pairwise_map.mpr (l.pairwise.filter _)

theorem Limbo.addr_ne (l : Limbo area h c k a) : a ≠ NULL := by
  obtain ⟨m, addr⟩ := l.hole.aligned
  have pos := area.start_pos
  unfold NULL
  omega

theorem Limbo.addr_ne_null (l : Limbo area h c k a) {b : Block} (hb : b ∈ around c k a) :
    b.addr ≠ NULL := by
  have tiled := l.tiled none
  have inside : b ∈ before c k a ++ (⟨a, 2 ^ k, none⟩ :: after c k a) := by
    simp only [List.mem_append, List.mem_cons]
    rcases mem_around.mp hb with hb | hb
    · exact Or.inl hb
    · exact Or.inr (Or.inr hb)
  have bounds := tiled_bounds tiled inside
  have pos := area.start_pos
  unfold NULL
  omega

end Geometry

/-! ### The initial heap -/

section Init

variable (area : Area) (mem freeList : Nat → Nat)

theorem init_freeList {order : Nat} (lt : order < area.orderCount) :
    (area.init mem freeList).freeList order = if order = area.top then area.start else NULL := by
  unfold Area.init internalFreeListInit
  simp only [setFreeList_freeList, setNext_freeList, setIsFree_freeList,
    setSize_freeList, if_pos lt]
  rfl

theorem init_header :
    (area.init mem freeList).size area.start = area.heapSize ∧
      (area.init mem freeList).isFree area.start ∧
      (area.init mem freeList).next area.start = NULL := by
  unfold Area.init internalFreeListInit
  change Heap.size (Heap.setFreeList (Heap.setNext (Heap.setIsFree (Heap.setSize _ area.start _)
    area.start true) area.start NULL) _ _) area.start = _ ∧ _
  simp only [setFreeList_size, setNext_size, setIsFree_size, setSize_size, true_and]
  change Heap.isFree (Heap.setFreeList (Heap.setNext (Heap.setIsFree (Heap.setSize _ area.start _)
    area.start true) area.start NULL) _ _) area.start ∧
      Heap.next (Heap.setFreeList (Heap.setNext (Heap.setIsFree (Heap.setSize _ area.start _)
    area.start true) area.start NULL) _ _) area.start = _
  simp

theorem init_layout : Layout area (area.init mem freeList) (leaf none) where
  headed b hb := by
    rw [tiles_leaf, List.mem_singleton] at hb
    subst hb
    exact ⟨(init_header area mem freeList).1, by simp [(init_header area mem freeList).2.1]⟩
  room b hb n label := by
    rw [tiles_leaf, List.mem_singleton] at hb
    subst hb
    cases label
  listed order lt := by
    have head := init_freeList area mem freeList lt
    rw [tiles_leaf]
    by_cases top : order = area.top
    · rw [if_pos top] at head
      refine ⟨[area.start], ⟨head, (init_header area mem freeList).2.2⟩, ?_⟩
      rw [freesAt_cons_free rfl (by rw [top]), freesAt_nil]
    · rw [if_neg top] at head
      refine ⟨[], head, ?_⟩
      rw [freesAt_cons_other fun _ same => top (Nat.pow_right_injective (Nat.le_refl 2) same).symm,
        freesAt_nil]
  fits := fits_leaf
  roomy := Or.inl ⟨none, rfl⟩
  merged := merged_leaf
  last n e := by cases e

end Init

end SoTp.Buddy
