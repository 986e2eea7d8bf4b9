/-
What an array is: a list of elements of one size. Negative indices count from the end, and
an index out of range is rejected.

* `Lists.perform` — the operations on lists; `Heap.perform` — those on arrays.
* `eleAt_get`, `eles_range` — what the indices of an array mean.
-/

import SoTp.Arrays.Storage

namespace SoTp.Arrays

open SoTp.Lib Heap
open SoTp.Modules (Apart moved memcpy_spec)

inductive Version where
  | kernel
  | userland

inductive Op where
  | push (x : Ele)
  | popGetEle
  | pop
  | get (idx : Int)
  | set (idx : Int) (x : Ele)
  | setn (idx : Int) (xs : List Ele) (free : Bool)
  | clear
  | concat (src : Nat)
  | remove (idx : Int)
  | find (x : Ele)

/-- What an operation returns, and what a pointer it returns or fills points to. -/
inductive Result where
  | void
  | flag (b : Bool)
  | index (i : Int)
  | element (x : Option Ele)

/-! ### Lists -/

structure ListArray where
  elementSize : Nat
  freeEleFn : Bool
  cmpEleFn : Option CompareEleFn
  list : List Ele

structure Lists where
  arrays : Nat → Option ListArray
  freed : List (Option Ele)

namespace Lists

def realIdx (length : Nat) (idx : Int) : Option Nat :=
  if 0 ≤ idx then if idx < length then some idx.toNat else none
  else if 0 ≤ length + idx then some (length + idx).toNat
  else none

/-- The array becomes another list, and some elements are dropped. -/
def put (ls : Lists) (a : Nat) (l : ListArray) (list dropped : List Ele) : Lists where
  arrays := Function.update ls.arrays a (some { l with list })
  freed := if l.freeEleFn then ls.freed ++ dropped.map some else ls.freed

/-- How success is reported. -/
def done : Version → Result
  | .kernel => .flag true
  | .userland => .void

/-- A program exits when the operation is rejected. -/
def rejected (ls : Lists) : Version → Option (Lists × Result)
  | .kernel => some (ls, .flag false)
  | .userland => none

def setn (ls : Lists) (v : Version) (a : Nat) (l : ListArray) (idx : Int) (xs : List Ele)
    (free : Bool) : Option (Lists × Result) :=
  match realIdx l.list.length idx with
  | none => ls.rejected v
  | some i =>
      let dropped := if free then (l.list.drop i).take xs.length else []
      some (ls.put a l (l.list.take i ++ xs ++ l.list.drop (i + xs.length)) dropped, done v)

def perform (ls : Lists) (v : Version) (a : Nat) (l : ListArray) : Op → Option (Lists × Result)
  | .push x =>
      some (ls.put a l (l.list ++ [x]) [], match v with
        | .kernel => .index l.list.length
        | .userland => .void)
  | .popGetEle =>
      match l.list.getLast? with
      | none => some (ls, .element none)
      | some x => some (ls.put a l l.list.dropLast [], .element (some x))
  | .pop =>
      match l.list.getLast? with
      | none => some (ls, match v with
          | .kernel => .flag false
          | .userland => .void)
      | some x => some (ls.put a l l.list.dropLast [x], done v)
  | .get idx => some (ls, .element ((realIdx l.list.length idx).bind fun i => l.list[i]?))
  | .set idx x => ls.setn v a l idx [x] true
  -- The kernel's `Array_setn` always frees.
  | .setn idx xs free => ls.setn v a l idx xs (match v with
      | .kernel => true
      | .userland => free)
  | .clear => some (ls.put a l [] l.list, done v)
  | .concat src =>
      match ls.arrays src with
      | none => ls.rejected v
      | some s => if l.elementSize ≠ s.elementSize then ls.rejected v
          else some (ls.put a l (l.list ++ s.list) [], done v)
  | .remove idx =>
      match realIdx l.list.length idx with
      | none => none
      | some i => some (ls.put a l (l.list.eraseIdx i) (l.list[i]?).toList, .void)
  | .find x => l.cmpEleFn.map fun cmp =>
      (ls, .index (found (l.list.findIdx? fun y => cmp (some x) (some y) = 0)))

end Lists

/-! ### Arrays as lists -/

namespace Heap

def toListArray (h : Heap) (c : ArrayCDT) : ListArray :=
  ⟨c.elementSize, c.freeEleFn, c.cmpEleFn, h.toList c⟩

def lists (h : Heap) : Lists := ⟨fun a => (h.arrays a).map h.toListArray, h.freed⟩

/-- What a pointer to an element of the array points to. -/
def pointee (h : Heap) (a p : Nat) : Option Ele := (h.arrays a).bind fun c => h.eleAt c p

/-- An operation on the array at `a`. The memory it asks for is at `block`, and what it gets
from its caller, or where that wants its result, at `p`. -/
def perform (h : Heap) (v : Version) (block p a : Nat) (op : Op) : Option (Heap × Result) :=
  match v, op with
  | .kernel, .push _ =>
      let (h, i) := Kernel.Array_push h block a p
      some (h, .index i)
  | .kernel, .popGetEle =>
      let (h, popped) := Kernel.Array_popGetEle h a p
      some (h, .element (if popped then h.pointee a p else none))
  | .kernel, .pop =>
      let (h, popped) := Kernel.Array_pop h a
      some (h, .flag popped)
  | .kernel, .get idx => some (h, .element (h.pointee a (Kernel.Array_get h a idx)))
  | .kernel, .set idx _ =>
      let (h, set) := Kernel.Array_set h block a idx p
      some (h, .flag set)
  | .kernel, .setn idx xs _ =>
      let (h, set) := Kernel.Array_setn h block a idx p xs.length
      some (h, .flag set)
  | .kernel, .clear =>
      let (h, cleared) := Kernel.Array_clear h a
      some (h, .flag cleared)
  | .kernel, .concat src =>
      let (h, joined) := Kernel.Array_concat h block a src
      some (h, .flag joined)
  | .kernel, .remove _ | .kernel, .find _ => none
  | .userland, .push _ => (Userland.Array_push h block a p).map (·, .void)
  | .userland, .popGetEle =>
      (Userland.Array_popGetEle h a p).map fun (h, popped) =>
        (h, .element (if popped then h.pointee a p else none))
  | .userland, .pop => (Userland.Array_pop h a).map (·, .void)
  | .userland, .get idx => some (h, .element (h.pointee a (Userland.Array_get h a idx)))
  | .userland, .set idx _ => (Userland.Array_set h block a idx p).map (·, .void)
  | .userland, .setn idx xs free =>
      (Userland.Array_setn h block a idx p xs.length free).map (·, .void)
  | .userland, .clear => (Userland.Array_clear h a).map (·, .void)
  | .userland, .concat src => (Userland.Array_concat h block a src).map (·, .void)
  | .userland, .remove idx => (Userland.Array_remove h block a idx).map (·, .void)
  | .userland, .find _ => (Userland.Array_find h a p).map fun i => (h, .index i)

end Heap

/-! ### What the caller provides -/

namespace Op

def Offered : Version → Op → Prop
  | .kernel, .remove _ | .kernel, .find _ => False
  | _, _ => True

/-- The capacity that the array grows to; 0 if it does not grow. -/
def grows (h : Heap) (c : ArrayCDT) : Op → Nat
  | .push _ => if c.length ≥ c.capacity then c.capacity + c.capacity else 0
  | .concat src =>
      match h.arrays src with
      | none => 0
      | some s =>
          if c.elementSize = s.elementSize ∧ c.capacity < c.length + s.length then c.length +
            s.length else 0
  | _ => 0

/-- The allocation succeeds. -/
def Served (h : Heap) (block : Nat) (c : ArrayCDT) (op : Op) : Prop :=
  op.grows h c ≠ 0 →
    op.grows h c * c.elementSize < word ∧ h.Granted block (op.grows h c * c.elementSize)

/-- `p` points to the operation's argument, outside the array, or to room for its result.
`setn` stays within the length. -/
def Given (h : Heap) (block p : Nat) (c : ArrayCDT) (op : Op) : Prop :=
  match op with
  | .push x =>
      p ≠ NULL ∧ readBytes h.mem p c.elementSize = x ∧ Apart c.array c.bytes p c.elementSize ∧
        Apart block (op.grows h c * c.elementSize) p c.elementSize
  | .popGetEle => p ≠ NULL ∧ ∀ b d, h.arrays b = some d → Apart d.array d.bytes p c.elementSize
  | .set _ x => readBytes h.mem p c.elementSize = x ∧ Apart c.array c.bytes p c.elementSize
  | .setn idx xs _ =>
      elements h.mem c.elementSize p xs.length = xs ∧
        Apart c.array c.bytes p (c.elementSize * xs.length) ∧
        ∀ i, Lists.realIdx c.length idx = some i → i + xs.length ≤ c.length
  | .find x => p ≠ NULL ∧ readBytes h.mem p c.elementSize = x
  | .pop | .get _ | .clear | .concat _ | .remove _ => True

end Op

/-! ### Reading -/

section Reading

variable {h h' : Heap} {a : Nat} {c c' : ArrayCDT} {list dropped : List Ele}

/-- The place of an index is that in the list, -/
theorem toRealIdx_eq (c : ArrayCDT) (idx : Int) : c.toRealIdx idx = Lists.realIdx c.length idx := by
  unfold ArrayCDT.toRealIdx Lists.realIdx
  by_cases negative : idx < 0
  · rw [if_pos negative, if_neg (Int.not_le.mpr negative)]
    by_cases far : -idx > c.length
    · rw [if_pos far, if_neg (by omega)]
    · rw [if_neg far, if_pos (by omega), Int.add_comm]
  · rw [if_neg negative, if_pos (Int.not_lt.mp negative)]
    by_cases far : idx ≥ c.length
    · rw [if_pos far, if_neg (Int.not_lt.mpr far)]
    · rw [if_neg far, if_pos (Int.not_le.mp far)]

/-- where there is one, it is inside, -/
theorem realIdx_lt {n : Nat} {idx : Int} {i : Nat} (real : Lists.realIdx n idx = some i) :
    i < n := by
  unfold Lists.realIdx at real
  split_ifs at real
  · cases real
    omega
  · cases real
    omega

/-- and a number inside stands for itself. -/
theorem realIdx_natCast {n i : Nat} (lt : i < n) : Lists.realIdx n i = some i := by
  rw [Lists.realIdx, if_pos (Int.natCast_nonneg i), if_pos (Int.ofNat_lt.mpr lt), Int.toNat_natCast]

/-- The last element is at index -1. -/
theorem realIdx_last {n : Nat} (pos : 0 < n) : Lists.realIdx n (-1) = some (n - 1) := by
  rw [Lists.realIdx, if_neg (by decide), if_pos (by omega)]
  congr 1
  omega

/-- The address of a place holds its element, -/
theorem eleAt_eleAddr (stored : c.Stored) {i : Nat} (lt : i < c.length) :
    h.eleAt c (c.eleAddr i) = (h.toList c)[i]? := by
  have placed : c.eleAddr i ≠ NULL := by
    have := stored.placed
    unfold ArrayCDT.eleAddr NULL at *
    omega
  rw [Heap.eleAt, if_neg placed, Heap.toList, elements_getElem? lt]
  rfl

/-- so an index gets the element of the list. -/
theorem eleAt_get (stored : c.Stored) (idx : Int) :
    h.eleAt c (c.Array_get idx) = (Lists.realIdx c.length idx).bind fun i => (h.toList c)[i]? := by
  rw [ArrayCDT.Array_get, toRealIdx_eq]
  cases real : Lists.realIdx c.length idx with
  | none => rfl
  | some i => exact eleAt_eleAddr stored (realIdx_lt real)

theorem range_getElem? {α : Type} (xs : List α) {n : Nat} (le : n ≤ xs.length) :
    (List.range n).map (fun i => xs[i]?) = (xs.take n).map some := by
  induction n with
  | zero => simp
  | succ n ih =>
      rw [List.range_succ, List.map_append, ih (by omega), List.take_add_one, List.map_append]
      simp [List.getElem?_eq_getElem (show n < xs.length by omega)]

/-- The elements that a loop over indices passes on. -/
theorem eles_range (stored : c.Stored) (small : c.length < 2 ^ 31) (i : Nat) {n : Nat}
    (le : i + n ≤ c.length) :
    ((((indices (i + n)).drop i).map fun i : Nat => (i : Int)).map fun i =>
      h.eleAt c (c.Array_get i)) = (((h.toList c).drop i).take n).map some := by
  have each : ∀ j ∈ indices (i + n), h.eleAt c (c.Array_get j) = (h.toList c)[j]? := by
    intro j inside
    have lt : j < c.length := by
      have := List.mem_range.mp inside
      omega
    rw [eleAt_get stored, realIdx_natCast lt]
    rfl
  have all : indices (i + n) = List.range (i + n) := by
    rw [indices, Nat.min_eq_left (by omega)]
  rw [List.map_map, List.map_drop, List.take_drop, List.map_drop,
    ← range_getElem? _ (by simpa using le), ← all]
  congr 1
  exact List.map_congr_left each

end Reading

end SoTp.Arrays
