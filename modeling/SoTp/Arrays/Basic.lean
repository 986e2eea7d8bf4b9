/-
Arrays that grow (`Kernel/c/array.c`, `Userland/UserModule/c2/array.c`). The kernel reports
what it rejects, a program exits, which is no result here.

An operation asks for memory once at most, and `block` is what it gets, or NULL. Freeing
memory leaves its bytes as they are. Addresses and indices are numbers, and what is asked
for is a `uint64_t`; as an index, an `int32_t` runs as far as it goes.

`written` and `freed` record where is written and what goes to `freeEleFn`.
-/

import SoTp.Lib.Elements
import SoTp.Lib.Word64
import SoTp.Modules.Memcpy

namespace SoTp.Arrays

open SoTp.Lib

def NULL : Nat := 0

/-- The bytes of an element. -/
abbrev Ele := List UInt8

/-- `none` is NULL. -/
abbrev CompareEleFn := Option Ele → Option Ele → Int

structure ArrayCDT where
  array : Nat
  elementSize : Nat
  capacity : Nat
  length : Nat
  /-- It is not NULL. -/
  freeEleFn : Bool
  /-- The kernel's arrays have none. -/
  cmpEleFn : Option CompareEleFn

/-- The arrays by their address, and memory. -/
structure Heap where
  arrays : Nat → Option ArrayCDT
  mem : Bytes
  written : List (Nat × Nat)
  freed : List (Option Ele)

namespace ArrayCDT

/-- `a->array + a->elementSize * idx`. -/
def eleAddr (c : ArrayCDT) (idx : Nat) : Nat := c.array + c.elementSize * idx

/-- `toRealIdx`, which the kernel's functions contain. -/
def toRealIdx (c : ArrayCDT) (idx : Int) : Option Nat :=
  if idx < 0 then if -idx > c.length then none else some (idx + c.length).toNat
  else if idx ≥ c.length then none
  else some idx.toNat

def Array_get (c : ArrayCDT) (idx : Int) : Nat :=
  match c.toRealIdx idx with
  | none => NULL
  | some idx => c.eleAddr idx

end ArrayCDT

/-- What `for (int32_t i = 0; i < n; ++i)` runs through. Behind `2^31 - 1` comes a negative
`i`, which is a large number when it is compared. -/
def indices (n : Nat) : List Nat := List.range (min n (2 ^ 31))

/-- The index that a search returns. -/
def found : Option Nat → Int
  | some i => i
  | none => -1

/-- What is left of a number in an `int32_t`, as a `uint64_t` again. -/
def int32 (n : Nat) : Nat := if n % 2 ^ 32 < 2 ^ 31 then n % 2 ^ 32 else word - 2 ^ 32 + n % 2 ^ 32

namespace Heap

def set (h : Heap) (a : Nat) (c : ArrayCDT) : Heap :=
  { h with arrays := Function.update h.arrays a (some c) }

def memcpy (h : Heap) (destination source length : Nat) : Heap :=
  { h with
    mem := Modules.memcpy h.mem destination source length
    written := h.written ++ [(destination, length)] }

/-- What a pointer to an element points to. -/
def eleAt (h : Heap) (c : ArrayCDT) (p : Nat) : Option Ele :=
  if p = NULL then none else some (readBytes h.mem p c.elementSize)

/-- `a->freeEleFn(Array_get(a, i))` for some indices, if there is a `freeEleFn`. -/
def freeEles (h : Heap) (c : ArrayCDT) (is : List Int) : Heap :=
  if c.freeEleFn then { h with freed := h.freed ++ is.map fun i => h.eleAt c (c.Array_get i) }
    else h

def copynEleAt (h : Heap) (c : ArrayCDT) (idx eleArr n : Nat) : Heap :=
  h.memcpy (c.eleAddr idx) eleArr (c.elementSize * n)

def copyEleAt (h : Heap) (c : ArrayCDT) (idx ele : Nat) : Heap := h.copynEleAt c idx ele 1

def shittyRealloc (h : Heap) (block ptr oldSize : Nat) : Heap × Nat :=
  if block = NULL then (h, NULL) else (h.memcpy block ptr oldSize, block)

end Heap

open Heap

/-! ### The kernel's arrays -/

namespace Kernel

/-- `handle` and `block` are what the two allocations get. -/
def Array_initialize (h : Heap) (handle block elementSize initialCapacity : Nat)
    (freeEleFn : Bool) : Heap × Nat :=
  if elementSize = 0 then (h, NULL)
  else if handle = NULL then (h, NULL)
  else if block = NULL then (h, NULL)
  else
    let capacity := if initialCapacity = 0 then 1 else initialCapacity
    (h.set handle ⟨block, elementSize, capacity, 0, freeEleFn, none⟩, handle)

def growTo (h : Heap) (block a : Nat) (c : ArrayCDT) (newCapacity : Nat) : Heap × ArrayCDT × Bool :=
  let (h, aux) := h.shittyRealloc block c.array (c.capacity * c.elementSize)
  if aux = NULL then (h, c, false)
  else
    let c := { c with capacity := newCapacity, array := aux }
    (h.set a c, c, true)

def growBy (h : Heap) (block a : Nat) (c : ArrayCDT) (extraCapacity : Nat) :
    Heap × ArrayCDT × Bool :=
  growTo h block a c (add64 c.capacity extraCapacity)

def Array_push (h : Heap) (block a ele : Nat) : Heap × Int :=
  match h.arrays a with
  | none => (h, -1)
  | some c =>
      if ele = NULL then (h, -1)
      else
        let (h, c, _) := if c.length ≥ c.capacity then growBy h block a c c.capacity
          else (h, c, true)
        let h := h.copyEleAt c c.length ele
        (h.set a { c with length := c.length + 1 }, c.length)

def Array_popGetEle (h : Heap) (a ele : Nat) : Heap × Bool :=
  match h.arrays a with
  | none => (h, false)
  | some c =>
      if c.length = 0 then (h, false)
      else
        let h := h.memcpy ele (c.Array_get (-1)) c.elementSize
        (h.set a { c with length := c.length - 1 }, true)

def Array_pop (h : Heap) (a : Nat) : Heap × Bool :=
  match h.arrays a with
  | none => (h, false)
  | some c =>
      if c.length = 0 then (h, false)
      else
        let h := h.freeEles c [-1]
        (h.set a { c with length := c.length - 1 }, true)

def Array_setn (h : Heap) (block a : Nat) (idx : Int) (eleArray length : Nat) : Heap × Bool :=
  match h.arrays a with
  | none => (h, false)
  | some c =>
      match c.toRealIdx idx with
      | none => (h, false)
      | some idx =>
          let h := h.freeEles c (((indices (idx + length)).drop idx).map fun i : Nat => (i : Int))
          let (h, c, _) :=
            if length > c.length - idx then growBy h block a c (length - (c.length - idx))
              else (h, c, true)
          (h.copynEleAt c idx eleArray length, true)

def Array_set (h : Heap) (block a : Nat) (idx : Int) (ele : Nat) : Heap × Bool :=
  Array_setn h block a idx ele 1

def Array_get (h : Heap) (a : Nat) (idx : Int) : Nat :=
  match h.arrays a with
  | none => NULL
  | some c => c.Array_get idx

def Array_clear (h : Heap) (a : Nat) : Heap × Bool :=
  match h.arrays a with
  | none => (h, false)
  | some c =>
      let h := h.freeEles c ((indices c.length).map fun i : Nat => (i : Int))
      (h.set a { c with length := 0 }, true)

def Array_concat (h : Heap) (block dst src : Nat) : Heap × Bool :=
  match h.arrays dst, h.arrays src with
  | some d, some s =>
      if d.elementSize ≠ s.elementSize then (h, false)
      else
        let neededCapacity := add64 d.length s.length
        let (h, d, _) := if d.capacity < neededCapacity then growTo h block dst d neededCapacity
          else (h, d, true)
        -- The two may be one array.
        let s := if src = dst then d else s
        let h := h.copynEleAt d d.length s.array s.length
        (h.set dst { d with length := add64 d.length s.length }, true)
  | _, _ => (h, false)

end Kernel

/-! ### The userland's arrays -/

namespace Userland

def Array_initialize (h : Heap) (handle block elementSize initialCapacity : Nat) (freeEleFn : Bool)
    (cmpEleFn : Option CompareEleFn) : Option (Heap × Nat) :=
  if elementSize = 0 then none
  else if handle = NULL then none
  else if block = NULL then none
  else
    let capacity := if initialCapacity = 0 then 1 else initialCapacity
    some (h.set handle ⟨block, elementSize, capacity, 0, freeEleFn, cmpEleFn⟩, handle)

def growTo (h : Heap) (block a : Nat) (c : ArrayCDT) (newCapacity : Nat) :
    Option (Heap × ArrayCDT) :=
  let (h, aux) := h.shittyRealloc block c.array (c.capacity * c.elementSize)
  if aux = NULL then none
  else
    let c := { c with capacity := newCapacity, array := aux }
    some (h.set a c, c)

def growBy (h : Heap) (block a : Nat) (c : ArrayCDT) (extraCapacity : Nat) :
    Option (Heap × ArrayCDT) :=
  growTo h block a c (add64 c.capacity extraCapacity)

def Array_push (h : Heap) (block a ele : Nat) : Option Heap := do
  let c ← h.arrays a
  if ele = NULL then none
  else
    let (h, c) ← (if c.length ≥ c.capacity then growBy h block a c c.capacity else some (h, c))
    let h := h.copyEleAt c c.length ele
    return h.set a { c with length := c.length + 1 }

def Array_popGetEle (h : Heap) (a ele : Nat) : Option (Heap × Bool) := do
  let c ← h.arrays a
  if c.length = 0 then return (h, false)
  else
    let h := h.memcpy ele (c.Array_get (-1)) c.elementSize
    return (h.set a { c with length := c.length - 1 }, true)

def Array_pop (h : Heap) (a : Nat) : Option Heap := do
  let c ← h.arrays a
  if c.length = 0 then return h
  else
    let h := h.freeEles c [-1]
    return h.set a { c with length := c.length - 1 }

def Array_setn (h : Heap) (block a : Nat) (idx : Int) (eleArray length : Nat) (free : Bool) :
    Option Heap := do
  let c ← h.arrays a
  let idx ← c.toRealIdx idx
  if length ≤ 0 then return h
  else
    let h :=
      if free then h.freeEles c (((indices (idx + length)).drop idx).map fun i : Nat => (i : Int))
        else h
    let (h, c) ←
      (if length > c.length - idx then growBy h block a c (length - (c.length - idx))
        else some (h, c))
    return h.copynEleAt c idx eleArray length

def Array_set (h : Heap) (block a : Nat) (idx : Int) (ele : Nat) : Option Heap :=
  Array_setn h block a idx ele 1 true

def Array_get (h : Heap) (a : Nat) (idx : Int) : Nat :=
  match h.arrays a with
  | none => NULL
  | some c => c.Array_get idx

def Array_clear (h : Heap) (a : Nat) : Option Heap := do
  let c ← h.arrays a
  let h := h.freeEles c ((indices c.length).map fun i : Nat => (i : Int))
  return h.set a { c with length := 0 }

def Array_concat (h : Heap) (block dst src : Nat) : Option Heap := do
  let d ← h.arrays dst
  let s ← h.arrays src
  if d.elementSize ≠ s.elementSize then none
  else
    let neededCapacity := add64 d.length s.length
    let (h, d) ← (if d.capacity < neededCapacity then growTo h block dst d neededCapacity
      else some (h, d))
    let s := if src = dst then d else s
    let h := h.copynEleAt d d.length s.array s.length
    return h.set dst { d with length := add64 d.length s.length }

/-- What the loop of `Array_equals` goes through: its result, and the arguments `cmp` gets. -/
def compareEles (h : Heap) (a1 a2 : ArrayCDT) (cmp : CompareEleFn) :
    List Nat → Bool × List (Option Ele × Option Ele)
  | [] => (true, [])
  | i :: is =>
      let ele1 := h.eleAt a1 (a1.Array_get i)
      let ele2 := h.eleAt a2 (a2.Array_get i)
      if cmp ele1 ele2 ≠ 0 then (false, [(ele1, ele2)])
      else
        let (equal, passed) := compareEles h a1 a2 cmp is
        (equal, (ele1, ele2) :: passed)

def Array_equals (h : Heap) (a1 a2 : Nat) : Option (Bool × List (Option Ele × Option Ele)) := do
  let a1 ← h.arrays a1
  let a2 ← h.arrays a2
  if a1.elementSize ≠ a2.elementSize then none
  else
    let cmp ← a1.cmpEleFn <|> a2.cmpEleFn
    return compareEles h a1 a2 cmp (indices a1.length)

def Array_find (h : Heap) (a ele : Nat) : Option Int := do
  let c ← h.arrays a
  let cmp ← c.cmpEleFn
  return found
    ((indices c.length).find? fun i => cmp (h.eleAt c ele) (h.eleAt c (c.Array_get i)) = 0)

def Array_remove (h : Heap) (block a : Nat) (idx : Int) : Option Heap := do
  let c ← h.arrays a
  let idx ← c.toRealIdx idx
  if idx = c.length - 1 then Array_pop h a
  else
    let h := h.freeEles c [idx]
    let lenToCopy := int32 (c.length - (idx + 1))
    let h ← Array_setn h block a idx (c.eleAddr (idx + 1)) lenToCopy false
    let c ← h.arrays a
    return h.set a { c with length := c.length - 1 }

end Userland

end SoTp.Arrays
