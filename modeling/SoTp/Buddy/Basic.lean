/-
The buddy memory manager (`Kernel/c/buddyMM.c`, the BUDDY build), as the code
computes it.

Memory maps a byte address to what is stored there. A `Block` header is three
fields: `next` at its address, the `uint32_t size` eight bytes further and the
`bool isFree` twelve bytes further, so that headers that overlap in memory
overlap here. The array `freeList` lies outside of the heap. Sizes are
`uint32_t`; loops and the recursion of `mergeBlock` run with fuel.
-/

import SoTp.FreeList.Layout

namespace SoTp.Buddy

open SoTp.Lib
open SoTp.FreeList (NULL structSize alignUp)

/-! ### Constants -/

def ORDER_COUNT : Nat := 27

def MAX_MEMORY_AVAILABLE : Nat := 1 <<< (ORDER_COUNT - 1)

def PROCESS_HEAP_ORDER_COUNT : Nat := 17

def PROCESS_HEAP_SIZE : Nat := 1 <<< (PROCESS_HEAP_ORDER_COUNT - 1)

/-- Number of values of a `uint32_t`. -/
def word32 : Nat := 2 ^ 32

/-! ### The heap -/

/-- One heap: the memory, and the heads of its free lists by order. -/
structure Heap where
  mem : Nat → Nat
  freeList : Nat → Nat

namespace Heap

/-- `block->next`. -/
def next (h : Heap) (block : Nat) : Nat := h.mem block

/-- `block->size`. -/
def size (h : Heap) (block : Nat) : Nat := h.mem (block + 8)

/-- `block->isFree`. -/
def isFree (h : Heap) (block : Nat) : Prop := h.mem (block + 12) ≠ 0

instance (h : Heap) (block : Nat) : Decidable (h.isFree block) :=
  inferInstanceAs (Decidable (h.mem (block + 12) ≠ 0))

def setNext (h : Heap) (block v : Nat) : Heap :=
  { h with mem := Function.update h.mem block v }

def setSize (h : Heap) (block v : Nat) : Heap :=
  { h with mem := Function.update h.mem (block + 8) v }

def setIsFree (h : Heap) (block : Nat) (v : Bool) : Heap :=
  { h with mem := Function.update h.mem (block + 12) v.toNat }

def setFreeList (h : Heap) (order block : Nat) : Heap :=
  { h with freeList := Function.update h.freeList order block }

end Heap

/-- `internalFreeListInit`: every list is empty but the one of the whole heap. -/
def internalFreeListInit (mem freeList : Nat → Nat) (orderCount heapStart heapSize : Nat) : Heap :=
  let h : Heap := ⟨mem, fun i => if i < orderCount then NULL else freeList i⟩
  let initialBlock := alignUp heapStart
  let h := h.setSize initialBlock heapSize
  let h := h.setIsFree initialBlock true
  let h := h.setNext initialBlock NULL
  h.setFreeList (orderCount - 1) initialBlock

/-! ### Allocation -/

/-- One round of `getOrder`; the state is `(order, iniBlockSize)`. -/
def advanceOrder (size : Nat) (s : Nat × Nat) : Exec (Pass (Nat × Nat) Nat) :=
  if s.2 < size then .ok (.again (s.1 + 1, s.2 * 2 % word32)) else .ok (.leave s.1)

/-- The least order whose blocks have the given `uint32_t` size. -/
def getOrder (fuel size : Nat) : Exec Nat := loop (advanceOrder size) fuel (0, 1)

/-- Halves a block. Returns the heap and the upper half. -/
def splitBlock (h : Heap) (block : Nat) : Heap × Nat :=
  let newBlockSize := h.size block / 2
  let h := h.setSize block newBlockSize
  let buddy := block + newBlockSize
  let h := h.setSize buddy newBlockSize
  (h.setIsFree buddy true, buddy)

/-- The search of `internalMalloc` over the orders from `currentOrder` on. -/
def findOrder (h : Heap) : Nat → Nat → Option Nat
  | 0, _ => none
  | remaining + 1, currentOrder =>
      if h.freeList currentOrder ≠ NULL ∧ h.isFree (h.freeList currentOrder) then some currentOrder
      else findOrder h remaining (currentOrder + 1)

/-- Halves a block of order `order + n` until it is of order `order`. The upper
halves go to the free lists. -/
def splitDown (block order : Nat) : Nat → Heap → Heap
  | 0, h => h
  | n + 1, h =>
      let (h, buddy) := splitBlock h block
      let h := h.setNext buddy (h.freeList (order + n))
      splitDown block order n (h.setFreeList (order + n) buddy)

def internalMalloc (fuel size orderCount : Nat) (h : Heap) : Exec (Heap × Nat) := do
  let order ← getOrder fuel (add64 size structSize % word32)
  match findOrder h (orderCount - order) order with
  | none => return (h, NULL)
  | some currentOrder =>
      let block := h.freeList currentOrder
      let h := h.setFreeList currentOrder (h.next block)
      let h := splitDown block order (currentOrder - order) h
      return (h.setIsFree block false, block + structSize)

/-! ### Release -/

/-- One round of the walk of `removeFromFreeList`. -/
def advanceCurrent (h : Heap) (toRemove currentBlock : Nat) : Exec (Pass Nat Nat) :=
  if currentBlock ≠ NULL ∧ h.next currentBlock ≠ toRemove then
    .ok (.again (h.next currentBlock))
  else .ok (.leave currentBlock)

def removeFromFreeList (fuel toRemove order : Nat) (h : Heap) : Exec Heap :=
  let h := h.setIsFree toRemove false
  if h.freeList order = toRemove then .ok (h.setFreeList order (h.next toRemove))
  else do
    let currentBlock ← loop (advanceCurrent h toRemove) fuel (h.freeList order)
    let h := if currentBlock ≠ NULL then h.setNext currentBlock (h.next toRemove) else h
    return h.setNext toRemove NULL

inductive Alignment where
  | LEFT
  | RIGHT
deriving DecidableEq, Repr

/-- Dividing by a `size` of 0 has no result. -/
def getAlignment (h : Heap) (block heapStart : Nat) : Exec Alignment :=
  if h.size block = 0 then .error .fault
  else if sub64 block heapStart % word32 / h.size block % 2 = 0 then .ok .LEFT
  else .ok .RIGHT

/-- `mergeBlock`, with `walk` rounds for each list and at most the given number
of levels. -/
def mergeBlock (walk heapStart maxMem : Nat) : Nat → Nat → Nat → Heap → Exec Heap
  | 0, _, _, _ => .error .fuel
  | fuel + 1, block, order, h =>
      if h.size block = maxMem then .ok (h.setFreeList order block)
      else do
        let alignment ← getAlignment h block heapStart
        let buddy := if alignment = .LEFT then block + h.size block else block - h.size block
        if buddy = NULL ∨ ¬ h.isFree buddy ∨ h.size buddy ≠ h.size block then
          let h := h.setNext block (h.freeList order)
          return h.setFreeList order block
        else
          let h ← removeFromFreeList walk block order h
          let h ← removeFromFreeList walk buddy order h
          let block := if alignment = .RIGHT then buddy else block
          let h := h.setSize block (h.size block * 2 % word32)
          let h := h.setIsFree block true
          mergeBlock walk heapStart maxMem fuel block (order + 1) h

/-- What `globalFree` and `free` do with a pointer of a heap of `maxMem` bytes. -/
def release (fuel heapStart maxMem ptr : Nat) (h : Heap) : Exec Heap := do
  let block := ptr - structSize
  let h := h.setIsFree block true
  let order ← getOrder fuel (h.size block)
  mergeBlock fuel heapStart maxMem fuel block order h

/-- `globalFree`, for a heap of any size. -/
def freeIn (fuel heapStart maxMem ptr : Nat) (h : Heap) : Exec Heap :=
  if ptr = NULL then .ok h else release fuel heapStart maxMem ptr h

/-- `free`, for a heap of any size: it ignores pointers outside of the heap. -/
def freeInside (fuel heapStart maxMem ptr : Nat) (h : Heap) : Exec Heap :=
  if ptr = NULL then .ok h
  else if ptr < heapStart ∨ ptr ≥ heapStart + maxMem then .ok h
  else release fuel heapStart maxMem ptr h

def globalFree (fuel iniAddress ptr : Nat) (h : Heap) : Exec Heap :=
  freeIn fuel iniAddress MAX_MEMORY_AVAILABLE ptr h

def free (fuel heap ptr : Nat) (h : Heap) : Exec Heap :=
  freeInside fuel heap PROCESS_HEAP_SIZE ptr h

end SoTp.Buddy
