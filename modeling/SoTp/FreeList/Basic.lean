/-
The free-list memory manager (`Kernel/c/freeListMM.c`), as the code computes it.

Memory is the map from a byte address to the 64-bit word stored there. A `Block`
header is two words: `nextFreeBlock` at its address and `blockSize` eight bytes
further, so that headers that overlap in memory overlap here. Addresses are
natural numbers, since an object never wraps around the end of the address
space; sizes are `uint64_t` and every sum, difference and mask on them is taken
modulo 2^64 (`SoTp.Lib.Word64`). Loops run with fuel (`SoTp.Lib.Loop`).
-/

import Mathlib.Logic.Function.Basic
import SoTp.Lib.Loop
import SoTp.Lib.Word64

namespace SoTp.FreeList

open SoTp.Lib

/-! ### Constants -/

def NULL : Nat := 0

def addressByteSize : Nat := 8

/-- `sizeof(Block)`. -/
def structSize : Nat := 16

/-- The most significant bit of a `blockSize`. -/
def BLOCK_ALLOCATED_BITMASK : Nat := 1 <<< 63

def MINIMUM_BLOCK_SIZE_FOR_SPLIT : Nat := structSize <<< 1

/-- `(n + addressByteSize - 1) & ~(addressByteSize - 1)`. -/
def alignUp (n : Nat) : Nat :=
  add64 n (addressByteSize - 1) &&& not64 (addressByteSize - 1)

/-! ### The heap -/

/-- One heap: the memory, the address of its `Block` sentinel `freeListStart`,
the end marker `freeListEnd` and the counter `bytesAvailable`. -/
structure Heap where
  mem : Nat → Nat
  freeListStart : Nat
  freeListEnd : Nat
  bytesAvailable : Nat

namespace Heap

/-- `block->nextFreeBlock`. -/
def nextFreeBlock (h : Heap) (block : Nat) : Nat := h.mem block

/-- `block->blockSize`. -/
def blockSize (h : Heap) (block : Nat) : Nat := h.mem (block + 8)

def setNextFreeBlock (h : Heap) (block v : Nat) : Heap :=
  { h with mem := Function.update h.mem block v }

def setBlockSize (h : Heap) (block v : Nat) : Heap :=
  { h with mem := Function.update h.mem (block + 8) v }

def setBytesAvailable (h : Heap) (n : Nat) : Heap := { h with bytesAvailable := n }

end Heap

def BLOCK_SIZE_IS_VALID (blockSize : Nat) : Prop := blockSize &&& BLOCK_ALLOCATED_BITMASK = 0

instance (n : Nat) : Decidable (BLOCK_SIZE_IS_VALID n) := by
  unfold BLOCK_SIZE_IS_VALID; infer_instance

def BLOCK_IS_ALLOCATED (h : Heap) (block : Nat) : Prop :=
  h.blockSize block &&& BLOCK_ALLOCATED_BITMASK ≠ 0

instance (h : Heap) (b : Nat) : Decidable (BLOCK_IS_ALLOCATED h b) := by
  unfold BLOCK_IS_ALLOCATED; infer_instance

def ALLOCATE_BLOCK (h : Heap) (block : Nat) : Heap :=
  h.setBlockSize block (h.blockSize block ||| BLOCK_ALLOCATED_BITMASK)

def FREE_BLOCK (h : Heap) (block : Nat) : Heap :=
  h.setBlockSize block (h.blockSize block &&& not64 BLOCK_ALLOCATED_BITMASK)

/-! ### Initialisation -/

/-- `internalFreeListInit`: one free block from the aligned start up to the end
marker, which occupies the last `structSize` bytes. -/
def internalFreeListInit (mem : Nat → Nat) (heapStart heapSize freeListStart : Nat) : Heap :=
  let alinedHeapStart := alignUp heapStart
  let alinedHeapEnd := alinedHeapStart + heapSize - structSize
  let h : Heap := ⟨mem, freeListStart, alinedHeapEnd, 0⟩
  let h := h.setNextFreeBlock freeListStart alinedHeapStart
  let h := h.setBlockSize freeListStart 0
  let h := h.setBlockSize alinedHeapEnd 0
  let h := h.setNextFreeBlock alinedHeapEnd NULL
  let h := h.setBlockSize alinedHeapStart (alinedHeapEnd - alinedHeapStart)
  let h := h.setNextFreeBlock alinedHeapStart alinedHeapEnd
  h.setBytesAvailable (h.blockSize alinedHeapStart)

/-! ### Insertion with coalescing -/

/-- One round of the search for the last free block below the inserted one. -/
def advanceIterator (h : Heap) (blockToInsert blockIterator : Nat) : Exec (Pass Nat Nat) :=
  if h.nextFreeBlock blockIterator < blockToInsert then
    .ok (.again (h.nextFreeBlock blockIterator))
  else .ok (.leave blockIterator)

/-- The block before the inserted one takes it over when they touch. Returns
the heap and the block that stands for the inserted one afterwards. -/
def mergeWithPrevious (h : Heap) (blockIterator blockToInsert : Nat) : Heap × Nat :=
  if blockIterator + h.blockSize blockIterator = blockToInsert then
    (h.setBlockSize blockIterator (add64 (h.blockSize blockIterator) (h.blockSize blockToInsert)),
      blockIterator)
  else (h, blockToInsert)

/-- The inserted block takes over the next free block when they touch, unless
that is the end marker, and otherwise points at it. -/
def mergeWithNext (h : Heap) (blockIterator blockToInsert : Nat) : Heap :=
  if blockToInsert + h.blockSize blockToInsert = h.nextFreeBlock blockIterator then
    if h.nextFreeBlock blockIterator ≠ h.freeListEnd then
      let h := h.setBlockSize blockToInsert
        (add64 (h.blockSize blockToInsert) (h.blockSize (h.nextFreeBlock blockIterator)))
      h.setNextFreeBlock blockToInsert (h.nextFreeBlock (h.nextFreeBlock blockIterator))
    else h.setNextFreeBlock blockToInsert h.freeListEnd
  else h.setNextFreeBlock blockToInsert (h.nextFreeBlock blockIterator)

/-- What `insertBlockIntoFreeList` does once its iterator has stopped. -/
def linkAfter (h : Heap) (blockIterator blockToInsert : Nat) : Heap :=
  let (h, blockToInsert) := mergeWithPrevious h blockIterator blockToInsert
  let h := mergeWithNext h blockIterator blockToInsert
  if blockIterator ≠ blockToInsert then h.setNextFreeBlock blockIterator blockToInsert else h

def insertBlockIntoFreeList (fuel : Nat) (h : Heap) (blockToInsert : Nat) : Exec Heap := do
  let blockIterator ← loop (advanceIterator h blockToInsert) fuel h.freeListStart
  return linkAfter h blockIterator blockToInsert

/-! ### Allocation and release -/

/-- The size of a request rounded up, with room for the header. -/
def alinedRequiredSize (size : Nat) : Nat :=
  if size > 0 then alignUp (add64 size structSize) else 0

/-- One round of the first-fit search; the state is `(previousBlock, block)`. -/
def advanceSearch (h : Heap) (required : Nat) (s : Nat × Nat) :
    Exec (Pass (Nat × Nat) (Nat × Nat)) :=
  if h.blockSize s.2 < required ∧ h.nextFreeBlock s.2 ≠ NULL then
    .ok (.again (s.2, h.nextFreeBlock s.2))
  else .ok (.leave s)

/-- The remainder of a block that is large enough to be split goes back to the
free list. -/
def splitBlock (fuel : Nat) (h : Heap) (block required : Nat) : Exec Heap :=
  if sub64 (h.blockSize block) required > MINIMUM_BLOCK_SIZE_FOR_SPLIT then
    let newBlockLink := block + required
    let h := h.setBlockSize newBlockLink (sub64 (h.blockSize block) required)
    let h := h.setBlockSize block required
    insertBlockIntoFreeList fuel h newBlockLink
  else .ok h

def internalMalloc (fuel : Nat) (size : Nat) (h : Heap) : Exec (Heap × Nat) := do
  let required := alinedRequiredSize size
  if BLOCK_SIZE_IS_VALID required ∧ required > 0 ∧ required ≤ h.bytesAvailable then
    let (previousBlock, block) ←
      loop (advanceSearch h required) fuel (h.freeListStart, h.nextFreeBlock h.freeListStart)
    -- The end marker means that no block is large enough.
    if block ≠ h.freeListEnd then
      let toReturn := h.nextFreeBlock previousBlock + structSize
      let h := h.setNextFreeBlock previousBlock (h.nextFreeBlock block)
      let h ← splitBlock fuel h block required
      let h := h.setBytesAvailable (sub64 h.bytesAvailable (h.blockSize block))
      let h := ALLOCATE_BLOCK h block
      return (h.setNextFreeBlock block NULL, toReturn)
    else return (h, NULL)
  else return (h, NULL)

def internalFree (fuel : Nat) (ptr : Nat) (h : Heap) : Exec Heap :=
  if ptr = NULL then .ok h
  else
    let freeBlock := ptr - structSize
    if BLOCK_IS_ALLOCATED h freeBlock ∧ h.nextFreeBlock freeBlock = NULL then
      let h := FREE_BLOCK h freeBlock
      let h := h.setBytesAvailable (add64 h.bytesAvailable (h.blockSize freeBlock))
      insertBlockIntoFreeList fuel h freeBlock
    else .ok h

end SoTp.FreeList
