/-
Heaps inside a heap. The kernel allocates from the global heap, and three of
the blocks it gets make a process: its PCB, a block of `PROCESS_HEAP_SIZE` bytes
that is the heap of the process, and the sentinel `Block` of its free list. The
process-level `malloc` and `free` run the same list code on that heap. All heaps
share one memory, and the bookkeeping of a process heap is in its PCB.

A `Machine` is that memory with the allocator's statics; beside them it records
which payloads the kernel and each process hold.
-/

import SoTp.FreeList.Reachable

namespace SoTp.FreeList

open SoTp.Lib

/-! ### The PCB -/

def PROCESS_HEAP_SIZE : Nat := 1 <<< (17 - 1)

def MAX_MEMORY_AVAILABLE : Nat := (1 <<< 20) * 64

/-- `sizeof(PCB)`, and the offsets of the fields that describe the heap. -/
def sizeofPCB : Nat := 208

def heapField : Nat := 168

def freeListStartField : Nat := 184

def freeListEndField : Nat := 192

def bytesAvailableField : Nat := 200

/-- A running process: its three global blocks, and the pointers it holds. -/
structure Process where
  pcb : Nat
  heap : Nat
  freeListStart : Nat
  live : List (Nat × Nat)

/-- The free list `malloc` and `free` work on, as the PCB describes it. -/
def processHeap (mem : Nat → Nat) (pcb : Nat) : Heap :=
  ⟨mem, mem (pcb + freeListStartField), mem (pcb + freeListEndField),
    mem (pcb + bytesAvailableField)⟩

/-- `malloc` called by the process of the PCB. -/
def malloc (fuel pcb size : Nat) (mem : Nat → Nat) : Exec ((Nat → Nat) × Nat) := do
  let (h, p) ← internalMalloc fuel size (processHeap mem pcb)
  return (Function.update h.mem (pcb + bytesAvailableField) h.bytesAvailable, p)

/-- `free` called by the process of the PCB. -/
def free (fuel pcb ptr : Nat) (mem : Nat → Nat) : Exec (Nat → Nat) :=
  if ptr = NULL then .ok mem
  else if ptr < mem (pcb + heapField) ∨ ptr ≥ mem (pcb + heapField) + PROCESS_HEAP_SIZE then .ok mem
  else do
    let h ← internalFree fuel ptr (processHeap mem pcb)
    return Function.update h.mem (pcb + bytesAvailableField) h.bytesAvailable

/-- The part of `createPCBNode` that sets the heap of the process up, once its
blocks have been allocated. -/
def initProcessHeap (pcb heap freeListStart : Nat) (mem : Nat → Nat) : Nat → Nat :=
  let mem := Function.update mem (pcb + heapField) heap
  let mem := Function.update mem (pcb + freeListStartField) freeListStart
  let h := internalFreeListInit mem heap PROCESS_HEAP_SIZE freeListStart
  let mem := Function.update h.mem (pcb + freeListEndField) h.freeListEnd
  Function.update mem (pcb + bytesAvailableField) h.bytesAvailable

/-! ### The machine -/

/-- What `memoryInit` is called with: the end of the modules, and where the
static sentinel `listStart` is. -/
structure Boot where
  endOfModules : Nat
  listStart : Nat
  room : endOfModules + 7 + MAX_MEMORY_AVAILABLE ≤ word
  outside : listStart + structSize ≤ alignUp endOfModules ∨
    alignUp endOfModules + MAX_MEMORY_AVAILABLE ≤ listStart

def Boot.area (boot : Boot) : Area where
  heapStart := boot.endOfModules
  heapSize := MAX_MEMORY_AVAILABLE
  freeListStart := boot.listStart
  multiple := by decide
  large := by decide
  uint32 := by decide
  outside := boot.outside

/-- The memory, the statics of the global allocator, and who holds what. -/
structure Machine where
  mem : Nat → Nat
  listStart : Nat
  listEnd : Nat
  freeBytesRemaining : Nat
  kernel : List (Nat × Nat)
  processes : List Process

namespace Machine

def globalHeap (s : Machine) : Heap := ⟨s.mem, s.listStart, s.listEnd, s.freeBytesRemaining⟩

/-- The kernel as a client of the global heap. -/
def client (s : Machine) : Client := ⟨s.globalHeap, s.kernel⟩

/-- `memoryInit`. -/
def memoryInit (boot : Boot) (mem : Nat → Nat) : Machine :=
  let h := internalFreeListInit mem boot.endOfModules MAX_MEMORY_AVAILABLE boot.listStart
  ⟨h.mem, boot.listStart, h.freeListEnd, h.bytesAvailable, [], []⟩

def setGlobalHeap (s : Machine) (h : Heap) : Machine :=
  { s with mem := h.mem, freeBytesRemaining := h.bytesAvailable }

/-- The process of the PCB holds other pointers now. -/
def setLive (s : Machine) (pcb : Nat) (live : List (Nat × Nat)) : Machine :=
  { s with processes := s.processes.map fun P => if P.pcb = pcb then { P with live := live } else P }

end Machine

/-- Where a process keeps its heap: the block, the sentinel, and the four words
of the PCB that describe them. -/
def Process.Owns (P : Process) (a : Nat) : Prop :=
  (P.heap ≤ a ∧ a < P.heap + PROCESS_HEAP_SIZE) ∨
    (P.freeListStart ≤ a ∧ a < P.freeListStart + structSize) ∨
    (P.pcb + heapField ≤ a ∧ a < P.pcb + heapField + 8) ∨
    (P.pcb + freeListStartField ≤ a ∧ a < P.pcb + sizeofPCB)

/-- The pointers to the three blocks of a process. -/
def Process.blocks (P : Process) : List Nat := [P.pcb, P.heap, P.freeListStart]

/-! ### Steps -/

inductive Op where
  | globalMalloc (size : Nat)
  | globalFree (p n : Nat)
  | start (P : Process)
  | stop (P : Process)
  | malloc (P : Process) (size : Nat)
  | free (P : Process) (p n : Nat)
  | write (mem : Nat → Nat)

/-- What the callers promise: sizes do not wrap, only live pointers are freed,
the blocks of a running process stay allocated, and nobody writes outside of
the payloads it holds or into the bookkeeping of a process heap. -/
def Allowed (s : Machine) : Op → Prop
  | .globalMalloc size => size + 23 ≤ 2 ^ 64 - 1
  | .globalFree p n => (p, n) ∈ s.kernel ∧ p ∉ s.processes.flatMap Process.blocks
  | .start P => (P.pcb, sizeofPCB) ∈ s.kernel ∧ (P.heap, PROCESS_HEAP_SIZE) ∈ s.kernel ∧
      (P.freeListStart, structSize) ∈ s.kernel ∧ P.live = [] ∧
      ((P :: s.processes).flatMap Process.blocks).Nodup
  | .stop P => P ∈ s.processes
  | .malloc P size => P ∈ s.processes ∧ size + 23 ≤ 2 ^ 64 - 1
  | .free P p n => P ∈ s.processes ∧ (p, n) ∈ P.live
  | .write mem => ∀ a, mem a ≠ s.mem a →
      (∃ P ∈ s.processes, ∃ p n, (p, n) ∈ P.live ∧ p ≤ a ∧ a < p + n) ∨
        ((∃ p n, (p, n) ∈ s.kernel ∧ p ≤ a ∧ a < p + n) ∧ ∀ P ∈ s.processes, ¬ P.Owns a)

def exec (fuel : Nat) (s : Machine) : Op → Exec Machine
  | .globalMalloc size => do
      let (h, p) ← internalMalloc fuel size s.globalHeap
      return { s.setGlobalHeap h with kernel := if p = NULL then s.kernel else (p, size) :: s.kernel }
  | .globalFree p n => do
      let h ← internalFree fuel p s.globalHeap
      return { s.setGlobalHeap h with kernel := s.kernel.erase (p, n) }
  | .start P => .ok { s with
      mem := initProcessHeap P.pcb P.heap P.freeListStart s.mem
      processes := P :: s.processes }
  | .stop P => .ok { s with processes := s.processes.filter fun Q => Q.pcb ≠ P.pcb }
  | .malloc P size => do
      let (mem, p) ← malloc fuel P.pcb size s.mem
      return { s with mem := mem }.setLive P.pcb (if p = NULL then P.live else (p, size) :: P.live)
  | .free P p n => do
      let mem ← free fuel P.pcb p s.mem
      return { s with mem := mem }.setLive P.pcb (P.live.erase (p, n))
  | .write mem => .ok { s with mem := mem }

/-- One step of the kernel or of a process. -/
def Machine.Step (s s' : Machine) : Prop := ∃ op fuel, Allowed s op ∧ exec fuel s op = .ok s'

/-- The machines an interleaving can reach from `memoryInit`. -/
def Machine.Reach (boot : Boot) (s : Machine) : Prop :=
  ∃ mem, Relation.ReflTransGen Machine.Step (Machine.memoryInit boot mem) s

end SoTp.FreeList
