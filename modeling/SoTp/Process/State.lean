/-
The kernel's data: process control blocks, the process list, semaphores and the
timer's sleep list.

A pointer is a natural number and NULL is 0. Every allocation takes an address
that was never used before (`unused`), so an address names one object for ever;
`allocated` says which PCBs have not been freed. The pointers kept outside of
`pcbList` (in a semaphore queue, the sleep list, a `waitingForMe` table or
`processInForeground`) may outlive their PCB, and the code that follows one is
modelled as a fault when they do.

Left out are the fields nothing here reads: `rbp`, `name`, `stack`, `pipes`, the
addresses of a process heap, and the lock of a semaphore, which is always free
at the start of a system call.
-/

import Mathlib.Logic.Function.Basic
import SoTp.Lib.Fifo
import SoTp.Lib.Loop
import SoTp.Lib.Word64

namespace SoTp.Process

open SoTp.Lib

def NULL : Nat := 0

/-- `(uint32_t)(-1)`. -/
def IDLE_PID : Nat := 2 ^ 32 - 1

def KILL_EXIT_CODE : Int := 1

/-! ### Objects -/

inductive State where
  | ready
  | running
  | blocked
  | exited
  | waitingForExit
  | blockedByUser
deriving DecidableEq, Repr, Inhabited

/-- A process control block. `waitingForMe` holds the first `wfmLen` entries of
the table, so `wfmLen` is its length. -/
structure PCB where
  pid : Nat
  priority : Nat
  state : State
  rsp : Nat
  waitedProcessExitCode : Int
  waitingForMe : List Nat
  parentProc : Nat
  heapFreed : Bool

structure PCBNode where
  pcb : Nat
  next : Nat

structure PCBList where
  head : Nat
  tail : Nat
  current : Nat
  prev : Nat
  len : Nat

structure Semaphore where
  value : Nat
  destroyed : Bool
  queue : Fifo Nat

structure SleptProcess where
  ticksRemaining : Nat
  pcb : Nat
  next : Nat

/-- The kernel between two of its operations. `rsp` is the stack pointer of the
running process, and `junk` what a read through a pointer to no PCB gives. -/
structure Kernel where
  nodes : Nat → PCBNode
  pcbs : Nat → PCB
  allocated : Nat → Bool
  unused : Nat
  pcbList : PCBList
  idleProcPCBNode : Nat
  processInForeground : Nat
  pid : Nat
  quantumsLeft : Int
  semArray : List Semaphore
  freedPositions : List Nat
  sleepNodes : Nat → SleptProcess
  first : Nat
  ticks : Nat
  rsp : Nat
  junk : Nat → Nat

/-- What an operation leaves behind, and whether the running process lost the
processor on the way, in which case nothing of the operation is left to do. -/
structure Outcome where
  kernel : Kernel
  left : Bool

namespace Kernel

/-! ### Views and updates -/

def stateOf (k : Kernel) (pcb : Nat) : State := (k.pcbs pcb).state

/-- `waitingForMe` of a PCB. -/
def waitersOf (k : Kernel) (pcb : Nat) : List Nat := (k.pcbs pcb).waitingForMe

def pidOf (k : Kernel) (pcb : Nat) : Nat := (k.pcbs pcb).pid

def pcbOf (k : Kernel) (node : Nat) : Nat := (k.nodes node).pcb

def next (k : Kernel) (node : Nat) : Nat := (k.nodes node).next

/-- `pcbList.current->pcb`. -/
def currentPCB (k : Kernel) : Nat := k.pcbOf k.pcbList.current

def idle (k : Kernel) : Prop := k.pcbList.current = k.idleProcPCBNode

instance (k : Kernel) : Decidable k.idle := inferInstanceAs (Decidable (_ = _))

/-- `pcb->pid == pcbList.current->pcb->pid`. -/
def isCurrent (k : Kernel) (pcb : Nat) : Bool := k.pidOf pcb == k.pidOf k.currentPCB

/-- `processInForeground->pid`. -/
def foregroundPid (k : Kernel) : Nat :=
  if k.allocated k.processInForeground then k.pidOf k.processInForeground
  else k.junk k.processInForeground

def setPCB (k : Kernel) (pcb : Nat) (f : PCB → PCB) : Kernel :=
  { k with pcbs := Function.update k.pcbs pcb (f (k.pcbs pcb)) }

def setState (k : Kernel) (pcb : Nat) (s : State) : Kernel :=
  k.setPCB pcb fun p => { p with state := s }

def setNext (k : Kernel) (node next : Nat) : Kernel :=
  { k with nodes := Function.update k.nodes node { k.nodes node with next := next } }

section Lemmas

variable {k : Kernel} {p q n m : Nat} {s : State} {f : PCB → PCB}

theorem setPCB_pcbs : (k.setPCB p f).pcbs q = if q = p then f (k.pcbs p) else k.pcbs q := by
  simp [setPCB, Function.update_apply]

theorem stateOf_setState : (k.setState p s).stateOf q = if q = p then s else k.stateOf q := by
  unfold stateOf setState
  rw [setPCB_pcbs]
  split_ifs <;> rfl

@[simp] theorem stateOf_setState_self : (k.setState p s).stateOf p = s := by
  rw [stateOf_setState, if_pos rfl]

theorem stateOf_setState_ne (ne : q ≠ p) : (k.setState p s).stateOf q = k.stateOf q := by
  rw [stateOf_setState, if_neg ne]

theorem setNext_next : (k.setNext n m).next q = if q = n then m else k.next q := by
  simp only [setNext, next, Function.update_apply]
  split_ifs <;> rfl

@[simp] theorem setNext_pcbOf : (k.setNext n m).pcbOf q = k.pcbOf q := by
  simp only [setNext, pcbOf, Function.update_apply]
  split_ifs with e
  · rw [e]
  · rfl

end Lemmas

end Kernel

end SoTp.Process
