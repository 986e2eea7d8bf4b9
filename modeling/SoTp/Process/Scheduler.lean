/-
The scheduler and the life of a process (`Kernel/c/scheduler.c`), as the code
computes it.

A function that ends in `contextSwitch` is modelled up to and including it: the
process that called it goes on when it is scheduled again. Where the code calls
`contextSwitch` on behalf of a process that has just been killed, that process
never goes on, and the outcome says that it left.
-/

import SoTp.Process.State

namespace SoTp.Process

open SoTp.Lib

namespace Kernel

/-! ### The process list -/

/-- Which of the `globalMalloc` calls of a process creation return memory. -/
structure ProcessMemory where
  stack : Bool
  node : Bool
  pcb : Bool
  heap : Bool
  freeListStart : Bool

/-- `createPCBNode` when its allocations succeed; the new node. `garbage` is what
the fresh memory holds where no field is initialised. -/
def createPCBNode (k : Kernel) (pid priority : Nat) (state : State) (rsp : Nat) (garbage : Int) :
    Kernel × Nat :=
  let node := k.unused
  let pcb := k.unused + 1
  ({ k with
      unused := k.unused + 2
      nodes := Function.update k.nodes node ⟨pcb, NULL⟩
      pcbs := Function.update k.pcbs pcb
        { pid, priority, state, rsp, waitedProcessExitCode := garbage, waitingForMe := []
          parentProc := k.currentPCB, heapFreed := false }
      allocated := Function.update k.allocated pcb true }, node)

/-- The list part of `addPCB`. -/
def appendNode (k : Kernel) (node : Nat) : Kernel :=
  if k.pcbList.head = NULL then
    let k := { k with pcbList := { k.pcbList with head := node } }
    let k := k.setNext node node
    { k with pcbList := { k.pcbList with tail := node, len := k.pcbList.len + 1 } }
  else
    let k := if k.pcbList.prev = k.pcbList.tail then
      { k with pcbList := { k.pcbList with prev := node } } else k
    let k := k.setNext node k.pcbList.head
    let k := k.setNext k.pcbList.tail node
    { k with pcbList := { k.pcbList with tail := node, len := k.pcbList.len + 1 } }

def addPCB (k : Kernel) (mem : ProcessMemory) (pid rsp : Nat) (garbage : Int) : Kernel × Bool :=
  if mem.node && mem.pcb && mem.heap && mem.freeListStart then
    let (k, node) := k.createPCBNode pid 1 .ready rsp garbage
    (k.appendNode node, true)
  else (k, false)

def freeCurrentProcess (k : Kernel) : Kernel :=
  if k.pcbList.current = NULL ∨ k.pcbList.head = NULL then k
  else if k.pcbList.head = k.pcbList.tail then k
  else
    let toRemove := k.pcbList.current
    let current := k.next toRemove
    let k := k.setNext k.pcbList.prev current
    { k with
      allocated := Function.update k.allocated (k.pcbOf toRemove) false
      pcbList := { k.pcbList with
        current := current
        head := if k.pcbList.head = toRemove then current else k.pcbList.head
        tail := if k.pcbList.head = toRemove then k.pcbList.tail
          else if k.pcbList.tail = toRemove then k.pcbList.prev else k.pcbList.tail
        len := k.pcbList.len - 1 } }

def nextPCB (k : Kernel) : Kernel :=
  if k.pcbList.head = NULL then k
  else if k.pcbList.current = NULL then
    { k with pcbList := { k.pcbList with current := k.pcbList.head, prev := k.pcbList.tail } }
  else if k.pcbList.current = k.idleProcPCBNode then
    { k with pcbList := { k.pcbList with current := k.next k.pcbList.prev } }
  else
    { k with pcbList := { k.pcbList with
        prev := k.pcbList.current, current := k.next k.pcbList.current } }

/-! ### Scheduling -/

/-- One round of the search for the next process to run. -/
def selectRound (ogCurrent : Nat) (k : Kernel) : Exec (Pass Kernel (Kernel × Nat)) :=
  let pcb := k.currentPCB
  if k.stateOf pcb = .ready then
    let k := k.setState pcb .running
    .ok (.leave ({ k with quantumsLeft := (k.pcbs pcb).priority - 1 }, (k.pcbs pcb).rsp))
  else if k.pcbList.current = ogCurrent then
    let k := { k with pcbList := { k.pcbList with current := k.idleProcPCBNode } }
    .ok (.leave (k, (k.pcbs k.currentPCB).rsp))
  else if k.stateOf pcb = .exited then .ok (.again k.freeCurrentProcess)
  else .ok (.again k.nextPCB)

/-- `schedule` from where the running process has used up its quantums on. -/
def select (fuel : Nat) (k : Kernel) : Exec (Kernel × Nat) :=
  let k := if k.stateOf k.currentPCB = .running then k.setState k.currentPCB .ready else k
  let k := if k.idle then k.nextPCB else k
  let ogCurrent := k.pcbList.current
  loop (selectRound ogCurrent) fuel k.nextPCB

/-- `pcbList.current->pcb->rsp = rsp`. -/
def saveRsp (k : Kernel) (rsp : Nat) : Kernel :=
  k.setPCB k.currentPCB fun p => { p with rsp := rsp }

def schedule (fuel rsp : Nat) (k : Kernel) : Exec (Kernel × Nat) :=
  let k := k.saveRsp rsp
  if k.quantumsLeft > 0 ∧ k.stateOf k.currentPCB = .running then
    .ok ({ k with quantumsLeft := k.quantumsLeft - 1 }, rsp)
  else k.select fuel

def contextSwitch (fuel : Nat) (k : Kernel) : Exec Kernel := do
  let (k, rsp) ← k.schedule fuel k.rsp
  return { k with rsp := rsp }

/-- The rest of an operation: the process that left gives the processor up. -/
def finish (fuel : Nat) (out : Outcome) : Exec Kernel :=
  if out.left then out.kernel.contextSwitch fuel else .ok out.kernel

/-! ### Process creation -/

/-- `createProcess`. Without a stack the arguments are written through NULL. -/
def createProcess (mem : ProcessMemory) (rsp : Nat) (garbage : Int) (k : Kernel) :
    Exec (Kernel × Bool) :=
  if mem.stack then
    .ok ({ k with pid := (k.pid + 1) % 2 ^ 32 }.addPCB mem k.pid rsp garbage)
  else .error .fault

/-- The kernel's memory before `initializePCBList`. -/
def blank : Kernel where
  nodes _ := ⟨NULL, NULL⟩
  pcbs _ := ⟨0, 0, .exited, 0, 0, [], NULL, false⟩
  allocated _ := false
  unused := 1
  pcbList := ⟨NULL, NULL, NULL, NULL, 0⟩
  idleProcPCBNode := NULL
  processInForeground := NULL
  pid := 0
  quantumsLeft := 0
  semArray := []
  freedPositions := []
  sleepNodes _ := ⟨0, NULL, NULL⟩
  first := NULL
  ticks := 0
  rsp := 0
  junk _ := 0

def initializePCBList (k : Kernel) (rsp : Nat) : Kernel :=
  let (k, node) := k.createPCBNode IDLE_PID 1 .ready rsp 0
  { k with idleProcPCBNode := node, pcbList := ⟨NULL, NULL, NULL, NULL, 0⟩ }

/-- `createUserModuleProcess` up to `initializeSpeaker`, whose `semInit` and
`createUserProcess` are ordinary operations. -/
def createUserModuleProcess (k : Kernel) (rsp : Nat) (garbage : Int) : Kernel :=
  let k := ({ k with pid := (k.pid + 1) % 2 ^ 32 }.addPCB ⟨true, true, true, true, true⟩ k.pid rsp
    garbage).1
  let k := k.nextPCB
  let k := { k with processInForeground := k.currentPCB, rsp := rsp }
  k.setPCB k.currentPCB fun p => { p with parentProc := NULL }

/-! ### Exit and kill -/

/-- The loop of `exitProcessByPCB` over `waitingForMe`. -/
def exitWaiters (exitPCB : Nat → Kernel → Exec Outcome) (exitCode : Int) :
    List Nat → Kernel → Exec Outcome
  | [], k => .ok ⟨k, false⟩
  | pcb2 :: rest, k =>
      if k.allocated pcb2 = false then .error .fault
      else match k.stateOf pcb2 with
        | .blocked => exitWaiters exitPCB exitCode rest
            (k.setPCB pcb2 fun p => { p with state := .ready, waitedProcessExitCode := exitCode })
        | .waitingForExit => do
            let out ← exitPCB pcb2 k
            if out.left then return out else exitWaiters exitPCB exitCode rest out.kernel
        | _ => exitWaiters exitPCB exitCode rest k

/-- Marks a process EXITED and gives the foreground back to its parent. -/
def markExited (k : Kernel) (pcb : Nat) : Kernel :=
  let k := k.setState pcb .exited
  if k.pidOf pcb = k.foregroundPid then
    { k with processInForeground := (k.pcbs pcb).parentProc } else k

/-- Marks a BLOCKED process WAITING_FOR_EXIT and frees its heap. -/
def markWaitingForExit (k : Kernel) (pcb : Nat) : Kernel :=
  k.setPCB pcb fun p => { p with state := .waitingForExit, heapFreed := true }

def exitProcessByPCB : Nat → Nat → Int → Kernel → Exec Outcome
  | 0, _, _, _ => .error .fuel
  | fuel + 1, pcb, exitCode, k =>
      if k.allocated pcb = false then .error .fault
      else match k.stateOf pcb with
        | .exited => .ok ⟨k, false⟩
        | .blocked => .ok ⟨k.markWaitingForExit pcb, k.isCurrent pcb⟩
        | _ => do
            let out ← exitWaiters (fun pcb2 => exitProcessByPCB fuel pcb2 KILL_EXIT_CODE) exitCode
              (k.waitersOf pcb) (k.markExited pcb)
            if out.left then return out
            else return ⟨out.kernel, out.kernel.isCurrent pcb⟩

def exitCurrentProcess (fuel : Nat) (exitCode : Int) (k : Kernel) : Exec Kernel := do
  let out ← exitProcessByPCB fuel k.currentPCB exitCode k
  out.kernel.contextSwitch fuel

/-- One round of the search of `getPCBByPid`, at a node. -/
def searchRound (k : Kernel) (pid : Nat) (node : Nat) : Exec (Pass Nat Nat) :=
  if k.pidOf (k.pcbOf node) = pid then .ok (.leave (k.pcbOf node))
  else
    let node := k.next node
    if k.pidOf (k.pcbOf node) ≤ pid ∧ node ≠ k.pcbList.head then .ok (.again node)
    else .ok (.leave NULL)

def getPCBByPid (fuel pid : Nat) (k : Kernel) : Exec Nat :=
  loop (k.searchRound pid) fuel k.pcbList.head

def kill (fuel pid : Nat) (k : Kernel) : Exec (Kernel × Bool) :=
  if pid = 0 then .ok (k, false)
  else do
    let pcb ← k.getPCBByPid fuel pid
    if pcb = NULL ∨ k.stateOf pcb = .exited ∨ k.stateOf pcb = .waitingForExit then
      return (k, false)
    else
      let out ← exitProcessByPCB fuel pcb KILL_EXIT_CODE k
      return (← finish fuel out, true)

def killCurrentProcessInForeground (fuel : Nat) (k : Kernel) : Exec Kernel :=
  if k.foregroundPid = 0 then .ok k
  else do
    let out ← exitProcessByPCB fuel k.processInForeground KILL_EXIT_CODE k
    out.kernel.contextSwitch fuel

/-! ### Waiting, blocking and yielding -/

def blockCurrentProcess (fuel : Nat) (k : Kernel) : Exec Kernel :=
  (k.setState k.currentPCB .blocked).contextSwitch fuel

/-- `pcb->waitingForMe[pcb->wfmLen++] = waiter`. The table has ten entries; an
eleventh one lands on `parentProc`, and a twelfth one on `wfmLen` itself. -/
def recordWaiter (k : Kernel) (pcb waiter : Nat) : Exec Kernel :=
  let len := (k.waitersOf pcb).length
  if len < 10 then
    .ok (k.setPCB pcb fun p => { p with waitingForMe := p.waitingForMe ++ [waiter] })
  else if len = 10 then
    .ok (k.setPCB pcb fun p =>
      { p with waitingForMe := p.waitingForMe ++ [waiter], parentProc := waiter })
  else .error .fault

def waitPid (fuel pid : Nat) (k : Kernel) : Exec Kernel :=
  if pid = k.pidOf k.currentPCB then .ok k
  else do
    let pcb ← k.getPCBByPid fuel pid
    if pcb = NULL ∨ k.stateOf pcb = .exited then return k
    else
      let k ← k.recordWaiter pcb k.currentPCB
      let k := k.setState k.currentPCB .blocked
      let k := if k.pidOf k.currentPCB = k.foregroundPid then
        { k with processInForeground := pcb } else k
      k.contextSwitch fuel

def changePriority (fuel pid newPriority : Nat) (k : Kernel) : Exec (Kernel × Bool) :=
  if newPriority = 0 ∨ newPriority > 9 then .ok (k, false)
  else do
    let pcb ← k.getPCBByPid fuel pid
    if pcb = NULL then return (k, false)
    else return (k.setPCB pcb fun p => { p with priority := newPriority }, true)

def blockByUser (fuel pid : Nat) (k : Kernel) : Exec (Kernel × Bool) := do
  let pcb ← k.getPCBByPid fuel pid
  if pcb ≠ NULL ∧ (k.stateOf pcb = .ready ∨ k.stateOf pcb = .running) then
    let k := k.setState pcb .blockedByUser
    return (← finish fuel ⟨k, k.isCurrent pcb⟩, true)
  else return (k, false)

def unblock (fuel pid : Nat) (k : Kernel) : Exec (Kernel × Bool) := do
  let pcb ← k.getPCBByPid fuel pid
  if pcb ≠ NULL ∧ k.stateOf pcb = .blockedByUser then return (k.setState pcb .ready, true)
  else return (k, false)

def yield (fuel : Nat) (k : Kernel) : Exec Kernel :=
  (k.setState k.currentPCB .ready).contextSwitch fuel

end Kernel

end SoTp.Process
