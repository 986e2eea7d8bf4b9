/-
Semaphores (`Kernel/c/semaphores.c`). A process that waits is queued and blocked;
a post hands its unit to the first process of the queue that is still BLOCKED and
finishes off the killed ones it meets on the way.

An id that is negative names no semaphore, like one past the end of the array.
-/

import SoTp.Process.Scheduler

namespace SoTp.Process

open SoTp.Lib

namespace Kernel

/-- Replaces the semaphore at an index (through the pointer `Array_get` gives). -/
def updateSem (k : Kernel) (semId : Nat) (f : Semaphore → Semaphore) : Kernel :=
  { k with semArray := k.semArray.modify semId f }

/-- `addSem`. Names are resolved to ids elsewhere. -/
def semInit (initialValue : Nat) (k : Kernel) : Kernel × Nat :=
  let sem : Semaphore := ⟨initialValue, false, Fifo.empty⟩
  match k.freedPositions.getLast? with
  | some freeToUseSem =>
      ({ k with
          freedPositions := k.freedPositions.dropLast
          semArray := k.semArray.set freeToUseSem sem }, freeToUseSem)
  | none => ({ k with semArray := k.semArray ++ [sem] }, k.semArray.length)

/-- `fifoQueue`; `node` says whether its allocation succeeds. -/
def fifoQueue (k : Kernel) (semId pcb : Nat) (node : Bool) : Kernel :=
  if node then k.updateSem semId fun sem => { sem with queue := sem.queue.push pcb } else k

/-- `fifoUnqueue`: the first process in the queue, `none` for NULL. -/
def fifoUnqueue (k : Kernel) (semId : Nat) : Option (Nat × Kernel) :=
  match k.semArray[semId]? with
  | none => none
  | some sem =>
      match sem.queue.pop with
      | none => none
      | some (pcb, queue) => some (pcb, k.updateSem semId fun sem => { sem with queue := queue })

/-- One round of the loop of `destroySemaphore`. -/
def destroyRound (fuel semId : Nat) (k : Kernel) : Exec (Pass Kernel Outcome) :=
  match k.fifoUnqueue semId with
  | none => .ok (.leave ⟨k, false⟩)
  | some (toReady, k) =>
      if k.allocated toReady = false then .error .fault
      else match k.stateOf toReady with
        | .blocked => .ok (.again (k.setState toReady .ready))
        | .waitingForExit => do
            let out ← exitProcessByPCB fuel toReady KILL_EXIT_CODE k
            if out.left then return .leave out else return .again out.kernel
        | _ => .ok (.again k)

def destroySemaphore (fuel semId : Nat) (k : Kernel) : Exec (Kernel × Bool) :=
  match k.semArray[semId]? with
  | none => .ok (k, false)
  | some sem =>
      if sem.destroyed then .ok (k, false)
      else do
        let out ← loop (destroyRound fuel semId) fuel k
        if out.left then return (← out.kernel.contextSwitch fuel, true)
        else
          let k := out.kernel.updateSem semId fun sem => { sem with destroyed := true }
          return ({ k with freedPositions := k.freedPositions ++ [semId] }, true)

def waitSemaphore (fuel semId : Nat) (node : Bool) (k : Kernel) : Exec (Kernel × Bool) :=
  match k.semArray[semId]? with
  | none => .ok (k, false)
  | some sem =>
      if sem.destroyed then .ok (k, false)
      else if sem.value > 0 then
        .ok (k.updateSem semId fun sem => { sem with value := sem.value - 1 }, true)
      else do
        let k ← (k.fifoQueue semId k.currentPCB node).blockCurrentProcess fuel
        return (k, true)

/-- One round of the loop of `postSemaphore`. -/
def postRound (fuel semId : Nat) (k : Kernel) : Exec (Pass Kernel Outcome) :=
  match k.fifoUnqueue semId with
  | none =>
      let k := k.updateSem semId fun sem => { sem with value := (sem.value + 1) % 2 ^ 32 }
      .ok (.leave ⟨k, false⟩)
  | some (toReady, k) =>
      if k.allocated toReady = false then .error .fault
      else match k.stateOf toReady with
        | .blocked => .ok (.leave ⟨k.setState toReady .ready, false⟩)
        | .waitingForExit => do
            let out ← exitProcessByPCB fuel toReady KILL_EXIT_CODE k
            if out.left then return .leave out else return .again out.kernel
        | _ => .ok (.again k)

def postSemaphore (fuel semId : Nat) (k : Kernel) : Exec (Kernel × Bool) :=
  match k.semArray[semId]? with
  | none => .ok (k, false)
  | some sem =>
      if sem.destroyed then .ok (k, false)
      else do
        let out ← loop (postRound fuel semId) fuel k
        return (← finish fuel out, true)

end Kernel

end SoTp.Process
