/-
The timer and its sleep list (`Kernel/c/timer.c`). The conversion of milliseconds
to ticks is floating point and stays outside: `sleep` is given the ticks.
-/

import SoTp.Process.Scheduler

namespace SoTp.Process

open SoTp.Lib

namespace Kernel

def setSleepNode (k : Kernel) (node : Nat) (f : SleptProcess → SleptProcess) : Kernel :=
  { k with sleepNodes := Function.update k.sleepNodes node (f (k.sleepNodes node)) }

def removeFromSleepList (prev current : Nat) (k : Kernel) : Kernel × Nat :=
  let next := (k.sleepNodes current).next
  if prev = NULL then ({ k with first := next }, next)
  else (k.setSleepNode prev fun node => { node with next := next }, next)

/-- One round of `incTicks`; the state is the kernel, `prev` and `current`. -/
def incTicksRound (fuel : Nat) (s : Kernel × Nat × Nat) :
    Exec (Pass (Kernel × Nat × Nat) Outcome) :=
  let (k, prev, current) := s
  if current = NULL then .ok (.leave ⟨k, false⟩)
  else
    let pcb := (k.sleepNodes current).pcb
    if k.allocated pcb = false then .error .fault
    else match k.stateOf pcb with
      | .blocked =>
          let ticksRemaining := sub64 (k.sleepNodes current).ticksRemaining 1
          let k := k.setSleepNode current fun node => { node with ticksRemaining := ticksRemaining }
          if ticksRemaining = 0 then
            let (k, next) := (k.setState pcb .ready).removeFromSleepList prev current
            .ok (.again (k, prev, next))
          else .ok (.again (k, current, (k.sleepNodes current).next))
      | .waitingForExit => do
          let out ← exitProcessByPCB fuel pcb KILL_EXIT_CODE k
          if out.left then return .leave out
          else
            let (k, next) := out.kernel.removeFromSleepList prev current
            return .again (k, prev, next)
      | _ => .ok (.again (k, prev, current))

def incTicks (fuel : Nat) (k : Kernel) : Exec Outcome :=
  loop (incTicksRound fuel) fuel ({ k with ticks := k.ticks + 1 }, NULL, k.first)

/-- `sleep`; `node` says whether its allocation succeeds. Without a node the
ticks are written through NULL. -/
def sleep (fuel initialTicks : Nat) (node : Bool) (k : Kernel) : Exec Kernel :=
  if initialTicks > 0 then
    if node then
      let aux := k.unused
      let k := { k with
        unused := aux + 1
        sleepNodes := Function.update k.sleepNodes aux ⟨initialTicks, k.currentPCB, k.first⟩
        first := aux }
      k.blockCurrentProcess fuel
    else .error .fault
  else .ok k

end Kernel

end SoTp.Process
