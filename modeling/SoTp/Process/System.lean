/-
The kernel as a transition system. An operation is a system call of the running
process, an interrupt, or a stretch of user code, each taken up to the context
switch it ends in; interrupts are off in between. `Trans k op k'` says that `op`
takes the kernel from `k` to `k'`: it is enabled, some number of rounds is enough
for its loops, and it makes no access the language gives no meaning to.
-/

import Mathlib.Logic.Relation
import SoTp.Process.Semaphores
import SoTp.Process.Timer

namespace SoTp.Process

open SoTp.Lib Kernel

inductive Op where
  | createProcess (mem : ProcessMemory) (rsp : Nat) (garbage : Int)
  | exit (exitCode : Int)
  | kill (pid : Nat)
  | waitPid (pid : Nat)
  | sleep (initialTicks : Nat) (node : Bool)
  | semInit (initialValue : Nat)
  | waitSemaphore (semId : Nat) (node : Bool)
  | postSemaphore (semId : Nat)
  | destroySemaphore (semId : Nat)
  | blockByUser (pid : Nat)
  | unblock (pid : Nat)
  | changePriority (pid newPriority : Nat)
  | yield
  /-- The timer interrupt: `schedule`, then `incTicks`. -/
  | timerTick
  /-- The F2 key: `schedule`. -/
  | reschedule
  /-- Ctrl+C: `killCurrentProcessInForeground`. -/
  | ctrlC
  /-- User code moves its stack pointer and writes where no PCB is. -/
  | userCode (rsp : Nat) (junk : Nat → Nat)

namespace Kernel

def timerTick (fuel : Nat) (k : Kernel) : Exec Kernel := do
  let k ← k.contextSwitch fuel
  let out ← k.incTicks fuel
  finish fuel out

def exec (fuel : Nat) (k : Kernel) : Op → Exec Kernel
  | .createProcess mem rsp garbage => (k.createProcess mem rsp garbage).map Prod.fst
  | .exit exitCode => k.exitCurrentProcess fuel exitCode
  | .kill pid => (k.kill fuel pid).map Prod.fst
  | .waitPid pid => k.waitPid fuel pid
  | .sleep initialTicks node => k.sleep fuel initialTicks node
  | .semInit initialValue => .ok (k.semInit initialValue).1
  | .waitSemaphore semId node => (k.waitSemaphore fuel semId node).map Prod.fst
  | .postSemaphore semId => (k.postSemaphore fuel semId).map Prod.fst
  | .destroySemaphore semId => (k.destroySemaphore fuel semId).map Prod.fst
  | .blockByUser pid => (k.blockByUser fuel pid).map Prod.fst
  | .unblock pid => (k.unblock fuel pid).map Prod.fst
  | .changePriority pid newPriority => (k.changePriority fuel pid newPriority).map Prod.fst
  | .yield => k.yield fuel
  | .timerTick => k.timerTick fuel
  | .reschedule => k.contextSwitch fuel
  | .ctrlC => k.killCurrentProcessInForeground fuel
  | .userCode rsp junk => .ok { k with rsp := rsp, junk := junk }

/-- Interrupts come at any time (a key press may post), system calls come from a
process. A run is followed as long as `pid` does not wrap, since a pid that is
used twice names no process. -/
def Enabled (k : Kernel) : Op → Prop
  | .createProcess .. => ¬ k.idle ∧ k.pid < IDLE_PID
  | .postSemaphore _ | .timerTick | .reschedule | .ctrlC | .userCode .. => True
  | _ => ¬ k.idle

instance (k : Kernel) (op : Op) : Decidable (k.Enabled op) := by
  cases op <;> unfold Enabled <;> infer_instance

end Kernel

/-- The kernel when `init` is about to run. -/
def boot (idleRsp initRsp : Nat) (garbage : Int) : Kernel :=
  (blank.initializePCBList idleRsp).createUserModuleProcess initRsp garbage

def Trans (k : Kernel) (op : Op) (k' : Kernel) : Prop :=
  k.Enabled op ∧ ∃ fuel, k.exec fuel op = .ok k'

/-- One step among those that `admits` lets through. -/
def Step (admits : Kernel → Op → Prop) (k k' : Kernel) : Prop :=
  ∃ op, admits k op ∧ Trans k op k'

/-- The states reached from boot by admitted steps. -/
def Reach (admits : Kernel → Op → Prop) (k : Kernel) : Prop :=
  ∃ idleRsp initRsp garbage, Relation.ReflTransGen (Step admits) (boot idleRsp initRsp garbage) k

theorem Reach.step {admits : Kernel → Op → Prop} {k k' : Kernel} {op : Op} (reach : Reach admits k)
    (ok : admits k op) (trans : Trans k op k') : Reach admits k' := by
  obtain ⟨r₁, r₂, g, run⟩ := reach
  exact ⟨r₁, r₂, g, run.tail ⟨op, ok, trans⟩⟩

/-- A property of boot that every admitted step keeps. -/
theorem Reach.induct {admits : Kernel → Op → Prop} {P : Kernel → Prop} {k : Kernel}
    (reach : Reach admits k) (start : ∀ r₁ r₂ g, P (boot r₁ r₂ g))
    (keep : ∀ k op k', Reach admits k → P k → admits k op → Trans k op k' → P k') : P k := by
  obtain ⟨r₁, r₂, g, run⟩ := reach
  induction run with
  | refl => exact start r₁ r₂ g
  | tail before step ih =>
      obtain ⟨op, ok, trans⟩ := step
      exact keep _ op _ ⟨r₁, r₂, g, before⟩ ih ok trans

theorem Reach.mono {admits admits' : Kernel → Op → Prop} {k : Kernel}
    (weaker : ∀ k op, admits k op → admits' k op) (reach : Reach admits k) : Reach admits' k :=
  reach.induct (fun r₁ r₂ g => ⟨r₁, r₂, g, .refl⟩) fun _ _ _ _ ih ok trans =>
    ih.step (weaker _ _ ok) trans

/-- A list of operations, one after the other. -/
def perform (admits : Kernel → Op → Prop) [∀ k op, Decidable (admits k op)] (fuel : Nat) :
    List Op → Kernel → Option Kernel
  | [], k => some k
  | op :: ops, k =>
      if admits k op ∧ k.Enabled op then
        match k.exec fuel op with
        | .ok k' => perform admits fuel ops k'
        | .error _ => none
      else none

theorem perform_run {admits : Kernel → Op → Prop} [∀ k op, Decidable (admits k op)] {fuel : Nat}
    {ops : List Op} {k k' : Kernel} (run : perform admits fuel ops k = some k') :
    Relation.ReflTransGen (Step admits) k k' := by
  induction ops generalizing k with
  | nil =>
      cases run
      exact .refl
  | cons op ops ih =>
      unfold perform at run
      split_ifs at run with can
      split at run
      · rename_i next ran
        exact .head ⟨op, can.1, can.2, fuel, ran⟩ (ih run)
      · cases run

end SoTp.Process
