/-
What the kernel does while an operation runs, as far as a state does not show it:
which blocks are given back to the global heap and when, to whom an exit gives the
foreground, and what each call of `schedule` decides.

Every function here has the control flow of the function it is named after and
records the events of its call, in order.
-/

import SoTp.Process.System

namespace SoTp.Process

open SoTp.Lib

/-- A block of the global heap that belongs to a process. -/
inductive Block where
  | node (pcb : Nat)
  | pcb (pcb : Nat)
  | stack (pcb : Nat)
  | heap (pcb : Nat)
  | freeListStart (pcb : Nat)
deriving DecidableEq

inductive Event where
  /-- The exit of the process `pid` gives the foreground to its parent. `living` says
  whether the parent is in memory and not EXITED at that moment. -/
  | handOver (pid : Nat) (living : Bool)
  /-- `globalFree(block)`, with the state of its owner and the process on whose stack
  the call is made. -/
  | globalFree (block : Block) (state : State) (running : Nat)
  /-- `schedule` lets the running process go on. -/
  | resumes (pcb : Nat)
  /-- `schedule` picks a READY process. -/
  | selects (pcb priority : Nat)
  /-- `schedule` finds no READY process. -/
  | idles
deriving DecidableEq

/-- The events of what follows an execution that returns. -/
def after {α : Type} (m : Exec α) (log : α → List Event) : List Event :=
  match m with
  | .ok r => log r
  | .error _ => []

@[simp] theorem after_ok {α : Type} (r : α) (log : α → List Event) :
    after (.ok r) log = log r := rfl

theorem mem_after {α : Type} {m : Exec α} {log : α → List Event} {e : Event}
    (mem : e ∈ after m log) : ∃ r, m = .ok r ∧ e ∈ log r := by
  cases m with
  | ok r => exact ⟨r, rfl, mem⟩
  | error _ => cases mem

namespace Kernel

/-! ### schedule -/

/-- The blocks that are given back when `pcb` leaves `pcbList`, with `schedule` on the
stack of `running`. -/
def reapLog (running : Nat) (k : Kernel) (pcb : Nat) : List Event :=
  let free (block : Block) := Event.globalFree block (k.stateOf pcb) running
  (if (k.pcbs pcb).heapFreed then [] else [free (.heap pcb)]) ++
    [free (.freeListStart pcb), free (.stack pcb), free (.pcb pcb), free (.node pcb)]

def freeCurrentProcessLog (running : Nat) (k : Kernel) : List Event :=
  if k.pcbList.current = NULL ∨ k.pcbList.head = NULL then []
  else if k.pcbList.head = k.pcbList.tail then []
  else reapLog running k k.currentPCB

def selectRoundLog (running ogCurrent : Nat) (k : Kernel) : List Event :=
  let pcb := k.currentPCB
  if k.stateOf pcb = .ready then [.selects pcb (k.pcbs pcb).priority]
  else if k.pcbList.current = ogCurrent then [.idles]
  else if k.stateOf pcb = .exited then k.freeCurrentProcessLog running
  else []

def selectLog (fuel running : Nat) (k : Kernel) : List Event :=
  let k := if k.stateOf k.currentPCB = .running then k.setState k.currentPCB .ready else k
  let k := if k.idle then k.nextPCB else k
  let ogCurrent := k.pcbList.current
  loopLog (selectRound ogCurrent) (selectRoundLog running ogCurrent) fuel k.nextPCB

def scheduleLog (fuel rsp : Nat) (k : Kernel) : List Event :=
  let k := k.saveRsp rsp
  if k.quantumsLeft > 0 ∧ k.stateOf k.currentPCB = .running then [.resumes k.currentPCB]
  else k.selectLog fuel k.currentPCB

def contextSwitchLog (fuel : Nat) (k : Kernel) : List Event := k.scheduleLog fuel k.rsp

def finishLog (fuel : Nat) (out : Outcome) : List Event :=
  if out.left then out.kernel.contextSwitchLog fuel else []

/-! ### Exit and kill -/

def exitWaitersLog (exitPCB : Nat → Kernel → Exec Outcome) (exitLog : Nat → Kernel → List Event)
    (exitCode : Int) : List Nat → Kernel → List Event
  | [], _ => []
  | pcb2 :: rest, k =>
      match k.stateOf pcb2 with
      | .blocked => exitWaitersLog exitPCB exitLog exitCode rest
          (k.setPCB pcb2 fun p => { p with state := .ready, waitedProcessExitCode := exitCode })
      | .waitingForExit => exitLog pcb2 k ++ after (exitPCB pcb2 k) fun out =>
          if out.left then [] else exitWaitersLog exitPCB exitLog exitCode rest out.kernel
      | _ => exitWaitersLog exitPCB exitLog exitCode rest k

def markExitedLog (k : Kernel) (pcb : Nat) : List Event :=
  let k := k.setState pcb .exited
  let parentProc := (k.pcbs pcb).parentProc
  if k.pidOf pcb = k.foregroundPid then
    [.handOver (k.pidOf pcb) (k.allocated parentProc && k.stateOf parentProc != .exited)] else []

def markWaitingForExitLog (k : Kernel) (pcb : Nat) : List Event :=
  let k := k.setState pcb .waitingForExit
  [.globalFree (.heap pcb) (k.stateOf pcb) k.currentPCB]

def exitProcessByPCBLog : Nat → Nat → Int → Kernel → List Event
  | 0, _, _, _ => []
  | fuel + 1, pcb, exitCode, k =>
      match k.stateOf pcb with
      | .exited => []
      | .blocked => k.markWaitingForExitLog pcb
      | _ => k.markExitedLog pcb ++ exitWaitersLog
          (fun pcb2 => exitProcessByPCB fuel pcb2 KILL_EXIT_CODE)
          (fun pcb2 => exitProcessByPCBLog fuel pcb2 KILL_EXIT_CODE) exitCode (k.waitersOf pcb)
          (k.markExited pcb)

def exitCurrentProcessLog (fuel : Nat) (exitCode : Int) (k : Kernel) : List Event :=
  exitProcessByPCBLog fuel k.currentPCB exitCode k ++
    after (exitProcessByPCB fuel k.currentPCB exitCode k) fun out =>
      out.kernel.contextSwitchLog fuel

def killLog (fuel pid : Nat) (k : Kernel) : List Event :=
  if pid = 0 then []
  else after (k.getPCBByPid fuel pid) fun pcb =>
    if pcb = NULL ∨ k.stateOf pcb = .exited ∨ k.stateOf pcb = .waitingForExit then []
    else exitProcessByPCBLog fuel pcb KILL_EXIT_CODE k ++
      after (exitProcessByPCB fuel pcb KILL_EXIT_CODE k) (finishLog fuel)

def killCurrentProcessInForegroundLog (fuel : Nat) (k : Kernel) : List Event :=
  if k.foregroundPid = 0 then []
  else exitProcessByPCBLog fuel k.processInForeground KILL_EXIT_CODE k ++
    after (exitProcessByPCB fuel k.processInForeground KILL_EXIT_CODE k) fun out =>
      out.kernel.contextSwitchLog fuel

/-! ### Waiting, blocking and yielding -/

def blockCurrentProcessLog (fuel : Nat) (k : Kernel) : List Event :=
  (k.setState k.currentPCB .blocked).contextSwitchLog fuel

def waitPidLog (fuel pid : Nat) (k : Kernel) : List Event :=
  if pid = k.pidOf k.currentPCB then []
  else after (k.getPCBByPid fuel pid) fun pcb =>
    if pcb = NULL ∨ k.stateOf pcb = .exited then []
    else after (k.recordWaiter pcb k.currentPCB) fun k =>
      let k := k.setState k.currentPCB .blocked
      let k := if k.pidOf k.currentPCB = k.foregroundPid then
        { k with processInForeground := pcb } else k
      k.contextSwitchLog fuel

def blockByUserLog (fuel pid : Nat) (k : Kernel) : List Event :=
  after (k.getPCBByPid fuel pid) fun pcb =>
    if pcb ≠ NULL ∧ (k.stateOf pcb = .ready ∨ k.stateOf pcb = .running) then
      let k := k.setState pcb .blockedByUser
      finishLog fuel ⟨k, k.isCurrent pcb⟩
    else []

def yieldLog (fuel : Nat) (k : Kernel) : List Event :=
  (k.setState k.currentPCB .ready).contextSwitchLog fuel

def sleepLog (fuel initialTicks : Nat) (node : Bool) (k : Kernel) : List Event :=
  if initialTicks > 0 then
    if node then
      let aux := k.unused
      let k := { k with
        unused := aux + 1
        sleepNodes := Function.update k.sleepNodes aux ⟨initialTicks, k.currentPCB, k.first⟩
        first := aux }
      k.blockCurrentProcessLog fuel
    else []
  else []

/-! ### Semaphores -/

def waitSemaphoreLog (fuel semId : Nat) (node : Bool) (k : Kernel) : List Event :=
  match k.semArray[semId]? with
  | none => []
  | some sem =>
      if sem.destroyed then []
      else if sem.value > 0 then []
      else (k.fifoQueue semId k.currentPCB node).blockCurrentProcessLog fuel

/-- One round of the loops of `postSemaphore` and `destroySemaphore`. -/
def unqueueRoundLog (fuel semId : Nat) (k : Kernel) : List Event :=
  match k.fifoUnqueue semId with
  | none => []
  | some (toReady, k) =>
      if k.stateOf toReady = .waitingForExit then exitProcessByPCBLog fuel toReady KILL_EXIT_CODE k
      else []

def postSemaphoreLog (fuel semId : Nat) (k : Kernel) : List Event :=
  match k.semArray[semId]? with
  | none => []
  | some sem =>
      if sem.destroyed then []
      else loopLog (postRound fuel semId) (unqueueRoundLog fuel semId) fuel k ++
        after (loop (postRound fuel semId) fuel k) (finishLog fuel)

def destroySemaphoreLog (fuel semId : Nat) (k : Kernel) : List Event :=
  match k.semArray[semId]? with
  | none => []
  | some sem =>
      if sem.destroyed then []
      else loopLog (destroyRound fuel semId) (unqueueRoundLog fuel semId) fuel k ++
        after (loop (destroyRound fuel semId) fuel k) (finishLog fuel)

/-! ### The timer -/

def incTicksRoundLog (fuel : Nat) (s : Kernel × Nat × Nat) : List Event :=
  let (k, _, current) := s
  if current = NULL then []
  else
    let pcb := (k.sleepNodes current).pcb
    if k.stateOf pcb = .waitingForExit then exitProcessByPCBLog fuel pcb KILL_EXIT_CODE k else []

def incTicksLog (fuel : Nat) (k : Kernel) : List Event :=
  loopLog (incTicksRound fuel) (incTicksRoundLog fuel) fuel
    ({ k with ticks := k.ticks + 1 }, NULL, k.first)

def timerTickLog (fuel : Nat) (k : Kernel) : List Event :=
  k.contextSwitchLog fuel ++ after (k.contextSwitch fuel) fun k =>
    k.incTicksLog fuel ++ after (k.incTicks fuel) (finishLog fuel)

/-! ### Operations -/

/-- The events of an operation. What a failing creation gives back is not recorded. -/
def execLog (fuel : Nat) (k : Kernel) : Op → List Event
  | .exit exitCode => k.exitCurrentProcessLog fuel exitCode
  | .kill pid => k.killLog fuel pid
  | .waitPid pid => k.waitPidLog fuel pid
  | .sleep initialTicks node => k.sleepLog fuel initialTicks node
  | .waitSemaphore semId node => k.waitSemaphoreLog fuel semId node
  | .postSemaphore semId => k.postSemaphoreLog fuel semId
  | .destroySemaphore semId => k.destroySemaphoreLog fuel semId
  | .blockByUser pid => k.blockByUserLog fuel pid
  | .yield => k.yieldLog fuel
  | .timerTick => k.timerTickLog fuel
  | .reschedule => k.contextSwitchLog fuel
  | .ctrlC => k.killCurrentProcessInForegroundLog fuel
  | .createProcess .. | .semInit _ | .unblock _ | .changePriority .. | .userCode .. => []

end Kernel

/-- `op` takes the kernel from `k` to `k'`, with the events of `log`. -/
def Logged (k : Kernel) (op : Op) (log : List Event) (k' : Kernel) : Prop :=
  k.Enabled op ∧ ∃ fuel, k.exec fuel op = .ok k' ∧ k.execLog fuel op = log

theorem Logged.trans {k k' : Kernel} {op : Op} {log : List Event} (h : Logged k op log k') :
    Trans k op k' := by
  obtain ⟨enabled, fuel, run, -⟩ := h
  exact ⟨enabled, fuel, run⟩

theorem Trans.logged {k k' : Kernel} {op : Op} (h : Trans k op k') : ∃ log, Logged k op log k' := by
  obtain ⟨enabled, fuel, run⟩ := h
  exact ⟨_, enabled, fuel, run, rfl⟩

end SoTp.Process
