/-
All pipes of a kernel: `pipeInit` and `destroyPipe` beside the calls of `readPipe` and
`writePipe`. A pipe is the memory at an address; no two pipes get the same address, and
when a slot of `pipeArray` is used again, the old pipe's memory is given back. The pipe
of standard input is `stdinAddress`; key presses and `readStdin` are operations of the
kernel like any other here.

`view` shows one pipe as the system of a single pipe, and a call inside the pipe goes
on as it does there.
-/

import SoTp.Lib.Slots
import SoTp.Pipes.Streams
import SoTp.Process.Destruction

namespace SoTp.Pipes

open SoTp.Lib SoTp.Process Kernel

def stdin : Int := 1

def stdinAddress : Nat := 1

/-- A pipe, with the bytes that went into and out of it. `later` is the address of the
first pipe that is created after it was destroyed. -/
structure PipeData where
  pipe : Pipe
  destroyed : Bool
  stored : List UInt8
  taken : List UInt8
  returned : List UInt8
  later : Nat

/-- `table` is `pipeArray` with `freedPositions`; it holds the pipes' addresses. -/
structure World where
  kernel : Kernel
  table : Slots Nat
  memory : Nat → PipeData
  unused : Nat
  freed : Nat → Bool
  /-- The pipe a process is inside, and how far its call is. -/
  inside : Nat → Option (Nat × Frame)

inductive Action where
  /-- An operation that is no part of a call on a pipe, other than standard input. -/
  | other (op : Op)
  /-- `garbage` is what the buffer holds at first. -/
  | pipeInit (garbage : Nat → UInt8)
  | destroyPipe (pipeId : Int)
  | enter (pipeId : Int) (call : Call)
  | statement (node : Bool)

namespace World

def current (w : World) : Option (Nat × Frame) := w.inside w.kernel.currentPCB

def pipeAt (w : World) (a : Nat) : Pipe := (w.memory a).pipe

def destroyed (w : World) (a : Nat) : Bool := (w.memory a).destroyed

def getPipe (w : World) (pipeId : Int) : Option Nat := w.table.live w.destroyed pipeId

/-- The pipe at an address, and the processes inside it. -/
def view (w : World) (a : Nat) : PipeSys where
  kernel := w.kernel
  pipe := w.pipeAt a
  inside p := (w.inside p).bind fun here => if here.1 = a then some here.2 else none
  stored := (w.memory a).stored
  taken := (w.memory a).taken
  returned := (w.memory a).returned

/-- The running process has gone on in the pipe at an address. -/
def put (w : World) (a : Nat) (s : PipeSys) : World :=
  { w with
    kernel := s.kernel
    memory := Function.update w.memory a
      { w.memory a with pipe := s.pipe, stored := s.stored, taken := s.taken, returned := s.returned }
    inside := Function.update w.inside w.kernel.currentPCB
      ((s.inside w.kernel.currentPCB).map fun f => (a, f)) }

/-- `pipeInit`; the memory for the pipe is there. -/
def pipeInit (w : World) (garbage : Nat → UInt8) : World × Int :=
  let (kernel, pipe) := Pipes.pipeInit w.kernel garbage
  let (table, pipeId) := w.table.alloc w.unused
  ({ w with
      kernel, table
      memory := Function.update w.memory w.unused ⟨pipe, false, [], [], [], 0⟩
      unused := w.unused + 1
      freed := match w.table.get pipeId with
        | some old => Function.update w.freed old true
        | none => w.freed }, pipeId)

/-- The three `destroySemaphore` of `destroyPipe`. -/
def destroySemaphores (fuel : Nat) (p : Pipe) (k : Kernel) : Exec Kernel := do
  let k ← k.exec fuel (.destroySemaphore p.mutex)
  let k ← k.exec fuel (.destroySemaphore p.writtenCountSem)
  k.exec fuel (.destroySemaphore p.emptyCountSem)

/-- The pipe in a slot is marked and the slot freed. -/
def close (w : World) (pipeId : Int) (a : Nat) : World :=
  { w with
    table := w.table.release pipeId a
    memory := Function.update w.memory a { w.memory a with destroyed := true, later := w.unused } }

def destroyPipe (fuel : Nat) (pipeId : Int) (w : World) : Exec (World × Bool) :=
  if 0 ≤ pipeId ∧ pipeId ≤ 2 then .ok (w, false)
  else
    match w.getPipe pipeId with
    | none => .ok (w, false)
    | some a => do
        let kernel ← destroySemaphores fuel (w.pipeAt a) w.kernel
        return ({ w.close pipeId a with kernel }, true)

/-- The operation is about no semaphore of a pipe, other than standard input. -/
def Foreign (w : World) (op : Op) : Prop :=
  ∀ a < w.unused, a ≠ stdinAddress → w.destroyed a = false → ¬ (w.pipeAt a).Names op

instance (w : World) (op : Op) : Decidable (w.Foreign op) := by unfold Foreign; infer_instance

/-- One step; `none` when it cannot happen, or the pipe's memory was given back. -/
def exec (fuel : Nat) (w : World) : Action → Option World
  | .other op =>
      if w.current.isNone ∧ w.Foreign op ∧ w.kernel.Enabled op then
        (w.kernel.exec fuel op).toOption.map fun kernel => { w with kernel }
      else none
  | .pipeInit garbage =>
      if w.current.isNone ∧ ¬ w.kernel.idle then some (w.pipeInit garbage).1 else none
  | .destroyPipe pipeId =>
      if w.current.isNone ∧ ¬ w.kernel.idle then (w.destroyPipe fuel pipeId).toOption.map Prod.fst
        else none
  | .enter pipeId call =>
      if w.current.isNone ∧ ¬ w.kernel.idle ∧ call.On false ∧ call.Starts ∧ pipeId ≠ stdin then
        (w.getPipe pipeId).map fun a =>
          { w with inside := Function.update w.inside w.kernel.currentPCB (some (a, ⟨call, .waitCount⟩)) }
      else none
  | .statement node =>
      w.current.bind fun here =>
        if w.freed here.1 then none
        else ((w.view here.1).exec false fuel (.statement node)).map (w.put here.1)

end World

/-- Before the first pipe. -/
def noPipes (k : Kernel) : World where
  kernel := k
  table := ⟨[], []⟩
  memory _ := ⟨⟨fun _ => 0, 0, 0, 0, 0, 0⟩, false, [], [], [], 0⟩
  unused := 0
  freed _ := false
  inside _ := none

/-- The pipes stdout, stdin and stderr. -/
def initializePipes (k : Kernel) (garbage : Nat → Nat → UInt8) : World :=
  let w := ((noPipes k).pipeInit (garbage 0)).1
  let w := (w.pipeInit (garbage 1)).1
  (w.pipeInit (garbage 2)).1

def WorldTrans (w : World) (action : Action) (w' : World) : Prop :=
  ∃ fuel, w.exec fuel action = some w'

/-- The states that admitted steps lead to. -/
inductive WorldReach (admits : World → Action → Prop) : World → Prop
  | start {k : Kernel} {garbage : Nat → Nat → UInt8} (reach : Reach (fun _ _ => True) k)
      (busy : ¬ k.idle) : WorldReach admits (initializePipes k garbage)
  | step {w w' : World} {action : Action} (before : WorldReach admits w) (ok : admits w action)
      (trans : WorldTrans w action w') : WorldReach admits w'

/-! ### What one step does -/

inductive WorldStepped (w : World) : Action → World → Prop
  | other {op : Op} {k : Kernel} (outside : w.current = none) (apart : w.Foreign op)
      (trans : Trans w.kernel op k) : WorldStepped w (.other op) { w with kernel := k }
  | pipeInit {garbage : Nat → UInt8} (outside : w.current = none) (busy : ¬ w.kernel.idle) :
      WorldStepped w (.pipeInit garbage) (w.pipeInit garbage).1
  /-- There is no such pipe, or it is a standard one. -/
  | refuses {pipeId : Int} (outside : w.current = none) : WorldStepped w (.destroyPipe pipeId) w
  | destroyPipe {pipeId : Int} {a fuel : Nat} {k : Kernel} (outside : w.current = none)
      (busy : ¬ w.kernel.idle) (other : ¬ (0 ≤ pipeId ∧ pipeId ≤ 2))
      (found : w.getPipe pipeId = some a)
      (run : World.destroySemaphores fuel (w.pipeAt a) w.kernel = .ok k) :
      WorldStepped w (.destroyPipe pipeId) { w.close pipeId a with kernel := k }
  | enter {pipeId : Int} {call : Call} {a : Nat} (outside : w.current = none)
      (busy : ¬ w.kernel.idle) (on : call.On false) (starts : call.Starts) (other : pipeId ≠ stdin)
      (found : w.getPipe pipeId = some a) :
      WorldStepped w (.enter pipeId call)
        { w with inside := Function.update w.inside w.kernel.currentPCB (some (a, ⟨call, .waitCount⟩)) }
  | statement {node : Bool} {a : Nat} {f : Frame} {s : PipeSys} (here : w.current = some (a, f))
      (there : w.freed a = false) (trans : PipeTrans false (w.view a) (.statement node) s) :
      WorldStepped w (.statement node) (w.put a s)

theorem WorldTrans.stepped {w w' : World} {action : Action} (trans : WorldTrans w action w') :
    WorldStepped w action w' := by
  obtain ⟨fuel, run⟩ := trans
  cases action with
  | other op =>
      simp only [World.exec, Option.isNone_iff_eq_none] at run
      split_ifs at run with can
      obtain ⟨k, ran, rfl⟩ := Option.map_eq_some_iff.mp run
      exact .other can.1 can.2.1 ⟨can.2.2, fuel, ok_of_toOption ran⟩
  | pipeInit garbage =>
      simp only [World.exec, Option.isNone_iff_eq_none] at run
      split_ifs at run with can
      cases run
      exact .pipeInit can.1 can.2
  | destroyPipe pipeId =>
      simp only [World.exec, Option.isNone_iff_eq_none] at run
      split_ifs at run with can
      obtain ⟨⟨_, done⟩, ran, rfl⟩ := Option.map_eq_some_iff.mp run
      have ran := ok_of_toOption ran
      unfold World.destroyPipe at ran
      split_ifs at ran with standard
      · cases ran
        exact .refuses can.1
      · cases found : w.getPipe pipeId with
        | none =>
            rw [found] at ran
            cases ran
            exact .refuses can.1
        | some a =>
            rw [found] at ran
            obtain ⟨k, destroyed, e⟩ := bind_ok_iff.mp ran
            cases e
            exact .destroyPipe can.1 can.2 standard found destroyed
  | enter pipeId call =>
      simp only [World.exec, Option.isNone_iff_eq_none] at run
      split_ifs at run with can
      obtain ⟨a, found, rfl⟩ := Option.map_eq_some_iff.mp run
      exact .enter can.1 can.2.1 can.2.2.1 can.2.2.2.1 can.2.2.2.2 found
  | statement node =>
      obtain ⟨⟨a, f⟩, here, run⟩ := Option.bind_eq_some_iff.mp run
      split_ifs at run with freed
      obtain ⟨s, ran, rfl⟩ := Option.map_eq_some_iff.mp run
      exact .statement here (by simpa using freed) ⟨fuel, ran⟩

end SoTp.Pipes
