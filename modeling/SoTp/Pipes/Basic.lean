/-
Pipes (`Kernel/c/pipes.c`). A call of `readPipe`, `writePipe` or `readStdin` goes
on after it was blocked, so it is modelled as a frame: the call with its variables,
and the statement it has come to. A pipe system is a kernel, one pipe, and the frames
of the processes inside it. `stored` and `taken` are the bytes that have gone into
and out of the buffer, and `returned` those of the read calls that have returned; the
code does not have them.

A process inside a pipe runs with interrupts off: while it is the running one, the
only step is its next statement. Key presses write to the standard input pipe.
-/

import SoTp.Process.System

namespace SoTp.Pipes

open SoTp.Lib SoTp.Process

def BUFFER_SIZE : Nat := 40

structure Pipe where
  buffer : Nat → UInt8
  mutex : Nat
  writtenCountSem : Nat
  emptyCountSem : Nat
  readIdx : Nat
  writeIdx : Nat

/-- `pipeInit`; the memory for the pipe is there. -/
def pipeInit (k : Kernel) (garbage : Nat → UInt8) : Kernel × Pipe :=
  let (k, mutex) := k.semInit 1
  let (k, writtenCountSem) := k.semInit 0
  let (k, emptyCountSem) := k.semInit BUFFER_SIZE
  (k, { buffer := garbage, mutex, writtenCountSem, emptyCountSem, readIdx := 0, writeIdx := 0 })

namespace Pipe

/-- `p->buffer[p->writeIdx] = c` and the step of `writeIdx`. -/
def store (p : Pipe) (c : UInt8) : Pipe :=
  { p with
    buffer := Function.update p.buffer p.writeIdx c
    writeIdx := (p.writeIdx + 1) % BUFFER_SIZE }

/-- The step of `readIdx`. -/
def advance (p : Pipe) : Pipe := { p with readIdx := (p.readIdx + 1) % BUFFER_SIZE }

/-- The semaphore that counts bytes, or the one that counts free places. -/
def countSem (p : Pipe) (writes : Bool) : Nat :=
  if writes then p.emptyCountSem else p.writtenCountSem

def Has (p : Pipe) (semId : Nat) : Prop :=
  semId = p.mutex ∨ semId = p.writtenCountSem ∨ semId = p.emptyCountSem

instance (p : Pipe) (semId : Nat) : Decidable (p.Has semId) := by unfold Has; infer_instance

/-- An operation on one of the pipe's semaphores. -/
def Names (p : Pipe) : Op → Prop
  | .waitSemaphore semId _ | .postSemaphore semId | .destroySemaphore semId => p.Has semId
  | _ => False

instance (p : Pipe) (op : Op) : Decidable (p.Names op) :=
  match op with
  | .waitSemaphore semId _ | .postSemaphore semId | .destroySemaphore semId =>
      inferInstanceAs (Decidable (p.Has semId))
  | .createProcess .. | .exit _ | .kill _ | .waitPid _ | .sleep .. | .semInit _ | .blockByUser _
  | .unblock _ | .changePriority .. | .yield | .timerTick | .reschedule | .ctrlC | .userCode .. =>
      .isFalse id

end Pipe

/-! ### Calls -/

/-- A call with its variables. `buf` holds what was read so far, or what is to be
written, of which `pos` bytes are done. -/
inductive Call where
  | readPipe (len : Nat) (buf : List UInt8) (reachedEnd : Bool)
  | writePipe (buf : List UInt8) (pos : Nat)
  | readStdin (len : Nat) (buf : List UInt8) (reachedEnd : Bool)

/-- The statements in the loop of a call. -/
inductive Phase where
  | waitCount
  | waitMutex
  | transfer
  | postMutex
  | postCount
deriving DecidableEq

structure Frame where
  call : Call
  phase : Phase

namespace Call

def writes : Call → Bool
  | .writePipe .. => true
  | _ => false

/-- The calls of the standard input pipe, or of any other. -/
def On (std : Bool) : Call → Prop
  | .readStdin .. => std = true
  | _ => std = false

/-- A call as it comes to its loop. -/
def Starts : Call → Prop
  | .readPipe len buf reachedEnd | .readStdin len buf reachedEnd =>
      0 < len ∧ buf = [] ∧ reachedEnd = false
  | .writePipe buf pos => 0 < buf.length ∧ pos = 0

instance (std : Bool) (c : Call) : Decidable (c.On std) := by
  cases c <;> unfold On <;> infer_instance

instance (c : Call) : Decidable c.Starts := by
  cases c <;> unfold Starts <;> infer_instance

/-- The bytes a call has read. -/
def read : Call → List UInt8
  | .readPipe _ buf _ | .readStdin _ buf _ => buf
  | .writePipe .. => []

/-- The condition of the loop. -/
def again : Call → Bool
  | .readPipe len buf reachedEnd | .readStdin len buf reachedEnd =>
      decide (buf.length < len) && !reachedEnd
  | .writePipe buf pos => decide (pos < buf.length)

end Call

namespace Frame

/-- The semaphore operation a frame has come to, if it is at one. -/
def op (f : Frame) (p : Pipe) (node : Bool) : Option Op :=
  match f.phase with
  | .waitCount => some (.waitSemaphore (p.countSem f.call.writes) node)
  | .waitMutex => some (.waitSemaphore p.mutex node)
  | .transfer => none
  | .postMutex => some (.postSemaphore p.mutex)
  | .postCount => some (.postSemaphore (p.countSem !f.call.writes))

/-- The frame when the loop comes round, if it does. -/
def loop (call : Call) : Option Frame := if call.again then some ⟨call, .waitCount⟩ else none

/-- The frame after its statement. `readStdin` does not count free places. -/
def next (f : Frame) : Option Frame :=
  match f.phase, f.call with
  | .waitCount, c => some ⟨c, .waitMutex⟩
  | .waitMutex, c => some ⟨c, .transfer⟩
  | .transfer, c => some ⟨c, .postMutex⟩
  | .postMutex, .readStdin len buf reachedEnd => loop (.readStdin len buf reachedEnd)
  | .postMutex, c => some ⟨c, .postCount⟩
  | .postCount, c => loop c

end Frame

/-! ### The system -/

structure PipeSys where
  kernel : Kernel
  pipe : Pipe
  inside : Nat → Option Frame
  stored : List UInt8
  taken : List UInt8
  returned : List UInt8

inductive Event where
  /-- An operation that is no part of a call on the pipe. -/
  | other (op : Op)
  | enter (call : Call)
  /-- The running process goes one statement on; is there memory for a queue node? -/
  | statement (node : Bool)
  /-- `writeStdin`. -/
  | key (c : UInt8)

namespace PipeSys

/-- The frame of the running process. -/
def current (s : PipeSys) : Option Frame := s.inside s.kernel.currentPCB

def setCurrent (s : PipeSys) (f : Option Frame) : PipeSys :=
  { s with inside := Function.update s.inside s.kernel.currentPCB f }

/-- The running process goes one statement on; with no statement left, its call
returns. -/
def proceed (s : PipeSys) (f : Frame) : PipeSys :=
  { s.setCurrent f.next with
    returned := s.returned ++ if f.next.isNone then f.call.read else [] }

def store (s : PipeSys) (c : UInt8) : PipeSys :=
  { s with pipe := s.pipe.store c, stored := s.stored ++ [c] }

/-- The access to the buffer, in the loop of a call. -/
def transfer (s : PipeSys) : Call → PipeSys
  | .writePipe buf pos =>
      (s.store (buf.getD pos 0)).setCurrent (some ⟨.writePipe buf (pos + 1), .postMutex⟩)
  | .readPipe len buf reachedEnd =>
      let c := s.pipe.buffer s.pipe.readIdx
      let pipe := s.pipe.advance
      { s with pipe, taken := s.taken ++ [c] }.setCurrent
        (some ⟨.readPipe len (buf ++ [c]) (reachedEnd || pipe.readIdx == pipe.writeIdx),
          .postMutex⟩)
  | .readStdin len buf reachedEnd =>
      let c := s.pipe.buffer s.pipe.readIdx
      let pipe := s.pipe.advance
      { s with pipe, taken := s.taken ++ [c] }.setCurrent
        (some ⟨.readStdin len (buf ++ [c]) (reachedEnd || pipe.readIdx == pipe.writeIdx),
          .postMutex⟩)

/-- An operation of the kernel. -/
def run (s : PipeSys) (fuel : Nat) (op : Op) : Option PipeSys :=
  if s.kernel.Enabled op then
    match s.kernel.exec fuel op with
    | .ok kernel => some { s with kernel }
    | .error _ => none
  else none

/-- One step; `none` when it cannot happen. -/
def exec (std : Bool) (fuel : Nat) (s : PipeSys) : Event → Option PipeSys
  | .other op =>
      if s.current.isNone ∧ ¬ s.pipe.Names op then s.run fuel op else none
  | .enter call =>
      if s.current.isNone ∧ ¬ s.kernel.idle ∧ call.On std ∧ call.Starts then
        some (s.setCurrent (some ⟨call, .waitCount⟩))
      else none
  | .statement node =>
      match s.current with
      | none => none
      | some f =>
          match f.op s.pipe node with
          | some op => (s.proceed f).run fuel op
          | none => some (s.transfer f.call)
  | .key c =>
      if s.current.isNone ∧ std then
        (s.store c).run fuel (.postSemaphore s.pipe.writtenCountSem)
      else none

end PipeSys

def PipeTrans (std : Bool) (s : PipeSys) (event : Event) (s' : PipeSys) : Prop :=
  ∃ fuel, s.exec std fuel event = some s'

/-- A new pipe in a kernel that some run has led to. -/
def PipeStart (s : PipeSys) : Prop :=
  ∃ k garbage, Reach (fun _ _ => True) k ∧ ¬ k.idle ∧
    s = ⟨(pipeInit k garbage).1, (pipeInit k garbage).2, fun _ => none, [], [], []⟩

/-- The states of a pipe that admitted steps lead to. -/
inductive PipeReach (std : Bool) (admits : PipeSys → Event → Prop) : PipeSys → Prop
  | start {s : PipeSys} (start : PipeStart s) : PipeReach std admits s
  | step {s s' : PipeSys} {event : Event} (before : PipeReach std admits s) (ok : admits s event)
      (trans : PipeTrans std s event s') : PipeReach std admits s'

end SoTp.Pipes
