/-
The interrupt handlers (`Kernel/asm/interruptions.asm` and its macros) and the first frame of a
process (`Kernel/asm/processes.asm`), instruction by instruction. What the C functions do that they
call is what the calling convention allows: they keep the registers that belong to the caller, and
the words that `kept` names.

The processes run in the kernel's ring, so an interrupt goes on on the stack that it finds. A word
stands at a multiple of 8. The test key F2 is left out.

* `interrupt_pushes`, `interrupt_saves` — the frame that an interrupt and `pushGpr` leave on the
  stack.
* `frame_restores` — `popGpr`, `eoi` and `iretq` on a frame.
* `initializeProcessStack_frame` — a new process finds a frame too.
-/

import SoTp.Lib.Stack

namespace SoTp.Interrupts

open SoTp.Lib

/-! ### The processor -/

inductive Reg where
  | rax | rbx | rcx | rdx | rsi | rdi | rbp | r8 | r9 | r10 | r11 | r12 | r13 | r14 | r15
deriving DecidableEq

structure Cpu extends StackMachine Reg where
  rip : Nat
  cs : Nat
  rflags : Nat
  ss : Nat

/-- What an interrupted program is to find again. -/
structure Context where
  regs : Reg → Nat
  rip : Nat
  cs : Nat
  rflags : Nat
  rsp : Nat
  ss : Nat

/-- A word with another lowest byte. -/
def setAl (w al : Nat) : Nat := w / 256 * 256 + al

/-- Bit 9 of `rflags`. -/
def clearInterruptFlag (rflags : Nat) : Nat :=
  if rflags / 0x200 % 2 = 1 then rflags - 0x200 else rflags

def setInterruptFlag (rflags : Nat) : Nat := if rflags / 0x200 % 2 = 1 then rflags
    else rflags + 0x200

/-- `pushGpr`. -/
def pushedGpr : List Reg :=
  [.rax, .rbx, .rcx, .rdx, .rsi, .rdi, .rbp, .r8, .r9, .r10, .r11, .r12, .r13, .r14, .r15]

/-- `popGpr`. -/
def poppedGpr : List Reg :=
  [.r15, .r14, .r13, .r12, .r11, .r10, .r9, .r8, .rbp, .rdi, .rsi, .rdx, .rcx, .rbx, .rax]

/-- The registers that a C function gives back as it got them. -/
def calleeSaved : List Reg := [.rbx, .rbp, .r12, .r13, .r14, .r15]

namespace Context

/-- What stands on the stack, from the stack pointer on. -/
def frame (x : Context) : List Nat := poppedGpr.map x.regs ++ [x.rip, x.cs, x.rflags, x.rsp, x.ss]

/-- What is left of a context behind `eoi`. -/
def eoi (x : Context) : Context :=
  { x with regs := Function.update x.regs .rax (setAl (x.regs .rax) 0x20) }

end Context

namespace Cpu

def context (c : Cpu) : Context := ⟨c.regs, c.rip, c.cs, c.rflags, c.rsp, c.ss⟩

/-- Instructions that go on with the next one. -/
def step (f : StackMachine Reg → StackMachine Reg) (c : Cpu) : Cpu :=
  { c with toStackMachine := f c.toStackMachine }

def setReg (r : Reg) (w : Nat) (c : Cpu) : Cpu := c.step (·.setReg r w)

def setRsp (rsp : Nat) (c : Cpu) : Cpu := c.step fun s => { s with rsp }

def pushGpr (c : Cpu) : Cpu := c.step (·.pushRegs pushedGpr)

def popGpr (c : Cpu) : Cpu := c.step (·.popRegs poppedGpr)

/-- `mov al, 0x20`, and a byte to the interrupt controller. -/
def eoi (c : Cpu) : Cpu := c.setReg .rax (setAl (c.regs .rax) 0x20)

/-- What the processor does before the handler at an address: it aligns the stack, and goes through
an interrupt gate. -/
def interrupt (handler : Nat) (c : Cpu) : Cpu :=
  let s := { c.toStackMachine with rsp := c.rsp - c.rsp % 16 }
  { toStackMachine := s.pushes [c.ss, c.rsp, c.rflags, c.cs, c.rip]
    rip := handler, cs := 0x8, rflags := clearInterruptFlag c.rflags, ss := c.ss }

def iretq (c : Cpu) : Cpu :=
  { c with
    rip := c.mem c.rsp
    cs := c.mem (c.rsp + 8)
    rflags := c.mem (c.rsp + 16)
    rsp := c.mem (c.rsp + 24)
    ss := c.mem (c.rsp + 32) }

/-- A call of a C function. -/
structure Calls (kept : Nat → Prop) (c c' : Cpu) : Prop where
  saved : ∀ r ∈ calleeSaved, c'.regs r = c.regs r
  rsp : c'.rsp = c.rsp
  mem : ∀ a, kept a → c'.mem a = c.mem a

/-! ### The handlers -/

/-- From behind the interrupt on. `schedule` gets the stack pointer and returns the next one. -/
def timerTickIrqHandler (kept : Nat → Prop) (next : Nat) (c c' : Cpu) : Prop :=
  ∃ scheduled dispatched : Cpu,
    Calls kept (c.pushGpr.setReg .rdi c.pushGpr.rsp) scheduled ∧ scheduled.regs .rax = next ∧
    Calls kept ((scheduled.setRsp (scheduled.regs .rax)).setReg .rdi 0) dispatched ∧
    c' = dispatched.popGpr.eoi.iretq

/-- The handler of `int 0x22`. -/
def asdf (kept : Nat → Prop) (next : Nat) (c c' : Cpu) : Prop :=
  ∃ scheduled : Cpu,
    Calls kept (c.pushGpr.setReg .rdi c.pushGpr.rsp) scheduled ∧ scheduled.regs .rax = next ∧
    c' = (scheduled.setRsp (scheduled.regs .rax)).popGpr.eoi.iretq

/-- `irqHandler 1`, which `keyboardIrqHandler` reaches at this label; the part before it,
which reads the key and tells F1 and F2 apart, is left out. Of the registers only `rax`
is saved. -/
def regularKeyPress (kept : Nat → Prop) (c c' : Cpu) : Prop :=
  ∃ dispatched : Cpu,
    Calls kept ((c.step (·.pushReg .rax)).setReg .rdi 1) dispatched ∧
    c' = (dispatched.eoi.step (·.popReg .rax)).iretq

/-- `initializeProcessStack` up to the swap of the stacks. -/
def saveCaller (c : Cpu) : Cpu :=
  let c := c.step (·.pushReg .rbp)
  let c := c.setReg .rbp c.rsp
  let c := c.step (·.pushReg .r11)
  c.setReg .r11 c.rsp

/-- The pushes to the new stack, and `initializeGpr`. -/
def pushFrame (c : Cpu) : Cpu :=
  let c := c.setRsp (c.regs .rcx)
  let c := c.setReg .rbp (c.regs .rcx)
  let c := c.step (·.pushes [0, c.regs .rcx, 0x202, 0x8, c.regs .rdx])
  c.step (·.pushes [0, 0, 0, 0, c.regs .rsi, c.regs .rdi, c.regs .rbp, 0, 0, 0, 0, 0, 0, 0, 0])

/-- Back to the stack of the caller. -/
def restoreCaller (c : Cpu) : Cpu :=
  let c := c.setReg .rax c.rsp
  let c := c.setRsp (c.regs .r11)
  let c := c.step (·.popReg .r11)
  c.step (·.popReg .rbp)

/-- `initializeProcessStack` with its arguments in `rdi`, `rsi`, `rdx` and `rcx`. -/
def initializeProcessStack (c : Cpu) : Cpu := c.saveCaller.pushFrame.restoreCaller

def sti (c : Cpu) : Cpu := { c with rflags := setInterruptFlag c.rflags }

/-- `startUserModule`, with the stack pointer that `createUserModuleProcess` returns. -/
def startUserModule (rsp : Nat) (c : Cpu) : Cpu := (c.setRsp rsp).popGpr.sti.eoi.iretq

end Cpu

/-- How a new process begins. -/
def Context.new (argc argv processRip stackStart : Nat) : Context where
  regs := fun
    | .rsi => argv
    | .rdi => argc
    | .rbp => stackStart
    | _ => 0
  rip := processRip
  cs := 0x8
  rflags := 0x202
  rsp := stackStart
  ss := 0

/-! ### Frames -/

section Frames

variable {c c' : Cpu} {x : Context} {kept : Nat → Prop} {a : Nat}

@[simp] theorem frame_length (x : Context) : x.frame.length = 20 := rfl

theorem poppedGpr_nodup : poppedGpr.Nodup := by decide

theorem mem_poppedGpr (r : Reg) : r ∈ poppedGpr := by
  cases r <;> decide

/-- Where an interrupt and `pushGpr` leave the stack pointer. -/
def framePointer (rsp : Nat) : Nat := rsp - rsp % 16 - 160

/-- What a handler pushes behind the interrupt stands below the five words of the processor. -/
theorem interrupt_pushes (handler : Nat) (ws : List Nat) (room : 8 * ws.length + 55 ≤ c.rsp) :
    ((c.interrupt handler).pushes ws).rsp = c.rsp - c.rsp % 16 - (8 * ws.length + 40) ∧
      Words ((c.interrupt handler).pushes ws).mem (c.rsp - c.rsp % 16 - (8 * ws.length + 40))
        (ws.reverse ++ [c.rip, c.cs, c.rflags, c.rsp, c.ss]) ∧
      ∀ a, a < c.rsp - c.rsp % 16 - (8 * ws.length + 40) ∨ c.rsp ≤ a →
        ((c.interrupt handler).pushes ws).mem a = c.mem a := by
  let s : StackMachine Reg := { c.toStackMachine with rsp := c.rsp - c.rsp % 16 }
  have pushed :
      (c.interrupt handler).pushes ws = s.pushes ([c.ss, c.rsp, c.rflags, c.cs, c.rip] ++ ws) :=
    (StackMachine.pushes_append s _ ws).symm
  have length : ([c.ss, c.rsp, c.rflags, c.cs, c.rip] ++ ws).length = ws.length + 5 := by
    rw [List.length_append]
    exact Nat.add_comm _ _
  have small : c.rsp % 16 < 16 := Nat.mod_lt _ (by decide)
  have start : s.rsp = c.rsp - c.rsp % 16 := rfl
  have fits : 8 * ([c.ss, c.rsp, c.rflags, c.cs, c.rip] ++ ws).length ≤ s.rsp := by
    rw [length, start]
    omega
  have lowest : s.rsp - 8 * ([c.ss, c.rsp, c.rflags, c.cs, c.rip] ++ ws).length =
      c.rsp - c.rsp % 16 - (8 * ws.length + 40) := by
    rw [length, start]
    omega
  refine ⟨?_, ?_, fun a outside => ?_⟩
  · rw [pushed, StackMachine.pushes_rsp, lowest]
  · have words := StackMachine.pushes_words fits
    rw [lowest, List.reverse_append] at words
    rw [pushed]
    exact words
  · rw [pushed]
    rcases outside with below | above
    · exact StackMachine.pushes_below fits (lowest ▸ below)
    · refine StackMachine.pushes_above fits ?_
      rw [start]
      omega

/-- The frame of the interrupted program is on its stack, and the words above are as they were. -/
theorem interrupt_saves (handler : Nat) (room : 175 ≤ c.rsp) :
    (c.interrupt handler).pushGpr.rsp = framePointer c.rsp ∧
      Words (c.interrupt handler).pushGpr.mem (framePointer c.rsp) c.context.frame ∧
      ∀ a, a < framePointer c.rsp ∨ c.rsp ≤ a → (c.interrupt handler).pushGpr.mem a = c.mem a := by
  have pushed : (c.interrupt handler).pushGpr.toStackMachine =
      (c.interrupt handler).pushes (pushedGpr.map c.regs) :=
    StackMachine.pushRegs_eq _ _
  rw [pushed]
  exact interrupt_pushes handler _ room

/-- `popGpr` takes the registers off a frame, in the order that they were pushed in. -/
theorem popGpr_frame (words : Words c.mem c.rsp x.frame) : c.popGpr.regs = x.regs ∧
    c.popGpr.mem = c.mem ∧ Words c.mem c.popGpr.rsp [x.rip, x.cs, x.rflags, x.rsp, x.ss] := by
  obtain ⟨gpr, rest⟩ := words_append.mp words
  refine ⟨?_, StackMachine.popRegs_mem _ _, ?_⟩
  · funext r
    exact StackMachine.popRegs_regs poppedGpr_nodup gpr (mem_poppedGpr r)
  · show Words c.mem (StackMachine.popRegs _ _).rsp _
    rw [StackMachine.popRegs_rsp]
    rwa [List.length_map] at rest

/-- `iretq` goes on with the context whose words are next. -/
theorem iretq_context (words : Words c.mem c.rsp [x.rip, x.cs, x.rflags, x.rsp, x.ss])
    (regs : c.regs = x.regs) : c.iretq.context = x := by
  obtain ⟨rip, cs, rflags, rsp, ss, -⟩ := words
  show Context.mk c.regs (c.mem c.rsp) (c.mem (c.rsp + 8)) (c.mem (c.rsp + 16)) (c.mem (c.rsp + 24))
    (c.mem (c.rsp + 32)) = x
  rw [regs, rip, cs, rflags, rsp, ss]

/-- With the end of the interrupt before it, but for `al`. -/
theorem eoi_iretq_context (words : Words c.mem c.rsp [x.rip, x.cs, x.rflags, x.rsp, x.ss])
    (regs : c.regs = x.regs) : c.eoi.iretq.context = x.eoi := by
  have regs' : c.eoi.regs = x.eoi.regs := by
    show Function.update c.regs .rax (setAl (c.regs .rax) 0x20) = _
    rw [regs]
    rfl
  exact iretq_context (c := c.eoi) words regs'

/-- The program goes on where it was interrupted, with another lowest byte in `rax`. -/
theorem frame_restores (words : Words c.mem c.rsp x.frame) :
    c.popGpr.eoi.iretq.context = x.eoi ∧ c.popGpr.eoi.iretq.mem = c.mem := by
  obtain ⟨regs, mem, rest⟩ := popGpr_frame words
  exact ⟨eoi_iretq_context (mem ▸ rest) regs, mem⟩

/-- Whoever finds the stack pointer and what is behind it here goes on in this context, but for the
lowest byte of `rax`, and nothing is written. -/
def Resumable (mem : Nat → Nat) (rsp : Nat) (x : Context) : Prop :=
  ∀ d : Cpu, d.rsp = rsp → (∀ a, rsp ≤ a → a < rsp + 160 → d.mem a = mem a) →
    d.popGpr.eoi.iretq.context = x.eoi ∧ d.popGpr.eoi.iretq.mem = d.mem

/-- A frame in memory is all that it takes to resume a context. -/
theorem frame_resumable {mem : Nat → Nat} {rsp : Nat} (words : Words mem rsp x.frame) :
    Resumable mem rsp x := by
  rintro d rfl same
  exact frame_restores (words.congr same)

/-- What `initializeProcessStack` pushes to the new stack. -/
theorem new_frame (argc argv processRip stackStart : Nat) :
    (Context.new argc argv processRip stackStart).frame.reverse =
      [0, stackStart, 0x202, 0x8, processRip] ++
      [0, 0, 0, 0, argv, argc, stackStart, 0, 0, 0, 0, 0, 0, 0, 0] := rfl

/-- The registers of the caller that are saved on its own stack, -/
theorem saveCaller_spec (c : Cpu) :
    c.saveCaller.regs = Function.update (Function.update c.regs .rbp (c.rsp - 8)) .r11
      (c.rsp - 8 - 8) ∧
      c.saveCaller.mem = Function.update (Function.update c.mem (c.rsp - 8) (c.regs .rbp))
        (c.rsp - 8 - 8) (c.regs .r11) :=
  ⟨rfl, rfl⟩

/-- the frame on the new one, -/
theorem pushFrame_spec (c : Cpu) :
    c.pushFrame.regs = Function.update c.regs .rbp (c.regs .rcx) ∧
      c.pushFrame.rsp = c.regs .rcx - 160 ∧
      c.pushFrame.mem =
        (StackMachine.pushes ⟨Function.update c.regs .rbp (c.regs .rcx), c.regs .rcx, c.mem⟩
        (Context.new (c.regs .rdi) (c.regs .rsi) (c.regs .rdx)
          (c.regs .rcx)).frame.reverse).mem := by
  have pushed : c.pushFrame.toStackMachine =
      StackMachine.pushes ⟨Function.update c.regs .rbp (c.regs .rcx), c.regs .rcx, c.mem⟩
        (Context.new (c.regs .rdi) (c.regs .rsi) (c.regs .rdx) (c.regs .rcx)).frame.reverse := by
    rw [new_frame, StackMachine.pushes_append]
    rfl
  rw [pushed]
  exact ⟨StackMachine.pushes_regs _ _, StackMachine.pushes_rsp _ _, rfl⟩

/-- and the return to the caller. -/
theorem restoreCaller_spec (c : Cpu) :
    c.restoreCaller.regs = Function.update (Function.update (Function.update c.regs .rax c.rsp) .r11
      (c.mem (c.regs .r11))) .rbp (c.mem (c.regs .r11 + 8)) ∧
      c.restoreCaller.rsp = c.regs .r11 + 8 + 8 ∧ c.restoreCaller.mem = c.mem :=
  ⟨rfl, rfl, rfl⟩

/-- A new process finds a frame, and the caller its registers and its stack. -/
theorem initializeProcessStack_frame (room : 16 ≤ c.rsp) (room' : 160 ≤ c.regs .rcx)
    (apart : c.rsp ≤ c.regs .rcx - 160 ∨ c.regs .rcx ≤ c.rsp - 16) :
    c.initializeProcessStack.context =
        { c.context with regs := Function.update c.regs .rax (c.regs .rcx - 160) } ∧
      Words c.initializeProcessStack.mem (c.regs .rcx - 160)
        (Context.new (c.regs .rdi) (c.regs .rsi) (c.regs .rdx) (c.regs .rcx)).frame ∧
      ∀ a, a < c.rsp - 16 ∨ c.rsp ≤ a → a < c.regs .rcx - 160 ∨ c.regs .rcx ≤ a →
        c.initializeProcessStack.mem a = c.mem a := by
  obtain ⟨regs₁, mem₁⟩ := saveCaller_spec c
  obtain ⟨regs₂, rsp₂, mem₂⟩ := pushFrame_spec c.saveCaller
  obtain ⟨regs₃, rsp₃, mem₃⟩ := restoreCaller_spec c.saveCaller.pushFrame
  have rcx : c.saveCaller.regs .rcx = c.regs .rcx := by
    rw [regs₁]
    rfl
  have frame : Context.new (c.saveCaller.regs .rdi) (c.saveCaller.regs .rsi)
      (c.saveCaller.regs .rdx)
      (c.saveCaller.regs .rcx) = Context.new (c.regs .rdi) (c.regs .rsi) (c.regs .rdx)
      (c.regs .rcx) := by
    rw [regs₁]
    rfl
  rw [frame, rcx] at mem₂
  rw [rcx] at rsp₂
  have r11 : c.saveCaller.pushFrame.regs .r11 = c.rsp - 8 - 8 := by
    rw [regs₂, regs₁]
    rfl
  rw [r11] at regs₃ rsp₃
  have lower : c.rsp - 8 - 8 + 8 = c.rsp - 8 := by omega
  rw [lower] at regs₃ rsp₃
  have fits :
      8 *
        (Context.new (c.regs .rdi) (c.regs .rsi) (c.regs .rdx) (c.regs .rcx)).frame.reverse.length ≤
      c.regs .rcx := room'
  have outside : ∀ a, a < c.regs .rcx - 160 ∨ c.regs .rcx ≤ a → c.saveCaller.pushFrame.mem a =
      c.saveCaller.mem a := by
    intro a out
    rw [mem₂]
    rcases out with below | above
    · exact StackMachine.pushes_below fits below
    · exact StackMachine.pushes_above fits above
  have held : c.saveCaller.pushFrame.mem (c.rsp - 8 - 8) = c.regs .r11 := by
    rw [outside _ (by omega), mem₁, Function.update_self]
  have held' : c.saveCaller.pushFrame.mem (c.rsp - 8) = c.regs .rbp := by
    have other : c.rsp - 8 ≠ c.rsp - 8 - 8 := by omega
    rw [outside _ (by omega), mem₁, Function.update_of_ne other, Function.update_self]
  refine ⟨?_, ?_, fun a out out' => ?_⟩
  · have regs :
        c.initializeProcessStack.regs = Function.update c.regs .rax (c.regs .rcx - 160) := by
      rw [Cpu.initializeProcessStack, regs₃, held, held', rsp₂, regs₂, regs₁]
      funext r
      cases r <;> rfl
    have rsp : c.initializeProcessStack.rsp = c.rsp := by
      rw [Cpu.initializeProcessStack, rsp₃]
      omega
    show Context.mk c.initializeProcessStack.regs c.rip c.cs c.rflags
      c.initializeProcessStack.rsp c.ss = _
    rw [regs, rsp]
    rfl
  · have pushed := StackMachine.pushes_words
      (s :=
        ⟨Function.update c.saveCaller.regs .rbp (c.regs .rcx), c.regs .rcx, c.saveCaller.mem⟩) fits
    rw [List.reverse_reverse] at pushed
    rw [Cpu.initializeProcessStack, mem₃, mem₂]
    exact pushed
  · have first : a ≠ c.rsp - 8 := by omega
    have second : a ≠ c.rsp - 8 - 8 := by omega
    rw [Cpu.initializeProcessStack, mem₃, outside a out', mem₁, Function.update_of_ne second,
      Function.update_of_ne first]

end Frames

end SoTp.Interrupts
