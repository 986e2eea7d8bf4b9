/-
One processor and many processes. The machine has one set of registers, and for a process that does
not run a stack pointer (`pcb->rsp`); the processes that it is to look like have registers of their
own. Which process `schedule` returns is left open.

A process has the arguments at the low end of its stack, below `limit`, and what is on the stack
above its stack pointer. It keeps off the stacks of the others, and so does the kernel's code.

* `Suspended.congr` — what keeps a frame and its words keeps the process.
* `Refines.ticks`, `Refines.switches`, `Refines.creates` — the steps in which a frame is built.
* `interrupts_refine` — every run of the machine is a run of the processes, state by state.
* `resumed_as_left` — a process that comes back finds its registers and its stack.
-/

import SoTp.Interrupts.Handlers
import Mathlib.Data.List.Forall2
import Mathlib.Logic.Relation

namespace SoTp.Interrupts

open SoTp.Lib

/-! ### The machine -/

/-- The memory of a process: its arguments end at `limit`, and its stack begins at `high`. -/
structure Stack where
  low : Nat
  limit : Nat
  high : Nat
  ordered : low ≤ limit

def Stack.Has (s : Stack) (a : Nat) : Prop := s.low ≤ a ∧ a < s.high

/-- The words that belong to a process with this stack pointer. -/
def Stack.Owns (s : Stack) (rsp a : Nat) : Prop := s.Has a ∧ (a < s.limit ∨ rsp ≤ a)

structure Machine where
  cpu : Cpu
  running : Option Nat
  /-- `pcb->rsp`. -/
  saved : Nat → Nat
  stackOf : Nat → Option Stack

namespace Machine

/-- Words of a process that does not run. -/
def Kept (m : Machine) (a : Nat) : Prop := ∃ q s, m.stackOf q = some s ∧ m.running ≠ some q ∧
    s.Owns (m.saved q) a

/-- The machine with the running process stopped at a stack pointer. -/
def stop (m : Machine) (p rsp : Nat) : Machine :=
  { m with running := none, saved := Function.update m.saved p rsp }

end Machine

/-- What a step does to the processes. -/
inductive Label where
  | create (q : Nat)
  | start (q : Nat)
  | work
  | tick (q : Nat)
  | switch (q : Nat)
  | key
  | destroy (q : Nat)

/-- The process that goes on. -/
def Label.resumes (q : Nat) : Label → Prop
  | .start p => p = q
  | .tick p => p = q
  | .switch p => p = q
  | _ => False

/-- The process that is gone. -/
def Label.destroys (q : Nat) : Label → Prop
  | .destroy p => p = q
  | _ => False

inductive Machine.Step : Machine → Label → Machine → Prop where
  /-- Kernel code on any stack pushes two words of its own, and builds the frame of a new
  process. -/
  | create {m : Machine} (q : Nat) (s : Stack) (new : m.stackOf q = none)
      (other : m.running ≠ some q)
      (room : 16 ≤ m.cpu.rsp) (free : ∀ a, m.cpu.rsp - 16 ≤ a → a < m.cpu.rsp →
        ¬ m.Kept a ∧ ¬ s.Has a)
      (apart : ∀ q' s', m.stackOf q' = some s' → ∀ a, s.Has a → ¬ s'.Has a)
      (running : ∀ p s', m.running = some p → m.stackOf p = some s' → s'.limit ≤ m.cpu.rsp - 16)
      (fits : s.limit + 160 ≤ m.cpu.regs .rcx) (top : m.cpu.regs .rcx ≤ s.high) :
      Step m (.create q) { m with
        cpu := m.cpu.initializeProcessStack
        saved := Function.update m.saved q (m.cpu.initializeProcessStack.regs .rax)
        stackOf := Function.update m.stackOf q (some s) }
  /-- The first process is started when no other one runs. -/
  | start {m : Machine} (q : Nat) (idle : m.running = none) (live : m.stackOf q ≠ none) :
      Step m (.start q) { m with cpu := m.cpu.startUserModule (m.saved q), running := some q }
  /-- The running process does anything with its registers and its own words. -/
  | work {m : Machine} {p : Nat} {s : Stack} (cpu : Cpu) (running : m.running = some p)
      (stack : m.stackOf p = some s)
      (top : cpu.rsp ≤ s.high) (others : ∀ a, m.Kept a → cpu.mem a = m.cpu.mem a) :
      Step m .work { m with cpu }
  | tick {m : Machine} {p handler : Nat} {s : Stack} {cpu : Cpu} (q : Nat)
      (running : m.running = some p)
      (stack : m.stackOf p = some s) (room : s.limit + 175 ≤ m.cpu.rsp) (live : m.stackOf q ≠ none)
      (handled : Cpu.timerTickIrqHandler (m.stop p (framePointer m.cpu.rsp)).Kept
        ((m.stop p (framePointer m.cpu.rsp)).saved q) (m.cpu.interrupt handler) cpu) :
      Step m (.tick q) { m.stop p (framePointer m.cpu.rsp) with cpu, running := some q }
  | switch {m : Machine} {p handler : Nat} {s : Stack} {cpu : Cpu} (q : Nat)
      (running : m.running = some p)
      (stack : m.stackOf p = some s) (room : s.limit + 175 ≤ m.cpu.rsp) (live : m.stackOf q ≠ none)
      (handled : Cpu.asdf (m.stop p (framePointer m.cpu.rsp)).Kept
        ((m.stop p (framePointer m.cpu.rsp)).saved q) (m.cpu.interrupt handler) cpu) :
      Step m (.switch q) { m.stop p (framePointer m.cpu.rsp) with cpu, running := some q }
  /-- A key that does not end the running process. -/
  | key {m : Machine} {p handler : Nat} {s : Stack} {cpu : Cpu} (running : m.running = some p)
      (stack : m.stackOf p = some s) (room : s.limit + 63 ≤ m.cpu.rsp)
      (handled : Cpu.regularKeyPress
        (fun a => m.Kept a ∨ s.Owns (m.cpu.rsp - m.cpu.rsp % 16 - 48) a)
        (m.cpu.interrupt handler) cpu) :
      Step m .key { m with cpu }
  | destroy {m : Machine} (q : Nat) (other : m.running ≠ some q) :
      Step m (.destroy q) { m with stackOf := Function.update m.stackOf q none }

/-! ### The processes -/

/-- A process with registers and words of its own. -/
structure Process where
  context : Context
  words : Nat → Nat

structure Processes where
  running : Option Nat
  process : Nat → Option Process

namespace Processes

def set (a : Processes) (q : Nat) (x : Process) : Processes :=
  { a with process := Function.update a.process q (some x) }

/-- The running process with another context. -/
def withContext (a : Processes) (f : Context → Context) : Processes :=
  { a with
    process := fun q =>
      if a.running = some q then (a.process q).map fun x => { x with context := f x.context }
      else a.process q }

/-- The process that `q` is, with its lowest byte of `rax` lost. -/
def eoi (a : Processes) (q : Nat) : Processes :=
  withContext { a with running := some q } Context.eoi

inductive Step : Processes → Label → Processes → Prop where
  /-- The creator gets the stack pointer of the new process. -/
  | create {a : Processes} (q argc argv processRip stackStart : Nat) (words : Nat → Nat)
      (new : a.process q = none)
      (given : ∀ p x, a.running = some p → a.process p = some x → x.context.regs .rdi = argc ∧
        x.context.regs .rsi = argv ∧ x.context.regs .rdx = processRip ∧
          x.context.regs .rcx = stackStart) :
      Step a (.create q)
        ((a.withContext fun x =>
          { x with regs := Function.update x.regs .rax (stackStart - 160) }).set q
          ⟨Context.new argc argv processRip stackStart, words⟩)
  | start {a : Processes} (q : Nat) (idle : a.running = none) (live : a.process q ≠ none) :
      Step a (.start q) (a.eoi q)
  | work {a : Processes} {p : Nat} (x : Process) (running : a.running = some p)
      (live : a.process p ≠ none) : Step a .work (a.set p x)
  /-- The process that goes on loses the lowest byte of `rax`. -/
  | tick {a : Processes} {p : Nat} (q : Nat) (running : a.running = some p)
      (live : a.process q ≠ none) : Step a (.tick q) (a.eoi q)
  | switch {a : Processes} {p : Nat} (q : Nat) (running : a.running = some p)
      (live : a.process q ≠ none) : Step a (.switch q) (a.eoi q)
  /-- A key keeps what is not the callee's, and `rax`. -/
  | key {a : Processes} {p : Nat} (regs : Reg → Nat) (running : a.running = some p)
      (saved : ∀ x, a.process p = some x → ∀ r ∈ Reg.rax :: calleeSaved,
        regs r = x.context.regs r) :
      Step a .key (a.withContext fun x => { x with regs })
  | destroy {a : Processes} (q : Nat) (other : a.running ≠ some q) :
      Step a (.destroy q) { a with process := Function.update a.process q none }

end Processes

/-! ### Runs -/

/-- Steps with their labels, the last one exposed. -/
inductive Runs {σ : Type} (step : σ → Label → σ → Prop) : σ → List Label → σ → Prop where
  | none {s : σ} : Runs step s [] s
  | more {s s' s'' : σ} {ls : List Label} {l : Label} (before : Runs step s ls s')
      (last : step s' l s'') : Runs step s (ls ++ [l]) s''

/-- Steps with the states they lead to, the last one exposed. -/
inductive Traces {σ : Type} (step : σ → Label → σ → Prop) : σ → List (Label × σ) → σ → Prop where
  | none {s : σ} : Traces step s [] s
  | more {s s' s'' : σ} {states : List (Label × σ)} {l : Label} (before : Traces step s states s')
      (last : step s' l s'') : Traces step s (states ++ [(l, s'')]) s''

theorem Runs.traces {σ : Type} {step : σ → Label → σ → Prop} {s s' : σ} {ls : List Label}
    (run : Runs step s ls s') : ∃ states, Traces step s states s' ∧ states.map Prod.fst = ls := by
  induction run with
  | none => exact ⟨[], .none, rfl⟩
  | more _ last ih =>
      obtain ⟨states, before, labels⟩ := ih
      exact ⟨_, before.more last, by rw [List.map_append, labels]; rfl⟩

/-- Nothing runs yet, and there are no processes. -/
def Machine.boot (cpu : Cpu) : Machine := ⟨cpu, none, fun _ => 0, fun _ => none⟩

def Processes.none : Processes := ⟨.none, fun _ => .none⟩

/-! ### The machine looks like the processes -/

/-- A process that does not run. -/
structure Suspended (mem : Nat → Nat) (saved : Nat) (s : Stack) (x : Process) : Prop where
  frame : Words mem saved x.context.frame
  above : s.limit ≤ saved
  below : saved + 160 ≤ x.context.rsp
  top : x.context.rsp ≤ s.high
  words : ∀ a, s.Owns x.context.rsp a → mem a = x.words a

/-- The process that runs. -/
structure Running (cpu : Cpu) (s : Stack) (x : Process) : Prop where
  context : cpu.context = x.context
  top : cpu.rsp ≤ s.high
  words : ∀ a, s.Owns cpu.rsp a → cpu.mem a = x.words a

structure Refines (m : Machine) (a : Processes) : Prop where
  running : m.running = a.running
  live : ∀ q, m.stackOf q = none ↔ a.process q = none
  current : ∀ p s x, m.running = some p → m.stackOf p = some s → a.process p = some x →
    Running m.cpu s x
  suspended : ∀ q s x, m.running ≠ some q → m.stackOf q = some s → a.process q = some x →
    Suspended m.cpu.mem (m.saved q) s x
  apart : ∀ q q' s s', q ≠ q' → m.stackOf q = some s → m.stackOf q' = some s' →
    ∀ a, s.Has a → ¬ s'.Has a

section Suspended

variable {mem mem' : Nat → Nat} {saved handler : Nat} {s : Stack} {x : Process} {c : Cpu}

/-- A suspended process is what its own stack says. -/
theorem Suspended.congr (h : Suspended mem saved s x)
    (same : ∀ a, s.Owns saved a → mem' a = mem a) : Suspended mem' saved s x where
  frame := h.frame.congr fun a above below => by
    rw [frame_length] at below
    have ordered := s.ordered
    have limit := h.above
    have behind := h.below
    have top := h.top
    exact same a ⟨⟨by omega, by omega⟩, Or.inr above⟩
  above := h.above
  below := h.below
  top := h.top
  words := fun a owns => by
    have above : a < s.limit ∨ saved ≤ a := owns.2.imp_right fun le => by
      have := h.below
      omega
    rw [same a ⟨owns.1, above⟩]
    exact h.words a owns

/-- A running process that is interrupted. -/
theorem Running.stops (h : Running c s x) (room : s.limit + 175 ≤ c.rsp) (handler : Nat) :
    Suspended (c.interrupt handler).pushGpr.mem (framePointer c.rsp) s x ∧
      ∀ a, ¬ s.Has a → (c.interrupt handler).pushGpr.mem a = c.mem a := by
  have space : 175 ≤ c.rsp := by omega
  obtain ⟨-, frame, same⟩ := interrupt_saves handler space
  have small : c.rsp % 16 < 16 := Nat.mod_lt _ (by decide)
  have low : s.limit ≤ framePointer c.rsp ∧ framePointer c.rsp + 160 ≤ c.rsp := by
    unfold framePointer
    omega
  have rsp : x.context.rsp = c.rsp := by
    rw [← h.context]
    rfl
  have ordered := s.ordered
  constructor
  · refine ⟨h.context ▸ frame, low.1, le_of_le_of_eq low.2 rsp.symm, le_of_eq_of_le rsp h.top,
      fun a owns => ?_⟩
    rw [rsp] at owns
    have outside : a < framePointer c.rsp ∨ c.rsp ≤ a := owns.2.imp_left fun lt =>
      Nat.lt_of_lt_of_le lt low.1
    rw [same a outside]
    exact h.words a owns
  · intro a other
    apply same
    by_contra inside
    have top := h.top
    exact other ⟨by omega, by omega⟩

/-- A process that goes on. -/
theorem Suspended.runs (h : Suspended c.mem c.rsp s x) :
    Running c.popGpr.eoi.iretq s { x with context := x.context.eoi } := by
  obtain ⟨context, mem⟩ := frame_restores h.frame
  have rsp : c.popGpr.eoi.iretq.rsp = x.context.rsp := congrArg Context.rsp context
  refine ⟨context, rsp ▸ h.top, fun a owns => ?_⟩
  rw [rsp] at owns
  rw [mem]
  exact h.words a owns

end Suspended

/-- No process runs. -/
def Stopped (mem : Nat → Nat) (m : Machine) (a : Processes) : Prop :=
  ∀ q s x, m.stackOf q = some s → a.process q = some x → Suspended mem (m.saved q) s x

section Refines

variable {m m' : Machine} {a : Processes} {p q : Nat} {s : Stack} {x : Process}
    {mem mem' : Nat → Nat} {c : Cpu}

/-- A process with a stack is one of the abstract ones, -/
theorem Refines.process_some (h : Refines m a) (stack : m.stackOf q = some s) :
    ∃ x, a.process q = some x := by
  refine Option.ne_none_iff_exists'.mp fun none => ?_
  rw [(h.live q).mpr none] at stack
  cases stack

/-- and the other way round. -/
theorem Refines.stack_some (h : Refines m a) (process : a.process q = some x) :
    ∃ s, m.stackOf q = some s := by
  refine Option.ne_none_iff_exists'.mp fun none => ?_
  rw [(h.live q).mp none] at process
  cases process

/-- Every process is suspended once the running one is interrupted. -/
theorem Refines.stops (h : Refines m a) (running : m.running = some p)
    (stack : m.stackOf p = some s) (room : s.limit + 175 ≤ m.cpu.rsp) (handler : Nat) :
    Stopped (m.cpu.interrupt handler).pushGpr.mem (m.stop p (framePointer m.cpu.rsp)) a := by
  obtain ⟨x, process⟩ := h.process_some stack
  obtain ⟨here, elsewhere⟩ := (h.current p s x running stack process).stops room handler
  intro q t y stack' process'
  by_cases same : q = p
  · subst same
    cases stack.symm.trans stack'
    cases process.symm.trans process'
    show Suspended _ (Function.update m.saved q _ q) s x
    rw [Function.update_self]
    exact here
  · show Suspended _ (Function.update m.saved p _ q) t y
    rw [Function.update_of_ne same]
    have away : m.running ≠ some q := fun other => same (Option.some.inj (other.symm.trans running))
    refine (h.suspended q t y away stack' process').congr fun b owns => ?_
    exact elsewhere b (h.apart q p t s same stack' stack b owns.1)

/-- Code that keeps off the stacks leaves a stopped machine as it is. -/
theorem Stopped.congr (h : Stopped mem m a) (idle : m.running = none)
    (same : ∀ b, m.Kept b → mem' b = mem b) : Stopped mem' m a := by
  intro q s x stack process
  refine (h q s x stack process).congr fun b owns => ?_
  have away : m.running ≠ some q := by
    rw [idle]
    exact fun none => nomatch none
  exact same b ⟨q, s, stack, away, owns⟩

/-- One process goes on. -/
theorem Stopped.resumes (h : Stopped mem m a) (live : ∀ q, m.stackOf q = none ↔ a.process q = none)
    (apart : ∀ q q' s s', q ≠ q' → m.stackOf q = some s → m.stackOf q' = some s' →
      ∀ b, s.Has b → ¬ s'.Has b)
    {cpu : Cpu} (memory : cpu.mem = mem)
    (runs : ∀ s x, Suspended mem (m.saved q) s x →
      Running cpu s { x with context := x.context.eoi }) :
    Refines { m with cpu, running := some q } (a.eoi q) where
  running := rfl
  live := fun r => by
    by_cases same : q = r
    · show m.stackOf r = none ↔ (if some q = some r then _ else _) = none
      rw [if_pos (congrArg some same), Option.map_eq_none_iff]
      exact live r
    · show m.stackOf r = none ↔ (if some q = some r then _ else _) = none
      rw [if_neg fun eq => same (Option.some.inj eq)]
      exact live r
  current := fun r s x running stack process => by
    cases running
    have process : (if some q = some q then (a.process q).map _ else _) = some x := process
    rw [if_pos rfl] at process
    obtain ⟨y, there, rfl⟩ := Option.map_eq_some_iff.mp process
    exact runs s y (h q s y stack there)
  suspended := fun r s x away stack process => by
    have process : (if some q = some r then (a.process r).map _ else a.process r) =
      some x := process
    rw [if_neg away] at process
    show Suspended cpu.mem (m.saved r) s x
    rw [memory]
    exact h r s x stack process
  apart := apart

/-- The timer interrupt: the running process is stored in its frame and the one that
`schedule` chooses goes on. -/
theorem Refines.ticks (h : Refines m a) {handler : Nat} {cpu : Cpu} (running : m.running = some p)
    (stack : m.stackOf p = some s) (room : s.limit + 175 ≤ m.cpu.rsp)
    (handled : Cpu.timerTickIrqHandler (m.stop p (framePointer m.cpu.rsp)).Kept
      ((m.stop p (framePointer m.cpu.rsp)).saved q) (m.cpu.interrupt handler) cpu) :
    Refines { m.stop p (framePointer m.cpu.rsp) with cpu, running := some q } (a.eoi q) := by
  obtain ⟨scheduled, dispatched, first, next, second, rfl⟩ := handled
  have stopped := h.stops running stack room handler
  have stopped : Stopped scheduled.mem _ _ := stopped.congr rfl first.mem
  have stopped : Stopped dispatched.mem _ _ := stopped.congr rfl second.mem
  have rsp : dispatched.rsp = (m.stop p (framePointer m.cpu.rsp)).saved q := second.rsp.trans next
  refine stopped.resumes h.live h.apart (StackMachine.popRegs_mem _ _) fun t y suspended => ?_
  rw [← rsp] at suspended
  exact suspended.runs

/-- `int 0x22`, in the same way. -/
theorem Refines.switches (h : Refines m a) {handler : Nat} {cpu : Cpu}
    (running : m.running = some p) (stack : m.stackOf p = some s) (room : s.limit + 175 ≤ m.cpu.rsp)
    (handled : Cpu.asdf (m.stop p (framePointer m.cpu.rsp)).Kept
      ((m.stop p (framePointer m.cpu.rsp)).saved q) (m.cpu.interrupt handler) cpu) :
    Refines { m.stop p (framePointer m.cpu.rsp) with cpu, running := some q } (a.eoi q) := by
  obtain ⟨scheduled, first, next, rfl⟩ := handled
  have stopped := h.stops running stack room handler
  have stopped : Stopped scheduled.mem _ _ := stopped.congr rfl first.mem
  refine stopped.resumes h.live h.apart (StackMachine.popRegs_mem _ _) fun t y suspended => ?_
  rw [← next] at suspended
  exact Suspended.runs (c := scheduled.setRsp (scheduled.regs .rax)) suspended

/-- While none runs, a process is started from its frame. -/
theorem Refines.starts (h : Refines m a) (idle : m.running = none) (q : Nat) :
    Refines { m with cpu := m.cpu.startUserModule (m.saved q), running := some q } (a.eoi q) := by
  have stopped : Stopped m.cpu.mem m a := fun r t y stack process =>
    h.suspended r t y (idle ▸ fun none => nomatch none) stack process
  exact stopped.resumes h.live h.apart (StackMachine.popRegs_mem _ _) fun t y suspended =>
    Suspended.runs (c := m.cpu.setRsp (m.saved q)) suspended

/-- What the running process does to its own registers and stack. -/
theorem Refines.works (h : Refines m a) (cpu : Cpu) (running : m.running = some p)
    (stack : m.stackOf p = some s)
    (top : cpu.rsp ≤ s.high) (others : ∀ b, m.Kept b → cpu.mem b = m.cpu.mem b) :
    Refines { m with cpu } (a.set p ⟨cpu.context, cpu.mem⟩) where
  running := h.running
  live := fun r => by
    by_cases same : r = p
    · subst same
      show m.stackOf r = none ↔ Function.update a.process r _ r = none
      rw [Function.update_self, stack]
      exact ⟨fun none => (nomatch none), fun none => nomatch none⟩
    · show m.stackOf r = none ↔ Function.update a.process p _ r = none
      rw [Function.update_of_ne same]
      exact h.live r
  current := fun r t y running' stack' process => by
    cases running.symm.trans running'
    cases stack.symm.trans stack'
    have process : Function.update a.process p (some ⟨cpu.context, cpu.mem⟩) p = some y := process
    rw [Function.update_self] at process
    cases process
    exact ⟨rfl, top, fun b owns => rfl⟩
  suspended := fun r t y away stack' process => by
    have other : r ≠ p := fun same => away (same ▸ running)
    have process : Function.update a.process p (some ⟨cpu.context, cpu.mem⟩) r = some y := process
    rw [Function.update_of_ne other] at process
    exact (h.suspended r t y away stack' process).congr fun b owns =>
      others b ⟨r, t, stack', away, owns⟩
  apart := h.apart

/-- The stack of a process is given back. -/
theorem Refines.destroyed (h : Refines m a) (q : Nat) :
    Refines { m with stackOf := Function.update m.stackOf q none }
      { a with process := Function.update a.process q none } := by
  have kept : ∀ {r t}, Function.update m.stackOf q none r = some t → r ≠ q ∧
      m.stackOf r = some t := by
    intro r t stack
    have other : r ≠ q := fun same => by
      rw [same, Function.update_self] at stack
      cases stack
    exact ⟨other, Function.update_of_ne other none m.stackOf ▸ stack⟩
  have kept' : ∀ {r x}, r ≠ q → Function.update a.process q none r = some x →
      a.process r = some x := by
    intro r x other process
    rwa [Function.update_of_ne other] at process
  constructor
  · exact h.running
  · intro r
    by_cases same : r = q
    · show Function.update m.stackOf q none r = none ↔ Function.update a.process q none r = none
      rw [same, Function.update_self, Function.update_self]
      exact ⟨fun _ => rfl, fun _ => rfl⟩
    · show Function.update m.stackOf q none r = none ↔ Function.update a.process q none r = none
      rw [Function.update_of_ne same, Function.update_of_ne same]
      exact h.live r
  · intro r t y running stack process
    obtain ⟨other, stack⟩ := kept stack
    exact h.current r t y running stack (kept' other process)
  · intro r t y away stack process
    obtain ⟨other, stack⟩ := kept stack
    exact h.suspended r t y away stack (kept' other process)
  · intro r r' t t' ne stack stack'
    exact h.apart r r' t t' ne (kept stack).2 (kept stack').2

/-- A key that was pressed: what the processor and `irqHandler` save is found again. -/
theorem Running.presses {kept : Nat → Prop} {handler : Nat} {c c' : Cpu} (h : Running c s x)
    (room : s.limit + 63 ≤ c.rsp) (own : ∀ b, s.Owns (c.rsp - c.rsp % 16 - 48) b → kept b)
    (handled : Cpu.regularKeyPress kept (c.interrupt handler) c') :
    (∀ r ∈ Reg.rax :: calleeSaved, c'.regs r = x.context.regs r) ∧
      Running c' s { x with context := { x.context with regs := c'.regs } } ∧
      ∀ b, kept b → ¬ s.Has b → c'.mem b = c.mem b := by
  obtain ⟨dispatched, called, rfl⟩ := handled
  obtain ⟨lowest, found, outside⟩ := interrupt_pushes handler [c.regs .rax] (by
    show 63 ≤ c.rsp
    omega)
  have small : c.rsp % 16 < 16 := Nat.mod_lt _ (by decide)
  have top := h.top
  have ordered := s.ordered
  have pointer : dispatched.rsp = c.rsp - c.rsp % 16 - 48 := by
    rw [called.rsp]
    exact lowest
  have mem : ∀ b, kept b → dispatched.mem b = ((c.interrupt handler).pushes [c.regs .rax]).mem b :=
    called.mem
  have outside : ∀ b, b < c.rsp - c.rsp % 16 - 48 ∨ c.rsp ≤ b → kept b →
      dispatched.mem b = c.mem b := by
    intro b out there
    rw [mem b there]
    exact outside b out
  have found :
      Words dispatched.mem dispatched.rsp [c.regs .rax, c.rip, c.cs, c.rflags, c.rsp, c.ss] := by
    rw [pointer]
    refine Words.congr found fun b above below => ?_
    have above : c.rsp - c.rsp % 16 - 48 ≤ b := above
    have below : b < c.rsp - c.rsp % 16 - 48 + 48 := below
    exact mem b (own b ⟨⟨by omega, by omega⟩, Or.inr above⟩)
  obtain ⟨rax, rip, cs, rflags, rsp, ss, -⟩ := found
  have context : (dispatched.eoi.step (·.popReg .rax)).iretq.context =
      { x.context with regs := (dispatched.eoi.step (·.popReg .rax)).regs } := by
    rw [← h.context]
    show Context.mk _ (dispatched.mem (dispatched.rsp + 8))
      (dispatched.mem (dispatched.rsp + 8 + 8))
      (dispatched.mem (dispatched.rsp + 8 + 16)) (dispatched.mem (dispatched.rsp + 8 + 24))
      (dispatched.mem (dispatched.rsp + 8 + 32)) = _
    rw [rip, cs, rflags, rsp, ss]
    rfl
  have same : x.context.regs = c.regs := by
    rw [← h.context]
    rfl
  have back : (dispatched.eoi.step (·.popReg .rax)).iretq.rsp = c.rsp := rsp
  refine ⟨fun r saved => ?_, ⟨context, le_of_eq_of_le back h.top, fun b owns => ?_⟩,
    fun b there away => ?_⟩
  · rw [same]
    rcases List.mem_cons.mp saved with rfl | saved
    · exact rax
    · have other : r ≠ .rax := fun eq => by
        rw [eq] at saved
        exact absurd saved (by decide)
      show Function.update (Function.update dispatched.regs .rax _) .rax _ r = c.regs r
      rw [Function.update_of_ne other, Function.update_of_ne other, called.saved r saved]
      have other' : r ≠ .rdi := fun eq => by
        rw [eq] at saved
        exact absurd saved (by decide)
      exact Function.update_of_ne other' _ _
  · rw [back] at owns
    have out : b < c.rsp - c.rsp % 16 - 48 ∨ c.rsp ≤ b := owns.2.imp_left fun lt => by omega
    have there : kept b := own b ⟨owns.1, owns.2.imp_right fun le => by omega⟩
    exact (outside b out there).trans (h.words b owns)
  · refine outside b ?_ there
    by_contra inside
    exact away ⟨by omega, by omega⟩

/-- A key: the handler returns to the running process, and other code has changed no
register that is saved. -/
theorem Refines.presses (h : Refines m a) {handler : Nat} {cpu : Cpu} (running : m.running = some p)
    (stack : m.stackOf p = some s) (room : s.limit + 63 ≤ m.cpu.rsp)
    (handled : Cpu.regularKeyPress (fun b => m.Kept b ∨ s.Owns (m.cpu.rsp - m.cpu.rsp % 16 - 48) b)
      (m.cpu.interrupt handler) cpu) :
    (∀ x, a.process p = some x → ∀ r ∈ Reg.rax :: calleeSaved, cpu.regs r = x.context.regs r) ∧
      Refines { m with cpu } (a.withContext fun x => { x with regs := cpu.regs }) := by
  obtain ⟨x, process⟩ := h.process_some stack
  obtain ⟨saved, runs, elsewhere⟩ :=
    (h.current p s x running stack process).presses room (fun b owns => Or.inr owns) handled
  have current : a.running = some p := h.running ▸ running
  refine ⟨fun y there => ?_, h.running, fun r => ?_, fun r t y running' stack' process' => ?_,
    fun r t y away stack' process' => ?_, h.apart⟩
  · cases process.symm.trans there
    exact saved
  · show m.stackOf r = none ↔ (if a.running = some r then _ else _) = none
    rw [h.live r]
    split_ifs
    · rw [Option.map_eq_none_iff]
    · rfl
  · cases running.symm.trans running'
    cases stack.symm.trans stack'
    have process' : (if a.running = some p then (a.process p).map _ else _) = some y := process'
    rw [if_pos current, process, Option.map_some] at process'
    cases process'
    exact runs
  · have away' : a.running ≠ some r := h.running ▸ away
    have process' : (if a.running = some r then (a.process r).map _ else a.process r) = some y :=
      process'
    rw [if_neg away'] at process'
    have other : r ≠ p := fun same => away (same ▸ running)
    refine (h.suspended r t y away stack' process').congr fun b owns => ?_
    exact elsewhere b (Or.inl ⟨r, t, stack', away, owns⟩)
      (h.apart r p t s other stack' stack b owns.1)

/-- A new stack gets the frame of the new process, and the caller goes on with its stack
pointer in `rax`. -/
theorem Refines.creates (h : Refines m a) (new : m.stackOf q = none) (other : m.running ≠ some q)
    (room : 16 ≤ m.cpu.rsp)
    (free : ∀ b, m.cpu.rsp - 16 ≤ b → b < m.cpu.rsp → ¬ m.Kept b ∧ ¬ s.Has b)
    (apart : ∀ q' s', m.stackOf q' = some s' → ∀ b, s.Has b → ¬ s'.Has b)
    (running : ∀ p s', m.running = some p → m.stackOf p = some s' → s'.limit ≤ m.cpu.rsp - 16)
    (fits : s.limit + 160 ≤ m.cpu.regs .rcx) (top : m.cpu.regs .rcx ≤ s.high) :
    Refines
      { m with
        cpu := m.cpu.initializeProcessStack
        saved := Function.update m.saved q (m.cpu.initializeProcessStack.regs .rax)
        stackOf := Function.update m.stackOf q (some s) }
      ((a.withContext fun x =>
        { x with regs := Function.update x.regs .rax (m.cpu.regs .rcx - 160) }).set q
        ⟨Context.new (m.cpu.regs .rdi) (m.cpu.regs .rsi) (m.cpu.regs .rdx) (m.cpu.regs .rcx),
          m.cpu.initializeProcessStack.mem⟩) := by
  have ordered := s.ordered
  have space : 160 ≤ m.cpu.regs .rcx := by omega
  have beside : m.cpu.rsp ≤ m.cpu.regs .rcx - 160 ∨ m.cpu.regs .rcx ≤ m.cpu.rsp - 16 := by
    by_contra overlap
    have low : m.cpu.rsp - 16 ≤ max (m.cpu.rsp - 16) (m.cpu.regs .rcx - 160) := Nat.le_max_left _ _
    have inside : max (m.cpu.rsp - 16) (m.cpu.regs .rcx - 160) < m.cpu.rsp := by omega
    exact (free _ low inside).2 ⟨by omega, by omega⟩
  obtain ⟨context, frame, same⟩ := initializeProcessStack_frame room space beside
  have rax : m.cpu.initializeProcessStack.regs .rax = m.cpu.regs .rcx - 160 := by
    have regs : m.cpu.initializeProcessStack.regs = _ := congrArg Context.regs context
    rw [regs]
    rfl
  -- What belongs to another process is not written.
  have elsewhere : ∀ r t, m.stackOf r = some t → ∀ b, t.Has b →
      (b < m.cpu.rsp - 16 ∨ m.cpu.rsp ≤ b) → m.cpu.initializeProcessStack.mem b = m.cpu.mem b := by
    intro r t stack b inside out
    refine same b out ?_
    by_contra written
    exact apart r t stack b ⟨by omega, by omega⟩ inside
  -- What the processes are, other than the new one.
  have look : ∀ r, r ≠ q → ∀ f x, ((a.withContext f).set q x).process r =
      if a.running = some r then (a.process r).map fun y => { y with context := f y.context }
        else a.process r :=
    fun r ne f x => Function.update_of_ne ne _ _
  have current : ∀ {r}, a.running = some r → r ≠ q :=
    fun {r} here eq => other (h.running ▸ eq ▸ here)
  refine ⟨h.running, fun r => ?_, fun r t y running' stack process => ?_,
    fun r t y away stack process => ?_, fun r r' t t' ne stack stack' => ?_⟩
  · by_cases eq : r = q
    · subst eq
      simp only [Processes.set, Function.update_self, reduceCtorEq]
    · rw [look r eq]
      show Function.update m.stackOf q (some s) r = none ↔ _
      rw [Function.update_of_ne eq, h.live r]
      split_ifs
      · rw [Option.map_eq_none_iff]
      · rfl
  · have here : a.running = some r := h.running ▸ running'
    have ne := current here
    have stack : Function.update m.stackOf q (some s) r = some t := stack
    rw [Function.update_of_ne ne] at stack
    rw [look r ne, if_pos here] at process
    obtain ⟨x, there, rfl⟩ := Option.map_eq_some_iff.mp process
    have old := h.current r t x running' stack there
    have rsp : m.cpu.initializeProcessStack.rsp = m.cpu.rsp := congrArg Context.rsp context
    refine ⟨?_, le_of_eq_of_le rsp old.top, fun b owns => ?_⟩
    · rw [context, old.context]
      show _ =
        { x.context with regs := Function.update x.context.regs .rax (m.cpu.regs .rcx - 160) }
      have regs : x.context.regs = m.cpu.regs := by
        rw [← old.context]
        rfl
      rw [regs]
    · have owns : t.Owns m.cpu.rsp b := rsp ▸ owns
      have limit := running r t running' stack
      have out : b < m.cpu.rsp - 16 ∨ m.cpu.rsp ≤ b := owns.2.imp_left fun lt =>
        Nat.lt_of_lt_of_le lt limit
      exact (elsewhere r t stack b owns.1 out).trans (old.words b owns)
  · by_cases eq : r = q
    · subst eq
      have stack : Function.update m.stackOf r (some s) r = some t := stack
      rw [Function.update_self] at stack
      simp only [Processes.set, Function.update_self] at process
      cases stack
      cases process
      show Suspended _ (Function.update m.saved r _ r) s _
      rw [Function.update_self, rax]
      refine ⟨frame, by omega, ?_, top, fun b owns => rfl⟩
      show m.cpu.regs .rcx - 160 + 160 ≤ m.cpu.regs .rcx
      omega
    · have stack : Function.update m.stackOf q (some s) r = some t := stack
      have away' : a.running ≠ some r := h.running ▸ away
      rw [Function.update_of_ne eq] at stack
      rw [look r eq, if_neg away'] at process
      show Suspended _ (Function.update m.saved q _ r) t y
      rw [Function.update_of_ne eq]
      refine (h.suspended r t y away stack process).congr fun b owns => ?_
      refine elsewhere r t stack b owns.1 ?_
      by_contra written
      exact (free b (by omega) (by omega)).1 ⟨r, t, stack, away, owns⟩
  · have stack : Function.update m.stackOf q (some s) r = some t := stack
    have stack' : Function.update m.stackOf q (some s) r' = some t' := stack'
    by_cases eq : r = q
    · subst eq
      rw [Function.update_self] at stack
      rw [Function.update_of_ne (Ne.symm ne)] at stack'
      cases stack
      exact apart r' t' stack'
    · rw [Function.update_of_ne eq] at stack
      have old : m.stackOf r = some t := stack
      by_cases eq' : r' = q
      · subst eq'
        rw [Function.update_self] at stack'
        cases stack'
        intro b inside new
        exact apart r t old b new inside
      · rw [Function.update_of_ne eq'] at stack'
        exact h.apart r r' t t' ne old stack'

/-- A step of the machine is that step of the processes. -/
theorem Refines.step {l : Label} (h : Refines m a) (step : m.Step l m') : ∃ a', a.Step l a' ∧
    Refines m' a' := by
  have live : ∀ {q}, m.stackOf q ≠ none → a.process q ≠ none :=
    fun {q} some none => some ((h.live q).mpr none)
  cases step with
  | create q s new other room free apart running fits top =>
      refine ⟨_, .create q _ _ _ _ _ ((h.live q).mp new) fun p x here process => ?_,
        h.creates new other room free apart running fits top⟩
      have running' : m.running = some p := h.running ▸ here
      obtain ⟨t, stack⟩ := h.stack_some process
      have regs : x.context.regs = m.cpu.regs := by
        rw [← (h.current p t x running' stack process).context]
        rfl
      rw [regs]
      exact ⟨rfl, rfl, rfl, rfl⟩
  | start q idle some => exact ⟨_, .start q (h.running ▸ idle) (live some), h.starts idle q⟩
  | work cpu running stack top others =>
      have some := live (fun none => nomatch stack.symm.trans none)
      exact ⟨_, .work _ (h.running ▸ running) some, h.works cpu running stack top others⟩
  | tick q running stack room some handled =>
      exact ⟨_, .tick q (h.running ▸ running) (live some), h.ticks running stack room handled⟩
  | switch q running stack room some handled =>
      exact ⟨_, .switch q (h.running ▸ running) (live some), h.switches running stack room handled⟩
  | key running stack room handled =>
      obtain ⟨saved, refines⟩ := h.presses running stack room handled
      exact ⟨_, .key _ (h.running ▸ running) saved, refines⟩
  | destroy q other => exact ⟨_, .destroy q (h.running ▸ other), h.destroyed q⟩

/-- Step by step, a whole run. -/
theorem Refines.runs {ls : List Label} (h : Refines m a) (run : Runs Machine.Step m ls m') :
    ∃ a', Runs Processes.Step a ls a' ∧ Refines m' a' := by
  induction run with
  | none => exact ⟨a, .none, h⟩
  | more _ last ih =>
      obtain ⟨a', before, refines⟩ := ih
      obtain ⟨a'', step, refines'⟩ := refines.step last
      exact ⟨a'', .more before step, refines'⟩

/-- Every state of the machine looks like the state of the processes after the same steps. -/
theorem Refines.traces {states : List (Label × Machine)} (h : Refines m a)
    (run : Traces Machine.Step m states m') : ∃ states' a', Traces Processes.Step a states' a' ∧
      Refines m' a' ∧ List.Forall₂ (fun x y => x.1 = y.1 ∧ Refines x.2 y.2) states states' := by
  induction run with
  | none => exact ⟨[], a, .none, h, .nil⟩
  | more _ last ih =>
      obtain ⟨states', a', before, refines, same⟩ := ih
      obtain ⟨a'', step, refines'⟩ := refines.step last
      exact ⟨_, a'', before.more step, refines', List.rel_append same (.cons ⟨rfl, refines'⟩ .nil)⟩

/-- With no process, there is nothing to show. -/
theorem boot_refines (cpu : Cpu) : Refines (.boot cpu) .none where
  running := rfl
  live := fun _ => ⟨fun _ => rfl, fun _ => rfl⟩
  current := fun _ _ _ running => nomatch running
  suspended := fun _ _ _ _ stack => nomatch stack
  apart := fun _ _ _ _ _ stack => nomatch stack

end Refines

/-! ### Two processes -/

section Two

variable {m : Machine} {p q : Nat} {s : Stack}

/-- A tick can be taken where there is room for a frame. -/
theorem Machine.can_tick (running : m.running = some p) (stack : m.stackOf p = some s)
    (room : s.limit + 175 ≤ m.cpu.rsp)
    (live : m.stackOf q ≠ none) : ∃ m', m.Step (.tick q) m' ∧ m'.running = some q ∧
      m'.stackOf = m.stackOf := by
  let c := (m.cpu.interrupt 0).pushGpr
  let scheduled := (c.setReg .rdi c.rsp).setReg .rax ((m.stop p (framePointer m.cpu.rsp)).saved q)
  have handled : Cpu.timerTickIrqHandler (m.stop p (framePointer m.cpu.rsp)).Kept
      ((m.stop p (framePointer m.cpu.rsp)).saved q) (m.cpu.interrupt 0)
      ((scheduled.setRsp (scheduled.regs .rax)).setReg .rdi 0).popGpr.eoi.iretq := by
    refine ⟨scheduled, _, ⟨fun r saved => ?_, rfl, fun _ _ => rfl⟩, rfl,
      ⟨fun _ _ => rfl, rfl, fun _ _ => rfl⟩, rfl⟩
    refine Function.update_of_ne (fun eq => ?_) _ _
    rw [eq] at saved
    exact absurd saved (by decide)
  exact ⟨_, .tick q running stack room live handled, rfl, rfl⟩

def firstStack : Stack := ⟨0x1000, 0x1010, 0x2000, by decide⟩

def secondStack : Stack := ⟨0x3000, 0x3010, 0x4000, by decide⟩

def booted : Cpu := ⟨⟨fun _ => 0x2000, 0x8000, fun _ => 0⟩, 0x100000, 0x8, 0x202, 0⟩

/-- One process creates another. -/
private theorem created : ∃ ls m, Runs Machine.Step (.boot booted) ls m ∧ m.running = some 0 ∧
    m.stackOf 0 = some firstStack ∧ m.stackOf 1 = some secondStack ∧ m.cpu.rsp = 0x2000 := by
  have none := Machine.Step.create (m := .boot booted) 0 firstStack rfl (fun eq => nomatch eq)
    (by decide)
    (fun a low high => ⟨fun ⟨_, _, eq, _⟩ => (nomatch eq), fun has =>
      absurd (Nat.lt_of_le_of_lt low has.2) (by decide)⟩)
    (fun _ _ eq => nomatch eq) (fun _ _ eq => nomatch eq) (by decide) (by decide)
  have one := (Runs.none.more none).more (.start 0 rfl (fun eq => nomatch eq))
  have two :=
    one.more (.work ⟨⟨fun _ => 0x4000, 0x2000, _⟩, 0, 0, 0, 0⟩ rfl rfl (by decide) fun _ _ => rfl)
  -- Nothing but the running process is there.
  have alone : ∀ q t, Function.update (fun _ => Option.none) 0 (some firstStack) q = some t →
      q = 0 ∧ t = firstStack := by
    intro q t eq
    by_cases zero : q = 0
    · subst zero
      exact ⟨rfl, (Option.some.inj eq).symm⟩
    · rw [Function.update_of_ne zero] at eq
      cases eq
  have three := two.more <| .create 1 secondStack rfl (fun eq => nomatch eq) (by decide)
    (fun a low high => ⟨fun ⟨q, t, eq, away, _⟩ => away (congrArg some (alone q t eq).1.symm),
      fun has => absurd (Nat.lt_of_le_of_lt has.1 high) (by decide)⟩)
    (fun q t eq a has has' => absurd (Nat.lt_of_le_of_lt has.1 ((alone q t eq).2 ▸ has'.2))
      (by decide))
    (fun p t _ eq => le_of_eq_of_le (congrArg Stack.limit (alone p t eq).2)
      (by decide : firstStack.limit ≤ 0x2000 - 16)) (by decide) (by decide)
  exact ⟨_, _, three, rfl, rfl, rfl, rfl⟩

end Two

/-- Whatever is run in whatever order, each process sees registers and words of its own in every
state, and a process that goes on loses the lowest byte of `rax`. The frames of an interrupted
process and of a new one are what `popGpr` and `iretq` take apart. -/
theorem interrupts_refine {cpu : Cpu} {states : List (Label × Machine)} {m : Machine}
    (run : Traces Machine.Step (.boot cpu) states m) :
    (∃ states' a, Traces Processes.Step .none states' a ∧ Refines m a ∧
      List.Forall₂ (fun x y => x.1 = y.1 ∧ Refines x.2 y.2) states states') ∧
    (∀ (c : Cpu) (handler : Nat), 175 ≤ c.rsp →
      Resumable (c.interrupt handler).pushGpr.mem (c.interrupt handler).pushGpr.rsp c.context) ∧
    ∀ c : Cpu, 16 ≤ c.rsp → 160 ≤ c.regs .rcx →
      (c.rsp ≤ c.regs .rcx - 160 ∨ c.regs .rcx ≤ c.rsp - 16) →
      Resumable c.initializeProcessStack.mem (c.initializeProcessStack.regs .rax)
        (Context.new (c.regs .rdi) (c.regs .rsi) (c.regs .rdx) (c.regs .rcx)) := by
  refine ⟨(boot_refines cpu).traces run, fun c handler room => ?_, fun c room room' apart => ?_⟩
  · obtain ⟨rsp, frame, -⟩ := interrupt_saves handler room
    rw [rsp]
    exact frame_resumable frame
  · obtain ⟨context, frame, -⟩ := initializeProcessStack_frame room room' apart
    have rax : c.initializeProcessStack.regs .rax = c.regs .rcx - 160 := by
      have regs : c.initializeProcessStack.regs = _ := congrArg Context.regs context
      rw [regs]
      rfl
    rw [rax]
    exact frame_resumable frame

/-- One process creates another, and a tick gives the processor to that one. -/
theorem interrupts_refine_two : ∃ states states' m a, Traces Machine.Step (.boot booted) states m ∧
    m.stackOf 0 = some firstStack ∧ m.stackOf 1 = some secondStack ∧ m.running = some 1 ∧
    Traces Processes.Step .none states' a ∧ Refines m a ∧
    List.Forall₂ (fun x y => x.1 = y.1 ∧ Refines x.2 y.2) states states' := by
  obtain ⟨ls, m, run, running, stack, stack', rsp⟩ := created
  obtain ⟨states, before, -⟩ := run.traces
  obtain ⟨m', tick, running', same⟩ := Machine.can_tick (q := 1) running stack (rsp ▸ by decide)
    (fun none => nomatch stack'.symm.trans none)
  have all := before.more tick
  obtain ⟨⟨states', a, runs, refines, each⟩, -⟩ := interrupts_refine all
  exact ⟨_, states', m', a, all, same ▸ stack, same ▸ stack', running', runs, refines, each⟩

/-! ### Away and back -/

section Away

variable {m m' : Machine} {a a' : Processes} {p q : Nat} {x : Process} {s : Stack} {l : Label}
    {ls : List Label}

theorem Label.resumes.lives (goes : l.resumes q) : ¬ l.destroys p := by
  cases l with
  | start | tick | switch => exact id
  | create | work | key | destroy => exact goes.elim

/-- Resuming one process leaves the others as they are, -/
theorem Processes.eoi_away (process : a.process p = some x) (ne : q ≠ p) :
    (a.eoi q).running ≠ some p ∧ (a.eoi q).process p = some x := by
  have ne : ¬ some q = some p := fun eq => ne (Option.some.inj eq)
  exact ⟨ne, (if_neg ne).trans process⟩

/-- whichever step it is that resumes it. -/
theorem Processes.Step.leaves (step : a.Step l a') (process : a.process p = some x)
    (goes : l.resumes q) (ne : q ≠ p) : a'.running ≠ some p ∧ a'.process p = some x := by
  cases step with
  | start | tick | switch => exact Processes.eoi_away process (goes ▸ ne)
  | create | work | key | destroy => exact goes.elim

/-- A process that is not running is left alone. -/
theorem Processes.Step.away (step : a.Step l a') (away : a.running ≠ some p)
    (process : a.process p = some x)
    (stays : ¬ l.resumes p) (lives : ¬ l.destroys p) : a'.running ≠ some p ∧
      a'.process p = some x := by
  cases step with
  | create q argc argv rip start words new given =>
      have ne : p ≠ q := fun eq => nomatch (eq ▸ new).symm.trans process
      exact ⟨away, (Function.update_of_ne ne _ _).trans ((if_neg away).trans process)⟩
  | start => exact eoi_away process stays
  | work y running =>
      have ne : p ≠ _ := fun eq => away (eq ▸ running)
      exact ⟨away, (Function.update_of_ne ne _ _).trans process⟩
  | tick => exact eoi_away process stays
  | switch => exact eoi_away process stays
  | key => exact ⟨away, (if_neg away).trans process⟩
  | destroy q =>
      have ne : p ≠ q := fun eq => lives eq.symm
      exact ⟨away, (Function.update_of_ne ne _ _).trans process⟩

/-- A process that does not run keeps its registers and its words, until it is resumed or
destroyed. -/
theorem Runs.away (run : Runs Processes.Step a ls a') (away : a.running ≠ some p)
    (process : a.process p = some x)
    (stays : ∀ l ∈ ls, ¬ l.resumes p ∧ ¬ l.destroys p) : a'.running ≠ some p ∧
      a'.process p = some x := by
  induction run with
  | none => exact ⟨away, process⟩
  | more _ last ih =>
      obtain ⟨there, here⟩ := List.forall_mem_append.mp stays
      obtain ⟨away', process'⟩ := ih there
      obtain ⟨stays', lives⟩ := here _ (List.mem_singleton_self _)
      exact last.away away' process' stays' lives

/-- When it is resumed it goes on with them. -/
theorem Processes.Step.resumes (step : a.Step l a') (process : a.process p = some x)
    (goes : l.resumes p) :
    a'.running = some p ∧ a'.process p = some { x with context := x.context.eoi } := by
  have back : (a.eoi p).running = some p ∧
      (a.eoi p).process p = some { x with context := x.context.eoi } :=
    ⟨rfl, (if_pos rfl).trans (congrArg (Option.map _) process)⟩
  cases step with
  | start | tick | switch => exact goes ▸ back
  | create | work | key | destroy => exact goes.elim

/-- A process keeps its stack. -/
theorem Machine.Step.stackOf (step : m.Step l m') (stack : m.stackOf p = some s)
    (lives : ¬ l.destroys p) : m'.stackOf p = some s := by
  cases step with
  | create q t new =>
      have ne : p ≠ q := fun eq => nomatch (eq ▸ new).symm.trans stack
      exact (Function.update_of_ne ne _ _).trans stack
  | destroy q =>
      have ne : p ≠ q := fun eq => lives eq.symm
      exact (Function.update_of_ne ne _ _).trans stack
  | start | work | tick | switch | key => exact stack

/-- A process keeps its stack as long as it is not destroyed. -/
theorem Runs.stackOf (run : Runs Machine.Step m ls m') (stack : m.stackOf p = some s)
    (lives : ∀ l ∈ ls, ¬ l.destroys p) : m'.stackOf p = some s := by
  induction run with
  | none => exact stack
  | more _ last ih =>
      obtain ⟨there, here⟩ := List.forall_mem_append.mp lives
      exact last.stackOf (ih there) (here _ (List.mem_singleton_self _))

end Away

/-- A process that is interrupted, and that goes on after any steps of the others, finds its
registers but for the lowest byte of `rax`, and the words above its stack pointer. -/
theorem resumed_as_left {cpu : Cpu} {ls ls' : List Label} {m m₁ m₂ m₃ : Machine} {p q : Nat}
    {s : Stack} {l l' : Label}
    (before : Runs Machine.Step (.boot cpu) ls m) (running : m.running = some p)
    (stack : m.stackOf p = some s) (leaves : m.Step l m₁) (other : l.resumes q) (ne : q ≠ p)
    (between : Runs Machine.Step m₁ ls' m₂) (away : ∀ l ∈ ls', ¬ l.resumes p ∧ ¬ l.destroys p)
    (back : m₂.Step l' m₃) (goes : l'.resumes p) :
    m₃.running = some p ∧ m₃.cpu.context = m.cpu.context.eoi ∧
      ∀ a, s.Owns m.cpu.rsp a → m₃.cpu.mem a = m.cpu.mem a := by
  obtain ⟨a, -, refines⟩ := (boot_refines cpu).runs before
  obtain ⟨x, process⟩ := refines.process_some stack
  have here := refines.current p s x running stack process
  obtain ⟨a₁, step₁, refines₁⟩ := refines.step leaves
  obtain ⟨a₂, run, refines₂⟩ := refines₁.runs between
  obtain ⟨a₃, step₃, refines₃⟩ := refines₂.step back
  -- The process itself does not change before it goes on.
  obtain ⟨away₁, process₁⟩ := step₁.leaves process other ne
  obtain ⟨-, process₂⟩ := run.away away₁ process₁ away
  obtain ⟨running₃, process₃⟩ := step₃.resumes process₂ goes
  have stack₁ : m₁.stackOf p = some s := leaves.stackOf stack other.lives
  have stack₂ : m₂.stackOf p = some s := between.stackOf stack₁ fun l mem => (away l mem).2
  have stack₃ : m₃.stackOf p = some s := back.stackOf stack₂ goes.lives
  have running₃ : m₃.running = some p := refines₃.running.trans running₃
  have there := refines₃.current p s _ running₃ stack₃ process₃
  have context : m₃.cpu.context = m.cpu.context.eoi := by
    rw [there.context, here.context]
  have rsp : m₃.cpu.rsp = m.cpu.rsp := congrArg Context.rsp context
  refine ⟨running₃, context, fun b owns => ?_⟩
  rw [there.words b (rsp ▸ owns), here.words b owns]

theorem resumed_as_left_two : ∃ m m₃ : Machine, m.running = some 0 ∧ m₃.running = some 0 ∧
    m₃.cpu.context = m.cpu.context.eoi ∧ ∀ a, firstStack.Owns m.cpu.rsp a →
      m₃.cpu.mem a = m.cpu.mem a := by
  obtain ⟨ls, m, before, running, stack, stack', rsp⟩ := created
  obtain ⟨m₁, leaves, running₁, same⟩ := Machine.can_tick (q := 1) running stack (rsp ▸ by decide)
    (fun none => nomatch stack'.symm.trans none)
  have between :=
    Runs.none.more (Machine.Step.work { m₁.cpu with rsp := 0x4000 } running₁ (same ▸ stack')
    (Nat.le_refl 0x4000) fun _ _ => rfl)
  obtain ⟨m₃, back, -, -⟩ :=
    Machine.can_tick (m := { m₁ with cpu := { m₁.cpu with rsp := 0x4000 } }) (q := 0)
    running₁ (same ▸ stack') (by decide : secondStack.limit + 175 ≤ 0x4000)
      (same ▸ fun none => nomatch stack.symm.trans none)
  have away : ∀ l ∈ [Label.work], ¬ l.resumes 0 ∧ ¬ l.destroys 0 := fun l mem => by
    rw [List.mem_singleton.mp mem]
    exact ⟨id, id⟩
  exact ⟨m, m₃, running, resumed_as_left (q := 1) before running stack leaves rfl
    (by decide) between away back rfl⟩

end SoTp.Interrupts
