/-
The registers that F1 and an exception keep (`pushState`, `popState` and the way of F1 through
`keyboardIrqHandler`, `Kernel/asm/registers.asm`, `Kernel/c/registers.c`). `readKeyCode` and
`saveRegisters` are called, so there is a return address below the stack pointer.

* `pushState_words` — the registers on the stack, in the order of `registerNames`.
* `saveRegisters_spec` — they are copied to one of the two arrays.
* `snapshot_taken` — F1 keeps what the program had, and the program goes on.
-/

import SoTp.Interrupts.Machine

namespace SoTp.Interrupts

open SoTp.Lib

def registersQuantity : Nat := 17

def registerNames : List String :=
  ["RIP", "RAX", "RBX", "RCX", "RDX", "RBP", "RSP", "RDI", "RSI", "R08", "R09", "R10", "R11", "R12",
    "R13", "R14", "R15"]

/-- `normalRegistersCode`. -/
def normalRegistersCode : Nat := 1

/-- Popped by `popState` between the instruction pointer and the stack pointer. -/
def poppedFirst : List Reg := [.rax, .rbx, .rcx, .rdx, .rbp]

/-- Popped by `popState` behind the stack pointer. -/
def poppedLast : List Reg := [.rdi, .rsi, .r8, .r9, .r10, .r11, .r12, .r13, .r14, .r15]

/-- `registerValues` for a program with these registers. -/
def Context.state (x : Context) : List Nat :=
  x.rip :: (poppedFirst.map x.regs ++ x.rsp :: poppedLast.map x.regs)

/-- `getRegisters`: the names with the values of the array. -/
def getRegisters (mem : Nat → Nat) (values : Nat) : List (String × Nat) :=
  registerNames.mapIdx fun i name => (name, mem (values + 8 * i))

namespace Cpu

/-- `pushState`: `r15` is the stack pointer that the interrupt left. -/
def pushState (c : Cpu) : Cpu :=
  let c := c.step (·.pushReg .r15)
  let c := c.setReg .r15 (c.rsp + 8)
  let c := c.step (·.pushRegs [.r14, .r13, .r12, .r11, .r10, .r9, .r8, .rsi, .rdi])
  let c := c.step (·.push (c.mem (c.regs .r15 + 24)))
  let c := c.step (·.pushRegs [.rbp, .rdx, .rcx, .rbx, .rax])
  c.step (·.push (c.mem (c.regs .r15)))

/-- `popState`: the instruction pointer and the stack pointer are popped to `r15`. -/
def popState (c : Cpu) : Cpu :=
  let c := (c.step (·.popReg .r15)).step (·.popRegs poppedFirst)
  (c.step (·.popReg .r15)).step (·.popRegs poppedLast)

/-- One turn of the loop in `saveRegisters`. -/
def copyRegister (c : Cpu) : Cpu :=
  let c := c.setReg .rdx (c.mem (c.regs .rax))
  let c := c.step fun s => { s with mem := Function.update s.mem (s.regs .rbx) (s.regs .rdx) }
  let c := c.setReg .rax (c.regs .rax + 8)
  let c := c.setReg .rbx (c.regs .rbx + 8)
  c.setReg .rcx (c.regs .rcx + 1)

/-- The loop: `rcx` counts up to `registersQuantity`. -/
def copyRegisters : Nat → Cpu → Cpu
  | 0, c => c
  | n + 1, c => copyRegisters n c.copyRegister

/-- The end of `saveRegisters`. -/
def saveRegistersEnd (c : Cpu) : Cpu :=
  let c := c.step (·.popRegs [.rdx, .rcx, .rbx, .rax])
  let c := (c.setRsp (c.regs .rbp)).step (·.popReg .rbp)
  c.setRsp (c.rsp + 8)

/-- A call of `saveRegisters`, with the code on the stack and the registers above it. The two
arrays are what `getRegisterValues` and `getExceptionRegisterValues` return. -/
def saveRegisters (kept : Nat → Prop) (registerValues exceptionRegisterValues back : Nat)
    (c c' : Cpu) : Prop :=
  let c := (c.step (·.push back)).step (·.pushReg .rbp)
  let c := (c.setReg .rbp c.rsp).step (·.pushRegs [.rax, .rbx, .rcx, .rdx])
  ∃ got : Cpu, Calls kept c got ∧
    got.regs .rax = (if c.mem (c.regs .rbp + 16) = normalRegistersCode then registerValues
      else exceptionRegisterValues) ∧
    let d := ((got.setReg .rbx (got.regs .rax)).setReg .rax (got.regs .rbp + 24)).setReg .rcx 0
    c' = (copyRegisters registersQuantity d).saveRegistersEnd

/-- `readKeyCode` between saving `rax` and giving it back. -/
def readKeyCode (code back : Nat) (c : Cpu) : Cpu :=
  let c := (c.step (·.pushReg .rax)).step (·.push back)
  let c := (c.setReg .rax (setAl (c.regs .rax) code)).setRsp (c.rsp + 8)
  c.step (·.popReg .rax)

/-- `keyboardIrqHandler` for F1. -/
def keyboardIrqHandler (kept : Nat → Prop) (registerValues exceptionRegisterValues back back' : Nat)
    (c c' : Cpu) : Prop :=
  ∃ saved : Cpu,
    saveRegisters kept registerValues exceptionRegisterValues back
      ((c.readKeyCode 0x3b back').pushState.step (·.push normalRegistersCode)) saved ∧
    c' = (saved.setRsp (saved.rsp + 8)).popState.eoi.iretq

end Cpu

section Copy

variable {c c' : Cpu} {n : Nat} {ws : List Nat} {kept : Nat → Prop}

/-- One word is copied, and both pointers go on. -/
theorem copyRegister_spec (c : Cpu) : c.copyRegister.mem = Function.update c.mem (c.regs .rbx)
    (c.mem (c.regs .rax)) ∧
    c.copyRegister.regs .rax = c.regs .rax + 8 ∧ c.copyRegister.regs .rbx = c.regs .rbx + 8 ∧
    c.copyRegister.regs .rbp = c.regs .rbp :=
  ⟨rfl, rfl, rfl, rfl⟩

/-- So `n` words are. -/
theorem copyRegisters_spec (n : Nat) (c : Cpu) :
    (Cpu.copyRegisters n c).mem = copyWords c.mem (c.regs .rax) (c.regs .rbx) n ∧
      (Cpu.copyRegisters n c).regs .rbp = c.regs .rbp := by
  induction n generalizing c with
  | zero => exact ⟨rfl, rfl⟩
  | succ n ih =>
      obtain ⟨mem, rax, rbx, rbp⟩ := copyRegister_spec c
      obtain ⟨mem', rbp'⟩ := ih c.copyRegister
      rw [Cpu.copyRegisters, mem', mem, rax, rbx, rbp', rbp]
      exact ⟨rfl, rfl⟩

/-- `saveRegisters` returns to its caller. -/
theorem saveRegistersEnd_spec (c : Cpu) :
    c.saveRegistersEnd.rsp = c.regs .rbp + 8 + 8 ∧ c.saveRegistersEnd.mem = c.mem :=
  ⟨rfl, rfl⟩

/-- The words above the code are in the array that the code chooses, and the words of the caller
are as they were. -/
theorem saveRegisters_spec {registerValues exceptionRegisterValues back target : Nat}
    (room : 48 ≤ c.rsp)
    (words : Words c.mem (c.rsp + 8) ws) (length : ws.length = registersQuantity)
    (own : ∀ a, c.rsp - 48 ≤ a → a < c.rsp + 144 → kept a)
    (target_eq : target = if c.mem c.rsp = normalRegistersCode then registerValues
      else exceptionRegisterValues)
    (apart : target + 136 ≤ c.rsp - 48 ∨ c.rsp + 144 ≤ target)
    (saves : Cpu.saveRegisters kept registerValues exceptionRegisterValues back c c') :
    c'.rsp = c.rsp ∧ Words c'.mem target ws ∧
      ∀ a, kept a → (a < c.rsp - 48 ∨ c.rsp ≤ a) → (a < target ∨ target + 136 ≤ a) →
        c'.mem a = c.mem a := by
  obtain ⟨got, called, array, rfl⟩ := saves
  -- The state at the call of the C function, with six words below those of the caller.
  generalize pushed : Cpu.step (·.pushRegs [Reg.rax, .rbx, .rcx, .rdx])
    (((c.step (·.push back)).step (·.pushReg .rbp)).setReg .rbp
      ((c.step (·.push back)).step (·.pushReg .rbp)).rsp) = e
    at called array
  have rbp : e.regs .rbp = c.rsp - 16 := by
    rw [← pushed]
    rfl
  have outside : ∀ a, a < c.rsp - 48 ∨ c.rsp ≤ a → e.mem a = c.mem a := by
    have mem : e.mem = (c.toStackMachine.pushes
        [back, c.regs .rbp, c.regs .rax, c.regs .rbx, c.regs .rcx, c.regs .rdx]).mem := by
      rw [← pushed]
      rfl
    intro a out
    rw [mem]
    rcases out with below | above
    · exact StackMachine.pushes_below room below
    · exact StackMachine.pushes_above room above
  have rbp' : got.regs .rbp = c.rsp - 16 := (called.saved .rbp (by decide)).trans rbp
  have code : e.mem (e.regs .rbp + 16) = c.mem c.rsp := by
    have here : c.rsp - 16 + 16 = c.rsp := by omega
    rw [rbp, here]
    exact outside _ (Or.inr (Nat.le_refl _))
  have array : got.regs .rax = target := by
    rw [array, code, target_eq]
  -- The state before the loop.
  generalize entered :
    ((got.setReg .rbx (got.regs .rax)).setReg .rax (got.regs .rbp + 24)).setReg .rcx 0 = d
  have source : d.regs .rax = c.rsp + 8 := by
    rw [← entered]
    show got.regs .rbp + 24 = _
    omega
  have rbx : d.regs .rbx = target := by
    rw [← entered]
    exact array
  have mem : d.mem = got.mem := by
    rw [← entered]
    rfl
  obtain ⟨copied, kept_rbp⟩ := copyRegisters_spec registersQuantity d
  rw [source, rbx, mem] at copied
  have rbp'' : d.regs .rbp = c.rsp - 16 := by
    rw [← entered]
    exact rbp'
  have words' : Words got.mem (c.rsp + 8) ws := words.congr fun a above below => by
    rw [length] at below
    have below : a < c.rsp + 8 + 8 * 17 := below
    rw [called.mem a (own a (by omega) (by omega)), outside a (Or.inr (by omega))]
  obtain ⟨left, same⟩ := saveRegistersEnd_spec (Cpu.copyRegisters registersQuantity d)
  refine ⟨?_, ?_, fun a there out away => ?_⟩
  · rw [left, kept_rbp, rbp'']
    omega
  · rw [same, copied, ← length]
    refine copyWords_words words' ?_
    rw [length]
    show c.rsp + 8 + 136 ≤ target ∨ target + 136 ≤ c.rsp + 8
    omega
  · rw [same, copied, copyWords_other away, called.mem a there, outside a out]

end Copy

section State

variable {c c' : Cpu} {x : Context} {kept : Nat → Prop}

@[simp] theorem state_length (x : Context) : x.state.length = registersQuantity := rfl

theorem push_mem (c : Cpu) (w : Nat) :
    (c.step (·.push w)).mem = Function.update c.mem (c.rsp - 8) w := rfl

/-- `pushState` leaves the state on the stack and nothing else below it. -/
theorem pushState_words (room : 136 ≤ c.rsp) (regs : c.regs = x.regs) (rip : c.mem c.rsp = x.rip)
    (rsp : c.mem (c.rsp + 24) = x.rsp) :
    c.pushState.rsp = c.rsp - 136 ∧ Words c.pushState.mem (c.rsp - 136) x.state ∧
      ∀ a, a < c.rsp - 136 ∨ c.rsp ≤ a → c.pushState.mem a = c.mem a := by
  -- What is pushed before the stack pointer, and then before the instruction pointer.
  let s : StackMachine Reg :=
    { c.toStackMachine with regs := Function.update c.regs .r15 (c.rsp - 8 + 8) }
  let ws := [c.regs .r15, c.regs .r14, c.regs .r13, c.regs .r12, c.regs .r11, c.regs .r10,
    c.regs .r9, c.regs .r8, c.regs .rsi, c.regs .rdi]
  let ws' := [c.regs .rbp, c.regs .rdx, c.regs .rcx, c.regs .rbx, c.regs .rax]
  have pushed :
      c.pushState.toStackMachine = s.pushes (ws ++ (s.pushes ws).mem (c.rsp - 8 + 8 + 24) :: ws' ++
      [(s.pushes (ws ++ (s.pushes ws).mem (c.rsp - 8 + 8 + 24) :: ws')).mem (c.rsp - 8 + 8)]) := rfl
  have base : c.rsp - 8 + 8 = c.rsp := by omega
  have fits : 8 * ws.length ≤ s.rsp := Nat.le_trans (by decide : 80 ≤ 136) room
  have fits' : 8 * (ws ++ x.rsp :: ws').length ≤ s.rsp := Nat.le_trans (by decide : 128 ≤ 136) room
  have rsp' : (s.pushes ws).mem (c.rsp - 8 + 8 + 24) = x.rsp := by
    rw [base, StackMachine.pushes_above fits (Nat.le_add_right c.rsp 24)]
    exact rsp
  have rip' : (s.pushes (ws ++ x.rsp :: ws')).mem (c.rsp - 8 + 8) = x.rip := by
    rw [base, StackMachine.pushes_above fits' (Nat.le_refl c.rsp)]
    exact rip
  have reversed : ws ++ x.rsp :: ws' ++ [x.rip] = x.state.reverse := by
    cases x
    cases regs
    rfl
  rw [rsp', rip', reversed] at pushed
  have fits : 8 * x.state.reverse.length ≤ s.rsp := room
  refine ⟨?_, ?_, fun a outside => ?_⟩
  · rw [pushed, StackMachine.pushes_rsp]
    rfl
  · have words := StackMachine.pushes_words fits
    rw [List.reverse_reverse] at words
    rw [pushed]
    exact words
  · rw [pushed]
    rcases outside with below | above
    · exact StackMachine.pushes_below fits below
    · exact StackMachine.pushes_above fits above

theorem poppedFirst_nodup : poppedFirst.Nodup := by decide

theorem poppedLast_nodup : poppedLast.Nodup := by decide

/-- Each register is popped, behind the stack pointer or before it. -/
theorem popped_cases (r : Reg) : r ∈ poppedLast ∨ r ∉ poppedLast ∧ r ≠ .r15 ∧ r ∈ poppedFirst := by
  cases r <;> decide

/-- `popState` takes the state off again. -/
theorem popState_state (words : Words c.mem c.rsp x.state) :
    c.popState.regs = x.regs ∧ c.popState.rsp = c.rsp + 136 ∧ c.popState.mem = c.mem := by
  obtain ⟨-, rest⟩ := words
  obtain ⟨first, -, last⟩ := words_append.mp rest
  -- The states between the pops.
  let s := (c.toStackMachine.popReg .r15).popRegs poppedFirst
  have mem : (s.popReg .r15).mem = c.mem := StackMachine.popRegs_mem _ _
  have rsp : s.rsp = c.rsp + 8 + 40 := StackMachine.popRegs_rsp _ _
  have last : Words (s.popReg .r15).mem (s.popReg .r15).rsp (poppedLast.map x.regs) := by
    show Words _ (s.rsp + 8) _
    rw [mem, rsp]
    exact last
  refine ⟨funext fun r => ?_, ?_, ?_⟩
  · show ((s.popReg .r15).popRegs poppedLast).regs r = x.regs r
    rcases popped_cases r with here | ⟨away, other, here⟩
    · exact StackMachine.popRegs_regs poppedLast_nodup last here
    · rw [StackMachine.popRegs_other away]
      show Function.update s.regs .r15 _ r = x.regs r
      rw [Function.update_of_ne other]
      exact StackMachine.popRegs_regs poppedFirst_nodup first here
  · show ((s.popReg .r15).popRegs poppedLast).rsp = _
    rw [StackMachine.popRegs_rsp]
    show s.rsp + 8 + 80 = _
    rw [rsp]
  · show ((s.popReg .r15).popRegs poppedLast).mem = _
    rw [StackMachine.popRegs_mem, mem]

/-- `readKeyCode` keeps the registers and writes two words below the stack. -/
theorem readKeyCode_spec (code back : Nat) (room : 16 ≤ c.rsp) :
    (c.readKeyCode code back).regs = c.regs ∧ (c.readKeyCode code back).rsp = c.rsp ∧
      ∀ a, a < c.rsp - 16 ∨ c.rsp ≤ a → (c.readKeyCode code back).mem a = c.mem a := by
  have lower : c.rsp - 8 - 8 + 8 = c.rsp - 8 := by omega
  have ne : c.rsp - 8 ≠ c.rsp - 8 - 8 := by omega
  refine ⟨funext fun r => ?_, ?_, fun a outside => ?_⟩
  · show Function.update (Function.update c.regs .rax _) .rax
      (Function.update (Function.update c.mem (c.rsp - 8) (c.regs .rax)) (c.rsp - 8 - 8) back
        (c.rsp - 8 - 8 + 8)) r = _
    rw [lower, Function.update_of_ne ne, Function.update_self, Function.update_idem,
      Function.update_eq_self]
  · show c.rsp - 8 - 8 + 8 + 8 = c.rsp
    omega
  · show Function.update (Function.update c.mem (c.rsp - 8) _) (c.rsp - 8 - 8) back a = c.mem a
    rw [Function.update_of_ne (by omega), Function.update_of_ne (by omega)]

/-- `getRegisters` gives each value under its name. -/
theorem getRegisters_words {mem : Nat → Nat} {values : Nat} {ws : List Nat}
    (words : Words mem values ws)
    (length : ws.length = registersQuantity) : getRegisters mem values = registerNames.zip ws := by
  apply List.ext_getElem
  · rw [getRegisters, List.length_mapIdx, List.length_zip, length]
    rfl
  · intro i lt lt'
    have lt : i < ws.length := by
      rw [List.length_zip] at lt'
      exact Nat.lt_of_lt_of_le lt' (Nat.min_le_right _ _)
    rw [List.getElem_zip, ← words.getElem lt]
    exact List.getElem_mapIdx

/-- A C function that keeps everything is one that can be called. -/
theorem can_save (c : Cpu) (registerValues exceptionRegisterValues back : Nat) :
    ∃ c', Cpu.saveRegisters (fun _ => True) registerValues exceptionRegisterValues back c c' := by
  let d := (c.step (·.push back)).step (·.pushReg .rbp)
  let e := (d.setReg .rbp d.rsp).step (·.pushRegs [.rax, .rbx, .rcx, .rdx])
  let array := if e.mem (e.regs .rbp + 16) = normalRegistersCode then registerValues
    else exceptionRegisterValues
  have returned : (e.setReg .rax array).regs .rax = array := rfl
  refine ⟨_, e.setReg .rax array, ⟨fun r saved => ?_, rfl, fun _ _ => rfl⟩, returned, rfl⟩
  refine Function.update_of_ne (fun eq => ?_) _ _
  rw [eq] at saved
  exact absurd saved (by decide)

/-- F1: `registerValues` gets what the interrupted program had, each register under its name, and
the program goes on with another lowest byte in `rax`. -/
theorem snapshot_taken {handler registerValues exceptionRegisterValues back back' : Nat} {s : Stack}
    {p : Process} (running : Running c s p) (room : s.limit + 247 ≤ c.rsp)
    (own : ∀ a, s.Owns (c.rsp - c.rsp % 16 - 232) a → kept a)
    (array : ∀ a, s.Has a → a < registerValues ∨ registerValues + 136 ≤ a)
    (handled : Cpu.keyboardIrqHandler kept registerValues exceptionRegisterValues back back'
      (c.interrupt handler) c') :
    getRegisters c'.mem registerValues = [("RIP", p.context.rip), ("RAX", p.context.regs .rax),
      ("RBX", p.context.regs .rbx), ("RCX", p.context.regs .rcx), ("RDX", p.context.regs .rdx),
      ("RBP", p.context.regs .rbp), ("RSP", p.context.rsp), ("RDI", p.context.regs .rdi),
      ("RSI", p.context.regs .rsi), ("R08", p.context.regs .r8), ("R09", p.context.regs .r9),
      ("R10", p.context.regs .r10), ("R11", p.context.regs .r11), ("R12", p.context.regs .r12),
      ("R13", p.context.regs .r13), ("R14", p.context.regs .r14), ("R15", p.context.regs .r15)] ∧
    Running c' s { p with context := p.context.eoi } ∧
    ∀ a, kept a → ¬ s.Has a → a < registerValues ∨ registerValues + 136 ≤ a →
      c'.mem a = c.mem a := by
  obtain ⟨saved, saves, rfl⟩ := handled
  have small : c.rsp % 16 < 16 := Nat.mod_lt _ (by decide)
  have top := running.top
  have ordered := s.ordered
  obtain ⟨start, found, outside⟩ := interrupt_pushes handler []
    (Nat.le_trans (by omega : 55 ≤ s.limit + 247) room)
  have start : (c.interrupt handler).rsp = c.rsp - c.rsp % 16 - 40 := start
  have found : Words (c.interrupt handler).mem (c.rsp - c.rsp % 16 - 40)
    [c.rip, c.cs, c.rflags, c.rsp, c.ss] := found
  have outside : ∀ a, a < c.rsp - c.rsp % 16 - 40 ∨ c.rsp ≤ a →
    (c.interrupt handler).mem a = c.mem a := outside
  generalize base : c.rsp - c.rsp % 16 - 40 = r at start found outside
  -- The key is read.
  obtain ⟨regs, rsp, same⟩ := readKeyCode_spec (c := c.interrupt handler) 0x3b back' (by omega)
  generalize (c.interrupt handler).readKeyCode 0x3b back' = k at saves regs rsp same
  rw [start] at rsp same
  have found : Words k.mem r [c.rip, c.cs, c.rflags, c.rsp, c.ss] :=
    found.congr fun a above _ => same a (Or.inr above)
  -- The registers are pushed, and the code.
  obtain ⟨rsp', words, same'⟩ :=
    pushState_words (c := k) (x := c.context) (by omega) regs (rsp ▸ found.1) (rsp ▸ found.2.2.2.1)
  rw [rsp] at rsp' words same'
  generalize pushed : k.pushState.step (·.push normalRegistersCode) = e at saves
  have rsp'' : e.rsp = r - 144 := by
    rw [← pushed]
    have lower : (k.pushState.step (·.push normalRegistersCode)).rsp = k.pushState.rsp - 8 := rfl
    omega
  have mem : e.mem = Function.update k.pushState.mem (r - 144) normalRegistersCode := by
    have lower : k.pushState.rsp - 8 = r - 144 := by omega
    rw [← pushed, ← lower]
    exact push_mem k.pushState _
  have words : Words e.mem (e.rsp + 8) c.context.state := by
    have here : e.rsp + 8 = r - 136 := by omega
    rw [here]
    refine words.congr fun a above _ => ?_
    rw [mem]
    exact Function.update_of_ne (by omega) _ _
  have code : e.mem e.rsp = normalRegistersCode := by
    rw [mem, rsp'']
    exact Function.update_self _ _ _
  have inside : ∀ a, r - 192 ≤ a → a < r → s.Has a := fun a above below => ⟨by omega, by omega⟩
  have apart : registerValues + 136 ≤ e.rsp - 48 ∨ e.rsp + 144 ≤ registerValues := by
    by_contra overlap
    have within := inside (max (r - 192) registerValues) (Nat.le_max_left _ _) (by omega)
    have away := array _ within
    omega
  have own' : ∀ a, e.rsp - 48 ≤ a → s.Has a → kept a :=
    fun a above has => own a ⟨has, Or.inr (by omega)⟩
  obtain ⟨back, copied, same''⟩ := saveRegisters_spec (by omega) words (state_length _)
    (fun a above below => own' a above (inside a (by omega) (by omega)))
    (if_pos code).symm apart saves
  -- What was there before F1 is there when the program goes on.
  have rest : ∀ a, kept a → s.Has a ∨ a < registerValues ∨ registerValues + 136 ≤ a →
      a < r - 192 ∨ r ≤ a → saved.mem a = k.mem a := by
    intro a there away out
    have away : a < registerValues ∨ registerValues + 136 ≤ a := away.elim (array a) id
    rw [same'' a there (by omega) away, mem, Function.update_of_ne (by omega)]
    exact same' a (by omega)
  have words' : Words saved.mem (saved.rsp + 8) c.context.state := by
    rw [back]
    refine words.congr fun a above below => ?_
    rw [state_length] at below
    have below : a < e.rsp + 8 + 8 * 17 := below
    have has := inside a (by omega) (by omega)
    exact same'' a (own' a (by omega) has) (Or.inr (by omega)) (array a has)
  obtain ⟨regs', start', unchanged⟩ := popState_state (c := saved.setRsp (saved.rsp + 8)) words'
  generalize (saved.setRsp (saved.rsp + 8)).popState = d at regs' start' unchanged
  have unchanged : d.mem = saved.mem := unchanged
  have start' : d.rsp = r := by
    rw [start']
    show saved.rsp + 8 + 136 = r
    omega
  have found : Words d.mem d.rsp [c.rip, c.cs, c.rflags, c.rsp, c.ss] := by
    rw [unchanged, start']
    refine found.congr fun a above below => ?_
    have below : a < r + 40 := below
    have has : s.Has a := ⟨by omega, by omega⟩
    exact rest a (own' a (by omega) has) (Or.inl has) (Or.inr above)
  have context : d.eoi.iretq.context = c.context.eoi :=
    eoi_iretq_context (x := c.context) found regs'
  have pointer : d.eoi.iretq.rsp = c.rsp := congrArg Context.rsp context
  have untouched : ∀ a, kept a → s.Has a ∨ a < registerValues ∨ registerValues + 136 ≤ a →
      a < r - 192 ∨ c.rsp ≤ a → d.eoi.iretq.mem a = c.mem a := by
    intro a there away out
    show d.mem a = c.mem a
    rw [unchanged, rest a there away (by omega), same a (by omega)]
    exact outside a (by omega)
  refine ⟨?_, ⟨?_, ?_, fun a owns => ?_⟩, fun a there other away => ?_⟩
  · show getRegisters d.mem registerValues = _
    rw [unchanged, getRegisters_words copied (state_length _), ← running.context]
    rfl
  · rw [context, running.context]
  · rw [pointer]
    exact running.top
  · rw [pointer] at owns
    have out : a < r - 192 ∨ c.rsp ≤ a := owns.2.imp_left fun lt => by omega
    have there : kept a := own a ⟨owns.1, owns.2.imp_right fun le => by omega⟩
    rw [untouched a there (Or.inl owns.1) out]
    exact running.words a owns
  · refine untouched a there (Or.inr away) ?_
    by_contra within
    exact other ⟨by omega, by omega⟩

theorem snapshot_taken_booted : ∃ c', Cpu.keyboardIrqHandler (fun _ => True) 0x9000 0xA000 0 0
      (Cpu.interrupt 0 { booted with rsp := 0x2000 }) c' ∧
    getRegisters c'.mem 0x9000 = [("RIP", 0x100000), ("RAX", 0x2000), ("RBX", 0x2000),
      ("RCX", 0x2000),
      ("RDX", 0x2000), ("RBP", 0x2000), ("RSP", 0x2000), ("RDI", 0x2000), ("RSI", 0x2000),
        ("R08", 0x2000),
      ("R09", 0x2000), ("R10", 0x2000), ("R11", 0x2000), ("R12", 0x2000), ("R13", 0x2000),
        ("R14", 0x2000),
      ("R15", 0x2000)] := by
  let c : Cpu := { booted with rsp := 0x2000 }
  have running : Running c firstStack ⟨c.context, c.mem⟩ :=
    ⟨rfl, Nat.le_refl 0x2000, fun _ _ => rfl⟩
  obtain ⟨saved, saves⟩ := can_save
    (((c.interrupt 0).readKeyCode 0x3b 0).pushState.step (·.push normalRegistersCode))
      0x9000 0xA000 0
  have handled : Cpu.keyboardIrqHandler (fun _ => True) 0x9000 0xA000 0 0 (c.interrupt 0) _ :=
    ⟨saved, saves, rfl⟩
  have low : ∀ a, firstStack.Has a → a < 0x9000 ∨ 0x9000 + 136 ≤ a := fun a has =>
    Or.inl (Nat.lt_trans has.2 (by decide))
  exact ⟨_, handled, (snapshot_taken running (by decide) (fun _ _ => trivial) low handled).1⟩

end State

end SoTp.Interrupts
