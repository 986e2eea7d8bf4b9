/-
A stack of words in memory, and registers that are pushed to it and popped from it. The words
stand at every eighth address, and the stack grows downwards.

* `pushes_words` — what was pushed stands above the stack pointer, the last one lowest.
* `pushes_above`, `pushes_below` — everything else is as it was.
* `popRegs_regs` — a register that is popped gets the word that stands there.
* `copyWords_words` — a block of words that is copied to another place.
-/

import Mathlib.Data.List.Basic
import Mathlib.Algebra.Ring.Nat
import Mathlib.Tactic.Common

namespace SoTp.Lib

/-- Registers, a stack pointer and memory. -/
structure StackMachine (R : Type) where
  regs : R → Nat
  rsp : Nat
  mem : Nat → Nat

/-- The words from an address on. -/
def Words (mem : Nat → Nat) : Nat → List Nat → Prop
  | _, [] => True
  | a, w :: ws => mem a = w ∧ Words mem (a + 8) ws

section Words

variable {mem mem' : Nat → Nat} {a : Nat} {ws ws' : List Nat}

/-- Words in two parts. -/
theorem words_append : Words mem a (ws ++ ws') ↔ Words mem a ws ∧
    Words mem (a + 8 * ws.length) ws' := by
  induction ws generalizing a with
  | nil => simp [Words]
  | cons w ws ih =>
      have behind : a + 8 + 8 * ws.length = a + 8 * (ws.length + 1) := by omega
      rw [List.cons_append, Words, Words, ih, List.length_cons, behind, and_assoc]

/-- Words stay while their memory does. -/
theorem Words.congr (words : Words mem a ws)
    (same : ∀ x, a ≤ x → x < a + 8 * ws.length → mem' x = mem x) : Words mem' a ws := by
  induction ws generalizing a with
  | nil => trivial
  | cons w ws ih =>
      rw [List.length_cons] at same
      refine ⟨?_, ih words.2 ?_⟩
      · rw [same a (Nat.le_refl a) (by omega)]
        exact words.1
      · intro x above below
        exact same x (by omega) (by omega)

theorem Words.getElem (words : Words mem a ws) {i : Nat} (lt : i < ws.length) :
    mem (a + 8 * i) = ws[i] := by
  induction ws generalizing a i with
  | nil => exact absurd lt (Nat.not_lt_zero i)
  | cons w ws ih =>
      cases i with
      | zero => exact words.1
      | succ i =>
          have behind : a + 8 * (i + 1) = a + 8 + 8 * i := by omega
          rw [behind]
          exact ih words.2 (Nat.lt_of_succ_lt_succ lt)

/-- Words copied one after another, from the first one on. -/
def copyWords (mem : Nat → Nat) (source target : Nat) : Nat → Nat → Nat
  | 0 => mem
  | n + 1 => copyWords (Function.update mem target (mem source)) (source + 8) (target + 8) n

/-- A copy changes nothing outside of its target, -/
theorem copyWords_other {source target n a : Nat} (outside : a < target ∨ target + 8 * n ≤ a) :
    copyWords mem source target n a = mem a := by
  induction n generalizing mem source target with
  | zero => rfl
  | succ n ih =>
      rw [copyWords, ih (by omega)]
      exact Function.update_of_ne (by omega) _ _

/-- and there it leaves the words, when the two are apart. -/
theorem copyWords_words {source target : Nat} (words : Words mem source ws)
    (apart : source + 8 * ws.length ≤ target ∨ target + 8 * ws.length ≤ source) :
    Words (copyWords mem source target ws.length) target ws := by
  induction ws generalizing mem source target with
  | nil => trivial
  | cons w ws ih =>
      rw [List.length_cons] at apart
      have rest : Words (Function.update mem target (mem source)) (source + 8) ws :=
        words.2.congr fun x above below => Function.update_of_ne (by omega) _ _
      refine ⟨?_, ih rest (by omega)⟩
      rw [List.length_cons, copyWords, copyWords_other (Or.inl (by omega)), Function.update_self]
      exact words.1

end Words

namespace StackMachine

variable {R : Type}

def push (s : StackMachine R) (w : Nat) : StackMachine R :=
  { s with rsp := s.rsp - 8, mem := Function.update s.mem (s.rsp - 8) w }

def pushReg (s : StackMachine R) (r : R) : StackMachine R := s.push (s.regs r)

def setReg [DecidableEq R] (s : StackMachine R) (r : R) (w : Nat) : StackMachine R :=
  { s with regs := Function.update s.regs r w }

def popReg [DecidableEq R] (s : StackMachine R) (r : R) : StackMachine R :=
  { s with regs := Function.update s.regs r (s.mem s.rsp), rsp := s.rsp + 8 }

def pushes (s : StackMachine R) (ws : List Nat) : StackMachine R := ws.foldl push s

def pushRegs (s : StackMachine R) (rs : List R) : StackMachine R := rs.foldl pushReg s

def popRegs [DecidableEq R] (s : StackMachine R) (rs : List R) : StackMachine R := rs.foldl popReg s

section Pushes

variable {s : StackMachine R} {ws : List Nat}

@[simp] theorem pushes_cons (s : StackMachine R) (w : Nat) (ws : List Nat) :
    s.pushes (w :: ws) = (s.push w).pushes ws := rfl

@[simp] theorem pushes_regs (s : StackMachine R) (ws : List Nat) : (s.pushes ws).regs = s.regs := by
  induction ws generalizing s with
  | nil => rfl
  | cons w ws ih => exact ih (s.push w)

/-- Pushing in two parts. -/
theorem pushes_append (s : StackMachine R) (ws ws' : List Nat) :
    s.pushes (ws ++ ws') = (s.pushes ws).pushes ws' :=
  List.foldl_append

@[simp] theorem pushes_rsp (s : StackMachine R) (ws : List Nat) :
    (s.pushes ws).rsp = s.rsp - 8 * ws.length := by
  induction ws generalizing s with
  | nil => rfl
  | cons w ws ih =>
      have lower : (s.push w).rsp = s.rsp - 8 := rfl
      rw [pushes_cons, ih, lower, List.length_cons]
      omega

/-- Pushing changes words below the stack pointer only. -/
theorem pushes_above {a : Nat} (room : 8 * ws.length ≤ s.rsp) (above : s.rsp ≤ a) :
    (s.pushes ws).mem a = s.mem a := by
  induction ws generalizing s with
  | nil => rfl
  | cons w ws ih =>
      rw [List.length_cons] at room
      have lower : (s.push w).rsp = s.rsp - 8 := rfl
      rw [pushes_cons, ih (by omega) (by omega)]
      exact Function.update_of_ne (by omega) _ _

/-- Nothing below the new top is written, -/
theorem pushes_below {a : Nat} (room : 8 * ws.length ≤ s.rsp) (below : a < s.rsp - 8 * ws.length) :
    (s.pushes ws).mem a = s.mem a := by
  induction ws generalizing s with
  | nil => rfl
  | cons w ws ih =>
      rw [List.length_cons] at room below
      have lower : (s.push w).rsp = s.rsp - 8 := rfl
      rw [pushes_cons, ih (by omega) (by omega)]
      exact Function.update_of_ne (by omega) _ _

/-- and above it are the words, the last one first. -/
theorem pushes_words (room : 8 * ws.length ≤ s.rsp) :
    Words (s.pushes ws).mem (s.rsp - 8 * ws.length) ws.reverse := by
  induction ws generalizing s with
  | nil => trivial
  | cons w ws ih =>
      rw [List.length_cons] at room ⊢
      have lower : (s.push w).rsp = s.rsp - 8 := rfl
      have lowest : s.rsp - 8 * (ws.length + 1) = (s.push w).rsp - 8 * ws.length := by omega
      have top : (s.push w).rsp - 8 * ws.length + 8 * ws.reverse.length = s.rsp - 8 := by
        rw [List.length_reverse]
        omega
      rw [List.reverse_cons, lowest, pushes_cons, words_append, top]
      refine ⟨ih (by omega), ?_, trivial⟩
      rw [pushes_above (by omega) (Nat.le_of_eq lower)]
      exact Function.update_self _ _ _

/-- Pushing registers pushes what they hold. -/
theorem pushRegs_eq (s : StackMachine R) (rs : List R) :
    s.pushRegs rs = s.pushes (rs.map s.regs) := by
  induction rs generalizing s with
  | nil => rfl
  | cons r rs ih => exact ih (s.pushReg r)

end Pushes

section Pops

variable [DecidableEq R] {s : StackMachine R} {rs : List R} {v : R → Nat} {r : R}

@[simp] theorem popRegs_cons (s : StackMachine R) (r : R) (rs : List R) :
    s.popRegs (r :: rs) = (s.popReg r).popRegs rs := rfl

@[simp] theorem popRegs_mem (s : StackMachine R) (rs : List R) : (s.popRegs rs).mem = s.mem := by
  induction rs generalizing s with
  | nil => rfl
  | cons r rs ih => exact ih (s.popReg r)

@[simp] theorem popRegs_rsp (s : StackMachine R) (rs : List R) :
    (s.popRegs rs).rsp = s.rsp + 8 * rs.length := by
  induction rs generalizing s with
  | nil => rfl
  | cons r rs ih =>
      have higher : (s.popReg r).rsp = s.rsp + 8 := rfl
      rw [popRegs_cons, ih, higher, List.length_cons]
      omega

/-- Popping changes the registers it names only. -/
theorem popRegs_other (other : r ∉ rs) : (s.popRegs rs).regs r = s.regs r := by
  induction rs generalizing s with
  | nil => rfl
  | cons q rs ih =>
      rw [List.mem_cons, not_or] at other
      rw [popRegs_cons, ih other.2]
      exact Function.update_of_ne other.1 _ _

/-- A register that is popped once gets its word. -/
theorem popRegs_regs (distinct : rs.Nodup) (words : Words s.mem s.rsp (rs.map v)) (mem : r ∈ rs) :
    (s.popRegs rs).regs r = v r := by
  induction rs generalizing s with
  | nil => cases mem
  | cons q rs ih =>
      rw [List.nodup_cons] at distinct
      rw [popRegs_cons]
      rcases List.mem_cons.mp mem with rfl | mem
      · rw [popRegs_other distinct.1]
        exact (Function.update_self _ _ _).trans words.1
      · exact ih distinct.2 words.2 mem

end Pops

end StackMachine

end SoTp.Lib
