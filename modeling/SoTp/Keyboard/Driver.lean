/-
The keyboard driver (`Kernel/c/keyboard.c`, `Kernel/include/layouts.h`). A key press is a scan code
that `readKeyToBuffer` reads; what it does besides keeping the modifiers is its output. The layout
is one of the two values of its enumeration.

What happened before a key counts only by the modifiers that are held, by the caps lock and by the
layout, and each of these is read off the history here.

* `history_decides` — the state of the driver after any history.
* `key_means` — what a key does after any history.
-/

import Mathlib.Data.List.GetD
import Mathlib.Data.List.Induction
import Mathlib.Tactic.Common

namespace SoTp.Keyboard

/-! ### Layouts -/

inductive KbLayout where
  | qwertyLatam
  | qwertyUs
deriving DecidableEq

def LAYOUT_SIZE : Nat := 0x57

def nul : Char := '\x00'

def layoutMaps : KbLayout → List Char
  | .qwertyLatam => [
      nul, '\x1b',
      '1', '2', '3', '4', '5', '6', '7', '8', '9', '0',
      '\x27', nul, '\x08', '\t',
      'q', 'w', 'e', 'r', 't', 'y', 'u', 'i', 'o', 'p',
      nul, '+', '\n', nul,
      'a', 's', 'd', 'f', 'g', 'h', 'j', 'k', 'l',
      nul, '\x7b', nul, nul, '\x7d',
      'z', 'x', 'c', 'v', 'b', 'n', 'm',
      ',', '.', '-', nul, nul, nul, ' ', nul, nul, nul, nul, nul, nul, nul,
      nul, nul, nul, nul, nul, nul, nul, nul, nul, nul, nul, nul, nul,
      nul, nul, nul, nul, nul, nul, nul, nul, '<']
  | .qwertyUs => [
      nul, '\x1b',
      '1', '2', '3', '4', '5', '6', '7', '8', '9', '0',
      '-', '=', '\x08', '\t',
      'q', 'w', 'e', 'r', 't', 'y', 'u', 'i', 'o', 'p',
      '[', ']', '\n', nul,
      'a', 's', 'd', 'f', 'g', 'h', 'j', 'k', 'l',
      ';', '\x27', nul, nul, nul,
      'z', 'x', 'c', 'v', 'b', 'n', 'm',
      ',', '.', '/', nul, nul, nul, ' ', nul, nul, nul, nul, nul, nul, nul,
      nul, nul, nul, nul, nul, nul, nul, nul, nul, nul, nul, nul, nul,
      nul, nul, nul, nul, nul, nul, nul, nul, nul]

def layoutShiftMaps : KbLayout → List Char
  | .qwertyLatam => [
      nul, '\x1b',
      '!', '\x22', '#', '$', '%', '&', '/', '(', ')', '=',
      '?', nul, '\x08', '\t',
      'Q', 'W', 'E', 'R', 'T', 'Y', 'U', 'I', 'O', 'P',
      nul, '*', '\n', nul,
      'A', 'S', 'D', 'F', 'G', 'H', 'J', 'K', 'L',
      nul, '[', nul, nul, ']',
      'Z', 'X', 'C', 'V', 'B', 'N', 'M',
      ';', ':', '_', nul, nul, nul, ' ', nul, nul, nul, nul, nul, nul, nul,
      nul, nul, nul, nul, nul, nul, nul, nul, nul, nul, nul, nul, nul,
      nul, nul, nul, nul, nul, nul, nul, nul, '>']
  | .qwertyUs => [
      nul, '\x1b',
      '!', '@', '#', '$', '%', '^', '&', '*', '(', ')',
      '_', '+', '\x08', '\t',
      'Q', 'W', 'E', 'R', 'T', 'Y', 'U', 'I', 'O', 'P',
      '\x7b', '\x7d', '\n', nul,
      'A', 'S', 'D', 'F', 'G', 'H', 'J', 'K', 'L',
      ':', '\x22', nul, nul, nul,
      'Z', 'X', 'C', 'V', 'B', 'N', 'M',
      '<', '>', '?', nul, nul, nul, ' ', nul, nul, nul, nul, nul, nul, nul,
      nul, nul, nul, nul, nul, nul, nul, nul, nul, nul, nul, nul, nul,
      nul, nul, nul, nul, nul, nul, nul, nul, nul]

/-! ### The driver -/

def LEFT_SHIFT : UInt8 := 0x2A

def RIGHT_SHIFT : UInt8 := 0x36

def CTRL : UInt8 := 0x1D

def ALT : UInt8 := 0x38

def CAPS_LOCK : UInt8 := 0x3A

/-- `(char)-1`. -/
def EOF : UInt8 := 0xFF

structure ModifierKeys where
  leftShiftPressed : Bool
  rightShiftPressed : Bool
  ctrlPressed : Bool
  altPressed : Bool
  capsLockActive : Bool
deriving DecidableEq

/-- What the driver does with a key. -/
inductive Output where
  | writeStdin (c : UInt8)
  | killCurrentProcessInForeground
deriving DecidableEq

structure Driver where
  kbLayout : KbLayout
  md : ModifierKeys
deriving DecidableEq

/-- The static variables as they are at first. -/
def Driver.initial : Driver := ⟨.qwertyLatam, ⟨false, false, false, false, false⟩⟩

def Driver.setLayout (d : Driver) (kbLayout : KbLayout) : Driver := { d with kbLayout }

/-- The character of a code, with the caps lock as good as a shift. -/
def Driver.character (d : Driver) (code : UInt8) : Char :=
  if d.md.capsLockActive != (d.md.leftShiftPressed || d.md.rightShiftPressed) then
    (layoutShiftMaps d.kbLayout).getD code.toNat nul
  else (layoutMaps d.kbLayout).getD code.toNat nul

/-- The default case of `readKeyToBuffer`. -/
def Driver.otherKey (d : Driver) (code : UInt8) : Option Output :=
  if LAYOUT_SIZE ≤ code.toNat then none
  else
    let c := d.character code
    if c = nul then none
    else if d.md.ctrlPressed then
      if c = 'C' ∨ c = 'c' then some .killCurrentProcessInForeground
      else if c = 'D' ∨ c = 'd' then some (.writeStdin EOF)
      else some (.writeStdin (UInt8.ofNat c.toNat))
    else some (.writeStdin (UInt8.ofNat c.toNat))

def Driver.readKeyToBuffer (d : Driver) (code : UInt8) : Driver × Option Output :=
  if code = LEFT_SHIFT then ({ d with md := { d.md with leftShiftPressed := true } }, none)
  else if code =
    LEFT_SHIFT + 0x80 then ({ d with md := { d.md with leftShiftPressed := false } }, none)
  else if code = RIGHT_SHIFT then ({ d with md := { d.md with rightShiftPressed := true } }, none)
  else if code =
    RIGHT_SHIFT + 0x80 then ({ d with md := { d.md with rightShiftPressed := false } }, none)
  else if code = CTRL then ({ d with md := { d.md with ctrlPressed := true } }, none)
  else if code = CTRL + 0x80 then ({ d with md := { d.md with ctrlPressed := false } }, none)
  else if code = ALT then ({ d with md := { d.md with altPressed := true } }, none)
  else if code = ALT + 0x80 then ({ d with md := { d.md with altPressed := false } }, none)
  else if code =
    CAPS_LOCK then ({ d with md := { d.md with capsLockActive := !d.md.capsLockActive } }, none)
  else (d, d.otherKey code)

/-! ### Histories -/

inductive Input where
  | scan (code : UInt8)
  | setLayout (kbLayout : KbLayout)
deriving DecidableEq

def Driver.step (d : Driver) : Input → Driver
  | .scan code => (d.readKeyToBuffer code).1
  | .setLayout kbLayout => d.setLayout kbLayout

/-- The driver after a history. -/
def Driver.after (history : List Input) : Driver := history.foldl step initial

/-- The key was pressed, and not released since then. -/
def held (code : UInt8) (history : List Input) : Bool :=
  (history.filter fun i => i = .scan code ∨ i = .scan (code + 0x80)).getLast? = some (.scan code)

/-- The key was pressed an odd number of times. -/
def toggled (code : UInt8) (history : List Input) : Bool := history.count (.scan code) % 2 = 1

def Input.layout : Input → Option KbLayout
  | .setLayout kbLayout => some kbLayout
  | .scan _ => none

/-- The last layout that was set. -/
def layoutOf (history : List Input) : KbLayout :=
  (history.filterMap Input.layout).getLast?.getD .qwertyLatam

/-- Whether the characters are those with shift. -/
def shifted (history : List Input) : Bool :=
  toggled CAPS_LOCK history != (held LEFT_SHIFT history || held RIGHT_SHIFT history)

def legend (kbLayout : KbLayout) (shifted : Bool) (code : UInt8) : Char :=
  (if shifted then layoutShiftMaps kbLayout else layoutMaps kbLayout).getD code.toNat nul

/-- What a key is for, with the modifiers that matter. -/
def meaning (kbLayout : KbLayout) (shifted ctrl : Bool) (code : UInt8) : Option Output :=
  let c := legend kbLayout shifted code
  if c = nul then none
  else if ctrl = true ∧ (c = 'C' ∨ c = 'c') then some .killCurrentProcessInForeground
  else if ctrl = true ∧ (c = 'D' ∨ c = 'd') then some (.writeStdin EOF)
  else some (.writeStdin (UInt8.ofNat c.toNat))

/-- The codes with a case of their own. -/
def modifierCodes : List UInt8 :=
  [LEFT_SHIFT, LEFT_SHIFT + 0x80, RIGHT_SHIFT, RIGHT_SHIFT + 0x80, CTRL, CTRL + 0x80, ALT,
    ALT + 0x80, CAPS_LOCK]

/-- A modifier after one more key. -/
def pressed (key code : UInt8) (before : Bool) : Bool :=
  if code = key then true else if code = key + 0x80 then false else before

section Histories

variable {d : Driver} {kbLayout : KbLayout} {code key : UInt8} {history : List Input} {i : Input}

/-- One input more. -/
theorem after_append (history : List Input) (i : Input) :
    Driver.after (history ++ [i]) = (Driver.after history).step i :=
  List.foldl_append

/-- A key is held from its press to its release. -/
theorem held_scan (apart : key ≠ key + 0x80) : held key (history ++ [.scan code]) =
    pressed key code (held key history) := by
  unfold held pressed
  rw [List.filter_append]
  by_cases here : code = key
  · subst here
    simp
  · by_cases gone : code = key + 0x80
    · subst gone
      simp [here]
    · simp [here, gone]

@[simp] theorem held_setLayout : held key (history ++ [.setLayout kbLayout]) =
    held key history := by
  simp [held]

/-- A lock is toggled by each press of its key. -/
theorem toggled_scan : toggled key (history ++ [.scan code]) = if code =
    key then !toggled key history else toggled key history := by
  unfold toggled
  rw [List.count_append]
  by_cases here : code = key
  · subst here
    rw [if_pos rfl, List.count_singleton_self, ← decide_not, decide_eq_decide]
    omega
  · have other : List.count (Input.scan key) [.scan code] = 0 := by simp [here]
    rw [if_neg here, other, Nat.add_zero]

@[simp] theorem toggled_setLayout : toggled key (history ++ [.setLayout kbLayout]) =
    toggled key history := by
  simp [toggled]

@[simp] theorem layoutOf_scan : layoutOf (history ++ [.scan code]) = layoutOf history := by
  simp [layoutOf, Input.layout]

@[simp] theorem layoutOf_setLayout : layoutOf (history ++ [.setLayout kbLayout]) = kbLayout := by
  simp [layoutOf, Input.layout]

/-- Each modifier is kept by codes of its own, and they have no output. -/
theorem readKeyToBuffer_eq (d : Driver) (code : UInt8) : d.readKeyToBuffer code =
    ({ d with
      md :=
        ⟨pressed LEFT_SHIFT code d.md.leftShiftPressed,
          pressed RIGHT_SHIFT code d.md.rightShiftPressed,
        pressed CTRL code d.md.ctrlPressed, pressed ALT code d.md.altPressed,
        if code = CAPS_LOCK then !d.md.capsLockActive else d.md.capsLockActive⟩ },
      if code ∈ modifierCodes then none else d.otherKey code) := by
  unfold Driver.readKeyToBuffer pressed
  by_cases left : code = LEFT_SHIFT
  · subst left
    rfl
  by_cases left' : code = LEFT_SHIFT + 0x80
  · subst left'
    rfl
  by_cases right : code = RIGHT_SHIFT
  · subst right
    rfl
  by_cases right' : code = RIGHT_SHIFT + 0x80
  · subst right'
    rfl
  by_cases ctrl : code = CTRL
  · subst ctrl
    rfl
  by_cases ctrl' : code = CTRL + 0x80
  · subst ctrl'
    rfl
  by_cases alt : code = ALT
  · subst alt
    rfl
  by_cases alt' : code = ALT + 0x80
  · subst alt'
    rfl
  by_cases caps : code = CAPS_LOCK
  · subst caps
    rfl
  have other : code ∉ modifierCodes := by
    simp only [modifierCodes, List.mem_cons, List.not_mem_nil, left, left', right, right', ctrl,
      ctrl', alt, alt', caps, or_self, not_false_eq_true]
  simp only [left, left', right, right', ctrl, ctrl', alt, alt', caps, other, if_false]

/-- The modifiers and the layout, read off the history. -/
theorem history_decides (history : List Input) : Driver.after history = ⟨layoutOf history,
    ⟨held LEFT_SHIFT history, held RIGHT_SHIFT history, held CTRL history, held ALT history,
      toggled CAPS_LOCK history⟩⟩ := by
  induction history using List.reverseRecOn with
  | nil => rfl
  | append_singleton history i ih =>
      rw [after_append, ih]
      cases i with
      | scan code =>
          rw [held_scan (by decide), held_scan (by decide), held_scan (by decide),
            held_scan (by decide), toggled_scan, layoutOf_scan]
          exact congrArg Prod.fst (readKeyToBuffer_eq _ _)
      | setLayout kbLayout => simp [Driver.step, Driver.setLayout]

/-- A key that keeps a modifier has no character. -/
theorem legend_modifier (kbLayout : KbLayout) (shifted : Bool) :
    ∀ code ∈ modifierCodes, legend kbLayout shifted code = nul := by
  cases kbLayout <;> cases shifted <;> decide +kernel

/-- No key beyond the layout has a legend, -/
theorem legend_beyond (kbLayout : KbLayout) (shifted : Bool) (beyond : LAYOUT_SIZE ≤ code.toNat) :
    legend kbLayout shifted code = nul := by
  have length : (if shifted then layoutShiftMaps kbLayout else layoutMaps kbLayout).length =
      LAYOUT_SIZE := by
    cases kbLayout <;> cases shifted <;> rfl
  exact List.getD_eq_default _ _ (Nat.le_trans (Nat.le_of_eq length) beyond)

/-- and one without a legend has no meaning. -/
theorem meaning_nul {ctrl shifted : Bool} (blank : legend kbLayout shifted code = nul) :
    meaning kbLayout shifted ctrl code = none :=
  if_pos blank

/-- The character is the legend of the key, shifted by the lock and the shift keys. -/
theorem character_legend (d : Driver) (code : UInt8) : d.character code =
    legend d.kbLayout (d.md.capsLockActive != (d.md.leftShiftPressed || d.md.rightShiftPressed))
      code := by
  unfold Driver.character legend
  split_ifs <;> rfl

/-- A key that is no modifier does what it means. -/
theorem otherKey_meaning (d : Driver) (code : UInt8) : d.otherKey code =
    meaning d.kbLayout (d.md.capsLockActive != (d.md.leftShiftPressed || d.md.rightShiftPressed))
      d.md.ctrlPressed code := by
  unfold Driver.otherKey
  rw [character_legend]
  by_cases beyond : LAYOUT_SIZE ≤ code.toNat
  · rw [if_pos beyond, meaning_nul (legend_beyond _ _ beyond)]
  · rw [if_neg beyond]
    unfold meaning
    cases d.md.ctrlPressed <;> simp

/-- Whatever was typed before, a key does what its legend says, with shift when exactly one of caps
lock and the shift keys is on. -/
theorem key_means (history : List Input) (code : UInt8) :
    ((Driver.after history).readKeyToBuffer code).2 =
      meaning (layoutOf history) (shifted history) (held CTRL history) code := by
  rw [readKeyToBuffer_eq, otherKey_meaning, history_decides]
  by_cases modifier : code ∈ modifierCodes
  · rw [if_pos modifier, meaning_nul (legend_modifier _ _ code modifier)]
  · rw [if_neg modifier]
    rfl

/-- Backspace, tab, newline, escape, and what can be seen. -/
def Text (b : UInt8) : Prop := b ∈ [0x08, 0x09, 0x0A, 0x1B] ∨ 0x20 ≤ b ∧ b < 0x7F

instance (b : UInt8) : Decidable (Text b) := by
  unfold Text
  infer_instance

/-- Every legend is text, -/
theorem legend_text (kbLayout : KbLayout) (shifted : Bool) (code : UInt8) :
    legend kbLayout shifted code = nul ∨
      Text (UInt8.ofNat (legend kbLayout shifted code).toNat) := by
  have maps : (if shifted then layoutShiftMaps kbLayout else layoutMaps kbLayout).all
      (fun c => c = nul ∨ Text (UInt8.ofNat c.toNat)) = true := by
    cases kbLayout <;> cases shifted <;> decide +kernel
  unfold legend
  rw [List.getD_eq_getElem?_getD]
  cases found :
    (if shifted then layoutShiftMaps kbLayout else layoutMaps kbLayout)[code.toNat]? with
  | none => exact Or.inl rfl
  | some c => exact of_decide_eq_true (List.all_eq_true.mp maps c (List.mem_of_getElem? found))

/-- so every byte a key stores is text or the end of file. -/
theorem meaning_text {ctrl shifted : Bool} {c : UInt8}
    (writes : meaning kbLayout shifted ctrl code = some (.writeStdin c)) : c = EOF ∨ Text c := by
  unfold meaning at writes
  dsimp only at writes
  split_ifs at writes with blank kill eof
  · cases writes
  · cases writes
    exact Or.inl rfl
  · cases writes
    exact Or.inr ((legend_text kbLayout shifted code).resolve_left blank)

end Histories

end SoTp.Keyboard
