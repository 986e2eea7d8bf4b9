/-
The line editor (the loop of `shell` in `Userland/UserModule/c2/shell.c`): what each key does to
`currentCommand`, and what it prints. The characters are those of the line that the cursor is in,
which goes on over the rows of the screen until a newline.

What the processes of a command print and return is arbitrary, and so are the memory behind the
words of an entry and the answers of `compareArgv`.

* `moveToFrontOrPush_front` — what is recorded is read back first, whatever compares equal.
-/

import SoTp.Shell.Autocomplete
import SoTp.Shell.History

namespace SoTp.Shell

open SoTp.Lib

/-! ### The line of the cursor -/

/-- `'\b'`. -/
def backspace : UInt8 := 8

/-- `'\t'`. -/
def tab : UInt8 := 9

/-- `'\n'`. -/
def newline : UInt8 := 10

/-- `printChar` and `clearScreen`. -/
inductive Output where
  | char (c : UInt8)
  | clear

/-- A tab takes two spaces and the cell behind them. -/
def Output.onLine (line : List UInt8) : Output → List UInt8
  | .char c =>
      if c = backspace then line.dropLast
      else if c = newline then []
      else if c = tab then line ++ [space, space, space]
      else line ++ [c]
  | .clear => []

def shown (line : List UInt8) (outs : List Output) : List UInt8 := outs.foldl Output.onLine line

/-! ### The editor -/

def MAX_HISTORY_LEN : Nat := 20

def SUCCESS : Int := 0

def COMMAND_NOT_FOUND : Int := 3

structure LineEditor where
  currentCommand : List UInt8
  commandHistory : CircularHistoryBuffer (List Word)
  commandReturnCode : Int
  currentPromptLen : Nat
  /-- `systemInfo.fontSize`. -/
  fontSize : Int

structure Key where
  character : UInt8
  ctrlPressed : Bool

/-- What is not the shell's while it handles a key. -/
structure Surroundings where
  atLookup : Nat → List UInt8
  atRecall : Nat → List UInt8
  /-- `compareArgv` returns 0. -/
  compareArgv : List Word → List Word → Bool
  /-- What `sysWaitPid` returns. -/
  exitCode : Int
  /-- What is printed while a command is looked up and run. -/
  printed : List Output

/-- What `parseCommand` returns. -/
def Ran.code (exitCode : Int) : Ran → Int
  | .notFound => COMMAND_NOT_FOUND
  | .background _ _ => SUCCESS
  | .foreground _ _ => exitCode
  | .piped _ _ _ _ => exitCode

/-- `prompt` and `errorPrompt`. -/
def promptText (commandReturnCode : Int) : List UInt8 :=
  if commandReturnCode = 0 then [32, 62, 32] else [32, 62, 33, 32]

def wordSeps : List UInt8 := [32, 45, 46, 58, 44, 59]

/-- `strContains`, where `char` is signed. -/
def strContains (s : List UInt8) (c : UInt8) : Bool := if c = 0 ∨ 128 ≤ c then false
    else s.contains c

def toLower (c : UInt8) : UInt8 := if 65 ≤ c ∧ c ≤ 90 then c + 32 else c

def getCurrentChar (currentCommand : List UInt8) : UInt8 := currentCommand.getLast?.getD 0

/-- The loops of `deleteWord`, for a number of rounds. -/
def popWhile (goes : UInt8 → Bool) : Nat → List UInt8 → List UInt8 × List Output
  | 0, cc => (cc, [])
  | rounds + 1, cc =>
      let c := getCurrentChar cc.dropLast
      if c ≠ 0 ∧ goes c = true then
        let (cc, outs) := popWhile goes rounds cc.dropLast
        (cc, .char backspace :: outs)
      else (cc.dropLast, [.char backspace])

namespace LineEditor

variable (commands : List Word) (env : Surroundings)

def clearLine (s : LineEditor) : LineEditor × List Output :=
  ({ s with currentCommand := [] }, List.replicate s.currentCommand.length (.char backspace))

def historyCopy (argv : List Word) (s : LineEditor) : Option (LineEditor × List Output) := do
  let (s, erased) := s.clearLine
  let text ← Shell.historyCopy env.atRecall argv
  some ({ s with currentCommand := s.currentCommand ++ text }, erased ++ text.map .char)

def historyPrev (s : LineEditor) : Option (LineEditor × List Output) :=
  let (argv, commandHistory) := s.commandHistory.CHB_readPrev
  let s := { s with commandHistory }
  match argv with
  | none => some (s, [])
  | some argv => s.historyCopy env argv

def historyNext (s : LineEditor) : Option (LineEditor × List Output) :=
  let (argv, commandHistory) := s.commandHistory.CHB_readNext
  let s := { s with commandHistory }
  match argv with
  | none =>
      let (s, erased) := s.clearLine
      some ({ s with commandHistory := s.commandHistory.CHB_readRest }, erased)
  | some argv => s.historyCopy env argv

def deleteWord (s : LineEditor) : LineEditor × List Output :=
  let c := getCurrentChar s.currentCommand
  if c = 0 then (s, [])
  else
    let separates := strContains wordSeps c
    let (currentCommand, erased) :=
      popWhile (fun c => strContains wordSeps c == separates) s.currentCommand.length
        s.currentCommand
    ({ s with currentCommand }, erased)

def newPrompt (s : LineEditor) : LineEditor × List Output :=
  ({ s with currentPromptLen := if s.commandReturnCode = 0 then 3 else 4 },
    (promptText s.commandReturnCode).map .char)

def clearScreenKeepCommand (s : LineEditor) : LineEditor × List Output :=
  let (s, prompted) := s.newPrompt
  (s, .clear :: prompted ++ s.currentCommand.map .char)

/-- `setFontSize`: the kernel keeps the size it has if the new one is out of its range. -/
def setFontSize (size : Int) (s : LineEditor) : LineEditor :=
  if 1 ≤ size ∧ size ≤ 4 then { s with fontSize := size } else s

def incFont (s : LineEditor) : LineEditor × List Output :=
  (s.setFontSize (s.fontSize + 1)).clearScreenKeepCommand

def decFont (s : LineEditor) : LineEditor × List Output :=
  (s.setFontSize (s.fontSize - 1)).clearScreenKeepCommand

/-- `parseCommand`: the history, the return code, and what is printed. -/
def runCommand (s : LineEditor) : Option (CircularHistoryBuffer (List Word) × Int × List Output) :=
  match parseCommand commands env.atLookup s.currentCommand with
  | none => some (s.commandHistory, SUCCESS, [])
  | some parsed => do
      let commandHistory ← s.commandHistory.CHB_moveToFrontOrPush env.compareArgv parsed.entry
      some (commandHistory, parsed.ran.code env.exitCode, env.printed)

def enter (s : LineEditor) : Option (LineEditor × List Output) := do
  let (commandHistory, commandReturnCode, printed) ← s.runCommand commands env
  let (s, prompted) := newPrompt { s with commandHistory, commandReturnCode }
  some ({ s with currentCommand := [] }, .char newline :: printed ++ prompted)

/-- The key without Ctrl. -/
def edit (character : UInt8) (s : LineEditor) : Option (LineEditor × List Output) :=
  if character = newline then s.enter commands env
  else if character = backspace then
    if s.currentCommand.length > 0 then
      some ({ s with currentCommand := s.currentCommand.dropLast }, [.char character])
    else some (s, [])
  else if character = tab then
    let (currentCommand, printed) := Shell.autocomplete commands s.currentCommand
    some ({ s with currentCommand }, printed.map .char)
  else some ({ s with currentCommand := s.currentCommand ++ [character] }, [.char character])

/-- The key with Ctrl. -/
def control (character : UInt8) (s : LineEditor) : Option (LineEditor × List Output) :=
  let character := toLower character
  if character = 43 then some s.incFont  -- '+'
  else if character = 45 then some s.decFont  -- '-'
  else if character = 108 then some s.clearScreenKeepCommand  -- 'l'
  else if character = 119 then some s.deleteWord  -- 'w'
  else if character = 107 then s.historyPrev env  -- 'k'
  else if character = 106 then s.historyNext env  -- 'j'
  else some (s, [])

def handle (key : Key) (s : LineEditor) : Option (LineEditor × List Output) :=
  if key.ctrlPressed = true then s.control env key.character else s.edit commands env key.character

end LineEditor

/-- `shell` up to its loop. The return code is a global variable that outlives a shell, and before
the prompt the commands are listed. -/
def shell (commandReturnCode fontSize : Int) (printed : List Output) : LineEditor × List Output :=
  let (s, prompted) := LineEditor.newPrompt
    { currentCommand := [], commandHistory := CHB_initialize (List Word) MAX_HISTORY_LEN
      commandReturnCode, currentPromptLen := 0, fontSize }
  (s, .clear :: printed ++ prompted)

/-! ### The history, whatever compares equal -/

section AnyComparison

variable {α : Type} {cmp : α → α → Bool} {cb cb' : CircularHistoryBuffer α} {e : α} {a new : List α}
    {idx n : Nat}

/-- The write index is where the next element goes. -/
structure Indexed (cb : CircularHistoryBuffer α) : Prop where
  pos : 0 < cb.size
  fits : cb.array.length ≤ cb.size
  filling : cb.array.length < cb.size → cb.writeIdx = cb.array.length
  wrapped : cb.array.length = cb.size → cb.writeIdx < cb.size

/-- What is read first. -/
def CircularHistoryBuffer.front (cb : CircularHistoryBuffer α) : Option α :=
  cb.array[if cb.writeIdx = 0 then cb.array.length - 1 else cb.writeIdx - 1]?

/-- An element was recorded. -/
structure Recorded (cb : CircularHistoryBuffer α) (e : α) (cb' : CircularHistoryBuffer α) :
    Prop where
  indexed : Indexed cb'
  size : cb'.size = cb.size
  entries : ∀ x ∈ cb'.array, x = e ∨ x ∈ cb.array
  first : cb'.CHB_readPrev.1 = some e

theorem setn_inside (inside : idx < a.length) :
    ∃ b, Array_setn a idx new = some b ∧ b.length = a.length ∧ ∀ x ∈ b, x ∈ new ∨ x ∈ a := by
  have outside : ¬ idx ≥ a.length := Nat.not_le_of_lt inside
  refine ⟨_, if_neg outside, ?_, fun x mem => ?_⟩
  · rw [List.length_take, List.length_append, List.length_append, List.length_take,
      List.length_drop]
    omega
  · have whole := List.mem_of_mem_take mem
    rw [List.mem_append, List.mem_append] at whole
    rcases whole with (mem | mem) | mem
    · exact Or.inr (List.mem_of_mem_take mem)
    · exact Or.inl mem
    · exact Or.inr (List.mem_of_mem_drop mem)

/-- One element is set. -/
theorem setn_one (inside : idx < a.length) : Array_setn a idx [e] = some (a.set idx e) := by
  have outside : ¬ idx ≥ a.length := Nat.not_le_of_lt inside
  rw [Array_setn, if_neg outside, List.set_eq_take_append_cons_drop, if_pos inside]
  have length : (a.take idx ++ [e] ++ a.drop (idx + [e].length)).length = a.length := by
    simp only [List.length_append, List.length_take, List.length_cons, List.length_nil,
      List.length_drop]
    omega
  rw [← length, List.take_length]
  simp

theorem copyDown_inside (inside : idx + n < a.length) :
    ∃ b, copyDown n idx a = some b ∧ b.length = a.length ∧ ∀ x ∈ b, x ∈ a := by
  induction n generalizing idx a with
  | zero => exact ⟨a, rfl, rfl, fun _ mem => mem⟩
  | succ n ih =>
      have next : idx + 1 < a.length := by omega
      have inside' : idx + 1 + n < (a.set idx a[idx + 1]).length := by
        rw [List.length_set]
        omega
      obtain ⟨b, copied, length, mem⟩ := ih inside'
      refine ⟨b, ?_, length.trans List.length_set, fun x there => ?_⟩
      · rw [copyDown, List.getElem?_eq_getElem next]
        exact copied
      · rcases List.mem_or_eq_of_mem_set (mem x there) with old | rfl
        · exact old
        · exact List.getElem_mem next

/-- From a rest, reading back gives the newest entry. -/
theorem readPrev_rest (cb : CircularHistoryBuffer α) (some' : 0 < cb.array.length) :
    cb.CHB_readRest.CHB_readPrev.1 = cb.front := by
  have one : 1 % (cb.array.length + 1) = 1 := Nat.mod_eq_of_lt (by omega)
  unfold CircularHistoryBuffer.CHB_readPrev CircularHistoryBuffer.CHB_readRest
  rw [if_neg (Nat.pos_iff_ne_zero.mp some')]
  simp only [CircularHistoryBuffer.decreaseReadIdx, CircularHistoryBuffer.getDecreasedIdxBy, one]
  unfold CircularHistoryBuffer.front
  congr 1
  by_cases first : cb.writeIdx = 0
  · rw [if_pos first, if_pos (by omega)]
    omega
  · rw [if_neg first, if_neg (by omega)]

/-- The element is written, and the write index is behind it. -/
theorem Indexed.written (h : Indexed cb) {a : List α} {freed : List α} {w : Nat}
    (size : a.length ≤ cb.size)
    (inside : w < a.length) (here : a[w]? = some e) (last : a.length < cb.size → w + 1 = a.length)
    (old : ∀ x ∈ a, x = e ∨ x ∈ cb.array) :
    Recorded cb e (CircularHistoryBuffer.CHB_readRest
      { cb with array := a, writeIdx := (w + 1) % cb.size, freed }) := by
  have pos := h.pos
  have indexed :
      Indexed ({ cb with array := a, writeIdx := (w + 1) % cb.size, freed } :
        CircularHistoryBuffer α) := by
    refine ⟨h.pos, size, fun filling => ?_, fun _ => Nat.mod_lt _ h.pos⟩
    have filling : a.length < cb.size := filling
    show (w + 1) % cb.size = a.length
    rw [last filling, Nat.mod_eq_of_lt filling]
  refine ⟨⟨indexed.pos, indexed.fits, indexed.filling, indexed.wrapped⟩, rfl, old, ?_⟩
  have some' : 0 < a.length := Nat.lt_of_le_of_lt (Nat.zero_le w) inside
  rw [readPrev_rest _ some', ← here]
  unfold CircularHistoryBuffer.front
  congr 1
  rcases Nat.lt_or_eq_of_le (Nat.le_trans inside size : w + 1 ≤ cb.size) with below | wraps
  · have behind : (w + 1) % cb.size = w + 1 := Nat.mod_eq_of_lt below
    rw [if_neg (by rw [behind]; exact Nat.succ_ne_zero w)]
    exact congrArg (· - 1) behind
  · rw [wraps, Nat.mod_self, if_pos rfl]
    have last : a.length - 1 = w := by omega
    exact last

/-- A push is recorded in front. -/
theorem Indexed.push (h : Indexed cb) (e : α) : ∃ cb', cb.CHB_push e = some cb' ∧
    Recorded cb e cb' := by
  unfold CircularHistoryBuffer.CHB_push
  by_cases filling : cb.array.length < cb.size
  · rw [if_pos filling]
    have write := h.filling filling
    have length : (cb.array ++ [e]).length = cb.array.length + 1 := List.length_append
    have inside : cb.array.length < (cb.array ++ [e]).length := by omega
    refine ⟨_, rfl, ?_⟩
    unfold CircularHistoryBuffer.increaseWriteIdx CircularHistoryBuffer.getIncreasedIdxBy
    simp only [write]
    refine h.written (length ▸ filling) inside ?_ (fun _ => length.symm) fun x mem => ?_
    · rw [List.getElem?_append_right (Nat.le_refl _), Nat.sub_self]
      rfl
    · rcases List.mem_append.mp mem with old | new
      · exact Or.inr old
      · exact Or.inl (List.mem_singleton.mp new)
  · rw [if_neg filling]
    have full : cb.array.length = cb.size := Nat.le_antisymm h.fits (Nat.le_of_not_lt filling)
    have inside : cb.writeIdx < cb.array.length := full ▸ h.wrapped full
    have set : Array_setn (cb.free cb.writeIdx).array (cb.free cb.writeIdx).writeIdx [e] =
        some (cb.array.set cb.writeIdx e) := setn_one inside
    simp only [set, Option.bind_eq_bind, Option.bind_some]
    have length : (cb.array.set cb.writeIdx e).length = cb.array.length := List.length_set
    refine ⟨_, rfl, h.written (length ▸ h.fits) (length ▸ inside) (List.getElem?_set_self inside)
      (fun short => ?_) fun x mem => (List.mem_or_eq_of_mem_set mem).symm⟩
    rw [length, full] at short
    exact absurd short (Nat.lt_irrefl _)

/-- The recorded element is the one that is read back first. -/
theorem moveToFrontOrPush_front (h : Indexed cb) (cmp : α → α → Bool) (e : α) :
    ∃ cb', cb.CHB_moveToFrontOrPush cmp e = some cb' ∧ Recorded cb e cb' := by
  unfold CircularHistoryBuffer.CHB_moveToFrontOrPush
  rcases Option.eq_none_or_eq_some (Array_find cmp cb.array e) with none | ⟨idx, found⟩
  · simp only [none]
    exact h.push e
  · obtain ⟨lt, -, -⟩ := List.findIdx?_eq_some_iff_getElem.mp found
    have le : cb.writeIdx ≤ cb.array.length := by
      rcases Nat.lt_or_eq_of_le h.fits with short | full
      · exact Nat.le_of_eq (h.filling short)
      · exact full ▸ Nat.le_of_lt (h.wrapped full)
    simp only [found]
    by_cases here : idx = cb.writeIdx
    · rw [if_pos here]
      exact h.push e
    · rw [if_neg here]
      by_cases before : idx < cb.writeIdx
      · rw [if_pos (show idx < (cb.free idx).writeIdx from before)]
        -- The elements behind the old one move up, and the new one goes behind them.
        have up : idx + (cb.writeIdx - (idx + 1)) < cb.array.length := by omega
        obtain ⟨b, moved, length, kept⟩ := copyDown_inside up
        have inside : cb.writeIdx - 1 < b.length := by omega
        have copied : Array_setnFromNext (cb.free idx).array idx
            ((cb.free idx).writeIdx - (idx + 1)) = some b :=
          (if_neg (Nat.not_le_of_lt lt)).trans moved
        have set : Array_setn b ((cb.free idx).writeIdx - 1)
          [e] = some (b.set (cb.writeIdx - 1) e) := setn_one inside
        simp only [copied, set, Option.bind_eq_bind, Option.bind_some]
        have length' : (b.set (cb.writeIdx - 1) e).length = cb.array.length :=
          List.length_set.trans length
        have some' : 0 < (b.set (cb.writeIdx - 1) e).length := by omega
        refine ⟨_, rfl, ⟨h.pos, Nat.le_of_eq length' |>.trans h.fits, fun short => ?_,
          fun full => ?_⟩, rfl, fun x mem => ?_, ?_⟩
        · exact (h.filling (length' ▸ short)).trans length'.symm
        · exact h.wrapped (length'.symm.trans full)
        · rcases List.mem_or_eq_of_mem_set mem with old | new
          · exact Or.inr (kept x old)
          · exact Or.inl new
        · rw [readPrev_rest _ some']
          unfold CircularHistoryBuffer.front
          rw [if_neg (show (cb.free idx).writeIdx ≠
            0 from Nat.ne_of_gt (Nat.lt_of_le_of_lt (Nat.zero_le _) before))]
          exact List.getElem?_set_self inside
      · rw [if_neg (show ¬ idx < (cb.free idx).writeIdx from before)]
        have full : cb.array.length = cb.size := by
          by_contra other
          have := h.filling (Nat.lt_of_le_of_ne h.fits other)
          omega
        have copy : Array_getnCopy (cb.free idx).array (cb.free idx).writeIdx
            (idx - (cb.free idx).writeIdx) =
            some ((cb.array.drop cb.writeIdx).take (idx - cb.writeIdx)) := by
          have inside : ¬ (cb.writeIdx ≥ cb.array.length ∨
              cb.writeIdx + (idx - cb.writeIdx) > cb.array.length) := by
            omega
          exact if_neg inside
        have behind : cb.writeIdx + 1 < cb.array.length := by omega
        obtain ⟨b, moved, length, kept⟩ :
            ∃ b, Array_setn (cb.free idx).array ((cb.free idx).writeIdx + 1)
            ((cb.array.drop cb.writeIdx).take (idx - cb.writeIdx)) = some b ∧
              b.length = cb.array.length ∧ _ :=
          setn_inside behind
        have inside : cb.writeIdx < b.length := by omega
        have set : Array_setn b (cb.free idx).writeIdx [e] = some (b.set cb.writeIdx e) :=
          setn_one inside
        simp only [copy, moved, set, Option.bind_eq_bind, Option.bind_some]
        have length' : (b.set cb.writeIdx e).length = cb.array.length :=
          List.length_set.trans length
        have inside' : cb.writeIdx < (b.set cb.writeIdx e).length := by omega
        refine ⟨_, rfl, h.written (length' ▸ h.fits) inside' (List.getElem?_set_self inside)
          (fun short => ?_) fun x mem => ?_⟩
        · rw [length', full] at short
          exact absurd short (Nat.lt_irrefl _)
        · rcases List.mem_or_eq_of_mem_set mem with old | new
          · rcases kept x old with copied | there
            · exact Or.inr (List.mem_of_mem_drop (List.mem_of_mem_take copied))
            · exact Or.inr there
          · exact Or.inl new

/-- Reading back changes no entry, and gives one of them or none; -/
theorem readPrev_frame (cb : CircularHistoryBuffer α) : cb.CHB_readPrev.2.array = cb.array ∧
    (∀ e, cb.CHB_readPrev.1 = some e → e ∈ cb.array) ∧
      (Indexed cb → Indexed cb.CHB_readPrev.2) := by
  unfold CircularHistoryBuffer.CHB_readPrev
  split_ifs
  · exact ⟨rfl, fun e none => none.elim, id⟩
  · exact ⟨rfl, fun e there => List.mem_of_getElem? there, fun h =>
      ⟨h.pos, h.fits, h.filling, h.wrapped⟩⟩

/-- neither does reading forward. -/
theorem readNext_frame (cb : CircularHistoryBuffer α) : cb.CHB_readNext.2.array = cb.array ∧
    (∀ e, cb.CHB_readNext.1 = some e → e ∈ cb.array) ∧
      (Indexed cb → Indexed cb.CHB_readNext.2) := by
  unfold CircularHistoryBuffer.CHB_readNext
  split_ifs
  · exact ⟨rfl, fun e none => none.elim, id⟩
  · exact ⟨rfl, fun e there => List.mem_of_getElem? there, fun h =>
      ⟨h.pos, h.fits, h.filling, h.wrapped⟩⟩

end AnyComparison

end SoTp.Shell
