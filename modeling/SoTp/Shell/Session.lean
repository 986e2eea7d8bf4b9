/-
Sessions of the shell: keys in any order, in any surroundings in which memory that is read behind a
word ends and has no control characters.

* `Edits.popped`, `Edits.cleared` — what is erased is what was shown.
* `Shown.handle` — one key keeps the command behind the prompt.
* `line_shown` — so does every sequence of keys, and no key fails.
* `last_line_recalled` — Ctrl+K brings back the line that was run last.
-/

import SoTp.Shell.LineEditor

namespace SoTp.Shell

open SoTp.Lib

/-! ### Edits -/

/-- A character that takes one cell. -/
def Plain (c : UInt8) : Prop := c ≠ backspace ∧ c ≠ tab ∧ c ≠ newline

instance : DecidablePred Plain := fun _ => inferInstanceAs (Decidable (_ ∧ _))

/-- Behind anything, what is printed makes the new text of the old one. -/
def Edits (old : List UInt8) (outs : List Output) (new : List UInt8) : Prop :=
  ∀ before, shown (before ++ old) outs = before ++ new

section Edits

variable {old mid new text cc : List UInt8} {outs outs' : List Output} {c : UInt8}

theorem shown_append (line : List UInt8) (outs outs' : List Output) :
    shown line (outs ++ outs') = shown (shown line outs) outs' := List.foldl_append

/-- Printing nothing changes nothing. -/
theorem Edits.refl : Edits old [] old := fun _ => rfl

/-- One edit after the other. -/
theorem Edits.trans (first : Edits old outs mid) (second : Edits mid outs' new) :
    Edits old (outs ++ outs') new := by
  intro before
  rw [shown_append, first, second]

/-- A character is added, -/
theorem Edits.char (plain : Plain c) : Edits old [.char c] (old ++ [c]) := by
  intro before
  obtain ⟨not_backspace, not_tab, not_newline⟩ := plain
  show Output.onLine (before ++ old) (.char c) = _
  rw [Output.onLine, if_neg not_backspace, if_neg not_newline, if_neg not_tab, List.append_assoc]

/-- or a text; -/
theorem Edits.chars (plain : ∀ c ∈ text, Plain c) : Edits old (text.map .char) (old ++ text) := by
  induction text generalizing old with
  | nil =>
      rw [List.append_nil]
      exact .refl
  | cons c text ih =>
      have first : Edits old [.char c] (old ++ [c]) := .char (plain c List.mem_cons_self)
      have rest : Edits (old ++ [c]) (text.map .char) (old ++ [c] ++ text) :=
        ih fun d mem => plain d (List.mem_cons_of_mem c mem)
      rw [List.append_cons]
      exact first.trans rest

/-- a backspace takes the last one off, -/
theorem Edits.erased : Edits (old ++ [c]) [.char backspace] old := by
  intro before
  show Output.onLine (before ++ (old ++ [c])) (.char backspace) = _
  rw [Output.onLine, if_pos rfl, ← List.append_assoc, List.dropLast_concat]

/-- whichever it is, -/
theorem Edits.dropped (some' : cc ≠ []) : Edits cc [.char backspace] cc.dropLast := by
  have erased : Edits (cc.dropLast ++ [cc.getLast some']) [.char backspace] cc.dropLast := .erased
  rwa [List.dropLast_append_getLast] at erased

/-- and as many as there are clear the line. -/
theorem Edits.cleared (old : List UInt8) : Edits old (List.replicate old.length (.char backspace))
    [] := by
  induction old using List.reverseRecOn with
  | nil => exact .refl
  | append_singleton old c ih =>
      rw [List.length_append, List.length_singleton, Nat.add_comm, List.replicate_add]
      exact Edits.trans .erased ih

theorem getCurrentChar_nil : getCurrentChar [] = 0 := rfl

/-- `deleteWord` erases what it pops. -/
theorem Edits.popped {goes : UInt8 → Bool} {rounds : Nat} (some' : cc ≠ []) :
    Edits cc (popWhile goes rounds cc).2 (popWhile goes rounds cc).1 ∧
      (popWhile goes rounds cc).1 <+: cc := by
  induction rounds generalizing cc with
  | zero => exact ⟨.refl, List.prefix_rfl⟩
  | succ rounds ih =>
      rw [popWhile]
      dsimp only
      split_ifs with more
      · have some'' : cc.dropLast ≠ [] := by
          intro none
          rw [none, getCurrentChar_nil] at more
          exact more.1 rfl
        obtain ⟨edits, before⟩ := ih some''
        exact ⟨(Edits.dropped some').trans edits, before.trans (List.dropLast_prefix cc)⟩
      · exact ⟨.dropped some', List.dropLast_prefix cc⟩

end Edits

/-! ### What is recalled -/

/-- Memory ends with a NUL, and has no control characters before it. -/
def Quiet (behind : Nat → List UInt8) : Prop := ∀ k, ∃ text, readString (behind k) = some text ∧
    ∀ c ∈ text, Plain c

section Recalled

variable {commands : List Word} {behind : Nat → List UInt8} {line : List UInt8} {argv : List Word}

/-- Splitting at the pipe makes no new words, -/
theorem split_words {ws argv : List Word} {argv2 : Option (List Word)}
    (eq : split ws = (argv, argv2)) :
    (∀ w ∈ argv, w ∈ ws) ∧ ∀ args, argv2 = some args → ∀ w ∈ args, w ∈ ws := by
  rcases split_cases ws with ⟨-, whole⟩ | ⟨-, argv', dropped, argv2', rfl, -, -, parts, -⟩
  · cases eq.symm.trans whole
    exact ⟨fun w mem => mem, fun args none => nomatch none⟩
  · cases eq.symm.trans parts
    refine ⟨fun w mem => ?_, fun args same w mem => ?_⟩
    · exact List.mem_append_left _ (List.mem_append_left _ mem)
    · cases same
      exact List.mem_append_right _ mem

/-- and terminating them no new characters but the terminator. -/
theorem terminated_chars {ws : List Word} (from_line : ∀ w ∈ ws, ∀ c ∈ w, c ∈ line) :
    ∀ w ∈ setArgsNullTerminaor ws, ∀ c ∈ w, c = 0 ∨ c ∈ line := by
  intro w mem c inside
  obtain ⟨v, there, rfl⟩ := List.mem_map.mp mem
  rcases List.mem_append.mp inside with old | nul
  · exact Or.inr (from_line v there c old)
  · exact Or.inl (List.mem_singleton.mp nul)

/-- The entry has the characters of the line. -/
theorem entry_chars {parsed : Parsed} (eq : parseCommand commands behind line = some parsed) :
    ∀ w ∈ parsed.entry, ∀ c ∈ w, c = 0 ∨ c ∈ line := by
  unfold parseCommand at eq
  rw [parse_line] at eq
  generalize here : split (words line) = parts at eq
  obtain ⟨argv, argv2⟩ := parts
  obtain ⟨first, second⟩ := split_words here
  have first : ∀ w ∈ argv, ∀ c ∈ w, c ∈ line := fun w mem => mem_runs (first w mem)
  dsimp only at eq
  by_cases blank : argv.length = 0
  · rw [if_pos blank] at eq
    cases eq
  rw [if_neg blank] at eq
  cases argv2 with
  | none =>
      dsimp only at eq
      split at eq
      · split_ifs at eq <;> cases eq <;> exact terminated_chars first
      · cases eq
        exact terminated_chars first
  | some args =>
      have second : ∀ w ∈ args, ∀ c ∈ w, c ∈ line := fun w mem => mem_runs (second args rfl w mem)
      have both : ∀ w ∈ argv ++ args, ∀ c ∈ w, c ∈ line := fun w mem => by
        rcases List.mem_append.mp mem with mem | mem
        · exact first w mem
        · exact second w mem
      dsimp only at eq
      split at eq
      · cases eq
        rw [setArgsNullTerminaor, setArgsNullTerminaor, ← List.map_append]
        exact terminated_chars both
      · cases eq
        exact fun w mem c inside => Or.inr (both w mem c inside)

/-- What is read of a plain word is plain, in surroundings that are quiet, -/
theorem readString_plain {arg : Word} {m text : List UInt8} (plain : ∀ c ∈ arg, Plain c)
    (read : readString m = some text) (plain' : ∀ c ∈ text, Plain c) :
    ∃ text, readString (arg ++ m) = some text ∧ ∀ c ∈ text, Plain c := by
  induction arg with
  | nil => exact ⟨text, read, plain'⟩
  | cons c arg ih =>
      obtain ⟨rest, read', plain''⟩ := ih fun d mem => plain d (List.mem_cons_of_mem c mem)
      rw [List.cons_append, readString]
      split_ifs
      · exact ⟨[], rfl, List.forall_mem_nil _⟩
      · refine ⟨c :: rest, by rw [read', Option.map_some], fun d mem => ?_⟩
        rcases List.mem_cons.mp mem with rfl | mem
        · exact plain d List.mem_cons_self
        · exact plain'' d mem

/-- and so is the entry that the history keeps. -/
theorem copyFrom_plain (quiet : Quiet behind) (plain : ∀ w ∈ argv, ∀ c ∈ w, Plain c) (i : Nat) :
    ∃ text, copyFrom behind i argv = some text ∧ ∀ c ∈ text, Plain c := by
  induction argv generalizing i with
  | nil => exact ⟨[], rfl, List.forall_mem_nil _⟩
  | cons arg args ih =>
      obtain ⟨tail, ends, plain'⟩ := quiet i
      obtain ⟨text, read, plain₁⟩ := readString_plain (plain arg List.mem_cons_self) ends plain'
      obtain ⟨rest, copied, plain₂⟩ :=
        ih (fun w mem => plain w (List.mem_cons_of_mem arg mem)) (i + 1)
      cases args with
      | nil => exact ⟨text, read, plain₁⟩
      | cons arg' args =>
          refine ⟨text ++ space :: rest, ?_, fun c mem => ?_⟩
          · show (readString (arg ++ behind i)).bind _ = _
            rw [read, Option.bind_some]
            show (copyFrom behind (i + 1) (arg' :: args)).bind _ = _
            rw [copied, Option.bind_some]
          · rcases List.mem_append.mp mem with mem | mem
            · exact plain₁ c mem
            · rcases List.mem_cons.mp mem with rfl | mem
              · decide
              · exact plain₂ c mem

end Recalled

/-! ### One key -/

/-- The command stands behind the prompt, and the history has nothing that would not. -/
structure Shown (s : LineEditor) (line : List UInt8) : Prop where
  line : ∃ before, line = before ++ promptText s.commandReturnCode ++ s.currentCommand
  plain : ∀ c ∈ s.currentCommand, Plain c
  entries : ∀ argv ∈ s.commandHistory.array, ∀ w ∈ argv, ∀ c ∈ w, Plain c
  indexed : Indexed s.commandHistory
  size : s.commandHistory.size = MAX_HISTORY_LEN
  promptLen : s.currentPromptLen = (promptText s.commandReturnCode).length

section Handle

variable {commands : List Word} {env : Surroundings} {s s' : LineEditor} {line : List UInt8}
    {outs : List Output}

/-- The prompt is plain, -/
theorem promptText_plain (code : Int) : ∀ c ∈ promptText code, Plain c := by
  unfold promptText
  split_ifs <;> decide +kernel

/-- and one character longer after an error. -/
theorem promptText_length (code : Int) : (promptText code).length = if code = 0 then 3 else 4 := by
  unfold promptText
  split_ifs <;> rfl

/-- An edit that prints what it changes keeps the command shown. -/
theorem Shown.edited (h : Shown s line) {cc : List UInt8} (edits : Edits s.currentCommand outs cc)
    (plain : ∀ c ∈ cc, Plain c) : Shown { s with currentCommand := cc } (shown line outs) := by
  obtain ⟨before, rfl⟩ := h.line
  exact ⟨⟨before, edits _⟩, plain, h.entries, h.indexed, h.size, h.promptLen⟩

/-- Reading in the history changes nothing that is shown. -/
theorem Shown.read (h : Shown s line) {cb : CircularHistoryBuffer (List Word)}
    (array : cb.array = s.commandHistory.array)
    (indexed : Indexed cb) (size : cb.size = s.commandHistory.size) :
      Shown { s with commandHistory := cb } line where
  line := h.line
  plain := h.plain
  entries := array ▸ h.entries
  indexed := indexed
  size := size.trans h.size
  promptLen := h.promptLen

theorem Shown.clearLine (h : Shown s line) : Shown s.clearLine.1 (shown line s.clearLine.2) :=
  h.edited (.cleared _) fun _ mem => nomatch mem

theorem Shown.historyCopy (h : Shown s line) (quiet : Quiet env.atRecall) {argv : List Word}
    (plain : ∀ w ∈ argv, ∀ c ∈ w, Plain c) :
    ∃ s' outs, s.historyCopy env argv = some (s', outs) ∧ Shown s' (shown line outs) := by
  obtain ⟨text, copied, plain'⟩ := copyFrom_plain quiet plain 0
  have copied : Shell.historyCopy env.atRecall argv = some text := copied
  refine ⟨{ s with currentCommand := [] ++ text }, _, ?_,
    h.edited ((Edits.cleared _).trans (Edits.chars plain')) plain'⟩
  rw [LineEditor.historyCopy, copied]
  rfl

theorem readPrev_size {α : Type} (cb : CircularHistoryBuffer α) :
    cb.CHB_readPrev.2.size = cb.size := by
  unfold CircularHistoryBuffer.CHB_readPrev
  split_ifs <;> rfl

theorem readNext_size {α : Type} (cb : CircularHistoryBuffer α) :
    cb.CHB_readNext.2.size = cb.size := by
  unfold CircularHistoryBuffer.CHB_readNext
  split_ifs <;> rfl

/-- Reading back replaces the command by the entry, -/
theorem Shown.historyPrev (h : Shown s line) (quiet : Quiet env.atRecall) :
    ∃ s' outs, s.historyPrev env = some (s', outs) ∧ Shown s' (shown line outs) := by
  obtain ⟨array, inside, indexed⟩ := readPrev_frame s.commandHistory
  have next := h.read array (indexed h.indexed) (readPrev_size _)
  unfold LineEditor.historyPrev
  dsimp only
  cases read : s.commandHistory.CHB_readPrev.1 with
  | none => exact ⟨_, [], rfl, next⟩
  | some argv => exact next.historyCopy quiet (h.entries argv (inside argv read))

/-- and so does reading forward. -/
theorem Shown.historyNext (h : Shown s line) (quiet : Quiet env.atRecall) :
    ∃ s' outs, s.historyNext env = some (s', outs) ∧ Shown s' (shown line outs) := by
  obtain ⟨array, inside, indexed⟩ := readNext_frame s.commandHistory
  have next := h.read array (indexed h.indexed) (readNext_size _)
  unfold LineEditor.historyNext
  dsimp only
  cases read : s.commandHistory.CHB_readNext.1 with
  | none =>
      have cleared := next.clearLine
      refine ⟨_, _, rfl, cleared.read rfl ?_ rfl⟩
      exact ⟨cleared.indexed.pos, cleared.indexed.fits, cleared.indexed.filling,
        cleared.indexed.wrapped⟩
  | some argv => exact next.historyCopy quiet (h.entries argv (inside argv read))

/-- Deleting a word erases it. -/
theorem Shown.deleteWord (h : Shown s line) : Shown s.deleteWord.1 (shown line s.deleteWord.2) := by
  unfold LineEditor.deleteWord
  dsimp only
  split_ifs with none
  · exact h
  · have some' : s.currentCommand ≠ [] := by
      intro nil
      rw [nil] at none
      exact none rfl
    exact h.edited (Edits.popped some').1 fun c mem => h.plain c ((Edits.popped some').2.subset mem)

/-- What is printed between is not looked at: the prompt stands behind it. -/
theorem Shown.redraw (h : Shown s line) (line' : List UInt8) : Shown s.newPrompt.1
    (shown line' (s.newPrompt.2 ++ s.currentCommand.map .char)) where
  line := by
    refine ⟨line', ?_⟩
    have prompted : Edits [] s.newPrompt.2 ([] ++ promptText s.commandReturnCode) :=
      .chars (promptText_plain _)
    have typed : Edits _ (s.currentCommand.map .char)
        (([] ++ promptText s.commandReturnCode) ++ s.currentCommand) :=
      .chars h.plain
    have all := prompted.trans typed line'
    rwa [List.append_nil, List.nil_append, ← List.append_assoc] at all
  plain := h.plain
  entries := h.entries
  indexed := h.indexed
  size := h.size
  promptLen := (promptText_length _).symm

/-- Clearing the screen prints the prompt and the command again. -/
theorem Shown.clearScreenKeepCommand (h : Shown s line) :
    Shown s.clearScreenKeepCommand.1 (shown line s.clearScreenKeepCommand.2) := h.redraw []

theorem Shown.setFontSize (h : Shown s line) (size : Int) : Shown (s.setFontSize size) line := by
  unfold LineEditor.setFontSize
  split_ifs
  · exact ⟨h.line, h.plain, h.entries, h.indexed, h.size, h.promptLen⟩
  · exact h

/-- Every key with Ctrl keeps the command shown, -/
theorem Shown.control (h : Shown s line) (quiet : Quiet env.atRecall) (c : UInt8) :
    ∃ s' outs, s.control env c = some (s', outs) ∧ Shown s' (shown line outs) := by
  unfold LineEditor.control
  dsimp only
  split_ifs
  · exact ⟨_, _, rfl, (h.setFontSize _).clearScreenKeepCommand⟩
  · exact ⟨_, _, rfl, (h.setFontSize _).clearScreenKeepCommand⟩
  · exact ⟨_, _, rfl, h.clearScreenKeepCommand⟩
  · exact ⟨_, _, rfl, h.deleteWord⟩
  · exact h.historyPrev quiet
  · exact h.historyNext quiet
  · exact ⟨s, [], rfl, h⟩

/-- What `parseCommand` leaves in the history. -/
theorem Shown.runCommand (h : Shown s line) (commands : List Word) (env : Surroundings) :
    ∃ cb code printed, s.runCommand commands env = some (cb, code, printed) ∧ Indexed cb ∧
      cb.size = MAX_HISTORY_LEN ∧ (∀ argv ∈ cb.array, ∀ w ∈ argv, ∀ c ∈ w, Plain c) ∧
      ∀ parsed, parseCommand commands env.atLookup s.currentCommand = some parsed →
        cb.CHB_readPrev.1 = some parsed.entry := by
  unfold LineEditor.runCommand
  cases eq : parseCommand commands env.atLookup s.currentCommand with
  | none => exact ⟨_, _, _, rfl, h.indexed, h.size, h.entries, fun parsed none => nomatch none⟩
  | some parsed =>
      obtain ⟨cb, recorded, front⟩ := moveToFrontOrPush_front h.indexed env.compareArgv parsed.entry
      refine ⟨cb, _, _, by dsimp only; rw [recorded]; rfl, front.indexed, front.size.trans h.size,
        fun argv mem w there c inside => ?_, fun parsed' same => ?_⟩
      · rcases front.entries argv mem with rfl | old
        · rcases entry_chars eq w there c inside with rfl | typed
          · decide
          · exact h.plain c typed
        · exact h.entries argv old w there c inside
      · cases same
        exact front.first

/-- and Enter leaves an empty one behind a prompt, and the entry in the history. -/
theorem Shown.enter (h : Shown s line) (commands : List Word) (env : Surroundings) :
    ∃ s' outs, s.enter commands env = some (s', outs) ∧ Shown s' (shown line outs) ∧
      ∀ parsed, parseCommand commands env.atLookup s.currentCommand = some parsed →
        s'.commandHistory.CHB_readPrev.1 = some parsed.entry := by
  obtain ⟨cb, code, printed, ran, indexed, size, entries, first⟩ := h.runCommand commands env
  have typed : Edits [] ((promptText code).map .char) ([] ++ promptText code) :=
    .chars (promptText_plain code)
  have prompted := typed (shown line (.char newline :: printed))
  rw [List.append_nil, List.nil_append] at prompted
  refine ⟨{ s with
      commandHistory := cb, commandReturnCode := code, currentCommand := []
      currentPromptLen := if code = 0 then 3 else 4 },
    .char newline :: printed ++ (promptText code).map .char, ?_, ?_, first⟩
  · rw [LineEditor.enter, ran]
    rfl
  · refine ⟨⟨shown line (.char newline :: printed), ?_⟩, fun c mem => (nomatch mem), entries,
      indexed, size, (promptText_length code).symm⟩
    rw [shown_append, prompted]
    exact (List.append_nil _).symm

theorem autocomplete_printed (commands : List Word) (cc : List UInt8) :
    (autocomplete commands cc).1 = cc ++ (autocomplete commands cc).2 ∧
      ∀ c ∈ (autocomplete commands cc).2, ∃ name ∈ commands, c ∈ name := by
  unfold autocomplete
  split
  · exact ⟨(List.append_nil cc).symm, fun c mem => nomatch mem⟩
  · split_ifs
    · exact ⟨(List.append_nil cc).symm, fun c mem => nomatch mem⟩
    · rw [typeRest_append]
      refine ⟨rfl, fun c mem => ?_⟩
      have inside := List.mem_of_mem_drop mem
      rw [List.getD_eq_getElem?_getD] at inside
      cases named : commands[(‹Scan›).matchIdx]? with
      | none =>
          rw [named] at inside
          cases inside
      | some name =>
          rw [named] at inside
          exact ⟨name, List.mem_of_getElem? named, inside⟩

/-- Every other key edits the command as it prints. -/
theorem Shown.edit (h : Shown s line) (named : ∀ name ∈ commands, ∀ c ∈ name, Plain c)
    (env : Surroundings)
    (c : UInt8) : ∃ s' outs, s.edit commands env c = some (s', outs) ∧
      Shown s' (shown line outs) := by
  unfold LineEditor.edit
  split_ifs with enters erases some' completes
  · obtain ⟨s', outs, entered, next, -⟩ := h.enter commands env
    exact ⟨s', outs, entered, next⟩
  · have some' : s.currentCommand ≠ [] := List.length_pos_iff.mp some'
    refine ⟨_, _, rfl, h.edited (erases ▸ .dropped some') fun d mem => ?_⟩
    exact h.plain d ((List.dropLast_prefix _).subset mem)
  · exact ⟨s, [], rfl, h⟩
  · obtain ⟨typed, from_name⟩ := autocomplete_printed commands s.currentCommand
    have plain : ∀ d ∈ (autocomplete commands s.currentCommand).2, Plain d := fun d mem => by
      obtain ⟨name, there, inside⟩ := from_name d mem
      exact named name there d inside
    have edits : Edits s.currentCommand ((autocomplete commands s.currentCommand).2.map .char)
        (autocomplete commands s.currentCommand).1 := by
      rw [typed]
      exact .chars plain
    refine ⟨{ s with currentCommand := (autocomplete commands s.currentCommand).1 }, _, rfl,
      h.edited edits fun d mem => ?_⟩
    rw [typed] at mem
    rcases List.mem_append.mp mem with old | new
    · exact h.plain d old
    · exact plain d new
  · have plain : Plain c := ⟨erases, completes, enters⟩
    refine ⟨_, _, rfl, h.edited (.char plain) fun d mem => ?_⟩
    rcases List.mem_append.mp mem with old | new
    · exact h.plain d old
    · exact List.mem_singleton.mp new ▸ plain

/-- A key is handled, and the command stands behind the prompt again. -/
theorem Shown.handle (h : Shown s line) (named : ∀ name ∈ commands, ∀ c ∈ name, Plain c)
    (quiet : Quiet env.atRecall) (key : Key) :
    ∃ s' outs, s.handle commands env key = some (s', outs) ∧ Shown s' (shown line outs) := by
  unfold LineEditor.handle
  split_ifs
  · exact h.control quiet key.character
  · exact h.edit named env key.character

end Handle

/-! ### Sessions -/

/-- The states of a shell, and the line of the cursor. -/
inductive Session (commands : List Word) : LineEditor → List UInt8 → Prop where
  | start (commandReturnCode fontSize : Int) (printed : List Output) (line : List UInt8) :
      Session commands (shell commandReturnCode fontSize printed).1
        (shown line (shell commandReturnCode fontSize printed).2)
  | key {s s' : LineEditor} {line : List UInt8} {env : Surroundings}
      {outs : List Output} (key : Key)
      (before : Session commands s line) (quiet : Quiet env.atRecall)
      (handled : s.handle commands env key = some (s', outs)) :
        Session commands s' (shown line outs)

/-- It is not Enter, Ctrl+K or Ctrl+J. -/
def Key.LeavesHistory (key : Key) : Prop :=
  if key.ctrlPressed = true then toLower key.character ≠ 107 ∧ toLower key.character ≠ 106
  else key.character ≠ newline

instance (key : Key) : Decidable key.LeavesHistory := by
  unfold Key.LeavesHistory
  infer_instance

/-- Such a key is handled. -/
def Types (commands : List Word) (s s' : LineEditor) : Prop :=
  ∃ (env : Surroundings) (key : Key) (outs : List Output), key.LeavesHistory ∧
    s.handle commands env key = some (s', outs)

/-- Memory is all NULs, nothing compares equal, and commands succeed. -/
def quietSurroundings : Surroundings := ⟨fun _ => [0], fun _ => [0], fun _ _ => false, SUCCESS, []⟩

section Sessions

variable {commands : List Word} {env env' : Surroundings} {s s₁ s₂ s₃ : LineEditor}
    {line : List UInt8}
  {outs outs' : List Output} {key : Key}

theorem initialize_indexed {α : Type} {size : Nat} (pos : 0 < size) :
    Indexed <| CHB_initialize α size :=
  ⟨pos, Nat.zero_le _, fun _ => rfl, fun _ => pos⟩

/-- At the start there is the prompt and no command. -/
theorem shell_shown (commandReturnCode fontSize : Int) (printed : List Output) (line : List UInt8) :
    Shown (shell commandReturnCode fontSize printed).1
      (shown line (shell commandReturnCode fontSize printed).2) where
  line := by
    refine ⟨shown line (.clear :: printed), ?_⟩
    have prompted : Edits [] ((promptText commandReturnCode).map .char)
        ([] ++ promptText commandReturnCode) :=
      .chars (promptText_plain _)
    have behind := prompted (shown line (.clear :: printed))
    rw [List.append_nil, List.nil_append] at behind
    show shown line (.clear :: printed ++ (promptText commandReturnCode).map .char) =
      _ ++ promptText commandReturnCode ++ []
    rw [shown_append, behind, List.append_nil]
  plain := fun c mem => nomatch mem
  entries := fun argv mem => nomatch mem
  indexed := initialize_indexed (by decide)
  size := rfl
  promptLen := (promptText_length _).symm

/-- So the command is shown all through a session. -/
theorem Session.shown (named : ∀ name ∈ commands, ∀ c ∈ name, Plain c)
    (session : Session commands s line) : Shown s line := by
  induction session with
  | start commandReturnCode fontSize printed line =>
      exact shell_shown commandReturnCode fontSize printed line
  | key key _ quiet handled ih =>
      obtain ⟨s', outs, handled', next⟩ := ih.handle named quiet key
      cases handled.symm.trans handled'
      exact next

/-- After any keys the line of the cursor ends with the prompt of the last return code and the
command, none of whose characters moves the cursor; and the next key is handled. -/
theorem line_shown (named : ∀ name ∈ commands, ∀ c ∈ name, Plain c)
    (session : Session commands s line) :
    (∃ before, line = before ++ promptText s.commandReturnCode ++ s.currentCommand) ∧
      (∀ c ∈ s.currentCommand, Plain c) ∧ s.commandHistory.array.length ≤ MAX_HISTORY_LEN ∧
      ∀ env key, Quiet env.atRecall → ∃ s' outs, s.handle commands env key = some (s', outs) := by
  have all := session.shown named
  refine ⟨all.line, all.plain, all.size ▸ all.indexed.fits, fun env key quiet => ?_⟩
  obtain ⟨s', outs, handled, -⟩ := all.handle named quiet key
  exact ⟨s', outs, handled⟩

theorem quietSurroundings_quiet : Quiet quietSurroundings.atRecall :=
  fun _ => ⟨[], rfl, List.forall_mem_nil _⟩

/-- `p` and a tab after a command failed. -/
theorem line_shown_completed : ∃ s line, Session [[112, 115]] s line ∧
    s.currentCommand = [112, 115] ∧ ∃ before, line = before ++ [32, 62, 33, 32] ++ [112, 115] := by
  have named : ∀ name ∈ [[112, (115 : UInt8)]], ∀ c ∈ name, Plain c := by decide +kernel
  have typed : Session [[112, 115]] _ _ := .key ⟨tab, false⟩ (.key ⟨112, false⟩ (.start 1 1 [] [])
    quietSurroundings_quiet rfl) quietSurroundings_quiet rfl
  exact ⟨_, _, typed, rfl, (line_shown named typed).1⟩

theorem deleteWord_history (s : LineEditor) : s.deleteWord.1.commandHistory = s.commandHistory := by
  unfold LineEditor.deleteWord
  dsimp only
  split_ifs <;> rfl

theorem setFontSize_history (s : LineEditor) (size : Int) :
    (s.setFontSize size).commandHistory = s.commandHistory := by
  unfold LineEditor.setFontSize
  split_ifs <;> rfl

theorem handle_history (leaves : key.LeavesHistory)
    (handled : s.handle commands env key = some (s₁, outs)) :
    s₁.commandHistory = s.commandHistory := by
  unfold LineEditor.handle at handled
  unfold Key.LeavesHistory at leaves
  by_cases ctrl : key.ctrlPressed = true
  · rw [if_pos ctrl] at handled leaves
    unfold LineEditor.control at handled
    dsimp only at handled
    split_ifs at handled
    · cases handled
      exact setFontSize_history s _
    · cases handled
      exact setFontSize_history s _
    · cases handled
      rfl
    · have same : s.deleteWord.1 = s₁ := congrArg Prod.fst (Option.some.inj handled)
      exact same ▸ deleteWord_history s
    · exact absurd ‹_› leaves.1
    · exact absurd ‹_› leaves.2
    · cases handled
      rfl
  · rw [if_neg ctrl] at handled leaves
    unfold LineEditor.edit at handled
    rw [if_neg leaves] at handled
    split_ifs at handled <;> cases handled <;> rfl

theorem types_history (typing : Relation.ReflTransGen (Types commands) s₁ s₂) :
    s₂.commandHistory = s₁.commandHistory := by
  induction typing with
  | refl => rfl
  | tail _ step ih =>
      obtain ⟨env, key, outs, leaves, handled⟩ := step
      exact (handle_history leaves handled).trans ih

/-- Such a line comes back from its entry. -/
theorem recalled_line {line : List UInt8} (noNul : 0 ∉ line) (nonblank : ∃ c ∈ line, c ≠ space)
    {atLookup : Nat → List UInt8}
    (kept : pipes (words line) = 0 ∨ pipes (words line) = 1 ∧ Found commands atLookup line)
    (atRecall : Nat → List UInt8) :
    recalled commands atLookup atRecall line = some (joined space (words line)) := by
  rcases split_cases (words line) with ⟨-, eq⟩ | ⟨pos, argv, dropped, argv2, ws, some₁, -, eq, all⟩
  · exact recalled_single noNul nonblank eq rfl commands atLookup atRecall
  · obtain ⟨one, found⟩ := kept.resolve_left (Nat.pos_iff_ne_zero.mp pos)
    rw [all.mpr one, List.append_nil] at ws
    rcases recalled_piped eq some₁ commands atLookup atRecall with ⟨-, read⟩ | ⟨lost, -⟩
    · rw [read, copyFrom_terminated (ws ▸ words_free noNul), ws]
    · exact absurd found lost

/-- Enter on a line with at most one pipe, whose commands are found, then any keys but Enter,
Ctrl+K and Ctrl+J, then Ctrl+K: the line is back, with single spaces, whatever else the history
has. -/
theorem last_line_recalled (named : ∀ name ∈ commands, ∀ c ∈ name, Plain c)
    (session : Session commands s line)
    (noNul : 0 ∉ s.currentCommand) (nonblank : ∃ c ∈ s.currentCommand, c ≠ space)
    (kept : pipes (words s.currentCommand) = 0 ∨
      pipes (words s.currentCommand) = 1 ∧ Found commands env.atLookup s.currentCommand)
    (ran : s.handle commands env ⟨newline, false⟩ = some (s₁, outs))
    (typing : Relation.ReflTransGen (Types commands) s₁ s₂)
    (back : s₂.handle commands env' ⟨107, true⟩ = some (s₃, outs')) :
    s₃.currentCommand = joined space (words s.currentCommand) := by
  have copied := recalled_line noNul nonblank kept env'.atRecall
  obtain ⟨parsed, parses, copied⟩ := Option.bind_eq_some_iff.mp copied
  obtain ⟨s', outs'', entered, -, first⟩ := (session.shown named).enter commands env
  have ran : s.enter commands env = some (s₁, outs) := ran
  cases ran.symm.trans entered
  have read := first parsed parses
  rw [← types_history typing] at read
  have back : s₂.historyPrev env' = some (s₃, outs') := back
  unfold LineEditor.historyPrev at back
  dsimp only at back
  rw [read] at back
  dsimp only [LineEditor.historyCopy] at back
  rw [copied] at back
  cases back
  exact List.nil_append _

/-- `a  b`, which is no command, Enter, `c`, Ctrl+K. -/
theorem last_line_recalled_spaces : ∃ s₃ outs, LineEditor.handle [] quietSurroundings ⟨107, true⟩
    ⟨[99], ⟨MAX_HISTORY_LEN, 1, 1, 1, [[[97, 0], [98, 0]]], []⟩, COMMAND_NOT_FOUND, 4, 1⟩ =
      some (s₃, outs) ∧ s₃.currentCommand = [97, 32, 98] := by
  have typed :
      Session [] ⟨[97, 32, 32, 98], CHB_initialize (List Word) MAX_HISTORY_LEN, 0, 3, 1⟩ _ :=
    .key ⟨98, false⟩ (.key ⟨32, false⟩ (.key ⟨32, false⟩ (.key ⟨97, false⟩ (.start 0 1 [] [])
      quietSurroundings_quiet rfl) quietSurroundings_quiet rfl) quietSurroundings_quiet rfl)
        quietSurroundings_quiet rfl
  have ran : LineEditor.handle [] quietSurroundings ⟨newline, false⟩
      ⟨[97, 32, 32, 98], CHB_initialize (List Word) MAX_HISTORY_LEN, 0, 3, 1⟩ =
        some (⟨[], ⟨MAX_HISTORY_LEN, 1, 1, 1, [[[97, 0], [98, 0]]], []⟩, COMMAND_NOT_FOUND, 4, 1⟩,
          _) := rfl
  have typing :
      Types [] ⟨[], ⟨MAX_HISTORY_LEN, 1, 1, 1, [[[97, 0], [98, 0]]], []⟩, COMMAND_NOT_FOUND, 4, 1⟩
      ⟨[99], ⟨MAX_HISTORY_LEN, 1, 1, 1, [[[97, 0], [98, 0]]], []⟩, COMMAND_NOT_FOUND, 4, 1⟩ :=
    ⟨quietSurroundings, ⟨99, false⟩, _, by decide, rfl⟩
  have back : LineEditor.handle [] quietSurroundings ⟨107, true⟩
      ⟨[99], ⟨MAX_HISTORY_LEN, 1, 1, 1, [[[97, 0], [98, 0]]], []⟩, COMMAND_NOT_FOUND, 4, 1⟩ =
        some (_, _) := rfl
  exact ⟨_, _, back, (last_line_recalled (List.forall_mem_nil _) typed (by decide) ⟨97, by decide⟩
    (Or.inl (by decide)) ran (.single typing) back).trans (by decide)⟩

end Sessions

end SoTp.Shell
