/-
Which words `parseCommand` looks up. Without a pipe the words are terminated before, with
one they are terminated after both lookups, and `strcmp` goes on behind the word.

* `parseCommand_ran` — `parseCommand` runs what these lookups find.
* `lookup_iff` — when a lookup finds a command exactly if the word is its name.
-/

import SoTp.Shell.CommandLine

namespace SoTp.Shell

open SoTp.Lib

/-- A part of the line whose command is looked up: its words, and what they are in memory,
with what is behind the first. -/
structure Stage where
  argv : List Word
  stored : List Word
  behind : List UInt8

namespace Stage

/-- What `verifyCommand` finds. -/
def verified (commands : List Word) (stage : Stage) : Option Word :=
  verifyCommand commands stage.stored stage.behind

/-- The text that the first word is in memory. -/
def text (stage : Stage) : Option Word := readString (stage.stored.headD [] ++ stage.behind)

/-- A command is found if and only if the first word is its name. -/
def Right (commands : List Word) (stage : Stage) : Prop :=
  ∀ name, stage.verified commands = some name ↔ name ∈ commands ∧ stage.argv.head? = some name

/-- The text is the first word, or neither is the name of a command. -/
def Read (commands : List Word) (stage : Stage) : Prop :=
  stage.text = stage.argv.head? ∨
    (∀ word, stage.argv.head? = some word → word ∉ commands) ∧ ∀ text, stage.text = some text →
      text ∉ commands

end Stage

/-- The stages that are looked up: of two, the second one first, and the first one if that
finds a command. -/
def stages (commands : List Word) (behind : Nat → List UInt8) (line : List UInt8) : List Stage :=
  let p := parse line
  if p.argv.length = 0 then []
  else
    match p.argv2 with
    | some argv2 =>
        let second : Stage := ⟨argv2, argv2, behind p.argv.length⟩
        if (second.verified commands).isSome then [second, ⟨p.argv, p.argv, behind 0⟩] else [second]
    | none => [⟨p.argv, setArgsNullTerminaor p.argv, behind 0⟩]

/-- The commands of the processes that are created, in the order of the lookups. -/
def Ran.found : Ran → Option (List Word)
  | .notFound => none
  | .foreground command _ => some [command]
  | .background command _ => some [command]
  | .piped command _ command2 _ => some [command2, command]

section Lookup

variable {commands : List Word} {behind : Nat → List UInt8} {line : List UInt8}

/-- What is run is what all lookups find; if one finds nothing, nothing is. -/
theorem parseCommand_ran {parsed : Parsed} (eq : parseCommand commands behind line = some parsed) :
    parsed.ran.found = (stages commands behind line).mapM (Stage.verified commands) := by
  unfold parseCommand at eq
  unfold stages
  by_cases blank : (parse line).argv.length = 0
  · rw [if_pos blank] at eq
    cases eq
  · rw [if_neg blank] at eq ⊢
    cases second : (parse line).argv2 with
    | none =>
        simp only [second] at eq ⊢
        simp only [List.mapM_cons, List.mapM_nil, Stage.verified]
        cases found : verifyCommand commands (setArgsNullTerminaor (parse line).argv)
          (behind 0) with
        | none =>
            simp only [found, Option.some.injEq] at eq
            rw [← eq]
            rfl
        | some command =>
            simp only [found] at eq
            split at eq
            · cases eq
              rfl
            · cases eq
              rfl
    | some argv2 =>
        simp only [second] at eq ⊢
        rcases Option.eq_none_or_eq_some
            (verifyCommand commands argv2 (behind (parse line).argv.length)) with
          found2 | ⟨command2, found2⟩
        · simp only [found2, Option.some.injEq] at eq
          rw [← eq]
          simp [Ran.found, Stage.verified, found2]
        · rcases Option.eq_none_or_eq_some
              (verifyCommand commands (parse line).argv (behind 0)) with
            found | ⟨command, found⟩
          · simp only [found2, found, Option.some.injEq] at eq
            rw [← eq]
            simp [Ran.found, Stage.verified, found2, found]
          · simp only [found2, found, Option.some.injEq] at eq
            rw [← eq]
            simp [Ran.found, Stage.verified, found2, found]

/-- `strcmp` compares up to the NUL. -/
theorem strcmp_iff {name : Word} (free : 0 ∉ name) (s : List UInt8) :
    strcmp s name = true ↔ readString s = some name := by
  unfold strcmp
  induction s generalizing name with
  | nil =>
      rw [List.isPrefixOf_iff_prefix, readString]
      simp
  | cons c s ih =>
      cases name with
      | nil =>
          rw [readString]
          by_cases null : c = 0
          · simp [null]
          · simp [null, Ne.symm null]
      | cons d name =>
          rw [List.mem_cons, not_or] at free
          have rest := ih free.2
          rw [readString]
          by_cases null : c = 0
          · rw [if_pos null, null]
            simp [Ne.symm free.1]
          · rw [if_neg null, List.cons_append, List.isPrefixOf_cons_cons, Bool.and_eq_true,
              rest, beq_iff_eq, Option.map_eq_some_iff]
            constructor
            · rintro ⟨rfl, read⟩
              exact ⟨name, read, rfl⟩
            · rintro ⟨text, read, eq⟩
              obtain ⟨rfl, rfl⟩ := List.cons.inj eq
              exact ⟨rfl, read⟩

/-- A command is found exactly when its name is what is read. -/
theorem getCommand_iff (named : ∀ name ∈ commands, 0 ∉ name) (s : List UInt8) (name : Word) :
    getCommand commands s = some name ↔ name ∈ commands ∧ readString s = some name := by
  unfold getCommand
  constructor
  · intro found
    have mem := List.mem_of_find?_eq_some found
    exact ⟨mem, (strcmp_iff (named name mem) s).mp (List.find?_some found)⟩
  · rintro ⟨mem, read⟩
    have equal := (strcmp_iff (named name mem) s).mpr read
    cases found : commands.find? (strcmp s) with
    | none => exact absurd equal (List.find?_eq_none.mp found name mem)
    | some other =>
        have other_mem := List.mem_of_find?_eq_some found
        have read' := (strcmp_iff (named other other_mem) s).mp (List.find?_some found)
        exact congrArg some (Option.some.inj (read'.symm.trans read))

/-- A stage is looked up right exactly when its words are read as they are. -/
theorem right_iff (named : ∀ name ∈ commands, 0 ∉ name) (stage : Stage) :
    stage.Right commands ↔ stage.Read commands := by
  have found : ∀ name, stage.verified commands = some name ↔ name ∈ commands ∧
      stage.text = some name :=
    getCommand_iff named _
  constructor
  · intro right
    by_cases same : stage.text = stage.argv.head?
    · exact Or.inl same
    · refine Or.inr ⟨fun word first mem => ?_, fun text read mem => ?_⟩
      · have both := (found word).mp ((right word).mpr ⟨mem, first⟩)
        exact same (both.2.trans first.symm)
      · have both := (right text).mp ((found text).mpr ⟨mem, read⟩)
        exact same (read.trans both.2.symm)
  · rintro (same | ⟨no_word, no_text⟩) name
    · rw [found, same]
    · rw [found]
      exact ⟨fun both => absurd both.1 (no_text name both.2), fun both =>
        absurd both.1 (no_word name both.2)⟩

/-- A word is read as it is when a NUL is behind it, or when it is terminated. -/
theorem read_word {w : Word} (free : 0 ∉ w) (rest : List Word) (behind : List UInt8) :
    (Stage.mk (w :: rest) (setArgsNullTerminaor (w :: rest)) behind).Read commands ∧
      ((Stage.mk (w :: rest) (w :: rest) behind).Read commands ↔ behind.head? = some 0 ∨
        w ∉ commands ∧ ∀ t, readString behind = some t → w ++ t ∉ commands) := by
  constructor
  · left
    show readString (w ++ [0] ++ behind) = some w
    rw [List.append_assoc, readString_word free, List.singleton_append, readString, if_pos rfl,
      Option.map_some, List.append_nil]
  · have text : (Stage.mk (w :: rest) (w :: rest) behind).text = (readString behind).map (w ++ ·) :=
      readString_word free behind
    unfold Stage.Read
    rw [text, List.head?_cons, ← readString_nil]
    constructor
    · rintro (same | ⟨no_word, no_text⟩)
      · obtain ⟨t, read, eq⟩ := Option.map_eq_some_iff.mp same
        have nil : t = [] := by simpa using eq
        rw [nil] at read
        exact Or.inl read
      · refine Or.inr ⟨no_word w rfl, fun t read => no_text (w ++ t) ?_⟩
        rw [read, Option.map_some]
    · rintro (null | ⟨no_word, no_text⟩)
      · left
        rw [null, Option.map_some, List.append_nil]
      · refine Or.inr ⟨fun word eq => ?_, fun text read => ?_⟩
        · rw [← Option.some.inj eq]
          exact no_word
        · obtain ⟨t, behind_read, rfl⟩ := Option.map_eq_some_iff.mp read
          exact no_text t behind_read

end Lookup

/-- Each stage that is looked up: a command is found exactly if the word is its name, exactly
when the text that the word is in memory is the word, or neither is a name. Without a pipe it
is. With one, a NUL is behind the word, or neither the word nor the longer text is a name. -/
theorem lookup_iff {commands : List Word} (named : ∀ name ∈ commands, 0 ∉ name)
    (behind : Nat → List UInt8) (line : List UInt8) :
    (∀ stage ∈ stages commands behind line, (stage.Right commands ↔ stage.Read commands)) ∧
      (0 ∉ line → pipes (words line) = 0 → ∀ stage ∈ stages commands behind line,
        stage.Read commands) ∧
      (0 ∉ line → 0 < pipes (words line) → ∀ stage ∈ stages commands behind line,
        ∃ w, stage.argv.head? = some w ∧ (stage.Read commands ↔ stage.behind.head? = some 0 ∨
          w ∉ commands ∧ ∀ t, readString stage.behind = some t → w ++ t ∉ commands)) := by
  refine ⟨fun stage _ => right_iff named stage, fun noNul none stage looked => ?_,
    fun noNul pos stage looked => ?_⟩
  · rcases split_cases (words line) with ⟨-, eq⟩ | ⟨pos, -⟩
    · unfold stages at looked
      rw [parse_line, eq] at looked
      dsimp only at looked
      split at looked
      · cases looked
      · rename_i some_word
        rw [List.mem_singleton.mp looked]
        cases ws : words line with
        | nil => exact absurd (by rw [ws]; rfl) some_word
        | cons w rest =>
            exact (read_word (words_free noNul w (by rw [ws]; exact List.mem_cons_self)) rest _).1
    · omega
  · rcases split_cases (words line) with ⟨zero, -⟩ | ⟨-, argv, dropped, argv2, ws, some₁,
      some₂, eq, -⟩
    · omega
    · have stored : stage.stored = stage.argv ∧ (stage.argv = argv ∨ stage.argv = argv2) := by
        unfold stages at looked
        rw [parse_line, eq] at looked
        dsimp only at looked
        rw [if_neg (by simpa using some₁)] at looked
        split at looked
        · rw [List.mem_cons, List.mem_singleton] at looked
          rcases looked with rfl | rfl
          · exact ⟨rfl, Or.inr rfl⟩
          · exact ⟨rfl, Or.inl rfl⟩
        · rw [List.mem_singleton.mp looked]
          exact ⟨rfl, Or.inr rfl⟩
      have first : ∃ w rest, stage.argv = w :: rest ∧ w ∈ words line := by
        rw [ws]
        rcases stored.2 with part | part
        · obtain ⟨w, rest, parts⟩ := List.exists_cons_of_ne_nil some₁
          exact ⟨w, rest, part.trans parts, by simp [parts]⟩
        · obtain ⟨w, rest, parts⟩ := List.exists_cons_of_ne_nil some₂
          exact ⟨w, rest, part.trans parts, by simp [parts]⟩
      obtain ⟨w, rest, parts, mem⟩ := first
      obtain ⟨stage_argv, stage_stored, stage_behind⟩ := stage
      obtain rfl : stage_stored = stage_argv := stored.1
      obtain rfl : stage_stored = w :: rest := parts
      exact ⟨w, rfl, (read_word (words_free noNul w mem) rest stage_behind).2⟩

/-- `a ! b` with both commands and a NUL behind each word, and `a` with an `x` behind it. -/
theorem lookup_iff_piped :
    (∀ stage ∈ stages [[97], [98]] (fun _ => [0]) [97, 32, 33, 32, 98], stage.Right [[97], [98]]) ∧
      (stages [[97], [98]] (fun _ => [0]) [97, 32, 33, 32, 98]).length = 2 ∧
      ∀ stage ∈ stages [[97], [98]] (fun _ => [120, 0]) [97], stage.Right [[97], [98]] := by
  have named : ∀ name ∈ ([[97], [98]] : List Word), 0 ∉ name := by decide
  have piped := lookup_iff named (fun _ => [0]) [97, 32, 33, 32, 98]
  have single := lookup_iff named (fun _ => [120, 0]) [97]
  refine ⟨fun stage looked => (piped.1 _ looked).mpr ?_, rfl, fun stage looked =>
    (single.1 _ looked).mpr (single.2.1 (by decide) (by decide) _ looked)⟩
  obtain ⟨w, -, read⟩ := piped.2.2 (by decide) (by decide) _ looked
  refine read.mpr (Or.inl ?_)
  have behind : ∀ stage ∈ stages [[97], [98]] (fun _ => [0]) [97, 32, 33, 32, 98],
      stage.behind.head? = some 0 := by
    decide
  exact behind stage looked

/-- `a ! a`: behind the second word there is an `x`, so `ax` is looked up. -/
theorem lookup_unterminated : ∃ stage ∈ stages [[97]] (fun _ => [120, 0]) [97, 32, 33, 32, 97],
    stage.argv = [[97]] ∧ stage.verified [[97]] = none ∧ ¬ stage.Right [[97]] := by
  refine ⟨⟨[[97]], [[97]], [120, 0]⟩, List.mem_cons_self, rfl, rfl, fun right => ?_⟩
  cases (right [97]).mpr ⟨List.mem_cons_self, rfl⟩

end SoTp.Shell
