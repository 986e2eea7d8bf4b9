/-
Command lines (`Userland/UserModule/c2/shell.c`): `parseCommand`, the entry it leaves in the
history, and `historyCopy`, which reads the entry back. A word is an array of characters.
`behind k` is what memory holds behind the array of the entry's word `k`, up to where
reading fails; nothing writes there, so it is whatever was there before.

* `parse_line` — the loop over the line collects the words that `split` keeps.
* `recalled_iff` — which lines come back from the history as they were.
-/

import SoTp.Lib.Words

namespace SoTp.Shell

open SoTp.Lib

abbrev Word := List UInt8

/-- `' '`. -/
def space : UInt8 := 32

/-- `"!"`. -/
def bang : Word := [33]

/-- `"&"`. -/
def ampersand : Word := [38]

/-! ### Collecting the words -/

/-- The variables of the loop. `arg` is the last word of `currentArgv`, which is `argv2`
once there is one. -/
structure Parse where
  argv : List Word
  argv2 : Option (List Word)
  newWord : Bool

namespace Parse

def currentArgv (p : Parse) : List Word := p.argv2.getD p.argv

def arg (p : Parse) : Option Word := p.currentArgv.getLast?

def setCurrentArgv (p : Parse) (argv : List Word) : Parse :=
  match p.argv2 with
  | none => { p with argv := argv }
  | some _ => { p with argv2 := some argv }

/-- A new word, in a new `argv2` if the word before is `!`. -/
def begin (p : Parse) : Parse :=
  let p := if p.arg = some bang then { p with argv2 := some [] } else p
  { p.setCurrentArgv (p.currentArgv ++ [[]]) with newWord := false }

/-- `Array_push(arg, cc + i)`. -/
def push (p : Parse) (c : UInt8) : Parse :=
  match p.arg with
  | none => p
  | some arg => p.setCurrentArgv (p.currentArgv.dropLast ++ [arg ++ [c]])

def read (p : Parse) (c : UInt8) : Parse :=
  if c = space then { p with newWord := true }
  else if p.newWord then p.begin.push c else p.push c

end Parse

def parse (line : List UInt8) : Parse := line.foldl Parse.read ⟨[], none, true⟩

/-! ### Running the command -/

/-- `strcmp(s, name) == 0`, where `s` is memory and `name` a string. -/
def strcmp (s : List UInt8) (name : Word) : Bool := (name ++ [0]).isPrefixOf s

def getCommand (commands : List Word) (name : List UInt8) : Option Word :=
  commands.find? (strcmp name)

def verifyCommand (commands : List Word) (argv : List Word) (behind : List UInt8) : Option Word :=
  getCommand commands (argv.headD [] ++ behind)

def setArgsNullTerminaor (argv : List Word) : List Word := argv.map fun arg => arg ++ [0]

/-- The processes that are created. -/
inductive Ran where
  | notFound
  | foreground (command : Word) (argv : List Word)
  | background (command : Word) (argv : List Word)
  | piped (command : Word) (argv : List Word) (command2 : Word) (argv2 : List Word)

/-- What goes to the history, and what was run. -/
structure Parsed where
  entry : List Word
  ran : Ran

def parseCommand (commands : List Word) (behind : Nat → List UInt8) (line : List UInt8) :
    Option Parsed :=
  let p := parse line
  if p.argv.length = 0 then none
  else
    match p.argv2 with
    | some argv2 =>
        match verifyCommand commands argv2 (behind p.argv.length),
          verifyCommand commands p.argv (behind 0) with
        | some command2, some command =>
            -- The pipe is no argument, but it stays in the entry.
            some ⟨setArgsNullTerminaor p.argv ++ setArgsNullTerminaor argv2,
              .piped command p.argv.dropLast command2 argv2⟩
        | _, _ => some ⟨p.argv ++ argv2, .notFound⟩
    | none =>
        let argv := setArgsNullTerminaor p.argv
        match verifyCommand commands argv (behind 0) with
        | some command =>
            if p.argv.getLast? =
              some ampersand then some ⟨argv, .background command p.argv.dropLast⟩
            else some ⟨argv, .foreground command p.argv⟩
        | none => some ⟨argv, .notFound⟩

/-! ### Recalling the entry -/

/-- The characters up to a NUL. -/
def readString : List UInt8 → Option Word
  | [] => none
  | c :: rest => if c = 0 then some [] else (readString rest).map (c :: ·)

/-- `historyCopy` from the word at an index on: what goes to `currentCommand`. -/
def copyFrom (behind : Nat → List UInt8) : Nat → List Word → Option (List UInt8)
  | _, [] => some []
  | i, [arg] => readString (arg ++ behind i)
  | i, arg :: args => do
      let text ← readString (arg ++ behind i)
      let rest ← copyFrom behind (i + 1) args
      some (text ++ space :: rest)

def historyCopy (behind : Nat → List UInt8) (argv : List Word) : Option (List UInt8) :=
  copyFrom behind 0 argv

/-- `parseCommand`, and `historyCopy` of its entry when memory has become `atRecall`. -/
def recalled (commands : List Word) (atLookup atRecall : Nat → List UInt8) (line : List UInt8) :
    Option (List UInt8) :=
  (parseCommand commands atLookup line).bind fun parsed => historyCopy atRecall parsed.entry

/-! ### The words that are kept -/

/-- The words of a line. -/
abbrev words (line : List UInt8) : List Word := runs space line

/-- How many words `!` have a word behind them. -/
def pipes : List Word → Nat
  | w :: v :: ws => (if w = bang then 1 else 0) + pipes (v :: ws)
  | _ => 0

/-- Where the next word goes. -/
def addWord : List Word × Option (List Word) → Word → List Word × Option (List Word)
  | (argv, none), w => if argv.getLast? = some bang then (argv, some [w]) else (argv ++ [w], none)
  | (argv, some argv2), w =>
      if argv2.getLast? = some bang then (argv, some [w]) else (argv, some (argv2 ++ [w]))

/-- `argv` and `argv2`. -/
def split (ws : List Word) : List Word × Option (List Word) := ws.foldl addWord ([], none)

section Split

theorem split_snoc (ws : List Word) (w : Word) : split (ws ++ [w]) = addWord (split ws) w := by
  simp [split]

theorem begin_push (argv : List Word) (argv2 : Option (List Word)) (newWord : Bool) (c : UInt8) :
    ((Parse.mk argv argv2 newWord).begin.push c) =
      ⟨(addWord (argv, argv2) [c]).1, (addWord (argv, argv2) [c]).2, false⟩ := by
  cases argv2 with
  | none =>
      by_cases piped : argv.getLast? = some bang
      · simp [Parse.begin, Parse.push, Parse.arg, Parse.currentArgv, Parse.setCurrentArgv,
          addWord, piped]
      · simp [Parse.begin, Parse.push, Parse.arg, Parse.currentArgv, Parse.setCurrentArgv,
          addWord, piped]
  | some argv2 =>
      by_cases piped : argv2.getLast? = some bang
      · simp [Parse.begin, Parse.push, Parse.arg, Parse.currentArgv, Parse.setCurrentArgv,
          addWord, piped]
      · simp [Parse.begin, Parse.push, Parse.arg, Parse.currentArgv, Parse.setCurrentArgv,
          addWord, piped]

/-- A word that gets longer stays where it is. -/
theorem push_addWord (argvs : List Word × Option (List Word)) (w : Word) (c : UInt8) :
    ((Parse.mk (addWord argvs w).1 (addWord argvs w).2 false).push c) =
      ⟨(addWord argvs (w ++ [c])).1, (addWord argvs (w ++ [c])).2, false⟩ := by
  rcases argvs with ⟨argv, none | argv2⟩
  · by_cases piped : argv.getLast? = some bang
    · simp [Parse.push, Parse.arg, Parse.currentArgv, Parse.setCurrentArgv, addWord, piped]
    · simp [Parse.push, Parse.arg, Parse.currentArgv, Parse.setCurrentArgv, addWord, piped]
  · by_cases piped : argv2.getLast? = some bang
    · simp [Parse.push, Parse.arg, Parse.currentArgv, Parse.setCurrentArgv, addWord, piped]
    · simp [Parse.push, Parse.arg, Parse.currentArgv, Parse.setCurrentArgv, addWord, piped]

/-- The loop has the words of what it has read so far. -/
theorem parse_line (line : List UInt8) :
    parse line = ⟨(split (words line)).1, (split (words line)).2, between space line⟩ := by
  induction line using List.reverseRecOn with
  | nil => rfl
  | append_singleton line c ih =>
      have step : parse (line ++ [c]) = (parse line).read c := by simp [parse]
      rw [step, ih, Parse.read, between_snoc]
      by_cases sep : c = space
      · have same : words (line ++ [c]) = words line := sep ▸ runs_snoc_sep space line
        rw [if_pos sep, same, sep]
        simp
      · rw [if_neg sep]
        have last : (c == space) = false := by simp [sep]
        rw [last]
        cases here : between space line with
        | true =>
            rw [if_pos rfl, begin_push, words, words, runs_snoc_first here sep, split_snoc]
        | false =>
            obtain ⟨ws, w, -, old, new⟩ := runs_snoc_next here sep
            rw [if_neg Bool.false_ne_true, words, words, old, new, split_snoc, split_snoc,
              push_addWord]

theorem pipes_snoc (ws : List Word) (w : Word) :
    pipes (ws ++ [w]) = pipes ws + if ws.getLast? = some bang then 1 else 0 := by
  induction ws with
  | nil => rfl
  | cons v ws ih =>
      cases ws with
      | nil => simp [pipes]
      | cons u ws =>
          have := ih
          simp only [List.cons_append, pipes, List.getLast?_cons_cons] at this ⊢
          omega

/-- Without a pipe all words are kept. With one, `argv2` has those behind the last one, and
with two or more the words between the first and the last are dropped. -/
theorem split_cases (ws : List Word) :
    (pipes ws = 0 ∧ split ws = (ws, none)) ∨
    (0 < pipes ws ∧ ∃ argv dropped argv2, ws = argv ++ dropped ++ argv2 ∧ argv ≠ [] ∧ argv2 ≠ [] ∧
      split ws = (argv, some argv2) ∧ (dropped = [] ↔ pipes ws = 1)) := by
  induction ws using List.reverseRecOn with
  | nil => exact Or.inl ⟨rfl, rfl⟩
  | append_singleton ws w ih =>
      rw [split_snoc, pipes_snoc]
      rcases ih with ⟨none, eq⟩ | ⟨pos, argv, dropped, argv2, rfl, argv_ne, argv2_ne, eq, all⟩
      · rw [eq, addWord]
        by_cases piped : ws.getLast? = some bang
        · rw [if_pos piped, if_pos piped, none]
          refine Or.inr ⟨Nat.one_pos, ws, [], [w], by simp, ?_, List.cons_ne_nil _ _, rfl, by simp⟩
          rintro rfl
          cases piped
        · rw [if_neg piped, if_neg piped]
          exact Or.inl ⟨none, rfl⟩
      · have last : (argv ++ dropped ++ argv2).getLast? = argv2.getLast? := by
          rw [List.getLast?_append]
          cases here : argv2.getLast? with
          | none => exact absurd (List.getLast?_eq_none_iff.mp here) argv2_ne
          | some v => rfl
        rw [eq, addWord, last]
        by_cases piped : argv2.getLast? = some bang
        · rw [if_pos piped, if_pos piped]
          refine Or.inr ⟨Nat.succ_pos _, argv, dropped ++ argv2, [w], by simp, argv_ne,
            List.cons_ne_nil _ _, rfl, ?_⟩
          constructor
          · intro nil
            exact absurd (List.append_eq_nil_iff.mp nil).2 argv2_ne
          · intro one
            exact absurd one (by omega)
        · rw [if_neg piped, if_neg piped]
          exact Or.inr ⟨pos, argv, dropped, argv2 ++ [w], by simp, argv_ne, by simp, rfl, all⟩

end Split

/-! ### What is read back -/

/-- What is read behind `n` words, from the word at an index on. -/
def tails (behind : Nat → List UInt8) : Nat → Nat → Option (List Word)
  | _, 0 => some []
  | i, n + 1 => do
      let tail ← readString (behind i)
      let rest ← tails behind (i + 1) n
      some (tail :: rest)

section Recall

variable {behind : Nat → List UInt8}

theorem readString_word {w : Word} (free : 0 ∉ w) (m : List UInt8) :
    readString (w ++ m) = (readString m).map (w ++ ·) := by
  induction w with
  | nil => simp
  | cons c w ih =>
      rw [List.mem_cons, not_or] at free
      rw [List.cons_append, readString, if_neg (Ne.symm free.1), ih free.2, Option.map_map]
      rfl

theorem readString_nil {m : List UInt8} : readString m = some [] ↔ m.head? = some 0 := by
  cases m with
  | nil => simp [readString]
  | cons c m =>
      rw [readString]
      split_ifs with null
      · simp [null]
      · simp [null]

theorem tails_some {i n : Nat} {ts : List Word} :
    tails behind i n = some ts ↔ ts.length = n ∧ ∀ k < n, readString (behind (i + k)) = ts[k]? := by
  induction n generalizing i ts with
  | zero =>
      simp only [tails, Option.some.injEq, Nat.not_lt_zero, false_implies, implies_true, and_true]
      exact eq_comm.trans List.length_eq_zero_iff.symm
  | succ n ih =>
      rw [tails]
      constructor
      · intro eq
        obtain ⟨t, first, eq⟩ := Option.bind_eq_some_iff.mp eq
        obtain ⟨rest, next, eq⟩ := Option.bind_eq_some_iff.mp eq
        cases eq
        obtain ⟨length, each⟩ := ih.mp next
        refine ⟨congrArg (· + 1) length, fun k lt => ?_⟩
        cases k with
        | zero => exact first
        | succ k =>
            have := each k (Nat.lt_of_succ_lt_succ lt)
            rwa [Nat.add_assoc, Nat.add_comm 1] at this
      · rintro ⟨length, each⟩
        cases ts with
        | nil => cases length
        | cons t ts =>
            have next : tails behind (i + 1) n = some ts := by
              refine ih.mpr ⟨Nat.succ.inj length, fun k lt => ?_⟩
              have := each (k + 1) (Nat.succ_lt_succ lt)
              rwa [Nat.add_comm k, ← Nat.add_assoc, Nat.add_comm 1 k] at this
            have first := each 0 (Nat.succ_pos n)
            rw [Nat.add_zero, List.getElem?_cons_zero] at first
            rw [first, next]
            rfl

/-- Words that are not terminated come with what is behind them. -/
theorem copyFrom_words {ws : List Word} (free : ∀ w ∈ ws, 0 ∉ w) (i : Nat) :
    copyFrom behind i ws =
      (tails behind i ws.length).map fun ts => joined space (List.zipWith (· ++ ·) ws ts) := by
  induction ws generalizing i with
  | nil => rfl
  | cons w ws ih =>
      have read := readString_word (free w List.mem_cons_self) (behind i)
      have rest := ih (fun v mem => free v (List.mem_cons_of_mem w mem)) (i + 1)
      cases ws with
      | nil =>
          rw [copyFrom, read, List.length_singleton, tails]
          cases readString (behind i) with
          | none => rfl
          | some tail => simp [tails, joined, List.intercalate]
      | cons v ws =>
          show (readString (w ++ behind i)).bind _ =
            ((readString (behind i)).bind fun tail =>
              (tails behind (i + 1) (v :: ws).length).bind fun ts => some (tail :: ts)).map _
          rw [read]
          cases readString (behind i) with
          | none => rfl
          | some tail =>
              rw [Option.map_some, Option.bind_some, Option.bind_some]
              show (copyFrom behind (i + 1) (v :: ws)).bind _ = _
              rw [rest]
              cases found : tails behind (i + 1) (v :: ws).length with
              | none => rfl
              | some ts =>
                  have length := (tails_some.mp found).1
                  cases ts with
                  | nil => cases length
                  | cons t ts => simp [joined_cons]

/-- Words that are terminated come alone. -/
theorem copyFrom_terminated {ws : List Word} (free : ∀ w ∈ ws, 0 ∉ w) (i : Nat) :
    copyFrom behind i (setArgsNullTerminaor ws) = some (joined space ws) := by
  have read : ∀ w, 0 ∉ w → ∀ i, readString (w ++ [0] ++ behind i) = some w := fun w free i => by
    rw [List.append_assoc, readString_word free, List.singleton_append, readString, if_pos rfl]
    simp
  induction ws generalizing i with
  | nil => rfl
  | cons w ws ih =>
      have rest := ih (fun v mem => free v (List.mem_cons_of_mem w mem)) (i + 1)
      have first := read w (free w List.mem_cons_self) i
      cases ws with
      | nil =>
          show readString (w ++ [0] ++ behind i) = _
          rw [first]
          simp [joined, List.intercalate]
      | cons v ws =>
          show (readString (w ++ [0] ++ behind i)).bind _ = _
          rw [first, Option.bind_some]
          show (copyFrom behind (i + 1) (setArgsNullTerminaor (v :: ws))).bind _ = _
          rw [rest, Option.bind_some, joined_cons]

theorem zipWith_length {ws ts : List Word} (length : ts.length = ws.length) :
    ((List.zipWith (· ++ ·) ws ts).map fun w => w.length + 1).sum =
      (ws.map fun w => w.length + 1).sum + (ts.map List.length).sum := by
  induction ws generalizing ts with
  | nil =>
      obtain rfl := List.length_eq_zero_iff.mp length
      rfl
  | cons w ws ih =>
      cases ts with
      | nil => cases length
      | cons t ts =>
          have := ih (Nat.succ.inj length)
          simp only [List.zipWith_cons_cons, List.map_cons, List.sum_cons,
            List.length_append] at this ⊢
          omega

/-- The words come back as they are if and only if a NUL happens to be behind each. -/
theorem tails_exact {ws : List Word} (some' : ws ≠ []) :
    ((tails behind 0 ws.length).map fun ts => joined space (List.zipWith (· ++ ·) ws ts)) =
        some (joined space ws) ↔
      ∀ k < ws.length, (behind k).head? = some 0 := by
  constructor
  · intro exact'
    obtain ⟨ts, read, eq⟩ := Option.map_eq_some_iff.mp exact'
    obtain ⟨length, each⟩ := tails_some.mp read
    have zip : List.zipWith (· ++ ·) ws ts ≠ [] := by
      rw [← List.length_pos_iff, List.length_zipWith, length, Nat.min_self]
      exact List.length_pos_iff.mpr some'
    have sum : (ts.map List.length).sum = 0 := by
      have whole := joined_length space some'
      rw [← eq, joined_length space zip, zipWith_length length] at whole
      exact Nat.add_eq_left.mp whole
    intro k lt
    have nil : ts[k]? = some [] := by
      rw [List.getElem?_eq_getElem (length ▸ lt), Option.some.injEq, ← List.length_eq_zero_iff]
      exact List.sum_eq_zero_iff_forall_eq_nat.mp sum _ (List.mem_map_of_mem (List.getElem_mem _))
    have first := each k lt
    rw [Nat.zero_add, nil] at first
    exact readString_nil.mp first
  · intro nul
    have read : tails behind 0 ws.length = some (List.replicate ws.length []) := by
      refine tails_some.mpr ⟨List.length_replicate, fun k lt => ?_⟩
      rw [Nat.zero_add, readString_nil.mpr (nul k lt), List.getElem?_replicate, if_pos lt]
    have same : ∀ vs : List Word, List.zipWith (· ++ ·) vs (List.replicate vs.length []) = vs :=
        fun vs => by
      induction vs with
      | nil => rfl
      | cons v vs ih =>
          rw [List.length_cons, List.replicate_succ, List.zipWith_cons_cons, ih, List.append_nil]
    rw [read, Option.map_some, same]

end Recall

/-! ### Lines that come back -/

/-- There is an `argv2`, and both lookups find a command. -/
def Found (commands : List Word) (atLookup : Nat → List UInt8) (line : List UInt8) : Prop :=
  ∃ argv argv2, split (words line) = (argv, some argv2) ∧
    (verifyCommand commands argv2 (atLookup argv.length)).isSome = true ∧
    (verifyCommand commands argv (atLookup 0)).isSome = true

/-- What memory holds behind the words that are kept, up to a NUL each, happens to make up
for the words that are dropped. -/
def Spelled (atRecall : Nat → List UInt8) (line : List UInt8) : Prop :=
  ∃ argv argv2 ts, split (words line) = (argv, some argv2) ∧
    tails atRecall 0 (argv ++ argv2).length = some ts ∧
    joined space (List.zipWith (· ++ ·) (argv ++ argv2) ts) = joined space (words line)

section Lines

variable {line : List UInt8}

theorem words_free (noNul : 0 ∉ line) : ∀ w ∈ words line, 0 ∉ w :=
  fun _ mem null => noNul (mem_runs mem 0 null)

theorem dropped_length (argv dropped argv2 : List Word) (ne : dropped ≠ []) (some' : argv2 ≠ []) :
    joined space (argv ++ argv2) ≠ joined space (argv ++ dropped ++ argv2) := by
  intro same
  have ne₁ : argv ++ argv2 ≠ [] := by simp [some']
  have ne₂ : argv ++ dropped ++ argv2 ≠ [] := by simp [some']
  have kept := joined_length space ne₁
  have whole := joined_length space ne₂
  obtain ⟨w, ws, rfl⟩ := List.exists_cons_of_ne_nil ne
  rw [← same, kept] at whole
  simp only [List.map_append, List.sum_append, List.map_cons, List.sum_cons] at whole
  omega

theorem recalled_single (noNul : 0 ∉ line) (nonblank : ∃ c ∈ line, c ≠ space) {argv : List Word}
    (eq : split (words line) = (argv, none)) (kept : argv = words line) (commands : List Word)
    (atLookup atRecall : Nat → List UInt8) :
    recalled commands atLookup atRecall line = some (joined space (words line)) := by
  subst kept
  obtain ⟨c, mem, ne⟩ := nonblank
  have some' : words line ≠ [] := runs_ne_nil mem ne
  have entry : ∃ ran, parseCommand commands atLookup line =
      some ⟨setArgsNullTerminaor (words line), ran⟩ := by
    unfold parseCommand
    rw [parse_line, eq]
    dsimp only
    rw [if_neg (by simpa using some')]
    cases verifyCommand commands (setArgsNullTerminaor (words line)) (atLookup 0) with
    | none => exact ⟨_, rfl⟩
    | some command =>
        dsimp only
        split_ifs
        · exact ⟨_, rfl⟩
        · exact ⟨_, rfl⟩
  obtain ⟨ran, entry⟩ := entry
  rw [recalled, entry, Option.bind_some]
  exact copyFrom_terminated (words_free noNul) 0

/-- A line with a pipe in it is terminated if both commands are found. -/
theorem recalled_piped {argv argv2 : List Word} (eq : split (words line) = (argv, some argv2))
    (some' : argv ≠ []) (commands : List Word) (atLookup atRecall : Nat → List UInt8) :
    (Found commands atLookup line ∧ recalled commands atLookup atRecall line =
      copyFrom atRecall 0 (setArgsNullTerminaor (argv ++ argv2))) ∨
    (¬ Found commands atLookup line ∧ recalled commands atLookup atRecall line =
      copyFrom atRecall 0 (argv ++ argv2)) := by
  have found : Found commands atLookup line ↔
      (verifyCommand commands argv2 (atLookup argv.length)).isSome = true ∧
        (verifyCommand commands argv (atLookup 0)).isSome = true := by
    constructor
    · rintro ⟨argv', argv2', eq', both⟩
      cases eq.symm.trans eq'
      exact both
    · intro both
      exact ⟨argv, argv2, eq, both⟩
  have length : argv.length ≠ 0 := by simpa using some'
  rw [found]
  unfold recalled parseCommand
  rw [parse_line, eq]
  dsimp only
  rw [if_neg length]
  cases verifyCommand commands argv2 (atLookup argv.length) with
  | none => exact Or.inr ⟨by simp, rfl⟩
  | some command2 =>
      cases verifyCommand commands argv (atLookup 0) with
      | none => exact Or.inr ⟨by simp, rfl⟩
      | some command =>
          refine Or.inl ⟨by simp, ?_⟩
          simp [setArgsNullTerminaor, historyCopy]

end Lines

/-- A line comes back as its words with single spaces if and only if no word `!` has a word
behind it; or one has, and both commands are found or each word happens to have a NUL
behind it; or several have, and memory happens to spell the words that were dropped.
Whatever commands there are and whatever is in memory, only lines of the first kind do. -/
theorem recalled_iff {line : List UInt8} (noNul : 0 ∉ line) (nonblank : ∃ c ∈ line, c ≠ space) :
    (∀ commands atLookup atRecall,
      recalled commands atLookup atRecall line = some (joined space (words line)) ↔
        pipes (words line) = 0 ∨
        (pipes (words line) = 1 ∧ (Found commands atLookup line ∨
          ∀ k < (words line).length, (atRecall k).head? = some 0)) ∨
        (1 < pipes (words line) ∧ ¬ Found commands atLookup line ∧ Spelled atRecall line)) ∧
    ((∀ commands atLookup atRecall,
      recalled commands atLookup atRecall line = some (joined space (words line))) ↔
        pipes (words line) = 0) := by
  have exact_iff : ∀ commands atLookup atRecall,
      recalled commands atLookup atRecall line = some (joined space (words line)) ↔
        pipes (words line) = 0 ∨
        (pipes (words line) = 1 ∧ (Found commands atLookup line ∨
          ∀ k < (words line).length, (atRecall k).head? = some 0)) ∨
        (1 < pipes (words line) ∧ ¬ Found commands atLookup line ∧ Spelled atRecall line) := by
    intro commands atLookup atRecall
    rcases split_cases (words line) with ⟨none, eq⟩ | ⟨pos, argv, dropped, argv2, ws, some₁,
      some₂, eq, all⟩
    · simp only [recalled_single noNul nonblank eq rfl, none, true_or]
    · have free : ∀ w ∈ argv ++ argv2, 0 ∉ w := fun w mem => by
        refine words_free noNul w ?_
        rw [ws]
        rcases List.mem_append.mp mem with mem | mem
        · exact List.mem_append_left _ (List.mem_append_left _ mem)
        · exact List.mem_append_right _ mem
      rcases recalled_piped eq some₁ commands atLookup atRecall with ⟨found, read⟩ | ⟨lost, read⟩
      · rw [read, copyFrom_terminated free, Option.some.injEq]
        constructor
        · intro same
          have one : dropped = [] := by
            by_contra ne
            exact dropped_length argv dropped argv2 ne some₂ (ws ▸ same)
          exact Or.inr (Or.inl ⟨all.mp one, Or.inl found⟩)
        · rintro (none | ⟨one, -⟩ | ⟨-, lost, -⟩)
          · omega
          · rw [ws, all.mpr one, List.append_nil]
          · exact absurd found lost
      · rw [read, copyFrom_words free]
        by_cases one : pipes (words line) = 1
        · have kept : argv ++ argv2 = words line := by rw [ws, all.mpr one, List.append_nil]
          rw [kept, tails_exact (kept ▸ List.append_ne_nil_of_left_ne_nil some₁ _)]
          simp [one, lost]
        · have several : 1 < pipes (words line) := by omega
          have spelled : Spelled atRecall line ↔
            ((tails atRecall 0 (argv ++ argv2).length).map fun ts =>
              joined space (List.zipWith (· ++ ·) (argv ++ argv2) ts)) =
                some (joined space (words line)) := by
            rw [Option.map_eq_some_iff]
            constructor
            · rintro ⟨argv', argv2', ts, eq', found⟩
              cases eq.symm.trans eq'
              exact ⟨ts, found⟩
            · rintro ⟨ts, found⟩
              exact ⟨argv, argv2, ts, eq, found⟩
          rw [← spelled]
          constructor
          · intro spelled
            exact Or.inr (Or.inr ⟨several, lost, spelled⟩)
          · rintro (none | ⟨one', -⟩ | ⟨-, -, spelled⟩)
            · omega
            · exact absurd one' one
            · exact spelled
  refine ⟨exact_iff, fun always => ?_, fun none commands atLookup atRecall =>
    (exact_iff commands atLookup atRecall).mpr (Or.inl none)⟩
  -- Without commands nothing is found; then no memory may read as it does.
  have lost : ∀ atLookup, ¬ Found [] atLookup line := by
    rintro atLookup ⟨argv, argv2, -, found, -⟩
    cases found
  obtain ⟨c, mem, ne⟩ := nonblank
  have some' : 0 < (words line).length := List.length_pos_iff.mpr (runs_ne_nil mem ne)
  rcases (exact_iff [] (fun _ => []) fun _ => [1, 0]).mp (always _ _ _) with
    none | ⟨one, found | nul⟩ | ⟨several, -, -⟩
  · exact none
  · exact absurd found (lost _)
  · cases nul 0 some'
  -- With a NUL behind every word, the words that were dropped are missed.
  · rcases (exact_iff [] (fun _ => []) fun _ => [0]).mp (always _ _ _) with
      none | ⟨one, -⟩ | ⟨-, -, argv, argv2, ts, eq, read, same⟩
    · exact none
    · omega
    · rcases split_cases (words line) with
        ⟨zero, -⟩ | ⟨-, argv', dropped, argv2', ws, some₁, some₂, eq', all⟩
      · exact zero
      · cases eq.symm.trans eq'
        have nul : ∀ k < (argv ++ argv2).length, ((fun _ => [0] : Nat → List UInt8) k).head? =
            some 0 :=
          fun _ _ => rfl
        have kept := (tails_exact (List.append_ne_nil_of_left_ne_nil some₁ argv2)).mpr nul
        rw [read, Option.map_some, same, Option.some.injEq, ws] at kept
        have ne : dropped ≠ [] := fun nil => by
          have := all.mp nil
          omega
        exact absurd kept.symm (dropped_length argv dropped argv2 ne some₂)

/-- `a ! b` with no command `b`: nothing is terminated, and what is behind the words is
read with them. -/
theorem recalled_unterminated :
    recalled [[97]] (fun _ => [120, 0]) (fun _ => [120, 0]) [97, 32, 33, 32, 98] ≠
      some (joined space (words [97, 32, 33, 32, 98])) := by
  decide

/-- `a  ! b` comes back as `a ! b` where both commands are found. -/
theorem recalled_iff_piped :
    pipes (words [97, 32, 32, 33, 32, 98]) = 1 ∧
      recalled [[97], [98]] (fun _ => [0]) (fun _ => [120, 0]) [97, 32, 32, 33, 32, 98] =
        some [97, 32, 33, 32, 98] := by
  have found : Found [[97], [98]] (fun _ => [0]) [97, 32, 32, 33, 32, 98] :=
    ⟨[[97], [33]], [[98]], rfl, rfl, rfl⟩
  exact ⟨rfl, (((recalled_iff (by decide) ⟨97, by decide⟩).1 _ _ _).mpr
    (Or.inr (Or.inl ⟨rfl, Or.inl found⟩))).trans rfl⟩

end SoTp.Shell
