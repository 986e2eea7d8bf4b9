/-
The tab key (`autocomplete` in `Userland/UserModule/c2/shell.c`). A name is the characters
before its NUL, and `Array_push` puts a character behind `currentCommand`.

* `compareName_plain`, `compareName_spaced` — what one name is found to be.
* `scanCommands_plain` — the scan of the table finds the only name that goes on, if there is one.
* `autocomplete_completes` — the line becomes that name, and stays as it is in any other case.
-/

import SoTp.Shell.CommandLine

namespace SoTp.Shell

open SoTp.Lib

/-- The inner loop: `match` and `k`, or `none` where it returns at a space. -/
def compareName : List UInt8 → Word → Nat → Option (Bool × Nat)
  | [], _, k => some (true, k)
  | _ :: _, [], k => some (true, k)
  | c :: cc, d :: command, k =>
      if c = space then none
      else if c ≠ d then some (false, k + 1)
      else compareName cc command (k + 1)

structure Scan where
  matchCount : Nat
  matchIdx : Nat
  len : Nat

/-- The outer loop, from the command `i` on; `none` where it returns. -/
def scanCommands (cc : List UInt8) : List Word → Nat → Scan → Option Scan
  | [], _, s => some s
  | command :: commands, i, s =>
      match compareName cc command 0 with
      | none => none
      | some (matched, k) =>
          if matched = true ∧ k < command.length then
            if s.matchCount + 1 > 1 then none
            else scanCommands cc commands (i + 1) ⟨s.matchCount + 1, i, k⟩
          else scanCommands cc commands (i + 1) s

/-- What is printed and pushed, character by character. -/
def typeRest : Word → List UInt8 × List UInt8 → List UInt8 × List UInt8
  | [], out => out
  | c :: rest, (currentCommand, printed) => typeRest rest (currentCommand ++ [c], printed ++ [c])

/-- `currentCommand`, and what is printed. -/
def autocomplete (commands : List Word) (currentCommand : List UInt8) : List UInt8 × List UInt8 :=
  match scanCommands currentCommand commands 0 ⟨0, 0, 0⟩ with
  | none => (currentCommand, [])
  | some s =>
      if s.matchCount = 0 then (currentCommand, [])
      else typeRest ((commands.getD s.matchIdx []).drop s.len) (currentCommand, [])

/-! ### One name -/

/-- The name goes on behind the line. -/
def Completes (line : List UInt8) (name : Word) : Prop := line <+: name ∧ line ≠ name

instance (line : List UInt8) (name : Word) : Decidable (Completes line name) := by
  unfold Completes
  infer_instance

section Names

variable {cc line : List UInt8} {c d : UInt8} {rest name : Word}

theorem completes_nil : Completes [] rest ↔ rest ≠ [] := by
  simp [Completes, eq_comm]

theorem completes_cons : Completes (c :: cc) (d :: rest) ↔ c = d ∧ Completes cc rest := by
  unfold Completes
  rw [List.cons_prefix_cons, ne_eq, List.cons.injEq]
  tauto

theorem not_completes_nil : ¬ Completes (c :: cc) [] := fun completes => by
  have := completes.1.length_le
  simp at this

/-- The rest of a name completes it. -/
theorem Completes.append_drop (completes : Completes line name) :
    line ++ name.drop line.length = name := by
  obtain ⟨rest, rfl⟩ := completes.1
  rw [List.drop_left]

/-- In names without a space, a line with one goes on nowhere. -/
theorem Completes.plain (completes : Completes line name) (free : space ∉ name) : space ∉ line :=
  fun mem => free (completes.1.subset mem)

/-- Without a space, the loop finds whether the name goes on behind the line. -/
theorem compareName_plain (plain : space ∉ cc) (rest : Word) (k : Nat) : ∃ matched k',
    compareName cc rest k = some (matched, k') ∧
      (matched = true ∧ k' < k + rest.length ↔ Completes cc rest) ∧
      (Completes cc rest → k' = k + cc.length) := by
  induction cc generalizing rest k with
  | nil =>
      refine ⟨true, k, by rw [compareName], ?_, fun _ => rfl⟩
      rw [completes_nil, ← List.length_pos_iff]
      simp
  | cons c cc ih =>
      rw [List.mem_cons, not_or] at plain
      cases rest with
      | nil =>
          exact ⟨true, k, rfl, by simp [not_completes_nil], fun completes =>
            absurd completes not_completes_nil⟩
      | cons d rest =>
          rw [compareName, if_neg (Ne.symm plain.1)]
          by_cases same : c = d
          · obtain ⟨matched, k', compared, goes_on, length⟩ := ih plain.2 rest (k + 1)
            refine ⟨matched, k', by rw [if_neg (not_not.mpr same), compared], ?_,
              fun completes => ?_⟩
            · rw [completes_cons, ← goes_on, List.length_cons]
              have : k + 1 + rest.length = k + (rest.length + 1) := by omega
              rw [this]
              tauto
            · rw [length (completes_cons.mp completes).2, List.length_cons]
              omega
          · refine ⟨false, k + 1, by rw [if_pos same], ?_, fun completes => ?_⟩
            · rw [completes_cons]
              simp [same]
            · exact absurd (completes_cons.mp completes).1 same

/-- With a space, the loop returns or finds no match. -/
theorem compareName_spaced (spaced : space ∈ cc) (free : space ∉ rest) (k : Nat) :
    compareName cc rest k = none ∨
    ∃ matched k', compareName cc rest k = some (matched, k') ∧
      ¬ (matched = true ∧ k' < k + rest.length) := by
  induction cc generalizing rest k with
  | nil => cases spaced
  | cons c cc ih =>
      cases rest with
      | nil => exact Or.inr ⟨true, k, rfl, by simp⟩
      | cons d rest =>
          rw [compareName]
          by_cases here : c = space
          · exact Or.inl (if_pos here)
          rw [if_neg here]
          by_cases same : c = d
          · have later : space ∈ cc := (List.mem_cons.mp spaced).resolve_left (Ne.symm here)
            have free' : space ∉ rest := fun mem => free (List.mem_cons_of_mem _ mem)
            rw [if_neg (not_not.mpr same)]
            have length : k + 1 + rest.length = k + (d :: rest).length := by
              rw [List.length_cons]; omega
            rw [← length]
            exact ih later free' (k + 1)
          · exact Or.inr ⟨false, k + 1, if_pos same, by simp⟩

end Names

/-! ### The table -/

/-- The names that go on behind the line, in their order. -/
def completions (line : List UInt8) (commands : List Word) : List Word :=
  commands.filter fun name => decide (Completes line name)

section Table

variable {line : List UInt8} {commands : List Word} {name : Word}

/-- The completions are the names that begin with the line and go on. -/
theorem mem_completions : name ∈ completions line commands ↔ name ∈ commands ∧
    Completes line name := by
  rw [completions, List.mem_filter, decide_eq_true_iff]

/-- One name more. -/
theorem completions_cons (line : List UInt8) (name : Word) (commands : List Word) :
    completions line (name :: commands) =
      if Completes line name then name :: completions line commands
        else completions line commands := by
  rw [completions, List.filter_cons]
  simp only [decide_eq_true_iff]
  rfl

/-- A round of the scan. -/
theorem scanCommands_cons (plain : space ∉ line) (i : Nat) (s : Scan) :
    scanCommands line (name :: commands) i s =
      if Completes line name then
        if s.matchCount = 0 then scanCommands line commands (i + 1) ⟨1, i, line.length⟩ else none
      else scanCommands line commands (i + 1) s := by
  obtain ⟨matched, k, compared, goes_on, length⟩ := compareName_plain plain name 0
  rw [Nat.zero_add] at goes_on length
  rw [scanCommands, compared]
  dsimp only
  by_cases completes : Completes line name
  · rw [if_pos (goes_on.mpr completes), if_pos completes, length completes]
    by_cases first : s.matchCount = 0
    · have once : ¬ s.matchCount + 1 > 1 := by omega
      rw [if_pos first, if_neg once, first]
    · have again : s.matchCount + 1 > 1 := by omega
      rw [if_neg first, if_pos again]
  · rw [if_neg (mt goes_on.mp completes), if_neg completes]

/-- Behind a match, one more ends the scan. -/
theorem scanCommands_matched (plain : space ∉ line) (i : Nat) {s : Scan}
    (matched : s.matchCount ≠ 0) :
    scanCommands line commands i s = if completions line commands = [] then some s else none := by
  induction commands generalizing i with
  | nil => rfl
  | cons name commands ih =>
      rw [scanCommands_cons plain, completions_cons]
      by_cases completes : Completes line name
      · rw [if_pos completes, if_neg matched, if_pos completes, if_neg (List.cons_ne_nil _ _)]
      · rw [if_neg completes, if_neg completes, ih]

/-- The scan finds the only name that goes on; where there are several it returns. -/
theorem scanCommands_plain (commands : List Word) (plain : space ∉ line) (i : Nat) {s : Scan}
    (start : s.matchCount = 0) :
    match completions line commands with
    | [] => scanCommands line commands i s = some s
    | [name] =>
        ∃ j, commands[j]? = some name ∧ scanCommands line commands i s =
          some ⟨1, i + j, line.length⟩
    | _ => scanCommands line commands i s = none := by
  induction commands generalizing i with
  | nil => rfl
  | cons name commands ih =>
      rw [scanCommands_cons plain, completions_cons]
      by_cases completes : Completes line name
      · rw [if_pos completes, if_pos start, if_pos completes,
          scanCommands_matched plain _ Nat.one_ne_zero]
        cases others : completions line commands with
        | nil => exact ⟨0, rfl, if_pos rfl⟩
        | cons other others => exact if_neg (List.cons_ne_nil _ _)
      · rw [if_neg completes, if_neg completes]
        have rest := ih (i + 1)
        split at rest
        · exact rest
        · obtain ⟨j, there, found⟩ := rest
          exact ⟨j + 1, there, by rw [found, Nat.add_assoc, Nat.add_comm 1 j]⟩
        · exact rest

/-- A line with a space is not matched. -/
theorem scanCommands_spaced (spaced : space ∈ line) (spaceless : ∀ name ∈ commands, space ∉ name)
    (i : Nat)
    (s : Scan) : scanCommands line commands i s = none ∨ scanCommands line commands i s =
      some s := by
  induction commands generalizing i with
  | nil => exact Or.inr rfl
  | cons name commands ih =>
      have rest := ih (fun other mem => spaceless other (List.mem_cons_of_mem _ mem)) (i + 1)
      rw [scanCommands]
      rcases compareName_spaced spaced
        (spaceless name List.mem_cons_self) 0 with returns | ⟨matched, k, compared, no⟩
      · rw [returns]
        exact Or.inl rfl
      · rw [Nat.zero_add] at no
        rw [compared]
        dsimp only
        rw [if_neg no]
        exact rest

end Table

/-! ### The line -/

section Line

variable {commands : List Word} {line : List UInt8} {name : Word}

/-- The rest is typed and printed. -/
theorem typeRest_append (rest : Word) (out : List UInt8 × List UInt8) :
    typeRest rest out = (out.1 ++ rest, out.2 ++ rest) := by
  induction rest generalizing out with
  | nil => simp [typeRest]
  | cons c rest ih =>
      rw [typeRest, ih]
      simp

/-- The only completion is printed and pushed. -/
theorem autocomplete_one (plain : space ∉ line) (one : completions line commands = [name]) :
    autocomplete commands line = (name, name.drop line.length) := by
  have completes : Completes line name :=
    (mem_completions.mp (one ▸ List.mem_singleton_self name)).2
  have scanned := scanCommands_plain commands plain 0 (s := ⟨0, 0, 0⟩) rfl
  rw [one] at scanned
  obtain ⟨j, there, found⟩ := scanned
  rw [Nat.zero_add] at found
  have at_j : commands.getD j [] = name := by
    rw [List.getD_eq_getElem?_getD, there, Option.getD_some]
  unfold autocomplete
  rw [found]
  dsimp only
  rw [if_neg Nat.one_ne_zero, at_j, typeRest_append, completes.append_drop, List.nil_append]

/-- Without a completion, or with several, nothing happens. -/
theorem autocomplete_other (plain : space ∉ line)
    (other : ∀ name, completions line commands ≠ [name]) :
    autocomplete commands line = (line, []) := by
  have scanned := scanCommands_plain commands plain 0 (s := ⟨0, 0, 0⟩) rfl
  unfold autocomplete
  split at scanned
  · rw [scanned]
    exact if_pos rfl
  · rename_i name one
    exact absurd one (other name)
  · rw [scanned]

/-- A line with a space has no completion. -/
theorem autocomplete_spaced (spaced : space ∈ line) (spaceless : ∀ name ∈ commands, space ∉ name) :
    autocomplete commands line = (line, []) := by
  unfold autocomplete
  rcases scanCommands_spaced spaced spaceless 0 ⟨0, 0, 0⟩ with returns | nothing
  · rw [returns]
  · rw [nothing]
    exact if_pos rfl

/-- The only name that goes on is the only completion, when no name is there twice. -/
theorem completions_one (distinct : commands.Nodup) (mem : name ∈ commands)
    (completes : Completes line name)
    (only : ∀ other ∈ commands, Completes line other → other = name) :
      completions line commands = [name] := by
  have inside : name ∈ completions line commands := mem_completions.mpr ⟨mem, completes⟩
  have nodup : (completions line commands).Nodup := distinct.filter _
  have all : ∀ other ∈ completions line commands, other = name := fun other mem =>
    only other (mem_completions.mp mem).1 (mem_completions.mp mem).2
  match eq : completions line commands with
  | [] =>
      rw [eq] at inside
      cases inside
  | [other] =>
      rw [all other (eq ▸ List.mem_cons_self)]
  | first :: second :: rest =>
      rw [eq] at nodup all
      have same : first = second := (all first (by simp)).trans (all second (by simp)).symm
      exact absurd (same ▸ List.mem_cons_self) (List.nodup_cons.mp nodup).1

/-- The line becomes the name that it is a proper prefix of, if there is exactly one, and
stays as it is in any other case. -/
theorem autocomplete_completes (distinct : commands.Nodup)
    (spaceless : ∀ name ∈ commands, space ∉ name) (line : List UInt8) :
    (∀ name ∈ commands, Completes line name →
      (∀ other ∈ commands, Completes line other → other = name) →
      (autocomplete commands line).1 = name) ∧
    ((¬ ∃ name ∈ commands, Completes line name ∧ ∀ other ∈ commands, Completes line other →
      other = name) → (autocomplete commands line).1 = line) := by
  constructor
  · intro name mem completes only
    rw [autocomplete_one (completes.plain (spaceless name mem))
      (completions_one distinct mem completes only)]
  · intro not_one
    by_cases spaced : space ∈ line
    · rw [autocomplete_spaced spaced spaceless]
    · rw [autocomplete_other spaced]
      intro name one
      obtain ⟨mem, completes⟩ := mem_completions.mp (one ▸ List.mem_singleton_self name)
      refine not_one ⟨name, mem, completes, fun other there goes_on => ?_⟩
      have found : other ∈ completions line commands := mem_completions.mpr ⟨there, goes_on⟩
      rw [one] at found
      exact List.mem_singleton.mp found

/-- `ps` and `phylo`: `ph` is completed, `p` is not. -/
theorem autocomplete_completes_two :
    (autocomplete [[112, 115], [112, 104, 121, 108, 111]] [112, 104]).1 =
      [112, 104, 121, 108, 111] ∧
      (autocomplete [[112, 115], [112, 104, 121, 108, 111]] [112]).1 = [112] := by
  have distinct : [[112, 115], [112, 104, 121, 108, (111 : UInt8)]].Nodup := by decide
  have spaceless : ∀ name ∈ [[112, 115], [112, 104, 121, 108, (111 : UInt8)]], space ∉ name := by
    decide
  exact ⟨(autocomplete_completes distinct spaceless [112, 104]).1 _ (by decide) (by decide)
    (by decide), (autocomplete_completes distinct spaceless [112]).2 (by decide)⟩

end Line

end SoTp.Shell
