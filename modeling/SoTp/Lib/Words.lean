/-
The words of a text: its maximal runs of characters that are not the separator. A text is
read from left to right, so what is said here is what one more character does.

* `runs_snoc_sep`, `runs_snoc_first`, `runs_snoc_next` — a separator changes nothing, a
  character behind one begins a word, and any other makes the last word longer.
* `joined_length` — how long the words are when they are put together again.
-/

import Mathlib.Data.List.Basic
import Mathlib.Data.List.Induction
import Mathlib.Tactic.Common
import Mathlib.Algebra.BigOperators.Group.List.Basic
import Mathlib.Algebra.Ring.Nat

namespace SoTp.Lib

variable {α : Type}

/-- The words of a text, in order. -/
def runs [BEq α] (sep : α) (text : List α) : List (List α) :=
  (text.splitOn sep).filter fun w => !w.isEmpty

/-- The words with a separator between each two. -/
def joined (sep : α) (ws : List (List α)) : List α := [sep].intercalate ws

/-- The next character that is not a separator begins a word. -/
def between [BEq α] (sep : α) (text : List α) : Bool :=
  match text.getLast? with
  | none => true
  | some c => c == sep

/-- Behind a separator a word may begin. -/
theorem between_snoc [BEq α] (sep : α) (text : List α) (c : α) :
    between sep (text ++ [c]) = (c == sep) := by
  simp [between]

/-- What stands behind the last separator. -/
theorem exists_last (sep : α) (text : List α) :
    ∃ last, sep ∉ last ∧ (text = last ∨ ∃ before, text = before ++ sep :: last) := by
  induction text with
  | nil => exact ⟨[], List.not_mem_nil, Or.inl rfl⟩
  | cons c text ih =>
      obtain ⟨last, free, rfl | ⟨before, rfl⟩⟩ := ih
      · by_cases same : c = sep
        · exact ⟨text, free, Or.inr ⟨[], by rw [same]; rfl⟩⟩
        · refine ⟨c :: text, ?_, Or.inl rfl⟩
          rw [List.mem_cons]
          rintro (eq | mem)
          · exact same eq.symm
          · exact free mem
      · exact ⟨last, free, Or.inr ⟨c :: before, rfl⟩⟩

section Runs

variable [BEq α] [LawfulBEq α] {sep c : α} {text : List α}

/-- A separator splits the text in two, -/
theorem splitOn_snoc_sep (text : List α) (last : List α) :
    (text ++ sep :: last).splitOn sep = text.splitOn sep ++ last.splitOn sep := by
  rw [List.splitOn_eq_splitOnP, List.splitOnP_append_cons _ _ (by simp)]
  rfl

/-- and without one it is one word. -/
theorem splitOn_word (free : sep ∉ text) : text.splitOn sep = [text] := by
  refine List.splitOnP_eq_singleton fun x mem => ?_
  rw [beq_eq_false_iff_ne]
  exact fun same => free (same ▸ mem)

/-- A separator begins no word, -/
theorem runs_snoc_sep (sep : α) (text : List α) : runs sep (text ++ [sep]) = runs sep text := by
  rw [runs, splitOn_snoc_sep, List.filter_append, runs]
  simp

/-- the first character of a word begins it, -/
theorem runs_snoc_first (here : between sep text = true) (ne : c ≠ sep) :
    runs sep (text ++ [c]) = runs sep text ++ [[c]] := by
  have word : [c].splitOn sep = [[c]] := splitOn_word (by simpa using ne.symm)
  rcases List.eq_nil_or_concat text with rfl | ⟨before, last, rfl⟩
  · rw [List.nil_append, runs, word]
    rfl
  · obtain rfl : last = sep := by simpa [between] using here
    rw [List.concat_eq_append, List.append_assoc, runs_snoc_sep, List.singleton_append, runs, runs,
      splitOn_snoc_sep, word, List.filter_append]
    rfl

/-- The last word is not empty and gets the character. -/
theorem runs_snoc_next (inside : between sep text = false) (ne : c ≠ sep) :
    ∃ ws w, w ≠ [] ∧ runs sep text = ws ++ [w] ∧ runs sep (text ++ [c]) = ws ++ [w ++ [c]] := by
  obtain ⟨last, free, split⟩ := exists_last sep text
  have some : last ≠ [] := by
    rintro rfl
    rcases split with rfl | ⟨before, rfl⟩ <;> simp [between] at inside
  have word : last.splitOn sep = [last] := splitOn_word free
  have longer : (last ++ [c]).splitOn sep = [last ++ [c]] := by
    refine splitOn_word ?_
    simp only [List.mem_append, List.mem_singleton]
    rintro (mem | eq)
    · exact free mem
    · exact ne eq.symm
  rcases split with rfl | ⟨before, rfl⟩
  · refine ⟨[], text, some, ?_, ?_⟩
    · rw [runs, word]
      simp [some]
    · rw [runs, longer]
      simp
  · refine ⟨runs sep before, last, some, ?_, ?_⟩
    · rw [runs, splitOn_snoc_sep, word, List.filter_append, runs]
      simp [some]
    · rw [List.append_assoc, List.cons_append, runs, splitOn_snoc_sep, longer,
        List.filter_append, runs]
      simp

/-- Words are made of characters of the text, and there is one for each that is no separator. -/
theorem mem_runs : ∀ {text : List α} {w : List α}, w ∈ runs sep text → ∀ c ∈ w, c ∈ text := by
  intro text
  induction text using List.reverseRecOn with
  | nil => intro w mem; simp [runs] at mem
  | append_singleton text c ih =>
      intro w mem x inside
      by_cases same : c = sep
      · rw [same, runs_snoc_sep] at mem
        exact List.mem_append_left _ (ih mem x inside)
      · cases here : between sep text with
        | true =>
            rw [runs_snoc_first here same, List.mem_append, List.mem_singleton] at mem
            rcases mem with mem | rfl
            · exact List.mem_append_left _ (ih mem x inside)
            · exact List.mem_append_right _ inside
        | false =>
            obtain ⟨ws, v, -, old, new⟩ := runs_snoc_next here same
            rw [old] at ih
            rw [new, List.mem_append, List.mem_singleton] at mem
            rcases mem with mem | rfl
            · exact List.mem_append_left _ (ih (List.mem_append_left _ mem) x inside)
            · rcases List.mem_append.mp inside with inside | inside
              · exact List.mem_append_left _ (ih (by simp) x inside)
              · exact List.mem_append_right _ inside

/-- and a text with a character that is no separator has a word. -/
theorem runs_ne_nil (mem : c ∈ text) (ne : c ≠ sep) : runs sep text ≠ [] := by
  induction text using List.reverseRecOn with
  | nil => cases mem
  | append_singleton text d ih =>
      by_cases same : d = sep
      · rw [same, runs_snoc_sep]
        rcases List.mem_append.mp mem with mem | eq
        · exact ih mem
        · exact absurd ((List.mem_singleton.mp eq).trans same) ne
      · cases here : between sep text with
        | true =>
            rw [runs_snoc_first here same]
            simp
        | false =>
            obtain ⟨ws, v, -, -, new⟩ := runs_snoc_next here same
            rw [new]
            simp

end Runs

section Joined

variable (sep : α)

theorem joined_cons (w v : List α) (ws : List (List α)) :
    joined sep (w :: v :: ws) = w ++ sep :: joined sep (v :: ws) := by
  simp [joined, List.intercalate]

theorem joined_length {ws : List (List α)} (some : ws ≠ []) :
    (joined sep ws).length + 1 = (ws.map fun w => w.length + 1).sum := by
  induction ws with
  | nil => exact absurd rfl some
  | cons w ws ih =>
      cases ws with
      | nil => simp [joined, List.intercalate]
      | cons v ws =>
          have := ih (List.cons_ne_nil v ws)
          rw [joined_cons, List.map_cons, List.sum_cons, ← this, List.length_append,
            List.length_cons]
          omega

end Joined

end SoTp.Lib
