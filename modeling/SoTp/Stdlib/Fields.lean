/-
The fields that `printf` lays out, and its result, which is to count them. The sign of a
number is printed before what fills the field, and a number that is longer than the field is
counted as the field.

* `printf_fields_iff` — for every format, when the output and the result are right.
-/

import SoTp.Stdlib.Pieces

namespace SoTp.Stdlib

open SoTp.Lib

namespace Piece

/-- Characters, `%%`, `%c`, `%s`, `%d`, and `%u` of a number below `2^31`. -/
def Common : Piece → Prop
  | number _ .d _ => True
  | number _ .u w => w % 2 ^ 32 < 2 ^ 31
  | number _ _ _ => False
  | _ => True

/-- The text of a number's value. -/
def valueText (w : Nat) : Text := sign (int32 w) ++ digits 10 (int32 w)

/-- The field: the text with what fills it before it, or behind it if there is a `-`. Zeros
before the digits go behind the sign. -/
def field : Piece → Text
  | literal c _ => [c]
  | percent => ['%']
  | char w => [Char.ofNat (w % 2 ^ 8)]
  | string padding s => left padding s.length ++ s ++ right padding s.length
  | number padding _ w =>
      let filled := left padding (valueText w).length
      if padding.any Padding.zero then
        sign (int32 w) ++ filled ++ digits 10 (int32 w) ++ right padding (valueText w).length
      else filled ++ valueText w ++ right padding (valueText w).length

/-- Without a padding, or with one too short, a number is longer than it is counted. -/
def Counted : Piece → Prop
  | number padding _ w => (valueText w).length ≤ width padding
  | _ => True

/-- No blanks fill the field of a negative number on the left. -/
def LaidOut : Piece → Prop
  | number padding _ w =>
      ¬ (int32 w < 0 ∧ ∃ x, padding = some x ∧ x.minus = false ∧ x.zero = false ∧
        (valueText w).length < x.width)
  | _ => True

end Piece

section Fields

variable {padding : Option Padding} {w : Nat}

/-- The padding fills up what a text of `n` characters leaves of the width. -/
theorem fill_length (padding : Option Padding) (n : Nat) :
    (fill padding n).length = width padding - n := by
  cases padding with
  | none => simp [fill, width]
  | some x => simp [fill, width]

/-- On one side or the other. -/
theorem sides_length (padding : Option Padding) (n : Nat) :
    (left padding n).length + (right padding n).length = width padding - n := by
  unfold left right
  split
  · rw [List.length_nil, Nat.zero_add, fill_length]
  · rw [List.length_nil, Nat.add_zero, fill_length]

/-- The conversions fetch the value. -/
theorem fetched_common {k : Conversion} (common : (Piece.number padding k w).Common) :
    k.fetched w = int32 w ∧ k.base = 10 ∧ k.mark = [] := by
  cases k with
  | d => exact ⟨rfl, rfl, rfl⟩
  | u =>
      refine ⟨?_, rfl, rfl⟩
      have small : w % 2 ^ 32 < 2 ^ 31 := common
      show ((uint64 (int32 w) : Nat) : Int) = int32 w
      unfold uint64 int32
      rw [Int.bmod_def]
      split <;> omega
  | x => exact absurd common id
  | li => exact absurd common id
  | lu => exact absurd common id
  | lx => exact absurd common id

/-- What a conversion prints: the sign, then the padding and the digits in their order. -/
theorem prints_common {k : Conversion} (common : (Piece.number padding k w).Common) :
    (Piece.number padding k w).prints = sign (int32 w) ++ left padding (Piece.valueText w).length ++
      digits 10 (int32 w) ++ right padding (Piece.valueText w).length := by
  obtain ⟨value, base, mark⟩ := fetched_common common
  rw [Piece.prints, numberText, value, base, mark, List.nil_append]
  rfl

/-- A field has as many characters as its width, or as the text. -/
theorem field_length (piece : Piece) : piece.field.length =
    match piece with
    | .string padding s => max (width padding) s.length
    | .number padding _ w => max (width padding) (Piece.valueText w).length
    | _ => 1 := by
  cases piece with
  | literal _ _ => rfl
  | percent => rfl
  | char _ => rfl
  | string padding s =>
      have sides := sides_length padding s.length
      simp only [Piece.field, List.length_append]
      omega
  | number padding k w =>
      have sides := sides_length padding (Piece.valueText w).length
      have text : (Piece.valueText w).length = (sign (int32 w)).length +
          (digits 10 (int32 w)).length :=
        List.length_append
      simp only [Piece.field]
      split
      · rw [List.length_append, List.length_append, List.length_append]
        omega
      · rw [List.length_append, List.length_append]
        omega

/-- As many characters are printed as the field has. -/
theorem prints_length {piece : Piece} (common : piece.Common) :
    piece.prints.length = piece.field.length := by
  cases piece with
  | number padding k w =>
      rw [prints_common common, Piece.field]
      split
      · rfl
      · simp only [Piece.valueText, List.length_append]
        omega
  | literal _ _ => rfl
  | percent => rfl
  | char _ => rfl
  | string _ _ => rfl

/-- The sign of a number comes in the right place when there is none, or nothing fills the
field before it. -/
theorem sign_placed_iff (padding : Option Padding) (blank : padding.any Padding.zero ≠ true)
    (n : Int) (ds : Text) (length : Nat) :
    sign n ++ left padding length ++ ds ++ right padding length =
        left padding length ++ (sign n ++ ds) ++ right padding length ↔
      ¬ (n < 0 ∧ ∃ x, padding = some x ∧ x.minus = false ∧ x.zero = false ∧ length < x.width) := by
  by_cases negative : n < 0
  · have minus : sign n = ['-'] := if_pos negative
    by_cases before : ∃ x, padding = some x ∧ x.minus = false ∧ length < x.width
    · obtain ⟨x, rfl, side, lt⟩ := before
      have blank : x.zero = false := Bool.eq_false_iff.mpr blank
      refine iff_of_false ?_ fun laid => laid ⟨negative, x, rfl, side, blank, lt⟩
      obtain ⟨k, more⟩ : ∃ k, x.width - length = k + 1 := ⟨_, (Nat.sub_add_cancel (by omega)).symm⟩
      simp [left, fill, side, Padding.filler, blank, more, minus, List.replicate_succ]
    · have nothing : left padding length = [] := by
        unfold left fill
        cases padding with
        | none => rfl
        | some x =>
            cases side : x.minus with
            | true => simp [side]
            | false =>
                have full : x.width - length = 0 := by
                  by_contra more
                  exact before ⟨x, rfl, side, by omega⟩
                simp [side, full]
      refine iff_of_true ?_ ?_
      · rw [nothing, List.append_nil, List.nil_append]
      · rintro ⟨-, x, some_x, side, -, lt⟩
        exact before ⟨x, some_x, side, lt⟩
  · have plain : sign n = [] := if_neg negative
    refine iff_of_true ?_ fun bad => negative bad.1
    rw [plain, List.nil_append, List.nil_append]

/-- They are the field exactly when the sign is in its place. -/
theorem prints_iff {piece : Piece} (common : piece.Common) : piece.prints = piece.field ↔
    piece.LaidOut := by
  cases piece with
  | number padding k w =>
      rw [prints_common common, Piece.field, Piece.LaidOut]
      by_cases zero : padding.any Padding.zero = true
      · rw [if_pos zero]
        refine iff_of_true rfl ?_
        rintro ⟨-, x, rfl, -, blank, -⟩
        exact absurd (zero.symm.trans blank) (by decide)
      · rw [if_neg zero, Piece.valueText]
        exact sign_placed_iff padding zero (int32 w) _ _
  | literal _ _ => exact iff_of_true rfl trivial
  | percent => exact iff_of_true rfl trivial
  | char _ => exact iff_of_true rfl trivial
  | string _ _ => exact iff_of_true rfl trivial

/-- No more characters are counted than printed, and all of them only where the padding is
counted right. -/
theorem counts_iff {piece : Piece} (common : piece.Common) :
    piece.counts ≤ piece.prints.length ∧ (piece.counts = piece.prints.length ↔ piece.Counted) := by
  have length := field_length piece
  rw [prints_length common, length]
  cases piece with
  | number padding k w =>
      obtain ⟨-, -, mark⟩ := fetched_common common
      simp only [Piece.counts, mark, List.length_nil, Piece.Counted]
      omega
  | literal _ _ => exact ⟨Nat.le_refl _, iff_of_true rfl trivial⟩
  | percent => exact ⟨Nat.le_refl _, iff_of_true rfl trivial⟩
  | char _ => exact ⟨Nat.le_refl _, iff_of_true rfl trivial⟩
  | string _ _ => exact ⟨Nat.le_refl _, iff_of_true rfl trivial⟩

/-- What is counted too little does not come back, as long as the `int32_t` does not wrap. -/
theorem int32_eq_iff {counted printed : Nat} (le : counted ≤ printed) :
    int32 counted = printed ↔ counted = printed ∧ printed < 2 ^ 31 := by
  unfold int32
  rw [Int.bmod_def]
  split <;> omega

/-- Lists joined of pieces of equal lengths are equal piece by piece. -/
theorem flatMap_eq_iff {α β : Type} (f g : α → List β) (xs : List α)
    (lengths : ∀ x ∈ xs, (f x).length = (g x).length) : xs.flatMap f = xs.flatMap g ↔
      ∀ x ∈ xs, f x = g x := by
  induction xs with
  | nil => simp
  | cons x xs ih =>
      have rest := ih fun y mem => lengths y (List.mem_cons_of_mem _ mem)
      rw [List.flatMap_cons, List.flatMap_cons, List.forall_mem_cons, ← rest]
      constructor
      · intro eq
        exact List.append_inj eq (lengths x List.mem_cons_self)
      · rintro ⟨first, others⟩
        rw [first, others]

/-- Sums of smaller numbers are equal only when the numbers are. -/
theorem sum_eq_iff {α : Type} (f g : α → Nat) (xs : List α) (le : ∀ x ∈ xs, f x ≤ g x) :
    (xs.map f).sum ≤ (xs.map g).sum ∧ ((xs.map f).sum = (xs.map g).sum ↔ ∀ x ∈ xs, f x = g x) := by
  induction xs with
  | nil => simp
  | cons x xs ih =>
      have rest := ih fun y mem => le y (List.mem_cons_of_mem _ mem)
      have first := le x List.mem_cons_self
      rw [List.map_cons, List.map_cons, List.sum_cons, List.sum_cons,
        List.forall_mem_cons, ← rest.2]
      omega

end Fields

/-- For every format of these pieces, with its arguments: the output is the fields, and the
result the number of characters, exactly when no blanks come between a `-` and its digits, no
number is longer than its padding's width, and an `int32_t` holds the number. -/
theorem printf_fields_iff (paddingChar : Char) (paddingSign : Int) (pieces : List Piece)
    (common : ∀ piece ∈ pieces, piece.Common) {rounds : Nat} (enough : 2 * pieces.length < rounds) :
    (∃ p n, printf rounds paddingChar paddingSign (pieces.flatMap Piece.fmt)
        (pieces.flatMap Piece.args) =
        .ok (p, n) ∧ p.out = pieces.flatMap Piece.field ∧ n = p.out.length) ↔
      (∀ piece ∈ pieces, piece.LaidOut ∧ piece.Counted) ∧
        (pieces.flatMap Piece.field).length < 2 ^ 31 := by
  obtain ⟨p, run, out⟩ := printf_pieces paddingChar paddingSign pieces enough
  have lengths : ∀ piece ∈ pieces, piece.prints.length = piece.field.length :=
    fun piece mem => prints_length (common piece mem)
  have texts := flatMap_eq_iff Piece.prints Piece.field pieces lengths
  have sums := sum_eq_iff Piece.counts (fun piece => piece.prints.length) pieces
    fun piece mem => (counts_iff (common piece mem)).1
  have printed : p.out.length = (pieces.map fun piece => piece.prints.length).sum := by
    rw [out, List.length_flatMap]
  have right :
      (p.out = pieces.flatMap Piece.field ∧ int32 (pieces.map Piece.counts).sum = p.out.length) ↔
      (∀ piece ∈ pieces, piece.LaidOut ∧ piece.Counted) ∧
        (pieces.flatMap Piece.field).length < 2 ^ 31 := by
    rw [printed, int32_eq_iff sums.1, sums.2, ← printed, out, texts]
    constructor
    · rintro ⟨same, counted, small⟩
      rw [texts.mpr same] at small
      refine ⟨fun piece mem => ⟨?_, ?_⟩, small⟩
      · exact (prints_iff (common piece mem)).mp (same piece mem)
      · exact (counts_iff (common piece mem)).2.mp (counted piece mem)
    · rintro ⟨both, small⟩
      have same : ∀ piece ∈ pieces, piece.prints = piece.field :=
        fun piece mem => (prints_iff (common piece mem)).mpr (both piece mem).1
      rw [← texts.mpr same] at small
      exact ⟨same, fun piece mem => (counts_iff (common piece mem)).2.mpr (both piece mem).2, small⟩
  rw [← right]
  constructor
  · rintro ⟨q, n, run', out', count⟩
    cases run.symm.trans run'
    exact ⟨out', count⟩
  · rintro ⟨out', count⟩
    exact ⟨p, _, run, out', count⟩

/-- `%5`. -/
def five : Padding where
  minus := false
  zero := false
  number := ['5']
  short := by decide
  digits := List.forall_mem_singleton.mpr rfl
  first := by decide
  positive := by decide +kernel

/-- `%5u:%s %5d` of 7, `ok` and 12. -/
def threeFields : List Piece :=
  [.number (some five) .u 7, .literal ':' (by decide), .string none ['o', 'k'],
    .literal ' ' (by decide), .number (some five) .d 12]

theorem printf_fields_iff_three : ∃ p n,
    printf 11 ' ' 1 "%5u:%s %5d".toList [.word 7, .string ['o', 'k'], .word 12] = .ok (p, n) ∧
      p.out = threeFields.flatMap Piece.field ∧ n = p.out.length := by
  have common : ∀ piece ∈ threeFields, piece.Common := by
    intro piece mem
    simp only [threeFields, List.mem_cons, List.not_mem_nil, or_false] at mem
    rcases mem with rfl | rfl | rfl | rfl | rfl
    · exact (by decide : 7 % 2 ^ 32 < 2 ^ 31)
    all_goals trivial
  have right := printf_fields_iff ' ' 1 threeFields common (by decide : 2 * 5 < 11)
  apply right.mpr
  refine ⟨fun piece mem => ?_, by decide +kernel⟩
  simp only [threeFields, List.mem_cons, List.not_mem_nil, or_false] at mem
  rcases mem with rfl | rfl | rfl | rfl | rfl
  · refine ⟨fun bad => absurd bad.1 (by decide), ?_⟩
    exact (by decide +kernel : (Piece.valueText 7).length ≤ width (some five))
  · exact ⟨trivial, trivial⟩
  · exact ⟨trivial, trivial⟩
  · exact ⟨trivial, trivial⟩
  · refine ⟨fun bad => absurd bad.1 (by decide), ?_⟩
    exact (by decide +kernel : (Piece.valueText 12).length ≤ width (some five))

/-- `%5d` of -5, and `%d` of 5, which counts nothing. -/
theorem printf_sign_before_blanks :
    ((printf 3 ' ' 1 "%5d".toList [.word (2 ^ 32 - 5)]).toOption.map fun r => (r.1.out, r.2)) =
        some ("-   5".toList, 5) ∧
      ((printf 3 ' ' 1 "%d".toList [.word 5]).toOption.map fun r => (r.1.out, r.2)) =
        some ("5".toList, 0) ∧
      ¬ ∃ p n, printf 3 ' ' 1 "%5d".toList [.word (2 ^ 32 - 5)] = .ok (p, n) ∧
        p.out = [Piece.number (some five) .d (2 ^ 32 - 5)].flatMap Piece.field ∧
          n = p.out.length := by
  have printed : ((printf 3 ' ' 1 "%5d".toList [.word (2 ^ 32 - 5)]).toOption.map fun r =>
      (r.1.out, r.2)) = some ("-   5".toList, 5) := by decide +kernel
  have field : [Piece.number (some five) .d (2 ^ 32 - 5)].flatMap Piece.field = "   -5".toList := by
    decide +kernel
  refine ⟨printed, by decide +kernel, ?_⟩
  rintro ⟨p, n, run, out, -⟩
  rw [run, Except.toOption, Option.map_some, Option.some_inj, out, field] at printed
  have same : "   -5".toList = "-   5".toList := congrArg Prod.fst printed
  exact absurd same (by decide)

end SoTp.Stdlib
