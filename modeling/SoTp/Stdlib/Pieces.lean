/-
Formats that are made of pieces: characters, and conversions with their arguments. The
paddings are all that `printf` accepts.

* `printf_pieces` — what is printed and returned, whatever the padding was before.
-/

import SoTp.Stdlib.Printf

namespace SoTp.Stdlib

open SoTp.Lib

/-- A conversion of a number. -/
inductive Conversion where
  | d
  | u
  | x
  | li
  | lu
  | lx

namespace Conversion

def text : Conversion → Text
  | d => ['d']
  | u => ['u']
  | x => ['x']
  | li => ['l', 'i']
  | lu => ['l', 'u']
  | lx => ['l', 'x']

def base : Conversion → Nat
  | d | u | li | lu => 10
  | x | lx => 16

def mark : Conversion → Text
  | d | u | li | lu => []
  | x | lx => ['0', 'x']

/-- The number that gets printed. -/
def fetched : Conversion → Nat → Int
  | d, w | li, w => int32 w
  | u, w | x, w => uint64 (int32 w)
  | lu, w | lx, w => uint64 (int64 w)

end Conversion

/-- The width that digits say. -/
def widthOf (number : Text) : Nat := (readUint 10 number).getD 0

/-- A padding: `-` and `0`, and a width. -/
structure Padding where
  minus : Bool
  zero : Bool
  number : Text
  short : number.length ≤ MAX_PADDING_DIGITS
  digits : ∀ c ∈ number, IS_DIGIT c = true
  /-- A first `0` is the flag. -/
  first : zero = false → number.head? ≠ some '0'
  positive : 0 < widthOf number

namespace Padding

def text (padding : Padding) : Text :=
  (if padding.minus then ['-'] else []) ++ (if padding.zero then ['0'] else []) ++ padding.number

def width (padding : Padding) : Nat := widthOf padding.number

def filler (padding : Padding) : Char := if padding.zero then '0' else ' '

end Padding

/-- What fills a text of `n` characters. -/
def fill (padding : Option Padding) (n : Nat) : Text :=
  match padding with
  | none => []
  | some padding => List.replicate (padding.width - n) padding.filler

def left (padding : Option Padding) (n : Nat) : Text :=
  if padding.any Padding.minus then [] else fill padding n

def right (padding : Option Padding) (n : Nat) : Text :=
  if padding.any Padding.minus then fill padding n else []

/-- A number in a field. The sign comes before the filling. -/
def numberText (padding : Option Padding) (base : Nat) (mark : Text) (n : Int) : Text :=
  let length := (sign n ++ digits base n).length
  mark ++ sign n ++ left padding length ++ digits base n ++ right padding length

def width (padding : Option Padding) : Nat := (padding.map Padding.width).getD 0

def paddingText (padding : Option Padding) : Text := (padding.map Padding.text).getD []

/-- A piece of a format, with its argument. -/
inductive Piece where
  | literal (c : Char) (plain : c ≠ '%')
  | percent
  | char (w : Nat)
  | string (padding : Option Padding) (s : Text)
  | number (padding : Option Padding) (k : Conversion) (w : Nat)

namespace Piece

def fmt : Piece → Text
  | literal c _ => [c]
  | percent => ['%', '%']
  | char _ => ['%', 'c']
  | string padding _ => '%' :: (paddingText padding ++ ['s'])
  | number padding k _ => '%' :: (paddingText padding ++ k.text)

def args : Piece → List Arg
  | literal _ _ | percent => []
  | char w | number _ _ w => [.word w]
  | string _ s => [.string s]

/-- What is printed. -/
def prints : Piece → Text
  | literal c _ => [c]
  | percent => ['%']
  | char w => [Char.ofNat (w % 2 ^ 8)]
  | string padding s => left padding s.length ++ s ++ right padding s.length
  | number padding k w => numberText padding k.base k.mark (k.fetched w)

/-- What is counted for it: the width, also when the number is longer. -/
def counts : Piece → Nat
  | literal _ _ | percent | char _ => 1
  | string padding s => max (width padding) s.length
  | number padding k _ => k.mark.length + width padding

end Piece

/-! ### Printing with a padding -/

namespace Printf

variable {p : Printf}

@[simp] theorem foldl_printChar (p : Printf) (s : Text) :
    s.foldl printChar p = { p with out := p.out ++ s } := by
  induction s generalizing p with
  | nil => simp
  | cons c s ih => simp [ih, printChar]

/-- A text was printed, and the padding is used up. -/
def wrote (p : Printf) (s : Text) : Printf := { p with out := p.out ++ s, paddingLen := 0 }

/-- The padding is set. -/
structure Set (p : Printf) (padding : Option Padding) : Prop where
  len : p.paddingLen = width padding
  sign : ∀ x, padding = some x → p.paddingSign = if x.minus then -1 else 1
  filler : ∀ x, padding = some x → p.paddingChar = x.filler

/-- A text is printed with what is left of the padding for `n` characters. -/
theorem printStringWithAlignedPadding_eq {padding : Option Padding} (set : p.Set padding)
    (s : Text) (n : Nat) (len : Int) (rest : len.toNat = width padding - n) :
    ({ p with paddingLen := len }).printStringWithAlignedPadding s =
      (p.wrote (left padding n ++ s ++ right padding n), len + s.length) := by
  cases padding with
  | none =>
      have none_left : len.toNat = 0 := by simpa [width] using rest
      simp [printStringWithAlignedPadding, printPadding, printString, none_left, left, right,
        fill, wrote, Int.add_comm]
  | some padding =>
      have sign := set.sign padding rfl
      have filler := set.filler padding rfl
      have filling : len.toNat = padding.width - n := by simpa [width] using rest
      cases minus : padding.minus with
      | false =>
          rw [minus, if_neg Bool.false_ne_true] at sign
          simp [printStringWithAlignedPadding, printPadding, printString, sign, filler, filling,
            left, right, fill, minus, wrote]
      | true =>
          rw [minus, if_pos rfl] at sign
          simp [printStringWithAlignedPadding, printPadding, printString, sign, filler, filling,
            left, right, fill, minus, Int.add_comm, wrote]

/-- Printing leaves the padding that is set, -/
theorem Set.printed {padding : Option Padding} (set : p.Set padding) (s : Text) :
    ({ p with out := p.out ++ s } : Printf).Set padding :=
  ⟨set.len, set.sign, set.filler⟩

/-- A signed number: its sign, then the padding and the digits. It returns the width, however
long the number is. -/
theorem printAsBaseWithPadding_eq {padding : Option Padding} (set : p.Set padding) {base : Nat}
    (large : 1 < base)
    {n : Int} (fits : -2 ^ 63 ≤ n ∧ n < 2 ^ 63) :
    p.printAsBaseWithPadding n base =
      (p.wrote (sign n ++ left padding (sign n ++ digits base n).length ++ digits base n ++
        right padding (sign n ++ digits base n).length), (width padding : Int)) := by
  have len := set.len
  unfold printAsBaseWithPadding
  rw [intToBase_text large fits]
  by_cases negative : n < 0
  · have minus : sign n = ['-'] := if_pos negative
    have printed := printStringWithAlignedPadding_eq (set.printed ['-']) (digits base n)
      (1 + (digits base n).length) (p.paddingLen - (digits base n).length - 1) (by omega)
    simp only [if_pos negative, minus, List.singleton_append, List.tail_cons, printChar,
      List.length_cons] at printed ⊢
    rw [printed, Nat.add_comm 1]
    apply Prod.ext
    · simp [wrote]
    · simp only [len]
      omega
  · have plain : sign n = [] := if_neg negative
    have printed := printStringWithAlignedPadding_eq set (digits base n) (digits base n).length
      (p.paddingLen - (digits base n).length) (by omega)
    simp only [if_neg negative, plain, List.nil_append] at printed ⊢
    rw [printed, len]
    simp

/-- An unsigned number, in the same way. -/
theorem printUintAsBaseWithPadding_eq {padding : Option Padding} (set : p.Set padding) {base : Nat}
    (large : 1 < base) (n : Int) :
    p.printUintAsBaseWithPadding n base =
      (p.wrote (left padding (digits base (uint64 n)).length ++ digits base (uint64 n) ++
        right padding (digits base (uint64 n)).length), (width padding : Int)) := by
  have len := set.len
  have fits : uint64 n < 2 ^ 64 := by
    unfold uint64
    omega
  have printed := printStringWithAlignedPadding_eq set (digits base (uint64 n))
    (digits base (uint64 n)).length (p.paddingLen - (digits base (uint64 n)).length) (by omega)
  have text :
      uintToBase (uint64 n) base = (digits base (uint64 n), (digits base (uint64 n)).length) := by
    rw [uintToBase_text large fits, digits_length]
    rfl
  simp only [printUintAsBaseWithPadding, text]
  rw [printed, len]
  simp

/-- What a text leaves of a width, which is never negative. -/
theorem shorten_eq (s : Text) (w : Nat) : shorten s w = (w - s.length : Nat) := by
  induction s generalizing w with
  | nil => simp [shorten]
  | cons c s ih =>
      rw [shorten]
      by_cases positive : (w : Int) > 0
      · have less : (w : Int) - 1 = (w - 1 : Nat) := by omega
        rw [if_pos positive, less, ih, List.length_cons]
        congr 1
        omega
      · rw [if_neg positive]
        omega

/-- A string: the padding is before it or behind it. -/
theorem printStringWithPadding_eq {padding : Option Padding} (set : p.Set padding) (s : Text) :
    p.printStringWithPadding s =
      (p.wrote (left padding s.length ++ s ++ right padding s.length),
        ((max (width padding) s.length : Nat) : Int)) := by
  have shortened : shorten s p.paddingLen = (width padding - s.length : Nat) := by
    rw [set.len, shorten_eq]
  rw [printStringWithPadding, shortened,
    printStringWithAlignedPadding_eq set s s.length _ (Int.toNat_natCast _)]
  congr 1
  omega

/-! ### Rounds of the loop -/

/-- What is printed, and how much is counted, for what comes before `rest`. -/
def passed (p : Printf) (s : Text) (n : Int) (rest : Text) (args : List Arg) : Printf :=
  { p.wrote s with fmt := rest, args := args, len := p.len + n }

/-- The loop goes on behind the character of a conversion that is done. -/
theorem next_again {c : Char} {rest : Text} (used : p.paddingLen = 0) (fmt : p.fmt = c :: rest) :
    p.next = .ok (.again { p with fmt := rest }) := by
  simp only [next, if_pos used, fmt]

/-- An argument is fetched. -/
def took (p : Printf) (args : List Arg) : Printf := { p with args := args }

/-- Something is printed and counted before the padding. -/
def marked (p : Printf) (mark : Text) : Printf :=
  { p with out := p.out ++ mark, len := p.len + mark.length }

/-- and so do arguments that are fetched, -/
theorem Set.took {padding : Option Padding} (set : p.Set padding) (args : List Arg) :
    (p.took args).Set padding :=
  ⟨set.len, set.sign, set.filler⟩

/-- a prefix that is printed and counted, -/
theorem Set.marked {padding : Option Padding} (set : p.Set padding) (mark : Text) :
    (p.marked mark).Set padding :=
  ⟨set.len, set.sign, set.filler⟩

/-- and a character of the format that is passed. -/
theorem Set.skip {padding : Option Padding} (set : p.Set padding) : p.skip.Set padding :=
  ⟨set.len, set.sign, set.filler⟩

theorem count_printString (p : Printf) (s : Text) : count (p.printString s) = p.marked s := by
  rw [printString, foldl_printChar]
  rfl

section Options

variable {padding : Option Padding} {w : Nat} {c : Char} {rest : Text} {args : List Arg}

theorem current_eq (fmt : p.fmt = c :: rest) : p.current = c := by
  rw [current, fmt, List.headD_cons]

theorem skip_fmt (fmt : p.fmt = c :: rest) : p.skip.fmt = rest := by
  rw [skip, fmt, List.tail_cons]

/-- A word is fetched as an `int`, with its sign, -/
theorem va_arg_int_eq (args_eq : p.args = .word w :: args) :
    p.va_arg_int = .ok (int32 w, p.took args) := by
  simp only [va_arg_int, args_eq, Printf.took]

/-- or as a `long`, -/
theorem va_arg_long_eq (args_eq : p.args = .word w :: args) :
    p.va_arg_long = .ok (int64 w, p.took args) := by
  simp only [va_arg_long, args_eq, Printf.took]

/-- and a string as it is. -/
theorem va_arg_string_eq {s : Text} (args_eq : p.args = .string s :: args) :
    p.va_arg_string = .ok (s, p.took args) := by
  simp only [va_arg_string, args_eq, Printf.took]

/-- After a text was printed, the loop goes on behind the character that stands for it. -/
theorem wrote_again (fmt : p.fmt = c :: rest) (args : List Arg) (mark s : Text) (n : Nat) :
    next (count (((p.marked mark).took args).wrote s, n)) =
      .ok (.again (p.passed (mark ++ s) (mark.length + n : Nat) rest args)) := by
  simp [next, wrote, count, passed, Printf.marked, Printf.took, fmt, Int.add_assoc]

theorem unmarked (p : Printf) : p = p.marked [] := by
  simp [Printf.marked]

/-- `%d` and `%li`. -/
theorem signed_again (set : p.Set padding) (fmt : p.fmt = c :: rest) {n : Int}
    (range : -2 ^ 63 ≤ n ∧ n < 2 ^ 63) : next (count ((p.took args).printAsBaseWithPadding n 10)) =
      .ok
        (.again (p.passed (numberText padding 10 [] n) (([] : Text).length + width padding : Nat)
          rest args)) := by
  have printed := printAsBaseWithPadding_eq (set.took args) (by decide : 1 < 10) range
  have wrote := wrote_again fmt args []
    (sign n ++ left padding (sign n ++ digits 10 n).length ++ digits 10 n ++
    right padding (sign n ++ digits 10 n).length) (width padding)
  rw [← unmarked] at wrote
  rw [printed, wrote, numberText, List.nil_append, List.nil_append]

/-- The other conversions of numbers. -/
theorem unsigned_again (set : p.Set padding) (fmt : p.fmt = c :: rest) (args : List Arg)
    {base : Nat} (large : 1 < base) (n : Int) (mark : Text) :
    next (count (((p.marked mark).took args).printUintAsBaseWithPadding n base)) =
      .ok
        (.again (p.passed (numberText padding base mark (uint64 n))
          (mark.length + width padding : Nat) rest
        args)) := by
  have printed := printUintAsBaseWithPadding_eq ((set.marked mark).took args) large n
  rw [printed, wrote_again fmt, numberText, sign_natCast, List.append_nil, List.nil_append,
    List.append_assoc, List.append_assoc, List.append_assoc]

/-- `paddingLen = 0`, when it is already. -/
theorem signed_used (set : p.Set padding) {n : Int} (range : -2 ^ 63 ≤ n ∧ n < 2 ^ 63) :
    (count (p.printAsBaseWithPadding n 10)).reset = count (p.printAsBaseWithPadding n 10) := by
  rw [printAsBaseWithPadding_eq set (by decide : 1 < 10) range]
  rfl

/-- An unsigned conversion leaves nothing to reset. -/
theorem unsigned_used (set : p.Set padding) (n : Int) :
    (count (p.printUintAsBaseWithPadding n 10)).reset =
      count (p.printUintAsBaseWithPadding n 10) := by
  rw [printUintAsBaseWithPadding_eq set (by decide : 1 < 10)]
  rfl

/-! What each option does, when its argument is `n` and leaves `q`. -/

section Cases

variable {q : Printf} {n : Int}

/-- `%d`. -/
theorem option_d (fmt : p.fmt = 'd' :: rest) (arg : p.va_arg_int = .ok (n, q)) :
    p.option = next (count (q.printAsBaseWithPadding n 10)).reset := by
  simp only [option, current_eq fmt, arg, ok_bind]

/-- `%u`. -/
theorem option_u (fmt : p.fmt = 'u' :: rest) (arg : p.va_arg_int = .ok (n, q)) :
    p.option = next (count (q.printUintAsBaseWithPadding n 10)).reset := by
  simp only [option, current_eq fmt, arg, ok_bind]

/-- `%x`, behind its prefix. -/
theorem option_x (fmt : p.fmt = 'x' :: rest) (arg : (p.marked ['0', 'x']).va_arg_int = .ok (n, q)) :
    p.option = next (count (q.printUintAsBaseWithPadding n 16)) := by
  have mark := count_printString p "0x".toList
  simp only [option, current_eq fmt, mark]
  rw [show "0x".toList = ['0', 'x'] from rfl, arg, ok_bind]

/-- `%l` passes the letter. -/
theorem option_l (fmt : p.fmt = 'l' :: rest) : p.option = p.skip.longOption := by
  simp only [option, current_eq fmt]

/-- `%lx`, behind its prefix. -/
theorem longOption_x (fmt : p.fmt = 'x' :: rest)
    (arg : (p.marked ['0', 'x']).va_arg_long = .ok (n, q)) :
    p.longOption = next (count (q.printUintAsBaseWithPadding n 16)) := by
  have mark := count_printString p "0x".toList
  simp only [longOption, current_eq fmt, mark]
  rw [show "0x".toList = ['0', 'x'] from rfl, arg, ok_bind]

/-- `%li`, which fetches an `int`. -/
theorem longOption_i (fmt : p.fmt = 'i' :: rest) (arg : p.va_arg_int = .ok (n, q)) :
    p.longOption = next (count (q.printAsBaseWithPadding n 10)) := by
  simp only [longOption, current_eq fmt, arg, ok_bind]

/-- `%lu`. -/
theorem longOption_u (fmt : p.fmt = 'u' :: rest) (arg : p.va_arg_long = .ok (n, q)) :
    p.longOption = next (count (q.printUintAsBaseWithPadding n 10)) := by
  simp only [longOption, current_eq fmt, arg, ok_bind]

/-- `%s`. -/
theorem option_s {s : Text} (fmt : p.fmt = 's' :: rest) (arg : p.va_arg_string = .ok (s, q)) :
    p.option = next (count (q.printStringWithPadding s)) := by
  simp only [option, current_eq fmt, arg, ok_bind]

/-- `%c`. -/
theorem option_c (fmt : p.fmt = 'c' :: rest) (arg : p.va_arg_int = .ok (n, q)) :
    p.option = next (count (q.printChar (Char.ofNat (n % 2 ^ 8).toNat), 1)) := by
  simp only [option, current_eq fmt, arg, ok_bind]

/-- `%%`. -/
theorem option_percent (fmt : p.fmt = '%' :: rest) :
    p.option = next (count (p.printChar '%', 1)) := by
  simp only [option, current_eq fmt]

end Cases

/-- Every conversion of a number prints and counts its piece, and goes on behind it. -/
theorem option_number (set : p.Set padding) (k : Conversion) (fmt : p.fmt = k.text ++ rest)
    (args_eq : p.args = .word w :: args) :
    p.option =
      .ok
        (.again (p.passed (Piece.number padding k w).prints
          (Piece.number padding k w).counts rest args)) := by
  have range := int32_range w
  have range' : -2 ^ 63 ≤ int32 w ∧ int32 w < 2 ^ 63 := by omega
  rw [Piece.prints, Piece.counts]
  cases k with
  | d =>
      rw [option_d fmt (va_arg_int_eq args_eq), signed_used (set.took args) range',
        signed_again set fmt range']
      rfl
  | u =>
      have again := unsigned_again set fmt args (by decide : 1 < 10) (int32 w) []
      rw [← unmarked] at again
      rw [option_u fmt (va_arg_int_eq args_eq), unsigned_used (set.took args), again]
      rfl
  | x =>
      have arg := va_arg_int_eq (p := p.marked ['0', 'x']) args_eq
      rw [option_x fmt arg, unsigned_again set fmt args (by decide : 1 < 16)]
      rfl
  | li =>
      have args_skip : p.skip.args = .word w :: args := args_eq
      rw [option_l fmt, longOption_i (skip_fmt fmt) (va_arg_int_eq args_skip),
        signed_again set.skip (skip_fmt fmt) range']
      rfl
  | lu =>
      have args_skip : p.skip.args = .word w :: args := args_eq
      have again := unsigned_again set.skip (skip_fmt fmt) args (by decide : 1 < 10) (int64 w) []
      rw [← unmarked] at again
      rw [option_l fmt, longOption_u (skip_fmt fmt) (va_arg_long_eq args_skip), again]
      rfl
  | lx =>
      have arg := va_arg_long_eq (p := p.skip.marked ['0', 'x']) args_eq
      rw [option_l fmt, longOption_x (skip_fmt fmt) arg,
        unsigned_again set.skip (skip_fmt fmt) args (by decide : 1 < 16)]
      rfl

/-- So does the one of a string. -/
theorem option_string (set : p.Set padding) {s : Text} (fmt : p.fmt = 's' :: rest)
    (args_eq : p.args = .string s :: args) :
    p.option =
      .ok
        (.again (p.passed (Piece.string padding s).prints
          (Piece.string padding s).counts rest args)) := by
  have wrote := wrote_again fmt args [] (left padding s.length ++ s ++ right padding s.length)
    (max (width padding) s.length)
  rw [← unmarked] at wrote
  rw [option_s fmt (va_arg_string_eq args_eq), printStringWithPadding_eq (set.took args), wrote,
    List.nil_append, List.length_nil, Nat.zero_add]
  rfl

end Options

/-! ### The padding -/

section Paddings

variable {c : Char} {rest : Text}

theorem digit_of_isDigit (isDigit : IS_DIGIT c = true) : ∃ k < 10, c = digit k := by
  have bounds : '0'.toNat ≤ c.toNat ∧ c.toNat ≤ '9'.toNat := by
    simpa [IS_DIGIT, Char.le_def, UInt32.le_iff_toNat_le] using isDigit
  obtain ⟨ge, le⟩ := bounds
  simp only [show '0'.toNat = 48 from rfl, show '9'.toNat = 57 from rfl] at ge le
  refine ⟨c.toNat - 48, by omega, ?_⟩
  rw [digit, if_pos (by omega), show '0'.toNat = 48 from rfl, Nat.sub_add_cancel ge,
    Char.ofNat_toNat]

/-- A width of one digit is read as it is, -/
theorem strToInt_one : ∀ j < 10, strToInt [digit j] = widthOf [digit j] := by decide +kernel

/-- and one of two digits. -/
theorem strToInt_two : ∀ j < 10, ∀ k < 10, strToInt [digit j, digit k] =
    widthOf [digit j, digit k] := by
  decide +kernel

/-- The number of a padding has one digit or two. -/
theorem number_cases (padding : Padding) :
    (∃ a, padding.number = [a] ∧ IS_DIGIT a = true) ∨
    ∃ a b, padding.number = [a, b] ∧ IS_DIGIT a = true ∧ IS_DIGIT b = true := by
  obtain ⟨minus, zero, number, short, isDigit, first, positive⟩ := padding
  match number with
  | [] => exact absurd positive (by decide)
  | [a] => exact Or.inl ⟨a, rfl, isDigit a (by simp)⟩
  | [a, b] => exact Or.inr ⟨a, b, rfl, isDigit a (by simp), isDigit b (by simp)⟩
  | _ :: _ :: _ :: more =>
      have long : 2 < more.length + 3 := by omega
      exact absurd short (Nat.not_le.mpr long)

/-- The padding is read, up to the conversion. -/
def padded (p : Printf) (padding : Padding) (rest : Text) : Printf :=
  { p with
    paddingChar := padding.filler
    paddingLen := padding.width
    paddingSign := if padding.minus then -1 else 1
    fmt := rest }

theorem padded_set (p : Printf) (padding : Padding) (rest : Text) :
    (p.padded padding rest).Set (some padding) where
  len := rfl
  sign := by
    intro x eq
    cases eq
    rfl
  filler := by
    intro x eq
    cases eq
    rfl

/-- The number of the padding becomes its width. -/
theorem paddingNumber_eq (padding : Padding) (fmt : p.fmt = padding.number ++ c :: rest)
    (other : IS_DIGIT c = false) :
    p.paddingNumber = next { p with fmt := c :: rest, paddingLen := padding.width } := by
  have read : (p.fmt.take MAX_PADDING_DIGITS).takeWhile IS_DIGIT = padding.number ∧
      strToInt padding.number = padding.width := by
    rw [fmt]
    rcases number_cases padding with ⟨a, number, isDigit⟩ | ⟨a, b, number, isDigit, isDigit'⟩
    · obtain ⟨j, lt, rfl⟩ := digit_of_isDigit isDigit
      rw [Padding.width, number, strToInt_one j lt]
      simp [isDigit, other]
    · obtain ⟨j, lt, rfl⟩ := digit_of_isDigit isDigit
      obtain ⟨k, lt', rfl⟩ := digit_of_isDigit isDigit'
      rw [Padding.width, number, strToInt_two j lt k lt']
      simp [isDigit, isDigit']
  have behind : p.fmt.drop padding.number.length = c :: rest := by rw [fmt, List.drop_left]
  simp only [paddingNumber, read.1, read.2, behind]
  have ends : IS_DIGIT ({ p with fmt := c :: rest } : Printf).current ≠ true := by
    rw [current_eq rfl, other]
    exact Bool.false_ne_true
  exact if_neg ends

/-- A minus or a digit starts a padding. -/
theorem option_padding (fmt : p.fmt = c :: rest) (starts : c = '-' ∨ IS_DIGIT c = true) :
    p.option = p.padding := by
  rw [option, current_eq fmt]
  split <;> first | rfl | (exact absurd starts (by decide))

/-- A padding's number begins with a digit, and its flag does too. -/
theorem number_first (padding : Padding) :
    ∃ a more, padding.number = a :: more ∧ IS_DIGIT a = true ∧ a ≠ '-' ∧
      (padding.zero = false → a ≠ '0') := by
  have not_minus : ∀ a, IS_DIGIT a = true → a ≠ '-' := by
    rintro a isDigit rfl
    exact absurd isDigit (by decide)
  rcases number_cases padding with ⟨a, number, isDigit⟩ | ⟨a, b, number, isDigit, -⟩ <;>
    refine ⟨a, _, number, isDigit, not_minus a isDigit, fun unflagged zero => ?_⟩ <;>
    exact padding.first unflagged (by rw [number, zero]; rfl)

/-- `0` and the number. -/
def flagged (padding : Padding) : Text := (if padding.zero then ['0'] else []) ++ padding.number

/-- Behind the minus there is a digit. -/
theorem flagged_first (padding : Padding) (after : Text) :
    ∃ a more, flagged padding ++ after = a :: more ∧ IS_DIGIT a = true ∧ a ≠ '-' := by
  obtain ⟨a, more, number, isDigit, not_minus, -⟩ := number_first padding
  unfold flagged
  cases padding.zero with
  | true => exact ⟨'0', _, rfl, by decide, by decide⟩
  | false =>
      refine ⟨a, more ++ after, ?_, isDigit, not_minus⟩
      rw [number]
      rfl

/-- The minus sets the side, -/
theorem paddingMinus_eq (padding : Padding) {after : Text} (fmt : p.fmt = padding.text ++ after) :
    p.paddingMinus =
      { p with paddingSign := if padding.minus then -1 else 1, fmt := flagged padding ++ after } := by
  cases minus : padding.minus with
  | true =>
      have fmt' : p.fmt = '-' :: (flagged padding ++ after) := by
        rw [fmt, Padding.text, minus]
        simp [flagged]
      rw [paddingMinus, if_pos (current_eq fmt'), skip, fmt']
      rfl
  | false =>
      have fmt' : p.fmt = flagged padding ++ after := by
        rw [fmt, Padding.text, minus]
        simp [flagged]
      obtain ⟨a, more, begins, -, not_minus⟩ := flagged_first padding after
      rw [paddingMinus, if_neg (by rw [current_eq (fmt'.trans begins)]; exact not_minus), ← fmt']
      rfl

/-- the zero the character, -/
theorem paddingZero_eq (padding : Padding) {after : Text} (fmt : p.fmt = flagged padding ++ after) :
    p.paddingZero = { p with paddingChar := padding.filler, fmt := padding.number ++ after } := by
  cases zero : padding.zero with
  | true =>
      have fmt' : p.fmt = '0' :: (padding.number ++ after) := by
        rw [fmt, flagged, zero]
        simp
      rw [paddingZero, if_pos (current_eq fmt'), skip, fmt', Padding.filler, if_pos zero]
      rfl
  | false =>
      have fmt' : p.fmt = padding.number ++ after := by
        rw [fmt, flagged, zero]
        simp
      obtain ⟨a, more, number, -, -, not_zero⟩ := number_first padding
      have first : p.current = a := by
        have begins : p.fmt = a :: (more ++ after) := by
          rw [fmt', number]
          rfl
        exact current_eq begins
      rw [paddingZero, if_neg (by rw [first]; exact not_zero zero), ← fmt', Padding.filler, zero]
      rfl

/-- and the whole padding is read in one round. -/
theorem option_padded (padding : Padding) (fmt : p.fmt = padding.text ++ c :: rest)
    (other : IS_DIGIT c = false) : p.option = .ok (.again (p.padded padding (c :: rest))) := by
  have starts : ∃ a more, p.fmt = a :: more ∧ (a = '-' ∨ IS_DIGIT a = true) := by
    obtain ⟨a, more, begins, isDigit, -⟩ := flagged_first padding (c :: rest)
    rw [fmt, Padding.text]
    cases padding.minus with
    | true => exact ⟨'-', _, rfl, Or.inl rfl⟩
    | false => exact ⟨a, more, begins, Or.inr isDigit⟩
  obtain ⟨a, more, first, starts⟩ := starts
  obtain ⟨b, after, begins, isDigit, -⟩ := flagged_first padding (c :: rest)
  have digit_first : IS_DIGIT p.paddingMinus.current = true := by
    rw [paddingMinus_eq padding fmt, current_eq begins, isDigit]
  have behind : p.paddingMinus.fmt = flagged padding ++ c :: rest := by
    rw [paddingMinus_eq padding fmt]
  have zeroed := paddingZero_eq padding behind
  rw [option_padding first starts, Printf.padding, if_pos digit_first,
    paddingNumber_eq (p := p.paddingMinus.paddingZero) padding (by rw [zeroed]) other, zeroed,
    paddingMinus_eq padding fmt]
  have used : (padding.width : Int) ≠ 0 := by
    have := padding.positive
    unfold Padding.width
    omega
  exact if_neg used

end Paddings

/-! ### The whole format -/

/-- From `p`, a result is found that is found from `q`. -/
def Leads (p q : Printf) : Prop := ∀ rounds r, loop round rounds q = .ok r →
    loop round (rounds + 2) p = .ok r

/-- The loop has passed what comes before `rest`, printing `s`. -/
structure Past (p q : Printf) (s : Text) (n : Int) (rest : Text) (args : List Arg) : Prop where
  leads : p.Leads q
  used : q.paddingLen = 0
  fmt : q.fmt = rest
  args : q.args = args
  out : q.out = p.out ++ s
  len : q.len = p.len + n

section Run

variable {q : Printf} {padding : Option Padding} {c : Char} {s rest conv : Text} {n : Int}
    {args : List Arg}

theorem Leads.one (again : p.round = .ok (.again q)) : p.Leads q := by
  intro rounds r result
  rw [loop_succ_again again]
  exact loop_mono (Nat.le_succ _) result

theorem Leads.two {between : Printf} (first : p.round = .ok (.again between))
    (second : between.round = .ok (.again q)) : p.Leads q := by
  intro rounds r result
  rw [loop_succ_again first, loop_succ_again second]
  exact result

/-- The rounds of a piece lead behind it. -/
theorem passed_past (leads : p.Leads (q.passed s n rest args)) (out : q.out = p.out)
    (len : q.len = p.len) : p.Past (q.passed s n rest args) s n rest args where
  leads := leads
  used := rfl
  fmt := rfl
  args := rfl
  out := by rw [passed, wrote, out]
  len := by rw [passed, len]

theorem char_again (used : p.paddingLen = 0) (fmt : p.fmt = c :: rest) (x : Char) :
    next (count (p.printChar x, 1)) = .ok (.again (p.passed [x] 1 rest p.args)) := by
  refine (next_again (p := count (p.printChar x, 1)) used fmt).trans ?_
  simp [passed, wrote, count, printChar, used]

/-- A percent sign starts a conversion, -/
theorem round_percent (used : p.paddingLen = 0) (fmt : p.fmt = '%' :: rest) :
    p.round = p.skip.option := by
  simp [round, fmt, used]

/-- and behind a padding its letter does. -/
theorem round_conversion (padded : p.paddingLen ≠ 0) (fmt : p.fmt = c :: rest)
    (accepted : strContains "udlxs".toList c = true) : p.round = p.option := by
  simp only [round, fmt, padded, accepted, and_false, if_false, Bool.not_true, Bool.false_eq_true]

/-- A conversion with its padding, given what it does when the padding is set. -/
theorem conversion_past (padding : Option Padding) (conv : Text) (used : p.paddingLen = 0)
    (fmt : p.fmt = '%' :: (paddingText padding ++ conv ++ rest))
    (first : ∃ c more, conv = c :: more ∧ strContains "udlxs".toList c = true ∧ IS_DIGIT c = false)
    (does : ∀ q : Printf, q.Set padding → q.fmt = conv ++ rest → q.args = p.args →
      q.option = .ok (.again (q.passed s n rest args))) : ∃ q, p.Past q s n rest args := by
  obtain ⟨c, more, rfl, accepted, other⟩ := first
  cases padding with
  | none =>
      have set : p.skip.Set none := by
        constructor
        · exact used
        · intro x impossible
          cases impossible
        · intro x impossible
          cases impossible
      have again := does p.skip set (skip_fmt fmt) rfl
      exact ⟨_, passed_past (Leads.one ((round_percent used fmt).trans again)) rfl rfl⟩
  | some padding =>
      have fmt' : p.skip.fmt = padding.text ++ c :: (more ++ rest) := by
        rw [skip_fmt fmt, paddingText, Option.map_some, Option.getD_some, List.append_assoc]
        rfl
      have set := p.skip.padded_set padding (c :: (more ++ rest))
      have positive : (padding.width : Int) ≠ 0 := by
        have := padding.positive
        unfold Padding.width
        omega
      have again := does _ set rfl rfl
      have first := (round_percent used fmt).trans (option_padded padding fmt' other)
      have second := (round_conversion positive rfl accepted).trans again
      exact ⟨_, passed_past (Leads.two first second) rfl rfl⟩

/-- Every piece is passed, with what it prints and counts, -/
theorem piece_past (piece : Piece) (used : p.paddingLen = 0) (fmt : p.fmt = piece.fmt ++ rest)
    (args_eq : p.args = piece.args ++ args) :
      ∃ q, p.Past q piece.prints piece.counts rest args := by
  cases piece with
  | literal c plain =>
      have again : p.round = .ok (.again (p.passed [c] 1 rest p.args)) := by
        have fmt' : p.fmt = c :: rest := fmt
        simp only [round, fmt', plain, used, ne_eq, not_false_eq_true, and_self, if_true]
        exact char_again used fmt' c
      rw [show p.args = args from args_eq] at again
      exact ⟨_, passed_past (Leads.one again) rfl rfl⟩
  | percent =>
      have fmt' : p.skip.fmt = '%' :: rest := skip_fmt fmt
      have next := char_again (p := p.skip) used fmt' '%'
      have again := ((round_percent used fmt).trans (option_percent fmt')).trans next
      rw [show p.skip.args = args from args_eq] at again
      exact ⟨_, passed_past (Leads.one again) rfl rfl⟩
  | char w =>
      have fmt' : p.skip.fmt = 'c' :: rest := skip_fmt fmt
      have arg := va_arg_int_eq (p := p.skip) args_eq
      have next := char_again (p := p.skip.took args) used fmt' (Char.ofNat (int32 w % 2 ^ 8).toNat)
      have again := ((round_percent used fmt).trans (option_c fmt' arg)).trans next
      have byte : (int32 w % 2 ^ 8).toNat = w % 2 ^ 8 := by
        unfold int32
        rw [Int.bmod_def]
        omega
      rw [byte] at again
      exact ⟨_, passed_past (Leads.one again) rfl rfl⟩
  | string padding s =>
      refine conversion_past padding ['s'] used ?_ ⟨'s', [], rfl, rfl, rfl⟩ ?_
      · rw [fmt, Piece.fmt]
        simp
      · intro q set fmt_q args_q
        exact option_string set fmt_q (args_q.trans args_eq)
  | number padding k w =>
      refine conversion_past padding k.text used ?_ ?_ ?_
      · rw [fmt, Piece.fmt]
        simp
      · cases k <;> exact ⟨_, _, rfl, rfl, rfl⟩
      · intro q set fmt_q args_q
        exact option_number set k fmt_q (args_q.trans args_eq)

/-- Every piece takes two rounds at most. -/
theorem pieces_run (pieces : List Piece) (used : p.paddingLen = 0)
    (fmt : p.fmt = pieces.flatMap Piece.fmt) (args_eq : p.args = pieces.flatMap Piece.args) :
    ∃ q, loop round (2 * pieces.length + 1) p =
      .ok (q, int32 (p.len + (pieces.map Piece.counts).sum)) ∧
      q.out = p.out ++ pieces.flatMap Piece.prints := by
  induction pieces generalizing p with
  | nil =>
      refine ⟨p, ?_, by simp⟩
      have ends : p.round = .ok (.leave (p, int32 p.len)) := by
        simp only [round, fmt, List.flatMap_nil]
      rw [List.length_nil, loop_succ_leave ends, List.map_nil, List.sum_nil, Int.natCast_zero,
        Int.add_zero]
  | cons piece pieces ih =>
      obtain ⟨q, past⟩ := piece_past piece used fmt args_eq
      obtain ⟨r, run, out⟩ := ih past.used past.fmt past.args
      refine ⟨r, ?_, ?_⟩
      · have result := past.leads _ _ run
        rw [past.len] at result
        rw [List.length_cons, List.map_cons, List.sum_cons, Int.natCast_add, ← Int.add_assoc]
        exact result
      · rw [out, past.out, List.flatMap_cons, List.append_assoc]

end Run

end Printf

/-- so a format made of pieces prints and counts what they do, one after the other. -/
theorem printf_pieces (paddingChar : Char) (paddingSign : Int) (pieces : List Piece) {rounds : Nat}
    (enough : 2 * pieces.length < rounds) :
    ∃ p, printf rounds paddingChar paddingSign (pieces.flatMap Piece.fmt)
        (pieces.flatMap Piece.args) = .ok (p, int32 (pieces.map Piece.counts).sum) ∧
      p.out = pieces.flatMap Piece.prints := by
  obtain ⟨p, run, out⟩ := Printf.pieces_run
    (p := ⟨paddingChar, 0, paddingSign, pieces.flatMap Piece.fmt, pieces.flatMap Piece.fmt,
      pieces.flatMap Piece.args, [], 0⟩) pieces rfl rfl rfl
  have run' := loop_mono enough run
  rw [Int.zero_add] at run'
  exact ⟨p, run', out⟩

end SoTp.Stdlib
