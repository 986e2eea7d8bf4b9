/-
`printf` (`Userland/UserModule/c2/stdlib.c`). A message that `printf` prints with itself is
here the text that comes out. What the C standard leaves undefined, such as an argument that
is not there, or reading behind the NUL, is a fault.
-/

import SoTp.Lib.Loop
import SoTp.Stdlib.Numbers

namespace SoTp.Stdlib

open SoTp.Lib

/-- What is passed for a conversion: the 64 bits of a number, or what a `char*` points to. -/
inductive Arg where
  | word (w : Nat)
  | string (s : Text)

/-- The padding is global. `fmt` is the format from `fmt[i]` on, without the NUL, and `out`
is what was printed. -/
structure Printf where
  paddingChar : Char
  paddingLen : Int
  paddingSign : Int
  format : Text
  fmt : Text
  args : List Arg
  out : Text
  len : Int

abbrev MAX_PADDING_DIGITS : Nat := 2

def strContains (s : Text) (c : Char) : Bool := if c = NUL then false else s.contains c

namespace Printf

/-! ### Printing -/

def printChar (p : Printf) (c : Char) : Printf := { p with out := p.out ++ [c] }

def printString (p : Printf) (s : Text) : Printf × Int := (s.foldl printChar p, s.length)

def printAsBase (p : Printf) (n : Int) (base : Nat) : Printf × Int :=
  p.printString (intToBase n base).1

def printPadding (p : Printf) : Printf × Int :=
  let len := p.paddingLen
  let p := (List.replicate len.toNat p.paddingChar).foldl printChar p
  ({ p with paddingLen := 0 }, len)

def printStringWithAlignedPadding (p : Printf) (s : Text) : Printf × Int :=
  if p.paddingSign > 0 then
    let (p, padded) := p.printPadding
    let (p, printed) := p.printString s
    (p, padded + printed)
  else
    let (p, printed) := p.printString s
    let (p, padded) := p.printPadding
    (p, printed + padded)

def printAsBaseWithPadding (p : Printf) (n : Int) (base : Nat) : Printf × Int :=
  let (s, digits) := intToBase n base
  let p := { p with paddingLen := p.paddingLen - digits }
  if n < 0 then
    let p := p.printChar '-'
    let p := { p with paddingLen := p.paddingLen - 1 }
    let (p, len) := p.printStringWithAlignedPadding s.tail
    (p, 1 + len)
  else p.printStringWithAlignedPadding s

def printUintAsBaseWithPadding (p : Printf) (n : Int) (base : Nat) : Printf × Int :=
  let (s, digits) := uintToBase (uint64 n) base
  let p := { p with paddingLen := p.paddingLen - digits }
  p.printStringWithAlignedPadding s

/-- `for (…; s[i] != 0 && paddingLen > 0; ++i) --paddingLen`. -/
def shorten : Text → Int → Int
  | [], paddingLen => paddingLen
  | _ :: s, paddingLen => if paddingLen > 0 then shorten s (paddingLen - 1) else paddingLen

def printStringWithPadding (p : Printf) (s : Text) : Printf × Int :=
  let p := { p with paddingLen := shorten s p.paddingLen }
  p.printStringWithAlignedPadding s

/-! ### The loop over the format -/

/-- `len += …`. -/
def count : Printf × Int → Printf
  | (p, n) => { p with len := p.len + n }

/-- `paddingLen = 0`. -/
def reset (p : Printf) : Printf := { p with paddingLen := 0 }

/-- `va_arg(p, int)`. -/
def va_arg_int (p : Printf) : Exec (Int × Printf) :=
  match p.args with
  | .word w :: args => .ok (int32 w, { p with args := args })
  | _ => .error .fault

/-- `va_arg(p, long)`. -/
def va_arg_long (p : Printf) : Exec (Int × Printf) :=
  match p.args with
  | .word w :: args => .ok (int64 w, { p with args := args })
  | _ => .error .fault

/-- `va_arg(p, char*)`. -/
def va_arg_string (p : Printf) : Exec (Text × Printf) :=
  match p.args with
  | .string s :: args => .ok (s, { p with args := args })
  | _ => .error .fault

/-- What a round decides: the loop goes on, or `printf` returns. -/
abbrev Round := Exec (Pass Printf (Printf × Int))

/-- A message of `printf`, which resets the padding, and -1. -/
def fail (p : Printf) (message : Text) : Round := .ok (.leave ((p.printString message).1.reset, -1))

/-- `fmt[i]`, which may be the NUL. -/
def current (p : Printf) : Char := p.fmt.headD NUL

/-- `++i`, up to the NUL. -/
def skip (p : Printf) : Printf := { p with fmt := p.fmt.tail }

/-- The end of the loop's body: `if (paddingLen == 0) ++i`. -/
def next (p : Printf) : Round :=
  if p.paddingLen = 0 then
    match p.fmt with
    | [] => .error .fault
    | _ :: fmt => .ok (.again { p with fmt := fmt })
  else .ok (.again p)

/-- `case 'l'`, from the next character on. -/
def longOption (p : Printf) : Round :=
  match p.current with
  | 'x' => do
      let p := count (p.printString "0x".toList)
      let (n, p) ← p.va_arg_long
      next (count (p.printUintAsBaseWithPadding n 16))
  | 'i' => do
      let (n, p) ← p.va_arg_int
      next (count (p.printAsBaseWithPadding n 10))
  | 'u' => do
      let (n, p) ← p.va_arg_long
      next (count (p.printUintAsBaseWithPadding n 10))
  | _ => p.fail "...\nUnkown identifier `l`. Did you mean `li`, `lu` or `lx`?.\n".toList

/-- The padding's number, after its flags. -/
def paddingNumber (p : Printf) : Round :=
  let nbr := (p.fmt.take MAX_PADDING_DIGITS).takeWhile IS_DIGIT
  let p := { p with fmt := p.fmt.drop nbr.length }
  if IS_DIGIT p.current then
    p.fail ("...\nFormat error: \"".toList ++ p.format ++
      "\"\nMaximum padding of 99 exceeded\n".toList)
  else next { p with paddingLen := strToInt nbr }

/-- `-`, and which side is filled. -/
def paddingMinus (p : Printf) : Printf :=
  if p.current = '-' then { p.skip with paddingSign := -1 } else { p with paddingSign := 1 }

/-- `0`, and what it is filled with. -/
def paddingZero (p : Printf) : Printf :=
  if p.current = '0' then { p.skip with paddingChar := '0' } else { p with paddingChar := ' ' }

/-- `default`: a padding. -/
def padding (p : Printf) : Round :=
  let p := p.paddingMinus
  if IS_DIGIT p.current then p.paddingZero.paddingNumber
  else p.fail ("\nUnkown option: %".toList ++ [p.current, '\n'])

/-- `switch (fmt[i])`, and the end of the body. -/
def option (p : Printf) : Round :=
  match p.current with
  | '%' => next (count (p.printChar '%', 1))
  | 'd' => do
      let (n, p) ← p.va_arg_int
      next (count (p.printAsBaseWithPadding n 10)).reset
  | 'u' => do
      let (n, p) ← p.va_arg_int
      next (count (p.printUintAsBaseWithPadding n 10)).reset
  | 'l' => longOption p.skip
  | 'f' => next (count (p.printString "'TODO print float'".toList))
  | 'x' => do
      let p := count (p.printString "0x".toList)
      let (n, p) ← p.va_arg_int
      next (count (p.printUintAsBaseWithPadding n 16))
  | 'p' => do
      let p := { p with paddingLen := 8, paddingSign := 1, paddingChar := '0' }
      let p := count (p.printString "0x".toList)
      let (n, p) ← p.va_arg_long
      next (count (p.printUintAsBaseWithPadding n 16))
  | 'b' => do
      let p := count (p.printString "0b".toList)
      let (n, p) ← p.va_arg_int
      next (count (p.printAsBase n 2))
  | 's' => do
      let (s, p) ← p.va_arg_string
      next (count (p.printStringWithPadding s))
  | 'c' => do
      let (n, p) ← p.va_arg_int
      next (count (p.printChar (Char.ofNat (n % 2 ^ 8).toNat), 1))
  | _ => p.padding

def round (p : Printf) : Round :=
  match p.fmt with
  | [] => .ok (.leave (p, int32 p.len))
  | c :: _ =>
      if c ≠ '%' ∧ p.paddingLen = 0 then next (count (p.printChar c, 1))
      else if p.paddingLen = 0 then option p.skip
      else if !strContains "udlxs".toList c then
        p.fail "...\nError: Only '%s', '%d', '%l' and '%x' identifier accept padding.\n".toList
      else option p

end Printf

/-- `printf`, for a number of rounds. The padding's sign and character are as the call
before left them. -/
def printf (rounds : Nat) (paddingChar : Char) (paddingSign : Int) (format : Text)
    (args : List Arg) : Exec (Printf × Int) :=
  loop Printf.round rounds ⟨paddingChar, 0, paddingSign, format, format, args, [], 0⟩

end SoTp.Stdlib
