/-
The text console (`Kernel/c/videoDriver.c`). Coordinates, columns and rows are `int32_t`;
where a sum or a product of them may leave 32 bits it is wrapped, as the compiled code does.
`pixels` are the coordinates of all pixels that were written; the code does not have them.
The colours, which decide over no coordinate, are left out, and the table of the glyphs is a
parameter.

`printNextString(tab)` prints two spaces, so the recursion of `printNextChar` is one call
deep, and the branch of the other characters is a function of its own.
-/

import Mathlib.Algebra.Ring.Int.Defs
import Mathlib.Algebra.Ring.Nat
import Mathlib.Data.Int.Init
import Mathlib.Tactic.Common

namespace SoTp.Video

/-- The `int32_t` with the low 32 bits of a number. -/
def int32 (n : Int) : Int := n.bmod (2 ^ 32)

def ASCII_BF_WIDTH : Int := 11

def ASCII_BF_HEIGHT : Int := 23

/-- `' '`. -/
def ASCII_BF_MIN : Int := 32

/-- `'~'`. -/
def ASCII_BF_MAX : Int := 126

def MAX_FONT_SIZE : Int := 4

def charSeparation : Int := 3

structure Console where
  /-- `VBE_mode_info->width` and `VBE_mode_info->height`. -/
  width : Int
  height : Int
  fontSize : Int
  fontCols : Int
  fontRows : Int
  cursorCol : Int
  cursorRow : Int
  pixels : List (Int × Int)

namespace Console

/-! ### Pixels -/

/-- The width of a cell of the grid, with the gap behind it. -/
def cellWidth (c : Console) : Int := ASCII_BF_WIDTH * c.fontSize + charSeparation

def cellHeight (c : Console) : Int := ASCII_BF_HEIGHT * c.fontSize + charSeparation

/-- The pixels of a rectangle, row by row. -/
def rectangle (x y width height : Int) : List (Int × Int) :=
  (List.range height.toNat).flatMap fun (i : Nat) =>
    (List.range width.toNat).map fun (j : Nat) => (int32 (x + j), int32 (y + i))

/-- `fillRectangle`: `printPixel` for each of the pixels. -/
def fillRectangle (x y width height : Int) (c : Console) : Console :=
  { c with pixels := c.pixels ++ rectangle x y width height }

def setFontGridValues (c : Console) : Console :=
  { c with fontCols := c.width / c.cellWidth, fontRows := c.height / c.cellHeight }

def setFontSize (fs : Int) (c : Console) : Console :=
  if 1 ≤ fs ∧ fs ≤ MAX_FONT_SIZE then setFontGridValues { c with fontSize := fs } else c

/-- The places of the bits of a glyph, row by row. -/
def glyphPlaces : List (Nat × Nat) :=
  (List.range ASCII_BF_HEIGHT.toNat).flatMap fun i =>
    (List.range ASCII_BF_WIDTH.toNat).map fun j => (i, j)

/-- `fillRectangle` for each of the places `(i, j)`. -/
def fillPlaces (x y : Int) (places : List (Nat × Nat)) (c : Console) : Console :=
  places.foldl (fun c p =>
    c.fillRectangle (int32 (x + p.2 * c.fontSize))
      (int32 (y + p.1 * c.fontSize)) c.fontSize c.fontSize) c

section Characters

variable (asciiBitFields : Int → Nat → Bool)

def printCharXY (x y ch : Int) (c : Console) : Console :=
  if ch < ASCII_BF_MIN ∨ ch > ASCII_BF_MAX then c
  else
    fillPlaces x y (glyphPlaces.filter fun p =>
      asciiBitFields (ch - ASCII_BF_MIN) (p.1 * ASCII_BF_WIDTH.toNat + p.2)) c

/-- `colRowToXY`. -/
def colToX (c : Console) (col : Int) : Int := int32 (col * c.cellWidth)

def rowToY (c : Console) (row : Int) : Int := int32 (row * c.cellHeight)

def printChar (col row ch : Int) (c : Console) : Console :=
  c.printCharXY asciiBitFields (c.colToX col) (c.rowToY row) ch

end Characters

/-! ### The cursor -/

/-- `printCursor` and `eraseCursor`. -/
def printCursorOfColor (c : Console) : Console :=
  if c.cursorCol ≤ 0 then c
  else
    c.fillRectangle (int32 (c.colToX c.cursorCol - 2)) (c.rowToY c.cursorRow) c.fontSize
      ((ASCII_BF_HEIGHT - 3) * c.fontSize)

def moveCursor (col row : Int) (c : Console) : Console :=
  if col < 0 ∨ row < 0 ∨ col ≥ c.fontCols ∨ row ≥ c.fontRows then c
  else { c with cursorCol := col, cursorRow := row }

def cursorHasNext (c : Console) : Prop := c.cursorCol < c.fontCols ∧ c.cursorRow < c.fontRows

instance (c : Console) : Decidable c.cursorHasNext := inferInstanceAs (Decidable (_ ∧ _))

def cursorNext (c : Console) : Console :=
  let c := c.printCursorOfColor
  if c.cursorCol + 1 ≥ c.fontCols then
    let c := { c with cursorRow := int32 (c.cursorRow + 1) }
    if c.cursorRow ≥ c.fontRows then { c with cursorRow := c.fontRows - 1, cursorCol := c.fontCols }
    else printCursorOfColor { c with cursorCol := 0 }
  else printCursorOfColor { c with cursorCol := c.cursorCol + 1 }

/-- `cursorPrev`, and whether it returned 0. -/
def cursorPrev (c : Console) : Console × Bool :=
  let c := c.printCursorOfColor
  if c.cursorCol - 1 < 0 then
    let c := { c with cursorRow := int32 (c.cursorRow - 1) }
    if c.cursorRow < 0 then ({ c with cursorRow := 0, cursorCol := 0 }, false)
    else (printCursorOfColor { c with cursorCol := c.fontCols - 1 }, true)
  else (printCursorOfColor { c with cursorCol := c.cursorCol - 1 }, true)

/-! ### Characters -/

def eraseChar (c : Console) : Console :=
  let (c, moved) := c.cursorPrev
  if moved then fillPlaces (c.colToX c.cursorCol) (c.rowToY c.cursorRow) glyphPlaces c else c

/-- The pixel of an index into the frame buffer. -/
def framebuffer (c : Console) (i : Int) : Int × Int := (i % c.width, i / c.width)

/-- The pixels with an index from `start` on, before `stop`. -/
def indices (c : Console) (start stop : Int) : List (Int × Int) :=
  (List.range (stop - start).toNat).map fun (k : Nat) => c.framebuffer (start + k)

/-- What `printNextChar` does if there is no place for a character. -/
def scroll (c : Console) : Console :=
  let pixelsInCharRow := int32 (c.cellHeight * c.width)
  let pixelsInScreen := int32 (c.width * c.height)
  let kept := int32 (pixelsInScreen - pixelsInCharRow)
  { c with
    cursorCol := 0
    cursorRow := c.fontRows - 1
    pixels := c.pixels ++ c.indices 0 kept ++ c.indices kept pixelsInScreen }

def scrollIfFull (c : Console) : Console := if c.cursorHasNext then c else c.scroll

section Printing

variable (asciiBitFields : Int → Nat → Bool)

/-- `printNextChar` of a character that has a cell. -/
def printNext (ch : Int) (c : Console) : Console :=
  let c := c.scrollIfFull
  (c.printChar asciiBitFields c.cursorCol c.cursorRow ch).cursorNext

def printNextChar (ch : Int) (c : Console) : Console :=
  if ch = 8 then c.eraseChar  -- '\b'
  else if ch = 10 then  -- '\n'
    let c := c.printCursorOfColor
    { c with cursorRow := int32 (c.cursorRow + 1), cursorCol := 0 }
  else if ch = 9 then  -- '\t'
    ((c.scrollIfFull.printNext asciiBitFields 32).printNext asciiBitFields 32).cursorNext
  else c.printNext asciiBitFields ch

end Printing

end Console

/-! ### Runs -/

/-- `initializeFrameBuffer` and `setFontGridValues`. -/
def initial (width height : Int) : Console :=
  Console.setFontGridValues
    { width, height, fontSize := 1, fontCols := 0, fontRows := 0, cursorCol := 0, cursorRow := 0, pixels := [] }

inductive Call where
  | printNextChar (ch : Int)
  | moveCursor (col row : Int)
  | setFontSize (fs : Int)

def Call.perform (asciiBitFields : Int → Nat → Bool) (c : Console) : Call → Console
  | .printNextChar ch => c.printNextChar asciiBitFields ch
  | .moveCursor col row => c.moveCursor col row
  | .setFontSize fs => c.setFontSize fs

/-- The screen holds a cell of the largest font. -/
structure Screen (width height : Int) : Prop where
  width_ge : ASCII_BF_WIDTH * MAX_FONT_SIZE + charSeparation ≤ width
  width_lt : width < 2 ^ 16
  height_ge : ASCII_BF_HEIGHT * MAX_FONT_SIZE + charSeparation ≤ height
  height_lt : height < 2 ^ 16

/-- All pixels that were written are on the screen. -/
def Console.OnScreen (c : Console) : Prop :=
  ∀ p ∈ c.pixels, (0 ≤ p.1 ∧ p.1 < c.width) ∧ (0 ≤ p.2 ∧ p.2 < c.height)

end SoTp.Video
