/-
The text console with what it puts into the frame buffer (`Kernel/c/videoDriver.c`). A display is a
console with the colors and the picture; its functions are those of the console, and write the same
pixels. The lines of the frame buffer follow one another without a gap.

* `printNextChar_console` — the console of a display does what the console does.
* `fillRectangle_screen`, `fillPlaces_drawn`, `scroll_screen` — the picture after each way to draw.
-/

import SoTp.Lib.Painting
import SoTp.Video.OnScreen

namespace SoTp.Video

open SoTp.Lib

structure RGBColor where
  blue : Nat
  green : Nat
  red : Nat

def setRGBColor (hexColor : Nat) : RGBColor where
  blue := hexColor &&& 0xFF
  green := (hexColor >>> 8) &&& 0xFF
  red := (hexColor >>> 16) &&& 0xFF

inductive ColorType where
  | background
  | font
  | cursor
deriving DecidableEq

structure Display (κ : Type) extends Console where
  screen : Int × Int → κ
  bgColor : κ
  fontColor : κ
  cursorColor : κ

namespace Display

variable {κ : Type}

/-! ### The functions -/

def fillRectangle (x y width height : Int) (color : κ) (d : Display κ) : Display κ :=
  { d with
    toConsole := d.toConsole.fillRectangle x y width height
    screen := paint color (Console.rectangle x y width height) d.screen }

def fillPlaces (x y : Int) (places : List (Nat × Nat)) (color : κ) (d : Display κ) : Display κ :=
  places.foldl (fun d p =>
    d.fillRectangle (int32 (x + p.2 * d.fontSize)) (int32 (y + p.1 * d.fontSize))
    d.fontSize d.fontSize color) d

section Characters

variable (asciiBitFields : Int → Nat → Bool)

/-- The bits of a character. -/
def inked (ch : Int) : List (Nat × Nat) :=
  if ch < ASCII_BF_MIN ∨ ch > ASCII_BF_MAX then []
  else Console.glyphPlaces.filter fun p => asciiBitFields (ch - ASCII_BF_MIN)
    (p.1 * ASCII_BF_WIDTH.toNat + p.2)

def printCharXY (x y ch : Int) (d : Display κ) : Display κ :=
  d.fillPlaces x y (inked asciiBitFields ch) d.fontColor

def printChar (col row ch : Int) (d : Display κ) : Display κ :=
  d.printCharXY asciiBitFields (d.colToX col) (d.rowToY row) ch

end Characters

def printCursorOfColor (color : κ) (d : Display κ) : Display κ :=
  if d.cursorCol ≤ 0 then d
  else
    d.fillRectangle (int32 (d.colToX d.cursorCol - 2)) (d.rowToY d.cursorRow) d.fontSize
      ((ASCII_BF_HEIGHT - 3) * d.fontSize) color

def printCursor (d : Display κ) : Display κ := d.printCursorOfColor d.cursorColor

def eraseCursor (d : Display κ) : Display κ := d.printCursorOfColor d.bgColor

/-- The cursor somewhere else; nothing is drawn. -/
def setCursor (col row : Int) (d : Display κ) : Display κ :=
  { d with toConsole := { d.toConsole with cursorCol := col, cursorRow := row } }

def moveCursor (col row : Int) (d : Display κ) : Display κ :=
  { d with toConsole := d.toConsole.moveCursor col row }

def cursorNext (d : Display κ) : Display κ :=
  let d := d.eraseCursor
  if d.cursorCol + 1 ≥ d.fontCols then
    if int32 (d.cursorRow + 1) ≥ d.fontRows then d.setCursor d.fontCols (d.fontRows - 1)
    else (d.setCursor 0 (int32 (d.cursorRow + 1))).printCursor
  else (d.setCursor (d.cursorCol + 1) d.cursorRow).printCursor

/-- `cursorPrev`, and whether it returned 0. -/
def cursorPrev (d : Display κ) : Display κ × Bool :=
  let d := d.eraseCursor
  if d.cursorCol - 1 < 0 then
    if int32 (d.cursorRow - 1) < 0 then (d.setCursor 0 0, false)
    else ((d.setCursor (d.fontCols - 1) (int32 (d.cursorRow - 1))).printCursor, true)
  else ((d.setCursor (d.cursorCol - 1) d.cursorRow).printCursor, true)

def eraseChar (d : Display κ) : Display κ :=
  let (d, moved) := d.cursorPrev
  if moved then d.fillPlaces (d.colToX d.cursorCol)
    (d.rowToY d.cursorRow) Console.glyphPlaces d.bgColor else d

/-- The two loops that move the picture up, and the cursor. -/
def scroll (d : Display κ) : Display κ :=
  let pixelsInCharRow := int32 (d.cellHeight * d.width)
  let pixelsInScreen := int32 (d.width * d.height)
  let kept := int32 (pixelsInScreen - pixelsInCharRow)
  { d with
    toConsole := d.toConsole.scroll
    screen := paint d.bgColor (d.indices kept pixelsInScreen)
      (shiftPicture (fun (k : Nat) => d.framebuffer k) pixelsInCharRow.toNat kept.toNat d.screen) }

def scrollIfFull (d : Display κ) : Display κ := if d.cursorHasNext then d else d.scroll

def setColor (c : ColorType) (color : κ) (d : Display κ) : Display κ :=
  match c with
  | .background => { d with bgColor := color }
  | .font => { d with fontColor := color }
  | .cursor => { d with cursorColor := color }

def clearScreen (d : Display κ) : Display κ :=
  (d.fillRectangle 0 0 d.width d.height d.bgColor).moveCursor 0 0

section Printing

variable (asciiBitFields : Int → Nat → Bool)

def printNext (ch : Int) (d : Display κ) : Display κ :=
  let d := d.scrollIfFull
  (d.printChar asciiBitFields d.cursorCol d.cursorRow ch).cursorNext

def newline (d : Display κ) : Display κ :=
  let d := d.eraseCursor
  d.setCursor 0 (int32 (d.cursorRow + 1))

def printNextChar (ch : Int) (d : Display κ) : Display κ :=
  if ch = 8 then d.eraseChar
  else if ch = 10 then d.newline
  else if ch = 9 then
    ((d.scrollIfFull.printNext asciiBitFields 32).printNext asciiBitFields 32).cursorNext
  else d.printNext asciiBitFields ch

end Printing

end Display

/-- The driver's system calls. -/
inductive DriverCall where
  | printNextChar (ch : Int)
  | moveCursor (col row : Int)
  | setColor (c : ColorType) (hexColor : Nat)
  | clearScreen

def DriverCall.perform (asciiBitFields : Int → Nat → Bool) (d : Display RGBColor) : DriverCall →
  Display RGBColor
  | .printNextChar ch => d.printNextChar asciiBitFields ch
  | .moveCursor col row => d.moveCursor col row
  | .setColor c hexColor => d.setColor c (setRGBColor hexColor)
  | .clearScreen => d.clearScreen

namespace Display

variable {κ : Type}

/-! ### The console of a display -/

section Console

variable {asciiBitFields : Int → Nat → Bool} {d : Display κ}

@[simp] theorem fillPlaces_console (x y : Int) (places : List (Nat × Nat)) (color : κ)
    (d : Display κ) :
    (d.fillPlaces x y places color).toConsole = Console.fillPlaces x y places d.toConsole := by
  induction places generalizing d with
  | nil => rfl
  | cons p places ih => exact ih _

@[simp] theorem printChar_console (col row ch : Int) (d : Display κ) :
    (d.printChar asciiBitFields col row ch).toConsole =
      d.toConsole.printChar asciiBitFields col row ch := by
  unfold printChar printCharXY Console.printChar Console.printCharXY inked
  rw [fillPlaces_console]
  split_ifs
  · rfl
  · rfl

@[simp] theorem printCursorOfColor_console (color : κ) (d : Display κ) :
    (d.printCursorOfColor color).toConsole = d.toConsole.printCursorOfColor := by
  unfold printCursorOfColor Console.printCursorOfColor
  split_ifs
  · rfl
  · rfl

@[simp] theorem printCursor_console (d : Display κ) :
    d.printCursor.toConsole = d.toConsole.printCursorOfColor :=
  printCursorOfColor_console _ d

@[simp] theorem eraseCursor_console (d : Display κ) :
    d.eraseCursor.toConsole = d.toConsole.printCursorOfColor :=
  printCursorOfColor_console _ d

theorem moveCursor_eq (col row : Int) (d : Display κ) : d.moveCursor col row =
    if col < 0 ∨ row < 0 ∨ col ≥ d.fontCols ∨ row ≥ d.fontRows then d else d.setCursor col row := by
  unfold moveCursor Console.moveCursor setCursor
  split_ifs
  · rfl
  · rfl

/-- The screen does not decide where the cursor goes, -/
theorem cursorNext_console (d : Display κ) : d.cursorNext.toConsole = d.toConsole.cursorNext := by
  unfold cursorNext Console.cursorNext
  rw [← eraseCursor_console]
  generalize d.eraseCursor = e
  dsimp only
  split_ifs
  · rfl
  · exact printCursor_console _
  · exact printCursor_console _

/-- neither forward nor back, -/
theorem cursorPrev_console (d : Display κ) :
    d.toConsole.cursorPrev = (d.cursorPrev.1.toConsole, d.cursorPrev.2) := by
  unfold cursorPrev Console.cursorPrev
  rw [← eraseCursor_console]
  generalize d.eraseCursor = e
  dsimp only
  split_ifs
  · rfl
  · rw [printCursor_console]
    rfl
  · rw [printCursor_console]
    rfl

/-- nor at a backspace, -/
theorem eraseChar_console (d : Display κ) : d.eraseChar.toConsole = d.toConsole.eraseChar := by
  unfold eraseChar Console.eraseChar
  rw [cursorPrev_console]
  dsimp only
  split_ifs
  · exact fillPlaces_console _ _ _ _ _
  · rfl

/-- a scroll, -/
theorem scrollIfFull_console (d : Display κ) :
    d.scrollIfFull.toConsole = d.toConsole.scrollIfFull := by
  unfold scrollIfFull Console.scrollIfFull
  split_ifs
  · rfl
  · rfl

/-- a character, -/
theorem printNext_console (ch : Int) (d : Display κ) :
    (d.printNext asciiBitFields ch).toConsole = d.toConsole.printNext asciiBitFields ch := by
  unfold printNext Console.printNext
  dsimp only
  rw [cursorNext_console, printChar_console, scrollIfFull_console]

/-- or a character with a meaning of its own. -/
theorem printNextChar_console (ch : Int) (d : Display κ) :
    (d.printNextChar asciiBitFields ch).toConsole =
      d.toConsole.printNextChar asciiBitFields ch := by
  unfold printNextChar Console.printNextChar
  dsimp only
  split_ifs
  · exact eraseChar_console d
  · rw [← eraseCursor_console]
    rfl
  · rw [cursorNext_console, printNext_console, printNext_console, scrollIfFull_console]
  · exact printNext_console ch d

end Console

/-! ### The picture -/

section Screen

open Console

variable {d : Display κ} {color : κ} {x y width height : Int} {p : Int × Int}

/-- The display after only pixels were written. -/
def drawn (pixels : List (Int × Int)) (screen : Int × Int → κ) (d : Display κ) : Display κ :=
  { d with toConsole := { d.toConsole with pixels := pixels }, screen := screen }

/-- The coordinates of the rectangle fit in 32 bits. -/
theorem mem_rectangle (x_ge : -2 ^ 31 ≤ x) (x_le : x + width ≤ 2 ^ 31) (y_ge : -2 ^ 31 ≤ y)
    (y_le : y + height ≤ 2 ^ 31) :
    p ∈ rectangle x y width height ↔ (x ≤ p.1 ∧ p.1 < x + width) ∧
      (y ≤ p.2 ∧ p.2 < y + height) := by
  constructor
  · intro mem
    obtain ⟨i, i_mem, mem⟩ := List.mem_flatMap.mp mem
    obtain ⟨j, j_mem, rfl⟩ := List.mem_map.mp mem
    rw [List.mem_range] at i_mem j_mem
    rw [int32_of_bounds (n := x + j) (by omega) (by omega), int32_of_bounds (n :=
      y + i) (by omega) (by omega)]
    omega
  · intro ⟨⟨left, right⟩, top, bottom⟩
    refine List.mem_flatMap.mpr ⟨(p.2 - y).toNat, List.mem_range.mpr (by omega), ?_⟩
    refine List.mem_map.mpr ⟨(p.1 - x).toNat, List.mem_range.mpr (by omega), ?_⟩
    have across : x + (p.1 - x).toNat = p.1 := by omega
    have down : y + (p.2 - y).toNat = p.2 := by omega
    rw [across, down, int32_of_bounds (by omega) (by omega), int32_of_bounds (by omega) (by omega)]

/-- A rectangle has its colour inside, and nothing changes outside. -/
theorem fillRectangle_screen (x_ge : -2 ^ 31 ≤ x) (x_le : x + width ≤ 2 ^ 31) (y_ge : -2 ^ 31 ≤ y)
    (y_le : y + height ≤ 2 ^ 31) :
    (d.fillRectangle x y width height color).screen p =
      if (x ≤ p.1 ∧ p.1 < x + width) ∧ (y ≤ p.2 ∧ p.2 < y + height) then color else d.screen p := by
  obtain ⟨painted, left⟩ := paint_apply color (rectangle x y width height) d.screen p
  rw [mem_rectangle x_ge x_le y_ge y_le] at painted left
  split_ifs with inside
  · exact painted inside
  · exact left inside

/-- The pixels of a glyph are inside its cell. -/
theorem glyphPlace_lt {q : Nat × Nat} (mem : q ∈ glyphPlaces) :
    (q.1 : Int) + 1 ≤ ASCII_BF_HEIGHT ∧ (q.2 : Int) + 1 ≤ ASCII_BF_WIDTH := by
  obtain ⟨i, i_mem, mem⟩ := List.mem_flatMap.mp mem
  obtain ⟨j, j_mem, rfl⟩ := List.mem_map.mp mem
  have i_lt := List.mem_range.mp i_mem
  have j_lt := List.mem_range.mp j_mem
  unfold ASCII_BF_HEIGHT at i_lt ⊢
  unfold ASCII_BF_WIDTH at j_lt ⊢
  dsimp only
  omega

/-- The place of the bit of a glyph at `x` and `y` that a pixel belongs to. -/
def bitPlace (fontSize : Int) (x y : Int) (p : Int × Int) : Nat × Nat :=
  (((p.2 - y) / fontSize).toNat, ((p.1 - x) / fontSize).toNat)

/-- The pixels of the square of a bit. -/
theorem in_square_iff {fontSize : Int} (pos : 1 ≤ fontSize) {i j : Nat} :
    ((x + j * fontSize ≤ p.1 ∧ p.1 < x + j * fontSize + fontSize) ∧
      (y + i * fontSize ≤ p.2 ∧ p.2 < y + i * fontSize + fontSize)) ↔
      (x ≤ p.1 ∧ y ≤ p.2) ∧ bitPlace fontSize x y p = (i, j) := by
  have across := in_piece_iff (i := j) (n := p.1 - x) (by omega : 0 < fontSize)
    (Int.le_refl fontSize)
  have down := in_piece_iff (i := i) (n := p.2 - y) (by omega : 0 < fontSize) (Int.le_refl fontSize)
  have across_nonneg : 0 ≤ (j : Int) * fontSize := Int.mul_nonneg (Int.natCast_nonneg j) (by omega)
  have down_nonneg : 0 ≤ (i : Int) * fontSize := Int.mul_nonneg (Int.natCast_nonneg i) (by omega)
  have across_mod : (p.1 - x) % fontSize < fontSize := Int.emod_lt_of_pos _ (by omega)
  have down_mod : (p.2 - y) % fontSize < fontSize := Int.emod_lt_of_pos _ (by omega)
  unfold bitPlace
  rw [Prod.mk.injEq]
  constructor
  · intro inside
    have col := (across.mp (by omega)).1
    have row := (down.mp (by omega)).1
    rw [col, row]
    exact ⟨by omega, Int.toNat_natCast i, Int.toNat_natCast j⟩
  · intro ⟨⟨left, top⟩, row, col⟩
    have row_nonneg : 0 ≤ (p.2 - y) / fontSize := Int.ediv_nonneg (by omega) (by omega)
    have col_nonneg : 0 ≤ (p.1 - x) / fontSize := Int.ediv_nonneg (by omega) (by omega)
    have right := across.mpr ⟨by omega, across_mod⟩
    have bottom := down.mpr ⟨by omega, down_mod⟩
    omega

/-- The squares of some bits of a glyph that lies on the screen. -/
theorem fillPlaces_drawn (color : κ) (g : Grid d.toConsole) (x_ge : 0 ≤ x) (y_ge : 0 ≤ y)
    (x_le : x + ASCII_BF_WIDTH * d.fontSize ≤ d.width)
    (y_le : y + ASCII_BF_HEIGHT * d.fontSize ≤ d.height)
    {places : List (Nat × Nat)} (inside : ∀ q ∈ places, q ∈ glyphPlaces) :
    ∃ pixels screen, d.fillPlaces x y places color = d.drawn pixels screen ∧
      ∀ p, screen p = if (x ≤ p.1 ∧ y ≤ p.2) ∧ bitPlace d.fontSize x y p ∈ places then color
        else d.screen p := by
  induction places generalizing d with
  | nil => exact ⟨d.pixels, d.screen, rfl, fun p => (if_neg fun mem => List.not_mem_nil mem.2).symm⟩
  | cons q places ih =>
      obtain ⟨i, j⟩ := q
      obtain ⟨i_lt, j_lt⟩ := glyphPlace_lt (inside _ List.mem_cons_self)
      have fs := g.fontSize.1
      have := g.width_bounds
      have := g.height_bounds
      have x_step := Int.mul_le_mul_of_nonneg_right j_lt (by omega : 0 ≤ d.fontSize)
      have y_step := Int.mul_le_mul_of_nonneg_right i_lt (by omega : 0 ≤ d.fontSize)
      rw [Int.add_mul, Int.one_mul] at x_step y_step
      dsimp only at x_step y_step
      have x_nonneg : 0 ≤ (j : Int) * d.fontSize := Int.mul_nonneg (Int.natCast_nonneg j) (by omega)
      have y_nonneg : 0 ≤ (i : Int) * d.fontSize := Int.mul_nonneg (Int.natCast_nonneg i) (by omega)
      have first : d.fillPlaces x y ((i, j) :: places) color =
          (d.fillRectangle (x + j * d.fontSize) (y + i * d.fontSize) d.fontSize d.fontSize
            color).fillPlaces x y places color := by
        show (d.fillRectangle (int32 (x + j * d.fontSize))
          (int32 (y + i * d.fontSize)) d.fontSize d.fontSize color).fillPlaces x y places color = _
        rw [int32_of_bounds (n := x + j * d.fontSize) (by omega) (by omega),
          int32_of_bounds (n := y + i * d.fontSize) (by omega) (by omega)]
      have square :
          ∀ p, (d.fillRectangle (x + j * d.fontSize) (y + i * d.fontSize) d.fontSize d.fontSize
          color).screen p =
            if (x ≤ p.1 ∧ y ≤ p.2) ∧ bitPlace d.fontSize x y p = (i, j) then color
              else d.screen p := fun p => by
        rw [fillRectangle_screen (by omega) (by omega) (by omega) (by omega)]
        exact if_congr (in_square_iff fs) rfl rfl
      have g' :
          Grid (d.fillRectangle (x + j * d.fontSize) (y + i * d.fontSize) d.fontSize d.fontSize
          color).toConsole := ⟨g.screen, g.fontSize, g.fontCols, g.fontRows⟩
      obtain ⟨pixels, screen, drawn, picture⟩ := ih g' x_le y_le fun q mem =>
        inside q (List.mem_cons_of_mem _ mem)
      refine ⟨pixels, screen, first.trans drawn, fun p => ?_⟩
      rw [picture, square]
      by_cases later : (x ≤ p.1 ∧ y ≤ p.2) ∧ bitPlace d.fontSize x y p ∈ places
      · have mem : bitPlace d.fontSize x y p ∈ (i, j) :: places := List.mem_cons_of_mem _ later.2
        exact (if_pos later).trans (if_pos ⟨later.1, mem⟩).symm
      · refine (if_neg later).trans (if_congr (and_congr_right fun corner => ?_) rfl rfl)
        rw [List.mem_cons]
        exact ⟨Or.inl, fun mem => mem.resolve_right fun mem => later ⟨corner, mem⟩⟩

/-- The lines move up by the height of a cell. -/
theorem scroll_screen (g : Grid d.toConsole) (few : d.width * d.height < 2 ^ 31) (left : 0 ≤ p.1)
    (right : p.1 < d.width) (top : 0 ≤ p.2) (bottom : p.2 < d.height) :
    d.scroll.screen p = if p.2 + d.cellHeight < d.height then d.screen (p.1, p.2 + d.cellHeight)
      else d.bgColor := by
  obtain ⟨width, width'⟩ := g.width_bounds
  obtain ⟨height, height'⟩ := g.height_bounds
  obtain ⟨cell, cell'⟩ := g.cellHeight_bounds
  have row_le : d.cellHeight * d.width ≤ d.width * d.height := by
    rw [Int.mul_comm]
    exact Int.mul_le_mul_of_nonneg_left (by omega) (by omega)
  have row_nonneg : 0 ≤ d.cellHeight * d.width := Int.mul_nonneg (by omega) (by omega)
  have row_eq : int32 (d.cellHeight * d.width) = d.cellHeight * d.width :=
    int32_of_bounds (by omega) (by omega)
  have screen_eq : int32 (d.width * d.height) = d.width * d.height :=
    int32_of_bounds (by omega) (by omega)
  have kept_eq : int32 (d.width * d.height - d.cellHeight * d.width) = (d.height - d.cellHeight) *
      d.width := by
    rw [int32_of_bounds (by omega) (by omega), Int.sub_mul, Int.mul_comm d.height]
  -- The index of the pixel, and the one it is copied from.
  obtain ⟨k, k_eq⟩ :=
    Int.eq_ofNat_of_zero_le (Int.add_nonneg (Int.mul_nonneg top (by omega : 0 ≤ d.width)) left)
  have place_of : ∀ n : Int, d.framebuffer (p.1 + d.width * n) = (p.1, n) := fun n => by
    unfold framebuffer
    rw [Int.add_mul_emod_self_left, Int.emod_eq_of_lt left right,
      Int.add_mul_ediv_left _ _ (by omega), Int.ediv_eq_zero_of_lt left right, Int.zero_add]
  have injective : Function.Injective fun n : Nat => d.framebuffer n := fun a b same => by
    have rows : (a : Int) / d.width = b / d.width := congrArg Prod.snd same
    have cols : (a : Int) % d.width = b % d.width := congrArg Prod.fst same
    have := Int.mul_ediv_add_emod a d.width
    rw [rows, cols, Int.mul_ediv_add_emod] at this
    exact Int.ofNat.inj this.symm
  have k_place : d.framebuffer k = p := by
    rw [← k_eq, Int.add_comm, Int.mul_comm, place_of]
  have shifted :=
    (shiftPicture_apply (d.cellHeight * d.width).toNat ((d.height - d.cellHeight) * d.width).toNat
    d.screen injective).1 k
  have painted :=
    paint_apply d.bgColor (d.indices ((d.height - d.cellHeight) * d.width) (d.width * d.height))
    (shiftPicture (fun n : Nat => d.framebuffer n) (d.cellHeight * d.width).toNat
      ((d.height - d.cellHeight) * d.width).toNat d.screen) p
  have unfolded : d.scroll.screen p =
      paint d.bgColor (d.indices ((d.height - d.cellHeight) * d.width) (d.width * d.height))
        (shiftPicture (fun n : Nat => d.framebuffer n) (d.cellHeight * d.width).toNat
        ((d.height - d.cellHeight) * d.width).toNat d.screen) p := by
    unfold scroll
    dsimp only
    rw [row_eq, screen_eq, kept_eq]
  rw [unfolded]
  have size : d.width * d.height = d.height * d.width := Int.mul_comm _ _
  split_ifs with moves
  · have before : p.2 + 1 ≤ d.height - d.cellHeight := by omega
    have below := Int.mul_le_mul_of_nonneg_right before (by omega : 0 ≤ d.width)
    rw [Int.add_mul, Int.one_mul] at below
    have absent : p ∉ d.indices ((d.height - d.cellHeight) * d.width) (d.width * d.height) :=
        fun mem => by
      obtain ⟨n, -, same⟩ := List.mem_map.mp mem
      have start : (d.height - d.cellHeight) * d.width + n =
          n + d.width * (d.height - d.cellHeight) := by
        rw [Int.mul_comm, Int.add_comm]
      have row : ((d.height - d.cellHeight) * d.width + n) / d.width = p.2 := congrArg Prod.snd same
      rw [start, Int.add_mul_ediv_left _ _ (by omega)] at row
      have := Int.ediv_nonneg (Int.natCast_nonneg n) (by omega : 0 ≤ d.width)
      omega
    rw [painted.2 absent]
    have from_place : d.framebuffer ((k + (d.cellHeight * d.width).toNat : Nat) : Int) =
        (p.1, p.2 + d.cellHeight) := by
      rw [← place_of, Int.mul_add, Int.mul_comm d.width, Int.mul_comm d.width]
      congr 1
      omega
    rw [k_place, from_place, if_pos (by omega)] at shifted
    exact shifted
  · have after := Int.mul_le_mul_of_nonneg_right (by omega : d.height - d.cellHeight ≤ p.2)
      (by omega : 0 ≤ d.width)
    have last := Int.mul_le_mul_of_nonneg_right (by omega : p.2 + 1 ≤ d.height)
      (by omega : 0 ≤ d.width)
    rw [Int.add_mul, Int.one_mul] at last
    refine painted.1 (List.mem_map.mpr ⟨(k - (d.height - d.cellHeight) * d.width).toNat,
      List.mem_range.mpr ?_, ?_⟩)
    · omega
    · rw [← k_place]
      congr 1
      omega

end Screen

end Display

end SoTp.Video
