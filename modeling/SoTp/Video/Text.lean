/-
What the screen shows (`Kernel/c/videoDriver.c`). A text has characters in its cells, one over
another where a cell was printed to twice, and bars in front of cells: moving the cursor leaves the
bar where it was. With the two smaller fonts a bar has its place in the gap between two cells.

* `Text.perform` — what the driver does, in terms of cells.
* `Shows` — the pixels of the display are the picture of the text.
* `Shows.drawBar`, `Shows.drawCell`, `Shows.scroll` — one for each way to draw.
-/

import SoTp.Video.Display

namespace SoTp.Video

open SoTp.Lib

/-! ### Texts -/

structure Text (κ : Type) where
  width : Int
  height : Int
  fontSize : Int
  cols : Int
  rows : Int
  cursorCol : Int
  cursorRow : Int
  bgColor : κ
  fontColor : κ
  cursorColor : κ
  /-- The characters of a cell, the last one first. -/
  cell : Int × Int → List (Int × κ)
  /-- The color of the bar in front of a cell. -/
  bar : Int × Int → Option κ

namespace Text

variable {κ : Type}

def blank (d : Display κ) : Text κ where
  width := d.width
  height := d.height
  fontSize := d.fontSize
  cols := d.fontCols
  rows := d.fontRows
  cursorCol := 0
  cursorRow := 0
  bgColor := d.bgColor
  fontColor := d.fontColor
  cursorColor := d.cursorColor
  cell _ := []
  bar _ := none

def cursor (t : Text κ) : Int × Int := (t.cursorCol, t.cursorRow)

def setCursor (col row : Int) (t : Text κ) : Text κ := { t with cursorCol := col, cursorRow := row }

def setBar (color : Option κ) (t : Text κ) : Text κ :=
  { t with bar := Function.update t.bar t.cursor color }

def setCell (chars : List (Int × κ)) (t : Text κ) : Text κ :=
  { t with cell := Function.update t.cell t.cursor chars }

/-- The next cell, or behind the last one. -/
def next (t : Text κ) : Text κ :=
  let t := t.setBar none
  if t.cursorCol + 1 ≥ t.cols then
    if t.cursorRow + 1 ≥ t.rows then t.setCursor t.cols (t.rows - 1)
    else (t.setCursor 0 (t.cursorRow + 1)).setBar (some t.cursorColor)
  else (t.setCursor (t.cursorCol + 1) t.cursorRow).setBar (some t.cursorColor)

/-- The cell before, which is emptied. -/
def back (t : Text κ) : Text κ :=
  let t := t.setBar none
  if t.cursorCol - 1 < 0 then
    if t.cursorRow - 1 < 0 then t.setCursor 0 0
    else ((t.setCursor (t.cols - 1) (t.cursorRow - 1)).setBar (some t.cursorColor)).setCell []
  else ((t.setCursor (t.cursorCol - 1) t.cursorRow).setBar (some t.cursorColor)).setCell []

def Inside (t : Text κ) : Prop := t.cursorCol < t.cols ∧ t.cursorRow < t.rows

instance (t : Text κ) : Decidable t.Inside := inferInstanceAs (Decidable (_ ∧ _))

/-- All rows move up by one. -/
def scroll (t : Text κ) : Text κ :=
  { t with
    cursorCol := 0
    cursorRow := t.rows - 1
    cell := fun place => t.cell (place.1, place.2 + 1)
    bar := fun place => t.bar (place.1, place.2 + 1) }

def scrollIfFull (t : Text κ) : Text κ := if t.Inside then t else t.scroll

def put (ch : Int) (t : Text κ) : Text κ :=
  let t := t.scrollIfFull
  (t.setCell ((ch, t.fontColor) :: t.cell t.cursor)).next

def newline (t : Text κ) : Text κ := (t.setBar none).setCursor 0 (t.cursorRow + 1)

def printNextChar (ch : Int) (t : Text κ) : Text κ :=
  if ch = 8 then t.back
  else if ch = 10 then t.newline
  else if ch = 9 then ((t.scrollIfFull.put 32).put 32).next
  else t.put ch

def moveCursor (col row : Int) (t : Text κ) : Text κ :=
  if col < 0 ∨ row < 0 ∨ col ≥ t.cols ∨ row ≥ t.rows then t else t.setCursor col row

def clearScreen (t : Text κ) : Text κ :=
  { t with cursorCol := 0, cursorRow := 0, cell := fun _ => [], bar := fun _ => none }

def setColor (c : ColorType) (color : κ) (t : Text κ) : Text κ :=
  match c with
  | .background => { t with bgColor := color }
  | .font => { t with fontColor := color }
  | .cursor => { t with cursorColor := color }

def perform (t : Text RGBColor) : DriverCall → Text RGBColor
  | .printNextChar ch => t.printNextChar ch
  | .moveCursor col row => t.moveCursor col row
  | .setColor c hexColor => t.setColor c (setRGBColor hexColor)
  | .clearScreen => t.clearScreen

/-! ### Their size -/

/-- The screen is as wide and as high as before. -/
def SameSize (t t' : Text κ) : Prop := t'.width = t.width ∧ t'.height = t.height

theorem SameSize.trans {t t' t'' : Text κ} (h : SameSize t t') (h' : SameSize t' t'') :
    SameSize t t'' :=
  ⟨h'.1.trans h.1, h'.2.trans h.2⟩

theorem next_size (t : Text κ) : SameSize t t.next := by
  unfold next
  dsimp only
  split_ifs
  · exact ⟨rfl, rfl⟩
  · exact ⟨rfl, rfl⟩
  · exact ⟨rfl, rfl⟩

theorem scrollIfFull_size (t : Text κ) : SameSize t t.scrollIfFull := by
  unfold scrollIfFull
  split_ifs
  · exact ⟨rfl, rfl⟩
  · exact ⟨rfl, rfl⟩

theorem put_size (t : Text κ) (ch : Int) : SameSize t (t.put ch) := by
  have written : SameSize t.scrollIfFull (t.scrollIfFull.setCell ((ch, t.scrollIfFull.fontColor) ::
    t.scrollIfFull.cell t.scrollIfFull.cursor)) := ⟨rfl, rfl⟩
  exact t.scrollIfFull_size.trans (written.trans (next_size _))

theorem printNextChar_size (t : Text κ) (ch : Int) : SameSize t (t.printNextChar ch) := by
  unfold printNextChar back
  dsimp only
  split_ifs
  · exact ⟨rfl, rfl⟩
  · exact ⟨rfl, rfl⟩
  · exact ⟨rfl, rfl⟩
  · exact ⟨rfl, rfl⟩
  · exact ((t.scrollIfFull_size.trans (put_size _ 32)).trans (put_size _ 32)).trans (next_size _)
  · exact put_size t ch

theorem perform_size (t : Text RGBColor) (call : DriverCall) : SameSize t (t.perform call) := by
  cases call with
  | printNextChar ch => exact t.printNextChar_size ch
  | moveCursor col row =>
      show SameSize t (t.moveCursor col row)
      unfold moveCursor
      split_ifs
      · exact ⟨rfl, rfl⟩
      · exact ⟨rfl, rfl⟩
  | setColor c hexColor => cases c <;> exact ⟨rfl, rfl⟩
  | clearScreen => exact ⟨rfl, rfl⟩

/-! ### Their pictures -/

section Picture

variable (asciiBitFields : Int → Nat → Bool)

/-- The last character that has the bit. -/
def charInk (chars : List (Int × κ)) (bit : Nat × Nat) : Option κ :=
  (chars.find? fun c => decide (bit ∈ Display.inked asciiBitFields c.1)).map (·.2)

def cellWidth (t : Text κ) : Int := ASCII_BF_WIDTH * t.fontSize + charSeparation

def cellHeight (t : Text κ) : Int := ASCII_BF_HEIGHT * t.fontSize + charSeparation

/-- What is in a pixel: a bit of a character, or a part of the bar that is behind the cell. -/
def drawing (fontSize cellWidth cellHeight : Int) (cell : Int × Int → List (Int × κ))
    (bar : Int × Int → Option κ) (p : Int × Int) : Option κ :=
  let col := p.1 / cellWidth
  let row := p.2 / cellHeight
  let x := p.1 % cellWidth
  let y := p.2 % cellHeight
  if x < ASCII_BF_WIDTH * fontSize then
    charInk asciiBitFields (cell (col, row)) ((y / fontSize).toNat, (x / fontSize).toNat)
  else if (cellWidth - 2 ≤ x ∧ x < cellWidth - 2 + fontSize) ∧
      y < (ASCII_BF_HEIGHT - 3) * fontSize then
    bar (col + 1, row)
  else none

def picture (t : Text κ) (p : Int × Int) : κ :=
  (drawing asciiBitFields t.fontSize t.cellWidth t.cellHeight t.cell t.bar p).getD t.bgColor

end Picture

end Text

/-! ### The screen of a text -/

section Shows

open Console Display

variable {κ : Type} (asciiBitFields : Int → Nat → Bool)

/-- The display of a text. There is no character below the rows of the grid, and no bar that is not
wholly on the screen. -/
structure Shows (d : Display κ) (t : Text κ) : Prop where
  grid : Grid d.toConsole
  small : d.fontSize ≤ 2
  width : t.width = d.width
  height : t.height = d.height
  fontSize : t.fontSize = d.fontSize
  cols : t.cols = d.fontCols
  rows : t.rows = d.fontRows
  col : t.cursorCol = d.cursorCol
  row : t.cursorRow = d.cursorRow
  bgColor : t.bgColor = d.bgColor
  fontColor : t.fontColor = d.fontColor
  cursorColor : t.cursorColor = d.cursorColor
  cells : ∀ place, t.rows ≤ place.2 → t.cell place = []
  bars : ∀ place, 0 < place.1 → t.height < place.2 * t.cellHeight + (ASCII_BF_HEIGHT - 3) *
    t.fontSize → t.bar place = none
  picture : ∀ p, 0 ≤ p.1 → p.1 < t.width → 0 ≤ p.2 → p.2 < t.height →
    d.screen p = t.picture asciiBitFields p

variable {asciiBitFields} {d : Display κ} {t : Text κ} {col row : Int}

/-- The text and the screen have cells of one width -/
theorem Shows.cellWidth (s : Shows asciiBitFields d t) : t.cellWidth = d.cellWidth := by
  unfold Text.cellWidth Console.cellWidth
  rw [s.fontSize]

/-- and one height. -/
theorem Shows.cellHeight (s : Shows asciiBitFields d t) : t.cellHeight = d.cellHeight := by
  unfold Text.cellHeight Console.cellHeight
  rw [s.fontSize]

/-- The cursor moves in both, with nothing drawn. -/
theorem Shows.setCursor (s : Shows asciiBitFields d t) (col row : Int) :
    Shows asciiBitFields (d.setCursor col row) (t.setCursor col row) where
  grid := ⟨s.grid.screen, s.grid.fontSize, s.grid.fontCols, s.grid.fontRows⟩
  small := s.small
  width := s.width
  height := s.height
  fontSize := s.fontSize
  cols := s.cols
  rows := s.rows
  col := rfl
  row := rfl
  bgColor := s.bgColor
  fontColor := s.fontColor
  cursorColor := s.cursorColor
  cells := s.cells
  bars := s.bars
  picture := s.picture

/-- Something was drawn. -/
theorem Shows.draw (s : Shows asciiBitFields d t) {pixels : List (Int × Int)}
    {screen : Int × Int → κ}
    {cell : Int × Int → List (Int × κ)} {bar : Int × Int → Option κ}
    (cells : ∀ place, t.rows ≤ place.2 → cell place = [])
    (bars : ∀ place, 0 < place.1 → t.height < place.2 * t.cellHeight + (ASCII_BF_HEIGHT - 3) *
      t.fontSize → bar place = none)
    (picture : ∀ p, 0 ≤ p.1 → p.1 < t.width → 0 ≤ p.2 → p.2 < t.height →
      screen p =
        (Text.drawing asciiBitFields t.fontSize t.cellWidth t.cellHeight cell bar p).getD
          t.bgColor) :
    Shows asciiBitFields (d.drawn pixels screen) { t with cell, bar } where
  grid := ⟨s.grid.screen, s.grid.fontSize, s.grid.fontCols, s.grid.fontRows⟩
  small := s.small
  width := s.width
  height := s.height
  fontSize := s.fontSize
  cols := s.cols
  rows := s.rows
  col := s.col
  row := s.row
  bgColor := s.bgColor
  fontColor := s.fontColor
  cursorColor := s.cursorColor
  cells := cells
  bars := bars
  picture := picture

/-- A bar that is on the screen is in the gap behind a cell. -/
theorem printCursorOfColor_drawn (g : Grid d.toConsole) (small : d.fontSize ≤ 2)
    (first : ¬ d.cursorCol ≤ 0)
    (row_ge : 0 ≤ d.cursorRow) (fits : BarFits d.toConsole d.cursorCol d.cursorRow) (color : κ) :
    ∃ pixels screen, d.printCursorOfColor color = d.drawn pixels screen ∧ ∀ p, screen p =
      if (p.1 / d.cellWidth + 1 = d.cursorCol ∧
          d.cellWidth - 2 ≤ p.1 % d.cellWidth ∧ p.1 % d.cellWidth < d.cellWidth - 2 + d.fontSize) ∧
        (p.2 / d.cellHeight = d.cursorRow ∧ p.2 % d.cellHeight < (ASCII_BF_HEIGHT - 3) * d.fontSize)
      then color else d.screen p := by
  have fs := g.fontSize.1
  have wide : d.cellWidth = 11 * d.fontSize + 3 := rfl
  have high : d.cellHeight = 23 * d.fontSize + 3 := rfl
  obtain ⟨x, y⟩ := fits.resolve_left first
  have := g.width_bounds
  have := g.height_bounds
  have x_ge : 1 * d.cellWidth ≤ d.cursorCol * d.cellWidth :=
    Int.mul_le_mul_of_nonneg_right (by omega) (by omega)
  have y_ge : 0 ≤ d.cursorRow * d.cellHeight := Int.mul_nonneg row_ge (by omega)
  have bar : (ASCII_BF_HEIGHT - 3) * d.fontSize = 20 * d.fontSize := rfl
  rw [bar] at y
  have x_eq : d.colToX d.cursorCol = d.cursorCol * d.cellWidth :=
    int32_of_bounds (by omega) (by omega)
  have y_eq : d.rowToY d.cursorRow = d.cursorRow * d.cellHeight :=
    int32_of_bounds (by omega) (by omega)
  have left_eq : int32 (d.colToX d.cursorCol - 2) = d.cursorCol * d.cellWidth - 2 := by
    rw [x_eq]
    exact int32_of_bounds (by omega) (by omega)
  refine ⟨_, _, if_neg first, fun p => ?_⟩
  rw [left_eq, y_eq, bar]
  have across :
      (d.cursorCol * d.cellWidth - 2 ≤ p.1 ∧ p.1 < d.cursorCol * d.cellWidth - 2 + d.fontSize) ↔
      (p.1 / d.cellWidth + 1 = d.cursorCol ∧
        d.cellWidth - 2 ≤ p.1 % d.cellWidth ∧ p.1 % d.cellWidth < d.cellWidth - 2 + d.fontSize) :=
    before_piece_iff (by omega) (by omega) (by omega)
  have down :
      (d.cursorRow * d.cellHeight ≤ p.2 ∧ p.2 < d.cursorRow * d.cellHeight + 20 * d.fontSize) ↔
      (p.2 / d.cellHeight = d.cursorRow ∧ p.2 % d.cellHeight < 20 * d.fontSize) :=
    in_piece_iff (by omega) (by omega)
  refine (fillRectangle_screen (by omega) (by omega) (by omega) (by omega)).trans ?_
  exact if_congr (and_congr across down) rfl rfl

/-- A bar is drawn or erased. -/
theorem Shows.drawBar (s : Shows asciiBitFields d t) (row_ge : 0 ≤ d.cursorRow)
    (fits : BarFits d.toConsole d.cursorCol d.cursorRow) (color : Option κ) :
    Shows asciiBitFields (d.printCursorOfColor (color.getD d.bgColor)) (t.setBar color) := by
  have cell_width := s.cellWidth
  have cell_height := s.cellHeight
  have fs := s.grid.fontSize.1
  have small := s.small
  have font := s.fontSize
  have wide : t.cellWidth = 11 * t.fontSize + 3 := rfl
  by_cases first : d.cursorCol ≤ 0
  · -- No pixel is in front of the first column.
    have same : d.printCursorOfColor (color.getD d.bgColor) = d.drawn d.pixels d.screen :=
      if_pos first
    rw [same]
    refine s.draw s.cells (fun place col_pos below => ?_) fun p left right top bottom => ?_
    · have away : place ≠ t.cursor := fun here => by
        have : place.1 = t.cursorCol := congrArg Prod.fst here
        have := s.col
        omega
      rw [Function.update_of_ne away]
      exact s.bars place col_pos below
    · have away : (p.1 / t.cellWidth + 1, p.2 / t.cellHeight) ≠ t.cursor := fun here => by
        have : p.1 / t.cellWidth + 1 = t.cursorCol := congrArg Prod.fst here
        have := Int.ediv_nonneg left (by omega : 0 ≤ t.cellWidth)
        have := s.col
        omega
      rw [s.picture p left right top bottom]
      unfold Text.picture Text.drawing
      dsimp only
      rw [Function.update_of_ne away]
  · obtain ⟨pixels, screen, drawn, shown⟩ :=
      printCursorOfColor_drawn s.grid small first row_ge fits (color.getD d.bgColor)
    rw [drawn]
    rw [← s.col, ← s.row, ← cell_width, ← cell_height, ← font] at shown
    refine s.draw s.cells (fun place col_pos below => ?_) fun p left right top bottom => ?_
    · have away : place ≠ t.cursor := fun here => by
        have at_row : place.2 = t.cursorRow := congrArg Prod.snd here
        have inside := (fits.resolve_left first).2
        rw [at_row, s.row, s.height, cell_height, font] at below
        omega
      rw [Function.update_of_ne away]
      exact s.bars place col_pos below
    · rw [shown, s.picture p left right top bottom]
      unfold Text.picture Text.drawing
      dsimp only
      split_ifs with here char part char part
      · unfold ASCII_BF_WIDTH at char
        omega
      · have place : (p.1 / t.cellWidth + 1, p.2 / t.cellHeight) = t.cursor :=
          Prod.ext here.1.1 here.2.1
        rw [place, Function.update_self, s.bgColor]
      · exact absurd ⟨here.1.2, here.2.2⟩ part
      · rfl
      · have away : (p.1 / t.cellWidth + 1, p.2 / t.cellHeight) ≠ t.cursor := fun there =>
          here ⟨⟨congrArg Prod.fst there, part.1⟩, congrArg Prod.snd there, part.2⟩
        rw [Function.update_of_ne away]
      · rfl

/-- The bar is painted over with the background, -/
theorem Shows.hideBar (s : Shows asciiBitFields d t) (row_ge : 0 ≤ d.cursorRow)
    (fits : BarFits d.toConsole d.cursorCol d.cursorRow) :
      Shows asciiBitFields d.eraseCursor (t.setBar none) :=
  s.drawBar row_ge fits none

/-- or drawn. -/
theorem Shows.showBar (s : Shows asciiBitFields d t) (row_ge : 0 ≤ d.cursorRow)
    (fits : BarFits d.toConsole d.cursorCol d.cursorRow) :
    Shows asciiBitFields d.printCursor (t.setBar (some t.cursorColor)) := by
  show Shows asciiBitFields (d.printCursorOfColor d.cursorColor) _
  rw [← s.cursorColor]
  exact s.drawBar row_ge fits (some t.cursorColor)

/-- The cell of the cursor gets other characters. -/
theorem Shows.drawCell (s : Shows asciiBitFields d t) (col_ge : 0 ≤ d.cursorCol)
    (row_ge : 0 ≤ d.cursorRow)
    (fits : CellFits d.toConsole d.cursorCol d.cursorRow) {places : List (Nat × Nat)}
    (inside : ∀ q ∈ places, q ∈ glyphPlaces) {color : κ} {chars : List (Int × κ)}
    (held : chars = [] ∨ d.cursorRow < d.fontRows)
    (new : ∀ q, (Text.charInk asciiBitFields chars q).getD t.bgColor =
      if q ∈ places then color
        else (Text.charInk asciiBitFields (t.cell t.cursor) q).getD t.bgColor) :
    Shows asciiBitFields (d.fillPlaces (d.colToX d.cursorCol) (d.rowToY d.cursorRow) places color)
      (t.setCell chars) := by
  have font := s.fontSize
  have fs := s.grid.fontSize.1
  have wide : t.cellWidth = 11 * t.fontSize + 3 := rfl
  have high : t.cellHeight = 23 * t.fontSize + 3 := rfl
  obtain ⟨x, x_ge⟩ := colToX_of_fits s.grid col_ge fits
  obtain ⟨y, y_ge⟩ := rowToY_of_fits s.grid row_ge fits
  obtain ⟨pixels, screen, drawn, shown⟩ :=
    fillPlaces_drawn color s.grid x_ge y_ge fits.1 fits.2 inside
  rw [x, y, drawn]
  rw [← s.col, ← s.row, ← s.cellWidth, ← s.cellHeight, ← font] at shown
  refine s.draw (fun place below => ?_) s.bars fun p left right top bottom => ?_
  · by_cases here : place = t.cursor
    · rw [here, Function.update_self]
      refine held.resolve_right fun above => ?_
      have at_row : place.2 = t.cursorRow := congrArg Prod.snd here
      have := s.row
      have := s.rows
      omega
    · rw [Function.update_of_ne here]
      exact s.cells place below
  · rw [shown, s.picture p left right top bottom]
    unfold Text.picture Text.drawing
    dsimp only
    have broad : ASCII_BF_WIDTH * t.fontSize ≤ t.cellWidth := by
      unfold ASCII_BF_WIDTH
      omega
    have across : (t.cursorCol * t.cellWidth ≤ p.1 ∧
        p.1 < t.cursorCol * t.cellWidth + ASCII_BF_WIDTH * t.fontSize) ↔
        (p.1 / t.cellWidth = t.cursorCol ∧ p.1 % t.cellWidth < ASCII_BF_WIDTH * t.fontSize) :=
      in_piece_iff (by omega) broad
    have down :
        (t.cursorRow * t.cellHeight ≤ p.2 ∧ p.2 < t.cursorRow * t.cellHeight + t.cellHeight) ↔
        (p.2 / t.cellHeight = t.cursorRow ∧ p.2 % t.cellHeight < t.cellHeight) :=
      in_piece_iff (by omega) (Int.le_refl t.cellHeight)
    have below : p.2 % t.cellHeight < t.cellHeight := Int.emod_lt_of_pos _ (by omega)
    by_cases here : (p.1 / t.cellWidth, p.2 / t.cellHeight) = t.cursor
    · have col_eq : p.1 / t.cellWidth = t.cursorCol := congrArg Prod.fst here
      have row_eq : p.2 / t.cellHeight = t.cursorRow := congrArg Prod.snd here
      have x_split := Int.mul_ediv_add_emod p.1 t.cellWidth
      have y_split := Int.mul_ediv_add_emod p.2 t.cellHeight
      rw [col_eq, Int.mul_comm] at x_split
      rw [row_eq, Int.mul_comm] at y_split
      have x_nonneg := Int.emod_nonneg p.1 (by omega : t.cellWidth ≠ 0)
      have y_nonneg := Int.emod_nonneg p.2 (by omega : t.cellHeight ≠ 0)
      have x_rest : p.1 - t.cursorCol * t.cellWidth = p.1 % t.cellWidth := by omega
      have y_rest : p.2 - t.cursorRow * t.cellHeight = p.2 % t.cellHeight := by omega
      rw [here, Function.update_self]
      unfold bitPlace
      rw [x_rest, y_rest]
      by_cases char : p.1 % t.cellWidth < ASCII_BF_WIDTH * t.fontSize
      · rw [if_pos char, if_pos char, new]
        refine if_congr ?_ rfl rfl
        exact ⟨fun h => h.2, fun mem => ⟨⟨by omega, by omega⟩, mem⟩⟩
      · rw [if_neg char, if_neg char]
        refine if_neg fun drawn => ?_
        -- The bit would be one to the right of the glyph.
        obtain ⟨-, j_lt⟩ := glyphPlace_lt (inside _ drawn.2)
        have past := (Int.le_ediv_iff_mul_le (by omega : 0 < t.fontSize)).mpr (Int.not_lt.mp char)
        dsimp only at j_lt
        omega
    · rw [Function.update_of_ne here]
      refine if_neg fun drawn => here ?_
      obtain ⟨i_lt, j_lt⟩ := glyphPlace_lt (inside _ drawn.2)
      unfold bitPlace ASCII_BF_HEIGHT at i_lt
      unfold bitPlace ASCII_BF_WIDTH at j_lt
      dsimp only at i_lt j_lt
      have x_lt := Int.lt_mul_of_ediv_lt (by omega : 0 < t.fontSize)
        (by omega : (p.1 - t.cursorCol * t.cellWidth) / t.fontSize < 11)
      have y_lt := Int.lt_mul_of_ediv_lt (by omega : 0 < t.fontSize)
        (by omega : (p.2 - t.cursorRow * t.cellHeight) / t.fontSize < 23)
      refine Prod.ext (across.mp ⟨drawn.1.1, ?_⟩).1 (down.mp ⟨drawn.1.2, ?_⟩).1
      · unfold ASCII_BF_WIDTH
        omega
      · omega

/-- The ink of a glyph is part of its cell. -/
theorem inked_glyph (ch : Int) : ∀ q ∈ inked asciiBitFields ch, q ∈ glyphPlaces := by
  intro q mem
  unfold inked at mem
  split_ifs at mem
  · exact absurd mem List.not_mem_nil
  · exact (List.mem_filter.mp mem).1

/-- A cell is wiped, -/
theorem Shows.wipe (s : Shows asciiBitFields d t) (col_ge : 0 ≤ d.cursorCol)
    (row_ge : 0 ≤ d.cursorRow) (fits : CellFits d.toConsole d.cursorCol d.cursorRow) :
    Shows asciiBitFields
      (d.fillPlaces (d.colToX d.cursorCol) (d.rowToY d.cursorRow) glyphPlaces d.bgColor)
      (t.setCell []) := by
  refine s.drawCell col_ge row_ge fits (fun _ mem => mem) (Or.inl rfl) fun q => ?_
  split_ifs with glyph
  · exact s.bgColor
  · have absent : Text.charInk asciiBitFields (t.cell t.cursor) q = none := by
      refine Option.map_eq_none_iff.mpr (List.find?_eq_none.mpr fun c _ bit => glyph ?_)
      exact inked_glyph c.1 q (of_decide_eq_true bit)
    rw [absent]
    rfl

/-- or a character is drawn over what it holds. -/
theorem Shows.write (s : Shows asciiBitFields d t) (col_ge : 0 ≤ d.cursorCol)
    (row_ge : 0 ≤ d.cursorRow) (next : d.cursorHasNext) (ch : Int) :
    Shows asciiBitFields (d.printChar asciiBitFields d.cursorCol d.cursorRow ch)
      (t.setCell ((ch, t.fontColor) :: t.cell t.cursor)) := by
  refine s.drawCell col_ge row_ge (s.grid.cell next.1 next.2) (inked_glyph ch)
    (Or.inr next.2) fun q => ?_
  unfold Text.charInk
  rw [List.find?_cons]
  by_cases bit : q ∈ inked asciiBitFields ch
  · rw [decide_eq_true bit, if_pos bit]
    exact s.fontColor
  · rw [decide_eq_false bit, if_neg bit]

/-- The rows move up. -/
theorem Shows.scroll (s : Shows asciiBitFields d t) (few : d.width * d.height < 2 ^ 31) :
    Shows asciiBitFields d.scroll t.scroll := by
  have font := s.fontSize
  have fs := s.grid.fontSize.1
  have wide : t.cellWidth = 11 * t.fontSize + 3 := rfl
  have high : t.cellHeight = 23 * t.fontSize + 3 := rfl
  have next : ∀ n : Int, (n + 1) * t.cellHeight = n * t.cellHeight + t.cellHeight := fun n => by
    rw [Int.add_mul, Int.one_mul]
  refine ⟨⟨s.grid.screen, s.grid.fontSize, s.grid.fontCols, s.grid.fontRows⟩, s.small, s.width,
    s.height, s.fontSize,
    s.cols, s.rows, rfl, ?_, s.bgColor, s.fontColor, s.cursorColor, fun place below => ?_,
    fun place col_pos below => ?_, fun p left right top bottom => ?_⟩
  · show t.rows - 1 = d.fontRows - 1
    rw [s.rows]
  · have below : t.rows ≤ place.2 := below
    exact s.cells _ (by show t.rows ≤ place.2 + 1; omega)
  · have below : t.height < place.2 * t.cellHeight + (ASCII_BF_HEIGHT - 3) * t.fontSize := below
    have := next place.2
    exact s.bars _ col_pos
      (by show t.height < (place.2 + 1) * t.cellHeight + (ASCII_BF_HEIGHT - 3) * t.fontSize; omega)
  · have right : p.1 < t.width := right
    have bottom : p.2 < t.height := bottom
    have lifted_ge : 0 ≤ p.2 + t.cellHeight := by omega
    have lifted : (p.2 + t.cellHeight) / t.cellHeight = p.2 / t.cellHeight + 1 :=
      Int.add_ediv_of_dvd_right (Int.dvd_refl _) |>.trans (by rw [Int.ediv_self (by omega)])
    have kept : (p.2 + t.cellHeight) % t.cellHeight = p.2 % t.cellHeight := Int.add_emod_right _ _
    rw [scroll_screen s.grid few left (s.width ▸ right) top (s.height ▸ bottom),
      ← s.cellHeight, ← s.height]
    show _ = (Text.drawing asciiBitFields t.fontSize t.cellWidth t.cellHeight
      (fun place => t.cell (place.1, place.2 + 1))
      (fun place => t.bar (place.1, place.2 + 1)) p).getD t.bgColor
    unfold Text.drawing
    dsimp only
    by_cases moves : p.2 + t.cellHeight < t.height
    · rw [if_pos moves, s.picture (p.1, p.2 + t.cellHeight) left right lifted_ge moves]
      unfold Text.picture Text.drawing
      dsimp only
      rw [lifted, kept]
    · -- What would come from below the screen is below the grid, or a part of a bar that does
      -- not fit.
      rw [if_neg moves]
      split_ifs with char bar
      · have split := Int.mul_ediv_add_emod p.2 t.cellHeight
        have below := Int.emod_lt_of_pos p.2 (by omega : 0 < t.cellHeight)
        have whole := s.grid.fontRows_bounds.2.2
        rw [← s.rows, ← s.cellHeight, ← s.height] at whole
        have under : t.rows ≤ p.2 / t.cellHeight + 1 := by
          by_contra above
          have upper : p.2 / t.cellHeight + 2 ≤ t.rows := by omega
          have := Int.mul_le_mul_of_nonneg_right upper (by omega : 0 ≤ t.cellHeight)
          rw [Int.add_mul, Int.mul_comm (p.2 / t.cellHeight)] at this
          omega
        rw [s.cells _ under]
        exact s.bgColor.symm
      · have split := Int.mul_ediv_add_emod p.2 t.cellHeight
        have := next (p.2 / t.cellHeight)
        have col_pos := Int.ediv_nonneg left (by omega : 0 ≤ t.cellWidth)
        rw [Int.mul_comm] at split
        rw [s.bars _ (by show 0 < p.1 / t.cellWidth + 1; omega)
          (by show t.height < (p.2 / t.cellHeight + 1) * t.cellHeight + (ASCII_BF_HEIGHT - 3) * t.fontSize; omega)]
        exact s.bgColor.symm
      · exact s.bgColor.symm

/-- The cursor is inside of the grid in both or in none. -/
theorem Shows.inside_iff (s : Shows asciiBitFields d t) : t.Inside ↔ d.cursorHasNext := by
  unfold Text.Inside cursorHasNext
  rw [s.col, s.row, s.cols, s.rows]

/-- A scroll moves what the screen shows and clears the last row. -/
theorem Shows.scrollIfFull (s : Shows asciiBitFields d t)
    (few : ¬ d.cursorHasNext → d.width * d.height < 2 ^ 31) :
    Shows asciiBitFields d.scrollIfFull t.scrollIfFull := by
  unfold Display.scrollIfFull Text.scrollIfFull
  by_cases next : d.cursorHasNext
  · rw [if_pos next, if_pos (s.inside_iff.mpr next)]
    exact s
  · rw [if_neg next, if_neg fun inside => next (s.inside_iff.mp inside)]
    exact s.scroll (few next)

end Shows

end SoTp.Video
