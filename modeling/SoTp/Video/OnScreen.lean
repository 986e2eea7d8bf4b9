/-
Where the console writes. As long as the cursor is inside the grid everything lies on the
screen: the cells, the cursor's bar in front of one, and what is scrolled. The cursor
leaves the grid by a newline in the last row, by a larger font, and by standing behind the
last cell; what matters is that no bar and no cell is drawn there that the screen does not
hold.

* `Moved` — an operation moved the cursor, and what it wrote is on the screen.
* `printNext_moved`, `eraseChar_moved`, `scroll_moved` — one for each way to draw.
* `pixels_on_screen` — every run whose steps are safe writes on the screen only.
-/

import SoTp.Video.Console
import Mathlib.Tactic.Linarith

namespace SoTp.Video

namespace Console

/-! ### The screen and the grid -/

theorem int32_of_bounds {n : Int} (lower : -2 ^ 31 ≤ n) (upper : n < 2 ^ 31) : int32 n = n := by
  unfold int32
  refine Int.bmod_eq_of_le ?_ ?_
  · norm_num
    omega
  · norm_num
    omega

/-- The font and the grid fit the screen. -/
structure Grid (c : Console) : Prop where
  screen : Screen c.width c.height
  fontSize : 1 ≤ c.fontSize ∧ c.fontSize ≤ MAX_FONT_SIZE
  fontCols : c.fontCols = c.width / c.cellWidth
  fontRows : c.fontRows = c.height / c.cellHeight

/-- The cursor's bar is on the screen; there is none in front of the first column. -/
def BarFits (c : Console) (col row : Int) : Prop :=
  col ≤ 0 ∨ (col * c.cellWidth - 2 + c.fontSize ≤ c.width ∧
    row * c.cellHeight + (ASCII_BF_HEIGHT - 3) * c.fontSize ≤ c.height)

/-- The cell is on the screen. -/
def CellFits (c : Console) (col row : Int) : Prop :=
  col * c.cellWidth + ASCII_BF_WIDTH * c.fontSize ≤ c.width ∧
    row * c.cellHeight + ASCII_BF_HEIGHT * c.fontSize ≤ c.height

section Grid

variable {c : Console} {col row : Int}

/-- The width of a cell, over the four sizes of the font. -/
theorem Grid.cellWidth_bounds (g : Grid c) : 14 ≤ c.cellWidth ∧ c.cellWidth ≤ 47 := by
  have := g.fontSize
  simp only [cellWidth, ASCII_BF_WIDTH, charSeparation, MAX_FONT_SIZE] at this ⊢
  omega

theorem Grid.cellHeight_bounds (g : Grid c) : 26 ≤ c.cellHeight ∧ c.cellHeight ≤ 95 := by
  have := g.fontSize
  simp only [cellHeight, ASCII_BF_HEIGHT, charSeparation, MAX_FONT_SIZE] at this ⊢
  omega

theorem Grid.width_bounds (g : Grid c) : 47 ≤ c.width ∧ c.width < 65536 :=
  ⟨g.screen.width_ge, g.screen.width_lt⟩

theorem Grid.height_bounds (g : Grid c) : 95 ≤ c.height ∧ c.height < 65536 :=
  ⟨g.screen.height_ge, g.screen.height_lt⟩

theorem Grid.fontCols_bounds (g : Grid c) :
    1 ≤ c.fontCols ∧ c.fontCols < 65536 ∧ c.fontCols * c.cellWidth ≤ c.width := by
  obtain ⟨lower, upper⟩ := g.cellWidth_bounds
  obtain ⟨width, width'⟩ := g.width_bounds
  rw [g.fontCols]
  have pos : 0 < c.cellWidth := by omega
  refine ⟨(Int.le_ediv_iff_mul_le pos).mpr (by omega), ?_, Int.ediv_mul_le _ (by omega)⟩
  exact Int.lt_of_le_of_lt (Int.ediv_le_self _ (by omega)) width'

theorem Grid.fontRows_bounds (g : Grid c) :
    1 ≤ c.fontRows ∧ c.fontRows < 65536 ∧ c.fontRows * c.cellHeight ≤ c.height := by
  obtain ⟨lower, upper⟩ := g.cellHeight_bounds
  obtain ⟨height, height'⟩ := g.height_bounds
  rw [g.fontRows]
  have pos : 0 < c.cellHeight := by omega
  refine ⟨(Int.le_ediv_iff_mul_le pos).mpr (by omega), ?_, Int.ediv_mul_le _ (by omega)⟩
  exact Int.lt_of_le_of_lt (Int.ediv_le_self _ (by omega)) height'

/-- The cells of the grid are on the screen, with the gap behind them. -/
theorem Grid.cell (g : Grid c) (col_lt : col < c.fontCols) (row_lt : row < c.fontRows) :
    CellFits c col row := by
  obtain ⟨-, -, cols⟩ := g.fontCols_bounds
  obtain ⟨-, -, rows⟩ := g.fontRows_bounds
  have x : (col + 1) * c.cellWidth ≤ c.fontCols * c.cellWidth :=
    Int.mul_le_mul_of_nonneg_right col_lt (by have := g.cellWidth_bounds; omega)
  have y : (row + 1) * c.cellHeight ≤ c.fontRows * c.cellHeight :=
    Int.mul_le_mul_of_nonneg_right row_lt (by have := g.cellHeight_bounds; omega)
  rw [Int.add_mul, Int.one_mul] at x y
  unfold CellFits
  unfold cellWidth charSeparation at x cols ⊢
  unfold cellHeight charSeparation at y rows ⊢
  constructor
  · omega
  · omega

/-- In front of a cell there is place for the bar. -/
theorem CellFits.bar (fits : CellFits c col row) (g : Grid c) : BarFits c col row := by
  obtain ⟨x, y⟩ := fits
  have := g.fontSize.1
  unfold ASCII_BF_WIDTH at x
  unfold ASCII_BF_HEIGHT at y
  refine Or.inr ⟨?_, ?_⟩
  · omega
  · unfold ASCII_BF_HEIGHT
    omega

theorem Grid.bar (g : Grid c) (col_lt : col < c.fontCols) (row_lt : row < c.fontRows) :
    BarFits c col row :=
  (g.cell col_lt row_lt).bar g

theorem Grid.setFontSize (g : Grid c) (fs : Int) : Grid (c.setFontSize fs) := by
  unfold Console.setFontSize
  split_ifs with valid
  · exact ⟨g.screen, valid, rfl, rfl⟩
  · exact g

end Grid

/-! ### Drawing -/

/-- The cursor moved, and all that was written is on the screen. -/
structure Moved (c c' : Console) (col row : Int) : Prop where
  width : c'.width = c.width
  height : c'.height = c.height
  fontSize : c'.fontSize = c.fontSize
  fontCols : c'.fontCols = c.fontCols
  fontRows : c'.fontRows = c.fontRows
  col : c'.cursorCol = col
  row : c'.cursorRow = row
  onScreen : c.OnScreen → c'.OnScreen

section Moved

variable {c c' c'' : Console} {col row col' row' : Int}

theorem Moved.refl (c : Console) : Moved c c c.cursorCol c.cursorRow :=
  ⟨rfl, rfl, rfl, rfl, rfl, rfl, rfl, id⟩

/-- Only the cursor moved. -/
theorem Moved.set (c : Console) (col row : Int) :
    Moved c { c with cursorCol := col, cursorRow := row } col row :=
  ⟨rfl, rfl, rfl, rfl, rfl, rfl, rfl, id⟩

theorem Moved.trans (m : Moved c c' col row) (m' : Moved c' c'' col' row') :
    Moved c c'' col' row' where
  width := m'.width.trans m.width
  height := m'.height.trans m.height
  fontSize := m'.fontSize.trans m.fontSize
  fontCols := m'.fontCols.trans m.fontCols
  fontRows := m'.fontRows.trans m.fontRows
  col := m'.col
  row := m'.row
  onScreen on := m'.onScreen (m.onScreen on)

theorem Moved.cellWidth (m : Moved c c' col row) : c'.cellWidth = c.cellWidth := by
  unfold Console.cellWidth
  rw [m.fontSize]

theorem Moved.cellHeight (m : Moved c c' col row) : c'.cellHeight = c.cellHeight := by
  unfold Console.cellHeight
  rw [m.fontSize]

/-- A call that moves the cursor keeps the grid, -/
theorem Moved.grid (m : Moved c c' col row) (g : Grid c) : Grid c' where
  screen := by rw [m.width, m.height]; exact g.screen
  fontSize := by rw [m.fontSize]; exact g.fontSize
  fontCols := by rw [m.fontCols, m.width, m.cellWidth]; exact g.fontCols
  fontRows := by rw [m.fontRows, m.height, m.cellHeight]; exact g.fontRows

/-- the bars that fit, -/
theorem Moved.bar (m : Moved c c' col row) (fits : BarFits c col' row') : BarFits c' col' row' := by
  unfold BarFits
  rw [m.cellWidth, m.cellHeight, m.fontSize, m.width, m.height]
  exact fits

/-- and the cells that fit. -/
theorem Moved.cell (m : Moved c c' col row) (fits : CellFits c col' row') :
    CellFits c' col' row' := by
  unfold CellFits
  rw [m.cellWidth, m.cellHeight, m.fontSize, m.width, m.height]
  exact fits

/-- A rectangle that lies on the screen. -/
theorem fillRectangle_moved (g : Grid c) {x y width height : Int} (x_ge : 0 ≤ x) (y_ge : 0 ≤ y)
    (x_le : x + width ≤ c.width) (y_le : y + height ≤ c.height) :
    Moved c (c.fillRectangle x y width height) c.cursorCol c.cursorRow := by
  refine ⟨rfl, rfl, rfl, rfl, rfl, rfl, rfl, fun on p mem => ?_⟩
  rcases List.mem_append.mp mem with mem | mem
  · exact on p mem
  · obtain ⟨i, i_mem, mem⟩ := List.mem_flatMap.mp mem
    obtain ⟨j, j_mem, rfl⟩ := List.mem_map.mp mem
    rw [List.mem_range] at i_mem j_mem
    have := g.width_bounds
    have := g.height_bounds
    rw [int32_of_bounds (by omega) (by omega), int32_of_bounds (by omega) (by omega)]
    show (0 ≤ x + j ∧ x + j < c.width) ∧ (0 ≤ y + i ∧ y + i < c.height)
    omega

/-- The bits of a cell. -/
theorem fillPlaces_moved (g : Grid c) {x y : Int} (x_ge : 0 ≤ x) (y_ge : 0 ≤ y)
    (x_le : x + ASCII_BF_WIDTH * c.fontSize ≤ c.width)
    (y_le : y + ASCII_BF_HEIGHT * c.fontSize ≤ c.height)
    {places : List (Nat × Nat)} (inside : ∀ p ∈ places, p ∈ glyphPlaces) :
    Moved c (fillPlaces x y places c) c.cursorCol c.cursorRow := by
  induction places generalizing c with
  | nil => exact Moved.refl c
  | cons p places ih =>
      obtain ⟨i, i_mem, mem⟩ := List.mem_flatMap.mp (inside p List.mem_cons_self)
      obtain ⟨j, j_mem, rfl⟩ := List.mem_map.mp mem
      have i_lt : (i : Int) + 1 ≤ ASCII_BF_HEIGHT := by
        have := List.mem_range.mp i_mem
        unfold ASCII_BF_HEIGHT at this ⊢
        omega
      have j_lt : (j : Int) + 1 ≤ ASCII_BF_WIDTH := by
        have := List.mem_range.mp j_mem
        unfold ASCII_BF_WIDTH at this ⊢
        omega
      have fs := g.fontSize.1
      have x_step : ((j : Int) + 1) * c.fontSize ≤ ASCII_BF_WIDTH * c.fontSize :=
        Int.mul_le_mul_of_nonneg_right j_lt (by omega)
      have y_step : ((i : Int) + 1) * c.fontSize ≤ ASCII_BF_HEIGHT * c.fontSize :=
        Int.mul_le_mul_of_nonneg_right i_lt (by omega)
      have x_nonneg : 0 ≤ (j : Int) * c.fontSize := Int.mul_nonneg (Int.natCast_nonneg j) (by omega)
      have y_nonneg : 0 ≤ (i : Int) * c.fontSize := Int.mul_nonneg (Int.natCast_nonneg i) (by omega)
      rw [Int.add_mul, Int.one_mul] at x_step y_step
      have := g.width_bounds
      have := g.height_bounds
      have x_in : x + j * c.fontSize + c.fontSize ≤ c.width := by omega
      have y_in : y + i * c.fontSize + c.fontSize ≤ c.height := by omega
      have first := fillRectangle_moved g (by omega) (by omega) x_in y_in
      show Moved c (fillPlaces x y places (c.fillRectangle (int32 (x + j * c.fontSize))
        (int32 (y + i * c.fontSize)) c.fontSize c.fontSize)) _ _
      rw [int32_of_bounds (n := x + j * c.fontSize) (by omega) (by omega),
        int32_of_bounds (n := y + i * c.fontSize) (by omega) (by omega)]
      exact first.trans (ih (first.grid g) x_le y_le fun p mem =>
        inside p (List.mem_cons_of_mem _ mem))

/-- Nothing wraps where the cell fits, from left to right -/
theorem colToX_of_fits (g : Grid c) (col_ge : 0 ≤ col) (fits : CellFits c col row) :
    c.colToX col = col * c.cellWidth ∧ 0 ≤ col * c.cellWidth := by
  have nonneg : 0 ≤ col * c.cellWidth :=
    Int.mul_nonneg col_ge (by have := g.cellWidth_bounds; omega)
  have := fits.1
  have := g.width_bounds
  have := g.fontSize
  unfold ASCII_BF_WIDTH at *
  exact ⟨int32_of_bounds (by omega) (by omega), nonneg⟩

/-- and from top to bottom. -/
theorem rowToY_of_fits (g : Grid c) (row_ge : 0 ≤ row) (fits : CellFits c col row) :
    c.rowToY row = row * c.cellHeight ∧ 0 ≤ row * c.cellHeight := by
  have nonneg : 0 ≤ row * c.cellHeight :=
    Int.mul_nonneg row_ge (by have := g.cellHeight_bounds; omega)
  have := fits.2
  have := g.height_bounds
  have := g.fontSize
  unfold ASCII_BF_HEIGHT at *
  exact ⟨int32_of_bounds (by omega) (by omega), nonneg⟩

/-- The bar is drawn on the screen, -/
theorem printCursorOfColor_moved (g : Grid c) (row_ge : 0 ≤ c.cursorRow)
    (fits : BarFits c c.cursorCol c.cursorRow) :
      Moved c c.printCursorOfColor c.cursorCol c.cursorRow := by
  unfold printCursorOfColor
  split_ifs with first
  · exact Moved.refl c
  · obtain ⟨x, y⟩ := fits.resolve_left first
    have := g.width_bounds
    have := g.height_bounds
    have fs := g.fontSize
    obtain ⟨cell, -⟩ := g.cellWidth_bounds
    have x_ge : 1 * c.cellWidth ≤ c.cursorCol * c.cellWidth :=
      Int.mul_le_mul_of_nonneg_right (by omega) (by omega)
    have y_ge : 0 ≤ c.cursorRow * c.cellHeight :=
      Int.mul_nonneg row_ge (by have := g.cellHeight_bounds; omega)
    have x_eq : c.colToX c.cursorCol = c.cursorCol * c.cellWidth :=
      int32_of_bounds (by omega) (by omega)
    have y_eq : c.rowToY c.cursorRow = c.cursorRow * c.cellHeight := by
      unfold ASCII_BF_HEIGHT at y
      exact int32_of_bounds (by omega) (by omega)
    rw [x_eq, y_eq, int32_of_bounds (by omega) (by omega)]
    exact fillRectangle_moved g (by omega) y_ge x y

/-- and so is a glyph. -/
theorem printChar_moved (g : Grid c) (asciiBitFields : Int → Nat → Bool) (col_ge : 0 ≤ col)
    (row_ge : 0 ≤ row) (fits : CellFits c col row) (ch : Int) :
    Moved c (c.printChar asciiBitFields col row ch) c.cursorCol c.cursorRow := by
  obtain ⟨x, x_ge⟩ := colToX_of_fits g col_ge fits
  obtain ⟨y, y_ge⟩ := rowToY_of_fits g row_ge fits
  unfold printChar printCharXY
  rw [x, y]
  split_ifs
  · exact Moved.refl c
  · exact fillPlaces_moved g x_ge y_ge fits.1 fits.2 fun p mem => (List.mem_filter.mp mem).1

end Moved

/-! ### The cursor and the grid -/

/-- The cells of the grid before the cursor: the cursor is in the grid, or stands behind
the last cell. -/
def At (c : Console) (n : Int) : Prop :=
  (0 ≤ c.cursorCol ∧ c.cursorCol < c.fontCols ∧ 0 ≤ c.cursorRow ∧ c.cursorRow < c.fontRows ∧
    n = c.cursorRow * c.fontCols + c.cursorCol) ∨
  (c.cursorCol = c.fontCols ∧ c.cursorRow = c.fontRows - 1 ∧ n = c.fontRows * c.fontCols)

/-- Behind the last cell of the grid there is place for the bar. -/
def EndFits (c : Console) : Prop := c.fontCols * c.cellWidth - 2 + c.fontSize ≤ c.width

section Cursor

variable {c : Console}

theorem Moved.at {c' : Console} {col row n : Int} (m : Moved c c' col row)
    (place : (0 ≤ col ∧ col < c.fontCols ∧ 0 ≤ row ∧ row < c.fontRows ∧
      n = row * c.fontCols + col) ∨
      (col = c.fontCols ∧ row = c.fontRows - 1 ∧ n = c.fontRows * c.fontCols)) : At c' n := by
  unfold At
  rw [m.col, m.row, m.fontCols, m.fontRows]
  exact place

/-- The next cell, or behind the last one. -/
theorem cursorNext_moved (g : Grid c) (col_ge : 0 ≤ c.cursorCol) (col_lt : c.cursorCol < c.fontCols)
    (row_ge : 0 ≤ c.cursorRow) (row_lt : c.cursorRow < c.fontRows) :
    ∃ col row, Moved c c.cursorNext col row ∧
      At c.cursorNext (c.cursorRow * c.fontCols + c.cursorCol + 1) := by
  have erased := printCursorOfColor_moved g row_ge (g.bar col_lt row_lt)
  obtain ⟨-, rows, -⟩ := g.fontRows_bounds
  -- The row that is complete counts as many cells as there are columns.
  have complete : (c.cursorRow + 1) * c.fontCols = c.cursorRow * c.fontCols + c.fontCols := by
    rw [Int.add_mul, Int.one_mul]
  unfold cursorNext
  dsimp only
  generalize c.printCursorOfColor = d at erased ⊢
  have col_eq := erased.col
  have row_eq := erased.row
  have cols_eq := erased.fontCols
  have rows_eq := erased.fontRows
  have next : int32 (d.cursorRow + 1) = c.cursorRow + 1 := by
    rw [row_eq]
    exact int32_of_bounds (by omega) (by omega)
  rw [next]
  split_ifs with last bottom
  · have bottom : c.cursorRow + 1 = c.fontRows := by omega
    have moved := erased.trans (Moved.set d d.fontCols (d.fontRows - 1))
    refine ⟨_, _, moved, moved.at (Or.inr ⟨cols_eq, by rw [rows_eq], ?_⟩)⟩
    rw [← bottom, complete]
    omega
  · have moved := erased.trans (Moved.set d 0 (c.cursorRow + 1))
    have row_ge : 0 ≤ c.cursorRow + 1 := by omega
    have shown :=
      moved.trans (printCursorOfColor_moved (moved.grid g) row_ge (Or.inl (Int.le_refl 0)))
    refine ⟨_, _, shown, shown.at (Or.inl ⟨Int.le_refl 0, ?_, row_ge, ?_, ?_⟩)⟩
    · show 0 < c.fontCols
      omega
    · show c.cursorRow + 1 < c.fontRows
      omega
    · show _ = (c.cursorRow + 1) * c.fontCols + 0
      omega
  · have inside : c.cursorCol + 1 < c.fontCols := by omega
    have moved := erased.trans (Moved.set d (d.cursorCol + 1) d.cursorRow)
    have fits : BarFits c (d.cursorCol + 1) d.cursorRow := by
      rw [col_eq, row_eq]
      exact g.bar inside row_lt
    have shown :=
      moved.trans (printCursorOfColor_moved (moved.grid g) (row_eq ▸ row_ge) (moved.bar fits))
    refine ⟨_, _, shown, shown.at (Or.inl ⟨?_, ?_, ?_, ?_, ?_⟩)⟩
    · show 0 ≤ d.cursorCol + 1
      omega
    · show d.cursorCol + 1 < c.fontCols
      omega
    · show 0 ≤ d.cursorRow
      omega
    · show d.cursorRow < c.fontRows
      omega
    · show _ = d.cursorRow * c.fontCols + (d.cursorCol + 1)
      rw [row_eq]
      omega

/-- Behind the last cell the cursor stays where it is. -/
theorem cursorNext_end (g : Grid c) (col : c.cursorCol = c.fontCols)
    (row : c.cursorRow = c.fontRows - 1)
    (fits : EndFits c) : Moved c c.cursorNext c.fontCols (c.fontRows - 1) := by
  obtain ⟨rows, rows', -⟩ := g.fontRows_bounds
  obtain ⟨cols, -⟩ := g.fontCols_bounds
  have cell : CellFits c 0 (c.fontRows - 1) := g.cell (by omega) (by omega)
  have bar : BarFits c c.cursorCol c.cursorRow := by
    refine Or.inr ⟨?_, ?_⟩
    · rw [col]
      exact fits
    · have := cell.2
      have := g.fontSize.1
      rw [row]
      unfold ASCII_BF_HEIGHT at *
      omega
  have erased := printCursorOfColor_moved g (by omega) bar
  unfold cursorNext
  dsimp only
  generalize c.printCursorOfColor = d at erased ⊢
  have col_eq := erased.col
  have row_eq := erased.row
  have next : int32 (d.cursorRow + 1) = d.cursorRow + 1 := int32_of_bounds (by omega) (by omega)
  rw [next, if_pos (by rw [erased.fontCols]; omega), if_pos (by rw [erased.fontRows]; omega),
    ← erased.fontCols, ← erased.fontRows]
  exact erased.trans (Moved.set d d.fontCols (d.fontRows - 1))

/-- Scrolling writes each pixel of a screen that has less than `2^31`. -/
theorem scroll_moved (g : Grid c) (few : c.width * c.height < 2 ^ 31) :
    Moved c c.scroll 0 (c.fontRows - 1) := by
  refine ⟨rfl, rfl, rfl, rfl, rfl, rfl, rfl, fun on p mem => ?_⟩
  obtain ⟨width, width'⟩ := g.width_bounds
  obtain ⟨height, height'⟩ := g.height_bounds
  obtain ⟨cell, cell'⟩ := g.cellHeight_bounds
  have row : c.cellHeight * c.width ≤ c.width * c.height := by
    rw [Int.mul_comm]
    exact Int.mul_le_mul_of_nonneg_left (by omega) (by omega)
  have row_ge : 0 ≤ c.cellHeight * c.width := Int.mul_nonneg (by omega) (by omega)
  have row_eq : int32 (c.cellHeight * c.width) = c.cellHeight * c.width :=
    int32_of_bounds (by omega) (by omega)
  have screen_eq : int32 (c.width * c.height) = c.width * c.height :=
    int32_of_bounds (by omega) (by omega)
  have kept_eq : int32 (c.width * c.height - c.cellHeight * c.width) =
      c.width * c.height - c.cellHeight * c.width := int32_of_bounds (by omega) (by omega)
  have inside : ∀ start stop, 0 ≤ start → stop ≤ c.width * c.height → ∀ p ∈ c.indices start stop,
      (0 ≤ p.1 ∧ p.1 < c.width) ∧ (0 ≤ p.2 ∧ p.2 < c.height) :=
        fun start stop start_ge stop_le p mem => by
    obtain ⟨k, k_mem, rfl⟩ := List.mem_map.mp mem
    have k_lt := List.mem_range.mp k_mem
    refine ⟨⟨Int.emod_nonneg _ (by omega), Int.emod_lt_of_pos _ (by omega)⟩,
      Int.ediv_nonneg (by omega) (by omega), ?_⟩
    refine Int.ediv_lt_of_lt_mul (by omega) ?_
    rw [Int.mul_comm]
    omega
  unfold scroll at mem
  dsimp only at mem
  rw [row_eq, screen_eq, kept_eq] at mem
  rcases List.mem_append.mp mem with mem | mem
  · rcases List.mem_append.mp mem with mem | mem
    · exact on p mem
    · exact inside _ _ (by omega) (by omega) p mem
  · exact inside _ _ (by omega) (by omega) p mem

/-- One column back, or one row up; at the start of the screen the cursor stays. -/
theorem eraseChar_moved (g : Grid c) (col_ge : 0 ≤ c.cursorCol) (row_ge : 0 ≤ c.cursorRow)
    (row_lt : c.cursorRow < 2 ^ 31) (bar : BarFits c c.cursorCol c.cursorRow)
    (back : 0 < c.cursorCol → CellFits c (c.cursorCol - 1) c.cursorRow)
    (up : c.cursorCol = 0 → 0 < c.cursorRow → CellFits c (c.fontCols - 1) (c.cursorRow - 1)) :
    ∃ col row, Moved c c.eraseChar col row ∧ 0 ≤ col ∧ 0 ≤ row ∧ row ≤ c.cursorRow := by
  have erased := printCursorOfColor_moved g row_ge bar
  obtain ⟨cols, -⟩ := g.fontCols_bounds
  have cases_prev : c.cursorPrev =
      let d := c.printCursorOfColor
      if c.cursorCol = 0 then
        if c.cursorRow = 0 then ({ d with cursorCol := 0, cursorRow := 0 }, false)
        else
          (printCursorOfColor { d with cursorCol := c.fontCols - 1, cursorRow := c.cursorRow - 1 },
            true)
      else (printCursorOfColor { d with cursorCol := c.cursorCol - 1, cursorRow := c.cursorRow },
        true) := by
    have prev : int32 (c.printCursorOfColor.cursorRow - 1) = c.cursorRow - 1 := by
      rw [erased.row]
      exact int32_of_bounds (by omega) (by omega)
    unfold cursorPrev
    dsimp only
    rw [prev]
    have col_eq := erased.col
    have row_eq := erased.row
    have cols_eq := erased.fontCols
    by_cases first : c.cursorCol = 0
    · rw [if_pos (by omega), if_pos first]
      by_cases top : c.cursorRow = 0
      · rw [if_pos (by omega), if_pos top]
      · rw [if_neg (by omega), if_neg top, cols_eq]
    · rw [if_neg (by omega), if_neg first, col_eq, row_eq]
  unfold eraseChar
  rw [cases_prev]
  dsimp only
  generalize c.printCursorOfColor = d at erased ⊢
  -- Drawing the bar at a cell, and erasing the cell.
  have draw : ∀ col row, 0 ≤ col → 0 ≤ row → CellFits c col row →
      let e : Console := { d with cursorCol := col, cursorRow := row }
      Moved c (fillPlaces (e.printCursorOfColor.colToX e.printCursorOfColor.cursorCol)
        (e.printCursorOfColor.rowToY e.printCursorOfColor.cursorRow) glyphPlaces
          e.printCursorOfColor) col row := by
    intro col row col_ge row_ge fits e
    have moved := erased.trans (Moved.set d col row)
    have moved :=
      moved.trans (printCursorOfColor_moved (moved.grid g) row_ge (moved.bar (fits.bar g)))
    have g' := moved.grid g
    have fits := moved.cell fits
    obtain ⟨x, x_ge⟩ := colToX_of_fits g' col_ge fits
    obtain ⟨y, y_ge⟩ := rowToY_of_fits g' row_ge fits
    have at_col : e.printCursorOfColor.cursorCol = col := moved.col
    have at_row : e.printCursorOfColor.cursorRow = row := moved.row
    rw [at_col, at_row, x, y]
    have all : ∀ p ∈ glyphPlaces, p ∈ glyphPlaces := fun _ mem => mem
    have filled := moved.trans (fillPlaces_moved g' x_ge y_ge fits.1 fits.2 all)
    rw [at_col, at_row] at filled
    exact filled
  by_cases first : c.cursorCol = 0
  · rw [if_pos first]
    by_cases top : c.cursorRow = 0
    · rw [if_pos top]
      exact ⟨_, _, erased.trans (Moved.set d 0 0), Int.le_refl 0, Int.le_refl 0, row_ge⟩
    · rw [if_neg top]
      exact ⟨_, _,
        draw _ _ (by omega) (by omega) (up first (by omega)), by omega, by omega, by omega⟩
  · rw [if_neg first]
    exact ⟨_, _, draw _ _ (by omega) (by omega) (back (by omega)), by omega, by omega, by omega⟩

/-! ### Printing -/

/-- How many cells of the grid are before the one that is printed to next. -/
def startIndex (c : Console) : Int :=
  if c.cursorHasNext then c.cursorRow * c.fontCols + c.cursorCol else (c.fontRows - 1) * c.fontCols

def cells (c : Console) : Int := c.fontRows * c.fontCols

/-- A cell of the grid is one of its cells by number. -/
theorem index_lt (g : Grid c) (col_lt : c.cursorCol < c.fontCols)
    (row_lt : c.cursorRow < c.fontRows) : c.cursorRow * c.fontCols + c.cursorCol < c.cells := by
  obtain ⟨cols, -⟩ := g.fontCols_bounds
  have : (c.cursorRow + 1) * c.fontCols ≤ c.fontRows * c.fontCols :=
    Int.mul_le_mul_of_nonneg_right row_lt (by omega)
  rw [Int.add_mul, Int.one_mul] at this
  unfold cells
  omega

/-- There is a next cell, or the cursor is behind the last one. -/
theorem At.cases {n : Int} (place : At c n) (g : Grid c) : 0 ≤ c.cursorCol ∧ 0 ≤ c.cursorRow ∧
    ((n < c.cells ∧ c.cursorHasNext ∧ c.startIndex = n) ∨
      (n = c.cells ∧ ¬ c.cursorHasNext ∧ c.startIndex = c.cells - c.fontCols ∧
        c.cursorCol = c.fontCols ∧ c.cursorRow = c.fontRows - 1)) := by
  obtain ⟨cols, -⟩ := g.fontCols_bounds
  obtain ⟨rows, -⟩ := g.fontRows_bounds
  rcases place with ⟨col_ge, col_lt, row_ge, row_lt, rfl⟩ | ⟨col, row, rfl⟩
  · have next : c.cursorHasNext := ⟨col_lt, row_lt⟩
    exact ⟨col_ge, row_ge, Or.inl ⟨index_lt g col_lt row_lt, next, if_pos next⟩⟩
  · have last : ¬ c.cursorHasNext := fun next => by
      have := next.1
      omega
    refine ⟨by omega, by omega, Or.inr ⟨rfl, last, ?_, col, row⟩⟩
    rw [startIndex, if_neg last, cells, Int.sub_mul, Int.one_mul]

/-- Before a character is printed the cursor is in the grid. -/
theorem scrollIfFull_moved (g : Grid c) (col_ge : 0 ≤ c.cursorCol) (row_ge : 0 ≤ c.cursorRow)
    (few : ¬ c.cursorHasNext → c.width * c.height < 2 ^ 31) :
    ∃ col row, Moved c c.scrollIfFull col row ∧ c.scrollIfFull.cursorHasNext ∧
      At c.scrollIfFull c.startIndex := by
  obtain ⟨cols, -⟩ := g.fontCols_bounds
  obtain ⟨rows, -⟩ := g.fontRows_bounds
  unfold scrollIfFull startIndex
  by_cases next : c.cursorHasNext
  · rw [if_pos next, if_pos next]
    exact ⟨_, _, Moved.refl c, next, Or.inl ⟨col_ge, next.1, row_ge, next.2, rfl⟩⟩
  · rw [if_neg next, if_neg next]
    have moved := scroll_moved g (few next)
    refine ⟨_, _, moved, ?_,
      moved.at (Or.inl ⟨Int.le_refl 0, by omega, by omega, by omega, by omega⟩)⟩
    unfold cursorHasNext
    rw [moved.col, moved.row, moved.fontCols, moved.fontRows]
    omega

/-- A character takes one cell. -/
theorem printNext_moved (g : Grid c) (asciiBitFields : Int → Nat → Bool) (col_ge : 0 ≤ c.cursorCol)
    (row_ge : 0 ≤ c.cursorRow) (few : ¬ c.cursorHasNext → c.width * c.height < 2 ^ 31) (ch : Int) :
    ∃ col row, Moved c (c.printNext asciiBitFields ch) col row ∧
      At (c.printNext asciiBitFields ch) (c.startIndex + 1) := by
  obtain ⟨col, row, moved, next, place⟩ := scrollIfFull_moved g col_ge row_ge few
  show ∃ col row, Moved c (c.scrollIfFull.printChar _ _ _ ch).cursorNext col row ∧
    At (c.scrollIfFull.printChar _ _ _ ch).cursorNext (c.startIndex + 1)
  generalize c.scrollIfFull = d at moved next place ⊢
  have g := moved.grid g
  obtain ⟨col_ge, row_ge, here | ⟨-, none, -⟩⟩ := place.cases g
  · have printed := printChar_moved g asciiBitFields col_ge row_ge (g.cell next.1 next.2) ch
    generalize d.printChar asciiBitFields d.cursorCol d.cursorRow ch = e at printed ⊢
    have col_eq := printed.col
    have row_eq := printed.row
    have cols_eq := printed.fontCols
    have rows_eq := printed.fontRows
    obtain ⟨col', row', moved', place'⟩ := cursorNext_moved (printed.grid g) (by omega)
      (by have := next.1; omega) (by omega) (by have := next.2; omega)
    have index : d.cursorRow * d.fontCols + d.cursorCol = c.startIndex := by
      rw [← here.2.2, startIndex, if_pos next]
    rw [row_eq, cols_eq, col_eq, index] at place'
    exact ⟨col', row', moved.trans (printed.trans moved'), place'⟩
  · exact absurd next none

end Cursor

end Console

/-! ### Safe calls -/

open Console

/-- The call draws no bar and no cell off the screen: it erases a cell and a bar that are on
it, counts a row that is one, scrolls a screen whose pixels can be counted, and steps on
from behind the last cell only where there is place for the bar. -/
def Call.Safe (c : Console) : Call → Prop
  | .printNextChar ch =>
      if ch = 8 then
        BarFits c c.cursorCol c.cursorRow ∧
          (0 < c.cursorCol → CellFits c (c.cursorCol - 1) c.cursorRow) ∧
          (c.cursorCol = 0 → 0 < c.cursorRow → CellFits c (c.fontCols - 1) (c.cursorRow - 1))
      else if ch = 10 then BarFits c c.cursorCol c.cursorRow ∧ c.cursorRow + 1 < 2 ^ 31
      else
        (¬ c.cursorHasNext → c.width * c.height < 2 ^ 31) ∧
          (ch = 9 →
            (c.startIndex + 1 = c.cells → c.width * c.height < 2 ^ 31) ∧
            (c.startIndex + 2 = c.cells ∨ (c.fontCols = 1 ∧ c.startIndex + 1 = c.cells) →
              EndFits c))
  | .moveCursor _ _ | .setFontSize _ => True

/-- The states of the runs whose calls are safe. -/
inductive Run (asciiBitFields : Int → Nat → Bool) (width height : Int) : Console → Prop
  | initial : Run asciiBitFields width height (initial width height)
  | call {c : Console} (before : Run asciiBitFields width height c) (call : Call)
      (safe : call.Safe c) : Run asciiBitFields width height (call.perform asciiBitFields c)

structure Inv (c : Console) : Prop where
  grid : Grid c
  col_ge : 0 ≤ c.cursorCol
  row_ge : 0 ≤ c.cursorRow
  row_lt : c.cursorRow < 2 ^ 31
  onScreen : c.OnScreen

section Runs

variable {asciiBitFields : Int → Nat → Bool} {c : Console}

/-- The invariant follows the cursor, -/
theorem Inv.moved (inv : Inv c) {c' : Console} {col row : Int} (m : Moved c c' col row)
    (col_ge : 0 ≤ col) (row_ge : 0 ≤ row) (row_lt : row < 2 ^ 31) : Inv c' where
  grid := m.grid inv.grid
  col_ge := by rw [m.col]; exact col_ge
  row_ge := by rw [m.row]; exact row_ge
  row_lt := by rw [m.row]; exact row_lt
  onScreen := m.onScreen inv.onScreen

/-- In the grid and behind its last cell a console is as it should be. -/
theorem Inv.at (inv : Inv c) {c' : Console} {col row n : Int} (m : Moved c c' col row)
    (place : At c' n) : Inv c' := by
  have g := m.grid inv.grid
  obtain ⟨rows, rows', -⟩ := g.fontRows_bounds
  obtain ⟨col_ge, row_ge, -⟩ := place.cases g
  have row_lt : c'.cursorRow < 2 ^ 31 := by
    rcases place with ⟨-, -, -, row_lt, -⟩ | ⟨-, row, -⟩
    · omega
    · omega
  exact ⟨g, col_ge, row_ge, row_lt, m.onScreen inv.onScreen⟩

/-- is kept by a character that is printed, -/
theorem Inv.printNext (inv : Inv c) (few : ¬ c.cursorHasNext → c.width * c.height < 2 ^ 31)
    (ch : Int) : Inv (c.printNext asciiBitFields ch) := by
  obtain ⟨col, row, moved, place⟩ :=
    printNext_moved inv.grid asciiBitFields inv.col_ge inv.row_ge few ch
  exact inv.at moved place

/-- by a newline -/
theorem Inv.newline (inv : Inv c) (bar : BarFits c c.cursorCol c.cursorRow)
    (row_lt : c.cursorRow + 1 < 2 ^ 31) :
    Inv
      { c.printCursorOfColor with cursorRow := int32 (c.printCursorOfColor.cursorRow + 1), cursorCol := 0 } := by
  have erased := printCursorOfColor_moved inv.grid inv.row_ge bar
  have row_ge := inv.row_ge
  have next : int32 (c.printCursorOfColor.cursorRow + 1) = c.cursorRow + 1 := by
    rw [erased.row]
    exact int32_of_bounds (by omega) (by omega)
  rw [next]
  exact inv.moved (erased.trans (Moved.set c.printCursorOfColor 0 (c.cursorRow + 1)))
    (Int.le_refl 0) (by omega) row_lt

/-- A tab is two spaces, and a step further. -/
theorem Inv.tab (inv : Inv c) (few : ¬ c.cursorHasNext → c.width * c.height < 2 ^ 31)
    (few' : c.startIndex + 1 = c.cells → c.width * c.height < 2 ^ 31)
    (fits : c.startIndex + 2 = c.cells ∨ (c.fontCols = 1 ∧ c.startIndex + 1 = c.cells) →
      EndFits c) :
    Inv ((c.scrollIfFull.printNext asciiBitFields 32).printNext asciiBitFields 32).cursorNext := by
  obtain ⟨_, _, moved₀, next₀, place₀⟩ := scrollIfFull_moved inv.grid inv.col_ge inv.row_ge few
  have inv₀ := inv.at moved₀ place₀
  have start₀ : c.scrollIfFull.startIndex = c.startIndex := by
    obtain ⟨-, -, ⟨-, -, eq⟩ | ⟨-, none, -⟩⟩ := place₀.cases inv₀.grid
    · exact eq
    · exact absurd next₀ none
  generalize c.scrollIfFull = s at moved₀ next₀ place₀ inv₀ start₀ ⊢
  obtain ⟨_, _, moved₁, place₁⟩ := printNext_moved inv₀.grid asciiBitFields inv₀.col_ge inv₀.row_ge
    (fun none => absurd next₀ none) 32
  have inv₁ := inv₀.at moved₁ place₁
  generalize s.printNext asciiBitFields 32 = t at moved₁ place₁ inv₁ ⊢
  have moved₁ := moved₀.trans moved₁
  have cells₁ : t.cells = c.cells := by rw [cells, cells, moved₁.fontCols, moved₁.fontRows]
  have index₁ := place₁.cases inv₁.grid
  rw [start₀, cells₁] at index₁
  -- The second space scrolls if the first one took the last cell.
  have few₁ : ¬ t.cursorHasNext → t.width * t.height < 2 ^ 31 := fun none => by
    rw [moved₁.width, moved₁.height]
    obtain ⟨-, -, ⟨-, next, -⟩ | ⟨last, -⟩⟩ := index₁
    · exact absurd next none
    · exact few' last
  obtain ⟨_, _, moved₂, place₂⟩ :=
    printNext_moved inv₁.grid asciiBitFields inv₁.col_ge inv₁.row_ge few₁ 32
  have inv₂ := inv₁.at moved₂ place₂
  generalize t.printNext asciiBitFields 32 = u at moved₂ place₂ inv₂ ⊢
  have moved₂ := moved₁.trans moved₂
  have cells₂ : u.cells = c.cells := by rw [cells, cells, moved₂.fontCols, moved₂.fontRows]
  have cols₁ := moved₁.fontCols
  obtain ⟨-, -, ⟨-, next, -⟩ | ⟨last, none, -, col, row⟩⟩ := place₂.cases inv₂.grid
  · obtain ⟨_, _, moved₃, place₃⟩ :=
      cursorNext_moved inv₂.grid inv₂.col_ge next.1 inv₂.row_ge next.2
    exact inv₂.at moved₃ place₃
  · have fits₂ : EndFits u := by
      unfold EndFits
      rw [moved₂.fontCols, moved₂.cellWidth, moved₂.fontSize, moved₂.width]
      refine fits ?_
      obtain ⟨-, -, ⟨-, -, start⟩ | ⟨first, -, start, -⟩⟩ := index₁
      · left
        omega
      · right
        constructor
        · omega
        · exact first
    obtain ⟨rows, rows', -⟩ := inv₂.grid.fontRows_bounds
    obtain ⟨cols, -⟩ := inv₂.grid.fontCols_bounds
    exact inv₂.moved (cursorNext_end inv₂.grid col row fits₂) (by omega) (by omega) (by omega)

/-- and by every safe call. -/
theorem Inv.perform (inv : Inv c) {call : Call} (safe : call.Safe c) :
    Inv (call.perform asciiBitFields c) := by
  cases call with
  | printNextChar ch =>
      show Inv (c.printNextChar asciiBitFields ch)
      unfold Call.Safe at safe
      unfold Console.printNextChar
      dsimp only at safe ⊢
      by_cases backspace : ch = 8
      · rw [if_pos backspace] at safe ⊢
        obtain ⟨bar, back, up⟩ := safe
        obtain ⟨col, row, moved, col_ge, row_ge, row_le⟩ :=
          eraseChar_moved inv.grid inv.col_ge inv.row_ge inv.row_lt bar back up
        exact inv.moved moved col_ge row_ge (Int.lt_of_le_of_lt row_le inv.row_lt)
      · rw [if_neg backspace] at safe ⊢
        by_cases newline : ch = 10
        · rw [if_pos newline] at safe ⊢
          exact inv.newline safe.1 safe.2
        · rw [if_neg newline] at safe ⊢
          by_cases tab : ch = 9
          · rw [if_pos tab]
            exact inv.tab safe.1 (safe.2 tab).1 (safe.2 tab).2
          · rw [if_neg tab]
            exact inv.printNext safe.1 ch
  | moveCursor col row =>
      show Inv (c.moveCursor col row)
      unfold Console.moveCursor
      split_ifs with outside
      · exact inv
      · obtain ⟨-, rows, -⟩ := inv.grid.fontRows_bounds
        exact inv.moved (Moved.set c col row) (by omega) (by omega) (by omega)
  | setFontSize fs =>
      have grid := inv.grid.setFontSize fs
      show Inv (c.setFontSize fs)
      unfold Console.setFontSize at grid ⊢
      split_ifs at grid ⊢
      · exact ⟨grid, inv.col_ge, inv.row_ge, inv.row_lt, inv.onScreen⟩
      · exact inv

end Runs

/-- Every run whose calls are safe writes on the screen only. -/
theorem pixels_on_screen {asciiBitFields : Int → Nat → Bool} {width height : Int}
    (screen : Screen width height)
    {c : Console} (run : Run asciiBitFields width height c) : c.OnScreen := by
  have inv : Inv c := by
    induction run with
    | initial =>
        have grid : Grid (SoTp.Video.initial width height) :=
          ⟨screen, ⟨Int.le_refl 1, (by decide : (1 : Int) ≤ 4)⟩, rfl, rfl⟩
        exact ⟨grid, Int.le_refl 0, Int.le_refl 0, (by decide : (0 : Int) < 2 ^ 31),
          fun p mem => by cases mem⟩
    | call before call safe inv => exact inv.perform safe
  exact inv.onScreen

instance (c : Console) (call : Call) : Decidable (call.Safe c) := by
  cases call <;> unfold Call.Safe BarFits CellFits EndFits <;> infer_instance

/-- A call that is safe. -/
def Call.guarded (asciiBitFields : Int → Nat → Bool) (c : Console) (call : Call) : Option Console :=
  if call.Safe c then some (call.perform asciiBitFields c) else none

theorem Run.guarded {asciiBitFields : Int → Nat → Bool} {width height : Int} {calls : List Call}
    {c c' : Console} (before : Run asciiBitFields width height c)
    (ran : calls.foldlM (Call.guarded asciiBitFields) c = some c') :
      Run asciiBitFields width height c' := by
  induction calls generalizing c with
  | nil =>
      cases ran
      exact before
  | cons call calls ih =>
      rw [List.foldlM_cons] at ran
      obtain ⟨next, first, ran⟩ := Option.bind_eq_some_iff.mp ran
      unfold Call.guarded at first
      split_ifs at first with safe
      cases first
      exact ih (before.call call safe) ran

/-- From the last row but one: a letter, a backspace, and two newlines, the second of which
leaves the screen; the letter behind it scrolls. -/
def scrolls : List Call :=
  [.moveCursor 0 27, .printNextChar 65, .printNextChar 8, .printNextChar 10, .printNextChar 10,
    .printNextChar 66]

theorem pixels_on_screen_scrolled : ∃ c : Console,
    scrolls.foldlM (Call.guarded fun _ _ => true) (initial 1024 768) = some c ∧
      c.cursorCol = 1 ∧ c.cursorRow = 28 ∧ c.OnScreen := by
  have ran : (scrolls.foldlM (Call.guarded fun _ _ => true) (initial 1024 768)).map
      (fun c => (c.cursorCol, c.cursorRow)) = some (1, 28) := by decide +kernel
  obtain ⟨c, run, cursor⟩ := Option.map_eq_some_iff.mp ran
  obtain ⟨col, row⟩ := Prod.mk.inj cursor
  exact ⟨c, run, col, row, pixels_on_screen ⟨by decide, by decide, by decide, by decide⟩
    (Run.initial.guarded run)⟩

/-- Two newlines in the last row and a backspace: the bar and the cell are drawn in a row
that the screen does not hold. -/
theorem backspace_below_screen :
    ¬ ([Call.moveCursor 0 28, .printNextChar 10, .printNextChar 10, .printNextChar 8].foldl
      (fun c call => call.perform (fun _ _ => true) c) (initial 1024 768)).OnScreen := by
  intro on
  have below := on (1006, 770) (by decide +kernel)
  exact absurd below.2.2 (by decide +kernel)

end SoTp.Video
