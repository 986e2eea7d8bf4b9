/-
The driver's calls on a display and on its text. Every pixel of the screen is what the text has
there, whatever was printed, moved, scrolled and erased before.

* `Shows.next`, `Shows.back`, `Shows.put`, `Shows.tab` — what a character does.
* `Shows.run` — any calls.
* `screen_shows_text` — after any calls the screen is the picture of the text.
* `backspace_restores` — a character that is erased leaves no pixel behind.
-/

import SoTp.Video.Text

namespace SoTp.Video

open SoTp.Lib

section Shows

open Console Display

variable {κ : Type} {asciiBitFields : Int → Nat → Bool} {d : Display κ} {t : Text κ} {col row : Int}

/-- The next cell, from a cell of the grid or from behind the last one. -/
theorem Shows.next (s : Shows asciiBitFields d t) (row_ge : 0 ≤ d.cursorRow)
    (place : d.cursorHasNext ∨ (d.cursorCol = d.fontCols ∧ d.cursorRow = d.fontRows - 1 ∧
      EndFits d.toConsole)) :
    Shows asciiBitFields d.cursorNext t.next := by
  obtain ⟨cols, -⟩ := s.grid.fontCols_bounds
  obtain ⟨rows, rows', -⟩ := s.grid.fontRows_bounds
  have fits : BarFits d.toConsole d.cursorCol d.cursorRow := by
    rcases place with inside | ⟨col, row, fits⟩
    · exact s.grid.bar inside.1 inside.2
    · have cell : CellFits d.toConsole 0 (d.fontRows - 1) := s.grid.cell (by omega) (by omega)
      obtain ⟨-, y⟩ := cell
      have := s.grid.fontSize.1
      rw [col, row]
      unfold ASCII_BF_HEIGHT at y
      refine Or.inr ⟨fits, ?_⟩
      unfold ASCII_BF_HEIGHT
      omega
  have hidden := s.hideBar row_ge fits
  have row_lt : d.cursorRow < d.fontRows := by
    rcases place with inside | ⟨-, row, -⟩
    · exact inside.2
    · omega
  unfold Display.cursorNext Text.next
  have col_eq := s.col
  have row_eq := s.row
  have cols_eq := s.cols
  have rows_eq := s.rows
  have a_col : (t.setBar none).cursorCol = t.cursorCol := rfl
  have a_row : (t.setBar none).cursorRow = t.cursorRow := rfl
  have a_cols : (t.setBar none).cols = t.cols := rfl
  have a_rows : (t.setBar none).rows = t.rows := rfl
  generalize t.setBar none = a at hidden a_col a_row a_cols a_rows ⊢
  generalize d.eraseCursor = e at hidden ⊢
  dsimp only
  have next : int32 (a.cursorRow + 1) = a.cursorRow + 1 := int32_of_bounds (by omega) (by omega)
  rw [← hidden.col, ← hidden.row, ← hidden.cols, ← hidden.rows, next]
  split_ifs with last bottom
  · exact hidden.setCursor _ _
  · have down : 0 ≤ a.cursorRow + 1 := by omega
    exact (hidden.setCursor 0 (a.cursorRow + 1)).showBar down (Or.inl (Int.le_refl 0))
  · have e_cols := hidden.cols
    have e_rows := hidden.rows
    have shown := hidden.setCursor (a.cursorCol + 1) a.cursorRow
    have bar : BarFits (e.setCursor (a.cursorCol + 1) a.cursorRow).toConsole
        (a.cursorCol + 1) a.cursorRow :=
      shown.grid.bar (by show _ < e.fontCols; omega) (by show _ < e.fontRows; omega)
    have row_ge : 0 ≤ a.cursorRow := by omega
    exact shown.showBar row_ge bar

/-- A cell is emptied, with the cursor in front of it. -/
theorem Shows.empty (s : Shows asciiBitFields d t) (col_ge : 0 ≤ col) (row_ge : 0 ≤ row)
    (fits : CellFits d.toConsole col row) :
    let e := (d.setCursor col row).printCursor
    Shows asciiBitFields
      (e.fillPlaces (e.colToX e.cursorCol) (e.rowToY e.cursorRow) glyphPlaces e.bgColor)
      (((t.setCursor col row).setBar (some t.cursorColor)).setCell []) := by
  have moved := s.setCursor col row
  have fits' : CellFits (d.setCursor col row).toConsole col row := fits
  have shown := moved.showBar row_ge (fits'.bar moved.grid)
  have console : Moved d.toConsole (d.setCursor col row).printCursor.toConsole col row := by
    rw [printCursor_console]
    exact (Moved.set d.toConsole col row).trans
      (printCursorOfColor_moved moved.grid row_ge (fits'.bar moved.grid))
  have fits'' := console.cell fits
  have at_col := console.col
  have at_row := console.row
  refine shown.wipe ?_ ?_ ?_
  · rw [at_col]
    exact col_ge
  · rw [at_row]
    exact row_ge
  · rw [at_col, at_row]
    exact fits''

/-- One cell back. -/
theorem Shows.back (s : Shows asciiBitFields d t) (col_ge : 0 ≤ d.cursorCol)
    (row_ge : 0 ≤ d.cursorRow)
    (row_lt : d.cursorRow < 2 ^ 31) (bar : BarFits d.toConsole d.cursorCol d.cursorRow)
    (before : 0 < d.cursorCol → CellFits d.toConsole (d.cursorCol - 1) d.cursorRow)
    (above : d.cursorCol = 0 → 0 < d.cursorRow →
      CellFits d.toConsole (d.fontCols - 1) (d.cursorRow - 1)) :
    Shows asciiBitFields d.eraseChar t.back := by
  obtain ⟨cols, -⟩ := s.grid.fontCols_bounds
  have hidden := s.hideBar row_ge bar
  have erased : Moved d.toConsole d.eraseCursor.toConsole d.cursorCol d.cursorRow := by
    rw [eraseCursor_console]
    exact printCursorOfColor_moved s.grid row_ge bar
  have col_eq := erased.col
  have row_eq := erased.row
  have cols_eq := erased.fontCols
  have prev : int32 (d.eraseCursor.cursorRow - 1) = d.eraseCursor.cursorRow - 1 :=
    int32_of_bounds (by omega) (by omega)
  unfold Display.eraseChar Display.cursorPrev Text.back
  generalize d.eraseCursor = e at hidden erased col_eq row_eq cols_eq prev ⊢
  dsimp only
  rw [prev, hidden.col, hidden.row, hidden.cols]
  by_cases first : e.cursorCol - 1 < 0
  · rw [if_pos first, if_pos first]
    by_cases top : e.cursorRow - 1 < 0
    · rw [if_pos top, if_pos top]
      exact hidden.setCursor 0 0
    · rw [if_neg top, if_neg top]
      have fits : CellFits e.toConsole (e.fontCols - 1) (e.cursorRow - 1) := by
        rw [cols_eq, row_eq]
        exact erased.cell (above (by omega) (by omega))
      exact hidden.empty (by omega) (by omega) fits
  · rw [if_neg first, if_neg first]
    have fits : CellFits e.toConsole (e.cursorCol - 1) e.cursorRow := by
      rw [col_eq, row_eq]
      exact erased.cell (before (by omega))
    exact hidden.empty (by omega) (by omega) fits

/-- A newline takes the bar away and goes to the next row. -/
theorem Shows.newline (s : Shows asciiBitFields d t) (row_ge : 0 ≤ d.cursorRow)
    (row_lt : d.cursorRow + 1 < 2 ^ 31)
    (bar : BarFits d.toConsole d.cursorCol d.cursorRow) :
      Shows asciiBitFields d.newline t.newline := by
  have hidden := s.hideBar row_ge bar
  have row_eq : d.eraseCursor.cursorRow = d.cursorRow := by
    rw [← hidden.row, ← s.row]
    rfl
  have next : int32 (d.eraseCursor.cursorRow + 1) = t.cursorRow + 1 := by
    rw [row_eq, s.row]
    exact int32_of_bounds (by omega) (by omega)
  show Shows asciiBitFields (d.eraseCursor.setCursor 0 (int32 (d.eraseCursor.cursorRow + 1))) _
  rw [next]
  exact hidden.setCursor 0 (t.cursorRow + 1)

/-- A character goes to a cell of the grid. -/
theorem Shows.put (s : Shows asciiBitFields d t) (col_ge : 0 ≤ d.cursorCol)
    (row_ge : 0 ≤ d.cursorRow) (few : ¬ d.cursorHasNext → d.width * d.height < 2 ^ 31) (ch : Int) :
    Shows asciiBitFields (d.printNext asciiBitFields ch) (t.put ch) := by
  obtain ⟨_, _, moved, next, place⟩ := scrollIfFull_moved s.grid col_ge row_ge few
  rw [← scrollIfFull_console] at moved next place
  have scrolled := s.scrollIfFull few
  obtain ⟨col_ge, row_ge, -⟩ := place.cases scrolled.grid
  unfold Display.printNext Text.put
  dsimp only
  generalize d.scrollIfFull = e at scrolled next col_ge row_ge ⊢
  generalize t.scrollIfFull = a at scrolled ⊢
  have written := scrolled.write col_ge row_ge next ch
  have console :
      Moved e.toConsole
        (e.printChar asciiBitFields e.cursorCol e.cursorRow ch).toConsole e.cursorCol
      e.cursorRow := by
    rw [printChar_console]
    exact printChar_moved scrolled.grid asciiBitFields col_ge row_ge
      (scrolled.grid.cell next.1 next.2) ch
  refine written.next ?_ (Or.inl ?_)
  · rw [console.row]
    exact row_ge
  · unfold cursorHasNext
    rw [console.col, console.row, console.fontCols, console.fontRows]
    exact next

/-- A tab is two spaces, and a step further. -/
theorem Shows.tab (s : Shows asciiBitFields d t) (inv : Inv d.toConsole)
    (few : ¬ d.cursorHasNext → d.width * d.height < 2 ^ 31)
    (few' : d.startIndex + 1 = d.cells → d.width * d.height < 2 ^ 31)
    (fits : d.startIndex + 2 = d.cells ∨ (d.fontCols = 1 ∧ d.startIndex + 1 = d.cells) →
      EndFits d.toConsole) :
    Shows asciiBitFields
      ((d.scrollIfFull.printNext asciiBitFields 32).printNext asciiBitFields 32).cursorNext
      ((t.scrollIfFull.put 32).put 32).next := by
  obtain ⟨_, _, moved₀, next₀, place₀⟩ := scrollIfFull_moved inv.grid inv.col_ge inv.row_ge few
  rw [← scrollIfFull_console] at moved₀ next₀ place₀
  have s₀ := s.scrollIfFull few
  have start₀ : d.scrollIfFull.startIndex = d.startIndex := by
    obtain ⟨-, -, ⟨-, -, eq⟩ | ⟨-, none, -⟩⟩ := place₀.cases s₀.grid
    · exact eq
    · exact absurd next₀ none
  obtain ⟨col_ge₀, row_ge₀, -⟩ := place₀.cases s₀.grid
  generalize d.scrollIfFull = d₀ at moved₀ next₀ s₀ start₀ col_ge₀ row_ge₀ ⊢
  have few₀ : ¬ d₀.cursorHasNext → d₀.width * d₀.height < 2 ^ 31 := fun none => absurd next₀ none
  obtain ⟨_, _, moved₁, place₁⟩ := printNext_moved s₀.grid asciiBitFields col_ge₀ row_ge₀ few₀ 32
  rw [← printNext_console] at moved₁ place₁
  have s₁ := s₀.put col_ge₀ row_ge₀ few₀ 32
  generalize d₀.printNext asciiBitFields 32 = d₁ at moved₁ place₁ s₁ ⊢
  have moved₁ := moved₀.trans moved₁
  have cells₁ : d₁.cells = d.cells := by
    rw [Console.cells, Console.cells, moved₁.fontCols, moved₁.fontRows]
  have cols₁ := moved₁.fontCols
  obtain ⟨col_ge₁, row_ge₁, index₁⟩ := place₁.cases s₁.grid
  rw [start₀, cells₁] at index₁
  -- The second space scrolls if the first one took the last cell.
  have few₁ : ¬ d₁.cursorHasNext → d₁.width * d₁.height < 2 ^ 31 := fun none => by
    rw [moved₁.width, moved₁.height]
    obtain ⟨-, next, -⟩ | ⟨last, -⟩ := index₁
    · exact absurd next none
    · exact few' last
  obtain ⟨_, _, moved₂, place₂⟩ := printNext_moved s₁.grid asciiBitFields col_ge₁ row_ge₁ few₁ 32
  rw [← printNext_console] at moved₂ place₂
  have s₂ := s₁.put col_ge₁ row_ge₁ few₁ 32
  generalize d₁.printNext asciiBitFields 32 = d₂ at moved₂ place₂ s₂ ⊢
  have moved₂ := moved₁.trans moved₂
  have cells₂ : d₂.cells = d.cells := by
    rw [Console.cells, Console.cells, moved₂.fontCols, moved₂.fontRows]
  obtain ⟨-, row_ge₂, ⟨-, next, -⟩ | ⟨last, -, -, col, row⟩⟩ := place₂.cases s₂.grid
  · exact s₂.next row_ge₂ (Or.inl next)
  · have fits₂ : EndFits d₂.toConsole := by
      unfold EndFits
      rw [moved₂.fontCols, moved₂.cellWidth, moved₂.fontSize, moved₂.width]
      refine fits ?_
      obtain ⟨-, -, start⟩ | ⟨first, -, start, -⟩ := index₁
      · left
        omega
      · right
        constructor
        · omega
        · exact first
    exact s₂.next row_ge₂ (Or.inr ⟨col, row, fits₂⟩)

/-- A cleared screen shows the blank text, -/
theorem shows_clearScreen (grid : Grid d.toConsole) (small : d.fontSize ≤ 2) :
    Shows asciiBitFields d.clearScreen (Text.blank d) := by
  obtain ⟨cols, -⟩ := grid.fontCols_bounds
  obtain ⟨rows, -⟩ := grid.fontRows_bounds
  have width := grid.width_bounds
  have height := grid.height_bounds
  have start : d.clearScreen = (d.fillRectangle 0 0 d.width d.height d.bgColor).setCursor 0 0 := by
    have inside : ¬ ((0 : Int) < 0 ∨ (0 : Int) < 0 ∨ 0 ≥ d.fontCols ∨ 0 ≥ d.fontRows) := by omega
    exact (moveCursor_eq 0 0 _).trans (if_neg inside)
  rw [start]
  refine ⟨⟨grid.screen, grid.fontSize, grid.fontCols, grid.fontRows⟩, small, rfl, rfl, rfl, rfl,
    rfl, rfl, rfl, rfl, rfl,
    rfl, fun _ _ => rfl, fun _ _ _ => rfl, fun p left right top bottom => ?_⟩
  have right : p.1 < d.width := right
  have bottom : p.2 < d.height := bottom
  have empty : Text.picture asciiBitFields (Text.blank d) p = d.bgColor := by
    unfold Text.picture Text.drawing
    dsimp only
    split_ifs
    · rfl
    · rfl
    · rfl
  rw [empty]
  refine (fillRectangle_screen (by omega) (by omega) (by omega) (by omega)).trans (if_pos ?_)
  omega

/-- whatever it showed before. -/
theorem Shows.blank_eq (s : Shows asciiBitFields d t) : t.clearScreen = Text.blank d := by
  unfold Text.clearScreen Text.blank
  rw [s.width, s.height, s.fontSize, s.cols, s.rows, s.bgColor, s.fontColor, s.cursorColor]

/-- A character is printed into the text as it is drawn, -/
theorem Shows.printNextChar (s : Shows asciiBitFields d t) (inv : Inv d.toConsole) {ch : Int}
    (safe : (Call.printNextChar ch).Safe d.toConsole) :
    Shows asciiBitFields (d.printNextChar asciiBitFields ch) (t.printNextChar ch) := by
  unfold Call.Safe at safe
  unfold Display.printNextChar Text.printNextChar
  dsimp only at safe ⊢
  by_cases backspace : ch = 8
  · rw [if_pos backspace] at safe ⊢
    rw [if_pos backspace]
    obtain ⟨bar, before, above⟩ := safe
    exact s.back inv.col_ge inv.row_ge inv.row_lt bar before above
  · rw [if_neg backspace] at safe ⊢
    rw [if_neg backspace]
    by_cases newline : ch = 10
    · rw [if_pos newline] at safe ⊢
      rw [if_pos newline]
      exact s.newline inv.row_ge safe.2 safe.1
    · rw [if_neg newline] at safe ⊢
      rw [if_neg newline]
      by_cases tab : ch = 9
      · rw [if_pos tab, if_pos tab]
        exact s.tab inv safe.1 (safe.2 tab).1 (safe.2 tab).2
      · rw [if_neg tab, if_neg tab]
        exact s.put inv.col_ge inv.row_ge safe.1 ch

/-- the cursor moves in both, -/
theorem Shows.moveCursor (s : Shows asciiBitFields d t) (col row : Int) :
    Shows asciiBitFields (d.moveCursor col row) (t.moveCursor col row) := by
  have cols := s.cols
  have rows := s.rows
  rw [moveCursor_eq]
  unfold Text.moveCursor
  by_cases outside : col < 0 ∨ row < 0 ∨ col ≥ d.fontCols ∨ row ≥ d.fontRows
  · rw [if_pos outside, if_pos (by omega)]
    exact s
  · rw [if_neg outside, if_neg (by omega)]
    exact s.setCursor col row

/-- and so does a colour change, that of the background apart. -/
theorem Shows.setColor (s : Shows asciiBitFields d t) {c : ColorType} (other : c ≠ .background)
    (color : κ) : Shows asciiBitFields (d.setColor c color) (t.setColor c color) := by
  cases c with
  | background => exact absurd rfl other
  | font =>
      exact ⟨⟨s.grid.screen, s.grid.fontSize, s.grid.fontCols, s.grid.fontRows⟩, s.small, s.width,
        s.height, s.fontSize,
        s.cols, s.rows, s.col, s.row, s.bgColor, rfl, s.cursorColor, s.cells, s.bars, s.picture⟩
  | cursor =>
      exact ⟨⟨s.grid.screen, s.grid.fontSize, s.grid.fontCols, s.grid.fontRows⟩, s.small, s.width,
        s.height, s.fontSize,
        s.cols, s.rows, s.col, s.row, s.bgColor, s.fontColor, rfl, s.cells, s.bars, s.picture⟩

end Shows

/-! ### Erasing -/

namespace Text

section Erasing

variable {κ : Type} (asciiBitFields : Int → Nat → Bool) {t t' : Text κ} {p : Int × Int}

/-- A bar in front of the first column is not seen. -/
theorem picture_congr (fontSize : t'.fontSize = t.fontSize) (bgColor : t'.bgColor = t.bgColor)
    (cells : t'.cell = t.cell) (bars : ∀ place, 0 < place.1 → t'.bar place = t.bar place)
    (wide : 0 ≤ t.cellWidth)
    (left : 0 ≤ p.1) : t'.picture asciiBitFields p = t.picture asciiBitFields p := by
  have width : t'.cellWidth = t.cellWidth := by
    unfold cellWidth
    rw [fontSize]
  have height : t'.cellHeight = t.cellHeight := by
    unfold cellHeight
    rw [fontSize]
  have behind : 0 < p.1 / t.cellWidth + 1 := by
    have := Int.ediv_nonneg left wide
    omega
  unfold picture drawing
  dsimp only
  rw [width, height, fontSize, bgColor, cells, bars _ behind]

/-- The cell behind the cursor. -/
def following (t : Text κ) : Int × Int :=
  if t.cursorCol + 1 ≥ t.cols then (0, t.cursorRow + 1) else (t.cursorCol + 1, t.cursorRow)

/-- A character inside of the grid, with the bar behind it. -/
theorem put_inside (inside : t.Inside) (room : t.cursorCol + 1 < t.cols ∨ t.cursorRow + 1 < t.rows)
    (ch : Int) :
    t.put ch =
      (((t.setCell ((ch, t.fontColor) :: t.cell t.cursor)).setBar none).setCursor t.following.1
      t.following.2).setBar (some t.cursorColor) := by
  have here : t.scrollIfFull = t := if_pos inside
  unfold put following
  rw [here]
  by_cases last : t.cursorCol + 1 ≥ t.cols
  · rw [if_pos last]
    have above : ¬ t.cursorRow + 1 ≥ t.rows := by omega
    exact (if_pos last).trans (if_neg above)
  · rw [if_neg last]
    exact if_neg last

/-- A backspace from the cell behind it, -/
theorem back_following {u : Text κ} (inside : t.Inside) (col_ge : 0 ≤ t.cursorCol)
    (row_ge : 0 ≤ t.cursorRow)
    (col : u.cursorCol = t.following.1) (row : u.cursorRow = t.following.2)
    (cols : u.cols = t.cols) :
    u.back =
      (((u.setBar none).setCursor t.cursorCol t.cursorRow).setBar (some u.cursorColor)).setCell
        [] := by
  obtain ⟨col_lt, -⟩ := inside
  unfold following at col row
  unfold back
  by_cases last : t.cursorCol + 1 ≥ t.cols
  · rw [if_pos last] at col row
    have first : (u.setBar none).cursorCol - 1 < 0 := by
      show u.cursorCol - 1 < 0
      omega
    have below : ¬ (u.setBar none).cursorRow - 1 < 0 := by
      show ¬ u.cursorRow - 1 < 0
      omega
    have at_col : (u.setBar none).cols - 1 = t.cursorCol := by
      show u.cols - 1 = t.cursorCol
      omega
    have at_row : (u.setBar none).cursorRow - 1 = t.cursorRow := by
      show u.cursorRow - 1 = t.cursorRow
      omega
    dsimp only
    rw [if_pos first, if_neg below, at_col, at_row]
    rfl
  · rw [if_neg last] at col row
    have behind : ¬ (u.setBar none).cursorCol - 1 < 0 := by
      show ¬ u.cursorCol - 1 < 0
      omega
    have at_col : (u.setBar none).cursorCol - 1 = t.cursorCol := by
      show u.cursorCol - 1 = t.cursorCol
      omega
    have at_row : (u.setBar none).cursorRow = t.cursorRow := row
    dsimp only
    rw [if_neg behind, at_col, at_row]
    rfl

/-- so the two together empty the cell and leave the bar there. -/
theorem put_back (inside : t.Inside) (col_ge : 0 ≤ t.cursorCol) (row_ge : 0 ≤ t.cursorRow)
    (room : t.cursorCol + 1 < t.cols ∨ t.cursorRow + 1 < t.rows) (ch : Int) :
    (t.put ch).back =
      { t with
        cell :=
          Function.update (Function.update t.cell t.cursor ((ch, t.fontColor) :: t.cell t.cursor))
            t.cursor []
        bar :=
          Function.update
            (Function.update (Function.update (Function.update t.bar t.cursor none) t.following
          (some t.cursorColor)) t.following none) t.cursor (some t.cursorColor) } := by
  have moved := put_inside inside room ch
  generalize t.put ch = u at moved ⊢
  have col : u.cursorCol = t.following.1 := by
    rw [moved]
    rfl
  have row : u.cursorRow = t.following.2 := by
    rw [moved]
    rfl
  have cols : u.cols = t.cols := by
    rw [moved]
    rfl
  rw [back_following inside col_ge row_ge col row cols, moved]
  simp only [setCell, setBar, setCursor, cursor]

/-- A character and a backspace, in a row or over the end of one: the picture is what it was if the
cell was empty, and if the cursor's bar was the only one of the two. -/
theorem put_back_picture (inside : t.Inside) (col_ge : 0 ≤ t.cursorCol) (row_ge : 0 ≤ t.cursorRow)
    (room : t.cursorCol + 1 < t.cols ∨ t.cursorRow + 1 < t.rows) (wide : 0 ≤ t.cellWidth)
    (empty : t.cell t.cursor = []) (shown : 0 < t.cursorCol → t.bar t.cursor = some t.cursorColor)
    (free : t.cursorCol + 1 < t.cols → t.bar (t.cursorCol + 1, t.cursorRow) = none) (ch : Int)
    (left : 0 ≤ p.1) : (t.put ch).back.picture asciiBitFields p = t.picture asciiBitFields p := by
  rw [put_back inside col_ge row_ge room ch]
  refine picture_congr asciiBitFields rfl rfl ?_ (fun place col_pos => ?_) wide left
  · show Function.update (Function.update t.cell t.cursor _) t.cursor [] = t.cell
    rw [Function.update_idem, ← empty, Function.update_eq_self]
  · show Function.update
      (Function.update (Function.update (Function.update t.bar t.cursor none) t.following
      (some t.cursorColor)) t.following none) t.cursor (some t.cursorColor) place = t.bar place
    by_cases here : place = t.cursor
    · rw [here, Function.update_self]
      rw [here] at col_pos
      exact (shown col_pos).symm
    · rw [Function.update_of_ne here]
      by_cases next : place = t.following
      · rw [next, Function.update_self]
        rw [next] at col_pos
        unfold following at col_pos ⊢
        split_ifs at col_pos ⊢ with last
        · exact absurd col_pos (Int.lt_irrefl 0)
        · exact (free (by omega)).symm
      · rw [Function.update_of_ne next, Function.update_of_ne next, Function.update_of_ne here]

end Erasing

end Text

/-! ### Runs -/

section Runs

open Console

variable {asciiBitFields : Int → Nat → Bool}

/-- The character draws no bar and no cell off the screen, and the background keeps its color. -/
def DriverCall.Safe (d : Display RGBColor) : DriverCall → Prop
  | .printNextChar ch => (Call.printNextChar ch).Safe d.toConsole
  | .setColor c _ => c ≠ .background
  | .moveCursor _ _ | .clearScreen => True

/-- Each call is safe where it is made. -/
def Safely (asciiBitFields : Int → Nat → Bool) (d : Display RGBColor) : List DriverCall → Prop
  | [] => True
  | call :: calls => call.Safe d ∧ Safely asciiBitFields (call.perform asciiBitFields d) calls

theorem clearScreen_inv {d : Display RGBColor} (inv : Inv d.toConsole) :
    Inv d.clearScreen.toConsole := by
  obtain ⟨-, rows, -⟩ := inv.grid.fontRows_bounds
  have filled :
      Moved d.toConsole (d.fillRectangle 0 0 d.width d.height d.bgColor).toConsole d.cursorCol
        d.cursorRow :=
    fillRectangle_moved inv.grid (Int.le_refl 0) (Int.le_refl 0) (by omega) (by omega)
  have inv := inv.moved filled inv.col_ge inv.row_ge inv.row_lt
  have home : Inv ((Call.moveCursor 0 0).perform (fun _ _ => false)
      (d.fillRectangle 0 0 d.width d.height d.bgColor).toConsole) := inv.perform trivial
  exact home

theorem DriverCall.Safe.inv {d : Display RGBColor} {call : DriverCall} (safe : call.Safe d)
    (inv : Inv d.toConsole) : Inv (call.perform asciiBitFields d).toConsole := by
  cases call with
  | printNextChar ch =>
      have printed : Inv ((Call.printNextChar ch).perform asciiBitFields d.toConsole) :=
        inv.perform safe
      show Inv (d.printNextChar asciiBitFields ch).toConsole
      rw [Display.printNextChar_console]
      exact printed
  | moveCursor col row =>
      have moved : Inv ((Call.moveCursor col row).perform asciiBitFields d.toConsole) :=
        inv.perform trivial
      exact moved
  | setColor c hexColor => cases c <;> exact inv
  | clearScreen => exact clearScreen_inv inv

/-- Every safe call keeps the screen showing the text, -/
theorem Shows.perform {d : Display RGBColor} {t : Text RGBColor} (s : Shows asciiBitFields d t)
    (inv : Inv d.toConsole)
    {call : DriverCall} (safe : call.Safe d) :
    Shows asciiBitFields (call.perform asciiBitFields d) (t.perform call) := by
  cases call with
  | printNextChar ch => exact s.printNextChar inv safe
  | moveCursor col row => exact s.moveCursor col row
  | setColor c hexColor => exact s.setColor safe _
  | clearScreen =>
      show Shows asciiBitFields d.clearScreen t.clearScreen
      rw [s.blank_eq]
      exact shows_clearScreen s.grid s.small

/-- and so does every safe run. -/
theorem Shows.run {d : Display RGBColor} {t : Text RGBColor} (s : Shows asciiBitFields d t)
    (inv : Inv d.toConsole)
    {calls : List DriverCall} (safe : Safely asciiBitFields d calls) :
    Shows asciiBitFields (calls.foldl (DriverCall.perform asciiBitFields) d)
      (calls.foldl Text.perform t) ∧
      Inv (calls.foldl (DriverCall.perform asciiBitFields) d).toConsole ∧
      t.SameSize (calls.foldl Text.perform t) := by
  induction calls generalizing d t with
  | nil => exact ⟨s, inv, rfl, rfl⟩
  | cons call calls ih =>
      obtain ⟨first, rest⟩ := safe
      obtain ⟨shown, inv, size⟩ := ih (s.perform inv first) (first.inv inv) rest
      exact ⟨shown, inv, (t.perform_size call).trans size⟩

/-- A character in the grid, and a backspace if there is a cell behind it. -/
theorem Shows.erasable {d : Display RGBColor} {t : Text RGBColor} (s : Shows asciiBitFields d t)
    (inv : Inv d.toConsole)
    {ch : Int} (printed : ch ≠ 8 ∧ ch ≠ 9 ∧ ch ≠ 10) (inside : t.Inside)
    (room : t.cursorCol + 1 < t.cols ∨ t.cursorRow + 1 < t.rows) :
    Safely asciiBitFields d [.printNextChar ch, .printNextChar 8] := by
  obtain ⟨backspace, tab, newline⟩ := printed
  have here : d.cursorHasNext := s.inside_iff.mp inside
  have safe : (DriverCall.printNextChar ch).Safe d := by
    show (Call.printNextChar ch).Safe d.toConsole
    unfold Call.Safe
    dsimp only
    rw [if_neg backspace, if_neg newline]
    exact ⟨fun full => absurd here full, fun same => absurd same tab⟩
  have put : t.perform (.printNextChar ch) = t.put ch := by
    show t.printNextChar ch = t.put ch
    unfold Text.printNextChar
    rw [if_neg backspace, if_neg newline, if_neg tab]
  refine ⟨safe, ?_, trivial⟩
  have after := s.perform inv safe
  rw [put, Text.put_inside inside room ch] at after
  generalize (DriverCall.printNextChar ch).perform asciiBitFields d = e at after ⊢
  have cols : t.cols = e.fontCols := after.cols
  have rows : t.rows = e.fontRows := after.rows
  have col : t.following.1 = e.cursorCol := after.col
  have row : t.following.2 = e.cursorRow := after.row
  have col_ge : 0 ≤ t.cursorCol := by
    rw [s.col]
    exact inv.col_ge
  obtain ⟨col_lt, row_lt⟩ := inside
  have within : e.cursorCol < e.fontCols ∧ e.cursorRow < e.fontRows := by
    unfold Text.following at col row
    split_ifs at col row
    · omega
    · omega
  have grid := after.grid
  show (Call.printNextChar 8).Safe e.toConsole
  exact ⟨grid.bar within.1 within.2, fun _ => grid.cell (by omega) within.2, fun _ _ =>
    grid.cell (by omega) (by omega)⟩

/-- A screen on which nothing was drawn. -/
def dark : Display RGBColor where
  toConsole := initial 1024 768
  screen _ := setRGBColor 0
  bgColor := setRGBColor 0
  fontColor := setRGBColor 0xFFFFFF
  cursorColor := setRGBColor 0xFF0000

def oneLetter : List DriverCall := [.printNextChar 72]

def twoLines : List DriverCall :=
  [.printNextChar 72, .printNextChar 10, .setColor .font 0xFF00, .printNextChar 105]

theorem dark_inv : Inv dark.toConsole where
  grid := ⟨⟨by decide, by decide, by decide, by decide⟩, ⟨by decide, by decide⟩, rfl, rfl⟩
  col_ge := Int.le_refl 0
  row_ge := Int.le_refl 0
  row_lt := by decide
  onScreen := List.forall_mem_nil _

/-- **The screen is the picture of the text**, after any calls that follow a `clearScreen`. -/
theorem screen_shows_text {d : Display RGBColor} (inv : Inv d.toConsole) (small : d.fontSize ≤ 2)
    {calls : List DriverCall} (safe : Safely asciiBitFields d.clearScreen calls) {p : Int × Int}
    (left : 0 ≤ p.1) (right : p.1 < d.width) (top : 0 ≤ p.2) (bottom : p.2 < d.height) :
    (calls.foldl (DriverCall.perform asciiBitFields) d.clearScreen).screen p =
      (calls.foldl Text.perform (Text.blank d)).picture asciiBitFields p := by
  obtain ⟨shown, -, width, height⟩ :=
    (shows_clearScreen inv.grid small).run (clearScreen_inv inv) safe
  refine shown.picture p left ?_ top ?_
  · rw [width]
    exact right
  · rw [height]
    exact bottom

theorem screen_shows_text_two_lines :
    (twoLines.foldl (DriverCall.perform fun _ _ => true) dark.clearScreen).screen (3, 30) =
      (twoLines.foldl Text.perform (Text.blank dark)).picture (fun _ _ => true) (3, 30) := by
  refine screen_shows_text dark_inv (by decide) ?_ (by decide) (by decide) (by decide) (by decide)
  refine ⟨⟨fun full => absurd (by decide +kernel) full, fun tab => by cases tab⟩,
    ⟨Or.inr ?_, by decide +kernel⟩,
    (fun same => by cases same),
      ⟨fun full => absurd (by decide +kernel) full, fun tab => by cases tab⟩, trivial⟩
  decide +kernel

/-- **A character that is erased leaves no pixel behind**, where nothing was printed before and only
the cursor has a bar. -/
theorem backspace_restores {d : Display RGBColor} (inv : Inv d.toConsole) (small : d.fontSize ≤ 2)
    {calls : List DriverCall} (safe : Safely asciiBitFields d.clearScreen calls) {t : Text RGBColor}
    (text : calls.foldl Text.perform (Text.blank d) = t) (inside : t.Inside)
    (room : t.cursorCol + 1 < t.cols ∨ t.cursorRow + 1 < t.rows) (empty : t.cell t.cursor = [])
    (shown : 0 < t.cursorCol → t.bar t.cursor = some t.cursorColor)
    (free : t.cursorCol + 1 < t.cols → t.bar (t.cursorCol + 1, t.cursorRow) = none) {ch : Int}
    (printed : ch ≠ 8 ∧ ch ≠ 9 ∧ ch ≠ 10) {p : Int × Int} (left : 0 ≤ p.1) (right : p.1 < d.width)
    (top : 0 ≤ p.2) (bottom : p.2 < d.height) :
    ((calls ++ [DriverCall.printNextChar ch, .printNextChar 8]).foldl
      (DriverCall.perform asciiBitFields) d.clearScreen).screen p =
      (calls.foldl (DriverCall.perform asciiBitFields) d.clearScreen).screen p := by
  obtain ⟨before, inv', width, height⟩ :=
    (shows_clearScreen inv.grid small).run (clearScreen_inv inv) safe
  rw [text] at before width height
  obtain ⟨after, -, width', height'⟩ := before.run inv' (before.erasable inv' printed inside room)
  have typed : [DriverCall.printNextChar ch, .printNextChar 8].foldl Text.perform t =
      (t.put ch).back := by
    obtain ⟨backspace, tab, newline⟩ := printed
    show (t.printNextChar ch).printNextChar 8 = _
    unfold Text.printNextChar
    rw [if_neg backspace, if_neg newline, if_neg tab]
    rfl
  have right : p.1 < t.width := by
    rw [width]
    exact right
  have bottom : p.2 < t.height := by
    rw [height]
    exact bottom
  have col_ge : 0 ≤ t.cursorCol := by
    rw [before.col]
    exact inv'.col_ge
  have row_ge : 0 ≤ t.cursorRow := by
    rw [before.row]
    exact inv'.row_ge
  have wide : 0 ≤ t.cellWidth := by
    rw [before.cellWidth]
    have := before.grid.cellWidth_bounds
    omega
  rw [List.foldl_append, after.picture p left (width' ▸ right) top (height' ▸ bottom), typed,
    before.picture p left right top bottom]
  exact Text.put_back_picture asciiBitFields inside col_ge row_ge room wide empty shown free ch left

theorem backspace_restores_behind_letter :
    ((oneLetter ++ [DriverCall.printNextChar 105, .printNextChar 8]).foldl
      (DriverCall.perform fun _ _ => true) dark.clearScreen).screen (16, 4) =
      (oneLetter.foldl (DriverCall.perform fun _ _ => true) dark.clearScreen).screen (16, 4) := by
  refine backspace_restores dark_inv (by decide) ?_ rfl (by decide +kernel)
    (by decide +kernel) ?_ ?_ ?_ (by decide) (by decide) (by decide) (by decide) (by decide)
  · exact ⟨⟨fun full => absurd (by decide +kernel) full, fun tab => by cases tab⟩, trivial⟩
  · rfl
  · intro _
    rfl
  · intro _
    rfl

end Runs

end SoTp.Video
