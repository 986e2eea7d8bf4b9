/-
Long texts. What is printed to a cleared screen stands in the cells in reading order, and when there
is no cell left the rows move up, so that the last rows stay.

* `Printed.scroll`, `Printed.put` — one character, behind a full screen and otherwise.
* `Printed.run` — any characters.
* `screen_read` — the pixels of any cell after any characters.
-/

import SoTp.Video.Shown

namespace SoTp.Video

open SoTp.Lib

/-! ### Cells in reading order -/

/-- The characters that have a cell, unlike backspace, tab and newline. -/
def HasCell (ch : Int) : Prop := ch ≠ 8 ∧ ch ≠ 9 ∧ ch ≠ 10

namespace Text

variable {κ : Type} {t : Text κ} {chars : List Int} {ch k : Int}

/-- The character of a cell whose row is `k` rows further down in the text. -/
def readAt (t : Text κ) (chars : List Int) (k col row : Int) : Option Int :=
  chars[((row + k) * t.cols + col).toNat]?

/-- The characters were printed, and the first `k` rows are gone. -/
structure Printed (chars : List Int) (k : Int) (t : Text κ) : Prop where
  cols_pos : 1 ≤ t.cols
  rows_pos : 1 ≤ t.rows
  gone : 0 ≤ k
  needed : 0 < k → (k + t.rows - 1) * t.cols ≤ chars.length
  col_ge : 0 ≤ t.cursorCol
  row_ge : 0 ≤ t.cursorRow
  place : (t.Inside ∧ (t.cursorRow + k) * t.cols + t.cursorCol = chars.length) ∨
    (¬ t.Inside ∧ (t.rows + k) * t.cols = chars.length)
  below : ∀ place, t.rows ≤ place.2 → t.cell place = []
  cells : ∀ col row, 0 ≤ col → col < t.cols → 0 ≤ row → row < t.rows →
    t.cell (col, row) = ((t.readAt chars k col row).map (·, t.fontColor)).toList

/-- The grid and the colors of characters. -/
structure SameGrid (t t' : Text κ) : Prop where
  fontSize : t'.fontSize = t.fontSize
  cols : t'.cols = t.cols
  rows : t'.rows = t.rows
  bgColor : t'.bgColor = t.bgColor
  fontColor : t'.fontColor = t.fontColor

theorem SameGrid.refl (t : Text κ) : SameGrid t t := ⟨rfl, rfl, rfl, rfl, rfl⟩

theorem SameGrid.trans {t t' t'' : Text κ} (g : SameGrid t t') (g' : SameGrid t' t'') :
    SameGrid t t'' where
  fontSize := g'.fontSize.trans g.fontSize
  cols := g'.cols.trans g.cols
  rows := g'.rows.trans g.rows
  bgColor := g'.bgColor.trans g.bgColor
  fontColor := g'.fontColor.trans g.fontColor

/-- Nothing was printed on a cleared screen. -/
theorem Printed.blank (d : Display κ) (cols : 1 ≤ d.fontCols) (rows : 1 ≤ d.fontRows) :
    Printed [] 0 (Text.blank d) where
  cols_pos := cols
  rows_pos := rows
  gone := Int.le_refl 0
  needed h := absurd h (Int.lt_irrefl 0)
  col_ge := Int.le_refl 0
  row_ge := Int.le_refl 0
  place := by
    refine Or.inl ⟨⟨?_, ?_⟩, ?_⟩
    · show 0 < d.fontCols
      omega
    · show 0 < d.fontRows
      omega
    · show (0 + 0) * d.fontCols + 0 = 0
      omega
  below _ _ := rfl
  cells _ _ _ _ _ _ := rfl

/-- Behind a full screen one more row goes. -/
theorem Printed.scroll (h : Printed chars k t) (full : ¬ t.Inside) :
    Printed chars (k + 1) t.scroll ∧ t.scroll.Inside := by
  have cols_pos := h.cols_pos
  have rows_pos := h.rows_pos
  have gone := h.gone
  obtain ⟨inside, -⟩ | ⟨-, place⟩ := h.place
  · exact absurd inside full
  have inside : t.scroll.Inside := by
    refine ⟨?_, ?_⟩
    · show 0 < t.cols
      omega
    · show t.rows - 1 < t.rows
      omega
  have last : (t.rows + k) * t.cols = (t.rows - 1 + (k + 1)) * t.cols := by
    congr 1
    omega
  refine ⟨⟨cols_pos, rows_pos, by omega, fun _ => ?_, Int.le_refl 0, ?_, Or.inl ⟨inside, ?_⟩,
    fun place under => ?_, fun col row col_ge col_lt row_ge row_lt => ?_⟩, inside⟩
  · have same : (k + 1 + t.rows - 1) * t.cols = (t.rows + k) * t.cols := by
      congr 1
      omega
    show (k + 1 + t.rows - 1) * t.cols ≤ chars.length
    omega
  · show 0 ≤ t.rows - 1
    omega
  · show (t.rows - 1 + (k + 1)) * t.cols + 0 = chars.length
    omega
  · have under : t.rows ≤ place.2 := under
    exact h.below _ (by show t.rows ≤ place.2 + 1; omega)
  · have col_lt : col < t.cols := col_lt
    show t.cell (col, row + 1) =
      ((chars[((row + (k + 1)) * t.cols + col).toNat]?).map (·, t.fontColor)).toList
    have index : (row + (k + 1)) * t.cols = (row + 1 + k) * t.cols := by
      congr 1
      omega
    rw [index]
    by_cases kept : row + 1 < t.rows
    · exact h.cells col (row + 1) col_ge col_lt (by omega) kept
    · have under : t.rows ≤ row + 1 := by omega
      have past := Int.mul_le_mul_of_nonneg_right (by omega : t.rows + k ≤ row + 1 + k)
        (by omega : 0 ≤ t.cols)
      rw [h.below _ under, List.getElem?_eq_none (by omega)]
      rfl

/-- The cursor goes on in the row, to the next row, or behind the last cell. -/
theorem next_spec (t : Text κ) :
    (t.next.cell = t.cell ∧ SameGrid t t.next) ∧
      ((t.cursorCol + 1 < t.cols ∧ t.next.cursorCol = t.cursorCol + 1 ∧
        t.next.cursorRow = t.cursorRow) ∨
        (t.cols ≤ t.cursorCol + 1 ∧ t.cursorRow + 1 < t.rows ∧ t.next.cursorCol = 0 ∧
          t.next.cursorRow = t.cursorRow + 1) ∨
        (t.cols ≤ t.cursorCol + 1 ∧ t.rows ≤ t.cursorRow + 1 ∧ t.next.cursorCol = t.cols ∧
          t.next.cursorRow = t.rows - 1)) := by
  unfold next
  dsimp only
  split_ifs with last bottom
  · have last : t.cursorCol + 1 ≥ t.cols := last
    have bottom : t.cursorRow + 1 ≥ t.rows := bottom
    exact ⟨⟨rfl, rfl, rfl, rfl, rfl, rfl⟩, Or.inr (Or.inr ⟨last, bottom, rfl, rfl⟩)⟩
  · have last : t.cursorCol + 1 ≥ t.cols := last
    have above : t.cursorRow + 1 < t.rows := Int.not_le.mp bottom
    exact ⟨⟨rfl, rfl, rfl, rfl, rfl, rfl⟩, Or.inr (Or.inl ⟨last, above, rfl, rfl⟩)⟩
  · have before : t.cursorCol + 1 < t.cols := Int.not_le.mp last
    exact ⟨⟨rfl, rfl, rfl, rfl, rfl, rfl⟩, Or.inl ⟨before, rfl, rfl⟩⟩

/-- A character in the grid. -/
theorem Printed.write (h : Printed chars k t) (inside : t.Inside) (ch : Int) :
    Printed (chars ++ [ch]) k (t.setCell ((ch, t.fontColor) :: t.cell t.cursor)).next := by
  have cols_pos := h.cols_pos
  have rows_pos := h.rows_pos
  have gone := h.gone
  have col_ge := h.col_ge
  have row_ge := h.row_ge
  obtain ⟨-, place⟩ | ⟨full, -⟩ := h.place
  · obtain ⟨col_lt, row_lt⟩ := inside
    have length : ((chars ++ [ch]).length : Int) = chars.length + 1 := by
      rw [List.length_append]
      rfl
    have nonneg := Int.mul_nonneg (by omega : 0 ≤ t.cursorRow + k) (by omega : 0 ≤ t.cols)
    have below : ∀ place, t.rows ≤ place.2 →
        Function.update t.cell t.cursor ((ch, t.fontColor) :: t.cell t.cursor) place = [] :=
          fun place under => by
      have away : place ≠ t.cursor := fun here => by
        have : place.2 = t.cursorRow := congrArg Prod.snd here
        omega
      rw [Function.update_of_ne away]
      exact h.below place under
    have cells : ∀ col row, 0 ≤ col → col < t.cols → 0 ≤ row → row < t.rows →
        Function.update t.cell t.cursor ((ch, t.fontColor) :: t.cell t.cursor) (col, row) =
          ((t.readAt (chars ++ [ch]) k col row).map (·, t.fontColor)).toList := by
      intro col row col_ge' col_lt' row_ge' row_lt'
      have old := h.cells col row col_ge' col_lt' row_ge' row_lt'
      have nonneg' := Int.mul_nonneg (by omega : 0 ≤ row + k) (by omega : 0 ≤ t.cols)
      unfold readAt at old ⊢
      by_cases here : (col, row) = t.cursor
      · have col_eq : col = t.cursorCol := congrArg Prod.fst here
        have row_eq : row = t.cursorRow := congrArg Prod.snd here
        have last : ((row + k) * t.cols + col).toNat = chars.length := by
          rw [col_eq, row_eq]
          omega
        rw [last, List.getElem?_eq_none (Nat.le_refl _)] at old
        rw [here, Function.update_self, ← here, old, last, List.getElem?_concat_length]
        rfl
      · rw [Function.update_of_ne here, old]
        have other : ((row + k) * t.cols + col).toNat ≠ chars.length := fun same => here ?_
        · by_cases before : ((row + k) * t.cols + col).toNat < chars.length
          · rw [List.getElem?_append_left before]
          · rw [List.getElem?_eq_none (by omega), List.getElem?_eq_none (by omega)]
        · -- Two cells with the same index are one.
          have index : (row + k) * t.cols + col = (t.cursorRow + k) * t.cols + t.cursorCol := by
            omega
          have one : ((row + k) * t.cols + col) / t.cols = row + k ∧ _ :=
            (in_piece_iff cols_pos (Int.le_refl t.cols)).mp (by omega)
          have two : ((row + k) * t.cols + col) / t.cols = t.cursorRow + k ∧ _ :=
            (in_piece_iff cols_pos (Int.le_refl t.cols)).mp (by omega)
          have rows : row = t.cursorRow := by omega
          rw [rows] at index
          exact Prod.ext (by show col = t.cursorCol; omega) rows
    obtain ⟨⟨same_cell, same⟩, moved⟩ :=
      (t.setCell ((ch, t.fontColor) :: t.cell t.cursor)).next_spec
    generalize (t.setCell ((ch, t.fontColor) :: t.cell t.cursor)).next = u at same_cell same moved ⊢
    have same_cols : u.cols = t.cols := same.cols
    have same_rows : u.rows = t.rows := same.rows
    have same_font : u.fontColor = t.fontColor := same.fontColor
    have next_row : (t.cursorRow + 1 + k) * t.cols = (t.cursorRow + k) * t.cols + t.cols := by
      have one_more : t.cursorRow + 1 + k = t.cursorRow + k + 1 := by omega
      rw [one_more, Int.add_mul, Int.one_mul]
    have ends : 0 ≤ u.cursorCol ∧ 0 ≤ u.cursorRow ∧
        ((u.Inside ∧ (u.cursorRow + k) * t.cols + u.cursorCol = chars.length + 1) ∨
          (¬ u.Inside ∧ (t.rows + k) * t.cols = chars.length + 1)) := by
      unfold Inside
      rw [same_cols, same_rows]
      obtain ⟨before, col, row⟩ | ⟨last, above, col, row⟩ | ⟨last, bottom, col, row⟩ := moved
      · have col : u.cursorCol = t.cursorCol + 1 := col
        have row : u.cursorRow = t.cursorRow := row
        have before : t.cursorCol + 1 < t.cols := before
        rw [col, row]
        exact ⟨by omega, by omega, Or.inl ⟨⟨by omega, by omega⟩, by omega⟩⟩
      · have row : u.cursorRow = t.cursorRow + 1 := row
        have last : t.cols ≤ t.cursorCol + 1 := last
        have above : t.cursorRow + 1 < t.rows := above
        rw [col, row, next_row]
        exact ⟨by omega, by omega, Or.inl ⟨⟨by omega, by omega⟩, by omega⟩⟩
      · have col : u.cursorCol = t.cols := col
        have row : u.cursorRow = t.rows - 1 := row
        have last : t.cols ≤ t.cursorCol + 1 := last
        have bottom : t.rows ≤ t.cursorRow + 1 := bottom
        have all : t.rows = t.cursorRow + 1 := by omega
        rw [col, row]
        refine ⟨by omega, by omega, Or.inr ⟨by omega, ?_⟩⟩
        rw [all, next_row]
        omega
    obtain ⟨col_ge, row_ge, ends⟩ := ends
    refine ⟨by omega, by omega, gone, fun some' => ?_, col_ge, row_ge, ?_, ?_, ?_⟩
    · have needed := h.needed some'
      rw [same_cols, same_rows, length]
      omega
    · rw [same_cols, same_rows, length]
      exact ends
    · rw [same_cell, same_rows]
      exact below
    · unfold readAt
      rw [same_cell, same_rows, same_cols, same_font]
      exact cells
  · exact absurd inside full

/-- One more character, and the rows that had to go for it. -/
theorem Printed.put (h : Printed chars k t) (ch : Int) :
    ∃ k', Printed (chars ++ [ch]) k' (t.put ch) ∧
      (0 < k' → (k' + t.rows - 1) * t.cols < (chars ++ [ch]).length) := by
  have length : ((chars ++ [ch]).length : Int) = chars.length + 1 := by
    rw [List.length_append]
    rfl
  by_cases inside : t.Inside
  · have here : t.scrollIfFull = t := if_pos inside
    refine ⟨k, ?_, fun some' => ?_⟩
    · unfold Text.put
      rw [here]
      exact h.write inside ch
    · have := h.needed some'
      omega
  · have moved : t.scrollIfFull = t.scroll := if_neg inside
    obtain ⟨scrolled, inside'⟩ := h.scroll inside
    refine ⟨k + 1, ?_, fun some' => ?_⟩
    · unfold Text.put
      rw [moved]
      exact scrolled.write inside' ch
    · have needed : (k + 1 + t.rows - 1) * t.cols ≤ chars.length := scrolled.needed some'
      omega

/-- A character with a cell is put into it. -/
theorem printNextChar_put (hasCell : HasCell ch) (t : Text κ) : t.printNextChar ch = t.put ch := by
  obtain ⟨backspace, tab, newline⟩ := hasCell
  unfold printNextChar
  rw [if_neg backspace, if_neg newline, if_neg tab]

/-- Putting a character changes no size and no colour. -/
theorem put_grid (t : Text κ) (ch : Int) : SameGrid t (t.put ch) := by
  have scrolled : SameGrid t t.scrollIfFull := by
    unfold scrollIfFull
    split_ifs
    · exact SameGrid.refl t
    · exact ⟨rfl, rfl, rfl, rfl, rfl⟩
  have written : SameGrid t.scrollIfFull
      (t.scrollIfFull.setCell
        ((ch, t.scrollIfFull.fontColor) :: t.scrollIfFull.cell t.scrollIfFull.cursor)) :=
    ⟨rfl, rfl, rfl, rfl, rfl⟩
  obtain ⟨⟨-, next⟩, -⟩ :=
    (t.scrollIfFull.setCell
      ((ch, t.scrollIfFull.fontColor) :: t.scrollIfFull.cell t.scrollIfFull.cursor)).next_spec
  exact scrolled.trans (written.trans next)

end Text

def printing (chars : List Int) : List DriverCall := chars.map .printNextChar

namespace Text

/-- After any characters the cells hold what was printed last, in its rows. -/
theorem Printed.run {t : Text RGBColor} {before chars : List Int} {k : Int} (h : t.Printed before k)
    (strict : 0 < k → (k + t.rows - 1) * t.cols < before.length)
    (hasCell : ∀ ch ∈ chars, HasCell ch) :
    ∃ k', Printed (before ++ chars) k' ((printing chars).foldl perform t) ∧
      (0 < k' → (k' + t.rows - 1) * t.cols < (before ++ chars).length) ∧
      SameGrid t ((printing chars).foldl perform t) := by
  induction chars generalizing before k t with
  | nil =>
      rw [List.append_nil]
      exact ⟨k, h, strict, SameGrid.refl t⟩
  | cons ch chars ih =>
      obtain ⟨k₁, first, strict₁⟩ := h.put ch
      have grid := t.put_grid ch
      rw [← grid.cols, ← grid.rows] at strict₁
      obtain ⟨k₂, rest, strict₂, grid'⟩ := ih first strict₁ fun ch mem =>
        hasCell ch (List.mem_cons_of_mem _ mem)
      have put : (printing (ch :: chars)).foldl perform t =
          (printing chars).foldl perform (t.put ch) := by
        show (printing chars).foldl perform (t.printNextChar ch) = _
        rw [printNextChar_put (hasCell ch List.mem_cons_self)]
      have together : before ++ [ch] ++ chars = before ++ ch :: chars := by
        rw [List.append_assoc]
        rfl
      rw [grid.cols, grid.rows] at strict₂
      rw [put, ← together]
      exact ⟨k₂, rest, strict₂, grid.trans grid'⟩

end Text

/-! ### Pixels of long texts -/

section Pixels

open Console

variable {asciiBitFields : Int → Nat → Bool}

/-- Characters behind others, on a screen whose pixels can be counted. -/
theorem printing_safe {d : Display RGBColor} {t : Text RGBColor} (s : Shows asciiBitFields d t)
    (inv : Inv d.toConsole)
    (few : t.width * t.height < 2 ^ 31) {chars : List Int} (hasCell : ∀ ch ∈ chars, HasCell ch) :
    Safely asciiBitFields d (printing chars) := by
  induction chars generalizing d t with
  | nil => trivial
  | cons ch chars ih =>
      obtain ⟨backspace, tab, newline⟩ := hasCell ch List.mem_cons_self
      have safe : (DriverCall.printNextChar ch).Safe d := by
        show (Call.printNextChar ch).Safe d.toConsole
        unfold Call.Safe
        dsimp only
        rw [if_neg backspace, if_neg newline]
        refine ⟨fun _ => ?_, fun same => absurd same tab⟩
        rw [← s.width, ← s.height]
        exact few
      obtain ⟨width, height⟩ := t.perform_size (.printNextChar ch)
      refine ⟨safe, ih (s.perform inv safe) (safe.inv inv) ?_ fun ch mem =>
        hasCell ch (List.mem_cons_of_mem _ mem)⟩
      rw [width, height]
      exact few

/-- **Long texts are read row by row**, the last rows of them: each cell shows its character, or
nothing behind the end of the text. -/
theorem screen_read {d : Display RGBColor} (inv : Inv d.toConsole) (small : d.fontSize ≤ 2)
    (few : d.width * d.height < 2 ^ 31) {chars : List Int} (hasCell : ∀ ch ∈ chars, HasCell ch) :
    ∃ k, 0 ≤ k ∧ (0 < k → (k + d.fontRows - 1) * d.fontCols < chars.length) ∧
      chars.length ≤ (k + d.fontRows) * d.fontCols ∧
      ∀ p : Int × Int, 0 ≤ p.1 → 0 ≤ p.2 → p.1 / d.cellWidth < d.fontCols →
        p.2 / d.cellHeight < d.fontRows → p.1 % d.cellWidth < ASCII_BF_WIDTH * d.fontSize →
        ((printing chars).foldl (DriverCall.perform asciiBitFields) d.clearScreen).screen p =
          if chars[((p.2 / d.cellHeight + k) * d.fontCols + p.1 / d.cellWidth).toNat]?.any fun ch =>
            decide (((p.2 % d.cellHeight / d.fontSize).toNat,
              (p.1 % d.cellWidth / d.fontSize).toNat) ∈ Display.inked asciiBitFields ch)
          then d.fontColor else d.bgColor := by
  obtain ⟨cols, -⟩ := inv.grid.fontCols_bounds
  obtain ⟨rows, -, rows_fit⟩ := inv.grid.fontRows_bounds
  have cleared : Shows asciiBitFields d.clearScreen (Text.blank d) :=
    shows_clearScreen inv.grid small
  have safe := printing_safe cleared (clearScreen_inv inv) few hasCell
  obtain ⟨shown, -, width, height⟩ := cleared.run (clearScreen_inv inv) safe
  obtain ⟨k, read, strict, same⟩ :=
    (Text.Printed.blank d cols rows).run (fun h => absurd h (Int.lt_irrefl 0)) hasCell
  rw [List.nil_append] at read strict
  generalize (printing chars).foldl Text.perform (Text.blank d) = t at shown width height read same
  have cols_eq : t.cols = d.fontCols := same.cols
  have rows_eq : t.rows = d.fontRows := same.rows
  have font_eq : t.fontSize = d.fontSize := same.fontSize
  have color_eq : t.fontColor = d.fontColor := same.fontColor
  have ground_eq : t.bgColor = d.bgColor := same.bgColor
  have cell_width : t.cellWidth = d.cellWidth := by
    unfold Text.cellWidth Console.cellWidth
    rw [font_eq]
  have cell_height : t.cellHeight = d.cellHeight := by
    unfold Text.cellHeight Console.cellHeight
    rw [font_eq]
  refine ⟨k, read.gone, strict, ?_, fun p left top col_lt row_lt glyph => ?_⟩
  · rw [← cols_eq, ← rows_eq]
    obtain ⟨⟨col_lt, row_lt⟩, place⟩ | ⟨-, place⟩ := read.place
    · have upper := Int.mul_le_mul_of_nonneg_right (by omega : t.cursorRow + k + 1 ≤ k + t.rows)
        (by omega : 0 ≤ t.cols)
      rw [Int.add_mul, Int.one_mul] at upper
      omega
    · rw [Int.add_comm] at place
      omega
  · have cell := inv.grid.cell col_lt row_lt
    have right : p.1 < t.width := by
      have split := Int.mul_ediv_add_emod p.1 d.cellWidth
      have := cell.1
      rw [Int.mul_comm] at split
      rw [width]
      show p.1 < d.width
      omega
    have bottom : p.2 < t.height := by
      have split := Int.mul_ediv_add_emod p.2 d.cellHeight
      have rest :=
        Int.emod_lt_of_pos p.2 (by have := inv.grid.cellHeight_bounds; omega : 0 < d.cellHeight)
      have under := Int.mul_le_mul_of_nonneg_right (by omega : p.2 / d.cellHeight + 1 ≤ d.fontRows)
        (by have := inv.grid.cellHeight_bounds; omega : 0 ≤ d.cellHeight)
      rw [Int.add_mul, Int.one_mul] at under
      rw [Int.mul_comm] at split
      rw [height]
      show p.2 < d.height
      omega
    rw [shown.picture p left right top bottom]
    have col_ge :=
      Int.ediv_nonneg left (by have := inv.grid.cellWidth_bounds; omega : 0 ≤ d.cellWidth)
    have row_ge :=
      Int.ediv_nonneg top (by have := inv.grid.cellHeight_bounds; omega : 0 ≤ d.cellHeight)
    have stands := read.cells _ _ col_ge (cols_eq ▸ col_lt) row_ge (rows_eq ▸ row_lt)
    unfold Text.readAt at stands
    unfold Text.picture Text.drawing
    dsimp only
    rw [cell_width, cell_height, font_eq, if_pos glyph, stands, cols_eq, color_eq, ground_eq]
    cases chars[((p.2 / d.cellHeight + k) * d.fontCols + p.1 / d.cellWidth).toNat]? with
    | none => rfl
    | some ch =>
        generalize ((p.2 % d.cellHeight / d.fontSize).toNat,
          (p.1 % d.cellWidth / d.fontSize).toNat) = bit
        by_cases lit : bit ∈ Display.inked asciiBitFields ch
        · simp [Text.charInk, lit]
        · simp [Text.charInk, lit]

/-- More characters than the screen has cells. -/
def manyLetters : List Int := List.replicate 2500 72

theorem manyLetters_cells : ∀ ch ∈ manyLetters, HasCell ch := fun ch mem => by
  rw [List.eq_of_mem_replicate mem]
  exact ⟨by decide, by decide, by decide⟩

theorem screen_read_many :
    ∃ k, 0 ≤ k ∧ (0 < k → (k + dark.fontRows - 1) * dark.fontCols < manyLetters.length) ∧
      manyLetters.length ≤ (k + dark.fontRows) * dark.fontCols ∧
      ∀ p : Int × Int, 0 ≤ p.1 → 0 ≤ p.2 → p.1 / dark.cellWidth < dark.fontCols →
        p.2 / dark.cellHeight < dark.fontRows →
          p.1 % dark.cellWidth < ASCII_BF_WIDTH * dark.fontSize →
        ((printing manyLetters).foldl (DriverCall.perform fun _ _ =>
          true) dark.clearScreen).screen p =
          if manyLetters[((p.2 / dark.cellHeight + k) * dark.fontCols + p.1 /
              dark.cellWidth).toNat]?.any fun ch =>
            decide (((p.2 % dark.cellHeight / dark.fontSize).toNat,
              (p.1 % dark.cellWidth / dark.fontSize).toNat) ∈ Display.inked (fun _ _ => true) ch)
          then dark.fontColor else dark.bgColor :=
  screen_read dark_inv (by decide) (by decide) manyLetters_cells

end Pixels

end SoTp.Video
