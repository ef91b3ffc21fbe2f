import Srunix.Console.Colour
import Srunix.Library.Wrap

/-!
# What a cleared screen shows of a text (`lib/prdio.h`)

`terminal_putchar` wraps and scrolls as it goes; `wrap` cuts the whole text into
rows first. The screen shows the last 25 of them: `screen_eq_wrap`.
-/

namespace Srunix

open Library

/-- Printable ASCII and newline. -/
def IsText (c : UInt8) : Prop := c = 0x0A ∨ (0x20 ≤ c ∧ c ≤ 0x7E)

instance (c : UInt8) : Decidable (IsText c) := inferInstanceAs (Decidable (_ ∨ _))

/-- What the screen shows in column `x` of row `y` of the text in `rows`. -/
def shownByte (rows : List (List UInt8)) (y x : Nat) : UInt8 := shownAt screenHeight 0x20 rows y x

/-- The screen shows the rows, and the cursor stands in the last one. -/
structure ShowsRows (t : Terminal) (rows : List (List UInt8)) : Prop where
  cells : ∀ y < screenHeight, ∀ x < screenWidth,
    t.buffer (y * screenWidth + x) = vgaCell (shownByte rows y x) t.color
  row : t.row = (rows.rtake screenHeight).length - 1

/-! ## The two things a character does -/

theorem cell_of_isText {c : UInt8} (hc : IsText c) (color : UInt8) : cell c color = vgaCell c color := by
  have hseven : c < 0x80 := by
    rcases hc with rfl | ⟨-, hle⟩
    · decide
    · exact UInt8.lt_of_le_of_lt hle (by decide)
  rw [cell_eq, if_pos hseven]

/-- A character behind the last row. -/
theorem ShowsRows.putCell {t : Terminal} {done : List (List UInt8)} {row : List UInt8}
    (h : ShowsRows t (done ++ [row])) (hcolumn : t.column = row.length) (hroom : row.length < screenWidth)
    {c : UInt8} (hc : IsText c) : ShowsRows (putCell t c) (done ++ [row ++ [c]]) := by
  have hsame : ((done ++ [row ++ [c]]).rtake screenHeight).length
      = ((done ++ [row]).rtake screenHeight).length := by
    rw [length_rtake, length_rtake, List.length_append, List.length_append]
    rfl
  refine ⟨fun y hy x hx => ?_, h.row.trans (by rw [hsame])⟩
  have hshown : shownByte (done ++ [row ++ [c]]) y x =
      if y = ((done ++ [row]).rtake screenHeight).length - 1 ∧ x = row.length then c
      else shownByte (done ++ [row]) y x :=
    shownAt_concat_char (by decide) 0x20 c y x
  rw [hshown, ← h.row, ← hcolumn]
  show Function.update t.buffer _ (cell c t.color) _ = vgaCell _ t.color
  by_cases hat : y = t.row ∧ x = t.column
  · obtain ⟨rfl, rfl⟩ := hat
    rw [Function.update_self, if_pos ⟨rfl, rfl⟩, cell_of_isText hc]
  · -- another row or another column is another cell
    have hne : y * screenWidth + x ≠ t.row * screenWidth + t.column := by
      intro heq
      simp only [screenWidth] at heq hx hroom
      omega
    rw [Function.update_of_ne hne, if_neg hat]
    exact h.cells y hy x hx

/-- Every row gets what was in the row below, and the last one blanks. -/
theorem terminalScroll_buffer (t : Terminal) {y x : Nat} (hy : y < screenHeight) (hx : x < screenWidth) :
    (terminalScroll t).buffer (y * screenWidth + x) =
      if y + 1 < screenHeight then t.buffer ((y + 1) * screenWidth + x) else cell 0x20 t.color := by
  show (if y * screenWidth + x < (screenHeight - 1) * screenWidth then _ else _) = _
  by_cases hbottom : y + 1 < screenHeight
  · have hmoved : y * screenWidth + x < (screenHeight - 1) * screenWidth := by
      simp only [screenHeight, screenWidth] at hbottom hx ⊢
      omega
    have hbelow : y * screenWidth + x + screenWidth = (y + 1) * screenWidth + x := by
      simp only [screenWidth]
      omega
    rw [if_pos hmoved, hbelow, if_pos hbottom]
  · have hlast : ¬ y * screenWidth + x < (screenHeight - 1) * screenWidth := by
      simp only [screenHeight, screenWidth] at hbottom ⊢
      omega
    have hinside : y * screenWidth + x < screenHeight * screenWidth := by
      simp only [screenHeight, screenWidth] at hy hx ⊢
      omega
    rw [if_neg hlast, if_pos hinside, if_neg hbottom]

/-- A new row: on a full screen all others move up. -/
theorem ShowsRows.nextRow {t : Terminal} {rows : List (List UInt8)} (h : ShowsRows t rows) (hne : rows ≠ []) :
    ShowsRows (nextRow { t with column := 0 }) (rows ++ [[]]) ∧ (nextRow { t with column := 0 }).column = 0 := by
  have hpos : 0 < rows.length := List.length_pos_of_ne_nil hne
  have hrow := h.row
  rw [length_rtake] at hrow
  have hshown := fun y x => @shownAt_concat_row _ screenHeight 0x20 rows y x
  rw [Srunix.nextRow]
  by_cases hroom : rows.length < screenHeight
  -- there is a row below the cursor
  · have hlast : t.row + 1 ≠ screenHeight := by
      simp only [screenHeight] at hroom hrow ⊢
      omega
    rw [if_neg hlast]
    refine ⟨⟨fun y hy x hx => ?_, ?_⟩, rfl⟩
    · show t.buffer _ = vgaCell (shownAt screenHeight 0x20 (rows ++ [[]]) y x) t.color
      rw [hshown, if_pos hroom]
      exact h.cells y hy x hx
    · show t.row + 1 = _
      rw [length_rtake, List.length_append, List.length_singleton]
      simp only [screenHeight] at hroom hrow ⊢
      omega
  -- the last row: all rows move up, and a blank one comes in
  · have hlast : t.row + 1 = screenHeight := by
      simp only [screenHeight] at hroom hrow ⊢
      omega
    rw [if_pos hlast]
    refine ⟨⟨fun y hy x hx => ?_, ?_⟩, rfl⟩
    · show (terminalScroll _).buffer _ = vgaCell (shownAt screenHeight 0x20 (rows ++ [[]]) y x) t.color
      rw [hshown, if_neg hroom, terminalScroll_buffer _ hy hx]
      split
      · exact h.cells (y + 1) ‹_› x hx
      · rw [shownAt_below _ _ (Nat.not_lt.mp ‹_›)]
        exact cell_of_isText (.inr (by decide)) t.color
    · show screenHeight - 1 = _
      rw [length_rtake, List.length_append, List.length_singleton]
      simp only [screenHeight] at hroom ⊢
      omega

/-! ## The text -/

/-- What one character keeps. -/
structure TypedRows (color : UInt8) (t : Terminal) (done : List (List UInt8)) (row : List UInt8) : Prop where
  shows : ShowsRows t (done ++ [row])
  column : t.column = row.length
  room : row.length < screenWidth
  mode : t.smouseMode = false
  color : t.color = color

theorem nextRow_color (t : Terminal) : (nextRow t).color = t.color := by
  obtain ⟨row, column, buffer, heq⟩ := nextRow_frame t
  rw [heq]

theorem nextRow_smouse (t : Terminal) : (nextRow t).smouseMode = t.smouseMode := by
  obtain ⟨row, column, buffer, heq⟩ := nextRow_frame t
  rw [heq]

namespace TypedRows

variable {color : UInt8} {t : Terminal} {done : List (List UInt8)} {row : List UInt8}

/-- A newline ends the row that is being typed. -/
theorem newline (h : TypedRows color t done row) :
    TypedRows color (terminalPutchar t 0x0A) (done ++ [row]) [] := by
  rw [putchar_newline h.mode]
  obtain ⟨hshows, hcolumn⟩ := h.shows.nextRow (by simp)
  exact ⟨hshows, hcolumn, by decide, (nextRow_smouse _).trans h.mode, (nextRow_color _).trans h.color⟩

/-- A character ends the row if it fills it. -/
theorem glyph (h : TypedRows color t done row) {c : UInt8} (hc : IsText c) (hnl : c ≠ 0x0A) :
    (row.length + 1 = screenWidth → TypedRows color (terminalPutchar t c) (done ++ [row ++ [c]]) []) ∧
      (row.length + 1 ≠ screenWidth → TypedRows color (terminalPutchar t c) done (row ++ [c])) := by
  have hbs : c ≠ 0x08 := by
    rintro rfl
    exact absurd hc (by decide)
  have hput := h.shows.putCell h.column h.room hc
  rw [putchar_glyph h.mode hnl hbs, h.column]
  constructor
  · intro hfull
    rw [if_pos hfull]
    obtain ⟨hshows, hcolumn⟩ := hput.nextRow (by simp)
    exact ⟨hshows, hcolumn, by decide, (nextRow_smouse _).trans h.mode, (nextRow_color _).trans h.color⟩
  · intro hmore
    rw [if_neg hmore]
    have hlen : (row ++ [c]).length = row.length + 1 := List.length_append
    have hroom : (row ++ [c]).length < screenWidth := by
      rw [hlen]
      exact Nat.lt_of_le_of_ne h.room hmore
    exact ⟨⟨hput.cells, hput.row⟩, hlen.symm, hroom, h.mode, h.color⟩

end TypedRows

/-- A cleared screen shows an empty row. -/
theorem typing_clear {t : Terminal} (hmode : t.smouseMode = false) :
    TypedRows t.color (terminalClear t) [] [] := by
  refine ⟨⟨fun y hy x hx => ?_, rfl⟩, rfl, by decide, hmode, rfl⟩
  have hcell : y * screenWidth + x < screenHeight * screenWidth := by
    simp only [screenHeight, screenWidth] at hy hx ⊢
    omega
  have hblank : shownByte [[]] y x = 0x20 := by
    rw [shownByte, shownAt, List.rtake]
    cases y with
    | zero => rfl
    | succ y => rfl
  show (if y * screenWidth + x < screenHeight * screenWidth then cell 0x20 t.color else _) = _
  rw [if_pos hcell]
  show _ = vgaCell (shownByte [[]] y x) t.color
  rw [hblank]
  exact cell_of_isText (.inr (by decide)) t.color

/-- **The screen shows the end of the text in rows**, every cell in the current
colour, with the cursor behind the last character. -/
theorem screen_eq_wrap {t : Terminal} (hmode : t.smouseMode = false) {s : CString}
    (htext : ∀ c ∈ s.bytes, IsText c) :
    let rows := wrap screenWidth 0x0A s.bytes
    let t' := terminalWritestring (terminalClear t) s
    (∀ y < screenHeight, ∀ x < screenWidth,
      t'.buffer (y * screenWidth + x) = vgaCell (shownByte rows y x) t.color) ∧
    t'.row = (rows.rtake screenHeight).length - 1 ∧
    some t'.column = (rows.rtake screenHeight).getLast?.map List.length ∧
    t'.color = t.color := by
  intro rows t'
  -- the loop over the text follows the rows of the wrapped text
  obtain ⟨done, row, hrows, htyping⟩ := @foldl_wrapFrom UInt8 _ screenWidth 0x0A _ terminalPutchar
    (TypedRows t.color) IsText (fun _ _ _ h => h.newline) (fun _ _ _ _ h hc hnl => (h.glyph hc hnl).1)
    (fun _ _ _ _ h hc hnl => (h.glyph hc hnl).2) s.bytes htext _ _ _ (typing_clear hmode)
  have hrows : rows = done ++ [row] := hrows
  have ht' : t' = s.bytes.foldl terminalPutchar (terminalClear t) := by
    show terminalWritestring (terminalClear t) s = _
    rw [terminalWritestring]
    rw [if_neg (by show ¬ t.smouseMode = true; rw [hmode]; exact Bool.false_ne_true)]
  rw [← ht'] at htyping
  rw [hrows]
  refine ⟨fun y hy x hx => ?_, htyping.shows.row, ?_, htyping.color⟩
  · rw [htyping.shows.cells y hy x hx, htyping.color]
  · rw [getLast?_rtake (by decide), htyping.column]
    rfl

/-- `ok`, and a newline, after boot. -/
theorem screen_eq_wrap_ok :
    let t := terminalInitialize programImage.term
    let rows := wrap screenWidth 0x0A (CString.bytes "ok\n")
    let t' := terminalWritestring (terminalClear t) "ok\n"
    (∀ y < screenHeight, ∀ x < screenWidth,
      t'.buffer (y * screenWidth + x) = vgaCell (shownByte rows y x) t.color) ∧
    t'.row = (rows.rtake screenHeight).length - 1 ∧
    some t'.column = (rows.rtake screenHeight).getLast?.map List.length ∧
    t'.color = t.color := by
  have htext : ((CString.bytes "ok\n").all fun c => decide (IsText c)) = true := by decide
  exact screen_eq_wrap (by decide) fun c hc => of_decide_eq_true (List.all_eq_true.mp htext c hc)

end Srunix
