import Srunix.Bkfs.Boot

/-!
# Colours on the screen (`lib/prdio.h`)

A cell of `terminal_buffer` is a colour over a character. `terminal_putchar`
builds it from a signed `char`, so a byte from `0x80` up takes the colour's place
as well (`cell_eq`).

`writtenBy` follows what a string puts in each cell while the screen scrolls:
the byte, if the cell was written since the string began. `colourIntact_iff` says
for which strings every such cell is as it should be.
-/

namespace Srunix

/-! ## One cell -/

/-- The colour of a cell. -/
def highByte (v : UInt16) : UInt8 := (v >>> 8).toUInt8

/-- The character of a cell. -/
def lowByte (v : UInt16) : UInt8 := v.toUInt8

/-- A colour over a character. -/
def vgaCell (c color : UInt8) : UInt16 := c.toUInt16 ||| (color.toUInt16 <<< 8)

theorem toNat_vgaCell (c color : UInt8) : (vgaCell c color).toNat = color.toNat * 256 + c.toNat := by
  have hcolor := color.toNat_lt
  have hshift : (color.toUInt16 <<< 8).toNat = 2 ^ 8 * color.toNat := by
    rw [UInt16.toNat_shiftLeft, UInt8.toNat_toUInt16]
    show color.toNat <<< 8 % 2 ^ 16 = _
    rw [Nat.shiftLeft_eq, Nat.mul_comm, Nat.mod_eq_of_lt (by omega)]
  rw [vgaCell]
  rw [UInt16.toNat_or, hshift, UInt8.toNat_toUInt16, Nat.or_comm,
    ← Nat.two_pow_add_eq_or_of_lt c.toNat_lt, Nat.mul_comm]

theorem highByte_vgaCell (c color : UInt8) : highByte (vgaCell c color) = color := by
  have hc := c.toNat_lt
  have hcolor := color.toNat_lt
  rw [← UInt8.toNat_inj]
  show ((vgaCell c color) >>> 8).toNat % 2 ^ 8 = _
  rw [UInt16.toNat_shiftRight, toNat_vgaCell]
  show (color.toNat * 256 + c.toNat) >>> 8 % 2 ^ 8 = _
  rw [Nat.shiftRight_eq_div_pow]
  omega

theorem lowByte_vgaCell (c color : UInt8) : lowByte (vgaCell c color) = c := by
  have hc := c.toNat_lt
  rw [← UInt8.toNat_inj]
  show (vgaCell c color).toNat % 2 ^ 8 = _
  rw [toNat_vgaCell]
  omega

/-- The sign of the character is what is left of the colour. -/
theorem cell_eq (c color : UInt8) : cell c color = vgaCell c (if c < 0x80 then color else 0xFF) := by
  rw [cell, vgaCell]
  split
  · rfl
  · have hfull : (0xFF : UInt8) ||| color = 0xFF := UInt8.toBitVec_inj.mp BitVec.allOnes_or
    have hcolor : (0xFF00 : UInt16) ||| (color.toUInt16 <<< 8) = 0xFF00 := by
      have hshift : (0xFF00 : UInt16) = (0xFF : UInt8).toUInt16 <<< 8 := rfl
      rw [hshift, ← UInt16.shiftLeft_or, ← UInt8.toUInt16_or, hfull]
    rw [UInt16.or_assoc, hcolor]
    rfl

/-- What a cell should be. -/
structure CellIs (v : UInt16) (c color : UInt8) : Prop where
  high : highByte v = color
  low : lowByte v = c

theorem cellIs_vgaCell (c color : UInt8) : CellIs (vgaCell c color) c color :=
  ⟨highByte_vgaCell c color, lowByte_vgaCell c color⟩

/-- Where `cell` gives the character and the colour it should: for a byte that is no
negative `char`, or for white on white. -/
theorem cellIs_cell_iff {c color : UInt8} : CellIs (cell c color) c color ↔ c < 0x80 ∨ color = 0xFF := by
  rw [cell_eq]
  constructor
  · rintro ⟨hhigh, -⟩
    rw [highByte_vgaCell] at hhigh
    by_cases hc : c < 0x80
    · exact .inl hc
    · rw [if_neg hc] at hhigh
      exact .inr hhigh.symm
  · intro h
    have hsame : (if c < 0x80 then color else 0xFF) = color := by
      split
      · rfl
      · rename_i hc
        exact (h.resolve_left hc).symm
    rw [hsame]
    exact cellIs_vgaCell c color

/-! ## What a string writes -/

/-- For each cell the byte last put in it; `none` if there has been none. -/
abbrev Written := Nat → Option UInt8

/-- Along with `terminal_scroll`. -/
def scrollWritten (w : Written) : Written := fun k =>
  if k < (screenHeight - 1) * screenWidth then w (k + screenWidth)
  else if k < screenHeight * screenWidth then some 0x20
  else w k

/-- What a move to the next row does to the cells that were written: they move up if
the screen scrolls. -/
def nextRowWritten (t : Terminal) (w : Written) : Written :=
  if t.row + 1 = screenHeight then scrollWritten w else w

/-- Along with `terminal_putchar`. -/
def putcharWritten (t : Terminal) (w : Written) (c : UInt8) : Written :=
  if t.smouseMode then w
  else if c = 0x0A then nextRowWritten t w
  else if c = 0x08 then
    if t.column > 0 then Function.update w (t.row * screenWidth + (t.column - 1)) (some 0x20)
    else if t.row > 0 then
      Function.update w ((t.row - 1) * screenWidth + (screenWidth - 1)) (some 0x20)
    else w
  else
    let w := Function.update w (t.row * screenWidth + t.column) (some c)
    if t.column + 1 = screenWidth then nextRowWritten t w else w

/-- What is on the screen of `data`, written byte by byte. -/
def writtenFrom (t : Terminal) (w : Written) : List UInt8 → Written
  | [] => w
  | c :: data => writtenFrom (terminalPutchar t c) (putcharWritten t w c) data

/-- The cells that a text leaves written, if none was before. -/
def writtenBy (t : Terminal) (data : List UInt8) : Written := writtenFrom t (fun _ => none) data

/-- **Every cell written is a character under the current colour**, at any time
while `data` is being written. -/
def ColourIntact (t : Terminal) (data : List UInt8) : Prop :=
  ∀ done, done <+: data → ∀ k c, writtenBy t done k = some c →
    CellIs ((terminalWrite t done).buffer k) c t.color

/-! ## What is in the cells -/

/-- The cells written hold what `terminal_putchar` makes of their bytes, which
are among `bytes`. -/
structure Holding (t : Terminal) (w : Written) (bytes : UInt8 → Prop) : Prop where
  cell : ∀ k c, w k = some c → t.buffer k = cell c t.color
  mem : ∀ k c, w k = some c → bytes c

namespace Holding

variable {t : Terminal} {w : Written} {bytes : UInt8 → Prop}

/-- A character that is stored as it should is one more. -/
theorem putCell (h : Holding t w bytes) {c : UInt8} (hc : bytes c) :
    Holding (putCell t c) (Function.update w (t.row * screenWidth + t.column) (some c)) bytes := by
  constructor
  · intro k b hk
    show Function.update t.buffer _ (Srunix.cell c t.color) k = _
    by_cases hat : k = t.row * screenWidth + t.column
    · subst hat
      rw [Function.update_self] at hk ⊢
      rw [Option.some.inj hk]
      rfl
    · rw [Function.update_of_ne hat] at hk ⊢
      exact h.cell k b hk
  · intro k b hk
    by_cases hat : k = t.row * screenWidth + t.column
    · subst hat
      rw [Function.update_self] at hk
      exact Option.some.inj hk ▸ hc
    · rw [Function.update_of_ne hat] at hk
      exact h.mem k b hk

/-- What moves up keeps what it holds; the new row holds blanks. -/
theorem nextRow (h : Holding t w bytes) (hblank : bytes 0x20) :
    Holding (nextRow t) (nextRowWritten t w) bytes := by
  rw [Srunix.nextRow, nextRowWritten]
  by_cases hlast : t.row + 1 = screenHeight
  swap
  -- below the last row nothing moves
  · rw [if_neg hlast, if_neg hlast]
    exact ⟨h.cell, h.mem⟩
  rw [if_pos hlast, if_pos hlast]
  constructor
  · intro k b hk
    rw [scrollWritten] at hk
    rw [terminalScroll]
    dsimp only at hk ⊢
    split_ifs at hk ⊢
    · exact h.cell _ b hk
    · rw [← Option.some.inj hk]
    · exact h.cell k b hk
  · intro k b hk
    rw [scrollWritten] at hk
    split_ifs at hk
    · exact h.mem _ b hk
    · exact Option.some.inj hk ▸ hblank
    · exact h.mem k b hk

/-- The position of the cursor is not part of it. -/
theorem moved (h : Holding t w bytes) (row column : Nat) :
    Holding { t with row := row, column := column } w bytes :=
  ⟨h.cell, h.mem⟩

/-- The step lemma of `Holding`. -/
theorem putchar (h : Holding t w bytes) (hblank : bytes 0x20) {c : UInt8} (hc : bytes c) :
    Holding (terminalPutchar t c) (putcharWritten t w c) bytes := by
  rw [terminalPutchar, putcharWritten]
  split_ifs
  · exact h
  · exact (h.moved t.row 0).nextRow hblank
  · exact (h.moved t.row (t.column - 1)).putCell hblank
  · exact (h.moved (t.row - 1) (screenWidth - 1)).putCell hblank
  · exact h
  · have hput := (h.putCell hc).moved t.row 0
    have hnext := hput.nextRow hblank
    rename_i hcolumn
    show Holding (if t.column + 1 = screenWidth then _ else _) _ bytes
    rw [if_pos hcolumn]
    exact hnext
  · have hput := (h.putCell hc).moved t.row (t.column + 1)
    rename_i hcolumn
    show Holding (if t.column + 1 = screenWidth then _ else _) _ bytes
    rw [if_neg hcolumn]
    exact hput

/-- The run lemma of `Holding`. -/
theorem writeFrom {data : List UInt8} (h : Holding t w bytes) (hblank : bytes 0x20)
    (hdata : ∀ c ∈ data, bytes c) :
    Holding (data.foldl terminalPutchar t) (writtenFrom t w data) bytes := by
  induction data generalizing t w with
  | nil => exact h
  | cons c data ih =>
    exact ih (h.putchar hblank (hdata c List.mem_cons_self)) fun b hb =>
      hdata b (List.mem_cons_of_mem c hb)

end Holding

/-! ## Which strings -/

theorem terminalWrite_color (t : Terminal) (data : List UInt8) : (terminalWrite t data).color = t.color := by
  have hfold : ∀ (data : List UInt8) (t : Terminal), (data.foldl terminalPutchar t).color = t.color := by
    intro data
    induction data with
    | nil => exact fun t => rfl
    | cons c data ih =>
      intro t
      obtain ⟨row, column, buffer, heq⟩ := terminalPutchar_frame t c
      rw [List.foldl_cons, ih, heq]
  rw [terminalWrite]
  split
  · rfl
  · exact hfold data t

theorem writtenFrom_append (t : Terminal) (w : Written) (data data' : List UInt8) :
    writtenFrom t w (data ++ data')
      = writtenFrom (data.foldl terminalPutchar t) (writtenFrom t w data) data' := by
  induction data generalizing t w with
  | nil => rfl
  | cons c data ih => exact ih (terminalPutchar t c) (putcharWritten t w c)

theorem foldl_smouse (t : Terminal) (data : List UInt8) :
    (data.foldl terminalPutchar t).smouseMode = t.smouseMode := by
  induction data generalizing t with
  | nil => rfl
  | cons c data ih => exact (ih (terminalPutchar t c)).trans (terminalPutchar_smouse t c)

/-- In selection mode nothing is written. -/
theorem writtenFrom_smouse {t : Terminal} (hmode : t.smouseMode = true) (w : Written) (data : List UInt8) :
    writtenFrom t w data = w := by
  induction data generalizing t w with
  | nil => rfl
  | cons c data ih =>
    have hw : putcharWritten t w c = w := if_pos hmode
    rw [writtenFrom, hw]
    exact ih ((terminalPutchar_smouse t c).trans hmode) w

/-- A character is on the screen once it is written, a row up if the screen
scrolled. -/
theorem putcharWritten_glyph {t : Terminal} (hmode : t.smouseMode = false) {c : UInt8}
    (hnl : c ≠ 0x0A) (hbs : c ≠ 0x08) (w : Written) : ∃ k, putcharWritten t w c k = some c := by
  unfold putcharWritten nextRowWritten
  rw [if_neg (by rw [hmode]; exact Bool.false_ne_true), if_neg hnl, if_neg hbs]
  by_cases hscroll : t.column + 1 = screenWidth ∧ t.row + 1 = screenHeight
  · obtain ⟨hcolumn, hrow⟩ := hscroll
    rw [if_pos hcolumn, if_pos hrow]
    -- the last cell of the screen is now the last of the row above
    have hat : t.row * screenWidth + t.column = 1919 + screenWidth := by
      simp only [screenWidth, screenHeight] at hcolumn hrow ⊢
      omega
    refine ⟨1919, (if_pos (by decide)).trans ?_⟩
    rw [hat]
    exact Function.update_self ..
  · refine ⟨t.row * screenWidth + t.column, ?_⟩
    by_cases hcolumn : t.column + 1 = screenWidth
    · rw [if_pos hcolumn, if_neg fun hrow => hscroll ⟨hcolumn, hrow⟩]
      exact Function.update_self ..
    · rw [if_neg hcolumn]
      exact Function.update_self ..

theorem holding_writtenBy {t : Terminal} (hmode : t.smouseMode = false) {done : List UInt8}
    (bytes : UInt8 → Prop) (hblank : bytes 0x20) (hdone : ∀ c ∈ done, bytes c) :
    Holding (terminalWrite t done) (writtenBy t done) bytes := by
  have hnone : Holding t (fun _ => none) bytes := ⟨fun _ _ h => (nomatch h), fun _ _ h => (nomatch h)⟩
  rw [terminalWrite]
  rw [if_neg (by rw [hmode]; exact Bool.false_ne_true)]
  exact hnone.writeFrom hblank hdone

/-- Under another colour than `0xFF` every byte has to leave it alone. -/
theorem ColourIntact.sevenBit {t : Terminal} {data : List UInt8} (hintact : ColourIntact t data)
    (hmode : t.smouseMode = false) (hcolor : t.color ≠ 0xFF) : ∀ c ∈ data, c < 0x80 := by
  intro c hc
  by_contra hlarge
  obtain ⟨before, after, rfl⟩ := List.append_of_mem hc
  -- as soon as the byte is written
  have hprefix : before ++ [c] <+: before ++ c :: after := ⟨after, by rw [List.append_assoc]; rfl⟩
  have hnl : c ≠ 0x0A := fun h => hlarge (h ▸ by decide)
  have hbs : c ≠ 0x08 := fun h => hlarge (h ▸ by decide)
  obtain ⟨k, hk⟩ := putcharWritten_glyph ((foldl_smouse t before).trans hmode) hnl hbs (writtenBy t before)
  have hwritten : writtenBy t (before ++ [c]) k = some c := by
    rw [writtenBy]
    rw [writtenFrom_append]
    exact hk
  have hcell := hintact _ hprefix k c hwritten
  have hholding := @holding_writtenBy t hmode (before ++ [c]) (fun _ => True) trivial fun _ _ => trivial
  rw [hholding.cell k c hwritten, terminalWrite_color] at hcell
  exact (cellIs_cell_iff.mp hcell).elim hlarge hcolor

/-- **Which strings keep to the current colour**: those of seven-bit characters.
The others do under colour `0xFF` only, or where nothing is printed.
`terminal_writestring` writes the bytes of its string. -/
theorem colourIntact_iff (t : Terminal) :
    (∀ data, ColourIntact t data ↔
      t.smouseMode = true ∨ t.color = 0xFF ∨ ∀ c ∈ data, c < 0x80) ∧
    ∀ s : CString, terminalWritestring t s = terminalWrite t s.bytes := by
  refine ⟨fun data => ?_, fun s => rfl⟩
  cases hmode : t.smouseMode with
  | true =>
    refine iff_of_true (fun done _ k c hk => ?_) (.inl rfl)
    rw [writtenBy] at hk
    rw [writtenFrom_smouse hmode] at hk
    cases hk
  | false =>
    rw [or_iff_right Bool.false_ne_true]
    constructor
    · intro hintact
      by_cases hcolor : t.color = 0xFF
      · exact .inl hcolor
      · exact .inr (hintact.sevenBit hmode hcolor)
    -- every written byte is one of the text, or the blank of a scroll
    · intro h done hdone k c hk
      have hholding := holding_writtenBy hmode (fun c => c < 0x80 ∨ t.color = 0xFF) (.inl (by decide))
        fun c hc => h.elim .inr fun hseven => .inl (hseven c (hdone.subset hc))
      rw [hholding.cell k c hk, terminalWrite_color]
      exact cellIs_cell_iff.mpr (hholding.mem k c hk)

/-- F10 at the first prompt: the code that comes of it is echoed in `0xFF`. -/
theorem not_colourIntact_boot : ¬ ColourIntact (terminalInitialize programImage.term) [0xFA] := by
  intro hintact
  have hseven := hintact.sevenBit (by decide) (by decide) 0xFA List.mem_cons_self
  exact absurd hseven (by decide)

end Srunix
