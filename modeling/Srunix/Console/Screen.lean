import Srunix.Shell.Isolation
import Srunix.Shell.Cursor
import Srunix.Console.Line

/-!
# The line and the screen

`shell` keeps the line in `cmd` and, by other code, on the screen. `Shows` says
that they agree: behind the prompt stand the characters of the line, blanks
behind them, and the cursor between the two. Cells are counted in reading order,
and a terminal that has scrolled `k` rows shows cell `i` at `i - 80 k`.

Appending and erasing keep `Shows`, across rows and through scrolling. A history
recall does not: it sets the column to 0 and writes the entry over the prompt.
-/

namespace Srunix

open Library

/-- `terminal_row * SCREEN_WIDTH + terminal_column`. -/
def cursorIndex (t : Terminal) : Nat := t.row * screenWidth + t.column

/-- The character of a cell. -/
def glyph (w : UInt16) : UInt8 := w.toUInt8

/-- The character of a cell can be read back. -/
@[simp] theorem glyph_cell (c color : UInt8) : glyph (cell c color) = c := by
  rw [glyph, cell]
  apply UInt8.eq_of_toBitVec_eq
  split
  · ext i hi
    simp
  · ext i hi
    simp

/-- From the cursor on the screen is blank. -/
def BlankAhead (t : Terminal) : Prop :=
  ∀ i, cursorIndex t ≤ i → i < screenCells → glyph (t.buffer i) = 0x20

/-- `terminal_column = 0;` and the entry. -/
def echoRecall (t : Terminal) (cmd : CString) : Terminal :=
  cmd.bytes.foldl terminalPutchar { t with column := 0 }

/-- What the inner loop of `shell` does to the terminal, character by
character. -/
def echoChar (t : Terminal) (s : Line × History) (c : KeyChar) : Terminal :=
  if c.val = 0x0A then terminalPutchar t 0x0A
  else if c.val = 0x08 then if s.1.pos > 0 then terminalPutchar t 0x08 else t
  else if c.val = 0x11 then
    if s.2.pos > 0 then echoRecall t (s.2.entry (s.2.pos - 1)) else t
  else if c.val = 0x12 then
    if s.2.pos + 1 < s.2.count then echoRecall t (s.2.entry (s.2.pos + 1)) else t
  else if c.val = 0x13 ∨ c.val = 0x14 then t
  else terminalPutchar t c.val

/-- Terminal, line and history in the inner loop. -/
structure Prompt where
  term : Terminal
  line : Line
  history : History

/-- One character other than newline. -/
def Prompt.step (p : Prompt) (c : KeyChar) : Prompt :=
  let s := shellStep (p.line, p.history) c
  ⟨echoChar p.term (p.line, p.history) c, s.1, s.2⟩

/-- The screen shows `text` behind the prompt that ended at the cursor of `t₀`,
`k` rows scrolled since. -/
structure Shows (t₀ t : Terminal) (text : List UInt8) (k : Nat) : Prop where
  mode : t.smouseMode = false
  onScreen : OnScreen t.row t.column
  cursor : cursorIndex t + k * screenWidth = cursorIndex t₀ + text.length
  scrolled : k ≤ t₀.row
  intact : ∀ i < cursorIndex t₀, k * screenWidth ≤ i →
    t.buffer (i - k * screenWidth) = t₀.buffer i
  text : ∀ i (hi : i < text.length),
    glyph (t.buffer (cursorIndex t₀ + i - k * screenWidth)) = text[i]
  blank : BlankAhead t

/-! ## What a character does to the cells -/

/-- A character was written at the cursor and `d` rows scrolled off. -/
structure Typed (t t' : Terminal) (c : UInt8) (d : Nat) : Prop where
  mode : t'.smouseMode = false
  onScreen : OnScreen t'.row t'.column
  cursor : cursorIndex t' + d * screenWidth = cursorIndex t + 1
  full : d = 0 ∨ d = 1 ∧ cursorIndex t + 1 = screenCells
  cells : ∀ i, i + d * screenWidth < screenCells → t'.buffer i =
    if i + d * screenWidth = cursorIndex t then cell c t.color
    else t.buffer (i + d * screenWidth)
  fresh : ∀ i < screenCells, screenCells ≤ i + d * screenWidth → glyph (t'.buffer i) = 0x20

theorem putCell_buffer (t : Terminal) (c : UInt8) (i : Nat) :
    (putCell t c).buffer i = if i = cursorIndex t then cell c t.color else t.buffer i := by
  show Function.update t.buffer (cursorIndex t) _ i = _
  rw [Function.update_apply]

section Ends

variable {t u : Terminal} {c : UInt8} (hmode : u.smouseMode = false)
  (hbuffer : u.buffer = (putCell t c).buffer)

include hmode hbuffer

/-- Inside a row, or at the end of a row that is not the last. -/
theorem typed_here (hon : OnScreen u.row u.column) (hcursor : cursorIndex u = cursorIndex t + 1) :
    Typed t u c 0 where
  mode := hmode
  onScreen := hon
  cursor := by rw [Nat.zero_mul, hcursor, Nat.add_zero]
  full := .inl rfl
  cells := by
    intro i _
    rw [hbuffer, putCell_buffer, Nat.zero_mul, Nat.add_zero]
  fresh := by
    intro i hi hlast
    omega

/-- At the end of the screen. -/
theorem typed_scroll (hend : cursorIndex t + 1 = screenCells) :
    Typed t (terminalScroll u) c 1 where
  mode := hmode
  onScreen := ⟨Nat.lt_succ_self _, Nat.succ_pos _⟩
  cursor := by
    have hcursor : cursorIndex (terminalScroll u) = (screenHeight - 1) * screenWidth + 0 := rfl
    rw [hend, hcursor]
    simp only [screenCells, screenHeight, screenWidth]
  full := .inr ⟨rfl, hend⟩
  cells := by
    intro i hi
    -- the cell was one row further down
    have hrow : i < (screenHeight - 1) * screenWidth := by
      simp only [screenCells, screenHeight, screenWidth] at hi ⊢
      omega
    have hscroll : (terminalScroll u).buffer i = u.buffer (i + screenWidth) := if_pos hrow
    rw [hscroll, hbuffer, putCell_buffer, Nat.one_mul]
  fresh := by
    intro i hi hlast
    have hrow : ¬ i < (screenHeight - 1) * screenWidth := by
      simp only [screenCells, screenHeight, screenWidth] at hlast ⊢
      omega
    have hscroll : (terminalScroll u).buffer i = cell 0x20 u.color :=
      (if_neg hrow).trans (if_pos hi)
    rw [hscroll, glyph_cell]

end Ends

/-- The three ends of a glyph: inside the row, at its end, at the end of the
screen. -/
theorem typed_putchar {t : Terminal} (hmode : t.smouseMode = false)
    (hon : OnScreen t.row t.column) {c : UInt8} (hnl : c ≠ 0x0A) (hbs : c ≠ 0x08) :
    ∃ d, Typed t (terminalPutchar t c) c d := by
  obtain ⟨hrow, hcol⟩ := hon
  rw [putchar_glyph hmode hnl hbs]
  by_cases hend : t.column + 1 = screenWidth
  · rw [if_pos hend, nextRow]
    have hrow' : ({ putCell t c with column := 0 } : Terminal).row = t.row := rfl
    rw [hrow']
    by_cases hfull : t.row + 1 = screenHeight
    · rw [if_pos hfull]
      refine ⟨1, typed_scroll hmode rfl ?_⟩
      simp only [cursorIndex, screenCells, screenHeight, screenWidth] at hfull hend ⊢
      omega
    · rw [if_neg hfull]
      refine ⟨0, typed_here hmode rfl ⟨by show t.row + 1 < screenHeight; omega, Nat.succ_pos _⟩ ?_⟩
      show (t.row + 1) * screenWidth + 0 = t.row * screenWidth + t.column + 1
      simp only [screenWidth] at hend ⊢
      omega
  · rw [if_neg hend]
    exact ⟨0, typed_here hmode rfl ⟨hrow, by show t.column + 1 < screenWidth; omega⟩ rfl⟩

namespace Typed

variable {t t' : Terminal} {c : UInt8} {d : Nat}

/-- The screen did not scroll past the text. -/
theorem le_cursor (h : Typed t t' c d) : d * screenWidth ≤ cursorIndex t := by
  rcases h.full with rfl | ⟨rfl, hend⟩
  · rw [Nat.zero_mul]
    exact Nat.zero_le _
  · simp only [screenCells, screenHeight, screenWidth] at hend ⊢
    omega

/-- The cells before the cursor are where they were, `d` rows up. -/
theorem kept (h : Typed t t' c d) (hon : OnScreen t.row t.column) {i : Nat}
    (hi : i < cursorIndex t) (hle : d * screenWidth ≤ i) :
    t'.buffer (i - d * screenWidth) = t.buffer i := by
  have hcell := h.cells (i - d * screenWidth)
  rw [Nat.sub_add_cancel hle] at hcell
  rw [hcell (Nat.lt_trans hi (index_lt hon)), if_neg (Nat.ne_of_lt hi)]

/-- The character stands where the cursor was, less the rows that were scrolled. -/
theorem written (h : Typed t t' c d) (hon : OnScreen t.row t.column) :
    glyph (t'.buffer (cursorIndex t - d * screenWidth)) = c := by
  have hcell := h.cells (cursorIndex t - d * screenWidth)
  rw [Nat.sub_add_cancel h.le_cursor] at hcell
  rw [hcell (index_lt hon), if_pos rfl, glyph_cell]

theorem blankAhead (h : Typed t t' c d) (hblank : BlankAhead t) : BlankAhead t' := by
  intro i hi hlt
  have hcursor := h.cursor
  by_cases hfresh : screenCells ≤ i + d * screenWidth
  · exact h.fresh i hlt hfresh
  · rw [h.cells i (by omega), if_neg (by omega)]
    exact hblank _ (by omega) (by omega)

end Typed

/-- A backspace steps back, over the end of a row if need be, and blanks the
cell. -/
theorem erased_putchar {t : Terminal} (hmode : t.smouseMode = false)
    (hon : OnScreen t.row t.column) (hpos : 0 < cursorIndex t) :
    let t' := terminalPutchar t 0x08
    t'.smouseMode = false ∧ OnScreen t'.row t'.column ∧ cursorIndex t' + 1 = cursorIndex t ∧
      ∀ i, t'.buffer i = if i = cursorIndex t' then cell 0x20 t.color else t.buffer i := by
  obtain ⟨hrow, hcol⟩ := hon
  dsimp only
  rw [putchar_backspace hmode]
  by_cases hcolumn : t.column > 0
  · rw [if_pos hcolumn]
    refine ⟨hmode, ⟨hrow, ?_⟩, ?_, fun i => putCell_buffer _ _ i⟩
    · show t.column - 1 < screenWidth
      omega
    · show t.row * screenWidth + (t.column - 1) + 1 = t.row * screenWidth + t.column
      omega
  -- in column 0 the cursor goes to the end of the row above
  · have hup : t.row > 0 := by
      simp only [cursorIndex, screenWidth] at hpos
      omega
    rw [if_neg hcolumn, if_pos hup]
    refine ⟨hmode, ⟨?_, Nat.lt_succ_self _⟩, ?_, fun i => putCell_buffer _ _ i⟩
    · show t.row - 1 < screenHeight
      omega
    · show (t.row - 1) * screenWidth + (screenWidth - 1) + 1 = t.row * screenWidth + t.column
      simp only [screenWidth]
      omega

namespace Shows

variable {t₀ t : Terminal} {text : List UInt8} {k : Nat}

theorem start (hmode : t.smouseMode = false) (hon : OnScreen t.row t.column)
    (hblank : BlankAhead t) : Shows t t [] 0 where
  mode := hmode
  onScreen := hon
  cursor := by simp
  scrolled := Nat.zero_le _
  intact := fun i _ _ => by simp
  text := nofun
  blank := hblank

/-- One character more, on the screen as in the text. -/
theorem type (h : Shows t₀ t text k) (hon₀ : OnScreen t₀.row t₀.column)
    (hshort : text.length < maxCmdLen) {c : UInt8} (hnl : c ≠ 0x0A) (hbs : c ≠ 0x08) :
    ∃ k', Shows t₀ (terminalPutchar t c) (text ++ [c]) k' := by
  obtain ⟨d, htyped⟩ := typed_putchar h.mode h.onScreen hnl hbs
  have hcursor := h.cursor
  have hnext := htyped.cursor
  have hrows : (k + d) * screenWidth = k * screenWidth + d * screenWidth := Nat.add_mul ..
  have hindex₀ : cursorIndex t₀ = t₀.row * screenWidth + t₀.column := rfl
  have hcol₀ := hon₀.2
  have hscrolled := h.scrolled
  -- what scrolls off lies before the line: the screen holds more than a line
  have hroom : k * screenWidth + d * screenWidth ≤ cursorIndex t₀ := by
    have hfull := htyped.full
    simp only [screenCells, screenHeight, screenWidth, maxCmdLen] at *
    omega
  refine ⟨k + d, htyped.mode, htyped.onScreen, ?_, ?_, ?_, ?_, htyped.blankAhead h.blank⟩
  · rw [hrows, List.length_append, List.length_singleton]
    omega
  · simp only [screenWidth] at hroom hindex₀ hcol₀
    omega
  · intro i hi hle
    rw [hrows] at hle ⊢
    rw [← Nat.sub_sub, htyped.kept h.onScreen (by omega) (by omega)]
    exact h.intact i hi (by omega)
  · intro i hi
    simp only [List.length_append, List.length_singleton] at hi
    rw [hrows, ← Nat.sub_sub]
    by_cases hlast : i = text.length
    · have hhere : cursorIndex t₀ + i - k * screenWidth = cursorIndex t := by omega
      rw [hhere, htyped.written h.onScreen]
      simp [hlast]
    · rw [htyped.kept h.onScreen (by omega) (by omega), h.text i (by omega),
        List.getElem_append_left]

/-- One character less, on the screen as in the text. -/
theorem erase (h : Shows t₀ t text k) (hne : text ≠ []) :
    Shows t₀ (terminalPutchar t 0x08) text.dropLast k := by
  have hlen : 0 < text.length := List.length_pos_iff.mpr hne
  have hcursor := h.cursor
  have hscrolled := h.scrolled
  have hindex₀ : cursorIndex t₀ = t₀.row * screenWidth + t₀.column := rfl
  simp only [screenWidth] at hcursor hindex₀
  obtain ⟨hmode, hon, hback, hcells⟩ := erased_putchar h.mode h.onScreen (by omega)
  refine ⟨hmode, hon, ?_, hscrolled, ?_, ?_, ?_⟩
  · simp only [screenWidth, List.length_dropLast]
    omega
  · intro i hi hle
    simp only [screenWidth] at hle
    rw [hcells, if_neg (by simp only [screenWidth]; omega)]
    exact h.intact i hi hle
  · intro i hi
    simp only [List.length_dropLast] at hi
    rw [hcells, if_neg (by simp only [screenWidth]; omega), h.text i (by omega),
      List.getElem_dropLast]
  -- the erased cell is blank, and those behind it were
  · intro i hi hlt
    rw [hcells]
    by_cases hhere : i = cursorIndex (terminalPutchar t 0x08)
    · rw [if_pos hhere, glyph_cell]
    · rw [if_neg hhere]
      exact h.blank i (by omega) hlt

end Shows

/-! ## Nothing stands behind the cursor

Unless a recall has taken the cursor back, no state reached from
`terminal_initialize` has anything on the screen behind the cursor: neither the
live terminal nor a saved one. -/

/-- The cells of a buffer from index `i` on are blank. -/
def BlankFrom (buffer : Nat → UInt16) (i : Nat) : Prop :=
  ∀ j, i ≤ j → j < screenCells → glyph (buffer j) = 0x20

/-- On every screen, live or saved, the cells from the cursor on are blank. -/
structure BlankInv (t : Terminal) : Prop where
  mode : t.smouseMode = false
  cursor : CursorInv t
  live : BlankAhead t
  saved : ∀ i < maxTtys,
    BlankFrom (t.ttys i).buffer ((t.ttys i).row * screenWidth + (t.ttys i).column)

namespace BlankAhead

variable {t : Terminal}

/-- The start of a row lies before its other cells. -/
theorem nextRow (h : BlankAhead t) (hon : OnScreen t.row t.column) :
    BlankAhead (Srunix.nextRow { t with column := 0 }) := by
  obtain ⟨hrow, hcol⟩ := hon
  rw [Srunix.nextRow]
  intro i hi hlt
  by_cases hfull : t.row + 1 = screenHeight
  · rw [if_pos hfull] at hi ⊢
    have hlast : (screenHeight - 1) * screenWidth + 0 ≤ i := hi
    have hcell : (terminalScroll { t with column := 0, row := t.row + 1 }).buffer i
        = cell 0x20 t.color := (if_neg (by omega)).trans (if_pos hlt)
    exact (congrArg glyph hcell).trans (glyph_cell _ _)
  · rw [if_neg hfull] at hi ⊢
    have hnext : (t.row + 1) * screenWidth + 0 ≤ i := hi
    refine h i ?_ hlt
    simp only [cursorIndex, screenWidth] at hnext hcol ⊢
    omega

/-- Whatever is put out, the cells ahead stay blank. -/
theorem putchar (h : BlankAhead t) (hmode : t.smouseMode = false)
    (hon : OnScreen t.row t.column) (c : UInt8) : BlankAhead (terminalPutchar t c) := by
  by_cases hnl : c = 0x0A
  · rw [hnl, putchar_newline hmode]
    exact h.nextRow hon
  by_cases hbs : c = 0x08
  · rw [hbs]
    by_cases hpos : 0 < cursorIndex t
    · obtain ⟨-, -, hback, hcells⟩ := erased_putchar hmode hon hpos
      intro i hi hlt
      rw [hcells]
      by_cases hhere : i = cursorIndex (terminalPutchar t 0x08)
      · rw [if_pos hhere, glyph_cell]
      · rw [if_neg hhere]
        exact h i (by omega) hlt
    · have hcorner : ¬ t.column > 0 ∧ ¬ t.row > 0 := by
        simp only [cursorIndex, screenWidth] at hpos
        omega
      rw [putchar_backspace hmode, if_neg hcorner.1, if_neg hcorner.2]
      exact h
  · obtain ⟨d, htyped⟩ := typed_putchar hmode hon hnl hbs
    exact htyped.blankAhead h

theorem clear (t : Terminal) : BlankAhead (terminalClear t) := by
  intro i _ hlt
  exact (congrArg glyph (if_pos hlt)).trans (glyph_cell _ _)

end BlankAhead

theorem BlankFrom.copyScreen {src dst : Nat → UInt16} {i : Nat} (h : BlankFrom src i) :
    BlankFrom (Srunix.copyScreen src dst) i := by
  intro j hij hlt
  exact (congrArg glyph (if_pos hlt)).trans (h j hij hlt)

theorem not_columnReset_of_mem_loginOps {n : Nat} {op : TermOp} (hop : op ∈ loginOps n) :
    op ≠ .columnReset := by
  rintro rfl
  simp [loginOps, writeOps] at hop

namespace BlankInv

theorem terminalInitialize {t : Terminal} (hmode : t.smouseMode = false) :
    BlankInv (Srunix.terminalInitialize t) := by
  refine ⟨hmode, cursorInv_terminalInitialize t, BlankAhead.clear _, fun i hi j _ _ => ?_⟩
  show glyph ((if i < maxTtys then _ else _ : TTY).buffer j) = 0x20
  rw [if_pos hi]
  exact (by decide : glyph 0x2020 = 0x20)

theorem enterTty {s : KernelState} (h : BlankInv s.term) {n : Nat} (hn : n < maxTtys) :
    BlankInv (Srunix.enterTty s n).term := by
  have hsaved : ∀ i < maxTtys, BlankFrom ((saveTtyState s).term.ttys i).buffer
      (((saveTtyState s).term.ttys i).row * screenWidth + ((saveTtyState s).term.ttys i).column) :=
    forall_update_tty (P := fun tty => BlankFrom tty.buffer (tty.row * screenWidth + tty.column))
      (fun _ => BlankFrom.copyScreen h.live) h.saved
  exact ⟨h.mode, h.cursor.enterTty hn, (hsaved n hn).copyScreen, hsaved⟩

/-- The operations other than a switch and the column reset. -/
theorem plain {s : KernelState} (h : BlankInv s.term) {op : TermOp}
    (hop : (∀ n, op ≠ .switchTty n) ∧ op ≠ .columnReset) : BlankInv (execTermOp s op).term := by
  have hcursor : CursorInv (execTermOp s op).term := (h.cursor.step op).1
  cases op with
  | putchar c =>
    refine ⟨(terminalPutchar_smouse s.term c).trans h.mode, hcursor,
      h.live.putchar h.mode h.cursor.live c, ?_⟩
    show ∀ i < maxTtys, BlankFrom ((terminalPutchar s.term c).ttys i).buffer
      (((terminalPutchar s.term c).ttys i).row * screenWidth +
        ((terminalPutchar s.term c).ttys i).column)
    rw [terminalPutchar_ttys]
    exact h.saved
  | setcolor fg bg =>
    exact ⟨h.mode, hcursor, h.live, forall_update_tty
      (P := fun tty => BlankFrom tty.buffer (tty.row * screenWidth + tty.column))
      (h.saved s.term.currentTty) h.saved⟩
  | clear => exact ⟨h.mode, hcursor, BlankAhead.clear _, h.saved⟩
  | columnReset => exact absurd rfl hop.2
  | chdir n => exact ⟨h.mode, hcursor, h.live, h.saved⟩
  | switchTty n => exact absurd rfl (hop.1 n)

theorem plain_runOps {s : KernelState} (h : BlankInv s.term) {ops : List TermOp}
    (hops : ∀ op ∈ ops, (∀ n, op ≠ .switchTty n) ∧ op ≠ .columnReset) :
    BlankInv (runOps execTermOp s ops).term := by
  have hstep : ∀ (s : KernelState) (op : TermOp), BlankInv s.term →
      ((∀ n, op ≠ .switchTty n) ∧ op ≠ .columnReset) → BlankInv (execTermOp s op).term :=
    fun _ _ h hop => plain h hop
  exact runOps_invariant hstep h hops

/-- The step lemma of `BlankInv`. -/
theorem step {s : KernelState} (h : BlankInv s.term) {op : TermOp} (hop : op ≠ .columnReset) :
    BlankInv (execTermOp s op).term := by
  cases op with
  | putchar | setcolor | clear | columnReset | chdir => exact h.plain ⟨nofun, hop⟩
  | switchTty n =>
    show BlankInv (switchTty s n).term
    rcases switchTty_cases s n with heq | ⟨k, hk, heq | heq⟩
    · rw [heq]
      exact h
    · rw [heq]
      exact h.enterTty hk
    · rw [heq, loginScreen_eq]
      exact (h.enterTty hk).plain_runOps fun op hmem =>
        ⟨not_switch_of_mem_loginOps hmem, not_columnReset_of_mem_loginOps hmem⟩

end BlankInv

/-- Whatever is done to the terminals but a recall, the screen is blank behind
the cursor. -/
theorem blankAhead_run {s : KernelState} (hmode : s.term.smouseMode = false) {ops : List TermOp}
    (hops : ∀ op ∈ ops, op ≠ .columnReset) :
    BlankAhead (runOps execTermOp { s with term := terminalInitialize s.term } ops).term := by
  have hstep : ∀ (s : KernelState) (op : TermOp), BlankInv s.term → op ≠ .columnReset →
      BlankInv (execTermOp s op).term := fun _ _ h hop => h.step hop
  have hstart : BlankInv { s with term := terminalInitialize s.term }.term :=
    BlankInv.terminalInitialize hmode
  exact (runOps_invariant hstep hstart hops).live

/-! ## The editor keeps the screen -/

/-- What the law speaks of: keys other than newline, and a line that stays
shorter than `MAX_CMD_LEN - 1`. -/
def Prompt.Editing (p : Prompt) (c : KeyChar) : Prop :=
  c.val ≠ 0x0A ∧ ¬ p.line.Fills c

/-- The key is no recall that finds an entry. -/
def Prompt.NoRecall (p : Prompt) (c : KeyChar) : Prop :=
  (c.val = 0x11 → p.history.pos = 0) ∧ (c.val = 0x12 → p.history.count ≤ p.history.pos + 1)

instance (p : Prompt) (c : KeyChar) : Decidable (p.Editing c) :=
  inferInstanceAs (Decidable (_ ∧ _))

instance (p : Prompt) (c : KeyChar) : Decidable (p.NoRecall c) :=
  inferInstanceAs (Decidable (_ ∧ _))

/-- The screen shows the prompt of `t₀`, the line behind it and nothing more. -/
def LineShown (t₀ : Terminal) (p : Prompt) : Prop :=
  ∃ k, Shows t₀ p.term (table p.line.cmd p.line.pos) k

theorem echoChar_typed {t : Terminal} {s : Line × History} {c : KeyChar} (hc : c.val ∉ editKeys) :
    echoChar t s c = terminalPutchar t c.val := by
  obtain ⟨hnl, hbs, hup, hdown, hside⟩ := not_mem_editKeys.mp hc
  rw [echoChar]
  rw [if_neg hnl, if_neg hbs, if_neg hup, if_neg hdown, if_neg hside]

/-- A key that neither ends the line nor recalls an entry does nothing, takes
the last character back or is stored. -/
theorem Prompt.step_cases {p : Prompt} {c : KeyChar} (hediting : p.Editing c)
    (hrecall : p.NoRecall c) :
    p.step c = p ∨
      (0 < p.line.pos ∧ ∃ hlt, p.step c =
        ⟨terminalPutchar p.term 0x08, ⟨p.line.cmd, p.line.pos - 1, hlt⟩, p.history⟩) ∨
      (c.val ∉ editKeys ∧ ∃ hlt, p.step c =
        ⟨terminalPutchar p.term c.val,
          ⟨Function.update p.line.cmd p.line.pos c.val, p.line.pos + 1, hlt⟩, p.history⟩) := by
  obtain ⟨t, l, hist⟩ := p
  obtain ⟨hnl, hroom⟩ := hediting
  by_cases htyped : c.val ∉ editKeys
  · have hshort : l.pos + 1 < maxCmdLen - 1 := by
      by_contra hfull
      exact hroom ⟨htyped, hfull⟩
    refine .inr (.inr ⟨htyped, hshort, ?_⟩)
    rw [Prompt.step, shellStep]
    dsimp only
    rw [shellChar_typed htyped, echoChar_typed htyped, Line.next, dif_pos hshort]
  rw [Prompt.step, shellStep, shellChar, echoChar]
  simp only [if_neg hnl]
  by_cases hbs : c.val = 0x08
  · simp only [if_pos hbs]
    by_cases hpos : l.pos > 0
    · rw [dif_pos hpos, if_pos hpos]
      exact .inr (.inl ⟨hpos, Nat.lt_of_le_of_lt (Nat.sub_le _ _) l.pos_lt, rfl⟩)
    · rw [dif_neg hpos, if_neg hpos]
      exact .inl rfl
  simp only [if_neg hbs]
  by_cases hup : c.val = 0x11
  · have hnone : ¬ hist.pos > 0 := Nat.not_lt.mpr (Nat.le_of_eq (hrecall.1 hup))
    refine .inl ?_
    simp only [if_pos hup, dif_neg hnone, if_neg hnone]
  simp only [if_neg hup]
  by_cases hdown : c.val = 0x12
  · have hnone : ¬ hist.pos + 1 < hist.count := Nat.not_lt.mpr (hrecall.2 hdown)
    refine .inl ?_
    simp only [if_pos hdown, dif_neg hnone, if_neg hnone]
  -- the two arrows to the sides are left
  have hside : c.val = 0x13 ∨ c.val = 0x14 := by
    by_contra hside
    exact htyped (not_mem_editKeys.mpr ⟨hnl, hbs, hup, hdown, hside⟩)
  refine .inl ?_
  simp only [if_neg hdown, if_pos hside]

/-- The step lemma of `LineShown`: an edit that recalls nothing is drawn as it is
made. -/
theorem LineShown.step {t₀ : Terminal} (hon₀ : OnScreen t₀.row t₀.column) {p : Prompt}
    (h : LineShown t₀ p) {c : KeyChar} (hediting : p.Editing c) (hrecall : p.NoRecall c) :
    LineShown t₀ (p.step c) := by
  obtain ⟨k, hk⟩ := h
  have hlen : (table p.line.cmd p.line.pos).length = p.line.pos := length_table _ _
  rcases Prompt.step_cases hediting hrecall with hstep | ⟨hpos, hlt, hstep⟩ | ⟨htyped, hlt, hstep⟩
  -- nothing is drawn, the last character is erased, or one is appended
  · rw [hstep]
    exact ⟨k, hk⟩
  · rw [hstep]
    refine ⟨k, ?_⟩
    show Shows t₀ _ (table p.line.cmd (p.line.pos - 1)) k
    rw [← dropLast_table]
    refine hk.erase fun hnil => ?_
    rw [hnil] at hlen
    exact absurd hlen (Nat.ne_of_lt hpos)
  · have hbs := (not_mem_editKeys.mp htyped).2.1
    rw [hstep]
    rw [LineShown]
    dsimp only
    rw [table_update_append]
    refine hk.type hon₀ ?_ hediting.1 hbs
    rw [hlen]
    exact Nat.lt_of_lt_of_le p.line.pos_lt (Nat.sub_le _ _)

/-- **The screen shows the line**: from a prompt with nothing behind it, through
any editing that recalls no entry. -/
theorem lineShown_of_run (t₀ : Terminal) (hmode : t₀.smouseMode = false)
    (hon₀ : OnScreen t₀.row t₀.column) (hblank : BlankAhead t₀) (cmd : Nat → UInt8)
    (history : History) (chars : List KeyChar)
    (hediting : Guarded Prompt.step (fun p c => p.Editing c ∧ p.NoRecall c)
      ⟨t₀, Line.start cmd, history⟩ chars) :
    LineShown t₀ (runOps Prompt.step ⟨t₀, Line.start cmd, history⟩ chars) := by
  have hstart : LineShown t₀ ⟨t₀, Line.start cmd, history⟩ := ⟨0, Shows.start hmode hon₀ hblank⟩
  exact hediting.invariant (fun p c h hc => h.step hon₀ hc.1 hc.2) hstart

/-- A prompt in the first row. -/
def bootPrompt : Terminal := terminalWritestring (terminalInitialize programImage.term) "root:~# "

theorem blankAhead_bootPrompt : BlankAhead bootPrompt := by
  have hops : ∀ op ∈ writeOps "root:~# ", op ≠ .columnReset := by
    intro op hop
    obtain ⟨c, -, rfl⟩ := List.mem_map.mp hop
    exact nofun
  have hrun := blankAhead_run (s := programImage) rfl hops
  rwa [runOps_writeOps] at hrun

/-- `lx`, corrected to `ls`. -/
theorem lineShown_of_run_ls :
    LineShown bootPrompt (runOps Prompt.step ⟨bootPrompt, Line.start (fun _ => 0), History.boot⟩
      [⟨0x6C, by decide⟩, ⟨0x78, by decide⟩, .backspace, ⟨0x73, by decide⟩]) :=
  lineShown_of_run bootPrompt (by decide +kernel) (by decide +kernel) blankAhead_bootPrompt _ _ _
    (by decide +kernel)

/-- Recalling `ls` writes it over the prompt. -/
theorem not_lineShown_recall :
    ¬ LineShown bootPrompt (runOps Prompt.step
      ⟨bootPrompt, Line.start (fun _ => 0), addToHistory History.boot "ls" (by decide)⟩
      [⟨0x11, by decide⟩]) := by
  rintro ⟨k, hk⟩
  have hrow : bootPrompt.row = 0 := by decide +kernel
  have hzero : k = 0 := by
    have hle := hk.scrolled
    omega
  subst hzero
  have hcell := hk.intact 0 (by decide +kernel) (by decide)
  exact absurd hcell (by decide +kernel)

end Srunix
