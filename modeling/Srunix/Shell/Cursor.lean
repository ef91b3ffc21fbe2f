import Srunix.Library.TimeShare
import Srunix.Bkfs.Boot
import Srunix.Shell.Tty

/-!
# The cursor stays on the screen

`terminal_putchar` writes at `terminal_row * SCREEN_WIDTH + terminal_column`
without a check, and scrolls on `==`, not `>=`. `CursorInv` is what makes both
right: the live cursor and the nine saved ones are on the screen.

`termOpIndices` lists every index an operation uses on `terminal_buffer`, loop
by loop; `login_screen`, which `switch_tty` calls, is a list of the same
operations (`loginScreen_eq`).
-/

namespace Srunix

open Library

/-! ## The indices used -/

/-- `y * SCREEN_WIDTH + x` along row `y`. -/
def rowIndices (y : Nat) : List Nat := (List.range screenWidth).map fun x => y * screenWidth + x

/-- The double loop over the screen, in `terminal_clear`, `save_tty_state` and
`restore_tty_state`. -/
def screenIndices : List Nat := (List.range screenHeight).flatMap rowIndices

/-- `terminal_scroll`: rows `y - 1` written and `y` read for `y` from 1, then the
last row written. -/
def scrollIndices : List Nat :=
  ((List.range' 1 (screenHeight - 1)).flatMap fun y => rowIndices (y - 1) ++ rowIndices y)
    ++ rowIndices (screenHeight - 1)

/-- `if (++terminal_row == SCREEN_HEIGHT) terminal_scroll();` -/
def nextRowIndices (t : Terminal) : List Nat :=
  if t.row + 1 = screenHeight then scrollIndices else []

/-- The cells `terminal_putchar` stores to. -/
def putcharIndices (t : Terminal) (c : UInt8) : List Nat :=
  if t.smouseMode then []
  else if c = 0x0A then nextRowIndices t
  else if c = 0x08 then
    if t.column > 0 then [t.row * screenWidth + (t.column - 1)]
    else if t.row > 0 then [(t.row - 1) * screenWidth + (screenWidth - 1)]
    else []
  else
    (t.row * screenWidth + t.column) ::
      (if t.column + 1 = screenWidth then nextRowIndices t else [])

/-- The indices of an operation that switches nowhere. -/
def plainIndices (s : KernelState) : TermOp → List Nat
  | .putchar c => putcharIndices s.term c
  | .clear => screenIndices
  | .setcolor .. | .columnReset | .chdir .. | .switchTty .. => []

/-- The indices of operations done one after the other. -/
def runIndices (indices : KernelState → TermOp → List Nat) : KernelState → List TermOp → List Nat
  | _, [] => []
  | s, op :: ops => indices s op ++ runIndices indices (execTermOp s op) ops

/-- `terminal_writestring(data);` -/
def writeOps (data : CString) : List TermOp := data.bytes.map .putchar

/-- What `login_screen` does before the first key. -/
def loginOps (currentTty : Nat) : List TermOp :=
  [.setcolor colorGray colorBlack, .clear] ++ writeOps "\n\n" ++ writeOps "Srunix86 tty"
    ++ writeOps (decimal (currentTty + 1)) ++ writeOps "\n" ++ [.setcolor colorGray colorBlack]
    ++ writeOps "OpenSource Operation System.\nPlease login: root, password 1\n\n"
    ++ writeOps "login: "

/-- Out, in, and the login screen if it comes to that. -/
def switchIndices (s : KernelState) (ttyNum : Int) : List Nat :=
  if s.term.smouseMode then []
  else if ttyNum < 0 ∨ ttyNum ≥ maxTtys then []
  else
    let s := enterTty s ttyNum.toNat
    screenIndices ++ screenIndices ++
      (if (s.term.ttys s.term.currentTty).loggedIn then []
      else runIndices plainIndices s (loginOps s.term.currentTty))

/-- The cells and records an operation uses. -/
def termOpIndices (s : KernelState) : TermOp → List Nat
  | .switchTty ttyNum => switchIndices s ttyNum
  | op => plainIndices s op

/-! ## `login_screen` as operations -/

/-- A string is its characters, in mouse mode too. -/
theorem terminalWritestring_eq (t : Terminal) (data : CString) :
    terminalWritestring t data = data.bytes.foldl terminalPutchar t := by
  rw [terminalWritestring]
  by_cases hmode : t.smouseMode = true
  · rw [if_pos hmode]
    -- in selection mode no byte does anything
    have hskip : ∀ l : List UInt8, l.foldl terminalPutchar t = t := by
      intro l
      induction l with
      | nil => rfl
      | cons c l ih =>
        have hc : terminalPutchar t c = t := by
          rw [terminalPutchar]
          rw [if_pos hmode]
        rw [List.foldl_cons, hc, ih]
    rw [hskip]
  · rw [if_neg hmode]

theorem runOps_writeOps (s : KernelState) (data : CString) :
    runOps execTermOp s (writeOps data) = s.writestring data := by
  have hrun : ∀ (l : List UInt8) (s : KernelState),
      runOps execTermOp s (l.map .putchar) = { s with term := l.foldl terminalPutchar s.term } := by
    intro l
    induction l with
    | nil => exact fun s => rfl
    | cons c l ih =>
      intro s
      rw [List.map_cons, runOps_cons, ih]
      rfl
  show runOps execTermOp s (data.bytes.map .putchar)
    = { s with term := terminalWritestring s.term data }
  rw [hrun, terminalWritestring_eq]

/-- `login_screen` is a list of operations. -/
theorem loginScreen_eq (s : KernelState) :
    loginScreen s = runOps execTermOp s (loginOps s.term.currentTty) := by
  have hcur : ∀ (s : KernelState) (data : CString),
      (s.writestring data).term.currentTty = s.term.currentTty :=
    fun s data => ((Prints.refl s).writestring data).term.currentTty
  unfold loginOps
  simp only [runOps_append, runOps_writeOps, runOps_cons, runOps_nil]
  unfold loginScreen
  dsimp only
  rw [hcur, hcur]
  rfl

/-! ## The invariant -/

/-- A position on the screen. -/
abbrev OnScreen (row column : Nat) : Prop := row < screenHeight ∧ column < screenWidth

/-- The cursor is on the screen, and so are the saved ones. -/
structure CursorInv (t : Terminal) : Prop where
  live : OnScreen t.row t.column
  saved : ∀ i < maxTtys, OnScreen (t.ttys i).row (t.ttys i).column

/-- A cursor on the screen is the index of a cell. -/
theorem index_lt {row column : Nat} (h : OnScreen row column) :
    row * screenWidth + column < screenCells := by
  obtain ⟨hrow, hcol⟩ := h
  simp only [screenCells, screenHeight, screenWidth] at hrow hcol ⊢
  omega

theorem noIndices_lt : ∀ k ∈ ([] : List Nat), k < screenCells :=
  fun _ hk => absurd hk List.not_mem_nil

/-- Indices used one after the other. -/
theorem appendIndices_lt {l l' : List Nat} (h : ∀ k ∈ l, k < screenCells)
    (h' : ∀ k ∈ l', k < screenCells) : ∀ k ∈ l ++ l', k < screenCells :=
  fun k hk => (List.mem_append.mp hk).elim (h k) (h' k)

theorem rowIndices_lt {y : Nat} (hy : y < screenHeight) : ∀ k ∈ rowIndices y, k < screenCells := by
  intro k hk
  obtain ⟨x, hx, rfl⟩ := List.mem_map.mp hk
  exact index_lt ⟨hy, List.mem_range.mp hx⟩

theorem screenIndices_lt : ∀ k ∈ screenIndices, k < screenCells := by
  intro k hk
  obtain ⟨y, hy, hk⟩ := List.mem_flatMap.mp hk
  exact rowIndices_lt (List.mem_range.mp hy) k hk

theorem scrollIndices_lt : ∀ k ∈ scrollIndices, k < screenCells := by
  refine appendIndices_lt ?_ (rowIndices_lt (by decide))
  intro k hk
  obtain ⟨y, hy, hk⟩ := List.mem_flatMap.mp hk
  have hy : 1 ≤ y ∧ y < 1 + (screenHeight - 1) := List.mem_range'_1.mp hy
  simp only [screenHeight] at hy
  exact appendIndices_lt (rowIndices_lt (by simp only [screenHeight]; omega))
    (rowIndices_lt (by simp only [screenHeight]; omega)) k hk

theorem nextRowIndices_lt (t : Terminal) : ∀ k ∈ nextRowIndices t, k < screenCells := by
  rw [nextRowIndices]
  split
  · exact scrollIndices_lt
  · exact noIndices_lt

namespace CursorInv

variable {t : Terminal}

theorem moved (h : CursorInv t) {row column : Nat} (hpos : OnScreen row column) :
    CursorInv { t with row := row, column := column } := ⟨hpos, h.saved⟩

theorem nextRow (h : CursorInv t) : CursorInv (Srunix.nextRow t) := by
  rw [Srunix.nextRow]
  by_cases hfull : t.row + 1 = screenHeight
  · rw [if_pos hfull]
    refine ⟨?_, h.saved⟩
    show OnScreen (screenHeight - 1) 0
    decide
  · rw [if_neg hfull]
    refine ⟨⟨?_, h.live.2⟩, h.saved⟩
    show t.row + 1 < screenHeight
    have := h.live.1
    omega

theorem putCell (h : CursorInv t) (c : UInt8) : CursorInv (Srunix.putCell t c) := ⟨h.live, h.saved⟩

/-- The three places a byte can leave the cursor: the next row, one to the left,
one to the right. -/
theorem putchar (h : CursorInv t) (c : UInt8) : CursorInv (terminalPutchar t c) := by
  obtain ⟨hrow, hcol⟩ := h.live
  by_cases hmode : t.smouseMode = true
  · rw [terminalPutchar]
    rw [if_pos hmode]
    exact h
  have hmode : t.smouseMode = false := by simpa using hmode
  have hzero : OnScreen t.row 0 := ⟨hrow, by decide⟩
  by_cases hnl : c = 0x0A
  · rw [hnl, putchar_newline hmode]
    exact (h.moved hzero).nextRow
  by_cases hbs : c = 0x08
  · rw [hbs, putchar_backspace hmode]
    split
    · have hback : OnScreen t.row (t.column - 1) := ⟨hrow, by omega⟩
      exact (h.moved hback).putCell 0x20
    split
    · have hback : OnScreen (t.row - 1) (screenWidth - 1) := ⟨by omega, by decide⟩
      exact (h.moved hback).putCell 0x20
    · exact h
  · rw [putchar_glyph hmode hnl hbs]
    split
    · exact ((h.putCell c).moved hzero).nextRow
    · have hnext : OnScreen t.row (t.column + 1) := ⟨hrow, by omega⟩
      exact (h.putCell c).moved hnext

/-- What a character uses is on the screen. -/
theorem putcharIndices (h : CursorInv t) (c : UInt8) :
    ∀ k ∈ Srunix.putcharIndices t c, k < screenCells := by
  obtain ⟨hrow, hcol⟩ := h.live
  have hone : ∀ {row column : Nat}, OnScreen row column →
      ∀ k ∈ [row * screenWidth + column], k < screenCells := by
    intro row column hpos k hk
    rw [List.mem_singleton.mp hk]
    exact index_lt hpos
  rw [Srunix.putcharIndices]
  split
  · exact noIndices_lt
  split
  · exact nextRowIndices_lt t
  split
  · split
    · exact hone ⟨hrow, by omega⟩
    split
    · exact hone ⟨by omega, by decide⟩
    · exact noIndices_lt
  · have hwrap : ∀ k ∈ (if t.column + 1 = screenWidth then nextRowIndices t else []),
        k < screenCells := by
      split
      · exact nextRowIndices_lt t
      · exact noIndices_lt
    exact appendIndices_lt (hone h.live) hwrap

theorem setcolor (h : CursorInv t) (fg bg : UInt8) : CursorInv (terminalSetcolor t fg bg) := by
  refine ⟨h.live, ?_⟩
  -- the colour goes to the saved record too, the position does not
  have hcur : t.currentTty < maxTtys →
      OnScreen (t.ttys t.currentTty).row (t.ttys t.currentTty).column := h.saved _
  exact forall_update_tty (P := fun tty => OnScreen tty.row tty.column) hcur h.saved

theorem clear (h : CursorInv t) : CursorInv (terminalClear t) := by
  refine ⟨?_, h.saved⟩
  show OnScreen 0 0
  decide

end CursorInv

/-- A terminal comes back with the cursor it was left with. -/
theorem CursorInv.enterTty {s : KernelState} (h : CursorInv s.term) {n : Nat} (hn : n < maxTtys) :
    CursorInv (Srunix.enterTty s n).term := by
  have hsaved : ∀ i < maxTtys, OnScreen ((saveTtyState s).term.ttys i).row
      ((saveTtyState s).term.ttys i).column :=
    forall_update_tty (P := fun tty => OnScreen tty.row tty.column) (fun _ => h.live) h.saved
  exact ⟨hsaved n hn, hsaved⟩

/-- The operations other than a switch. -/
theorem CursorInv.plain {s : KernelState} (h : CursorInv s.term) {op : TermOp}
    (hop : ∀ n, op ≠ .switchTty n) :
    CursorInv (execTermOp s op).term ∧ ∀ k ∈ plainIndices s op, k < screenCells := by
  cases op with
  | putchar c => exact ⟨h.putchar c, h.putcharIndices c⟩
  | setcolor fg bg => exact ⟨h.setcolor fg bg, noIndices_lt⟩
  | clear => exact ⟨h.clear, screenIndices_lt⟩
  | columnReset =>
    have hzero : OnScreen s.term.row 0 := ⟨h.live.1, by decide⟩
    exact ⟨h.moved hzero, noIndices_lt⟩
  | chdir n => exact ⟨h, noIndices_lt⟩
  | switchTty n => exact absurd rfl (hop n)

theorem not_switch_of_mem_loginOps {n : Nat} {op : TermOp} (hop : op ∈ loginOps n) :
    ∀ k, op ≠ .switchTty k := by
  have hwrite : ∀ data, op ∈ writeOps data → ∀ k, op ≠ .switchTty k := by
    intro data hmem k
    obtain ⟨c, -, rfl⟩ := List.mem_map.mp hmem
    exact nofun
  rw [loginOps] at hop
  simp only [List.mem_append, List.mem_cons, List.not_mem_nil, or_false] at hop
  rcases hop with (((((((rfl | rfl) | h) | h) | h) | h) | rfl) | h) | h
  · exact nofun
  · exact nofun
  · exact hwrite _ h
  · exact hwrite _ h
  · exact hwrite _ h
  · exact hwrite _ h
  · exact nofun
  · exact hwrite _ h
  · exact hwrite _ h

/-- A run keeps the invariant and uses indices of the screen only, if each step
does. -/
theorem cursorInv_runOps (indices : KernelState → TermOp → List Nat) (ok : TermOp → Prop)
    (hstep : ∀ s op, CursorInv s.term → ok op →
      CursorInv (execTermOp s op).term ∧ ∀ k ∈ indices s op, k < screenCells)
    {s : KernelState} (h : CursorInv s.term) {ops : List TermOp} (hops : ∀ op ∈ ops, ok op) :
    CursorInv (runOps execTermOp s ops).term ∧ ∀ k ∈ runIndices indices s ops, k < screenCells := by
  induction ops generalizing s with
  | nil => exact ⟨h, noIndices_lt⟩
  | cons op ops ih =>
    obtain ⟨hone, hused⟩ := hstep s op h (hops op List.mem_cons_self)
    obtain ⟨hrest, hused'⟩ := ih hone fun op' hop' => hops op' (List.mem_cons_of_mem _ hop')
    exact ⟨hrest, appendIndices_lt hused hused'⟩

/-- The step lemma of `CursorInv`, with the indices the step uses. -/
theorem CursorInv.step {s : KernelState} (h : CursorInv s.term) (op : TermOp) :
    CursorInv (execTermOp s op).term ∧ ∀ k ∈ termOpIndices s op, k < screenCells := by
  cases op with
  | putchar | setcolor | clear | columnReset | chdir => exact h.plain nofun
  | switchTty n =>
    show CursorInv (switchTty s n).term ∧ ∀ k ∈ switchIndices s n, k < screenCells
    rw [switchTty, switchIndices]
    by_cases hmode : s.term.smouseMode = true
    · rw [if_pos hmode, if_pos hmode]
      exact ⟨h, noIndices_lt⟩
    rw [if_neg hmode, if_neg hmode]
    by_cases hout : n < 0 ∨ n ≥ maxTtys
    · rw [if_pos hout, if_pos hout]
      exact ⟨h, noIndices_lt⟩
    rw [if_neg hout, if_neg hout]
    have henter := h.enterTty (n := n.toNat) (by omega)
    -- out and in, whatever comes after
    have hmoves : ∀ k ∈ screenIndices ++ screenIndices, k < screenCells :=
      appendIndices_lt screenIndices_lt screenIndices_lt
    dsimp only
    by_cases hin : ((Srunix.enterTty s n.toNat).term.ttys
        (Srunix.enterTty s n.toNat).term.currentTty).loggedIn = true
    · rw [if_pos hin, if_pos hin]
      exact ⟨henter, appendIndices_lt hmoves noIndices_lt⟩
    · rw [if_neg hin, if_neg hin, loginScreen_eq]
      obtain ⟨hlogin, hused⟩ := cursorInv_runOps plainIndices (fun op => ∀ k, op ≠ .switchTty k)
        (fun s op hinv hop => hinv.plain hop) henter fun op hop => not_switch_of_mem_loginOps hop
      exact ⟨hlogin, appendIndices_lt hmoves hused⟩

/-- `terminal_initialize` puts every cursor at the top left, whatever was there. -/
theorem cursorInv_terminalInitialize (t : Terminal) : CursorInv (terminalInitialize t) := by
  have hzero : OnScreen 0 0 := by decide
  refine ⟨hzero, fun i hi => ?_⟩
  show OnScreen (if i < maxTtys then _ else _ : TTY).row (if i < maxTtys then _ else _ : TTY).column
  rw [if_pos hi]
  exact hzero

/-- **The cursor after any operations**: on the screen, live and saved, and no
index outside the screen was used on the way. -/
theorem onScreen_run (s : KernelState) (ops : List TermOp) :
    let s₀ : KernelState := { s with term := terminalInitialize s.term }
    let s' := runOps execTermOp s₀ ops
    OnScreen s'.term.row s'.term.column ∧
      (∀ i < maxTtys, OnScreen (s'.term.ttys i).row (s'.term.ttys i).column) ∧
      ∀ k ∈ runIndices termOpIndices s₀ ops, k < screenCells := by
  intro s₀ s'
  have h₀ : CursorInv s₀.term := cursorInv_terminalInitialize s.term
  have hall : ∀ op ∈ ops, True := fun _ _ => trivial
  obtain ⟨hinv, hused⟩ := cursorInv_runOps termOpIndices (fun _ => True)
    (fun s op h _ => h.step op) h₀ hall
  exact ⟨hinv.live, hinv.saved, hused⟩

end Srunix
