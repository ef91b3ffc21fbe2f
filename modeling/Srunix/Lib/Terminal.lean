import Srunix.Lib.Pring

/-!
# The VGA terminal (`lib/prdio.h`)

The globals `terminal_row`, `terminal_column`, `terminal_color`, the 80×25 cells
of `terminal_buffer`, the nine saved `TTY` records, `current_tty` and
`smouse_mode`. `move_cursor` only drives the cursor register of the VGA
controller and leaves no trace here.
-/

namespace Srunix

/-- `TTY`: what `switch_tty` saves of a terminal. -/
structure TTY where
  row : Nat
  column : Nat
  color : UInt8
  buffer : Nat → UInt16
  currentInode : Nat
  loggedIn : Bool

/-- The globals of `prdio.h` that the screen is made of. -/
structure Terminal where
  row : Nat
  column : Nat
  color : UInt8
  buffer : Nat → UInt16
  ttys : Nat → TTY
  currentTty : Nat
  smouseMode : Bool

/-- The cell for byte `c`: `c` is a signed `char`, so a byte from `0x80` up is
sign-extended over the colour before the two are combined. -/
def cell (c color : UInt8) : UInt16 :=
  (if c < 0x80 then c.toUInt16 else c.toUInt16 ||| 0xFF00) ||| (color.toUInt16 <<< 8)

/-- `terminal_setcolor`, which tells the record of the current terminal at once. -/
def terminalSetcolor (t : Terminal) (fg bg : UInt8) : Terminal :=
  let color := (bg <<< 4) ||| (fg &&& 0x0F)
  { t with
    color := color
    ttys := Function.update t.ttys t.currentTty { t.ttys t.currentTty with color := color } }

/-- `terminal_clear`: blanks in the colour that is set. -/
def terminalClear (t : Terminal) : Terminal :=
  { t with
    buffer := fun k => if k < screenHeight * screenWidth then cell 0x20 t.color else t.buffer k
    row := 0
    column := 0 }

/-- `terminal_scroll`: every row moves up, and the last one is blank. -/
def terminalScroll (t : Terminal) : Terminal :=
  { t with
    buffer := fun k =>
      if k < (screenHeight - 1) * screenWidth then t.buffer (k + screenWidth)
      else if k < screenHeight * screenWidth then cell 0x20 t.color
      else t.buffer k
    row := screenHeight - 1
    column := 0 }

/-- `if (++terminal_row == SCREEN_HEIGHT) terminal_scroll();` -/
def nextRow (t : Terminal) : Terminal :=
  if t.row + 1 = screenHeight then terminalScroll { t with row := t.row + 1 }
  else { t with row := t.row + 1 }

/-- `terminal_buffer[terminal_row * SCREEN_WIDTH + terminal_column] = c | (terminal_color << 8);` -/
def putCell (t : Terminal) (c : UInt8) : Terminal :=
  { t with
    buffer := Function.update t.buffer (t.row * screenWidth + t.column) (cell c t.color) }

/-- `terminal_putchar`: newline, backspace, or a character and the move behind it. In
mouse mode nothing is drawn. -/
def terminalPutchar (t : Terminal) (c : UInt8) : Terminal :=
  if t.smouseMode then t
  else if c = 0x0A then nextRow { t with column := 0 }
  else if c = 0x08 then
    if t.column > 0 then putCell { t with column := t.column - 1 } 0x20
    else if t.row > 0 then
      putCell { t with row := t.row - 1, column := screenWidth - 1 } 0x20
    else t
  else
    let t := putCell t c
    if t.column + 1 = screenWidth then nextRow { t with column := 0 }
    else { t with column := t.column + 1 }

/-! `terminal_putchar` by the kind of byte. -/

section Putchar

variable {t : Terminal} (hmode : t.smouseMode = false)

include hmode

theorem putchar_newline : terminalPutchar t 0x0A = nextRow { t with column := 0 } := by
  rw [terminalPutchar]
  rw [if_neg (by rw [hmode]; exact Bool.false_ne_true), if_pos rfl]

theorem putchar_backspace : terminalPutchar t 0x08 =
    if t.column > 0 then putCell { t with column := t.column - 1 } 0x20
    else if t.row > 0 then putCell { t with row := t.row - 1, column := screenWidth - 1 } 0x20
    else t := by
  rw [terminalPutchar]
  rw [if_neg (by rw [hmode]; exact Bool.false_ne_true), if_neg (by decide), if_pos rfl]

theorem putchar_glyph {c : UInt8} (hnl : c ≠ 0x0A) (hbs : c ≠ 0x08) : terminalPutchar t c =
    if t.column + 1 = screenWidth then nextRow { putCell t c with column := 0 }
    else { putCell t c with column := t.column + 1 } := by
  rw [terminalPutchar]
  rw [if_neg (by rw [hmode]; exact Bool.false_ne_true), if_neg hnl, if_neg hbs]
  rfl

end Putchar

/-- `terminal_write(data, size)`, `data` being the `size` bytes. -/
def terminalWrite (t : Terminal) (data : List UInt8) : Terminal :=
  if t.smouseMode then t else data.foldl terminalPutchar t

/-- `terminal_writestring`. -/
def terminalWritestring (t : Terminal) (data : CString) : Terminal :=
  if t.smouseMode then t else data.bytes.foldl terminalPutchar t

/-! ## `terminal_printf` -/

/-- The digit loop of `int_to_str`, least significant digit first; ten rounds
are enough for a 32-bit `int`. -/
def intDigits : Nat → Int → List UInt8
  | 0, _ => []
  | fuel + 1, num =>
    if num = 0 then [] else (UInt8.ofInt (num.tmod 10 + 48)) :: intDigits fuel (num.tdiv 10)

/-- `int_to_str`: the digits, a sign, and the reversal. `-num` wraps at the
least `int`. -/
def intToStr (num : Int) : List UInt8 :=
  let digits :=
    if num < 0 then intDigits 10 ((-num).bmod (2 ^ 32)) ++ [0x2D]
    else if num = 0 then [0x30]
    else intDigits 10 num
  digits.reverse

/-- A variadic argument of `terminal_printf`. -/
inductive PrintfArg where
  | int (num : Int)
  | str (s : CString)
  | char (c : UInt8)
  | hex (num : Nat)

/-- The digit loop of the `%x` conversion: nibbles 7 down to 0. -/
def hexDigits (num : Nat) : List UInt8 :=
  (List.range 8).reverse.map fun i =>
    let nibble := num / 16 ^ i % 16
    UInt8.ofNat (if nibble < 10 then 48 + nibble else 55 + nibble)

/-- What a conversion appends to the buffer. -/
def PrintfArg.render : PrintfArg → List UInt8
  | .int num => intToStr num
  | .str s => s.bytes
  | .char c => [c]
  | .hex num => hexDigits num

/-- The loop of `terminal_printf` over the format; `%%` takes no argument and an
unknown conversion prints nothing. -/
def printfLoop : List UInt8 → List PrintfArg → List UInt8
  | 0x25 :: 0x25 :: format, args => 0x25 :: printfLoop format args
  | 0x25 :: conv :: format, arg :: args =>
    if conv = 0x64 ∨ conv = 0x73 ∨ conv = 0x63 ∨ conv = 0x78 then
      arg.render ++ printfLoop format args
    else printfLoop format (arg :: args)
  | 0x25 :: _ :: format, [] => printfLoop format []
  | c :: format, args => c :: printfLoop format args
  | [], _ => []

/-- `terminal_printf`; the text goes through a 256-byte buffer, modelled as
large enough, and is printed up to its first NUL. -/
def terminalPrintf (t : Terminal) (format : CString) (args : List PrintfArg) : Terminal :=
  if t.smouseMode then t
  else ((printfLoop format.bytes args).takeWhile (· ≠ 0)).foldl terminalPutchar t

/-- `initialize_ttys`: nine terminals in the root, with nobody logged in. -/
def initializeTtys (t : Terminal) : Terminal :=
  { t with
    ttys := fun i =>
      if i < maxTtys then
        { row := 0, column := 0, color := (colorBlack <<< 4) ||| colorWhite,
          buffer := fun _ => 0x2020, currentInode := 1, loggedIn := false }
      else t.ttys i
    currentTty := 0 }

/-- `terminal_initialize`. -/
def terminalInitialize (t : Terminal) : Terminal :=
  let t := { t with row := 0, column := 0, color := (colorBlack <<< 4) ||| colorWhite }
  initializeTtys (terminalClear (terminalSetcolor t colorWhite colorBlack))

/-! ## What printing leaves alone

The directory each terminal stands in is saved in `ttys` and is no business of
the printing functions. -/

/-- `t'` differs from `t` on the screen at most. -/
structure SameTtys (t t' : Terminal) : Prop where
  currentTty : t'.currentTty = t.currentTty
  currentInode : ∀ i, (t'.ttys i).currentInode = (t.ttys i).currentInode
  loggedIn : ∀ i, (t'.ttys i).loggedIn = (t.ttys i).loggedIn

theorem SameTtys.refl (t : Terminal) : SameTtys t t := ⟨rfl, fun _ => rfl, fun _ => rfl⟩

theorem SameTtys.trans {t₁ t₂ t₃ : Terminal} (h₁ : SameTtys t₁ t₂) (h₂ : SameTtys t₂ t₃) :
    SameTtys t₁ t₃ where
  currentTty := h₂.currentTty.trans h₁.currentTty
  currentInode i := (h₂.currentInode i).trans (h₁.currentInode i)
  loggedIn i := (h₂.loggedIn i).trans (h₁.loggedIn i)

/-- A record stored for one terminal, among records that are as they should be. -/
theorem forall_update_tty {P : TTY → Prop} {ttys : Nat → TTY} {n : Nat} {tty : TTY}
    (hnew : n < maxTtys → P tty) (h : ∀ i < maxTtys, P (ttys i)) :
    ∀ i < maxTtys, P (Function.update ttys n tty i) := by
  intro i hi
  by_cases hin : i = n
  · subst hin
    rw [Function.update_self]
    exact hnew hi
  · rw [Function.update_of_ne hin]
    exact h i hi

/-- Only the colour of a record changes. -/
theorem terminalSetcolor_same (t : Terminal) (fg bg : UInt8) :
    SameTtys t (terminalSetcolor t fg bg) := by
  have hslot : ∀ i, ((terminalSetcolor t fg bg).ttys i).currentInode = (t.ttys i).currentInode ∧
      ((terminalSetcolor t fg bg).ttys i).loggedIn = (t.ttys i).loggedIn := by
    intro i
    by_cases hi : i = t.currentTty
    · subst hi
      simp [terminalSetcolor]
    · simp [terminalSetcolor, Function.update_of_ne hi]
  exact ⟨rfl, fun i => (hslot i).1, fun i => (hslot i).2⟩

theorem SameTtys.of_eq {t t' : Terminal} (hcur : t'.currentTty = t.currentTty)
    (httys : t'.ttys = t.ttys) : SameTtys t t' :=
  ⟨hcur, fun i => by rw [httys], fun i => by rw [httys]⟩

theorem terminalClear_same (t : Terminal) : SameTtys t (terminalClear t) := .of_eq rfl rfl

/-- What a new row leaves alone. -/
theorem nextRow_frame (t : Terminal) :
    ∃ row column buffer,
      nextRow t = { t with row := row, column := column, buffer := buffer } := by
  rw [nextRow]
  split
  · exact ⟨_, _, _, rfl⟩
  · exact ⟨_, _, _, rfl⟩

/-- A byte moves the cursor and changes cells, and nothing else. -/
theorem terminalPutchar_frame (t : Terminal) (c : UInt8) :
    ∃ row column buffer,
      terminalPutchar t c = { t with row := row, column := column, buffer := buffer } := by
  rw [terminalPutchar]
  split_ifs
  · exact ⟨_, _, _, rfl⟩
  · exact nextRow_frame { t with column := 0 }
  · exact ⟨_, _, _, rfl⟩
  · exact ⟨_, _, _, rfl⟩
  · exact ⟨_, _, _, rfl⟩
  · dsimp only
    split
    · exact nextRow_frame { putCell t c with column := 0 }
    · exact ⟨_, _, _, rfl⟩

theorem terminalPutchar_ttys (t : Terminal) (c : UInt8) : (terminalPutchar t c).ttys = t.ttys := by
  obtain ⟨row, column, buffer, heq⟩ := terminalPutchar_frame t c
  rw [heq]

theorem terminalPutchar_smouse (t : Terminal) (c : UInt8) :
    (terminalPutchar t c).smouseMode = t.smouseMode := by
  obtain ⟨row, column, buffer, heq⟩ := terminalPutchar_frame t c
  rw [heq]

theorem terminalPutchar_same (t : Terminal) (c : UInt8) : SameTtys t (terminalPutchar t c) := by
  obtain ⟨row, column, buffer, heq⟩ := terminalPutchar_frame t c
  rw [heq]
  exact .of_eq rfl rfl

theorem foldl_terminalPutchar_same (data : List UInt8) (t : Terminal) :
    SameTtys t (data.foldl terminalPutchar t) := by
  induction data generalizing t with
  | nil => exact .refl t
  | cons c data ih => exact (terminalPutchar_same t c).trans (ih _)

theorem terminalWritestring_same (t : Terminal) (data : CString) :
    SameTtys t (terminalWritestring t data) := by
  rw [terminalWritestring]
  split
  · exact .refl t
  · exact foldl_terminalPutchar_same _ _

theorem terminalPrintf_same (t : Terminal) (format : CString) (args : List PrintfArg) :
    SameTtys t (terminalPrintf t format args) := by
  rw [terminalPrintf]
  split
  · exact .refl t
  · exact foldl_terminalPutchar_same _ _

end Srunix
