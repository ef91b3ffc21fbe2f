import Srunix.Bkfs.State

/-!
# Switching terminals (`save_tty_state`, `restore_tty_state`, `switch_tty`)

One live terminal and one `current_inode` are shared by nine `TTY` records:
switching copies the live state into the record of the terminal left and the
record of the terminal entered over the live state.

`login_screen` is modelled up to the first key it waits for; what the keys do
then is in `Console/`. `move_cursor` leaves no trace here.
-/

namespace Srunix

open Library

/-- `COLOR_GRAY`. -/
abbrev colorGray : UInt8 := 0x7
/-- `COLOR_BRIGHT_BLUE`. -/
abbrev colorBrightBlue : UInt8 := 0x9
/-- `COLOR_BRIGHT_RED`. -/
abbrev colorBrightRed : UInt8 := 0xC

/-- The cells of the screen. -/
abbrev screenCells : Nat := screenHeight * screenWidth

/-- `int_to_str` into a buffer. -/
def decimal (num : Int) : CString := ⟨(intToStr num).filter (· ≠ 0), by simp⟩

/-- `memcpy` of a screen, cell by cell. -/
def copyScreen (src dst : Nat → UInt16) : Nat → UInt16 :=
  fun k => if k < screenCells then src k else dst k

/-- `save_tty_state`: cursor, colour, directory and screen go to the record of the
current terminal. -/
def saveTtyState (s : KernelState) : KernelState :=
  let tty : TTY :=
    { s.term.ttys s.term.currentTty with
      row := s.term.row
      column := s.term.column
      color := s.term.color
      currentInode := s.fs.currentInode
      buffer := copyScreen s.term.buffer (s.term.ttys s.term.currentTty).buffer }
  { s with term := { s.term with ttys := Function.update s.term.ttys s.term.currentTty tty } }

/-- `restore_tty_state`: they come back from it. -/
def restoreTtyState (s : KernelState) : KernelState :=
  let tty := s.term.ttys s.term.currentTty
  { fs := { s.fs with currentInode := tty.currentInode }
    term :=
      { s.term with
        row := tty.row
        column := tty.column
        color := tty.color
        buffer := copyScreen tty.buffer s.term.buffer } }

/-- `login_screen` as far as the first key. -/
def loginScreen (s : KernelState) : KernelState :=
  let s := s.setcolor colorGray colorBlack
  let s := { s with term := terminalClear s.term }
  let s := s.writestring "\n\n"
  let s := s.writestring "Srunix86 tty"
  let s := s.writestring (decimal (s.term.currentTty + 1))
  let s := s.writestring "\n"
  let s := s.setcolor colorGray colorBlack
  let s := s.writestring "OpenSource Operation System.\nPlease login: root, password 1\n\n"
  s.writestring "login: "

/-- The three lines of `switch_tty` between its checks and the login test. -/
def enterTty (s : KernelState) (ttyNum : Nat) : KernelState :=
  let s := saveTtyState s
  let s : KernelState := { s with term := { s.term with currentTty := ttyNum } }
  restoreTtyState s

/-- `switch_tty`. A number that is no terminal's does nothing. -/
def switchTty (s : KernelState) (ttyNum : Int) : KernelState :=
  if s.term.smouseMode then s
  else if ttyNum < 0 ∨ ttyNum ≥ maxTtys then s
  else
    let s := enterTty s ttyNum.toNat
    if (s.term.ttys s.term.currentTty).loggedIn then s else loginScreen s

/-- A switch to a terminal there is. -/
theorem switchTty_of_in {s : KernelState} {ttyNum : Int} (hmode : s.term.smouseMode = false)
    (hin : ¬ (ttyNum < 0 ∨ ttyNum ≥ maxTtys)) :
    switchTty s ttyNum =
      if ((enterTty s ttyNum.toNat).term.ttys ttyNum.toNat).loggedIn then enterTty s ttyNum.toNat
      else loginScreen (enterTty s ttyNum.toNat) := by
  rw [switchTty, if_neg (by rw [hmode]; exact Bool.false_ne_true), if_neg hin]
  rfl

/-- What a switch can come to. -/
theorem switchTty_cases (s : KernelState) (ttyNum : Int) :
    switchTty s ttyNum = s ∨ ∃ n < maxTtys,
      switchTty s ttyNum = enterTty s n ∨ switchTty s ttyNum = loginScreen (enterTty s n) := by
  by_cases hmode : s.term.smouseMode = true
  · exact .inl (by rw [switchTty, if_pos hmode])
  by_cases hout : ttyNum < 0 ∨ ttyNum ≥ maxTtys
  · exact .inl (by rw [switchTty, if_neg hmode, if_pos hout])
  refine .inr ⟨ttyNum.toNat, by omega, ?_⟩
  rw [switchTty_of_in (by simpa using hmode) hout]
  split
  · exact .inl rfl
  · exact .inr rfl

/-- `shell` as far as its first prompt. -/
def shellBanner (s : KernelState) : KernelState :=
  let s := s.setcolor colorBrightRed colorBlack
  let s := s.writestring "\nSrunix86 tty"
  let s := s.writestring (decimal (s.term.currentTty + 1))
  let s := s.writestring "\n"
  let s := s.setcolor colorGray colorBlack
  let s := s.writestring "Type \"help\" to see all the commands in the OS.\n\n"
  s.setcolor colorWhite colorBlack

/-- `ttys[current_tty].logged_in = …;` -/
def setLoggedIn (s : KernelState) (loggedIn : Bool) : KernelState :=
  { s with term :=
    { s.term with
      ttys := Function.update s.term.ttys s.term.currentTty
        { s.term.ttys s.term.currentTty with loggedIn := loggedIn } } }

/-! ## What only prints -/

/-- Two states with the same file system and the same terminal records, but for
what is on the screen. -/
structure Prints (s s' : KernelState) : Prop where
  fs : s'.fs = s.fs
  term : SameTtys s.term s'.term

namespace Prints

variable {s s₁ s₂ : KernelState}

theorem refl (s : KernelState) : Prints s s := ⟨rfl, .refl _⟩

theorem trans (h₁ : Prints s s₁) (h₂ : Prints s₁ s₂) : Prints s s₂ :=
  ⟨h₂.fs.trans h₁.fs, h₁.term.trans h₂.term⟩

theorem writestring (h : Prints s s₁) (data : CString) : Prints s (s₁.writestring data) :=
  h.trans ⟨rfl, terminalWritestring_same _ _⟩

theorem printf (h : Prints s s₁) (format : CString) (args : List PrintfArg) :
    Prints s (s₁.printf format args) :=
  h.trans ⟨rfl, terminalPrintf_same _ _ _⟩

theorem setcolor (h : Prints s s₁) (fg bg : UInt8) : Prints s (s₁.setcolor fg bg) :=
  h.trans ⟨rfl, terminalSetcolor_same _ _ _⟩

theorem clear (h : Prints s s₁) : Prints s { s₁ with term := terminalClear s₁.term } :=
  h.trans ⟨rfl, terminalClear_same _⟩

end Prints

/-- `login_screen` prints, up to where it waits. -/
theorem loginScreen_prints (s : KernelState) : Prints s (loginScreen s) :=
  (((((((Prints.refl s).setcolor _ _).clear.writestring _).writestring _).writestring _).writestring
    _).setcolor _ _ |>.writestring _).writestring _

theorem shellBanner_prints (s : KernelState) : Prints s (shellBanner s) :=
  ((((((Prints.refl s).setcolor _ _).writestring _).writestring _).writestring _).setcolor _ _
    |>.writestring _).setcolor _ _

/-! ## The directory of each terminal -/

/-- The directory terminal `t` stands in: the live one, or the saved one. -/
def ttyDir (s : KernelState) (t : Nat) : Nat :=
  if t = s.term.currentTty then s.fs.currentInode else (s.term.ttys t).currentInode

theorem Prints.ttyDir {s s' : KernelState} (h : Prints s s') (t : Nat) :
    ttyDir s' t = ttyDir s t := by
  unfold Srunix.ttyDir
  rw [h.fs, h.term.currentTty, h.term.currentInode]

/-- A switch saves one directory and restores another, so all stay. -/
theorem ttyDir_enterTty (s : KernelState) (n t : Nat) : ttyDir (enterTty s n) t = ttyDir s t := by
  -- the record of the terminal left holds its directory now
  have hsaved : ∀ t, ((saveTtyState s).term.ttys t).currentInode = ttyDir s t := by
    intro t
    unfold ttyDir
    by_cases ht : t = s.term.currentTty
    · rw [if_pos ht, ht]
      show (Function.update s.term.ttys s.term.currentTty _ s.term.currentTty).currentInode = _
      rw [Function.update_self]
    · rw [if_neg ht]
      show (Function.update s.term.ttys s.term.currentTty _ t).currentInode = _
      rw [Function.update_of_ne ht]
  have henter : ttyDir (enterTty s n) t = ((saveTtyState s).term.ttys t).currentInode := by
    show (if t = n then ((saveTtyState s).term.ttys n).currentInode
      else ((saveTtyState s).term.ttys t).currentInode) = _
    by_cases ht : t = n
    · rw [if_pos ht, ht]
    · rw [if_neg ht]
  rw [henter, hsaved]

/-- Switching moves no terminal to another directory. -/
theorem ttyDir_switchTty (s : KernelState) (n : Int) (t : Nat) :
    ttyDir (switchTty s n) t = ttyDir s t := by
  rcases switchTty_cases s n with heq | ⟨k, -, heq | heq⟩
  · rw [heq]
  · rw [heq, ttyDir_enterTty]
  · rw [heq, (loginScreen_prints _).ttyDir, ttyDir_enterTty]

/-! ## Terminal operations -/

/-- What the kernel does to the terminal between two keys. `columnReset` is the
`terminal_column = 0` of the history recall, `chdir` any assignment to
`current_inode`. -/
inductive TermOp where
  | putchar (c : UInt8)
  | setcolor (fg bg : UInt8)
  | clear
  | columnReset
  | chdir (inodeNum : Nat)
  | switchTty (ttyNum : Int)

/-- What an operation does to the kernel. -/
def execTermOp (s : KernelState) : TermOp → KernelState
  | .putchar c => { s with term := terminalPutchar s.term c }
  | .setcolor fg bg => s.setcolor fg bg
  | .clear => { s with term := terminalClear s.term }
  | .columnReset => { s with term := { s.term with column := 0 } }
  | .chdir inodeNum => { s with fs := { s.fs with currentInode := inodeNum } }
  | .switchTty ttyNum => Srunix.switchTty s ttyNum

end Srunix
