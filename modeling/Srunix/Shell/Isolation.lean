import Srunix.Library.TimeShare
import Srunix.Bkfs.Boot
import Srunix.Shell.Tty

/-!
# Terminals do not see each other

`switch_tty` copies the screen, the cursor, the colour and the directory out and
in. `Seen` is what one terminal has of these, live while it is current and in
its record otherwise; `timeShare_tty` says that every operation is one on the
current terminal's share, so the law of `Library/TimeShare.lean` applies.

Only the 2000 cells of the screen are copied, and only they are seen.
-/

namespace Srunix

open Library

/-- What is seen of a terminal. Cells outside the screen read as 0. -/
@[ext] structure Seen where
  row : Nat
  column : Nat
  color : UInt8
  currentInode : Nat
  cells : Nat → UInt16

/-- The cells of the screen alone. -/
def onScreen (buffer : Nat → UInt16) : Nat → UInt16 :=
  fun k => if k < screenCells then buffer k else 0

theorem onScreen_eq_iff {b b' : Nat → UInt16} :
    onScreen b = onScreen b' ↔ ∀ k < screenCells, b k = b' k := by
  constructor
  · intro h k hk
    have heq := congrFun h k
    unfold onScreen at heq
    rwa [if_pos hk, if_pos hk] at heq
  · intro h
    funext k
    unfold onScreen
    by_cases hk : k < screenCells
    · rw [if_pos hk, if_pos hk, h k hk]
    · rw [if_neg hk, if_neg hk]

/-- A copy of a screen shows what the screen showed. -/
@[simp] theorem onScreen_copyScreen (src dst : Nat → UInt16) :
    onScreen (copyScreen src dst) = onScreen src := by
  refine onScreen_eq_iff.mpr fun k hk => ?_
  rw [copyScreen]
  rw [if_pos hk]

/-- The terminal the user is looking at. -/
def seenLive (s : KernelState) : Seen where
  row := s.term.row
  column := s.term.column
  color := s.term.color
  currentInode := s.fs.currentInode
  cells := onScreen s.term.buffer

/-- What somebody sees who comes back to the terminal. -/
def TTY.seen (tty : TTY) : Seen where
  row := tty.row
  column := tty.column
  color := tty.color
  currentInode := tty.currentInode
  cells := onScreen tty.buffer

/-- What terminal `t` would show. -/
def seenBy (s : KernelState) (t : Nat) : Seen :=
  if t = s.term.currentTty then seenLive s else (s.term.ttys t).seen

theorem seenBy_current (s : KernelState) : seenBy s s.term.currentTty = seenLive s := if_pos rfl

/-- Of a terminal that is not in front one sees what was saved. -/
theorem seenBy_other {s : KernelState} {t : Nat} (ht : t ≠ s.term.currentTty) :
    seenBy s t = (s.term.ttys t).seen := if_neg ht

/-! ## Working on the current terminal -/

/-- Two terminals with the same cursor, colour and screen. -/
structure Alike (t t' : Terminal) : Prop where
  row : t'.row = t.row
  column : t'.column = t.column
  color : t'.color = t.color
  cells : ∀ k < screenCells, t'.buffer k = t.buffer k

namespace Alike

variable {t t' : Terminal}

theorem scroll (h : Alike t t') : Alike (terminalScroll t) (terminalScroll t') := by
  refine ⟨rfl, rfl, h.color, fun k hk => ?_⟩
  show (if k < (screenHeight - 1) * screenWidth then t'.buffer (k + screenWidth)
      else if k < screenHeight * screenWidth then cell 0x20 t'.color else t'.buffer k)
    = (if k < (screenHeight - 1) * screenWidth then t.buffer (k + screenWidth)
      else if k < screenHeight * screenWidth then cell 0x20 t.color else t.buffer k)
  by_cases hlast : k < (screenHeight - 1) * screenWidth
  · rw [if_pos hlast, if_pos hlast]
    refine h.cells _ ?_
    simp only [screenCells, screenHeight, screenWidth] at hlast ⊢
    omega
  · rw [if_neg hlast, if_neg hlast, if_pos hk, if_pos hk, h.color]

theorem nextRow (h : Alike t t') : Alike (Srunix.nextRow t) (Srunix.nextRow t') := by
  unfold Srunix.nextRow
  rw [h.row]
  have hmoved : Alike { t with row := t.row + 1 } { t' with row := t.row + 1 } :=
    ⟨rfl, h.column, h.color, h.cells⟩
  by_cases hfull : t.row + 1 = screenHeight
  · rw [if_pos hfull, if_pos hfull]
    exact hmoved.scroll
  · rw [if_neg hfull, if_neg hfull]
    exact hmoved

theorem putCell (h : Alike t t') (c : UInt8) : Alike (Srunix.putCell t c) (Srunix.putCell t' c) := by
  refine ⟨h.row, h.column, h.color, fun k hk => ?_⟩
  show Function.update t'.buffer (t'.row * screenWidth + t'.column) (cell c t'.color) k
    = Function.update t.buffer (t.row * screenWidth + t.column) (cell c t.color) k
  rw [h.row, h.column, h.color]
  by_cases hkc : k = t.row * screenWidth + t.column
  · rw [hkc, Function.update_self, Function.update_self]
  · rw [Function.update_of_ne hkc, Function.update_of_ne hkc]
    exact h.cells k hk

/-- A character is drawn in the same way on screens that look the same. -/
theorem putchar (h : Alike t t') (hmode : t.smouseMode = false) (hmode' : t'.smouseMode = false)
    (c : UInt8) : Alike (terminalPutchar t c) (terminalPutchar t' c) := by
  -- the branches of `terminal_putchar` look at what both terminals agree on
  by_cases hnl : c = 0x0A
  · rw [hnl, putchar_newline hmode, putchar_newline hmode']
    exact nextRow ⟨h.row, rfl, h.color, h.cells⟩
  by_cases hbs : c = 0x08
  · rw [hbs, putchar_backspace hmode, putchar_backspace hmode', h.row, h.column]
    by_cases hcol : t.column > 0
    · rw [if_pos hcol, if_pos hcol]
      have hback : Alike { t with column := t.column - 1 }
          { t' with row := t.row, column := t.column - 1 } := ⟨rfl, rfl, h.color, h.cells⟩
      exact hback.putCell 0x20
    rw [if_neg hcol, if_neg hcol]
    by_cases hrow : t.row > 0
    · rw [if_pos hrow, if_pos hrow]
      have hback : Alike { t with row := t.row - 1, column := screenWidth - 1 }
          { t' with row := t.row - 1, column := screenWidth - 1 } := ⟨rfl, rfl, h.color, h.cells⟩
      exact hback.putCell 0x20
    · rw [if_neg hrow, if_neg hrow]
      exact h
  · rw [putchar_glyph hmode hnl hbs, putchar_glyph hmode' hnl hbs, h.column]
    have hput := h.putCell c
    by_cases hwrap : t.column + 1 = screenWidth
    · rw [if_pos hwrap, if_pos hwrap]
      exact nextRow ⟨hput.row, rfl, hput.color, hput.cells⟩
    · rw [if_neg hwrap, if_neg hwrap]
      exact ⟨hput.row, rfl, hput.color, hput.cells⟩

theorem clear (h : Alike t t') : Alike (terminalClear t) (terminalClear t') := by
  refine ⟨rfl, rfl, h.color, fun k hk => ?_⟩
  show (if k < screenCells then cell 0x20 t'.color else t'.buffer k)
    = (if k < screenCells then cell 0x20 t.color else t.buffer k)
  rw [if_pos hk, if_pos hk, h.color]

end Alike

/-- What is seen decides all that drawing depends on. -/
theorem seenLive_eq_iff {s s' : KernelState} :
    seenLive s = seenLive s' ↔
      Alike s.term s'.term ∧ s'.fs.currentInode = s.fs.currentInode := by
  constructor
  · intro h
    have hcells := onScreen_eq_iff.mp (congrArg Seen.cells h)
    exact ⟨⟨(congrArg Seen.row h).symm, (congrArg Seen.column h).symm, (congrArg Seen.color h).symm,
      fun k hk => (hcells k hk).symm⟩, (congrArg Seen.currentInode h).symm⟩
  · rintro ⟨h, hinode⟩
    exact Seen.ext h.row.symm h.column.symm h.color.symm hinode.symm
      (onScreen_eq_iff.mpr fun k hk => (h.cells k hk).symm)

/-! ## One share each -/

/-- The terminal an operation switches to. -/
def TermOp.target : TermOp → Option Nat
  | .switchTty n => if n < 0 ∨ n ≥ maxTtys then none else some n.toNat
  | _ => none

theorem target_switchTty_eq_none {n : Int} :
    (TermOp.switchTty n).target = none ↔ n < 0 ∨ n ≥ maxTtys := by
  show (if n < 0 ∨ n ≥ maxTtys then none else some n.toNat) = none ↔ _
  by_cases hout : n < 0 ∨ n ≥ maxTtys
  · rw [if_pos hout]
    exact ⟨fun _ => hout, fun _ => rfl⟩
  · rw [if_neg hout]
    exact ⟨nofun, fun h => absurd h hout⟩

theorem target_switchTty_eq_some {n : Int} {t : Nat} :
    (TermOp.switchTty n).target = some t ↔ ¬ (n < 0 ∨ n ≥ maxTtys) ∧ n.toNat = t := by
  show (if n < 0 ∨ n ≥ maxTtys then none else some n.toNat) = some t ↔ _
  by_cases hout : n < 0 ∨ n ≥ maxTtys
  · rw [if_pos hout]
    exact ⟨nofun, fun h => absurd hout h.1⟩
  · rw [if_neg hout, Option.some.injEq]
    exact ⟨fun h => ⟨hout, h⟩, fun h => h.2⟩

/-- A switch to a number that is no terminal's. -/
theorem execTermOp_switchTty_of_out {s : KernelState} {n : Int}
    (hop : (TermOp.switchTty n).target = none) : execTermOp s (.switchTty n) = s := by
  show switchTty s n = s
  rw [switchTty, if_pos (target_switchTty_eq_none.mp hop), ite_self]

/-- No selection mode, and the terminals `flags` says are logged in. -/
def Awake (flags : Nat → Bool) (s : KernelState) : Prop :=
  s.term.smouseMode = false ∧ ∀ t, (s.term.ttys t).loggedIn = flags t

/-- Switches go to terminals that are logged in. -/
def TermOp.IsTo (flags : Nat → Bool) (op : TermOp) : Prop :=
  ∀ t, op.target = some t → flags t = true

/-- An operation that switches nowhere, at its kinds. -/
theorem execTermOp_work {s : KernelState} {op : TermOp} (hop : op.target = none) :
    (execTermOp s op).term.currentTty = s.term.currentTty ∧
      (execTermOp s op).term.smouseMode = s.term.smouseMode ∧
      (∀ t, ((execTermOp s op).term.ttys t).loggedIn = (s.term.ttys t).loggedIn) ∧
      ∀ t, t ≠ s.term.currentTty → (execTermOp s op).term.ttys t = s.term.ttys t := by
  cases op with
  | putchar c =>
    have hsame := terminalPutchar_same s.term c
    refine ⟨hsame.currentTty, terminalPutchar_smouse _ c, hsame.loggedIn, fun t _ => ?_⟩
    exact congrFun (terminalPutchar_ttys s.term c) t
  | setcolor fg bg =>
    have hsame := terminalSetcolor_same s.term fg bg
    exact ⟨rfl, rfl, hsame.loggedIn, fun t ht => Function.update_of_ne ht _ _⟩
  | clear | columnReset | chdir => exact ⟨rfl, rfl, fun _ => rfl, fun _ _ => rfl⟩
  | switchTty n =>
    rw [execTermOp_switchTty_of_out hop]
    exact ⟨rfl, rfl, fun _ => rfl, fun _ _ => rfl⟩

/-- A switch changes no flag. -/
theorem enterTty_loggedIn (s : KernelState) (n t : Nat) :
    ((enterTty s n).term.ttys t).loggedIn = (s.term.ttys t).loggedIn := by
  show (Function.update s.term.ttys s.term.currentTty _ t).loggedIn = _
  by_cases ht : t = s.term.currentTty
  · rw [ht, Function.update_self]
  · rw [Function.update_of_ne ht]

/-- A switch to a terminal that is logged in. -/
theorem execTermOp_switch {flags : Nat → Bool} {s : KernelState} {op : TermOp} {t : Nat}
    (hs : Awake flags s) (hok : op.IsTo flags) (hop : op.target = some t) :
    execTermOp s op = enterTty s t := by
  cases op with
  | putchar | setcolor | clear | columnReset | chdir => cases hop
  | switchTty n =>
    obtain ⟨hin, rfl⟩ := target_switchTty_eq_some.mp hop
    have hflag : ((enterTty s n.toNat).term.ttys n.toNat).loggedIn = true :=
      (enterTty_loggedIn s n.toNat n.toNat).trans ((hs.2 _).trans (hok _ hop))
    show switchTty s n = enterTty s n.toNat
    rw [switchTty_of_in hs.1 hin, if_pos hflag]

/-- Saving and restoring loses nothing of any terminal. -/
theorem seenBy_enterTty (s : KernelState) (n t : Nat) : seenBy (enterTty s n) t = seenBy s t := by
  -- saving copies what is seen of the current terminal, and changes no other
  have hsaved : ∀ t, ((saveTtyState s).term.ttys t).seen = seenBy s t := by
    intro t
    by_cases ht : t = s.term.currentTty
    · rw [ht, seenBy_current]
      show (Function.update s.term.ttys s.term.currentTty _ s.term.currentTty).seen = _
      rw [Function.update_self]
      rw [TTY.seen, seenLive]
      rw [onScreen_copyScreen]
    · rw [seenBy_other ht]
      show (Function.update s.term.ttys s.term.currentTty _ t).seen = _
      rw [Function.update_of_ne ht]
  rw [← hsaved t]
  by_cases ht : t = n
  · subst ht
    have hlive : seenLive (enterTty s t) = ((saveTtyState s).term.ttys t).seen := by
      rw [seenLive, TTY.seen]
      show Seen.mk _ _ _ _ (onScreen (copyScreen _ _)) = _
      rw [onScreen_copyScreen]
      rfl
    exact (seenBy_current (enterTty s t)).trans hlive
  · exact seenBy_other (s := enterTty s n) ht

/-- What an operation makes of the live terminal depends on that terminal only. -/
theorem seenLive_congr {s s' : KernelState} {op : TermOp} (hop : op.target = none)
    (hmode : s.term.smouseMode = false) (hmode' : s'.term.smouseMode = false)
    (h : seenLive s = seenLive s') :
    seenLive (execTermOp s op) = seenLive (execTermOp s' op) := by
  obtain ⟨halike, hinode⟩ := seenLive_eq_iff.mp h
  refine seenLive_eq_iff.mpr ?_
  cases op with
  | putchar c => exact ⟨halike.putchar hmode hmode' c, hinode⟩
  | setcolor fg bg => exact ⟨⟨halike.row, halike.column, rfl, halike.cells⟩, hinode⟩
  | clear => exact ⟨halike.clear, hinode⟩
  | columnReset => exact ⟨⟨halike.row, rfl, halike.color, halike.cells⟩, hinode⟩
  | chdir n => exact ⟨halike, rfl⟩
  | switchTty n =>
    rw [execTermOp_switchTty_of_out hop, execTermOp_switchTty_of_out hop]
    exact ⟨halike, hinode⟩

/-- The terminals are a time-share: an operation is seen at the terminal in front and
at no other, and a switch at none. -/
theorem timeShare_tty (flags : Nat → Bool) :
    TimeShare execTermOp (fun s => s.term.currentTty) seenBy TermOp.target (Awake flags)
      (TermOp.IsTo flags) where
  good s op hs hok := by
    cases htarget : op.target with
    | none =>
      obtain ⟨-, hmode, hflags, -⟩ := execTermOp_work (s := s) htarget
      exact ⟨hmode.trans hs.1, fun t => (hflags t).trans (hs.2 t)⟩
    | some t =>
      rw [execTermOp_switch hs hok htarget]
      exact ⟨hs.1, fun i => (enterTty_loggedIn s t i).trans (hs.2 i)⟩
  switch_current hs hok htarget := by
    rw [execTermOp_switch hs hok htarget]
    rfl
  switch_view hs hok htarget := by
    rw [execTermOp_switch hs hok htarget]
    exact seenBy_enterTty _ _
  work_current _ _ htarget := (execTermOp_work htarget).1
  work_other {s op} _ _ htarget t ht := by
    -- a terminal in the background is seen in what was saved of it
    obtain ⟨hcur, -, -, hother⟩ := execTermOp_work (s := s) htarget
    rw [seenBy_other (by rw [hcur]; exact ht), seenBy_other ht, hother t ht]
  work_congr {s s' op} hs hs' _ htarget hview := by
    have hcur := (execTermOp_work (s := s) htarget).1
    have hcur' := (execTermOp_work (s := s') htarget).1
    -- the live state is all there is to see of the current terminal
    have heq : seenLive s = seenLive s' := by
      rwa [seenBy_current, seenBy_current] at hview
    calc seenBy (execTermOp s op) s.term.currentTty
        = seenLive (execTermOp s op) := by
          rw [← hcur]
          exact seenBy_current _
      _ = seenLive (execTermOp s' op) := seenLive_congr htarget hs.1 hs'.1 heq
      _ = seenBy (execTermOp s' op) s'.term.currentTty := by
          rw [← hcur']
          exact (seenBy_current _).symm

/-- Terminal `t` on its own: the state it starts with, live. -/
def ownTty (s : KernelState) (t : Nat) : KernelState :=
  if t = s.term.currentTty then s
  else
    let tty := s.term.ttys t
    { fs := { s.fs with currentInode := tty.currentInode }
      term :=
        { s.term with
          row := tty.row
          column := tty.column
          color := tty.color
          buffer := tty.buffer
          currentTty := t } }

/-- The machine on which one terminal is alone. -/
theorem ownTty_spec (s : KernelState) (t : Nat) :
    (ownTty s t).term.currentTty = t ∧ seenLive (ownTty s t) = seenBy s t ∧
      (ownTty s t).term.smouseMode = s.term.smouseMode ∧
      (ownTty s t).term.ttys = s.term.ttys := by
  rw [ownTty]
  by_cases ht : t = s.term.currentTty
  · rw [if_pos ht]
    refine ⟨ht.symm, ?_, rfl, rfl⟩
    rw [ht, seenBy_current]
  · rw [if_neg ht]
    refine ⟨rfl, ?_, rfl, rfl⟩
    rw [seenBy_other ht]
    rfl

/-- The operations issued while terminal `t` was current. -/
def issuedOnTty (t : Nat) (s : KernelState) (ops : List TermOp) : List TermOp :=
  issuedOn execTermOp (fun s => s.term.currentTty) TermOp.target t s ops

/-- **A terminal shows what it would show on its own**: after any interleaving
over terminals that are logged in, the current one looks as if only its own
operations had been done, from its own state. -/
theorem seenLive_run {s : KernelState} (hmode : s.term.smouseMode = false) {ops : List TermOp}
    (hops : ∀ n : Int, .switchTty n ∈ ops → 0 ≤ n → n < maxTtys →
      (s.term.ttys n.toNat).loggedIn = true) :
    let t := (runOps execTermOp s ops).term.currentTty
    seenLive (runOps execTermOp s ops)
      = seenLive (runOps execTermOp (ownTty s t) (issuedOnTty t s ops)) := by
  let flags : Nat → Bool := fun t => (s.term.ttys t).loggedIn
  intro t
  obtain ⟨hcur, hseen, hmode', httys⟩ := ownTty_spec s t
  have hok : ∀ op ∈ ops, op.IsTo flags := by
    intro op hop u hu
    cases op with
    | putchar | setcolor | clear | columnReset | chdir => cases hu
    | switchTty n =>
      obtain ⟨hin, rfl⟩ := target_switchTty_eq_some.mp hu
      exact hops n hop (by omega) (by omega)
  -- the flags of logged-in terminals never change, so they are read off the start
  have hs : Awake flags s := ⟨hmode, fun _ => rfl⟩
  have hr : Awake flags (ownTty s t) := ⟨hmode'.trans hmode, fun u => by rw [httys]⟩
  have hown : seenBy (ownTty s t) t = seenBy s t := by
    rw [← hseen, ← seenBy_current, hcur]
  -- none of the operations of terminal `t` leaves it
  have hend : (runOps execTermOp (ownTty s t) (issuedOnTty t s ops)).term.currentTty = t := by
    have hissued : ∀ op ∈ issuedOnTty t s ops, op.IsTo flags ∧ op.target = none := by
      intro op hop
      obtain ⟨hmem, htarget⟩ := of_mem_issuedOn hop
      exact ⟨hok op hmem, htarget⟩
    exact ((timeShare_tty flags).current_runOps hr hissued).trans hcur
  have hrun := (timeShare_tty flags).view_run hs hr hcur hown hok
  calc seenLive (runOps execTermOp s ops)
      = seenBy (runOps execTermOp s ops) t := (seenBy_current _).symm
    _ = seenBy (runOps execTermOp (ownTty s t) (issuedOnTty t s ops)) t := hrun
    _ = seenLive (runOps execTermOp (ownTty s t) (issuedOnTty t s ops)) := by
      rw [← seenBy_current, hend]

/-- An `a` on the first terminal, a `b` on the second, and back. -/
theorem seenLive_run_two :
    let s := { programImage with term :=
      { programImage.term with ttys := fun t => { programImage.term.ttys t with loggedIn := true } } }
    seenLive (runOps execTermOp s [.putchar 0x61, .switchTty 1, .putchar 0x62, .switchTty 0])
      = seenLive (execTermOp s (.putchar 0x61)) := by
  intro s
  exact seenLive_run (s := s) rfl fun _ _ _ _ => rfl

end Srunix
