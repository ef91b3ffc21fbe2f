import Srunix.Console.Line
import Srunix.Library.Wrap

/-!
# The command history (`kernel/kernel.c`)

`command_history` is an array that shifts once it is full, with a second index
for browsing. What it amounts to is a window: the last `HISTORY_SIZE` lines that
were not empty (`history_window`), walked from its end by the arrow keys
(`ups`).
-/

namespace Srunix

open Library

/-- The code of the up key. -/
def KeyChar.up : KeyChar := ⟨0x11, by decide⟩
/-- The code of the down key. -/
def KeyChar.down : KeyChar := ⟨0x12, by decide⟩

/-- `command_history[0 .. history_count)`. -/
def commandHistory (h : History) : List (List UInt8) := (table h.entry h.count).map CString.bytes

/-- The line as it stands: `cmd[0 .. pos)`. -/
def shownLine (s : Line × History) : List UInt8 := table s.1.cmd s.1.pos

/-- The lines executed that were not empty. -/
def executedLines (cmd : Nat → UInt8) (chars : List KeyChar) : List (List UInt8) :=
  (outputs shellStep shellExecutes (Line.start cmd, .boot) chars).filter (· ≠ [])

/-- The index a recall reads. -/
def recallIndex (h : History) (c : KeyChar) : Option Nat :=
  if c.val = 0x11 then if h.pos > 0 then some (h.pos - 1) else none
  else if c.val = 0x12 then if h.pos + 1 < h.count then some (h.pos + 1) else none
  else none

/-! ## What a character does to the history -/

theorem length_commandHistory (h : History) : (commandHistory h).length = h.count := by
  rw [commandHistory, List.length_map, length_table]

/-- A line that is not empty goes behind the others in the window. -/
theorem commandHistory_add (h : History) (cmd : CString) (hcmd : strlen cmd < maxCmdLen - 1) :
    commandHistory (addToHistory h cmd hcmd) =
      if cmd.bytes = [] then commandHistory h
      else (commandHistory h ++ [cmd.bytes]).rtake historySize := by
  have hempty : strlen cmd = 0 ↔ cmd.bytes = [] := List.length_eq_zero_iff
  refine (addToHistory_entries h cmd hcmd).trans ?_
  simp only [hempty, List.rtake, List.length_append, List.length_singleton, length_commandHistory]
  rfl

/-- Only newline executes, and only newline changes the entries. -/
theorem shellStep_other (s : Line × History) {c : KeyChar} (hc : c ≠ .newline) :
    shellExecutes s c = none ∧ commandHistory (shellStep s c).2 = commandHistory s.2 := by
  obtain ⟨l, h⟩ := s
  have hnl : c.val ≠ 0x0A := fun heq => hc (KeyChar.eq_newline_iff.mp heq)
  simp only [shellExecutes, shellStep, shellChar, if_neg hnl]
  split_ifs
  all_goals exact ⟨rfl, rfl⟩

/-- Newline executes the line and hands it to `add_to_history`. -/
theorem shellStep_newline (s : Line × History) : ∃ cmd hcmd,
    shellExecutes s .newline = some (CString.bytes cmd) ∧
      (shellStep s .newline).2 = addToHistory s.2 cmd hcmd :=
  ⟨cmdString (Function.update s.1.cmd s.1.pos 0), length_cmdString s.1, rfl, rfl⟩

/-- One more character executes at most one more line. -/
theorem executedLines_snoc (cmd : Nat → UInt8) (chars : List KeyChar) (c : KeyChar) :
    executedLines cmd (chars ++ [c]) = executedLines cmd chars ++
      (shellExecutes (runOps shellStep (Line.start cmd, .boot) chars) c).toList.filter (· ≠ []) := by
  rw [executedLines, outputs_append, List.filter_append, outputs, outputs, List.append_nil]
  rfl

/-- The array is the window, all the time. -/
theorem commandHistory_run (cmd : Nat → UInt8) (chars : List KeyChar) :
    commandHistory (runOps shellStep (Line.start cmd, .boot) chars).2
      = (executedLines cmd chars).rtake historySize := by
  induction chars using List.reverseRecOn with
  | nil => rfl
  | append_singleton chars c ih =>
    rw [runOps_snoc, executedLines_snoc]
    by_cases hc : c = .newline
    · subst hc
      obtain ⟨line, hline, hexecutes, hadd⟩ :=
        shellStep_newline (runOps shellStep (Line.start cmd, .boot) chars)
      rw [hexecutes, hadd, commandHistory_add, ih]
      by_cases hempty : line.bytes = []
      · rw [if_pos hempty, hempty]
        simp
      · rw [if_neg hempty, rtake_rtake_concat]
        simp [hempty]
    · obtain ⟨hnone, hsame⟩ := shellStep_other (runOps shellStep (Line.start cmd, .boot) chars) hc
      rw [hnone, hsame, ih]
      simp

/-! ## Recalling -/

/-- The entry under the index is what the line shows, whole. -/
theorem shownLine_recallEntry (h : History) (l : Line) (hpos : h.pos < h.count) :
    shownLine (recallEntry h l, h) = (h.entry h.pos).bytes := by
  rw [shownLine, recallEntry, Line.next, dif_pos (h.entry_lt h.pos hpos)]
  exact table_strcpy l.cmd (h.entry h.pos)

/-- **A recall** reads an entry there is, shows it and stays at it. -/
theorem recall_of_index {s : Line × History} {c : KeyChar} {i : Nat} (hi : recallIndex s.2 c = some i) :
    i < s.2.count ∧ (shellStep s c).2.entry = s.2.entry ∧ (shellStep s c).2.count = s.2.count ∧
      (shellStep s c).2.pos = i ∧ shownLine (shellStep s c) = (s.2.entry i).bytes := by
  obtain ⟨l, h⟩ := s
  have hle := h.pos_le
  rw [recallIndex] at hi
  split_ifs at hi with hup hpos hdown hnext
  -- up: the entry before the cursor
  · obtain rfl := Option.some.inj hi
    have hnl : c.val ≠ 0x0A := by rw [hup]; decide
    have hbs : c.val ≠ 0x08 := by rw [hup]; decide
    have hlt : h.pos - 1 < h.count := Nat.lt_of_lt_of_le (Nat.sub_one_lt_of_lt hpos) hle
    have hstep : shellStep (l, h) c = (recallEntry { h with pos := h.pos - 1, pos_le := hlt.le } l,
        { h with pos := h.pos - 1, pos_le := hlt.le }) := by
      simp only [shellStep, shellChar, if_neg hnl, if_neg hbs, if_pos hup, dif_pos hpos]
    rw [hstep]
    exact ⟨hlt, rfl, rfl, rfl, shownLine_recallEntry _ l hlt⟩
  -- down: the entry behind it
  · obtain rfl := Option.some.inj hi
    have hnl : c.val ≠ 0x0A := by rw [hdown]; decide
    have hbs : c.val ≠ 0x08 := by rw [hdown]; decide
    have hstep : shellStep (l, h) c = (recallEntry { h with pos := h.pos + 1, pos_le := hnext.le } l,
        { h with pos := h.pos + 1, pos_le := hnext.le }) := by
      simp only [shellStep, shellChar, if_neg hnl, if_neg hbs, if_neg hup, if_pos hdown, dif_pos hnext]
    rw [hstep]
    exact ⟨hnext, rfl, rfl, rfl, shownLine_recallEntry _ l hnext⟩

theorem recallIndex_up {h : History} (hpos : 0 < h.pos) : recallIndex h .up = some (h.pos - 1) := by
  have hup : KeyChar.up.val = 0x11 := rfl
  rw [recallIndex, if_pos hup, if_pos hpos]

/-- The entry `k` ups away, if there are so many. -/
theorem ups (s : Line × History) {k : Nat} (hk : k < s.2.pos) :
    (runOps shellStep s (List.replicate (k + 1) .up)).2.entry = s.2.entry ∧
      (runOps shellStep s (List.replicate (k + 1) .up)).2.count = s.2.count ∧
      (runOps shellStep s (List.replicate (k + 1) .up)).2.pos = s.2.pos - (k + 1) ∧
      shownLine (runOps shellStep s (List.replicate (k + 1) .up))
        = (s.2.entry (s.2.pos - (k + 1))).bytes := by
  induction k with
  | zero =>
    obtain ⟨-, hentry, hcount, hpos, hshown⟩ := recall_of_index (recallIndex_up hk)
    exact ⟨hentry, hcount, hpos, hshown⟩
  | succ k ih =>
    obtain ⟨hentry, hcount, hpos, -⟩ := ih (Nat.lt_of_succ_lt hk)
    rw [List.replicate_succ', runOps_snoc]
    generalize runOps shellStep s (List.replicate (k + 1) .up) = t at hentry hcount hpos ⊢
    have hmore : 0 < t.2.pos := by omega
    obtain ⟨-, hentry', hcount', hpos', hshown⟩ := recall_of_index (recallIndex_up hmore)
    rw [hentry'.trans hentry, hcount'.trans hcount, hpos', hshown, hentry, hpos]
    exact ⟨rfl, rfl, rfl, rfl⟩

/-! ## The window law -/

/-- **The history after some characters**: the window, its bounds, what every
recall reads, and what the arrow shows after a command that was not empty. -/
structure HistoryWindow (cmd : Nat → UInt8) (chars : List KeyChar) : Prop where
  window : commandHistory (runOps shellStep (Line.start cmd, .boot) chars).2
    = (executedLines cmd chars).drop
      ((executedLines cmd chars).length - min 100 (executedLines cmd chars).length)
  pos_le : (runOps shellStep (Line.start cmd, .boot) chars).2.pos
    ≤ (runOps shellStep (Line.start cmd, .boot) chars).2.count
  count_le : (runOps shellStep (Line.start cmd, .boot) chars).2.count ≤ historySize
  recalled : ∀ c i, recallIndex (runOps shellStep (Line.start cmd, .boot) chars).2 c = some i →
    i < (runOps shellStep (Line.start cmd, .boot) chars).2.count ∧
    (shellStep (runOps shellStep (Line.start cmd, .boot) chars) c).2.pos = i ∧
    shownLine (shellStep (runOps shellStep (Line.start cmd, .boot) chars) c)
      = ((runOps shellStep (Line.start cmd, .boot) chars).2.entry i).bytes
  walk : ∀ before, chars = before ++ [.newline] → executedLines cmd chars ≠ executedLines cmd before →
    ∀ k < min 100 (executedLines cmd chars).length,
      shownLine (runOps shellStep (Line.start cmd, .boot) (chars ++ List.replicate (k + 1) .up))
        = (executedLines cmd chars).reverse.getD k []

/-- After a command that was not empty browsing starts behind the last entry. -/
theorem pos_of_executed {cmd : Nat → UInt8} {before : List KeyChar}
    (hne : executedLines cmd (before ++ [.newline]) ≠ executedLines cmd before) :
    (runOps shellStep (Line.start cmd, .boot) (before ++ [.newline])).2.pos
      = (runOps shellStep (Line.start cmd, .boot) (before ++ [.newline])).2.count := by
  obtain ⟨line, hline, hexecutes, hadd⟩ :=
    shellStep_newline (runOps shellStep (Line.start cmd, .boot) before)
  rw [runOps_snoc, hadd, addToHistory_pos]
  refine if_neg fun hempty => hne ?_
  have hnil : line.bytes = [] := List.length_eq_zero_iff.mp hempty
  rw [executedLines_snoc, hexecutes, hnil]
  simp

/-- **The history is the last hundred commands**, whatever is typed, executed and
recalled. -/
theorem history_window (cmd : Nat → UInt8) (chars : List KeyChar) : HistoryWindow cmd chars := by
  have hrun := commandHistory_run cmd chars
  refine ⟨hrun.trans ?_, History.pos_le _, History.count_le _, fun c i hi => ?_, ?_⟩
  · rw [List.rtake]
    congr 1
    simp only [historySize]
    omega
  · obtain ⟨hlt, -, -, hpos, hshown⟩ := recall_of_index hi
    exact ⟨hlt, hpos, hshown⟩
  · rintro before rfl hne k hk
    have hpos := pos_of_executed hne
    generalize before ++ [KeyChar.newline] = chars at hrun hpos hk ⊢
    rw [runOps_append]
    generalize runOps shellStep (Line.start cmd, .boot) chars = s at hrun hpos ⊢
    have hcount : s.2.count = min (executedLines cmd chars).length historySize := by
      rw [← length_commandHistory, hrun, length_rtake]
    have hk' : k < s.2.count := by
      rw [hcount, Nat.min_comm]
      exact hk
    -- the entry is that far from the end of the window, and so of all the lines
    have hentry : (s.2.entry (s.2.count - (k + 1))).bytes = (commandHistory s.2).reverse.getD k [] := by
      have hlt : s.2.count - (k + 1) < (commandHistory s.2).length := by
        rw [length_commandHistory]
        omega
      have hindex : (commandHistory s.2).length - 1 - k = s.2.count - (k + 1) := by
        rw [length_commandHistory]
        omega
      rw [List.getD_eq_getElem?_getD, List.getElem?_reverse (by rw [length_commandHistory]; exact hk'),
        hindex, List.getElem?_eq_getElem hlt]
      simp [commandHistory, table]
    rw [(ups s (hpos.symm ▸ hk')).2.2.2, hpos, hentry, hrun, List.rtake_eq_reverse_take_reverse,
      List.reverse_reverse]
    simp only [List.getD_eq_getElem?_getD]
    rw [List.getElem?_take_of_lt (Nat.lt_of_lt_of_le hk (Nat.min_le_left _ _))]

end Srunix
