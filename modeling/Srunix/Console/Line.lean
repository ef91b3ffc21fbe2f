import Mathlib.Data.List.TakeWhile
import Srunix.Library.FirstIndex
import Srunix.Library.Runs
import Srunix.Lib.Pring

/-!
# The line editor of `shell` (`kernel/kernel.c`)

The two nested loops of `shell`, as far as `cmd`, `pos` and the command history
go. A `Line` stands at the top of the inner loop, so `pos` is below
`MAX_CMD_LEN - 1`; `History` carries that every entry is as short as such a line.

`Editor` is what the loops are for: a list of characters, edited at its end,
with the commands remembered as a list. They agree as long as the line stays
shorter than `MAX_CMD_LEN - 1` (`executesTyped_of_short`); a line that gets there
ends the inner loop without being executed.
-/

namespace Srunix

open Library

/-- `MAX_CMD_LEN`. -/
abbrev maxCmdLen : Nat := 256
/-- `HISTORY_SIZE`. -/
abbrev historySize : Nat := 100

/-- What `keyboard_getchar` returns: never NUL. -/
abbrev KeyChar := { c : UInt8 // c ≠ 0 }

/-- `command_history` with its count and its cursor, which all terminals share. That
the entries fit comes from the length `shell` lets a line have. -/
structure History where
  entry : Nat → CString
  count : Nat
  pos : Nat
  count_le : count ≤ historySize
  pos_le : pos ≤ count
  entry_lt : ∀ i < count, strlen (entry i) < maxCmdLen - 1

/-- As the globals are initialised. -/
def History.boot : History where
  entry := fun _ => CString.empty
  count := 0
  pos := 0
  count_le := Nat.zero_le _
  pos_le := Nat.le_refl _
  entry_lt := nofun

/-- The line `shell` edits. `cmd` keeps what it held behind `pos`. -/
structure Line where
  cmd : Nat → UInt8
  pos : Nat
  pos_lt : pos < maxCmdLen - 1

/-- The top of the outer loop. -/
def Line.start (cmd : Nat → UInt8) : Line := ⟨cmd, 0, by decide⟩

/-- `while (pos < MAX_CMD_LEN - 1)`: at the bound the inner loop is over, and the
outer one starts with `pos = 0`. -/
def Line.next (cmd : Nat → UInt8) (pos : Nat) : Line :=
  if h : pos < maxCmdLen - 1 then ⟨cmd, pos, h⟩ else Line.start cmd

/-- The string in a buffer of `MAX_CMD_LEN` bytes. -/
def cmdString (cmd : Nat → UInt8) : CString :=
  ⟨(table cmd maxCmdLen).takeWhile (· ≠ 0), fun h => by simpa using List.mem_takeWhile_imp h⟩

/-- `strcpy(dst, src)`. -/
def strcpy (dst : Nat → UInt8) (src : CString) : Nat → UInt8 :=
  fun i => (src.bytes ++ [0]).getD i (dst i)

/-- `add_to_history`, `smouse_mode` being off. -/
def addToHistory (h : History) (cmd : CString) (hcmd : strlen cmd < maxCmdLen - 1) : History :=
  if strlen cmd = 0 then h
  else if hcount : h.count < historySize then
    -- there is room for one more
    { entry := Function.update h.entry h.count cmd
      count := h.count + 1
      pos := h.count + 1
      count_le := hcount
      pos_le := Nat.le_refl _
      entry_lt := by
        intro i hi
        by_cases heq : i = h.count
        · rw [heq, Function.update_self]
          exact hcmd
        · rw [Function.update_of_ne heq]
          exact h.entry_lt i (by omega) }
  else
    -- the oldest line falls out
    { entry := Function.update (shiftDown h.entry 0 (historySize - 1)) (historySize - 1) cmd
      count := h.count
      pos := h.count
      count_le := h.count_le
      pos_le := Nat.le_refl _
      entry_lt := by
        intro i hi
        by_cases heq : i = historySize - 1
        · rw [heq, Function.update_self]
          exact hcmd
        · have hle := h.count_le
          rw [Function.update_of_ne heq, shiftDown_apply, if_pos (by omega)]
          exact h.entry_lt (i + 1) (by omega) }

/-- A line that is remembered puts the cursor behind it. -/
theorem addToHistory_pos (h : History) (cmd : CString) (hcmd : strlen cmd < maxCmdLen - 1) :
    (addToHistory h cmd hcmd).pos =
      if strlen cmd = 0 then h.pos else (addToHistory h cmd hcmd).count := by
  rw [addToHistory]
  by_cases hempty : strlen cmd = 0
  · rw [if_pos hempty, if_pos hempty]
  · rw [if_neg hempty, if_neg hempty]
    split
    · rfl
    · rfl

/-- Both arms of `add_to_history` put the command behind the entries, and the
first one goes if there is no room. -/
theorem addToHistory_entries (h : History) (cmd : CString) (hcmd : strlen cmd < maxCmdLen - 1) :
    (table (addToHistory h cmd hcmd).entry (addToHistory h cmd hcmd).count).map CString.bytes =
      if strlen cmd = 0 then (table h.entry h.count).map CString.bytes
      else ((table h.entry h.count).map CString.bytes ++ [cmd.bytes]).drop
        (h.count + 1 - historySize) := by
  have hle := h.count_le
  rw [addToHistory]
  by_cases hempty : strlen cmd = 0
  · rw [if_pos hempty, if_pos hempty]
  rw [if_neg hempty, if_neg hempty]
  by_cases hcount : h.count < historySize
  · -- the list still grows
    have hroom : h.count + 1 ≤ historySize := hcount
    rw [dif_pos hcount, Nat.sub_eq_zero_of_le hroom, List.drop_zero]
    show (table (Function.update h.entry h.count cmd) (h.count + 1)).map CString.bytes = _
    rw [table_update_append, List.map_append]
    rfl
  · -- the first entry goes, the others move down
    have hfull : h.count = historySize := Nat.le_antisymm hle (Nat.not_lt.mp hcount)
    have hshift : (table (shiftDown h.entry 0 (historySize - 1)) (historySize - 1)).map CString.bytes
        = ((table h.entry historySize).map CString.bytes).drop 1 := by
      rw [table_shiftDown h.entry (by decide : 0 < historySize), List.eraseIdx_zero, ← List.drop_one,
        List.map_drop]
    have happend : table (Function.update (shiftDown h.entry 0 (historySize - 1))
        (historySize - 1) cmd) historySize =
        table (shiftDown h.entry 0 (historySize - 1)) (historySize - 1) ++ [cmd] :=
      table_update_append _ _ _
    have hone : h.count + 1 - historySize = 1 := by rw [hfull, Nat.add_sub_cancel_left]
    rw [dif_neg hcount, hone]
    dsimp only
    rw [hfull, happend, List.map_append, hshift,
      List.drop_append_of_le_length (by rw [List.length_map, length_table]; decide)]
    rfl

/-- `strcpy(cmd, command_history[history_pos]); pos = strlen(cmd);` -/
def recallEntry (h : History) (l : Line) : Line :=
  Line.next (strcpy l.cmd (h.entry h.pos)) (strlen (h.entry h.pos))

theorem length_cmdString (l : Line) :
    strlen (cmdString (Function.update l.cmd l.pos 0)) < maxCmdLen - 1 := by
  have hlt := l.pos_lt
  have hle := length_takeWhile_table (a := Function.update l.cmd l.pos 0)
    (p := fun c => c ≠ 0) (i := l.pos) (n := maxCmdLen) (by omega) (by simp)
  exact Nat.lt_of_le_of_lt hle hlt

/-- One character in the inner loop: line and history after it, and the command
executed on it. `execute_command` may cut `cmd` to pieces; nothing before the
next characters are written reads it. -/
def shellChar (h : History) (l : Line) (c : KeyChar) : Line × History × Option CString :=
  if c.val = 0x0A then
    let cmd := Function.update l.cmd l.pos 0
    (Line.start cmd, addToHistory h (cmdString cmd) (length_cmdString l), some (cmdString cmd))
  else if c.val = 0x08 then
    if hpos : l.pos > 0 then
      (⟨l.cmd, l.pos - 1, by have := l.pos_lt; omega⟩, h, none)
    else (l, h, none)
  else if c.val = 0x11 then
    if hpos : h.pos > 0 then
      let h' : History := { h with pos := h.pos - 1, pos_le := by have := h.pos_le; omega }
      (recallEntry h' l, h', none)
    else (l, h, none)
  else if c.val = 0x12 then
    if hpos : h.pos + 1 < h.count then
      let h' : History := { h with pos := h.pos + 1, pos_le := by omega }
      (recallEntry h' l, h', none)
    else (l, h, none)
  else if c.val = 0x13 ∨ c.val = 0x14 then (l, h, none)
  else (Line.next (Function.update l.cmd l.pos c.val) (l.pos + 1), h, none)

/-- The two loops on one character, as a step on line and history. -/
def shellStep (s : Line × History) (c : KeyChar) : Line × History :=
  let next := shellChar s.2 s.1 c
  (next.1, next.2.1)

/-- The string `execute_command` is called with. -/
def shellExecutes (s : Line × History) (c : KeyChar) : Option (List UInt8) :=
  (shellChar s.2 s.1 c).2.2.map CString.bytes

/-- The characters the editor acts on instead of storing them. -/
def editKeys : List UInt8 := [0x0A, 0x08, 0x11, 0x12, 0x13, 0x14]

/-- The chain of tests the editor makes. -/
theorem not_mem_editKeys {c : UInt8} : c ∉ editKeys ↔
    c ≠ 0x0A ∧ c ≠ 0x08 ∧ c ≠ 0x11 ∧ c ≠ 0x12 ∧ ¬ (c = 0x13 ∨ c = 0x14) := by
  simp only [editKeys, List.mem_cons, List.not_mem_nil, or_false, not_or, ne_eq]

/-- A character that edits nothing is stored. -/
theorem shellChar_typed {h : History} {l : Line} {c : KeyChar} (hc : c.val ∉ editKeys) :
    shellChar h l c = (Line.next (Function.update l.cmd l.pos c.val) (l.pos + 1), h, none) := by
  obtain ⟨hnl, hbs, hup, hdown, hside⟩ := not_mem_editKeys.mp hc
  rw [shellChar]
  rw [if_neg hnl, if_neg hbs, if_neg hup, if_neg hdown, if_neg hside]

/-- The character is stored, and that ends the inner loop. -/
def Line.Fills (l : Line) (c : KeyChar) : Prop :=
  c.val ∉ editKeys ∧ ¬ l.pos + 1 < maxCmdLen - 1

instance (l : Line) (c : KeyChar) : Decidable (l.Fills c) := inferInstanceAs (Decidable (_ ∧ _))

/-- A line that is full is given up. -/
theorem pos_of_fills {l : Line} {c : KeyChar} (hfills : l.Fills c) (h : History) :
    (shellStep (l, h) c).1.pos = 0 := by
  rw [shellStep]
  rw [shellChar_typed hfills.1]
  show (Line.next _ _).pos = 0
  rw [Line.next, dif_neg hfills.2]
  rfl

/-! ## What the editor is for -/

/-- The user's view of the line and of the lines before it, with no limit on either. -/
structure Editor where
  line : List UInt8
  entries : List (List UInt8)
  cursor : Nat

namespace Editor

/-- The editor at an empty line. -/
def start (h : History) : Editor :=
  ⟨[], (table h.entry h.count).map CString.bytes, h.pos⟩

/-- The command that is executed when the line is ended. -/
def command (e : Editor) : List UInt8 := e.line.take (maxCmdLen - 1)

/-- The last `HISTORY_SIZE` commands that were not empty. -/
def remember (e : Editor) : Editor :=
  if e.command = [] then { e with line := [] }
  else
    let entries := (e.entries ++ [e.command]).drop (e.entries.length + 1 - historySize)
    ⟨[], entries, entries.length⟩

/-- The line becomes the entry under the cursor. -/
def recallEntry (e : Editor) (cursor : Nat) : Editor :=
  { e with line := e.entries.getD cursor [], cursor := cursor }

/-- What one character does, in the user's view: up and down recall, left and right do
nothing. -/
def edit (e : Editor) (c : KeyChar) : Editor :=
  if c.val = 0x0A then e.remember
  else if c.val = 0x08 then { e with line := e.line.dropLast }
  else if c.val = 0x11 then if e.cursor > 0 then e.recallEntry (e.cursor - 1) else e
  else if c.val = 0x12 then if e.cursor + 1 < e.entries.length then e.recallEntry (e.cursor + 1) else e
  else if c.val = 0x13 ∨ c.val = 0x14 then e
  else { e with line := e.line ++ [c.val] }

/-- So it is in the user's view. -/
theorem edit_typed {e : Editor} {c : KeyChar} (hc : c.val ∉ editKeys) :
    e.edit c = { e with line := e.line ++ [c.val] } := by
  obtain ⟨hnl, hbs, hup, hdown, hside⟩ := not_mem_editKeys.mp hc
  rw [edit]
  rw [if_neg hnl, if_neg hbs, if_neg hup, if_neg hdown, if_neg hside]

/-- The line that Enter executes. -/
def executes (e : Editor) (c : KeyChar) : Option (List UInt8) :=
  if c.val = 0x0A then some e.command else none

/-- The edit leaves the line shorter than `MAX_CMD_LEN - 1`. -/
def Short (e : Editor) (c : KeyChar) : Prop := (e.edit c).line.length < maxCmdLen - 1

instance (e : Editor) (c : KeyChar) : Decidable (e.Short c) := inferInstanceAs (Decidable (_ < _))

end Editor

/-- At every newline `shell` executes the line the edits since the last one have
made. -/
def ExecutesTyped (cmd : Nat → UInt8) (h : History) (chars : List KeyChar) : Prop :=
  outputs shellStep shellExecutes (Line.start cmd, h) chars =
    outputs Editor.edit Editor.executes (Editor.start h) chars

/-- Line and history of `shell` are the editor's. -/
structure Edits (s : Line × History) (e : Editor) : Prop where
  line : table s.1.cmd s.1.pos = e.line
  nulFree : 0 ∉ e.line
  entries : (table s.2.entry s.2.count).map CString.bytes = e.entries
  cursor : s.2.pos = e.cursor

/-- An empty line is one in both views. -/
theorem edits_empty {line : Line} (hpos : line.pos = 0) (h : History) :
    Edits (line, h) (Editor.start h) where
  line := by
    show table line.cmd line.pos = []
    rw [hpos]
    rfl
  nulFree := List.not_mem_nil
  entries := rfl
  cursor := rfl

theorem edits_start (cmd : Nat → UInt8) (h : History) :
    Edits (Line.start cmd, h) (Editor.start h) := edits_empty rfl h

theorem table_strcpy (dst : Nat → UInt8) (src : CString) :
    table (strcpy dst src) (strlen src) = src.bytes := by
  refine List.ext_getElem (length_table _ _) fun i hi hi' => ?_
  simp [table, strcpy, List.getElem?_append_left hi', List.getElem?_eq_getElem hi']

namespace Edits

variable {l : Line} {h : History} {e : Editor}

theorem length_line (hs : Edits (l, h) e) : e.line.length = l.pos := by
  rw [← hs.line]
  exact length_table _ _

/-- What is executed is the line as it stands. -/
theorem cmdString_bytes (hs : Edits (l, h) e) :
    (cmdString (Function.update l.cmd l.pos 0)).bytes = e.command := by
  have hlt := l.pos_lt
  have htable : table (Function.update l.cmd l.pos 0) l.pos = e.line := by
    rw [← hs.line]
    exact table_congr fun k hk => Function.update_of_ne (by omega) _ _
  have hread : (table (Function.update l.cmd l.pos 0) maxCmdLen).takeWhile (· ≠ 0) = e.line := by
    rw [takeWhile_table (i := l.pos) (by omega) ?_ (by simp), htable]
    intro c hc
    rw [htable] at hc
    simpa using fun heq : c = 0 => hs.nulFree (heq ▸ hc)
  have hshort : e.line.take (maxCmdLen - 1) = e.line :=
    List.take_of_length_le (by rw [hs.length_line]; omega)
  rw [Editor.command, hshort]
  exact hread

/-- A character is typed, in both views. -/
theorem type (hs : Edits (l, h) e) (c : KeyChar) (hshort : l.pos + 1 < maxCmdLen - 1) :
    Edits (Line.next (Function.update l.cmd l.pos c.val) (l.pos + 1), h)
      { e with line := e.line ++ [c.val] } := by
  rw [Line.next, dif_pos hshort]
  refine ⟨?_, ?_, hs.entries, hs.cursor⟩
  · rw [table_update_append, hs.line]
  · intro hmem
    rcases List.mem_append.mp hmem with hline | hc
    · exact hs.nulFree hline
    · exact c.property (List.mem_singleton.mp hc).symm

/-- A line is recalled, in both views. -/
theorem recalled (hs : Edits (l, h) e) {h' : History} (hentry : h'.entry = h.entry)
    (hcount : h'.count = h.count) (hpos : h'.pos < h.count) :
    Edits (Srunix.recallEntry h' l, h') (e.recallEntry h'.pos) := by
  have hget : (table h'.entry h'.count).map CString.bytes = e.entries := by
    rw [hentry, hcount, hs.entries]
  have hline : e.entries.getD h'.pos [] = (h'.entry h'.pos).bytes := by
    rw [← hget]
    simp [table, hcount, hpos]
  rw [Srunix.recallEntry, Line.next, dif_pos (h'.entry_lt _ (by omega))]
  refine ⟨?_, ?_, hget, rfl⟩
  · show _ = e.entries.getD h'.pos []
    rw [hline]
    exact table_strcpy _ _
  · show 0 ∉ e.entries.getD h'.pos []
    rw [hline]
    exact (h'.entry h'.pos).nulFree

/-- Remembering a command is what `add_to_history` does to the table of entries. -/
theorem remembered (hs : Edits (l, h) e) (cmd : CString) (hcmd : strlen cmd < maxCmdLen - 1)
    (hbytes : cmd.bytes = e.command) (buf : Nat → UInt8) :
    Edits (Line.start buf, addToHistory h cmd hcmd) e.remember := by
  have hlen : e.entries.length = h.count := by
    rw [← hs.entries, List.length_map, length_table]
  have hentries := addToHistory_entries h cmd hcmd
  have hpos := addToHistory_pos h cmd hcmd
  rw [hs.entries] at hentries
  rw [Editor.remember]
  rw [← hbytes]
  by_cases hempty : strlen cmd = 0
  · rw [if_pos hempty] at hentries hpos
    rw [if_pos (List.length_eq_zero_iff.mp hempty)]
    exact ⟨rfl, List.not_mem_nil, hentries, hpos.trans hs.cursor⟩
  · rw [if_neg hempty] at hentries hpos
    rw [if_neg fun hnil => hempty (List.length_eq_zero_iff.mpr hnil), hlen]
    refine ⟨rfl, List.not_mem_nil, hentries, hpos.trans ?_⟩
    show _ = ((e.entries ++ [cmd.bytes]).drop (h.count + 1 - historySize)).length
    rw [← hentries, List.length_map, length_table]

/-- A character is taken back, in both views. -/
theorem erase (hs : Edits (l, h) e) (hlt : l.pos - 1 < maxCmdLen - 1) :
    Edits (⟨l.cmd, l.pos - 1, hlt⟩, h) { e with line := e.line.dropLast } := by
  refine ⟨?_, fun hmem => hs.nulFree ((List.dropLast_sublist _).subset hmem), hs.entries, hs.cursor⟩
  show table l.cmd (l.pos - 1) = e.line.dropLast
  rw [← hs.line, dropLast_table]

/-- One character keeps line and editor in step, unless it fills the line. -/
theorem step (hs : Edits (l, h) e) {c : KeyChar} (hroom : ¬ l.Fills c) :
    Edits (shellStep (l, h) c) (e.edit c) := by
  have hcount : e.entries.length = h.count := by
    rw [← hs.entries]
    simp [table]
  have hcursor : h.pos = e.cursor := hs.cursor
  have hlen := hs.length_line
  have hle := h.pos_le
  by_cases htyped : c.val ∉ editKeys
  · have hshort : l.pos + 1 < maxCmdLen - 1 := by
      by_contra hfull
      exact hroom ⟨htyped, hfull⟩
    rw [shellStep]
    rw [shellChar_typed htyped, Editor.edit_typed htyped]
    exact hs.type c hshort
  rw [shellStep, shellChar, Editor.edit]
  by_cases hnl : c.val = 0x0A
  · simp only [if_pos hnl]
    exact hs.remembered _ _ hs.cmdString_bytes _
  simp only [if_neg hnl]
  by_cases hbs : c.val = 0x08
  · simp only [if_pos hbs]
    by_cases hpos : l.pos > 0
    · rw [dif_pos hpos]
      exact hs.erase _
    · have hnil : e.line = [] := List.length_eq_zero_iff.mp (by omega)
      rw [dif_neg hpos, hnil]
      exact ⟨hs.line.trans hnil, List.not_mem_nil, hs.entries, hs.cursor⟩
  simp only [if_neg hbs]
  by_cases hup : c.val = 0x11
  · simp only [if_pos hup]
    by_cases hpos : h.pos > 0
    · rw [dif_pos hpos, if_pos (by omega), ← hcursor]
      exact hs.recalled rfl rfl (by show h.pos - 1 < h.count; omega)
    · rw [dif_neg hpos, if_neg (by omega)]
      exact hs
  simp only [if_neg hup]
  by_cases hdown : c.val = 0x12
  · simp only [if_pos hdown]
    by_cases hpos : h.pos + 1 < h.count
    · rw [dif_pos hpos, if_pos (by omega), ← hcursor]
      exact hs.recalled rfl rfl hpos
    · rw [dif_neg hpos, if_neg (by omega)]
      exact hs
  -- the two arrows to the sides are left
  have hside : c.val = 0x13 ∨ c.val = 0x14 := by
    by_contra hside
    exact htyped (not_mem_editKeys.mpr ⟨hnl, hbs, hup, hdown, hside⟩)
  simp only [if_neg hdown, if_pos hside]
  exact hs

theorem not_fills_of_short (hs : Edits (l, h) e) {c : KeyChar} (hshort : e.Short c) :
    ¬ l.Fills c := by
  rintro ⟨htyped, hfull⟩
  rw [Editor.Short] at hshort
  rw [Editor.edit_typed htyped] at hshort
  simp only [List.length_append, List.length_singleton, hs.length_line] at hshort
  exact hfull hshort

/-- Room in the buffer is all the condition asks for. -/
theorem short_of_not_fills (hs : Edits (l, h) e) {c : KeyChar} (hroom : ¬ l.Fills c) :
    e.Short c := by
  have hnext := hs.step hroom
  rw [Editor.Short, hnext.length_line]
  exact (shellStep (l, h) c).1.pos_lt

/-- Enter executes the same line in both views. -/
theorem executes (hs : Edits (l, h) e) (c : KeyChar) :
    shellExecutes (l, h) c = e.executes c := by
  rw [shellExecutes, shellChar, Editor.executes]
  by_cases hnl : c.val = 0x0A
  · simp only [if_pos hnl]
    exact congrArg some hs.cmdString_bytes
  · simp only [if_neg hnl]
    split_ifs <;> rfl

end Edits

/-- Line and history stay the editor's. -/
theorem Edits.run (cmd : Nat → UInt8) (h : History) {chars : List KeyChar}
    (hshort : Guarded Editor.edit Editor.Short (Editor.start h) chars) :
    Edits (runOps shellStep (Line.start cmd, h) chars)
      (runOps Editor.edit (Editor.start h) chars) := by
  have hstep : ∀ (s : Line × History) (e : Editor) (c : KeyChar), Edits s e → e.Short c →
      Edits (shellStep s c) (e.edit c) :=
    fun _ _ _ hs hok => hs.step (hs.not_fills_of_short hok)
  exact runOps_simulation hstep (edits_start cmd h) hshort

/-- **The line editor executes what was typed**, as long as the edited line stays
shorter than `MAX_CMD_LEN - 1`. -/
theorem executesTyped_of_short (cmd : Nat → UInt8) (h : History) (chars : List KeyChar)
    (hshort : Guarded Editor.edit Editor.Short (Editor.start h) chars) :
    ExecutesTyped cmd h chars :=
  outputs_eq_of_simulation (fun _ _ _ hs hok => hs.step (hs.not_fills_of_short hok)) (fun _ _ c hs _ => hs.executes c)
    (edits_start cmd h) hshort

instance (cmd : Nat → UInt8) (h : History) (chars : List KeyChar) :
    Decidable (ExecutesTyped cmd h chars) :=
  inferInstanceAs (Decidable (_ = _))

/-- The character of the Enter key. -/
def KeyChar.newline : KeyChar := ⟨0x0A, by decide⟩
/-- The character of the Backspace key. -/
def KeyChar.backspace : KeyChar := ⟨0x08, by decide⟩

theorem KeyChar.eq_newline_iff {c : KeyChar} : c.val = 0x0A ↔ c = .newline :=
  ⟨fun h => Subtype.ext h, fun h => congrArg Subtype.val h⟩

/-- `lx`, corrected to `ls`. -/
theorem executesTyped_of_short_ls :
    ExecutesTyped (fun _ => 0) History.boot
      [⟨0x6C, by decide⟩, ⟨0x78, by decide⟩, .backspace, ⟨0x73, by decide⟩, .newline] :=
  executesTyped_of_short _ _ _ (by decide)

/-- A line of 255 characters is dropped when the last one is typed, and newline
executes an empty one. -/
theorem not_executesTyped_full_line :
    ¬ ExecutesTyped (fun _ => 0) History.boot
      (List.replicate (maxCmdLen - 1) ⟨0x61, by decide⟩ ++ [.newline]) := by
  decide +kernel

/-! ## The condition is needed -/

theorem short_newline (e : Editor) : e.Short .newline := by
  have hline : (e.edit .newline).line = [] := by
    show e.remember.line = []
    rw [Editor.remember]
    split
    · rfl
    · rfl
  rw [Editor.Short, hline]
  decide

/-- Newline executes the empty command on an empty line. -/
theorem executes_empty {s : Line × History} (hpos : s.1.pos = 0) :
    shellExecutes s .newline = some [] :=
  (edits_empty hpos s.2).executes .newline

/-- **A line is executed as it was typed just when its last character is not the
one that fills it**, if no line before it was full. -/
theorem executesTyped_snoc_iff (cmd : Nat → UInt8) (h : History) {chars : List KeyChar}
    (hshort : Guarded Editor.edit Editor.Short (Editor.start h) chars) (c : KeyChar) :
    ExecutesTyped cmd h (chars ++ [c] ++ [.newline]) ↔
      (runOps Editor.edit (Editor.start h) chars).Short c := by
  constructor
  · intro htyped
    by_contra hlong
    have hedits := Edits.run cmd h hshort
    have hfills : (runOps shellStep (Line.start cmd, h) chars).1.Fills c := by
      by_contra hroom
      exact hlong (hedits.short_of_not_fills hroom)
    -- `shell` has given the line up, the editor has not
    have hgiven : shellExecutes (runOps shellStep (Line.start cmd, h) (chars ++ [c])) .newline
        = some [] := by
      rw [runOps_snoc]
      exact executes_empty (pos_of_fills hfills _)
    have hkept : (runOps Editor.edit (Editor.start h) (chars ++ [c])).command ≠ [] := by
      rw [runOps_snoc, Editor.command, ne_eq, List.take_eq_nil_iff, Editor.edit_typed hfills.1]
      simp [maxCmdLen]
    have hshell : outputs shellStep shellExecutes
        (runOps shellStep (Line.start cmd, h) (chars ++ [c])) [.newline] = [[]] := by
      rw [outputs, hgiven]
      rfl
    have heditor : outputs Editor.edit Editor.executes
        (runOps Editor.edit (Editor.start h) (chars ++ [c])) [.newline]
        = [(runOps Editor.edit (Editor.start h) (chars ++ [c])).command] := rfl
    rw [ExecutesTyped, outputs_append, outputs_append Editor.edit, hshell, heditor] at htyped
    exact hkept (List.singleton_inj.mp (List.append_inj' htyped rfl).2).symm
  · intro hok
    refine executesTyped_of_short cmd h _ (guarded_snoc.mpr ⟨guarded_snoc.mpr ⟨hshort, hok⟩, ?_⟩)
    exact short_newline _

end Srunix
