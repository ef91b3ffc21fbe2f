import Srunix.Library.Silent
import Srunix.Console.Credentials
import Srunix.Console.Lines
import Srunix.Console.PrintfCalls

/-!
# Sessions at the keyboard

What a user sits down to do, one entry at a time: log in, write a line (and
correct it, or fetch an older one), wake a command that waits, change terminals.
`Seat` is what a user has to know in order to tell what the keys will do; the
stack of calls does what `Seat` says (`session_events`).
-/

namespace Srunix

open Library

/-- What a key makes the kernel do, apart from editing a line or a field. -/
inductive Event where
  /-- A line is executed while a terminal is current. -/
  | ran (tty : Nat) (cmd : CString)
  | moved (tty : Fin maxTtys)
  deriving DecidableEq

/-- What a key comes to: the line it executes, or the terminal it switches to. -/
def Console.event (c : Console) : Key → Option Event
  | .function ttyNum =>
    match c.stack with
    | .halted :: _ | [] => none
    | _ => some (.moved ttyNum)
  | .char ch => (c.executed (.char ch)).map (.ran c.currentTty)

/-! ## Entries -/

/-- One thing a user does at a seat. -/
inductive Entry where
  | login (user pass : List KeyChar)
  /-- What is typed before Enter, corrections and recalls included. -/
  | line (text : List KeyChar)
  /-- Any character, for a command that waits for one. -/
  | wake (ch : KeyChar)
  | switch (ttyNum : Fin maxTtys)

/-- The keys of an entry. -/
def Entry.keys : Entry → List Key
  | .login user pass => Console.loginKeys user pass
  | .line text => text.map .char ++ [.enter]
  | .wake ch => [.char ch]
  | .switch ttyNum => [.function ttyNum]

/-- What the user has to know: the terminal, who is logged in where, the lines that
can be recalled, and whether a command waits for a key. -/
structure Seat where
  tty : Nat
  loggedIn : Nat → Bool
  /-- The lines executed before, which all terminals share. -/
  editor : Editor
  waiting : Bool

namespace Seat

/-- The first login screen. -/
def boot : Seat := ⟨0, fun _ => false, Editor.start History.boot, false⟩

/-- There is a line to type at. -/
def AtLine (s : Seat) : Prop := s.loggedIn s.tty = true ∧ s.waiting = false

/-- The line after the text is typed. -/
def typed (s : Seat) (text : List KeyChar) : Editor := runOps Editor.edit s.editor text

/-- The line the text comes to. -/
def command (s : Seat) (text : List KeyChar) : CString := arrayString (s.typed text).command

/-- The terminal in front of the user is marked. -/
def setLoggedIn (s : Seat) (loggedIn : Bool) : Seat :=
  { s with loggedIn := Function.update s.loggedIn s.tty loggedIn }

/-- Where a command of that kind leaves the user. -/
def executed (s : Seat) : CommandKind → Seat
  | .exit => s.setLoggedIn false
  | .waits => { s with waiting := true }
  | .returns | .shell | .halts => s

/-- What an entry does, in the user's view. A line is remembered and executed, a login
counts if it is `root` with `1`. -/
def step (s : Seat) : Entry → Seat
  | .login user pass =>
    if Console.typedField user = "root" ∧ Console.typedField pass = "1" then s.setLoggedIn true else s
  | .line text =>
    executed { s with editor := (s.typed text).remember } (commandKind (s.command text))
  | .wake _ => { s with waiting := false }
  | .switch ttyNum => { s with tty := ttyNum }

/-- What can be done at a seat. `1` with the password `1` marks the terminal as
logged in without a shell, and terminals are changed between two lines only. -/
def Allows (s : Seat) : Entry → Prop
  | .login user pass =>
    s.loggedIn s.tty = false ∧ KeyChar.newline ∉ user ∧ KeyChar.newline ∉ pass ∧
      ¬ (Console.typedField user = "1" ∧ Console.typedField pass = "1")
  | .line text =>
    s.AtLine ∧ KeyChar.newline ∉ text ∧ Guarded Editor.edit Editor.Short s.editor text ∧
      commandKind (s.command text) ≠ .halts
  | .wake _ => s.waiting = true
  | .switch _ => s.AtLine

/-- What an entry comes to for the files and the terminals. -/
def event (s : Seat) : Entry → Option Event
  | .line text => some (.ran s.tty (s.command text))
  | .switch ttyNum => some (.moved ttyNum)
  | .login .. | .wake _ => none

end Seat

namespace Console

/-- The stack of calls is where the user thinks it is. -/
structure AtSeat (c : Console) (s : Seat) : Prop where
  tty : c.currentTty = s.tty
  loggedIn : c.loggedIn = s.loggedIn
  history : Edits (Line.start fun _ => 0, c.history) s.editor
  login : s.loggedIn s.tty = false →
    s.waiting = false ∧ ∃ rest, c.stack = .username CString.empty :: rest
  line : s.AtLine → AtEmptyLine c
  wait : s.waiting = true →
    s.loggedIn s.tty = true ∧ ∃ line rest, c.stack = .wait :: .shell line :: rest ∧ line.pos = 0

theorem atSeat_boot : AtSeat Console.boot Seat.boot where
  tty := rfl
  loggedIn := rfl
  history := edits_start _ History.boot
  login _ := ⟨rfl, [], rfl⟩
  line h := by cases h.1
  wait h := by cases h

/-- Only a shell executes lines. -/
theorem event_of_not_shell {c : Console} {ch : KeyChar}
    (h : ∀ line rest, c.stack ≠ .shell line :: rest) : c.event (.char ch) = none := by
  show (c.executed (.char ch)).map _ = none
  rw [executed_of_not_shell h]
  rfl

/-! ## A line -/

/-- Whatever lies behind an empty line does not count. -/
theorem edits_of_empty {c : Console} {e : Editor} (h : Edits (Line.start fun _ => 0, c.history) e)
    {line : Line} (hpos : line.pos = 0) : Edits (line, c.history) e where
  line := by
    have hline : table line.cmd line.pos = [] := by rw [hpos]; rfl
    exact hline.trans h.line
  nulFree := h.nulFree
  entries := h.entries
  cursor := h.cursor

theorem not_executed {line : Line} {h : History} {e : Editor} (hedits : Edits (line, h) e)
    {ch : KeyChar} (hnl : ch ≠ .newline) : (shellChar h line ch).2.2 = none := by
  have hexec := hedits.executes ch
  rw [Editor.executes, if_neg fun heq => hnl (KeyChar.eq_newline_iff.mp heq)] at hexec
  exact Option.map_eq_none_iff.mp hexec

/-- One character of a line. -/
theorem press_edit {c : Console} {line : Line} {rest : List Frame} (hstack : c.stack = .shell line :: rest)
    {e : Editor} (hedits : Edits (line, c.history) e) {ch : KeyChar} (hnl : ch ≠ .newline) :
    c.press (.char ch) = c.edited line rest ch ∧ c.event (.char ch) = none := by
  have hnone := not_executed hedits hnl
  have hexec : c.executed (.char ch) = none := (executed_shell hstack ch).trans hnone
  refine ⟨?_, ?_⟩
  · rw [press_shell hstack, shellKey, hnone]
  · show (c.executed (.char ch)).map _ = none
    rw [hexec]
    rfl

/-- The characters of a line are edits and nothing else. -/
theorem run_edits {c : Console} {line : Line} {rest : List Frame} (hstack : c.stack = .shell line :: rest)
    {e : Editor} (hedits : Edits (line, c.history) e) {text : List KeyChar} (hnl : KeyChar.newline ∉ text)
    (hshort : Guarded Editor.edit Editor.Short e text) :
    outputs Console.press Console.event c (text.map .char) = [] ∧
      ∃ line' h', runOps Console.press c (text.map .char)
          = { c with stack := .shell line' :: rest, history := h' } ∧
        Edits (line', h') (runOps Editor.edit e text) := by
  -- the induction is on the text; a character edits the line and executes nothing
  induction text generalizing c line e with
  | nil =>
    refine ⟨rfl, line, c.history, ?_, hedits⟩
    rw [← hstack]
    rfl
  | cons ch text ih =>
    obtain ⟨hch, htext⟩ := not_or.mp (List.mem_cons.not.mp hnl)
    obtain ⟨hpress, hevent⟩ := press_edit hstack hedits fun heq : ch = .newline => hch heq.symm
    have hstep := hedits.step (hedits.not_fills_of_short hshort.1)
    have hstack' : (c.edited line rest ch).stack = .shell (shellStep (line, c.history) ch).1 :: rest := rfl
    obtain ⟨hout, line', h', hrun, hedits'⟩ := ih hstack' hstep htext hshort.2
    refine ⟨?_, line', h', ?_, hedits'⟩
    · rw [List.map_cons, outputs, hevent, hpress, hout]
      rfl
    · rw [List.map_cons, runOps_cons, hpress, hrun]
      rfl

/-- A command leads where the user expects. -/
theorem executeCommand_atSeat {c : Console} {line : Line} {rest : List Frame} {s : Seat} {cmd : CString}
    (hstack : c.stack = .shell line :: rest) (hpos : line.pos = 0) (htty : c.currentTty = s.tty)
    (hflags : c.loggedIn = s.loggedIn) (hhistory : Edits (Line.start fun _ => 0, c.history) s.editor)
    (hat : s.AtLine) (hkind : commandKind cmd ≠ .halts) :
    AtSeat (c.executeCommand cmd) (s.executed (commandKind cmd)) := by
  have hlogin : s.loggedIn s.tty ≠ false := by
    rw [hat.1]
    exact Bool.noConfusion
  have hwait : s.waiting ≠ true := by
    rw [hat.2]
    exact Bool.noConfusion
  rw [executeCommand]
  cases hcmd : commandKind cmd with
  | halts => exact absurd hcmd hkind
  -- the last two parts of `AtSeat` are vacuous at a line
  | returns =>
    exact ⟨htty, hflags, hhistory, fun h => absurd h hlogin, fun _ => ⟨line, rest, hstack, hpos⟩,
      fun h => absurd h hwait⟩
  | shell =>
    exact ⟨htty, hflags, hhistory, fun h => absurd h hlogin, fun _ => ⟨_, c.stack, rfl, rfl⟩,
      fun h => absurd h hwait⟩
  | waits =>
    exact ⟨htty, hflags, hhistory, fun h => absurd h hlogin, fun h => absurd h.2.symm Bool.noConfusion,
      fun _ => ⟨hat.1, line, rest, congrArg (Frame.wait :: ·) hstack, hpos⟩⟩
  | exit =>
    have hout : (s.setLoggedIn false).loggedIn s.tty = false := Function.update_self ..
    have hupdate : (c.setLoggedIn false).loggedIn = (s.setLoggedIn false).loggedIn := by
      rw [setLoggedIn, Seat.setLoggedIn, htty, hflags]
    exact ⟨htty, hupdate, hhistory, fun _ => ⟨hat.2, c.stack, rfl⟩,
      fun h => absurd (hout.symm.trans h.1) Bool.noConfusion, fun h => absurd h hwait⟩

/-- Enter at the end of a line. -/
theorem press_enter {c : Console} {line : Line} {rest : List Frame} (hstack : c.stack = .shell line :: rest)
    {e : Editor} (hedits : Edits (line, c.history) e) :
    ∃ line' h', c.press .enter
        = executeCommand { c with stack := .shell line' :: rest, history := h' } (arrayString e.command) ∧
      line'.pos = 0 ∧ Edits (line', h') e.remember ∧
      c.event .enter = some (.ran c.currentTty (arrayString e.command)) := by
  have hexec : shellExecutes (line, c.history) .newline = some e.command := hedits.executes .newline
  obtain ⟨cmd, hcmd, hbytes⟩ := Option.map_eq_some_iff.mp hexec
  -- the executed line is what the editor holds up to its NUL
  have hstring : cmd = arrayString e.command := by
    refine CString.ext ?_
    rw [hbytes]
    exact (List.takeWhile_eq_self_iff.mpr fun b hb => by
      have hnul : b ≠ 0 := fun hzero => cmd.nulFree (by rw [hbytes, ← hzero]; exact hb)
      simpa using hnul).symm
  have hstep : Edits (shellStep (line, c.history) .newline) e.remember :=
    hedits.step (hedits.not_fills_of_short (short_newline e))
  refine ⟨(shellStep (line, c.history) .newline).1, (shellStep (line, c.history) .newline).2, ?_,
    (pos_of_executes hcmd).2, hstep, ?_⟩
  · rw [press_shell hstack, shellKey, hcmd, ← hstring]
    rfl
  · show (c.executed (.char .newline)).map _ = _
    rw [executed_shell hstack, hcmd, hstring]
    rfl

/-- A line is executed as it was typed, and nothing else is. -/
theorem atSeat_line {c : Console} {s : Seat} (h : AtSeat c s) {text : List KeyChar}
    (hok : s.Allows (.line text)) :
    AtSeat (runOps Console.press c (Entry.line text).keys) (s.step (.line text)) ∧
      outputs Console.press Console.event c (Entry.line text).keys = [.ran s.tty (s.command text)] := by
  obtain ⟨hat, hnl, hshort, hkind⟩ := hok
  obtain ⟨line, rest, hstack, hpos⟩ := h.line hat
  obtain ⟨hout, line₁, h₁, hrun, hedits⟩ :=
    run_edits hstack (edits_of_empty h.history hpos) hnl hshort
  obtain ⟨line₂, h₂, hpress, hpos₂, hremember, hevent⟩ :=
    press_enter (c := { c with stack := .shell line₁ :: rest, history := h₁ }) rfl hedits
  have hkeys : (Entry.line text).keys = text.map .char ++ [.enter] := rfl
  refine ⟨?_, ?_⟩
  · rw [hkeys, runOps_append, hrun, runOps_cons, hpress]
    have hempty : (s.typed text).remember.line = [] :=
      hremember.line.symm.trans (by rw [hpos₂]; rfl)
    have hhistory : Edits (Line.start fun _ => 0, h₂) (s.typed text).remember :=
      ⟨hempty.symm, hremember.nulFree, hremember.entries, hremember.cursor⟩
    exact executeCommand_atSeat rfl hpos₂ h.tty h.loggedIn hhistory hat hkind
  · rw [hkeys, outputs_append, hout, hrun, outputs, hevent, ← h.tty]
    rfl

/-! ## The other entries -/

/-- Until Enter after the password nothing happens but in the fields. -/
theorem outputs_field {frame : CString → Frame} (hshell : ∀ field line, frame field ≠ .shell line)
    (hframe : ∀ (c : Console) (field : CString) (rest : List Frame) (ch : KeyChar),
      c.stack = frame field :: rest → ch ≠ .newline →
      c.press (.char ch) = { c with stack := frame (fieldChar field ch) :: rest })
    {chars : List KeyChar} (hnl : KeyChar.newline ∉ chars) {c : Console} {field : CString}
    {rest : List Frame} (hstack : c.stack = frame field :: rest) :
    outputs Console.press Console.event c (chars.map .char) = [] := by
  induction chars generalizing c field with
  | nil => rfl
  | cons ch chars ih =>
    obtain ⟨hch, hchars⟩ := not_or.mp (List.mem_cons.not.mp hnl)
    have hevent : c.event (.char ch) = none := event_of_not_shell fun line rest' heq =>
      hshell field line (List.cons.inj (hstack.symm.trans heq)).1
    rw [List.map_cons, outputs, hevent, hframe c field rest ch hstack fun heq => hch heq.symm]
    exact ih hchars rfl

/-- Both fields are in. -/
theorem finishLogin_atSeat {c : Console} {s : Seat} (htty : c.currentTty = s.tty)
    (hflags : c.loggedIn = s.loggedIn) (hhistory : Edits (Line.start fun _ => 0, c.history) s.editor)
    (hflag : s.loggedIn s.tty = false) (hwait : s.waiting = false) {user pass : List KeyChar}
    (hone : ¬ (typedField user = "1" ∧ typedField pass = "1")) :
    AtSeat (c.finishLogin (typedField user) (typedField pass)) (s.step (.login user pass)) := by
  have hone' : ¬ (strcmp (typedField user) "1" = 0 ∧ strcmp (typedField pass) "1" = 0) := fun h =>
    hone ⟨strcmp_eq_zero_iff.mp h.1, strcmp_eq_zero_iff.mp h.2⟩
  have hroot : (strcmp (typedField user) "root" = 0 ∧ strcmp (typedField pass) "1" = 0) ↔
      (typedField user = "root" ∧ typedField pass = "1") :=
    and_congr strcmp_eq_zero_iff strcmp_eq_zero_iff
  rw [finishLogin, if_neg hone', Seat.step]
  by_cases hin : typedField user = "root" ∧ typedField pass = "1"
  · rw [if_pos (hroot.mpr hin), if_pos hin]
    have hupdate : (c.setLoggedIn true).loggedIn = (s.setLoggedIn true).loggedIn := by
      rw [setLoggedIn, Seat.setLoggedIn, htty, hflags]
    have hnow : (s.setLoggedIn true).loggedIn s.tty = true := Function.update_self ..
    exact ⟨htty, hupdate, hhistory, fun hout => absurd (hnow.symm.trans hout) Bool.noConfusion,
      fun _ => ⟨_, c.stack, rfl, rfl⟩, fun htrue => absurd (hwait.symm.trans htrue) Bool.noConfusion⟩
  · rw [if_neg fun h => hin (hroot.mp h), if_neg hin]
    exact ⟨htty, hflags, hhistory, fun _ => ⟨hwait, c.stack, rfl⟩,
      fun hat => absurd (hflag.symm.trans hat.1) Bool.noConfusion,
      fun htrue => absurd (hwait.symm.trans htrue) Bool.noConfusion⟩

/-- A character for a login screen makes nothing happen. -/
theorem event_of_fields {c : Console} {ch : KeyChar} {rest : List Frame}
    (h : ∃ user, c.stack = .username user :: rest ∨ ∃ pass, c.stack = .password user pass :: rest) :
    c.event (.char ch) = none := by
  refine event_of_not_shell fun line rest' heq => ?_
  obtain ⟨user, hstack | ⟨pass, hstack⟩⟩ := h
  · cases hstack.symm.trans heq
  · cases hstack.symm.trans heq

/-- A login executes nothing. -/
theorem atSeat_login {c : Console} {s : Seat} (h : AtSeat c s) {user pass : List KeyChar}
    (hok : s.Allows (.login user pass)) :
    AtSeat (runOps Console.press c (loginKeys user pass)) (s.step (.login user pass)) ∧
      outputs Console.press Console.event c (loginKeys user pass) = [] := by
  obtain ⟨hflag, huser, hpass, hone⟩ := hok
  obtain ⟨hwait, rest, hstack⟩ := h.login hflag
  have hfields := runOps_fields hstack huser hpass
  have hkeys : loginKeys user pass = (user.map .char ++ .enter :: pass.map .char) ++ [.enter] := by
    rw [loginKeys, List.append_assoc, List.cons_append]
  let c₁ : Console := { c with stack := .username (typedField user) :: rest }
  let c₂ : Console := { c with stack := .password (typedField user) CString.empty :: rest }
  let c₃ : Console := { c with stack := .password (typedField user) (typedField pass) :: rest }
  refine ⟨?_, ?_⟩
  · rw [hkeys, runOps_append, hfields]
    exact finishLogin_atSeat (c := c₃) h.tty h.loggedIn h.history hflag hwait hone
  -- neither field executes anything, nor do the two Enters
  · have husers := outputs_field (fun _ _ heq => by cases heq) (fun _ _ _ _ => press_username_char) huser hstack
    have hpasses : outputs Console.press Console.event c₂ (pass.map .char) = [] :=
      outputs_field (fun _ _ heq => by cases heq) (fun _ _ _ _ => press_password_char) hpass rfl
    have hevent₁ : c₁.event .enter = none := event_of_fields ⟨_, .inl rfl⟩
    have hevent₃ : c₃.event .enter = none := event_of_fields ⟨_, .inr ⟨_, rfl⟩⟩
    rw [hkeys, outputs_append, hfields, outputs_append, husers,
      runOps_field (fun _ _ _ _ => press_username_char) user huser c _ rest hstack, outputs, outputs]
    show [] ++ ((c₁.event .enter).toList ++ outputs Console.press Console.event c₂ (pass.map .char)) ++
      ((c₃.event .enter).toList ++ outputs Console.press Console.event _ []) = []
    rw [hevent₁, hpasses, hevent₃]
    rfl

/-- A key for a command that waits executes nothing. -/
theorem atSeat_wake {c : Console} {s : Seat} (h : AtSeat c s) {ch : KeyChar}
    (hok : s.Allows (.wake ch)) :
    AtSeat (c.press (.char ch)) (s.step (.wake ch)) ∧ c.event (.char ch) = none := by
  obtain ⟨hflag, line, rest, hstack, hpos⟩ := h.wait hok
  refine ⟨?_, event_of_not_shell fun line' rest' heq => ?_⟩
  · rw [press_wait hstack]
    exact ⟨h.tty, h.loggedIn, h.history, fun hout => absurd (hflag.symm.trans hout) Bool.noConfusion,
      fun _ => ⟨line, rest, rfl, hpos⟩, fun hwait => absurd hwait Bool.noConfusion⟩
  · rw [hstack] at heq
    cases heq

/-- A switch leads to the other terminal and executes nothing. -/
theorem atSeat_switch {c : Console} {s : Seat} (h : AtSeat c s) {ttyNum : Fin maxTtys}
    (hok : s.Allows (.switch ttyNum)) :
    AtSeat (c.press (.function ttyNum)) (s.step (.switch ttyNum)) ∧
      c.event (.function ttyNum) = some (.moved ttyNum) := by
  obtain ⟨line, rest, hstack, hpos⟩ := h.line hok
  have hwait : s.waiting ≠ true := by
    rw [hok.2]
    exact Bool.noConfusion
  refine ⟨?_, ?_⟩
  · rw [press_function hstack Frame.noConfusion, switchTty]
    dsimp only
    have hflag : c.loggedIn ttyNum = s.loggedIn ttyNum := congrFun h.loggedIn ttyNum
    -- a terminal somebody is logged in on shows its line, another one asks for a login
    split
    · rename_i hin
      exact ⟨rfl, h.loggedIn, h.history, fun hout => absurd (hin.symm.trans (hflag.trans hout)) Bool.noConfusion,
        fun _ => ⟨line, rest, hstack, hpos⟩, fun htrue => absurd htrue hwait⟩
    · rename_i hout
      exact ⟨rfl, h.loggedIn, h.history, fun _ => ⟨hok.2, c.stack, rfl⟩,
        fun hat => absurd (hflag.trans hat.1) hout, fun htrue => absurd htrue hwait⟩
  · unfold event
    rw [hstack]

/-! ## Sessions -/

/-- **What the keys of a session do** is what its entries say, and nothing else:
every line is executed as it stands, on the terminal it was typed at. -/
theorem session_events {entries : List Entry} (h : Guarded Seat.step Seat.Allows Seat.boot entries) :
    AtSeat (after (entries.flatMap Entry.keys)) (runOps Seat.step Seat.boot entries) ∧
      outputs Console.press Console.event Console.boot (entries.flatMap Entry.keys)
        = outputs Seat.step Seat.event Seat.boot entries := by
  refine spelt_simulation ?_ atSeat_boot h
  intro c s e hat hok
  cases e with
  | login user pass => exact atSeat_login hat hok
  | line text => exact atSeat_line hat hok
  | wake ch =>
    obtain ⟨hseat, hevent⟩ := atSeat_wake hat hok
    refine ⟨hseat, ?_⟩
    show (c.event (.char ch)).toList ++ [] = []
    rw [hevent]
    rfl
  | switch ttyNum =>
    obtain ⟨hseat, hevent⟩ := atSeat_switch hat hok
    refine ⟨hseat, ?_⟩
    show (c.event (.function ttyNum)).toList ++ [] = [.moved ttyNum]
    rw [hevent]
    rfl

end Console

end Srunix
