import Srunix.Console.Line
import Srunix.Shell.Isolation

/-!
# The console (`login_screen`, `shell`, `execute_command`, `keyboard_getchar`)

Nothing in the kernel runs beside the keys: each key reaches the innermost call
that waits in `keyboard_getchar`. A `Console` is the stack of these calls, with
the globals they share. Function keys act in the middle of any of them:
`switch_tty` calls `login_screen` from inside `keyboard_getchar`, and neither
`login_screen` nor `shell` ever returns. The mouse stays disabled.

What the calls print, and what the commands do to the files, is in the other
modules; `commandKind` is all that matters here of a command.
-/

namespace Srunix

open Library

/-- What `keyboard_getchar` does for its caller: return a character, or switch
terminals (F1 to F9) and read on. -/
inductive Key where
  | char (c : KeyChar)
  | function (ttyNum : Fin maxTtys)
deriving DecidableEq

/-- The Enter key. -/
abbrev Key.enter : Key := .char .newline

/-! ## Commands -/

/-- `if (*p >= 'A' && *p <= 'Z') *p += 32;` -/
def toLower (c : UInt8) : UInt8 := if 0x41 ≤ c ∧ c ≤ 0x5A then c + 32 else c

/-- `args[0]` of `execute_command`; empty if there is no token. -/
def firstToken (cmd : CString) : List UInt8 :=
  ((cmd.bytes.map toLower).dropWhile (· = 0x20)).takeWhile (· ≠ 0x20)

/-- Where control is after a command. -/
inductive CommandKind where
  /-- Back in the loop of `shell`. -/
  | returns
  /-- In a new `shell`. -/
  | shell
  /-- In a `keyboard_getchar` that takes any character: `pause`, `info`, `z`. -/
  | waits
  | exit
  /-- In a `while (1)` for good. -/
  | halts
deriving DecidableEq

/-- The chain of comparisons of `execute_command`; `args[0]` is in lower case. -/
def commandKind (cmd : CString) : CommandKind :=
  let word := firstToken cmd
  if word = CString.bytes "sh" ∨ word = CString.bytes "srunix64" then .shell
  else if word = CString.bytes "pause" ∨ word = CString.bytes "info" ∨ word = CString.bytes "z" then
    .waits
  else if word = CString.bytes "exit" then .exit
  else if word = CString.bytes "poweroff" ∨ word = CString.bytes "shutdown" ∨
      word = CString.bytes "reboot" ∨ word = CString.bytes "restart" then .halts
  else .returns

/-! ## Frames -/

/-- `username[pos++] = c;` and `username[--pos] = '\0';` on the 32 bytes of a
field of `login_screen`, which are zero behind `pos`. -/
def fieldChar (field : CString) (c : KeyChar) : CString :=
  if c.val = 0x08 then
    ⟨field.bytes.dropLast, fun h => field.nulFree ((List.dropLast_sublist _).subset h)⟩
  else if strlen field < 31 then
    ⟨field.bytes ++ [c.val], fun h => (List.mem_append.mp h).elim field.nulFree fun hc =>
      c.property (List.mem_singleton.mp hc).symm⟩
  else field

/-- A call that waits for a key, or has made the call above it. -/
inductive Frame where
  /-- `login_screen` at its first loop. -/
  | username (username : CString)
  /-- `login_screen` at its second loop. -/
  | password (username password : CString)
  /-- `shell` at its inner loop. -/
  | shell (line : Line)
  /-- A command that waits for a key. -/
  | wait
  | halted

/-- The calls that wait for keys, and what they share. The kernel has one stack for
nine terminals, so it is here once. -/
structure Console where
  /-- Innermost call first. -/
  stack : List Frame
  currentTty : Nat
  loggedIn : Nat → Bool
  history : History

namespace Console

/-- As `kernel_main` calls `login_screen`. -/
def boot : Console := ⟨[.username CString.empty], 0, fun _ => false, History.boot⟩

/-- A call of `login_screen`. -/
def callLogin (c : Console) : Console := { c with stack := .username CString.empty :: c.stack }

/-- A call of `shell`. `cmd` is not initialised; nothing reads it before it is
written. -/
def callShell (c : Console) : Console := { c with stack := .shell (Line.start fun _ => 0) :: c.stack }

/-- `ttys[current_tty].logged_in = …;` -/
def setLoggedIn (c : Console) (loggedIn : Bool) : Console :=
  { c with loggedIn := Function.update c.loggedIn c.currentTty loggedIn }

/-- `switch_tty`, as far as the calls go: at a terminal nobody is logged in on it
calls `login_screen`, on top of what was there. -/
def switchTty (c : Console) (ttyNum : Fin maxTtys) : Console :=
  let c := { c with currentTty := ttyNum }
  if c.loggedIn c.currentTty then c else c.callLogin

/-- The end of `login_screen`, from the comparison with `"1"` on. -/
def finishLogin (c : Console) (username password : CString) : Console :=
  let c := if strcmp username "1" = 0 ∧ strcmp password "1" = 0 then c.setLoggedIn true else c
  if strcmp username "root" = 0 ∧ strcmp password "1" = 0 then (c.setLoggedIn true).callShell
  else c.callLogin

/-- What the command does to the stack of calls. -/
def executeCommand (c : Console) (cmd : CString) : Console :=
  match commandKind cmd with
  | .returns => c
  | .shell => c.callShell
  | .waits => { c with stack := .wait :: c.stack }
  | .exit => (c.setLoggedIn false).callLogin
  | .halts => { c with stack := .halted :: c.stack }

/-- The command `execute_command` is called with when the key is read. -/
def executed (c : Console) : Key → Option CString
  | .function _ => none
  | .char ch =>
    match c.stack with
    | .shell line :: _ => (shellChar c.history line ch).2.2
    | _ => none

/-- Line and history after a character in `shell`, called by `rest`. -/
def edited (c : Console) (line : Line) (rest : List Frame) (ch : KeyChar) : Console :=
  let next := shellStep (line, c.history) ch
  { c with stack := .shell next.1 :: rest, history := next.2 }

/-- A character in `shell`. -/
def shellKey (c : Console) (line : Line) (rest : List Frame) (ch : KeyChar) : Console :=
  match (shellChar c.history line ch).2.2 with
  | none => c.edited line rest ch
  | some cmd => (c.edited line rest ch).executeCommand cmd

/-- A character for the innermost call. -/
def charKey (c : Console) (ch : KeyChar) : Console :=
  match c.stack with
  | .username username :: rest =>
    if ch.val = 0x0A then { c with stack := .password username CString.empty :: rest }
    else { c with stack := .username (fieldChar username ch) :: rest }
  | .password username password :: rest =>
    if ch.val = 0x0A then c.finishLogin username password
    else { c with stack := .password username (fieldChar password ch) :: rest }
  | .shell line :: rest => c.shellKey line rest ch
  | .wait :: rest => { c with stack := rest }
  | .halted :: _ | [] => c

/-- One key, read by the innermost call. A function key goes to `switch_tty`,
whichever call reads it. -/
def press (c : Console) : Key → Console
  | .char ch => c.charKey ch
  | .function ttyNum =>
    match c.stack with
    | .halted :: _ | [] => c
    | _ => c.switchTty ttyNum

/-- The console after a list of keys, from boot. -/
def after (keys : List Key) : Console := runOps press boot keys

/-! ## The key, for the call that reads it -/

section

variable {c : Console} {rest : List Frame} {user pass : CString} {ch : KeyChar}

/-- A key where no call waits for one. -/
theorem press_idle (hstack : c.stack = [] ∨ ∃ rest, c.stack = .halted :: rest) (k : Key) :
    c.press k = c := by
  cases k <;> rcases hstack with hnil | ⟨rest, hhalted⟩ <;> simp only [press, charKey, *]

/-- A function key goes to `switch_tty`, whichever call reads it. -/
theorem press_function {frame : Frame} (hstack : c.stack = frame :: rest) (hreads : frame ≠ .halted)
    (ttyNum : Fin maxTtys) : c.press (.function ttyNum) = c.switchTty ttyNum := by
  rw [press, hstack]
  cases frame with
  | halted => exact absurd rfl hreads
  | username | password | shell | wait => rfl

/-- A character for the name. -/
theorem press_username_char (hstack : c.stack = .username user :: rest) (hnl : ch ≠ .newline) :
    c.press (.char ch) = { c with stack := .username (fieldChar user ch) :: rest } := by
  have hval : ch.val ≠ 0x0A := mt KeyChar.eq_newline_iff.mp hnl
  simp [press, charKey, hstack, hval]

/-- Enter behind the name. -/
theorem press_username_enter (hstack : c.stack = .username user :: rest) :
    c.press .enter = { c with stack := .password user CString.empty :: rest } := by
  simp [press, charKey, hstack, KeyChar.newline]

/-- A character for the password. -/
theorem press_password_char (hstack : c.stack = .password user pass :: rest) (hnl : ch ≠ .newline) :
    c.press (.char ch) = { c with stack := .password user (fieldChar pass ch) :: rest } := by
  have hval : ch.val ≠ 0x0A := mt KeyChar.eq_newline_iff.mp hnl
  simp [press, charKey, hstack, hval]

/-- Enter behind the password. -/
theorem press_password_enter (hstack : c.stack = .password user pass :: rest) :
    c.press .enter = c.finishLogin user pass := by
  simp [press, charKey, hstack, KeyChar.newline]

/-- A character for the line. -/
theorem press_shell {line : Line} (hstack : c.stack = .shell line :: rest) (ch : KeyChar) :
    c.press (.char ch) = c.shellKey line rest ch := by
  simp only [press, charKey, hstack]

/-- A character wakes the program that waits. -/
theorem press_wait (hstack : c.stack = .wait :: rest) (ch : KeyChar) :
    c.press (.char ch) = { c with stack := rest } := by
  simp only [press, charKey, hstack]

/-- The line that a character completes in `shell`, if it does. -/
theorem executed_shell {line : Line} (hstack : c.stack = .shell line :: rest) (ch : KeyChar) :
    c.executed (.char ch) = (shellChar c.history line ch).2.2 := by
  simp only [executed, hstack]

/-- No other call executes a line. -/
theorem executed_of_not_shell (h : ∀ line rest, c.stack ≠ .shell line :: rest) (k : Key) :
    c.executed k = none := by
  cases k with
  | function ttyNum => rfl
  | char ch =>
    rw [executed]
    split
    · rename_i line rest hstack
      exact absurd hstack (h line rest)
    · rfl

end

/-! ## What one key can do -/

/-- The ten things a key can come to. -/
inductive Pressed (c : Console) : Key → Console → Prop where
  | ignored {k : Key} (hstack : c.stack = [] ∨ ∃ rest, c.stack = .halted :: rest) : Pressed c k c
  | moved {ttyNum : Fin maxTtys} (hin : c.loggedIn ttyNum = true) :
      Pressed c (.function ttyNum) { c with currentTty := ttyNum }
  | locked {ttyNum : Fin maxTtys} (hin : c.loggedIn ttyNum = false) :
      Pressed c (.function ttyNum) (callLogin { c with currentTty := ttyNum })
  | username {ch : KeyChar} {user : CString} {rest : List Frame}
      (hstack : c.stack = .username user :: rest) (hnl : ch ≠ .newline) :
      Pressed c (.char ch) { c with stack := .username (fieldChar user ch) :: rest }
  | usernameDone {user : CString} {rest : List Frame} (hstack : c.stack = .username user :: rest) :
      Pressed c .enter { c with stack := .password user CString.empty :: rest }
  | password {ch : KeyChar} {user pass : CString} {rest : List Frame}
      (hstack : c.stack = .password user pass :: rest) (hnl : ch ≠ .newline) :
      Pressed c (.char ch) { c with stack := .password user (fieldChar pass ch) :: rest }
  | passwordDone {user pass : CString} {rest : List Frame}
      (hstack : c.stack = .password user pass :: rest) :
      Pressed c .enter (c.finishLogin user pass)
  | edited {ch : KeyChar} {line : Line} {rest : List Frame} (hstack : c.stack = .shell line :: rest)
      (hexec : (shellChar c.history line ch).2.2 = none) :
      Pressed c (.char ch) (c.edited line rest ch)
  | executed {ch : KeyChar} {line : Line} {rest : List Frame} {cmd : CString}
      (hstack : c.stack = .shell line :: rest)
      (hexec : (shellChar c.history line ch).2.2 = some cmd) :
      Pressed c (.char ch) ((c.edited line rest ch).executeCommand cmd)
  | woken {ch : KeyChar} {rest : List Frame} (hstack : c.stack = .wait :: rest) :
      Pressed c (.char ch) { c with stack := rest }

/-- A switch is one of the things a key can do. -/
theorem pressed_switchTty (c : Console) (ttyNum : Fin maxTtys) :
    Pressed c (.function ttyNum) (c.switchTty ttyNum) := by
  rw [Console.switchTty]
  dsimp only
  cases hin : c.loggedIn ttyNum with
  | true => exact .moved hin
  | false => exact .locked hin

/-- A character in `shell` edits the line, or executes it. -/
theorem pressed_shellKey {c : Console} {line : Line} {rest : List Frame}
    (hstack : c.stack = .shell line :: rest) (ch : KeyChar) :
    Pressed c (.char ch) (c.press (.char ch)) := by
  rw [press_shell hstack, shellKey]
  cases hexec : (shellChar c.history line ch).2.2 with
  | none => exact .edited hstack hexec
  | some cmd => exact .executed hstack hexec

/-- Commands are executed by a `shell`. -/
theorem executed_eq_some {c : Console} {k : Key} {cmd : CString} (h : c.executed k = some cmd) :
    ∃ ch line rest, k = .char ch ∧ c.stack = .shell line :: rest ∧
      (shellChar c.history line ch).2.2 = some cmd := by
  cases k with
  | function ttyNum => cases h
  | char ch =>
    rw [executed] at h
    cases hstack : c.stack with
    | nil =>
      rw [hstack] at h
      cases h
    | cons frame rest =>
      rw [hstack] at h
      cases frame with
      | shell line => exact ⟨ch, line, rest, rfl, rfl, h⟩
      | username | password | wait | halted => cases h

/-- **The inversion of `press`**: by the key and the innermost call. -/
theorem pressed (c : Console) (k : Key) : Pressed c k (c.press k) := by
  cases hstack : c.stack with
  | nil =>
    rw [press_idle (.inl hstack)]
    exact .ignored (.inl hstack)
  | cons frame rest =>
    by_cases hhalted : frame = .halted
    · subst hhalted
      rw [press_idle (.inr ⟨rest, hstack⟩)]
      exact .ignored (.inr ⟨rest, hstack⟩)
    cases k with
    | function ttyNum =>
      rw [press_function hstack hhalted]
      exact pressed_switchTty c ttyNum
    | char ch =>
      by_cases hnl : ch = .newline
      · subst hnl
        cases frame with
        | username user =>
          rw [press_username_enter hstack]
          exact .usernameDone hstack
        | password user pass =>
          rw [press_password_enter hstack]
          exact .passwordDone hstack
        | shell line => exact pressed_shellKey hstack .newline
        | wait =>
          rw [press_wait hstack]
          exact .woken hstack
        | halted => exact absurd rfl hhalted
      · cases frame with
        | username user =>
          rw [press_username_char hstack hnl]
          exact .username hstack hnl
        | password user pass =>
          rw [press_password_char hstack hnl]
          exact .password hstack hnl
        | shell line => exact pressed_shellKey hstack ch
        | wait =>
          rw [press_wait hstack]
          exact .woken hstack
        | halted => exact absurd rfl hhalted

/-! ## The kernel's terminals -/

/-- A console and a kernel state have the same current terminal and flags. -/
structure Agrees (c : Console) (s : KernelState) : Prop where
  currentTty : c.currentTty = s.term.currentTty
  loggedIn : ∀ t, c.loggedIn t = (s.term.ttys t).loggedIn

theorem Agrees.prints {c : Console} {s s' : KernelState} (h : Agrees c s) (hp : Prints s s') :
    Agrees c s' where
  currentTty := h.currentTty.trans hp.term.currentTty.symm
  loggedIn := fun t => (h.loggedIn t).trans (hp.term.loggedIn t).symm

/-- Both sides mark the terminal in front. -/
theorem Agrees.setLoggedIn {c : Console} {s : KernelState} (h : Agrees c s) (b : Bool) :
    Agrees (c.setLoggedIn b) (Srunix.setLoggedIn s b) where
  currentTty := h.currentTty
  loggedIn := by
    intro t
    show Function.update c.loggedIn c.currentTty b t =
      (Function.update s.term.ttys s.term.currentTty _ t).loggedIn
    rw [h.currentTty]
    by_cases ht : t = s.term.currentTty
    · rw [ht, Function.update_self, Function.update_self]
    · rw [Function.update_of_ne ht, Function.update_of_ne ht]
      exact h.loggedIn t

/-- `switch_tty` of the console is that of the terminals. -/
theorem Agrees.switchTty {c : Console} {s : KernelState} (h : Agrees c s)
    (hmode : s.term.smouseMode = false) (ttyNum : Fin maxTtys) :
    Agrees (c.switchTty ttyNum) (Srunix.switchTty s ttyNum.val) := by
  have henter : Agrees { c with currentTty := ttyNum } (enterTty s ttyNum) :=
    ⟨rfl, fun t => (h.loggedIn t).trans (enterTty_loggedIn s ttyNum t).symm⟩
  have hin : ¬ ((ttyNum.val : Int) < 0 ∨ (ttyNum.val : Int) ≥ maxTtys) := by
    have := ttyNum.isLt
    omega
  have hflag : c.loggedIn ttyNum = ((enterTty s ttyNum).term.ttys ttyNum).loggedIn :=
    henter.loggedIn ttyNum
  rw [switchTty_of_in hmode hin, Int.toNat_natCast, ← hflag]
  rw [Console.switchTty]
  dsimp only
  by_cases hlogged : c.loggedIn ttyNum = true
  · rw [if_pos hlogged, if_pos hlogged]
    exact henter
  · rw [if_neg hlogged, if_neg hlogged]
    have hlogin : Agrees (callLogin { c with currentTty := ttyNum }) (enterTty s ttyNum) :=
      ⟨henter.currentTty, henter.loggedIn⟩
    exact hlogin.prints (loginScreen_prints _)

/-! ## The innermost call and the flag -/

/-- The innermost call is a command loop, or a command called from one. -/
def AtShell : List Frame → Prop
  | .shell _ :: _ => True
  | .wait :: _ => True
  | _ => False

/-- A command that waits was called by a `shell` at an empty line. -/
def WaitsInShell : List Frame → Prop
  | .wait :: rest => ∃ line above, rest = .shell line :: above ∧ line.pos = 0
  | _ => True

/-- **The invariant**: whoever is at a command loop is logged in. -/
structure Inv (c : Console) : Prop where
  waits : WaitsInShell c.stack
  shell : AtShell c.stack → c.loggedIn c.currentTty = true

variable {c : Console}

theorem inv_boot : Inv boot := ⟨trivial, nofun⟩

/-- A login prompt needs nothing. -/
theorem Inv.callLogin (c : Console) : Inv c.callLogin := ⟨trivial, nofun⟩

theorem setLoggedIn_current (c : Console) (b : Bool) :
    (c.setLoggedIn b).loggedIn (c.setLoggedIn b).currentTty = b :=
  Function.update_self _ _ _

/-- A login is followed by a shell or by another login screen. -/
theorem Inv.finishLogin (c : Console) (user pass : CString) : Inv (c.finishLogin user pass) := by
  unfold Console.finishLogin
  dsimp only
  by_cases hroot : strcmp user "root" = 0 ∧ strcmp pass "1" = 0
  · rw [if_pos hroot]
    refine ⟨trivial, fun _ => ?_⟩
    show (setLoggedIn _ true).loggedIn (setLoggedIn _ true).currentTty = true
    exact setLoggedIn_current _ true
  · rw [if_neg hroot]
    exact Inv.callLogin _

/-- A command leaves the flag alone, or ends at a login prompt. -/
theorem Inv.executeCommand {line : Line} {rest : List Frame} (hstack : c.stack = .shell line :: rest)
    (hline : line.pos = 0) (hflag : c.loggedIn c.currentTty = true) (cmd : CString) :
    Inv (c.executeCommand cmd) := by
  rw [Console.executeCommand]
  cases commandKind cmd with
  | returns =>
    refine ⟨?_, fun _ => hflag⟩
    rw [hstack]
    trivial
  | shell => exact ⟨trivial, fun _ => hflag⟩
  | waits => exact ⟨⟨line, rest, hstack, hline⟩, fun _ => hflag⟩
  | exit => exact Inv.callLogin _
  | halts => exact ⟨trivial, nofun⟩

/-- The line is empty when a command is executed. -/
theorem pos_of_executes {h : History} {line : Line} {ch : KeyChar} {cmd : CString}
    (hexec : (shellChar h line ch).2.2 = some cmd) : ch.val = 0x0A ∧ (shellChar h line ch).1.pos = 0 := by
  rw [shellChar] at hexec ⊢
  by_cases hnl : ch.val = 0x0A
  · rw [if_pos hnl]
    exact ⟨hnl, rfl⟩
  · rw [if_neg hnl] at hexec
    split_ifs at hexec

theorem ne_newline_of_edited {h : History} {line : Line} {ch : KeyChar}
    (hexec : (shellChar h line ch).2.2 = none) : ch ≠ .newline := by
  rintro rfl
  simp [shellChar, KeyChar.newline] at hexec

/-- The step lemma of `Inv`. -/
theorem Inv.press (h : Inv c) (k : Key) : Inv (c.press k) := by
  obtain ⟨hwaits, hshell⟩ := h
  have hpressed := pressed c k
  generalize c.press k = c' at hpressed ⊢
  cases hpressed with
  | ignored _ => exact ⟨hwaits, hshell⟩
  | moved hin => exact ⟨hwaits, fun _ => hin⟩
  | locked _ => exact Inv.callLogin _
  | username | usernameDone | password => exact ⟨trivial, nofun⟩
  | passwordDone _ => exact Inv.finishLogin c _ _
  | @edited ch line rest hstack _ =>
    rw [hstack] at hshell
    exact ⟨trivial, fun _ => hshell trivial⟩
  | @executed ch line rest cmd hstack hexec =>
    rw [hstack] at hshell
    exact Inv.executeCommand (c := c.edited line rest ch) rfl (pos_of_executes hexec).2
      (hshell trivial) cmd
  | @woken ch rest hstack =>
    rw [hstack] at hwaits hshell
    obtain ⟨line, above, rfl, -⟩ := hwaits
    exact ⟨trivial, fun _ => hshell trivial⟩

theorem inv_after (keys : List Key) : Inv (after keys) := by
  have hstep : ∀ (c : Console) (k : Key), Inv c → True → Inv (c.press k) :=
    fun _ k h _ => h.press k
  exact runOps_invariant hstep inv_boot fun _ _ => trivial

/-- **Commands run only on a logged-in terminal.** -/
theorem loggedIn_of_executed (keys : List Key) (key : Key) (cmd : CString) :
    (after keys).executed key = some cmd →
      (after keys).loggedIn (after keys).currentTty = true := by
  intro hexec
  obtain ⟨ch, line, rest, -, hstack, -⟩ := executed_eq_some hexec
  refine (inv_after keys).shell ?_
  rw [hstack]
  trivial

/-- The keys of a text. -/
def typing (text : CString) : List Key :=
  text.bytes.filterMap fun c => if h : c ≠ 0 then some (.char ⟨c, h⟩) else none

/-- `ls` on the first terminal, after logging in on the second one too. -/
theorem loggedIn_of_executed_ls :
    let keys := typing "root\n1\n" ++ [.function 1] ++ typing "root\n1\n" ++ [.function 0] ++ typing "ls"
    (after keys).loggedIn (after keys).currentTty = true := by
  intro keys
  have hexec : (after keys).executed .enter = some (CString.ofString "ls") := by
    decide +kernel
  exact loggedIn_of_executed keys .enter "ls" hexec

end Console

end Srunix
