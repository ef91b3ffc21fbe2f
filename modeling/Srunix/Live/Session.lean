import Srunix.Console.Typing
import Srunix.Live.Refinement

/-!
# From the hands to the files

A session, typed on the keyboard, decoded by `keyboard_getchar`, edited and
executed by `shell`: what it leaves of the files and the terminals is what its
lines say (`session_of_typing`).
-/

namespace Srunix

open Library

/-- **From the hands to the files.** A user who types a session in which nothing goes
wrong (`LiveRun`) ends at the seat the entries lead to, and has
done to the files and the terminals what the lines say, in their order. -/
theorem session_of_typing (beyond : Bool → Nat → UInt8) {events : List KeyEvent}
    (htyping : Typing events) {entries : List Entry}
    (hentries : Guarded Seat.step Seat.Allows Seat.boot entries)
    (htyped : typedBy events = entries.flatMap Entry.keys) {inputs : List Input}
    (hinputs : inputs.map Input.key = decode beyond .boot (events.flatMap scancodes)) {s : Live}
    (hrun : LiveRun inputs s) :
    Console.AtSeat s.console (runOps Seat.step Seat.boot entries) ∧
      Steps NsEvent (namespaceOf kernelMain) (outputs Seat.step Seat.event Seat.boot entries)
        (namespaceOf s.kernel) := by
  have hkeys : inputs.map Input.key = entries.flatMap Entry.keys := by
    rw [hinputs, decode_eq_typedBy beyond htyping, htyped]
  obtain ⟨hseat, houts⟩ := Console.session_events hentries
  have hconsole := console_of_run hrun
  have hsteps := nsEvents_of_run hrun
  rw [hkeys] at hconsole hsteps
  rw [houts] at hsteps
  rw [hconsole]
  exact ⟨hseat, hsteps⟩

/-- The characters of a string, as they are typed. -/
def CString.keyChars (s : CString) : List KeyChar :=
  s.bytes.pmap (fun c hc => ⟨c, hc⟩) fun _ hmem hzero => s.nulFree (hzero ▸ hmem)

/-- `root`, its password and `touch a`. -/
def entriesTouch : List Entry :=
  [.login (CString.keyChars "root") (CString.keyChars "1"), .line (CString.keyChars "touch a")]

theorem allows_touch : Guarded Seat.step Seat.Allows Seat.boot entriesTouch := by
  have hlogin : Seat.boot.Allows (.login (CString.keyChars "root") (CString.keyChars "1")) :=
    ⟨rfl, by decide +kernel, by decide +kernel, by decide +kernel⟩
  refine ⟨hlogin, ⟨⟨by decide +kernel, rfl⟩, by decide +kernel, ?_, by decide +kernel⟩, trivial⟩
  show Guarded Editor.edit Editor.Short (Editor.start History.boot) (CString.keyChars "touch a")
  decide +kernel

theorem keys_touch : entriesTouch.flatMap Entry.keys = textTouch.keyChars.map .char := by
  decide +kernel

theorem events_touch : outputs Seat.step Seat.event Seat.boot entriesTouch = [.ran 0 "touch a"] := by
  let login : Entry := .login (CString.keyChars "root") (CString.keyChars "1")
  have hcommand : (Seat.boot.step login).command (CString.keyChars "touch a") = "touch a" := by
    decide +kernel
  have htty : (Seat.boot.step login).tty = 0 := by
    decide +kernel
  show [Event.ran (Seat.boot.step login).tty ((Seat.boot.step login).command (CString.keyChars "touch a"))]
    = _
  rw [hcommand, htty]

/-- A session of one line. -/
theorem session_of_typing_touch : ∃ s : Live,
    Console.AtSeat s.console (runOps Seat.step Seat.boot entriesTouch) ∧
      Steps NsEvent (namespaceOf kernelMain) [.ran 0 "touch a"] (namespaceOf s.kernel) := by
  obtain ⟨events, htyping, htyped⟩ : ∃ events, Typing events ∧ typedBy events = textTouch.keyChars.map .char :=
    exists_typing (by decide +kernel)
  let inputs : List Input := (textTouch.keyChars.map Key.char).map .still
  have hinputs : inputs.map Input.key = textTouch.keyChars.map .char := keys_still _
  have hevents := (Console.session_events allows_touch).2.trans events_touch
  rw [keys_touch] at hevents
  obtain ⟨s, hrun⟩ : ∃ s, LiveRun inputs s := exists_liveRun_still hevents fun tty cmd hmem => by
    cases List.mem_singleton.mp hmem
    exact tame_touch_a
  have hdecode : inputs.map Input.key = decode (fun _ _ => 0) .boot (events.flatMap scancodes) := by
    rw [hinputs, decode_eq_typedBy _ htyping, htyped]
  obtain ⟨hseat, hsteps⟩ := session_of_typing (fun _ _ => 0) htyping allows_touch
    (htyped.trans keys_touch.symm) hdecode hrun
  rw [events_touch] at hsteps
  exact ⟨s, hseat, hsteps⟩

end Srunix
