import Srunix.Console.Credentials

/-!
# Whose line is executed (`shell`, `switch_tty`)

`TTY` has an input buffer that nothing uses: `cmd` and `pos` are locals of the
innermost `shell`, and a switch to a terminal that is logged in leaves them as
they are. So a line begun on one terminal is ended on another. Where no character
is read at a line that another terminal has begun, each line executed is what was
typed, and recalled, on one terminal since the line was empty
(`linesStayHome_of_run`); and a newline read at such a line executes what was not
typed where it is executed (`typedHere_iff`).
-/

namespace Srunix.Console

open Library

/-- The characters among the keys. -/
def chars (keys : List Key) : List KeyChar :=
  keys.filterMap fun
    | .char c => some c
    | .function _ => none

/-- Innermost is a `shell` at an empty line. -/
def AtEmptyLine (c : Console) : Prop := ∃ line rest, c.stack = .shell line :: rest ∧ line.pos = 0

/-- A character pressed now is read by a `shell`, while terminal `t` is current. -/
def ShellOn (c : Console) (t : Nat) : Prop :=
  c.currentTty = t ∧ ∃ line rest, c.stack = .shell line :: rest

/-- The keys `seg`, pressed after `pre`, stay within a line that was empty before
them, and each character among them is read on terminal `t`. -/
structure OneLine (pre seg : List Key) (t : Nat) : Prop where
  empty : AtEmptyLine (after pre)
  here : ∀ mid ch rest, seg = mid ++ .char ch :: rest → ShellOn (after (pre ++ mid)) t
  line : KeyChar.newline ∉ chars seg

/-- What these keys make of the empty line. -/
def lineOf (pre seg : List Key) : Editor :=
  runOps Editor.edit (Editor.start (after pre).history) (chars seg)

/-- The keys end in a line typed on terminal `t` alone, that reads `text`. -/
def TypedHere (keys : List Key) (t : Nat) (text : List UInt8) : Prop :=
  ∃ pre seg, keys = pre ++ seg ∧ OneLine pre seg t ∧ text = (lineOf pre seg).command

/-- Whatever the keys execute was typed on the terminal it is executed on. -/
def LinesStayHome (keys : List Key) : Prop :=
  ∀ pre k post cmd, keys = pre ++ k :: post → (after pre).executed k = some cmd →
    TypedHere pre (after pre).currentTty cmd.bytes

/-- The characters that stand in the line of the innermost call. -/
def pendingChars (c : Console) : Nat :=
  match c.stack with
  | .shell line :: _ => line.pos
  | _ => 0

theorem pendingChars_of_atEmptyLine {c : Console} (h : AtEmptyLine c) : pendingChars c = 0 := by
  obtain ⟨line, rest, hstack, hpos⟩ := h
  rw [pendingChars, hstack]
  exact hpos

/-- The console, and the terminal the last character was read on. -/
structure Watched where
  console : Console
  readOn : Nat

/-- The first login screen, read on the first terminal. -/
def Watched.boot : Watched := ⟨Console.boot, 0⟩

/-- A character is read on the terminal that is current; a function key moves on
without being read there. -/
def Watched.press (w : Watched) (k : Key) : Watched where
  console := w.console.press k
  readOn := match k with
    | .char _ => w.console.currentTty
    | .function _ => w.readOn

/-- A character for a line that is not empty is read where the one before it was. -/
def StaysHome (w : Watched) : Key → Prop
  | .char _ => pendingChars w.console = 0 ∨ w.console.currentTty = w.readOn
  | .function _ => True

instance (w : Watched) : ∀ k, Decidable (StaysHome w k)
  | .char _ => inferInstanceAs (Decidable (_ ∨ _))
  | .function _ => inferInstanceAs (Decidable True)

/-- The characters in the line of the innermost `shell` were typed where the last
one was read. -/
structure OwnLine (done : List Key) (w : Watched) : Prop where
  state : w.console = after done
  typed : ∀ line rest, w.console.stack = .shell line :: rest → line.pos ≠ 0 →
    ∃ pre seg, done = pre ++ seg ∧ OneLine pre seg w.readOn ∧
      Edits (line, w.console.history) (lineOf pre seg)

/-! ## Growing a line -/

theorem chars_snoc_char (keys : List Key) (c : KeyChar) :
    chars (keys ++ [.char c]) = chars keys ++ [c] := by
  simp [chars]

theorem chars_snoc_function (keys : List Key) (ttyNum : Fin maxTtys) :
    chars (keys ++ [.function ttyNum]) = chars keys := by
  simp [chars]

/-- One more key; a character is read on the same terminal and is no newline. -/
theorem OneLine.snoc {pre seg : List Key} {t : Nat} (h : OneLine pre seg t) {k : Key}
    (hk : ∀ ch, k = .char ch → ShellOn (after (pre ++ seg)) t ∧ ch ≠ .newline) :
    OneLine pre (seg ++ [k]) t where
  empty := h.empty
  here := by
    intro mid ch rest hsplit
    rcases snoc_eq_append_cons hsplit with ⟨rfl, hlast⟩ | ⟨init, hseg⟩
    · exact (hk ch hlast.symm).1
    · exact h.here mid ch init hseg
  line := by
    cases k with
    | function ttyNum =>
      rw [chars_snoc_function]
      exact h.line
    | char c =>
      rw [chars_snoc_char]
      exact not_mem_snoc h.line (hk c rfl).2

namespace OwnLine

variable {done : List Key} {w : Watched}

theorem boot : OwnLine [] Watched.boot where
  state := rfl
  typed := nofun

/-- The next character of a line continues what was typed here; an empty line
owes nothing to the keys before. -/
theorem home (h : OwnLine done w) {ch : KeyChar} (hok : StaysHome w (.char ch)) {line : Line}
    {rest : List Frame} (hstack : w.console.stack = .shell line :: rest) :
    ∃ pre seg, done = pre ++ seg ∧ OneLine pre seg w.console.currentTty ∧
      Edits (line, w.console.history) (lineOf pre seg) := by
  by_cases hpos : line.pos = 0
  · have hempty : AtEmptyLine (after done) := by
      rw [← h.state]
      exact ⟨line, rest, hstack, hpos⟩
    refine ⟨done, [], by simp, ⟨hempty, ?_, List.not_mem_nil⟩, ?_⟩
    · intro mid ch rest hsplit
      simp at hsplit
    · rw [h.state]
      exact edits_empty hpos _
  · have hpending : pendingChars w.console = line.pos := by rw [pendingChars, hstack]
    have hhere := hok.resolve_left fun hzero => hpos (hpending.symm.trans hzero)
    rw [hhere]
    exact h.typed line rest hstack hpos

/-- The step lemma of `OwnLine`: the pending characters were typed at the terminal the
line is on. -/
theorem press (h : OwnLine done w) {k : Key} (hok : StaysHome w k) :
    OwnLine (done ++ [k]) (w.press k) := by
  have hinv : Inv w.console := by
    rw [h.state]
    exact inv_after done
  refine ⟨?_, ?_⟩
  · show w.console.press k = _
    rw [after_snoc, ← h.state]
  show ∀ line rest, (w.console.press k).stack = _ → line.pos ≠ 0 → ∃ pre seg, done ++ [k] = _ ∧
    OneLine pre seg (w.press k).readOn ∧ Edits (line, (w.console.press k).history) (lineOf pre seg)
  intro line rest hstack hpos
  have hpressed := pressed w.console k
  generalize w.console.press k = c' at hpressed hstack ⊢
  -- a call that has just been made, or come back to, is at no such line
  have hold : ¬ Fresh (.shell line) := hpos
  cases hpressed with
  | ignored hnone => cases halted_of_ignored hnone hstack
  | @moved ttyNum hin =>
    obtain ⟨pre, seg, rfl, hone, hedits⟩ := h.typed line rest hstack hpos
    refine ⟨pre, seg ++ [.function ttyNum], by simp, hone.snoc nofun, ?_⟩
    rw [lineOf, chars_snoc_function]
    exact hedits
  | locked _ => cases hstack
  | username _ _ => cases hstack
  | usernameDone _ => cases hstack
  | password _ _ => cases hstack
  | passwordDone _ => exact absurd (fresh_of_finishLogin hstack) hold
  | @edited ch line' rest' hstack' hexec =>
    cases hstack
    obtain ⟨pre, seg, rfl, hone, hedits⟩ := h.home hok hstack'
    have hroom : ¬ line'.Fills ch := fun hfills => hpos (pos_of_fills hfills w.console.history)
    have hread : ShellOn (after (pre ++ seg)) w.console.currentTty := by
      rw [← h.state]
      exact ⟨rfl, line', _, hstack'⟩
    refine ⟨pre, seg ++ [.char ch], by simp, hone.snoc ?_, ?_⟩
    · rintro _ ⟨rfl⟩
      exact ⟨hread, ne_newline_of_edited hexec⟩
    · rw [lineOf, chars_snoc_char, runOps_snoc]
      exact hedits.step hroom
  | executed _ hexec => exact absurd (fresh_of_executed hexec hstack) hold
  | woken hstack' => exact absurd (fresh_of_woken hinv hstack' hstack) hold

/-- The run lemma of `OwnLine`. -/
theorem of_run {keys : List Key} (hkeys : Guarded Watched.press StaysHome Watched.boot keys) :
    OwnLine keys (runOps Watched.press Watched.boot keys) :=
  Guarded.history OwnLine (fun _ _ _ h hok => h.press hok) hkeys .boot

end OwnLine

/-- Newline executes the line the editor has. -/
theorem command_of_executes {line : Line} {h : History} {e : Editor} (hedits : Edits (line, h) e)
    {ch : KeyChar} {cmd : CString} (hcmd : (shellChar h line ch).2.2 = some cmd) :
    cmd.bytes = e.command := by
  have hgives := hedits.executes ch
  rw [shellExecutes, hcmd, Editor.executes, if_pos (pos_of_executes hcmd).1] at hgives
  exact Option.some.inj hgives

/-- **A line is executed where it was typed**, as long as no character is read at
a line that another terminal has begun. -/
theorem linesStayHome_of_run (keys : List Key)
    (hkeys : Guarded Watched.press StaysHome Watched.boot keys) : LinesStayHome keys := by
  rintro pre k post cmd rfl hexec
  rw [List.append_cons] at hkeys
  obtain ⟨hpre, hok⟩ := guarded_snoc.mp hkeys.of_append
  have hown := OwnLine.of_run hpre
  obtain ⟨ch, line, rest, rfl, hstack, hcmd⟩ := executed_eq_some hexec
  rw [← hown.state] at hstack hcmd ⊢
  obtain ⟨before, seg, hsplit, hone, hedits⟩ := hown.home hok hstack
  exact ⟨before, seg, hsplit, hone, command_of_executes hedits hcmd⟩

/-- `ls` typed on the first terminal, with a look at the second one between the
`l` and the `s`. -/
theorem linesStayHome_of_run_ls :
    let keys := typing "root\n1\n" ++ [.function 1] ++ typing "root\n1\n" ++ [.function 0] ++
      typing "l" ++ [.function 1, .function 0] ++ typing "s\n"
    LinesStayHome keys := by
  intro keys
  exact linesStayHome_of_run keys (by decide +kernel)

/-- `l` is typed on the second terminal and `s` on the first, and `ls` is
executed there. -/
theorem not_linesStayHome_half_line :
    let keys := typing "root\n1\n" ++ [.function 1] ++ typing "root\n1\n" ++ typing "l" ++
      [.function 0] ++ typing "s\n"
    ¬ LinesStayHome keys := by
  intro keys h
  let done : List Key := typing "root\n1\n" ++ [.function 1] ++ typing "root\n1\n"
  let tail : List Key := [.char ⟨0x6C, by decide⟩, .function 0, .char ⟨0x73, by decide⟩]
  have hkeys : keys = (done ++ tail) ++ .enter :: [] := by decide +kernel
  have hcur : (after (done ++ tail)).currentTty = 0 := by decide +kernel
  have hsecond : (after done).currentTty = 1 := by decide +kernel
  have hpending : ∀ n < 4, 0 < n → pendingChars (after (done ++ tail.take n)) ≠ 0 := by
    decide +kernel
  have hexec : (after (done ++ tail)).executed .enter = some (CString.ofString "ls") := by
    decide +kernel
  obtain ⟨pre, seg, hsplit, hone, -⟩ := h _ _ _ _ hkeys hexec
  rw [hcur] at hone
  -- the line has been empty for the last time before the `l`, and the `l` is
  -- read on the second terminal
  rcases List.append_eq_append_iff.mp hsplit with ⟨mid, rfl, htail⟩ | ⟨mid, hdone, hseg⟩
  · have hmid : mid = tail.take mid.length := by rw [htail, List.take_left]
    have hlen : mid.length ≤ 3 := (List.prefix_iff_eq_take.mpr hmid).length_le
    by_cases hnil : mid.length = 0
    · cases List.length_eq_zero_iff.mp hnil
      have hread := (hone.here [] _ _ htail.symm).1
      simp only [List.append_nil, hsecond] at hread
      exact absurd hread (by decide)
    · have hzero := pendingChars_of_atEmptyLine hone.empty
      rw [hmid] at hzero
      exact hpending _ (by omega) (by omega) hzero
  · have hread := (hone.here mid _ _ hseg).1
    rw [← hdone, hsecond] at hread
    exact absurd hread (by decide)

/-! ## The condition is needed -/

theorem watched_console (keys : List Key) :
    (runOps Watched.press Watched.boot keys).console = after keys := by
  induction keys using List.reverseRecOn with
  | nil => rfl
  | append_singleton keys k ih =>
    rw [runOps_snoc, after_snoc, ← ih]
    rfl

/-- All characters of a segment were read on one terminal, the last one too. -/
theorem OneLine.readOn {pre seg : List Key} {t : Nat} (h : OneLine pre seg t)
    (hne : chars seg ≠ []) : (runOps Watched.press Watched.boot (pre ++ seg)).readOn = t := by
  induction seg using List.reverseRecOn with
  | nil => exact absurd rfl hne
  | append_singleton seg k ih =>
    rw [← List.append_assoc, runOps_snoc]
    cases k with
    | char ch =>
      have hread := (h.here seg ch [] rfl).1
      rwa [← watched_console] at hread
    | function ttyNum =>
      have hline := h.line
      rw [chars_snoc_function] at hline hne
      refine ih ⟨h.empty, fun mid ch rest hsplit => ?_, hline⟩ hne
      exact h.here mid ch (rest ++ [.function ttyNum]) (by rw [hsplit]; simp)

/-- **A command was typed where it is executed just when its newline is read
there**, if no line before it was continued elsewhere. -/
theorem typedHere_iff {keys : List Key}
    (hkeys : Guarded Watched.press StaysHome Watched.boot keys) {k : Key} {cmd : CString}
    (hexec : (after keys).executed k = some cmd) :
    TypedHere keys (after keys).currentTty cmd.bytes ↔
      StaysHome (runOps Watched.press Watched.boot keys) k := by
  constructor
  · obtain ⟨ch, line, rest, rfl, hstack, hcmd⟩ := executed_eq_some hexec
    have hown := OwnLine.of_run hkeys
    rintro ⟨pre, seg, rfl, hone, htext⟩
    rw [← hown.state] at hstack hcmd hone
    by_cases hpos : line.pos = 0
    · exact .inl (by rw [pendingChars, hstack]; exact hpos)
    -- a line with characters in it executes more than the empty command
    obtain ⟨pre', seg', -, -, hedits⟩ := hown.typed line rest hstack hpos
    have hbytes : cmd.bytes ≠ [] := by
      rw [command_of_executes hedits hcmd, Editor.command, ne_eq, List.take_eq_nil_iff,
        ← List.length_eq_zero_iff (l := Editor.line _), hedits.length_line]
      exact not_or.mpr ⟨by decide, hpos⟩
    have hne : chars seg ≠ [] := by
      intro hnil
      rw [htext, lineOf, hnil] at hbytes
      exact hbytes rfl
    exact .inr (hone.readOn hne).symm
  · intro hok
    exact linesStayHome_of_run (keys ++ k :: [])
      (guarded_snoc.mpr ⟨hkeys, hok⟩) keys k [] cmd rfl hexec

end Srunix.Console
