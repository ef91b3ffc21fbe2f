import Srunix.Shell.Turns
import Srunix.Live.View

/-!
# What is written stays

The names of the live system, each on its own (`live_entries`). So what a line
has stored is what `cat` shows later, whatever is done to other names, in other
directories and on other terminals (`stored_shown`).
-/

namespace Srunix

open Library

/-- **Every name is on its own.** In a run in which nothing goes wrong (`LiveRun`) the
commands on files are turns, and what a name stands for in the end is what the turns that
name it, in its directory, have made of it, in their order; nothing else touches it. -/
theorem live_entries {inputs : List Input} {s : Live} (h : LiveRun inputs s) :
    ∃ turns : List Turn, turns.map Turn.cmd = fileCommands inputs ∧
      Steps Takes (namespaceOf kernelMain) turns (namespaceOf s.kernel) ∧
      ∀ p, Steps EntryStep ((namespaceOf kernelMain).node p)
        (turns.filter fun turn => turn.entry = some p) ((namespaceOf s.kernel).node p) := by
  obtain ⟨turns, hcmds, hturns⟩ := (nsSteps_of_run h).relabel exists_takes
  exact ⟨turns, hcmds, hturns, fun p => madeOfNames.project hturns p⟩

/-- The name of a file that `root` makes. -/
theorem live_entries_touch : ∃ (s : Live) (turns : List Turn), LiveRun (inputsFor textTouch) s ∧
    turns.map Turn.cmd = [.touch (Name.ofString "a")] ∧
      Steps Takes (namespaceOf kernelMain) turns (namespaceOf s.kernel) ∧
      ∀ p, Steps EntryStep ((namespaceOf kernelMain).node p)
        (turns.filter fun turn => turn.entry = some p) ((namespaceOf s.kernel).node p) := by
  obtain ⟨s, h⟩ := liveRun_textTouch
  obtain ⟨turns, hcmds, hturns, hentries⟩ := live_entries h
  rw [fileCommands_textTouch] at hcmds
  exact ⟨s, turns, h, hcmds, hturns, hentries⟩

/-- The key touches another entry than `p`, or none. -/
def Spares (p : Nat × CString) (s : Live) (i : Input) : Prop :=
  ∀ c, s.console.fileCommand i.hw.stack i.key = some c →
    c.target.map (fun name => ((namespaceOf s.kernel).cwd, name)) ≠ some p

/-- A content can be given to the name: a file has it, or it can be made. -/
def Namespace.Writable (ns : Namespace) (name : Name) : Prop :=
  (∃ old, ns.get name.str = some (.file old)) ∨
    isValidFilename name.str = true ∧ ns.get name.str = none ∧ ns.count < maxNames

/-- Where there is room for it, the content is there afterwards. -/
theorem Namespace.write_of_writable {ns : Namespace} {name : Name} (h : ns.Writable name)
    (content : List UInt8) : (ns.write name content).node (ns.cwd, name.str) = some (.file content) := by
  rw [write_node, if_pos rfl]
  rcases h with ⟨old, hold⟩ | ⟨hvalid, hnone, hcount⟩
  · have hold : ns.node (ns.cwd, name.str) = some (.file old) := hold
    rw [hold]
    rfl
  · have hnone : ns.node (ns.cwd, name.str) = none := hnone
    rw [hnone]
    exact if_pos ⟨hvalid, rfl, decide_eq_true hcount⟩

/-- Writing takes nobody anywhere. -/
theorem Namespace.write_stays (ns : Namespace) (name : Name) (content : List UInt8) :
    (ns.write name content).dir = ns.dir ∧ (ns.write name content).tty = ns.tty := by
  rw [write]
  split
  · exact ⟨rfl, rfl⟩
  · exact make_stays _ _ _

/-- A command that stores a content leaves it under its name. -/
theorem Namespace.stored {ns ns' : Namespace} {c : ShellCmd} {name : Name} {content : List UInt8}
    (h : ns.stores c = some (name, content)) (hroom : ns.Writable name) (hstep : NsStep ns c ns') :
    ns'.node (ns.cwd, name.str) = some (.file content) := by
  cases c with
  | redirect filename text =>
    cases h
    cases hstep
    exact write_of_writable hroom _
  | append filename text stack =>
    cases h
    cases hstep
    exact write_of_writable hroom _
  | touch | mkdir | rm | cd | switchTty | login => cases h

/-- **What was stored is what is shown**, as long as nothing goes wrong (`LiveRun`). A
line that writes to a name the file can be made under stores its content; whatever keys
come after it that spare the name, `cat` in that directory, on any terminal, shows the
first block of it. -/
theorem stored_shown {done rest : List Input} {u u' s t : Live} {i j : Input} {c : ShellCmd}
    {filename : Name} {content : List UInt8} {cmd : CString} (h : LiveRun done u)
    (hwrite : LiveStep u i u') (hc : u.console.fileCommand i.hw.stack i.key = some c)
    (hstores : (namespaceOf u.kernel).stores c = some (filename, content))
    (hroom : (namespaceOf u.kernel).Writable filename)
    (hrest : Steps (fun s i t => LiveStep s i t ∧ Spares ((namespaceOf u.kernel).cwd, filename.str) s i)
      u' rest s)
    (hread : LiveStep s j t) (hexec : s.console.executed j.key = some cmd)
    (hcat : parseCommand cmd = .cat (some filename.str))
    (hdir : (namespaceOf s.kernel).cwd = (namespaceOf u.kernel).cwd) :
    ∃ names, (namespaceOf s.kernel).Leads names (namespaceOf s.kernel).cwd ∧
      t.kernel.term
        = (promptOf names { s.kernel with
            term := (0x0A :: (content.take blockSize ++ [0x0A])).foldl terminalPutchar
              s.kernel.term }).term := by
  let p : Nat × CString := ((namespaceOf u.kernel).cwd, filename.str)
  have hns := hwrite.namespace h
  rw [hc] at hns
  have hstored : (namespaceOf u'.kernel).node p = some (.file content) := Namespace.stored hstores hroom hns
  -- the entry is spared on the way
  let Inv : Live → Prop := fun s => (∃ inputs, LiveRun inputs s) ∧
    (namespaceOf s.kernel).node p = some (.file content)
  have hstart : Inv u' := ⟨⟨_, h.snoc hwrite⟩, hstored⟩
  have hinv : Inv s := by
    refine hrest.invariant hstart ?_
    rintro v k w ⟨⟨inputs, hrun⟩, hnode⟩ ⟨hstep, hspares⟩
    refine ⟨⟨_, hrun.snoc hstep⟩, ?_⟩
    have hns := hstep.namespace hrun
    cases hcommand : v.console.fileCommand k.hw.stack k.key with
    | none =>
      rw [hcommand] at hns
      have hsame : namespaceOf w.kernel = namespaceOf v.kernel := hns
      rwa [hsame]
    | some c =>
      rw [hcommand] at hns
      obtain ⟨turn, rfl, htakes⟩ := exists_takes hns
      have haway : turn.entry ≠ some p := by
        rw [Turn.entry, htakes.dir]
        exact hspares _ hcommand
      exact (htakes.other haway).trans hnode
  obtain ⟨⟨inputs, hrun⟩, hnode⟩ := hinv
  have hlooks : (parseCommand cmd).Looks := by
    rw [hcat]
    exact Option.some_ne_none _
  obtain ⟨sent, names, hshown⟩ := hread.looks hrun hexec hlooks
  have hget : (namespaceOf s.kernel).get filename.str = some (.file content) := by
    rw [Namespace.get, hdir]
    exact hnode
  have hsent : sent = content.take blockSize ++ [0x0A] := by
    have htells := hshown.tells
    rw [hcat] at htells
    cases htells with
    | cat hfile =>
      rw [hget] at hfile
      cases hfile
      rfl
    | catOther hnone => exact absurd hget (hnone content)
  rw [hsent] at hshown
  exact ⟨names, hshown.leads, hshown.term⟩

/-- Keys that complete no line spare everything. -/
theorem spares_of_executed {p : Nat × CString} {s : Live} {i : Input}
    (h : s.console.executed i.key = none) : Spares p s i := by
  intro c hc
  unfold Console.fileCommand at hc
  cases hkey : i.key with
  | char ch =>
    rw [hkey] at h hc
    dsimp only at hc
    rw [h] at hc
    cases hc
  | function ttyNum =>
    rw [hkey] at hc
    dsimp only at hc
    split at hc
    · cases hc
    · cases hc
    · cases hc
      exact Option.some_ne_none _ |>.symm

/-- Keys that complete no line, in a run. -/
theorem spares_of_silent {p : Nat × CString} {done inputs : List Input} {s t : Live} (hrun : LiveRun done s)
    (h : Steps LiveStep s inputs t)
    (hnone : outputs (fun c i => c.press i.key) (fun c i => c.executed i.key) s.console inputs = []) :
    Steps (fun s i t => LiveStep s i t ∧ Spares p s i) s inputs t := by
  induction h generalizing done with
  | nil => exact .nil _
  | @cons s u t i inputs hstep _ ih =>
    have hrun' := hrun.snoc hstep
    have hconsole := hstep.console hrun
    rw [outputs, List.append_eq_nil_iff, Option.toList_eq_nil_iff] at hnone
    refine .cons ⟨hstep, spares_of_executed hnone.1⟩ (ih hrun' ?_)
    rw [hconsole]
    exact hnone.2

theorem parseCommand_note : parseCommand "echo > note" = .redirectOutput "note" .empty := by
  decide +kernel

theorem fileCommand_note (stack : Nat → UInt8) :
    (parseCommand "echo > note").fileCommand stack = some (.redirect (Name.ofString "note") .empty) := by
  have hname : entryName "note" = some (Name.ofString "note") := rfl
  rw [parseCommand_note, Command.fileCommand, hname]
  rfl

/-- A note without a text needs no block. -/
theorem tame_note : Tame "echo > note" := by
  refine ⟨fun hw s => ⟨fun name hmem => ?_, ?_, fun c hc => ?_⟩, fun hstep => ?_⟩
  · rw [parseCommand_note] at hmem
    cases List.mem_singleton.mp hmem
    exact (Name.ofString "note").fits
  · unfold LineSafe
    rw [parseCommand_note]
    trivial
  · cases (fileCommand_note hw.stack).symm.trans hc
    refine ⟨trivial, fun name content hstored => ?_⟩
    cases hstored
    exact ⟨by decide, Nat.zero_le _⟩
  · obtain ⟨stack, hns⟩ := hstep
    rw [Event.fileCommand, fileCommand_note] at hns
    have hwrite : _ = Namespace.write _ (Name.ofString "note") [] := hns
    rw [hwrite]
    exact Namespace.write_stays _ _ _

theorem parseCommand_catNote : parseCommand "cat note" = .cat (some "note") := by
  decide +kernel

theorem tame_catNote : Tame "cat note" := by
  have hlooks : (parseCommand "cat note").Looks := by
    rw [parseCommand_catNote]
    exact Option.some_ne_none _
  have hlen : strlen "note" ≤ 238 := by
    decide
  refine tame_of_looks hlooks fun m => ?_
  unfold LineSafe
  rw [parseCommand_catNote]
  exact hlen

/-- `root`, its password, `echo > note` and `cat note`. -/
def inputsNote : List Input :=
  inputsFor "root\n1\necho > note" ++ (.still .enter :: (inputsFor "cat note" ++ [.still .enter]))

theorem liveRun_note : ∃ t, LiveRun inputsNote t := by
  have hevents : outputs Console.press Console.event Console.boot
      (Console.typing "root\n1\necho > note" ++ .enter :: (Console.typing "cat note" ++ [.enter]))
        = [.ran 0 "echo > note", .ran 0 "cat note"] := by
    decide +kernel
  obtain ⟨t, hrun⟩ := exists_liveRun_still hevents fun tty cmd hmem => by
    rcases List.mem_cons.mp hmem with heq | hmem
    · cases heq
      exact tame_note
    · cases List.mem_singleton.mp hmem
      exact tame_catNote
  rw [List.map_append, List.map_cons, List.map_append, List.map_singleton] at hrun
  exact ⟨t, hrun⟩

/-- After the boot there is no `note` in the root, and room for one. -/
theorem writable_note : (namespaceOf kernelMain).Writable (Name.ofString "note") := by
  refine .inr ⟨rfl, ?_, ?_⟩
  · decide +kernel
  · decide +kernel

/-- A note, and a look at it. -/
theorem stored_shown_note : ∃ (s t : Live) (names : List CString),
    (namespaceOf s.kernel).Leads names (namespaceOf s.kernel).cwd ∧
      t.kernel.term
        = (promptOf names { s.kernel with
            term := (0x0A :: (List.take blockSize [] ++ [0x0A])).foldl terminalPutchar
              s.kernel.term }).term := by
  obtain ⟨t, hrun⟩ := liveRun_note
  obtain ⟨u, hfront, hback⟩ := hrun.of_append
  cases hback with
  | @cons _ u' _ _ _ hwrite hback =>
  obtain ⟨s, hmid, hread⟩ := hback.of_snoc
  -- nothing was executed up to the line that stores
  have hview : namespaceOf u.kernel = namespaceOf kernelMain := by
    have hnothing : outputs Console.press Console.event Console.boot
        ((inputsFor "root\n1\necho > note").map Input.key) = [] := by
      decide +kernel
    have hsteps := nsEvents_of_run hfront
    rw [hnothing] at hsteps
    generalize namespaceOf kernelMain = ns, namespaceOf u.kernel = ns' at hsteps
    cases hsteps
    rfl
  -- one tame line was, up to the line that reads
  have hstays : (namespaceOf s.kernel).dir = (namespaceOf kernelMain).dir ∧
      (namespaceOf s.kernel).tty = (namespaceOf kernelMain).tty := by
    have hnote : outputs Console.press Console.event Console.boot
        ((inputsFor "root\n1\necho > note" ++ Input.still .enter :: inputsFor "cat note").map Input.key)
          = [.ran 0 "echo > note"] := by
      decide +kernel
    have hsteps := nsEvents_of_run (hfront.append (.cons hwrite hmid))
    rw [hnote] at hsteps
    generalize namespaceOf kernelMain = ns, namespaceOf s.kernel = ns' at hsteps ⊢
    cases hsteps with
    | cons hone hnil =>
      cases hnil
      exact tame_note.stays hone
  have hc : u.console.fileCommand Hardware.still.stack .enter
      = some (.redirect (Name.ofString "note") .empty) := by
    have hexec : u.console.executed .enter = some ("echo > note" : CString) := by
      rw [console_of_run hfront]
      decide +kernel
    show (u.console.executed .enter).bind _ = _
    rw [hexec]
    exact fileCommand_note Hardware.still.stack
  have hexec : s.console.executed .enter = some "cat note" := by
    rw [console_of_run (hfront.append (.cons hwrite hmid))]
    decide +kernel
  have hsilent : outputs (fun c i => c.press i.key) (fun c i => c.executed i.key) u'.console
      (inputsFor "cat note") = [] := by
    rw [console_of_run (hfront.snoc hwrite)]
    decide +kernel
  have hrest := spares_of_silent (p := ((namespaceOf u.kernel).cwd, CString.ofString "note"))
    (hfront.snoc hwrite) hmid hsilent
  have hdir : (namespaceOf s.kernel).cwd = (namespaceOf u.kernel).cwd := by
    rw [hview, Namespace.cwd, Namespace.cwd, hstays.1, hstays.2]
  obtain ⟨names, hleads, hterm⟩ := stored_shown hfront hwrite hc rfl (hview ▸ writable_note) hrest hread
    hexec parseCommand_catNote hdir
  exact ⟨s, t, names, hleads, hterm⟩

end Srunix
