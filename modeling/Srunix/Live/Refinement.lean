import Srunix.Live.Run
import Srunix.Console.Session

/-!
# The live system refines its namespace

Two results about the runs in which nothing goes wrong: the console, the flags and
the namespace are what the keys make of them (`live_refines`), and every key is
answered, in one way (`live_answers`).

Lines that are good in every state make such a run, whatever else happens
(`exists_liveRun`).
-/

namespace Srunix

open Library

/-- A key that comes when memory and clock show zeros. -/
def Input.still (k : Key) : Input := ⟨Hardware.still, k⟩

/-- The keys of a text, one by one. -/
def inputsFor (text : CString) : List Input := (Console.typing text).map Input.still

theorem keys_still (keys : List Key) : (keys.map Input.still).map Input.key = keys := by
  rw [List.map_map]
  exact List.map_id _

theorem keys_inputsFor (text : CString) : (inputsFor text).map Input.key = Console.typing text :=
  keys_still _

/-! ## What is executed -/

/-- The command on files an event comes to. -/
def Event.fileCommand (stack : Nat → UInt8) : Event → Option ShellCmd
  | .ran _ cmd => (parseCommand cmd).fileCommand stack
  | .moved ttyNum => some (.switchTty ttyNum.val)

/-- The command on files is that of the event. -/
theorem Console.fileCommand_eq (stack : Nat → UInt8) (c : Console) (k : Key) :
    c.fileCommand stack k = (c.event k).bind (Event.fileCommand stack) := by
  cases k with
  | function ttyNum =>
    unfold Console.fileCommand Console.event
    dsimp only
    cases c.stack with
    | nil => rfl
    | cons frame rest => cases frame <;> rfl
  | char ch =>
    show (c.executed (.char ch)).bind _ = ((c.executed (.char ch)).map _).bind _
    rw [Option.bind_map]
    rfl

theorem Console.event_of_executed {c : Console} {k : Key} {cmd : CString} (h : c.executed k = some cmd) :
    c.event k = some (.ran c.currentTty cmd) := by
  cases k with
  | function ttyNum => cases h
  | char ch => exact congrArg (Option.map (Event.ran c.currentTty)) h

/-- What an event does to the namespace. What lies on the stack of
`execute_append_output` makes no difference. -/
def NsEvent (ns : Namespace) (e : Event) (ns' : Namespace) : Prop :=
  ∃ stack, OrStays NsStep ns (e.fileCommand stack) ns'

/-- In a good run the namespace takes a step for every event, and none for any other
key. -/
theorem nsEvents_of_run {inputs : List Input} {s : Live} (h : LiveRun inputs s) :
    Steps NsEvent (namespaceOf kernelMain)
      (outputs Console.press Console.event Console.boot (inputs.map Input.key))
      (namespaceOf s.kernel) := by
  have hstep : ∀ {s : Live} {i : Input} {t : Live} {c : Console} {ns : Namespace}, KeepsUp s c ns →
      LiveStep s i t →
      ∃ ns', OrStays NsEvent ns (c.event i.key) ns' ∧ KeepsUp t (c.press i.key) ns' := by
    intro s i t c ns hkeeps hstep
    obtain ⟨ns', hns, hkeeps'⟩ := hkeeps.step hstep
    refine ⟨ns', ?_, hkeeps'⟩
    rw [Console.fileCommand_eq] at hns
    cases hevent : c.event i.key with
    | none =>
      rw [hevent] at hns
      exact hns
    | some e =>
      rw [hevent] at hns
      exact ⟨i.hw.stack, hns⟩
  obtain ⟨ns, hsteps, hkeeps⟩ := h.simulation_outputs keepsUp_boot hstep
  rw [hkeeps.session.view] at hsteps
  rw [outputs_map]
  exact hsteps

/-- On a machine that shows zeros, the commands on files are those of the events. -/
theorem fileCommands_still (keys : List Key) :
    fileCommands (keys.map Input.still)
      = (outputs Console.press Console.event Console.boot keys).filterMap
          (Event.fileCommand Hardware.still.stack) := by
  have hevents : Console.fileCommand Hardware.still.stack
      = fun c k => (c.event k).bind (Event.fileCommand Hardware.still.stack) :=
    funext fun c => funext fun k => Console.fileCommand_eq Hardware.still.stack c k
  rw [fileCommands, outputs_map, ← outputs_bind, ← hevents]
  rfl

/-! ## Lines that are good in every state -/

/-- A line that overflows nothing and takes no terminal to another directory. -/
structure Tame (cmd : CString) : Prop where
  ok : ∀ hw s, LineOk hw s cmd
  stays : ∀ {ns tty ns'}, NsEvent ns (.ran tty cmd) ns' → ns'.dir = ns.dir ∧ ns'.tty = ns.tty

/-- All terminals stand in the root directory. -/
structure AtRoot (ns : Namespace) : Prop where
  dir : ∀ t < maxTtys, ns.dir t = 1
  tty : ns.tty < maxTtys

theorem atRoot_boot : AtRoot (namespaceOf kernelMain) := by
  have hdirs : ∀ t < maxTtys, ttyDir kernelMain t = 1 := by
    decide +kernel
  exact ⟨hdirs, shellInv_kernelMain.currentTty_lt⟩

/-- In the root the paths are short. -/
theorem pathsFit_root {k : KernelState} (h : k.fs.currentInode = 1) : PathsFit k := by
  rintro a (rfl | rfl)
  · exact ⟨1, pwdArrays, by rw [h]; rfl, by decide, by decide⟩
  · exact ⟨1, promptArrays, by rw [h]; rfl, by decide, by decide⟩

theorem AtRoot.pathsFit {k : KernelState} (h : AtRoot (namespaceOf k)) : PathsFit k :=
  pathsFit_root ((cwd_namespaceOf k).symm.trans (h.dir _ h.tty))

/-- Tame lines leave all terminals in the root. A switch shows another one of them. -/
theorem AtRoot.step {ns ns' : Namespace} (h : AtRoot ns) {c : Console} {k : Key} {stack : Nat → UInt8}
    (htame : ∀ cmd, c.executed k = some cmd → Tame cmd)
    (hstep : OrStays NsStep ns (c.fileCommand stack k) ns') : AtRoot ns' := by
  cases k with
  | function ttyNum =>
    -- a function key is a switch, or nothing where no call reads it
    have hcases : OrStays NsStep ns (some (.switchTty ttyNum.val)) ns' ∨ ns' = ns := by
      revert hstep
      unfold Console.fileCommand
      dsimp only
      cases c.stack with
      | nil => exact .inr
      | cons frame rest =>
        cases frame with
        | halted => exact .inr
        | username | password | shell | wait => exact .inl
    rcases hcases with hswitch | rfl
    · have hin : 0 ≤ (ttyNum.val : Int) ∧ (ttyNum.val : Int) < maxTtys := by
        have := ttyNum.isLt
        omega
      obtain rfl : ns' = ns.switchTo ttyNum.val := hswitch
      rw [Namespace.switchTo, if_pos hin]
      exact ⟨h.dir, ttyNum.isLt⟩
    · exact h
  | char ch =>
    unfold Console.fileCommand at hstep
    dsimp only at hstep
    cases hexec : c.executed (.char ch) with
    | none =>
      rw [hexec] at hstep
      obtain rfl : ns' = ns := hstep
      exact h
    | some cmd =>
      rw [hexec] at hstep
      -- a tame line stays in its directory and on its terminal
      have hevent : NsEvent ns (.ran 0 cmd) ns' := ⟨stack, hstep⟩
      obtain ⟨hdir, htty⟩ := (htame cmd hexec).stays hevent
      exact ⟨hdir ▸ h.dir, htty ▸ h.tty⟩

/-- Whatever keys come, lines that are all tame make a run. -/
theorem exists_liveRun {inputs : List Input}
    (htame : ∀ tty cmd, .ran tty cmd ∈
      outputs Console.press Console.event Console.boot (inputs.map Input.key) → Tame cmd) :
    ∃ s, LiveRun inputs s ∧ AtRoot (namespaceOf s.kernel) := by
  -- the induction is on the last key, since a line is judged by all keys before it
  induction inputs using List.reverseRecOn with
  | nil =>
    have hboot : AtRoot (namespaceOf (loginScreen kernelMain)) := by
      rw [(loginScreen_prints kernelMain).namespaceOf]
      exact atRoot_boot
    exact ⟨Live.boot, .nil _, hboot⟩
  | append_singleton done i ih =>
    rw [List.map_append, List.map_singleton] at htame
    obtain ⟨s, hrun, hroot⟩ := ih fun tty cmd hmem => htame tty cmd (by
      rw [outputs_append]
      exact List.mem_append_left _ hmem)
    have hsession := session_of_run hrun
    have hlast : ∀ cmd, s.console.executed i.key = some cmd → Tame cmd := by
      intro cmd hexec
      rw [console_of_run hrun] at hexec
      exact htame _ cmd (mem_outputs (Console.event_of_executed hexec))
    have hok : KeyOk i.hw s i.key := fun cmd hexec => (hlast cmd hexec).ok i.hw s
    obtain ⟨fuel, fuel', t, hpress⟩ := Live.exists_press hsession hok
    obtain ⟨ns', hns, hsession'⟩ := Live.session_press hsession hok hpress
    have hroot' : AtRoot (namespaceOf t.kernel) := by
      rw [← hsession'.view]
      exact hroot.step hlast hns
    exact ⟨t, hrun.snoc ⟨hok, ⟨fuel, fuel', hpress⟩, hroot'.pathsFit⟩, hroot'⟩

/-- The lines are known from what the keys come to. -/
theorem exists_liveRun_still {keys : List Key} {events : List Event}
    (hevents : outputs Console.press Console.event Console.boot keys = events)
    (htame : ∀ tty cmd, .ran tty cmd ∈ events → Tame cmd) : ∃ s, LiveRun (keys.map Input.still) s := by
  obtain ⟨s, hrun, -⟩ : ∃ s, LiveRun (keys.map Input.still) s ∧ AtRoot (namespaceOf s.kernel) := by
    refine exists_liveRun fun tty cmd hmem => ?_
    rw [keys_still, hevents] at hmem
    exact htame tty cmd hmem
  exact ⟨s, hrun⟩

/-- Making an entry takes nobody anywhere. -/
theorem Namespace.make_stays (ns : Namespace) (name : Name) (nd : Node) :
    (ns.make name nd).dir = ns.dir ∧ (ns.make name nd).tty = ns.tty := by
  rw [Namespace.make]
  split
  · exact ⟨rfl, rfl⟩
  · exact ⟨rfl, rfl⟩

/-- `touch` with a name that fits is tame. -/
theorem tame_touch {cmd filename : CString} (hparse : parseCommand cmd = .other ["touch", filename])
    (hlen : filename.bytes.length ≤ 30) : Tame cmd := by
  have hinv : invocation ["touch", filename] = .touch filename := rfl
  have hname : entryName filename = some ⟨filename, hlen⟩ := dif_pos hlen
  have hfile : ∀ stack, (parseCommand cmd).fileCommand stack = some (.touch ⟨filename, hlen⟩) := by
    intro stack
    rw [hparse, Command.fileCommand, hinv, Invocation.fileCommand, hname]
    rfl
  refine ⟨fun hw s => ⟨fun name hmem => ?_, ?_, fun c hc => ?_⟩, fun hstep => ?_⟩
  · rw [hparse, Command.newNames, hinv] at hmem
    rw [List.mem_singleton.mp hmem]
    exact hlen
  · unfold LineSafe
    rw [hparse]
    trivial
  · cases (hfile hw.stack).symm.trans hc
    exact ⟨trivial, fun _ _ hstored => by cases hstored⟩
  · obtain ⟨stack, hns⟩ := hstep
    rw [Event.fileCommand, hfile] at hns
    have hmake : _ = Namespace.make _ ⟨filename, hlen⟩ (.file []) := hns
    rw [hmake]
    exact Namespace.make_stays _ _ _

theorem parseCommand_touch : parseCommand "touch a" = .other ["touch", "a"] := by
  decide +kernel

theorem tame_touch_a : Tame "touch a" := tame_touch parseCommand_touch (by decide)

theorem fileCommand_touch (stack : Nat → UInt8) :
    (parseCommand "touch a").fileCommand stack = some (.touch (Name.ofString "a")) := by
  rw [parseCommand_touch]
  rfl

/-- `root` logs in and makes a file. -/
def textTouch : CString := "root\n1\ntouch a\n"

theorem events_textTouch :
    outputs Console.press Console.event Console.boot (Console.typing textTouch) = [.ran 0 "touch a"] := by
  decide +kernel

theorem fileCommands_textTouch : fileCommands (inputsFor textTouch) = [.touch (Name.ofString "a")] := by
  have hone : Event.fileCommand Hardware.still.stack (.ran 0 "touch a")
      = some (.touch (Name.ofString "a")) := fileCommand_touch Hardware.still.stack
  rw [inputsFor, fileCommands_still, events_textTouch, List.filterMap_cons_some hone]
  rfl

theorem liveRun_textTouch : ∃ s, LiveRun (inputsFor textTouch) s := by
  refine exists_liveRun_still events_textTouch fun tty cmd hmem => ?_
  cases List.mem_singleton.mp hmem
  exact tame_touch_a

/-! ## Refinement -/

/-- **The live system refines its namespace**: after any keys at which nothing goes wrong
(`LiveRun`) the console is where they lead, its flags are those of the kernel's terminals,
and the files, the directories and the terminals are what the commands on files make of
those of `kernel_main`, one after the other. -/
theorem live_refines {inputs : List Input} {s : Live} (h : LiveRun inputs s) :
    s.console = Console.after (inputs.map Input.key) ∧ Console.Agrees s.console s.kernel ∧
      Steps NsStep (namespaceOf kernelMain) (fileCommands inputs) (namespaceOf s.kernel) := by
  obtain ⟨hconsole, hmirrors⟩ := mirrors_of_run (h.mono LiveStep.answers)
  exact ⟨hconsole, hmirrors.agrees, nsSteps_of_run h⟩

/-- `root` logs in and makes a file. -/
theorem live_refines_touch : ∃ s : Live,
    s.console = Console.after (Console.typing textTouch) ∧ Console.Agrees s.console s.kernel ∧
      Steps NsStep (namespaceOf kernelMain) [.touch (Name.ofString "a")] (namespaceOf s.kernel) := by
  obtain ⟨s, h⟩ := liveRun_textTouch
  obtain ⟨hconsole, hagrees, hsteps⟩ := live_refines h
  rw [keys_inputsFor] at hconsole
  rw [fileCommands_textTouch] at hsteps
  exact ⟨s, hconsole, hagrees, hsteps⟩

/-- **No run is stuck**: in every state that a run in which nothing goes wrong reaches,
the kernel answers every key at which nothing goes wrong (`KeyOk`), always in the same
way, and the namespace changes by the one command the key completes, or not at all. -/
theorem live_answers {inputs : List Input} {s : Live} (h : LiveRun inputs s) {i : Input}
    (hok : KeyOk i.hw s i.key) :
    ∃ t, s.Answers i t ∧ (∀ t', s.Answers i t' → t' = t) ∧
      t.console = s.console.press i.key ∧
      OrStays NsStep (namespaceOf s.kernel) (s.console.fileCommand i.hw.stack i.key)
        (namespaceOf t.kernel) := by
  have hsession := session_of_run h
  obtain ⟨fuel, fuel', t, hpress⟩ := Live.exists_press hsession hok
  obtain ⟨ns', hns, hsession'⟩ := Live.session_press hsession hok hpress
  rw [hsession'.view] at hns
  obtain ⟨hconsole, -⟩ := serves_of_run (h.mono LiveStep.answers) ⟨fuel, fuel', hpress⟩
  exact ⟨t, ⟨fuel, fuel', hpress⟩, fun t' h' => Live.answers_unique h' ⟨fuel, fuel', hpress⟩, hconsole, hns⟩

/-- The Enter after `touch a`. -/
theorem live_answers_touch : ∃ s t : Live,
    LiveRun (inputsFor "root\n1\ntouch a") s ∧ s.Answers (.still .enter) t ∧
      OrStays NsStep (namespaceOf s.kernel) (some (.touch (Name.ofString "a"))) (namespaceOf t.kernel) := by
  -- up to the line nothing is executed at all
  have hnothing : outputs Console.press Console.event Console.boot
      (Console.typing "root\n1\ntouch a") = [] := by
    decide +kernel
  obtain ⟨s, h⟩ : ∃ s, LiveRun (inputsFor "root\n1\ntouch a") s :=
    exists_liveRun_still hnothing fun _ _ hmem => absurd hmem List.not_mem_nil
  have hexec : s.console.executed .enter = some "touch a" := by
    rw [console_of_run h, keys_inputsFor]
    decide +kernel
  have hok : KeyOk Hardware.still s .enter := by
    intro cmd hcmd
    obtain rfl : cmd = "touch a" := Option.some.inj (hcmd.symm.trans hexec)
    exact tame_touch_a.ok Hardware.still s
  have hcommand : s.console.fileCommand Hardware.still.stack .enter = some (.touch (Name.ofString "a")) := by
    show (s.console.executed .enter).bind _ = _
    rw [hexec]
    exact fileCommand_touch Hardware.still.stack
  obtain ⟨t, hanswers, -, -, hns⟩ := live_answers (i := .still .enter) h hok
  rw [show s.console.fileCommand (Input.still .enter).hw.stack (Input.still .enter).key = _
    from hcommand] at hns
  exact ⟨s, t, h, hanswers, hns⟩

end Srunix
