import Srunix.Live.Fuel
import Srunix.Live.Terminals

/-!
# Runs of the live system

As long as nothing goes wrong with the files (`KeyOk`), these change as the lines
say that were executed, in their order: the kernel is in a session all the time,
and the namespace of the session takes a step for every command on files that a
key completes, and none for any other key. In such a run every key is answered
(`exists_press`).
-/

namespace Srunix

open Library

/-! ## Keys at which nothing goes wrong -/

/-- The condition is one on the files and the namespace. -/
theorem CmdOk.congr {k k' : KernelState} {c : ShellCmd} (h : CmdOk k c)
    (hns : namespaceOf k' = namespaceOf k) (hfs : k'.fs = k.fs) : CmdOk k' c := by
  refine ⟨?_, ?_⟩
  · rw [hns]
    exact h.removable
  · rw [hns, hfs]
    exact h.stored

/-- A key that carries out a command on files, or switches terminals. -/
def Console.fileCommand (stack : Nat → UInt8) (c : Console) : Key → Option ShellCmd
  | .function ttyNum =>
    match c.stack with
    | .halted :: _ | [] => none
    | _ => some (.switchTty ttyNum.val)
  | .char ch => (c.executed (.char ch)).bind fun cmd => (parseCommand cmd).fileCommand stack

/-- A character that completes no line of a shell is no command. -/
theorem Console.fileCommand_of_not_shell {c : Console} (stack : Nat → UInt8)
    (h : ∀ line rest, c.stack ≠ .shell line :: rest) {ch : KeyChar} :
    c.fileCommand stack (.char ch) = none := by
  rw [fileCommand, executed_of_not_shell h]
  rfl

/-- A function key switches, whichever call reads it. -/
theorem Console.fileCommand_function {c : Console} {frame : Frame} {rest : List Frame}
    (hstack : c.stack = frame :: rest) (hreads : frame ≠ .halted) {stack : Nat → UInt8}
    {ttyNum : Fin maxTtys} : c.fileCommand stack (.function ttyNum) = some (.switchTty ttyNum.val) := by
  rw [fileCommand, hstack]
  cases frame with
  | halted => exact absurd rfl hreads
  | username | password | shell | wait => rfl

/-- Nothing is one where no call waits for a key. -/
theorem Console.fileCommand_idle {c : Console} (hstack : c.stack = [] ∨ ∃ rest, c.stack = .halted :: rest)
    (stack : Nat → UInt8) (k : Key) : c.fileCommand stack k = none := by
  cases k with
  | function ttyNum => rcases hstack with hnil | ⟨rest, hhalted⟩ <;> simp only [fileCommand, *]
  | char ch =>
    refine fileCommand_of_not_shell stack fun line rest' heq => ?_
    rcases hstack with hnil | ⟨rest, hhalted⟩
    · cases hnil.symm.trans heq
    · cases hhalted.symm.trans heq

/-- A line at which nothing goes wrong: new names fit their entries, and what
`terminal_printf` is given its buffer; a text that is stored is shorter than
`MAX_FILE_SIZE`, with what it is appended to, and finds its blocks; and if `rm -rf`
names a directory, it is empty and no terminal stands in it (`CmdOk`). -/
structure LineOk (hw : Hardware) (s : Live) (cmd : CString) : Prop where
  names : ∀ name ∈ (parseCommand cmd).newNames, name.bytes.length ≤ 30
  printfs : LineSafe s.toMachine cmd
  file : ∀ c, (parseCommand cmd).fileCommand hw.stack = some c → CmdOk s.kernel c

/-- A key at which nothing goes wrong: if it completes a line, that is such a line. -/
def KeyOk (hw : Hardware) (s : Live) (k : Key) : Prop :=
  ∀ cmd, s.console.executed k = some cmd → LineOk hw s cmd

theorem ttyDir_setLoggedIn (k : KernelState) (b : Bool) : ttyDir (setLoggedIn k b) = ttyDir k :=
  congrArg Namespace.dir (namespaceOf_setLoggedIn k b)

/-- The flags are no part of the session. -/
theorem SessionInv.setLoggedIn {k : KernelState} {ns : Namespace} (h : SessionInv k ns) (b : Bool) :
    SessionInv (setLoggedIn k b) ns := by
  refine ⟨⟨h.shell.tree, h.shell.currentTty_lt, fun t ht => ?_⟩, h.files, h.mode, ?_⟩
  · rw [ttyDir_setLoggedIn]
    exact h.shell.cursor t ht
  · rw [namespaceOf_setLoggedIn]
    exact h.view

namespace Live

variable {hw : Hardware} {fuel fuel' : Nat} {s s' : Live} {ns : Namespace}

/-! ## One key -/

/-- One line: the namespace takes the step of its command on files. -/
theorem session_execute {cmd : CString} (h : SessionInv s.kernel ns)
    (hok : ∀ c, (parseCommand cmd).fileCommand hw.stack = some c → CmdOk s.kernel c)
    (hrun : s.execute hw fuel cmd = some s') :
    ∃ ns', OrStays NsStep ns ((parseCommand cmd).fileCommand hw.stack) ns' ∧
      SessionInv s'.kernel ns' := by
  cases hfile : (parseCommand cmd).fileCommand hw.stack with
  | some c =>
    rw [execute_file hfile] at hrun
    obtain ⟨k, hk, rfl⟩ := Option.map_eq_some_iff.mp hrun
    exact h.step (hok c hfile) hk
  | none =>
    by_cases hexit : commandKind cmd = .exit
    · rw [execute_exit hexit] at hrun
      cases hrun
      have hbye := (Quiet.prints s.kernel [.text "Welcome to Srunix86\n"]).session ns h
      exact ⟨ns, rfl, (Quiet.loginScreen _).session ns (hbye.setLoggedIn false)⟩
    · exact ⟨ns, rfl, (execute_quiet h hfile hexit hrun).kernel.session ns h⟩

/-- The banner after a login. -/
theorem session_login (h : SessionInv s.kernel ns) :
    SessionInv (shellBanner (setLoggedIn (s.kernel.writestring "\nWelcome to Srunix86 livecd\n") true))
      ns := by
  have hwelcome := (Quiet.prints s.kernel [.text "\nWelcome to Srunix86 livecd\n"]).session ns h
  exact (Quiet.shellBanner _).session ns (hwelcome.setLoggedIn true)

/-- A login changes no file and no directory. -/
theorem session_finishLogin {username password : CString} (h : SessionInv s.kernel ns)
    (hrun : s.finishLogin fuel fuel' username password = some s') : SessionInv s'.kernel ns := by
  unfold finishLogin at hrun
  generalize hone : (if strcmp username "1" = 0 ∧ strcmp password "1" = 0 then
      s.withKernel (setLoggedIn ((s.kernel.setcolor colorGreen colorBlack).writestring
        "\nWelcome to Srunix86 livecd\n") true)
    else s) = u at hrun
  -- user 1 with password 1 gets a welcome and is marked, but stays at the login
  have hfirst : SessionInv u.kernel ns := by
    rw [← hone]
    split
    · have hwelcome : Quiet s.kernel ((s.kernel.setcolor colorGreen colorBlack).writestring
          "\nWelcome to Srunix86 livecd\n") :=
        .of_fs rfl (((Undisturbed.refl s.kernel.term).setcolor _ _).writestring _)
      exact (hwelcome.session ns h).setLoggedIn true
    · exact h
  dsimp only at hrun
  split at hrun
  · have hprompt : QuietStep (u.withKernel (shellBanner
        (setLoggedIn (u.kernel.writestring "\nWelcome to Srunix86 livecd\n") true))) s' :=
      prompted_quiet hrun
    exact hprompt.kernel.session ns (session_login hfirst)
  · cases hrun
    have hagain := (Quiet.prints u.kernel [.text "\nlogin incorrect\n"]).session ns hfirst
    exact (Quiet.loginScreen _).session ns hagain

/-- One key at the line of a shell. -/
theorem session_shellKey {c : Console} {line : Line} {rest : List Frame} {ch : KeyChar}
    (hstack : c.stack = .shell line :: rest) (h : SessionInv s.kernel ns)
    (hok : ∀ cmd, c.executed (.char ch) = some cmd → ∀ f,
      (parseCommand cmd).fileCommand hw.stack = some f → CmdOk s.kernel f)
    (hrun : s.shellKey hw fuel fuel' c.history line ch = some s') :
    ∃ ns', OrStays NsStep ns (c.fileCommand hw.stack (.char ch)) ns' ∧ SessionInv s'.kernel ns' := by
  have hexec := Console.executed_shell hstack ch
  rw [shellKey] at hrun
  rw [Console.fileCommand, hexec]
  rw [hexec] at hok
  -- the character is drawn before anything else happens
  let t := s.withKernel { s.kernel with term := echoChar s.kernel.term (line, c.history) ch }
  have hecho : SessionInv t.kernel ns := (s.quiet_echoChar (line, c.history) ch).session ns h
  cases hcmd : (shellChar c.history line ch).2.2 with
  | none =>
    rw [hcmd] at hrun
    have hquiet : QuietStep t s' := by
      dsimp only at hrun
      split at hrun
      · exact prompted_quiet hrun
      · cases hrun
        exact ⟨.refl _, rfl⟩
    exact ⟨ns, rfl, hquiet.kernel.session ns hecho⟩
  | some cmd =>
    rw [hcmd] at hrun
    obtain ⟨s₁, hexecute, hprompt⟩ := Option.bind_eq_some_iff.mp hrun
    -- the line is judged by the state it starts in, which drawing does not change
    have hsame : namespaceOf t.kernel = namespaceOf s.kernel := hecho.view.symm.trans h.view
    obtain ⟨ns', hns, hsession⟩ := session_execute (s := t) hecho
      (fun f hf => (hok cmd hcmd f hf).congr hsame rfl) hexecute
    exact ⟨ns', hns, (prompted_quiet hprompt).kernel.session ns' hsession⟩

/-- **One key**: the namespace changes as the command says that it completes. -/
theorem session_press {k : Key} (h : SessionInv s.kernel ns) (hok : KeyOk hw s k)
    (hrun : s.press hw fuel fuel' k = some s') :
    ∃ ns', OrStays NsStep ns (s.console.fileCommand hw.stack k) ns' ∧ SessionInv s'.kernel ns' := by
  -- a key that is no command on files leaves the session where it is
  have hstays : s.console.fileCommand hw.stack k = none → SessionInv s'.kernel ns →
      ∃ ns', OrStays NsStep ns (s.console.fileCommand hw.stack k) ns' ∧ SessionInv s'.kernel ns' := by
    intro hnone hsession
    rw [hnone]
    exact ⟨ns, rfl, hsession⟩
  have hother : ∀ {frame : Frame} {rest : List Frame} {ch : KeyChar}, s.console.stack = frame :: rest →
      (∀ line, frame ≠ .shell line) → s.console.fileCommand hw.stack (.char ch) = none :=
    fun hstack hne => Console.fileCommand_of_not_shell hw.stack fun line rest' heq =>
      hne line (List.cons.inj (hstack.symm.trans heq)).1
  cases pressed_of_press hrun with
  | idle hstack => exact hstays (Console.fileCommand_idle hstack hw.stack k) h
  | @switched frame rest ttyNum hstack hreads =>
    -- `switch_tty`, whichever call reads the key
    have hok : CmdOk s.kernel (.switchTty ttyNum.val) :=
      ⟨trivial, fun _ _ hstored => by cases hstored⟩
    have hswitch : execShellCmd 0 s.kernel (.switchTty ttyNum.val)
        = some (Srunix.switchTty s.kernel ttyNum.val) := rfl
    rw [Console.fileCommand_function hstack hreads]
    exact h.step hok hswitch
  | nameChar hstack hnl =>
    exact hstays (hother hstack fun _ => Frame.noConfusion) ((quiet_echoField _ _ _ _).kernel.session ns h)
  | nameEnter hstack =>
    refine hstays (hother hstack fun _ => Frame.noConfusion) ?_
    exact (Quiet.prints _ [.text "Password: "]).session ns ((s.quiet_putchar 0x0A).session ns h)
  | passwordChar hstack hnl =>
    exact hstays (hother hstack fun _ => Frame.noConfusion) ((quiet_echoField _ _ _ _).kernel.session ns h)
  | passwordEnter hstack hfinish =>
    refine hstays (hother hstack fun _ => Frame.noConfusion) ?_
    exact session_finishLogin
      (s := ({ s with console := s.console.press .enter } : Live).putchar 0x0A)
      ((s.quiet_putchar 0x0A).session ns h) hfinish
  | @line _ _ ch _ hstack hline =>
    -- the only call that executes lines
    exact session_shellKey (s := { s with console := s.console.press (.char ch) }) hstack h
      (fun cmd hcmd f hf => (hok cmd hcmd).file f hf) hline
  | woken hstack hwake =>
    refine hstays (hother hstack fun _ => Frame.noConfusion) ?_
    have hwoken := (Quiet.prints s.kernel [.text (s.wakes.headD "")]).session ns h
    exact (prompted_quiet hwake).kernel.session ns hwoken

/-! ## Every key is answered -/

/-- A command at which nothing goes wrong comes to an end. For `rm -rf` that is
because the directory is empty. -/
theorem exists_execShellCmd {k : KernelState} (h : SessionInv k ns) {c : ShellCmd} (hok : CmdOk k c) :
    ∃ fuel k', execShellCmd fuel k c = some k' := by
  obtain ⟨m, hfiles⟩ := h.files
  have hrm := hfiles.rmOk h.shell hok.removable
  cases c with
  | rm name recursive =>
    show ∃ fuel k', executeRm fuel k (.buffer name) recursive = some k'
    cases hfind : findInCurrentDir k.fs ((NamePtr.buffer name).deref k.fs) with
    | none => exact ⟨1, _, executeRm_missing hfind⟩
    | some i =>
      by_cases htype : (k.fs.files i).type = fileDir
      · cases recursive with
        | false => exact ⟨1, _, executeRm_refused hfind htype⟩
        | true =>
          have hchildless := (hrm i hfind htype).1
          exact ⟨k.fs.fileCount + 2, _, executeRm_childless hfind
            fun j hj => hchildless _ (files_mem_entries hj)⟩
      · exact ⟨1, _, executeRm_regular hfind htype⟩
  | touch | mkdir | cd | redirect | append | switchTty | login => exact ⟨0, _, rfl⟩

theorem exists_runFile (h : SessionInv s.kernel ns) {c : ShellCmd} (hok : CmdOk s.kernel c) :
    ∃ fuel s', s.runFile fuel c = some s' := by
  obtain ⟨fuel, k, hk⟩ := exists_execShellCmd h hok
  exact ⟨fuel, s.withKernel k, congrArg (Option.map s.withKernel) hk⟩

theorem entryName_ne_none {name : CString} (h : name.bytes.length ≤ 30) : entryName name ≠ none := by
  rw [entryName, dif_pos h]
  exact Option.some_ne_none _

theorem exists_invoke (h : SessionInv s.kernel ns) {inv : Invocation} (hfile : inv.fileCommand = none)
    (hnames : ∀ name ∈ inv.newNames, name.bytes.length ≤ 30) :
    ∃ fuel s', s.invoke hw fuel inv = some s' := by
  cases inv with
  | pwd =>
    obtain ⟨fuel, hpwd⟩ := h.shell.executePwd
    obtain ⟨k, hk⟩ := Option.isSome_iff_exists.mp hpwd
    exact ⟨fuel, s.withKernel k, congrArg (Option.map s.withKernel) hk⟩
  | touch name | mkdir name =>
    exact absurd (Option.map_eq_none_iff.mp hfile)
      (entryName_ne_none (hnames name (List.mem_singleton_self name)))
  | cd | rm => cases hfile
  | _ => exact ⟨0, _, rfl⟩

/-- One line comes to an end. -/
theorem exists_execute (h : SessionInv s.kernel ns) {cmd : CString}
    (hnames : ∀ name ∈ (parseCommand cmd).newNames, name.bytes.length ≤ 30)
    (hok : ∀ c, (parseCommand cmd).fileCommand hw.stack = some c → CmdOk s.kernel c) :
    ∃ fuel s', s.execute hw fuel cmd = some s' := by
  cases hfile : (parseCommand cmd).fileCommand hw.stack with
  | some c =>
    obtain ⟨fuel, s', hrun⟩ := exists_runFile h (hok c hfile)
    exact ⟨fuel, s', (execute_file hfile).trans hrun⟩
  | none =>
    unfold execute
    cases hcmd : parseCommand cmd with
    | other args =>
      rw [hcmd] at hfile hnames
      exact exists_invoke h hfile hnames
    | redirectOutput name text | appendOutput name text =>
      rw [hcmd] at hfile hnames
      exact absurd (Option.map_eq_none_iff.mp hfile)
        (entryName_ne_none (hnames name (List.mem_singleton_self name)))
    -- no file is called `>` or `>>`, so the source is never there
    | catRedirect sourceFile destFile append =>
      refine ⟨0, s.prints [.printf (sourceNotFound sourceFile)], ?_⟩
      show s.runCatRedirect hw sourceFile destFile append = _
      rw [runCatRedirect, findRegular_redirect h (isRedirect_of_catRedirect hcmd)]
    | cat filename => cases filename <;> exact ⟨0, _, rfl⟩
    | empty | echo | catRedirectUsage => exact ⟨0, _, rfl⟩

/-- A login comes to its first prompt. -/
theorem exists_login (h : SessionInv s.kernel ns) :
    ∃ fuel', ∃ s', (s.runFile 0 .login).bind (prompted fuel') = some s' := by
  let k := setLoggedIn (s.kernel.writestring "\nWelcome to Srunix86 livecd\n") true
  have hsession : SessionInv (s.withKernel (shellBanner k)).kernel ns := session_login h
  exact exists_prompted hsession

theorem exists_finishLogin (h : SessionInv s.kernel ns) (username password : CString) :
    ∃ fuel fuel' s', s.finishLogin fuel fuel' username password = some s' := by
  unfold finishLogin
  dsimp only
  split
  · rename_i hroot
    have hone : ¬ (strcmp username "1" = 0 ∧ strcmp password "1" = 0) := by
      rw [strcmp_eq_zero_iff.mp hroot.1]
      exact fun hone => absurd hone.1 (by decide)
    rw [if_neg hone]
    obtain ⟨fuel', s', hlogin⟩ := exists_login h
    exact ⟨0, fuel', s', hlogin⟩
  · exact ⟨0, 0, _, rfl⟩

/-- One key at the line of a shell: the command ends, and the prompt behind it. -/
theorem exists_shellKey {c : Console} {line : Line} {rest : List Frame} {ch : KeyChar}
    (hstack : c.stack = .shell line :: rest) (h : SessionInv s.kernel ns)
    (hok : ∀ cmd, c.executed (.char ch) = some cmd → LineOk hw { s with console := c } cmd) :
    ∃ fuel fuel' s', s.shellKey hw fuel fuel' c.history line ch = some s' := by
  have hexec := Console.executed_shell hstack ch
  rw [hexec] at hok
  let t := s.withKernel { s.kernel with term := echoChar s.kernel.term (line, c.history) ch }
  have hecho : SessionInv t.kernel ns := (s.quiet_echoChar (line, c.history) ch).session ns h
  unfold shellKey
  cases hcmd : (shellChar c.history line ch).2.2 with
  | none =>
    dsimp only
    split
    · obtain ⟨fuel', s', hprompt⟩ := exists_prompted hecho
      exact ⟨0, fuel', s', hprompt⟩
    · exact ⟨0, 0, t, rfl⟩
  | some cmd =>
    have hline := hok cmd hcmd
    have hsame : namespaceOf t.kernel = namespaceOf s.kernel := hecho.view.symm.trans h.view
    have hfile : ∀ f, (parseCommand cmd).fileCommand hw.stack = some f → CmdOk t.kernel f :=
      fun f hf => (hline.file f hf).congr hsame rfl
    -- the command ends, and leaves a session in which the prompt ends too
    obtain ⟨fuel, s₁, hexecute⟩ := exists_execute hecho hline.names hfile
    obtain ⟨ns', -, hsession⟩ := session_execute (s := t) hecho hfile hexecute
    obtain ⟨fuel', s', hprompt⟩ := exists_prompted hsession
    exact ⟨fuel, fuel', s', Option.bind_eq_some_iff.mpr ⟨s₁, hexecute, hprompt⟩⟩

/-- **The kernel answers every key** at which nothing goes wrong. -/
theorem exists_press {k : Key} (h : SessionInv s.kernel ns) (hok : KeyOk hw s k) :
    ∃ fuel fuel' s', s.press hw fuel fuel' k = some s' := by
  cases hstack : s.console.stack with
  | nil => exact ⟨0, 0, s, press_idle (.inl hstack) k⟩
  | cons frame rest =>
    by_cases hhalted : frame = .halted
    · subst hhalted
      exact ⟨0, 0, s, press_idle (.inr ⟨rest, hstack⟩) k⟩
    cases k with
    -- `switch_tty` has no loop that could run out of fuel
    | function ttyNum => exact ⟨0, 0, _, press_function hstack hhalted ttyNum⟩
    | char ch =>
      cases frame with
      | halted => exact absurd rfl hhalted
      | username user =>
        by_cases hnl : ch = .newline
        · subst hnl
          exact ⟨0, 0, _, press_name_enter hstack⟩
        · exact ⟨0, 0, _, press_name_char hstack hnl⟩
      | password user pass =>
        by_cases hnl : ch = .newline
        · subst hnl
          -- Enter after a password may start a shell, whose prompt walks up the tree
          have hecho := (s.quiet_putchar 0x0A).session ns h
          obtain ⟨fuel, fuel', s', hfinish⟩ := exists_finishLogin
            (s := ({ s with console := s.console.press .enter } : Live).putchar 0x0A) hecho user pass
          exact ⟨fuel, fuel', s', (press_password_enter hstack).trans hfinish⟩
        · exact ⟨0, 0, _, press_password_char hstack hnl⟩
      | shell line =>
        obtain ⟨fuel, fuel', s', hline⟩ :=
          exists_shellKey (s := { s with console := s.console.press (.char ch) }) hstack h hok
        exact ⟨fuel, fuel', s', (press_line hstack ch).trans hline⟩
      | wait =>
        have hwoken := (Quiet.prints s.kernel [.text (s.wakes.headD "")]).session ns h
        obtain ⟨fuel', s', hprompt⟩ := exists_prompted (s :=
          ({ s with console := s.console.press (.char ch), wakes := s.wakes.tail } : Live).prints
            [.text (s.wakes.headD "")]) hwoken
        exact ⟨0, fuel', s', (press_wake hstack ch).trans hprompt⟩

end Live

/-! ## Runs -/

/-- One key at which nothing goes wrong, answered. The path to the directory the key
leads to fits the arrays of `pwd` and the prompt. -/
structure LiveStep (s : Live) (i : Input) (t : Live) : Prop where
  ok : KeyOk i.hw s i.key
  answers : s.Answers i t
  path : PathsFit t.kernel

/-- A run from the first login screen on, in which nothing goes wrong. -/
abbrev LiveRun (inputs : List Input) (s : Live) : Prop := Steps LiveStep Live.boot inputs s

/-- The commands on files that the keys amount to, told from the console alone. -/
def fileCommands (inputs : List Input) : List ShellCmd :=
  outputs (fun c i => c.press i.key) (fun c i => Console.fileCommand i.hw.stack c i.key) Console.boot
    inputs

/-- The console is `c`, and the kernel keeps up with it, in a session with the
namespace `ns`. -/
structure KeepsUp (s : Live) (c : Console) (ns : Namespace) : Prop where
  console : s.console = c
  mirrors : Mirrors s.kernel.term s.console s.kernel
  session : SessionInv s.kernel ns

/-- The step lemma of `KeepsUp`. -/
theorem KeepsUp.step {s t : Live} {i : Input} {c : Console} {ns : Namespace} (h : KeepsUp s c ns)
    (hstep : LiveStep s i t) :
    ∃ ns', OrStays NsStep ns (c.fileCommand i.hw.stack i.key) ns' ∧ KeepsUp t (c.press i.key) ns' := by
  obtain ⟨fuel, fuel', hpress⟩ := hstep.answers
  obtain ⟨hconsole, hmirrors, -⟩ := Live.mirrors_press h.mirrors hpress
  obtain ⟨ns', hns, hsession⟩ := Live.session_press h.session hstep.ok hpress
  rw [h.console] at hconsole hns
  exact ⟨ns', hns, hconsole, hmirrors, hsession⟩

theorem keepsUp_boot : KeepsUp Live.boot Console.boot (namespaceOf kernelMain) :=
  ⟨rfl, mirrors_boot, sessionInv_boot⟩

/-- The run lemma of `KeepsUp`. -/
theorem keepsUp_of_run {inputs : List Input} {s : Live} (h : LiveRun inputs s) :
    ∃ ns, Steps NsStep (namespaceOf kernelMain) (fileCommands inputs) ns ∧
      KeepsUp s (Console.after (inputs.map Input.key)) ns := by
  obtain ⟨ns, hsteps, hkeeps⟩ := h.simulation_outputs keepsUp_boot KeepsUp.step
  rw [← runOps_map] at hkeeps
  exact ⟨ns, hsteps, hkeeps⟩

/-- The session of a run is that of its own kernel. -/
theorem session_of_run {inputs : List Input} {s : Live} (h : LiveRun inputs s) :
    SessionInv s.kernel (namespaceOf s.kernel) := by
  obtain ⟨ns, -, hkeeps⟩ := keepsUp_of_run h
  exact hkeeps.session.view ▸ hkeeps.session

theorem console_of_run {inputs : List Input} {s : Live} (h : LiveRun inputs s) :
    s.console = Console.after (inputs.map Input.key) :=
  (mirrors_of_run (h.mono LiveStep.answers)).1

theorem LiveStep.console {inputs : List Input} {s t : Live} {i : Input} (h : LiveRun inputs s)
    (hstep : LiveStep s i t) : t.console = s.console.press i.key :=
  (serves_of_run (h.mono LiveStep.answers) hstep.answers).1

/-- A step does to the namespace what the command does that it completes. -/
theorem LiveStep.namespace {inputs : List Input} {s t : Live} {i : Input} (h : LiveRun inputs s)
    (hstep : LiveStep s i t) :
    OrStays NsStep (namespaceOf s.kernel) (s.console.fileCommand i.hw.stack i.key) (namespaceOf t.kernel) := by
  obtain ⟨fuel, fuel', hpress⟩ := hstep.answers
  obtain ⟨ns', hns, hsession⟩ := Live.session_press (session_of_run h) hstep.ok hpress
  rwa [hsession.view] at hns

/-- The namespace takes the steps of the commands on files, in their order. -/
theorem nsSteps_of_run {inputs : List Input} {s : Live} (h : LiveRun inputs s) :
    Steps NsStep (namespaceOf kernelMain) (fileCommands inputs) (namespaceOf s.kernel) := by
  obtain ⟨ns, hsteps, hkeeps⟩ := keepsUp_of_run h
  rwa [hkeeps.session.view] at hsteps

end Srunix
