import Srunix.Live.Step
import Srunix.Shell.Path

/-!
# What only prints

Most lines do nothing to the files but print about them. `Quiet` is what such a
call leaves of the kernel: any session it was in, and a terminal on which only
drawing was done. The commands on files are told apart by `Command.fileCommand`;
every other line but `exit` is quiet in a session (`execute_quiet`), and whatever
the files are, no line but `exit` does more to its terminal than draw on it
(`execute_draws`).
-/

namespace Srunix

open Library

/-! ## Drawing -/

namespace Undisturbed

/-- A call draws, and no more. -/
theorem termCall (t : Terminal) (c : TermCall) : Undisturbed t (c.run t) := by
  rw [TermCall.run_eq]
  split
  · exact .refl t
  · exact .putchars t c.sent

theorem out {t : Terminal} {s : KernelState} (h : Undisturbed t s.term) (o : Out) :
    Undisturbed t (o.run s).term := by
  cases o with
  | call c => exact h.trans (.termCall s.term c)
  | setcolor fg bg => exact h.setcolor fg bg
  | clear => exact h.clear

/-- A program that prints draws, and no more. -/
theorem prints {t : Terminal} {s : KernelState} (h : Undisturbed t s.term) (outs : List Out) :
    Undisturbed t (s.prints outs).term := by
  induction outs generalizing s with
  | nil => exact h
  | cons o outs ih => exact ih (h.out o)

theorem termCalls (t : Terminal) (calls : List TermCall) :
    Undisturbed t (calls.foldl TermCall.run t) := by
  induction calls generalizing t with
  | nil => exact .refl t
  | cons c calls ih => exact (Undisturbed.termCall t c).trans (ih (c.run t))

end Undisturbed

theorem Out.run_fs (s : KernelState) (o : Out) : (o.run s).fs = s.fs := by
  cases o <;> rfl

theorem KernelState.prints_fs (s : KernelState) (outs : List Out) : (s.prints outs).fs = s.fs := by
  induction outs generalizing s with
  | nil => rfl
  | cons o outs ih => exact (ih (o.run s)).trans (o.run_fs s)

/-- What leaves a session as it is: output, and the access times of files. -/
structure Quiet (s s' : KernelState) : Prop where
  session : ∀ ns, SessionInv s ns → SessionInv s' ns
  term : Undisturbed s.term s'.term

namespace Quiet

variable {s s₁ s₂ : KernelState}

theorem refl (s : KernelState) : Quiet s s := ⟨fun _ h => h, .refl _⟩

theorem trans (h₁ : Quiet s s₁) (h₂ : Quiet s₁ s₂) : Quiet s s₂ :=
  ⟨fun ns h => h₂.session ns (h₁.session ns h), h₁.term.trans h₂.term⟩

/-- Where the files are the same, drawing keeps the session. -/
theorem of_fs (hfs : s₁.fs = s.fs) (hterm : Undisturbed s.term s₁.term) : Quiet s s₁ := by
  refine ⟨fun ns h => ?_, hterm⟩
  have hprint : Prints s s₁ := ⟨hfs, hterm.toSameTtys⟩
  obtain ⟨m, hfiles⟩ := h.files
  exact ⟨h.shell.print hprint, ⟨m, hfs ▸ hfiles⟩, hterm.mouse.trans h.mode,
    h.view.trans hprint.namespaceOf.symm⟩

theorem prints (s : KernelState) (outs : List Out) : Quiet s (s.prints outs) :=
  .of_fs (s.prints_fs outs) ((Undisturbed.refl s.term).prints outs)

theorem loginScreen (s : KernelState) : Quiet s (loginScreen s) :=
  .of_fs (loginScreen_prints s).fs (loginScreen_undisturbed s)

theorem shellBanner (s : KernelState) : Quiet s (shellBanner s) :=
  .of_fs (shellBanner_prints s).fs (shellBanner_undisturbed s)

/-- Reading a file sets its access time, and nothing that a session goes by. -/
theorem read (s : KernelState) (n : Nat) (buffer : Nat → UInt8) (size : Nat) :
    Quiet s { s with fs := (fsReadFile s.fs n buffer size).2.2 } := by
  refine ⟨fun ns h => ?_, .refl _⟩
  obtain ⟨m, hfiles⟩ := h.files
  have hfs : (fsReadFile s.fs n buffer size).2.2 = accessed s.fs n := by
    rw [fsReadFile, accessed]
    split
    · rfl
    · rfl
  have hshell : ShellInv { s with fs := (fsReadFile s.fs n buffer size).2.2 } :=
    h.shell.call (c := .read n buffer size) rfl (SameTtys.refl s.term) trivial
      (fun n h => by cases h) (fun t _ h => by cases h)
  -- only the access time of the inode is new
  rw [hfs] at hshell ⊢
  have hstore := sameStore_accessed s.fs n
  have hlist : liveEntries (accessed s.fs n) = liveEntries s.fs := by
    rw [liveEntries, entries, hstore.files, hstore.fileCount]
    rfl
  refine ⟨hshell, ⟨m, hfiles.accessed n⟩, h.mode, h.view.trans ?_⟩
  let t : KernelState := { s with fs := accessed s.fs n }
  have hsame : namespaceOf t = { namespaceOf s with
      node := nodes t.fs, count := (liveEntries t.fs).length } :=
    namespaceOf_of_same hstore.currentInode (SameTtys.refl s.term)
  rw [hsame]
  show _ = { namespaceOf s with
    node := nodes (accessed s.fs n), count := (liveEntries (accessed s.fs n)).length }
  rw [hlist, nodes_accessed hfiles.store]
  rfl

end Quiet

/-! ## Which lines are commands on files -/

/-- The command on files that it is; a name that does not fit an entry makes none. -/
def Invocation.fileCommand : Invocation → Option ShellCmd
  | .touch filename => (entryName filename).map .touch
  | .mkdir dirname => (entryName dirname).map .mkdir
  | .rm filename recursive => some (.rm filename recursive)
  | .cd dirname => some (.cd dirname)
  | _ => none

/-- `stack` is what the buffer of `execute_append_output` holds before it is
read into. -/
def Command.fileCommand (stack : Nat → UInt8) : Command → Option ShellCmd
  | .redirectOutput filename text => (entryName filename).map fun name => .redirect name text
  | .appendOutput filename text => (entryName filename).map fun name => .append name text stack
  | .other args => (invocation args).fileCommand
  | _ => none

/-- The names the line may give to a new entry. -/
def Invocation.newNames : Invocation → List CString
  | .touch name | .mkdir name => [name]
  | _ => []

/-- The names the line may give to a new entry. -/
def Command.newNames : Command → List CString
  | .redirectOutput name _ | .appendOutput name _ => [name]
  | .other args => (invocation args).newNames
  | _ => []

/-- No line is a switch or a login. -/
theorem ShellCmd.onFiles_of_fileCommand {stack : Nat → UInt8} {command : Command} {c : ShellCmd}
    (h : command.fileCommand stack = some c) : c.OnFiles := by
  cases command with
  | redirectOutput | appendOutput =>
    obtain ⟨name, -, rfl⟩ := Option.map_eq_some_iff.mp h
    trivial
  | other args =>
    rw [Command.fileCommand] at h
    cases hinv : invocation args with
    | touch | mkdir =>
      rw [hinv] at h
      obtain ⟨name, -, rfl⟩ := Option.map_eq_some_iff.mp h
      trivial
    | rm | cd =>
      rw [hinv] at h
      cases h
      trivial
    | _ =>
      rw [hinv] at h
      cases h
  | _ => cases h

namespace Live

variable {hw : Hardware} {fuel fuel' : Nat} {s s' : Live}

/-- A name that fits its entry. -/
theorem runNamed_eq {filename : CString} {name : Name} (hname : entryName filename = some name)
    (command : Name → ShellCmd) :
    s.runNamed fuel filename command = s.runFile fuel (command name) := by
  rw [runNamed, hname]
  rfl

/-- A command on files is carried out as one. -/
theorem invoke_file {inv : Invocation} {c : ShellCmd} (h : inv.fileCommand = some c) :
    s.invoke hw fuel inv = s.runFile fuel c := by
  cases inv with
  | touch filename | mkdir filename =>
    obtain ⟨name, hname, rfl⟩ := Option.map_eq_some_iff.mp h
    exact runNamed_eq hname _
  | rm filename recursive | cd dirname =>
    cases h
    rfl
  | _ => cases h

/-- A line that is a command on files runs it. -/
theorem execute_file {cmd : CString} {c : ShellCmd}
    (h : (parseCommand cmd).fileCommand hw.stack = some c) :
    s.execute hw fuel cmd = s.runFile fuel c := by
  rw [execute]
  cases hcmd : parseCommand cmd with
  | redirectOutput filename text | appendOutput filename text =>
    rw [hcmd] at h
    obtain ⟨name, hname, rfl⟩ := Option.map_eq_some_iff.mp h
    exact runNamed_eq hname _
  | other args =>
    rw [hcmd] at h
    exact invoke_file h
  | _ =>
    rw [hcmd] at h
    cases h

/-- A step that leaves the session and the console as they are. -/
structure QuietStep (s s' : Live) : Prop where
  kernel : Quiet s.kernel s'.kernel
  console : s'.console = s.console

/-- A step that draws on the terminal and leaves the console as it is. -/
structure DrawStep (s s' : Live) : Prop where
  term : Undisturbed s.kernel.term s'.kernel.term
  console : s'.console = s.console

theorem QuietStep.draws (h : QuietStep s s') : DrawStep s s' := ⟨h.kernel.term, h.console⟩

theorem quietStep_prints {outs : List Out} (h : some (s.prints outs) = some s') : QuietStep s s' := by
  cases h
  exact ⟨.prints s.kernel outs, rfl⟩

theorem quietStep_waits {wake : CString} {outs : List Out}
    (h : some ((s.waits wake).prints outs) = some s') : QuietStep s s' := by
  cases h
  exact ⟨.prints s.kernel outs, rfl⟩

/-- `kernel_panic` draws, and comes back. -/
theorem kernelPanic_undisturbed (s : KernelState) (message : CString) :
    Undisturbed s.term (kernelPanic s message).term := by
  let s' : KernelState := { s.setcolor colorRed colorWhite with
    term := terminalClear (s.setcolor colorRed colorWhite).term }
  have hclear : Undisturbed s.term s'.term := ((Undisturbed.refl s.term).setcolor _ _).clear
  exact ((((((hclear.writestring _).writestring _).writestring _).writestring _).writestring
    _).writestring _).writestring _

theorem quietStep_pwd (h : (executePwd fuel s.kernel).map s.withKernel = some s') :
    QuietStep s s' := by
  obtain ⟨kernel, hpwd, rfl⟩ := Option.map_eq_some_iff.mp h
  obtain ⟨path, -, rfl⟩ := Option.map_eq_some_iff.mp hpwd
  refine ⟨.of_fs rfl ?_, rfl⟩
  exact (((Undisturbed.refl s.kernel.term).writestring "").writestring path).writestring "\n"

/-- `send_signal` draws on the terminal it is given. -/
theorem sendSignal_undisturbed (procs : ProcState) (pid sig : Nat) :
    Undisturbed procs.term (sendSignal procs pid sig).term := by
  unfold sendSignal
  split
  · split
    · exact .refl _
    split
    · exact .refl _
    split
    · exact .refl _
    · exact .refl _
  · have hprint := (Undisturbed.refl procs.term).printf (s := ⟨kernelMain.fs, procs.term⟩)
      "Process %d not found\n" [.int (toInt pid)]
    exact hprint

/-- A branch of `execute_command` that is no command on files, and not `exit`. -/
theorem invoke_quiet {inv : Invocation} (hfile : inv.fileCommand = none) (hexit : inv ≠ .exit)
    (h : s.invoke hw fuel inv = some s') : QuietStep s s' := by
  -- a name that does not fit an entry leaves the run without a result
  have hnamed : ∀ {filename : CString} {command : Name → ShellCmd},
      (entryName filename).map command = none → s.runNamed fuel filename command ≠ some s' := by
    intro filename command hnone hsome
    rw [runNamed, Option.map_eq_none_iff.mp hnone] at hsome
    cases hsome
  cases inv with
  | pwd => exact quietStep_pwd h
  | touch filename | mkdir filename => exact absurd h (hnamed hfile)
  | cd | rm => cases hfile
  | exit => exact absurd rfl hexit
  | shell =>
    cases h
    exact ⟨.shellBanner s.kernel, rfl⟩
  | kptest =>
    cases h
    exact ⟨.of_fs (kernelPanic_prints _ _).fs (kernelPanic_undisturbed _ _), rfl⟩
  | kill pidStr sigStr =>
    cases h
    have hterm := sendSignal_undisturbed { s.procs with term := s.kernel.term }
      (atoi pidStr % 2 ^ 32).toNat (atoi sigStr % 2 ^ 32).toNat
    exact ⟨.of_fs rfl hterm, rfl⟩
  | beep =>
    cases h
    exact ⟨.refl _, rfl⟩
  | dhcpcd interface =>
    cases h
    exact ⟨.prints s.kernel _, rfl⟩
  | pause | info | z => exact quietStep_waits h
  | _ => exact quietStep_prints h

/-- `execute_cat_redirect` prints, and makes a file. -/
theorem executeCatRedirect_undisturbed (k : KernelState) (sourceFile : CString) (destFile : Name)
    (append : Bool) (stack stack' : Nat → UInt8) :
    Undisturbed k.term (executeCatRedirect k sourceFile destFile append stack stack').1.term := by
  have hmade : ∀ fs content,
      Undisturbed k.term (createWithContent ⟨fs, k.term⟩ sourceFile destFile content).term := by
    intro fs content
    have hcreate := Undisturbed.fsCreateFile ⟨fs, k.term⟩ destFile fs.currentInode fileRegular
    rw [createWithContent]
    dsimp only
    split
    · split
      · split
        · exact hcreate.printf _ _
        · exact hcreate.writestring _
      · exact hcreate
    · exact hcreate.writestring _
  rw [executeCatRedirect]
  split
  · exact (Undisturbed.refl k.term).printf _ _
  dsimp only
  split
  · exact (Undisturbed.refl k.term).printf _ _
  -- the three ways to the new content
  split
  · dsimp only
    split
    · exact (Undisturbed.refl k.term).printf _ _
    · exact (Undisturbed.refl k.term).writestring _
  · dsimp only
    split
    · exact (Undisturbed.refl k.term).printf _ _
    · exact (Undisturbed.refl k.term).writestring _
  · exact hmade _ _

/-- No file is called `>` or `>>`, so `cat` has nothing to redirect. -/
theorem findRegular_redirect {k : KernelState} {ns : Namespace} (h : SessionInv k ns) {name : CString}
    (hname : isRedirect name = true) : findRegular k.fs name = none := by
  obtain ⟨m, hfiles⟩ := h.files
  rcases hfiles.findRegular_cases h.shell.cur_ne_zero name with ⟨i, -, hlive, hpath, -⟩ | ⟨hnone, -⟩
  swap
  · exact hnone
  have hvalid := hfiles.valid _ hlive
  rw [show (k.fs.files i).name = name from congrArg Prod.snd hpath] at hvalid
  rcases isRedirect_iff.mp hname with rfl | rfl
  · exact absurd hvalid (by decide)
  · exact absurd hvalid (by decide)

/-- The commands that print, `cat` among them, leave no more than an access
time. -/
theorem printCommand_quiet {k : KernelState} {stack : Nat → UInt8} {command : Command}
    {calls : List TermCall} {fs : Bkfs} (h : printCommand k.fs stack command = some (calls, fs)) :
    Quiet k { fs := fs, term := calls.foldl TermCall.run k.term } := by
  have hcalls : ∀ fs', Quiet { k with fs := fs' } { fs := fs', term := calls.foldl TermCall.run k.term } :=
    fun fs' => .of_fs rfl (.termCalls k.term calls)
  cases command with
  | redirectOutput | appendOutput | catRedirect | other => cases h
  | empty | echo | catRedirectUsage =>
    cases h
    exact hcalls k.fs
  | cat filename =>
    cases filename with
    | none =>
      cases h
      exact hcalls k.fs
    | some filename =>
      -- `cat` reads one block and prints it
      have hcat := Option.some.inj h
      rw [executeCat] at hcat
      split at hcat
      · obtain rfl := congrArg Prod.snd hcat
        exact (Quiet.read k _ stack blockSize).trans (hcalls _)
      · obtain rfl := congrArg Prod.snd hcat
        exact hcalls k.fs

/-- **What a line comes to** that is no command on files and not `exit`: it is quiet,
or else `cat` to copy a file. -/
theorem execute_cases {cmd : CString} (hfile : (parseCommand cmd).fileCommand hw.stack = none)
    (hexit : commandKind cmd ≠ .exit) (h : s.execute hw fuel cmd = some s') :
    QuietStep s s' ∨ ∃ sourceFile destFile append,
      isRedirect sourceFile = true ∧ s.runCatRedirect hw sourceFile destFile append = some s' := by
  have hnamed : ∀ {filename : CString} {command : Name → ShellCmd},
      (entryName filename).map command = none → s.runNamed fuel filename command ≠ some s' := by
    intro filename command hnone hsome
    rw [runNamed, Option.map_eq_none_iff.mp hnone] at hsome
    cases hsome
  rw [execute] at h
  cases hcmd : parseCommand cmd with
  | other args =>
    have hkind := commandKind_of_other hcmd
    rw [hcmd] at h hfile
    refine .inl (invoke_quiet hfile (fun hinv => hexit ?_) h)
    rw [hkind, hinv]
    rfl
  | redirectOutput filename text | appendOutput filename text =>
    rw [hcmd] at h hfile
    exact absurd h (hnamed hfile)
  | catRedirect sourceFile destFile append =>
    rw [hcmd] at h
    exact .inr ⟨sourceFile, destFile, append, isRedirect_of_catRedirect hcmd, h⟩
  -- these print, and read at most
  | empty | echo | cat | catRedirectUsage =>
    rw [hcmd] at h
    obtain ⟨⟨calls, fs⟩, hprint, rfl⟩ := Option.map_eq_some_iff.mp h
    exact .inl ⟨printCommand_quiet hprint, rfl⟩

/-- In a session nothing can be copied, so only quiet lines are left. -/
theorem execute_quiet {ns : Namespace} (hsession : SessionInv s.kernel ns) {cmd : CString}
    (hfile : (parseCommand cmd).fileCommand hw.stack = none) (hexit : commandKind cmd ≠ .exit)
    (h : s.execute hw fuel cmd = some s') : QuietStep s s' := by
  rcases execute_cases hfile hexit h with hquiet | ⟨sourceFile, destFile, append, hsource, hrun⟩
  · exact hquiet
  · rw [runCatRedirect, findRegular_redirect hsession hsource] at hrun
    exact quietStep_prints hrun

/-- `execute_cat_redirect` on whatever files there are. -/
theorem runCatRedirect_draws {sourceFile destFile : CString} {append : Bool}
    (h : s.runCatRedirect hw sourceFile destFile append = some s') : DrawStep s s' := by
  rw [runCatRedirect] at h
  split at h
  · exact (quietStep_prints h).draws
  · obtain ⟨dest, -, rfl⟩ := Option.map_eq_some_iff.mp h
    exact ⟨executeCatRedirect_undisturbed s.kernel sourceFile dest append hw.stack hw.stack', rfl⟩

/-- **No line but `exit` does more to its terminal than draw on it**, whatever it
does to the files. -/
theorem execute_draws {cmd : CString} (hexit : commandKind cmd ≠ .exit)
    (h : s.execute hw fuel cmd = some s') : DrawStep s s' := by
  cases hfile : (parseCommand cmd).fileCommand hw.stack with
  | some c =>
    rw [execute_file hfile] at h
    obtain ⟨k, hk, rfl⟩ := Option.map_eq_some_iff.mp h
    exact ⟨execShellCmd_undisturbed (ShellCmd.onFiles_of_fileCommand hfile) hk, rfl⟩
  | none =>
    rcases execute_cases hfile hexit h with hquiet | ⟨sourceFile, destFile, append, -, hrun⟩
    · exact hquiet.draws
    · exact runCatRedirect_draws hrun

theorem invocation_of_exit {inv : Invocation} (h : inv.kind = .exit) : inv = .exit := by
  cases inv <;> first | rfl | cases h

/-- `exit` takes the flag back and calls the login screen. -/
theorem execute_exit {cmd : CString} (hkind : commandKind cmd = .exit) :
    s.execute hw fuel cmd = some (s.withKernel
      (loginScreen (setLoggedIn (s.kernel.writestring "Welcome to Srunix86\n") false))) := by
  have hother : ∃ args, parseCommand cmd = .other args := by
    by_contra hnone
    rw [commandKind_of_parse fun args hargs => hnone ⟨args, hargs⟩] at hkind
    cases hkind
  obtain ⟨args, hargs⟩ := hother
  rw [commandKind_of_other hargs] at hkind
  rw [execute, hargs]
  show s.invoke hw fuel (invocation args) = _
  rw [invocation_of_exit hkind]
  rfl

end Live

/-! ## The prompt and the line on the screen -/

/-- The prompt is drawn, whatever its path is. -/
theorem printPrompt_quiet {fuel : Nat} {k k' : KernelState} (h : printPrompt fuel k = some k') :
    Quiet k k' := by
  let k₁ := (k.setcolor colorBrightRed (k.term.color >>> 4)).writestring "root"
  let k₂ := (k₁.setcolor colorWhite (k₁.term.color >>> 4)).writestring ":"
  let k₃ := (k₂.setcolor colorBrightBlue (k₂.term.color >>> 4)).writestring "~"
  have hroot : Undisturbed k.term k₁.term := ((Undisturbed.refl k.term).setcolor _ _).writestring _
  have hcolon : Undisturbed k.term k₂.term := (hroot.setcolor _ _).writestring _
  have hstart : Undisturbed k.term k₃.term := (hcolon.setcolor _ _).writestring _
  have hend : ∀ {t : Terminal} {k₁ : KernelState}, Undisturbed t k₁.term →
      Undisturbed t (promptEnd k₁).term := fun h =>
    ((h.setcolor colorWhite _).writestring "# ").setcolor colorWhite _
  unfold printPrompt at h
  dsimp only at h
  split at h
  · obtain ⟨path, -, rfl⟩ := Option.map_eq_some_iff.mp h
    exact .of_fs rfl (hend (hstart.writestring path))
  · cases h
    exact .of_fs rfl (hend hstart)

/-- The echo of a character draws, and no more. -/
theorem echoChar_undisturbed (t : Terminal) (p : Line × History) (ch : KeyChar) :
    Undisturbed t (echoChar t p ch) := by
  have hputchar : ∀ c, Undisturbed t (terminalPutchar t c) := fun c => .putchars t [c]
  have hrecall : ∀ cmd, Undisturbed t (echoRecall t cmd) := by
    intro cmd
    have hreset : Undisturbed t { t with column := 0 } := (Undisturbed.refl t).draw (.columnReset t)
    exact hreset.trans (.putchars { t with column := 0 } cmd.bytes)
  unfold echoChar
  -- the branches of the shell's loop: Enter, backspace, the two recalls, a full line, a
  -- character
  split
  · exact hputchar _
  split
  · split
    · exact hputchar _
    · exact .refl t
  split
  · split
    · exact hrecall _
    · exact .refl t
  split
  · split
    · exact hrecall _
    · exact .refl t
  split
  · exact .refl t
  · exact hputchar _

namespace Live

variable {hw : Hardware} {fuel fuel' : Nat} {s s' : Live}

theorem quiet_putchar (s : Live) (c : UInt8) : Quiet s.kernel (s.putchar c).kernel :=
  .of_fs rfl (.putchars s.kernel.term [c])

theorem quiet_echoChar (s : Live) (p : Line × History) (ch : KeyChar) :
    Quiet s.kernel { s.kernel with term := echoChar s.kernel.term p ch } :=
  .of_fs rfl (echoChar_undisturbed s.kernel.term p ch)

theorem quiet_echoField (s : Live) (field : CString) (ch : KeyChar) (shown : UInt8) :
    QuietStep s (s.echoField field ch shown) := by
  have hputchar : ∀ c, QuietStep s (s.putchar c) := fun c => ⟨s.quiet_putchar c, rfl⟩
  have hrefl : QuietStep s s := ⟨.refl _, rfl⟩
  unfold echoField
  split
  · split
    · exact hputchar _
    · exact hrefl
  · split
    · exact hputchar _
    · exact hrefl

/-- Back at a shell there is a prompt, and elsewhere nothing. -/
theorem prompted_quiet (h : s.prompted fuel = some s') : QuietStep s s' := by
  unfold prompted at h
  split at h
  · obtain ⟨k, hprompt, rfl⟩ := Option.map_eq_some_iff.mp h
    exact ⟨printPrompt_quiet hprompt, rfl⟩
  · cases h
    exact ⟨.refl _, rfl⟩

/-- In a session the prompt comes to an end. -/
theorem exists_prompted {ns : Namespace} (h : SessionInv s.kernel ns) :
    ∃ fuel s', s.prompted fuel = some s' := by
  obtain ⟨fuel, hprompt⟩ := h.shell.printPrompt
  obtain ⟨k, hk⟩ := Option.isSome_iff_exists.mp hprompt
  refine ⟨fuel, ?_⟩
  unfold prompted
  split
  · exact ⟨s.withKernel k, congrArg (Option.map s.withKernel) hk⟩
  · exact ⟨s, rfl⟩

end Live

end Srunix
