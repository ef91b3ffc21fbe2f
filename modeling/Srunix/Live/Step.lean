import Srunix.Live.Programs
import Srunix.Console.Screen
import Srunix.Shell.Namespace

/-!
# The live system, key by key

`Console` says which call waits for the next key, `KernelState` what the calls
do to the files and the screen. `Live` is both at once, with the processes and
the network device: `press` handles one key from the moment `keyboard_getchar`
returns it until the kernel waits for the next one.

Two things may take any number of rounds, a command (`rm`, `pwd`) and the path
in the prompt; each has its own fuel.
-/

namespace Srunix

open Library

/-- The machine while it runs: files, terminals, processes, network, and the calls
that wait for keys. -/
structure Live extends Machine where
  console : Console
  /-- What each command that waits for a key writes once it has it, the innermost
  first. -/
  wakes : List CString

namespace Live

/-- `login_screen`, called by `kernel_main`, waits for its first key. -/
def boot : Live where
  kernel := loginScreen kernelMain
  procs := .boot kernelMain.term
  net := networkInit
  console := Console.boot
  wakes := []

/-- The machine with another kernel. -/
def withKernel (s : Live) (kernel : KernelState) : Live := { s with kernel := kernel }

/-- A program that only prints. -/
def prints (s : Live) (outs : List Out) : Live := s.withKernel (s.kernel.prints outs)

/-- `terminal_putchar`, as the echo of a key. -/
def putchar (s : Live) (c : UInt8) : Live :=
  s.withKernel { s.kernel with term := terminalPutchar s.kernel.term c }

/-- `print_prompt`, where the call that goes on is `shell`. -/
def prompted (fuel : Nat) (s : Live) : Option Live :=
  match s.console.stack with
  | .shell _ :: _ => (printPrompt fuel s.kernel).map s.withKernel
  | _ => some s

/-! ## A line -/

/-- A command on files, if its loops end within the fuel. -/
def runFile (fuel : Nat) (s : Live) (c : ShellCmd) : Option Live :=
  (execShellCmd fuel s.kernel c).map s.withKernel

/-- A command that may create a file; its name has to fit the entry. -/
def runNamed (fuel : Nat) (s : Live) (filename : CString) (command : Name → ShellCmd) :
    Option Live :=
  (entryName filename).bind fun name => s.runFile fuel (command name)

/-- A command that waits for a key, and writes `wake` once it has it. -/
def waits (s : Live) (wake : CString) : Live := { s with wakes := wake :: s.wakes }

/-- What `kptest` panics with. -/
def panicMessage : CString :=
  "CRITICAL: error!\nSystem is crashed\nKernel panic - not syncing: Attempted to kill init!"

/-- The commands that are known by their names. -/
def invoke (hw : Hardware) (fuel : Nat) (s : Live) : Invocation → Option Live
  | .help page => some (s.prints (executeHelp page))
  | .cls => some (s.prints executeCls)
  | .ver => some (s.prints executeVer)
  | .ls => some (s.prints (executeLs s.kernel.fs))
  | .pwd => (executePwd fuel s.kernel).map s.withKernel
  | .cd dirname => s.runFile fuel (.cd dirname)
  | .date => some (s.prints (executeDate hw))
  | .time => some (s.prints (executeTime hw))
  | .whoami => some (s.prints executeWhoami)
  | .uptime => some (s.prints (executeUptime hw))
  | .shell => some (s.withKernel (shellBanner s.kernel))
  | .memory => some (s.prints executeMemory)
  | .disk => some (s.prints executeDisk)
  | .pause => some ((s.waits "\n").prints [.text "System is paused\n"])
  | .poweroff => some (s.prints [.text ""])
  | .kptest => some (s.withKernel (kernelPanic s.kernel panicMessage))
  | .reboot => some (s.prints [.text "Reboot\n"])
  -- `login_screen` is called on top of the shell that runs `exit`
  | .exit =>
    some (s.withKernel
      (loginScreen (setLoggedIn (s.kernel.writestring "Welcome to Srunix86\n") false)))
  | .info => some ((s.waits "").prints (.setcolor colorWhite colorBlack :: displayInfo))
  | .dhcpcd interface =>
    let (outs, net) := executeDhcpcd s.net interface
    some ({ s with net := net }.prints outs)
  | .ifconfig => some (s.prints (executeIfconfig s.net))
  | .ping host => some (s.prints (executePing s.net host))
  | .touch filename => s.runNamed fuel filename .touch
  | .fetch => some (s.prints (executeFetch hw s.kernel.term.currentTty))
  | .mkdir dirname => s.runNamed fuel dirname .mkdir
  | .rm filename recursive => s.runFile fuel (.rm filename recursive)
  | .beep => some s
  | .z => some ((s.waits "").prints zov)
  | .ps => some (s.prints (executePs s.procs))
  | .jobs => some (s.prints (executeJobs s.procs))
  | .kill pidStr sigStr =>
    let procs := executeKill { s.procs with term := s.kernel.term } pidStr sigStr
    some { s with procs := procs, kernel := { s.kernel with term := procs.term } }
  | .smouse => some (s.prints executeSmouse)
  | .usage message => some (s.prints [.text message])
  | .notFound word =>
    some (s.prints [.text "Command not found: ", .text word, .text "\nType 'help' for commands\n"])

/-- `execute_cat_redirect`; the new name only matters once there is a source. -/
def runCatRedirect (hw : Hardware) (s : Live) (sourceFile destFile : CString) (append : Bool) :
    Option Live :=
  match findRegular s.kernel.fs sourceFile with
  | none => some (s.prints [.printf (sourceNotFound sourceFile)])
  | some _ => (entryName destFile).map fun destFile =>
      s.withKernel (executeCatRedirect s.kernel sourceFile destFile append hw.stack hw.stack').1

/-- `execute_command`: one line. -/
def execute (hw : Hardware) (fuel : Nat) (s : Live) (cmd : CString) : Option Live :=
  match parseCommand cmd with
  | .other args => s.invoke hw fuel (invocation args)
  | .redirectOutput filename text => s.runNamed fuel filename fun name => .redirect name text
  | .appendOutput filename text => s.runNamed fuel filename fun name => .append name text hw.stack
  | .catRedirect sourceFile destFile append => s.runCatRedirect hw sourceFile destFile append
  | command =>
    (printCommand s.kernel.fs hw.stack command).map fun (calls, fs) =>
      s.withKernel { fs := fs, term := calls.foldl TermCall.run s.kernel.term }

/-! ## A key -/

/-- One key of a field of `login_screen`, which shows `shown` for it. -/
def echoField (s : Live) (field : CString) (ch : KeyChar) (shown : UInt8) : Live :=
  if ch.val = 0x08 then if strlen field > 0 then s.putchar 0x08 else s
  else if strlen field < 31 then s.putchar shown else s

/-- What `login_screen` does once it has both fields. -/
def finishLogin (fuel fuel' : Nat) (s : Live) (username password : CString) : Option Live :=
  let s :=
    if strcmp username "1" = 0 ∧ strcmp password "1" = 0 then
      s.withKernel (setLoggedIn ((s.kernel.setcolor colorGreen colorBlack).writestring
        "\nWelcome to Srunix86 livecd\n") true)
    else s
  if strcmp username "root" = 0 ∧ strcmp password "1" = 0 then
    (s.runFile fuel .login).bind (prompted fuel')
  else some (s.withKernel (loginScreen (s.kernel.writestring "\nlogin incorrect\n")))

/-- One key at the inner loop of `shell`; `s` has the console after it. -/
def shellKey (hw : Hardware) (fuel fuel' : Nat) (s : Live) (history : History) (line : Line)
    (ch : KeyChar) : Option Live :=
  let s := s.withKernel { s.kernel with term := echoChar s.kernel.term (line, history) ch }
  match (shellChar history line ch).2.2 with
  | some cmd => (s.execute hw fuel cmd).bind (prompted fuel')
  | none => if line.Fills ch then s.prompted fuel' else some s

/-- One key, read by the innermost call, with all that happens until the next one is
asked for. -/
def press (hw : Hardware) (fuel fuel' : Nat) (s : Live) (k : Key) : Option Live :=
  let s' : Live := { s with console := s.console.press k }
  match s.console.stack, k with
  | [], _ | .halted :: _, _ => some s
  | _, .function ttyNum => some (s'.withKernel (switchTty s.kernel ttyNum.val))
  | .username username :: _, .char ch =>
    if ch.val = 0x0A then some ((s'.putchar 0x0A).prints [.text "Password: "])
    else some (s'.echoField username ch ch.val)
  | .password username password :: _, .char ch =>
    if ch.val = 0x0A then (s'.putchar 0x0A).finishLogin fuel fuel' username password
    else some (s'.echoField password ch 0x2A)
  | .shell line :: _, .char ch => s'.shellKey hw fuel fuel' s.console.history line ch
  | .wait :: _, .char _ =>
    { s' with wakes := s.wakes.tail }.prints [.text (s.wakes.headD "")] |>.prompted fuel'

/-! ## The key, for the call that reads it -/

section

variable {hw : Hardware} {fuel fuel' : Nat} {s t : Live} {rest : List Frame} {user pass : CString}
  {ch : KeyChar}

/-- A key where no call waits for one. -/
theorem press_idle (hstack : s.console.stack = [] ∨ ∃ rest, s.console.stack = .halted :: rest) (k : Key) :
    s.press hw fuel fuel' k = some s := by
  unfold press
  rcases hstack with hnil | ⟨rest, hhalted⟩
  · rw [hnil]
  · rw [hhalted]

/-- A function key goes to `switch_tty`, whichever call reads it. -/
theorem press_function {frame : Frame} (hstack : s.console.stack = frame :: rest)
    (hreads : frame ≠ .halted) (ttyNum : Fin maxTtys) :
    s.press hw fuel fuel' (.function ttyNum)
      = some ({ s with console := s.console.press (.function ttyNum) }.withKernel
          (switchTty s.kernel ttyNum.val)) := by
  unfold press
  rw [hstack]
  cases frame with
  | halted => exact absurd rfl hreads
  | username | password | shell | wait => rfl

/-- A character for the name is shown. -/
theorem press_name_char (hstack : s.console.stack = .username user :: rest) (hnl : ch ≠ .newline) :
    s.press hw fuel fuel' (.char ch)
      = some ({ s with console := s.console.press (.char ch) }.echoField user ch ch.val) := by
  unfold press
  rw [hstack]
  exact if_neg (mt KeyChar.eq_newline_iff.mp hnl)

/-- Enter behind the name asks for the password. -/
theorem press_name_enter (hstack : s.console.stack = .username user :: rest) :
    s.press hw fuel fuel' .enter
      = some (({ s with console := s.console.press .enter }.putchar 0x0A).prints [.text "Password: "]) := by
  unfold press
  rw [hstack]
  exact if_pos rfl

/-- An asterisk is shown for a character of the password. -/
theorem press_password_char (hstack : s.console.stack = .password user pass :: rest)
    (hnl : ch ≠ .newline) :
    s.press hw fuel fuel' (.char ch)
      = some ({ s with console := s.console.press (.char ch) }.echoField pass ch 0x2A) := by
  unfold press
  rw [hstack]
  exact if_neg (mt KeyChar.eq_newline_iff.mp hnl)

/-- Enter behind the password ends `login_screen`. -/
theorem press_password_enter (hstack : s.console.stack = .password user pass :: rest) :
    s.press hw fuel fuel' .enter
      = ({ s with console := s.console.press .enter }.putchar 0x0A).finishLogin fuel fuel' user pass := by
  unfold press
  rw [hstack]
  exact if_pos rfl

/-- A character for the line. -/
theorem press_line {line : Line} (hstack : s.console.stack = .shell line :: rest) (ch : KeyChar) :
    s.press hw fuel fuel' (.char ch)
      = { s with console := s.console.press (.char ch) }.shellKey hw fuel fuel' s.console.history line ch := by
  unfold press
  rw [hstack]

/-- The program that waits goes on, and the prompt comes behind it. -/
theorem press_wake (hstack : s.console.stack = .wait :: rest) (ch : KeyChar) :
    s.press hw fuel fuel' (.char ch)
      = ({ s with console := s.console.press (.char ch), wakes := s.wakes.tail }.prints
          [.text (s.wakes.headD "")]).prompted fuel' := by
  unfold press
  rw [hstack]

end

/-- The eight things that can come of a key, by the call that reads it. -/
inductive Pressed (hw : Hardware) (fuel fuel' : Nat) (s : Live) : Key → Live → Prop where
  | idle {k : Key} (hstack : s.console.stack = [] ∨ ∃ rest, s.console.stack = .halted :: rest) :
      Pressed hw fuel fuel' s k s
  | switched {frame : Frame} {rest : List Frame} {ttyNum : Fin maxTtys}
      (hstack : s.console.stack = frame :: rest) (hreads : frame ≠ .halted) :
      Pressed hw fuel fuel' s (.function ttyNum)
        ({ s with console := s.console.press (.function ttyNum) }.withKernel
          (switchTty s.kernel ttyNum.val))
  | nameChar {user : CString} {rest : List Frame} {ch : KeyChar}
      (hstack : s.console.stack = .username user :: rest) (hnl : ch ≠ .newline) :
      Pressed hw fuel fuel' s (.char ch)
        ({ s with console := s.console.press (.char ch) }.echoField user ch ch.val)
  | nameEnter {user : CString} {rest : List Frame} (hstack : s.console.stack = .username user :: rest) :
      Pressed hw fuel fuel' s .enter
        (({ s with console := s.console.press .enter }.putchar 0x0A).prints [.text "Password: "])
  | passwordChar {user pass : CString} {rest : List Frame} {ch : KeyChar}
      (hstack : s.console.stack = .password user pass :: rest) (hnl : ch ≠ .newline) :
      Pressed hw fuel fuel' s (.char ch)
        ({ s with console := s.console.press (.char ch) }.echoField pass ch 0x2A)
  | passwordEnter {user pass : CString} {rest : List Frame} {t : Live}
      (hstack : s.console.stack = .password user pass :: rest)
      (hrun : ({ s with console := s.console.press .enter }.putchar 0x0A).finishLogin fuel fuel' user pass
        = some t) : Pressed hw fuel fuel' s .enter t
  | line {line : Line} {rest : List Frame} {ch : KeyChar} {t : Live}
      (hstack : s.console.stack = .shell line :: rest)
      (hrun : { s with console := s.console.press (.char ch) }.shellKey hw fuel fuel' s.console.history
        line ch = some t) : Pressed hw fuel fuel' s (.char ch) t
  | woken {rest : List Frame} {ch : KeyChar} {t : Live} (hstack : s.console.stack = .wait :: rest)
      (hrun : ({ s with console := s.console.press (.char ch), wakes := s.wakes.tail }.prints
        [.text (s.wakes.headD "")]).prompted fuel' = some t) : Pressed hw fuel fuel' s (.char ch) t

/-- **The inversion of `press`.** -/
theorem pressed_of_press {hw : Hardware} {fuel fuel' : Nat} {s t : Live} {k : Key}
    (h : s.press hw fuel fuel' k = some t) : Pressed hw fuel fuel' s k t := by
  cases hstack : s.console.stack with
  | nil =>
    rw [press_idle (.inl hstack)] at h
    cases h
    exact .idle (.inl hstack)
  | cons frame rest =>
    by_cases hhalted : frame = .halted
    · subst hhalted
      rw [press_idle (.inr ⟨rest, hstack⟩)] at h
      cases h
      exact .idle (.inr ⟨rest, hstack⟩)
    cases k with
    | function ttyNum =>
      rw [press_function hstack hhalted] at h
      cases h
      exact .switched hstack hhalted
    | char ch =>
      cases frame with
      | halted => exact absurd rfl hhalted
      | shell line =>
        rw [press_line hstack] at h
        exact .line hstack h
      | wait =>
        rw [press_wake hstack] at h
        exact .woken hstack h
      | username user =>
        by_cases hnl : ch = .newline
        · subst hnl
          rw [press_name_enter hstack] at h
          cases h
          exact .nameEnter hstack
        · rw [press_name_char hstack hnl] at h
          cases h
          exact .nameChar hstack hnl
      | password user pass =>
        by_cases hnl : ch = .newline
        · subst hnl
          rw [press_password_enter hstack] at h
          exact .passwordEnter hstack h
        · rw [press_password_char hstack hnl] at h
          cases h
          exact .passwordChar hstack hnl

end Live

/-- A key, and what the hardware is like when it comes. -/
structure Input where
  hw : Hardware
  key : Key

/-- The loops end, after however many rounds, and `t` is what comes of the key. -/
def Live.Answers (s : Live) (i : Input) (t : Live) : Prop :=
  ∃ fuel fuel', s.press i.hw fuel fuel' i.key = some t

end Srunix
