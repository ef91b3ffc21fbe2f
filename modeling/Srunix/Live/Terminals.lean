import Srunix.Library.Silent
import Srunix.Console.Credentials
import Srunix.Live.Quiet

/-!
# The console and the terminals, key by key

What happens to the terminals does not depend on the files. So whatever the lines
do to these, and whether it goes well or not, the console stays the one that the
keys determine, its flags stay those of `ttys[]` (`Mirrors`), and a key comes to
one of three things: nothing, a switch, or work at the terminal it is read at
(`Serves`). All this is about every run whose keys are answered.
-/

namespace Srunix

open Library

/-! ## Work at a terminal -/

/-- `ttys[current_tty].logged_in = …;` -/
def Terminal.mark (t : Terminal) (loggedIn : Bool) : Terminal :=
  { t with ttys := Function.update t.ttys t.currentTty { t.ttys t.currentTty with loggedIn := loggedIn } }

/-- What is done at a terminal without leaving it: drawing, and setting its flag. -/
def Worked (t t' : Terminal) : Prop :=
  Relation.ReflTransGen (fun t t' => Draw t t' ∨ ∃ loggedIn, t' = t.mark loggedIn) t t'

/-- Drawing is work. -/
theorem Undisturbed.worked {t t' : Terminal} (h : Undisturbed t t') : Worked t t' :=
  Relation.ReflTransGen.mono (fun _ _ => .inl) _ _ h

/-- The flags of the console `c` are those of the kernel, which has worked at its
terminal since this was `t₀`. -/
structure Mirrors (t₀ : Terminal) (c : Console) (k : KernelState) : Prop where
  mode : k.term.smouseMode = false
  agrees : Console.Agrees c k
  work : Worked t₀ k.term

namespace Mirrors

variable {t₀ : Terminal} {c c' : Console} {k k' : KernelState}

theorem restart (h : Mirrors t₀ c k) : Mirrors k.term c k := ⟨h.mode, h.agrees, .refl⟩

/-- Drawing changes no flag. -/
theorem draws (h : Mirrors t₀ c k) (hdraw : Undisturbed k.term k'.term) : Mirrors t₀ c k' where
  mode := hdraw.mouse.trans h.mode
  agrees :=
    { currentTty := h.agrees.currentTty.trans hdraw.toSameTtys.currentTty.symm
      loggedIn := fun t => (h.agrees.loggedIn t).trans (hdraw.toSameTtys.loggedIn t).symm }
  work := Relation.ReflTransGen.trans h.work hdraw.worked

/-- The stack of calls, the line and the history do not matter. -/
theorem flags (h : Mirrors t₀ c k) (htty : c'.currentTty = c.currentTty)
    (hin : c'.loggedIn = c.loggedIn) : Mirrors t₀ c' k where
  mode := h.mode
  agrees :=
    { currentTty := htty.trans h.agrees.currentTty
      loggedIn := fun t => (congrFun hin t).trans (h.agrees.loggedIn t) }
  work := h.work

theorem setLoggedIn (h : Mirrors t₀ c k) (b : Bool) :
    Mirrors t₀ (c.setLoggedIn b) (Srunix.setLoggedIn k b) :=
  ⟨h.mode, h.agrees.setLoggedIn b, Relation.ReflTransGen.tail h.work (.inr ⟨b, rfl⟩)⟩

theorem loginScreen (h : Mirrors t₀ c k) : Mirrors t₀ c.callLogin (Srunix.loginScreen k) :=
  (h.draws (loginScreen_undisturbed k)).flags rfl rfl

/-- After a switch the work starts anew, at the other terminal. -/
theorem switchTty (h : Mirrors t₀ c k) (ttyNum : Fin maxTtys) :
    Mirrors (Srunix.switchTty k ttyNum.val).term (c.switchTty ttyNum) (Srunix.switchTty k ttyNum.val) :=
  ⟨(switchTty_mouse k ttyNum.val).trans h.mode, h.agrees.switchTty h.mode ttyNum, .refl⟩

end Mirrors

/-! ## One character -/

/-- Only `exit` changes a flag. -/
theorem Console.executeCommand_flags {c : Console} {cmd : CString} (h : commandKind cmd ≠ .exit) :
    (c.executeCommand cmd).currentTty = c.currentTty ∧
      (c.executeCommand cmd).loggedIn = c.loggedIn := by
  unfold executeCommand
  cases hkind : commandKind cmd with
  | exit => exact absurd hkind h
  | returns | shell | waits | halts => exact ⟨rfl, rfl⟩

namespace Live

variable {hw : Hardware} {fuel fuel' : Nat} {t₀ : Terminal} {s s' : Live}

/-- One line: `e` is the console before the command, `s.console` the one it
leaves. -/
theorem mirrors_execute {e : Console} {cmd : CString} (h : Mirrors t₀ e s.kernel)
    (hconsole : s.console = e.executeCommand cmd) (hrun : s.execute hw fuel cmd = some s') :
    s'.console = s.console ∧ Mirrors t₀ s.console s'.kernel := by
  by_cases hexit : commandKind cmd = .exit
  · rw [execute_exit hexit] at hrun
    cases hrun
    have hbye := h.draws ((Undisturbed.refl s.kernel.term).prints [.text "Welcome to Srunix86\n"])
    have hkind : e.executeCommand cmd = (e.setLoggedIn false).callLogin := by
      rw [Console.executeCommand, hexit]
    rw [hconsole, hkind]
    exact ⟨hconsole.trans hkind, (hbye.setLoggedIn false).loginScreen⟩
  · have hdraw := execute_draws hexit hrun
    obtain ⟨htty, hin⟩ := e.executeCommand_flags hexit
    rw [hconsole]
    exact ⟨hdraw.console.trans hconsole, (h.draws hdraw.term).flags htty hin⟩

/-- A login marks the terminal on both sides. -/
theorem mirrors_login {e : Console} (h : Mirrors t₀ e s.kernel)
    (hrun : (s.runFile fuel .login).bind (prompted fuel') = some s') :
    s'.console = s.console ∧ Mirrors t₀ (e.setLoggedIn true).callShell s'.kernel := by
  have hwelcome := h.draws ((Undisturbed.refl s.kernel.term).prints
    [.text "\nWelcome to Srunix86 livecd\n"])
  let k := setLoggedIn (s.kernel.writestring "\nWelcome to Srunix86 livecd\n") true
  have hbanner := (hwelcome.setLoggedIn true).draws (shellBanner_undisturbed k)
  have hprompt := prompted_quiet (s := s.withKernel (shellBanner k)) hrun
  exact ⟨hprompt.console, (hbanner.draws hprompt.kernel.term).flags rfl rfl⟩

/-- Right or wrong, the flags are the same on both sides. -/
theorem mirrors_finishLogin {e : Console} {username password : CString} (h : Mirrors t₀ e s.kernel)
    (hrun : s.finishLogin fuel fuel' username password = some s') :
    s'.console = s.console ∧ Mirrors t₀ (e.finishLogin username password) s'.kernel := by
  have hlast : ∀ {s : Live} {e : Console}, Mirrors t₀ e s.kernel →
      (if strcmp username "root" = 0 ∧ strcmp password "1" = 0 then
        (s.runFile fuel .login).bind (prompted fuel')
      else some (s.withKernel (loginScreen (s.kernel.writestring "\nlogin incorrect\n")))) =
        some s' →
      s'.console = s.console ∧ Mirrors t₀
        (if strcmp username "root" = 0 ∧ strcmp password "1" = 0 then (e.setLoggedIn true).callShell
          else e.callLogin) s'.kernel := by
    intro s e h hrun
    split at hrun
    · rename_i hroot
      rw [if_pos hroot]
      exact mirrors_login h hrun
    · rename_i hroot
      rw [if_neg hroot]
      cases hrun
      have hagain := (Undisturbed.refl s.kernel.term).prints [.text "\nlogin incorrect\n"]
      exact ⟨rfl, (h.draws hagain).loginScreen⟩
  -- the check for `1` sets the flag before the one for `root` is made
  by_cases hone : strcmp username "1" = 0 ∧ strcmp password "1" = 0
  · rw [finishLogin, if_pos hone] at hrun
    rw [Console.finishLogin, if_pos hone]
    let k := (s.kernel.setcolor colorGreen colorBlack).writestring "\nWelcome to Srunix86 livecd\n"
    have hwelcome : Undisturbed s.kernel.term k.term :=
      ((Undisturbed.refl s.kernel.term).setcolor _ _).writestring _
    have hflag : Mirrors t₀ (e.setLoggedIn true) (setLoggedIn k true) := (h.draws hwelcome).setLoggedIn true
    exact hlast (s := s.withKernel (setLoggedIn k true)) hflag hrun
  · rw [finishLogin, if_neg hone] at hrun
    rw [Console.finishLogin, if_neg hone]
    exact hlast h hrun

/-- One key at the line of a shell. -/
theorem mirrors_shellKey {c : Console} {line : Line} {rest : List Frame} {ch : KeyChar}
    (hstack : c.stack = .shell line :: rest) (h : Mirrors t₀ c s.kernel)
    (hconsole : s.console = c.press (.char ch))
    (hrun : s.shellKey hw fuel fuel' c.history line ch = some s') :
    s'.console = s.console ∧ Mirrors t₀ s.console s'.kernel := by
  rw [shellKey] at hrun
  rw [Console.press_shell hstack, Console.shellKey] at hconsole
  let t := s.withKernel { s.kernel with term := echoChar s.kernel.term (line, c.history) ch }
  have hecho : Mirrors t₀ c t.kernel := h.draws (echoChar_undisturbed s.kernel.term (line, c.history) ch)
  cases hcmd : (shellChar c.history line ch).2.2 with
  | none =>
    rw [hcmd] at hrun hconsole
    have hedited : Mirrors t₀ s.console t.kernel := by
      rw [hconsole]
      exact hecho.flags rfl rfl
    have hquiet : QuietStep t s' := by
      dsimp only at hrun
      split at hrun
      · exact prompted_quiet hrun
      · cases hrun
        exact ⟨.refl _, rfl⟩
    exact ⟨hquiet.console, hedited.draws hquiet.kernel.term⟩
  | some cmd =>
    rw [hcmd] at hrun hconsole
    -- the drawn line, the executed command and the prompt, in this order
    obtain ⟨s₁, hexecute, hprompt⟩ := Option.bind_eq_some_iff.mp hrun
    have hedited : Mirrors t₀ (c.edited line rest ch) t.kernel := hecho.flags rfl rfl
    obtain ⟨hkeep, hmirrors⟩ := mirrors_execute (s := t) hedited hconsole hexecute
    have hquiet := prompted_quiet hprompt
    exact ⟨hquiet.console.trans hkeep, hmirrors.draws hquiet.kernel.term⟩

/-- A character of a field of `login_screen`. -/
theorem mirrors_field {c : Console} (h : Mirrors t₀ s.console s.kernel)
    (hflags : c.currentTty = s.console.currentTty ∧ c.loggedIn = s.console.loggedIn) (field : CString)
    (ch : KeyChar) (shown : UInt8) :
    let t := ({ s with console := c } : Live).echoField field ch shown
    t.console = c ∧ Mirrors t₀ t.console t.kernel := by
  intro t
  have hquiet := quiet_echoField { s with console := c } field ch shown
  have hconsole : t.console = c := hquiet.console
  rw [hconsole]
  exact ⟨rfl, (h.draws hquiet.kernel.term).flags hflags.1 hflags.2⟩

/-- One character, by the call that reads it. -/
theorem mirrors_char {ch : KeyChar} (h : Mirrors t₀ s.console s.kernel)
    (hrun : s.press hw fuel fuel' (.char ch) = some s') :
    s'.console = s.console.press (.char ch) ∧ Mirrors t₀ s'.console s'.kernel := by
  cases pressed_of_press hrun with
  | idle hstack => exact ⟨(Console.press_idle hstack _).symm, h⟩
  | nameChar hstack hnl =>
    refine mirrors_field h ?_ _ ch ch.val
    rw [Console.press_username_char hstack hnl]
    exact ⟨rfl, rfl⟩
  | nameEnter hstack =>
    have hecho := (h.draws (s.quiet_putchar 0x0A).term).draws
      ((Undisturbed.refl _).prints [.text "Password: "])
    have hflags : (s.console.press .enter).currentTty = s.console.currentTty ∧
        (s.console.press .enter).loggedIn = s.console.loggedIn := by
      rw [Console.press_username_enter hstack]
      exact ⟨rfl, rfl⟩
    exact ⟨rfl, hecho.flags hflags.1 hflags.2⟩
  | passwordChar hstack hnl =>
    refine mirrors_field h ?_ _ ch 0x2A
    rw [Console.press_password_char hstack hnl]
    exact ⟨rfl, rfl⟩
  | passwordEnter hstack hfinish =>
    -- `login_screen` compares, and may mark the terminal
    have hecho := h.draws (s.quiet_putchar 0x0A).term
    obtain ⟨hkeep, hmirrors⟩ := mirrors_finishLogin
      (s := ({ s with console := s.console.press .enter } : Live).putchar 0x0A) hecho hfinish
    have hconsole : s'.console = s.console.press .enter := hkeep
    rw [hconsole, Console.press_password_enter hstack]
    exact ⟨rfl, hmirrors⟩
  | line hstack hline =>
    obtain ⟨hkeep, hmirrors⟩ := mirrors_shellKey
      (s := { s with console := s.console.press (.char ch) }) hstack h rfl hline
    rw [hkeep]
    exact ⟨rfl, hmirrors⟩
  | woken hstack hwake =>
    -- the waiting program prints its last text, and the shell its prompt
    have hquiet := prompted_quiet hwake
    have hwoken := h.draws ((Undisturbed.refl s.kernel.term).prints [.text (s.wakes.headD "")])
    refine ⟨hquiet.console, ?_⟩
    rw [hquiet.console]
    show Mirrors t₀ (s.console.press (.char ch)) _
    rw [Console.press_wait hstack]
    exact (hwoken.draws hquiet.kernel.term).flags rfl rfl

end Live

/-! ## Runs -/

/-- What a key comes to: nothing where no call waits for it, another terminal, or
work at the terminal there is. -/
inductive Serves : Key → KernelState → KernelState → Prop where
  | idle (k : Key) (s : KernelState) : Serves k s s
  | switch (ttyNum : Fin maxTtys) (s : KernelState) :
      Serves (.function ttyNum) s (switchTty s ttyNum.val)
  | work {ch : KeyChar} {s s' : KernelState} (h : Worked s.term s'.term) : Serves (.char ch) s s'

/-- **One key**: the console goes where the key leads, and the terminals with it. -/
theorem Live.mirrors_press {hw : Hardware} {fuel fuel' : Nat} {s s' : Live} {k : Key}
    (h : Mirrors s.kernel.term s.console s.kernel) (hrun : s.press hw fuel fuel' k = some s') :
    s'.console = s.console.press k ∧ Mirrors s'.kernel.term s'.console s'.kernel ∧
      Serves k s.kernel s'.kernel := by
  cases k with
  | char ch =>
    obtain ⟨hconsole, hmirrors⟩ := mirrors_char h hrun
    exact ⟨hconsole, hmirrors.restart, .work hmirrors.work⟩
  | function ttyNum =>
    cases pressed_of_press hrun with
    | idle hstack => exact ⟨(Console.press_idle hstack _).symm, h, .idle _ _⟩
    | switched hstack hreads =>
      -- `switch_tty` saves, goes over and draws, on both sides
      have hmirrors := h.switchTty ttyNum
      rw [← Console.press_function hstack hreads] at hmirrors
      exact ⟨rfl, hmirrors, .switch ttyNum s.kernel⟩

/-- `kernel_main` prints while it makes the entries. -/
theorem kernelMain_undisturbed :
    Undisturbed (terminalInitialize programImage.term) kernelMain.term := by
  let t := terminalInitialize programImage.term
  -- files are made with nothing but messages, whatever becomes of them
  have hcreate : ∀ {s : KernelState} {name : Name} {parentInode : Nat} {type : UInt8},
      Undisturbed t s.term → Undisturbed t (createFile s name parentInode type).term :=
    fun h => h.trans (.fsCreateFile ..)
  have hroot : Undisturbed t bootRoot.term := by
    have hfirst : Undisturbed t
        (createFile { programImage with term := t } "root" 1 fileDir).term := hcreate (.refl t)
    exact hcreate (hcreate (hcreate (hcreate (hcreate (hcreate (hcreate hfirst))))))
  have hdev : Undisturbed t (bootDev bootRoot).term := by
    rw [bootDev]
    dsimp only
    split
    · exact hcreate (hcreate (hcreate (hcreate (hcreate (hcreate (hcreate (hcreate (hcreate hroot))))))))
    · exact hroot
  rw [kernelMain, bootBin]
  dsimp only
  split
  -- `/bin/fetch` is not found at this point, so nothing is written to it
  · have hnone := bootBin_fetch
    dsimp only at hnone
    rw [hnone]
    exact hcreate (hcreate (hcreate (hcreate (hcreate hdev))))
  · exact hdev

/-- At the first login screen nobody is logged in. -/
theorem mirrors_boot : Mirrors Live.boot.kernel.term Console.boot Live.boot.kernel := by
  have hout : ∀ t, ((terminalInitialize programImage.term).ttys t).loggedIn = false := by
    intro t
    unfold terminalInitialize initializeTtys
    dsimp only
    split
    · rfl
    · exact ((terminalSetcolor_same _ colorWhite colorBlack).loggedIn t).trans rfl
  have hflags : Console.Agrees Console.boot kernelMain :=
    { currentTty := kernelMain_undisturbed.toSameTtys.currentTty.symm
      loggedIn := fun t => ((kernelMain_undisturbed.toSameTtys.loggedIn t).trans (hout t)).symm }
  exact ⟨sessionInv_boot.mode, hflags.prints (loginScreen_prints kernelMain), .refl⟩

/-- The console goes its own way, whatever becomes of the files, and the terminals
keep up with it. -/
theorem mirrors_of_run {inputs : List Input} {s : Live} (h : Steps Live.Answers Live.boot inputs s) :
    s.console = Console.after (inputs.map Input.key) ∧ Mirrors s.kernel.term s.console s.kernel := by
  induction inputs using List.reverseRecOn generalizing s with
  | nil =>
    cases h
    exact ⟨rfl, mirrors_boot⟩
  | append_singleton done i ih =>
    obtain ⟨u, hrun, fuel, fuel', hpress⟩ := h.of_snoc
    obtain ⟨hconsole, hmirrors⟩ := ih hrun
    obtain ⟨hnext, hmirrors', -⟩ := Live.mirrors_press hmirrors hpress
    refine ⟨?_, hmirrors'⟩
    rw [hnext, hconsole, List.map_append]
    exact (Console.after_snoc _ _).symm

/-- What a key does to the kernel, in a state that is reached. -/
theorem serves_of_run {inputs : List Input} {s t : Live} {i : Input}
    (h : Steps Live.Answers Live.boot inputs s) (hstep : s.Answers i t) :
    t.console = s.console.press i.key ∧ Serves i.key s.kernel t.kernel := by
  obtain ⟨fuel, fuel', hpress⟩ := hstep
  obtain ⟨hconsole, -, hserves⟩ := Live.mirrors_press (mirrors_of_run h).2 hpress
  exact ⟨hconsole, hserves⟩

end Srunix
