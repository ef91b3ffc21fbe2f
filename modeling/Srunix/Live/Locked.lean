import Srunix.Live.Refinement

/-!
# Before anybody logs in

As long as nobody enters `root` with the password `1`, the keys reach nothing but
login screens: no line is executed, and the files, the directories of the
terminals, the processes and the network device are those of the boot
(`locked_out`). That `1` with `1` sets a flag does not open a shell.
-/

namespace Srunix

open Library

/-- The files are the same, and every terminal stands where it stood. -/
structure Untouched (s s' : KernelState) : Prop where
  fs : s'.fs = { s.fs with currentInode := s'.fs.currentInode }
  dir : ∀ t, ttyDir s' t = ttyDir s t

namespace Untouched

variable {s s₁ s₂ : KernelState}

theorem refl (s : KernelState) : Untouched s s := ⟨rfl, fun _ => rfl⟩

theorem trans (h₁ : Untouched s s₁) (h₂ : Untouched s₁ s₂) : Untouched s s₂ where
  fs := by
    rw [h₂.fs, h₁.fs]
  dir t := (h₂.dir t).trans (h₁.dir t)

/-- What prints touches nothing. -/
theorem of_prints (h : Prints s s₁) : Untouched s s₁ where
  fs := by
    rw [h.fs]
  dir := h.ttyDir

theorem of_undisturbed (hfs : s₁.fs = s.fs) (h : Undisturbed s.term s₁.term) : Untouched s s₁ :=
  .of_prints ⟨hfs, h.toSameTtys⟩

/-- A flag is no file and no directory. -/
theorem setLoggedIn (s : KernelState) (b : Bool) : Untouched s (Srunix.setLoggedIn s b) where
  fs := rfl
  dir t := congrFun (ttyDir_setLoggedIn s b) t

/-- A switch takes the terminals' directories along. -/
theorem switchTty (s : KernelState) (ttyNum : Int) : Untouched s (Srunix.switchTty s ttyNum) where
  fs := by
    rcases switchTty_cases s ttyNum with heq | ⟨n, -, heq | heq⟩
    · rw [heq]
    · rw [heq]
      rfl
    · rw [heq, (loginScreen_prints _).fs]
      rfl
  dir := ttyDir_switchTty s ttyNum

end Untouched

/-! ## A key at a login screen -/

/-- A call of `login_screen`. -/
def Frame.InLogin : Frame → Prop
  | .username _ | .password _ _ => True
  | .shell _ | .wait | .halted => False

/-- Nobody has got any further. -/
def Console.Locked (c : Console) : Prop := ∀ frame ∈ c.stack, frame.InLogin

theorem Console.Locked.push {c : Console} {frame above : Frame} {rest : List Frame} (h : c.Locked)
    (hstack : c.stack = above :: rest) (hframe : frame.InLogin) :
    ∀ f ∈ frame :: rest, f.InLogin := by
  intro f hf
  rcases List.mem_cons.mp hf with rfl | hf
  · exact hframe
  · exact h f (hstack ▸ List.mem_cons_of_mem above hf)

theorem Console.Locked.callLogin {c : Console} (h : c.Locked) : c.callLogin.Locked := by
  intro f hf
  rcases List.mem_cons.mp hf with rfl | hf
  · trivial
  · exact h f hf

/-- A login that fails leads to another login screen. -/
theorem Console.Locked.finishLogin {c : Console} (h : c.Locked) {user pass : CString}
    (hroot : ¬ (user = "root" ∧ pass = "1")) : (c.finishLogin user pass).Locked := by
  have hno : ¬ (strcmp user "root" = 0 ∧ strcmp pass "1" = 0) := by
    rwa [strcmp_eq_zero_iff, strcmp_eq_zero_iff]
  rw [Console.finishLogin, if_neg hno]
  refine Console.Locked.callLogin ?_
  split
  · exact h
  · exact h

/-- What the machine has besides the screens and the console. -/
structure Live.Untouched (s t : Live) : Prop where
  kernel : Srunix.Untouched s.kernel t.kernel
  procs : t.procs = s.procs
  net : t.net = s.net

theorem Live.Untouched.trans {s t u : Live} (h₁ : s.Untouched t) (h₂ : t.Untouched u) : s.Untouched u :=
  ⟨h₁.kernel.trans h₂.kernel, h₂.procs.trans h₁.procs, h₂.net.trans h₁.net⟩

namespace Live

variable {hw : Hardware} {fuel fuel' : Nat} {s t : Live}

/-- A login that fails prints, and sets a flag at most. -/
theorem finishLogin_locked {user pass : CString} (hroot : ¬ (user = "root" ∧ pass = "1"))
    (h : s.finishLogin fuel fuel' user pass = some t) : t.console = s.console ∧ s.Untouched t := by
  have hno : ¬ (strcmp user "root" = 0 ∧ strcmp pass "1" = 0) := by
    rwa [strcmp_eq_zero_iff, strcmp_eq_zero_iff]
  have hwelcome : Srunix.Untouched s.kernel
      (setLoggedIn ((s.kernel.setcolor colorGreen colorBlack).writestring
        "\nWelcome to Srunix86 livecd\n") true) :=
    (Srunix.Untouched.of_prints (((Prints.refl s.kernel).setcolor _ _).writestring _)).trans
      (.setLoggedIn _ true)
  have hagain : ∀ k, Srunix.Untouched k (loginScreen (k.writestring "\nlogin incorrect\n")) := fun k =>
    .of_prints (((Prints.refl k).writestring _).trans (loginScreen_prints _))
  unfold finishLogin at h
  rw [if_neg hno] at h
  split at h
  · cases h
    exact ⟨rfl, hwelcome.trans (hagain _), rfl, rfl⟩
  · cases h
    exact ⟨rfl, hagain _, rfl, rfl⟩

theorem putchar_untouched (s : Live) (c : UInt8) : s.Untouched (s.putchar c) :=
  ⟨.of_undisturbed rfl (.putchars s.kernel.term [c]), rfl, rfl⟩

/-- A character of a field is drawn or not. -/
theorem echoField_locked (s : Live) (field : CString) (ch : KeyChar) (shown : UInt8) :
    (s.echoField field ch shown).console = s.console ∧ s.Untouched (s.echoField field ch shown) := by
  have hputchar : ∀ c, (s.putchar c).console = s.console ∧ s.Untouched (s.putchar c) :=
    fun c => ⟨rfl, s.putchar_untouched c⟩
  have hrefl : s.console = s.console ∧ s.Untouched s := ⟨rfl, .refl _, rfl, rfl⟩
  unfold echoField
  split
  · split
    · exact hputchar _
    · exact hrefl
  · split
    · exact hputchar _
    · exact hrefl

/-- A character at a login screen. -/
theorem locked_char {ch : KeyChar} (hlocked : s.console.Locked)
    (hno : ¬ s.console.Enters (.char ch) "root" "1") (h : s.press hw fuel fuel' (.char ch) = some t) :
    t.console = s.console.press (.char ch) ∧ s.Untouched t ∧ (s.console.press (.char ch)).Locked ∧
      s.console.executed (.char ch) = none := by
  -- every call is one of `login_screen`
  have hin : ∀ {frame : Frame} {rest : List Frame}, s.console.stack = frame :: rest → frame.InLogin :=
    fun hstack => hlocked _ (hstack ▸ List.mem_cons_self)
  have hexec : s.console.executed (.char ch) = none :=
    Console.executed_of_not_shell (fun line rest hstack => hin hstack) _
  cases pressed_of_press h with
  | idle hstack =>
    rw [Console.press_idle hstack]
    exact ⟨rfl, ⟨.refl _, rfl, rfl⟩, hlocked, hexec⟩
  | nameEnter hstack =>
    have hnext : (s.console.press .enter).Locked := by
      rw [Console.press_username_enter hstack]
      exact hlocked.push hstack trivial
    refine ⟨rfl, ⟨?_, rfl, rfl⟩, hnext, hexec⟩
    exact (s.putchar_untouched 0x0A).kernel.trans
      (.of_prints ⟨KernelState.prints_fs _ _, ((Undisturbed.refl _).prints _).toSameTtys⟩)
  | @nameChar user _ _ hstack hnl =>
    have hnext : (s.console.press (.char ch)).Locked := by
      rw [Console.press_username_char hstack hnl]
      exact hlocked.push hstack trivial
    obtain ⟨hkeep, huntouched⟩ :=
      echoField_locked { s with console := s.console.press (.char ch) } user ch ch.val
    exact ⟨hkeep, ⟨huntouched.kernel, huntouched.procs, huntouched.net⟩, hnext, hexec⟩
  | @passwordEnter user pass rest _ hstack hfinish =>
    -- the comparison fails, and another login screen is called
    have hroot : ¬ (user = "root" ∧ pass = "1") := by
      rintro ⟨rfl, rfl⟩
      exact hno ⟨rfl, rest, hstack⟩
    obtain ⟨hkeep, huntouched⟩ := finishLogin_locked
      (s := ({ s with console := s.console.press .enter } : Live).putchar 0x0A) hroot hfinish
    have hecho := s.putchar_untouched 0x0A
    have hnext : (s.console.press .enter).Locked := by
      rw [Console.press_password_enter hstack]
      exact hlocked.finishLogin hroot
    exact ⟨hkeep, ⟨hecho.kernel.trans huntouched.kernel, huntouched.procs, huntouched.net⟩, hnext, hexec⟩
  | @passwordChar _ pass _ _ hstack hnl =>
    have hnext : (s.console.press (.char ch)).Locked := by
      rw [Console.press_password_char hstack hnl]
      exact hlocked.push hstack trivial
    obtain ⟨hkeep, huntouched⟩ :=
      echoField_locked { s with console := s.console.press (.char ch) } pass ch 0x2A
    exact ⟨hkeep, ⟨huntouched.kernel, huntouched.procs, huntouched.net⟩, hnext, hexec⟩
  | line hstack => exact (hin hstack).elim
  | woken hstack => exact (hin hstack).elim

/-- A function key at a login screen. -/
theorem locked_function {ttyNum : Fin maxTtys} (hlocked : s.console.Locked)
    (h : s.press hw fuel fuel' (.function ttyNum) = some t) :
    t.console = s.console.press (.function ttyNum) ∧ s.Untouched t ∧
      (s.console.press (.function ttyNum)).Locked := by
  cases pressed_of_press h with
  | idle hstack =>
    rw [Console.press_idle hstack]
    exact ⟨rfl, ⟨.refl _, rfl, rfl⟩, hlocked⟩
  | switched hstack hreads =>
    refine ⟨rfl, ⟨.switchTty s.kernel ttyNum.val, rfl, rfl⟩, ?_⟩
    have hmoved : Console.Locked { s.console with currentTty := ttyNum } := hlocked
    rw [Console.press_function hstack hreads, Console.switchTty]
    dsimp only
    -- a terminal nobody is logged in on asks for a login
    split
    · exact hmoved
    · exact hmoved.callLogin

end Live

/-- Nobody enters `root` with the password `1`. -/
def NoRoot (c : Console) (inputs : List Input) : Prop :=
  Guarded (fun c i => c.press i.key) (fun c i => ¬ c.Enters i.key "root" "1") c inputs

/-- The run lemma: the console stays locked, and nothing is touched or executed. -/
theorem locked_of_steps {inputs : List Input} {s t : Live} (hlocked : s.console.Locked)
    (hrun : Steps Live.Answers s inputs t) (hno : NoRoot s.console inputs) :
    s.Untouched t ∧ t.console.Locked ∧
      outputs (fun c i => c.press i.key) (fun c i => c.executed i.key) s.console inputs = [] := by
  induction hrun with
  | nil => exact ⟨⟨.refl _, rfl, rfl⟩, hlocked, rfl⟩
  | @cons s t u i inputs hstep _ ih =>
    obtain ⟨hnow, hlater⟩ := hno
    have hlater : NoRoot (s.console.press i.key) inputs := hlater
    obtain ⟨fuel, fuel', hpress⟩ := hstep
    have hone : t.console = s.console.press i.key ∧ s.Untouched t ∧
        (s.console.press i.key).Locked ∧ s.console.executed i.key = none := by
      cases hk : i.key with
      | char ch =>
        rw [hk] at hnow hpress
        exact Live.locked_char hlocked hnow hpress
      | function ttyNum =>
        rw [hk] at hpress
        obtain ⟨hconsole, huntouched, hnext⟩ := Live.locked_function hlocked hpress
        exact ⟨hconsole, huntouched, hnext, rfl⟩
    -- the console is locked after the key, so it is for the rest
    obtain ⟨hconsole, huntouched, hnext, hexec⟩ := hone
    rw [← hconsole] at hlater hnext
    obtain ⟨hrest, hend, houts⟩ := ih hnext hlater
    refine ⟨huntouched.trans hrest, hend, ?_⟩
    rw [hconsole] at houts
    rw [outputs, hexec]
    exact houts

/-- **Nobody gets in without the password**: whatever else is typed, at whatever
terminals, no line is executed, and the files, the directories, the processes and
the network device stay as they are at the first login screen. -/
theorem locked_out {inputs : List Input} {s : Live} (hrun : Steps Live.Answers Live.boot inputs s)
    (hno : NoRoot Console.boot inputs) :
    Live.boot.Untouched s ∧
      outputs (fun c i => c.press i.key) (fun c i => c.executed i.key) Console.boot inputs = [] := by
  have hlocked : Live.boot.console.Locked := by
    intro f hf
    cases List.mem_singleton.mp hf
    trivial
  obtain ⟨huntouched, -, houts⟩ := locked_of_steps hlocked hrun hno
  exact ⟨huntouched, houts⟩

/-- A wrong password, and a command where the next name is asked for. -/
def textLocked : CString := "root\n2\nls\n"

/-- It stays with the login screens. -/
theorem locked_out_wrong : ∃ s : Live, Steps Live.Answers Live.boot (inputsFor textLocked) s ∧
    Live.boot.Untouched s := by
  have hnothing : outputs Console.press Console.event Console.boot (Console.typing textLocked) = [] := by
    decide +kernel
  obtain ⟨s, h⟩ : ∃ s, LiveRun (inputsFor textLocked) s :=
    exists_liveRun_still hnothing fun _ _ hmem => absurd hmem List.not_mem_nil
  have hrun := h.mono LiveStep.answers
  have hno : NoRoot Console.boot (inputsFor textLocked) := by
    rw [NoRoot]
    decide +kernel
  exact ⟨s, hrun, (locked_out hrun hno).1⟩

end Srunix
