import Srunix.Library.Runs
import Srunix.Console.Frames

/-!
# Who is logged in (`login_screen`)

`login_screen` marks whatever terminal is current when the password is entered,
and it has two tests: `root` with `1`, which goes on to `shell`, and before it `1`
with `1`, which marks the terminal and still ends in "login incorrect".
`LoggedInByRoot` is the evidence the flag should stand for; it holds of every
flag as long as nobody enters `1` and `1` at a terminal that is not logged in, and
that key breaks it (`loggedInByRoot_iff`).

The evidence is kept along the prompt: while a terminal is not logged in, what
stands in the fields of its prompt was typed at it since the prompt appeared
(`Evidence`), because switching to such a terminal opens a new prompt.
-/

namespace Srunix.Console

open Library

/-- What characters make of an empty field. -/
def typedField (chars : List KeyChar) : CString := chars.foldl fieldChar CString.empty

/-- The keys of a user name and a password, both entered. -/
def loginKeys (user pass : List KeyChar) : List Key :=
  user.map .char ++ .enter :: pass.map .char ++ [.enter]

/-- A new login prompt on terminal `t`. -/
def AtPrompt (c : Console) (t : Nat) : Prop :=
  c.currentTty = t ∧ ∃ rest, c.stack = .username CString.empty :: rest

/-- The key executes `exit` on terminal `t`. -/
def ExitsOn (c : Console) (k : Key) (t : Nat) : Prop :=
  c.currentTty = t ∧ ∃ cmd, c.executed k = some cmd ∧ commandKind cmd = .exit

/-- Among the keys, from a prompt on terminal `t` on: the user name `root` and
the password `1`, entered, and no `exit` on `t` since. Characters do not switch,
so `t` is current from the prompt to the last of them. -/
def LoggedInByRoot (keys : List Key) (t : Nat) : Prop :=
  ∃ pre user pass post, keys = pre ++ loginKeys user pass ++ post ∧ AtPrompt (after pre) t ∧
    KeyChar.newline ∉ user ∧ KeyChar.newline ∉ pass ∧
    typedField user = "root" ∧ typedField pass = "1" ∧
    ∀ mid k rest, post = mid ++ k :: rest →
      ¬ ExitsOn (after (pre ++ loginKeys user pass ++ mid)) k t

/-- The key enters this user name and password. -/
def Enters (c : Console) (k : Key) (user pass : CString) : Prop :=
  k = .enter ∧ ∃ rest, c.stack = .password user pass :: rest

instance (c : Console) (k : Key) (user pass : CString) : Decidable (Enters c k user pass) :=
  match hstack : c.stack with
  | .password user' pass' :: rest =>
    decidable_of_iff (k = .enter ∧ user' = user ∧ pass' = pass) (by simp [Enters, hstack])
  | .username _ :: _ | .shell _ :: _ | .wait :: _ | .halted :: _ | [] =>
    isFalse (by simp [Enters, hstack])

/-- `1` and `1` are entered only where somebody is logged in. -/
def NoLiveOne (c : Console) (k : Key) : Prop :=
  Enters c k "1" "1" → c.loggedIn c.currentTty = true

instance (c : Console) (k : Key) : Decidable (NoLiveOne c k) :=
  inferInstanceAs (Decidable (_ → _))

/-- What the flags and the prompts say about the keys. -/
structure Evidence (done : List Key) (c : Console) : Prop where
  state : c = after done
  flag : ∀ t, c.loggedIn t = true → LoggedInByRoot done t
  username : ∀ user rest, c.stack = .username user :: rest →
    c.loggedIn c.currentTty = false →
    ∃ pre chars, done = pre ++ chars.map .char ∧ AtPrompt (after pre) c.currentTty ∧
      KeyChar.newline ∉ chars ∧ typedField chars = user
  password : ∀ user pass rest, c.stack = .password user pass :: rest →
    c.loggedIn c.currentTty = false →
    ∃ pre uchars pchars, done = pre ++ (uchars.map .char ++ .enter :: pchars.map .char) ∧
      AtPrompt (after pre) c.currentTty ∧ KeyChar.newline ∉ uchars ∧ KeyChar.newline ∉ pchars ∧
      typedField uchars = user ∧ typedField pchars = pass

/-! ## The flags after a key -/

/-- The flag of the current terminal, and no other. -/
theorem setLoggedIn_loggedIn (c : Console) (b : Bool) (t : Nat) :
    (c.setLoggedIn b).loggedIn t = if t = c.currentTty then b else c.loggedIn t :=
  Function.update_apply _ _ _ _

/-- A login that sets a flag was one of the two. -/
theorem finishLogin_loggedIn {c : Console} {user pass : CString} {t : Nat}
    (h : (c.finishLogin user pass).loggedIn t = true) (hold : c.loggedIn t = false) :
    t = c.currentTty ∧ pass = "1" ∧ (user = "root" ∨ user = "1") := by
  rw [finishLogin] at h
  simp only [strcmp_eq_zero_iff] at h
  by_cases hone : user = "1" ∧ pass = "1"
  · -- the flag is set whatever the second test says
    by_cases ht : t = c.currentTty
    · exact ⟨ht, hone.2, .inr hone.1⟩
    · have hroot : ¬ (user = "root" ∧ pass = "1") := by
        rw [hone.1]
        exact fun h => absurd h.1 (by decide)
      rw [if_pos hone, if_neg hroot] at h
      have hset : (c.setLoggedIn true).loggedIn t = true := h
      rw [setLoggedIn_loggedIn, if_neg ht, hold] at hset
      exact absurd hset Bool.false_ne_true
  rw [if_neg hone] at h
  by_cases hroot : user = "root" ∧ pass = "1"
  · rw [if_pos hroot] at h
    have hset : (c.setLoggedIn true).loggedIn t = true := h
    rw [setLoggedIn_loggedIn] at hset
    by_cases ht : t = c.currentTty
    · exact ⟨ht, hroot.2, .inl hroot.1⟩
    · rw [if_neg ht, hold] at hset
      exact absurd hset Bool.false_ne_true
  · rw [if_neg hroot] at h
    exact absurd (hold.symm.trans h) Bool.false_ne_true

/-- Only `exit` takes a flag back. -/
theorem executeCommand_loggedIn (c : Console) (cmd : CString) (t : Nat) :
    (c.executeCommand cmd).loggedIn t =
      if commandKind cmd = .exit ∧ t = c.currentTty then false else c.loggedIn t := by
  rw [executeCommand]
  cases hkind : commandKind cmd with
  | returns | shell | waits | halts => simp [callShell]
  | exit =>
    show (c.setLoggedIn false).loggedIn t = _
    simp [setLoggedIn_loggedIn]

theorem not_exitsOn {c : Console} {k : Key} (h : c.executed k = none) (t : Nat) :
    ¬ ExitsOn c k t := by
  rintro ⟨-, cmd, hexec, -⟩
  rw [h] at hexec
  cases hexec

/-- **How a flag gets to be set**: it was and `exit` left it alone, or a password
was entered. -/
theorem press_loggedIn {c : Console} {k : Key} {t : Nat} (h : (c.press k).loggedIn t = true) :
    (c.loggedIn t = true ∧ ¬ ExitsOn c k t) ∨
      (c.loggedIn t = false ∧ t = c.currentTty ∧
        ∃ user, Enters c k user "1" ∧ (user = "root" ∨ user = "1")) := by
  have hpressed := pressed c k
  generalize c.press k = c' at hpressed h
  cases hpressed with
  | ignored hstack =>
    refine .inl ⟨h, not_exitsOn ?_ t⟩
    cases k with
    | function ttyNum => rfl
    | char ch => rcases hstack with hstack | ⟨rest, hstack⟩ <;> simp [executed, hstack]
  | moved _ => exact .inl ⟨h, not_exitsOn rfl t⟩
  | locked _ => exact .inl ⟨h, not_exitsOn rfl t⟩
  | username hstack _ => exact .inl ⟨h, not_exitsOn (by simp [executed, hstack]) t⟩
  | usernameDone hstack => exact .inl ⟨h, not_exitsOn (by simp [executed, hstack]) t⟩
  | password hstack _ => exact .inl ⟨h, not_exitsOn (by simp [executed, hstack]) t⟩
  | @passwordDone user pass rest hstack =>
    -- the only place where a flag is set
    cases hold : c.loggedIn t with
    | true => exact .inl ⟨rfl, not_exitsOn (by simp [executed, hstack]) t⟩
    | false =>
      obtain ⟨ht, rfl, huser⟩ := finishLogin_loggedIn h hold
      exact .inr ⟨rfl, ht, user, ⟨rfl, rest, hstack⟩, huser⟩
  | edited hstack hexec => exact .inl ⟨h, not_exitsOn (by simp [executed, hstack, hexec]) t⟩
  | @executed ch line rest cmd hstack hexec =>
    rw [executeCommand_loggedIn] at h
    split at h
    · exact absurd h Bool.false_ne_true
    · rename_i hno
      refine .inl ⟨h, ?_⟩
      rintro ⟨ht, cmd', hexec', hexit⟩
      have hcmd : c.executed (.char ch) = some cmd := by
        simp [Console.executed, hstack, hexec]
      cases hcmd.symm.trans hexec'
      exact hno ⟨hexit, ht.symm⟩
  | woken hstack => exact .inl ⟨h, not_exitsOn (by simp [executed, hstack]) t⟩

/-! ## The innermost call after a key -/

/-- What a call that has just been made looks like, or a `shell` after a command. -/
def Fresh : Frame → Prop
  | .username user => user = CString.empty
  | .password _ _ => False
  | .shell line => line.pos = 0
  | .wait | .halted => True

/-- Whatever call is made, it starts with empty fields or an empty line. -/
theorem fresh_of_finishLogin {c : Console} {user pass : CString} {frame : Frame}
    {above : List Frame} (h : (c.finishLogin user pass).stack = frame :: above) : Fresh frame := by
  unfold finishLogin at h
  dsimp only at h
  split at h
  · cases h
    exact rfl
  · cases h
    exact rfl

/-- `shell` goes on at an empty line, unless the command makes a call. -/
theorem fresh_of_executed {c : Console} {line : Line} {rest : List Frame} {ch : KeyChar}
    {cmd : CString} (hexec : (shellChar c.history line ch).2.2 = some cmd) {frame : Frame}
    {above : List Frame}
    (h : ((c.edited line rest ch).executeCommand cmd).stack = frame :: above) : Fresh frame := by
  rw [executeCommand] at h
  cases hkind : commandKind cmd with
  | returns =>
    rw [hkind] at h
    cases h
    exact (pos_of_executes hexec).2
  | shell | exit =>
    rw [hkind] at h
    cases h
    exact rfl
  | waits | halts =>
    rw [hkind] at h
    cases h
    trivial

/-- A command that has waited goes back to an empty line. -/
theorem fresh_of_woken {c : Console} (hinv : Inv c) {rest : List Frame}
    (hstack : c.stack = .wait :: rest) {frame : Frame} {above : List Frame}
    (h : rest = frame :: above) : Fresh frame := by
  have hwaits := hinv.waits
  rw [hstack] at hwaits
  obtain ⟨line, above', rfl, hpos⟩ := hwaits
  cases h
  exact hpos

theorem halted_of_ignored {c : Console} (h : c.stack = [] ∨ ∃ rest, c.stack = .halted :: rest)
    {frame : Frame} {above : List Frame} (hstack : c.stack = frame :: above) : frame = .halted := by
  rcases h with hnil | ⟨rest, hhalted⟩
  · cases hnil.symm.trans hstack
  · cases hhalted.symm.trans hstack
    rfl

/-! ## Keeping the evidence -/

theorem after_snoc (done : List Key) (k : Key) : after (done ++ [k]) = (after done).press k :=
  runOps_snoc press boot done k

/-- One more key, that is no `exit` on `t`. -/
theorem LoggedInByRoot.snoc {done : List Key} {t : Nat} (h : LoggedInByRoot done t) {k : Key}
    (hk : ¬ ExitsOn (after done) k t) : LoggedInByRoot (done ++ [k]) t := by
  obtain ⟨pre, user, pass, post, rfl, hprompt, huser, hpass, hroot, hone, hexit⟩ := h
  refine ⟨pre, user, pass, post ++ [k], by simp, hprompt, huser, hpass, hroot, hone, ?_⟩
  intro mid k' rest hsplit
  rcases snoc_eq_append_cons hsplit with ⟨rfl, rfl⟩ | ⟨init, hpost⟩
  · exact hk
  · exact hexit mid k' init hpost

theorem typedField_snoc (chars : List KeyChar) (c : KeyChar) :
    typedField (chars ++ [c]) = fieldChar (typedField chars) c := by
  simp [typedField]

theorem not_mem_snoc {chars : List KeyChar} {c : KeyChar} (h : KeyChar.newline ∉ chars)
    (hc : c ≠ .newline) : KeyChar.newline ∉ chars ++ [c] := by
  intro hmem
  rcases List.mem_append.mp hmem with hmem | hmem
  · exact h hmem
  · exact hc (List.mem_singleton.mp hmem).symm

namespace Evidence

variable {done : List Key} {c : Console}

theorem boot : Evidence [] Console.boot where
  state := rfl
  flag := fun t h => absurd h Bool.false_ne_true
  username := by
    intro user rest hstack _
    cases hstack
    exact ⟨[], [], rfl, ⟨rfl, [], rfl⟩, List.not_mem_nil, rfl⟩
  password := nofun

/-- The step lemma for the flags: a flag that is new was set by a login of `root`. -/
theorem press_flag (h : Evidence done c) {k : Key} (hok : NoLiveOne c k) {t : Nat}
    (hflag : (c.press k).loggedIn t = true) : LoggedInByRoot (done ++ [k]) t := by
  rcases press_loggedIn hflag with ⟨hold, hexit⟩ | ⟨hold, rfl, user, ⟨rfl, rest, hstack⟩, huser⟩
  · refine (h.flag t hold).snoc ?_
    rwa [← h.state]
  · rcases huser with rfl | rfl
    · -- the fields were typed at this terminal since the prompt
      obtain ⟨pre, uchars, pchars, hdone, hprompt, hu, hp, hroot, hone⟩ :=
        h.password _ _ rest hstack hold
      refine ⟨pre, uchars, pchars, [], ?_, hprompt, hu, hp, hroot, hone, ?_⟩
      · rw [hdone]
        simp [loginKeys]
      · intro mid k rest hsplit
        simp at hsplit
    · exact absurd (hold.symm.trans (hok ⟨rfl, rest, hstack⟩)) Bool.false_ne_true

/-- The prompt that appears with this key. -/
theorem username_new (h : Evidence done c) {k : Key} {user : CString} {rest : List Frame}
    (hstack : (c.press k).stack = .username user :: rest) (hfresh : Fresh (.username user)) :
    ∃ pre chars, done ++ [k] = pre ++ chars.map .char ∧
      AtPrompt (after pre) (c.press k).currentTty ∧
      KeyChar.newline ∉ chars ∧ typedField chars = user := by
  cases hfresh
  refine ⟨done ++ [k], [], by simp, ?_, List.not_mem_nil, rfl⟩
  rw [after_snoc, ← h.state]
  exact ⟨rfl, rest, hstack⟩

/-- The step lemma for the name: its characters were typed since the prompt. -/
theorem press_username (h : Evidence done c) (hinv : Inv c) {k : Key} {user : CString}
    {rest : List Frame} (hstack : (c.press k).stack = .username user :: rest)
    (hflag : (c.press k).loggedIn (c.press k).currentTty = false) :
    ∃ pre chars, done ++ [k] = pre ++ chars.map .char ∧
      AtPrompt (after pre) (c.press k).currentTty ∧
      KeyChar.newline ∉ chars ∧ typedField chars = user := by
  have hnew := h.username_new hstack
  have hpressed := pressed c k
  generalize c.press k = c' at hpressed hstack hflag hnew ⊢
  cases hpressed with
  | ignored hnone => cases halted_of_ignored hnone hstack
  | moved hin => exact absurd (hin.symm.trans hflag) (by decide)
  -- a field that has just been called is empty
  | locked _ =>
    cases hstack
    exact hnew rfl
  | @username ch user' rest' hstack' hnl =>
    cases hstack
    -- the name typed before this character ends what was typed so far
    obtain ⟨pre, chars, rfl, hprompt, hchars, rfl⟩ := h.username _ _ hstack' hflag
    exact ⟨pre, chars ++ [ch], by simp, hprompt, not_mem_snoc hchars hnl, typedField_snoc chars ch⟩
  | usernameDone _ => cases hstack
  | password _ _ => cases hstack
  | passwordDone _ => exact hnew (fresh_of_finishLogin hstack)
  | edited _ _ => cases hstack
  | executed _ hexec => exact hnew (fresh_of_executed hexec hstack)
  | woken hstack' => exact hnew (fresh_of_woken hinv hstack' hstack)

/-- The step lemma for the password: name and password were typed since the prompt. -/
theorem press_password (h : Evidence done c) (hinv : Inv c) {k : Key} {user pass : CString}
    {rest : List Frame} (hstack : (c.press k).stack = .password user pass :: rest)
    (hflag : (c.press k).loggedIn (c.press k).currentTty = false) :
    ∃ pre uchars pchars, done ++ [k] = pre ++ (uchars.map .char ++ .enter :: pchars.map .char) ∧
      AtPrompt (after pre) (c.press k).currentTty ∧ KeyChar.newline ∉ uchars ∧
      KeyChar.newline ∉ pchars ∧ typedField uchars = user ∧ typedField pchars = pass := by
  have hpressed := pressed c k
  generalize c.press k = c' at hpressed hstack hflag ⊢
  -- no new call is at its second loop
  have hold : ¬ Fresh (.password user pass) := id
  cases hpressed with
  | ignored hnone => cases halted_of_ignored hnone hstack
  | moved hin => exact absurd (hin.symm.trans hflag) (by decide)
  | locked _ => cases hstack
  | username _ _ => cases hstack
  | @usernameDone user' rest' hstack' =>
    cases hstack
    obtain ⟨pre, chars, rfl, hprompt, hchars, rfl⟩ := h.username _ _ hstack' hflag
    exact ⟨pre, chars, [], by simp, hprompt, hchars, List.not_mem_nil, rfl, rfl⟩
  | @password ch user' pass' rest' hstack' hnl =>
    cases hstack
    obtain ⟨pre, uchars, pchars, rfl, hprompt, hu, hp, rfl, rfl⟩ := h.password _ _ _ hstack' hflag
    exact ⟨pre, uchars, pchars ++ [ch], by simp, hprompt, hu, not_mem_snoc hp hnl, rfl,
      typedField_snoc pchars ch⟩
  | passwordDone _ => exact absurd (fresh_of_finishLogin hstack) hold
  | edited _ _ => cases hstack
  | executed _ hexec => exact absurd (fresh_of_executed hexec hstack) hold
  | woken hstack' => exact absurd (fresh_of_woken hinv hstack' hstack) hold

/-- The step lemma of `Evidence`. -/
theorem press (h : Evidence done c) {k : Key} (hok : NoLiveOne c k) :
    Evidence (done ++ [k]) (c.press k) := by
  have hinv : Inv c := by
    rw [h.state]
    exact inv_after done
  refine ⟨?_, fun t => h.press_flag hok, fun _ _ => h.press_username hinv,
    fun _ _ _ => h.press_password hinv⟩
  rw [after_snoc, ← h.state]

end Evidence

/-- **A flag is set by the root credentials only**, as long as nobody enters `1`
and `1` where nobody is logged in. -/
theorem loggedInByRoot_of_run (keys : List Key)
    (hkeys : Guarded Console.press NoLiveOne Console.boot keys) :
    ∀ t, (after keys).loggedIn t = true → LoggedInByRoot keys t :=
  (Guarded.history Evidence (fun _ _ _ h hok => h.press hok) hkeys .boot).flag

/-- `root`, mistyped and corrected, and `1`. -/
theorem loggedInByRoot_of_run_root :
    LoggedInByRoot (typing "roor\x08t\n1\n") 0 :=
  loggedInByRoot_of_run _ (by decide +kernel) 0 (by decide +kernel)

theorem length_typedField_le (chars : List KeyChar) :
    strlen (typedField chars) ≤ chars.length := by
  induction chars using List.reverseRecOn with
  | nil => exact Nat.le_refl _
  | append_singleton chars c ih =>
    rw [typedField_snoc, List.length_append, List.length_singleton]
    rw [fieldChar]
    split
    · have hdrop : ((typedField chars).bytes.dropLast).length ≤ strlen (typedField chars) := by
        simp [strlen]
      exact Nat.le_trans hdrop (Nat.le_succ_of_le ih)
    split
    · simpa [strlen] using ih
    · exact Nat.le_succ_of_le ih

/-- `1` and `1` log in on the first terminal, and no `root` was typed. -/
theorem not_loggedInByRoot_one :
    (after (typing "1\n1\n")).loggedIn 0 = true ∧ ¬ LoggedInByRoot (typing "1\n1\n") 0 := by
  refine ⟨by decide +kernel, ?_⟩
  rintro ⟨pre, user, pass, post, hkeys, -, -, -, hroot, -, -⟩
  -- four keys cannot hold `root` and two newlines
  have hfour : 4 ≤ user.length := by
    have hle := length_typedField_le user
    rw [hroot] at hle
    exact hle
  have hlen := congrArg List.length hkeys
  have htyped : (typing "1\n1\n").length = 4 := by decide +kernel
  rw [htyped] at hlen
  simp only [loginKeys, List.length_append, List.length_cons, List.length_map] at hlen
  omega

/-! ## The condition is needed -/

/-- Characters go into the field of the innermost call, whichever it is. -/
theorem runOps_field {frame : CString → Frame}
    (hframe : ∀ (c : Console) (field : CString) (rest : List Frame) (ch : KeyChar),
      c.stack = frame field :: rest → ch ≠ .newline →
      c.press (.char ch) = { c with stack := frame (fieldChar field ch) :: rest })
    (chars : List KeyChar) (hnl : KeyChar.newline ∉ chars) (c : Console) (field : CString)
    (rest : List Frame) (hstack : c.stack = frame field :: rest) :
    runOps Console.press c (chars.map .char) =
      { c with stack := frame (chars.foldl fieldChar field) :: rest } := by
  induction chars generalizing c field with
  | nil =>
    show c = { c with stack := frame field :: rest }
    rw [← hstack]
  | cons ch chars ih =>
    obtain ⟨hch, hchars⟩ := not_or.mp (List.mem_cons.not.mp hnl)
    rw [List.map_cons, runOps_cons, hframe c field rest ch hstack fun heq => hch heq.symm]
    exact ih hchars _ _ rfl

/-- The keys of a login but for the last one fill the two fields. -/
theorem runOps_fields {c : Console} {rest : List Frame}
    (hstack : c.stack = .username CString.empty :: rest) {user pass : List KeyChar}
    (huser : KeyChar.newline ∉ user) (hpass : KeyChar.newline ∉ pass) :
    runOps Console.press c (user.map .char ++ .enter :: pass.map .char) =
      { c with stack := .password (typedField user) (typedField pass) :: rest } := by
  rw [runOps_append, runOps_field (fun _ _ _ _ => press_username_char) user huser c _ rest hstack,
    runOps_cons]
  exact runOps_field (fun _ _ _ _ => press_password_char) pass hpass _ CString.empty rest rfl

theorem after_append (pre keys : List Key) :
    after (pre ++ keys) = runOps Console.press (after pre) keys :=
  runOps_append press Console.boot pre keys

/-- A flag that is set stays, but for `exit`. -/
theorem press_loggedIn_of_true {c : Console} {k : Key} {t : Nat} (h : c.loggedIn t = true)
    (hexit : ¬ ExitsOn c k t) : (c.press k).loggedIn t = true := by
  have hset : ∀ c : Console, c.loggedIn t = true → (c.setLoggedIn true).loggedIn t = true := by
    intro c hc
    rw [setLoggedIn_loggedIn, hc, ite_self]
  have hpressed := pressed c k
  generalize c.press k = c' at hpressed ⊢
  cases hpressed with
  | ignored | moved | locked | username | usernameDone | password | edited | woken => exact h
  | @passwordDone user pass rest hstack =>
    unfold finishLogin
    dsimp only
    split_ifs
    · exact hset _ (hset c h)
    · exact hset c h
    · exact hset c h
    · exact h
  | @executed ch line rest cmd hstack hexec =>
    rw [executeCommand_loggedIn, if_neg]
    · exact h
    · rintro ⟨hkind, ht⟩
      exact hexit ⟨ht.symm, cmd, by simp [Console.executed, hstack, hexec], hkind⟩

/-- The evidence is good: it marks the terminal. -/
theorem loggedIn_of_loggedInByRoot {keys : List Key} {t : Nat} (h : LoggedInByRoot keys t) :
    (after keys).loggedIn t = true := by
  obtain ⟨pre, user, pass, post, rfl, ⟨rfl, rest, hstack⟩, huser, hpass, hroot, hone, hexit⟩ := h
  induction post using List.reverseRecOn with
  | nil =>
    rw [List.append_nil, loginKeys, ← List.append_assoc, after_snoc, after_append,
      runOps_fields hstack huser hpass, hroot, hone]
    exact setLoggedIn_current _ true
  | append_singleton post k ih =>
    rw [← List.append_assoc, after_snoc]
    refine press_loggedIn_of_true (ih fun mid k' rest hsplit => ?_) (hexit post k [] rfl)
    exact hexit mid k' (rest ++ [k]) (by rw [hsplit]; simp)

/-- **The flags are right after one more key just when it does not log `1` in**,
if nobody has logged in so before. -/
theorem loggedInByRoot_iff {keys : List Key}
    (hkeys : Guarded Console.press NoLiveOne Console.boot keys) (k : Key) :
    (∀ t, (after (keys ++ [k])).loggedIn t = true → LoggedInByRoot (keys ++ [k]) t) ↔
      NoLiveOne (after keys) k := by
  constructor
  · rintro h ⟨rfl, rest, hstack⟩
    have hflag : (after (keys ++ [.enter])).loggedIn (after keys).currentTty = true := by
      rw [after_snoc, press_password_enter hstack]
      exact setLoggedIn_current _ true
    obtain ⟨pre, user, pass, post, hsplit, hprompt, huser, hpass, hroot, hone, hexit⟩ := h _ hflag
    rcases List.eq_nil_or_concat post with rfl | ⟨post, last, rfl⟩
    · -- the last key ends the evidence, so `root` stands in the field
      obtain ⟨rest', hstack'⟩ := hprompt.2
      rw [List.append_nil, loginKeys, ← List.append_assoc] at hsplit
      rw [(List.append_inj' hsplit rfl).1, after_append, runOps_fields hstack' huser hpass,
        hroot] at hstack
      cases hstack
    · -- the evidence was there before the last key
      rw [List.concat_eq_append, ← List.append_assoc] at hsplit
      refine loggedIn_of_loggedInByRoot ⟨pre, user, pass, post, (List.append_inj' hsplit rfl).1,
        hprompt, huser, hpass, hroot, hone, fun mid k rest hmid => ?_⟩
      exact hexit mid k (rest ++ [last]) (by rw [hmid]; simp)
  · exact fun hok => loggedInByRoot_of_run _ (guarded_snoc.mpr ⟨hkeys, hok⟩)

end Srunix.Console
