import Srunix.Library.Fuel
import Srunix.Live.Step

/-!
# The rounds do not matter

`Live.press` runs the loops of `rm`, of `pwd` and of the prompt for given numbers
of rounds. With which numbers a key is answered makes no difference to the
answer (`Live.press_unique`).
-/

namespace Srunix

open Library

/-- One round more changes no result, of `execute_rm` and of the loop over its
children at once. -/
theorem rm_succ (fuel : Nat) :
    (∀ s name recursive t, executeRm fuel s name recursive = some t →
      executeRm (fuel + 1) s name recursive = some t) ∧
    ∀ s dirInode j t, rmChildren fuel s dirInode j = some t →
      rmChildren (fuel + 1) s dirInode j = some t := by
  -- both calls at once, by induction on the fuel
  induction fuel with
  | zero =>
    refine ⟨fun s name recursive t h => ?_, fun s dirInode j t h => ?_⟩
    · rw [executeRm] at h
      cases h
    · rw [rmChildren] at h
      cases h
  | succ fuel ih =>
    obtain ⟨ihrm, ihchildren⟩ := ih
    refine ⟨fun s name recursive t h => ?_, fun s dirInode j t h => ?_⟩
    · rw [executeRm] at h ⊢
      cases hfind : findInCurrentDir s.fs (name.deref s.fs) with
      | none =>
        rw [hfind] at h
        exact h
      | some i =>
        rw [hfind] at h
        dsimp only at h ⊢
        by_cases htype : (s.fs.files i).type = fileDir
        · rw [if_pos htype] at h ⊢
          cases recursive with
          | false => exact h
          | true =>
            rw [if_pos rfl] at h ⊢
            -- the loop over the children ends with the smaller fuel, so it ends alike
            cases hloop : rmChildren fuel s (s.fs.files i).inode 0 with
            | none =>
              rw [hloop] at h
              cases h
            | some s₁ =>
              rw [hloop] at h
              rw [ihchildren _ _ _ _ hloop]
              exact h
        · rw [if_neg htype] at h ⊢
          exact h
    · rw [rmChildren] at h ⊢
      by_cases hj : j < s.fs.fileCount
      · rw [if_pos hj] at h ⊢
        by_cases hchild : (s.fs.files j).parentInode = dirInode
        · rw [if_pos hchild] at h ⊢
          cases hone : executeRm fuel s (.entry j) true with
          | none =>
            rw [hone] at h
            cases h
          | some s₁ =>
            rw [hone] at h
            rw [ihrm _ _ _ _ hone]
            exact ihchildren _ _ _ _ h
        · rw [if_neg hchild] at h ⊢
          exact ihchildren _ _ _ _ h
      · rw [if_neg hj] at h ⊢
        exact h

theorem settles_executeRm (s : KernelState) (name : NamePtr) (recursive : Bool) :
    Settles fun fuel => executeRm fuel s name recursive :=
  settles_of_succ fun fuel t => (rm_succ fuel).1 s name recursive t

/-- The walk to the root. -/
theorem settles_pathLoop (fs : Bkfs) (inode : Nat) (path : CString) :
    Settles fun fuel => pathLoop fs fuel inode path := by
  refine settles_of_succ fun fuel => ?_
  induction fuel generalizing inode path with
  | zero => exact fun t h => by cases h
  | succ fuel ih =>
    intro t h
    rw [pathLoop] at h ⊢
    by_cases hone : inode = 1
    · rw [if_pos hone] at h ⊢
      exact h
    · rw [if_neg hone] at h ⊢
      cases hscan : firstIndex fs.fileCount fun i => (fs.files i).inode == inode with
      | none =>
        rw [hscan] at h
        exact ih inode path t h
      | some i =>
        rw [hscan] at h
        exact ih _ _ t h

/-- The commands on files; only `rm` has a loop. -/
theorem settles_execShellCmd (s : KernelState) (c : ShellCmd) :
    Settles fun fuel => execShellCmd fuel s c := by
  cases c with
  | rm name recursive => exact settles_executeRm s (.buffer name) recursive
  | touch | mkdir | cd | redirect | append | switchTty | login => exact .const _

theorem settles_executePwd (s : KernelState) : Settles fun fuel => executePwd fuel s :=
  (settles_pathLoop s.fs s.fs.currentInode "/").map _

theorem settles_printPrompt (s : KernelState) : Settles fun fuel => printPrompt fuel s := by
  unfold printPrompt
  exact .ite (fun _ => (settles_pathLoop _ _ "").map _) fun _ => .const _

namespace Live

variable (hw : Hardware) (s : Live)

theorem settles_runFile (c : ShellCmd) : Settles fun fuel => s.runFile fuel c :=
  (settles_execShellCmd s.kernel c).map _

theorem settles_prompted : Settles fun fuel => prompted fuel s := by
  unfold prompted
  split
  · exact (settles_printPrompt s.kernel).map _
  · exact .const _

theorem settles_runNamed (filename : CString) (command : Name → ShellCmd) :
    Settles fun fuel => s.runNamed fuel filename command :=
  (Settles.const (entryName filename)).bind fun name => s.settles_runFile (command name)

/-- The commands that are known by their names. -/
theorem settles_invoke (inv : Invocation) : Settles fun fuel => s.invoke hw fuel inv := by
  cases inv with
  | pwd => exact (settles_executePwd s.kernel).map _
  | cd dirname => exact s.settles_runFile _
  | rm filename recursive => exact s.settles_runFile _
  | touch filename => exact s.settles_runNamed filename .touch
  | mkdir dirname => exact s.settles_runNamed dirname .mkdir
  | _ => exact .const _

/-- One line. -/
theorem settles_execute (cmd : CString) : Settles fun fuel => s.execute hw fuel cmd := by
  unfold execute
  cases parseCommand cmd with
  | other args => exact s.settles_invoke hw _
  | redirectOutput filename text => exact s.settles_runNamed filename _
  | appendOutput filename text => exact s.settles_runNamed filename _
  | empty | echo | cat | catRedirect | catRedirectUsage => exact .const _

theorem settles_finishLogin (username password : CString) :
    SettlesBoth fun fuel fuel' => s.finishLogin fuel fuel' username password := by
  unfold finishLogin
  refine ⟨fun fuel' => .ite (fun _ => ?_) fun _ => .const _, fun fuel => .ite (fun _ => ?_) fun _ => .const _⟩
  · exact (settles_runFile _ .login).bind fun t => .const _
  · exact (Settles.const _).bind fun t => t.settles_prompted

theorem settles_shellKey (history : History) (line : Line) (ch : KeyChar) :
    SettlesBoth fun fuel fuel' => s.shellKey hw fuel fuel' history line ch := by
  unfold shellKey
  dsimp only
  cases (shellChar history line ch).2.2 with
  | some cmd =>
    exact ⟨fun fuel' => (settles_execute hw _ cmd).bind fun t => .const _,
      fun fuel => (Settles.const _).bind fun t => t.settles_prompted⟩
  | none =>
    exact ⟨fun fuel' => .const _, fun fuel => .ite (fun _ => settles_prompted _) fun _ => .const _⟩

/-- One key, with the command and the prompt behind it. -/
theorem settles_press (k : Key) : SettlesBoth fun fuel fuel' => s.press hw fuel fuel' k := by
  have hconst : ∀ {x : Option Live}, SettlesBoth fun _ _ => x := ⟨fun _ => .const _, fun _ => .const _⟩
  unfold press
  dsimp only
  cases s.console.stack with
  | nil => exact hconst
  | cons frame rest =>
    cases k with
    | function ttyNum => cases frame <;> exact hconst
    | char ch =>
      cases frame with
      | halted => exact hconst
      | username username => exact hconst
      | password username password =>
        dsimp only
        by_cases hnl : ch.val = 0x0A
        · simp only [if_pos hnl]
          exact settles_finishLogin _ username password
        · simp only [if_neg hnl]
          exact hconst
      | shell line => exact settles_shellKey hw _ s.console.history line ch
      | wait => exact ⟨fun _ => .const _, fun _ => settles_prompted _⟩

/-- **A key has one answer.** -/
theorem press_unique {hw : Hardware} {s t t' : Live} {k : Key} {fuel₁ fuel₁' fuel₂ fuel₂' : Nat}
    (h : s.press hw fuel₁ fuel₁' k = some t) (h' : s.press hw fuel₂ fuel₂' k = some t') : t = t' :=
  (s.settles_press hw k).unique h h'

/-- So a key has one answer. -/
theorem answers_unique {s t t' : Live} {i : Input} (h : s.Answers i t) (h' : s.Answers i t') : t = t' := by
  obtain ⟨_, _, h⟩ := h
  obtain ⟨_, _, h'⟩ := h'
  exact press_unique h h'

end Live

end Srunix
