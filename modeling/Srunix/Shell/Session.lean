import Srunix.Shell.Removal
import Srunix.Shell.Commands

/-!
# Sessions at the shell

A session is a sequence of file commands, typed on any of the nine terminals
with switches and logins in between. `rm` may not come back, so a session goes
on only past commands that complete.

`ShellInv` is the tree of `Bkfs/Tree.lean` together with the nine places the
terminals stand in. Two commands can break it, both `rm -rf` of a directory:
one that has something in it (`Shell/Removal.lean`), and one that some terminal
stands in (`cursor_lost`). `RmOk` excludes both, and then it holds for good.
-/

namespace Srunix

open Library Relation

/-! ## What the calls leave of the terminal records -/

theorem kernelPanic_prints (s : KernelState) (message : CString) :
    Prints s (kernelPanic s message) :=
  (((((((((Prints.refl s).setcolor _ _).clear).writestring _).writestring _).writestring
    _).writestring _).writestring _).writestring _).writestring _

theorem critical_prints (s : KernelState) (message : CString) :
    Prints s (kernelPanic (s.setcolor colorRed colorBlack) message) :=
  ((Prints.refl s).setcolor _ _).trans (kernelPanic_prints _ _)

theorem fsCreateFile_same (s : KernelState) (name : Name) (parentInode : Nat) (type : UInt8) :
    SameTtys s.term (fsCreateFile s name parentInode type).2.term := by
  rw [fsCreateFile]
  by_cases hvalid : (!isValidFilename name.str) = true
  · rw [if_pos hvalid]
    exact ((Prints.refl s).writestring _).term
  rw [if_neg hvalid]
  by_cases hexists : fileExistsInCurrentDir s.fs name.str = true
  · rw [if_pos hexists]
    exact ((Prints.refl s).writestring _).term
  rw [if_neg hexists]
  by_cases hfull : s.fs.fileCount ≥ maxFiles
  · rw [if_pos hfull]
    exact .refl _
  rw [if_neg hfull]
  cases hinode : fsAllocInode s.fs with
  | mk inodeNum fs =>
    cases inodeNum with
    | none => exact .refl _
    | some n =>
      dsimp only
      -- the panic prints too
      split
      · exact (critical_prints _ _).term
      · exact .refl _

theorem fsDeleteFile_same (s : KernelState) (n : Nat) :
    SameTtys s.term (fsDeleteFile s n).2.term := by
  rw [fsDeleteFile]
  by_cases hbad : BadInode n
  · rw [if_pos hbad]
    exact .refl _
  rw [if_neg hbad]
  dsimp only
  split
  · exact (critical_prints _ _).term
  · exact .refl _

theorem finishRm_same (s : KernelState) (name : NamePtr) (i : Nat) :
    SameTtys s.term (finishRm s name i).term := by
  have hdel := fsDeleteFile_same s (s.fs.files i).inode
  rw [finishRm]
  dsimp only
  split
  · exact hdel.trans ((Prints.refl _).printf _ _).term
  · exact hdel.trans ((Prints.refl _).writestring _).term

/-! ## The tree through a call -/

/-- The files between two commands of the shell: the tables are in order, and the
directories are a tree. -/
structure TreeInv (fs : Bkfs) : Prop where
  wellFormed : WellFormed fs
  entriesInv : EntriesInv fs
  dirTree : DirTree fs

/-- Calls that keep the tree: a new entry goes to a live directory, and what is
deleted has nothing in it. -/
def KeepsTree (fs : Bkfs) : FsCall → Prop
  | .create _ parentInode _ => LiveDir fs parentInode
  | .delete n => ∀ c ∈ liveEntries fs, c.parentInode ≠ n
  | _ => True

section Calls

variable {fs fs' : Bkfs} {c : FsCall} {r : Int}

theorem FsOutcome.currentInode (hout : FsOutcome fs c r fs') (hc : ∀ n, c ≠ .chdir n) :
    fs'.currentInode = fs.currentInode := by
  cases hout with
  | createRefused | writeRefused | deleteRefused | created | written | writeFailed => rfl
  | @read n size buffer _ =>
    obtain ⟨inodes, heq, -⟩ := accessed_eq fs n
    rw [heq]
  | @deleted n _ =>
    obtain ⟨files, count, heq⟩ := removeEntry_frame fs n
    show (removeEntry fs n).currentInode = _
    rw [heq]
  | @chdir n => exact absurd rfl (hc n)

/-- The step lemma of `TreeInv`. -/
theorem TreeInv.step (h : TreeInv fs) (hout : FsOutcome fs c r fs') (hc : KeepsTree fs c) :
    TreeInv fs' := by
  refine ⟨h.wellFormed.step hout, h.entriesInv.step hout, ?_⟩
  cases hout with
  | createRefused | writeRefused | deleteRefused => exact h.dirTree
  | chdir | written | writeFailed => exact h.dirTree.congr rfl rfl
  | @read n size buffer _ =>
    obtain ⟨inodes, heq, -⟩ := accessed_eq fs n
    rw [heq]
    exact h.dirTree.congr rfl rfl
  | @created name parentInode type i _ hi hmode =>
    refine h.dirTree.insert (EntriesInv.entries_created fs i name parentInode type)
      (Nat.succ_ne_zero i) hi ?_ hc
    intro hlive
    exact h.entriesInv.live_iff.mp hlive hmode
  | @deleted n hbad =>
    refine h.dirTree.remove ?_ (h.entriesInv.liveEntries_deleted fun hn => hbad (.inl hn)) hc
    show (entries (removeEntry fs n)).Sublist _
    rw [EntriesInv.entries_removeEntry_eq]
    exact List.eraseP_sublist

/-- A directory stays one until it is deleted. -/
theorem LiveDir.step (h : EntriesInv fs) (hout : FsOutcome fs c r fs') {n : Nat}
    (hn : LiveDir fs n) (hc : c ≠ .delete n) : LiveDir fs' n := by
  obtain ⟨e, he, rfl, htype⟩ := hn
  exact ⟨e, h.mem_liveEntries_step hout he hc, rfl, htype⟩

end Calls

/-! ## Sessions -/

/-- The commands a session is made of. `.append` also carries what the stack
holds where the command reads the old content to. -/
inductive ShellCmd where
  | touch (filename : Name)
  | mkdir (dirname : Name)
  | rm (name : CString) (recursive : Bool)
  | cd (dirname : Option CString)
  | redirect (filename : Name) (text : CString)
  | append (filename : Name) (text : CString) (stack : Nat → UInt8)
  | switchTty (ttyNum : Int)
  | login

/-- What a command does to the kernel. -/
def execShellCmd (fuel : Nat) (s : KernelState) : ShellCmd → Option KernelState
  | .touch filename => some (executeMkfile s filename)
  | .mkdir dirname => some (executeMkdir s dirname)
  | .rm name recursive => executeRm fuel s (.buffer name) recursive
  | .cd dirname => some (executeCd s dirname)
  | .redirect filename text => some (executeRedirectOutput s filename text)
  | .append filename text stack => some (executeAppendOutput s filename text stack)
  | .switchTty ttyNum => some (Srunix.switchTty s ttyNum)
  | .login => some (shellBanner (setLoggedIn (s.writestring "\nWelcome to Srunix86 livecd\n") true))

/-- A session from boot whose commands complete and meet `ok` in the state they
are given in. -/
abbrev ShellRun (ok : KernelState → ShellCmd → Prop) (cmds : List ShellCmd) (s : KernelState) :
    Prop :=
  Steps (fun s c t => ok s c ∧ ∃ fuel, execShellCmd fuel s c = some t) (loginScreen kernelMain)
    cmds s

/-- The entries form a tree, and every terminal stands in a directory of it. -/
structure ShellInv (s : KernelState) : Prop where
  tree : TreeInv s.fs
  currentTty_lt : s.term.currentTty < maxTtys
  cursor : ∀ t < maxTtys, LiveDir s.fs (ttyDir s t)

/-- What `rm -rf` must not be asked: to remove a directory that has something in
it or that a terminal stands in. -/
def RmOk (s : KernelState) : ShellCmd → Prop
  | .rm name true => ∀ i, findInCurrentDir s.fs name = some i → (s.fs.files i).type = fileDir →
      (∀ c ∈ entries s.fs, c.parentInode ≠ (s.fs.files i).inode) ∧
        ∀ t < maxTtys, ttyDir s t ≠ (s.fs.files i).inode
  | _ => True

namespace ShellInv

variable {s s' : KernelState}

theorem current (h : ShellInv s) : LiveDir s.fs s.fs.currentInode := by
  have hcur := h.cursor s.term.currentTty h.currentTty_lt
  rw [ttyDir] at hcur
  rwa [if_pos rfl] at hcur

/-- What prints keeps it. -/
theorem print (h : ShellInv s) (hprint : Prints s s') : ShellInv s' := by
  refine ⟨?_, ?_, ?_⟩
  · rw [hprint.fs]
    exact h.tree
  · rw [hprint.term.currentTty]
    exact h.currentTty_lt
  · intro t ht
    rw [hprint.fs, hprint.ttyDir]
    exact h.cursor t ht

/-- A move to a directory that is there keeps it. -/
theorem chdir (h : ShellInv s) {n : Nat} (hn : LiveDir s.fs n) : ShellInv (setCurrentInode s n) := by
  refine ⟨h.tree.step (r := fsSuccess) (c := .chdir n) .chdir trivial, h.currentTty_lt, ?_⟩
  intro t ht
  show LiveDir s.fs (if t = s.term.currentTty then n else (s.term.ttys t).currentInode)
  by_cases hcur : t = s.term.currentTty
  · rw [if_pos hcur]
    exact hn
  · have hdir := h.cursor t ht
    rw [ttyDir] at hdir
    rw [if_neg hcur] at hdir ⊢
    exact hdir

/-- A call of the file system that keeps the tree and takes no terminal's
directory away. -/
theorem call (h : ShellInv s) {c : FsCall} (hfs : s'.fs = (fsCall s c).2.fs)
    (hterm : SameTtys s.term s'.term) (hc : KeepsTree s.fs c) (hchdir : ∀ n, c ≠ .chdir n)
    (hdel : ∀ t < maxTtys, c ≠ .delete (ttyDir s t)) : ShellInv s' := by
  have hout := fsCall_outcome h.tree.wellFormed c
  rw [← hfs] at hout
  refine ⟨h.tree.step hout hc, ?_, ?_⟩
  · rw [hterm.currentTty]
    exact h.currentTty_lt
  · intro t ht
    have hdir : ttyDir s' t = ttyDir s t := by
      unfold ttyDir
      rw [hterm.currentTty, hterm.currentInode, hout.currentInode hchdir]
    rw [hdir]
    exact (h.cursor t ht).step h.tree.entriesInv hout (hdel t ht)

theorem create (h : ShellInv s) (name : Name) (type : UInt8) :
    ShellInv (fsCreateFile s name s.fs.currentInode type).2 :=
  h.call (c := .create name s.fs.currentInode type) rfl (fsCreateFile_same ..) h.current nofun nofun

theorem writeText (h : ShellInv s) (n : Nat) (text : CString) :
    ShellInv (Srunix.writeText s n text).2 :=
  h.call (c := .write n text.mem (strlen text)) rfl (.refl _) trivial nofun nofun

/-! ### One command -/

theorem mkfile (h : ShellInv s) (filename : Name) : ShellInv (executeMkfile s filename) := by
  rw [executeMkfile]
  split
  · exact h.print ((Prints.refl s).writestring _)
  split
  · exact h.print ((Prints.refl s).writestring _)
  dsimp only
  split
  · exact (h.create filename fileRegular).print ((Prints.refl _).printf _ _)
  · exact (h.create filename fileRegular).print ((Prints.refl _).writestring _)

theorem mkdir (h : ShellInv s) (dirname : Name) : ShellInv (executeMkdir s dirname) := by
  rw [executeMkdir]
  split
  · exact h.print ((Prints.refl s).writestring _)
  split
  · exact h.print ((Prints.refl s).writestring _)
  dsimp only
  split
  · exact (h.create dirname fileDir).print ((Prints.refl _).printf _ _)
  · exact (h.create dirname fileDir).print ((Prints.refl _).writestring _)

/-- The directory of a live directory is one, and so is what `cd` finds. -/
theorem cd (h : ShellInv s) (dirname : Option CString) : ShellInv (executeCd s dirname) := by
  have hroot : LiveDir s.fs 1 := by
    obtain ⟨e, he, -, hparent⟩ := h.tree.dirTree.root
    rw [← hparent]
    exact h.tree.dirTree.parentDir e he
  obtain ⟨e, he, hinode, -⟩ := h.current
  have hne : s.fs.currentInode ≠ 0 := by
    rw [← hinode]
    exact (mem_liveEntries.mp he).2
  unfold executeCd
  cases dirname with
  | none => exact h.chdir hroot
  | some dirname =>
    dsimp only
    split
    · exact h.chdir hroot
    split
    · -- `..`: the current directory is live, and its parent a live directory
      cases hscan : firstIndex s.fs.fileCount fun i => (s.fs.files i).inode == s.fs.currentInode with
      | none => exact h.print ((Prints.refl s).writestring _)
      | some i =>
        obtain ⟨hi, hp, -⟩ := firstIndex_eq_some_iff.mp hscan
        have hp : (s.fs.files i).inode = s.fs.currentInode := by simpa using hp
        have hlive : s.fs.files i ∈ liveEntries s.fs := by
          refine mem_liveEntries.mpr ⟨files_mem_entries hi, ?_⟩
          rw [hp]
          exact hne
        exact h.chdir (h.tree.dirTree.parentDir _ hlive)
    · cases hscan : firstIndex s.fs.fileCount fun i =>
          (s.fs.files i).parentInode == s.fs.currentInode && strcmp (s.fs.files i).name dirname == 0
            && (s.fs.files i).type == fileDir with
      | none => exact h.print ((((Prints.refl s).writestring _).writestring _).writestring _)
      | some i =>
        obtain ⟨hi, hp, -⟩ := firstIndex_eq_some_iff.mp hscan
        have htype : (s.fs.files i).type = fileDir := by
          simp only [Bool.and_eq_true, beq_iff_eq] at hp
          exact hp.2
        exact h.chdir ⟨_, h.tree.dirTree.live_of_dir (files_mem_entries hi) htype, rfl, htype⟩

theorem createWithText (h : ShellInv s) (filename : Name) (text : CString) :
    ShellInv (Srunix.createWithText s filename text) := by
  have hcreate := h.create filename fileRegular
  rw [Srunix.createWithText]
  dsimp only
  split
  · split
    · exact (hcreate.writeText _ text).print ((Prints.refl _).writestring _)
    · exact (hcreate.writeText _ text).print ((Prints.refl _).writestring _)
  · exact hcreate.print ((Prints.refl _).writestring _)

theorem redirect (h : ShellInv s) (filename : Name) (text : CString) :
    ShellInv (executeRedirectOutput s filename text) := by
  rw [executeRedirectOutput]
  cases findRegular s.fs filename.str with
  | none => exact h.createWithText filename text
  | some i =>
    have hwrite := h.writeText (s.fs.files i).inode text
    dsimp only
    split
    · exact hwrite
    · exact hwrite.print ((Prints.refl _).writestring _)

theorem append (h : ShellInv s) (filename : Name) (text : CString) (stack : Nat → UInt8) :
    ShellInv (executeAppendOutput s filename text stack) := by
  rw [executeAppendOutput]
  cases findRegular s.fs filename.str with
  | none => exact h.createWithText filename text
  | some i =>
    have hread : ShellInv (fsCall s (.read (s.fs.files i).inode stack (maxFileSize - 1))).2 :=
      h.call rfl (.refl _) trivial nofun nofun
    dsimp only
    split
    · exact hread.writeText _ _
    · exact (hread.writeText _ _).print ((Prints.refl _).writestring _)

/-- The last step of `rm`, on an entry that nothing is in and no terminal stands
in. -/
theorem finishRm (h : ShellInv s) (name : NamePtr) {i : Nat}
    (hleaf : ∀ c ∈ liveEntries s.fs, c.parentInode ≠ (s.fs.files i).inode)
    (hdirs : ∀ t < maxTtys, ttyDir s t ≠ (s.fs.files i).inode) :
    ShellInv (Srunix.finishRm s name i) := by
  refine h.call (c := .delete (s.fs.files i).inode) (finishRm_fs s name i) (finishRm_same s name i)
    hleaf nofun ?_
  intro t ht heq
  exact hdirs t ht (FsCall.delete.inj heq).symm

/-- `rm` keeps it where no terminal is left behind. -/
theorem rm (h : ShellInv s) {name : CString} {recursive : Bool} (hok : RmOk s (.rm name recursive))
    {fuel : Nat} (hrun : executeRm fuel s (.buffer name) recursive = some s') : ShellInv s' := by
  cases rmRun_of_executeRm hrun with
  | missing => exact h.print ((Prints.refl s).printf _ _)
  | refused => exact h.print ((Prints.refl s).writestring _)
  | dir hfind htype hchildren =>
    obtain ⟨hempty, hdirs⟩ := hok _ hfind htype
    cases hchildren.idle fun k hk => hempty _ (files_mem_entries hk)
    exact h.finishRm _ (fun c hc => hempty c (mem_liveEntries.mp hc).1) hdirs
  | @regular _ _ _ i hfind htype =>
    -- a file: nothing is in it, and no terminal either
    obtain ⟨hi, ⟨hparent, -⟩, -⟩ := findInCurrentDir_eq_some_iff.mp hfind
    have hlive : s.fs.files i ∈ liveEntries s.fs := by
      obtain ⟨e, he, hinode, -⟩ := h.current
      refine h.tree.dirTree.live_of_parent (files_mem_entries hi) ?_
      rw [hparent, ← hinode]
      exact (mem_liveEntries.mp he).2
    refine h.finishRm _ (h.tree.dirTree.leaf_of_regular hlive htype) ?_
    intro t ht heq
    have hdir := h.cursor t ht
    rw [heq] at hdir
    exact htype ((h.tree.dirTree.liveDir_iff hlive).mp hdir)

theorem fs_enterTty (h : ShellInv s) (n : Nat) : TreeInv (Srunix.enterTty s n).fs :=
  h.tree.step (r := fsSuccess) (c := .chdir _) .chdir trivial

theorem enterTty (h : ShellInv s) {n : Nat} (hn : n < maxTtys) : ShellInv (Srunix.enterTty s n) := by
  refine ⟨h.fs_enterTty n, hn, fun t ht => ?_⟩
  rw [ttyDir_enterTty]
  exact h.cursor t ht

/-- The directory of the other terminal is there. -/
theorem switchTty (h : ShellInv s) (n : Int) : ShellInv (Srunix.switchTty s n) := by
  rcases switchTty_cases s n with heq | ⟨k, hk, heq | heq⟩
  · rw [heq]
    exact h
  · rw [heq]
    exact h.enterTty hk
  · rw [heq]
    exact (h.enterTty hk).print (loginScreen_prints _)

theorem login (h : ShellInv s) : ShellInv (setLoggedIn s true) := by
  have hslot : ∀ t, ttyDir (setLoggedIn s true) t = ttyDir s t := by
    intro t
    unfold ttyDir
    by_cases ht : t = s.term.currentTty
    · rw [if_pos ht]
      exact if_pos ht
    · rw [if_neg ht]
      show (if t = s.term.currentTty then s.fs.currentInode
        else (Function.update s.term.ttys s.term.currentTty _ t).currentInode) = _
      rw [if_neg ht, Function.update_of_ne ht]
  refine ⟨h.tree, h.currentTty_lt, ?_⟩
  intro t ht
  rw [hslot]
  exact h.cursor t ht

/-- **One command.** -/
theorem step (h : ShellInv s) {c : ShellCmd} (hok : RmOk s c) {fuel : Nat}
    (hrun : execShellCmd fuel s c = some s') : ShellInv s' := by
  cases c with
  | touch filename =>
    cases hrun
    exact h.mkfile filename
  | mkdir dirname =>
    cases hrun
    exact h.mkdir dirname
  | rm name recursive => exact h.rm hok hrun
  | cd dirname =>
    cases hrun
    exact h.cd dirname
  | redirect filename text =>
    cases hrun
    exact h.redirect filename text
  | append filename text stack =>
    cases hrun
    exact h.append filename text stack
  | switchTty ttyNum =>
    cases hrun
    exact h.switchTty ttyNum
  | login =>
    cases hrun
    exact (h.print ((Prints.refl s).writestring _)).login.print (shellBanner_prints _)

end ShellInv

theorem shellInv_kernelMain : ShellInv kernelMain := by
  have hterm : kernelMain.term.currentTty < maxTtys ∧
      ∀ t < maxTtys, LiveDir kernelMain.fs (ttyDir kernelMain t) := by
    decide +kernel
  exact ⟨⟨wellFormed_kernelMain, entriesInv_kernelMain, dirTree_kernelMain⟩, hterm.1, hterm.2⟩

/-- The run lemma of `ShellInv`. -/
theorem shellInv_of_run {cmds : List ShellCmd} {s : KernelState} (h : ShellRun RmOk cmds s) :
    ShellInv s :=
  h.invariant (shellInv_kernelMain.print (loginScreen_prints _)) fun hinv ⟨hok, _, hrun⟩ =>
    hinv.step hok hrun

/-! ## Walking up ends -/

/-- The walk ends, since every step is one up the tree. -/
theorem pathLoop_of_descends {fs : Bkfs} (h : DirTree fs) {n : Nat} (hn : Descends fs n 1)
    (path : CString) : ∃ fuel, (pathLoop fs fuel n path).isSome := by
  induction hn using ReflTransGen.head_induction_on generalizing path with
  | refl => exact ⟨1, rfl⟩
  | @head a b hab _ ih =>
    by_cases hone : a = 1
    · exact ⟨1, by rw [pathLoop, if_pos hone]; rfl⟩
    obtain ⟨e, he, rfl, rfl⟩ := hab
    obtain ⟨i, hscan, hfound⟩ := firstIndex_inode h.nodup he
    obtain ⟨fuel, hfuel⟩ := ih (CString.ofString "/" ++ e.name ++ path)
    refine ⟨fuel + 1, ?_⟩
    rw [pathLoop, if_neg hone, hscan]
    show (pathLoop fs fuel (fs.files i).parentInode
      (CString.ofString "/" ++ (fs.files i).name ++ path)).isSome
    rw [hfound]
    exact hfuel

/-- From an inode that has no entry the loop goes nowhere. -/
theorem pathLoop_stuck {fs : Bkfs} {n : Nat} (hn : n ≠ 1) (hnone : ∀ e ∈ entries fs, e.inode ≠ n)
    (fuel : Nat) (path : CString) : pathLoop fs fuel n path = none := by
  have hscan : (firstIndex fs.fileCount fun i => (fs.files i).inode == n) = none := by
    refine firstIndex_eq_none_iff.mpr fun i hi => ?_
    simpa using hnone _ (files_mem_entries hi)
  induction fuel with
  | zero => rfl
  | succ fuel ih =>
    rw [pathLoop, if_neg hn, hscan]
    exact ih

/-- So it ends from the working directory. -/
theorem ShellInv.pathLoop {s : KernelState} (h : ShellInv s) (path : CString) :
    ∃ fuel, (Srunix.pathLoop s.fs fuel s.fs.currentInode path).isSome := by
  obtain ⟨e, he, hinode, -⟩ := h.current
  rw [← hinode]
  exact pathLoop_of_descends h.tree.dirTree (h.tree.dirTree.rooted e he) path

theorem ShellInv.executePwd {s : KernelState} (h : ShellInv s) :
    ∃ fuel, (Srunix.executePwd fuel s).isSome := by
  obtain ⟨fuel, hfuel⟩ := h.pathLoop "/"
  refine ⟨fuel, ?_⟩
  rw [Srunix.executePwd]
  rwa [Option.isSome_map]

theorem ShellInv.printPrompt {s : KernelState} (h : ShellInv s) :
    ∃ fuel, (Srunix.printPrompt fuel s).isSome := by
  obtain ⟨fuel, hfuel⟩ := h.pathLoop ""
  refine ⟨fuel, ?_⟩
  unfold Srunix.printPrompt
  dsimp only
  split
  · rw [Option.isSome_map]
    exact hfuel
  · rfl

/-- **The directory tree through a session.** Every file is in a live directory
and below `/`, every terminal stands in a live directory, and `pwd` and the
prompt come back. -/
theorem directoryTree_of_run {cmds : List ShellCmd} {s : KernelState} (h : ShellRun RmOk cmds s) :
    (∀ e ∈ entries s.fs, e ≠ .blank →
        LiveDir s.fs e.parentInode ∧ Descends s.fs e.inode 1) ∧
      (∀ t < maxTtys, LiveDir s.fs (ttyDir s t)) ∧
      (∃ fuel, (executePwd fuel s).isSome) ∧ (∃ fuel, (printPrompt fuel s).isSome) := by
  have hinv := shellInv_of_run h
  refine ⟨?_, hinv.cursor, hinv.executePwd, hinv.printPrompt⟩
  intro e he hblank
  have hlive : e ∈ liveEntries s.fs :=
    mem_liveEntries.mpr ⟨he, fun hzero => hblank (hinv.tree.dirTree.blank e he hzero)⟩
  exact ⟨hinv.tree.dirTree.parentDir e hlive, hinv.tree.dirTree.rooted e hlive⟩

/-- `mkdir d; rm -rf d` with nobody in `d`. -/
theorem directoryTree_of_run_rm : ∃ s, ShellRun RmOk [.mkdir "d", .rm "d" true] s ∧
    (∀ t < maxTtys, LiveDir s.fs (ttyDir s t)) ∧ (∃ fuel, (executePwd fuel s).isSome) := by
  let s₁ := executeMkdir (loginScreen kernelMain) "d"
  have hmade : findInCurrentDir s₁.fs "d" = some 26 ∧
      ((∀ c ∈ entries s₁.fs, c.parentInode ≠ (s₁.fs.files 26).inode) ∧
        ∀ t < maxTtys, ttyDir s₁ t ≠ (s₁.fs.files 26).inode) ∧
      (execShellCmd 40 s₁ (.rm "d" true)).isSome := by
    decide +kernel
  obtain ⟨hfind, hfree, hsome⟩ := hmade
  have hok : RmOk s₁ (.rm "d" true) := by
    intro i hi _
    cases hfind.symm.trans hi
    exact hfree
  obtain ⟨s, hs⟩ := Option.isSome_iff_exists.mp hsome
  have hrun : ShellRun RmOk [.mkdir "d", .rm "d" true] s :=
    .cons ⟨trivial, 0, rfl⟩ (.single ⟨hok, 40, hs⟩)
  exact ⟨s, hrun, (directoryTree_of_run hrun).2.1, (directoryTree_of_run hrun).2.2.1⟩

/-! ## Losing the directory one stands in -/

/-- **`rm -rf` of an empty directory another terminal stands in** comes back,
and leaves that terminal in a directory that is none. -/
theorem cursor_lost {s : KernelState} (h : ShellInv s) {name : CString} {i t : Nat}
    (hfind : findInCurrentDir s.fs name = some i)
    (hempty : ∀ c ∈ entries s.fs, c.parentInode ≠ (s.fs.files i).inode)
    (ht : ttyDir s t = (s.fs.files i).inode) (hne : (s.fs.files i).inode ≠ 0) :
    ∃ fuel s', execShellCmd fuel s (.rm name true) = some s' ∧ ¬ LiveDir s'.fs (ttyDir s' t) := by
  -- an empty directory, so the loop over the children ends at once
  have hchildless : ∀ j < s.fs.fileCount, (s.fs.files j).parentInode ≠ (s.fs.files i).inode :=
    fun j hj => hempty _ (files_mem_entries hj)
  obtain ⟨hi, -, -⟩ := findInCurrentDir_eq_some_iff.mp hfind
  have hlive : s.fs.files i ∈ liveEntries s.fs := mem_liveEntries.mpr ⟨files_mem_entries hi, hne⟩
  have hdel : Erased s.fs (finishRm s (.buffer name) i).fs (s.fs.files i).inode := by
    rw [finishRm_fs]
    exact (fsDeleteFile_erased (h.tree.dirTree.not_bad hlive)).2
  have hdir : ttyDir (finishRm s (.buffer name) i) t = (s.fs.files i).inode := by
    rw [← ht]
    unfold ttyDir
    rw [(finishRm_same s _ i).currentTty, (finishRm_same s _ i).currentInode, hdel.currentInode]
  have hrun : execShellCmd (s.fs.fileCount + 2) s (.rm name true)
      = some (finishRm s (.buffer name) i) :=
    executeRm_childless hfind hchildless
  refine ⟨_, _, hrun, ?_⟩
  rw [hdir]
  -- no entry with that number is left
  rintro ⟨e, he, hinode, -⟩
  have hmem := (mem_liveEntries.mp he).1
  rw [h.tree.dirTree.entries_erased hlive hdel, List.mem_filter] at hmem
  simp [hinode] at hmem

/-- Giving commands one after the other, each with the same fuel. -/
def execAll (fuel : Nat) (s : KernelState) (cmds : List ShellCmd) : Option KernelState :=
  cmds.foldlM (execShellCmd fuel) s

theorem steps_execAll {fuel : Nat} {cmds : List ShellCmd} {s₀ s : KernelState}
    (h : execAll fuel s₀ cmds = some s) :
    Steps (fun s c t => True ∧ ∃ fuel, execShellCmd fuel s c = some t) s₀ cmds s := by
  induction cmds generalizing s₀ with
  | nil =>
    cases h
    exact .nil _
  | cons c cmds ih =>
    obtain ⟨s₁, hone, hrest⟩ := Option.bind_eq_some_iff.mp h
    exact .cons ⟨trivial, fuel, hone⟩ (ih hrest)

/-- `mkdir d; cd d` on the first terminal, `rm -rf d` on the second: the first
one stands nowhere, and `pwd` there never comes back. -/
theorem not_cursor_of_rm_elsewhere :
    ∃ s, ShellRun (fun _ _ => True)
        [.login, .mkdir "d", .cd (some "d"), .switchTty 1, .login, .rm "d" true] s ∧
      ¬ LiveDir s.fs (ttyDir s 0) ∧ ∀ fuel, executePwd fuel (switchTty s 0) = none := by
  have hend : ∃ s ∈ execAll 40 (loginScreen kernelMain)
        [.login, .mkdir "d", .cd (some "d"), .switchTty 1, .login, .rm "d" true],
      ¬ LiveDir s.fs (ttyDir s 0) ∧ (switchTty s 0).fs.currentInode ≠ 1 ∧
        ∀ e ∈ entries (switchTty s 0).fs, e.inode ≠ (switchTty s 0).fs.currentInode := by
    decide +kernel
  obtain ⟨s, hs, hdead, hne, hnone⟩ := hend
  refine ⟨s, steps_execAll hs, hdead, fun fuel => ?_⟩
  rw [executePwd]
  rw [pathLoop_stuck hne hnone]
  rfl

end Srunix
