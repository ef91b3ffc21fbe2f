import Srunix.Shell.Path

/-!
# How deep directories may lie

`mkdir` bounds no path and `cd` follows every one, but the arrays of `pwd` and
of the prompt have `MAX_PATH_LEN` bytes. In a history of `mkdir` and `cd` the
names of each directory stay unique, so a `cd` by name goes where it should;
`pathsFit_always_iff` says which of these histories never write past the arrays.
-/

namespace Srunix

open Library

/-- The two commands that lead deeper. -/
inductive DirCmd where
  | mkdir (dirname : Name)
  | cd (dirname : Option CString)

/-- What such a command does. -/
def execDirCmd (s : KernelState) : DirCmd → KernelState
  | .mkdir dirname => executeMkdir s dirname
  | .cd dirname => executeCd s dirname

/-- The state after the commands, from boot. -/
def afterDirCmds (cmds : List DirCmd) : KernelState :=
  cmds.foldl execDirCmd (loginScreen kernelMain)

theorem afterDirCmds_snoc (cmds : List DirCmd) (c : DirCmd) :
    afterDirCmds (cmds ++ [c]) = execDirCmd (afterDirCmds cmds) c :=
  List.foldl_concat ..

/-! ## The tree through `mkdir` and `cd` -/

/-- `mkdir` makes the entry or leaves the files. -/
theorem executeMkdir_fs (s : KernelState) (dirname : Name) :
    (executeMkdir s dirname).fs = s.fs ∨ ∃ i, ¬ CreateRefused s.fs dirname ∧
      (executeMkdir s dirname).fs = created s.fs i dirname s.fs.currentInode fileDir := by
  have hcreate : (executeMkdir s dirname).fs = s.fs ∨ (executeMkdir s dirname).fs
      = (fsCreateFile s dirname s.fs.currentInode fileDir).2.fs := by
    rw [executeMkdir]
    split
    · exact .inl rfl
    split
    · exact .inl rfl
    dsimp only
    split
    · exact .inr rfl
    · exact .inr rfl
  rcases hcreate with hsame | hcalled
  · exact .inl hsame
  rw [hcalled]
  rcases fsCreateFile_cases s dirname s.fs.currentInode fileDir with
    ⟨-, -, hfs⟩ | ⟨href, i, -, -, -, hfs⟩
  · exact .inl hfs
  · exact .inr ⟨i, href, hfs⟩

/-- The tree of a session, with unique names. -/
structure DirInv (s : KernelState) : Prop where
  shell : ShellInv s
  distinct : DistinctNames s.fs

namespace DirInv

variable {s : KernelState}

theorem namedTree (h : DirInv s) : NamedTree s.fs :=
  ⟨h.shell.tree.dirTree.walkable, h.shell.tree.dirTree.rooted, h.distinct⟩

/-- **One command.** -/
theorem step (h : DirInv s) (c : DirCmd) : DirInv (execDirCmd s c) := by
  cases c with
  | mkdir dirname =>
    refine ⟨h.shell.mkdir dirname, ?_⟩
    show DistinctNames (executeMkdir s dirname).fs
    rcases executeMkdir_fs s dirname with hsame | ⟨i, href, hfs⟩
    · rw [hsame]
      exact h.distinct
    · rw [hfs]
      exact h.distinct.created (not_createRefused_iff.mp href).2.1 i fileDir
  | cd dirname =>
    refine ⟨h.shell.cd dirname, ?_⟩
    show DistinctNames (executeCd s dirname).fs
    rcases executeCd_cases s dirname with ⟨n, -, heq⟩ | ⟨-, hprint⟩
    · rw [heq]
      exact h.distinct
    · rw [hprint.fs]
      exact h.distinct

end DirInv

/-- The run lemma of `DirInv`. -/
theorem dirInv_after (cmds : List DirCmd) : DirInv (afterDirCmds cmds) := by
  induction cmds using List.reverseRecOn with
  | nil => exact ⟨shellInv_kernelMain.print (loginScreen_prints _), distinctNames_kernelMain⟩
  | append_singleton cmds c ih =>
    rw [afterDirCmds_snoc]
    exact ih.step c

/-! ## How long the names are -/

/-- A `cd` by name, to a directory the names on the way to which are not too
long: each takes its own bytes and one for the slash. -/
def ShallowCd (s : KernelState) : DirCmd → Prop
  | .cd (some name) => ∀ names n, PathTo s.fs names s.fs.currentInode →
      Subdir (liveEntries s.fs) s.fs.currentInode name n →
      nameBytes names + (strlen name + 1) + 2 ≤ maxPathLen
  | .cd none | .mkdir _ => True

/-- **One command from a directory whose path fits.** -/
theorem DirInv.path_step {s : KernelState} (h : DirInv s) {names : List CString}
    (hpath : PathTo s.fs names s.fs.currentInode) (hfit : nameBytes names + 2 ≤ maxPathLen)
    {c : DirCmd} (hc : ShallowCd s c) :
    ∃ names', PathTo (execDirCmd s c).fs names' (execDirCmd s c).fs.currentInode ∧
      nameBytes names' + 2 ≤ maxPathLen := by
  cases c with
  | mkdir dirname =>
    -- nobody moves, and the entries stay
    rw [execDirCmd]
    rcases executeMkdir_fs s dirname with hsame | ⟨i, -, hfs⟩
    · rw [hsame]
      exact ⟨names, hpath, hfit⟩
    · rw [hfs]
      refine ⟨names, hpath.mono ?_, hfit⟩
      rw [EntriesInv.liveEntries_created]
      exact List.subset_append_left _ _
  | cd dirname =>
    rw [execDirCmd]
    rcases executeCd_cases s dirname with ⟨n, htarget, heq⟩ | ⟨-, hprint⟩
    · rw [heq]
      rcases h.namedTree.cdTarget_cases hpath htarget with
        rfl | ⟨front, last, rfl, hfront⟩ | ⟨name, rfl, hsub⟩
      · exact ⟨[], .nil 1, by decide⟩
      · rw [nameBytes_snoc] at hfit
        exact ⟨front, hfront, by omega⟩
      · have hlen := hc names n hpath hsub
        rw [← nameBytes_snoc] at hlen
        exact ⟨names ++ [name], hpath.snoc hsub, hlen⟩
    · rw [hprint.fs]
      exact ⟨names, hpath, hfit⟩

/-- **Which histories of `mkdir` and `cd` keep `pwd` and the prompt in their
arrays**, in every state on the way. -/
theorem pathsFit_always_iff (cmds : List DirCmd) :
    (∀ done, done <+: cmds → PathsFit (afterDirCmds done)) ↔
      ∀ done c, done ++ [c] <+: cmds → ShallowCd (afterDirCmds done) c := by
  constructor
  -- the path is read off after the `cd`, where it has to fit
  · intro hfit done c hprefix
    cases c with
    | mkdir dirname => trivial
    | cd dirname =>
      cases dirname with
      | none => trivial
      | some name =>
        intro names n hpath hsub
        have htree := (dirInv_after done).namedTree
        have htarget := htree.cdTarget_of_subdir hpath.current_ne_zero hsub
        have hafter : afterDirCmds (done ++ [.cd (some name)])
            = setCurrentInode (afterDirCmds done) n := by
          rw [afterDirCmds_snoc]
          exact executeCd_of_target htarget
        have hlong : PathTo (setCurrentInode (afterDirCmds done) n).fs (names ++ [name])
            (setCurrentInode (afterDirCmds done) n).fs.currentInode := hpath.snoc hsub
        have hthere := hfit _ hprefix
        rw [hafter, pathsFit_iff (htree.toWalkable.chdir n) hlong, nameBytes_snoc] at hthere
        exact hthere
  · intro hshallow
    -- conversely the way down stays known and short, by induction on the commands done
    have hpath : ∀ done, done <+: cmds →
        ∃ names, PathTo (afterDirCmds done).fs names (afterDirCmds done).fs.currentInode ∧
          nameBytes names + 2 ≤ maxPathLen := by
      intro done
      induction done using List.reverseRecOn with
      | nil => exact fun _ => ⟨[], .nil 1, by decide⟩
      | append_singleton done c ih =>
        intro hprefix
        obtain ⟨names, hnames, hfit⟩ := ih ((List.prefix_append done [c]).trans hprefix)
        rw [afterDirCmds_snoc]
        exact (dirInv_after done).path_step hnames hfit (hshallow done c hprefix)
    intro done hprefix
    obtain ⟨names, hnames, hfit⟩ := hpath done hprefix
    exact (pathsFit_iff (dirInv_after done).namedTree.toWalkable hnames).mpr hfit

/-- Thirty bytes. -/
def deepName : Name := "abcdefghijklmnopqrstuvwxyz0123"

/-- `mkdir name; cd name` so many times. -/
def mkdirCd (name : Name) : Nat → List DirCmd
  | 0 => []
  | n + 1 => .mkdir name :: .cd (some name.str) :: mkdirCd name n

/-- **Nine directories of thirty bytes, one in the other**, have a path of 280. -/
theorem not_pathsFit_deep : ¬ ∀ cmds, PathsFit (afterDirCmds cmds) := by
  intro hfit
  have hdeep : ∃ b ∈ pathWalk (afterDirCmds (mkdirCd deepName 9)).fs 10
      (afterDirCmds (mkdirCd deepName 9)).fs.currentInode pwdArrays, maxPathLen < b.path.reach := by
    decide +kernel
  have hthere := hfit (mkdirCd deepName 9)
  generalize afterDirCmds (mkdirCd deepName 9) = s at hdeep hthere
  obtain ⟨b, hwalk, hlong⟩ := hdeep
  obtain ⟨fuel, b', hwalk', hle, -⟩ := hthere pwdArrays (.inl rfl)
  obtain rfl := pathWalk_unique hwalk hwalk'
  exact absurd hle (Nat.not_le.mpr hlong)

end Srunix
