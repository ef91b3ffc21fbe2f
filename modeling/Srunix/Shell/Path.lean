import Srunix.Bkfs.Clash
import Srunix.Shell.Redirect
import Srunix.Shell.Session

/-!
# Paths (`bin/pwd.h`, `bin/cd.h`, `print_prompt`)

`cd` walks down by name, `pwd` and the prompt walk up by inode number. What the
two have in common is the list of names from `/` to a directory: `PathTo` says
that `cd`, given these names one after the other, gets there.

`pwd` and the prompt work in two arrays of `MAX_PATH_LEN` bytes, `path` and
`temp`. `pathWalk` is `pathLoop` with these arrays, which may be as long as it
takes here; a walk is one of the source's as long as neither is stored into
beyond `MAX_PATH_LEN`.
-/

namespace Srunix

open Library

/-! ## What `cd` finds -/

/-- Where `execute_cd` goes, if it finds a directory. -/
def cdTarget (fs : Bkfs) : Option CString → Option Nat
  | none => some 1
  | some dirname =>
    if strlen dirname = 0 then some 1
    else if strcmp dirname ".." = 0 then
      (firstIndex fs.fileCount fun i => (fs.files i).inode == fs.currentInode).map fun i =>
        (fs.files i).parentInode
    else
      (firstIndex fs.fileCount fun i =>
        (fs.files i).parentInode == fs.currentInode && strcmp (fs.files i).name dirname == 0
          && (fs.files i).type == fileDir).map fun i => (fs.files i).inode

/-- `cd` goes somewhere or prints. -/
theorem executeCd_cases (s : KernelState) (dirname : Option CString) :
    (∃ n, cdTarget s.fs dirname = some n ∧ executeCd s dirname = setCurrentInode s n) ∨
      (cdTarget s.fs dirname = none ∧ Prints s (executeCd s dirname)) := by
  cases dirname with
  -- no name and the empty name lead to the root
  | none => exact .inl ⟨1, rfl, rfl⟩
  | some dirname =>
    rw [executeCd, cdTarget]
    by_cases hempty : strlen dirname = 0
    · rw [if_pos hempty, if_pos hempty]
      exact .inl ⟨1, rfl, rfl⟩
    rw [if_neg hempty, if_neg hempty]
    by_cases hup : strcmp dirname ".." = 0
    · rw [if_pos hup, if_pos hup]
      cases firstIndex s.fs.fileCount fun i => (s.fs.files i).inode == s.fs.currentInode with
      | some i => exact .inl ⟨_, rfl, rfl⟩
      | none => exact .inr ⟨rfl, (Prints.refl s).writestring _⟩
    · rw [if_neg hup, if_neg hup]
      cases firstIndex s.fs.fileCount fun i =>
          (s.fs.files i).parentInode == s.fs.currentInode && strcmp (s.fs.files i).name dirname == 0
            && (s.fs.files i).type == fileDir with
      | some i => exact .inl ⟨_, rfl, rfl⟩
      | none => exact .inr ⟨rfl, (((Prints.refl s).writestring _).writestring _).writestring _⟩

theorem executeCd_of_target {s : KernelState} {dirname : Option CString} {n : Nat}
    (h : cdTarget s.fs dirname = some n) : executeCd s dirname = setCurrentInode s n := by
  rcases executeCd_cases s dirname with ⟨m, hm, heq⟩ | ⟨hnone, -⟩
  · obtain rfl : m = n := Option.some.inj (hm.symm.trans h)
    exact heq
  · rw [hnone] at h
    cases h

/-! ## Names from the root -/

/-- Among the entries, `n` is the directory `name` of the directory `p`. The two names
`cd` takes for something else, and the root, which is in itself, do not count. -/
structure Subdir (l : List File) (p : Nat) (name : CString) (n : Nat) : Prop where
  nonempty : strlen name ≠ 0
  notParent : name ≠ ".."
  entry : ∃ e ∈ l, e.parentInode = p ∧ e.name = name ∧ e.type = fileDir ∧ e.inode = n
  notRoot : n ≠ 1

/-- The names from `/` to the directory `n`. -/
abbrev PathTo (fs : Bkfs) (names : List CString) (n : Nat) : Prop :=
  Steps (Subdir (liveEntries fs)) 1 names n

/-- What walking up and down needs of the entries that are not blank: each has
an inode number of its own, and the root is its own parent. -/
structure Walkable (fs : Bkfs) : Prop where
  blank : ∀ e ∈ entries fs, e.inode = 0 → e = .blank
  nodup : ((liveEntries fs).map File.inode).Nodup
  root : ParentOf fs 1 1

/-- The entries that are not blank form a tree under inode 1, and no directory
has two of the same name. -/
structure NamedTree (fs : Bkfs) : Prop extends Walkable fs where
  rooted : ∀ e ∈ liveEntries fs, Descends fs e.inode 1
  distinct : DistinctNames fs

/-- In a tree every directory is one step below another. -/
theorem DirTree.walkable {fs : Bkfs} (h : DirTree fs) : Walkable fs := ⟨h.blank, h.nodup, h.root⟩

/-- New entries are in nobody's way. -/
theorem PathTo.mono {fs fs' : Bkfs} (hkeep : liveEntries fs ⊆ liveEntries fs')
    {names : List CString} {n : Nat} (h : PathTo fs names n) : PathTo fs' names n := by
  refine Steps.mono h fun hsub => ?_
  obtain ⟨e, he, hrest⟩ := hsub.entry
  exact ⟨hsub.nonempty, hsub.notParent, ⟨e, hkeep he, hrest⟩, hsub.notRoot⟩

theorem Walkable.chdir {fs : Bkfs} (h : Walkable fs) (n : Nat) :
    Walkable { fs with currentInode := n } := ⟨h.blank, h.nodup, h.root⟩

theorem NamedTree.chdir {fs : Bkfs} (h : NamedTree fs) (n : Nat) :
    NamedTree { fs with currentInode := n } := ⟨h.toWalkable.chdir n, h.rooted, h.distinct⟩

/-- Only one way leads down to a directory, since no two entries have one inode number. -/
theorem PathTo.unique {fs : Bkfs} (hnodup : ((liveEntries fs).map File.inode).Nodup)
    {names names' : List CString} {n : Nat} (h : PathTo fs names n) (h' : PathTo fs names' n) :
    names = names' := by
  induction names using List.reverseRecOn generalizing names' n with
  | nil =>
    rcases h.snoc_cases with ⟨-, rfl⟩ | ⟨_, _, _, heq, -, -⟩
    · rcases h'.snoc_cases with ⟨rfl, -⟩ | ⟨_, _, _, -, -, hsub'⟩
      · rfl
      · exact absurd rfl hsub'.notRoot
    · simp at heq
  | append_singleton front name ih =>
    rcases h.snoc_cases with ⟨heq, -⟩ | ⟨front₁, last, p, heq, hfront, hsub⟩
    · simp at heq
    obtain ⟨rfl, hlast⟩ := List.append_inj' heq rfl
    obtain rfl : name = last := List.singleton_inj.mp hlast
    rcases h'.snoc_cases with ⟨-, hroot⟩ | ⟨front', last', p', rfl, hfront', hsub'⟩
    · exact absurd hroot hsub.notRoot
    -- the two last steps find the same entry, so they start from the same directory
    obtain ⟨e, he, rfl, rfl, -, hinode⟩ := hsub.entry
    obtain ⟨e', he', rfl, rfl, -, hinode'⟩ := hsub'.entry
    obtain rfl : e = e' := List.inj_on_of_nodup_map hnodup he he' (hinode.trans hinode'.symm)
    rw [ih hfront hfront']

theorem PathTo.current_ne_zero {fs : Bkfs} {names : List CString} {n : Nat}
    (h : PathTo fs names n) : n ≠ 0 := by
  rcases h.snoc_cases with ⟨-, rfl⟩ | ⟨_, _, _, -, -, hsub⟩
  · exact Nat.one_ne_zero
  · obtain ⟨e, he, -, -, -, rfl⟩ := hsub.entry
    exact (mem_liveEntries.mp he).2

section Lookup

variable {fs : Bkfs} {names : List CString} {name : CString} {n : Nat}

/-- `cd ..` from the directory of an entry. -/
theorem Walkable.cdTarget_up (h : Walkable fs) {e : File} (he : e ∈ liveEntries fs)
    (hcur : e.inode = fs.currentInode) : cdTarget fs (some "..") = some e.parentInode := by
  obtain ⟨i, hscan, hfound⟩ := firstIndex_inode h.nodup he
  have hup : cdTarget fs (some "..")
      = (firstIndex fs.fileCount fun i => (fs.files i).inode == fs.currentInode).map fun i =>
          (fs.files i).parentInode := rfl
  rw [hup, ← hcur, hscan, Option.map_some, hfound]

/-- What `cd name` finds is a directory of that name. -/
theorem Walkable.entry_of_cdTarget (h : Walkable fs) (hcur : fs.currentInode ≠ 0)
    (hempty : strlen name ≠ 0) (hup : name ≠ "..") (hd : cdTarget fs (some name) = some n) :
    ∃ e ∈ liveEntries fs,
      e.parentInode = fs.currentInode ∧ e.name = name ∧ e.type = fileDir ∧ e.inode = n := by
  rw [cdTarget, if_neg hempty, if_neg fun hcmp => hup (strcmp_eq_zero_iff.mp hcmp)] at hd
  obtain ⟨i, hscan, rfl⟩ := Option.map_eq_some_iff.mp hd
  obtain ⟨hi, hp, -⟩ := firstIndex_eq_some_iff.mp hscan
  simp only [Bool.and_eq_true, beq_iff_eq, strcmp_eq_zero_iff] at hp
  obtain ⟨⟨hparent, hname⟩, htype⟩ := hp
  refine ⟨fs.files i, mem_liveEntries.mpr ⟨files_mem_entries hi, fun hzero => ?_⟩, hparent, hname,
    htype, rfl⟩
  -- a blank entry is in no directory
  rw [h.blank _ (files_mem_entries hi) hzero] at hparent
  exact hcur hparent.symm

/-- Where names are unique, `cd` finds the directory meant. -/
theorem NamedTree.cdTarget_of_subdir (h : NamedTree fs) (hcur : fs.currentInode ≠ 0)
    (hsub : Subdir (liveEntries fs) fs.currentInode name n) : cdTarget fs (some name) = some n := by
  obtain ⟨e, he, hparent, hname, htype, rfl⟩ := hsub.entry
  obtain ⟨k, hk, hke⟩ := mem_entries.mp (mem_liveEntries.mp he).1
  let p : Nat → Bool := fun i =>
    (fs.files i).parentInode == fs.currentInode && strcmp (fs.files i).name name == 0
      && (fs.files i).type == fileDir
  have hmatch : p k = true := by
    show ((fs.files k).parentInode == fs.currentInode && strcmp (fs.files k).name name == 0
      && (fs.files k).type == fileDir) = true
    rw [hke, hparent, htype, strcmp_eq_zero_iff.mpr hname]
    simp
  obtain ⟨i, hscan, -⟩ := exists_firstIndex hk hmatch
  have hfound : cdTarget fs (some name) = some (fs.files i).inode := by
    rw [cdTarget, if_neg hsub.nonempty,
      if_neg fun hcmp => hsub.notParent (strcmp_eq_zero_iff.mp hcmp)]
    exact congrArg (Option.map fun i => (fs.files i).inode) hscan
  obtain ⟨c, hc, hcparent, hcname, -, hcinode⟩ :=
    h.toWalkable.entry_of_cdTarget hcur hsub.nonempty hsub.notParent hfound
  -- the first matching entry is the entry itself, since names are distinct
  have hsame : c = e :=
    List.inj_on_of_nodup_map h.distinct hc he
      (Prod.ext (hcparent.trans hparent.symm) (hcname.trans hname.symm))
  rw [hfound, ← hcinode, hsame]

/-- **Where a `cd` that finds something leads**: to the root, one directory up,
or down by the name given. -/
theorem Walkable.cdTarget_cases (h : Walkable fs) (hpath : PathTo fs names fs.currentInode)
    {dirname : Option CString} (hd : cdTarget fs dirname = some n) :
    n = 1 ∨ (∃ front last, names = front ++ [last] ∧ PathTo fs front n) ∨
      ∃ name, dirname = some name ∧ Subdir (liveEntries fs) fs.currentInode name n := by
  cases dirname with
  | none =>
    cases hd
    exact .inl rfl
  | some name =>
    by_cases hempty : strlen name = 0
    · rw [cdTarget, if_pos hempty] at hd
      cases hd
      exact .inl rfl
    -- `..` goes to the parent, which is where the way stood before its last name
    by_cases hup : name = ".."
    · subst hup
      rcases hpath.snoc_cases with ⟨-, hroot⟩ | ⟨front, last, p, rfl, hfront, hsub⟩
      · obtain ⟨e, he, hinode, hparent⟩ := h.root
        rw [h.cdTarget_up he (hinode.trans hroot.symm), hparent] at hd
        cases hd
        exact .inl rfl
      · obtain ⟨e, he, hparent, -, -, hinode⟩ := hsub.entry
        rw [h.cdTarget_up he hinode, hparent] at hd
        cases hd
        exact .inr (.inl ⟨front, last, rfl, hfront⟩)
    by_cases hroot : n = 1
    · exact .inl hroot
    · exact .inr (.inr ⟨name, rfl, hempty, hup,
        h.entry_of_cdTarget hpath.current_ne_zero hempty hup hd, hroot⟩)

/-- **`cd name; cd ..`** comes back. -/
theorem Walkable.cdTarget_back (h : Walkable fs) (hpath : PathTo fs names fs.currentInode)
    (hempty : strlen name ≠ 0) (hup : name ≠ "..") (hd : cdTarget fs (some name) = some n) :
    cdTarget { fs with currentInode := n } (some "..") = some fs.currentInode := by
  obtain ⟨e, he, hparent, -, -, hinode⟩ :=
    h.entry_of_cdTarget hpath.current_ne_zero hempty hup hd
  rw [(h.chdir n).cdTarget_up he hinode, hparent]

end Lookup

/-! ## `cd` after `cd` -/

/-- A `cd` that finds a directory. -/
def CdStep (s : KernelState) (dirname : Option CString) (t : KernelState) : Prop :=
  ∃ n, cdTarget s.fs dirname = some n ∧ executeCd s dirname = t

/-- From `/` to `t`, by `cd`s that all find a directory. -/
abbrev CdRun (s : KernelState) (dirnames : List (Option CString)) (t : KernelState) : Prop :=
  Steps CdStep (setCurrentInode s 1) dirnames t

/-- Wherever `cd`s lead, names lead too. -/
theorem Walkable.path_of_cdRun {s t : KernelState} (h : Walkable s.fs)
    {dirnames : List (Option CString)} (hrun : CdRun s dirnames t) :
    ∃ n names, t = setCurrentInode s n ∧ PathTo s.fs names n := by
  let Inv : KernelState → Prop := fun t => ∃ n names, t = setCurrentInode s n ∧ PathTo s.fs names n
  have hroot : Inv (setCurrentInode s 1) := ⟨1, [], rfl, .nil 1⟩
  refine hrun.invariant hroot ?_
  rintro _ dirname t ⟨n, names, rfl, hpath⟩ ⟨m, hd, rfl⟩
  have hhere : PathTo (setCurrentInode s n).fs names (setCurrentInode s n).fs.currentInode := hpath
  have hback : setCurrentInode (setCurrentInode s n) m = setCurrentInode s m := rfl
  rw [executeCd_of_target hd, hback]
  rcases (h.chdir n).cdTarget_cases hhere hd with
    rfl | ⟨front, last, -, hfront⟩ | ⟨name, -, hsub⟩
  · exact ⟨1, [], rfl, .nil 1⟩
  · exact ⟨m, front, rfl, hfront⟩
  · exact ⟨m, names ++ [name], rfl, hpath.snoc hsub⟩

/-- From `/`, the names lead to the directory. -/
theorem NamedTree.cdRun_of_path {s : KernelState} (h : NamedTree s.fs) {names : List CString}
    {n : Nat} (hpath : PathTo s.fs names n) :
    CdRun s (names.map some) (setCurrentInode s n) := by
  have hfrom : ∀ {p}, p ≠ 0 → Steps (Subdir (liveEntries s.fs)) p names n →
      Steps CdStep (setCurrentInode s p) (names.map some) (setCurrentInode s n) := by
    clear hpath
    intro p hp hpath
    induction hpath with
    | nil => exact .nil _
    | @cons p q n name names hsub _ ih =>
      have htarget := (h.chdir p).cdTarget_of_subdir hp hsub
      obtain ⟨e, he, -, -, -, rfl⟩ := hsub.entry
      exact .cons ⟨_, htarget, executeCd_of_target htarget⟩ (ih (mem_liveEntries.mp he).2)
  exact hfrom Nat.one_ne_zero hpath

/-! ## The arrays of the walk -/

/-- `MAX_PATH_LEN`. -/
abbrev maxPathLen : Nat := 256

/-- `path` and `temp` of `execute_pwd` and `print_prompt`. -/
structure PathArrays where
  path : TextBuffer
  temp : TextBuffer

/-- `strcpy(temp, "/"); strcat(temp, name); strcat(temp, path); strcpy(path, temp);` -/
def PathArrays.addFront (a : PathArrays) (name : CString) : PathArrays :=
  let temp := ((a.temp.strcpy "/").strcat name).strcat a.path.str
  { path := a.path.strcpy temp.str, temp := temp }

/-- `pathLoop` with its arrays. -/
def pathWalk (fs : Bkfs) : Nat → Nat → PathArrays → Option PathArrays
  | 0, _, _ => none
  | fuel + 1, inode, a =>
    if inode = 1 then some a
    else
      match firstIndex fs.fileCount fun i => (fs.files i).inode == inode with
      | some i => pathWalk fs fuel (fs.files i).parentInode (a.addFront (fs.files i).name)
      | none => pathWalk fs fuel inode a

/-- `char path[MAX_PATH_LEN] = "/";` -/
def pwdArrays : PathArrays := { path := TextBuffer.fresh.strcpy "/", temp := .fresh }

/-- `char path[MAX_PATH_LEN] = {0};` -/
def promptArrays : PathArrays := { path := TextBuffer.fresh.strcpy "", temp := .fresh }

/-- The walk with the arrays finds the path of the walk without. -/
theorem pathLoop_eq_pathWalk (fs : Bkfs) (fuel n : Nat) (a : PathArrays) :
    pathLoop fs fuel n a.path.str = (pathWalk fs fuel n a).map fun b => b.path.str := by
  induction fuel generalizing n a with
  | zero => rfl
  | succ fuel ih =>
    rw [pathLoop, pathWalk]
    by_cases hone : n = 1
    · rw [if_pos hone, if_pos hone]
      rfl
    rw [if_neg hone, if_neg hone]
    cases firstIndex fs.fileCount fun i => (fs.files i).inode == n with
    | some i => exact ih _ (a.addFront _)
    | none => exact ih n a

/-- More rounds change nothing. -/
theorem pathWalk_add {fs : Bkfs} {fuel n : Nat} {a b : PathArrays}
    (h : pathWalk fs fuel n a = some b) (more : Nat) : pathWalk fs (fuel + more) n a = some b := by
  induction fuel generalizing n a with
  | zero => cases h
  | succ fuel ih =>
    rw [pathWalk] at h
    rw [Nat.add_right_comm, pathWalk]
    by_cases hone : n = 1
    · rwa [if_pos hone] at h ⊢
    rw [if_neg hone] at h ⊢
    cases hscan : firstIndex fs.fileCount fun i => (fs.files i).inode == n with
    | some i =>
      rw [hscan] at h
      exact ih h
    | none =>
      rw [hscan] at h
      exact ih h

/-- The walk has one result. -/
theorem pathWalk_unique {fs : Bkfs} {fuel fuel' n : Nat} {a b b' : PathArrays}
    (h : pathWalk fs fuel n a = some b) (h' : pathWalk fs fuel' n a = some b') : b = b' := by
  have hsum := pathWalk_add h fuel'
  rw [Nat.add_comm, pathWalk_add h' fuel] at hsum
  exact (Option.some.inj hsum).symm

/-- `/name` for each name. -/
def slashed : List CString → CString
  | [] => .empty
  | name :: names => CString.ofString "/" ++ name ++ slashed names

/-- What `slashed` takes: a byte more for each name. -/
def nameBytes : List CString → Nat
  | [] => 0
  | name :: names => strlen name + 1 + nameBytes names

/-- A slash for every name. -/
theorem strlen_slashed (names : List CString) : strlen (slashed names) = nameBytes names := by
  induction names with
  | nil => rfl
  | cons name names ih =>
    rw [nameBytes, ← ih]
    show ((CString.ofString "/").bytes ++ name.bytes ++ (slashed names).bytes).length = _
    have hslash : (CString.ofString "/").bytes.length = 1 := rfl
    rw [List.length_append, List.length_append, hslash, strlen, strlen]
    omega

theorem slashed_snoc (front : List CString) (last rest : CString) :
    slashed (front ++ [last]) ++ rest = slashed front ++ (CString.ofString "/" ++ last ++ rest) := by
  refine CString.ext ?_
  induction front with
  | nil => simp [slashed, CString.empty]
  | cons name front ih =>
    simp only [CString.bytes_append] at ih ⊢
    simp only [List.cons_append, slashed, CString.bytes_append, List.append_assoc] at ih ⊢
    rw [ih]

theorem nameBytes_snoc (front : List CString) (last : CString) :
    nameBytes (front ++ [last]) = nameBytes front + (strlen last + 1) := by
  induction front with
  | nil => simp [nameBytes]
  | cons name front ih =>
    rw [List.cons_append, nameBytes, nameBytes, ih]
    omega

/-- Nothing was stored beyond the string that is in `path` now. -/
structure PathArrays.Tight (a : PathArrays) : Prop where
  path : a.path.reach = strlen a.path.str + 1
  temp : a.temp.reach ≤ a.path.reach

/-- A name in front of the path takes its length and a slash, in both arrays. -/
theorem PathArrays.Tight.addFront {a : PathArrays} (h : a.Tight) (name : CString) :
    (a.addFront name).Tight := by
  obtain ⟨hpath, htemp⟩ := h
  have hlen : strlen (a.addFront name).path.str = 1 + strlen name + strlen a.path.str := by
    show ((CString.ofString "/").bytes ++ name.bytes ++ a.path.str.bytes).length = _
    rw [List.length_append, List.length_append]
    rfl
  have hnew : strlen (CString.ofString "/" ++ name) = 1 + strlen name := by
    show ((CString.ofString "/").bytes ++ name.bytes).length = _
    rw [List.length_append]
    rfl
  have htempReach : (a.addFront name).temp.reach
      = max (max (max a.temp.reach (1 + 1)) (1 + strlen name + 1))
        (strlen (CString.ofString "/" ++ name) + strlen a.path.str + 1) := rfl
  have hpathReach : (a.addFront name).path.reach
      = max a.path.reach (strlen (a.addFront name).path.str + 1) := rfl
  constructor
  · omega
  · omega

theorem tight_pwdArrays : pwdArrays.Tight := ⟨rfl, Nat.zero_le _⟩

theorem tight_promptArrays : promptArrays.Tight := ⟨rfl, Nat.zero_le _⟩

/-- **The walk from a directory puts the names on the way in front.** -/
theorem pathWalk_of_path {fs : Bkfs} (hnodup : ((liveEntries fs).map File.inode).Nodup)
    {names : List CString} {n : Nat} (h : PathTo fs names n) {a : PathArrays} (ha : a.Tight) :
    ∃ fuel b, pathWalk fs fuel n a = some b ∧ b.Tight ∧ b.path.str = slashed names ++ a.path.str := by
  induction names using List.reverseRecOn generalizing n a with
  | nil =>
    rcases h.snoc_cases with ⟨-, rfl⟩ | ⟨front, last, _, heq, -, -⟩
    · exact ⟨1, a, rfl, ha, rfl⟩
    · simp at heq
  | append_singleton names name ih =>
    rcases h.snoc_cases with ⟨heq, -⟩ | ⟨front, last, p, heq, hfront, hsub⟩
    · simp at heq
    obtain ⟨rfl, hlast⟩ := List.append_inj' heq rfl
    obtain rfl : name = last := List.singleton_inj.mp hlast
    -- the last name of the way is the entry whose number the loop looks for
    obtain ⟨e, he, rfl, rfl, -, rfl⟩ := hsub.entry
    obtain ⟨i, hscan, hfound⟩ := firstIndex_inode hnodup he
    obtain ⟨fuel, b, hwalk, htight, hstr⟩ := ih hfront (ha.addFront e.name)
    refine ⟨fuel + 1, b, ?_, htight, ?_⟩
    · rw [pathWalk, if_neg hsub.notRoot, hscan]
      show pathWalk fs fuel (fs.files i).parentInode (a.addFront (fs.files i).name) = some b
      rw [hfound]
      exact hwalk
    · rw [hstr, slashed_snoc]
      rfl

/-! ## What fits -/

/-- What `pwd` and the prompt store stays in their arrays. -/
def PathsFit (s : KernelState) : Prop :=
  ∀ a, a = pwdArrays ∨ a = promptArrays → ∃ fuel b,
    pathWalk s.fs fuel s.fs.currentInode a = some b ∧
      b.path.reach ≤ maxPathLen ∧ b.temp.reach ≤ maxPathLen

/-- **The names decide.** -/
theorem pathsFit_iff {s : KernelState} (h : Walkable s.fs) {names : List CString}
    (hpath : PathTo s.fs names s.fs.currentInode) :
    PathsFit s ↔ nameBytes names + 2 ≤ maxPathLen := by
  have hreach : ∀ {a b : PathArrays}, b.Tight → b.path.str = slashed names ++ a.path.str →
      b.path.reach = nameBytes names + strlen a.path.str + 1 := by
    intro a b htight hstr
    rw [htight.path, hstr, ← strlen_slashed]
    exact congrArg (· + 1) List.length_append
  constructor
  · intro hfit
    obtain ⟨fuel, b, hwalk, hle, -⟩ := hfit pwdArrays (.inl rfl)
    obtain ⟨fuel', b', hwalk', htight, hstr⟩ := pathWalk_of_path h.nodup hpath tight_pwdArrays
    obtain rfl := pathWalk_unique hwalk hwalk'
    rwa [hreach htight hstr] at hle
  · rintro hle a (rfl | rfl)
    · obtain ⟨fuel, b, hwalk, htight, hstr⟩ := pathWalk_of_path h.nodup hpath tight_pwdArrays
      have hlen := (hreach htight hstr).trans_le hle
      exact ⟨fuel, b, hwalk, hlen, htight.temp.trans hlen⟩
    · obtain ⟨fuel, b, hwalk, htight, hstr⟩ := pathWalk_of_path h.nodup hpath tight_promptArrays
      have hlen := (hreach htight hstr).trans_le (Nat.le_of_succ_le hle)
      exact ⟨fuel, b, hwalk, hlen, htight.temp.trans hlen⟩

/-! ## `pwd` and the prompt -/

/-- `print_prompt` up to the path. -/
def promptStart (s : KernelState) : KernelState :=
  let s := s.setcolor colorBrightRed (s.term.color >>> 4)
  let s := s.writestring "root"
  let s := s.setcolor colorWhite (s.term.color >>> 4)
  let s := s.writestring ":"
  let s := s.setcolor colorBrightBlue (s.term.color >>> 4)
  s.writestring "~"

theorem writestring_empty (s : KernelState) : s.writestring .empty = s := by
  show { s with term := terminalWritestring s.term .empty } = s
  have hsame : terminalWritestring s.term .empty = s.term := by
    rw [terminalWritestring]
    split
    · rfl
    · rfl
  rw [hsame]

/-- `pwd` prints the way to the working directory. -/
theorem executePwd_of_path {s : KernelState} (h : Walkable s.fs) {names : List CString}
    (hpath : PathTo s.fs names s.fs.currentInode) :
    ∃ fuel, executePwd fuel s
      = some (((s.writestring "").writestring (slashed names ++ "/")).writestring "\n") := by
  obtain ⟨fuel, b, hwalk, -, hstr⟩ := pathWalk_of_path h.nodup hpath tight_pwdArrays
  have hloop : pathLoop s.fs fuel s.fs.currentInode "/" = some b.path.str := by
    have hsame := pathLoop_eq_pathWalk s.fs fuel s.fs.currentInode pwdArrays
    rw [hwalk] at hsame
    exact hsame
  refine ⟨fuel, ?_⟩
  rw [executePwd, hloop, hstr]
  rfl

/-- The prompt shows the way to the working directory. -/
theorem printPrompt_of_path {s : KernelState} (h : Walkable s.fs) {names : List CString}
    (hpath : PathTo s.fs names s.fs.currentInode) :
    ∃ fuel, printPrompt fuel s = some (promptEnd ((promptStart s).writestring (slashed names))) := by
  obtain ⟨fuel, b, hwalk, -, hstr⟩ := pathWalk_of_path h.nodup hpath tight_promptArrays
  have hloop : pathLoop s.fs fuel s.fs.currentInode "" = some b.path.str := by
    have hsame := pathLoop_eq_pathWalk s.fs fuel s.fs.currentInode promptArrays
    rw [hwalk] at hsame
    exact hsame
  have hempty : b.path.str = slashed names := by
    rw [hstr]
    exact CString.ext (List.append_nil _)
  refine ⟨fuel, ?_⟩
  have hprompt : printPrompt fuel s = if s.fs.currentInode ≠ 1 then
      (pathLoop s.fs fuel s.fs.currentInode "").map fun path =>
        promptEnd ((promptStart s).writestring path)
      else some (promptEnd (promptStart s)) := rfl
  by_cases hone : s.fs.currentInode = 1
  · -- at the root there is nothing to print
    rw [hprompt, if_neg (Classical.not_not.mpr hone)]
    have hnil : names = [] := by
      rcases hpath.snoc_cases with ⟨hnil, -⟩ | ⟨_, _, _, -, -, hsub⟩
      · exact hnil
      · exact absurd hone hsub.notRoot
    rw [hnil, slashed, writestring_empty]
  · rw [hprompt, if_pos hone, hloop, hempty]
    rfl

/-- **`pwd` and `cd` are inverse.** In a tree with unique names, a directory
reached by `cd`s has a list of names that lead from the root to it, and only one
(`PathTo.unique`). If it fits, `pwd` and the prompt print it; `cd` takes these
names back to the directory; and `cd name; cd ..` stays there. -/
theorem pwd_cd_inverse {s t : KernelState} (h : NamedTree s.fs) {dirnames : List (Option CString)}
    (hrun : CdRun s dirnames t) :
    ∃ names, PathTo t.fs names t.fs.currentInode ∧
      (nameBytes names + 2 ≤ maxPathLen →
        PathsFit t ∧
        (∃ fuel, executePwd fuel t
          = some (((t.writestring "").writestring (slashed names ++ "/")).writestring "\n")) ∧
        ∃ fuel, printPrompt fuel t
          = some (promptEnd ((promptStart t).writestring (slashed names)))) ∧
      Steps CdStep (executeCd t none) (names.map some) t ∧
      ∀ name u, strlen name ≠ 0 → name ≠ ".." → CdStep t (some name) u →
        CdStep u (some "..") t := by
  obtain ⟨n, names, rfl, hpath⟩ := h.toWalkable.path_of_cdRun hrun
  have hwalk : Walkable (setCurrentInode s n).fs := h.toWalkable.chdir n
  have hhere : PathTo (setCurrentInode s n).fs names (setCurrentInode s n).fs.currentInode := hpath
  refine ⟨names, hhere, fun hfit => ⟨?_, ?_, ?_⟩, h.cdRun_of_path hpath, ?_⟩
  · exact (pathsFit_iff hwalk hhere).mpr hfit
  · exact executePwd_of_path hwalk hhere
  · exact printPrompt_of_path hwalk hhere
  -- the parent of a directory entered by its name is where the step started
  · rintro name u hempty hup ⟨m, htarget, rfl⟩
    rw [executeCd_of_target htarget]
    have hback := hwalk.cdTarget_back hhere hempty hup htarget
    exact ⟨n, hback, executeCd_of_target hback⟩

theorem namedTree_kernelMain : NamedTree kernelMain.fs :=
  ⟨dirTree_kernelMain.walkable, dirTree_kernelMain.rooted, distinctNames_kernelMain⟩

theorem cdRun_bin : CdRun kernelMain [some "bin"] (setCurrentInode kernelMain 2) := by
  have htarget : cdTarget (setCurrentInode kernelMain 1).fs (some "bin") = some 2 := by
    decide +kernel
  exact .single ⟨2, htarget, executeCd_of_target htarget⟩

/-- In `/bin`: `pwd` prints `/bin/`, the prompt `/bin`, and `cd; cd bin` comes back. -/
theorem pwd_cd_inverse_bin :
    PathsFit (setCurrentInode kernelMain 2) ∧
      (∃ fuel, executePwd fuel (setCurrentInode kernelMain 2)
        = some ((((setCurrentInode kernelMain 2).writestring "").writestring "/bin/").writestring "\n")) ∧
      (∃ fuel, printPrompt fuel (setCurrentInode kernelMain 2)
        = some (promptEnd ((promptStart (setCurrentInode kernelMain 2)).writestring "/bin"))) ∧
      Steps CdStep (executeCd (setCurrentInode kernelMain 2) none) [some "bin"]
        (setCurrentInode kernelMain 2) := by
  obtain ⟨names, hpath, hprint, hback, -⟩ := pwd_cd_inverse namedTree_kernelMain cdRun_bin
  have hbin : PathTo kernelMain.fs ["bin"] 2 := by
    refine .single ⟨by decide, by decide, ?_, by decide⟩
    decide +kernel
  -- the way to a directory is unique, so the names are those of `/bin`
  obtain rfl : names = [CString.ofString "bin"] :=
    PathTo.unique namedTree_kernelMain.nodup hpath hbin
  obtain ⟨hfit, hpwd, hprompt⟩ := hprint (by decide)
  have hslash : slashed ["bin"] = "/bin" := by
    decide
  have hpwdText : slashed ["bin"] ++ "/" = ("/bin/" : CString) := by
    decide
  rw [hpwdText] at hpwd
  rw [hslash] at hprompt
  exact ⟨hfit, hpwd, hprompt, hback⟩

/-- **`cd ..; cd ..` does not come back**: from `/bin` both lead to `/`. -/
theorem not_cd_back_up :
    ¬ ∀ (s t u : KernelState) (dirnames : List (Option CString)) (name : CString),
      NamedTree s.fs → CdRun s dirnames t → CdStep t (some name) u →
        (executeCd u (some "..")).fs.currentInode = t.fs.currentInode := by
  intro hback
  have hup : cdTarget (setCurrentInode kernelMain 2).fs (some "..") = some 1 ∧
      (executeCd (executeCd (setCurrentInode kernelMain 2) (some "..")) (some "..")).fs.currentInode
        ≠ 2 := by
    decide +kernel
  obtain ⟨htarget, hne⟩ := hup
  exact hne (hback _ _ _ _ _ namedTree_kernelMain cdRun_bin ⟨1, htarget, rfl⟩)

end Srunix
