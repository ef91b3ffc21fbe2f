import Srunix.Bkfs.Nodes
import Srunix.Shell.Session
import Srunix.Shell.Append
import Srunix.Shell.Path

/-!
# What the shell is for

A `Namespace` is what a user of the shell knows: which names there are and what
they stand for, where each of the nine terminals stands, and which of them is
on the screen. The commands are operations on it that take a line each.

`namespaceOf` reads it off the kernel state. The kernel works on an array of
entries that deletion shifts, on inodes that are looked for, on blocks that are
given back and taken again, on buffers of 4096 bytes on the stack and on nine
saved records; `namespace_of_run` says that none of it shows, as long as the
session keeps clear of what is known to go wrong: a file that grows to 4096
bytes, a write the disk has no blocks for, and `rm -rf` of a directory that is
not empty or that some terminal stands in (`CmdOk`).
-/

namespace Srunix

open Library

/-! ## The namespace -/

/-- The entries that `fs_create_file` can add to the five of the image. -/
abbrev maxNames : Nat := maxFiles - 5

/-- What the shell is for: names in directories, and a directory for each terminal. -/
@[ext] structure Namespace where
  node : Nat × CString → Option Node
  /-- How many names there are. -/
  count : Nat
  /-- The directory each terminal stands in. -/
  dir : Nat → Nat
  tty : Nat

namespace Namespace

/-- The directory of the terminal in front. -/
def cwd (ns : Namespace) : Nat := ns.dir ns.tty

/-- What a name stands for there. -/
def get (ns : Namespace) (name : CString) : Option Node := ns.node (ns.cwd, name)

/-- The name stands for something else; it was there before. -/
def set (ns : Namespace) (name : CString) (nd : Node) : Namespace :=
  { ns with node := Function.update ns.node (ns.cwd, name) (some nd) }

/-- The name is gone. -/
def unset (ns : Namespace) (name : CString) : Namespace :=
  { ns with node := Function.update ns.node (ns.cwd, name) none, count := ns.count - 1 }

/-- The terminal in front goes to another directory, and the others stay. -/
def moveTo (ns : Namespace) (n : Nat) : Namespace :=
  { ns with dir := Function.update ns.dir ns.tty n }

/-- A number no directory has. -/
def Fresh (ns : Namespace) (n : Nat) : Prop :=
  (∀ name, ns.node (n, name) = none) ∧ ∀ p, ns.node p ≠ some (.dir n)

/-- A new name, if it may be one, is not there yet and there is room for it. -/
def make (ns : Namespace) (name : Name) (nd : Node) : Namespace :=
  if isValidFilename name.str = true ∧ ns.get name.str = none ∧ ns.count < maxNames then
    { ns.set name.str nd with count := ns.count + 1 }
  else ns

/-- A content for the file of that name, which is made if nothing is there. -/
def write (ns : Namespace) (name : Name) (content : List UInt8) : Namespace :=
  match ns.get name.str with
  | some (.file _) => ns.set name.str (.file content)
  | _ => ns.make name (.file content)

/-- The text below what the file of that name has. -/
def withText (ns : Namespace) (name : CString) (text : List UInt8) : List UInt8 :=
  match ns.get name with
  | some (.file old) => joined old text
  | _ => text

/-- `rm`: a file goes, a directory only with `-rf`. -/
def remove (ns : Namespace) (name : CString) (recursive : Bool) : Namespace :=
  match ns.get name with
  | none => ns
  | some (.file _) => ns.unset name
  | some (.dir _) => if recursive then ns.unset name else ns

/-- `cd`: to the root, up to where the working directory is, or down. -/
def Goes (ns : Namespace) (dirname : Option CString) (ns' : Namespace) : Prop :=
  match dirname with
  | none => ns' = ns.moveTo 1
  | some dirname =>
    if strlen dirname = 0 then ns' = ns.moveTo 1
    else if dirname = ".." then
      ∃ p name, ns.node (p, name) = some (.dir ns.cwd) ∧ ns' = ns.moveTo p
    else
      match ns.get dirname with
      | some (.dir n) => ns' = ns.moveTo n
      | _ => ns' = ns

/-- The terminal in front is another one, if there is one of that number. -/
def switchTo (ns : Namespace) (ttyNum : Int) : Namespace :=
  if 0 ≤ ttyNum ∧ ttyNum < maxTtys then { ns with tty := ttyNum.toNat } else ns

end Namespace

/-- **What each command is for.** -/
def NsStep (ns : Namespace) : ShellCmd → Namespace → Prop
  | .touch filename, ns' => ns' = ns.make filename (.file [])
  | .mkdir dirname, ns' => ∃ n, ns.Fresh n ∧ ns' = ns.make dirname (.dir n)
  | .rm name recursive, ns' => ns' = ns.remove name recursive
  | .cd dirname, ns' => ns.Goes dirname ns'
  | .redirect filename text, ns' => ns' = ns.write filename text.bytes
  | .append filename text _, ns' => ns' = ns.write filename (ns.withText filename.str text.bytes)
  | .switchTty ttyNum, ns' => ns' = ns.switchTo ttyNum
  | .login, ns' => ns' = ns

/-- The namespace a kernel state stands for. -/
def namespaceOf (s : KernelState) : Namespace where
  node := nodes s.fs
  count := (liveEntries s.fs).length
  dir := ttyDir s
  tty := s.term.currentTty

theorem cwd_namespaceOf (s : KernelState) : (namespaceOf s).cwd = s.fs.currentInode := if_pos rfl

theorem get_namespaceOf (s : KernelState) (name : CString) :
    (namespaceOf s).get name = nodes s.fs (s.fs.currentInode, name) := by
  rw [Namespace.get, cwd_namespaceOf]
  rfl

/-! ## What a session must keep clear of -/

/-- The name and the content that a command stores something under. -/
def Namespace.stores (ns : Namespace) : ShellCmd → Option (Name × List UInt8)
  | .redirect filename text => some (filename, text.bytes)
  | .append filename text _ => some (filename, ns.withText filename.str text.bytes)
  | _ => none

/-- The blocks a content stored under that name can have: those the file gives
back and the free ones. -/
def blocksFor (fs : Bkfs) (name : CString) : Nat :=
  match findRegular fs name with
  | some i => (writeBlocks fs ((fs.files i).inode - 1)).length
  | none => (takeable fs).length

/-- `rm -rf` of a directory: it is empty, and no terminal stands in it. -/
def Namespace.Removable (ns : Namespace) : ShellCmd → Prop
  | .rm name true => ∀ n, ns.get name = some (.dir n) →
      (∀ inside, ns.node (n, inside) = none) ∧ ∀ t < maxTtys, ns.dir t ≠ n
  | _ => True

/-- Nothing goes wrong: what `rm -rf` is given can be removed, and a text that is
stored is shorter than `MAX_FILE_SIZE`, with what it is appended to, and finds its
blocks. -/
structure CmdOk (s : KernelState) (c : ShellCmd) : Prop where
  removable : (namespaceOf s).Removable c
  stored : ∀ name content, (namespaceOf s).stores c = some (name, content) →
    content.length < maxFileSize ∧ blocksNeeded content.length ≤ blocksFor s.fs name.str

/-! ## The files between two commands -/

/-- The files between two commands: the contents are those of `m`, the counters are
exact, and no two names are the same. -/
structure FilesInv (fs : Bkfs) (m : Store) : Prop where
  store : StoreInv fs m
  inodes : fs.freeInodes = unusedInodes fs
  names : DistinctNames fs
  types : ∀ e ∈ liveEntries fs, e.type = fileDir ∨ e.type = fileRegular
  valid : ∀ e ∈ liveEntries fs, isValidFilename e.name = true
  /-- What the commands read and write back are strings that fit their buffers. -/
  texts : ∀ n d, m n = some d → 0 ∉ d ∧ d.length < maxFileSize

theorem fileRegular_ne_fileDir : fileRegular ≠ fileDir := by decide

namespace FilesInv

variable {fs : Bkfs} {m : Store}

/-- The blank entries of the image, and those in use. -/
theorem fileCount_eq (h : FilesInv fs m) : fs.fileCount = 5 + (liveEntries fs).length := by
  rw [← entries_length fs, h.store.entries.blanks, List.length_append, List.length_replicate]

/-- There are fewer names than inodes, so one is free. -/
theorem inodeFree (h : FilesInv fs m) : InodeFree fs := by
  by_contra hfull
  have hsub : (List.range maxInodes).map (· + 1) ⊆ (liveEntries fs).map File.inode := by
    intro n hn
    obtain ⟨i, hi, rfl⟩ := List.mem_map.mp hn
    have hmode : (fs.inodes i).mode ≠ 0 := fun hz => hfull ⟨i, List.mem_range.mp hi, hz⟩
    obtain ⟨e, he, hinode⟩ := h.store.entries.owned i hmode
    exact List.mem_map.mpr ⟨e, he, hinode⟩
  have hnodup : ((List.range maxInodes).map (· + 1)).Nodup :=
    List.nodup_range.map fun a b hab => Nat.succ.inj hab
  have hle := (List.subperm_of_subset hnodup hsub).length_le
  have hcount := h.store.entries.count_le
  rw [h.fileCount_eq] at hcount
  rw [List.length_map, List.length_range, List.length_map] at hle
  simp only [maxFiles, maxInodes] at hcount hle
  omega

/-- There are more inodes than entries. -/
theorem freeInodes_ne_zero (h : FilesInv fs m) : fs.freeInodes ≠ 0 := by
  rw [h.inodes]
  intro hzero
  obtain ⟨i, hi, hmode⟩ := h.inodeFree
  have hused := freeCount_eq_zero_iff.mp hzero i hi
  simp [hmode] at hused

/-- The checks of `fs_create_file` come down to those of `make`. -/
theorem not_createRefused (h : FilesInv fs m) (hcur : fs.currentInode ≠ 0) {name : Name} :
    ¬ CreateRefused fs name ↔ isValidFilename name.str = true ∧
      nodes fs (fs.currentInode, name.str) = none ∧ (liveEntries fs).length < maxNames := by
  have hcount := h.fileCount_eq
  rw [not_createRefused_iff, nameTaken_iff_nodes h.store.entries hcur, not_not]
  constructor
  · rintro ⟨hvalid, hnone, hroom, -⟩
    exact ⟨hvalid, hnone, by simp only [maxNames, maxFiles] at *; omega⟩
  · rintro ⟨hvalid, hnone, hroom⟩
    exact ⟨hvalid, hnone, by simp only [maxNames, maxFiles] at *; omega, h.freeInodes_ne_zero,
      h.inodeFree⟩

/-! ### One call -/

/-- A new entry has a valid name that no other has there. -/
theorem created (h : FilesInv fs m) {i : Nat} {name : Name} (href : ¬ CreateRefused fs name)
    (hi : i < maxInodes) (hmode : (fs.inodes i).mode = 0) {type : UInt8}
    (htype : type = fileDir ∨ type = fileRegular) :
    FilesInv (created fs i name fs.currentInode type) (Function.update m (i + 1) (some [])) := by
  have hcreated : FsOutcome fs (.create name fs.currentInode type) fsSuccess
      (Srunix.created fs i name fs.currentInode type) := .created href hi hmode
  refine ⟨h.store.created href hi hmode _ _, ?_, ?_, ?_, ?_, ?_⟩
  · have hunused := unusedInodes_created hi hmode name fs.currentInode type
    have hinodes := h.inodes
    show fs.freeInodes - 1 = _
    omega
  · exact h.names.created (not_createRefused_iff.mp href).2.1 i type
  · intro e he
    rw [EntriesInv.liveEntries_created] at he
    rcases List.mem_append.mp he with hold | hnew
    · exact h.types e hold
    · rw [List.mem_singleton.mp hnew]
      exact htype
  · intro e he
    rw [EntriesInv.liveEntries_created] at he
    rcases List.mem_append.mp he with hold | hnew
    · exact h.valid e hold
    · rw [List.mem_singleton.mp hnew]
      exact (not_createRefused_iff.mp href).1
  -- the new file is empty, which is a text
  · intro n d hd
    by_cases hn : n = i + 1
    · subst hn
      rw [Function.update_self] at hd
      obtain rfl : [] = d := Option.some.inj hd
      exact ⟨List.not_mem_nil, by decide⟩
    · rw [Function.update_of_ne hn] at hd
      exact h.texts n d hd

/-- A text that fits keeps the contents strings that fit. -/
theorem written (h : FilesInv fs m) {n : Nat} (hlive : LiveInode fs n) {text : CString}
    (hlen : strlen text < maxFileSize) {l : List Nat} (hl : FreshBlocks (released fs (n - 1)) l)
    (hcount : l.length = blocksNeeded (strlen text)) :
    FilesInv (written fs (n - 1) text.mem (strlen text) l)
      (Function.update m n (some text.bytes)) := by
  have hsize : strlen text ≤ inodeDirectBlocks * blockSize := by
    simp only [inodeDirectBlocks, blockSize, maxFileSize] at hlen ⊢
    omega
  have hstore := h.store.written hlive hl hcount hsize text.mem
  rw [table_mem] at hstore
  refine ⟨hstore, ?_, h.names, h.types, h.valid, ?_⟩
  · rw [unusedInodes_congr fun k => written_mode fs (n - 1) text.mem (strlen text) l k]
    exact h.inodes
  · intro n' d hd
    by_cases hn : n' = n
    · subst hn
      rw [Function.update_self] at hd
      obtain rfl : text.bytes = d := Option.some.inj hd
      exact ⟨text.nulFree, hlen⟩
    · rw [Function.update_of_ne hn] at hd
      exact h.texts n' d hd

/-- A removed entry takes its name, its inode and its content along. -/
theorem deleted (h : FilesInv fs m) {n : Nat} (hlive : LiveInode fs n) :
    FilesInv (deleted fs n) (Function.update m n none) := by
  have hbad := h.store.entries.not_bad h.store.wf hlive
  have hlist := h.store.entries.liveEntries_deleted hlive.1
  refine ⟨h.store.deleted hlive, ?_, ?_, ?_, ?_, ?_⟩
  · have hunused := @unusedInodes_deleted fs _ hbad
    rw [if_pos (h.store.entries.live_pred hlive), ← h.inodes] at hunused
    have hle : unusedInodes (Srunix.deleted fs n) ≤ maxInodes := freeCount_le _ _
    simp only [maxInodes] at hle
    show uint32 (fs.freeInodes + 1) = _
    rw [uint32, Nat.mod_eq_of_lt (by omega), hunused]
  · rw [DistinctNames, hlist]
    exact h.names.sublist (List.filter_sublist.map _)
  · intro e he
    rw [hlist] at he
    exact h.types e (List.mem_filter.mp he).1
  · intro e he
    rw [hlist] at he
    exact h.valid e (List.mem_filter.mp he).1
  -- the content of the removed file goes, the others stay
  · intro n' d hd
    by_cases hn : n' = n
    · subst hn
      rw [Function.update_self] at hd
      cases hd
    · rw [Function.update_of_ne hn] at hd
      exact h.texts n' d hd

/-- A read changes nothing of this. -/
theorem accessed (h : FilesInv fs m) (n : Nat) : FilesInv (Srunix.accessed fs n) m := by
  have hfiles : (Srunix.accessed fs n).files = fs.files ∧
      (Srunix.accessed fs n).fileCount = fs.fileCount ∧
      (Srunix.accessed fs n).freeInodes = fs.freeInodes := by
    obtain ⟨inodes, heq, -⟩ := accessed_eq fs n
    rw [heq]
    exact ⟨rfl, rfl, rfl⟩
  have hlist : liveEntries (Srunix.accessed fs n) = liveEntries fs := by
    rw [liveEntries, entries, hfiles.1, hfiles.2.1]
    rfl
  refine ⟨h.store.accessed n, ?_, ?_, ?_, ?_, h.texts⟩
  · rw [hfiles.2.2, unusedInodes_congr fun k => accessed_mode fs n k]
    exact h.inodes
  · rw [DistinctNames, hlist]
    exact h.names
  · rw [hlist]
    exact h.types
  · rw [hlist]
    exact h.valid

theorem chdir (h : FilesInv fs m) (n : Nat) : FilesInv { fs with currentInode := n } m :=
  ⟨h.store.chdir n, h.inodes, h.names, h.types, h.valid, h.texts⟩

end FilesInv

/-! ## What a name finds -/

section Find

variable {fs : Bkfs} {m : Store}

/-- The search finds the one entry of that name, or there is none. -/
theorem FilesInv.findInCurrentDir_cases (h : FilesInv fs m) (hcur : fs.currentInode ≠ 0) (name : CString) :
    (∃ i, findInCurrentDir fs name = some i ∧ fs.files i ∈ liveEntries fs ∧
        (fs.files i).path = (fs.currentInode, name)) ∨
      (findInCurrentDir fs name = none ∧ nodes fs (fs.currentInode, name) = none) := by
  cases hfind : findInCurrentDir fs name with
  | some i =>
    obtain ⟨hi, ⟨hparent, hname⟩, -⟩ := findInCurrentDir_eq_some_iff.mp hfind
    refine .inl ⟨i, rfl, ?_, by rw [File.path, hparent, hname]⟩
    refine h.store.entries.live_of_parent (files_mem_entries hi) ?_
    rw [hparent]
    exact hcur
  | none =>
    refine .inr ⟨rfl, nodes_eq_none_iff.mpr fun e he hpath => ?_⟩
    obtain ⟨i, hi, rfl⟩ := mem_entries.mp (mem_liveEntries.mp he).1
    obtain ⟨hparent, hname⟩ := Prod.mk.inj hpath
    have hmiss := firstIndex_eq_none_iff.mp hfind i hi
    rw [hparent, hname, strcmp_eq_zero_iff.mpr rfl, beq_self_eq_true, beq_self_eq_true] at hmiss
    cases hmiss

/-- The search for a file finds the one entry of that name, or the name is no file's. -/
theorem FilesInv.findRegular_cases (h : FilesInv fs m) (hcur : fs.currentInode ≠ 0) (name : CString) :
    (∃ i, findRegular fs name = some i ∧ fs.files i ∈ liveEntries fs ∧
        (fs.files i).path = (fs.currentInode, name) ∧ (fs.files i).type = fileRegular) ∨
      (findRegular fs name = none ∧ ∀ d, nodes fs (fs.currentInode, name) ≠ some (.file d)) := by
  cases hfind : findRegular fs name with
  | some i =>
    obtain ⟨hi, hp, -⟩ := firstIndex_eq_some_iff.mp hfind
    simp only [Bool.and_eq_true, beq_iff_eq, strcmp_eq_zero_iff] at hp
    obtain ⟨⟨hparent, hname⟩, htype⟩ := hp
    refine .inl ⟨i, rfl, ?_, by rw [File.path, hparent, hname], htype⟩
    refine h.store.entries.live_of_parent (files_mem_entries hi) ?_
    rw [hparent]
    exact hcur
  | none =>
    refine .inr ⟨rfl, fun d hd => ?_⟩
    obtain ⟨e, he, hpath, hnode⟩ := (nodes_eq_some_iff h.names).mp hd
    -- it is a file, so it is a regular one and the search would have stopped at it
    have htype : e.type = fileRegular := by
      refine (h.types e he).resolve_left fun hdir => ?_
      rw [nodeOf_dir hdir] at hnode
      cases hnode
    obtain ⟨i, hi, rfl⟩ := mem_entries.mp (mem_liveEntries.mp he).1
    obtain ⟨hparent, hname⟩ := Prod.mk.inj hpath
    have hmiss := firstIndex_eq_none_iff.mp hfind i hi
    rw [hparent, hname, htype, strcmp_eq_zero_iff.mpr rfl, beq_self_eq_true, beq_self_eq_true,
      beq_self_eq_true] at hmiss
    cases hmiss

/-- What a regular file stands for is what the store has for it. -/
theorem FilesInv.file_of_mem (h : FilesInv fs m) {e : File} (he : e ∈ liveEntries fs)
    (htype : e.type = fileRegular) :
    ∃ old : CString, m e.inode = some old.bytes ∧ strlen old < maxFileSize ∧
      nodes fs e.path = some (.file old.bytes) := by
  obtain ⟨d, hd⟩ := h.store.some_of_mem he
  obtain ⟨hnul, hlen⟩ := h.texts _ _ hd
  refine ⟨⟨d, hnul⟩, hd, hlen, ?_⟩
  rw [nodes_of_mem h.names he, nodeOf_file (htype ▸ fileRegular_ne_fileDir), h.store.contentOf hd]

end Find

/-! ## From the kernel state to the namespace -/

/-- The directories of the terminals are in the records, and in `current_inode`. -/
theorem ttyDir_of_same {s s' : KernelState} (hcur : s'.fs.currentInode = s.fs.currentInode)
    (hterm : SameTtys s.term s'.term) : ttyDir s' = ttyDir s := by
  funext t
  rw [ttyDir, ttyDir, hcur, hterm.currentTty, hterm.currentInode]

/-- A step that moves no terminal shows in the names only. -/
theorem namespaceOf_of_same {s s' : KernelState} (hcur : s'.fs.currentInode = s.fs.currentInode)
    (hterm : SameTtys s.term s'.term) :
    namespaceOf s' = { namespaceOf s with
      node := nodes s'.fs, count := (liveEntries s'.fs).length } := by
  rw [namespaceOf, ttyDir_of_same hcur hterm, hterm.currentTty]
  rfl

theorem Prints.namespaceOf {s s' : KernelState} (h : Prints s s') :
    Srunix.namespaceOf s' = Srunix.namespaceOf s := by
  rw [namespaceOf_of_same (by rw [h.fs]) h.term, h.fs]
  rfl

/-- `cd` moves the terminal in front. -/
theorem namespaceOf_chdir (s : KernelState) (n : Nat) :
    namespaceOf (setCurrentInode s n) = (namespaceOf s).moveTo n := by
  have hdir : ttyDir (setCurrentInode s n) = Function.update (ttyDir s) s.term.currentTty n := by
    funext t
    by_cases ht : t = s.term.currentTty
    · subst ht
      rw [Function.update_self]
      exact if_pos rfl
    · rw [Function.update_of_ne ht, ttyDir, ttyDir, if_neg ht]
      exact if_neg ht
  rw [namespaceOf, hdir]
  rfl

theorem ShellInv.cur_ne_zero {s : KernelState} (h : ShellInv s) : s.fs.currentInode ≠ 0 := by
  obtain ⟨e, he, hinode, -⟩ := h.current
  rw [← hinode]
  exact (mem_liveEntries.mp he).2

/-- A number no entry has is fresh: what is in a directory has it for its live
parent. -/
theorem ShellInv.fresh {s : KernelState} (h : ShellInv s) {n : Nat} (hn : ∀ e ∈ liveEntries s.fs, e.inode ≠ n)
    (hnames : DistinctNames s.fs) : (namespaceOf s).Fresh n := by
  refine ⟨fun name => nodes_eq_none_iff.mpr fun e he hpath => ?_, fun p hp => ?_⟩
  · obtain ⟨e', he', hinode, -⟩ := h.tree.dirTree.parentDir e he
    exact hn e' he' (hinode.trans (congrArg Prod.fst hpath))
  · obtain ⟨e, he, -, hnode⟩ := (nodes_eq_some_iff hnames).mp hp
    rw [nodeOf] at hnode
    split at hnode
    · exact hn e he (Node.dir.inj hnode)
    · cases hnode

/-! ## What the commands leave of the terminals -/

/-- One thing that draws; the shell sets the column itself. -/
inductive Draw : Terminal → Terminal → Prop where
  | putchar (t : Terminal) (c : UInt8) : Draw t (terminalPutchar t c)
  | setcolor (t : Terminal) (fg bg : UInt8) : Draw t (terminalSetcolor t fg bg)
  | clear (t : Terminal) : Draw t (terminalClear t)
  | columnReset (t : Terminal) : Draw t { t with column := 0 }

/-- Nothing is done to the terminal but drawing. -/
def Undisturbed (t t' : Terminal) : Prop := Relation.ReflTransGen Draw t t'

namespace Undisturbed

variable {t t₁ t₂ : Terminal} {s s₁ : KernelState}

theorem refl (t : Terminal) : Undisturbed t t := Relation.ReflTransGen.refl

theorem trans (h₁ : Undisturbed t t₁) (h₂ : Undisturbed t₁ t₂) : Undisturbed t t₂ :=
  Relation.ReflTransGen.trans h₁ h₂

theorem draw (h : Undisturbed t t₁) (hdraw : Draw t₁ t₂) : Undisturbed t t₂ :=
  Relation.ReflTransGen.tail h hdraw

/-- **What drawing keeps.** -/
theorem invariant {P : Terminal → Prop} (hstep : ∀ {t t'}, Draw t t' → P t → P t')
    (h : Undisturbed t t₁) (ht : P t) : P t₁ := by
  induction h with
  | refl => exact ht
  | tail _ hdraw ih => exact hstep hdraw ih

/-- Drawing changes no record but for its colour. -/
theorem toSameTtys (h : Undisturbed t t₁) : SameTtys t t₁ := by
  refine h.invariant (P := fun t₂ => SameTtys t t₂) (fun hdraw hsame => hsame.trans ?_) (.refl t)
  cases hdraw with
  | putchar c => exact terminalPutchar_same _ c
  | setcolor fg bg => exact terminalSetcolor_same _ fg bg
  | clear => exact terminalClear_same _
  | columnReset => exact ⟨rfl, fun _ => rfl, fun _ => rfl⟩

theorem mouse (h : Undisturbed t t₁) : t₁.smouseMode = t.smouseMode := by
  refine h.invariant (P := fun t₂ => t₂.smouseMode = t.smouseMode) (fun hdraw hsame => ?_) rfl
  cases hdraw with
  | putchar c => exact (terminalPutchar_smouse _ c).trans hsame
  | setcolor | clear | columnReset => exact hsame

theorem putchars (t : Terminal) (data : List UInt8) : Undisturbed t (data.foldl terminalPutchar t) := by
  induction data generalizing t with
  | nil => exact refl t
  | cons c data ih => exact ((refl t).draw (.putchar t c)).trans (ih _)

theorem writestring (h : Undisturbed t s.term) (data : CString) :
    Undisturbed t (s.writestring data).term := by
  refine h.trans ?_
  show Undisturbed s.term (terminalWritestring s.term data)
  rw [terminalWritestring]
  split
  · exact .refl _
  · exact putchars _ _

theorem printf (h : Undisturbed t s.term) (format : CString) (args : List PrintfArg) :
    Undisturbed t (s.printf format args).term := by
  refine h.trans ?_
  show Undisturbed s.term (terminalPrintf s.term format args)
  rw [terminalPrintf]
  split
  · exact .refl _
  · exact putchars _ _

theorem setcolor (h : Undisturbed t s.term) (fg bg : UInt8) :
    Undisturbed t (s.setcolor fg bg).term :=
  h.draw (.setcolor s.term fg bg)

theorem clear (h : Undisturbed t s.term) : Undisturbed t (terminalClear s.term) :=
  h.draw (.clear s.term)

/-- The end of a kernel that has lost its last file. -/
theorem critical (s : KernelState) (message : CString) :
    Undisturbed s.term (kernelPanic (s.setcolor colorRed colorBlack) message).term := by
  have hcolor := ((refl s.term).setcolor colorRed colorBlack).setcolor colorRed colorWhite
  let s' : KernelState := { (s.setcolor colorRed colorBlack).setcolor colorRed colorWhite with
    term := terminalClear ((s.setcolor colorRed colorBlack).setcolor colorRed colorWhite).term }
  have hclear : Undisturbed s.term s'.term := hcolor.clear
  exact ((((((hclear.writestring _).writestring _).writestring _).writestring _).writestring
    _).writestring _).writestring _

theorem fsCreateFile (s : KernelState) (name : Name) (parentInode : Nat) (type : UInt8) :
    Undisturbed s.term (fsCreateFile s name parentInode type).2.term := by
  rw [Srunix.fsCreateFile]
  split
  · exact (refl s.term).writestring _
  split
  · exact (refl s.term).writestring _
  split
  · exact refl _
  cases hinode : fsAllocInode s.fs with
  | mk inodeNum fs =>
    cases inodeNum with
    | none => exact refl _
    | some n =>
      dsimp only
      split
      · exact critical _ _
      · exact refl _

theorem fsDeleteFile (s : KernelState) (n : Nat) :
    Undisturbed s.term (fsDeleteFile s n).2.term := by
  rw [Srunix.fsDeleteFile]
  split
  · exact refl _
  dsimp only
  split
  · exact critical _ _
  · exact refl _

theorem finishRm (s : KernelState) (name : NamePtr) (i : Nat) :
    Undisturbed s.term (finishRm s name i).term := by
  have hdel := fsDeleteFile s (s.fs.files i).inode
  rw [Srunix.finishRm]
  dsimp only
  split
  · exact hdel.printf _ _
  · exact hdel.writestring _

theorem mkfile (s : KernelState) (filename : Name) :
    Undisturbed s.term (executeMkfile s filename).term := by
  rw [executeMkfile]
  split
  · exact (refl _).writestring _
  split
  · exact (refl _).writestring _
  dsimp only
  split
  · exact (fsCreateFile ..).printf _ _
  · exact (fsCreateFile ..).writestring _

theorem mkdir (s : KernelState) (dirname : Name) :
    Undisturbed s.term (executeMkdir s dirname).term := by
  rw [executeMkdir]
  split
  · exact (refl _).writestring _
  split
  · exact (refl _).writestring _
  dsimp only
  split
  · exact (fsCreateFile ..).printf _ _
  · exact (fsCreateFile ..).writestring _

theorem createWithText (s : KernelState) (filename : Name) (text : CString) :
    Undisturbed s.term (createWithText s filename text).term := by
  have hcreate := fsCreateFile s filename s.fs.currentInode fileRegular
  rw [Srunix.createWithText]
  dsimp only
  split
  · split
    · exact hcreate.writestring _
    · exact hcreate.writestring _
  · exact hcreate.writestring _

theorem redirect (s : KernelState) (filename : Name) (text : CString) :
    Undisturbed s.term (executeRedirectOutput s filename text).term := by
  rw [executeRedirectOutput]
  split
  · dsimp only
    split
    · exact .refl _
    · exact (refl _).writestring _
  · exact createWithText s filename text

theorem append (s : KernelState) (filename : Name) (text : CString) (stack : Nat → UInt8) :
    Undisturbed s.term (executeAppendOutput s filename text stack).term := by
  rw [executeAppendOutput]
  split
  · dsimp only
    split
    · exact .refl _
    · exact (refl _).writestring _
  · exact createWithText s filename text

end Undisturbed

/-! ## Making a name -/

section Create

variable {s s' : KernelState} {m : Store}

/-- The conditions on a new name are those `fs_create_file` checks. -/
theorem FilesInv.make_iff (h : FilesInv s.fs m) (hcur : s.fs.currentInode ≠ 0) (name : Name) :
    (isValidFilename name.str = true ∧ (namespaceOf s).get name.str = none ∧
      (namespaceOf s).count < maxNames) ↔ ¬ CreateRefused s.fs name := by
  rw [h.not_createRefused hcur, get_namespaceOf]
  rfl

theorem FilesInv.make_of_refused (h : FilesInv s.fs m) (hcur : s.fs.currentInode ≠ 0) {name : Name}
    (href : CreateRefused s.fs name) (nd : Node) :
    (namespaceOf s).make name nd = namespaceOf s :=
  if_neg fun hok => (h.make_iff hcur name).mp hok href

/-- The entry that is made is the one of the specification. -/
theorem FilesInv.make_of_made (h : FilesInv s.fs m) (hcur : s.fs.currentInode ≠ 0) {name : Name}
    (href : ¬ CreateRefused s.fs name) (nd : Node) :
    (namespaceOf s).make name nd =
      { namespaceOf s with
        node := Function.update (nodes s.fs) (s.fs.currentInode, name.str) (some nd)
        count := (liveEntries s.fs).length + 1 } := by
  rw [Namespace.make, if_pos ((h.make_iff hcur name).mpr href), Namespace.set, cwd_namespaceOf]
  rfl

/-- `fs_create_file` in the working directory, whatever is printed about it. -/
theorem FilesInv.create (h : FilesInv s.fs m) (hshell : ShellInv s) (name : Name) {type : UInt8}
    (htype : type = fileDir ∨ type = fileRegular)
    (hfs : s'.fs = (fsCreateFile s name s.fs.currentInode type).2.fs)
    (hterm : SameTtys s.term s'.term) :
    ∃ m' n, FilesInv s'.fs m' ∧ (namespaceOf s).Fresh n ∧
      namespaceOf s' = (namespaceOf s).make name (if type = fileDir then .dir n else .file []) := by
  have hcur := hshell.cur_ne_zero
  rcases fsCreateFile_cases s name s.fs.currentInode type with
    ⟨href, -, hsame⟩ | ⟨href, i, hi, hmode, -, hnew⟩
  · have hprint : Prints s s' := ⟨hfs.trans hsame, hterm⟩
    refine ⟨m, maxInodes + 1, by rw [hprint.fs]; exact h, hshell.fresh ?_ h.names, ?_⟩
    · intro e he heq
      have hle := h.store.entries.inode_le h.store.wf he
      omega
    · rw [hprint.namespaceOf, h.make_of_refused hcur href]
  · have hfs' := hfs.trans hnew
    obtain ⟨-, hnone, -⟩ := (h.not_createRefused hcur).mp href
    refine ⟨_, i + 1, by rw [hfs']; exact h.created href hi hmode htype,
      hshell.fresh (fun e he => h.store.entries.fresh hmode he) h.names, ?_⟩
    rw [namespaceOf_of_same (by rw [hfs']; rfl) hterm, h.make_of_made hcur href, hfs',
      nodes_created h.store href hi hmode hnone, EntriesInv.liveEntries_created,
      List.length_append]
    rfl

end Create

theorem fs_of_createRefused {s : KernelState} {name : Name} (href : CreateRefused s.fs name)
    (parentInode : Nat) (type : UInt8) : (fsCreateFile s name parentInode type).2.fs = s.fs := by
  rcases fsCreateFile_cases s name parentInode type with ⟨-, -, hfs⟩ | ⟨hmade, -⟩
  · exact hfs
  · exact absurd href hmade

/-- The checks `touch` makes before the call are the call's own. -/
theorem executeMkfile_fs_eq (s : KernelState) (filename : Name) :
    (executeMkfile s filename).fs = (fsCreateFile s filename s.fs.currentInode fileRegular).2.fs := by
  rw [executeMkfile]
  by_cases hvalid : (!isValidFilename filename.str) = true
  · rw [if_pos hvalid, KernelState.writestring_fs]
    exact (fs_of_createRefused (.inl (by simpa using hvalid)) _ _).symm
  rw [if_neg hvalid]
  by_cases hexists : fileExistsInCurrentDir s.fs filename.str = true
  · rw [if_pos hexists, KernelState.writestring_fs]
    exact (fs_of_createRefused (.inr (.inl hexists)) _ _).symm
  rw [if_neg hexists]
  dsimp only
  split
  · rfl
  · rfl

theorem executeMkdir_fs_eq (s : KernelState) (dirname : Name) :
    (executeMkdir s dirname).fs = (fsCreateFile s dirname s.fs.currentInode fileDir).2.fs := by
  rw [executeMkdir]
  by_cases hvalid : (!isValidFilename dirname.str) = true
  · rw [if_pos hvalid, KernelState.writestring_fs]
    exact (fs_of_createRefused (.inl (by simpa using hvalid)) _ _).symm
  rw [if_neg hvalid]
  by_cases hexists : fileExistsInCurrentDir s.fs dirname.str = true
  · rw [if_pos hexists, KernelState.writestring_fs]
    exact (fs_of_createRefused (.inr (.inl hexists)) _ _).symm
  rw [if_neg hexists]
  dsimp only
  split
  · rfl
  · rfl

/-! ## Storing under a name -/

section Write

variable {s s' : KernelState} {m : Store}

/-- A text written to a regular file the blocks are there for. -/
theorem FilesInv.write {fs : Bkfs} (h : FilesInv fs m) {e : File} (he : e ∈ liveEntries fs)
    (htype : e.type = fileRegular) {text : CString} (hlen : strlen text < maxFileSize)
    (hroom : blocksNeeded (strlen text) ≤ (writeBlocks fs (e.inode - 1)).length) :
    ∃ fs', fsWriteFile fs e.inode text.mem (strlen text) = (fsSuccess, fs') ∧
      FilesInv fs' (Function.update m e.inode (some text.bytes)) ∧
      nodes fs' = Function.update (nodes fs) e.path (some (.file text.bytes)) ∧
      liveEntries fs' = liveEntries fs ∧ fs'.currentInode = fs.currentInode := by
  have hlive : LiveInode fs e.inode := liveInode_iff.mpr ⟨e, he, rfl⟩
  have hsize : strlen text ≤ inodeDirectBlocks * blockSize := by
    simp only [inodeDirectBlocks, blockSize, maxFileSize] at hlen ⊢
    omega
  have href : ¬ WriteRefused e.inode (strlen text) := fun hor =>
    hor.elim (h.store.entries.not_bad h.store.wf hlive)
      fun hbig => absurd (blocksNeeded_of_le hsize).2 (Nat.not_le.mpr hbig)
  have hl := (freshBlocks_writeBlocks fs (e.inode - 1)).take (blocksNeeded (strlen text))
  have hcount := List.length_take_of_le hroom
  refine ⟨_, ?_, h.written hlive hlen hl hcount, ?_, rfl, rfl⟩
  · rw [fsWriteFile_eq h.store.wf.freeBlocks_lt, if_neg href, if_pos hroom]
  · rw [nodes_written h.store h.names he (htype ▸ fileRegular_ne_fileDir) hl hcount hsize, table_mem]

/-- The same under the name it has in the working directory. -/
theorem FilesInv.write_named (h : FilesInv s.fs m) {filename : Name} {e : File}
    (he : e ∈ liveEntries s.fs) (hpath : e.path = (s.fs.currentInode, filename.str))
    (htype : e.type = fileRegular) {text : CString} (hlen : strlen text < maxFileSize)
    (hroom : blocksNeeded (strlen text) ≤ (writeBlocks s.fs (e.inode - 1)).length)
    (hfs : s'.fs = (fsWriteFile s.fs e.inode text.mem (strlen text)).2)
    (hterm : SameTtys s.term s'.term) :
    ∃ m', FilesInv s'.fs m' ∧ namespaceOf s' = (namespaceOf s).write filename text.bytes := by
  obtain ⟨fs', heq, hinv, hnodes, hlist, hcur⟩ := h.write he htype hlen hroom
  rw [heq] at hfs
  obtain ⟨old, -, -, hold⟩ := h.file_of_mem he htype
  rw [hpath] at hold hnodes
  refine ⟨_, by rw [hfs]; exact hinv, ?_⟩
  rw [namespaceOf_of_same (by rw [hfs]; exact hcur) hterm, hfs, Namespace.write, get_namespaceOf,
    hold, hnodes, hlist, Namespace.set, cwd_namespaceOf]
  rfl

/-- A file is made and written, or refused. -/
theorem createWithText_fs (s : KernelState) (filename : Name) (text : CString) :
    (CreateRefused s.fs filename ∧ (createWithText s filename text).fs = s.fs) ∨
      (¬ CreateRefused s.fs filename ∧ ∃ i < maxInodes, (s.fs.inodes i).mode = 0 ∧
        (createWithText s filename text).fs = (fsWriteFile
          (created s.fs i filename s.fs.currentInode fileRegular) (i + 1) text.mem (strlen text)).2) := by
  have houtcome := fsCreateFile_cases s filename s.fs.currentInode fileRegular
  rw [createWithText]
  generalize fsCreateFile s filename s.fs.currentInode fileRegular = result at houtcome ⊢
  obtain ⟨r, t⟩ := result
  dsimp only at houtcome ⊢
  rcases houtcome with ⟨href, hret, hfs⟩ | ⟨href, i, hi, hmode, hret, hfs⟩
  · have hfailed : ¬ r = fsSuccess := by
      rw [hret]
      decide
    rw [if_neg hfailed, KernelState.writestring_fs]
    exact .inl ⟨href, hfs⟩
  · refine .inr ⟨href, i, hi, hmode, ?_⟩
    -- the entry the shell writes to is the last one, which is the new one
    have hlast : (t.fs.files (t.fs.fileCount - 1)).inode = i + 1 := by
      rw [hfs]
      show ((created s.fs i filename s.fs.currentInode fileRegular).files
        (s.fs.fileCount + 1 - 1)).inode = i + 1
      rw [Nat.add_sub_cancel, created_last]
      rfl
    have hwrite : (writeText t (i + 1) text).2.fs = (fsWriteFile
        (created s.fs i filename s.fs.currentInode fileRegular) (i + 1) text.mem (strlen text)).2 := by
      rw [← hfs]
      rfl
    rw [if_pos hret, hlast]
    split
    · rw [KernelState.writestring_fs, hwrite]
    · rw [KernelState.writestring_fs, hwrite]

/-- A text for a name no file has: the file is made first, if it may be. -/
theorem FilesInv.createWithText (h : FilesInv s.fs m) (hcur : s.fs.currentInode ≠ 0)
    {filename : Name} (hnone : ∀ d, nodes s.fs (s.fs.currentInode, filename.str) ≠ some (.file d))
    {text : CString} (hlen : strlen text < maxFileSize)
    (hroom : blocksNeeded (strlen text) ≤ (takeable s.fs).length)
    (hfs : s'.fs = (Srunix.createWithText s filename text).fs) (hterm : SameTtys s.term s'.term) :
    ∃ m', FilesInv s'.fs m' ∧ namespaceOf s' = (namespaceOf s).write filename text.bytes := by
  have hmake : (namespaceOf s).write filename text.bytes
      = (namespaceOf s).make filename (.file text.bytes) := by
    rw [Namespace.write, get_namespaceOf]
    split
    · exact absurd ‹_› (hnone _)
    · rfl
  rw [hmake]
  rcases createWithText_fs s filename text with ⟨href, hsame⟩ | ⟨href, i, hi, hmode, hnew⟩
  · have hprint : Prints s s' := ⟨hfs.trans hsame, hterm⟩
    refine ⟨m, by rw [hprint.fs]; exact h, ?_⟩
    rw [hprint.namespaceOf, h.make_of_refused hcur href]
  · obtain ⟨-, hfree, -⟩ := (h.not_createRefused hcur).mp href
    have hcreated := h.created href hi hmode (.inr rfl)
    let e := newEntry (i + 1) filename s.fs.currentInode fileRegular
    have hmem : e ∈ liveEntries (Srunix.created s.fs i filename s.fs.currentInode fileRegular) := by
      rw [EntriesInv.liveEntries_created]
      exact List.mem_append_right _ (List.mem_singleton_self _)
    have hblocks : writeBlocks (Srunix.created s.fs i filename s.fs.currentInode fileRegular) (e.inode - 1)
        = takeable s.fs := writeBlocks_created h.store.wf
    obtain ⟨fs', heq, hinv, hnodes, hlist, hcur'⟩ :=
      hcreated.write hmem rfl hlen (by rw [hblocks]; exact hroom)
    have hfs' : s'.fs = fs' := by
      rw [hfs, hnew]
      exact congrArg Prod.snd heq
    refine ⟨_, by rw [hfs']; exact hinv, ?_⟩
    -- two updates at one name: empty, and then with the text
    have hpath : e.path = (s.fs.currentInode, filename.str) := rfl
    rw [namespaceOf_of_same (by rw [hfs', hcur']; rfl) hterm, h.make_of_made hcur href, hfs', hnodes,
      hlist, nodes_created h.store href hi hmode hfree, hpath, Function.update_idem,
      EntriesInv.liveEntries_created, List.length_append]
    rfl

end Write

/-! ## One command -/

section Commands

variable {s s' : KernelState} {m : Store}

/-- **`>`** does what its specification says. -/
theorem FilesInv.redirect (h : FilesInv s.fs m) (hshell : ShellInv s) {filename : Name}
    {text : CString} (hlen : strlen text < maxFileSize)
    (hroom : blocksNeeded (strlen text) ≤ blocksFor s.fs filename.str) :
    ∃ m', FilesInv (executeRedirectOutput s filename text).fs m' ∧
      namespaceOf (executeRedirectOutput s filename text)
        = (namespaceOf s).write filename text.bytes := by
  have hterm := (Undisturbed.redirect s filename text).toSameTtys
  rw [blocksFor] at hroom
  rcases h.findRegular_cases hshell.cur_ne_zero filename.str with
    ⟨i, hfound, hlive, hpath, htype⟩ | ⟨hfound, hnone⟩
  · rw [hfound] at hroom
    refine h.write_named hlive hpath htype hlen hroom ?_ hterm
    rw [executeRedirectOutput, hfound]
    dsimp only
    split
    · rfl
    · rfl
  · rw [hfound] at hroom
    refine h.createWithText hshell.cur_ne_zero hnone hlen hroom ?_ hterm
    rw [executeRedirectOutput, hfound]

/-- **`>>`** does what its specification says; the old content is read whole, since it
fits the buffer. -/
theorem FilesInv.append (h : FilesInv s.fs m) (hshell : ShellInv s) {filename : Name}
    {text : CString} (stack : Nat → UInt8) {new : List UInt8}
    (hnew : (namespaceOf s).withText filename.str text.bytes = new)
    (hlen : new.length < maxFileSize) (hroom : blocksNeeded new.length ≤ blocksFor s.fs filename.str) :
    ∃ m', FilesInv (executeAppendOutput s filename text stack).fs m' ∧
      namespaceOf (executeAppendOutput s filename text stack) = (namespaceOf s).write filename new := by
  have hterm := (Undisturbed.append s filename text stack).toSameTtys
  rw [blocksFor] at hroom
  rw [Namespace.withText, get_namespaceOf] at hnew
  rcases h.findRegular_cases hshell.cur_ne_zero filename.str with
    ⟨i, hfound, hlive, hpath, htype⟩ | ⟨hfound, hnone⟩
  · rw [hfound] at hroom
    obtain ⟨old, hold, holdLen, hnode⟩ := h.file_of_mem hlive htype
    rw [hpath] at hnode
    rw [hnode] at hnew
    -- what goes back is the old content, read whole, and the text
    let n := (s.fs.files i).inode
    have hwf := h.store.wf
    have hbad := h.store.not_bad hold
    have hholds := h.store.refines.holds _ _ hold
    obtain ⟨hbytes, -⟩ := newContent_readInto hwf hbad hholds stack text
    rw [take_whole holdLen] at hbytes
    have hcontent : (newContent (readInto s.fs n stack) text).str.bytes = new := hbytes.trans hnew
    have hread : (readInto s.fs n stack).fs = Srunix.accessed s.fs n :=
      (readInto_of_holds hwf hbad hholds stack).2.2.2
    let t : KernelState := { s with fs := Srunix.accessed s.fs n }
    have hstore := sameStore_accessed s.fs n
    have haccessed : FilesInv t.fs m := h.accessed n
    have hlist : liveEntries t.fs = liveEntries s.fs := by
      rw [liveEntries, entries, hstore.files, hstore.fileCount]
      rfl
    have hns : namespaceOf t = namespaceOf s := by
      have hsame : namespaceOf t = { namespaceOf s with
          node := nodes (Srunix.accessed s.fs n), count := (liveEntries t.fs).length } :=
        namespaceOf_of_same hstore.currentInode (SameTtys.refl s.term)
      rw [hsame, hlist, nodes_accessed h.store]
      rfl
    have hresult : ∃ m', FilesInv (executeAppendOutput s filename text stack).fs m' ∧
        namespaceOf (executeAppendOutput s filename text stack)
          = (namespaceOf t).write filename (newContent (readInto s.fs n stack) text).str.bytes := by
      refine haccessed.write_named (e := s.fs.files i) (by rw [hlist]; exact hlive) ?_ htype ?_ ?_ ?_ hterm
      · rw [hstore.currentInode]
        exact hpath
      · rw [strlen, hcontent]
        exact hlen
      · rw [strlen, hcontent, hstore.writeBlocks]
        exact hroom
      · rw [executeAppendOutput_eq hfound]
        dsimp only
        rw [hread, hstore.files]
        split
        · rfl
        · rfl
    rwa [hns, hcontent] at hresult
  · rw [hfound] at hroom
    have htext : new = text.bytes := by
      rw [← hnew]
      split
      · exact absurd ‹_› (hnone _)
      · rfl
    rw [htext] at hlen hroom ⊢
    refine h.createWithText hshell.cur_ne_zero hnone hlen hroom ?_ hterm
    rw [executeAppendOutput, hfound]

/-- **`cd`** does what its specification says, in each of its cases. -/
theorem FilesInv.cd (h : FilesInv s.fs m) (hshell : ShellInv s) (dirname : Option CString) :
    FilesInv (executeCd s dirname).fs m ∧
      (namespaceOf s).Goes dirname (namespaceOf (executeCd s dirname)) := by
  have hcur := hshell.cur_ne_zero
  refine ⟨?_, ?_⟩
  · rcases executeCd_cases s dirname with ⟨n, -, heq⟩ | ⟨-, hprint⟩
    · rw [heq]
      exact h.chdir n
    · rw [hprint.fs]
      exact h
  cases dirname with
  | none => exact namespaceOf_chdir s 1
  | some dirname =>
    rw [Namespace.Goes]
    split
    · rename_i hempty
      rw [executeCd_of_target (n := 1) (by rw [cdTarget, if_pos hempty])]
      exact namespaceOf_chdir s 1
    rename_i hempty
    split
    · rename_i hup
      obtain ⟨e, he, hinode, htype⟩ := hshell.current
      have htarget := hshell.tree.dirTree.walkable.cdTarget_up he hinode
      rw [hup, executeCd_of_target htarget, cwd_namespaceOf]
      refine ⟨e.parentInode, e.name, ?_, namespaceOf_chdir s _⟩
      have hnode := nodes_of_mem h.names he
      rw [nodeOf_dir htype, hinode] at hnode
      exact hnode
    rename_i hup
    rw [get_namespaceOf]
    cases hd : cdTarget s.fs (some dirname) with
    | some n =>
      obtain ⟨e, he, hparent, hname, htype, hinode⟩ :=
        hshell.tree.dirTree.walkable.entry_of_cdTarget hcur hempty hup hd
      have hnode := nodes_of_mem h.names he
      rw [nodeOf_dir htype, hinode, File.path, hparent, hname] at hnode
      rw [hnode, executeCd_of_target hd]
      exact namespaceOf_chdir s n
    | none =>
      have hprint : Prints s (executeCd s (some dirname)) := by
        rcases executeCd_cases s (some dirname) with ⟨n, hsome, -⟩ | ⟨-, hprint⟩
        · rw [hd] at hsome
          cases hsome
        · exact hprint
      rw [hprint.namespaceOf]
      split
      · -- a directory would have been found
        rename_i n hnode
        obtain ⟨e, he, hpath, hdir⟩ := (nodes_eq_some_iff h.names).mp hnode
        have htype : e.type = fileDir := by
          by_contra hfile
          rw [nodeOf_file hfile] at hdir
          cases hdir
        obtain ⟨i, hi, rfl⟩ := mem_entries.mp (mem_liveEntries.mp he).1
        obtain ⟨hparent, hname⟩ := Prod.mk.inj hpath
        have hscan := hd
        rw [cdTarget, if_neg hempty, if_neg (fun hz => hup (strcmp_eq_zero_iff.mp hz)),
          Option.map_eq_none_iff] at hscan
        have hmiss := firstIndex_eq_none_iff.mp hscan i hi
        rw [hparent, hname, htype, strcmp_eq_zero_iff.mpr rfl, beq_self_eq_true, beq_self_eq_true,
          beq_self_eq_true] at hmiss
        cases hmiss
      · rfl

/-- The entry of a number is one entry. -/
theorem length_without {fs : Bkfs} (h : EntriesInv fs) {e : File} (he : e ∈ liveEntries fs) :
    ((liveEntries fs).filter fun e' => e'.inode ≠ e.inode).length = (liveEntries fs).length - 1 := by
  have hone : ((liveEntries fs).map File.inode).count e.inode = 1 :=
    List.count_eq_one_of_mem h.nodup (List.mem_map_of_mem he)
  rw [List.count, List.countP_map] at hone
  have hsplit := (liveEntries fs).length_eq_countP_add_countP fun e' => e'.inode == e.inode
  have hrest : (liveEntries fs).countP (fun e' => decide ¬ (e'.inode == e.inode) = true)
      = ((liveEntries fs).filter fun e' => e'.inode ≠ e.inode).length := by
    rw [List.countP_eq_length_filter]
    simp
  rw [hrest] at hsplit
  have hone' : (liveEntries fs).countP (fun e' => e'.inode == e.inode) = 1 := hone
  omega

/-- One entry is removed. -/
theorem FilesInv.finishRm (h : FilesInv s.fs m) {name : CString} {ptr : NamePtr} {i : Nat}
    (hlive : s.fs.files i ∈ liveEntries s.fs)
    (hpath : (s.fs.files i).path = (s.fs.currentInode, name)) :
    ∃ m', FilesInv (finishRm s ptr i).fs m' ∧
      namespaceOf (finishRm s ptr i) = (namespaceOf s).unset name := by
  have hnode : LiveInode s.fs (s.fs.files i).inode := liveInode_iff.mpr ⟨_, hlive, rfl⟩
  have hbad := h.store.entries.not_bad h.store.wf hnode
  -- the inode number is good, so `fs_delete_file` succeeds
  have hfs : (Srunix.finishRm s ptr i).fs = Srunix.deleted s.fs (s.fs.files i).inode := by
    rw [finishRm_fs]
    have hcases := fsDeleteFile_cases (s := s) h.store.wf.freeBlocks_lt
      (h.store.wf.blocks_le ((s.fs.files i).inode - 1))
    rcases hcases with ⟨hrefused, -⟩ | ⟨-, -, hdel⟩
    · exact absurd hrefused hbad
    · exact hdel
  have hcur : (Srunix.deleted s.fs (s.fs.files i).inode).currentInode = s.fs.currentInode :=
    FsOutcome.currentInode (c := .delete (s.fs.files i).inode) (r := fsSuccess) (.deleted hbad) nofun
  refine ⟨_, by rw [hfs]; exact h.deleted hnode, ?_⟩
  rw [namespaceOf_of_same (by rw [hfs, hcur]) (finishRm_same s ptr i), hfs,
    nodes_deleted h.store h.names hlive, hpath,
    h.store.entries.liveEntries_deleted (mem_liveEntries.mp hlive).2,
    length_without h.store.entries hlive, Namespace.unset, cwd_namespaceOf]
  rfl

/-- An empty directory nobody stands in is what `RmOk` asks for. -/
theorem FilesInv.rmOk (h : FilesInv s.fs m) (hshell : ShellInv s) {c : ShellCmd}
    (hok : (namespaceOf s).Removable c) : RmOk s c := by
  cases c with
  | rm name recursive =>
    cases recursive with
    | false => trivial
    | true =>
      intro i hfind htype
      rcases h.findInCurrentDir_cases hshell.cur_ne_zero name with ⟨j, hj, hlive, hpath⟩ | ⟨hnone, -⟩
      swap
      · rw [hnone] at hfind
        cases hfind
      obtain rfl : j = i := Option.some.inj (hj.symm.trans hfind)
      have hnode := nodes_of_mem h.names hlive
      rw [hpath, nodeOf_dir htype] at hnode
      obtain ⟨hempty, hdirs⟩ := hok _ ((get_namespaceOf s name).trans hnode)
      refine ⟨fun c hc hparent => ?_, hdirs⟩
      have hmem : c ∈ liveEntries s.fs := by
        refine h.store.entries.live_of_parent hc ?_
        rw [hparent]
        exact (mem_liveEntries.mp hlive).2
      exact nodes_eq_none_iff.mp (hempty c.name) c hmem (by rw [File.path, hparent])
  | _ => trivial

/-- **`rm`** does what its specification says: the directory is empty, so there is no
recursion. -/
theorem FilesInv.rm (h : FilesInv s.fs m) (hshell : ShellInv s) {name : CString} {recursive : Bool}
    (hok : RmOk s (.rm name recursive)) {fuel : Nat}
    (hrun : executeRm fuel s (.buffer name) recursive = some s') :
    ∃ m', FilesInv s'.fs m' ∧ namespaceOf s' = (namespaceOf s).remove name recursive := by
  have hcases := h.findInCurrentDir_cases hshell.cur_ne_zero name
  rw [Namespace.remove, get_namespaceOf]
  cases rmRun_of_executeRm hrun with
  | missing hfind =>
    rcases hcases with ⟨i, hi, -⟩ | ⟨-, hnone⟩
    · cases hi.symm.trans hfind
    · rw [hnone]
      exact ⟨m, h, ((Prints.refl s).printf _ _).namespaceOf⟩
  | @regular _ _ _ i hfind htype =>
    -- the first matching entry is the live entry of that name
    rcases hcases with ⟨j, hj, hlive, hpath⟩ | ⟨hnone, -⟩
    swap
    · cases hnone.symm.trans hfind
    obtain rfl : j = i := Option.some.inj (hj.symm.trans hfind)
    have hnode := nodes_of_mem h.names hlive
    rw [hpath, nodeOf_file htype] at hnode
    rw [hnode]
    exact h.finishRm hlive hpath
  | @refused _ _ i hfind htype =>
    rcases hcases with ⟨j, hj, hlive, hpath⟩ | ⟨hnone, -⟩
    swap
    · cases hnone.symm.trans hfind
    obtain rfl : j = i := Option.some.inj (hj.symm.trans hfind)
    have hnode := nodes_of_mem h.names hlive
    rw [hpath, nodeOf_dir htype] at hnode
    rw [hnode]
    exact ⟨m, h, ((Prints.refl s).writestring _).namespaceOf⟩
  | @dir _ _ _ i hfind htype hchildren =>
    rcases hcases with ⟨j, hj, hlive, hpath⟩ | ⟨hnone, -⟩
    swap
    · cases hnone.symm.trans hfind
    obtain rfl : j = i := Option.some.inj (hj.symm.trans hfind)
    have hnode := nodes_of_mem h.names hlive
    rw [hpath, nodeOf_dir htype] at hnode
    rw [hnode]
    -- `RmOk` leaves the loop over the children nothing to do
    obtain ⟨hempty, -⟩ := hok _ hfind htype
    cases hchildren.idle fun k hk => hempty _ (files_mem_entries hk)
    exact h.finishRm hlive hpath

theorem namespaceOf_enterTty (s : KernelState) (n : Nat) :
    namespaceOf (enterTty s n) = { namespaceOf s with tty := n } := by
  have hdir : ttyDir (enterTty s n) = ttyDir s := funext fun t => ttyDir_enterTty s n t
  rw [namespaceOf, hdir]
  rfl

/-- **A switch** does what its specification says. -/
theorem FilesInv.switchTty (h : FilesInv s.fs m) (hmode : s.term.smouseMode = false) (n : Int) :
    FilesInv (switchTty s n).fs m ∧ namespaceOf (switchTty s n) = (namespaceOf s).switchTo n := by
  rw [Namespace.switchTo]
  by_cases hout : n < 0 ∨ n ≥ maxTtys
  · have hstay : Srunix.switchTty s n = s := by
      rw [Srunix.switchTty, hmode, if_neg Bool.false_ne_true, if_pos hout]
    have hnot : ¬ (0 ≤ n ∧ n < maxTtys) := fun hin => by omega
    rw [hstay, if_neg hnot]
    exact ⟨h, rfl⟩
  · have henter : FilesInv (enterTty s n.toNat).fs m := h.chdir _
    have hin : 0 ≤ n ∧ n < maxTtys := by omega
    rw [switchTty_of_in hmode hout, if_pos hin, ← namespaceOf_enterTty]
    split
    · exact ⟨henter, rfl⟩
    · have hprint := loginScreen_prints (enterTty s n.toNat)
      rw [hprint.fs]
      exact ⟨henter, hprint.namespaceOf⟩

/-- The flags are no part of the namespace. -/
theorem namespaceOf_setLoggedIn (s : KernelState) (b : Bool) :
    namespaceOf (setLoggedIn s b) = namespaceOf s := by
  have hdir : ttyDir (setLoggedIn s b) = ttyDir s := by
    funext t
    by_cases ht : t = s.term.currentTty
    · rw [ttyDir, ttyDir, if_pos ht]
      exact if_pos ht
    · have hslot : ((setLoggedIn s b).term.ttys t).currentInode = (s.term.ttys t).currentInode :=
        congrArg TTY.currentInode (Function.update_of_ne ht _ _)
      rw [ttyDir, ttyDir, if_neg ht, ← hslot]
      exact if_neg ht
  rw [namespaceOf, hdir]
  rfl

end Commands

/-! ## Whole sessions -/

/-- The mouse is not the shell's to turn on. -/
theorem RmRun.undisturbed {task : RmTask} {s s' : KernelState} (h : RmRun task s s') :
    Undisturbed s.term s'.term := by
  induction h with
  | missing => exact (Undisturbed.refl _).printf _ _
  | refused => exact (Undisturbed.refl _).writestring _
  | regular => exact .finishRm ..
  | dir _ _ _ ih => exact ih.trans (.finishRm ..)
  | child _ _ _ _ ih ih' => exact ih.trans ih'
  | other _ _ _ ih => exact ih
  | done => exact .refl _

theorem loginScreen_undisturbed (s : KernelState) : Undisturbed s.term (loginScreen s).term := by
  let s' : KernelState := { s.setcolor colorGray colorBlack with
    term := terminalClear (s.setcolor colorGray colorBlack).term }
  have hclear : Undisturbed s.term s'.term := ((Undisturbed.refl s.term).setcolor _ _).clear
  exact ((((((hclear.writestring _).writestring _).writestring _).writestring _).setcolor _
    _).writestring _).writestring _

theorem shellBanner_undisturbed (s : KernelState) : Undisturbed s.term (shellBanner s).term :=
  (((((((Undisturbed.refl s.term).setcolor _ _).writestring _).writestring _).writestring
    _).setcolor _ _).writestring _).setcolor _ _

theorem executeCd_undisturbed (s : KernelState) (dirname : Option CString) :
    Undisturbed s.term (executeCd s dirname).term := by
  unfold executeCd
  cases dirname with
  | none => exact .refl _
  | some dirname =>
    dsimp only
    split
    · exact .refl _
    split
    · split
      · exact .refl _
      · exact (Undisturbed.refl _).writestring _
    · split
      · exact .refl _
      · exact (((Undisturbed.refl _).writestring _).writestring _).writestring _

theorem switchTty_mouse (s : KernelState) (n : Int) :
    (switchTty s n).term.smouseMode = s.term.smouseMode := by
  rcases switchTty_cases s n with heq | ⟨k, -, heq | heq⟩
  · rw [heq]
  · rw [heq]
    rfl
  · rw [heq]
    exact (loginScreen_undisturbed _).mouse

/-- The commands on files, which leave the terminals to themselves. -/
def ShellCmd.OnFiles : ShellCmd → Prop
  | .switchTty _ | .login => False
  | _ => True

/-- A command on files draws, and leaves the records. -/
theorem execShellCmd_undisturbed {fuel : Nat} {s s' : KernelState} {c : ShellCmd} (hc : c.OnFiles)
    (h : execShellCmd fuel s c = some s') : Undisturbed s.term s'.term := by
  cases c with
  | touch filename =>
    cases h
    exact .mkfile ..
  | mkdir dirname =>
    cases h
    exact .mkdir ..
  | rm name recursive => exact (rmRun_of_executeRm h).undisturbed
  | cd dirname =>
    cases h
    exact executeCd_undisturbed s dirname
  | redirect filename text =>
    cases h
    exact .redirect ..
  | append filename text stack =>
    cases h
    exact .append ..
  | switchTty ttyNum => exact hc.elim
  | login => exact hc.elim

theorem execShellCmd_mouse {fuel : Nat} {s s' : KernelState} {c : ShellCmd}
    (h : execShellCmd fuel s c = some s') : s'.term.smouseMode = s.term.smouseMode := by
  have hfiles : c.OnFiles → s'.term.smouseMode = s.term.smouseMode :=
    fun hc => (execShellCmd_undisturbed hc h).mouse
  cases c with
  | switchTty ttyNum =>
    cases h
    exact switchTty_mouse s ttyNum
  | login =>
    cases h
    have hwelcome := (Undisturbed.refl s.term).writestring "\nWelcome to Srunix86 livecd\n"
    exact (shellBanner_undisturbed _).mouse.trans hwelcome.mouse
  | touch | mkdir | rm | cd | redirect | append => exact hfiles trivial

/-- What a session keeps, next to the namespace it stands for. -/
structure SessionInv (s : KernelState) (ns : Namespace) : Prop where
  shell : ShellInv s
  files : ∃ m, FilesInv s.fs m
  mode : s.term.smouseMode = false
  view : ns = namespaceOf s

/-- **Each command is a step of the namespace.** -/
theorem SessionInv.step {s s' : KernelState} {ns : Namespace} (h : SessionInv s ns) {c : ShellCmd}
    (hok : CmdOk s c) {fuel : Nat} (hrun : execShellCmd fuel s c = some s') :
    ∃ ns', NsStep ns c ns' ∧ SessionInv s' ns' := by
  obtain ⟨hshell, ⟨m, hfiles⟩, hmode, rfl⟩ := h
  -- the condition on the namespace is the one on the files
  have hrm := hfiles.rmOk hshell hok.removable
  have hshell' := hshell.step hrm hrun
  have hmode' := (execShellCmd_mouse hrun).trans hmode
  suffices hstep : NsStep (namespaceOf s) c (namespaceOf s') ∧ ∃ m', FilesInv s'.fs m' from
    ⟨_, hstep.1, hshell', hstep.2, hmode', rfl⟩
  cases c with
  | touch filename =>
    cases hrun
    obtain ⟨m', n, hfiles', -, hns⟩ := hfiles.create hshell filename (.inr rfl)
      (executeMkfile_fs_eq s filename) (Undisturbed.mkfile s filename).toSameTtys
    exact ⟨hns, m', hfiles'⟩
  | mkdir dirname =>
    cases hrun
    obtain ⟨m', n, hfiles', hfresh, hns⟩ := hfiles.create hshell dirname (.inl rfl)
      (executeMkdir_fs_eq s dirname) (Undisturbed.mkdir s dirname).toSameTtys
    exact ⟨⟨n, hfresh, hns⟩, m', hfiles'⟩
  | rm name recursive =>
    obtain ⟨m', hfiles', hns⟩ := hfiles.rm hshell hrm hrun
    exact ⟨hns, m', hfiles'⟩
  | cd dirname =>
    cases hrun
    obtain ⟨hfiles', hns⟩ := hfiles.cd hshell dirname
    exact ⟨hns, m, hfiles'⟩
  | redirect filename text =>
    cases hrun
    obtain ⟨hlen, hroom⟩ := hok.stored filename text.bytes rfl
    obtain ⟨m', hfiles', hns⟩ := hfiles.redirect hshell hlen hroom
    exact ⟨hns, m', hfiles'⟩
  | append filename text stack =>
    cases hrun
    obtain ⟨hlen, hroom⟩ := hok.stored filename _ rfl
    obtain ⟨m', hfiles', hns⟩ := hfiles.append hshell stack rfl hlen hroom
    exact ⟨hns, m', hfiles'⟩
  | switchTty ttyNum =>
    cases hrun
    obtain ⟨hfiles', hns⟩ := hfiles.switchTty hmode ttyNum
    exact ⟨hns, m, hfiles'⟩
  | login =>
    cases hrun
    -- a login prints, and marks the terminal
    have hwelcome := (Prints.refl s).writestring "\nWelcome to Srunix86 livecd\n"
    have hbanner := shellBanner_prints
      (setLoggedIn (s.writestring "\nWelcome to Srunix86 livecd\n") true)
    have hfs : (setLoggedIn (s.writestring "\nWelcome to Srunix86 livecd\n") true).fs = s.fs := rfl
    refine ⟨?_, m, ?_⟩
    · show namespaceOf (shellBanner _) = namespaceOf s
      rw [hbanner.namespaceOf, namespaceOf_setLoggedIn, hwelcome.namespaceOf]
    · show FilesInv (shellBanner _).fs m
      rw [hbanner.fs, hfs]
      exact hfiles

theorem filesInv_kernelMain : FilesInv kernelMain.fs bootStore := by
  refine ⟨storeInv_kernelMain, countsExact_kernelMain.inodes, distinctNames_kernelMain, ?_, ?_, ?_⟩
  · decide +kernel
  · decide +kernel
  · intro n d hd
    rw [bootStore] at hd
    split at hd
    · obtain rfl : [] = d := Option.some.inj hd
      exact ⟨List.not_mem_nil, by decide⟩
    · cases hd

theorem sessionInv_boot : SessionInv (loginScreen kernelMain) (namespaceOf kernelMain) := by
  have hprint := loginScreen_prints kernelMain
  have hmode : kernelMain.term.smouseMode = false := by
    decide +kernel
  refine ⟨shellInv_kernelMain.print hprint, ⟨bootStore, ?_⟩, ?_, hprint.namespaceOf.symm⟩
  · rw [hprint.fs]
    exact filesInv_kernelMain
  · exact (loginScreen_undisturbed kernelMain).mouse.trans hmode

/-- A file is read back whole, whatever its buffer held. -/
theorem FilesInv.read_of_get {s : KernelState} {m : Store} (h : FilesInv s.fs m) (hshell : ShellInv s)
    {name : CString} {d : List UInt8} (hget : (namespaceOf s).get name = some (.file d)) :
    ∃ i, findRegular s.fs name = some i ∧ ∀ stack,
      (readInto s.fs (s.fs.files i).inode stack).bytesRead = d.length ∧
        table (readInto s.fs (s.fs.files i).inode stack).content d.length = d := by
  rw [get_namespaceOf] at hget
  rcases h.findRegular_cases hshell.cur_ne_zero name with
    ⟨i, hfound, hlive, hpath, htype⟩ | ⟨-, hnone⟩
  swap
  · exact absurd hget (hnone d)
  obtain ⟨old, hold, hlen, hnode⟩ := h.file_of_mem hlive htype
  rw [hpath, hget] at hnode
  obtain rfl : d = old.bytes := Node.file.inj (Option.some.inj hnode)
  refine ⟨i, hfound, fun stack => ?_⟩
  obtain ⟨hcount, htable, -⟩ :=
    readInto_of_holds h.store.wf (h.store.not_bad hold) (h.store.refines.holds _ _ hold) stack
  have hmin : min (maxFileSize - 1) old.bytes.length = old.bytes.length :=
    Nat.min_eq_right (Nat.le_sub_one_of_lt hlen)
  rw [hmin] at hcount
  rw [hcount, take_whole hlen] at htable
  exact ⟨hcount, htable⟩

/-- **The shell refines its namespace.** A session that keeps clear of what goes
wrong does to the names, the contents and the terminals' directories what its
commands are for, one after the other; and what a name stands for in the end is
what reading it returns. -/
theorem namespace_of_run {cmds : List ShellCmd} {s : KernelState} (h : ShellRun CmdOk cmds s) :
    Steps NsStep (namespaceOf kernelMain) cmds (namespaceOf s) ∧
      ∀ name d, (namespaceOf s).get name = some (.file d) →
        ∃ i, findRegular s.fs name = some i ∧ ∀ stack,
          (readInto s.fs (s.fs.files i).inode stack).bytesRead = d.length ∧
            table (readInto s.fs (s.fs.files i).inode stack).content d.length = d := by
  have hsim : ∃ ns, Steps NsStep (namespaceOf kernelMain) cmds ns ∧ SessionInv s ns := by
    refine Steps.simulation h sessionInv_boot ?_
    rintro s c t ns hinv ⟨hok, fuel, hrun⟩
    exact hinv.step hok hrun
  obtain ⟨ns, hsteps, hinv⟩ := hsim
  obtain ⟨m, hfiles⟩ := hinv.files
  rw [hinv.view] at hsteps
  exact ⟨hsteps, fun name d hget => hfiles.read_of_get hinv.shell hget⟩

/-- Two lines into a file of the root directory. -/
theorem namespace_of_run_note : ∃ s,
    Steps NsStep (namespaceOf kernelMain)
        [.redirect "note" "one", .append "note" "two" fun _ => 0] (namespaceOf s) ∧
      (namespaceOf s).get "note" = some (.file (CString.bytes "one\ntwo")) ∧
      ∃ i, findRegular s.fs "note" = some i ∧ ∀ stack,
        table (readInto s.fs (s.fs.files i).inode stack).content 7 = CString.bytes "one\ntwo" := by
  let s₀ := loginScreen kernelMain
  let s₁ := executeRedirectOutput s₀ "note" "one"
  let s₂ := executeAppendOutput s₁ "note" "two" fun _ => 0
  have hfirst : CmdOk s₀ (.redirect "note" "one") := by
    refine ⟨trivial, fun name content hstored => ?_⟩
    cases hstored
    decide +kernel
  -- the second line is judged in the state the first one leaves
  have hsecond : CmdOk s₁ (.append "note" "two" fun _ => 0) := by
    refine ⟨trivial, fun name content hstored => ?_⟩
    cases hstored
    decide +kernel
  have hrun : ShellRun CmdOk [.redirect "note" "one", .append "note" "two" fun _ => 0] s₂ :=
    .cons ⟨hfirst, 0, rfl⟩ (.cons ⟨hsecond, 0, rfl⟩ (.nil _))
  obtain ⟨hsteps, hread⟩ := namespace_of_run hrun
  have hget : (namespaceOf s₂).get "note" = some (.file (CString.bytes "one\ntwo")) := by
    decide +kernel
  obtain ⟨i, hfound, hread⟩ := hread _ _ hget
  exact ⟨s₂, hsteps, hget, i, hfound, fun stack => (hread stack).2⟩

end Srunix
