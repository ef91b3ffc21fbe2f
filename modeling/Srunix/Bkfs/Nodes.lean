import Srunix.Bkfs.Sizes
import Srunix.Bkfs.Store
import Srunix.Bkfs.Clash
import Srunix.Bkfs.Counts
import Srunix.Library.Keyed

/-!
# What a name stands for

`nodes fs` reads the whole file system as a table: a directory number and a
name give the directory or the content that is there. Nothing of inodes, blocks
and slots is left in it, and `readdir`, `open` and `read` of a user would see no
more.

As long as the blocks are each file's own (`StoreInv`) and no two entries share
directory and name (`DistinctNames`), the three calls that change the disk
change the table at one place: `nodes_created`, `nodes_written`,
`nodes_deleted`.
-/

namespace Srunix

open Library

/-- What a name stands for: a directory, known by its number, or a content. -/
inductive Node where
  | dir (inodeNum : Nat)
  | file (content : List UInt8)
deriving DecidableEq

/-- What an entry stands for: the directory its inode is, or the bytes its blocks
hold. -/
def nodeOf (fs : Bkfs) (e : File) : Node :=
  if e.type = fileDir then .dir e.inode else .file (contentOf fs e.inode)

/-- The entries in use, as a map from directory and name. -/
def nodes (fs : Bkfs) : Nat × CString → Option Node :=
  lookup File.path (nodeOf fs) (liveEntries fs)

theorem nodeOf_dir {fs : Bkfs} {e : File} (htype : e.type = fileDir) :
    nodeOf fs e = .dir e.inode := if_pos htype

theorem nodeOf_file {fs : Bkfs} {e : File} (htype : e.type ≠ fileDir) :
    nodeOf fs e = .file (contentOf fs e.inode) := if_neg htype

/-! ## The content of an inode -/

/-- The content is what the blocks hold. -/
theorem contentOf_of_holds {fs : Bkfs} {n : Nat} (hn : ¬ BadInode n) {d : List UInt8}
    (h : Holds fs (n - 1) d) : contentOf fs n = d := by
  have hroom := h.room
  rw [contentOf, if_neg hn, h.size, Nat.min_eq_left hroom]
  refine List.ext_getElem (length_table _ _) fun p hp hp' => ?_
  have hbyte := h.bytes p hp'
  simp only [table, List.getElem_map, List.getElem_range]
  rw [hbyte]
  simp [hp']

namespace StoreInv

variable {fs : Bkfs} {m : Store}

theorem not_bad (h : StoreInv fs m) {n : Nat} {d : List UInt8} (hd : m n = some d) :
    ¬ BadInode n :=
  h.entries.not_bad h.wf (h.refines.live_of_some hd)

theorem contentOf (h : StoreInv fs m) {n : Nat} {d : List UInt8} (hd : m n = some d) :
    Srunix.contentOf fs n = d :=
  contentOf_of_holds (h.not_bad hd) (h.refines.holds n d hd)

/-- Every entry in use has a content. -/
theorem some_of_mem (h : StoreInv fs m) {e : File} (he : e ∈ liveEntries fs) :
    ∃ d, m e.inode = some d :=
  Option.ne_none_iff_exists'.mp ((h.refines.live _).mp (liveInode_iff.mpr ⟨e, he, rfl⟩))

/-- Where the store has the same content, an entry stands for the same. -/
theorem nodeOf_congr (h : StoreInv fs m) {fs' : Bkfs} {m' : Store} (h' : StoreInv fs' m') {e : File}
    (he : e ∈ liveEntries fs) (hsame : m' e.inode = m e.inode) : nodeOf fs' e = nodeOf fs e := by
  obtain ⟨d, hd⟩ := h.some_of_mem he
  rw [nodeOf, nodeOf, h.contentOf hd, h'.contentOf (hsame.trans hd)]

/-! ## One call -/

/-- A new file is empty. -/
theorem created (h : StoreInv fs m) {i : Nat} {name : Name} (href : ¬ CreateRefused fs name)
    (hi : i < maxInodes) (hmode : (fs.inodes i).mode = 0) (parent : Nat) (type : UInt8) :
    StoreInv (Srunix.created fs i name parent type) (Function.update m (i + 1) (some [])) := by
  have hout : FsOutcome fs (.create name parent type) fsSuccess
      (Srunix.created fs i name parent type) := .created href hi hmode
  exact ⟨h.wf.step hout, h.entries.step hout, h.blocks.created .., (h.refines.created h.entries hmode ..).2⟩

/-- A write gives the file its new content. -/
theorem written (h : StoreInv fs m) {n size : Nat} {l : List Nat} (hlive : LiveInode fs n)
    (hl : FreshBlocks (released fs (n - 1)) l) (hlen : l.length = blocksNeeded size)
    (hsize : size ≤ inodeDirectBlocks * blockSize) (data : Nat → UInt8) :
    StoreInv (Srunix.written fs (n - 1) data size l)
      (Function.update m n (some (table data size))) := by
  have hbad := h.entries.not_bad h.wf hlive
  have href : ¬ WriteRefused n size :=
    fun hor => hor.elim hbad fun hbig => absurd (blocksNeeded_of_le hsize).2 (Nat.not_le.mpr hbig)
  have hout : FsOutcome fs (.write n data size) fsSuccess (Srunix.written fs (n - 1) data size l) :=
    .written href hl hlen
  have hroom : size ≤ l.length * blockSize := by
    rw [hlen]
    exact le_blocksNeeded hsize
  exact ⟨h.wf.step hout, h.entries.step hout, h.blocks.written hl ..,
    h.refines.written h.blocks hlive hl hroom data⟩

/-- A removed file has no content. -/
theorem deleted (h : StoreInv fs m) {n : Nat} (hlive : LiveInode fs n) :
    StoreInv (Srunix.deleted fs n) (Function.update m n none) := by
  have hout : FsOutcome fs (.delete n) fsSuccess (Srunix.deleted fs n) :=
    .deleted (h.entries.not_bad h.wf hlive)
  exact ⟨h.wf.step hout, h.entries.step hout, h.blocks.deleted n, h.refines.deleted h.entries hlive⟩

/-- A read changes no content. -/
theorem accessed (h : StoreInv fs m) (n : Nat) : StoreInv (Srunix.accessed fs n) m := by
  have hout : FsOutcome fs (.read n (fun _ => 0) 0) fsSuccess (Srunix.accessed fs n) := .read _
  exact ⟨h.wf.step hout, h.entries.step hout, h.blocks.accessed n, h.refines.accessed n⟩

theorem chdir (h : StoreInv fs m) (n : Nat) : StoreInv { fs with currentInode := n } m := by
  have hout : FsOutcome fs (.chdir n) fsSuccess { fs with currentInode := n } := .chdir
  refine ⟨h.wf.step hout, h.entries.step hout, ⟨h.blocks.1, h.blocks.2⟩, h.refines.live, ?_⟩
  intro n d hd
  exact (h.refines.holds n d hd).of_inode_eq rfl fun _ _ => rfl

end StoreInv

/-! ## The table through a call -/

section Step

variable {fs : Bkfs} {m : Store}

/-- No entry in use has that directory and name. -/
theorem nodes_eq_none_iff {p : Nat × CString} :
    nodes fs p = none ↔ ∀ e ∈ liveEntries fs, e.path ≠ p := lookup_eq_none_iff

/-- Since names differ, what a name stands for is said by its one entry. -/
theorem nodes_eq_some_iff (hnames : DistinctNames fs) {p : Nat × CString} {nd : Node} :
    nodes fs p = some nd ↔ ∃ e ∈ liveEntries fs, e.path = p ∧ nodeOf fs e = nd :=
  lookup_eq_some_iff hnames

/-- An entry that is in a directory is not one of the five blank ones. -/
theorem EntriesInv.live_of_parent (h : EntriesInv fs) {e : File} (he : e ∈ entries fs)
    (hne : e.parentInode ≠ 0) : e ∈ liveEntries fs := by
  rw [h.blanks] at he
  refine (List.mem_append.mp he).resolve_left fun hblank => hne ?_
  rw [List.eq_of_mem_replicate hblank]
  rfl

theorem nodes_of_mem (hnames : DistinctNames fs) {e : File} (he : e ∈ liveEntries fs) :
    nodes fs e.path = some (nodeOf fs e) := lookup_of_mem hnames he

/-- In a directory that is there, a name is taken exactly if it stands for
something. -/
theorem nameTaken_iff_nodes (h : EntriesInv fs) {dir : Nat} (hdir : dir ≠ 0) {name : CString} :
    NameTaken fs dir name ↔ nodes fs (dir, name) ≠ none := by
  rw [Ne, nodes_eq_none_iff]
  push Not
  constructor
  · rintro ⟨e, he, hparent, hname⟩
    refine ⟨e, h.live_of_parent he ?_, by rw [File.path, hparent, hname]⟩
    rw [hparent]
    exact hdir
  · rintro ⟨e, he, hpath⟩
    exact ⟨e, (mem_liveEntries.mp he).1, congrArg Prod.fst hpath, congrArg Prod.snd hpath⟩

/-- **A new entry** is one more name, for an empty file or an empty directory. -/
theorem nodes_created (h : StoreInv fs m) {i : Nat} {name : Name} (href : ¬ CreateRefused fs name)
    (hi : i < maxInodes) (hmode : (fs.inodes i).mode = 0) {parent : Nat}
    (hfresh : nodes fs (parent, name.str) = none) (type : UInt8) :
    nodes (created fs i name parent type) =
      Function.update (nodes fs) (parent, name.str)
        (some (if type = fileDir then .dir (i + 1) else .file [])) := by
  have h' := h.created href hi hmode parent type
  have hnew : nodeOf (created fs i name parent type) (newEntry (i + 1) name parent type)
      = if type = fileDir then .dir (i + 1) else .file [] := by
    have hempty := h'.contentOf (Function.update_self (i + 1) (some []) m)
    show (if type = fileDir then .dir (i + 1) else .file (contentOf _ (i + 1)) : Node) = _
    rw [hempty]
  have hold : ∀ e ∈ liveEntries fs, nodeOf (created fs i name parent type) e = nodeOf fs e := by
    intro e he
    refine h.nodeOf_congr h' he ?_
    rw [Function.update_of_ne (h.entries.fresh hmode he)]
  rw [nodes, EntriesInv.liveEntries_created, lookup_snoc (nodes_eq_none_iff.mp hfresh), hnew,
    lookup_congr hold]
  rfl

/-- **A write** gives the file another content. -/
theorem nodes_written (h : StoreInv fs m) (hnames : DistinctNames fs) {e : File}
    (he : e ∈ liveEntries fs) (htype : e.type ≠ fileDir) {size : Nat} {l : List Nat}
    (hl : FreshBlocks (released fs (e.inode - 1)) l) (hlen : l.length = blocksNeeded size)
    (hsize : size ≤ inodeDirectBlocks * blockSize) (data : Nat → UInt8) :
    nodes (written fs (e.inode - 1) data size l) =
      Function.update (nodes fs) e.path (some (.file (table data size))) := by
  have h' := h.written (liveInode_iff.mpr ⟨e, he, rfl⟩) hl hlen hsize data
  have hself : nodeOf (written fs (e.inode - 1) data size l) e = .file (table data size) := by
    rw [nodeOf_file htype, h'.contentOf (Function.update_self ..)]
  have hothers : ∀ e' ∈ liveEntries fs, e' ≠ e →
      nodeOf (written fs (e.inode - 1) data size l) e' = nodeOf fs e' := by
    intro e' he' hne
    refine h.nodeOf_congr h' he' ?_
    rw [Function.update_of_ne fun heq => hne (h.entries.eq_of_inode he' he heq)]
  rw [← hself]
  exact lookup_revalue hnames he hothers

/-- **A deletion** takes the name away. -/
theorem nodes_deleted (h : StoreInv fs m) (hnames : DistinctNames fs) {e : File}
    (he : e ∈ liveEntries fs) :
    nodes (deleted fs e.inode) = Function.update (nodes fs) e.path none := by
  have hne : e.inode ≠ 0 := (mem_liveEntries.mp he).2
  have h' := h.deleted (liveInode_iff.mpr ⟨e, he, rfl⟩)
  have hlist := h.entries.liveEntries_deleted hne
  have hkept : ∀ e' ∈ liveEntries (deleted fs e.inode), nodeOf (deleted fs e.inode) e' = nodeOf fs e' := by
    intro e' he'
    rw [hlist] at he'
    obtain ⟨hmem, hother⟩ := List.mem_filter.mp he'
    refine h.nodeOf_congr h' hmem ?_
    rw [Function.update_of_ne (by simpa using hother)]
  rw [nodes, lookup_congr hkept, hlist]
  refine lookup_remove hnames he fun e' he' => ?_
  constructor
  · intro hgone
    exact h.entries.eq_of_inode he' he (by simpa using hgone)
  · rintro rfl
    simp

/-- Reading changes nothing. -/
theorem nodes_accessed (h : StoreInv fs m) (n : Nat) : nodes (accessed fs n) = nodes fs := by
  have h' := h.accessed n
  have hlist : liveEntries (accessed fs n) = liveEntries fs := by
    obtain ⟨inodes, heq, -⟩ := accessed_eq fs n
    rw [heq]
    rfl
  rw [nodes, hlist]
  exact lookup_congr fun e he => h.nodeOf_congr h' he rfl

end Step

end Srunix
