import Srunix.Bkfs.Alloc

/-!
# What each file operation can do

One inversion lemma per operation, guards included: `fsCreateFile_cases`,
`fsDeleteFile_cases`, `fsWriteFile_cases`. Each outcome names the state it
leaves (`created`, `deleted`, `written`, `writeFailed`) as a record update, and
every invariant of the file system is proved from these lemmas alone.
-/

namespace Srunix

open Library

@[simp] theorem kernelPanic_fs (s : KernelState) (message : CString) :
    (kernelPanic s message).fs = s.fs := rfl

/-- The "no files left" branches only print. -/
theorem ite_kernelPanic_fs (c : Prop) [Decidable c] (s : KernelState) (message : CString) :
    (if c then kernelPanic (s.setcolor colorRed colorBlack) message else s).fs = s.fs := by
  split
  · rfl
  · rfl

/-! ## `fs_create_file` -/

/-- What the check looks for. -/
theorem fileExistsInCurrentDir_iff {fs : Bkfs} {name : CString} :
    fileExistsInCurrentDir fs name = true ↔
      ∃ i < fs.fileCount, (fs.files i).parentInode = fs.currentInode ∧ (fs.files i).name = name := by
  rw [fileExistsInCurrentDir]
  constructor
  · intro h
    obtain ⟨i, hscan⟩ := Option.isSome_iff_exists.mp h
    obtain ⟨hi, hp, -⟩ := firstIndex_eq_some_iff.mp hscan
    simp only [Bool.and_eq_true, beq_iff_eq, strcmp_eq_zero_iff] at hp
    exact ⟨i, hi, hp.1, hp.2⟩
  · rintro ⟨i, hi, hparent, hname⟩
    obtain ⟨j, hscan, -⟩ := exists_firstIndex
      (p := fun i => (fs.files i).parentInode == fs.currentInode && strcmp (fs.files i).name name == 0)
      hi (by simp [hparent, strcmp_eq_zero_iff, hname])
    rw [hscan]
    rfl

/-- The inode record of a new file. -/
def newInode (ticks : Nat) (type : UInt8) : Inode :=
  { Inode.zero with
    mode := if type = fileDir then 0x4000 else 0x8000
    atime := ticks, ctime := ticks, mtime := ticks }

theorem newInode_mode (ticks : Nat) (type : UInt8) : (newInode ticks type).mode ≠ 0 := by
  rw [newInode]
  by_cases h : type = fileDir
  · simp [h]
  · simp [h]

/-- The entry of a new file. -/
def newEntry (inodeNum : Nat) (name : Name) (parentInode : Nat) (type : UInt8) : File :=
  { inode := inodeNum, name := name.str, parentInode := parentInode, type := type, size := 0 }

/-- The state after inode slot `i` went to a new entry. -/
def created (fs : Bkfs) (i : Nat) (name : Name) (parentInode : Nat) (type : UInt8) : Bkfs :=
  { fs with
    files := Function.update fs.files fs.fileCount (newEntry (i + 1) name parentInode type)
    fileCount := fs.fileCount + 1
    inodes := Function.update fs.inodes i (newInode fs.timerTicks type)
    freeInodes := fs.freeInodes - 1 }

section Created

variable {fs : Bkfs} {i : Nat} {name : Name} {parentInode : Nat} {type : UInt8}

theorem created_last : (created fs i name parentInode type).files fs.fileCount
    = newEntry (i + 1) name parentInode type := Function.update_self ..

theorem created_inode_self :
    (created fs i name parentInode type).inodes i = newInode fs.timerTicks type :=
  Function.update_self ..

theorem created_inode_of_ne {k : Nat} (hk : k ≠ i) :
    (created fs i name parentInode type).inodes k = fs.inodes k := Function.update_of_ne hk _ _

end Created

/-- The checks of `fs_create_file` that turn a request away. -/
def CreateRefused (fs : Bkfs) (name : Name) : Prop :=
  isValidFilename name.str = false ∨ fileExistsInCurrentDir fs name.str = true ∨
    maxFiles ≤ fs.fileCount ∨ fs.freeInodes = 0 ∨ ∀ i < maxInodes, (fs.inodes i).mode ≠ 0

/-- `fs_create_file` refuses and changes nothing but the screen, or takes the
first free inode for an entry at the end of the table. -/
theorem fsCreateFile_cases (s : KernelState) (name : Name) (parentInode : Nat) (type : UInt8) :
    (CreateRefused s.fs name ∧ (fsCreateFile s name parentInode type).1 = fsError ∧
        (fsCreateFile s name parentInode type).2.fs = s.fs) ∨
      (¬ CreateRefused s.fs name ∧ ∃ i < maxInodes, (s.fs.inodes i).mode = 0 ∧
        (fsCreateFile s name parentInode type).1 = fsSuccess ∧
        (fsCreateFile s name parentInode type).2.fs = created s.fs i name parentInode type) := by
  rw [fsCreateFile, fsAllocInode]
  by_cases hvalid : isValidFilename name.str = true
  swap
  · rw [if_pos (by simp [hvalid])]
    exact .inl ⟨.inl (by simpa using hvalid), rfl, rfl⟩
  rw [if_neg (by simp [hvalid])]
  by_cases hexists : fileExistsInCurrentDir s.fs name.str = true
  · rw [if_pos hexists]
    exact .inl ⟨.inr (.inl hexists), rfl, rfl⟩
  rw [if_neg hexists]
  by_cases hfull : s.fs.fileCount ≥ maxFiles
  · rw [if_pos hfull]
    exact .inl ⟨.inr (.inr (.inl hfull)), rfl, rfl⟩
  rw [if_neg hfull]
  by_cases hzero : s.fs.freeInodes = 0
  · rw [if_pos hzero]
    exact .inl ⟨.inr (.inr (.inr (.inl hzero))), rfl, rfl⟩
  rw [if_neg hzero]
  -- `fs_alloc_inode` goes by the modes, whatever the counter says
  cases hscan : firstIndex maxInodes fun i => (s.fs.inodes i).mode == 0 with
  | none =>
    have hnone : ∀ i < maxInodes, (s.fs.inodes i).mode ≠ 0 := fun i hi => by
      simpa using firstIndex_eq_none_iff.mp hscan i hi
    exact .inl ⟨.inr (.inr (.inr (.inr hnone))), rfl, rfl⟩
  | some i =>
    obtain ⟨hi, hmode, -⟩ := firstIndex_eq_some_iff.mp hscan
    have hmode : (s.fs.inodes i).mode = 0 := by simpa using hmode
    refine .inr ⟨?_, i, hi, hmode, rfl, ?_⟩
    · rintro (h | h | h | h | h)
      · rw [hvalid] at h
        cases h
      · exact hexists h
      · exact hfull h
      · exact hzero h
      · exact h i hi hmode
    · dsimp only
      rw [ite_kernelPanic_fs]
      simp only [created, newEntry, newInode, Function.update_self, Function.update_idem,
        Nat.add_sub_cancel]
      rfl

/-! ## `fs_delete_file` -/

/-- The state after inode slot `k` gave back its blocks. -/
def released (fs : Bkfs) (k : Nat) : Bkfs :=
  { fs with
    blockUsed := mark fs.blockUsed (releasable (fs.inodes k).blockList) false
    freeBlocks := uint32 (fs.freeBlocks + (releasable (fs.inodes k).blockList).length) }

/-- The entry table without the first entry of an inode. -/
theorem entries_removeEntry (fs : Bkfs) (inodeNum : Nat) :
    (∃ i < fs.fileCount, (fs.files i).inode = inodeNum ∧
        (∀ j < i, (fs.files j).inode ≠ inodeNum) ∧
        removeEntry fs inodeNum =
          { fs with files := shiftDown fs.files i (fs.fileCount - 1), fileCount := fs.fileCount - 1 }) ∨
      ((∀ i < fs.fileCount, (fs.files i).inode ≠ inodeNum) ∧ removeEntry fs inodeNum = fs) := by
  rw [removeEntry]
  cases hscan : firstIndex fs.fileCount fun i => (fs.files i).inode == inodeNum with
  | none =>
    refine .inr ⟨fun i hi => ?_, rfl⟩
    simpa using firstIndex_eq_none_iff.mp hscan i hi
  | some i =>
    obtain ⟨hi, hp, hlt⟩ := firstIndex_eq_some_iff.mp hscan
    refine .inl ⟨i, hi, by simpa using hp, fun j hj => ?_, rfl⟩
    simpa using hlt j hj

/-- The state `fs_delete_file` leaves when the inode number is in range. -/
def deleted (fs : Bkfs) (inodeNum : Nat) : Bkfs :=
  { removeEntry fs inodeNum with
    blockUsed := (released fs (inodeNum - 1)).blockUsed
    freeBlocks := (released fs (inodeNum - 1)).freeBlocks
    inodes := Function.update fs.inodes (inodeNum - 1) .zero
    freeInodes := uint32 (fs.freeInodes + 1) }

theorem deleted_inode_self (fs : Bkfs) (n : Nat) : (deleted fs n).inodes (n - 1) = .zero :=
  Function.update_self ..

theorem deleted_inode_of_ne {fs : Bkfs} {n k : Nat} (hk : k ≠ n - 1) :
    (deleted fs n).inodes k = fs.inodes k := Function.update_of_ne hk _ _

/-- An inode number the file operations refuse. -/
abbrev BadInode (inodeNum : Nat) : Prop := inodeNum = 0 ∨ inodeNum > maxInodes

/-- `fs_delete_file` refuses the number, or does all it should. -/
theorem fsDeleteFile_cases {s : KernelState} {inodeNum : Nat} (hfree : s.fs.freeBlocks < 2 ^ 32)
    (hblocks : (s.fs.inodes (inodeNum - 1)).blocks ≤ inodeDirectBlocks) :
    (BadInode inodeNum ∧ fsDeleteFile s inodeNum = (fsError, s)) ∨
      (¬ BadInode inodeNum ∧ (fsDeleteFile s inodeNum).1 = fsSuccess ∧
        (fsDeleteFile s inodeNum).2.fs = deleted s.fs inodeNum) := by
  unfold fsDeleteFile
  by_cases hbad : BadInode inodeNum
  · rw [if_pos hbad]
    exact .inl ⟨hbad, rfl⟩
  · rw [if_neg hbad]
    refine .inr ⟨hbad, rfl, ?_⟩
    dsimp only
    rw [ite_kernelPanic_fs, Nat.min_eq_left hblocks, releaseBlocks_eq _ _ _ hfree]
    unfold deleted released fsFreeInode removeEntry Inode.blockList
    rw [if_neg hbad]
    dsimp only
    cases firstIndex s.fs.fileCount fun i => (s.fs.files i).inode == inodeNum with
    | none => rfl
    | some i => rfl

/-! ## `fs_write_file` -/

/-- A write that returns before it touches anything. -/
abbrev WriteRefused (inodeNum size : Nat) : Prop :=
  BadInode inodeNum ∨ blocksNeeded size > inodeDirectBlocks

/-- The inode record of slot `k` after a write that stored its data in `l`. -/
def writtenInode (fs : Bkfs) (k size : Nat) (l : List Nat) : Inode :=
  { fs.inodes k with
    block := splice (fs.inodes k).block 0 l, blocks := l.length, size := size
    mtime := fs.timerTicks }

/-- The state after a write to slot `k` that stored its data in the blocks `l`. -/
def written (fs : Bkfs) (k : Nat) (data : Nat → UInt8) (size : Nat) (l : List Nat) : Bkfs :=
  { fs with
    blockUsed := mark (released fs k).blockUsed l true
    freeBlocks := (released fs k).freeBlocks - l.length
    inodes := Function.update fs.inodes k (writtenInode fs k size l)
    blocks := writeLoop (writtenInode fs k size l).block data fs.blocks 0 size l.length }

/-- The state after a write to slot `k` that got only the blocks `l`: they are
free again, and still stand in the inode's first slots. -/
def writeFailed (fs : Bkfs) (k : Nat) (l : List Nat) : Bkfs :=
  { released fs k with inodes := spliceInode fs.inodes k 0 l }

theorem blockList_writtenInode (fs : Bkfs) (k size : Nat) (l : List Nat) :
    (writtenInode fs k size l).blockList = l := table_splice _ l

/-! The inodes after a write, done or failed: its mode stays. -/

section Written

variable (fs : Bkfs) (k : Nat) (data : Nat → UInt8) (size : Nat) (l : List Nat)

theorem written_inode_self : (written fs k data size l).inodes k = writtenInode fs k size l :=
  Function.update_self ..

theorem written_inode_of_ne {j : Nat} (hj : j ≠ k) :
    (written fs k data size l).inodes j = fs.inodes j := Function.update_of_ne hj _ _

/-- A write leaves every mode as it is. -/
theorem written_mode (j : Nat) :
    ((written fs k data size l).inodes j).mode = (fs.inodes j).mode := by
  by_cases hj : j = k
  · rw [hj, written_inode_self]
    rfl
  · rw [written_inode_of_ne _ _ _ _ _ hj]

end Written

section WriteFailed

variable (fs : Bkfs) (k : Nat) (l : List Nat)

theorem writeFailed_inode_self : (writeFailed fs k l).inodes k =
    { fs.inodes k with block := splice (fs.inodes k).block 0 l } := Function.update_self ..

theorem writeFailed_inode_of_ne {j : Nat} (hj : j ≠ k) :
    (writeFailed fs k l).inodes j = fs.inodes j := Function.update_of_ne hj _ _

theorem writeFailed_mode (j : Nat) :
    ((writeFailed fs k l).inodes j).mode = (fs.inodes j).mode := by
  by_cases hj : j = k
  · rw [hj, writeFailed_inode_self]
  · rw [writeFailed_inode_of_ne _ _ _ hj]

/-- A failed write leaves every size as it is. -/
theorem writeFailed_size (j : Nat) : ((writeFailed fs k l).inodes j).size = (fs.inodes j).size ∧
    ((writeFailed fs k l).inodes j).blocks = (fs.inodes j).blocks := by
  by_cases hj : j = k
  · rw [hj, writeFailed_inode_self]
    exact ⟨rfl, rfl⟩
  · rw [writeFailed_inode_of_ne _ _ _ hj]
    exact ⟨rfl, rfl⟩

end WriteFailed

/-- The blocks a write to slot `k` gets, in order, if it asks for enough. -/
def writeBlocks (fs : Bkfs) (k : Nat) : List Nat := takeable (released fs k)

theorem freshBlocks_writeBlocks (fs : Bkfs) (k : Nat) :
    FreshBlocks (released fs k) (writeBlocks fs k) := freshBlocks_takeable _

/-- **`fs_write_file`**: refused, done, or out of space. -/
theorem fsWriteFile_eq {fs : Bkfs} (hfree : fs.freeBlocks < 2 ^ 32) (inodeNum : Nat)
    (data : Nat → UInt8) (size : Nat) : fsWriteFile fs inodeNum data size =
      if WriteRefused inodeNum size then (fsError, fs)
      else if blocksNeeded size ≤ (writeBlocks fs (inodeNum - 1)).length then
        (fsSuccess, written fs (inodeNum - 1) data size
          ((writeBlocks fs (inodeNum - 1)).take (blocksNeeded size)))
      else (fsError, writeFailed fs (inodeNum - 1) (writeBlocks fs (inodeNum - 1))) := by
  rw [fsWriteFile]
  by_cases hbad : BadInode inodeNum
  · rw [if_pos hbad, if_pos (.inl hbad)]
  rw [if_neg hbad]
  by_cases hbig : blocksNeeded size > inodeDirectBlocks
  · rw [if_pos hbig, if_pos (.inr hbig)]
  rw [if_neg hbig, if_neg (fun h : WriteRefused inodeNum size => h.elim hbad hbig)]
  dsimp only
  -- the old blocks are given back first, so they count as free
  have hreleased : releaseBlocks fs (fs.inodes (inodeNum - 1)) (fs.inodes (inodeNum - 1)).blocks
      = released fs (inodeNum - 1) := releaseBlocks_eq _ _ _ hfree
  have hsmall : (released fs (inodeNum - 1)).freeBlocks < 2 ^ 32 := Nat.mod_lt _ (by decide)
  rw [hreleased, allocBlocks_eq]
  rw [writeBlocks]
  by_cases hroom : blocksNeeded size ≤ (takeable (released fs (inodeNum - 1))).length
  · have hlen := List.length_take_of_le hroom
    rw [if_pos hroom, if_pos hroom]
    generalize (takeable (released fs (inodeNum - 1))).take (blocksNeeded size) = l at hlen ⊢
    rw [← hlen]
    simp [takeBlocks, spliceInode, written, writtenInode, released]
  · rw [if_neg hroom, if_neg hroom, Nat.zero_add,
      rollback_takeBlocks (freshBlocks_takeable _) hsmall]
    rfl

/-- `fs_write_file` refuses, or gives back the inode's blocks and then either
stores the data in fresh ones or runs out of space. -/
theorem fsWriteFile_cases {fs : Bkfs} (hfree : fs.freeBlocks < 2 ^ 32) (inodeNum : Nat)
    (data : Nat → UInt8) (size : Nat) :
    (WriteRefused inodeNum size ∧ fsWriteFile fs inodeNum data size = (fsError, fs)) ∨
      (¬ WriteRefused inodeNum size ∧ ∃ l, FreshBlocks (released fs (inodeNum - 1)) l ∧
        ((l.length = blocksNeeded size ∧ fsWriteFile fs inodeNum data size =
            (fsSuccess, written fs (inodeNum - 1) data size l)) ∨
         (l.length < blocksNeeded size ∧
            ((released fs (inodeNum - 1)).freeBlocks = l.length ∨
              ∀ b < maxBlocks, (released fs (inodeNum - 1)).blockUsed b = false → b ∈ l) ∧
            fsWriteFile fs inodeNum data size =
              (fsError, writeFailed fs (inodeNum - 1) l)))) := by
  rw [fsWriteFile_eq hfree]
  have hfresh := freshBlocks_writeBlocks fs (inodeNum - 1)
  by_cases href : WriteRefused inodeNum size
  · rw [if_pos href]
    exact .inl ⟨href, rfl⟩
  rw [if_neg href]
  by_cases hroom : blocksNeeded size ≤ (writeBlocks fs (inodeNum - 1)).length
  · rw [if_pos hroom]
    exact .inr ⟨href, _, hfresh.take _, .inl ⟨List.length_take_of_le hroom, rfl⟩⟩
  · rw [if_neg hroom]
    exact .inr ⟨href, _, hfresh, .inr ⟨Nat.not_le.mp hroom, spent_takeable _, rfl⟩⟩

theorem blocksNeeded_of_le {size : Nat} (h : size ≤ inodeDirectBlocks * blockSize) :
    blocksNeeded size = (size + 1023) / 1024 ∧ blocksNeeded size ≤ inodeDirectBlocks := by
  rw [blocksNeeded, uint32]
  simp only [inodeDirectBlocks, blockSize] at h ⊢
  omega

/-- The blocks are enough for what is written. -/
theorem le_blocksNeeded {size : Nat} (h : size ≤ inodeDirectBlocks * blockSize) :
    size ≤ blocksNeeded size * blockSize := by
  rw [(blocksNeeded_of_le h).1]
  clear h
  simp only [blockSize]
  omega

end Srunix
