import Srunix.Disk.Mkfs
import Srunix.Disk.Mount

/-!
# Do `mkfs_bkfs` and the module agree?

Two programs, one format. They agree on every struct: what `mkfs_bkfs` writes
the module reads back (`readSbInfo_mkfs`, `readInode_written`). They do not
agree on places:

- the root inode is written at the start of block 1 and looked for two records
  further on. `mountsRoot_iff` says for which devices that goes unnoticed;
- the root directory's block is the second block of the inode table, and the
  last sixteen inodes lie behind the table: `not_layoutConsistent`;
- the free-block counter is right between 26 blocks and `2 ^ 32` blocks, and
  wraps outside: `superblockExact_iff`.
-/

namespace Srunix

open Library

section Written

variable {deviceSize : Nat} {now : Nat → Nat} {dev dev' : Memory}

/-! ## The superblock -/

theorem sub32_lt (a b : Nat) : sub32 a b < 256 ^ 4 := by
  rw [sub32]
  omega

theorem readLe_magic (h : mkfsMain deviceSize now dev = some dev') :
    readLe dev' 0 4 = BkfsMod.bkfsMagic :=
  readLe_super h (n := bkfsMagic) (List.mem_of_getElem? (i := 0) rfl) (by decide)

/-- The module reads the counters `mkfs_bkfs` wrote. -/
theorem readSbInfo_mkfs (h : mkfsMain deviceSize now dev = some dev') :
    BkfsMod.readSbInfo dev' =
      { freeBlocksCount := sub32 (sub32 (uint32 (deviceSize / bkfsBlockSize)) 24) 2
        freeInodesCount := 1023
        blocksCount := uint32 (deviceSize / bkfsBlockSize)
        inodesCount := 1024
        inodeBlocks := 24 } := by
  -- each counter is read where `mkfs` has stored it
  have hblocks : readLe dev' 8 4 = uint32 (deviceSize / bkfsBlockSize) % 256 ^ 4 :=
    readLe_super h (List.mem_of_getElem? (i := 2) rfl) (by decide)
  have hfree : readLe dev' 12 4
      = sub32 (sub32 (uint32 (deviceSize / bkfsBlockSize)) 24) 2 % 256 ^ 4 :=
    readLe_super h (List.mem_of_getElem? (i := 3) rfl) (by decide)
  have hfreeInodes : readLe dev' 16 4 = 1023 :=
    readLe_super h (n := 1023) (List.mem_of_getElem? (i := 4) rfl) (by decide)
  have hinodes : readLe dev' 20 4 = 1024 :=
    readLe_super h (n := 1024) (List.mem_of_getElem? (i := 5) rfl) (by decide)
  have htable : readLe dev' 32 4 = 24 :=
    readLe_super h (n := 24) (List.mem_of_getElem? (i := 8) rfl) (by decide)
  have hcount : uint32 (deviceSize / bkfsBlockSize) < 256 ^ 4 := Nat.mod_lt _ (by decide)
  rw [Nat.mod_eq_of_lt hcount] at hblocks
  rw [Nat.mod_eq_of_lt (sub32_lt _ _)] at hfree
  rw [BkfsMod.readSbInfo]
  rw [hblocks, hfree, hfreeInodes, hinodes, htable]

/-- What the module reads of the counters `mkfs_bkfs` wrote. -/
theorem counters_mkfs (h : mkfsMain deviceSize now dev = some dev') :
    (BkfsMod.readSbInfo dev').freeBlocksCount
        = sub32 (sub32 (uint32 (deviceSize / bkfsBlockSize)) 24) 2 ∧
      (BkfsMod.readSbInfo dev').blocksCount = uint32 (deviceSize / bkfsBlockSize) ∧
      (BkfsMod.readSbInfo dev').inodeBlocks = 24 := by
  rw [readSbInfo_mkfs h]
  exact ⟨rfl, rfl, rfl⟩

/-! ## The root inode -/

/-- What the root inode decodes to: a directory, `0755`, two links, one block. -/
def rootVfs (now : Nat → Nat) : BkfsMod.VfsInode :=
  { iMode := rootMode
    iUid := 0
    iGid := 0
    iSize := bkfsBlockSize
    iAtime := uint32 (now 1)
    iCtime := uint32 (now 2)
    iMtime := uint32 (now 3)
    iNlink := 2
    iBlocks := 1
    iOps := .simpleDir }

/-- Read from where it was written, the root inode is what `mkfs_bkfs` meant. -/
theorem readInode_written (h : mkfsMain deviceSize now dev = some dev') :
    BkfsMod.readInode dev' bkfsBlockSize = rootVfs now := by
  have hmode : readLe dev' (bkfsBlockSize + 0) 2 = rootMode :=
    readLe_rootInode h (n := rootMode) (List.mem_of_getElem? (i := 0) rfl) (by decide)
  have huid : readLe dev' (bkfsBlockSize + 2) 2 = 0 :=
    readLe_rootInode h (n := 0) (List.mem_of_getElem? (i := 1) rfl) (by decide)
  have hgid : readLe dev' (bkfsBlockSize + 4) 2 = 0 :=
    readLe_rootInode h (n := 0) (List.mem_of_getElem? (i := 2) rfl) (by decide)
  have hatime : readLe dev' (bkfsBlockSize + 12) 4 = uint32 (now 1) :=
    readLe_rootInode h (n := now 1) (List.mem_of_getElem? (i := 4) rfl) (by decide)
  have hctime : readLe dev' (bkfsBlockSize + 16) 4 = uint32 (now 2) :=
    readLe_rootInode h (n := now 2) (List.mem_of_getElem? (i := 5) rfl) (by decide)
  have hmtime : readLe dev' (bkfsBlockSize + 20) 4 = uint32 (now 3) :=
    readLe_rootInode h (n := now 3) (List.mem_of_getElem? (i := 6) rfl) (by decide)
  have hlinks : readLe dev' (bkfsBlockSize + 28) 2 = 2 :=
    readLe_rootInode h (n := 2) (List.mem_of_getElem? (i := 8) rfl) (by decide)
  have hblocks : readLe dev' (bkfsBlockSize + 32) 4 = 1 :=
    readLe_rootInode h (n := 1) (List.mem_of_getElem? (i := 9) rfl) (by decide)
  rw [Nat.add_zero] at hmode
  rw [BkfsMod.readInode]
  rw [hmode, huid, hgid, hatime, hctime, hmtime, hlinks, hblocks]
  rfl

/-- A mount that ends with the root inode `mkfs_bkfs` meant. -/
def MountsRoot (dev : Memory) (blocksize : Nat) (now : Nat → Nat) : Prop :=
  ∃ sb, BkfsMod.bkfsFillSuper .fresh dev blocksize = .ok sb ∧ sb.sRoot = rootVfs now

/-- The magic number is always found, so it comes down to the inode slot. -/
theorem mountsRoot_iff_readInode (h : mkfsMain deviceSize now dev = some dev') (blocksize : Nat) :
    MountsRoot dev' blocksize now ↔ BkfsMod.readInode dev' (blocksize + 192) = rootVfs now := by
  have hfill := BkfsMod.bkfsFillSuper_fresh blocksize (readLe_magic h)
  constructor
  · rintro ⟨sb, hsb, hroot⟩
    rw [hfill] at hsb
    rw [← hroot, ← Except.ok.inj hsb]
  · exact fun hroot => ⟨_, hfill, hroot⟩

/-- An inode record that `mkfs_bkfs` did not touch decodes as before. -/
theorem readInode_unwritten (h : mkfsMain deviceSize now dev = some dev') {a : Nat}
    (ha : sizeofSuper ≤ a ∧ a + sizeofInode ≤ bkfsBlockSize ∨
      bkfsBlockSize + sizeofInode ≤ a ∧ a + sizeofInode ≤ 2 * bkfsBlockSize) :
    BkfsMod.readInode dev' a = BkfsMod.readInode dev a := by
  have hsame : ∀ off w, off + w ≤ sizeofInode →
      readLe dev' (a + off) w = readLe dev (a + off) w := by
    intro off w hw
    refine readLe_unwritten h ?_
    simp only [sizeofSuper, sizeofInode, bkfsBlockSize] at ha hw ⊢
    omega
  have hmode : readLe dev' a 2 = readLe dev a 2 := hsame 0 2 (by decide)
  unfold BkfsMod.readInode
  rw [hmode, hsame 2 2 (by decide), hsame 4 2 (by decide), hsame 8 4 (by decide),
    hsame 12 4 (by decide), hsame 16 4 (by decide), hsame 20 4 (by decide),
    hsame 28 2 (by decide), hsame 32 4 (by decide)]

/-- With 512-byte blocks the slot lies in the zeroes of `s_reserved`. -/
theorem readInode_reserved (h : mkfsMain deviceSize now dev = some dev') :
    (BkfsMod.readInode dev' 704).iMode = 0 := by
  show readLe dev' 704 2 = 0
  exact readLe_reserved h (by decide) (by decide)

/-- **When mounting finds the root inode**: never with 512-byte blocks, and
otherwise exactly when the bytes of record 2 of block 1, which `mkfs_bkfs` does
not write, happened to be that inode before. -/
theorem mountsRoot_iff (h : mkfsMain deviceSize now dev = some dev') {blocksize : Nat}
    (hsize : blocksize = 512 ∨ blocksize = 1024 ∨ blocksize = 2048 ∨ blocksize = 4096) :
    MountsRoot dev' blocksize now ↔
      blocksize ≠ 512 ∧ BkfsMod.readInode dev (blocksize + 192) = rootVfs now := by
  rw [mountsRoot_iff_readInode h]
  rcases hsize with rfl | rfl | rfl | rfl
  · refine iff_of_false (fun hroot => ?_) fun hroot => hroot.1 rfl
    have hmode := congrArg BkfsMod.VfsInode.iMode hroot
    rw [readInode_reserved h] at hmode
    cases hmode
  · rw [readInode_unwritten h (by decide)]
    exact (and_iff_right (by decide)).symm
  · rw [readInode_unwritten h (by decide)]
    exact (and_iff_right (by decide)).symm
  · rw [readInode_unwritten h (by decide)]
    exact (and_iff_right (by decide)).symm

end Written

/-- A device of one gigabyte that had the inode in that slot already. -/
theorem mountsRoot_iff_remade :
    let now : Nat → Nat := fun _ => 1700000000
    let dev : Memory := fun p => layout (cStruct 0 (rootInode now).members) (p - 4288)
    ∃ dev', mkfsMain (2 ^ 30) now dev = some dev' ∧ MountsRoot dev' 4096 now := by
  intro now dev
  obtain ⟨dev', h⟩ := @mkfsMain_accepts (2 ^ 30) (by decide) now dev
  exact ⟨dev', h, (mountsRoot_iff h (by decide)).mpr ⟨by decide, by decide +kernel⟩⟩

/-- **A blank device of one gigabyte does not mount**: its root is an inode of
mode 0. -/
theorem not_mountsRoot_blank : ∃ dev',
    mkfsMain (2 ^ 30) (fun _ => 1700000000) (fun _ => 0) = some dev' ∧
      ¬ MountsRoot dev' 4096 (fun _ => 1700000000) := by
  obtain ⟨dev', h⟩ := @mkfsMain_accepts (2 ^ 30) (by decide) (fun _ => 1700000000) (fun _ => 0)
  refine ⟨dev', h, fun hroot => ?_⟩
  rw [mountsRoot_iff_readInode h, readInode_unwritten h (by decide)] at hroot
  exact absurd (congrArg BkfsMod.VfsInode.iMode hroot) (by decide)

/-! ## The layout -/

/-- First byte and length of the slot `bkfs_iget` reads for an inode number. -/
def slotAddr (ino : Nat) : Nat :=
  BkfsMod.inodeBlock ino * bkfsBlockSize + BkfsMod.inodeOffset ino * sizeofInode

/-- The root directory's block, as the root inode on the device has it. -/
def rootDirBlockNum (dev : Memory) : Nat := readLe dev (bkfsBlockSize + 40) 4

/-- **The layout is consistent**: inode slots lie in the table the superblock
records and on the device and apart from each other, and the root directory's
block lies on the device, behind the superblock and the table. -/
structure LayoutConsistent (deviceSize : Nat) (dev : Memory) : Prop where
  inTable : ∀ ino < (BkfsMod.readSbInfo dev).inodesCount,
    1 ≤ BkfsMod.inodeBlock ino ∧ BkfsMod.inodeBlock ino ≤ (BkfsMod.readSbInfo dev).inodeBlocks ∧
      BkfsMod.inodeOffset ino * sizeofInode + sizeofInode ≤ bkfsBlockSize
  onDevice : ∀ ino < (BkfsMod.readSbInfo dev).inodesCount, slotAddr ino + sizeofInode ≤ deviceSize
  apart : ∀ ino < (BkfsMod.readSbInfo dev).inodesCount,
    ∀ ino' < (BkfsMod.readSbInfo dev).inodesCount, ino ≠ ino' →
      slotAddr ino + sizeofInode ≤ slotAddr ino' ∨ slotAddr ino' + sizeofInode ≤ slotAddr ino
  rootOnDevice : rootDirBlockNum dev * bkfsBlockSize + bkfsBlockSize ≤ deviceSize
  rootBehind : (BkfsMod.readSbInfo dev).inodeBlocks < rootDirBlockNum dev

section Written

variable {deviceSize : Nat} {now : Nat → Nat} {dev dev' : Memory}

/-- The block the inode of the root refers to. -/
theorem rootDirBlockNum_eq (h : mkfsMain deviceSize now dev = some dev') :
    rootDirBlockNum dev' = 2 :=
  readLe_rootInode h (n := 2) (List.mem_of_getElem? (i := 11) rfl) (by decide)

/-- What does hold of the layout: a slot stays inside its block, slots are
apart, the first 1008 inodes are inside the table and the root directory is on
the device. -/
theorem layout_parts (h : mkfsMain deviceSize now dev = some dev') :
    (∀ ino < 1024, BkfsMod.inodeOffset ino * sizeofInode + sizeofInode ≤ bkfsBlockSize) ∧
      (∀ ino < 1024, BkfsMod.inodeBlock ino ≤ (BkfsMod.readSbInfo dev').inodeBlocks ↔ ino < 1008) ∧
      (∀ ino < 1024, ∀ ino' < 1024, ino < ino' → slotAddr ino + sizeofInode ≤ slotAddr ino') ∧
      rootDirBlockNum dev' * bkfsBlockSize + bkfsBlockSize ≤ deviceSize := by
  -- `INODE_BLOCK` and `INODE_OFFSET` in 32 bits wrap for no inode number
  have hblock : ∀ ino < 1024, BkfsMod.inodeBlock ino = 1 + ino / 42 := by
    intro ino hino
    show (1 + ino / 42) % 2 ^ 32 = 1 + ino / 42
    omega
  have hoffset : ∀ ino < 1024, BkfsMod.inodeOffset ino = ino % 42 := by
    intro ino hino
    show ino % 42 % 2 ^ 32 = ino % 42
    omega
  refine ⟨fun ino hino => ?_, fun ino hino => ?_, fun ino hino ino' hino' hlt => ?_, ?_⟩
  · rw [hoffset ino hino]
    simp only [sizeofInode, bkfsBlockSize]
    omega
  · rw [hblock ino hino, readSbInfo_mkfs h]
    show 1 + ino / 42 ≤ 24 ↔ ino < 1008
    omega
  · unfold slotAddr
    rw [hblock ino hino, hoffset ino hino, hblock ino' hino', hoffset ino' hino']
    simp only [sizeofInode, bkfsBlockSize]
    omega
  · rw [rootDirBlockNum_eq h]
    have hcount : 3 ≤ deviceSize / bkfsBlockSize :=
      Nat.le_trans (mkfsMain_eq_some h).1 (Nat.mod_le _ _)
    calc 2 * bkfsBlockSize + bkfsBlockSize
        = 3 * bkfsBlockSize := rfl
      _ ≤ deviceSize / bkfsBlockSize * bkfsBlockSize := Nat.mul_le_mul_right _ hcount
      _ ≤ deviceSize := Nat.div_mul_le_self ..

/-- **The layout is never consistent**: the root directory is in block 2, inside
the inode table, on every device that is accepted. -/
theorem not_layoutConsistent (h : mkfsMain deviceSize now dev = some dev') :
    ¬ LayoutConsistent deviceSize dev' := by
  intro hlayout
  have hroot := hlayout.rootBehind
  rw [readSbInfo_mkfs h, rootDirBlockNum_eq h] at hroot
  have hroot : 24 < 2 := hroot
  omega

end Written

theorem not_layoutConsistent_gigabyte : ∃ dev',
    mkfsMain (2 ^ 30) (fun _ => 0) (fun _ => 0) = some dev' ∧ ¬ LayoutConsistent (2 ^ 30) dev' := by
  obtain ⟨dev', h⟩ := @mkfsMain_accepts (2 ^ 30) (by decide) (fun _ => 0) (fun _ => 0)
  exact ⟨dev', h, not_layoutConsistent h⟩

/-- On a device of one gigabyte inode 1008, too, is outside the table. -/
theorem not_inTable_gigabyte : ∃ dev',
    mkfsMain (2 ^ 30) (fun _ => 0) (fun _ => 0) = some dev' ∧ ¬ LayoutConsistent (2 ^ 30) dev' := by
  obtain ⟨dev', h⟩ := @mkfsMain_accepts (2 ^ 30) (by decide) (fun _ => 0) (fun _ => 0)
  refine ⟨dev', h, fun hlayout => ?_⟩
  have htable := (hlayout.inTable 1008 (by rw [readSbInfo_mkfs h]; decide)).2.1
  exact absurd (((layout_parts h).2.1 1008 (by decide)).mp htable) (by decide)

/-! ## The free-block counter -/

/-- **The superblock is exact**: the device is refused, or the block count is the
quotient and the free count is the rest after superblock, inode table and root
directory, so that `statfs` reports no more free blocks than blocks. -/
def SuperblockExact (deviceSize : Nat) (now : Nat → Nat) (dev : Memory) : Prop :=
  mkfsMain deviceSize now dev = none ∨
    ∃ dev', mkfsMain deviceSize now dev = some dev' ∧
      (BkfsMod.readSbInfo dev').blocksCount = deviceSize / bkfsBlockSize ∧
      (BkfsMod.readSbInfo dev').freeBlocksCount + (1 + (BkfsMod.readSbInfo dev').inodeBlocks + 1)
        = (BkfsMod.readSbInfo dev').blocksCount ∧
      (BkfsMod.bkfsStatfs (BkfsMod.readSbInfo dev')).fBfree
        ≤ (BkfsMod.bkfsStatfs (BkfsMod.readSbInfo dev')).fBlocks

theorem bfree_le_blocks {sbi : BkfsMod.SbInfo} (h : sbi.freeBlocksCount ≤ sbi.blocksCount) :
    (BkfsMod.bkfsStatfs sbi).fBfree ≤ (BkfsMod.bkfsStatfs sbi).fBlocks := h

/-- Two 32-bit subtractions come to the rest exactly when it is not negative. -/
theorem sub32_add_iff {n : Nat} (hn : n < 2 ^ 32) :
    sub32 (sub32 n 24) 2 + (1 + 24 + 1) = n ↔ 26 ≤ n := by
  unfold sub32
  omega

/-- **When the superblock is exact**: the quotient wraps to less than three (the
device is refused), or it is at least 26 and fits 32 bits. -/
theorem superblockExact_iff (deviceSize : Nat) (now : Nat → Nat) (dev : Memory) :
    SuperblockExact deviceSize now dev ↔
      uint32 (deviceSize / bkfsBlockSize) < 3 ∨
        (26 ≤ deviceSize / bkfsBlockSize ∧ deviceSize / bkfsBlockSize < 2 ^ 32) := by
  by_cases href : uint32 (deviceSize / bkfsBlockSize) < 3
  · exact iff_of_true (.inl (mkfsMain_eq_none_iff.mpr href)) (.inl href)
  rw [or_iff_right href]
  have hnone : mkfsMain deviceSize now dev ≠ none := fun h => href (mkfsMain_eq_none_iff.mp h)
  obtain ⟨dev', h⟩ := Option.ne_none_iff_exists'.mp hnone
  have hcounters := counters_mkfs h
  have hlt : uint32 (deviceSize / bkfsBlockSize) < 2 ^ 32 := Nat.mod_lt _ (by decide)
  rw [SuperblockExact]
  rw [or_iff_right hnone, h]
  constructor
  · rintro ⟨_, hdev, hcount, hfree, -⟩
    obtain rfl := Option.some.inj hdev
    rw [hcounters.2.1] at hcount
    rw [hcounters.1, hcounters.2.1, hcounters.2.2, sub32_add_iff hlt, hcount] at hfree
    -- the subtraction of the reserved blocks wraps below 26
    exact ⟨hfree, hcount ▸ hlt⟩
  · rintro ⟨hge, hfits⟩
    have hcount : uint32 (deviceSize / bkfsBlockSize) = deviceSize / bkfsBlockSize :=
      Nat.mod_eq_of_lt hfits
    have hfree := (sub32_add_iff hlt).mpr (hcount.symm ▸ hge)
    refine ⟨dev', rfl, hcounters.2.1.trans hcount, ?_, bfree_le_blocks ?_⟩
    · rw [hcounters.1, hcounters.2.1, hcounters.2.2]
      exact hfree
    · rw [hcounters.1, hcounters.2.1]
      exact Nat.le_of_add_right_le (Nat.le_of_eq hfree)

/-- **Three blocks are accepted and 4294967273 of them are free.** -/
theorem not_superblockExact_small : ¬ SuperblockExact 12288 (fun _ => 0) (fun _ => 0) := by
  rintro (hnone | ⟨dev', h, -, hfree, -⟩)
  · exact absurd (mkfsMain_eq_none_iff.mp hnone) (by decide)
  · have hcounters := counters_mkfs h
    rw [hcounters.1, hcounters.2.1, hcounters.2.2] at hfree
    exact absurd hfree (by decide)

end Srunix
