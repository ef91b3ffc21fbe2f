import Srunix.Lib.Pring
import Srunix.Library.Bytes

/-!
# Making a file system (`fs/mkfs_bkfs.c`)

The device is its bytes; `pwrite` inside it is `blit`. Each struct is written
out from a zeroed variable, so the image of one is `layout` over its members.
`time(NULL)` is called once for the superblock and three times for the root
inode; `now k` is what call `k` returns.

`mkfsMain` is `main` with the device size `ioctl` reports. It refuses or writes
superblock, root inode and root directory; errors of the device are not
modelled (any of them ends the program).
-/

namespace Srunix

open Library

/-- `BKFS_MAGIC` of `mkfs_bkfs.c`. -/
abbrev bkfsMagic : Nat := 0xBACAF5
/-- `BKFS_ROOT_INO` of `mkfs_bkfs.c`. -/
abbrev bkfsRootIno : Nat := 2
/-- `BKFS_BLOCK_SIZE` of `mkfs_bkfs.c`. -/
abbrev bkfsBlockSize : Nat := 4096
/-- `BKFS_MAX_EXTENTS` of `mkfs_bkfs.c`. -/
abbrev bkfsMaxExtents : Nat := 12

/-- Unsigned 32-bit subtraction. -/
def sub32 (a b : Nat) : Nat := (((a : Int) - b) % 2 ^ 32).toNat

/-- `struct mkfs_bkfs_super`; `s_reserved` stays zero. -/
structure MkfsBkfsSuper where
  sMagic : Nat
  sBlockSize : Nat
  sBlocksCount : Nat
  sFreeBlocksCount : Nat
  sFreeInodesCount : Nat
  sInodesCount : Nat
  sFirstDataBlock : Nat
  sFirstIno : Nat
  sInodeBlocks : Nat
  sMtime : Nat
  sState : Nat
  sErrors : Nat
  sCreatorOs : Nat
  sRevLevel : Nat
  sDefResuid : Nat
  sDefResgid : Nat

/-- The members in order, with their widths, up to `s_reserved`. -/
def MkfsBkfsSuper.members (sb : MkfsBkfsSuper) : List (Nat × Nat) :=
  [(4, sb.sMagic), (4, sb.sBlockSize), (4, sb.sBlocksCount), (4, sb.sFreeBlocksCount),
    (4, sb.sFreeInodesCount), (4, sb.sInodesCount), (4, sb.sFirstDataBlock), (4, sb.sFirstIno),
    (4, sb.sInodeBlocks), (8, sb.sMtime), (4, sb.sState), (4, sb.sErrors), (4, sb.sCreatorOs),
    (4, sb.sRevLevel), (2, sb.sDefResuid), (2, sb.sDefResgid)]

/-- `struct mkfs_bkfs_inode`. `i_block` has `BKFS_MAX_EXTENTS` cells. -/
structure MkfsBkfsInode where
  iMode : Nat
  iUid : Nat
  iGid : Nat
  iSize : Nat
  iAtime : Nat
  iCtime : Nat
  iMtime : Nat
  iDtime : Nat
  iLinksCount : Nat
  iBlocks : Nat
  iFlags : Nat
  iBlock : Nat → Nat
  iGeneration : Nat
  iReserved : Nat

/-- The members of the inode, each with its width, in the order of the declaration. -/
def MkfsBkfsInode.members (inode : MkfsBkfsInode) : List (Nat × Nat) :=
  [(2, inode.iMode), (2, inode.iUid), (2, inode.iGid), (4, inode.iSize), (4, inode.iAtime),
    (4, inode.iCtime), (4, inode.iMtime), (4, inode.iDtime), (2, inode.iLinksCount),
    (4, inode.iBlocks), (4, inode.iFlags)] ++
    (List.range bkfsMaxExtents).map (fun i => (4, inode.iBlock i)) ++
    [(4, inode.iGeneration), (4, inode.iReserved)]

/-- The widths of the members of the superblock. -/
def superWidths : List Nat :=
  [4, 4, 4, 4, 4, 4, 4, 4, 4, 8, 4, 4, 4, 4, 2, 2]

/-- The widths of the members of the inode. -/
def inodeWidths : List Nat :=
  [2, 2, 2, 4, 4, 4, 4, 4, 2, 4, 4] ++ List.replicate bkfsMaxExtents 4 ++ [4, 4]

theorem MkfsBkfsSuper.widths (sb : MkfsBkfsSuper) : sb.members.map Prod.fst = superWidths := rfl

theorem MkfsBkfsInode.widths (inode : MkfsBkfsInode) :
    inode.members.map Prod.fst = inodeWidths := rfl

/-- `sizeof(struct mkfs_bkfs_super)` -/
abbrev sizeofSuper : Nat := 1016

/-- `sizeof(struct mkfs_bkfs_inode)` -/
abbrev sizeofInode : Nat := 96

example : cSizeof (superWidths ++ List.replicate 236 4) = sizeofSuper ∧
    cSizeof inodeWidths = sizeofInode := by
  decide +kernel

/-! ## The three writes -/

/-- The superblock `mkfs_bkfs` fills in; `now` are the results of `time`. The
differences wrap at 32 bits. -/
def superblock (blocksCount : Nat) (now : Nat → Nat) : MkfsBkfsSuper :=
  let inodesCount := 1024
  let inodeBlocks := uint32 ((inodesCount * sizeofInode + bkfsBlockSize - 1) / bkfsBlockSize)
  { sMagic := bkfsMagic
    sBlockSize := bkfsBlockSize
    sBlocksCount := blocksCount
    sFreeBlocksCount := sub32 (sub32 blocksCount inodeBlocks) 2
    sFreeInodesCount := inodesCount - 1
    sInodesCount := inodesCount
    sFirstDataBlock := 1
    sFirstIno := bkfsRootIno
    sInodeBlocks := inodeBlocks
    sMtime := now 0
    sState := 1
    sErrors := 0
    sCreatorOs := 0
    sRevLevel := 1
    sDefResuid := 0
    sDefResgid := 0 }

/-- The superblock goes to the start of the device. -/
def writeSuperblock (blocksCount : Nat) (now : Nat → Nat) (dev : Memory) : Memory :=
  blit dev 0 (layout (cStruct 0 (superblock blocksCount now).members)) sizeofSuper

/-- `S_IFDIR | 0755`. -/
abbrev rootMode : Nat := 0x41ED

/-- The inode of the root that `mkfs_bkfs` fills in. -/
def rootInode (now : Nat → Nat) : MkfsBkfsInode :=
  let inodeBlock := 1
  { iMode := rootMode
    iUid := 0
    iGid := 0
    iSize := bkfsBlockSize
    iAtime := now 1
    iCtime := now 2
    iMtime := now 3
    iDtime := 0
    iLinksCount := 2
    iBlocks := 1
    iFlags := 0
    iBlock := fun i => if i = 0 then inodeBlock + 1 else 0
    iGeneration := 0
    iReserved := 0 }

/-- The inode of the root goes to the start of the second block. -/
def writeRootInode (now : Nat → Nat) (dev : Memory) : Memory :=
  blit dev bkfsBlockSize (layout (cStruct 0 (rootInode now).members)) sizeofInode

/-- A `struct mkfs_bkfs_dir_entry` at offset `pos` of its block; `strcpy` writes
the name and its terminator. -/
def dirEntry (pos inode recLen nameLen : Nat) (name : CString) : List Field :=
  cStruct pos ([(4, inode), (2, recLen), (2, nameLen)] ++
    (name.bytes ++ [0]).map fun c : UInt8 => (1, c.toNat))

/-- The block of the root directory, with `.` and `..`. -/
def rootDirBlock : Memory :=
  let recLen := 12
  layout (dirEntry 0 bkfsRootIno recLen 1 "." ++
    dirEntry recLen bkfsRootIno (bkfsBlockSize - recLen) 2 "..")

/-- The root directory goes to the third block. -/
def writeRootDirBlock (dev : Memory) : Memory :=
  let blockPos := 2
  blit dev (blockPos * bkfsBlockSize) rootDirBlock bkfsBlockSize

/-- `main`, from the size of the device on; `none` is a refusal. -/
def mkfsMain (deviceSize : Nat) (now : Nat → Nat) (dev : Memory) : Option Memory :=
  if deviceSize = 0 then none
  else
    let blocksCount := uint32 (deviceSize / bkfsBlockSize)
    if blocksCount < 3 then none
    else
      let dev := writeSuperblock blocksCount now dev
      let dev := writeRootInode now dev
      some (writeRootDirBlock dev)

/-! ## What is on the device afterwards -/

/-- The device is refused, or has room for three blocks. -/
theorem mkfsMain_eq_some {deviceSize : Nat} {now : Nat → Nat} {dev dev' : Memory}
    (h : mkfsMain deviceSize now dev = some dev') :
    3 ≤ uint32 (deviceSize / bkfsBlockSize) ∧ dev' = writeRootDirBlock (writeRootInode now
      (writeSuperblock (uint32 (deviceSize / bkfsBlockSize)) now dev)) := by
  rw [mkfsMain] at h
  split at h
  · cases h
  · dsimp only at h
    split at h
    · cases h
    · rename_i hcount
      exact ⟨Nat.not_lt.mp hcount, (Option.some.inj h).symm⟩

/-- The only check is for three blocks. -/
theorem mkfsMain_eq_none_iff {deviceSize : Nat} {now : Nat → Nat} {dev : Memory} :
    mkfsMain deviceSize now dev = none ↔ uint32 (deviceSize / bkfsBlockSize) < 3 := by
  rw [mkfsMain]
  by_cases hzero : deviceSize = 0
  · subst hzero
    exact iff_of_true rfl (by decide)
  · rw [if_neg hzero]
    dsimp only
    by_cases hcount : uint32 (deviceSize / bkfsBlockSize) < 3
    · rw [if_pos hcount]
      exact iff_of_true rfl hcount
    · rw [if_neg hcount]
      exact iff_of_false (Option.some_ne_none _) hcount

/-- A device of three blocks or more, counted in 32 bits, is accepted. -/
theorem mkfsMain_accepts {deviceSize : Nat} (h : 3 ≤ uint32 (deviceSize / bkfsBlockSize))
    (now : Nat → Nat) (dev : Memory) : ∃ dev', mkfsMain deviceSize now dev = some dev' :=
  Option.ne_none_iff_exists'.mp fun hnone => Nat.not_lt.mpr h (mkfsMain_eq_none_iff.mp hnone)

section Written

variable {deviceSize : Nat} {now : Nat → Nat} {dev dev' : Memory}

theorem MkfsBkfsSuper.members_pos (sb : MkfsBkfsSuper) : ∀ p ∈ sb.members, 0 < p.1 := by
  have hpos : ∀ w ∈ superWidths, 0 < w := by decide
  intro p hp
  exact hpos p.1 (sb.widths ▸ List.mem_map_of_mem hp)

theorem MkfsBkfsInode.members_pos (inode : MkfsBkfsInode) : ∀ p ∈ inode.members, 0 < p.1 := by
  have hpos : ∀ w ∈ inodeWidths, 0 < w := by decide
  intro p hp
  exact hpos p.1 (inode.widths ▸ List.mem_map_of_mem hp)

/-- The superblock, read from the device. -/
theorem readLe_blockZero (h : mkfsMain deviceSize now dev = some dev') {a w : Nat}
    (hend : a + w ≤ sizeofSuper) :
    readLe dev' a w = readLe (layout (cStruct 0
      (superblock (uint32 (deviceSize / bkfsBlockSize)) now).members)) a w := by
  obtain ⟨-, rfl⟩ := mkfsMain_eq_some h
  rw [writeRootDirBlock, writeRootInode, writeSuperblock]
  have hdir : a + w ≤ 2 * bkfsBlockSize := Nat.le_trans hend (by decide)
  have hinode : a + w ≤ bkfsBlockSize := Nat.le_trans hend (by decide)
  rw [readLe_blit_of_disjoint (.inr hdir), readLe_blit_of_disjoint (.inr hinode),
    readLe_blit (Nat.zero_le _) (by rw [Nat.zero_add]; exact hend), Nat.sub_zero]

/-- A member of the superblock is read back from the device. -/
theorem readLe_super (h : mkfsMain deviceSize now dev = some dev') {a w n : Nat}
    (hf : ⟨a, w, n⟩ ∈ cStruct 0 (superblock (uint32 (deviceSize / bkfsBlockSize)) now).members)
    (hend : a + w ≤ sizeofSuper) : readLe dev' a w = n % 256 ^ w := by
  rw [readLe_blockZero h hend]
  exact readLe_layout (MkfsBkfsSuper.members_pos _) hf

/-- Behind the members the block is zero. -/
theorem readLe_reserved (h : mkfsMain deviceSize now dev = some dev') {a w : Nat}
    (ha : 68 ≤ a) (hend : a + w ≤ sizeofSuper) : readLe dev' a w = 0 := by
  have hstart : cEnd 0 superWidths = 68 := by decide
  rw [readLe_blockZero h hend]
  refine readLe_layout_behind (MkfsBkfsSuper.members_pos _) ?_
  rw [MkfsBkfsSuper.widths, hstart]
  exact ha

/-- A member of the root inode, read from where `write_root_inode` put it. -/
theorem readLe_rootInode (h : mkfsMain deviceSize now dev = some dev') {a w n : Nat}
    (hf : ⟨a, w, n⟩ ∈ cStruct 0 (rootInode now).members) (hend : a + w ≤ sizeofInode) :
    readLe dev' (bkfsBlockSize + a) w = n % 256 ^ w := by
  obtain ⟨-, rfl⟩ := mkfsMain_eq_some h
  rw [writeRootDirBlock, writeRootInode]
  have hdir : bkfsBlockSize + a + w ≤ 2 * bkfsBlockSize := by
    simp only [sizeofInode, bkfsBlockSize] at hend ⊢
    omega
  rw [readLe_blit_of_disjoint (.inr hdir),
    readLe_blit (Nat.le_add_right _ _) (by rw [Nat.add_assoc]; exact Nat.add_le_add_left hend _),
    Nat.add_sub_cancel_left]
  exact readLe_layout (MkfsBkfsInode.members_pos _) hf

/-- Between the root inode and the root directory, and between the superblock
and the root inode, the device keeps what it had. -/
theorem readLe_unwritten (h : mkfsMain deviceSize now dev = some dev') {a w : Nat}
    (ha : sizeofSuper ≤ a ∧ a + w ≤ bkfsBlockSize ∨
      bkfsBlockSize + sizeofInode ≤ a ∧ a + w ≤ 2 * bkfsBlockSize) :
    readLe dev' a w = readLe dev a w := by
  obtain ⟨-, rfl⟩ := mkfsMain_eq_some h
  rw [writeRootDirBlock, writeRootInode, writeSuperblock]
  rw [readLe_blit_of_disjoint, readLe_blit_of_disjoint, readLe_blit_of_disjoint]
  all_goals simp only [sizeofSuper, sizeofInode, bkfsBlockSize] at ha ⊢; omega

end Written

end Srunix
