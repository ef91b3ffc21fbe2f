import Srunix.Lib.Pring
import Srunix.Library.Bytes

/-!
# The kernel module (`fs/bkfs_mod.c`)

`sb_bread(sb, n)` returns block `n` in units of the *superblock's* block size,
which the module never sets: it is whatever the block device was opened with,
here the parameter `blocksize`. A buffer is the memory from its first byte on.

What Linux may refuse (memory, a read, a fresh inode) is in `Env`; everything
else is translated from the module, error codes included.
-/

namespace Srunix

open Library

namespace BkfsMod

/-- `BKFS_MAGIC` of `bkfs_mod.c`. -/
abbrev bkfsMagic : Nat := 0xBACAF5
/-- `BKFS_SUPER_BLOCK`: the superblock is in block 0. -/
abbrev bkfsSuperBlock : Nat := 0
/-- `BKFS_ROOT_INO` of `bkfs_mod.c`. -/
abbrev bkfsRootIno : Nat := 2
/-- `BKFS_BLOCK_SIZE` of `bkfs_mod.c`. -/
abbrev bkfsBlockSize : Nat := 4096
/-- `BKFS_FILENAME_LEN`. -/
abbrev bkfsFilenameLen : Nat := 255
/-- `BKFS_MAX_EXTENTS` of `bkfs_mod.c`. -/
abbrev bkfsMaxExtents : Nat := 12

/-- `sizeof(struct bkfs_inode)`, padding included. -/
abbrev sizeofInode : Nat := 96

/-- `BKFS_INODES_PER_BLOCK`. -/
abbrev bkfsInodesPerBlock : Nat := bkfsBlockSize / sizeofInode

/-- The errors the module returns, negated. -/
inductive Errno where
  | enomem
  | eio
  | einval
deriving DecidableEq

/-- The operations an inode is given. -/
inductive InodeOps where
  | none
  | simpleDir
deriving DecidableEq

/-- The fields of `struct inode` the module sets. -/
structure VfsInode where
  iMode : Nat
  iUid : Nat
  iGid : Nat
  iSize : Nat
  iAtime : Nat
  iCtime : Nat
  iMtime : Nat
  iNlink : Nat
  iBlocks : Nat
  iOps : InodeOps
deriving DecidableEq

/-- What `iget_locked` returns: nothing, an inode in the cache, or a new one. -/
inductive IgetLocked where
  | failed
  | cached (inode : VfsInode)
  | new

/-- What the rest of the kernel grants. -/
structure Env where
  kzalloc : Bool
  bread : Nat → Bool
  igetLocked : Nat → IgetLocked
  dMakeRoot : Bool

/-- Nothing fails and no inode is cached yet. -/
def Env.fresh : Env where
  kzalloc := true
  bread _ := true
  igetLocked _ := .new
  dMakeRoot := true

/-- `struct bkfs_sb_info` -/
structure SbInfo where
  freeBlocksCount : Nat
  freeInodesCount : Nat
  blocksCount : Nat
  inodesCount : Nat
  inodeBlocks : Nat
deriving DecidableEq

/-- A mounted superblock. -/
structure SuperBlock where
  sFsInfo : SbInfo
  sMagic : Nat
  sMaxbytes : Nat
  sRoot : VfsInode

/-- `struct kstatfs` -/
structure Kstatfs where
  fType : Nat
  fBsize : Nat
  fBlocks : Nat
  fBfree : Nat
  fBavail : Nat
  fFiles : Nat
  fFfree : Nat
  fNamelen : Nat

/-- `S_ISREG`. -/
def sIsreg (mode : Nat) : Bool := mode &&& 0o170000 == 0o100000

/-- `S_ISDIR`. -/
def sIsdir (mode : Nat) : Bool := mode &&& 0o170000 == 0o040000

/-- `bh->b_data` of block `block`. -/
def bData (dev : Memory) (blocksize block : Nat) : Memory := fun p => dev (block * blocksize + p)

/-- `bkfs_statfs`: the counters of the superblock that was read at the mount. -/
def bkfsStatfs (sbi : SbInfo) : Kstatfs :=
  { fType := bkfsMagic
    fBsize := bkfsBlockSize
    fBlocks := sbi.blocksCount
    fBfree := sbi.freeBlocksCount
    fBavail := sbi.freeBlocksCount
    fFiles := sbi.inodesCount
    fFfree := sbi.freeInodesCount
    fNamelen := bkfsFilenameLen }

/-- `inode_block`, a `uint32_t`. -/
def inodeBlock (ino : Nat) : Nat := uint32 (1 + ino / bkfsInodesPerBlock)

/-- `inode_offset`, in records. -/
def inodeOffset (ino : Nat) : Nat := uint32 (ino % bkfsInodesPerBlock)

/-- A `struct bkfs_inode` at offset `a` of a buffer, as the module reads it. -/
def readInode (buf : Memory) (a : Nat) : VfsInode :=
  let mode := readLe buf a 2
  { iMode := mode
    iUid := readLe buf (a + 2) 2
    iGid := readLe buf (a + 4) 2
    iSize := if !sIsreg mode && sIsdir mode then bkfsBlockSize else readLe buf (a + 8) 4
    iAtime := readLe buf (a + 12) 4
    iCtime := readLe buf (a + 16) 4
    iMtime := readLe buf (a + 20) 4
    iNlink := readLe buf (a + 28) 2
    iBlocks := readLe buf (a + 32) 4
    iOps := if sIsreg mode || sIsdir mode then .simpleDir else .none }

/-- `bkfs_iget`: an inode that is in memory already is not read again. -/
def bkfsIget (env : Env) (dev : Memory) (blocksize ino : Nat) : Except Errno VfsInode :=
  match env.igetLocked ino with
  | .failed => .error .enomem
  | .cached inode => .ok inode
  | .new =>
    if env.bread (inodeBlock ino) then
      .ok (readInode (bData dev blocksize (inodeBlock ino)) (inodeOffset ino * sizeofInode))
    else .error .eio

/-- The counters `bkfs_fill_super` takes from the superblock. -/
def readSbInfo (buf : Memory) : SbInfo :=
  { freeBlocksCount := readLe buf 12 4
    freeInodesCount := readLe buf 16 4
    blocksCount := readLe buf 8 4
    inodesCount := readLe buf 20 4
    inodeBlocks := readLe buf 32 4 }

/-- `bkfs_fill_super`: the checks in their order, then the root. -/
def bkfsFillSuper (env : Env) (dev : Memory) (blocksize : Nat) : Except Errno SuperBlock :=
  if !env.kzalloc then .error .enomem
  else if !env.bread bkfsSuperBlock then .error .einval
  else
    let diskSb := bData dev blocksize bkfsSuperBlock
    if readLe diskSb 0 4 ≠ bkfsMagic then .error .einval
    else
      match bkfsIget env dev blocksize bkfsRootIno with
      | .error e => .error e
      | .ok root =>
        if env.dMakeRoot then
          .ok
            { sFsInfo := readSbInfo diskSb
              sMagic := bkfsMagic
              sMaxbytes := bkfsMaxExtents * bkfsBlockSize
              sRoot := root }
        else .error .enomem

/-! ## Mounting when nothing fails -/

/-- Block 0 starts at byte 0, whatever the block size. -/
theorem bData_zero (dev : Memory) (blocksize : Nat) : bData dev blocksize bkfsSuperBlock = dev := by
  funext p
  show dev (0 * blocksize + p) = dev p
  rw [Nat.zero_mul, Nat.zero_add]

/-- A read from a block is a read from the device. -/
theorem readLe_bData (dev : Memory) (blocksize block a w : Nat) :
    readLe (bData dev blocksize block) a w = readLe dev (block * blocksize + a) w :=
  readLe_congr fun _ _ => congrArg dev (Nat.add_assoc ..).symm

theorem readInode_bData (dev : Memory) (blocksize block a : Nat) :
    readInode (bData dev blocksize block) a = readInode dev (block * blocksize + a) := by
  simp only [readInode, readLe_bData, Nat.add_assoc]

/-- The root inode is record 2 of block 1. -/
theorem bkfsIget_root (dev : Memory) (blocksize : Nat) :
    bkfsIget .fresh dev blocksize bkfsRootIno = .ok (readInode dev (blocksize + 192)) := by
  have hslot := readInode_bData dev blocksize 1 192
  rw [Nat.one_mul] at hslot
  rw [← hslot]
  rfl

/-- A mount on a fresh kernel needs the magic number and nothing else. -/
theorem bkfsFillSuper_fresh {dev : Memory} (blocksize : Nat) (hmagic : readLe dev 0 4 = bkfsMagic) :
    bkfsFillSuper .fresh dev blocksize = .ok
      { sFsInfo := readSbInfo dev
        sMagic := bkfsMagic
        sMaxbytes := bkfsMaxExtents * bkfsBlockSize
        sRoot := readInode dev (blocksize + 192) } := by
  unfold bkfsFillSuper
  rw [bkfsIget_root, bData_zero]
  dsimp only
  rw [if_neg (by decide), if_neg (by decide), if_neg (not_not.mpr hmagic)]
  rfl

end BkfsMod

end Srunix
