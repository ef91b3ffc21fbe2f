import Srunix.Library.FirstIndex
import Srunix.Library.Pool
import Srunix.Lib.Terminal

/-!
# The state of bkFS (`lib/prdio.h`)

The tables are arrays of fixed size in the source and functions from the index
here; every index the code uses is checked against the size by the code itself.
`uint32_t` fields are naturals below `2 ^ 32`, and the places where the code
can wrap (`uint32`) say so.

`files[0 .. file_count)` is the entry table. `file_count` starts at 5 with all
entries zero, so the first five entries are blank for good.
-/

namespace Srunix

open Library

/-- `File`: a directory entry. -/
structure File where
  inode : Nat
  name : CString
  parentInode : Nat
  type : UInt8
  size : Nat
deriving DecidableEq

/-- The entry a zeroed table holds. -/
def File.blank : File :=
  { inode := 0, name := .empty, parentInode := 0, type := 0, size := 0 }

/-- `Inode`. `block` has `INODE_DIRECT_BLOCKS` cells. -/
structure Inode where
  mode : Nat
  uid : Nat
  gid : Nat
  size : Nat
  atime : Nat
  ctime : Nat
  mtime : Nat
  dtime : Nat
  blocks : Nat
  block : Nat → Nat

/-- `memset(&inode, 0, sizeof(Inode))` -/
def Inode.zero : Inode :=
  { mode := 0, uid := 0, gid := 0, size := 0, atime := 0, ctime := 0, mtime := 0, dtime := 0,
    blocks := 0, block := fun _ => 0 }

/-- The globals of `bkfs.h`. The tables are functions from the index, so that a store
outside of one is seen as such. -/
structure Bkfs where
  files : Nat → File
  fileCount : Nat
  currentInode : Nat
  inodes : Nat → Inode
  blocks : Nat → Nat → UInt8
  blockUsed : Nat → Bool
  freeBlocks : Nat
  freeInodes : Nat
  timerTicks : Nat

/-- The file system together with the terminal it prints to. -/
structure KernelState where
  fs : Bkfs
  term : Terminal

namespace KernelState

/-- `terminal_writestring`, called while the files are in memory too. -/
def writestring (s : KernelState) (data : CString) : KernelState :=
  { s with term := terminalWritestring s.term data }

/-- `terminal_printf`, called while the files are in memory too. -/
def printf (s : KernelState) (format : CString) (args : List PrintfArg) : KernelState :=
  { s with term := terminalPrintf s.term format args }

/-- `terminal_setcolor`, called while the files are in memory too. -/
def setcolor (s : KernelState) (fg bg : UInt8) : KernelState :=
  { s with term := terminalSetcolor s.term fg bg }

@[simp] theorem writestring_fs (s : KernelState) (data : CString) :
    (s.writestring data).fs = s.fs := rfl

@[simp] theorem printf_fs (s : KernelState) (format : CString) (args : List PrintfArg) :
    (s.printf format args).fs = s.fs := rfl

@[simp] theorem setcolor_fs (s : KernelState) (fg bg : UInt8) :
    (s.setcolor fg bg).fs = s.fs := rfl

end KernelState

/-- The entries in use: `files[0 .. file_count)`. -/
def entries (fs : Bkfs) : List File := table fs.files fs.fileCount

/-- The block numbers `block[0 .. blocks)` an inode refers to. -/
def Inode.blockList (inode : Inode) : List Nat := table inode.block inode.blocks

@[simp] theorem Inode.length_blockList (inode : Inode) :
    inode.blockList.length = inode.blocks := by
  simp [blockList, table]

theorem Inode.mem_blockList {inode : Inode} {b : Nat} :
    b ∈ inode.blockList ↔ ∃ i < inode.blocks, inode.block i = b := mem_table

@[simp] theorem Inode.blockList_zero : Inode.zero.blockList = [] := rfl

/-- How many blocks are free, by the bitmap. -/
def unusedBlocks (fs : Bkfs) : Nat := freeCount maxBlocks fs.blockUsed

/-- How many inodes are free, by their mode. -/
def unusedInodes (fs : Bkfs) : Nat := freeCount maxInodes fun i => (fs.inodes i).mode != 0

end Srunix
