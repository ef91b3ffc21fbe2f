import Srunix.Bkfs.State

/-!
# The operations of bkFS (`fs/bkfs.h`)

Translated function by function. The allocators return `-1` for "none left",
here `none`; `fs_create_file`, `fs_delete_file` and `fs_write_file` return
`FS_SUCCESS` or `FS_ERROR`, and `fs_read_file` an `int` that is a byte count or
`FS_ERROR`.

A pointer argument is the memory behind it, a function from the offset to the
byte: `data` of `fs_write_file`, `buffer` of `fs_read_file`.
-/

namespace Srunix

open Library

/-! ## Inodes and blocks -/

/-- `fs_alloc_inode`: the first inode with mode 0, zeroed and marked as taken. Numbers
start at 1; 0 is the failure. -/
def fsAllocInode (fs : Bkfs) : Option Nat × Bkfs :=
  if fs.freeInodes = 0 then (none, fs)
  else
    match firstIndex maxInodes fun i => (fs.inodes i).mode == 0 with
    | some i =>
      (some (i + 1),
        { fs with
          inodes := Function.update fs.inodes i { Inode.zero with mode := 1 }
          freeInodes := fs.freeInodes - 1 })
    | none => (none, fs)

/-- `fs_free_inode`. An inode that is free already is counted once more. -/
def fsFreeInode (fs : Bkfs) (inodeNum : Nat) : Bkfs :=
  if inodeNum = 0 ∨ inodeNum > maxInodes then fs
  else
    { fs with
      inodes := Function.update fs.inodes (inodeNum - 1) Inode.zero
      freeInodes := uint32 (fs.freeInodes + 1) }

/-- `fs_alloc_block`: the first block that is not marked, block 0 like any other. -/
def fsAllocBlock (fs : Bkfs) : Option Nat × Bkfs :=
  if fs.freeBlocks = 0 then (none, fs)
  else
    match firstIndex maxBlocks fun i => !fs.blockUsed i with
    | some i =>
      (some i,
        { fs with
          blockUsed := Function.update fs.blockUsed i true
          freeBlocks := fs.freeBlocks - 1 })
    | none => (none, fs)

/-- `fs_free_block`. A block that is free already is counted once more. -/
def fsFreeBlock (fs : Bkfs) (blockNum : Nat) : Bkfs :=
  if blockNum ≥ maxBlocks then fs
  else
    { fs with
      blockUsed := Function.update fs.blockUsed blockNum false
      freeBlocks := uint32 (fs.freeBlocks + 1) }

/-- The loop that gives back `block[0 .. n)`, shared by `fs_delete_file` and
`fs_write_file`; block number 0 is passed over. -/
def releaseBlocks (fs : Bkfs) (inode : Inode) (n : Nat) : Bkfs :=
  (table inode.block n).foldl (fun fs b => if b ≠ 0 then fsFreeBlock fs b else fs) fs

/-! ## Creating and deleting -/

/-- `file_exists_in_current_dir`, which looks in `current_inode` whatever directory
the caller means. -/
def fileExistsInCurrentDir (fs : Bkfs) (name : CString) : Bool :=
  (firstIndex fs.fileCount fun i =>
    (fs.files i).parentInode == fs.currentInode && strcmp (fs.files i).name name == 0).isSome

/-- `kernel_panic` prints its message and returns. -/
def kernelPanic (s : KernelState) (message : CString) : KernelState :=
  let s := s.setcolor colorRed colorWhite
  let s := { s with term := terminalClear s.term }
  let s := s.writestring "\n\n*** KERNEL PANIC ***\n"
  let s := s.writestring message
  let s := s.writestring "\n\nStack trace:\n"
  let s := s.writestring " [<ffffffff>] ?\n"
  let s := s.writestring " [<ffffffff>] ?\n"
  let s := s.writestring " [<ffffffff>] ?\n"
  s.writestring "\nKernel panic - not syncing: Fatal exception\n"

/-- `fs_create_file`: the refusals print or not as the source has it, and the new
entry is stored behind the others. -/
def fsCreateFile (s : KernelState) (name : Name) (parentInode : Nat) (type : UInt8) :
    Int × KernelState :=
  if !isValidFilename name.str then
    (fsError, s.writestring "Invalid filename: contains forbidden characters\n")
  else if fileExistsInCurrentDir s.fs name.str then
    (fsError, s.writestring "Change name\n")
  else if s.fs.fileCount ≥ maxFiles then (fsError, s)
  else
    match fsAllocInode s.fs with
    | (none, fs) => (fsError, { s with fs := fs })
    | (some inodeNum, fs) =>
      let entry : File :=
        { inode := inodeNum, name := name.str, parentInode := parentInode, type := type, size := 0 }
      let inode : Inode :=
        { fs.inodes (inodeNum - 1) with
          mode := if type = fileDir then 0x4000 else 0x8000
          uid := 0, gid := 0, size := 0
          atime := fs.timerTicks, ctime := fs.timerTicks, mtime := fs.timerTicks
          blocks := 0 }
      let s : KernelState :=
        { s with fs :=
          { fs with
            files := Function.update fs.files fs.fileCount entry
            inodes := Function.update fs.inodes (inodeNum - 1) inode
            fileCount := fs.fileCount + 1 } }
      -- the source tests the count after it has incremented it
      let s :=
        if s.fs.fileCount = 0 then
          kernelPanic (s.setcolor colorRed colorBlack)
            "CRITICAL: Root filesystem corrupted - no files left\nAttempt to access null pointer\nKernel stack overflow detected"
        else s
      (fsSuccess, s)

/-- The entry loop of `fs_delete_file`: the first entry of that inode goes, the
ones after it move down. -/
def removeEntry (fs : Bkfs) (inodeNum : Nat) : Bkfs :=
  match firstIndex fs.fileCount fun i => (fs.files i).inode == inodeNum with
  | some i =>
    { fs with
      files := shiftDown fs.files i (fs.fileCount - 1)
      fileCount := fs.fileCount - 1 }
  | none => fs

/-- `fs_delete_file`: the blocks, the entry and the inode of a number, in that order.
Where no entry is left, `kernel_panic` is called before the inode is freed. -/
def fsDeleteFile (s : KernelState) (inodeNum : Nat) : Int × KernelState :=
  if inodeNum = 0 ∨ inodeNum > maxInodes then (fsError, s)
  else
    let inode := s.fs.inodes (inodeNum - 1)
    let fs := releaseBlocks s.fs inode (min inode.blocks inodeDirectBlocks)
    let fs := removeEntry fs inodeNum
    let s : KernelState := { s with fs := fs }
    let s :=
      if s.fs.fileCount = 0 then
        kernelPanic (s.setcolor colorRed colorBlack)
          "CRITICAL: Root filesystem corrupted - all files deleted\nbkFS: Cannot mount root bkfs\nKernel panic - not syncing: Attempted to kill init!"
      else s
    (fsSuccess, { s with fs := fsFreeInode s.fs inodeNum })

/-! ## Writing -/

/-- `(size + BLOCK_SIZE - 1) / BLOCK_SIZE`, in 32-bit arithmetic. -/
def blocksNeeded (size : Nat) : Nat := uint32 (size + (blockSize - 1)) / blockSize

/-- `inode->block[i] = block_num;` -/
def setBlock (fs : Bkfs) (k i blockNum : Nat) : Bkfs :=
  { fs with
    inodes := Function.update fs.inodes k
      { fs.inodes k with block := Function.update (fs.inodes k).block i blockNum } }

/-- The rollback of a failed write: `for (j = 0; j < i; j++) fs_free_block(inode->block[j]);` -/
def rollback (fs : Bkfs) (k i : Nat) : Bkfs :=
  (table (fs.inodes k).block i).foldl fsFreeBlock fs

/-- The allocation loop of `fs_write_file` from index `i` on, `n` rounds to go;
`false` when it gave up. -/
def allocBlocks (fs : Bkfs) (k i : Nat) : Nat → Bool × Bkfs
  | 0 => (true, fs)
  | n + 1 =>
    match fsAllocBlock fs with
    | (none, fs) => (false, rollback fs k i)
    | (some b, fs) => allocBlocks (setBlock fs k i b) k (i + 1) n

/-- `memcpy(blocks[b], data + offset, n)` -/
def copyIn (blocks : Nat → Nat → UInt8) (b : Nat) (data : Nat → UInt8) (offset n : Nat) :
    Nat → Nat → UInt8 :=
  Function.update blocks b fun p => if p < n then data (offset + p) else blocks b p

/-- The copy loop of `fs_write_file` from index `i` on, `n` rounds to go. -/
def writeLoop (block : Nat → Nat) (data : Nat → UInt8) (blocks : Nat → Nat → UInt8)
    (i remaining : Nat) : Nat → Nat → Nat → UInt8
  | 0 => blocks
  | n + 1 =>
    let toCopy := if remaining > blockSize then blockSize else remaining
    writeLoop block data (copyIn blocks (block i) data (i * blockSize) toCopy) (i + 1)
      (remaining - toCopy) n

/-- `fs_write_file`: the old blocks are released before the new ones are sought, so a
failure loses them. -/
def fsWriteFile (fs : Bkfs) (inodeNum : Nat) (data : Nat → UInt8) (size : Nat) : Int × Bkfs :=
  if inodeNum = 0 ∨ inodeNum > maxInodes then (fsError, fs)
  else if blocksNeeded size > inodeDirectBlocks then (fsError, fs)
  else
    let k := inodeNum - 1
    let fs := releaseBlocks fs (fs.inodes k) (fs.inodes k).blocks
    match allocBlocks fs k 0 (blocksNeeded size) with
    | (false, fs) => (fsError, fs)
    | (true, fs) =>
      let inode : Inode :=
        { fs.inodes k with blocks := blocksNeeded size, size := size, mtime := fs.timerTicks }
      (fsSuccess,
        { fs with
          inodes := Function.update fs.inodes k inode
          blocks := writeLoop inode.block data fs.blocks 0 size (blocksNeeded size) })

/-! ## Reading -/

/-- `memcpy(buffer + offset, blocks[b], n)` -/
def copyOut (buffer : Nat → UInt8) (offset : Nat) (src : Nat → UInt8) (n : Nat) : Nat → UInt8 :=
  fun p => if offset ≤ p ∧ p < offset + n then src (p - offset) else buffer p

/-- The copy loop of `fs_read_file` from index `i` on, `n` rounds to go. -/
def readLoop (block : Nat → Nat) (blocks : Nat → Nat → UInt8) (buffer : Nat → UInt8)
    (i remaining : Nat) : Nat → Nat → UInt8
  | 0 => buffer
  | n + 1 =>
    if remaining > 0 then
      let toCopy := if remaining > blockSize then blockSize else remaining
      readLoop block blocks (copyOut buffer (i * blockSize) (blocks (block i)) toCopy) (i + 1)
        (remaining - toCopy) n
    else buffer

/-- The result, the buffer afterwards, and the file system with the access time
set. -/
def fsReadFile (fs : Bkfs) (inodeNum : Nat) (buffer : Nat → UInt8) (size : Nat) :
    Int × (Nat → UInt8) × Bkfs :=
  if inodeNum = 0 ∨ inodeNum > maxInodes then (fsError, buffer, fs)
  else
    let inode := fs.inodes (inodeNum - 1)
    let size := if size > inode.size then inode.size else size
    (toInt size, readLoop inode.block fs.blocks buffer 0 size inode.blocks,
      { fs with
        inodes := Function.update fs.inodes (inodeNum - 1) { inode with atime := fs.timerTicks } })

end Srunix
