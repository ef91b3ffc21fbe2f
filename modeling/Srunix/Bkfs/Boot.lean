import Srunix.Bkfs.Ops

/-!
# The file system at boot (`kernel_main`, `kernel/kernel.c`)

`kernelMain` runs `kernel_main` up to the call of `login_screen`. The network
card, the timer chip and the last `hlt` loop touch nothing modelled here.
-/

namespace Srunix

open Library

/-- A literal as an entry name; every literal below is shorter than 30 bytes. -/
def Name.ofString (s : String) : Name :=
  ⟨⟨(CString.ofString s).bytes.take 30, fun h => (CString.ofString s).nulFree (List.mem_of_mem_take h)⟩,
    List.length_take_le ..⟩

instance : Coe String Name := ⟨Name.ofString⟩

/-- The globals as the program image holds them. -/
def programImage : KernelState where
  fs :=
    { files := fun _ => .blank, fileCount := 5, currentInode := 1
      inodes := fun _ => .zero, blocks := fun _ _ => 0, blockUsed := fun _ => false
      freeBlocks := maxBlocks, freeInodes := maxInodes, timerTicks := 0 }
  term :=
    { row := 0, column := 0, color := (colorBlack <<< 4) ||| colorWhite, buffer := fun _ => 0
      ttys := fun _ =>
        { row := 0, column := 0, color := 0, buffer := fun _ => 0, currentInode := 0
          loggedIn := false }
      currentTty := 0, smouseMode := false }

/-- `fs_create_file(…);` with the result dropped. -/
def createFile (s : KernelState) (name : Name) (parentInode : Nat) (type : UInt8) : KernelState :=
  (fsCreateFile s name parentInode type).2

/-- `for (i …) if (strcmp(files[i].name, name) == 0) { … = files[i].inode; break; }`, 0 if none. -/
def inodeOfName (fs : Bkfs) (name : CString) : Nat :=
  match firstIndex fs.fileCount fun i => strcmp (fs.files i).name name == 0 with
  | some i => (fs.files i).inode
  | none => 0

/-- The tables cleared and the top-level entries made. -/
def bootRoot : KernelState :=
  let s : KernelState := { programImage with term := terminalInitialize programImage.term }
  let s : KernelState :=
    { s with fs :=
      { s.fs with
        inodes := fun _ => .zero, blockUsed := fun _ => false
        freeBlocks := maxBlocks, freeInodes := maxInodes } }
  let s := createFile s "root" 1 fileDir
  let s : KernelState := { s with fs := { s.fs with currentInode := 1 } }
  let s := createFile s "bin" 1 fileDir
  let s := createFile s "etc" 1 fileDir
  let s := createFile s "home" 1 fileDir
  let s := createFile s "dev" 1 fileDir
  let s := createFile s "tmp" 1 fileDir
  let s := createFile s "sys" 1 fileDir
  createFile s "fetch" 1 fileRegular

/-- The device files. -/
def bootDev (s : KernelState) : KernelState :=
  let devInode := inodeOfName s.fs "dev"
  if devInode ≠ 0 then
    let s := createFile s "sda" devInode fileRegular
    let s := createFile s "sda1" devInode fileRegular
    let s := createFile s "sdb1" devInode fileRegular
    let s := createFile s "sdb" devInode fileRegular
    let s := createFile s "vga" devInode fileRegular
    let s := createFile s "vga1" devInode fileRegular
    let s := createFile s "vga2" devInode fileRegular
    let s := createFile s "null" devInode fileRegular
    createFile s "random" devInode fileRegular
  else s

/-- What `kernel_main` writes to `/fetch`. -/
def fetchContent : CString := "priveeet\n"

/-- The memory behind a string: its bytes, then the terminator. -/
def CString.mem (s : CString) : Nat → UInt8 := fun p => s.bytes.getD p 0

/-- The programs, and the content of `/bin/fetch` if that entry is found. -/
def bootBin (s : KernelState) : KernelState :=
  let binInode := inodeOfName s.fs "bin"
  if binInode ≠ 0 then
    let s := createFile s "ush" binInode fileRegular
    let s := createFile s "ls" binInode fileRegular
    let s := createFile s "cat" binInode fileRegular
    let s := createFile s "echo" binInode fileRegular
    let s := createFile s "fetch" binInode fileRegular
    match firstIndex s.fs.fileCount fun i =>
      (s.fs.files i).parentInode == binInode && strcmp (s.fs.files i).name "fetch" == 0 with
    | some i =>
      { s with fs :=
        (fsWriteFile s.fs (s.fs.files i).inode fetchContent.mem (strlen fetchContent)).2 }
    | none => s
  else s

/-- The state `kernel_main` leaves, up to the first `login_screen`: the entries of the
root, of `/dev` and of `/bin`. -/
def kernelMain : KernelState := bootBin (bootDev bootRoot)

end Srunix
