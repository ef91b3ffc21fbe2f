import Mathlib.Data.List.TakeWhile
import Srunix.Bkfs.Boot
import Srunix.Shell.Rm
import Srunix.Shell.Tty

/-!
# The file commands (`kernel/kernel.c`, `kernel/kernel.h`, `bin/cd.h`, `bin/pwd.h`)

`touch`, `mkdir`, `cd`, the two redirections of `echo`, and the two loops that
walk up the tree to print a path. The callers of the redirections never pass
`NULL`, so those checks are left out. Text buffers are as large as what is put
in them.

The path loops need not end: `fuel` bounds their rounds and `none` means it ran
out.
-/

namespace Srunix

open Library

/-- `execute_mkfile`. The check for a file of that name answers with an empty line. -/
def executeMkfile (s : KernelState) (filename : Name) : KernelState :=
  if !isValidFilename filename.str then
    s.writestring "Invalid filename: contains forbidden characters\n"
  else if fileExistsInCurrentDir s.fs filename.str then s.writestring "\n"
  else
    let (r, s) := fsCreateFile s filename s.fs.currentInode fileRegular
    if r = fsSuccess then s.printf "File '%s' created\n" [.str filename.str]
    else s.writestring "Failed to create file\n"

/-- `execute_mkdir`. -/
def executeMkdir (s : KernelState) (dirname : Name) : KernelState :=
  if !isValidFilename dirname.str then
    s.writestring "Invalid directory name: contains forbidden characters\n"
  else if fileExistsInCurrentDir s.fs dirname.str then s.writestring "Change name\n"
  else
    let (r, s) := fsCreateFile s dirname s.fs.currentInode fileDir
    if r = fsSuccess then s.printf "'%s' created\n" [.str dirname.str]
    else s.writestring "Failed!\n"

/-- `current_inode = …;` -/
def setCurrentInode (s : KernelState) (inodeNum : Nat) : KernelState :=
  { s with fs := { s.fs with currentInode := inodeNum } }

/-- `NULL` is `none`. -/
def executeCd (s : KernelState) (dirname : Option CString) : KernelState :=
  match dirname with
  | none => setCurrentInode s 1
  | some dirname =>
    if strlen dirname = 0 then setCurrentInode s 1
    else if strcmp dirname ".." = 0 then
      match firstIndex s.fs.fileCount fun i => (s.fs.files i).inode == s.fs.currentInode with
      | some i => setCurrentInode s (s.fs.files i).parentInode
      | none => s.writestring "Already at root directory\n"
    else
      match firstIndex s.fs.fileCount fun i =>
        (s.fs.files i).parentInode == s.fs.currentInode && strcmp (s.fs.files i).name dirname == 0
          && (s.fs.files i).type == fileDir with
      | some i => setCurrentInode s (s.fs.files i).inode
      | none =>
        let s := s.writestring "Directory not found: "
        let s := s.writestring dirname
        s.writestring "\n"

/-! ## Redirections -/

/-- `MAX_FILE_SIZE`: the buffer of `cat` and of the redirections. -/
abbrev maxFileSize : Nat := 4096

/-- The first regular file of the current directory with the name. -/
def findRegular (fs : Bkfs) (name : CString) : Option Nat :=
  firstIndex fs.fileCount fun i =>
    (fs.files i).parentInode == fs.currentInode && strcmp (fs.files i).name name == 0
      && (fs.files i).type == fileRegular

/-- `fs_write_file(n, text, strlen(text))` -/
def writeText (s : KernelState) (n : Nat) (text : CString) : Int × KernelState :=
  let (r, fs) := fsWriteFile s.fs n text.mem (strlen text)
  (r, { s with fs := fs })

/-- The end both redirections share: a new file with the text in it. -/
def createWithText (s : KernelState) (filename : Name) (text : CString) : KernelState :=
  let (r, s) := fsCreateFile s filename s.fs.currentInode fileRegular
  if r = fsSuccess then
    let (r, s) := writeText s (s.fs.files (s.fs.fileCount - 1)).inode text
    if r = fsSuccess then s.writestring "File created and text written\n"
    else s.writestring "File created but failed to write text\n"
  else s.writestring "Failed to create file\n"

/-- `execute_redirect_output`: a file of that name is written over, and one is made if
there is none. -/
def executeRedirectOutput (s : KernelState) (filename : Name) (text : CString) : KernelState :=
  match findRegular s.fs filename.str with
  | some i =>
    let (r, s) := writeText s (s.fs.files i).inode text
    if r = fsSuccess then s else s.writestring "Failed to write to file\n"
  | none => createWithText s filename text

/-- What `execute_append_output` writes: the old content up to its first NUL, a
newline if it does not end in one, the text. -/
def appended (content : Nat → UInt8) (bytesRead : Nat) (text : CString) : CString :=
  let old : CString :=
    ⟨(table content bytesRead).takeWhile (· ≠ 0), fun h => by simpa using List.mem_takeWhile_imp h⟩
  if bytesRead > 0 ∧ content (bytesRead - 1) ≠ 0x0A then old ++ CString.ofString "\n" ++ text
  else old ++ text

/-- `stack` is what the uninitialized `current_content` holds. -/
def executeAppendOutput (s : KernelState) (filename : Name) (text : CString)
    (stack : Nat → UInt8) : KernelState :=
  match findRegular s.fs filename.str with
  | some i =>
    let (r, content, fs) := fsReadFile s.fs (s.fs.files i).inode stack (maxFileSize - 1)
    let s : KernelState := { s with fs := fs }
    let (r, s) := writeText s (s.fs.files i).inode (appended content (r % 2 ^ 32).toNat text)
    if r = fsSuccess then s else s.writestring "Failed to append to file\n"
  | none => createWithText s filename text

/-! ## Walking up -/

/-- `while (inode != 1) …` of `execute_pwd` and `print_prompt`: the path grows
at the front. A round that finds no entry of the inode changes nothing. -/
def pathLoop (fs : Bkfs) : Nat → Nat → CString → Option CString
  | 0, _, _ => none
  | fuel + 1, inode, path =>
    if inode = 1 then some path
    else
      match firstIndex fs.fileCount fun i => (fs.files i).inode == inode with
      | some i =>
        pathLoop fs fuel (fs.files i).parentInode
          (CString.ofString "/" ++ (fs.files i).name ++ path)
      | none => pathLoop fs fuel inode path

/-- `execute_pwd`. -/
def executePwd (fuel : Nat) (s : KernelState) : Option KernelState :=
  (pathLoop s.fs fuel s.fs.currentInode "/").map fun path =>
    let s := s.writestring ""
    let s := s.writestring path
    s.writestring "\n"

/-- The last three lines of `print_prompt`. -/
def promptEnd (s : KernelState) : KernelState :=
  let s := s.setcolor colorWhite (s.term.color >>> 4)
  let s := s.writestring "# "
  s.setcolor colorWhite (s.term.color >>> 4)

/-- `print_prompt`, which keeps the background it finds. At the root it does not look
for a path. -/
def printPrompt (fuel : Nat) (s : KernelState) : Option KernelState :=
  let s := s.setcolor colorBrightRed (s.term.color >>> 4)
  let s := s.writestring "root"
  let s := s.setcolor colorWhite (s.term.color >>> 4)
  let s := s.writestring ":"
  let s := s.setcolor colorBrightBlue (s.term.color >>> 4)
  let s := s.writestring "~"
  if s.fs.currentInode ≠ 1 then
    (pathLoop s.fs fuel s.fs.currentInode "").map fun path => promptEnd (s.writestring path)
  else some (promptEnd s)

end Srunix
