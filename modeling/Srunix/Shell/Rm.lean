import Srunix.Bkfs.Ops

/-!
# `execute_rm` (`kernel/kernel.c`)

The recursion walks the shared entry table while its own deletions shift it, so
three things are kept as the source has them: `name` is a pointer, into the
table for the recursive calls (`NamePtr`), `files[i]` is looked at again after
the loop over the children, when slot `i` may hold another entry, and the loop
index `j` stays where it is after a recursive call.

Neither the recursion nor the loop need end. `fuel` bounds calls and rounds
together, and `none` means it ran out: the command completes exactly when some
amount of fuel is enough.
-/

namespace Srunix

open Library

/-- A `char*` the callers of `execute_rm` pass: a buffer of their own, or the
name field of an entry. -/
inductive NamePtr where
  | buffer (s : CString)
  | entry (j : Nat)

/-- The string behind the pointer, now. -/
def NamePtr.deref (fs : Bkfs) : NamePtr → CString
  | .buffer s => s
  | .entry j => (fs.files j).name

/-- The first entry of the current directory with the name. -/
def findInCurrentDir (fs : Bkfs) (name : CString) : Option Nat :=
  firstIndex fs.fileCount fun i =>
    (fs.files i).parentInode == fs.currentInode && strcmp (fs.files i).name name == 0

/-- The end of `execute_rm`: whatever is in `files[i]` by now is deleted. -/
def finishRm (s : KernelState) (name : NamePtr) (i : Nat) : KernelState :=
  let (r, s) := fsDeleteFile s (s.fs.files i).inode
  if r = fsSuccess then s.printf "'%s' deleted\n" [.str (name.deref s.fs)]
  else s.writestring "Failed to delete\n"

mutual

/-- `execute_rm`. For a directory it calls itself on every child, by the child's name
and in the current directory, and starts over after each. -/
def executeRm (fuel : Nat) (s : KernelState) (name : NamePtr) (recursive : Bool) :
    Option KernelState :=
  match fuel with
  | 0 => none
  | fuel + 1 =>
    match findInCurrentDir s.fs (name.deref s.fs) with
    | none => some (s.printf "File not found: %s\n" [.str (name.deref s.fs)])
    | some i =>
      if (s.fs.files i).type = fileDir then
        if recursive then
          match rmChildren fuel s (s.fs.files i).inode 0 with
          | none => none
          | some s => some (finishRm s name i)
        else some (s.writestring "Cannot remove directory: use 'rm -rf' for directories\n")
      else some (finishRm s name i)

/-- The loop over the children of a directory, from index `j` on. -/
def rmChildren (fuel : Nat) (s : KernelState) (dirInode j : Nat) : Option KernelState :=
  match fuel with
  | 0 => none
  | fuel + 1 =>
    if j < s.fs.fileCount then
      if (s.fs.files j).parentInode = dirInode then
        match executeRm fuel s (.entry j) true with
        | none => none
        | some s => rmChildren fuel s dirInode j
      else rmChildren fuel s dirInode (j + 1)
    else some s

end

end Srunix
