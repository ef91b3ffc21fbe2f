import Srunix.Library.Steps
import Srunix.Bkfs.Boot
import Srunix.Bkfs.Spec

/-!
# Histories of file-system calls

`FsCall` is what the rest of the kernel can ask of bkFS; a history is a run of
calls from the state `kernelMain` sets up, `FsRun`. Names are `Name`s, that is,
at most 30 bytes; every other argument is arbitrary.

`chdir` stands for the assignments to `current_inode` outside `bkfs.h` (`cd`,
switching terminals), with any value: the file system reads that global and has
no say in it.

The last part is `WellFormed`, the invariant that needs no assumption at all
about the calls, and `FsOutcome`, what one call can do in a well-formed state:
`fsCall_outcome` is the inversion lemma every later invariant is proved with.
-/

namespace Srunix

open Library

/-- A call of the file system, with the arguments that reach it; `chdir` is what `cd`
and `switch_tty` do to `current_inode`. -/
inductive FsCall where
  | create (name : Name) (parentInode : Nat) (type : UInt8)
  | write (inodeNum : Nat) (data : Nat → UInt8) (size : Nat)
  | read (inodeNum : Nat) (buffer : Nat → UInt8) (size : Nat)
  | delete (inodeNum : Nat)
  | chdir (inodeNum : Nat)

/-- The result of a call and the state after it. -/
def fsCall (s : KernelState) : FsCall → Int × KernelState
  | .create name parentInode type => fsCreateFile s name parentInode type
  | .write inodeNum data size =>
    let (r, fs) := fsWriteFile s.fs inodeNum data size
    (r, { s with fs := fs })
  | .read inodeNum buffer size =>
    let (r, _, fs) := fsReadFile s.fs inodeNum buffer size
    (r, { s with fs := fs })
  | .delete inodeNum => fsDeleteFile s inodeNum
  | .chdir inodeNum => (fsSuccess, { s with fs := { s.fs with currentInode := inodeNum } })

/-- A history from boot whose every call meets `ok` in the state it is made in. -/
abbrev FsRun (ok : KernelState → FsCall → Prop) (calls : List FsCall) (s : KernelState) : Prop :=
  Steps (fun s c t => ok s c ∧ t = (fsCall s c).2) kernelMain calls s

/-- Making calls one after the other. -/
def callAll (s : KernelState) (calls : List FsCall) : KernelState :=
  calls.foldl (fun s c => (fsCall s c).2) s

theorem callAll_append (s : KernelState) (calls calls' : List FsCall) :
    callAll s (calls ++ calls') = callAll (callAll s calls) calls' :=
  List.foldl_append

theorem callAll_singleton (s : KernelState) (c : FsCall) : callAll s [c] = (fsCall s c).2 := rfl

/-- Making calls from boot is a history, of any kind the calls belong to. -/
theorem fsRun_callAll {ok : FsCall → Prop} {calls : List FsCall} (h : ∀ c ∈ calls, ok c) :
    FsRun (fun _ c => ok c) calls (callAll kernelMain calls) := by
  have hrun : ∀ s, Steps (fun s c t => ok c ∧ t = (fsCall s c).2) s calls (callAll s calls) := by
    induction calls with
    | nil => exact fun s => .nil s
    | cons c calls ih =>
      intro s
      refine .cons ⟨h c List.mem_cons_self, rfl⟩ (ih (fun d hd => h d ?_) _)
      exact List.mem_cons_of_mem _ hd
  exact hrun kernelMain

/-- An inode number some entry carries. -/
def LiveInode (fs : Bkfs) (n : Nat) : Prop := n ≠ 0 ∧ ∃ e ∈ entries fs, e.inode = n

instance (fs : Bkfs) (n : Nat) : Decidable (LiveInode fs n) :=
  inferInstanceAs (Decidable (_ ∧ ∃ e ∈ entries fs, _))

/-! ## The boot state -/

/-- The file system when the first entry is made. -/
def emptyFs : Bkfs := programImage.fs

/-- `/bin` gets no `fetch` entry: the name is taken in the directory the boot
code stands in, so the write after it has nothing to write to. -/
theorem bootBin_fetch :
    let s := bootDev bootRoot
    let binInode := inodeOfName s.fs "bin"
    let s := createFile s "ush" binInode fileRegular
    let s := createFile s "ls" binInode fileRegular
    let s := createFile s "cat" binInode fileRegular
    let s := createFile s "echo" binInode fileRegular
    let s := createFile s "fetch" binInode fileRegular
    firstIndex s.fs.fileCount (fun i =>
      (s.fs.files i).parentInode == binInode && strcmp (s.fs.files i).name "fetch" == 0) = none := by
  decide +kernel

/-- Inode 8 is the file `/fetch`. -/
theorem liveInode_fetch : LiveInode kernelMain.fs 8 := ⟨by decide, by decide +kernel⟩

/-- What holds of the empty file system and survives entry creation holds at
boot: `kernel_main` does nothing else to the file system. -/
theorem kernelMain_induction {P : Bkfs → Prop} (h0 : P emptyFs)
    (hcreate : ∀ s name parentInode type, P s.fs →
      P (createFile s name parentInode type).fs) : P kernelMain.fs := by
  have hroot : P bootRoot.fs := by
    -- the files in the order `kernel_main` makes them
    have hfirst := hcreate { programImage with term := terminalInitialize programImage.term }
      "root" 1 fileDir h0
    exact hcreate _ _ _ _ (hcreate _ _ _ _ (hcreate _ _ _ _ (hcreate _ _ _ _
      (hcreate _ _ _ _ (hcreate _ _ _ _ (hcreate _ _ _ _ hfirst))))))
  have hdev : P (bootDev bootRoot).fs := by
    rw [bootDev]
    dsimp only
    split
    · exact hcreate _ _ _ _ (hcreate _ _ _ _ (hcreate _ _ _ _ (hcreate _ _ _ _ (hcreate _ _ _ _
        (hcreate _ _ _ _ (hcreate _ _ _ _ (hcreate _ _ _ _ (hcreate _ _ _ _ hroot))))))))
    · exact hroot
  rw [kernelMain, bootBin]
  dsimp only
  split
  · have hnone := bootBin_fetch
    dsimp only at hnone
    rw [hnone]
    exact hcreate _ _ _ _ (hcreate _ _ _ _ (hcreate _ _ _ _ (hcreate _ _ _ _
      (hcreate _ _ _ _ hdev))))
  · exact hdev

/-! ## Well-formed states and the outcomes of a call -/

/-- What no call can break, whatever its arguments: the counters are 32-bit
values, no inode lists more than its twelve blocks, every slot holds a block
number of the device, and the inode table ends at `MAX_INODES`. -/
structure WellFormed (fs : Bkfs) : Prop where
  freeBlocks_lt : fs.freeBlocks < 2 ^ 32
  freeInodes_lt : fs.freeInodes < 2 ^ 32
  blocks_le : ∀ k, (fs.inodes k).blocks ≤ inodeDirectBlocks
  block_lt : ∀ k i, (fs.inodes k).block i < maxBlocks
  outside : ∀ k, maxInodes ≤ k → fs.inodes k = .zero

/-- The state after `fs_read_file`: the access time of the inode is set. -/
def accessed (fs : Bkfs) (inodeNum : Nat) : Bkfs :=
  if BadInode inodeNum then fs
  else
    { fs with
      inodes := Function.update fs.inodes (inodeNum - 1)
        { fs.inodes (inodeNum - 1) with atime := fs.timerTicks } }

/-- Reading sets an access time and nothing else. -/
theorem accessed_eq (fs : Bkfs) (inodeNum : Nat) :
    ∃ inodes, accessed fs inodeNum = { fs with inodes := inodes } ∧
      ∀ k, ∃ t, inodes k = { fs.inodes k with atime := t } := by
  rw [accessed]
  split
  · exact ⟨fs.inodes, rfl, fun k => ⟨(fs.inodes k).atime, rfl⟩⟩
  · refine ⟨_, rfl, fun k => ?_⟩
    by_cases hk : k = inodeNum - 1
    · exact ⟨fs.timerTicks, by rw [hk, Function.update_self]⟩
    · exact ⟨(fs.inodes k).atime, by rw [Function.update_of_ne hk]⟩

/-- A read leaves every mode as it is. -/
theorem accessed_mode (fs : Bkfs) (inodeNum k : Nat) :
    ((accessed fs inodeNum).inodes k).mode = (fs.inodes k).mode := by
  obtain ⟨inodes, heq, hsame⟩ := accessed_eq fs inodeNum
  obtain ⟨t, ht⟩ := hsame k
  rw [heq]
  show (inodes k).mode = (fs.inodes k).mode
  rw [ht]

/-- What a call can return and leave behind. -/
inductive FsOutcome (fs : Bkfs) : FsCall → Int → Bkfs → Prop where
  | createRefused {name : Name} {parentInode : Nat} {type : UInt8} :
      CreateRefused fs name → FsOutcome fs (.create name parentInode type) fsError fs
  | created {name : Name} {parentInode : Nat} {type : UInt8} {i : Nat} :
      ¬ CreateRefused fs name → i < maxInodes → (fs.inodes i).mode = 0 →
      FsOutcome fs (.create name parentInode type) fsSuccess (created fs i name parentInode type)
  | writeRefused {n size : Nat} {data : Nat → UInt8} :
      WriteRefused n size → FsOutcome fs (.write n data size) fsError fs
  | written {n size : Nat} {data : Nat → UInt8} {l : List Nat} :
      ¬ WriteRefused n size → FreshBlocks (released fs (n - 1)) l →
      l.length = blocksNeeded size →
      FsOutcome fs (.write n data size) fsSuccess (written fs (n - 1) data size l)
  | writeFailed {n size : Nat} {data : Nat → UInt8} {l : List Nat} :
      ¬ WriteRefused n size → FreshBlocks (released fs (n - 1)) l →
      l.length < blocksNeeded size →
      ((released fs (n - 1)).freeBlocks = l.length ∨
        ∀ b < maxBlocks, (released fs (n - 1)).blockUsed b = false → b ∈ l) →
      FsOutcome fs (.write n data size) fsError (writeFailed fs (n - 1) l)
  | read {n size : Nat} {buffer : Nat → UInt8} (r : Int) :
      FsOutcome fs (.read n buffer size) r (accessed fs n)
  | deleteRefused {n : Nat} : BadInode n → FsOutcome fs (.delete n) fsError fs
  | deleted {n : Nat} : ¬ BadInode n → FsOutcome fs (.delete n) fsSuccess (deleted fs n)
  | chdir {n : Nat} : FsOutcome fs (.chdir n) fsSuccess { fs with currentInode := n }

/-- **What a call can do.** Every call has one of the outcomes, from which all
invariants are derived. -/
theorem fsCall_outcome {s : KernelState} (hwf : WellFormed s.fs) (c : FsCall) :
    FsOutcome s.fs c (fsCall s c).1 (fsCall s c).2.fs := by
  cases c with
  | create name parentInode type =>
    unfold fsCall
    dsimp only
    rcases fsCreateFile_cases s name parentInode type with ⟨href, hret, hfs⟩ | ⟨href, i, hi, hmode, hret, hfs⟩
    · rw [hret, hfs]
      exact .createRefused href
    · rw [hret, hfs]
      exact .created href hi hmode
  | write n data size =>
    unfold fsCall
    dsimp only
    rcases fsWriteFile_cases hwf.freeBlocks_lt n data size with
      ⟨href, heq⟩ | ⟨href, l, hl, ⟨hlen, heq⟩ | ⟨hlen, hwhy, heq⟩⟩
    · rw [heq]
      exact .writeRefused href
    · rw [heq]
      exact .written href hl hlen
    · rw [heq]
      exact .writeFailed href hl hlen hwhy
  | read n buffer size =>
    -- the copied bytes go to the caller, the inode gets a new access time
    have hfs : (fsReadFile s.fs n buffer size).2.2 = accessed s.fs n := by
      unfold fsReadFile accessed
      split
      · rfl
      · rfl
    unfold fsCall
    dsimp only
    rw [hfs]
    exact .read _
  | delete n =>
    unfold fsCall
    dsimp only
    rcases @fsDeleteFile_cases s n hwf.freeBlocks_lt (hwf.blocks_le _) with
      ⟨hbad, heq⟩ | ⟨hbad, hret, hfs⟩
    · rw [heq]
      exact .deleteRefused hbad
    · rw [hret, hfs]
      exact .deleted hbad
  | chdir n => exact .chdir

/-! ## Every history keeps the state well formed -/

theorem WellFormed.empty : WellFormed emptyFs where
  freeBlocks_lt := by decide
  freeInodes_lt := by decide
  blocks_le _ := Nat.zero_le _
  block_lt _ _ := Nat.zero_lt_succ _
  outside _ _ := rfl

/-- An update of one inode inside the table by a record with sound block slots. -/
theorem WellFormed.updateInode {fs fs' : Bkfs} (hwf : WellFormed fs) {k : Nat} {inode : Inode}
    (hinodes : fs'.inodes = Function.update fs.inodes k inode) (hk : k < maxInodes)
    (hblocks : inode.blocks ≤ inodeDirectBlocks) (hblock : ∀ i, inode.block i < maxBlocks)
    (hfb : fs'.freeBlocks < 2 ^ 32) (hfi : fs'.freeInodes < 2 ^ 32) : WellFormed fs' := by
  refine ⟨hfb, hfi, fun j => ?_, fun j i => ?_, fun j hj => ?_⟩
  · rw [hinodes]
    by_cases h : j = k
    · rw [h, Function.update_self]
      exact hblocks
    · rw [Function.update_of_ne h]
      exact hwf.blocks_le j
  · rw [hinodes]
    by_cases h : j = k
    · rw [h, Function.update_self]
      exact hblock i
    · rw [Function.update_of_ne h]
      exact hwf.block_lt j i
  · rw [hinodes, Function.update_of_ne (by omega)]
    exact hwf.outside j hj

/-- The block list stays one of blocks of the disk. -/
theorem splice_lt {fs : Bkfs} (hwf : WellFormed fs) (k : Nat) {l : List Nat}
    (hl : ∀ b ∈ l, b < maxBlocks) (i : Nat) : splice (fs.inodes k).block 0 l i < maxBlocks := by
  rw [splice]
  by_cases hi : 0 ≤ i ∧ i < 0 + l.length
  · have hlt : i - 0 < l.length := by omega
    rw [if_pos hi, List.getD_eq_getElem?_getD, List.getElem?_eq_getElem hlt]
    exact hl _ (List.getElem_mem hlt)
  · rw [if_neg hi]
    exact hwf.block_lt k i

/-- A number that passes the check is an index of the table. -/
theorem lt_maxInodes_of_not_bad {n : Nat} (h : ¬ BadInode n) : n - 1 < maxInodes := by
  rw [BadInode] at h
  omega

/-- The step lemma of `WellFormed`, one case for each outcome. -/
theorem WellFormed.step {fs fs' : Bkfs} {c : FsCall} {r : Int} (hwf : WellFormed fs)
    (h : FsOutcome fs c r fs') : WellFormed fs' := by
  cases h with
  | createRefused | writeRefused | deleteRefused => exact hwf
  -- the invariant does not speak of `current_inode`
  | chdir => exact ⟨hwf.1, hwf.2, hwf.3, hwf.4, hwf.5⟩
  | created _ hi _ =>
    exact hwf.updateInode rfl hi (Nat.zero_le _) (fun _ => Nat.zero_lt_succ _) hwf.freeBlocks_lt
      (Nat.lt_of_le_of_lt (Nat.sub_le _ _) hwf.freeInodes_lt)
  | @written n size data l href hl hlen =>
    refine hwf.updateInode rfl (lt_maxInodes_of_not_bad fun h => href (.inl h)) ?_
      (splice_lt hwf _ fun b hb => (hl.fresh b hb).1)
      (Nat.lt_of_le_of_lt (Nat.sub_le _ _) (Nat.mod_lt _ (by decide))) hwf.freeInodes_lt
    show l.length ≤ inodeDirectBlocks
    rw [hlen]
    exact Nat.not_lt.mp fun h => href (.inr h)
  -- the failed write keeps the block numbers it has spliced in
  | writeFailed href hl _ _ =>
    exact hwf.updateInode rfl (lt_maxInodes_of_not_bad fun h => href (.inl h)) (hwf.blocks_le _)
      (splice_lt hwf _ fun b hb => (hl.fresh b hb).1) (Nat.mod_lt _ (by decide)) hwf.freeInodes_lt
  | @read n size buffer _ =>
    rw [accessed]
    split
    · exact hwf
    · rename_i hbad
      exact hwf.updateInode rfl (lt_maxInodes_of_not_bad hbad) (hwf.blocks_le _) (hwf.block_lt _)
        hwf.freeBlocks_lt hwf.freeInodes_lt
  | @deleted n hbad =>
    refine hwf.updateInode rfl (lt_maxInodes_of_not_bad hbad) (Nat.zero_le _)
      (fun _ => Nat.zero_lt_succ _) (Nat.mod_lt _ (by decide)) (Nat.mod_lt _ (by decide))

theorem wellFormed_fsCall {s : KernelState} (hwf : WellFormed s.fs) (c : FsCall) :
    WellFormed (fsCall s c).2.fs :=
  hwf.step (fsCall_outcome hwf c)

theorem wellFormed_kernelMain : WellFormed kernelMain.fs :=
  kernelMain_induction .empty fun _ name parentInode type h =>
    wellFormed_fsCall h (.create name parentInode type)

/-- The boot state by the same rule: it is made by creations only. -/
theorem kernelMain_invariant {P : Bkfs → Prop} (h0 : P emptyFs)
    (hstep : ∀ {s name parentInode type}, WellFormed s.fs → P s.fs →
      P (fsCall s (.create name parentInode type)).2.fs) : P kernelMain.fs := by
  let Inv : Bkfs → Prop := fun fs => WellFormed fs ∧ P fs
  have h : Inv kernelMain.fs := by
    refine kernelMain_induction ⟨.empty, h0⟩ ?_
    rintro s name parentInode type ⟨hwf, hP⟩
    exact ⟨wellFormed_fsCall hwf (.create name parentInode type), hstep hwf hP⟩
  exact h.2

/-- **The invariant rule for histories**: what holds at boot and survives each
allowed call in a well-formed state holds after every history. -/
theorem FsRun.invariant {ok : KernelState → FsCall → Prop} {calls : List FsCall} {s : KernelState}
    {P : Bkfs → Prop} (h : FsRun ok calls s) (h0 : P kernelMain.fs)
    (hstep : ∀ {s c}, WellFormed s.fs → P s.fs → ok s c → P (fsCall s c).2.fs) :
    WellFormed s.fs ∧ P s.fs := by
  let Inv : KernelState → Prop := fun t => WellFormed t.fs ∧ P t.fs
  show Inv s
  refine Steps.invariant h ⟨wellFormed_kernelMain, h0⟩ ?_
  rintro s c t ⟨hwf, hP⟩ ⟨hok, rfl⟩
  exact ⟨wellFormed_fsCall hwf c, hstep hwf hP hok⟩

/-- The run lemma of `WellFormed`. -/
theorem wellFormed_of_run {ok : KernelState → FsCall → Prop} {calls : List FsCall}
    {s : KernelState} (h : FsRun ok calls s) : WellFormed s.fs :=
  (h.invariant (P := fun _ => True) trivial fun _ _ _ => trivial).1

end Srunix
