import Srunix.Library.Runs
import Srunix.Bkfs.Failure

/-!
# Sizes and byte counts

`fs_write_file` rounds the size up to blocks in 32-bit arithmetic, checks the
number of blocks and stores the size. For the last 1023 sizes the sum wraps: no
blocks, no check, and an inode of four gigabytes that lists none
(`sizeLaw_iff`). `fs_read_file` returns a byte count or `FS_ERROR`, which is 1:
a count as good as any other (`truthful_iff`).

User programs get there through the calls of `lib/srunix86_api.c`, which pass
an `int` and a `size_t` where `uint32_t` is wanted.
-/

namespace Srunix

open Library

/-! ## `lib/srunix86_api.c` -/

/-- An `int` passed as `uint32_t`. -/
def intToUint32 (n : Int) : Nat := (n % 2 ^ 32).toNat

/-- `open` of the API: the inode number of the first entry of that name, in any
directory. -/
def apiOpen (fs : Bkfs) (path : CString) : Int :=
  match firstIndex fs.fileCount fun i => strcmp (fs.files i).name path == 0 with
  | some i => toInt (fs.files i).inode
  | none => -1

/-- `read` of the API; `count` is cut to 32 bits by the call. -/
def apiRead (fs : Bkfs) (fd : Int) (buf : Nat → UInt8) (count : Nat) : Int × (Nat → UInt8) × Bkfs :=
  fsReadFile fs (intToUint32 fd) buf (uint32 count)

/-- `write` of the API; `count` is cut to 32 bits by the call. -/
def apiWrite (fs : Bkfs) (fd : Int) (buf : Nat → UInt8) (count : Nat) : Int × Bkfs :=
  fsWriteFile fs (intToUint32 fd) buf (uint32 count)

/-- The numbers of a call are `uint32_t` values. -/
def FsCall.Fits : FsCall → Prop
  | .create _ parentInode _ => parentInode < 2 ^ 32
  | .write inodeNum _ size | .read inodeNum _ size => inodeNum < 2 ^ 32 ∧ size < 2 ^ 32
  | .delete inodeNum | .chdir inodeNum => inodeNum < 2 ^ 32

/-- A state calls can reach. -/
def Reachable (s : KernelState) : Prop := ∃ calls, FsRun (fun _ c => c.Fits) calls s

theorem reachable_kernelMain : Reachable kernelMain := ⟨[], .nil kernelMain⟩

theorem Reachable.wellFormed {s : KernelState} (h : Reachable s) : WellFormed s.fs := by
  obtain ⟨calls, hrun⟩ := h
  exact wellFormed_of_run hrun

theorem Reachable.entriesInv {s : KernelState} (h : Reachable s) : EntriesInv s.fs := by
  obtain ⟨calls, hrun⟩ := h
  exact entriesInv_of_run hrun

theorem reachable_callAll {calls : List FsCall} (h : ∀ c ∈ calls, c.Fits) :
    Reachable (callAll kernelMain calls) :=
  ⟨calls, fsRun_callAll h⟩

/-! ## Rounding up -/

/-- Without a wrap the blocks are just enough. -/
theorem blocksNeeded_of_noWrap {size : Nat} (h : size + (blockSize - 1) < 2 ^ 32) :
    size ≤ blocksNeeded size * blockSize ∧ blocksNeeded size * blockSize < size + blockSize := by
  have hrest : uint32 (size + (blockSize - 1)) = size + (blockSize - 1) := Nat.mod_eq_of_lt h
  rw [blocksNeeded]
  rw [hrest]
  clear h hrest
  simp only [blockSize]
  omega

/-- With a wrap there are none at all. -/
theorem blocksNeeded_of_wrap {size : Nat} (hsize : size < 2 ^ 32)
    (h : 2 ^ 32 ≤ size + (blockSize - 1)) : blocksNeeded size = 0 := by
  rw [blocksNeeded, uint32]
  simp only [blockSize] at h ⊢
  omega

/-! ## The read loop, counted -/

/-- The bytes the copy loop of `fs_read_file` moves, `n` rounds to go. -/
def readLoopCount (remaining : Nat) : Nat → Nat
  | 0 => 0
  | n + 1 =>
    if remaining > 0 then
      let toCopy := if remaining > blockSize then blockSize else remaining
      toCopy + readLoopCount (remaining - toCopy) n
    else 0

/-- The loop reads up to the end of the blocks. -/
theorem readLoopCount_eq (remaining n : Nat) :
    readLoopCount remaining n = min remaining (n * blockSize) := by
  induction n generalizing remaining with
  | zero => rw [Nat.zero_mul, Nat.min_zero]; rfl
  | succ n ih =>
    rw [readLoopCount]
    by_cases hr : remaining > 0
    · rw [if_pos hr]
      dsimp only
      rw [toCopy_eq, ih, Nat.succ_mul]
      omega
    · rw [if_neg hr]
      omega

/-- The bytes `fs_read_file` stores in the buffer. -/
def delivered (fs : Bkfs) (inodeNum size : Nat) : Nat :=
  if BadInode inodeNum then 0
  else readLoopCount (min size (fs.inodes (inodeNum - 1)).size) (fs.inodes (inodeNum - 1)).blocks

/-! ## Sizes and blocks -/

/-- Each inode has room for its size. -/
structure SizesFit (fs : Bkfs) : Prop where
  blocks_le : ∀ k, (fs.inodes k).blocks ≤ inodeDirectBlocks
  size_le : ∀ k, (fs.inodes k).size ≤ (fs.inodes k).blocks * blockSize

/-- The sum that is rounded up does not wrap. -/
def NoWrap : FsCall → Prop
  | .write inodeNum _ size => ¬ BadInode inodeNum → size + (blockSize - 1) < 2 ^ 32
  | _ => True

/-- A write that succeeds stores no more than an inode holds; after the call
sizes fit, and reading reports no more bytes than are copied. -/
structure SizeLaw (s : KernelState) (c : FsCall) : Prop where
  stored : ∀ n data size, c = .write n data size → ¬ BadInode n →
    (fsCall s c).1 = fsSuccess → size ≤ inodeDirectBlocks * blockSize
  fit : SizesFit (fsCall s c).2.fs
  reported : ∀ n buffer size, ¬ BadInode n → size < 2 ^ 32 →
    (fsReadFile (fsCall s c).2.fs n buffer size).1 ≤ delivered (fsCall s c).2.fs n size

variable {fs : Bkfs}

/-- With sizes that fit, what is reported is what was copied. -/
theorem SizesFit.reported (h : SizesFit fs) {n : Nat} (hn : ¬ BadInode n) (buffer : Nat → UInt8)
    (size : Nat) : (fsReadFile fs n buffer size).1 = delivered fs n size := by
  have hblocks := h.blocks_le (n - 1)
  have hsize := h.size_le (n - 1)
  have hle : min size (fs.inodes (n - 1)).size ≤ (fs.inodes (n - 1)).size := Nat.min_le_right _ _
  rw [delivered]
  rw [if_neg hn, (fsReadFile_eq hn buffer size).1, readLoopCount_eq,
    Nat.min_eq_left (hle.trans hsize)]
  refine toInt_of_lt ?_
  simp only [inodeDirectBlocks, blockSize] at hblocks hsize
  omega

/-- An inode whose size fits its blocks may be stored. -/
theorem SizesFit.updateInode {fs' : Bkfs} (h : SizesFit fs) (hwf : WellFormed fs') {k : Nat}
    {inode : Inode} (hinodes : fs'.inodes = Function.update fs.inodes k inode)
    (hsize : inode.size ≤ inode.blocks * blockSize) : SizesFit fs' := by
  refine ⟨hwf.blocks_le, fun j => ?_⟩
  rw [hinodes]
  by_cases hj : j = k
  · rw [hj, Function.update_self]
    exact hsize
  · rw [Function.update_of_ne hj]
    exact h.size_le j

/-- The step lemma of `SizesFit`. -/
theorem SizesFit.step {fs' : Bkfs} {c : FsCall} {r : Int} (h : SizesFit fs) (hwf : WellFormed fs)
    (hout : FsOutcome fs c r fs') (hc : NoWrap c) : SizesFit fs' := by
  have hwf' := hwf.step hout
  cases hout with
  | createRefused | writeRefused | deleteRefused => exact h
  | chdir => exact ⟨h.blocks_le, h.size_le⟩
  | created => exact h.updateInode hwf' rfl (Nat.zero_le _)
  | @written n size data l href _ hlen =>
    refine h.updateInode hwf' rfl ?_
    show size ≤ l.length * blockSize
    rw [hlen]
    exact (blocksNeeded_of_noWrap (hc fun hbad => href (.inl hbad))).1
  | writeFailed => exact h.updateInode hwf' rfl (h.size_le _)
  | @read n size buffer =>
    obtain ⟨inodes, heq, hsame⟩ := accessed_eq fs n
    rw [heq] at hwf' ⊢
    refine ⟨hwf'.blocks_le, fun k => ?_⟩
    obtain ⟨t, ht⟩ := hsame k
    show (inodes k).size ≤ (inodes k).blocks * blockSize
    rw [ht]
    exact h.size_le k
  | deleted => exact h.updateInode hwf' rfl (Nat.zero_le _)

theorem sizesFit_kernelMain : SizesFit kernelMain.fs := by
  refine kernelMain_invariant ⟨fun _ => Nat.zero_le _, fun _ => Nat.zero_le _⟩ ?_
  intro s name parent type hwf h
  exact h.step hwf (fsCall_outcome hwf (.create name parent type)) trivial

/-- A wrapped sum asks for no blocks, and gets them. -/
theorem write_of_wrap (hwf : WellFormed fs) {n size : Nat} (hn : ¬ BadInode n)
    (hsize : size < 2 ^ 32) (hwrap : 2 ^ 32 ≤ size + (blockSize - 1)) (data : Nat → UInt8) :
    (fsWriteFile fs n data size).1 = fsSuccess := by
  have hzero := blocksNeeded_of_wrap hsize hwrap
  have href : ¬ WriteRefused n size := by
    rintro (hbad | hbig)
    · exact hn hbad
    · rw [hzero] at hbig
      exact Nat.not_lt_zero _ hbig
  rw [fsWriteFile_eq hwf.freeBlocks_lt, if_neg href, if_pos (by rw [hzero]; exact Nat.zero_le _)]

section Step

variable {s : KernelState} {c : FsCall}

/-- Without a wrap the law holds of the call. -/
theorem sizeLaw_of_noWrap (hwf : WellFormed s.fs) (h : SizesFit s.fs) (hc : NoWrap c) :
    SizeLaw s c := by
  have hout := fsCall_outcome hwf c
  have hfit := h.step hwf hout hc
  refine ⟨fun n data size hcall hn hret => ?_, hfit, fun n buffer size hn _ => ?_⟩
  · subst hcall
    have hnowrap := blocksNeeded_of_noWrap (hc hn)
    have hfew : blocksNeeded size ≤ inodeDirectBlocks := by
      rw [hret] at hout
      generalize (fsCall s (.write n data size)).2.fs = fs' at hout
      cases hout with
      | written href => exact Nat.not_lt.mp fun hbig => href (.inr hbig)
    exact Nat.le_trans hnowrap.1 (Nat.mul_le_mul_right _ hfew)
  · exact Int.le_of_eq (hfit.reported hn buffer size)

/-- Where the law holds of the call, nothing has wrapped. -/
theorem noWrap_of_sizeLaw (hwf : WellFormed s.fs) (hc : c.Fits) (h : SizeLaw s c) : NoWrap c := by
  cases c with
  | write n data size =>
    intro hn
    refine Nat.not_le.mp fun hwrap => ?_
    have hle := h.stored n data size rfl hn (write_of_wrap hwf hn hc.2 hwrap data)
    simp only [inodeDirectBlocks, blockSize] at hle hwrap
    omega
  | create | read | delete | chdir => trivial

end Step

/-- **Sizes over whole runs.** In a run of calls from boot, successful writes
are within an inode's capacity and every inode fits its blocks in every state,
exactly if no write asks for one of the sizes that wrap. -/
theorem sizeLaw_iff {calls : List FsCall} (hcalls : ∀ c ∈ calls, c.Fits) :
    SizesFit kernelMain.fs ∧
      (Guarded (fun s c => (fsCall s c).2) SizeLaw kernelMain calls ↔ ∀ c ∈ calls, NoWrap c) := by
  let Inv : KernelState → Prop := fun s => WellFormed s.fs ∧ SizesFit s.fs
  have hboot : Inv kernelMain := ⟨wellFormed_kernelMain, sizesFit_kernelMain⟩
  refine ⟨hboot.2, ?_⟩
  calc Guarded (fun s c => (fsCall s c).2) SizeLaw kernelMain calls
      ↔ Guarded (fun s c => (fsCall s c).2) (fun _ c => NoWrap c) kernelMain calls := by
        refine guarded_iff Inv ?_ ?_ hboot
        · rintro s c hc ⟨hwf, hfit⟩
          exact ⟨noWrap_of_sizeLaw hwf (hcalls c hc), sizeLaw_of_noWrap hwf hfit⟩
        · rintro s c _ ⟨hwf, -⟩ hlaw
          exact ⟨wellFormed_fsCall hwf c, hlaw.fit⟩
    _ ↔ ∀ c ∈ calls, NoWrap c := guarded_forall

/-- One byte to `/fetch`, and twelve blocks after it. -/
theorem sizeLaw_iff_fetch :
    let calls : List FsCall := [.write 8 (fun _ => 0x61) 1, .write 8 (fun _ => 0x61) 12288]
    Guarded (fun s c => (fsCall s c).2) SizeLaw kernelMain calls ↔ ∀ c ∈ calls, NoWrap c := by
  intro calls
  refine (sizeLaw_iff fun c hc => ?_).2
  rcases List.mem_pair.mp hc with rfl | rfl
  · exact ⟨by decide, by decide⟩
  · exact ⟨by decide, by decide⟩

/-- `api_write` with a count of `2 ^ 32 - 1`, which is what -1 becomes: success,
and a file of that size without a block. -/
theorem not_sizesFit_huge :
    let (r, fs) := apiWrite kernelMain.fs 8 (fun _ => 0x61) (2 ^ 32 - 1)
    r = fsSuccess ∧ (fs.inodes 7).size = 2 ^ 32 - 1 ∧ (fs.inodes 7).blocks = 0 ∧ ¬ SizesFit fs ∧
      ¬ SizeLaw kernelMain (.write 8 (fun _ => 0x61) (2 ^ 32 - 1)) := by
  have hfacts : (fsWriteFile kernelMain.fs 8 (fun _ => 0x61) (2 ^ 32 - 1)).1 = fsSuccess ∧
      ((fsWriteFile kernelMain.fs 8 (fun _ => 0x61) (2 ^ 32 - 1)).2.inodes 7).size = 2 ^ 32 - 1 ∧
      ((fsWriteFile kernelMain.fs 8 (fun _ => 0x61) (2 ^ 32 - 1)).2.inodes 7).blocks = 0 := by
    decide +kernel
  obtain ⟨hret, hsize, hblocks⟩ := hfacts
  have hnot : ¬ SizesFit (fsWriteFile kernelMain.fs 8 (fun _ => 0x61) (2 ^ 32 - 1)).2 := by
    intro h
    have hle := h.size_le 7
    rw [hsize, hblocks] at hle
    exact absurd hle (by decide)
  exact ⟨hret, hsize, hblocks, hnot, fun h => hnot h.fit⟩

/-! ## What a read returns -/

/-- The bytes of the file: as many as its size says and its blocks have. There
is no file behind a bad number. -/
def contentOf (fs : Bkfs) (inodeNum : Nat) : List UInt8 :=
  if BadInode inodeNum then []
  else
    table (fileByte (fs.inodes (inodeNum - 1)).block fs.blocks)
      (min (fs.inodes (inodeNum - 1)).size ((fs.inodes (inodeNum - 1)).blocks * blockSize))

/-- A result no read of an inode in range gives, in no state. -/
def ErrorOnly (r : Int) : Prop :=
  ∀ s, Reachable s → ∀ n buffer size, ¬ BadInode n → size < 2 ^ 32 →
    (fsReadFile s.fs n buffer size).1 ≠ r

/-- The result is an error that is no count, or counts the bytes of the file
that were put in front of the buffer. -/
def Truthful (fs : Bkfs) (inodeNum : Nat) (buffer : Nat → UInt8) (size : Nat) : Prop :=
  ErrorOnly (fsReadFile fs inodeNum buffer size).1 ∨
    ∃ r : Nat, (fsReadFile fs inodeNum buffer size).1 = r ∧ r ≤ size ∧
      r ≤ (contentOf fs inodeNum).length ∧
      ∀ p, (fsReadFile fs inodeNum buffer size).2.1 p =
        if p < r then (contentOf fs inodeNum).getD p 0 else buffer p

/-- `FS_ERROR` is what reading a file of one byte returns. -/
theorem not_errorOnly_fsError : ¬ ErrorOnly fsError := by
  intro h
  have hone : (fsReadFile (callAll kernelMain [.write 8 (fun _ => 0x61) 1]).fs 8 (fun _ => 0) 1).1
      = fsError := by
    decide +kernel
  have hreach : Reachable (callAll kernelMain [.write 8 (fun _ => 0x61) 1]) := by
    refine reachable_callAll fun c hc => ?_
    obtain rfl := List.mem_singleton.mp hc
    exact ⟨by decide, by decide⟩
  exact h _ hreach 8 (fun _ => 0) 1 (by decide) (by decide) hone

/-- A number that is refused comes back as 1, which looks like a length. -/
theorem not_truthful_of_bad {n : Nat} (hn : BadInode n) (buffer : Nat → UInt8) (size : Nat) :
    ¬ Truthful fs n buffer size := by
  have hread : fsReadFile fs n buffer size = (fsError, buffer, fs) := if_pos hn
  have hnone : contentOf fs n = [] := if_pos hn
  rw [Truthful]
  rw [hread, hnone]
  rintro (herror | ⟨r, hr, -, hle, -⟩)
  · exact not_errorOnly_fsError herror
  · have hr : fsError = (r : Int) := hr
    obtain rfl : r = 0 := Nat.le_zero.mp hle
    cases hr

/-- A 32-bit value is the count it is read as, unless that is negative. -/
theorem toInt_eq_natCast_iff {m r : Nat} (hm : m < 2 ^ 32) : toInt m = r ↔ m < 2 ^ 31 ∧ r = m := by
  have hmod : (m : Int) % (2 ^ 32 : Nat) = m := Int.emod_eq_of_lt (by omega) (by omega)
  unfold toInt
  rw [Int.bmod_def, hmod]
  split
  · omega
  · omega

/-- **When a read tells the truth**: the inode number is in range and the file
has blocks for the bytes it reports. -/
theorem truthful_iff {s : KernelState} (hs : Reachable s) (n : Nat) (buffer : Nat → UInt8) {size : Nat}
    (hsize : size < 2 ^ 32) : Truthful s.fs n buffer size ↔
      ¬ BadInode n ∧ min size (s.fs.inodes (n - 1)).size ≤ (s.fs.inodes (n - 1)).blocks * blockSize := by
  by_cases hn : BadInode n
  · exact iff_of_false (not_truthful_of_bad hn buffer size) fun h => h.1 hn
  rw [and_iff_right hn]
  obtain ⟨hret, hbuf⟩ := @fsReadFile_eq s.fs n hn buffer size
  have hcontent : contentOf s.fs n = table (fileByte (s.fs.inodes (n - 1)).block s.fs.blocks)
      (min (s.fs.inodes (n - 1)).size ((s.fs.inodes (n - 1)).blocks * blockSize)) := if_neg hn
  have hblocks : (s.fs.inodes (n - 1)).blocks * blockSize ≤ 12288 :=
    Nat.mul_le_mul_right blockSize (hs.wellFormed.blocks_le (n - 1))
  -- an error code would have to come from every number, so it comes from none
  have hnoError : ¬ ErrorOnly (fsReadFile s.fs n buffer size).1 := fun h =>
    h s hs n buffer size hn hsize rfl
  rw [Truthful]
  rw [or_iff_right hnoError, hret, hcontent, length_table]
  generalize (s.fs.inodes (n - 1)).blocks * blockSize = room at hbuf hblocks ⊢
  generalize (s.fs.inodes (n - 1)).size = isize at hbuf ⊢
  constructor
  -- the return value is the size asked for, and the blocks have to hold as much
  · rintro ⟨r, hr, -, hle, -⟩
    obtain ⟨-, rfl⟩ := (toInt_eq_natCast_iff (by omega)).mp hr
    omega
  · intro hroom
    refine ⟨min size isize, toInt_of_lt (by omega), Nat.min_le_left _ _, by omega, fun p => ?_⟩
    rw [hbuf p, Nat.min_eq_left hroom]
    by_cases hp : p < min size isize
    · have hlt : p < isize ∧ p < room := by omega
      rw [if_pos hp, if_pos hp]
      simp [table, hlt]
    · rw [if_neg hp, if_neg hp]

/-- The first bytes of `/fetch` at boot: none. -/
theorem truthful_iff_fetch : Truthful kernelMain.fs 8 (fun _ => 0) 100 ↔
    ¬ BadInode 8 ∧
      min 100 (kernelMain.fs.inodes 7).size ≤ (kernelMain.fs.inodes 7).blocks * blockSize :=
  truthful_iff reachable_kernelMain 8 (fun _ => 0) (by decide)

/-- The -1 for a missing file, read: one byte, it says. -/
theorem not_truthful_missing :
    apiOpen kernelMain.fs "missing" = -1 ∧
      (apiRead kernelMain.fs (-1) (fun _ => 0) 64).1 = 1 ∧
      ¬ Truthful kernelMain.fs (intToUint32 (-1)) (fun _ => 0) 64 :=
  ⟨by decide +kernel, by decide +kernel, not_truthful_of_bad (by decide) _ _⟩

end Srunix
