import Srunix.Bkfs.Copy
import Srunix.Bkfs.Ownership

/-!
# What a failed write leaves behind

`fs_write_file` returns `FS_ERROR` before it has done anything, or after it has
given the inode's blocks away and taken what there was. The rollback frees what
the loop took; what the inode had before it does not take back, and the slots
the loop has filled keep their new numbers. `failedWrite_iff` says when that
cannot be seen.
-/

namespace Srunix

open Library

/-- Two tables are the same up to a length if all their places below it are. -/
theorem table_eq_iff {α : Type} {a b : Nat → α} {n : Nat} :
    table a n = table b n ↔ ∀ i < n, a i = b i := by
  simp [table]

/-- Two states no reader can tell apart: bitmap, counter, and of each inode the
size, the blocks it lists and what reading it gives. -/
structure SameFiles (fs fs' : Bkfs) : Prop where
  blockUsed : fs'.blockUsed = fs.blockUsed
  freeBlocks : fs'.freeBlocks = fs.freeBlocks
  size : ∀ k, (fs'.inodes k).size = (fs.inodes k).size
  blocks : ∀ k, (fs'.inodes k).blocks = (fs.inodes k).blocks
  blockList : ∀ k, (fs'.inodes k).blockList = (fs.inodes k).blockList
  content : ∀ n buffer size, (fsReadFile fs' n buffer size).1 = (fsReadFile fs n buffer size).1 ∧
    (fsReadFile fs' n buffer size).2.1 = (fsReadFile fs n buffer size).2.1

theorem SameFiles.refl (fs : Bkfs) : SameFiles fs fs :=
  ⟨rfl, rfl, fun _ => rfl, fun _ => rfl, fun _ => rfl, fun _ _ _ => ⟨rfl, rfl⟩⟩

/-- Reading goes by size, listed blocks and cells. -/
theorem fsReadFile_congr {fs fs' : Bkfs} (hsize : ∀ k, (fs'.inodes k).size = (fs.inodes k).size)
    (hblocks : ∀ k, (fs'.inodes k).blocks = (fs.inodes k).blocks)
    (hlist : ∀ k, (fs'.inodes k).blockList = (fs.inodes k).blockList)
    (hcells : fs'.blocks = fs.blocks) (n : Nat) (buffer : Nat → UInt8) (size : Nat) :
    (fsReadFile fs' n buffer size).1 = (fsReadFile fs n buffer size).1 ∧
      (fsReadFile fs' n buffer size).2.1 = (fsReadFile fs n buffer size).2.1 := by
  by_cases hbad : BadInode n
  · have href : ∀ fs, fsReadFile fs n buffer size = (fsError, buffer, fs) := fun fs => if_pos hbad
    rw [href, href]
    exact ⟨rfl, rfl⟩
  · have hread : ∀ fs, _ := fun fs : Bkfs => @fsReadFile_eq fs n hbad buffer size
    obtain ⟨hret, hbuf⟩ := hread fs
    obtain ⟨hret', hbuf'⟩ := hread fs'
    have htable : table (fs'.inodes (n - 1)).block (fs.inodes (n - 1)).blocks
        = (fs.inodes (n - 1)).blockList := by
      rw [← hblocks]
      exact hlist (n - 1)
    have hslots := table_eq_iff.mp htable
    rw [hret, hret', hsize]
    refine ⟨rfl, funext fun p => ?_⟩
    rw [hbuf, hbuf', hsize, hblocks]
    split
    · -- a byte below the end lies in a listed block
      rename_i hp
      have hslot : p / blockSize < (fs.inodes (n - 1)).blocks := by
        refine Nat.div_lt_of_lt_mul ?_
        rw [Nat.mul_comm]
        omega
      unfold fileByte
      rw [hslots _ hslot, hcells]
    · rfl

/-! ## The failed write -/

/-- A write that cannot fail behind the checks, or cannot be seen to: it gives
nothing back, and what it would put into the first `m` slots is there already. -/
def WriteHarmless (fs : Bkfs) (n size m : Nat) : Prop :=
  WriteRefused n size ∨ blocksNeeded size ≤ (writeBlocks fs (n - 1)).length ∨
    (releasable (fs.inodes (n - 1)).blockList = [] ∧
      ∀ i < m, ∀ b, (writeBlocks fs (n - 1))[i]? = some b → (fs.inodes (n - 1)).block i = b)

theorem splice_getElem? {f : Nat → Nat} {l : List Nat} {i b : Nat} (hb : l[i]? = some b) : splice f 0 l i = b := by
  obtain ⟨hi, rfl⟩ := List.getElem?_eq_some_iff.mp hb
  rw [splice]
  rw [if_pos (by omega), Nat.sub_zero, List.getD_eq_getElem?_getD, hb]
  rfl

/-- The block list is what it was exactly if every block that was stored was there
before. -/
theorem splice_eq_iff {f : Nat → Nat} {l : List Nat} {m : Nat} :
    (∀ i < m, splice f 0 l i = f i) ↔ ∀ i < m, ∀ b, l[i]? = some b → f i = b := by
  constructor
  · intro h i hi b hb
    rw [← h i hi, splice_getElem? hb]
  · intro h i hi
    cases hb : l[i]? with
    | some b => rw [splice_getElem? hb, h i hi b hb]
    | none =>
      have hlen : l.length ≤ i := List.getElem?_eq_none_iff.mp hb
      exact if_neg (by omega)

section WriteFailed

variable (fs : Bkfs) (k : Nat) (l : List Nat)

/-- The inode of a failed write, seen from its first `m` slots. -/
theorem writeFailed_slots_iff (m : Nat) :
    (∀ i < m, ((writeFailed fs k l).inodes k).block i = (fs.inodes k).block i) ↔
      ∀ i < m, ∀ b, l[i]? = some b → (fs.inodes k).block i = b := by
  rw [writeFailed_inode_self]
  exact splice_eq_iff

variable {fs k l}

/-- Nothing was given back if the counter is what it was. -/
theorem releasable_eq_nil (hwf : WellFormed fs)
    (hcount : (writeFailed fs k l).freeBlocks = fs.freeBlocks) :
    releasable (fs.inodes k).blockList = [] := by
  have hcount : uint32 (fs.freeBlocks + (releasable (fs.inodes k).blockList).length)
      = fs.freeBlocks := hcount
  have hlen : (releasable (fs.inodes k).blockList).length ≤ (fs.inodes k).blocks := by
    rw [← Inode.length_blockList]
    exact List.length_filter_le _ _
  have hblocks := hwf.blocks_le k
  have hfree := hwf.freeBlocks_lt
  simp only [inodeDirectBlocks] at hblocks
  refine List.eq_nil_of_length_eq_zero ?_
  rw [uint32] at hcount
  omega

/-- A failed write leaves the files exactly if nothing was released and every block
taken was already in its place. -/
theorem sameFiles_writeFailed_iff (hwf : WellFormed fs) : SameFiles fs (writeFailed fs k l) ↔
    releasable (fs.inodes k).blockList = [] ∧
      ∀ i < (fs.inodes k).blocks, ∀ b, l[i]? = some b → (fs.inodes k).block i = b := by
  rw [← writeFailed_slots_iff]
  have hlist : ((writeFailed fs k l).inodes k).blockList = (fs.inodes k).blockList ↔
      ∀ i < (fs.inodes k).blocks,
        ((writeFailed fs k l).inodes k).block i = (fs.inodes k).block i := by
    rw [Inode.blockList]
    rw [(writeFailed_size fs k l k).2]
    exact table_eq_iff
  constructor
  · intro h
    exact ⟨releasable_eq_nil hwf h.freeBlocks, hlist.mp (h.blockList k)⟩
  -- nothing to give back and every slot kept: the files are what they were
  · rintro ⟨hnone, hslots⟩
    have hlists : ∀ j, ((writeFailed fs k l).inodes j).blockList = (fs.inodes j).blockList := by
      intro j
      by_cases hj : j = k
      · rw [hj]
        exact hlist.mpr hslots
      · rw [writeFailed_inode_of_ne _ _ _ hj]
    refine ⟨?_, ?_, fun j => (writeFailed_size fs k l j).1, fun j => (writeFailed_size fs k l j).2, hlists,
      fsReadFile_congr (fun j => (writeFailed_size fs k l j).1) (fun j => (writeFailed_size fs k l j).2) hlists rfl⟩
    · show mark fs.blockUsed (releasable (fs.inodes k).blockList) false = fs.blockUsed
      rw [hnone, mark_nil]
    · show uint32 (fs.freeBlocks + (releasable (fs.inodes k).blockList).length) = fs.freeBlocks
      rw [hnone]
      exact Nat.mod_eq_of_lt hwf.freeBlocks_lt

variable (fs k l) in
/-- All slots are below `INODE_DIRECT_BLOCKS` for a write that was not refused. -/
theorem writeFailed_block_iff {n size : Nat} (href : ¬ WriteRefused n size)
    (hlen : l.length < blocksNeeded size) :
    (∀ j i, ((writeFailed fs k l).inodes j).block i = (fs.inodes j).block i) ↔
      ∀ i < inodeDirectBlocks, ∀ b, l[i]? = some b → (fs.inodes k).block i = b := by
  have hfew : blocksNeeded size ≤ inodeDirectBlocks := Nat.not_lt.mp fun h => href (.inr h)
  constructor
  · intro h
    exact (writeFailed_slots_iff fs k l _).mp fun i _ => h k i
  · intro h j i
    by_cases hj : j = k
    · subst hj
      refine (writeFailed_slots_iff fs j l (i + 1)).mpr (fun i' _ b hb => h i' ?_ b hb) i
        (Nat.lt_succ_self i)
      have := (List.getElem?_eq_some_iff.mp hb).1
      omega
    · rw [writeFailed_inode_of_ne _ _ _ hj]

end WriteFailed

/-- **When a failed write changes nothing**: neither what a reader can see, nor
(second part) any slot of any inode. -/
theorem failedWrite_iff {fs : Bkfs} (hwf : WellFormed fs) (n : Nat) (data : Nat → UInt8)
    (size : Nat) :
    (((fsWriteFile fs n data size).1 = fsError → SameFiles fs (fsWriteFile fs n data size).2) ↔
      WriteHarmless fs n size (fs.inodes (n - 1)).blocks) ∧
    (((fsWriteFile fs n data size).1 = fsError → SameFiles fs (fsWriteFile fs n data size).2 ∧
        ∀ k i, ((fsWriteFile fs n data size).2.inodes k).block i = (fs.inodes k).block i) ↔
      WriteHarmless fs n size inodeDirectBlocks) := by
  rw [fsWriteFile_eq hwf.freeBlocks_lt]
  unfold WriteHarmless
  by_cases href : WriteRefused n size
  · rw [if_pos href]
    exact ⟨iff_of_true (fun _ => .refl fs) (.inl href),
      iff_of_true (fun _ => ⟨.refl fs, fun _ _ => rfl⟩) (.inl href)⟩
  rw [if_neg href]
  by_cases hroom : blocksNeeded size ≤ (writeBlocks fs (n - 1)).length
  · rw [if_pos hroom]
    have hne : fsSuccess ≠ fsError := by decide
    exact ⟨iff_of_true (fun h => absurd h hne) (.inr (.inl hroom)),
      iff_of_true (fun h => absurd h hne) (.inr (.inl hroom))⟩
  rw [if_neg hroom]
  -- out of space: what is left is what the rollback restores
  have hsame := sameFiles_writeFailed_iff (k := n - 1) (l := writeBlocks fs (n - 1)) hwf
  have hslots := writeFailed_block_iff fs (n - 1) _ href (Nat.not_le.mp hroom)
  constructor
  · rw [or_iff_right href, or_iff_right hroom, ← hsame]
    exact ⟨fun h => h rfl, fun h _ => h⟩
  · rw [or_iff_right href, or_iff_right hroom, ← hslots]
    constructor
    · intro h
      exact ⟨(hsame.mp (h rfl).1).1, (h rfl).2⟩
    · rintro ⟨hnone, hkept⟩ -
      exact ⟨hsame.mpr ⟨hnone, (writeFailed_slots_iff _ _ _ _).mp fun i _ => hkept _ i⟩, hkept⟩

/-- **In every state calls can reach.** -/
theorem failedWrite_iff_of_run {calls : List FsCall} {s : KernelState}
    (h : FsRun (fun _ _ => True) calls s) (n : Nat) (data : Nat → UInt8) (size : Nat) :
    (((fsWriteFile s.fs n data size).1 = fsError →
        SameFiles s.fs (fsWriteFile s.fs n data size).2) ↔
      WriteHarmless s.fs n size (s.fs.inodes (n - 1)).blocks) ∧
    (((fsWriteFile s.fs n data size).1 = fsError →
        SameFiles s.fs (fsWriteFile s.fs n data size).2 ∧
          ∀ k i, ((fsWriteFile s.fs n data size).2.inodes k).block i = (s.fs.inodes k).block i) ↔
      WriteHarmless s.fs n size inodeDirectBlocks) :=
  failedWrite_iff (wellFormed_of_run h) n data size

/-- One byte to `/fetch`, right after boot. -/
theorem failedWrite_iff_of_run_fetch :
    (((fsWriteFile kernelMain.fs 8 (fun _ => 0x61) 1).1 = fsError →
        SameFiles kernelMain.fs (fsWriteFile kernelMain.fs 8 (fun _ => 0x61) 1).2) ↔
      WriteHarmless kernelMain.fs 8 1 (kernelMain.fs.inodes 7).blocks) :=
  (failedWrite_iff_of_run (.nil kernelMain) 8 (fun _ => 0x61) 1).1

/-- On a full disk, a file of two blocks that should grow to twelve. -/
theorem Filled.not_harmless {fs : Bkfs} {m : Nat} (h : Filled fs m 0)
    (htwo : (fs.inodes 7).blocks = 2) : ¬ WriteHarmless fs 8 12288 (fs.inodes 7).blocks := by
  have hlen := length_releasable (h.inv.exclusive.nodup 7) (blockList_lt h.wf 7)
  have hle : (releasable (held fs 7)).length ≤ (held fs 7).length := List.length_filter_le ..
  have hheld : (held fs 7).length = 2 := (Inode.length_blockList _).trans htwo
  have havail : available fs 7 = (releasable (held fs 7)).length := by
    rw [available]
    rw [h.free, Nat.zero_add]
    rfl
  have hcounted := (freshBlocks_writeBlocks fs 7).counted
  rw [(h.inv.counted_released 7).1] at hcounted
  rintro (href | hroom | ⟨hnone, -⟩)
  · exact absurd href (by decide)
  · have hroom : 12 ≤ (writeBlocks fs 7).length := hroom
    omega
  · have hnone : releasable (held fs 7) = [] := hnone
    rw [hnone, hheld] at hlen
    exact absurd hlen (by decide)

/-- A failed write on a full disk that loses the old content. -/
theorem Filled.not_sameFiles {fs : Bkfs} {m : Nat} (h : Filled fs m 0)
    (htwo : (fs.inodes 7).blocks = 2) : (fsWriteFile fs 8 (fun _ => 0x61) 12288).1 = fsError ∧
      ¬ SameFiles fs (fsWriteFile fs 8 (fun _ => 0x61) 12288).2 := by
  have hiff := (failedWrite_iff h.wf 8 (fun _ => 0x61) 12288).1
  exact Classical.not_imp.mp fun himp => h.not_harmless htwo (hiff.mp himp)

/-- **A full disk lets a failed write through**: the two blocks of inode 8 are
free afterwards. -/
theorem not_sameFiles_of_full_disk :
    let fs := (callAll kernelMain (fillFiles ++ fillBlocks)).fs
    (fsWriteFile fs 8 (fun _ => 0x61) 12288).1 = fsError ∧
      ¬ SameFiles fs (fsWriteFile fs 8 (fun _ => 0x61) 12288).2 :=
  filled_fillBlocks.1.not_sameFiles filled_fillBlocks.2

end Srunix
