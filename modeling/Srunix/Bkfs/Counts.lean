import Srunix.Bkfs.Ownership

/-!
# The free counters

`free_blocks` and `free_inodes` are kept next to the bitmap and the inode table
and are raised by routines that never look at what they free. They stay right
exactly as long as

- a deletion names an inode in use, and
- an overwrite or a deletion gives back distinct blocks that are marked as used.

`KeepsCounts` is that condition on one call, `countsExact_step_iff` says it is
exact, and `countsExact_of_run` carries it along histories.
-/

namespace Srunix

open Library

/-- Both counters tell the truth. -/
structure CountsExact (fs : Bkfs) : Prop where
  blocks : fs.freeBlocks = unusedBlocks fs
  inodes : fs.freeInodes = unusedInodes fs

/-- What slot `k` would give back are distinct blocks in use. -/
def ReleaseSound (fs : Bkfs) (k : Nat) : Prop :=
  (releasable (held fs k)).Nodup ∧ ∀ b ∈ releasable (held fs k), fs.blockUsed b = true

instance (fs : Bkfs) (k : Nat) : Decidable (ReleaseSound fs k) :=
  inferInstanceAs (Decidable (_ ∧ _))

/-- The calls that leave the counters right. -/
def KeepsCounts (fs : Bkfs) : FsCall → Prop
  | .write n _ size => WriteRefused n size ∨ ReleaseSound fs (n - 1)
  | .delete n => BadInode n ∨ (fs.inodes (n - 1)).mode ≠ 0 ∧ ReleaseSound fs (n - 1)
  | .create .. | .read .. | .chdir _ => True

/-! ## Blocks -/

section Blocks

variable {fs : Bkfs}

/-- After a release the count is right exactly if every block that was released had
been marked, once each. -/
theorem counted_released_iff (hwf : WellFormed fs) (h : fs.freeBlocks = unusedBlocks fs) (k : Nat) :
    (released fs k).freeBlocks = unusedBlocks (released fs k) ↔ ReleaseSound fs k := by
  -- at most twelve blocks are given back, so the counter does not wrap
  have hlen : (releasable (held fs k)).length ≤ inodeDirectBlocks :=
    Nat.le_trans (List.length_filter_le ..) ((Inode.length_blockList _).trans_le (hwf.blocks_le k))
  have hle : unusedBlocks fs ≤ maxBlocks := freeCount_le ..
  have hcount : (released fs k).freeBlocks
      = freeCount maxBlocks fs.blockUsed + (releasable (held fs k)).length := by
    show uint32 (fs.freeBlocks + (releasable (held fs k)).length) = _
    rw [h]
    refine Nat.mod_eq_of_lt (Nat.lt_of_le_of_lt (Nat.add_le_add hle hlen) (by decide))
  have hiff := @freeCount_mark_false_iff maxBlocks (releasable (held fs k)) fs.blockUsed
  rw [hcount]
  constructor
  · intro heq
    obtain ⟨hnd, hmem⟩ := hiff.mp heq.symm
    exact ⟨hnd, fun b hb => (hmem b hb).2⟩
  · rintro ⟨hnd, hused⟩
    refine (hiff.mpr ⟨hnd, fun b hb => ⟨(mem_releasable.mp hb).2.2, hused b hb⟩⟩).symm

/-- Taking fresh blocks moves counter and bitmap together. -/
theorem counted_written_iff {k size : Nat} {data : Nat → UInt8} {l : List Nat}
    (hl : FreshBlocks (released fs k) l) :
    (written fs k data size l).freeBlocks = unusedBlocks (written fs k data size l) ↔
      (released fs k).freeBlocks = unusedBlocks (released fs k) := by
  have hcount := freeCount_mark_true (n := maxBlocks) hl.nodup hl.fresh
  have hcounted := hl.counted
  show (released fs k).freeBlocks - l.length
    = freeCount maxBlocks (mark (released fs k).blockUsed l true) ↔
      (released fs k).freeBlocks = freeCount maxBlocks (released fs k).blockUsed
  omega

end Blocks

/-! ## Inodes -/

section Inodes

variable {fs fs' : Bkfs}

/-- Only the modes count. -/
theorem unusedInodes_congr (h : ∀ k, (fs'.inodes k).mode = (fs.inodes k).mode) :
    unusedInodes fs' = unusedInodes fs :=
  freeCount_congr fun k _ => by rw [h k]

theorem unusedInodes_update {k : Nat} {inode : Inode}
    (h : fs'.inodes = Function.update fs.inodes k inode) :
    unusedInodes fs' = freeCount maxInodes
      (Function.update (fun i => (fs.inodes i).mode != 0) k (inode.mode != 0)) := by
  refine freeCount_congr fun i _ => ?_
  rw [h]
  by_cases hik : i = k
  · rw [hik, Function.update_self, Function.update_self]
  · rw [Function.update_of_ne hik, Function.update_of_ne hik]

/-- A new file takes one inode. -/
theorem unusedInodes_created {i : Nat} (hi : i < maxInodes) (hmode : (fs.inodes i).mode = 0)
    (name : Name) (parentInode : Nat) (type : UInt8) :
    unusedInodes (created fs i name parentInode type) + 1 = unusedInodes fs := by
  have hnew : ((newInode fs.timerTicks type).mode != 0) = true := by
    simpa using newInode_mode fs.timerTicks type
  have hupdate : unusedInodes (created fs i name parentInode type) = freeCount maxInodes
      (Function.update (fun i => (fs.inodes i).mode != 0) i
        ((newInode fs.timerTicks type).mode != 0)) := unusedInodes_update rfl
  rw [hupdate, hnew]
  exact freeCount_take hi (by simp [hmode])

/-- A removed file gives its inode back. -/
theorem unusedInodes_deleted {n : Nat} (hn : ¬ BadInode n) :
    unusedInodes (deleted fs n) =
      unusedInodes fs + if (fs.inodes (n - 1)).mode ≠ 0 then 1 else 0 := by
  have hupdate : unusedInodes (deleted fs n) = freeCount maxInodes
      (Function.update (fun i => (fs.inodes i).mode != 0) (n - 1) (Inode.zero.mode != 0)) :=
    unusedInodes_update rfl
  rw [hupdate]
  show freeCount maxInodes (Function.update _ (n - 1) false) = _
  rw [freeCount_update_false]
  simp [lt_maxInodes_of_not_bad hn, unusedInodes]

end Inodes

/-! ## One call -/

/-- **A call leaves the counters right exactly when it meets `KeepsCounts`.** -/
theorem countsExact_step_iff {fs fs' : Bkfs} {c : FsCall} {r : Int} (hwf : WellFormed fs)
    (h : CountsExact fs) (hout : FsOutcome fs c r fs') : CountsExact fs' ↔ KeepsCounts fs c := by
  cases hout with
  | createRefused => exact iff_of_true h trivial
  | chdir => exact iff_of_true ⟨h.1, h.2⟩ trivial
  | writeRefused href => exact iff_of_true h (.inl href)
  | deleteRefused hbad => exact iff_of_true h (.inl hbad)
  | @created name parentInode type i href hi hmode =>
    refine iff_of_true ⟨h.blocks, ?_⟩ trivial
    have hcount := unusedInodes_created hi hmode name parentInode type
    have hexact := h.inodes
    show fs.freeInodes - 1 = unusedInodes (created fs i name parentInode type)
    omega
  | @written n size data l href hl _ =>
    have hinodes : unusedInodes (written fs (n - 1) data size l) = unusedInodes fs :=
      unusedInodes_congr (written_mode _ _ _ _ _)
    have hiff := (@counted_written_iff fs (n - 1) size data l hl).trans
      (counted_released_iff hwf h.blocks (n - 1))
    refine Iff.trans ⟨fun hcounts => hcounts.blocks, fun hblocks => ⟨hblocks, ?_⟩⟩
      (hiff.trans (or_iff_right href).symm)
    exact h.inodes.trans hinodes.symm
  | @writeFailed n size data l href hl _ _ =>
    have hinodes : unusedInodes (writeFailed fs (n - 1) l) = unusedInodes fs :=
      unusedInodes_congr (writeFailed_mode _ _ _)
    -- what it took it has given back, which leaves the release
    refine Iff.trans ⟨fun hcounts => hcounts.blocks, fun hblocks => ⟨hblocks, ?_⟩⟩
      ((counted_released_iff hwf h.blocks (n - 1)).trans (or_iff_right href).symm)
    exact h.inodes.trans hinodes.symm
  | @read n size buffer _ =>
    have hinodes : unusedInodes (accessed fs n) = unusedInodes fs :=
      unusedInodes_congr (accessed_mode fs n)
    obtain ⟨inodes, heq, -⟩ := accessed_eq fs n
    rw [heq] at hinodes ⊢
    exact iff_of_true ⟨h.blocks, h.inodes.trans hinodes.symm⟩ trivial
  | @deleted n hbad =>
    have hcount := @unusedInodes_deleted fs n hbad
    have hle : unusedInodes fs ≤ maxInodes := freeCount_le ..
    have hfree : (deleted fs n).freeInodes = unusedInodes fs + 1 := by
      show uint32 (fs.freeInodes + 1) = _
      rw [h.inodes]
      exact Nat.mod_eq_of_lt (Nat.lt_of_le_of_lt (Nat.succ_le_succ hle) (by decide))
    -- the counter goes up even if the inode was free before
    have hinodes : (deleted fs n).freeInodes = unusedInodes (deleted fs n) ↔
        (fs.inodes (n - 1)).mode ≠ 0 := by
      rw [hfree, hcount]
      split <;> simp_all
    have hblocks : (deleted fs n).freeBlocks = unusedBlocks (deleted fs n) ↔
        ReleaseSound fs (n - 1) := counted_released_iff hwf h.blocks (n - 1)
    refine Iff.trans ?_ (or_iff_right hbad).symm
    exact ⟨fun hc => ⟨hinodes.mp hc.inodes, hblocks.mp hc.blocks⟩,
      fun hc => ⟨hblocks.mpr hc.2, hinodes.mpr hc.1⟩⟩

/-! ## Whole histories -/

theorem CountsExact.empty : CountsExact emptyFs where
  blocks := by decide +kernel
  inodes := by decide +kernel

theorem countsExact_kernelMain : CountsExact kernelMain.fs :=
  kernelMain_invariant .empty fun {_ name parentInode type} hwf h =>
    (countsExact_step_iff (c := .create name parentInode type) hwf h (fsCall_outcome hwf _)).mpr trivial

/-- With exact counters the allocators fail only when nothing is free. -/
theorem CountsExact.alloc {fs : Bkfs} (h : CountsExact fs) :
    ((fsAllocBlock fs).1 = none → ∀ b < maxBlocks, fs.blockUsed b = true) ∧
      ((fsAllocInode fs).1 = none → ∀ i < maxInodes, (fs.inodes i).mode ≠ 0) := by
  refine ⟨fun hnone => ?_, fun hnone => ?_⟩
  · rcases (fsAllocBlock_none (Prod.ext hnone rfl)).2 with hzero | hall
    · exact freeCount_eq_zero_iff.mp (h.blocks.symm.trans hzero)
    · exact hall
  · rcases (fsAllocInode_none (Prod.ext hnone rfl)).2 with hzero | hall
    · intro i hi
      simpa using freeCount_eq_zero_iff.mp (h.inodes.symm.trans hzero) i hi
    · exact hall

/-- **The counters are exact in every history of calls that meet `KeepsCounts`**,
hence in range, and the allocators fail only when nothing is free; and from each
state such a history reaches, the next call leaves them exact only if it meets
the condition too. -/
theorem countsExact_of_run {calls : List FsCall} {s : KernelState}
    (h : FsRun (fun s c => KeepsCounts s.fs c) calls s) :
    CountsExact s.fs ∧ s.fs.freeBlocks ≤ maxBlocks ∧ s.fs.freeInodes ≤ maxInodes ∧
      ((fsAllocBlock s.fs).1 = none → ∀ b < maxBlocks, s.fs.blockUsed b = true) ∧
      ((fsAllocInode s.fs).1 = none → ∀ i < maxInodes, (s.fs.inodes i).mode ≠ 0) ∧
      ∀ c, CountsExact (fsCall s c).2.fs ↔ KeepsCounts s.fs c := by
  obtain ⟨hwf, hexact⟩ := h.invariant countsExact_kernelMain fun hwf hinv hok =>
    (countsExact_step_iff hwf hinv (fsCall_outcome hwf _)).mpr hok
  refine ⟨hexact, ?_, ?_, hexact.alloc.1, hexact.alloc.2, fun c => ?_⟩
  · exact hexact.blocks.trans_le (freeCount_le ..)
  · exact hexact.inodes.trans_le (freeCount_le ..)
  · exact countsExact_step_iff hwf hexact (fsCall_outcome hwf c)

/-- `/fetch` is in use and holds nothing, so deleting it is fine. -/
theorem countsExact_of_run_fetch : CountsExact (callAll kernelMain [.delete 8]).fs := by
  have hkeeps : KeepsCounts kernelMain.fs (.delete 8) :=
    .inr ⟨by decide +kernel, by decide +kernel⟩
  let calls : List FsCall := [.delete 8]
  have hrun : FsRun (fun s c => KeepsCounts s.fs c) calls (callAll kernelMain calls) :=
    .cons ⟨hkeeps, rfl⟩ (.nil _)
  exact (countsExact_of_run hrun).1

/-- **Deleting an inode number nobody uses** raises `free_inodes` beyond the
number of free inodes. -/
theorem not_countsExact_of_deleted_free :
    ¬ CountsExact (callAll kernelMain [.delete 50]).fs := by
  intro h
  exact absurd h.inodes (by decide +kernel)

end Srunix
