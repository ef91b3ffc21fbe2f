import Srunix.Bkfs.Entries

/-!
# Who owns which block

The bitmap `block_used` and the block lists of the inodes are an instance of the
pool of `Library/Pool.lean`: the units are the data blocks, the owners the
inodes. `BlocksInv` says that no block is listed twice, that every listed block
is marked, and that `free_blocks` counts the unmarked ones.

A write that runs out of space bounds how far that goes: it gives the inode's
old blocks away and leaves their numbers, or those of blocks it took and gave
back, in its list. `WriteSafe` says when a write cannot do that. Histories of
safe writes keep `BlocksInv` (`exclusive_of_safe_run`), and every other write to
a live inode breaks exclusiveness at once (`not_exclusive_of_unsafe_write`).
-/

namespace Srunix

open Library

/-- The blocks each inode slot lists. -/
def held (fs : Bkfs) : Nat → List Nat := fun k => (fs.inodes k).blockList

/-- A new block list of one inode. -/
theorem held_update {fs fs' : Bkfs} {k : Nat} {inode : Inode}
    (h : fs'.inodes = Function.update fs.inodes k inode) :
    held fs' = Function.update (held fs) k inode.blockList := by
  funext j
  show (fs'.inodes j).blockList = _
  rw [h]
  by_cases hj : j = k
  · subst hj
    rw [Function.update_self, Function.update_self]
  · rw [Function.update_of_ne hj, Function.update_of_ne hj]
    rfl

/-- A new inode holds no blocks. -/
theorem held_created (fs : Bkfs) (i : Nat) (name : Name) (parentInode : Nat) (type : UInt8) :
    held (created fs i name parentInode type) = Function.update (held fs) i [] := by
  show held (created fs i name parentInode type)
    = Function.update (held fs) i (newInode fs.timerTicks type).blockList
  exact held_update rfl

/-- After a write the inode holds the blocks that were taken for it. -/
theorem held_written (fs : Bkfs) (k : Nat) (data : Nat → UInt8) (size : Nat) (l : List Nat) :
    held (written fs k data size l) = Function.update (held fs) k l := by
  have hheld : held (written fs k data size l)
      = Function.update (held fs) k (writtenInode fs k size l).blockList := held_update rfl
  rw [hheld, blockList_writtenInode]

/-- After a removal the inode holds none. -/
theorem held_deleted (fs : Bkfs) (n : Nat) :
    held (deleted fs n) = Function.update (held fs) (n - 1) [] := by
  show held (deleted fs n) = Function.update (held fs) (n - 1) Inode.zero.blockList
  exact held_update rfl

theorem held_accessed (fs : Bkfs) (n : Nat) : held (accessed fs n) = held fs := by
  obtain ⟨inodes, heq, hsame⟩ := accessed_eq fs n
  rw [heq]
  funext k
  obtain ⟨t, ht⟩ := hsame k
  show (inodes k).blockList = (fs.inodes k).blockList
  rw [ht]
  rfl

/-- No block is listed twice, every listed block is marked as used, and
`free_blocks` is the number of unmarked blocks. -/
structure BlocksInv (fs : Bkfs) : Prop where
  exclusive : Exclusive fs.blockUsed (held fs)
  counted : fs.freeBlocks = unusedBlocks fs

theorem blockList_lt {fs : Bkfs} (hwf : WellFormed fs) (k : Nat) : ∀ b ∈ held fs k, b < maxBlocks := by
  intro b hb
  obtain ⟨i, -, rfl⟩ := Inode.mem_blockList.mp hb
  exact hwf.block_lt k i

/-- The give-back loop misses one block at most. -/
theorem length_releasable {l : List Nat} (hnd : l.Nodup) (hl : ∀ b ∈ l, b < maxBlocks) :
    l.length ≤ (releasable l).length + 1 := by
  have herase : releasable l = l.erase 0 := by
    rw [hnd.erase_eq_filter]
    refine List.filter_congr fun b hb => ?_
    by_cases h0 : b = 0
    · simp [h0]
    · simp [h0, hl b hb]
  rw [herase]
  have := List.le_length_erase (a := 0) (l := l)
  omega

/-- **Exclusive ownership**, slot by slot: two different (live inode, index)
slots never hold the same block, and a block in a slot is marked as used. -/
structure ExclusiveBlocks (fs : Bkfs) : Prop where
  distinct : ∀ {n n' i i' : Nat}, LiveInode fs n → LiveInode fs n' →
    i < (fs.inodes (n - 1)).blocks → i' < (fs.inodes (n' - 1)).blocks →
    (fs.inodes (n - 1)).block i = (fs.inodes (n' - 1)).block i' → n = n' ∧ i = i'
  marked : ∀ {n i : Nat}, LiveInode fs n → i < (fs.inodes (n - 1)).blocks →
    fs.blockUsed ((fs.inodes (n - 1)).block i) = true

/-- A table without repetitions has distinct cells. -/
theorem index_eq_of_nodup {f : Nat → Nat} {n i j : Nat} (h : (table f n).Nodup) (hi : i < n)
    (hj : j < n) (heq : f i = f j) : i = j := by
  rw [table] at h
  exact List.inj_on_of_nodup_map h (List.mem_range.mpr hi) (List.mem_range.mpr hj) heq

/-- The part of the invariant that speaks of the slots of live inodes. -/
theorem BlocksInv.exclusiveBlocks {fs : Bkfs} (h : BlocksInv fs) : ExclusiveBlocks fs := by
  refine ⟨?_, ?_⟩
  · intro n n' i i' hn hn' hi hi' heq
    have hmem : (fs.inodes (n - 1)).block i ∈ held fs (n - 1) :=
      Inode.mem_blockList.mpr ⟨i, hi, rfl⟩
    have hmem' : (fs.inodes (n - 1)).block i ∈ held fs (n' - 1) :=
      Inode.mem_blockList.mpr ⟨i', hi', heq.symm⟩
    have hk : n - 1 = n' - 1 := h.exclusive.disjoint hmem hmem'
    have hnn : n = n' := by
      have := hn.1
      have := hn'.1
      omega
    subst hnn
    exact ⟨rfl, index_eq_of_nodup (h.exclusive.nodup (n - 1)) hi hi' heq⟩
  · intro n i _ hi
    exact h.exclusive.inUse (Inode.mem_blockList.mpr ⟨i, hi, rfl⟩)

/-! ## Giving blocks back and taking new ones -/

/-- The blocks a write to slot `k` can count on: the free ones and those the
give-back loop frees. -/
def available (fs : Bkfs) (k : Nat) : Nat :=
  unusedBlocks fs + (releasable (fs.inodes k).blockList).length

namespace BlocksInv

variable {fs : Bkfs}

/-- After a release the count and the marks agree on what is available. -/
theorem counted_released (h : BlocksInv fs) (k : Nat) :
    (released fs k).freeBlocks = available fs k ∧ unusedBlocks (released fs k) = available fs k := by
  have hmem : ∀ b ∈ releasable (fs.inodes k).blockList, b < maxBlocks ∧ fs.blockUsed b = true := by
    intro b hb
    obtain ⟨hb, -, hlt⟩ := mem_releasable.mp hb
    exact ⟨hlt, h.exclusive.inUse (k := k) hb⟩
  have hcount : unusedBlocks (released fs k) = available fs k :=
    freeCount_mark_false ((h.exclusive.nodup k).filter _) hmem
  have hle : available fs k ≤ maxBlocks := hcount ▸ freeCount_le ..
  refine ⟨?_, hcount⟩
  show uint32 (fs.freeBlocks + _) = available fs k
  rw [h.counted]
  exact Nat.mod_eq_of_lt (Nat.lt_of_le_of_lt hle (by decide))

/-- The blocks of the other inodes stay theirs. -/
theorem exclusive_released (h : BlocksInv fs) (k : Nat) :
    Exclusive (released fs k).blockUsed (Function.update (held fs) k []) :=
  h.exclusive.release k fun _ hb => (mem_releasable.mp hb).1

/-- A slot that holds nothing can be overwritten by one that holds nothing. -/
theorem congr_held {fs' : Bkfs} (h : BlocksInv fs) (hused : fs'.blockUsed = fs.blockUsed)
    (hfree : fs'.freeBlocks = fs.freeBlocks) (hheld : held fs' = held fs) : BlocksInv fs' := by
  refine ⟨?_, ?_⟩
  · rw [hused, hheld]
    exact h.exclusive
  · show fs'.freeBlocks = freeCount maxBlocks fs'.blockUsed
    rw [hused, hfree]
    exact h.counted

theorem created (h : BlocksInv fs) (i : Nat) (name : Name) (parentInode : Nat) (type : UInt8) :
    BlocksInv (created fs i name parentInode type) := by
  refine ⟨?_, h.counted⟩
  rw [held_created]
  -- the new inode lists nothing, as if slot `i` had let go without freeing
  have := h.exclusive.release i (l := []) (by simp)
  rwa [mark_nil] at this

theorem deleted (h : BlocksInv fs) (n : Nat) : BlocksInv (deleted fs n) := by
  refine ⟨?_, ?_⟩
  · rw [held_deleted]
    exact h.exclusive_released (n - 1)
  · obtain ⟨hfree, hunused⟩ := h.counted_released (n - 1)
    show (released fs (n - 1)).freeBlocks = unusedBlocks (released fs (n - 1))
    rw [hfree, hunused]

/-- The blocks a write takes were free, so they are nobody else's. -/
theorem written (h : BlocksInv fs) {k : Nat} {l : List Nat}
    (hl : FreshBlocks (released fs k) l) (data : Nat → UInt8) (size : Nat) :
    BlocksInv (written fs k data size l) := by
  refine ⟨?_, ?_⟩
  · rw [held_written]
    have := (h.exclusive_released k).acquire k (Function.update_self ..) hl.nodup
      fun b hb => (hl.fresh b hb).2
    rwa [Function.update_idem] at this
  · obtain ⟨hfree, hunused⟩ := h.counted_released k
    have hcount := freeCount_mark_true (n := maxBlocks) hl.nodup hl.fresh
    have hunused : freeCount maxBlocks (released fs k).blockUsed = available fs k := hunused
    show (released fs k).freeBlocks - l.length
      = freeCount maxBlocks (mark (released fs k).blockUsed l true)
    omega

/-- Accessing an inode moves no block. -/
theorem accessed (h : BlocksInv fs) (n : Nat) : BlocksInv (accessed fs n) := by
  have hheld := held_accessed fs n
  obtain ⟨inodes, heq, -⟩ := accessed_eq fs n
  rw [heq] at hheld ⊢
  exact h.congr_held rfl rfl hheld

end BlocksInv

/-! ## Writes that run out of space -/

/-- The inode lists nothing, or there are blocks enough, or there is no block to
be had at all. -/
def RoomFor (fs : Bkfs) (k size : Nat) : Prop :=
  (fs.inodes k).blocks = 0 ∨ blocksNeeded size ≤ available fs k ∨ available fs k = 0

instance (fs : Bkfs) (k size : Nat) : Decidable (RoomFor fs k size) :=
  inferInstanceAs (Decidable (_ ∨ _ ∨ _))

/-- A write that is refused up front or has room. -/
def WriteSafe (fs : Bkfs) (n size : Nat) : Prop :=
  WriteRefused n size ∨ RoomFor fs (n - 1) size

/-- The calls of the histories in which blocks stay exclusive. -/
def KeepsExclusive (s : KernelState) : FsCall → Prop
  | .write n _ size => WriteSafe s.fs n size
  | _ => True

namespace BlocksInv

variable {fs : Bkfs}

/-- A write that gave up had taken every available block. -/
theorem length_of_writeFailed (h : BlocksInv fs) {k : Nat} {l : List Nat}
    (hl : FreshBlocks (released fs k) l)
    (hwhy : (released fs k).freeBlocks = l.length ∨
      ∀ b < maxBlocks, (released fs k).blockUsed b = false → b ∈ l) :
    l.length = available fs k := by
  obtain ⟨hfree, hunused⟩ := h.counted_released k
  rcases hwhy with heq | hall
  · exact heq.symm.trans hfree
  · have hle : unusedBlocks (released fs k) ≤ l.length := freeCount_le_length hall
    have hge : l.length ≤ (released fs k).freeBlocks := hl.counted
    omega

/-- A write that fails for want of room gives back what it took: this needs the room
to be less than the old blocks. -/
theorem writeFailed (h : BlocksInv fs) (hwf : WellFormed fs) {k size : Nat} {l : List Nat}
    (hroom : RoomFor fs k size) (hl : FreshBlocks (released fs k) l)
    (hlen : l.length < blocksNeeded size)
    (hwhy : (released fs k).freeBlocks = l.length ∨
      ∀ b < maxBlocks, (released fs k).blockUsed b = false → b ∈ l) :
    BlocksInv (writeFailed fs k l) := by
  have havail := h.length_of_writeFailed hl hwhy
  -- in each case nothing was given back
  have hnone : releasable (fs.inodes k).blockList = [] ∧
      ((fs.inodes k).blocks = 0 ∨ l = []) := by
    rcases hroom with hzero | hfits | hempty
    · have hlist : (fs.inodes k).blockList = [] :=
        List.eq_nil_of_length_eq_zero (by rw [Inode.length_blockList, hzero])
      rw [hlist]
      exact ⟨rfl, .inl hzero⟩
    · omega
    · rw [available] at havail hempty
      exact ⟨List.eq_nil_of_length_eq_zero (by omega), .inr (List.eq_nil_of_length_eq_zero (by omega))⟩
  obtain ⟨hrel, hkeep⟩ := hnone
  refine h.congr_held ?_ ?_ ?_
  · show mark fs.blockUsed (releasable (fs.inodes k).blockList) false = fs.blockUsed
    rw [hrel, mark_nil]
  · show uint32 (fs.freeBlocks + (releasable (fs.inodes k).blockList).length) = fs.freeBlocks
    rw [hrel]
    exact Nat.mod_eq_of_lt hwf.freeBlocks_lt
  · have hheld : held (Srunix.writeFailed fs k l) = Function.update (held fs) k
        { fs.inodes k with block := splice (fs.inodes k).block 0 l }.blockList := held_update rfl
    rw [hheld]
    refine (Function.update_eq_self_iff ..).mpr ?_
    rcases hkeep with hzero | rfl
    · have hnil : ∀ inode : Inode, inode.blocks = 0 → inode.blockList = [] := fun inode h =>
        List.eq_nil_of_length_eq_zero (by rw [Inode.length_blockList, h])
      show _ = (fs.inodes k).blockList
      rw [hnil _ hzero]
      exact hnil _ hzero
    · rw [splice_nil]
      rfl

/-- The step lemma of `BlocksInv`, one case for each outcome. -/
theorem step (h : BlocksInv fs) (hwf : WellFormed fs) {fs' : Bkfs} {c : FsCall} {r : Int}
    (hsafe : ∀ n data size, c = .write n data size → WriteSafe fs n size)
    (hout : FsOutcome fs c r fs') : BlocksInv fs' := by
  cases hout with
  | createRefused | writeRefused | deleteRefused => exact h
  | chdir => exact ⟨h.1, h.2⟩
  | created => exact h.created ..
  | written _ hl _ => exact h.written hl ..
  | writeFailed href hl hlen hwhy =>
    exact h.writeFailed hwf ((hsafe _ _ _ rfl).resolve_left href) hl hlen hwhy
  | read => exact h.accessed _
  | deleted => exact h.deleted _

theorem empty : BlocksInv emptyFs where
  exclusive := ⟨fun _ => List.nodup_nil, fun hb _ => (nomatch hb), fun hb => (nomatch hb)⟩
  counted := by decide +kernel

end BlocksInv

theorem blocksInv_kernelMain : BlocksInv kernelMain.fs :=
  kernelMain_invariant .empty fun hwf h =>
    h.step hwf (fun _ _ _ hc => FsCall.noConfusion hc) (fsCall_outcome hwf _)

/-- The run lemma of `BlocksInv`. -/
theorem blocksInv_of_safe_run {calls : List FsCall} {s : KernelState}
    (h : FsRun KeepsExclusive calls s) : BlocksInv s.fs := by
  refine (h.invariant blocksInv_kernelMain fun hwf hinv hok => ?_).2
  refine hinv.step hwf ?_ (fsCall_outcome hwf _)
  rintro n data size rfl
  exact hok

/-- **Blocks stay exclusive** in every history of safe writes, whatever else is
called and whatever fails. -/
theorem exclusive_of_safe_run {calls : List FsCall} {s : KernelState}
    (h : FsRun KeepsExclusive calls s) : ExclusiveBlocks s.fs :=
  (blocksInv_of_safe_run h).exclusiveBlocks

/-- One byte to `/fetch`, then its deletion. -/
theorem exclusive_of_safe_run_fetch :
    ExclusiveBlocks (callAll kernelMain [.write 8 (fun _ => 0x61) 1, .delete 8]).fs := by
  let calls : List FsCall := [.write 8 (fun _ => 0x61) 1, .delete 8]
  have hwrite : WriteSafe kernelMain.fs 8 1 := .inr (by decide +kernel)
  have hrun : FsRun KeepsExclusive calls (callAll kernelMain calls) :=
    .cons ⟨hwrite, rfl⟩ (.cons ⟨trivial, rfl⟩ (.nil _))
  exact exclusive_of_safe_run hrun

/-- A write without room fails, and its inode is left with a free block in its
first slot. -/
theorem not_exclusive_of_unsafe_write {s : KernelState} {n size : Nat} (data : Nat → UInt8)
    (hwf : WellFormed s.fs) (h : BlocksInv s.fs) (hlive : LiveInode s.fs n)
    (hnot : ¬ WriteSafe s.fs n size) :
    ¬ ExclusiveBlocks (fsCall s (.write n data size)).2.fs := by
  have hroom : ¬ RoomFor s.fs (n - 1) size := fun hroom => hnot (.inr hroom)
  have hblocks : 0 < (s.fs.inodes (n - 1)).blocks :=
    Nat.pos_of_ne_zero fun hzero => hroom (.inl hzero)
  have hout := fsCall_outcome hwf (.write n data size)
  generalize (fsCall s (.write n data size)).1 = r at hout
  generalize (fsCall s (.write n data size)).2.fs = fs' at hout ⊢
  intro hexcl
  cases hout with
  | writeRefused href => exact hnot (.inl href)
  | written href hl hlen =>
    have hcounted : _ ≤ (released s.fs (n - 1)).freeBlocks := hl.counted
    rw [(h.counted_released (n - 1)).1, hlen] at hcounted
    exact hroom (.inr (.inl hcounted))
  | @writeFailed _ _ _ l href hl hlen hwhy =>
    have havail := h.length_of_writeFailed hl hwhy
    have hpos : 0 < l.length := by
      rw [havail]
      exact Nat.pos_of_ne_zero fun hzero => hroom (.inr (.inr hzero))
    -- slot 0 now holds the first block the loop got, and that block is free again
    have hinode := writeFailed_inode_self s.fs (n - 1) l
    have hslot : ((writeFailed s.fs (n - 1) l).inodes (n - 1)).block 0 = l[0] := by
      rw [hinode]
      show splice _ 0 l 0 = l[0]
      rw [splice, if_pos (by omega), List.getD_eq_getElem?_getD, List.getElem?_eq_getElem hpos]
      rfl
    have hused := hexcl.marked (n := n) (i := 0) hlive (by rw [hinode]; exact hblocks)
    rw [hslot] at hused
    have hfree := (hl.fresh _ (List.getElem_mem hpos)).2
    have hsame : (writeFailed s.fs (n - 1) l).blockUsed = (released s.fs (n - 1)).blockUsed := rfl
    rw [hsame, hfree] at hused
    cases hused

/-! ## A full disk -/

section FullDisk

/-- Two-letter names. -/
def fillName (k : Nat) : Name where
  str :=
    { bytes := [UInt8.ofNat (97 + k / 26 % 26), UInt8.ofNat (97 + k % 26)]
      nulFree := by
        have hletter : ∀ m, (0 : UInt8) ≠ UInt8.ofNat (97 + m % 26) := by
          intro m h
          have := congrArg UInt8.toNat h
          simp at this
          omega
        intro h
        rcases List.mem_cons.mp h with h | h
        · exact hletter _ h
        · exact hletter _ (List.mem_singleton.mp h) }
  fits := by simp

/-- 73 new files, which makes inodes 8 to 94 regular files. -/
def fillFiles : List FsCall := (List.range 73).map fun k => .create (fillName k) 1 fileRegular

/-- Two blocks for inode 8, twelve for each of inodes 9 to 93, two for inode 94:
all 1024 of them. -/
def fillBlocks : List FsCall :=
  [.write 8 (fun _ => 0x61) 2048] ++
    (List.range 85).map (fun k => .write (k + 9) (fun _ => 0x61) 12288) ++
    [.write 94 (fun _ => 0x61) 2048]

/-- `u` blocks are free and the inode slots from `m` on are empty. -/
structure Filled (fs : Bkfs) (m u : Nat) : Prop where
  wf : WellFormed fs
  inv : BlocksInv fs
  free : unusedBlocks fs = u
  empty : ∀ k, m ≤ k → (fs.inodes k).blocks = 0

theorem Filled.mono {fs : Bkfs} {m m' u : Nat} (h : Filled fs m u) (hm : m ≤ m') :
    Filled fs m' u :=
  ⟨h.wf, h.inv, h.free, fun k hk => h.empty k (by omega)⟩

/-- Making a file leaves the disk as full as it was. -/
theorem Filled.create {s : KernelState} {m u : Nat} (h : Filled s.fs m u) (name : Name)
    (parentInode : Nat) (type : UInt8) :
    Filled (fsCall s (.create name parentInode type)).2.fs m u := by
  have hwf' := wellFormed_fsCall h.wf (.create name parentInode type)
  have hout := fsCall_outcome h.wf (.create name parentInode type)
  generalize (fsCall s (.create name parentInode type)).1 = r at hout
  generalize (fsCall s (.create name parentInode type)).2.fs = fs' at hout hwf' ⊢
  refine ⟨hwf', h.inv.step h.wf (fun _ _ _ hc => FsCall.noConfusion hc) hout, ?_, ?_⟩
  · cases hout with
    | createRefused => exact h.free
    | created => exact h.free
  · cases hout with
    | createRefused => exact h.empty
    | @created _ _ _ i _ _ _ =>
      intro k hk
      by_cases hki : k = i
      · rw [hki, created_inode_self]
        rfl
      · rw [created_inode_of_ne hki]
        exact h.empty k hk

/-- A write to the next empty slot takes what it needs and nothing else. -/
theorem Filled.write {s : KernelState} {m u : Nat} (h : Filled s.fs m u) (data : Nat → UInt8)
    (size : Nat) (hm : m < maxInodes) (hsize : blocksNeeded size ≤ inodeDirectBlocks)
    (hroom : blocksNeeded size ≤ u) :
    Filled (fsCall s (.write (m + 1) data size)).2.fs (m + 1) (u - blocksNeeded size) ∧
      ((fsCall s (.write (m + 1) data size)).2.fs.inodes m).blocks = blocksNeeded size ∧
      ∀ k ≠ m, (fsCall s (.write (m + 1) data size)).2.fs.inodes k = s.fs.inodes k := by
  have href : ¬ WriteRefused (m + 1) size := by
    rw [WriteRefused, BadInode]
    omega
  have hzero : (s.fs.inodes m).blocks = 0 := h.empty m (Nat.le_refl m)
  have hwf' := wellFormed_fsCall h.wf (.write (m + 1) data size)
  have hout := fsCall_outcome h.wf (.write (m + 1) data size)
  have hinv' := h.inv.step h.wf (by
    rintro n data size ⟨⟩
    exact .inr (.inl hzero)) hout
  -- an empty slot gives nothing back
  have hnone : releasable (s.fs.inodes m).blockList = [] := by
    rw [List.eq_nil_of_length_eq_zero (l := (s.fs.inodes m).blockList)
      (by rw [Inode.length_blockList, hzero])]
    rfl
  have havail : available s.fs m = u := by
    rw [available]
    rw [hnone, h.free]
    rfl
  generalize (fsCall s (.write (m + 1) data size)).1 = r at hout
  generalize (fsCall s (.write (m + 1) data size)).2.fs = fs' at hout hwf' hinv' ⊢
  cases hout with
  | writeRefused href' => exact absurd href' href
  | writeFailed _ hl hlen hwhy =>
    have := h.inv.length_of_writeFailed hl hwhy
    rw [Nat.add_sub_cancel, havail] at this
    omega
  | @written _ _ _ l _ hl hlen =>
    have hother : ∀ k ≠ m, (Srunix.written s.fs (m + 1 - 1) data size l).inodes k = s.fs.inodes k :=
      fun k hk => written_inode_of_ne _ _ _ _ _ hk
    have hself : ((Srunix.written s.fs (m + 1 - 1) data size l).inodes m).blocks = l.length := by
      rw [Nat.add_sub_cancel, written_inode_self]
      rfl
    have hcount := h.inv.counted_released m
    refine ⟨⟨hwf', hinv', ?_, ?_⟩, hself.trans hlen, hother⟩
    · rw [← hinv'.counted]
      show (released s.fs m).freeBlocks - l.length = _
      rw [hcount.1, havail, hlen]
    · intro k hk
      rw [hother k (by omega)]
      exact h.empty k (by omega)

theorem filled_fillFiles : Filled (callAll kernelMain fillFiles).fs 0 maxBlocks := by
  have hboot : Filled kernelMain.fs 0 maxBlocks := by
    let P : Bkfs → Prop := fun fs => Filled fs 0 maxBlocks
    show P kernelMain.fs
    refine kernelMain_invariant ?_ fun _ h => Filled.create h ..
    exact ⟨.empty, .empty, by decide +kernel, fun _ _ => rfl⟩
  have hcreate : ∀ (l : List Nat) (s : KernelState), Filled s.fs 0 maxBlocks →
      Filled (callAll s (l.map fun k => .create (fillName k) 1 fileRegular)).fs 0 maxBlocks := by
    intro l
    induction l with
    | nil => exact fun s h => h
    | cons k l ih => exact fun s h => ih _ (h.create ..)
  exact hcreate _ _ hboot

/-- `j` writes of twelve blocks, to the slots from 8 on. -/
theorem filled_writes {s : KernelState} (h : Filled s.fs 8 1022) :
    ∀ j ≤ 85, Filled (callAll s ((List.range j).map fun k =>
        .write (k + 9) (fun _ => 0x61) 12288)).fs (8 + j) (1022 - 12 * j) ∧
      ((callAll s ((List.range j).map fun k =>
        .write (k + 9) (fun _ => 0x61) 12288)).fs.inodes 7).blocks = (s.fs.inodes 7).blocks
  | 0, _ => ⟨h, rfl⟩
  | j + 1, hj => by
    obtain ⟨hfill, hkeep⟩ := filled_writes h j (by omega)
    -- each file takes the next twelve blocks
    rw [List.range_succ, List.map_append, callAll_append]
    generalize callAll s _ = t at hfill hkeep ⊢
    have htwelve : blocksNeeded 12288 = 12 := rfl
    have hslot : j + 9 = (8 + j) + 1 := by omega
    obtain ⟨hnext, -, hother⟩ := hfill.write (fun _ => 0x61) 12288
      (by unfold maxInodes; omega) (Nat.le_refl 12) (by omega)
    show Filled (fsCall t (.write (j + 9) (fun _ => 0x61) 12288)).2.fs _ _ ∧
      ((fsCall t (.write (j + 9) (fun _ => 0x61) 12288)).2.fs.inodes 7).blocks = _
    rw [hslot]
    refine ⟨?_, ?_⟩
    · rw [htwelve] at hnext
      have hroom : 1022 - 12 * (j + 1) = 1022 - 12 * j - 12 := by omega
      rw [hroom]
      exact hnext
    · rw [hother 7 (by omega)]
      exact hkeep

/-- After the fill there is no free block, and inode 8 holds two. -/
theorem filled_fillBlocks :
    Filled (callAll kernelMain (fillFiles ++ fillBlocks)).fs 94 0 ∧
      ((callAll kernelMain (fillFiles ++ fillBlocks)).fs.inodes 7).blocks = 2 := by
  rw [callAll_append]
  have hfiles := filled_fillFiles
  generalize callAll kernelMain fillFiles = s at hfiles ⊢
  rw [fillBlocks]
  rw [callAll_append, callAll_append, callAll_singleton, callAll_singleton]
  obtain ⟨hfirst, htwo, -⟩ := (hfiles.mono (Nat.zero_le 7)).write (fun _ => 0x61) 2048
    (by decide) (by decide) (by decide)
  have hfirst : Filled (fsCall s (.write 8 (fun _ => 0x61) 2048)).2.fs 8 1022 := hfirst
  generalize (fsCall s (.write 8 (fun _ => 0x61) 2048)).2 = s₁ at hfirst htwo ⊢
  obtain ⟨hmid, hkeep⟩ := filled_writes hfirst 85 (Nat.le_refl 85)
  generalize callAll s₁ _ = s₂ at hmid hkeep ⊢
  obtain ⟨hlast, -, hother⟩ := hmid.write (fun _ => 0x61) 2048
    (by decide) (by decide) (by decide)
  refine ⟨hlast, ?_⟩
  have hother7 := hother 7 (by decide)
  calc ((fsCall s₂ (.write 94 (fun _ => 0x61) 2048)).2.fs.inodes 7).blocks
      = (s₂.fs.inodes 7).blocks := by rw [← hother7]
    _ = (s₁.fs.inodes 7).blocks := hkeep
    _ = 2 := htwo

/-- With no block free, a file of two blocks cannot grow to twelve. -/
theorem Filled.not_exclusive {s : KernelState} {m : Nat} (h : Filled s.fs m 0)
    (htwo : (s.fs.inodes 7).blocks = 2) (hlive : LiveInode s.fs 8) :
    ¬ ExclusiveBlocks (fsCall s (.write 8 (fun _ => 0x61) 12288)).2.fs := by
  refine not_exclusive_of_unsafe_write _ h.wf h.inv hlive ?_
  have hlen := length_releasable (h.inv.exclusive.nodup 7) (blockList_lt h.wf 7)
  have hle : (releasable (held s.fs 7)).length ≤ (held s.fs 7).length := List.length_filter_le ..
  have hheld : (held s.fs 7).length = 2 := (Inode.length_blockList _).trans htwo
  have havail : available s.fs 7 = (releasable (held s.fs 7)).length := by
    rw [available]
    rw [h.free, Nat.zero_add]
    rfl
  rintro (href | hzero | hfits | hnone)
  · exact absurd href (by decide)
  · have hzero : (s.fs.inodes 7).blocks = 0 := hzero
    omega
  · have hfits : 12 ≤ available s.fs 7 := hfits
    omega
  · have hnone : available s.fs 7 = 0 := hnone
    omega

/-- **A full disk breaks exclusive ownership.** Inode 8 asks for twelve blocks
when two can be had: the write gives its two away, takes and returns what it
finds, and inode 8 is left listing free blocks. -/
theorem not_exclusive_of_full_disk :
    ¬ ExclusiveBlocks (callAll kernelMain
      (fillFiles ++ fillBlocks ++ [.write 8 (fun _ => 0x61) 12288])).fs := by
  rw [callAll_append, callAll_singleton]
  have hkept : ∀ c ∈ fillFiles ++ fillBlocks, c ≠ .delete 8 := by
    intro c hc
    simp only [fillFiles, fillBlocks, List.mem_append, List.mem_map, List.mem_singleton] at hc
    rcases hc with ⟨_, -, rfl⟩ | (rfl | ⟨_, -, rfl⟩) | rfl
    all_goals exact fun h => FsCall.noConfusion h
  obtain ⟨hfill, htwo⟩ := filled_fillBlocks
  exact hfill.not_exclusive htwo (liveInode_of_run liveInode_fetch hkept)

end FullDisk

end Srunix
