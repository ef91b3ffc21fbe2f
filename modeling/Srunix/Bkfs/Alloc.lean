import Srunix.Bkfs.Ops

/-!
# What the allocators and the two block loops do

One lemma per function of `fs/bkfs.h` below the level of files: the result as a
record update of the state before, so that every frame fact ("the entries are
untouched", "the other inodes are untouched") is read off by `rfl`. Nothing
later unfolds these functions.

- `releaseBlocks_eq`: the give-back loop clears the flags of `releasable l`, the
  listed blocks other than block 0;
- `allocBlocks_eq`: the allocation loop stores the first free blocks there are,
  `takeable`, or stores all of them, takes them back and fails.
-/

namespace Srunix

open Library

/-! ## Single inodes and blocks -/

/-- No inode is given out only if the count says so or every mode is set. -/
theorem fsAllocInode_none {fs fs' : Bkfs} (h : fsAllocInode fs = (none, fs')) :
    fs' = fs ∧ (fs.freeInodes = 0 ∨ ∀ i < maxInodes, (fs.inodes i).mode ≠ 0) := by
  rw [fsAllocInode] at h
  split at h
  · rename_i hfree
    cases h
    exact ⟨rfl, .inl hfree⟩
  · split at h
    · cases h
    · rename_i hscan
      cases h
      refine ⟨rfl, .inr fun i hi => ?_⟩
      simpa using firstIndex_eq_none_iff.mp hscan i hi

/-- A block that is given out was unmarked, and nothing but its mark and the count
changes. -/
theorem fsAllocBlock_some {fs fs' : Bkfs} {b : Nat} (h : fsAllocBlock fs = (some b, fs')) :
    b < maxBlocks ∧ fs.blockUsed b = false ∧ 0 < fs.freeBlocks ∧
      fs' = { fs with
        blockUsed := Function.update fs.blockUsed b true, freeBlocks := fs.freeBlocks - 1 } := by
  rw [fsAllocBlock] at h
  split at h
  · cases h
  · rename_i hfree
    split at h
    · rename_i i hscan
      obtain ⟨hi, hunused, -⟩ := firstIndex_eq_some_iff.mp hscan
      simp only [Prod.mk.injEq, Option.some.injEq] at h
      obtain ⟨rfl, rfl⟩ := h
      exact ⟨hi, by simpa using hunused, by omega, rfl⟩
    · cases h

/-- No block is given out only if the count says so or all are marked. -/
theorem fsAllocBlock_none {fs fs' : Bkfs} (h : fsAllocBlock fs = (none, fs')) :
    fs' = fs ∧ (fs.freeBlocks = 0 ∨ ∀ b < maxBlocks, fs.blockUsed b = true) := by
  rw [fsAllocBlock] at h
  split at h
  · rename_i hfree
    cases h
    exact ⟨rfl, .inl hfree⟩
  · split at h
    · cases h
    · rename_i hscan
      cases h
      refine ⟨rfl, .inr fun b hb => ?_⟩
      simpa using firstIndex_eq_none_iff.mp hscan b hb

/-- Freeing a list of block numbers inside the device. -/
theorem foldl_fsFreeBlock {l : List Nat} (hl : ∀ b ∈ l, b < maxBlocks) {fs : Bkfs}
    (hfs : fs.freeBlocks < 2 ^ 32) :
    l.foldl fsFreeBlock fs =
      { fs with
        blockUsed := mark fs.blockUsed l false, freeBlocks := uint32 (fs.freeBlocks + l.length) } := by
  induction l generalizing fs with
  | nil =>
    rw [List.foldl_nil, mark_nil, List.length_nil, Nat.add_zero, uint32, Nat.mod_eq_of_lt hfs]
  | cons b l ih =>
    have hb : ¬ b ≥ maxBlocks := Nat.not_le.mpr (hl b List.mem_cons_self)
    have hstep : fsFreeBlock fs b =
        { fs with
          blockUsed := Function.update fs.blockUsed b false
          freeBlocks := uint32 (fs.freeBlocks + 1) } := if_neg hb
    have hwrap : uint32 (uint32 (fs.freeBlocks + 1) + l.length)
        = uint32 (fs.freeBlocks + (l.length + 1)) := by
      unfold uint32
      omega
    rw [List.foldl_cons, hstep, ih (fun c hc => hl c (List.mem_cons_of_mem _ hc))
      (Nat.mod_lt _ (by decide)), mark_cons, List.length_cons]
    simp only [hwrap]

/-! ## Giving back a file's blocks -/

/-- The blocks of a list that the give-back loop frees: all but block 0 (and
numbers beyond the device, which `fs_free_block` ignores). -/
def releasable (l : List Nat) : List Nat := l.filter fun b => b ≠ 0 ∧ b < maxBlocks

/-- Block 0 is never released, since `block[i] != 0` is asked first. -/
theorem mem_releasable {l : List Nat} {b : Nat} :
    b ∈ releasable l ↔ b ∈ l ∧ b ≠ 0 ∧ b < maxBlocks := by
  simp [releasable]

/-- The loop over the old blocks, in one step: the marks go and the count grows. -/
theorem releaseBlocks_eq (fs : Bkfs) (inode : Inode) (n : Nat) (hfs : fs.freeBlocks < 2 ^ 32) :
    releaseBlocks fs inode n =
      { fs with
        blockUsed := mark fs.blockUsed (releasable (table inode.block n)) false
        freeBlocks := uint32 (fs.freeBlocks + (releasable (table inode.block n)).length) } := by
  -- the test `!= 0` of the caller and the bound of `fs_free_block` make one filter
  have hfilter : ∀ (l : List Nat) (fs : Bkfs),
      l.foldl (fun fs b => if b ≠ 0 then fsFreeBlock fs b else fs) fs
        = (releasable l).foldl fsFreeBlock fs := by
    intro l
    induction l with
    | nil => intro fs; rfl
    | cons b l ih =>
      intro fs
      rw [releasable] at ih ⊢
      rw [List.foldl_cons, ih, List.filter_cons]
      have hstep : (if b ≠ 0 then fsFreeBlock fs b else fs)
          = if b ≠ 0 ∧ b < maxBlocks then fsFreeBlock fs b else fs := by
        by_cases hbig : b < maxBlocks
        · simp only [hbig, and_true]
        · have hid : fsFreeBlock fs b = fs := if_pos (Nat.not_lt.mp hbig)
          rw [hid, ite_self, ite_self]
      rw [hstep]
      by_cases hb : b ≠ 0 ∧ b < maxBlocks
      · rw [if_pos hb, if_pos (decide_eq_true hb), List.foldl_cons]
      · rw [if_neg hb, if_neg (by simpa using hb)]
  rw [releaseBlocks]
  rw [hfilter, foldl_fsFreeBlock (fun b hb => (mem_releasable.mp hb).2.2) hfs]

/-! ## Taking blocks -/

/-- `f` with the cells from `i` on overwritten by `l`. -/
def splice (f : Nat → Nat) (i : Nat) (l : List Nat) : Nat → Nat :=
  fun j => if i ≤ j ∧ j < i + l.length then l.getD (j - i) 0 else f j

/-- One store, and the rest of the list behind it. -/
theorem splice_cons (f : Nat → Nat) (i b : Nat) (l : List Nat) :
    splice (Function.update f i b) (i + 1) l = splice f i (b :: l) := by
  funext j
  unfold splice
  rw [List.length_cons]
  by_cases hj : j = i
  · subst hj
    rw [if_neg (by omega), if_pos (by omega), Function.update_self, Nat.sub_self]
    rfl
  · rw [Function.update_of_ne hj]
    by_cases hin : i + 1 ≤ j ∧ j < i + 1 + l.length
    · rw [if_pos hin, if_pos (by omega)]
      obtain ⟨m, hm⟩ : ∃ m, j - i = m + 1 := ⟨j - i - 1, by omega⟩
      rw [hm, List.getD_cons_succ]
      congr 1
      omega
    · rw [if_neg hin, if_neg (by omega)]

theorem splice_nil (f : Nat → Nat) (i : Nat) : splice f i [] = f := by
  funext j
  exact if_neg (by simp)

/-- The first cells after a splice at the front are the spliced list. -/
theorem table_splice (f : Nat → Nat) (l : List Nat) : table (splice f 0 l) l.length = l := by
  refine List.ext_getElem (by simp [table]) fun j hj hj' => ?_
  simp only [table, List.getElem_map, List.getElem_range, splice]
  rw [if_pos (by omega), Nat.sub_zero]
  simp [hj']

/-- The inode table after slots `i …` of inode `k` were filled with `l`. -/
def spliceInode (inodes : Nat → Inode) (k i : Nat) (l : List Nat) : Nat → Inode :=
  Function.update inodes k { inodes k with block := splice (inodes k).block i l }

/-- The state after the blocks `l` went to inode slot `k` from index `i` on. -/
def takeBlocks (fs : Bkfs) (k i : Nat) (l : List Nat) : Bkfs :=
  { fs with
    blockUsed := mark fs.blockUsed l true
    freeBlocks := fs.freeBlocks - l.length
    inodes := spliceInode fs.inodes k i l }

theorem takeBlocks_nil (fs : Bkfs) (k i : Nat) : takeBlocks fs k i [] = fs := by
  simp only [takeBlocks, spliceInode, mark_nil, splice_nil, List.length_nil, Nat.sub_zero]
  rw [Function.update_eq_self]

/-- The state after one round of the loop that found block `b`. -/
def takeBlock (fs : Bkfs) (k i b : Nat) : Bkfs :=
  setBlock { fs with
    blockUsed := Function.update fs.blockUsed b true, freeBlocks := fs.freeBlocks - 1 } k i b

/-- One round of the loop, and the rounds that follow. -/
theorem takeBlocks_cons (fs : Bkfs) (k i b : Nat) (l : List Nat) :
    takeBlocks (takeBlock fs k i b) k (i + 1) l = takeBlocks fs k i (b :: l) := by
  unfold takeBlocks takeBlock setBlock spliceInode
  simp only [Function.update_self, Function.update_idem, splice_cons, mark_cons, List.length_cons]
  congr 1
  omega

/-- The blocks `l` are distinct, free, and covered by the free counter. -/
structure FreshBlocks (fs : Bkfs) (l : List Nat) : Prop where
  nodup : l.Nodup
  fresh : ∀ b ∈ l, b < maxBlocks ∧ fs.blockUsed b = false
  counted : l.length ≤ fs.freeBlocks

/-- Why the loop stops early: the counter is spent, or every free block is taken. -/
def Spent (fs : Bkfs) (l : List Nat) : Prop :=
  fs.freeBlocks = l.length ∨ ∀ b < maxBlocks, fs.blockUsed b = false → b ∈ l

/-- What the loop takes before it stops: the free blocks, lowest first, as far
as the counter goes. -/
def takeable (fs : Bkfs) : List Nat := (freeUnits maxBlocks fs.blockUsed).take fs.freeBlocks

theorem freshBlocks_takeable (fs : Bkfs) : FreshBlocks fs (takeable fs) where
  nodup := (nodup_freeUnits _ _).sublist (List.take_sublist _ _)
  fresh _ hb := mem_freeUnits.mp ((List.take_sublist _ _).subset hb)
  counted := List.length_take_le _ _

theorem FreshBlocks.take {fs : Bkfs} {l : List Nat} (h : FreshBlocks fs l) (n : Nat) :
    FreshBlocks fs (l.take n) where
  nodup := h.nodup.sublist (List.take_sublist _ _)
  fresh _ hb := h.fresh _ ((List.take_sublist _ _).subset hb)
  counted := Nat.le_trans (List.length_take_le' _ _) h.counted

theorem takeable_pos {fs : Bkfs} (hfree : fs.freeBlocks ≠ 0) {b : Nat} (hb : b < maxBlocks)
    (hunused : fs.blockUsed b = false) : 0 < (takeable fs).length := by
  have hlen : 0 < (freeUnits maxBlocks fs.blockUsed).length :=
    List.length_pos_of_mem (mem_freeUnits.mpr ⟨hb, hunused⟩)
  rw [takeable]
  rw [List.length_take]
  omega

theorem spent_takeable (fs : Bkfs) : Spent fs (takeable fs) := by
  rw [takeable]
  by_cases hall : (freeUnits maxBlocks fs.blockUsed).length ≤ fs.freeBlocks
  · rw [List.take_of_length_le hall]
    exact .inr fun b hb hfree => mem_freeUnits.mpr ⟨hb, hfree⟩
  · left
    rw [List.length_take]
    omega

/-- `fs_alloc_block` gives out the first block that can be taken. -/
theorem takeable_of_some {fs : Bkfs} {b : Nat} {fs' : Bkfs} (h : fsAllocBlock fs = (some b, fs')) :
    takeable fs = b :: takeable fs' := by
  rw [fsAllocBlock] at h
  split at h
  · cases h
  · rename_i hfree
    split at h
    · rename_i c hscan
      simp only [Prod.mk.injEq, Option.some.injEq] at h
      obtain ⟨rfl, rfl⟩ := h
      obtain ⟨m, hm⟩ : ∃ m, fs.freeBlocks = m + 1 := ⟨fs.freeBlocks - 1, by omega⟩
      rw [takeable]
      rw [freeUnits_of_firstIndex hscan, hm, List.take_succ_cons]
      rfl
    · cases h

/-- If it fails, there is none to take. -/
theorem takeable_of_none {fs fs' : Bkfs} (h : fsAllocBlock fs = (none, fs')) : takeable fs = [] := by
  rw [fsAllocBlock] at h
  rw [takeable]
  split at h
  · rename_i hfree
    rw [hfree, List.take_zero]
  · split at h
    · cases h
    · rename_i hscan
      rw [freeUnits_eq_nil hscan, List.take_nil]

/-- **The allocation loop**, from any index on: it takes the first `n` blocks
there are, or all of them and gives up. -/
theorem allocBlocks_eq (fs : Bkfs) (k i n : Nat) : allocBlocks fs k i n =
    if n ≤ (takeable fs).length then (true, takeBlocks fs k i ((takeable fs).take n))
    else (false, rollback (takeBlocks fs k i (takeable fs)) k (i + (takeable fs).length)) := by
  induction n generalizing fs i with
  | zero =>
    rw [if_pos (Nat.zero_le _), List.take_zero, takeBlocks_nil]
    rfl
  | succ n ih =>
    rw [allocBlocks]
    cases hone : fsAllocBlock fs with
    | mk got fs₁ =>
    cases got with
    | none =>
      obtain ⟨rfl, -⟩ := fsAllocBlock_none hone
      rw [takeable_of_none hone, List.length_nil, if_neg (Nat.not_succ_le_zero n), takeBlocks_nil]
      rfl
    | some b =>
      -- a block that is stored leaves the others as available as they were
      have hrest : takeable (setBlock fs₁ k i b) = takeable fs₁ := rfl
      dsimp only
      rw [ih, takeable_of_some hone, hrest]
      have hround : setBlock fs₁ k i b = takeBlock fs k i b := by
        rw [(fsAllocBlock_some hone).2.2.2]
        rfl
      rw [hround, takeBlocks_cons, takeBlocks_cons, List.length_cons, List.take_succ_cons,
        Nat.add_right_comm, Nat.add_assoc i]
      simp only [Nat.add_le_add_iff_right]

/-- Taking blocks and giving all of them back restores bitmap and counter; only
the slots of the inode keep the numbers. -/
theorem rollback_takeBlocks {fs : Bkfs} {l : List Nat} (hl : FreshBlocks fs l)
    (hfs : fs.freeBlocks < 2 ^ 32) (k : Nat) :
    rollback (takeBlocks fs k 0 l) k l.length =
      { fs with inodes := spliceInode fs.inodes k 0 l } := by
  have hcells : table ((takeBlocks fs k 0 l).inodes k).block l.length = l := by
    simp only [takeBlocks, spliceInode, Function.update_self]
    exact table_splice _ l
  have hsmall : (takeBlocks fs k 0 l).freeBlocks < 2 ^ 32 :=
    Nat.lt_of_le_of_lt (Nat.sub_le _ _) hfs
  have hmark : mark (mark fs.blockUsed l true) l false = fs.blockUsed := by
    funext b
    by_cases hb : b ∈ l
    · rw [mark_of_mem hb, (hl.fresh b hb).2]
    · rw [mark_of_not_mem hb, mark_of_not_mem hb]
  have hcount : uint32 (fs.freeBlocks - l.length + l.length) = fs.freeBlocks := by
    rw [Nat.sub_add_cancel hl.counted, uint32, Nat.mod_eq_of_lt hfs]
  rw [rollback]
  rw [hcells, foldl_fsFreeBlock (fun b hb => (hl.fresh b hb).1) hsmall]
  simp only [takeBlocks, hmark, hcount]

end Srunix
