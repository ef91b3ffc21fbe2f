import Srunix.Bkfs.Ownership

/-!
# Blocks that nobody gives back

Block 0 is handed out like any other block, and the two give-back loops pass
over it. A file that holds it and is overwritten or deleted leaves it marked as
used for good, because nothing else ever clears that mark.

- `LeakInv` is what histories of successful calls on live inodes keep as long as
  no overwritten or deleted file holds block 0 (`KeepsBlockZero`);
- `BlockZeroLost` is what they keep from the first such call on;
- `noLeak_iff_keepsBlockZero` puts the two together: a history leaks nothing
  exactly when none of its calls drops block 0.
-/

namespace Srunix

open Library

/-- Every block marked as used is one of `block[0 .. blocks)` of a live inode. -/
def NoLeak (fs : Bkfs) : Prop :=
  ∀ b, fs.blockUsed b = true →
    ∃ n i, LiveInode fs n ∧ i < (fs.inodes (n - 1)).blocks ∧ (fs.inodes (n - 1)).block i = b

/-- Calls that name live inodes and return `FS_SUCCESS`; reading and moving
about are free. -/
def LiveSuccess (s : KernelState) (c : FsCall) : Prop :=
  match c with
  | .create .. => (fsCall s c).1 = fsSuccess
  | .write n _ _ | .delete n => LiveInode s.fs n ∧ (fsCall s c).1 = fsSuccess
  | .read .. | .chdir _ => True

/-- A call that overwrites or deletes no file holding block 0. -/
def KeepsBlockZero (fs : Bkfs) : FsCall → Prop
  | .write n _ _ | .delete n => 0 ∉ held fs (n - 1)
  | .create .. | .read .. | .chdir _ => True

instance (fs : Bkfs) (c : FsCall) : Decidable (KeepsBlockZero fs c) := by
  unfold KeepsBlockZero
  cases c <;> infer_instance

/-! ## While block 0 is kept -/

/-- Blocks are exclusive, used blocks are held, and a free inode holds none. -/
structure LeakInv (fs : Bkfs) : Prop where
  blocks : BlocksInv fs
  covered : Covered fs.blockUsed (held fs)
  idle : ∀ k, (fs.inodes k).mode = 0 → (fs.inodes k).blocks = 0

namespace LeakInv

variable {fs : Bkfs}

/-- Where the invariant holds, no block is lost. -/
theorem noLeak (h : LeakInv fs) (hentries : EntriesInv fs) : NoLeak fs := by
  intro b hb
  obtain ⟨k, hk⟩ := h.covered b hb
  obtain ⟨i, hi, hbi⟩ := Inode.mem_blockList.mp hk
  have hmode : (fs.inodes k).mode ≠ 0 := by
    intro hzero
    rw [h.idle k hzero] at hi
    exact Nat.not_lt_zero i hi
  exact ⟨k + 1, i, hentries.live_iff.mpr hmode, hi, hbi⟩

/-- With nothing held, nothing is used. -/
theorem all_free (h : LeakInv fs) (hentries : EntriesInv fs)
    (hnone : ∀ n, LiveInode fs n → (fs.inodes (n - 1)).blocks = 0) :
    unusedBlocks fs = maxBlocks ∧ fs.freeBlocks = maxBlocks := by
  have hunused : ∀ b, fs.blockUsed b = false := by
    intro b
    refine Bool.eq_false_iff.mpr fun hb => ?_
    obtain ⟨n, i, hn, hi, -⟩ := h.noLeak hentries b hb
    rw [hnone n hn] at hi
    exact Nat.not_lt_zero i hi
  have hcount : unusedBlocks fs = maxBlocks := by
    unfold unusedBlocks freeCount
    rw [Finset.filter_true_of_mem fun b _ => hunused b, Finset.card_range]
  exact ⟨hcount, h.blocks.counted.trans hcount⟩

/-- Everything held by a slot that does not hold block 0 is given back. -/
theorem covered_released (h : LeakInv fs) (hwf : WellFormed fs) {k : Nat} (hzero : 0 ∉ held fs k) :
    Covered (released fs k).blockUsed (Function.update (held fs) k []) := by
  refine h.covered.release k fun b hb => mem_releasable.mpr ⟨hb, ?_, blockList_lt hwf k b hb⟩
  rintro rfl
  exact hzero hb

/-- An inode that is free holds no blocks, before and after. -/
theorem idle_update (h : LeakInv fs) {k : Nat} {inode : Inode}
    (hnew : inode.mode = 0 → inode.blocks = 0) (j : Nat)
    (hj : (Function.update fs.inodes k inode j).mode = 0) :
    (Function.update fs.inodes k inode j).blocks = 0 := by
  by_cases hjk : j = k
  · rw [hjk, Function.update_self] at hj ⊢
    exact hnew hj
  · rw [Function.update_of_ne hjk] at hj ⊢
    exact h.idle j hj

/-- The step lemma: as long as block 0 stays where it is, what is marked is held. -/
theorem step (h : LeakInv fs) (hwf : WellFormed fs) (hentries : EntriesInv fs) {c : FsCall}
    {r : Int} {fs' : Bkfs}
    (hwrite : ∀ n data size, c = .write n data size → LiveInode fs n ∧ r = fsSuccess)
    (hkeeps : KeepsBlockZero fs c) (hout : FsOutcome fs c r fs') : LeakInv fs' := by
  cases hout with
  | createRefused | writeRefused | deleteRefused => exact h
  | chdir => exact ⟨⟨h.1.1, h.1.2⟩, h.2, h.3⟩
  | @created name parentInode type i _ _ hmode =>
    -- the slot was free, so it has no block to lose
    have hempty : held fs i = [] :=
      List.eq_nil_of_length_eq_zero ((Inode.length_blockList _).trans (h.idle i hmode))
    refine ⟨h.blocks.created .., ?_, h.idle_update fun _ => rfl⟩
    rw [held_created, Function.update_eq_self_iff.mpr hempty.symm]
    exact h.covered
  | @written n size data l _ hl _ =>
    refine ⟨h.blocks.written hl .., ?_, h.idle_update fun hmode => ?_⟩
    · rw [held_written]
      have := (h.covered_released hwf hkeeps).acquire (n - 1) (l := l) (Function.update_self ..)
      rwa [Function.update_idem] at this
    · -- the written inode is live, so its mode is not zero
      exact absurd hmode (hentries.live_pred (hwrite n data size rfl).1)
  | writeFailed => exact absurd (hwrite _ _ _ rfl).2 (by decide)
  | @read n size buffer _ =>
    have hblocks := h.blocks.accessed n
    have hheld := held_accessed fs n
    obtain ⟨inodes, heq, hsame⟩ := accessed_eq fs n
    rw [heq] at hblocks hheld ⊢
    refine ⟨hblocks, ?_, fun k hk => ?_⟩
    · rw [hheld]
      exact h.covered
    · obtain ⟨t, ht⟩ := hsame k
      have hk : (inodes k).mode = 0 := hk
      show (inodes k).blocks = 0
      rw [ht] at hk ⊢
      exact h.idle k hk
  | @deleted n _ =>
    refine ⟨h.blocks.deleted n, ?_, h.idle_update fun _ => rfl⟩
    rw [held_deleted]
    exact h.covered_released hwf hkeeps

theorem empty : LeakInv emptyFs where
  blocks := .empty
  covered _ hb := nomatch hb
  idle _ _ := rfl

end LeakInv

theorem leakInv_kernelMain : LeakInv kernelMain.fs := by
  let P : Bkfs → Prop := fun fs => EntriesInv fs ∧ LeakInv fs
  have h : P kernelMain.fs := by
    refine kernelMain_invariant ⟨.empty, .empty⟩ fun {s name parentInode type} hwf h => ?_
    have hout := fsCall_outcome hwf (.create name parentInode type)
    have hkeeps : KeepsBlockZero s.fs (.create name parentInode type) := trivial
    exact ⟨h.1.step hout, h.2.step hwf h.1 (fun _ _ _ hc => FsCall.noConfusion hc) hkeeps hout⟩
  exact h.2

/-! ## Once block 0 is dropped -/

/-- Block 0 is marked as used and no inode lists it. -/
structure BlockZeroLost (fs : Bkfs) : Prop where
  used : fs.blockUsed 0 = true
  unheld : ∀ k, 0 ∉ held fs k

namespace BlockZeroLost

variable {fs : Bkfs}

/-- Block 0 is marked and nobody's. -/
theorem not_noLeak (h : BlockZeroLost fs) : ¬ NoLeak fs := by
  intro hno
  obtain ⟨n, i, -, hi, hb⟩ := hno 0 h.used
  exact h.unheld (n - 1) (Inode.mem_blockList.mpr ⟨i, hi, hb⟩)

/-- Giving blocks back never clears the mark of block 0. -/
theorem used_released (fs : Bkfs) (k : Nat) : (released fs k).blockUsed 0 = fs.blockUsed 0 :=
  mark_of_not_mem fun hmem => (mem_releasable.mp hmem).2.1 rfl

theorem unheld_update {k : Nat} {l : List Nat} (hother : ∀ j ≠ k, 0 ∉ held fs j) (hl : 0 ∉ l)
    (j : Nat) : 0 ∉ Function.update (held fs) k l j := by
  by_cases hjk : j = k
  · rw [hjk, Function.update_self]
    exact hl
  · rw [Function.update_of_ne hjk]
    exact hother j hjk

/-- The slot `k` alone may hold block 0 when it is rewritten. -/
theorem written (hused : fs.blockUsed 0 = true) {k : Nat} (hother : ∀ j ≠ k, 0 ∉ held fs j)
    {l : List Nat} (hl : FreshBlocks (released fs k) l) (data : Nat → UInt8) (size : Nat) :
    BlockZeroLost (written fs k data size l) := by
  have hzero : 0 ∉ l := by
    intro hmem
    have hfree := (hl.fresh 0 hmem).2
    rw [used_released, hused] at hfree
    cases hfree
  refine ⟨?_, ?_⟩
  · show mark (released fs k).blockUsed l true 0 = true
    rw [mark_of_not_mem hzero, used_released, hused]
  · rw [held_written]
    exact unheld_update hother hzero

/-- The file that held block 0 goes, and its mark stays. -/
theorem deleted (hused : fs.blockUsed 0 = true) {n : Nat}
    (hother : ∀ j ≠ n - 1, 0 ∉ held fs j) : BlockZeroLost (deleted fs n) := by
  refine ⟨(used_released fs (n - 1)).trans hused, ?_⟩
  rw [held_deleted]
  exact unheld_update hother List.not_mem_nil

theorem step (h : BlockZeroLost fs) {c : FsCall} {r : Int} {fs' : Bkfs}
    (hwrite : ∀ n data size, c = .write n data size → r = fsSuccess)
    (hout : FsOutcome fs c r fs') : BlockZeroLost fs' := by
  cases hout with
  | createRefused | writeRefused | deleteRefused => exact h
  | chdir => exact ⟨h.1, h.2⟩
  | @created name parentInode type i _ _ _ =>
    refine ⟨h.used, ?_⟩
    rw [held_created]
    exact unheld_update (fun j _ => h.unheld j) List.not_mem_nil
  | written _ hl _ => exact written h.used (fun j _ => h.unheld j) hl ..
  | writeFailed => exact absurd (hwrite _ _ _ rfl) (by decide)
  | @read n size buffer _ =>
    have hheld := held_accessed fs n
    obtain ⟨inodes, heq, -⟩ := accessed_eq fs n
    rw [heq] at hheld ⊢
    exact ⟨h.used, fun k => hheld ▸ h.unheld k⟩
  | deleted => exact deleted h.used fun j _ => h.unheld j

/-- Dropping block 0 loses it. -/
theorem of_drops (h : BlocksInv fs) {c : FsCall} {r : Int} {fs' : Bkfs}
    (hdrops : ¬ KeepsBlockZero fs c) (hr : r = fsSuccess) (hout : FsOutcome fs c r fs') :
    BlockZeroLost fs' := by
  -- the slot named is the one holder of block 0
  have hother : ∀ {k}, 0 ∈ held fs k → ∀ j ≠ k, 0 ∉ held fs j :=
    fun hk j hj hmem => hj (h.exclusive.disjoint hmem hk)
  cases hout with
  | createRefused | created | chdir | read => exact absurd trivial hdrops
  | writeRefused | writeFailed | deleteRefused => exact absurd hr (by decide)
  | written _ hl _ =>
    have hk := Classical.not_not.mp hdrops
    exact written (h.exclusive.inUse hk) (hother hk) hl ..
  | deleted =>
    have hk := Classical.not_not.mp hdrops
    exact deleted (h.exclusive.inUse hk) (hother hk)

end BlockZeroLost

/-! ## Whole histories -/

theorem LiveSuccess.of_write {s : KernelState} {c : FsCall} (h : LiveSuccess s c) :
    ∀ n data size, c = .write n data size → LiveInode s.fs n ∧ (fsCall s c).1 = fsSuccess := by
  rintro n data size rfl
  exact h

/-- The run lemma of `LeakInv`. -/
theorem leakInv_of_run {calls : List FsCall} {s : KernelState}
    (h : FsRun (fun s c => LiveSuccess s c ∧ KeepsBlockZero s.fs c) calls s) : LeakInv s.fs := by
  let P : Bkfs → Prop := fun fs => EntriesInv fs ∧ LeakInv fs
  have hrun : WellFormed s.fs ∧ P s.fs := by
    refine h.invariant ⟨entriesInv_kernelMain, leakInv_kernelMain⟩ ?_
    rintro s c hwf ⟨hentries, hinv⟩ ⟨hok, hkeeps⟩
    have hout := fsCall_outcome hwf c
    exact ⟨hentries.step hout, hinv.step hwf hentries hok.of_write hkeeps hout⟩
  exact hrun.2.2

/-- From a state where nothing has leaked, a history either keeps block 0 at
every call or has lost it by the end. -/
theorem keepsBlockZero_or_lost {s t : KernelState} {calls : List FsCall}
    (h : Steps (fun s c t => LiveSuccess s c ∧ t = (fsCall s c).2) s calls t)
    (hwf : WellFormed s.fs) (hentries : EntriesInv s.fs) (hinv : LeakInv s.fs) :
    Steps (fun s c t => (LiveSuccess s c ∧ KeepsBlockZero s.fs c) ∧ t = (fsCall s c).2) s calls t ∨
      BlockZeroLost t.fs := by
  induction h with
  | nil s => exact .inl (.nil s)
  | @cons s t u c calls hstep hrest ih =>
    obtain ⟨hok, rfl⟩ := hstep
    have hout := fsCall_outcome hwf c
    have hwf' := wellFormed_fsCall hwf c
    by_cases hkeeps : KeepsBlockZero s.fs c
    · rcases ih hwf' (hentries.step hout) (hinv.step hwf hentries hok.of_write hkeeps hout) with
        hrun | hlost
      · exact .inl (.cons ⟨⟨hok, hkeeps⟩, rfl⟩ hrun)
      · exact .inr hlost
    · -- lost here, lost at the end
      have hlost : BlockZeroLost (fsCall s c).2.fs := by
        refine .of_drops hinv.blocks hkeeps ?_ hout
        cases c with
        | create | read | chdir => exact absurd trivial hkeeps
        | write | delete => exact hok.2
      let Inv : KernelState → Prop := fun s => WellFormed s.fs ∧ BlockZeroLost s.fs
      have hend : Inv u := by
        refine Steps.invariant hrest ⟨hwf', hlost⟩ ?_
        rintro s c t ⟨hwf, hlost⟩ ⟨hok, rfl⟩
        have hwrite := fun n data size hc => (hok.of_write n data size hc).2
        exact ⟨wellFormed_fsCall hwf c, hlost.step hwrite (fsCall_outcome hwf c)⟩
      exact .inr hend.2

/-- **No block leaks as long as block 0 is kept**, and only so long: in a history
of successful calls on live inodes every used block belongs to a live inode
exactly when no call overwrote or deleted a file holding block 0. In such a
history all blocks are free again once no live inode has any. -/
theorem noLeak_iff_keepsBlockZero {calls : List FsCall} {s : KernelState}
    (h : FsRun LiveSuccess calls s) :
    (NoLeak s.fs ↔ FsRun (fun s c => LiveSuccess s c ∧ KeepsBlockZero s.fs c) calls s) ∧
      (NoLeak s.fs → (∀ n, LiveInode s.fs n → (s.fs.inodes (n - 1)).blocks = 0) →
        unusedBlocks s.fs = maxBlocks ∧ s.fs.freeBlocks = maxBlocks) := by
  have hentries := entriesInv_of_run h
  have hkept : NoLeak s.fs → FsRun (fun s c => LiveSuccess s c ∧ KeepsBlockZero s.fs c) calls s := by
    intro hno
    refine (keepsBlockZero_or_lost h wellFormed_kernelMain entriesInv_kernelMain
      leakInv_kernelMain).resolve_right fun hlost => ?_
    exact hlost.not_noLeak hno
  refine ⟨⟨hkept, fun hrun => (leakInv_of_run hrun).noLeak hentries⟩, fun hno => ?_⟩
  exact (leakInv_of_run (hkept hno)).all_free hentries

/-- Two blocks to `/fetch` lose nothing: `/fetch` holds block 0 and keeps it. -/
theorem noLeak_iff_keepsBlockZero_fetch :
    NoLeak (callAll kernelMain [.write 8 (fun _ => 0x61) 2048]).fs := by
  let calls : List FsCall := [.write 8 (fun _ => 0x61) 2048]
  have hkept : (fsCall kernelMain (.write 8 (fun _ => 0x61) 2048)).1 = fsSuccess ∧
      KeepsBlockZero kernelMain.fs (.write 8 (fun _ => 0x61) 2048) := by
    decide +kernel
  have hlive : LiveSuccess kernelMain (.write 8 (fun _ => 0x61) 2048) := ⟨liveInode_fetch, hkept.1⟩
  have hrun : FsRun LiveSuccess calls (callAll kernelMain calls) := .cons ⟨hlive, rfl⟩ (.nil _)
  exact (noLeak_iff_keepsBlockZero hrun).1.mpr (.cons ⟨⟨hlive, hkept.2⟩, rfl⟩ (.nil _))

/-- **One byte written and deleted again leaks block 0.** -/
theorem leak_of_deleted_fetch :
    ¬ ∀ calls s, FsRun LiveSuccess calls s → NoLeak s.fs := by
  intro hall
  let calls : List FsCall := [.write 8 (fun _ => 0x61) 1, .delete 8]
  -- both calls succeed, no inode holds anything any more, and block 0 stays used
  have hend : (fsCall kernelMain (.write 8 (fun _ => 0x61) 1)).1 = fsSuccess ∧
      LiveInode (fsCall kernelMain (.write 8 (fun _ => 0x61) 1)).2.fs 8 ∧
      (fsCall (fsCall kernelMain (.write 8 (fun _ => 0x61) 1)).2 (.delete 8)).1 = fsSuccess ∧
      (callAll kernelMain calls).fs.blockUsed 0 = true ∧
      ∀ k < maxInodes, ((callAll kernelMain calls).fs.inodes k).blocks = 0 := by
    decide +kernel
  obtain ⟨hwrite, hlive, hdelete, hused, hempty⟩ := hend
  have hrun : FsRun LiveSuccess calls (callAll kernelMain calls) :=
    .cons ⟨⟨liveInode_fetch, hwrite⟩, rfl⟩ (.cons ⟨⟨hlive, hdelete⟩, rfl⟩ (.nil _))
  obtain ⟨n, i, -, hi, -⟩ := hall calls _ hrun 0 hused
  have hwf := wellFormed_of_run hrun
  by_cases hn : n - 1 < maxInodes
  · rw [hempty _ hn] at hi
    exact Nat.not_lt_zero i hi
  · rw [hwf.outside _ (Nat.not_lt.mp hn)] at hi
    exact Nat.not_lt_zero i hi

end Srunix
