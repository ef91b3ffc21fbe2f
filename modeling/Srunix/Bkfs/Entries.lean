import Srunix.Bkfs.Calls

/-!
# Entries and inodes

`files[0 .. file_count)` and the inode table are two views of one set of files.
`EntriesInv` says how they fit together; it survives every call with every
argument (`entriesInv_of_run`), so no result about reachable states assumes it.

The five blank entries the table starts with carry inode number 0, which no
call ever names, so they stay where they are: `liveEntries` is the rest.
-/

namespace Srunix

open Library

/-- The entries that stand for files. -/
def liveEntries (fs : Bkfs) : List File := (entries fs).filter fun e => e.inode ≠ 0

theorem mem_liveEntries {fs : Bkfs} {e : File} :
    e ∈ liveEntries fs ↔ e ∈ entries fs ∧ e.inode ≠ 0 := by
  simp [liveEntries]

theorem mem_entries {fs : Bkfs} {e : File} :
    e ∈ entries fs ↔ ∃ i < fs.fileCount, fs.files i = e := mem_table

/-- A number in use is that of an entry in use. -/
theorem liveInode_iff {fs : Bkfs} {n : Nat} :
    LiveInode fs n ↔ ∃ e ∈ liveEntries fs, e.inode = n := by
  constructor
  · rintro ⟨hn, e, he, rfl⟩
    exact ⟨e, mem_liveEntries.mpr ⟨he, hn⟩, rfl⟩
  · rintro ⟨e, he, rfl⟩
    obtain ⟨he, hn⟩ := mem_liveEntries.mp he
    exact ⟨hn, e, he, rfl⟩

/-- The mode `fs_create_file` gives an entry of a type. -/
def modeOf (type : UInt8) : Nat := if type = fileDir then 0x4000 else 0x8000

theorem modeOf_ne_zero (type : UInt8) : modeOf type ≠ 0 := by
  rw [modeOf]
  split
  · decide
  · decide

/-- Entries and inodes in step: after the five blank ones come the live entries,
with pairwise distinct inode numbers in range, each inode's mode telling its
entry's type, and every inode in use having an entry. -/
structure EntriesInv (fs : Bkfs) : Prop where
  blanks : entries fs = List.replicate 5 File.blank ++ liveEntries fs
  count_le : fs.fileCount ≤ maxFiles
  nodup : ((liveEntries fs).map File.inode).Nodup
  mode : ∀ e ∈ liveEntries fs, (fs.inodes (e.inode - 1)).mode = modeOf e.type
  owned : ∀ k, (fs.inodes k).mode ≠ 0 → ∃ e ∈ liveEntries fs, e.inode = k + 1

theorem entries_length (fs : Bkfs) : (entries fs).length = fs.fileCount := by
  simp [entries, table]

namespace EntriesInv

variable {fs fs' : Bkfs}

/-- The table never runs empty, so the "no files left" panics are dead code. -/
theorem five_le (h : EntriesInv fs) : 5 ≤ fs.fileCount := by
  rw [← entries_length, h.blanks, List.length_append, List.length_replicate]
  omega

/-- The inodes of entries in use are those of the table. -/
theorem inode_le (h : EntriesInv fs) (hwf : WellFormed fs) {e : File} (he : e ∈ liveEntries fs) :
    e.inode ≤ maxInodes := by
  by_contra hbig
  have hmode := h.mode e he
  rw [hwf.outside _ (by omega)] at hmode
  exact modeOf_ne_zero e.type hmode.symm

/-- An inode number is live exactly when its inode is in use. -/
theorem live_iff (h : EntriesInv fs) {k : Nat} :
    LiveInode fs (k + 1) ↔ (fs.inodes k).mode ≠ 0 := by
  rw [liveInode_iff]
  constructor
  · rintro ⟨e, he, hek⟩
    have hmode := h.mode e he
    rw [hek, Nat.add_sub_cancel] at hmode
    rw [hmode]
    exact modeOf_ne_zero e.type
  · exact h.owned k

/-- The inode of an entry in use is taken. -/
theorem live_pred (h : EntriesInv fs) {n : Nat} (hn : LiveInode fs n) :
    (fs.inodes (n - 1)).mode ≠ 0 := by
  obtain ⟨k, rfl⟩ : ∃ k, n = k + 1 := ⟨n - 1, by have := hn.1; omega⟩
  exact h.live_iff.mp hn

/-- The number of an entry in use passes the checks of all calls. -/
theorem not_bad (h : EntriesInv fs) (hwf : WellFormed fs) {n : Nat} (hn : LiveInode fs n) :
    ¬ BadInode n := by
  obtain ⟨e, he, rfl⟩ := liveInode_iff.mp hn
  have := h.inode_le hwf he
  have := hn.1
  rw [BadInode]
  omega

/-- An entry is determined by its inode number. -/
theorem eq_of_inode (h : EntriesInv fs) {e e' : File} (he : e ∈ liveEntries fs)
    (he' : e' ∈ liveEntries fs) (heq : e.inode = e'.inode) : e = e' :=
  List.inj_on_of_nodup_map h.nodup he he' heq

/-- The invariant reads the entries, the file count and the modes only. -/
theorem congr (h : EntriesInv fs) (hfiles : fs'.files = fs.files)
    (hcount : fs'.fileCount = fs.fileCount)
    (hmode : ∀ k, (fs'.inodes k).mode = (fs.inodes k).mode) : EntriesInv fs' := by
  have hentries : entries fs' = entries fs := by
    unfold entries
    rw [hfiles, hcount]
  have hlive : liveEntries fs' = liveEntries fs := by
    unfold liveEntries
    rw [hentries]
  -- every part reads the entries, their number or the modes
  refine ⟨?_, ?_, ?_, ?_, ?_⟩
  · rw [hentries, hlive]
    exact h.blanks
  · rw [hcount]
    exact h.count_le
  · rw [hlive]
    exact h.nodup
  · intro e he
    rw [hlive] at he
    rw [hmode]
    exact h.mode e he
  · intro k hk
    rw [hmode] at hk
    rw [hlive]
    exact h.owned k hk

/-! ## Creation -/

/-- The new entry is the last one. -/
theorem entries_created (fs : Bkfs) (i : Nat) (name : Name) (parentInode : Nat) (type : UInt8) :
    entries (created fs i name parentInode type)
      = entries fs ++ [newEntry (i + 1) name parentInode type] :=
  table_update_append ..

theorem liveEntries_created (fs : Bkfs) (i : Nat) (name : Name) (parentInode : Nat)
    (type : UInt8) :
    liveEntries (created fs i name parentInode type)
      = liveEntries fs ++ [newEntry (i + 1) name parentInode type] := by
  rw [liveEntries]
  rw [entries_created, List.filter_append]
  rfl

/-- The inode a creation takes belongs to no entry yet. -/
theorem fresh (h : EntriesInv fs) {i : Nat} (hmode : (fs.inodes i).mode = 0) {e : File}
    (he : e ∈ liveEntries fs) : e.inode ≠ i + 1 := by
  intro heq
  have := h.mode e he
  rw [heq, Nat.add_sub_cancel, hmode] at this
  exact modeOf_ne_zero e.type this.symm

/-- A free inode is no entry's, so the numbers stay different. -/
theorem created (h : EntriesInv fs) {i : Nat} (hmode : (fs.inodes i).mode = 0)
    (hcount : fs.fileCount < maxFiles) (name : Name) (parentInode : Nat) (type : UInt8) :
    EntriesInv (created fs i name parentInode type) := by
  refine ⟨?_, ?_, ?_, ?_, ?_⟩
  · rw [entries_created, liveEntries_created, ← List.append_assoc, ← h.blanks]
  · exact hcount
  · -- the slot was free, so no entry has its number
    rw [liveEntries_created, List.map_append, List.nodup_append]
    refine ⟨h.nodup, List.nodup_singleton _, ?_⟩
    intro n hn m hm
    obtain ⟨e, he, rfl⟩ := List.mem_map.mp hn
    obtain rfl : m = i + 1 := by simpa [newEntry] using hm
    exact h.fresh hmode he
  · intro e he
    rw [liveEntries_created] at he
    rcases List.mem_append.mp he with hold | hnew
    · have hne : e.inode - 1 ≠ i := by
        have := h.fresh hmode hold
        have := (mem_liveEntries.mp hold).2
        omega
      rw [created_inode_of_ne hne]
      exact h.mode e hold
    · obtain rfl : e = newEntry (i + 1) name parentInode type := by simpa using hnew
      show ((Srunix.created fs i name parentInode type).inodes i).mode = modeOf type
      rw [created_inode_self]
      rfl
  · intro k hk
    rw [liveEntries_created]
    by_cases hki : k = i
    · exact ⟨newEntry (i + 1) name parentInode type, by simp, by simp [newEntry, hki]⟩
    · rw [created_inode_of_ne hki] at hk
      obtain ⟨e, he, hek⟩ := h.owned k hk
      exact ⟨e, List.mem_append_left _ he, hek⟩

/-! ## Deletion -/

/-- Removing an entry is erasing the first one with that inode number. -/
theorem entries_removeEntry_eq (fs : Bkfs) (n : Nat) :
    entries (removeEntry fs n) = (entries fs).eraseP fun e => e.inode == n := by
  rw [removeEntry]
  cases hscan : firstIndex fs.fileCount fun i => (fs.files i).inode == n with
  | some i => exact table_shiftDown_firstIndex (p := fun e : File => e.inode == n) hscan
  | none => exact (eraseP_table_of_firstIndex (p := fun e : File => e.inode == n) hscan).symm

/-- To look for a live number is to look among the live entries. -/
theorem live_test {n : Nat} (hn : n ≠ 0) :
    (fun e : File => e.inode == n && decide (e.inode ≠ 0)) = fun e => e.inode == n := by
  funext e
  by_cases he : e.inode = n
  · simp [he, hn]
  · simp [he]

/-- The entry of that number is the one that goes. -/
theorem liveEntries_removeEntry (h : EntriesInv fs) {n : Nat} (hn : n ≠ 0) :
    liveEntries (removeEntry fs n) = (liveEntries fs).filter fun e => e.inode ≠ n := by
  rw [← eraseP_eq_filter File.inode n h.nodup]
  unfold liveEntries
  rw [entries_removeEntry_eq, List.eraseP_filter, live_test hn]

/-- The blank entries of the image are never removed. -/
theorem removeEntry_blanks (h : EntriesInv fs) {n : Nat} (hn : n ≠ 0) :
    entries (removeEntry fs n) = List.replicate 5 File.blank ++ liveEntries (removeEntry fs n) := by
  have hblank : ∀ e ∈ List.replicate 5 File.blank, ¬ (e.inode == n) = true := by
    intro e he
    obtain rfl := List.eq_of_mem_replicate he
    simpa [File.blank] using Ne.symm hn
  rw [entries_removeEntry_eq]
  nth_rewrite 1 [h.blanks]
  rw [List.eraseP_append_right _ hblank, eraseP_eq_filter File.inode n h.nodup,
    h.liveEntries_removeEntry hn]

theorem removeEntry_blocks (fs : Bkfs) (n : Nat) : (removeEntry fs n).blocks = fs.blocks := by
  rcases entries_removeEntry fs n with ⟨_, _, _, _, heq⟩ | ⟨_, heq⟩
  · rw [heq]
  · rw [heq]

theorem removeEntry_fileCount (fs : Bkfs) (n : Nat) :
    (removeEntry fs n).fileCount ≤ fs.fileCount := by
  rcases entries_removeEntry fs n with ⟨_, _, _, _, heq⟩ | ⟨_, heq⟩
  · rw [heq]
    exact Nat.sub_le _ _
  · rw [heq]

theorem liveEntries_deleted (h : EntriesInv fs) {n : Nat} (hn : n ≠ 0) :
    liveEntries (Srunix.deleted fs n) = (liveEntries fs).filter fun e => e.inode ≠ n :=
  h.liveEntries_removeEntry hn

/-- Entry and inode go together. -/
theorem deleted (h : EntriesInv fs) {n : Nat} (hn : n ≠ 0) : EntriesInv (deleted fs n) := by
  have hlive := h.liveEntries_deleted hn
  refine ⟨h.removeEntry_blanks hn, ?_, ?_, ?_, ?_⟩
  · exact Nat.le_trans (removeEntry_fileCount fs n) h.count_le
  · rw [hlive]
    exact h.nodup.sublist (List.filter_sublist.map _)
  · intro e he
    rw [hlive] at he
    obtain ⟨he, hen⟩ := List.mem_filter.mp he
    have hne : e.inode - 1 ≠ n - 1 := by
      have := (mem_liveEntries.mp he).2
      have : e.inode ≠ n := by simpa using hen
      omega
    rw [deleted_inode_of_ne hne]
    exact h.mode e he
  -- an inode that is still in use is not the one deleted
  · intro k hk
    have hkn : k ≠ n - 1 := by
      rintro rfl
      rw [deleted_inode_self] at hk
      exact hk rfl
    rw [deleted_inode_of_ne hkn] at hk
    obtain ⟨e, he, hek⟩ := h.owned k hk
    rw [hlive]
    refine ⟨e, List.mem_filter.mpr ⟨he, ?_⟩, hek⟩
    have : e.inode ≠ n := by omega
    simpa using this

/-! ## Every call keeps it -/

/-- The step lemma of `EntriesInv`, one case for each outcome. -/
theorem step (h : EntriesInv fs) {c : FsCall} {r : Int} (hout : FsOutcome fs c r fs') :
    EntriesInv fs' := by
  cases hout with
  | createRefused | writeRefused | deleteRefused => exact h
  | chdir => exact h.congr rfl rfl fun _ => rfl
  | created href _ hmode =>
    have hcount : fs.fileCount < maxFiles :=
      Nat.not_le.mp fun hfull => href (.inr (.inr (.inl hfull)))
    exact h.created hmode hcount ..
  | written => exact h.congr rfl rfl (written_mode _ _ _ _ _)
  | writeFailed => exact h.congr rfl rfl (writeFailed_mode _ _ _)
  | @read n size buffer _ =>
    have hmode := accessed_mode fs n
    obtain ⟨inodes, heq, -⟩ := accessed_eq fs n
    rw [heq] at hmode ⊢
    exact h.congr rfl rfl hmode
  | deleted hbad => exact h.deleted fun hn => hbad (.inl hn)

/-- A live entry stays until its inode is deleted. -/
theorem mem_liveEntries_step (h : EntriesInv fs) {c : FsCall} {r : Int}
    (hout : FsOutcome fs c r fs') {e : File} (he : e ∈ liveEntries fs) (hc : c ≠ .delete e.inode) :
    e ∈ liveEntries fs' := by
  cases hout with
  | createRefused | writeRefused | deleteRefused | chdir | written | writeFailed => exact he
  | created =>
    rw [liveEntries_created]
    exact List.mem_append_left _ he
  | @read m size buffer _ =>
    obtain ⟨inodes, heq, -⟩ := accessed_eq fs m
    rw [heq]
    exact he
  | @deleted m hbad =>
    have hne : e.inode ≠ m := fun heq => hc (by rw [heq])
    rw [h.liveEntries_deleted fun hm => hbad (.inl hm)]
    exact List.mem_filter.mpr ⟨he, by simpa using hne⟩

/-- A live inode stays live until it is deleted. -/
theorem live_step (h : EntriesInv fs) {c : FsCall} {r : Int} (hout : FsOutcome fs c r fs') {n : Nat}
    (hn : LiveInode fs n) (hc : c ≠ .delete n) : LiveInode fs' n := by
  obtain ⟨e, he, rfl⟩ := liveInode_iff.mp hn
  exact liveInode_iff.mpr ⟨e, h.mem_liveEntries_step hout he hc, rfl⟩

theorem empty : EntriesInv emptyFs where
  blanks := by decide
  count_le := by decide
  nodup := by decide
  mode := by decide
  owned _ hk := absurd rfl hk

end EntriesInv

theorem entriesInv_kernelMain : EntriesInv kernelMain.fs :=
  kernelMain_invariant .empty fun hwf h => h.step (fsCall_outcome hwf _)

/-- **Entries and inodes stay in step through every history**, with any
arguments, failed calls included. -/
theorem entriesInv_of_run {ok : KernelState → FsCall → Prop} {calls : List FsCall} {s : KernelState}
    (h : FsRun ok calls s) : EntriesInv s.fs :=
  (h.invariant entriesInv_kernelMain fun hwf hinv _ => hinv.step (fsCall_outcome hwf _)).2

/-- An inode live at boot is live after every history that does not delete it. -/
theorem liveInode_of_run {n : Nat} (hn : LiveInode kernelMain.fs n) {calls : List FsCall}
    (hcalls : ∀ c ∈ calls, c ≠ .delete n) : LiveInode (callAll kernelMain calls).fs n := by
  let P : Bkfs → Prop := fun fs => EntriesInv fs ∧ LiveInode fs n
  have h : WellFormed (callAll kernelMain calls).fs ∧ P (callAll kernelMain calls).fs := by
    refine (fsRun_callAll hcalls).invariant ⟨entriesInv_kernelMain, hn⟩ ?_
    rintro s c hwf ⟨hinv, hlive⟩ hc
    have hout := fsCall_outcome hwf c
    exact ⟨hinv.step hout, hinv.live_step hout hlive hc⟩
  exact h.2.2

end Srunix
