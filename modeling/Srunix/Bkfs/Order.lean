import Srunix.Bkfs.Entries

/-!
# One entry for one inode, in the order of creation

`entryInode_of_calls` puts `EntriesInv` in the terms of the two tables, and adds
what an invariant of one state cannot say: the entries stand in the order they
were made in, and no call panics. Each entry made since boot is traced to the call that made it
(`BornAt`), and along the table those calls ascend (`InCreationOrder`).
-/

namespace Srunix

open Library

/-- What a call does to the live entries: nothing, one more at the end, or none
of some inode. -/
theorem liveEntries_cases {fs fs' : Bkfs} {c : FsCall} {r : Int} (h : EntriesInv fs)
    (hout : FsOutcome fs c r fs') :
    liveEntries fs' = liveEntries fs ∨
      (∃ e, liveEntries fs' = liveEntries fs ++ [e] ∧ ¬ LiveInode fs e.inode) ∨
      (∃ n, liveEntries fs' = (liveEntries fs).filter fun e => e.inode ≠ n) := by
  cases hout with
  | createRefused | writeRefused | deleteRefused | chdir | written | writeFailed => exact .inl rfl
  | @read n size buffer _ =>
    obtain ⟨inodes, heq, -⟩ := accessed_eq fs n
    rw [heq]
    exact .inl rfl
  | @created name parentInode type i _ _ hmode =>
    refine .inr (.inl ⟨_, EntriesInv.liveEntries_created fs i name parentInode type, ?_⟩)
    intro hlive
    exact h.live_iff.mp hlive hmode
  | @deleted n hbad =>
    exact .inr (.inr ⟨n, h.liveEntries_deleted fun hn => hbad (.inl hn)⟩)

/-- Call number `k` made `e`: its inode was free before, and the entry has been
in the table since. -/
structure BornAt (calls : List FsCall) (k : Nat) (e : File) : Prop where
  lt : k < calls.length
  fresh : ¬ LiveInode (callAll kernelMain (calls.take k)).fs e.inode
  since : ∀ j, k < j → j ≤ calls.length →
    e ∈ liveEntries (callAll kernelMain (calls.take j)).fs

/-- The live entries are those of boot that are left, then those made since, by
ascending number of the call that made them. -/
def InCreationOrder (calls : List FsCall) : Prop :=
  ∃ old : List File, ∃ made : List (Nat × File),
    liveEntries (callAll kernelMain calls).fs = old ++ made.map Prod.snd ∧
      old.Sublist (liveEntries kernelMain.fs) ∧
      made.Pairwise (fun p q => p.1 < q.1) ∧ ∀ p ∈ made, BornAt calls p.1 p.2

/-- An entry that is still there was made where it was made before. -/
theorem BornAt.snoc {calls : List FsCall} {k : Nat} {e : File} (h : BornAt calls k e) {c : FsCall}
    (hlive : e ∈ liveEntries (callAll kernelMain (calls ++ [c])).fs) :
    BornAt (calls ++ [c]) k e := by
  refine ⟨?_, ?_, ?_⟩
  · rw [List.length_append]
    exact Nat.lt_add_right 1 h.lt
  · rw [List.take_append_of_le_length (Nat.le_of_lt h.lt)]
    exact h.fresh
  · intro j hkj hj
    by_cases hlast : j ≤ calls.length
    · rw [List.take_append_of_le_length hlast]
      exact h.since j hkj hlast
    · rw [List.take_of_length_le (by rw [List.length_append, List.length_singleton]; omega)]
      exact hlive

/-- An entry with a number that was not in use was made by the last call. -/
theorem bornAt_last {calls : List FsCall} {c : FsCall} {e : File}
    (hfresh : ¬ LiveInode (callAll kernelMain calls).fs e.inode)
    (hlive : e ∈ liveEntries (callAll kernelMain (calls ++ [c])).fs) :
    BornAt (calls ++ [c]) calls.length e := by
  refine ⟨?_, ?_, ?_⟩
  · rw [List.length_append, List.length_singleton]
    exact Nat.lt_succ_self _
  · rw [List.take_left]
    exact hfresh
  · intro j hj _
    rw [List.take_of_length_le (by rw [List.length_append, List.length_singleton]; omega)]
    exact hlive

theorem entriesInv_callAll (calls : List FsCall) :
    WellFormed (callAll kernelMain calls).fs ∧ EntriesInv (callAll kernelMain calls).fs := by
  have hrun : FsRun (fun _ _ => True) calls (callAll kernelMain calls) :=
    fsRun_callAll fun _ _ => trivial
  exact ⟨wellFormed_of_run hrun, entriesInv_of_run hrun⟩

/-- The entries stand in the order they were made in, whatever was removed between. -/
theorem inCreationOrder (calls : List FsCall) : InCreationOrder calls := by
  induction calls using List.reverseRecOn with
  | nil =>
    refine ⟨liveEntries kernelMain.fs, [], ?_, .refl _, .nil, nofun⟩
    rw [List.map_nil, List.append_nil]
    rfl
  | append_singleton calls c ih =>
    obtain ⟨old, made, hsplit, hold, hasc, hborn⟩ := ih
    obtain ⟨hwf, hinv⟩ := entriesInv_callAll calls
    have hout := fsCall_outcome hwf c
    have hnext : (fsCall (callAll kernelMain calls) c).2 = callAll kernelMain (calls ++ [c]) := by
      rw [callAll_append, callAll_singleton]
    rw [hnext] at hout
    rcases liveEntries_cases hinv hout with hsame | ⟨e, hmore, hfresh⟩ | ⟨n, hfewer⟩
    · refine ⟨old, made, hsame.trans hsplit, hold, hasc, fun p hp => (hborn p hp).snoc ?_⟩
      rw [hsame, hsplit]
      exact List.mem_append_right _ (List.mem_map_of_mem hp)
    · -- the new entry comes last, and its call is the latest
      refine ⟨old, made ++ [(calls.length, e)], ?_, hold, ?_, ?_⟩
      · rw [hmore, hsplit, List.map_append, List.append_assoc]
        rfl
      · refine List.pairwise_append.mpr ⟨hasc, List.pairwise_singleton _ _, ?_⟩
        intro p hp q hq
        rw [List.mem_singleton.mp hq]
        exact (hborn p hp).lt
      · intro p hp
        rcases List.mem_append.mp hp with hp | hp
        · refine (hborn p hp).snoc ?_
          rw [hmore, hsplit]
          exact List.mem_append_left _ (List.mem_append_right _ (List.mem_map_of_mem hp))
        · rw [List.mem_singleton.mp hp]
          refine bornAt_last hfresh ?_
          rw [hmore]
          exact List.mem_append_right _ (List.mem_singleton_self e)
    · -- one is gone, and the rest keep their places
      refine ⟨old.filter fun e => e.inode ≠ n, made.filter fun p => p.2.inode ≠ n, ?_,
        List.filter_sublist.trans hold, hasc.filter _, ?_⟩
      · rw [hfewer, hsplit, List.filter_append, List.filter_map]
        rfl
      · intro p hp
        obtain ⟨hp, hne⟩ := List.mem_filter.mp hp
        refine (hborn p hp).snoc ?_
        rw [hfewer, hsplit]
        refine List.mem_filter.mpr ⟨?_, hne⟩
        exact List.mem_append_right _ (List.mem_map_of_mem hp)

/-! ## No panic -/

/-- A file that is made is made without a word. -/
theorem fsCreateFile_quiet {s : KernelState} {name : Name} {parentInode : Nat} {type : UInt8}
    (hok : (fsCreateFile s name parentInode type).1 = fsSuccess) :
    (fsCreateFile s name parentInode type).2.term = s.term := by
  have hfail : fsError ≠ fsSuccess := by decide
  rw [fsCreateFile] at hok ⊢
  by_cases hvalid : (!isValidFilename name.str) = true
  · rw [if_pos hvalid] at hok
    exact absurd hok hfail
  rw [if_neg hvalid] at hok ⊢
  by_cases hexists : fileExistsInCurrentDir s.fs name.str = true
  · rw [if_pos hexists] at hok
    exact absurd hok hfail
  rw [if_neg hexists] at hok ⊢
  by_cases hfull : s.fs.fileCount ≥ maxFiles
  · rw [if_pos hfull] at hok
    exact absurd hok hfail
  rw [if_neg hfull] at hok ⊢
  cases hinode : fsAllocInode s.fs with
  | mk got fs =>
  rw [hinode] at hok
  cases got with
  | none => exact absurd hok hfail
  | some inodeNum =>
    dsimp only
    -- the count is one more than before, so the panic branch is dead
    rw [if_neg (Nat.succ_ne_zero _)]

/-- `fs_delete_file` panics when no entry is left. -/
theorem fsDeleteFile_quiet {s : KernelState} {n : Nat}
    (hcount : (fsDeleteFile s n).2.fs.fileCount ≠ 0) : (fsDeleteFile s n).2.term = s.term := by
  rw [fsDeleteFile] at hcount ⊢
  by_cases hbad : n = 0 ∨ n > maxInodes
  · rw [if_pos hbad]
  · rw [if_neg hbad] at hcount ⊢
    dsimp only at hcount ⊢
    rw [ite_kernelPanic_fs] at hcount
    have hleft : (removeEntry (releaseBlocks s.fs (s.fs.inodes (n - 1))
        (min (s.fs.inodes (n - 1)).blocks inodeDirectBlocks)) n).fileCount ≠ 0 := by
      rw [fsFreeInode] at hcount
      rwa [if_neg hbad] at hcount
    rw [if_neg hleft]

/-- A call that succeeds prints nothing while there are entries. -/
theorem fsCall_quiet {s : KernelState} {c : FsCall} (hok : (fsCall s c).1 = fsSuccess)
    (hcount : (fsCall s c).2.fs.fileCount ≠ 0) : (fsCall s c).2.term = s.term := by
  cases c with
  | create name parentInode type => exact fsCreateFile_quiet hok
  | delete n => exact fsDeleteFile_quiet hcount
  | write | read | chdir => rfl

theorem modeOf_eq_iff (type : UInt8) : modeOf type = 0x4000 ↔ type = fileDir := by
  rw [modeOf]
  by_cases h : type = fileDir
  · simp [h]
  · simp [h]

/-- **Entries and inodes after any calls.** The last part is about `kernel_panic`:
the calls that get to it print and return `FS_SUCCESS`, and there are none. -/
theorem entryInode_of_calls (calls : List FsCall) :
    let s := callAll kernelMain calls
    let fs := s.fs
    entries fs = List.replicate 5 File.blank ++ liveEntries fs ∧
      ((liveEntries fs).map File.inode).Nodup ∧
      (∀ e ∈ liveEntries fs, 1 ≤ e.inode ∧ e.inode ≤ maxInodes ∧
        (fs.inodes (e.inode - 1)).mode ≠ 0 ∧
        ((fs.inodes (e.inode - 1)).mode = 0x4000 ↔ e.type = fileDir)) ∧
      (∀ k, (fs.inodes k).mode ≠ 0 → ∃! e, e ∈ liveEntries fs ∧ e.inode = k + 1) ∧
      InCreationOrder calls ∧ 5 ≤ fs.fileCount ∧ fs.fileCount ≤ maxFiles ∧
      ∀ c, (fsCall s c).1 = fsSuccess → (fsCall s c).2.term = s.term := by
  obtain ⟨hwf, h⟩ := entriesInv_callAll calls
  refine ⟨h.blanks, h.nodup, ?_, ?_, inCreationOrder calls, h.five_le, h.count_le, ?_⟩
  · intro e he
    have hne := (mem_liveEntries.mp he).2
    refine ⟨by omega, h.inode_le hwf he, ?_, ?_⟩
    · rw [h.mode e he]
      exact modeOf_ne_zero e.type
    · rw [h.mode e he]
      exact modeOf_eq_iff e.type
  · intro k hk
    obtain ⟨e, he, hek⟩ := h.owned k hk
    refine ⟨e, ⟨he, hek⟩, ?_⟩
    rintro e' ⟨he', hek'⟩
    exact h.eq_of_inode he' he (hek'.trans hek.symm)
  · intro c hok
    -- five blank entries stay whatever comes next, so the files never run out
    have hnext := (entriesInv_callAll (calls ++ [c])).2.five_le
    rw [callAll_append, callAll_singleton] at hnext
    exact fsCall_quiet hok (by omega)

end Srunix
