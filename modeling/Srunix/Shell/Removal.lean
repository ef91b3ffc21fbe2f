import Srunix.Bkfs.Tree
import Srunix.Shell.Rm

/-!
# What `rm -rf` removes

`execute_rm` looks every name up in the current directory, the names of the
children of the directory it removes included. So no child is ever found where
it is: a child whose name the current directory lacks is asked for again and
again, and a child whose name it has costs the current directory an entry of
its own (`rm_spills`). Only a directory with nothing in it is removed as
`RmCorrect` says (`rmCorrect_of_empty`).

The states are those whose entries form a tree (`DirTree`); nothing else is
assumed of the tables.
-/

namespace Srunix

open Library Relation

/-! ## One deletion -/

/-- The release touches marks and count only. -/
theorem releaseBlocks_frame (fs : Bkfs) (inode : Inode) (n : Nat) :
    ∃ used free, releaseBlocks fs inode n = { fs with blockUsed := used, freeBlocks := free } := by
  rw [releaseBlocks]
  induction table inode.block n generalizing fs with
  | nil => exact ⟨fs.blockUsed, fs.freeBlocks, rfl⟩
  | cons b l ih =>
    have hstep : ∃ used free, (if b ≠ 0 then fsFreeBlock fs b else fs)
        = { fs with blockUsed := used, freeBlocks := free } := by
      rw [fsFreeBlock]
      split_ifs
      · exact ⟨fs.blockUsed, fs.freeBlocks, rfl⟩
      · exact ⟨_, _, rfl⟩
      · exact ⟨fs.blockUsed, fs.freeBlocks, rfl⟩
    obtain ⟨used, free, hstep⟩ := hstep
    obtain ⟨used', free', ih⟩ := ih { fs with blockUsed := used, freeBlocks := free }
    refine ⟨used', free', ?_⟩
    rw [List.foldl_cons, hstep, ih]

/-- What the deletion of an inode number in range does to the tables, whatever
they hold. The block map is left out: blocks may be shared here. -/
structure Erased (fs fs' : Bkfs) (n : Nat) : Prop where
  entries : entries fs' = (entries fs).eraseP fun e => e.inode == n
  currentInode : fs'.currentInode = fs.currentInode
  inodes : fs'.inodes = Function.update fs.inodes (n - 1) .zero
  freeInodes : fs'.freeInodes = uint32 (fs.freeInodes + 1)
  blocks : fs'.blocks = fs.blocks

/-- The removal touches entries and their count only. -/
theorem removeEntry_frame (fs : Bkfs) (n : Nat) :
    ∃ files count, removeEntry fs n = { fs with files := files, fileCount := count } := by
  rcases entries_removeEntry fs n with ⟨i, -, -, -, heq⟩ | ⟨-, heq⟩
  · exact ⟨_, _, heq⟩
  · exact ⟨fs.files, fs.fileCount, heq⟩

/-- The entry of the number is gone, and no other. -/
theorem fsDeleteFile_erased {s : KernelState} {n : Nat} (hbad : ¬ BadInode n) :
    (fsDeleteFile s n).1 = fsSuccess ∧ Erased s.fs (fsDeleteFile s n).2.fs n := by
  rw [fsDeleteFile]
  rw [if_neg hbad]
  refine ⟨rfl, ?_⟩
  dsimp only
  rw [ite_kernelPanic_fs]
  obtain ⟨used, free, hreleased⟩ :=
    releaseBlocks_frame s.fs (s.fs.inodes (n - 1)) (min (s.fs.inodes (n - 1)).blocks inodeDirectBlocks)
  rw [hreleased]
  have hentries := EntriesInv.entries_removeEntry_eq
    { s.fs with blockUsed := used, freeBlocks := free } n
  obtain ⟨files, count, hremoved⟩ :=
    removeEntry_frame { s.fs with blockUsed := used, freeBlocks := free } n
  rw [hremoved] at hentries ⊢
  rw [fsFreeInode]
  rw [if_neg hbad]
  exact ⟨hentries, rfl, rfl, rfl, rfl⟩

theorem finishRm_fs (s : KernelState) (name : NamePtr) (i : Nat) :
    (finishRm s name i).fs = (fsDeleteFile s (s.fs.files i).inode).2.fs := by
  rw [finishRm]
  dsimp only
  split
  · rfl
  · rfl

/-! ## The recursion, a round at a time -/

section Rounds

variable {s : KernelState} {name : NamePtr} {fuel i j dirInode : Nat} {recursive : Bool}

theorem executeRm_missing (hfind : findInCurrentDir s.fs (name.deref s.fs) = none) :
    executeRm (fuel + 1) s name recursive
      = some (s.printf "File not found: %s\n" [.str (name.deref s.fs)]) := by
  rw [executeRm, hfind]

theorem executeRm_regular (hfind : findInCurrentDir s.fs (name.deref s.fs) = some i)
    (htype : (s.fs.files i).type ≠ fileDir) :
    executeRm (fuel + 1) s name recursive = some (finishRm s name i) := by
  rw [executeRm, hfind]
  dsimp only
  rw [if_neg htype]

theorem executeRm_refused (hfind : findInCurrentDir s.fs (name.deref s.fs) = some i)
    (htype : (s.fs.files i).type = fileDir) :
    executeRm (fuel + 1) s name false
      = some (s.writestring "Cannot remove directory: use 'rm -rf' for directories\n") := by
  rw [executeRm, hfind]
  dsimp only
  rw [if_pos htype, if_neg Bool.false_ne_true]

/-- A directory: the children first, and then itself. -/
theorem executeRm_dir (hfind : findInCurrentDir s.fs (name.deref s.fs) = some i)
    (htype : (s.fs.files i).type = fileDir) :
    executeRm (fuel + 1) s name true
      = (rmChildren fuel s (s.fs.files i).inode 0).map fun s => finishRm s name i := by
  rw [executeRm, hfind]
  dsimp only
  rw [if_pos htype, if_pos rfl]
  cases rmChildren fuel s (s.fs.files i).inode 0 with
  | none => rfl
  | some s' => rfl

/-- A child is removed by its name, and the same place is looked at again. -/
theorem rmChildren_child (hj : j < s.fs.fileCount)
    (hparent : (s.fs.files j).parentInode = dirInode) :
    rmChildren (fuel + 1) s dirInode j
      = (executeRm fuel s (.entry j) true).bind fun s => rmChildren fuel s dirInode j := by
  rw [rmChildren, if_pos hj, if_pos hparent]
  cases executeRm fuel s (.entry j) true with
  | none => rfl
  | some s' => rfl

theorem rmChildren_other (hj : j < s.fs.fileCount)
    (hparent : (s.fs.files j).parentInode ≠ dirInode) :
    rmChildren (fuel + 1) s dirInode j = rmChildren fuel s dirInode (j + 1) := by
  rw [rmChildren, if_pos hj, if_neg hparent]

theorem rmChildren_end (hj : ¬ j < s.fs.fileCount) :
    rmChildren (fuel + 1) s dirInode j = some s := by
  rw [rmChildren, if_neg hj]

/-- Where there is no child, the loop ends and has done nothing. -/
theorem rmChildren_childless (hnone : ∀ j < s.fs.fileCount, (s.fs.files j).parentInode ≠ dirInode) :
    rmChildren (s.fs.fileCount + 1) s dirInode 0 = some s := by
  have hloop : ∀ n j, j + n = s.fs.fileCount → rmChildren (n + 1) s dirInode j = some s := by
    intro n
    induction n with
    | zero => exact fun j hj => rmChildren_end (by omega)
    | succ n ih =>
      intro j hj
      rw [rmChildren_other (by omega) (hnone j (by omega))]
      exact ih (j + 1) (by omega)
  exact hloop s.fs.fileCount 0 (Nat.zero_add _)

/-- A match with no children is deleted, and that is all. -/
theorem executeRm_childless (hfind : findInCurrentDir s.fs (name.deref s.fs) = some i)
    (hnone : ∀ j < s.fs.fileCount, (s.fs.files j).parentInode ≠ (s.fs.files i).inode) :
    executeRm (s.fs.fileCount + 2) s name true = some (finishRm s name i) := by
  by_cases htype : (s.fs.files i).type = fileDir
  · rw [executeRm_dir hfind htype, rmChildren_childless hnone]
    rfl
  · exact executeRm_regular hfind htype

end Rounds

/-! ## Runs that end -/

/-- A call of `execute_rm`, or its loop over the children of a directory from
index `j` on. -/
inductive RmTask where
  | call (name : NamePtr) (recursive : Bool)
  | children (dirInode j : Nat)

/-- The runs that end, by what each call finds and each round meets. -/
inductive RmRun : RmTask → KernelState → KernelState → Prop where
  | missing {s : KernelState} {name : NamePtr} {recursive : Bool}
      (hfind : findInCurrentDir s.fs (name.deref s.fs) = none) :
      RmRun (.call name recursive) s (s.printf "File not found: %s\n" [.str (name.deref s.fs)])
  | regular {s : KernelState} {name : NamePtr} {recursive : Bool} {i : Nat}
      (hfind : findInCurrentDir s.fs (name.deref s.fs) = some i)
      (htype : (s.fs.files i).type ≠ fileDir) :
      RmRun (.call name recursive) s (finishRm s name i)
  | refused {s : KernelState} {name : NamePtr} {i : Nat}
      (hfind : findInCurrentDir s.fs (name.deref s.fs) = some i)
      (htype : (s.fs.files i).type = fileDir) :
      RmRun (.call name false) s
        (s.writestring "Cannot remove directory: use 'rm -rf' for directories\n")
  | dir {s s₁ : KernelState} {name : NamePtr} {i : Nat}
      (hfind : findInCurrentDir s.fs (name.deref s.fs) = some i)
      (htype : (s.fs.files i).type = fileDir)
      (hchildren : RmRun (.children (s.fs.files i).inode 0) s s₁) :
      RmRun (.call name true) s (finishRm s₁ name i)
  | child {s s₁ s' : KernelState} {dirInode j : Nat} (hj : j < s.fs.fileCount)
      (hparent : (s.fs.files j).parentInode = dirInode)
      (hcall : RmRun (.call (.entry j) true) s s₁) (hrest : RmRun (.children dirInode j) s₁ s') :
      RmRun (.children dirInode j) s s'
  | other {s s' : KernelState} {dirInode j : Nat} (hj : j < s.fs.fileCount)
      (hparent : (s.fs.files j).parentInode ≠ dirInode)
      (hrest : RmRun (.children dirInode (j + 1)) s s') : RmRun (.children dirInode j) s s'
  | done {s : KernelState} {dirInode j : Nat} (hj : ¬ j < s.fs.fileCount) :
      RmRun (.children dirInode j) s s

/-- Where the fuel is enough, the run ends. -/
theorem rmRun_of_fuel (fuel : Nat) :
    (∀ s name recursive s', executeRm fuel s name recursive = some s' →
      RmRun (.call name recursive) s s') ∧
    (∀ s dirInode j s', rmChildren fuel s dirInode j = some s' →
      RmRun (.children dirInode j) s s') := by
  -- the call and its loop go through each other, a unit of fuel at a time
  induction fuel with
  | zero =>
    constructor
    · intro s name recursive s' hrun
      rw [executeRm] at hrun
      cases hrun
    · intro s dirInode j s' hrun
      rw [rmChildren] at hrun
      cases hrun
  | succ fuel ih =>
    obtain ⟨ihCall, ihLoop⟩ := ih
    constructor
    · intro s name recursive s' hrun
      cases hfind : findInCurrentDir s.fs (name.deref s.fs) with
      | none =>
        rw [executeRm_missing hfind] at hrun
        cases hrun
        exact .missing hfind
      | some i =>
        by_cases htype : (s.fs.files i).type = fileDir
        · cases recursive with
          | false =>
            rw [executeRm_refused hfind htype] at hrun
            cases hrun
            exact .refused hfind htype
          | true =>
            rw [executeRm_dir hfind htype] at hrun
            obtain ⟨s₁, hchildren, rfl⟩ := Option.map_eq_some_iff.mp hrun
            exact .dir hfind htype (ihLoop _ _ _ _ hchildren)
        · rw [executeRm_regular hfind htype] at hrun
          cases hrun
          exact .regular hfind htype
    · intro s dirInode j s' hrun
      by_cases hj : j < s.fs.fileCount
      · by_cases hparent : (s.fs.files j).parentInode = dirInode
        · rw [rmChildren_child hj hparent] at hrun
          obtain ⟨s₁, hcall, hrest⟩ := Option.bind_eq_some_iff.mp hrun
          exact .child hj hparent (ihCall _ _ _ _ hcall) (ihLoop _ _ _ _ hrest)
        · rw [rmChildren_other hj hparent] at hrun
          exact .other hj hparent (ihLoop _ _ _ _ hrun)
      · rw [rmChildren_end hj] at hrun
        cases hrun
        exact .done hj

/-- What `execute_rm` computes is a run. -/
theorem rmRun_of_executeRm {fuel : Nat} {s s' : KernelState} {name : NamePtr} {recursive : Bool}
    (h : executeRm fuel s name recursive = some s') : RmRun (.call name recursive) s s' :=
  (rmRun_of_fuel fuel).1 s name recursive s' h

/-- A loop that meets no child has done nothing. -/
theorem RmRun.idle {s s' : KernelState} {dirInode j : Nat} (h : RmRun (.children dirInode j) s s')
    (hnone : ∀ k < s.fs.fileCount, (s.fs.files k).parentInode ≠ dirInode) : s' = s := by
  generalize htask : RmTask.children dirInode j = task at h
  induction h generalizing j with
  | missing | regular | refused | dir => cases htask
  | child hj hparent =>
    cases htask
    exact absurd hparent (hnone _ hj)
  | other hj hparent hrest ih =>
    cases htask
    exact ih hnone rfl
  | done hj => rfl

/-! ## Nothing comes back -/

theorem finishRm_sublist (s : KernelState) (name : NamePtr) (i : Nat) :
    (entries (finishRm s name i).fs).Sublist (entries s.fs) := by
  rw [finishRm_fs]
  by_cases hbad : BadInode (s.fs.files i).inode
  · rw [fsDeleteFile]
    rw [if_pos hbad]
  · rw [(fsDeleteFile_erased hbad).2.entries]
    exact List.eraseP_sublist

/-- The table only loses entries, through calls and rounds alike. -/
theorem RmRun.sublist {task : RmTask} {s s' : KernelState} (h : RmRun task s s') :
    (entries s'.fs).Sublist (entries s.fs) := by
  induction h with
  | missing | refused | done => exact .refl _
  | regular => exact finishRm_sublist _ _ _
  | dir hfind htype hchildren ih => exact (finishRm_sublist _ _ _).trans ih
  | child hj hparent hcall hrest ihCall ihRest => exact ihRest.trans ihCall
  | other hj hparent hrest ih => exact ih

/-! ## The subtree -/

/-- `e` is `D` or below it. -/
def InSubtree (fs : Bkfs) (D e : File) : Prop := e.inode ≠ 0 ∧ Descends fs e.inode D.inode

open Classical in
/-- `s'` is `s` without `D` and what is below it: those entries are gone, in
order, their inodes are zero and counted as free, and no other file's inode or
blocks have changed. -/
structure SubtreeRemoved (s s' : KernelState) (D : File) : Prop where
  removed : entries s'.fs = (entries s.fs).filter fun e => ¬ InSubtree s.fs D e
  released : ∀ e ∈ entries s.fs, InSubtree s.fs D e → s'.fs.inodes (e.inode - 1) = .zero
  counted : s'.fs.freeInodes
    = uint32 (s.fs.freeInodes + ((entries s.fs).filter fun e => InSubtree s.fs D e).length)
  kept : ∀ e ∈ liveEntries s.fs, ¬ InSubtree s.fs D e →
    s'.fs.inodes (e.inode - 1) = s.fs.inodes (e.inode - 1) ∧
      ∀ b ∈ (s.fs.inodes (e.inode - 1)).blockList, s'.fs.blocks b = s.fs.blocks b

/-- `rm -rf` of the name of `D` ends, and removes `D` with all that is below it
and nothing else. -/
def RmCorrect (s : KernelState) (D : File) : Prop :=
  ∃ fuel s', executeRm fuel s (.buffer D.name) true = some s' ∧ SubtreeRemoved s s' D

/-- `D` is the entry its name finds in the current directory, and nothing is in
`D`. -/
structure EmptyTarget (fs : Bkfs) (D : File) : Prop where
  found : ∃ i, findInCurrentDir fs D.name = some i ∧ fs.files i = D
  empty : ∀ c ∈ entries fs, c.parentInode ≠ D.inode

/-- The first entry of that name in the working directory. -/
theorem findInCurrentDir_eq_some_iff {fs : Bkfs} {name : CString} {i : Nat} :
    findInCurrentDir fs name = some i ↔
      i < fs.fileCount ∧ ((fs.files i).parentInode = fs.currentInode ∧ (fs.files i).name = name) ∧
        ∀ j < i, ¬ ((fs.files j).parentInode = fs.currentInode ∧ (fs.files j).name = name) := by
  rw [findInCurrentDir]
  rw [firstIndex_eq_some_iff]
  simp only [Bool.and_eq_true, Bool.and_eq_false_iff, beq_iff_eq, beq_eq_false_iff_ne,
    strcmp_eq_zero_iff, ne_eq, Classical.not_and_iff_not_or_not]

theorem files_mem_entries {fs : Bkfs} {i : Nat} (hi : i < fs.fileCount) :
    fs.files i ∈ entries fs := mem_entries.mpr ⟨i, hi, rfl⟩

namespace DirTree

variable {fs fs' : Bkfs} {e G D : File}

/-- Entries of the current directory are live where that directory is. -/
theorem live_of_parent (h : DirTree fs) (he : e ∈ entries fs) (hne : e.parentInode ≠ 0) :
    e ∈ liveEntries fs := by
  refine mem_liveEntries.mpr ⟨he, fun hzero => hne ?_⟩
  rw [h.blank e he hzero]
  rfl

theorem live_of_dir (h : DirTree fs) (he : e ∈ entries fs) (htype : e.type = fileDir) :
    e ∈ liveEntries fs := by
  refine mem_liveEntries.mpr ⟨he, fun hzero => ?_⟩
  rw [h.blank e he hzero] at htype
  exact absurd htype (by decide)

theorem parent_ne_zero (h : DirTree fs) (he : e ∈ liveEntries fs) : e.parentInode ≠ 0 := by
  obtain ⟨d, hd, hinode, -⟩ := h.parentDir e he
  rw [← hinode]
  exact (mem_liveEntries.mp hd).2

/-- One entry at most carries an inode number other than 0. -/
theorem countP_inode_le_one (h : DirTree fs) {n : Nat} (hn : n ≠ 0) :
    ((entries fs).countP fun e => e.inode == n) ≤ 1 := by
  have hlive := countP_key_le_one File.inode n h.nodup
  rw [liveEntries] at hlive
  rwa [List.countP_filter, EntriesInv.live_test hn] at hlive

/-- A deletion of a live entry takes that entry and no other. -/
theorem entries_erased (h : DirTree fs) (hG : G ∈ liveEntries fs) (hdel : Erased fs fs' G.inode) :
    entries fs' = (entries fs).filter fun e => !(e.inode == G.inode) := by
  rw [hdel.entries]
  exact eraseP_eq_filter_not (h.countP_inode_le_one (mem_liveEntries.mp hG).2)

/-- An entry that is erased is gone, since its number is its own. -/
theorem not_mem_erased (h : DirTree fs) (hG : G ∈ liveEntries fs) (hdel : Erased fs fs' G.inode) :
    G ∉ entries fs' := by
  rw [h.entries_erased hG hdel, List.mem_filter]
  simp

/-- What is in the directory of `D` beside `D` is not below `D`, unless `D` is
the root. -/
theorem not_inSubtree_of_sibling (h : DirTree fs) (hD : D ∈ liveEntries fs) (hroot : D.inode ≠ 1)
    (hG : G ∈ liveEntries fs) (hparent : G.parentInode = D.parentInode) (hne : G ≠ D) :
    ¬ InSubtree fs D G := by
  rintro ⟨-, hbelow⟩
  have hstep : ParentOf fs D.inode D.parentInode := ⟨D, hD, rfl, rfl⟩
  rcases ReflTransGen.cases_head hbelow with heq | ⟨p, hp, hpD⟩
  · exact hne (h.eq_of_inode hG hD heq)
  · -- the directory of both descends from `D`, so `D` is on a cycle
    obtain rfl : D.parentInode = p := h.parentOf_unique ⟨G, hG, rfl, hparent⟩ hp
    have hcycle : TransGen (ParentOf fs) D.inode D.inode := .head' hstep hpD
    exact hroot (eq_root_of_cycle h.parentOf_unique h.root (h.rooted D hD) hcycle)

/-- Below an empty directory there is only the directory. -/
theorem inSubtree_iff_of_empty (hD : D ∈ liveEntries fs)
    (hempty : ∀ c ∈ entries fs, c.parentInode ≠ D.inode) :
    InSubtree fs D e ↔ e.inode = D.inode := by
  have hleaf : ∀ m, ¬ ParentOf fs m D.inode := by
    rintro m ⟨c, hc, -, hp⟩
    exact hempty c (mem_liveEntries.mp hc).1 hp
  constructor
  · rintro ⟨-, hbelow⟩
    exact eq_of_descends_leaf hleaf hbelow
  · intro heq
    refine ⟨?_, ?_⟩
    · rw [heq]
      exact (mem_liveEntries.mp hD).2
    · rw [heq]

open Classical in
/-- Deleting an entry with nothing in it removes its subtree. -/
theorem subtreeRemoved (h : DirTree fs) {s s' : KernelState} (hfs : s.fs = fs)
    (hD : D ∈ liveEntries fs) (hempty : ∀ c ∈ entries fs, c.parentInode ≠ D.inode)
    (hdel : Erased fs s'.fs D.inode) : SubtreeRemoved s s' D := by
  subst hfs
  have hiff : ∀ e, InSubtree s.fs D e ↔ e.inode = D.inode :=
    fun e => inSubtree_iff_of_empty hD hempty
  have hne := (mem_liveEntries.mp hD).2
  refine ⟨?_, ?_, ?_, ?_⟩
  · rw [h.entries_erased hD hdel]
    refine List.filter_congr fun e _ => ?_
    by_cases he : e.inode = D.inode
    · simp [hiff, he]
    · simp [hiff, he]
  · intro e _ he
    rw [hdel.inodes, (hiff e).mp he, Function.update_self]
  · -- one entry, one inode
    have hpos : 0 < (entries s.fs).countP fun e => e.inode == D.inode :=
      List.countP_pos_iff.mpr ⟨D, (mem_liveEntries.mp hD).1, beq_self_eq_true _⟩
    have hcount := h.countP_inode_le_one hne
    have hlength : ((entries s.fs).filter fun e => InSubtree s.fs D e).length
        = (entries s.fs).countP fun e => e.inode == D.inode := by
      rw [List.countP_eq_length_filter]
      congr 1
      refine List.filter_congr fun e _ => ?_
      by_cases he : e.inode = D.inode
      · simp [hiff, he]
      · simp [hiff, he]
    rw [hdel.freeInodes, hlength]
    congr 2
    omega
  · -- the others have other slots
    intro e he hout
    have hslot : e.inode - 1 ≠ D.inode - 1 := by
      have := (mem_liveEntries.mp he).2
      have : e.inode ≠ D.inode := fun heq => hout ((hiff e).mpr heq)
      omega
    constructor
    · rw [hdel.inodes, Function.update_of_ne hslot]
    · intro b _
      rw [hdel.blocks]

end DirTree

/-! ## When removal is right -/

/-- **An empty directory is removed, and nothing else.** -/
theorem rmCorrect_of_empty {s : KernelState} {D : File} (h : DirTree s.fs) (hD : D ∈ entries s.fs)
    (hdir : D.type = fileDir) (htarget : EmptyTarget s.fs D) : RmCorrect s D := by
  have hlive := h.live_of_dir hD hdir
  obtain ⟨i, hfind, hi⟩ := htarget.found
  have hnone : ∀ j < s.fs.fileCount, (s.fs.files j).parentInode ≠ (s.fs.files i).inode := by
    intro j hj
    rw [hi]
    exact htarget.empty _ (files_mem_entries hj)
  have hdel : Erased s.fs (finishRm s (.buffer D.name) i).fs D.inode := by
    rw [finishRm_fs, hi]
    exact (fsDeleteFile_erased (h.not_bad hlive)).2
  exact ⟨s.fs.fileCount + 2, finishRm s (.buffer D.name) i, executeRm_childless hfind hnone,
    h.subtreeRemoved rfl hlive htarget.empty hdel⟩

/-- A call whose name finds an entry with nothing in it takes exactly that entry. -/
theorem finishRm_takes {fs : Bkfs} (h : DirTree fs) {s : KernelState} (hfs : s.fs = fs)
    {name : NamePtr} {i : Nat} (hlive : fs.files i ∈ liveEntries fs) :
    fs.files i ∉ entries (finishRm s name i).fs := by
  subst hfs
  rw [finishRm_fs]
  exact h.not_mem_erased hlive (fsDeleteFile_erased (h.not_bad hlive)).2

/-- The task has something to take in the tables `fs`. -/
def RmTask.Meets (fs : Bkfs) : RmTask → Prop
  | .call name recursive =>
    recursive = true ∧ ∃ i, findInCurrentDir fs (name.deref fs) = some i
  | .children dirInode j => ∃ k, j ≤ k ∧ k < fs.fileCount ∧ (fs.files k).parentInode = dirInode

/-- An entry in the directory of `D`, other than `D`, is gone. -/
def Spilled (fs : Bkfs) (D : File) (s' : KernelState) : Prop :=
  ∃ G ∈ entries fs, G.parentInode = D.parentInode ∧ G ≠ D ∧ G ∉ entries s'.fs

theorem Spilled.mono {fs : Bkfs} {D : File} {s₁ s' : KernelState} (h : Spilled fs D s₁)
    (hsub : (entries s'.fs).Sublist (entries s₁.fs)) : Spilled fs D s' := by
  obtain ⟨G, hG, hparent, hne, hgone⟩ := h
  exact ⟨G, hG, hparent, hne, fun hback => hgone (hsub.subset hback)⟩

section Spills

variable {fs : Bkfs} {D : File} {s : KernelState} {name : NamePtr} {i : Nat}

/-- A found entry that is not `D` is taken by the end of the call. -/
theorem spilled_finishRm (h : DirTree fs) (hD : D ∈ liveEntries fs)
    (hcur : D.parentInode = fs.currentInode) (hfs : s.fs = fs)
    (hfind : findInCurrentDir fs (name.deref fs) = some i) (hne : fs.files i ≠ D) :
    Spilled fs D (finishRm s name i) := by
  obtain ⟨hi, ⟨hparent, -⟩, -⟩ := findInCurrentDir_eq_some_iff.mp hfind
  rw [← hcur] at hparent
  have hlive : fs.files i ∈ liveEntries fs := by
    refine h.live_of_parent (files_mem_entries hi) ?_
    rw [hparent]
    exact h.parent_ne_zero hD
  exact ⟨fs.files i, files_mem_entries hi, hparent, hne, finishRm_takes h hfs hlive⟩

/-- `D` itself, with nothing in it, would be the target after all. -/
theorem found_ne (hnot : ¬ EmptyTarget fs D)
    (hfind : findInCurrentDir fs (name.deref fs) = some i)
    (hnone : ∀ k < fs.fileCount, (fs.files k).parentInode ≠ (fs.files i).inode) :
    fs.files i ≠ D := by
  obtain ⟨-, ⟨-, hname⟩, -⟩ := findInCurrentDir_eq_some_iff.mp hfind
  intro heq
  refine hnot ⟨⟨i, ?_, heq⟩, ?_⟩
  · rw [← heq, hname]
    exact hfind
  · intro c hc
    obtain ⟨k, hk, rfl⟩ := mem_entries.mp hc
    rw [← heq]
    exact hnone k hk

end Spills

/-- **What `rm -rf` takes where it is wrong.** When `D` has something in it, or
another entry has its name first, every call and every loop that ends has taken
an entry of the current directory that is not `D`. -/
theorem rm_spills {fs : Bkfs} (h : DirTree fs) {D : File} (hD : D ∈ entries fs)
    (hdir : D.type = fileDir) (hcur : D.parentInode = fs.currentInode)
    (hnot : ¬ EmptyTarget fs D) {task : RmTask} {s s' : KernelState} (hrun : RmRun task s s')
    (hfs : s.fs = fs) (hmeets : task.Meets fs) : Spilled fs D s' := by
  have hlive := h.live_of_dir hD hdir
  induction hrun with
  | missing hfind =>
    subst hfs
    obtain ⟨-, i, hi⟩ := hmeets
    cases hfind.symm.trans hi
  | @regular s name recursive i hfind htype =>
    subst hfs
    refine spilled_finishRm h hlive hcur rfl hfind fun heq => htype ?_
    rw [heq]
    exact hdir
  | refused => exact absurd hmeets.1 Bool.false_ne_true
  | @dir s s₁ name i hfind htype hchildren ih =>
    subst hfs
    by_cases hchild : (RmTask.children (s.fs.files i).inode 0).Meets s.fs
    · -- the loop has already taken one, and the end takes nothing back
      exact (ih rfl hchild).mono (finishRm_sublist s₁ name i)
    · have hnone : ∀ k < s.fs.fileCount, (s.fs.files k).parentInode ≠ (s.fs.files i).inode :=
        fun k hk heq => hchild ⟨k, Nat.zero_le k, hk, heq⟩
      cases hchildren.idle hnone
      exact spilled_finishRm h hlive hcur rfl hfind (found_ne hnot hfind hnone)
  | @child s s₁ s' dirInode j hj hparent hcall hrest ihCall ihRest =>
    subst hfs
    cases hfind : findInCurrentDir s.fs ((NamePtr.entry j).deref s.fs) with
    | none =>
      -- nothing was found, nothing has changed, and the same child is next
      cases hcall with
      | missing => exact ihRest rfl hmeets
      | regular hfound | dir hfound => cases hfind.symm.trans hfound
    | some i => exact (ihCall rfl ⟨rfl, i, hfind⟩).mono hrest.sublist
  | @other s s' dirInode j hj hparent hrest ih =>
    subst hfs
    obtain ⟨k, hjk, hk, hkparent⟩ := hmeets
    have hne : j ≠ k := by
      rintro rfl
      exact hparent hkparent
    exact ih rfl ⟨k, by omega, hk, hkparent⟩
  | done hj =>
    subst hfs
    obtain ⟨k, hjk, hk, -⟩ := hmeets
    omega

/-- The entry of inode 1 is its own first child where it comes first, so its
removal calls itself for ever. -/
theorem rm_root_never {fs : Bkfs} (hcur : fs.currentInode = 1) {i : Nat} (hi : i < fs.fileCount)
    (hinode : (fs.files i).inode = 1) (hparent : (fs.files i).parentInode = 1)
    (hdir : (fs.files i).type = fileDir) (hfirst : ∀ j < i, (fs.files j).parentInode ≠ 1)
    (fuel : Nat) :
    (∀ s name, s.fs = fs → name.deref fs = (fs.files i).name →
      executeRm fuel s name true = none) ∧
    (∀ s j, s.fs = fs → j ≤ i → rmChildren fuel s 1 j = none) := by
  -- both calls at once: each asks the other for the same child again
  induction fuel with
  | zero =>
    constructor
    · exact fun s name _ _ => by rw [executeRm]
    · exact fun s j _ _ => by rw [rmChildren]
  | succ fuel ih =>
    obtain ⟨ihCall, ihLoop⟩ := ih
    constructor
    · intro s name hfs hname
      have hfind : findInCurrentDir s.fs (name.deref s.fs) = some i := by
        rw [hfs, hname, findInCurrentDir_eq_some_iff, hcur]
        exact ⟨hi, ⟨hparent, rfl⟩, fun j hj hmatch => hfirst j hj hmatch.1⟩
      rw [executeRm_dir hfind (by rw [hfs]; exact hdir), hfs, hinode, ihLoop s 0 hfs (Nat.zero_le i)]
      rfl
    · intro s j hfs hj
      have hlt : j < s.fs.fileCount := by
        rw [hfs]
        omega
      by_cases hji : j = i
      -- the entry of the root is the first child of the root
      · subst hji
        rw [rmChildren_child hlt (by rw [hfs]; exact hparent), ihCall s _ hfs rfl]
        rfl
      · have hother : (s.fs.files j).parentInode ≠ 1 := by
          rw [hfs]
          exact hfirst j (by omega)
        rw [rmChildren_other hlt hother]
        exact ihLoop s (j + 1) hfs (by omega)

/-- The converse: where `rm -rf` is right, the directory was empty. A child would be
looked for in the wrong directory, and one that was found there is spilled or never
ends. -/
theorem emptyTarget_of_rmCorrect {s : KernelState} (h : DirTree s.fs) {i : Nat}
    (hi : i < s.fs.fileCount) (hdir : (s.fs.files i).type = fileDir)
    (hcur : (s.fs.files i).parentInode = s.fs.currentInode)
    (hroot : (s.fs.files i).inode = 1 → ∀ j < i, (s.fs.files j).parentInode ≠ 1)
    (hright : RmCorrect s (s.fs.files i)) : EmptyTarget s.fs (s.fs.files i) := by
  obtain ⟨fuel, s', hrun, hremoved⟩ := hright
  have hmem := files_mem_entries hi
  have hlive := h.live_of_dir hmem hdir
  by_contra hnot
  by_cases hone : (s.fs.files i).inode = 1
  · -- the root is its own child, and the call comes back to itself
    have hparent : (s.fs.files i).parentInode = 1 :=
      h.parentOf_unique ⟨_, hlive, hone, rfl⟩ h.root
    have hnever := (rm_root_never (hcur.symm.trans hparent) hi hone hparent hdir (hroot hone) fuel).1
      s (.buffer (s.fs.files i).name) rfl rfl
    rw [hnever] at hrun
    cases hrun
  · obtain ⟨k, hfind, -⟩ := exists_firstIndex (p := fun k =>
        (s.fs.files k).parentInode == s.fs.currentInode
          && strcmp (s.fs.files k).name (s.fs.files i).name == 0)
      hi (by simp [hcur, strcmp_eq_zero_iff])
    obtain ⟨G, hG, hparent, hne, hgone⟩ :=
      rm_spills h hmem hdir hcur hnot (rmRun_of_executeRm hrun) rfl ⟨rfl, k, hfind⟩
    have hGlive : G ∈ liveEntries s.fs := by
      refine h.live_of_parent hG ?_
      rw [hparent]
      exact h.parent_ne_zero hlive
    -- `G` is outside the subtree, so it should still be there
    refine hgone ?_
    rw [hremoved.removed, List.mem_filter]
    exact ⟨hG, by simpa using h.not_inSubtree_of_sibling hlive hone hGlive hparent hne⟩

/-- **When `rm -rf` of a directory is right.** The first half needs nothing but
the tree. The second leaves out one corner: `rm -rf` of the entry of inode 1 in
a table where another entry of `/` comes before it. -/
theorem rmCorrect_iff {s : KernelState} (h : DirTree s.fs) {i : Nat} (hi : i < s.fs.fileCount)
    (hdir : (s.fs.files i).type = fileDir)
    (hcur : (s.fs.files i).parentInode = s.fs.currentInode) :
    (EmptyTarget s.fs (s.fs.files i) → RmCorrect s (s.fs.files i)) ∧
      (((s.fs.files i).inode = 1 → ∀ j < i, (s.fs.files j).parentInode ≠ 1) →
        (RmCorrect s (s.fs.files i) ↔ EmptyTarget s.fs (s.fs.files i))) := by
  have hempty : EmptyTarget s.fs (s.fs.files i) → RmCorrect s (s.fs.files i) :=
    rmCorrect_of_empty h (files_mem_entries hi) hdir
  exact ⟨hempty, fun hroot => ⟨emptyTarget_of_rmCorrect h hi hdir hcur hroot, hempty⟩⟩

/-- `/etc` has nothing in it after boot. -/
theorem rmCorrect_kernelMain_etc :
    (kernelMain.fs.files 7).name = "etc" ∧ RmCorrect kernelMain (kernelMain.fs.files 7) := by
  have hetc : (kernelMain.fs.files 7).name = "etc" ∧ 7 < kernelMain.fs.fileCount ∧
      (kernelMain.fs.files 7).type = fileDir ∧
      (kernelMain.fs.files 7).parentInode = kernelMain.fs.currentInode ∧
      findInCurrentDir kernelMain.fs (kernelMain.fs.files 7).name = some 7 ∧
      ∀ c ∈ entries kernelMain.fs, c.parentInode ≠ (kernelMain.fs.files 7).inode := by
    decide +kernel
  obtain ⟨hname, hi, hdir, hcur, hfound, hempty⟩ := hetc
  exact ⟨hname, (rmCorrect_iff dirTree_kernelMain hi hdir hcur).1 ⟨⟨7, hfound, rfl⟩, hempty⟩⟩

/-- `rm -rf dev` right after boot. -/
theorem not_rmCorrect_kernelMain_dev :
    DirTree kernelMain.fs ∧ 9 < kernelMain.fs.fileCount ∧ (kernelMain.fs.files 9).name = "dev" ∧
      (kernelMain.fs.files 9).type = fileDir ∧
      (kernelMain.fs.files 9).parentInode = kernelMain.fs.currentInode ∧
      ¬ RmCorrect kernelMain (kernelMain.fs.files 9) := by
  have hdev : 9 < kernelMain.fs.fileCount ∧ (kernelMain.fs.files 9).name = "dev" ∧
      (kernelMain.fs.files 9).type = fileDir ∧
      (kernelMain.fs.files 9).parentInode = kernelMain.fs.currentInode ∧
      (kernelMain.fs.files 9).inode ≠ 1 ∧
      ∃ c ∈ entries kernelMain.fs, c.parentInode = (kernelMain.fs.files 9).inode := by
    decide +kernel
  obtain ⟨hi, hname, hdir, hcur, hroot, c, hc, hparent⟩ := hdev
  refine ⟨dirTree_kernelMain, hi, hname, hdir, hcur, fun hright => ?_⟩
  -- the device files are in it
  exact (emptyTarget_of_rmCorrect dirTree_kernelMain hi hdir hcur
    (fun hone => absurd hone hroot) hright).empty c hc hparent

end Srunix
