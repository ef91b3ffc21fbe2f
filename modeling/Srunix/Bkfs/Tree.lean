import Srunix.Bkfs.Entries
import Srunix.Library.Forest

/-!
# The directory tree

Entries name the inode of their directory; the forest of `Library/Forest.lean`
that this makes is meant to be one tree under inode 1, whose entry is its own
parent. `DirTree` says so. It survives a new entry in a live directory
(`DirTree.insert`) and the removal of an entry that nothing is in
(`DirTree.remove`); nothing in bkFS checks either.
-/

namespace Srunix

open Library Relation

/-- `p` is the directory of the entry of inode `n`. -/
def ParentOf (fs : Bkfs) (n p : Nat) : Prop :=
  ∃ e ∈ liveEntries fs, e.inode = n ∧ e.parentInode = p

instance (fs : Bkfs) (n p : Nat) : Decidable (ParentOf fs n p) :=
  inferInstanceAs (Decidable (∃ e ∈ liveEntries fs, _))

/-- `n` is `d` or somewhere below it. -/
abbrev Descends (fs : Bkfs) (n d : Nat) : Prop := ReflTransGen (ParentOf fs) n d

/-- `n` is the inode of an entry of type `FILE_DIR`. -/
def LiveDir (fs : Bkfs) (n : Nat) : Prop :=
  ∃ e ∈ liveEntries fs, e.inode = n ∧ e.type = fileDir

instance (fs : Bkfs) (n : Nat) : Decidable (LiveDir fs n) :=
  inferInstanceAs (Decidable (∃ e ∈ liveEntries fs, _))

/-- Where no inode number is used twice, the scan for one finds its entry. -/
theorem firstIndex_inode {fs : Bkfs} (hnodup : ((liveEntries fs).map File.inode).Nodup) {e : File}
    (he : e ∈ liveEntries fs) :
    ∃ i, firstIndex fs.fileCount (fun i => (fs.files i).inode == e.inode) = some i ∧
      fs.files i = e := by
  obtain ⟨k, hk, hke⟩ := mem_entries.mp (mem_liveEntries.mp he).1
  obtain ⟨i, hscan, -⟩ := exists_firstIndex (p := fun i => (fs.files i).inode == e.inode) hk
    (by rw [hke]; exact beq_self_eq_true _)
  obtain ⟨hi, hp, -⟩ := firstIndex_eq_some_iff.mp hscan
  have hp : (fs.files i).inode = e.inode := by simpa using hp
  have hlive : fs.files i ∈ liveEntries fs := by
    refine mem_liveEntries.mpr ⟨mem_entries.mpr ⟨i, hi, rfl⟩, ?_⟩
    rw [hp]
    exact (mem_liveEntries.mp he).2
  exact ⟨i, hscan, List.inj_on_of_nodup_map hnodup hlive he hp⟩

/-- The entries that are not blank form a tree under inode 1. -/
structure DirTree (fs : Bkfs) : Prop where
  blank : ∀ e ∈ entries fs, e.inode = 0 → e = .blank
  inode_le : ∀ e ∈ liveEntries fs, e.inode ≤ maxInodes
  nodup : ((liveEntries fs).map File.inode).Nodup
  parentDir : ∀ e ∈ liveEntries fs, LiveDir fs e.parentInode
  root : ParentOf fs 1 1
  rooted : ∀ e ∈ liveEntries fs, Descends fs e.inode 1

namespace DirTree

variable {fs fs' : Bkfs}

theorem eq_of_inode (h : DirTree fs) {e e' : File} (he : e ∈ liveEntries fs)
    (he' : e' ∈ liveEntries fs) (heq : e.inode = e'.inode) : e = e' :=
  List.inj_on_of_nodup_map h.nodup he he' heq

/-- Parents are unique. -/
theorem parentOf_unique (h : DirTree fs) : Relator.RightUnique (ParentOf fs) := by
  rintro n p q ⟨e, he, rfl, rfl⟩ ⟨e', he', heq, rfl⟩
  rw [h.eq_of_inode he' he heq]

theorem not_bad (h : DirTree fs) {e : File} (he : e ∈ liveEntries fs) : ¬ BadInode e.inode := by
  have hle := h.inode_le e he
  have hne := (mem_liveEntries.mp he).2
  rw [BadInode]
  omega

/-- A directory found among the entries by number is the entry it was made by. -/
theorem liveDir_iff (h : DirTree fs) {e : File} (he : e ∈ liveEntries fs) :
    LiveDir fs e.inode ↔ e.type = fileDir := by
  constructor
  · rintro ⟨d, hd, hinode, htype⟩
    rwa [← h.eq_of_inode hd he hinode]
  · exact fun htype => ⟨e, he, rfl, htype⟩

/-- Nothing is in a file that is not a directory. -/
theorem leaf_of_regular (h : DirTree fs) {e : File} (he : e ∈ liveEntries fs)
    (htype : e.type ≠ fileDir) : ∀ c ∈ liveEntries fs, c.parentInode ≠ e.inode := by
  intro c hc heq
  have hdir := h.parentDir c hc
  rw [heq] at hdir
  exact htype ((h.liveDir_iff he).mp hdir)

/-- The root is its own parent, so it is no leaf. -/
theorem root_ne_of_leaf (h : DirTree fs) {n : Nat}
    (hleaf : ∀ c ∈ liveEntries fs, c.parentInode ≠ n) : n ≠ 1 := by
  rintro rfl
  obtain ⟨e, he, -, hparent⟩ := h.root
  exact hleaf e he hparent

/-- The invariant reads the entry table only. -/
theorem congr (h : DirTree fs) (hfiles : fs'.files = fs.files)
    (hcount : fs'.fileCount = fs.fileCount) : DirTree fs' := by
  have hentries : entries fs' = entries fs := by
    unfold entries
    rw [hfiles, hcount]
  have hlive : liveEntries fs' = liveEntries fs := by
    unfold liveEntries
    rw [hentries]
  have hparent : ParentOf fs' = ParentOf fs := by
    unfold ParentOf
    rw [hlive]
  -- every part reads the live entries or their parents only
  refine ⟨?_, ?_, ?_, ?_, ?_, ?_⟩
  · rw [hentries]
    exact h.blank
  · rw [hlive]
    exact h.inode_le
  · rw [hlive]
    exact h.nodup
  · unfold LiveDir
    rw [hlive]
    exact h.parentDir
  · rw [hparent]
    exact h.root
  · rw [hlive]
    unfold Descends
    rw [hparent]
    exact h.rooted

/-- **A new entry in a live directory.** -/
theorem insert (h : DirTree fs) {e : File} (hentries : entries fs' = entries fs ++ [e])
    (hne : e.inode ≠ 0) (hle : e.inode ≤ maxInodes) (hfresh : ¬ LiveInode fs e.inode)
    (hdir : LiveDir fs e.parentInode) : DirTree fs' := by
  have hlive : liveEntries fs' = liveEntries fs ++ [e] := by
    unfold liveEntries
    rw [hentries, List.filter_append]
    simp [hne]
  have hsub : ∀ {c}, c ∈ liveEntries fs → c ∈ liveEntries fs' := by
    intro c hc
    rw [hlive]
    exact List.mem_append_left _ hc
  have hcases : ∀ {c}, c ∈ liveEntries fs' → c ∈ liveEntries fs ∨ c = e := by
    intro c hc
    rw [hlive] at hc
    simpa using hc
  have hparent : ∀ n p, ParentOf fs n p → ParentOf fs' n p :=
    fun n p ⟨c, hc, hn, hp⟩ => ⟨c, hsub hc, hn, hp⟩
  have hdir' : ∀ {n}, LiveDir fs n → LiveDir fs' n := fun ⟨c, hc, hn, ht⟩ => ⟨c, hsub hc, hn, ht⟩
  refine ⟨?_, ?_, ?_, ?_, hparent _ _ h.root, ?_⟩
  · intro c hc hzero
    rw [hentries] at hc
    rcases List.mem_append.mp hc with hc | hc
    · exact h.blank c hc hzero
    · rw [List.mem_singleton.mp hc] at hzero
      exact absurd hzero hne
  · intro c hc
    rcases hcases hc with hc | rfl
    · exact h.inode_le c hc
    · exact hle
  · -- the number was not in use
    rw [hlive, List.map_append, List.nodup_append]
    refine ⟨h.nodup, List.nodup_singleton _, ?_⟩
    intro n hn m hm heq
    obtain ⟨c, hc, rfl⟩ := List.mem_map.mp hn
    obtain rfl : m = e.inode := by simpa using hm
    exact hfresh (liveInode_iff.mpr ⟨c, hc, heq⟩)
  · intro c hc
    rcases hcases hc with hc | rfl
    · exact hdir' (h.parentDir c hc)
    · exact hdir' hdir
  · intro c hc
    rcases hcases hc with hc | rfl
    · exact ReflTransGen.mono hparent _ _ (h.rooted c hc)
    · -- up to the directory, and then as from there
      obtain ⟨d, hd, hinode, -⟩ := hdir
      have hd1 : Descends fs' d.inode 1 := ReflTransGen.mono hparent _ _ (h.rooted d hd)
      rw [hinode] at hd1
      exact .head ⟨c, hc, rfl, rfl⟩ hd1

/-- **Removal of an entry that nothing is in.** -/
theorem remove (h : DirTree fs) {n : Nat} (hsub : (entries fs').Sublist (entries fs))
    (hlive : liveEntries fs' = (liveEntries fs).filter fun e => e.inode ≠ n)
    (hleaf : ∀ c ∈ liveEntries fs, c.parentInode ≠ n) : DirTree fs' := by
  have hkept : ∀ {c}, c ∈ liveEntries fs' ↔ c ∈ liveEntries fs ∧ c.inode ≠ n := by
    intro c
    rw [hlive, List.mem_filter, decide_eq_true_eq]
  have hparent : ∀ {a b}, ParentOf fs a b → a ≠ n → ParentOf fs' a b := by
    rintro a b ⟨c, hc, rfl, rfl⟩ hne
    exact ⟨c, hkept.mpr ⟨hc, hne⟩, rfl, rfl⟩
  have hleaf' : ∀ m, ¬ ParentOf fs m n := fun m ⟨c, hc, _, hp⟩ => hleaf c hc hp
  refine ⟨fun c hc => h.blank c (hsub.subset hc), fun c hc => h.inode_le c (hkept.mp hc).1, ?_, ?_,
    hparent h.root (h.root_ne_of_leaf hleaf).symm, ?_⟩
  · rw [hlive]
    exact h.nodup.sublist (List.filter_sublist.map _)
  · intro c hc
    obtain ⟨hc, -⟩ := hkept.mp hc
    obtain ⟨d, hd, hinode, htype⟩ := h.parentDir c hc
    refine ⟨d, hkept.mpr ⟨hd, ?_⟩, hinode, htype⟩
    rw [hinode]
    exact hleaf c hc
  -- the chain of parents up to the root does not go through a leaf
  · intro c hc
    obtain ⟨hc, hne⟩ := hkept.mp hc
    exact descends_of_remove_leaf hleaf' hparent (h.rooted c hc) hne

end DirTree

/-- The boot entries are in `/` or in a directory that is. -/
theorem entries_kernelMain :
    ParentOf kernelMain.fs 1 1 ∧ (∀ e ∈ entries kernelMain.fs, e.inode = 0 → e = .blank) ∧
      ∀ e ∈ liveEntries kernelMain.fs, e.inode ≤ maxInodes ∧ LiveDir kernelMain.fs e.parentInode ∧
        ParentOf kernelMain.fs e.inode e.parentInode ∧ ParentOf kernelMain.fs e.parentInode 1 := by
  decide +kernel

theorem dirTree_kernelMain : DirTree kernelMain.fs := by
  obtain ⟨hroot, hblank, hlive⟩ := entries_kernelMain
  refine ⟨hblank, fun e he => (hlive e he).1, entriesInv_kernelMain.nodup,
    fun e he => (hlive e he).2.1, hroot, fun e he => ?_⟩
  obtain ⟨-, -, hparent, hgrand⟩ := hlive e he
  exact .head hparent (.single hgrand)

end Srunix
