import Srunix.Bkfs.Copy
import Srunix.Bkfs.Ownership

/-!
# bkFS as a store

What the file system is for: a partial map from inode numbers to contents.
`StoreStep` says what each call does to that map and `Refines` when a state of
the file system stands for a map. `refines_of_run` is the refinement theorem:
every history in which writes succeed and live inodes are named is a history of
the store, and `fs_read_file` returns what the store has.

The block lists, the bitmap and the byte cells appear in `Refines` only through
`Holds`; which block a byte went to is nobody's business above this file.
-/

namespace Srunix

open Library

/-! ## The store -/

/-- The contents of the live inodes. -/
abbrev Store := Nat → Option (List UInt8)

/-- What a call may do to the store. A creation is turned away or adds an empty
file under a new number; a write replaces the content whatever it was. -/
inductive StoreStep : Store → FsCall → Store → Prop where
  | refused {m : Store} {name : Name} {parent : Nat} {type : UInt8} :
      StoreStep m (.create name parent type) m
  | created {m : Store} {name : Name} {parent : Nat} {type : UInt8} {n : Nat} :
      m n = none → StoreStep m (.create name parent type) (Function.update m n (some []))
  | written {m : Store} {n size : Nat} {data : Nat → UInt8} :
      m n ≠ none → StoreStep m (.write n data size) (Function.update m n (some (table data size)))
  | read {m : Store} {n size : Nat} {buffer : Nat → UInt8} : StoreStep m (.read n buffer size) m
  | deleted {m : Store} {n : Nat} :
      m n ≠ none → StoreStep m (.delete n) (Function.update m n none)
  | chdir {m : Store} {n : Nat} : StoreStep m (.chdir n) m

/-- The calls of a history of the store: they name live inodes, write no more
than an inode can hold, and no write fails for want of a free block. -/
def StoreLegal (s : KernelState) (c : FsCall) : Prop :=
  match c with
  | .write n _ size =>
    LiveInode s.fs n ∧ size ≤ inodeDirectBlocks * blockSize ∧ (fsCall s c).1 = fsSuccess
  | .read n _ _ | .delete n => LiveInode s.fs n
  | .create .. | .chdir _ => True

/-! ## Which map a state stands for -/

/-- The bytes of inode slot `k` are `d`. -/
structure Holds (fs : Bkfs) (k : Nat) (d : List UInt8) : Prop where
  size : (fs.inodes k).size = d.length
  room : d.length ≤ (fs.inodes k).blocks * blockSize
  bytes : ∀ p < d.length, fileByte (fs.inodes k).block fs.blocks p = d.getD p 0

/-- The live inodes are those the store has, and they hold what it has. -/
structure Refines (fs : Bkfs) (m : Store) : Prop where
  live : ∀ n, LiveInode fs n ↔ m n ≠ none
  holds : ∀ n d, m n = some d → Holds fs (n - 1) d

/-- A content is that of an entry in use. -/
theorem Refines.live_of_some {fs : Bkfs} {m : Store} (h : Refines fs m) {n : Nat} {d : List UInt8}
    (hd : m n = some d) : LiveInode fs n :=
  (h.live n).mpr fun hnone => nomatch hnone.symm.trans hd

/-- The block behind a byte of the file is one the inode lists. -/
theorem block_mem_held {fs : Bkfs} {k p : Nat} {d : List UInt8} (h : Holds fs k d)
    (hp : p < d.length) : (fs.inodes k).block (p / blockSize) ∈ held fs k :=
  Inode.mem_blockList.mpr ⟨p / blockSize, Nat.div_lt_of_lt_mul (by
    rw [Nat.mul_comm]
    exact Nat.lt_of_lt_of_le hp h.room), rfl⟩

/-- A slot keeps its content when its record keeps size and blocks and the cells
of its blocks stay as they are. -/
theorem Holds.congr {fs fs' : Bkfs} {k : Nat} {d : List UInt8} (h : Holds fs k d)
    (hsize : (fs'.inodes k).size = (fs.inodes k).size)
    (hblocks : (fs'.inodes k).blocks = (fs.inodes k).blocks)
    (hblock : (fs'.inodes k).block = (fs.inodes k).block)
    (hcells : ∀ b ∈ held fs k, fs'.blocks b = fs.blocks b) : Holds fs' k d := by
  refine ⟨hsize.trans h.size, hblocks ▸ h.room, fun p hp => ?_⟩
  rw [hblock, ← h.bytes p hp]
  exact congrFun (hcells _ (block_mem_held h hp)) _

/-- Where inode and blocks are the same, the content is. -/
theorem Holds.of_inode_eq {fs fs' : Bkfs} {k : Nat} {d : List UInt8} (h : Holds fs k d)
    (hinode : fs'.inodes k = fs.inodes k) (hcells : ∀ b ∈ held fs k, fs'.blocks b = fs.blocks b) :
    Holds fs' k d :=
  h.congr (by rw [hinode]) (by rw [hinode]) (by rw [hinode]) hcells

/-! ## One call -/

section Step

variable {fs : Bkfs} {m : Store}

/-- The number of the new entry is in use, and no other is new. -/
theorem liveInode_created {i : Nat} {name : Name} {parent : Nat} {type : UInt8} {n : Nat} :
    LiveInode (created fs i name parent type) n ↔ LiveInode fs n ∨ n = i + 1 := by
  simp only [liveInode_iff, EntriesInv.liveEntries_created, List.mem_append, List.mem_singleton]
  constructor
  · rintro ⟨e, he | rfl, rfl⟩
    · exact .inl ⟨e, he, rfl⟩
    · exact .inr rfl
  · rintro (⟨e, he, rfl⟩ | rfl)
    · exact ⟨e, .inl he, rfl⟩
    · exact ⟨newEntry (i + 1) name parent type, .inr rfl, rfl⟩

theorem liveInode_deleted (hinv : EntriesInv fs) {n : Nat} (hn : n ≠ 0) {n' : Nat} :
    LiveInode (deleted fs n) n' ↔ LiveInode fs n' ∧ n' ≠ n := by
  simp only [liveInode_iff, hinv.liveEntries_deleted hn, List.mem_filter, decide_eq_true_eq]
  constructor
  · rintro ⟨e, ⟨he, hen⟩, rfl⟩
    exact ⟨⟨e, he, rfl⟩, hen⟩
  · rintro ⟨⟨e, he, rfl⟩, hen⟩
    exact ⟨e, ⟨he, hen⟩, rfl⟩

/-- Two live numbers have different slots. -/
theorem slot_ne {n n' : Nat} (hn : n ≠ 0) (hn' : n' ≠ 0) (hne : n' ≠ n) : n' - 1 ≠ n - 1 := by
  omega

theorem holds_created {fs : Bkfs} {i : Nat} {name : Name} {parent : Nat} {type : UInt8} :
    Holds (created fs i name parent type) i [] := by
  refine ⟨?_, Nat.zero_le _, fun p hp => nomatch hp⟩
  rw [created_inode_self]
  rfl

/-- A new file has no bytes, and its number had none. -/
theorem Refines.created (h : Refines fs m) (hinv : EntriesInv fs) {i : Nat}
    (hmode : (fs.inodes i).mode = 0) (name : Name) (parent : Nat) (type : UInt8) :
    m (i + 1) = none ∧
      Refines (created fs i name parent type) (Function.update m (i + 1) (some [])) := by
  have hfresh : ¬ LiveInode fs (i + 1) := fun hlive => hinv.live_iff.mp hlive hmode
  have hnone : m (i + 1) = none := Classical.not_not.mp fun hsome => hfresh ((h.live _).mpr hsome)
  refine ⟨hnone, fun n => ?_, fun n d hd => ?_⟩
  · rw [liveInode_created]
    by_cases hn : n = i + 1
    · subst hn
      rw [Function.update_self]
      exact iff_of_true (.inr rfl) (Option.some_ne_none _)
    · rw [Function.update_of_ne hn, or_iff_left hn]
      exact h.live n
  · by_cases hn : n = i + 1
    · subst hn
      rw [Function.update_self] at hd
      obtain rfl : [] = d := Option.some.inj hd
      exact holds_created
    · rw [Function.update_of_ne hn] at hd
      have hslot : n - 1 ≠ i := slot_ne (Nat.succ_ne_zero i) (h.live_of_some hd).1 hn
      exact (h.holds n d hd).of_inode_eq (created_inode_of_ne hslot) fun _ _ => rfl

/-- The blocks a write takes are no other inode's. -/
theorem not_mem_of_fresh (hblocks : BlocksInv fs) {k k' : Nat} (hk : k' ≠ k) {l : List Nat}
    (hl : FreshBlocks (released fs k) l) {b : Nat} (hb : b ∈ held fs k') : b ∉ l := by
  intro hbl
  have hexcl := hblocks.exclusive_released k
  have hused : (released fs k).blockUsed b = true :=
    hexcl.inUse (k := k') (by rwa [Function.update_of_ne hk])
  rw [(hl.fresh b hbl).2] at hused
  cases hused

/-- What a write stores can be read back from its blocks. -/
theorem holds_written {k size : Nat} {l : List Nat} (hl : FreshBlocks (released fs k) l)
    (hsize : size ≤ l.length * blockSize) (data : Nat → UInt8) :
    Holds (written fs k data size l) k (table data size) := by
  have hlen : (table data size).length = size := by simp [table]
  have hinode := written_inode_self fs k data size l
  have hlist : table (writtenInode fs k size l).block l.length = l := table_splice _ l
  have hinj : ∀ j j', j < l.length → j' < l.length →
      (writtenInode fs k size l).block j = (writtenInode fs k size l).block j' → j = j' :=
    fun j j' hj hj' => index_eq_of_nodup (by rw [hlist]; exact hl.nodup) hj hj'
  refine ⟨?_, ?_, fun p hp => ?_⟩
  · rw [hinode, hlen]
    rfl
  · rw [hinode, hlen]
    exact hsize
  · rw [hlen] at hp
    rw [hinode]
    show fileByte (writtenInode fs k size l).block
      (writeLoop (writtenInode fs k size l).block data fs.blocks 0 size l.length) p = _
    rw [fileByte_writeLoop hinj hsize hp]
    simp [table, hp]

/-- A write changes the content of its file and no other: the others hold other
blocks. -/
theorem Refines.written (h : Refines fs m) (hblocks : BlocksInv fs) {n size : Nat} {l : List Nat}
    (hlive : LiveInode fs n) (hl : FreshBlocks (released fs (n - 1)) l)
    (hsize : size ≤ l.length * blockSize) (data : Nat → UInt8) :
    Refines (written fs (n - 1) data size l) (Function.update m n (some (table data size))) := by
  have hsome : m n ≠ none := (h.live n).mp hlive
  refine ⟨fun n' => ?_, fun n' d hd => ?_⟩
  · show LiveInode fs n' ↔ _
    by_cases hn : n' = n
    · subst hn
      rw [Function.update_self]
      exact iff_of_true hlive (Option.some_ne_none _)
    · rw [Function.update_of_ne hn]
      exact h.live n'
  · by_cases hn : n' = n
    · subst hn
      rw [Function.update_self] at hd
      obtain rfl : table data size = d := Option.some.inj hd
      exact holds_written hl hsize data
    · rw [Function.update_of_ne hn] at hd
      have hslot : n' - 1 ≠ n - 1 := slot_ne hlive.1 (h.live_of_some hd).1 hn
      refine (h.holds n' d hd).of_inode_eq (written_inode_of_ne _ _ _ _ _ hslot) fun b hb => ?_
      -- the copy loop visits the blocks of `l` only
      refine writeLoop_of_ne fun j _ hj heq => not_mem_of_fresh hblocks hslot hl hb ?_
      have hlist := blockList_writtenInode fs (n - 1) size l
      rw [← hlist]
      exact Inode.mem_blockList.mpr ⟨j, by simpa [writtenInode] using hj, heq⟩

/-- A removal leaves the contents of the others. -/
theorem Refines.deleted (h : Refines fs m) (hinv : EntriesInv fs) {n : Nat}
    (hlive : LiveInode fs n) : Refines (deleted fs n) (Function.update m n none) := by
  refine ⟨fun n' => ?_, fun n' d hd => ?_⟩
  · rw [liveInode_deleted hinv hlive.1]
    by_cases hn : n' = n
    · subst hn
      rw [Function.update_self]
      exact iff_of_false (fun hdead => hdead.2 rfl) fun hsome => hsome rfl
    · rw [Function.update_of_ne hn, and_iff_left hn]
      exact h.live n'
  · by_cases hn : n' = n
    · subst hn
      rw [Function.update_self] at hd
      cases hd
    · rw [Function.update_of_ne hn] at hd
      have hslot : n' - 1 ≠ n - 1 := slot_ne hlive.1 (h.live_of_some hd).1 hn
      have hcells : (Srunix.deleted fs n).blocks = fs.blocks :=
        EntriesInv.removeEntry_blocks fs n
      exact (h.holds n' d hd).of_inode_eq (deleted_inode_of_ne hslot) fun b _ => by rw [hcells]

theorem Refines.accessed (h : Refines fs m) (n : Nat) : Refines (accessed fs n) m := by
  obtain ⟨inodes, heq, hsame⟩ := accessed_eq fs n
  rw [heq]
  refine ⟨h.live, fun n' d hd => ?_⟩
  obtain ⟨t, ht⟩ := hsame (n' - 1)
  have hinode : ({ fs with inodes := inodes } : Bkfs).inodes (n' - 1)
      = { fs.inodes (n' - 1) with atime := t } := ht
  exact (h.holds n' d hd).congr (by rw [hinode]) (by rw [hinode]) (by rw [hinode]) fun _ _ => rfl

end Step

/-- What the simulation carries from call to call. -/
structure StoreInv (fs : Bkfs) (m : Store) : Prop where
  wf : WellFormed fs
  entries : EntriesInv fs
  blocks : BlocksInv fs
  refines : Refines fs m

/-- **Each legal call is a step of the store.** -/
theorem StoreInv.step {s : KernelState} {c : FsCall} {m : Store} (h : StoreInv s.fs m)
    (hlegal : StoreLegal s c) : ∃ m', StoreStep m c m' ∧ StoreInv (fsCall s c).2.fs m' := by
  have hout := fsCall_outcome h.wf c
  have hwf' := wellFormed_fsCall h.wf c
  unfold StoreLegal at hlegal
  generalize (fsCall s c).1 = r at hout hlegal
  generalize (fsCall s c).2.fs = fs' at hout hwf' ⊢
  have hentries' := h.entries.step hout
  cases hout with
  | createRefused => exact ⟨m, .refused, h⟩
  | chdir =>
    refine ⟨m, .chdir, hwf', hentries', ⟨h.blocks.1, h.blocks.2⟩, h.refines.live, fun n d hd => ?_⟩
    exact (h.refines.holds n d hd).of_inode_eq rfl fun _ _ => rfl
  | created _ _ hmode =>
    obtain ⟨hnone, href⟩ := h.refines.created h.entries hmode ..
    exact ⟨_, .created hnone, hwf', hentries', h.blocks.created .., href⟩
  -- a legal write succeeds
  | writeRefused | writeFailed => exact absurd hlegal.2.2 (by decide)
  | @written n size data l _ hl hlen =>
    obtain ⟨hlive, hsize, -⟩ := hlegal
    have hroom : size ≤ l.length * blockSize := by
      rw [hlen]
      exact le_blocksNeeded hsize
    exact ⟨_, .written ((h.refines.live n).mp hlive), hwf', hentries', h.blocks.written hl ..,
      h.refines.written h.blocks hlive hl hroom data⟩
  | read => exact ⟨m, .read, hwf', hentries', h.blocks.accessed _, h.refines.accessed _⟩
  | deleteRefused hbad => exact absurd hbad (h.entries.not_bad h.wf hlegal)
  | @deleted n _ =>
    exact ⟨_, .deleted ((h.refines.live n).mp hlegal), hwf', hentries', h.blocks.deleted n,
      h.refines.deleted h.entries hlegal⟩

/-- Reading returns as much of the content as was asked for and there is, and
leaves the rest of the buffer alone. -/
theorem Holds.read {fs : Bkfs} (hwf : WellFormed fs) {n : Nat} (hn : ¬ BadInode n) {d : List UInt8}
    (h : Holds fs (n - 1) d) (buffer : Nat → UInt8) (size : Nat) :
    (fsReadFile fs n buffer size).1 = (min size d.length : Nat) ∧
      ∀ p, (fsReadFile fs n buffer size).2.1 p =
        if p < min size d.length then d.getD p 0 else buffer p := by
  obtain ⟨hret, hbuf⟩ := fsReadFile_eq hn buffer size
  rw [h.size] at hret hbuf
  have hsmall : d.length ≤ 12288 := by
    have hblocks := hwf.blocks_le (n - 1)
    have hroom := h.room
    simp only [blockSize, inodeDirectBlocks] at hblocks hroom
    omega
  refine ⟨hret.trans (toInt_of_lt (by omega)), fun p => ?_⟩
  have hroom := h.room
  rw [hbuf p, Nat.min_eq_left (Nat.le_trans (Nat.min_le_right _ _) hroom)]
  by_cases hp : p < min size d.length
  · rw [if_pos hp, if_pos hp]
    exact h.bytes p (by omega)
  · rw [if_neg hp, if_neg hp]

/-! ## Whole histories -/

/-- The store of the boot state: every file is empty. -/
def bootStore : Store := fun n => if LiveInode kernelMain.fs n then some [] else none

theorem storeInv_kernelMain : StoreInv kernelMain.fs bootStore := by
  -- nothing has been written yet
  let P : Bkfs → Prop := fun fs => ∀ k, (fs.inodes k).size = 0
  have hempty : P kernelMain.fs := by
    refine kernelMain_invariant (fun _ => rfl) fun {s name parent type} hwf h => ?_
    have hout := fsCall_outcome hwf (.create name parent type)
    generalize (fsCall s (.create name parent type)).1 = r at hout
    generalize (fsCall s (.create name parent type)).2.fs = fs' at hout ⊢
    cases hout with
    | createRefused => exact h
    | @created _ _ _ i _ _ _ =>
      intro k
      by_cases hk : k = i
      · rw [hk, created_inode_self]
        rfl
      · rw [created_inode_of_ne hk]
        exact h k
  refine ⟨wellFormed_kernelMain, entriesInv_kernelMain, blocksInv_kernelMain, fun n => ?_,
    fun n d hd => ?_⟩
  · rw [bootStore]
    by_cases hn : LiveInode kernelMain.fs n
    · rw [if_pos hn]
      exact iff_of_true hn (Option.some_ne_none _)
    · rw [if_neg hn]
      exact iff_of_false hn fun h => h rfl
  · rw [bootStore] at hd
    split at hd
    · obtain rfl : [] = d := Option.some.inj hd
      exact ⟨hempty (n - 1), Nat.zero_le _, fun p hp => nomatch hp⟩
    · cases hd

/-- **bkFS refines the store.** Every legal history from boot is a history of the
store; the live inodes afterwards are those the store has, and reading any of
them, any number of bytes into any buffer, returns what the store has there. -/
theorem refines_of_run {calls : List FsCall} {s : KernelState} (h : FsRun StoreLegal calls s) :
    ∃ m, Steps StoreStep bootStore calls m ∧ (∀ n, LiveInode s.fs n ↔ m n ≠ none) ∧
      ∀ n d, m n = some d → ∀ buffer size,
        (fsReadFile s.fs n buffer size).1 = (min size d.length : Nat) ∧
          ∀ p, (fsReadFile s.fs n buffer size).2.1 p =
            if p < min size d.length then d.getD p 0 else buffer p := by
  let R : KernelState → Store → Prop := fun s m => StoreInv s.fs m
  have hsim : ∃ m, Steps StoreStep bootStore calls m ∧ R s m := by
    refine Steps.simulation h storeInv_kernelMain ?_
    rintro s c t m hinv ⟨hlegal, rfl⟩
    exact StoreInv.step hinv hlegal
  obtain ⟨m, hrun, hinv⟩ := hsim
  refine ⟨m, hrun, hinv.refines.live, fun n d hd => ?_⟩
  exact (hinv.refines.holds n d hd).read hinv.wf
    (hinv.entries.not_bad hinv.wf (hinv.refines.live_of_some hd))

/-- Three bytes to `/fetch` in a state where it has one. -/
theorem refines_of_run_fetch :
    let calls : List FsCall := [.write 8 (fun _ => 0x61) 1, .write 8 (fun _ => 0x62) 3]
    ∃ m, Steps StoreStep bootStore calls m ∧
      (∀ n, LiveInode (callAll kernelMain calls).fs n ↔ m n ≠ none) ∧
      ∀ n d, m n = some d → ∀ buffer size,
        (fsReadFile (callAll kernelMain calls).fs n buffer size).1 = (min size d.length : Nat) ∧
          ∀ p, (fsReadFile (callAll kernelMain calls).fs n buffer size).2.1 p =
            if p < min size d.length then d.getD p 0 else buffer p := by
  intro calls
  have hlegal : (fsCall kernelMain (.write 8 (fun _ => 0x61) 1)).1 = fsSuccess ∧
      LiveInode (fsCall kernelMain (.write 8 (fun _ => 0x61) 1)).2.fs 8 ∧
      (fsCall (fsCall kernelMain (.write 8 (fun _ => 0x61) 1)).2
        (.write 8 (fun _ => 0x62) 3)).1 = fsSuccess := by
    decide +kernel
  obtain ⟨hfirst, hlive, hsecond⟩ := hlegal
  have hrun : FsRun StoreLegal calls (callAll kernelMain calls) :=
    .cons ⟨⟨liveInode_fetch, by decide, hfirst⟩, rfl⟩
      (.cons ⟨⟨hlive, by decide, hsecond⟩, rfl⟩ (.nil _))
  exact refines_of_run hrun

end Srunix
