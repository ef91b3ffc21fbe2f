import Srunix.Disk.Agreement

/-!
# Inode records

Whatever the members of a `struct mkfs_bkfs_inode` are, `bkfs_iget` finds each of
them at its place in the `struct bkfs_inode` of the module
(`readInode_stored`), and a directory becomes one. So does a regular file, for
which the module has the same two lines: `decodes_iff`.
-/

namespace Srunix

open Library

/-- The bytes from `a` on are `inode`, each member where the compiler puts it. -/
def Stored (dev : Memory) (a : Nat) (inode : MkfsBkfsInode) : Prop :=
  ∀ f ∈ cStruct 0 inode.members, readLe dev (a + f.off) f.width = f.value

/-- The slot of inode `ino`: record `ino % 42` of block `1 + ino / 42`, the number
of a block having 32 bits. -/
def recordAddr (blocksize ino : Nat) : Nat := uint32 (1 + ino / 42) * blocksize + ino % 42 * sizeofInode

/-- **What a record stands for.** -/
structure Decodes (inode : MkfsBkfsInode) (vfs : BkfsMod.VfsInode) : Prop where
  mode : vfs.iMode = inode.iMode
  uid : vfs.iUid = inode.iUid
  gid : vfs.iGid = inode.iGid
  size : vfs.iSize = if BkfsMod.sIsdir inode.iMode then bkfsBlockSize else inode.iSize
  atime : vfs.iAtime = inode.iAtime
  ctime : vfs.iCtime = inode.iCtime
  mtime : vfs.iMtime = inode.iMtime
  nlink : vfs.iNlink = inode.iLinksCount
  blocks : vfs.iBlocks = inode.iBlocks
  ops : vfs.iOps = .simpleDir ↔ BkfsMod.sIsdir inode.iMode = true

/-! ## Writing a record -/

/-- A record written as `mkfs_bkfs` writes the root inode is stored, if the
values have room in their members. -/
theorem stored_blit {inode : MkfsBkfsInode} (hfits : ∀ p ∈ inode.members, p.2 < 256 ^ p.1)
    (dev : Memory) (a : Nat) :
    Stored (blit dev a (layout (cStruct 0 inode.members)) sizeofInode) a inode := by
  intro f hf
  have hend : f.off + f.width ≤ sizeofInode := by
    have hlast : cEnd 0 inodeWidths ≤ sizeofInode := by decide
    have hmember := end_le_cEnd inode.members_pos hf
    rw [inode.widths] at hmember
    exact hmember.trans hlast
  have hvalue : f.value < 256 ^ f.width := hfits _ (mem_of_mem_cStruct hf)
  rw [readLe_blit (Nat.le_add_right _ _) (by rw [Nat.add_assoc]; exact Nat.add_le_add_left hend _),
    Nat.add_sub_cancel_left, readLe_layout inode.members_pos hf, Nat.mod_eq_of_lt hvalue]

/-! ## Reading it -/

/-- No mode is both. -/
theorem sIsreg_of_sIsdir {mode : Nat} (h : BkfsMod.sIsdir mode = true) : BkfsMod.sIsreg mode = false := by
  rw [BkfsMod.sIsdir] at h
  rw [BkfsMod.sIsreg]
  rw [eq_of_beq h]
  rfl

/-- The module finds every member. -/
theorem readInode_stored {dev : Memory} {a : Nat} {inode : MkfsBkfsInode} (h : Stored dev a inode) :
    BkfsMod.readInode dev a =
      { iMode := inode.iMode
        iUid := inode.iUid
        iGid := inode.iGid
        iSize := if BkfsMod.sIsdir inode.iMode then bkfsBlockSize else inode.iSize
        iAtime := inode.iAtime
        iCtime := inode.iCtime
        iMtime := inode.iMtime
        iNlink := inode.iLinksCount
        iBlocks := inode.iBlocks
        iOps := if BkfsMod.sIsreg inode.iMode || BkfsMod.sIsdir inode.iMode then .simpleDir else .none } := by
  have hmode : readLe dev (a + 0) 2 = inode.iMode := h ⟨0, 2, _⟩ (List.mem_of_getElem? (i := 0) rfl)
  have huid : readLe dev (a + 2) 2 = inode.iUid := h ⟨2, 2, _⟩ (List.mem_of_getElem? (i := 1) rfl)
  have hgid : readLe dev (a + 4) 2 = inode.iGid := h ⟨4, 2, _⟩ (List.mem_of_getElem? (i := 2) rfl)
  have hsize : readLe dev (a + 8) 4 = inode.iSize := h ⟨8, 4, _⟩ (List.mem_of_getElem? (i := 3) rfl)
  have hatime : readLe dev (a + 12) 4 = inode.iAtime := h ⟨12, 4, _⟩ (List.mem_of_getElem? (i := 4) rfl)
  have hctime : readLe dev (a + 16) 4 = inode.iCtime := h ⟨16, 4, _⟩ (List.mem_of_getElem? (i := 5) rfl)
  have hmtime : readLe dev (a + 20) 4 = inode.iMtime := h ⟨20, 4, _⟩ (List.mem_of_getElem? (i := 6) rfl)
  have hlinks : readLe dev (a + 28) 2 = inode.iLinksCount :=
    h ⟨28, 2, _⟩ (List.mem_of_getElem? (i := 8) rfl)
  have hblocks : readLe dev (a + 32) 4 = inode.iBlocks :=
    h ⟨32, 4, _⟩ (List.mem_of_getElem? (i := 9) rfl)
  -- the branch for regular files comes first, and a directory is none
  have hdir : (!BkfsMod.sIsreg inode.iMode && BkfsMod.sIsdir inode.iMode) = BkfsMod.sIsdir inode.iMode := by
    cases hd : BkfsMod.sIsdir inode.iMode with
    | false => exact Bool.and_false _
    | true => rw [sIsreg_of_sIsdir hd]; rfl
  rw [Nat.add_zero] at hmode
  unfold BkfsMod.readInode
  dsimp only
  rw [hmode, huid, hgid, hsize, hatime, hctime, hmtime, hlinks, hblocks, hdir]

/-- An inode is read as it was written exactly if it is no regular file. -/
theorem decodes_readInode_iff {dev : Memory} {a : Nat} {inode : MkfsBkfsInode} (h : Stored dev a inode) :
    Decodes inode (BkfsMod.readInode dev a) ↔ BkfsMod.sIsreg inode.iMode = false := by
  rw [readInode_stored h]
  constructor
  · intro hdecodes
    -- a regular file has been given the operations of a directory
    by_contra hreg
    have hreg : BkfsMod.sIsreg inode.iMode = true := Bool.eq_true_of_not_eq_false hreg
    have hdir := hdecodes.ops.mp (if_pos (by rw [hreg]; rfl))
    rw [sIsreg_of_sIsdir hdir] at hreg
    cases hreg
  · intro hreg
    refine ⟨rfl, rfl, rfl, rfl, rfl, rfl, rfl, rfl, rfl, ?_⟩
    show (if BkfsMod.sIsreg inode.iMode || BkfsMod.sIsdir inode.iMode then
      BkfsMod.InodeOps.simpleDir else .none) = .simpleDir ↔ _
    rw [hreg, Bool.false_or]
    cases BkfsMod.sIsdir inode.iMode with
    | false => exact iff_of_false (fun hops => nomatch hops) Bool.false_ne_true
    | true => exact iff_of_true rfl rfl

/-- The module looks in the slot. -/
theorem bkfsIget_new {env : BkfsMod.Env} {ino : Nat} (hnew : env.igetLocked ino = .new)
    (hread : env.bread (BkfsMod.inodeBlock ino) = true) (dev : Memory) (blocksize : Nat) :
    BkfsMod.bkfsIget env dev blocksize ino = .ok (BkfsMod.readInode dev (recordAddr blocksize ino)) := by
  have hoffset : BkfsMod.inodeOffset ino = ino % 42 := by
    show ino % 42 % 2 ^ 32 = ino % 42
    omega
  rw [BkfsMod.bkfsIget]
  rw [hnew]
  dsimp only
  rw [if_pos hread, BkfsMod.readInode_bData, hoffset]
  rfl

/-- **What decodes as it should**: everything but regular files. -/
theorem decodes_iff {env : BkfsMod.Env} {ino : Nat} (hnew : env.igetLocked ino = .new)
    (hread : env.bread (BkfsMod.inodeBlock ino) = true) {dev : Memory} {blocksize : Nat}
    {inode : MkfsBkfsInode} (hstored : Stored dev (recordAddr blocksize ino) inode) :
    (∃ vfs, BkfsMod.bkfsIget env dev blocksize ino = .ok vfs ∧ Decodes inode vfs) ↔
      BkfsMod.sIsreg inode.iMode = false := by
  rw [bkfsIget_new hnew hread, ← decodes_readInode_iff hstored]
  constructor
  · rintro ⟨vfs, hvfs, hdecodes⟩
    exact Except.ok.inj hvfs ▸ hdecodes
  · exact fun hdecodes => ⟨_, rfl, hdecodes⟩

/-- A device with one record on it. -/
def oneRecord (ino : Nat) (inode : MkfsBkfsInode) : Memory :=
  blit (fun _ => 0) (recordAddr bkfsBlockSize ino) (layout (cStruct 0 inode.members)) sizeofInode

/-- The root inode, where the module looks for it. -/
theorem decodes_iff_root :
    (∃ vfs, BkfsMod.bkfsIget .fresh (oneRecord 2 (rootInode fun _ => 7)) bkfsBlockSize 2 = .ok vfs ∧
        Decodes (rootInode fun _ => 7) vfs) ↔
      BkfsMod.sIsreg (rootInode fun _ => 7).iMode = false :=
  decodes_iff rfl rfl (stored_blit (by decide) _ _)

/-- A file of five bytes, `0644`. -/
def regularInode : MkfsBkfsInode :=
  { rootInode fun _ => 7 with iMode := 0x81A4, iSize := 5, iLinksCount := 1 }

/-- It has the operations of a directory. -/
theorem not_decodes_regular :
    Stored (oneRecord 3 regularInode) (recordAddr bkfsBlockSize 3) regularInode ∧
      ¬ ∃ vfs, BkfsMod.bkfsIget .fresh (oneRecord 3 regularInode) bkfsBlockSize 3 = .ok vfs ∧
        Decodes regularInode vfs := by
  have hstored : Stored (oneRecord 3 regularInode) (recordAddr bkfsBlockSize 3) regularInode :=
    stored_blit (by decide) _ _
  refine ⟨hstored, ?_⟩
  rintro ⟨vfs, hvfs, hdecodes⟩
  rw [bkfsIget_new rfl rfl] at hvfs
  obtain rfl := Except.ok.inj hvfs
  exact absurd ((decodes_readInode_iff hstored).mp hdecodes) (by decide)

end Srunix
