import Mathlib.Data.List.Count
import Srunix.Disk.Mount
import Srunix.Library.FirstIndex
import Srunix.Library.Runs

/-!
# The life of `bkfs_sb_info` (`fs/bkfs_mod.c`)

Three functions of the module give the record of a superblock back:
`bkfs_fill_super` on its error exits, `bkfs_put_super`, and `bkfs_kill_sb`.
Records are numbered as they are allocated, and `frees` counts how often each
was passed to `kfree`.

Of Linux, two rules: `mount_bdev` calls the file system's `kill_sb` when
`fill_super` failed, and `kill_block_super` syncs and calls `put_super` when
`s_root` is set, and only then. A superblock starts zeroed.

`Balanced` is the ledger: a record is held by a mounted superblock, or has been
freed, once. It survives a run exactly if no mount fails behind the allocation
(`sbInfoLifetime_iff`).
-/

namespace Srunix

open Library

namespace BkfsMod

/-- The fields of `struct super_block` this is about; `NULL` is `none`. -/
structure SbFields where
  sFsInfo : Option Nat
  sRoot : Bool

/-- The records of `kzalloc`, by number, with how often each was freed, and the
superblocks that are mounted. -/
structure Slab where
  /-- The records allocated so far are those below. -/
  allocated : Nat
  frees : Nat → Nat
  /-- `s_fs_info` was used when it referred to a freed record. -/
  misused : Bool
  mounted : List SbFields

namespace Slab

/-- Nothing is allocated, freed or mounted. -/
def boot : Slab := { allocated := 0, frees := fun _ => 0, misused := false, mounted := [] }

/-- `kfree(p)` -/
def kfree (k : Slab) : Option Nat → Slab
  | none => k
  | some r => { k with frees := Function.update k.frees r (k.frees r + 1) }

/-- `sb->s_fs_info` is read and what it refers to is used. -/
def useFsInfo (k : Slab) (sb : SbFields) : Slab :=
  match sb.sFsInfo with
  | none => k
  | some r => { k with misused := k.misused || decide (k.frees r ≠ 0) }

/-! ## The module -/

/-- `bkfs_fill_super` as far as the record goes. -/
def bkfsFillSuper (env : Env) (dev : Memory) (blocksize : Nat) (k : Slab) (sb : SbFields) :
    Option Errno × SbFields × Slab :=
  if !env.kzalloc then (some .enomem, sb, k)
  else
    let sbi := k.allocated
    let k := { k with allocated := k.allocated + 1 }
    let sb := { sb with sFsInfo := some sbi }
    if !env.bread bkfsSuperBlock then (some .einval, sb, k.kfree (some sbi))
    else if readLe (bData dev blocksize bkfsSuperBlock) 0 4 ≠ bkfsMagic then
      (some .einval, sb, k.kfree (some sbi))
    else
      match bkfsIget env dev blocksize bkfsRootIno with
      | .error e => (some e, sb, k.kfree (some sbi))
      | .ok _ =>
        let sb := { sb with sRoot := env.dMakeRoot }
        if !sb.sRoot then (some .enomem, sb, k.kfree (some sbi)) else (none, sb, k)

/-- `bkfs_put_super`: `s_fs_info` is freed and cleared. -/
def bkfsPutSuper (k : Slab) (sb : SbFields) : SbFields × Slab :=
  ({ sb with sFsInfo := none }, (k.useFsInfo sb).kfree sb.sFsInfo)

/-- `bkfs_sync_fs`, whether or not the block can be read. -/
def bkfsSyncFs (k : Slab) (sb : SbFields) (bread : Bool) : Slab :=
  if bread then k.useFsInfo sb else k

/-- `bkfs_statfs` -/
def bkfsStatfs (k : Slab) (sb : SbFields) : Slab := k.useFsInfo sb

/-- `kill_block_super` of Linux. -/
def killBlockSuper (k : Slab) (sb : SbFields) (bread : Bool) : SbFields × Slab :=
  if sb.sRoot then bkfsPutSuper (bkfsSyncFs k sb bread) sb else (sb, k)

/-- `bkfs_kill_sb`: it frees `s_fs_info` once more, behind `kill_block_super`. -/
def bkfsKillSb (k : Slab) (sb : SbFields) (bread : Bool) : Slab :=
  let (sb, k) := killBlockSuper k sb bread
  (k.useFsInfo sb).kfree sb.sFsInfo

/-! ## Mounts and unmounts -/

/-- What the rest of the kernel asks of the module. -/
inductive Call where
  /-- `mount_bdev` on a device, with what the rest of the kernel grants. -/
  | mount (env : Env) (dev : Memory) (blocksize : Nat)
  /-- The superblock mounted as number `i` goes; `bread` is for the last sync. -/
  | umount (i : Nat) (bread : Bool)
  | statfs (i : Nat)
  | sync (i : Nat) (bread : Bool)

/-- `mount_bdev` of Linux, on a new superblock. -/
def mountBdev (k : Slab) (env : Env) (dev : Memory) (blocksize : Nat) : Slab :=
  match bkfsFillSuper env dev blocksize k ⟨none, false⟩ with
  | (none, sb, k) => { k with mounted := k.mounted ++ [sb] }
  | (some _, sb, k) => bkfsKillSb k sb (env.bread bkfsSuperBlock)

/-- One call; a number that is not mounted does nothing. -/
def step (k : Slab) : Call → Slab
  | .mount env dev blocksize => mountBdev k env dev blocksize
  | .umount i bread =>
    match k.mounted[i]? with
    | some sb => bkfsKillSb { k with mounted := k.mounted.eraseIdx i } sb bread
    | none => k
  | .statfs i =>
    match k.mounted[i]? with
    | some sb => bkfsStatfs k sb
    | none => k
  | .sync i bread =>
    match k.mounted[i]? with
    | some sb => bkfsSyncFs k sb bread
    | none => k

/-! ## What `bkfs_fill_super` does with the record -/

/-- The error is the one the mount returns. -/
theorem bkfsFillSuper_result (env : Env) (dev : Memory) (blocksize : Nat) (k : Slab)
    (sb : SbFields) : (bkfsFillSuper env dev blocksize k sb).1 =
      match BkfsMod.bkfsFillSuper env dev blocksize with
      | .ok _ => none
      | .error e => some e := by
  rw [bkfsFillSuper, BkfsMod.bkfsFillSuper]
  by_cases hzalloc : (!env.kzalloc) = true
  · rw [if_pos hzalloc, if_pos hzalloc]
  rw [if_neg hzalloc, if_neg hzalloc]
  dsimp only
  by_cases hread : (!env.bread bkfsSuperBlock) = true
  · rw [if_pos hread, if_pos hread]
  rw [if_neg hread, if_neg hread]
  by_cases hmagic : readLe (bData dev blocksize bkfsSuperBlock) 0 4 ≠ bkfsMagic
  · rw [if_pos hmagic, if_pos hmagic]
  rw [if_neg hmagic, if_neg hmagic]
  cases bkfsIget env dev blocksize bkfsRootIno with
  | error e => rfl
  | ok root => cases env.dMakeRoot <;> rfl

/-- `bkfs_iget` gets an inode. -/
def IgetSucceeds (env : Env) (ino : Nat) : Prop :=
  match env.igetLocked ino with
  | .failed => False
  | .cached _ => True
  | .new => env.bread (inodeBlock ino) = true

/-- When the root can be had. -/
theorem bkfsIget_ok_iff {env : Env} {dev : Memory} {blocksize ino : Nat} :
    (∃ inode, bkfsIget env dev blocksize ino = .ok inode) ↔ IgetSucceeds env ino := by
  rw [bkfsIget, IgetSucceeds]
  cases env.igetLocked ino with
  | failed => exact iff_of_false (fun ⟨_, h⟩ => nomatch h) id
  | cached inode => exact iff_of_true ⟨inode, rfl⟩ trivial
  | new =>
    dsimp only
    cases env.bread (inodeBlock ino) with
    | true => exact iff_of_true ⟨_, rfl⟩ rfl
    | false => exact iff_of_false (fun ⟨_, h⟩ => nomatch h) Bool.false_ne_true

/-- Behind the allocation, nothing fails. -/
structure Grants (env : Env) (dev : Memory) (blocksize : Nat) : Prop where
  bread : env.bread bkfsSuperBlock = true
  magic : readLe (bData dev blocksize bkfsSuperBlock) 0 4 = bkfsMagic
  iget : IgetSucceeds env bkfsRootIno
  root : env.dMakeRoot = true

/-- A mount fails for want of the record, or not at all. -/
def Clean : Call → Prop
  | .mount env dev blocksize => env.kzalloc = true → Grants env dev blocksize
  | _ => True

/-- A record is allocated, and held by a superblock with a root or given back. -/
theorem bkfsFillSuper_cases {env : Env} (halloc : env.kzalloc = true) (dev : Memory)
    (blocksize : Nat) (k : Slab) :
    (Grants env dev blocksize ∧
      bkfsFillSuper env dev blocksize k ⟨none, false⟩ =
        (none, ⟨some k.allocated, true⟩, { k with allocated := k.allocated + 1 })) ∨
    (¬ Grants env dev blocksize ∧ ∃ e,
      bkfsFillSuper env dev blocksize k ⟨none, false⟩ =
        (some e, ⟨some k.allocated, false⟩,
          kfree { k with allocated := k.allocated + 1 } (some k.allocated))) := by
  rw [bkfsFillSuper]
  rw [if_neg (by rw [halloc]; exact Bool.false_ne_true)]
  dsimp only
  -- the branches in the order of the function: the read, the magic, the root inode, the
  -- dentry
  cases hread : env.bread bkfsSuperBlock with
  | false => exact .inr ⟨fun h => (nomatch hread.symm.trans h.bread), .einval, rfl⟩
  | true =>
    rw [if_neg (by exact Bool.false_ne_true)]
    by_cases hmagic : readLe (bData dev blocksize bkfsSuperBlock) 0 4 = bkfsMagic
    swap
    · rw [if_pos hmagic]
      exact .inr ⟨fun h => hmagic h.magic, .einval, rfl⟩
    rw [if_neg (not_not.mpr hmagic)]
    have hiff := @bkfsIget_ok_iff env dev blocksize bkfsRootIno
    cases hroot : bkfsIget env dev blocksize bkfsRootIno with
    | error e =>
      rw [hroot] at hiff
      exact .inr ⟨fun h => (nomatch (hiff.mpr h.iget).choose_spec), e, rfl⟩
    | ok root =>
      have higet := hiff.mp ⟨root, hroot⟩
      cases hmake : env.dMakeRoot with
      | false => exact .inr ⟨fun h => (nomatch hmake.symm.trans h.root), .enomem, rfl⟩
      | true => exact .inl ⟨⟨hread, hmagic, higet, hmake⟩, rfl⟩

/-! ## The ledger -/

/-- How many mounted superblocks refer to the record. -/
def holders (k : Slab) (r : Nat) : Nat := k.mounted.countP fun sb => sb.sFsInfo = some r

/-- Every record is held by a mounted superblock or has been freed, once, and
none was used after that. -/
structure Balanced (k : Slab) : Prop where
  proper : k.misused = false
  once : ∀ r < k.allocated, k.frees r + k.holders r = 1

/-- What the mounted superblocks look like, besides. -/
structure Inv (k : Slab) : Prop extends Balanced k where
  mounted : ∀ sb ∈ k.mounted, sb.sRoot = true ∧ ∃ r < k.allocated, sb.sFsInfo = some r
  fresh : ∀ r, k.allocated ≤ r → k.frees r = 0

theorem inv_boot : Inv boot where
  proper := rfl
  once r hr := absurd hr (Nat.not_lt_zero r)
  mounted _ hsb := nomatch hsb
  fresh _ _ := rfl

variable {k : Slab}

theorem holders_pos {sb : SbFields} (hsb : sb ∈ k.mounted) {r : Nat} (hr : sb.sFsInfo = some r) :
    0 < k.holders r :=
  List.countP_pos_iff.mpr ⟨sb, hsb, by simpa using hr⟩

/-- A mounted superblock uses its record properly. -/
theorem Inv.useFsInfo (h : Inv k) {sb : SbFields} (hsb : sb ∈ k.mounted) : k.useFsInfo sb = k := by
  obtain ⟨-, r, hr, hinfo⟩ := h.mounted sb hsb
  have hfree : k.frees r = 0 := by
    have := h.once r hr
    have := holders_pos hsb hinfo
    omega
  have hflag : (k.misused || decide (k.frees r ≠ 0)) = k.misused := by
    rw [hfree]
    exact Bool.or_false _
  rw [Slab.useFsInfo]
  rw [hinfo]
  dsimp only
  rw [hflag]

/-- Killing a mounted superblock frees its record. -/
theorem Inv.killSb (h : Inv k) {i : Nat} {sb : SbFields} (hsb : k.mounted[i]? = some sb)
    (bread : Bool) : ∃ r < k.allocated, sb.sFsInfo = some r ∧
      bkfsKillSb { k with mounted := k.mounted.eraseIdx i } sb bread =
        { k with mounted := k.mounted.eraseIdx i, frees := Function.update k.frees r 1 } := by
  have hmem : sb ∈ k.mounted := List.mem_of_getElem? hsb
  obtain ⟨hroot, r, hr, hinfo⟩ := h.mounted sb hmem
  have hfree : k.frees r = 0 := by
    have := h.once r hr
    have := holders_pos hmem hinfo
    omega
  -- the superblock is off the list already, but its record is still there to use
  have huse : Slab.useFsInfo { k with mounted := k.mounted.eraseIdx i } sb
      = { k with mounted := k.mounted.eraseIdx i } := by
    have hk := h.useFsInfo hmem
    rw [Slab.useFsInfo] at hk ⊢
    rw [hinfo] at hk ⊢
    dsimp only at hk ⊢
    have hflag := congrArg Slab.misused hk
    dsimp only at hflag
    rw [hflag]
  have hsync : bkfsSyncFs { k with mounted := k.mounted.eraseIdx i } sb bread
      = { k with mounted := k.mounted.eraseIdx i } := by
    rw [bkfsSyncFs]
    rw [huse, ite_self]
  refine ⟨r, hr, hinfo, ?_⟩
  rw [bkfsKillSb, killBlockSuper, bkfsPutSuper]
  rw [if_pos hroot, hsync, huse, hinfo]
  show { k with mounted := k.mounted.eraseIdx i, frees := Function.update k.frees r (k.frees r + 1) } = _
  rw [hfree]

/-- One superblock less, if its record is not freed twice. -/
theorem Inv.umount (h : Inv k) {i : Nat} {sb : SbFields} (hsb : k.mounted[i]? = some sb)
    (bread : Bool) : Inv (bkfsKillSb { k with mounted := k.mounted.eraseIdx i } sb bread) := by
  obtain ⟨r, hr, hinfo, heq⟩ := h.killSb hsb bread
  rw [heq]
  refine ⟨⟨h.proper, fun r' hr' => ?_⟩, fun sb' hsb' => ?_, fun r' hr' => ?_⟩
  · have hold := h.once r' hr'
    have hcount := countP_eraseIdx_add (p := fun sb => decide (sb.sFsInfo = some r')) hsb
    show Function.update k.frees r 1 r' + (k.mounted.eraseIdx i).countP _ = 1
    have hpos := holders_pos (List.mem_of_getElem? hsb) hinfo
    rw [holders] at hold hpos
    -- the superblock that goes is the only holder of its record
    by_cases hrr : r' = r
    · subst hrr
      have hyes : decide (sb.sFsInfo = some r') = true := decide_eq_true hinfo
      rw [if_pos hyes] at hcount
      rw [Function.update_self]
      omega
    · rw [if_neg (by simp [hinfo, Ne.symm hrr])] at hcount
      rw [Function.update_of_ne hrr]
      omega
  · exact h.mounted sb' (List.mem_of_mem_eraseIdx hsb')
  · have hne : r' ≠ r := by
      have hr' : k.allocated ≤ r' := hr'
      omega
    exact (Function.update_of_ne hne _ _).trans (h.fresh r' hr')

/-- A superblock with a new record joins the mounted ones. -/
theorem Inv.mount (h : Inv k) :
    Inv { k with
      allocated := k.allocated + 1, mounted := k.mounted ++ [⟨some k.allocated, true⟩] } := by
  refine ⟨⟨h.proper, fun r hr => ?_⟩, fun sb hsb => ?_, fun r hr => h.fresh r (Nat.le_of_succ_le hr)⟩
  · show k.frees r + (k.mounted ++ [_]).countP _ = 1
    rw [List.countP_append]
    rcases Nat.lt_succ_iff_lt_or_eq.mp hr with hr | rfl
    · have hold := h.once r hr
      rw [holders] at hold
      simp [Ne.symm (Nat.ne_of_lt hr)]
      omega
    · -- nobody refers to a record that did not exist
      have hnone : k.mounted.countP (fun sb => decide (sb.sFsInfo = some k.allocated)) = 0 := by
        refine List.countP_eq_zero.mpr fun sb hsb => ?_
        obtain ⟨-, r, hr, hinfo⟩ := h.mounted sb hsb
        simp [hinfo, Nat.ne_of_lt hr]
      rw [hnone, h.fresh _ (Nat.le_refl _)]
      simp
  · rcases List.mem_append.mp hsb with hsb | hsb
    · obtain ⟨hroot, r, hr, hinfo⟩ := h.mounted sb hsb
      exact ⟨hroot, r, Nat.lt_succ_of_lt hr, hinfo⟩
    · obtain rfl := List.mem_singleton.mp hsb
      exact ⟨rfl, k.allocated, Nat.lt_succ_self _, rfl⟩

/-- A mount that fails with a record in hand frees it and leaves it in
`s_fs_info`, where `bkfs_kill_sb` finds it. -/
theorem misused_of_failed (k : Slab) (bread : Bool) :
    (bkfsKillSb (kfree { k with allocated := k.allocated + 1 } (some k.allocated))
      ⟨some k.allocated, false⟩ bread).misused = true := by
  rw [bkfsKillSb, killBlockSuper]
  simp [Slab.useFsInfo, kfree]

/-- The step lemma of `Inv`. -/
theorem Inv.step (h : Inv k) {c : Call} (hc : Clean c) : Inv (step k c) := by
  cases c with
  | mount env dev blocksize =>
    show Inv (mountBdev k env dev blocksize)
    unfold mountBdev
    cases halloc : env.kzalloc with
    | false =>
      -- nothing was made, so there is nothing to give up
      have hfill : bkfsFillSuper env dev blocksize k ⟨none, false⟩ = (some .enomem, ⟨none, false⟩, k) :=
        if_pos (by rw [halloc]; rfl)
      rw [hfill]
      exact h
    | true =>
      rcases bkfsFillSuper_cases halloc dev blocksize k with ⟨-, hfill⟩ | ⟨hnot, -⟩
      · rw [hfill]
        exact h.mount
      · -- the error path frees what `s_fs_info` still points to
        exact absurd (hc halloc) hnot
  | umount i bread =>
    unfold Slab.step
    dsimp only
    cases hsb : k.mounted[i]? with
    | none => exact h
    | some sb => exact h.umount hsb bread
  | statfs i =>
    unfold Slab.step
    dsimp only
    cases hsb : k.mounted[i]? with
    | none => exact h
    | some sb =>
      show Inv (k.useFsInfo sb)
      rw [h.useFsInfo (List.mem_of_getElem? hsb)]
      exact h
  | sync i bread =>
    unfold Slab.step
    dsimp only
    cases hsb : k.mounted[i]? with
    | none => exact h
    | some sb =>
      show Inv (bkfsSyncFs k sb bread)
      unfold bkfsSyncFs
      rw [h.useFsInfo (List.mem_of_getElem? hsb), ite_self]
      exact h

/-- Where every record is freed at most once, the call was clean. -/
theorem clean_of_balanced {c : Call} (hbal : Balanced (step k c)) : Clean c := by
  cases c with
  | mount env dev blocksize =>
    intro halloc
    rcases bkfsFillSuper_cases halloc dev blocksize k with
      ⟨hgrants, -⟩ | ⟨-, e, hfill⟩
    · exact hgrants
    · have hproper : (mountBdev k env dev blocksize).misused = false := hbal.proper
      rw [mountBdev] at hproper
      rw [hfill] at hproper
      exact nomatch hproper.symm.trans (misused_of_failed k _)
  | umount | statfs | sync => trivial

/-- **The ledger is balanced throughout a run** of mounts, unmounts and uses,
whatever the images and whatever fails, exactly if every mount that gets its
record goes through. -/
theorem sbInfoLifetime_iff (calls : List Call) :
    Guarded step (fun k c => Balanced (step k c)) boot calls ↔ ∀ c ∈ calls, Clean c := by
  calc Guarded step (fun k c => Balanced (step k c)) boot calls
      ↔ Guarded step (fun _ c => Clean c) boot calls := by
        refine guarded_iff Inv ?_ ?_ inv_boot
        · intro k c _ h
          exact ⟨clean_of_balanced, fun hc => (h.step hc).toBalanced⟩
        · intro k c _ h hbal
          exact h.step (clean_of_balanced hbal)
    _ ↔ ∀ c ∈ calls, Clean c := guarded_forall

/-- A device without the magic number: the record of the one mount is freed
twice, the second time through `s_fs_info`. -/
theorem not_balanced_magic :
    let k := runOps step boot [.mount .fresh (fun _ => 0) 1024]
    ¬ Guarded step (fun k c => Balanced (step k c)) boot [.mount .fresh (fun _ => 0) 1024] ∧
      k.allocated = 1 ∧ k.frees 0 = 2 ∧ k.misused = true := by
  refine ⟨fun h => ?_, by decide, by decide, by decide⟩
  exact absurd h.1.proper (by decide)

end Slab

end BkfsMod

end Srunix
