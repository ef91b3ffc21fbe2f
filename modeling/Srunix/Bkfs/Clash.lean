import Srunix.Bkfs.Entries

/-!
# Name clashes

`fs_create_file(name, parent, type)` is to refuse a name that its parent
directory already has. What it searches is the current directory, whatever the
parent is. `CreateLaw` is the contract with the search done in the parent;
`createLaw_iff_agrees` says in which states the code meets it, and that
histories of such creations never make two entries of one name in one
directory.
-/

namespace Srunix

open Library

/-- Some entry of the directory has the name. -/
def NameTaken (fs : Bkfs) (dir : Nat) (name : CString) : Prop :=
  ∃ e ∈ entries fs, e.parentInode = dir ∧ e.name = name

instance (fs : Bkfs) (dir : Nat) (name : CString) : Decidable (NameTaken fs dir name) :=
  inferInstanceAs (Decidable (∃ e ∈ entries fs, _))

/-- Some inode is free. -/
def InodeFree (fs : Bkfs) : Prop := ∃ i < maxInodes, (fs.inodes i).mode = 0

instance (fs : Bkfs) : Decidable (InodeFree fs) :=
  inferInstanceAs (Decidable (∃ i < maxInodes, _))

/-- **The contract of `fs_create_file`**, with the clash decided in `parent`. -/
structure CreateLaw (s : KernelState) (name : Name) (parent : Nat) (type : UInt8) : Prop where
  success_iff : (fsCreateFile s name parent type).1 = fsSuccess ↔
    isValidFilename name.str = true ∧ ¬ NameTaken s.fs parent name.str ∧
      s.fs.fileCount < maxFiles ∧ InodeFree s.fs
  appended : (fsCreateFile s name parent type).1 = fsSuccess →
    ∃ n, n ≠ 0 ∧ n ≤ maxInodes ∧ ¬ LiveInode s.fs n ∧
      entries (fsCreateFile s name parent type).2.fs = entries s.fs ++ [newEntry n name parent type]
  unchanged : (fsCreateFile s name parent type).1 ≠ fsSuccess →
    (fsCreateFile s name parent type).2.fs = s.fs

/-- When the search in the current directory decides as one in `dir` would: the
request is turned away on other grounds anyway, or the name is in both
directories or in neither. (With the counter of free inodes at zero the code
refuses every name, which is right if the name is in `dir`.) -/
def ClashAgrees (fs : Bkfs) (name : Name) (dir : Nat) : Prop :=
  isValidFilename name.str = false ∨ maxFiles ≤ fs.fileCount ∨ ¬ InodeFree fs ∨
    (fs.freeInodes ≠ 0 ∧ (NameTaken fs fs.currentInode name.str ↔ NameTaken fs dir name.str)) ∨
    (fs.freeInodes = 0 ∧ NameTaken fs dir name.str)

instance (fs : Bkfs) (name : Name) (dir : Nat) : Decidable (ClashAgrees fs name dir) :=
  inferInstanceAs (Decidable (_ ∨ _ ∨ _ ∨ _ ∨ _))

/-- What `file_exists_in_current_dir` finds out, said of the entries. -/
theorem exists_iff_nameTaken {fs : Bkfs} {name : CString} :
    fileExistsInCurrentDir fs name = true ↔ NameTaken fs fs.currentInode name := by
  rw [fileExistsInCurrentDir_iff]
  constructor
  · rintro ⟨i, hi, hparent, hname⟩
    exact ⟨fs.files i, mem_entries.mpr ⟨i, hi, rfl⟩, hparent, hname⟩
  · rintro ⟨e, he, hparent, hname⟩
    obtain ⟨i, hi, rfl⟩ := mem_entries.mp he
    exact ⟨i, hi, hparent, hname⟩

/-- What the code lets through, in the words of the contract. -/
theorem not_createRefused_iff {fs : Bkfs} {name : Name} :
    ¬ CreateRefused fs name ↔
      isValidFilename name.str = true ∧ ¬ NameTaken fs fs.currentInode name.str ∧
        fs.fileCount < maxFiles ∧ fs.freeInodes ≠ 0 ∧ InodeFree fs := by
  rw [CreateRefused]
  rw [exists_iff_nameTaken]
  constructor
  · intro h
    refine ⟨?_, fun ht => h (.inr (.inl ht)), ?_, fun hz => h (.inr (.inr (.inr (.inl hz)))), ?_⟩
    · by_contra hvalid
      exact h (.inl (by simpa using hvalid))
    · by_contra hfull
      exact h (.inr (.inr (.inl (Nat.not_lt.mp hfull))))
    · by_contra hnone
      exact h (.inr (.inr (.inr (.inr fun i hi hmode => hnone ⟨i, hi, hmode⟩))))
  · rintro ⟨hvalid, htaken, hcount, hcounter, i, hi, hmode⟩ (h | h | h | h | h)
    · rw [hvalid] at h
      cases h
    · exact htaken h
    · exact absurd hcount (Nat.not_lt.mpr h)
    · exact hcounter h
    · exact h i hi hmode

/-- A creation succeeds exactly when it is not refused. -/
theorem fsCreateFile_success_iff (s : KernelState) (name : Name) (parent : Nat) (type : UInt8) :
    (fsCreateFile s name parent type).1 = fsSuccess ↔ ¬ CreateRefused s.fs name := by
  rcases fsCreateFile_cases s name parent type with ⟨href, hret, -⟩ | ⟨href, i, -, -, hret, -⟩
  · rw [hret]
    exact iff_of_false (by decide) (Classical.not_not.mpr href)
  · exact iff_of_true hret href

/-- The two decisions, in the current directory and in `dir`, come out the same
exactly under `ClashAgrees`. -/
theorem refusal_iff_agrees {fs : Bkfs} {name : Name} {dir : Nat} :
    (¬ CreateRefused fs name ↔
      isValidFilename name.str = true ∧ ¬ NameTaken fs dir name.str ∧
        fs.fileCount < maxFiles ∧ InodeFree fs) ↔ ClashAgrees fs name dir := by
  rw [not_createRefused_iff]
  rw [ClashAgrees]
  by_cases hvalid : isValidFilename name.str = true
  swap
  · exact iff_of_true (iff_of_false (fun h => hvalid h.1) fun h => hvalid h.1)
      (.inl (by simpa using hvalid))
  by_cases hcount : fs.fileCount < maxFiles
  swap
  · exact iff_of_true (iff_of_false (fun h => hcount h.2.2.1) fun h => hcount h.2.2.1)
      (.inr (.inl (Nat.not_lt.mp hcount)))
  by_cases hfree : InodeFree fs
  swap
  · exact iff_of_true (iff_of_false (fun h => hfree h.2.2.2.2) fun h => hfree h.2.2.2)
      (.inr (.inr (.inl hfree)))
  -- only the two searches and the counter are left to disagree
  have hcount' : ¬ maxFiles ≤ fs.fileCount := Nat.not_le.mpr hcount
  by_cases hzero : fs.freeInodes = 0
  · simp [hvalid, hcount, hcount', hfree, hzero]
  · simp [hvalid, hcount, hcount', hfree, show fs.freeInodes ≠ 0 from hzero, not_iff_not]

theorem createLaw_iff {s : KernelState} (hinv : EntriesInv s.fs) (name : Name) (parent : Nat)
    (type : UInt8) : CreateLaw s name parent type ↔ ClashAgrees s.fs name parent := by
  rw [← refusal_iff_agrees, ← fsCreateFile_success_iff s name parent type]
  refine ⟨fun h => h.success_iff, fun hiff => ⟨hiff, fun hok => ?_, fun hfail => ?_⟩⟩
  · rcases fsCreateFile_cases s name parent type with
      ⟨-, hret, -⟩ | ⟨-, i, hi, hmode, -, hfs⟩
    · rw [hret] at hok
      exact absurd hok (by decide)
    · refine ⟨i + 1, Nat.succ_ne_zero i, hi, fun hlive => ?_, ?_⟩
      · exact hinv.live_iff.mp hlive hmode
      · rw [hfs]
        exact EntriesInv.entries_created ..
  · rcases fsCreateFile_cases s name parent type with ⟨-, -, hfs⟩ | ⟨-, i, -, -, hret, -⟩
    · exact hfs
    · exact absurd hret hfail

/-! ## Distinct names -/

/-- The directory and the name of an entry. -/
def File.path (e : File) : Nat × CString := (e.parentInode, e.name)

/-- No two entries share directory and name. -/
def DistinctNames (fs : Bkfs) : Prop := ((liveEntries fs).map File.path).Nodup

instance (fs : Bkfs) : Decidable (DistinctNames fs) :=
  inferInstanceAs (Decidable (List.Nodup _))

/-- A creation whose clash check decides as one in its parent would. -/
def CreateAgrees (fs : Bkfs) : FsCall → Prop
  | .create name parent _ => ClashAgrees fs name parent
  | .write .. | .read .. | .delete _ | .chdir _ => True

/-- A creation under a name its directory does not have. -/
theorem DistinctNames.created {fs : Bkfs} (h : DistinctNames fs) {name : Name} {parent : Nat}
    (hfresh : ¬ NameTaken fs parent name.str) (i : Nat) (type : UInt8) :
    DistinctNames (Srunix.created fs i name parent type) := by
  rw [DistinctNames]
  rw [EntriesInv.liveEntries_created, List.map_append, List.nodup_append]
  refine ⟨h, List.nodup_singleton _, ?_⟩
  intro p hp q hq heq
  obtain ⟨e, he, rfl⟩ := List.mem_map.mp hp
  obtain rfl : q = (parent, name.str) := by simpa [File.path, newEntry] using hq
  exact hfresh ⟨e, (mem_liveEntries.mp he).1, congrArg Prod.fst heq, congrArg Prod.snd heq⟩

/-- As long as the check looks in the right directory, the names stay different. -/
theorem DistinctNames.step {fs fs' : Bkfs} {c : FsCall} {r : Int} (h : DistinctNames fs)
    (hinv : EntriesInv fs) (hagrees : CreateAgrees fs c) (hout : FsOutcome fs c r fs') :
    DistinctNames fs' := by
  cases hout with
  | createRefused | writeRefused | deleteRefused | chdir | written | writeFailed => exact h
  | @created name parent type i href _ _ =>
    -- not taken in the current directory, so not in the parent either
    obtain ⟨-, hfresh, -, -⟩ := (refusal_iff_agrees.mpr hagrees).mp href
    exact h.created hfresh i type
  | @read n size buffer _ =>
    obtain ⟨inodes, heq, -⟩ := accessed_eq fs n
    rw [heq]
    exact h
  | @deleted n hbad =>
    rw [DistinctNames]
    rw [hinv.liveEntries_deleted fun hn => hbad (.inl hn)]
    exact h.sublist (List.filter_sublist.map _)

theorem distinctNames_kernelMain : DistinctNames kernelMain.fs := by
  decide +kernel

/-- **When `fs_create_file` meets its contract**: in every state any history
reaches, for every request, exactly under `ClashAgrees`. In a history whose
creations all meet that condition no two entries share directory and name. -/
theorem createLaw_iff_agrees {ok : KernelState → FsCall → Prop} {calls : List FsCall}
    {s : KernelState} (h : FsRun ok calls s) :
    (∀ name parent type, CreateLaw s name parent type ↔ ClashAgrees s.fs name parent) ∧
      (FsRun (fun s c => CreateAgrees s.fs c) calls s → DistinctNames s.fs) := by
  refine ⟨createLaw_iff (entriesInv_of_run h), fun hrun => ?_⟩
  let P : Bkfs → Prop := fun fs => EntriesInv fs ∧ DistinctNames fs
  have hdistinct : WellFormed s.fs ∧ P s.fs := by
    refine hrun.invariant ⟨entriesInv_kernelMain, distinctNames_kernelMain⟩ ?_
    rintro s c hwf ⟨hinv, hnames⟩ hagrees
    have hout := fsCall_outcome hwf c
    exact ⟨hinv.step hout, hnames.step hinv hagrees hout⟩
  exact hdistinct.2.2

/-- A first file called `note` in the root directory. -/
theorem createLaw_iff_agrees_note :
    CreateLaw kernelMain "note" 1 fileRegular ∧
      DistinctNames (callAll kernelMain [.create "note" 1 fileRegular]).fs := by
  let calls : List FsCall := [.create "note" 1 fileRegular]
  have hagrees : ClashAgrees kernelMain.fs "note" 1 := by
    decide +kernel
  have hrun : FsRun (fun s c => CreateAgrees s.fs c) calls (callAll kernelMain calls) :=
    .cons ⟨hagrees, rfl⟩ (.nil _)
  have hboot : FsRun (fun _ _ => True) [] kernelMain := .nil _
  exact ⟨((createLaw_iff_agrees hboot).1 _ _ _).mpr hagrees, (createLaw_iff_agrees hrun).2 hrun⟩

/-- **`/bin/fetch` cannot be created** because `/` has a `fetch`; and from `/`
two files called `x` can be created in `/bin`. -/
theorem not_createLaw_bin :
    ¬ CreateLaw kernelMain "fetch" 2 fileRegular ∧
      ¬ DistinctNames (callAll kernelMain
        [.create "x" 2 fileRegular, .create "x" 2 fileRegular]).fs := by
  have hbin : (fsCreateFile kernelMain "fetch" 2 fileRegular).1 ≠ fsSuccess ∧
      (isValidFilename "fetch" = true ∧ ¬ NameTaken kernelMain.fs 2 "fetch" ∧
        kernelMain.fs.fileCount < maxFiles ∧ InodeFree kernelMain.fs) ∧
      ¬ DistinctNames (callAll kernelMain
        [.create "x" 2 fileRegular, .create "x" 2 fileRegular]).fs := by
    decide +kernel
  obtain ⟨hrefused, hright, hclash⟩ := hbin
  exact ⟨fun h => hrefused (h.success_iff.mpr hright), hclash⟩

end Srunix
