import Srunix.Bkfs.Sizes
import Srunix.Bkfs.Store
import Srunix.Shell.Commands

/-!
# Files by name, and `cat` redirected (`kernel/kernel.c`)

`execute_cat_redirect`, with the arrays it works in: three of them, of
`MAX_FILE_SIZE` bytes each, filled by `fs_read_file`, `strcpy` and `strcat`.
The model lets them be as long as it takes and notes how far the stores went;
a run is one of the source's as long as that is within `MAX_FILE_SIZE`.

The second half says what writing a text to a file by its name does, for the
commands that do.
-/

namespace Srunix

open Library

/-! ## Local arrays -/

theorem nul_not_mem_takeWhile (l : List UInt8) : 0 ∉ l.takeWhile (· ≠ 0) :=
  fun h => absurd (List.mem_takeWhile_imp h) (by decide)

/-- The string in an array with a NUL at offset `n`. -/
def stringAt (content : Nat → UInt8) (n : Nat) : CString :=
  ⟨(table content n).takeWhile (· ≠ 0), nul_not_mem_takeWhile _⟩

/-- A `char` array: the string in it, and one past the last byte stored. -/
structure TextBuffer where
  str : CString
  reach : Nat

namespace TextBuffer

/-- Before anything is stored. -/
def fresh : TextBuffer := ⟨.empty, 0⟩

/-- `strcpy` into a buffer, with how far it stores. -/
def strcpy (b : TextBuffer) (src : CString) : TextBuffer := ⟨src, max b.reach (strlen src + 1)⟩

/-- `strcat` to a buffer, with how far it stores. -/
def strcat (b : TextBuffer) (src : CString) : TextBuffer :=
  ⟨b.str ++ src, max b.reach (strlen b.str + strlen src + 1)⟩

end TextBuffer

/-- What `fs_read_file(n, buf, MAX_FILE_SIZE - 1)` leaves: its result as an
`uint32_t`, the array, one past the last byte stored, the file system. -/
structure ReadResult where
  bytesRead : Nat
  content : Nat → UInt8
  reach : Nat
  fs : Bkfs

/-- `stack` is what the uninitialised array holds. -/
def readInto (fs : Bkfs) (n : Nat) (stack : Nat → UInt8) : ReadResult :=
  let (r, content, fs') := fsReadFile fs n stack (maxFileSize - 1)
  ⟨(r % 2 ^ 32).toNat, content, delivered fs n (maxFileSize - 1), fs'⟩

/-- `buf[bytes_read] = '\0';` -/
def ReadResult.terminated (r : ReadResult) : Nat := max r.reach (r.bytesRead + 1)

/-- `new_content`, from the `strcpy` on. -/
def newContent (r : ReadResult) (text : CString) : TextBuffer :=
  let b := TextBuffer.fresh.strcpy (stringAt r.content r.bytesRead)
  let b := if r.bytesRead > 0 ∧ r.content (r.bytesRead - 1) ≠ 0x0A then b.strcat "\n" else b
  b.strcat text

/-- The new content, as a string. -/
theorem newContent_str (r : ReadResult) (text : CString) :
    (newContent r text).str = appended r.content r.bytesRead text := by
  rw [newContent, appended]
  split
  · rfl
  · rfl

/-- How far it is stored. -/
theorem newContent_reach (r : ReadResult) (text : CString) :
    (newContent r text).reach = strlen (newContent r text).str + 1 := by
  unfold newContent TextBuffer.strcat TextBuffer.strcpy TextBuffer.fresh strlen
  dsimp only
  split
  · simp only [CString.bytes_append, List.length_append]
    omega
  · simp only [CString.bytes_append, List.length_append]
    omega

/-- `execute_append_output` on a file that is there, by way of its arrays. -/
theorem executeAppendOutput_eq {s : KernelState} {filename : Name} {i : Nat}
    (hfound : findRegular s.fs filename.str = some i) (text : CString) (stack : Nat → UInt8) :
    executeAppendOutput s filename text stack =
      let r := readInto s.fs (s.fs.files i).inode stack
      let w := writeText { s with fs := r.fs } (r.fs.files i).inode (newContent r text).str
      if w.1 = fsSuccess then w.2 else w.2.writestring "Failed to append to file\n" := by
  rw [executeAppendOutput]
  rw [hfound]
  dsimp only
  rw [newContent_str]
  rfl

/-- How far `execute_append_output` stores into one of its two arrays. -/
def appendOutputReach (s : KernelState) (filename : Name) (text : CString) (stack : Nat → UInt8) :
    Nat :=
  match findRegular s.fs filename.str with
  | some i =>
    let r := readInto s.fs (s.fs.files i).inode stack
    max r.terminated (newContent r text).reach
  | none => 0

/-! ## `execute_cat_redirect` -/

/-- The two equal branches of `execute_cat_redirect` for a file that is not there. -/
def createWithContent (s : KernelState) (sourceFile : CString) (destFile : Name)
    (sourceContent : CString) : KernelState :=
  let (r, s) := fsCreateFile s destFile s.fs.currentInode fileRegular
  if r = fsSuccess then
    match findRegular s.fs destFile.str with
    | some i =>
      let (r, s) := writeText s (s.fs.files i).inode sourceContent
      if r = fsSuccess then
        s.printf "File %s created with content from %s\n" [.str destFile.str, .str sourceFile]
      else s.writestring "File created but failed to write content\n"
    | none => s
  else s.writestring "Failed to create file\n"

/-- The state afterwards, and how far any of the local arrays was stored into.
`stack` and `stack'` are what `source_content` and `dest_content` hold before. -/
def executeCatRedirect (s : KernelState) (sourceFile : CString) (destFile : Name) (append : Bool)
    (stack stack' : Nat → UInt8) : KernelState × Nat :=
  match findRegular s.fs sourceFile with
  | none => (s.printf "Source file not found or empty: %s\n" [.str sourceFile], 0)
  | some i =>
    let source := readInto s.fs (s.fs.files i).inode stack
    let s : KernelState := { s with fs := source.fs }
    -- the source has to have a byte, or the message is that there is none
    if source.bytesRead = 0 then
      (s.printf "Source file not found or empty: %s\n" [.str sourceFile], source.reach)
    else
      let sourceContent := stringAt source.content source.bytesRead
      match append, findRegular s.fs destFile.str with
      | true, some d =>
        let destInode := (s.fs.files d).inode
        -- the second buffer of the same call
        let dest := readInto s.fs destInode stack'
        let s : KernelState := { s with fs := dest.fs }
        let new := newContent dest sourceContent
        let (r, s) := writeText s destInode new.str
        let s :=
          if r = fsSuccess then
            s.printf "Content from %s appended to %s\n" [.str sourceFile, .str destFile.str]
          else s.writestring "Failed to append to file\n"
        (s, max source.terminated (max dest.terminated new.reach))
      | false, some d =>
        let (r, s) := writeText s (s.fs.files d).inode sourceContent
        let s :=
          if r = fsSuccess then
            s.printf "Content from %s written to %s\n" [.str sourceFile, .str destFile.str]
          else s.writestring "Failed to write to file\n"
        (s, source.terminated)
      | _, none => (createWithContent s sourceFile destFile sourceContent, source.terminated)

/-! ## Files by name -/

/-- `name` is a file of the current directory, by entry `i`, with content `d`. -/
structure FileHas (fs : Bkfs) (name : CString) (i : Nat) (d : List UInt8) : Prop where
  found : findRegular fs name = some i
  live : LiveInode fs (fs.files i).inode
  holds : Holds fs ((fs.files i).inode - 1) d

/-- The blocks hold one content. -/
theorem Holds.unique {fs : Bkfs} {k : Nat} {d d' : List UInt8} (h : Holds fs k d)
    (h' : Holds fs k d') : d = d' := by
  have hlen : d.length = d'.length := h.size.symm.trans h'.size
  refine List.ext_getElem hlen fun p hp hp' => ?_
  have hbyte := (h.bytes p hp).symm.trans (h'.bytes p hp')
  simpa [hp, hp'] using hbyte

/-- The search looks at the entries and the directory only. -/
theorem findRegular_congr {fs fs' : Bkfs} (hfiles : fs'.files = fs.files)
    (hcount : fs'.fileCount = fs.fileCount) (hcur : fs'.currentInode = fs.currentInode)
    (name : CString) : findRegular fs' name = findRegular fs name := by
  unfold findRegular
  rw [hfiles, hcount, hcur]

theorem liveInode_congr {fs fs' : Bkfs} (hfiles : fs'.files = fs.files)
    (hcount : fs'.fileCount = fs.fileCount) {n : Nat} (h : LiveInode fs n) : LiveInode fs' n := by
  have hentries : entries fs' = entries fs := by
    unfold entries
    rw [hfiles, hcount]
  exact ⟨h.1, hentries ▸ h.2⟩

/-- What the files hold, where they are, and which blocks a write to them would
get. -/
structure SameStore (fs fs' : Bkfs) : Prop where
  files : fs'.files = fs.files
  fileCount : fs'.fileCount = fs.fileCount
  currentInode : fs'.currentInode = fs.currentInode
  used : fs'.blockUsed = fs.blockUsed
  free : fs'.freeBlocks = fs.freeBlocks
  cells : fs'.blocks = fs.blocks
  inode : ∀ k, (fs'.inodes k).size = (fs.inodes k).size ∧
    (fs'.inodes k).blocks = (fs.inodes k).blocks ∧ (fs'.inodes k).block = (fs.inodes k).block

/-- A read changes no content. -/
theorem sameStore_accessed (fs : Bkfs) (n : Nat) : SameStore fs (accessed fs n) := by
  obtain ⟨inodes, heq, hsame⟩ := accessed_eq fs n
  rw [heq]
  refine ⟨rfl, rfl, rfl, rfl, rfl, rfl, fun k => ?_⟩
  obtain ⟨t, ht⟩ := hsame k
  show (inodes k).size = _ ∧ (inodes k).blocks = _ ∧ (inodes k).block = _
  rw [ht]
  exact ⟨rfl, rfl, rfl⟩

theorem WellFormed.accessed {fs : Bkfs} (hwf : WellFormed fs) (n : Nat) :
    WellFormed (Srunix.accessed fs n) :=
  hwf.step (FsOutcome.read 0 : FsOutcome fs (.read n (fun _ => 0) 0) 0 (Srunix.accessed fs n))

namespace SameStore

variable {fs fs' : Bkfs}

theorem refl (fs : Bkfs) : SameStore fs fs :=
  ⟨rfl, rfl, rfl, rfl, rfl, rfl, fun _ => ⟨rfl, rfl, rfl⟩⟩

theorem trans {fs'' : Bkfs} (h : SameStore fs fs') (h' : SameStore fs' fs'') : SameStore fs fs'' where
  files := h'.files.trans h.files
  fileCount := h'.fileCount.trans h.fileCount
  currentInode := h'.currentInode.trans h.currentInode
  used := h'.used.trans h.used
  free := h'.free.trans h.free
  cells := h'.cells.trans h.cells
  inode k :=
    ⟨(h'.inode k).1.trans (h.inode k).1, (h'.inode k).2.1.trans (h.inode k).2.1,
      (h'.inode k).2.2.trans (h.inode k).2.2⟩

theorem holds (h : SameStore fs fs') {k : Nat} {d : List UInt8} (hd : Holds fs k d) :
    Holds fs' k d := by
  obtain ⟨hsize, hblocks, hblock⟩ := h.inode k
  exact hd.congr hsize hblocks hblock fun b _ => by rw [h.cells]

theorem writeBlocks (h : SameStore fs fs') (k : Nat) :
    Srunix.writeBlocks fs' k = Srunix.writeBlocks fs k := by
  obtain ⟨-, hblocks, hblock⟩ := h.inode k
  unfold Srunix.writeBlocks takeable released Inode.blockList
  rw [h.used, h.free, hblocks, hblock]

end SameStore

/-! ## What every state has -/

/-- What every reachable state has. -/
structure Sound (fs : Bkfs) : Prop where
  wellFormed : WellFormed fs
  entriesInv : EntriesInv fs

theorem Reachable.sound {s : KernelState} (h : Reachable s) : Sound s.fs := ⟨h.wellFormed, h.entriesInv⟩

namespace Sound

variable {s : KernelState}

theorem fsCall (h : Sound s.fs) (c : FsCall) : Sound (Srunix.fsCall s c).2.fs :=
  ⟨wellFormed_fsCall h.wellFormed c, h.entriesInv.step (fsCall_outcome h.wellFormed c)⟩

theorem writeText (h : Sound s.fs) (n : Nat) (text : CString) :
    Sound (Srunix.writeText s n text).2.fs :=
  h.fsCall (.write n text.mem (strlen text))

theorem not_bad (h : Sound s.fs) {n : Nat} (hn : LiveInode s.fs n) : ¬ BadInode n :=
  h.entriesInv.not_bad h.wellFormed hn

/-- The blank entries have no name. -/
theorem live_of_found (h : Sound s.fs) {name : CString} (hname : name.bytes ≠ []) {i : Nat}
    (hfound : findRegular s.fs name = some i) : LiveInode s.fs (s.fs.files i).inode := by
  obtain ⟨hi, hp, -⟩ := firstIndex_eq_some_iff.mp hfound
  simp only [Bool.and_eq_true, beq_iff_eq, strcmp_eq_zero_iff] at hp
  have hmem : s.fs.files i ∈ entries s.fs := mem_entries.mpr ⟨i, hi, rfl⟩
  have hsplit := hmem
  rw [h.entriesInv.blanks] at hsplit
  rcases List.mem_append.mp hsplit with hblank | hlive
  · have hempty : (s.fs.files i).name = .empty := by rw [List.eq_of_mem_replicate hblank]; rfl
    rw [← hp.1.2, hempty] at hname
    exact absurd rfl hname
  · exact ⟨(mem_liveEntries.mp hlive).2, _, hmem, rfl⟩

end Sound

/-! ## Writing a text -/

/-- The content of slot `k` outlives a write that runs out of space: read
through the blocks the write took and gave back, it is still `d`. -/
def KeptOnFailure (fs : Bkfs) (k : Nat) (d : List UInt8) : Prop :=
  ∀ p < d.length, fileByte (splice (fs.inodes k).block 0 (writeBlocks fs k)) fs.blocks p = d.getD p 0

/-- The old content survives a failed write exactly if its blocks were not given to
somebody else. -/
theorem holds_writeFailed_iff {fs : Bkfs} {k : Nat} {d : List UInt8} (h : Holds fs k d) :
    Holds (writeFailed fs k (writeBlocks fs k)) k d ↔ KeptOnFailure fs k d := by
  have hinode : ((writeFailed fs k (writeBlocks fs k)).inodes k).block
      = splice (fs.inodes k).block 0 (writeBlocks fs k) := by
    rw [writeFailed_inode_self]
  constructor
  · intro hafter p hp
    rw [← hinode]
    exact hafter.bytes p hp
  · intro hkept
    obtain ⟨hsize, hblocks⟩ := writeFailed_size fs k (writeBlocks fs k) k
    refine ⟨hsize.trans h.size, hblocks.symm ▸ h.room, fun p hp => ?_⟩
    rw [hinode]
    exact hkept p hp

theorem table_getD (d : List UInt8) : table (fun p => d.getD p 0) d.length = d := by
  refine List.ext_getElem (length_table _ _) fun p hp hp' => ?_
  simp [table, hp']

theorem table_mem (text : CString) : table text.mem (strlen text) = text.bytes := table_getD text.bytes

/-- `fs_write_file(n, text, strlen(text))`, for a text that is not too long:
done, if the blocks are there, and failed otherwise. -/
theorem writeText_cases {s : KernelState} (hwf : WellFormed s.fs) {n : Nat} (hn : ¬ BadInode n)
    {text : CString} (hlen : strlen text ≤ inodeDirectBlocks * blockSize) :
    (blocksNeeded (strlen text) ≤ (writeBlocks s.fs (n - 1)).length ∧
      (writeText s n text).1 = fsSuccess ∧
      Holds (writeText s n text).2.fs (n - 1) text.bytes) ∨
    (¬ blocksNeeded (strlen text) ≤ (writeBlocks s.fs (n - 1)).length ∧
      (writeText s n text).1 ≠ fsSuccess ∧
      (writeText s n text).2.fs = writeFailed s.fs (n - 1) (writeBlocks s.fs (n - 1))) := by
  -- the text fits an inode, so a lack of blocks is the only way to fail
  have href : ¬ WriteRefused n (strlen text) := fun h =>
    h.elim hn fun hbig => absurd hbig (Nat.not_lt.mpr (blocksNeeded_of_le hlen).2)
  rw [writeText]
  rw [fsWriteFile_eq hwf.freeBlocks_lt, if_neg href]
  by_cases hroom : blocksNeeded (strlen text) ≤ (writeBlocks s.fs (n - 1)).length
  · rw [if_pos hroom]
    refine .inl ⟨hroom, rfl, ?_⟩
    have hfresh := (freshBlocks_writeBlocks s.fs (n - 1)).take (blocksNeeded (strlen text))
    have hsize : strlen text
        ≤ ((writeBlocks s.fs (n - 1)).take (blocksNeeded (strlen text))).length * blockSize := by
      rw [List.length_take_of_le hroom]
      exact le_blocksNeeded hlen
    rw [← table_mem text]
    exact holds_written hfresh hsize text.mem
  · rw [if_neg hroom]
    have herror : fsError ≠ fsSuccess := by decide
    exact .inr ⟨hroom, herror, rfl⟩

/-- A write leaves the entries alone. -/
theorem writeText_entries {s : KernelState} (hwf : WellFormed s.fs) (n : Nat) (text : CString) :
    (writeText s n text).2.fs.files = s.fs.files ∧
      (writeText s n text).2.fs.fileCount = s.fs.fileCount ∧
      (writeText s n text).2.fs.currentInode = s.fs.currentInode := by
  have hfs : (writeText s n text).2.fs = (fsWriteFile s.fs n text.mem (strlen text)).2 := rfl
  rw [hfs, fsWriteFile_eq hwf.freeBlocks_lt]
  split
  · exact ⟨rfl, rfl, rfl⟩
  · split
    · exact ⟨rfl, rfl, rfl⟩
    · exact ⟨rfl, rfl, rfl⟩

/-- What the slot of a file holds after a write, the file has. -/
theorem fileHas_writeText {s : KernelState} (hwf : WellFormed s.fs) {name : CString} {i : Nat}
    (hfound : findRegular s.fs name = some i) (hlive : LiveInode s.fs (s.fs.files i).inode)
    {text : CString} {d : List UInt8}
    (hafter : Holds (writeText s (s.fs.files i).inode text).2.fs ((s.fs.files i).inode - 1) d) :
    FileHas (writeText s (s.fs.files i).inode text).2.fs name i d := by
  obtain ⟨hfiles, hcount, hcur⟩ := writeText_entries hwf (s.fs.files i).inode text
  refine ⟨(findRegular_congr hfiles hcount hcur name).trans hfound, ?_, ?_⟩
  · rw [hfiles]
    exact liveInode_congr hfiles hcount hlive
  · rw [hfiles]
    exact hafter

/-- Writing to a file that is there: it has the text, or the blocks for it are
not there. -/
theorem writeFile_cases {s : KernelState} (h : Sound s.fs) {name : CString} {i : Nat}
    (hfound : findRegular s.fs name = some i) (hlive : LiveInode s.fs (s.fs.files i).inode)
    {text : CString} (hlen : strlen text ≤ inodeDirectBlocks * blockSize) :
    (blocksNeeded (strlen text) ≤ (writeBlocks s.fs ((s.fs.files i).inode - 1)).length ∧
      (writeText s (s.fs.files i).inode text).1 = fsSuccess ∧
      FileHas (writeText s (s.fs.files i).inode text).2.fs name i text.bytes) ∨
    (¬ blocksNeeded (strlen text) ≤ (writeBlocks s.fs ((s.fs.files i).inode - 1)).length ∧
      (writeText s (s.fs.files i).inode text).1 ≠ fsSuccess ∧
      (writeText s (s.fs.files i).inode text).2.fs = writeFailed s.fs ((s.fs.files i).inode - 1)
        (writeBlocks s.fs ((s.fs.files i).inode - 1))) := by
  rcases writeText_cases h.wellFormed (h.not_bad hlive) hlen with ⟨hroom, hret, hafter⟩ | hfailed
  · exact .inl ⟨hroom, hret, fileHas_writeText h.wellFormed hfound hlive hafter⟩
  · exact .inr hfailed

/-! ## A new file -/

section Created

variable {fs : Bkfs} {i : Nat} {name : Name} {parent : Nat} {type : UInt8}

/-- In the directory it was made in, a file no entry stood in the way of is the
last entry. -/
theorem findRegular_created (hnone : findRegular fs name.str = none) :
    findRegular (created fs i name fs.currentInode fileRegular) name.str = some fs.fileCount := by
  refine firstIndex_eq_some_iff.mpr ⟨Nat.lt_succ_self _, ?_, fun j hj => ?_⟩
  · rw [created_last]
    show (fs.currentInode == fs.currentInode && strcmp name.str name.str == 0
      && fileRegular == fileRegular) = true
    rw [strcmp_eq_zero_iff.mpr rfl, beq_self_eq_true, beq_self_eq_true]
    rfl
  · have hfiles : (created fs i name fs.currentInode fileRegular).files j = fs.files j :=
      Function.update_of_ne (Nat.ne_of_lt hj) _ _
    rw [hfiles]
    exact firstIndex_eq_none_iff.mp hnone j hj

/-- The new file is there and empty. -/
theorem fileHas_created (hnone : findRegular fs name.str = none) :
    FileHas (created fs i name fs.currentInode fileRegular) name.str fs.fileCount [] := by
  refine ⟨findRegular_created hnone, ?_, ?_⟩
  · rw [created_last]
    exact liveInode_created.mpr (.inr rfl)
  · rw [created_last]
    exact holds_created

/-- A new file has nothing to give back. -/
theorem writeBlocks_created (hwf : WellFormed fs) :
    writeBlocks (created fs i name parent type) i = takeable fs := by
  have hnone : ((created fs i name parent type).inodes i).blockList = [] := by
    rw [created_inode_self]
    rfl
  rw [writeBlocks, released]
  rw [hnone]
  show takeable { created fs i name parent type with
    blockUsed := mark fs.blockUsed [] false, freeBlocks := uint32 (fs.freeBlocks + 0) } = _
  rw [mark_nil, Nat.add_zero, uint32, Nat.mod_eq_of_lt hwf.freeBlocks_lt]
  rfl

end Created

/-! ## `execute_redirect_output` -/

/-- The text gets into the file: the file is there and the blocks it gives back
or leaves free are enough, or it can be made and the free ones are. -/
def Storable (fs : Bkfs) (filename : Name) (size : Nat) : Prop :=
  match findRegular fs filename.str with
  | some i => blocksNeeded size ≤ (writeBlocks fs ((fs.files i).inode - 1)).length
  | none => ¬ CreateRefused fs filename ∧ blocksNeeded size ≤ (takeable fs).length

/-- The regular file of that name in the current directory holds `d`. -/
def FileIs (fs : Bkfs) (name : CString) (d : List UInt8) : Prop := ∃ i, FileHas fs name i d

theorem FileHas.congr {fs fs' : Bkfs} {name : CString} {i : Nat} {d : List UInt8}
    (h : FileHas fs name i d) (hfiles : fs'.files = fs.files) (hcount : fs'.fileCount = fs.fileCount)
    (hcur : fs'.currentInode = fs.currentInode) (hinodes : fs'.inodes = fs.inodes)
    (hcells : fs'.blocks = fs.blocks) : FileHas fs' name i d := by
  refine ⟨(findRegular_congr hfiles hcount hcur name).trans h.found, ?_, ?_⟩
  · rw [hfiles]
    exact liveInode_congr hfiles hcount h.live
  · rw [hfiles]
    exact h.holds.of_inode_eq (by rw [hinodes]) fun b _ => by rw [hcells]

section Store

variable {s : KernelState} {filename : Name} {text : CString}

/-- A write that finds no block at all leaves the files as they are. -/
theorem fileIs_of_no_block (h : Sound s.fs) {n : Nat} (hn : ¬ BadInode n)
    (hlen : strlen text ≤ inodeDirectBlocks * blockSize)
    (hnone : writeBlocks s.fs (n - 1) = []) (hfull : ¬ blocksNeeded (strlen text) ≤ 0)
    (name : CString) (d : List UInt8) :
    FileIs (writeText s n text).2.fs name d ↔ FileIs s.fs name d := by
  obtain ⟨hfiles, hcount, hcur⟩ := writeText_entries h.wellFormed n text
  have hfs : (writeText s n text).2.fs = writeFailed s.fs (n - 1) [] := by
    rcases writeText_cases h.wellFormed hn hlen with ⟨hroom, -⟩ | ⟨-, -, hafter⟩
    · rw [hnone] at hroom
      exact absurd hroom hfull
    · rw [hafter, hnone]
  -- no block was spliced in, so nothing is written at all
  have hinodes : (writeText s n text).2.fs.inodes = s.fs.inodes := by
    rw [hfs]
    show spliceInode s.fs.inodes (n - 1) 0 [] = s.fs.inodes
    rw [spliceInode]
    rw [splice_nil]
    exact Function.update_eq_self (n - 1) s.fs.inodes
  have hcells : (writeText s n text).2.fs.blocks = s.fs.blocks := by
    rw [hfs]
    rfl
  constructor
  · rintro ⟨i, hfile⟩
    exact ⟨i, hfile.congr hfiles.symm hcount.symm hcur.symm hinodes.symm hcells.symm⟩
  · rintro ⟨i, hfile⟩
    exact ⟨i, hfile.congr hfiles hcount hcur hinodes hcells⟩

/-- The new file is there, with the text in it or, for want of a block, empty. -/
theorem createWithText_cases (h : Sound s.fs) (hfound : findRegular s.fs filename.str = none)
    (hlen : strlen text ≤ inodeDirectBlocks * blockSize) :
    (CreateRefused s.fs filename ∧ (createWithText s filename text).fs = s.fs) ∨
    (¬ CreateRefused s.fs filename ∧
      ((blocksNeeded (strlen text) ≤ (takeable s.fs).length ∧
          FileIs (createWithText s filename text).fs filename.str text.bytes) ∨
        (¬ blocksNeeded (strlen text) ≤ (takeable s.fs).length ∧
          FileIs (createWithText s filename text).fs filename.str []))) := by
  have hsound := h.fsCall (.create filename s.fs.currentInode fileRegular)
  have houtcome := fsCreateFile_cases s filename s.fs.currentInode fileRegular
  rw [createWithText]
  dsimp only [Srunix.fsCall] at hsound ⊢
  generalize fsCreateFile s filename s.fs.currentInode fileRegular = result at hsound houtcome ⊢
  obtain ⟨r, t⟩ := result
  dsimp only at hsound houtcome ⊢
  rcases houtcome with ⟨href, hret, hfs⟩ | ⟨href, i, hi, hmode, hret, hfs⟩
  · have hfailed : ¬ r = fsSuccess := by
      rw [hret]
      decide
    rw [if_neg hfailed, KernelState.writestring_fs, hfs]
    exact .inl ⟨href, rfl⟩
  · have hlast : t.fs.fileCount - 1 = s.fs.fileCount := by
      rw [hfs]
      exact Nat.add_sub_cancel ..
    have hnew : FileHas t.fs filename.str s.fs.fileCount [] := by
      rw [hfs]
      exact fileHas_created hfound
    have hblocks : writeBlocks t.fs ((t.fs.files s.fs.fileCount).inode - 1) = takeable s.fs := by
      rw [hfs]
      show writeBlocks _ (((created s.fs i filename s.fs.currentInode fileRegular).files
        s.fs.fileCount).inode - 1) = _
      rw [created_last]
      exact writeBlocks_created h.wellFormed
    rw [if_pos hret, hlast, ← hblocks]
    refine .inr ⟨href, ?_⟩
    rcases writeFile_cases hsound hnew.found hnew.live hlen with
      ⟨hroom, hret', hfile⟩ | ⟨hroom, hret', hafter⟩
    · rw [if_pos hret', KernelState.writestring_fs]
      exact .inl ⟨hroom, _, hfile⟩
    · -- the blocks it took are given back, and it had none before
      have hkept : Holds (writeText t (t.fs.files s.fs.fileCount).inode text).2.fs
          ((t.fs.files s.fs.fileCount).inode - 1) [] := by
        rw [hafter]
        exact (holds_writeFailed_iff hnew.holds).mpr fun p hp => nomatch hp
      rw [if_neg hret', KernelState.writestring_fs]
      exact .inr ⟨hroom, _, fileHas_writeText hsound.wellFormed hnew.found hnew.live hkept⟩

theorem Sound.createWithText (h : Sound s.fs) (filename : Name) (text : CString) :
    Sound (Srunix.createWithText s filename text).fs := by
  have hmade := h.fsCall (.create filename s.fs.currentInode fileRegular)
  rw [Srunix.createWithText]
  dsimp only
  split
  · split
    · exact hmade.writeText _ text
    · exact hmade.writeText _ text
  · exact hmade

theorem Sound.executeRedirectOutput (h : Sound s.fs) (filename : Name) (text : CString) :
    Sound (Srunix.executeRedirectOutput s filename text).fs := by
  rw [Srunix.executeRedirectOutput]
  split
  · dsimp only
    split
    · exact h.writeText _ text
    · exact h.writeText _ text
  · exact h.createWithText filename text

/-- **`execute_redirect_output`** on a text of a block at most: stored, or else
the file is as it was, or it was made and stayed empty. -/
theorem executeRedirectOutput_cases (h : Sound s.fs) (hname : filename.str.bytes ≠ [])
    (hlen : strlen text ≤ blockSize) :
    (Storable s.fs filename (strlen text) ∧
      FileIs (executeRedirectOutput s filename text).fs filename.str text.bytes) ∨
    (¬ Storable s.fs filename (strlen text) ∧
      ((findRegular (executeRedirectOutput s filename text).fs filename.str
            = findRegular s.fs filename.str ∧
          ∀ d, FileIs (executeRedirectOutput s filename text).fs filename.str d ↔
            FileIs s.fs filename.str d) ∨
        (findRegular s.fs filename.str = none ∧ text.bytes ≠ [] ∧
          FileIs (executeRedirectOutput s filename text).fs filename.str []))) := by
  have hfits : strlen text ≤ inodeDirectBlocks * blockSize := hlen.trans (by decide)
  rw [executeRedirectOutput, Storable]
  cases hfound : findRegular s.fs filename.str with
  | some i =>
    dsimp only
    have hlive := h.live_of_found hname hfound
    rcases writeFile_cases h hfound hlive hfits with ⟨hroom, hret, hfile⟩ | ⟨hroom, hret, -⟩
    · rw [if_pos hret]
      exact .inl ⟨hroom, i, hfile⟩
    · -- one block would have been enough, so there is none
      have hone : blocksNeeded (strlen text) ≤ 1 := by
        have hneeded := (blocksNeeded_of_le hfits).1
        simp only [blockSize] at hlen
        omega
      have hnone : writeBlocks s.fs ((s.fs.files i).inode - 1) = [] :=
        List.eq_nil_of_length_eq_zero (by omega)
      obtain ⟨hfiles, hcount, hcur⟩ := writeText_entries h.wellFormed (s.fs.files i).inode text
      rw [if_neg hret, KernelState.writestring_fs]
      refine .inr ⟨hroom, .inl ⟨?_, ?_⟩⟩
      · exact (findRegular_congr hfiles hcount hcur filename.str).trans hfound
      · exact fileIs_of_no_block h (h.not_bad hlive) hfits hnone (by omega) filename.str
  | none =>
    dsimp only
    rcases createWithText_cases h hfound hfits with ⟨href, hfs⟩ | ⟨href, ⟨hroom, hfile⟩ | ⟨hroom, hfile⟩⟩
    · rw [hfs]
      exact .inr ⟨fun hstore => hstore.1 href, .inl ⟨hfound, fun d => Iff.rfl⟩⟩
    · exact .inl ⟨⟨href, hroom⟩, hfile⟩
    · refine .inr ⟨fun hstore => hroom hstore.2, .inr ⟨rfl, fun hempty => hroom ?_, hfile⟩⟩
      have hzero : blocksNeeded (strlen text) = 0 := by
        rw [strlen]
        rw [hempty]
        decide
      rw [hzero]
      exact Nat.zero_le _

end Store

end Srunix
