import Srunix.Shell.Redirect

/-!
# Appending to a file

`execute_append_output` and `execute_cat_redirect(…, true)` read the file into
4096 bytes, put the text behind it in another 4096, and write that back. Nobody
adds up the lengths. `appendLaw_iff` says when old content, separator and text
come out as they should, or the failure shows and the old content is still
there.
-/

namespace Srunix

open Library

/-- A newline, if the content does not end in one. -/
def separator (old : List UInt8) : List UInt8 :=
  if old ≠ [] ∧ old.getLast? ≠ some 0x0A then [0x0A] else []

/-- Old content, separator, text. -/
def joined (old text : List UInt8) : List UInt8 := old ++ separator old ++ text

/-- One of the messages by which the two commands say that nothing was
appended. -/
def FailureShown (s s' : KernelState) : Prop :=
  s'.term = terminalWritestring s.term "Failed to append to file\n" ∨
    ∃ name, s'.term = terminalPrintf s.term "Source file not found or empty: %s\n" [.str name]

/-- Appending `text` to slot `k`, which holds `old`. -/
structure AppendLaw (s s' : KernelState) (reach k : Nat) (old text : List UInt8) : Prop where
  inBounds : reach ≤ maxFileSize
  content : Holds s'.fs k (joined old text) ∨ (FailureShown s s' ∧ Holds s'.fs k old)

/-- When that works, `copied` being what is read of the text: the parts fit the
array together, and then either they are whole and there are blocks for them,
or there are not and the old content outlives the attempt. -/
def AppendFits (fs : Bkfs) (k : Nat) (old text copied : List UInt8) : Prop :=
  let new := joined (old.take (maxFileSize - 1)) copied
  new.length < maxFileSize ∧
    if blocksNeeded new.length ≤ (writeBlocks fs k).length then
      old.length < maxFileSize ∧ copied = text
    else KeptOnFailure fs k old

/-! ## The arrays -/

theorem stringAt_bytes {content : Nat → UInt8} {n : Nat} {d : List UInt8} (hnul : 0 ∉ d)
    (h : table content n = d) : (stringAt content n).bytes = d := by
  show (table content n).takeWhile _ = d
  rw [h]
  exact List.takeWhile_eq_self_iff.mpr fun c hc => decide_eq_true fun hzero => hnul (hzero ▸ hc)

/-- The separator in the array is that of the string. -/
theorem newContent_bytes {r : ReadResult} {d : List UInt8} (hnul : 0 ∉ d)
    (h : table r.content r.bytesRead = d) (text : CString) :
    (newContent r text).str.bytes = joined d text.bytes := by
  have hold := stringAt_bytes hnul h
  have hlen : d.length = r.bytesRead := by rw [← h, length_table]
  -- the source looks at the last byte that was read
  have hlast : (r.bytesRead > 0 ∧ r.content (r.bytesRead - 1) ≠ 0x0A) ↔
      (d ≠ [] ∧ d.getLast? ≠ some 0x0A) := by
    rw [← List.length_pos_iff, hlen]
    refine and_congr_right fun hn => not_congr ?_
    have hpred : r.bytesRead - 1 < r.bytesRead := Nat.sub_lt hn Nat.one_pos
    rw [List.getLast?_eq_getElem?, ← h, length_table]
    simp [table, hpred]
  rw [newContent, joined, separator, TextBuffer.strcat, TextBuffer.strcpy]
  dsimp only
  by_cases hsep : d ≠ [] ∧ d.getLast? ≠ some 0x0A
  · rw [if_pos (hlast.mpr hsep), if_pos hsep]
    show (stringAt r.content r.bytesRead).bytes ++ CString.bytes "\n" ++ text.bytes = _
    rw [hold]
    rfl
  · rw [if_neg (fun h => hsep (hlast.mp h)), if_neg hsep, List.append_nil]
    show (stringAt r.content r.bytesRead).bytes ++ text.bytes = _
    rw [hold]

section Read

variable {fs : Bkfs} {n : Nat}

/-- A file read into an array: its first 4095 bytes, and a NUL behind them. -/
theorem readInto_of_holds (hwf : WellFormed fs) (hn : ¬ BadInode n) {d : List UInt8}
    (h : Holds fs (n - 1) d) (stack : Nat → UInt8) :
    (readInto fs n stack).bytesRead = min (maxFileSize - 1) d.length ∧
      table (readInto fs n stack).content (readInto fs n stack).bytesRead
        = d.take (maxFileSize - 1) ∧
      (readInto fs n stack).terminated = min (maxFileSize - 1) d.length + 1 ∧
      (readInto fs n stack).fs = accessed fs n := by
  obtain ⟨hret, hbuf⟩ := h.read hwf hn stack (maxFileSize - 1)
  have hcount : (readInto fs n stack).bytesRead = min (maxFileSize - 1) d.length := by
    show ((fsReadFile fs n stack (maxFileSize - 1)).1 % 2 ^ 32).toNat = _
    rw [hret]
    simp only [maxFileSize]
    omega
  have hreach : (readInto fs n stack).reach ≤ min (maxFileSize - 1) d.length := by
    show delivered fs n (maxFileSize - 1) ≤ _
    rw [delivered]
    rw [if_neg hn, readLoopCount_eq, h.size]
    exact Nat.min_le_left _ _
  refine ⟨hcount, ?_, ?_, ?_⟩
  -- the byte at a place is compared, since the rest of the buffer is the stack's
  · have hcontent : ∀ p, (readInto fs n stack).content p = _ := hbuf
    rw [hcount]
    refine List.ext_getElem (by simp [table]) fun p hp hp' => ?_
    have hlt : p < min (maxFileSize - 1) d.length := by
      rw [length_table] at hp
      exact hp
    obtain ⟨hfirst, hd⟩ : p < 4095 ∧ p < d.length := Nat.lt_min.mp hlt
    simp [table, hcontent, hfirst, hd]
  · rw [ReadResult.terminated]
    rw [hcount]
    exact Nat.max_eq_right (Nat.le_succ_of_le hreach)
  · show (fsReadFile fs n stack (maxFileSize - 1)).2.2 = _
    rw [fsReadFile, accessed]
    rw [if_neg hn, if_neg hn]

/-- The same with the text behind it. -/
theorem newContent_readInto (hwf : WellFormed fs) (hn : ¬ BadInode n) {old : CString}
    (h : Holds fs (n - 1) old.bytes) (stack : Nat → UInt8) (text : CString) :
    (newContent (readInto fs n stack) text).str.bytes
        = joined (old.bytes.take (maxFileSize - 1)) text.bytes ∧
      (max (readInto fs n stack).terminated (newContent (readInto fs n stack) text).reach
          ≤ maxFileSize ↔
        strlen (newContent (readInto fs n stack) text).str < maxFileSize) := by
  obtain ⟨-, htable, hterm, -⟩ := readInto_of_holds hwf hn h stack
  have hnul : 0 ∉ old.bytes.take (maxFileSize - 1) := fun h => old.nulFree (List.mem_of_mem_take h)
  refine ⟨newContent_bytes hnul htable text, ?_⟩
  rw [hterm, newContent_reach]
  simp only [maxFileSize]
  omega

end Read

/-! ## Writing it back -/

/-- A newline may come between. -/
theorem length_le_joined (old text : List UInt8) :
    old.length + text.length ≤ (joined old text).length := by
  rw [joined]
  simp only [List.length_append]
  omega

/-- Nothing is appended only if there is nothing to append. -/
theorem joined_eq_self {old text : List UInt8} (h : (joined old text).length = old.length) :
    text = [] ∧ joined old text = old := by
  have hrest : (separator old ++ text).length = 0 := by
    rw [joined] at h
    simp only [List.length_append] at h ⊢
    omega
  have hnil := List.eq_nil_of_length_eq_zero hrest
  refine ⟨(List.append_eq_nil_iff.mp hnil).2, ?_⟩
  rw [joined]
  rw [List.append_assoc, hnil, List.append_nil]

theorem take_whole {old : List UInt8} (h : old.length < maxFileSize) :
    old.take (maxFileSize - 1) = old :=
  List.take_of_length_le (Nat.le_sub_one_of_lt h)

/-- The whole parts are what is in the array, if the array has room. -/
theorem joined_take_eq_iff {old text copied : List UInt8}
    (hfit : (joined (old.take (maxFileSize - 1)) copied).length < maxFileSize) :
    joined (old.take (maxFileSize - 1)) copied = joined old text ↔
      old.length < maxFileSize ∧ copied = text := by
  constructor
  · intro heq
    have hlt : old.length < maxFileSize := by
      have hle := length_le_joined old text
      rw [← heq] at hle
      omega
    rw [take_whole hlt] at heq
    exact ⟨hlt, List.append_cancel_left heq⟩
  · rintro ⟨hlt, rfl⟩
    rw [take_whole hlt]

/-- `t` is the state with the arrays filled, `s'` the one after the write and
its message. -/
theorem appendLaw_write {s t s' : KernelState} (hwf : WellFormed t.fs)
    (hsame : SameStore s.fs t.fs) {n : Nat} (hn : ¬ BadInode n) {old text copied : List UInt8}
    (hold : Holds s.fs (n - 1) old) (hcopied : copied = text ∨ copied.length = maxFileSize - 1)
    {new : CString} (hnew : new.bytes = joined (old.take (maxFileSize - 1)) copied) {reach : Nat}
    (hreach : reach ≤ maxFileSize ↔ strlen new < maxFileSize)
    (hfs : s'.fs = (writeText t n new).2.fs)
    (hshown : (writeText t n new).1 ≠ fsSuccess → FailureShown s s') :
    AppendLaw s s' reach (n - 1) old text ↔ AppendFits s.fs (n - 1) old text copied := by
  have hstrlen : new.bytes.length = strlen new := rfl
  unfold AppendFits
  dsimp only
  rw [← hnew, hstrlen]
  by_cases hfit : strlen new < maxFileSize
  swap
  · -- past the end of the array, whatever the write does afterwards
    exact iff_of_false (fun h => hfit (hreach.mp h.inBounds)) fun h => hfit h.1
  have hlaw : AppendLaw s s' reach (n - 1) old text ↔
      Holds s'.fs (n - 1) (joined old text) ∨ (FailureShown s s' ∧ Holds s'.fs (n - 1) old) :=
    ⟨AppendLaw.content, fun h => ⟨hreach.mpr hfit, h⟩⟩
  rw [hlaw, and_iff_right hfit, hfs, ← hsame.writeBlocks]
  have hnewlen : (joined (old.take (maxFileSize - 1)) copied).length < maxFileSize := hnew ▸ hfit
  have hlen : strlen new ≤ inodeDirectBlocks * blockSize := by
    simp only [inodeDirectBlocks, blockSize, maxFileSize] at hfit ⊢
    omega
  rcases writeText_cases hwf hn hlen with ⟨hroom, -, hafter⟩ | ⟨hroom, hret, hafter⟩
  · rw [if_pos hroom, ← joined_take_eq_iff hnewlen, ← hnew]
    constructor
    · rintro (hjoined | ⟨-, hkept⟩)
      · exact hafter.unique hjoined
      · -- nothing was put behind the old content
        have heq := hafter.unique hkept
        have hlt : old.length < maxFileSize := by
          rw [← heq]
          exact hfit
        rw [hnew, take_whole hlt] at heq
        obtain ⟨hnil, -⟩ := joined_eq_self (congrArg List.length heq)
        rcases hcopied with rfl | hfull
        · rw [hnew, take_whole hlt]
        · rw [hnil] at hfull
          cases hfull
    · intro heq
      rw [← heq]
      exact .inl hafter
  · have hkept : Holds (writeText t n new).2.fs (n - 1) old ↔ KeptOnFailure s.fs (n - 1) old := by
      rw [hafter, holds_writeFailed_iff (hsame.holds hold)]
      unfold KeptOnFailure
      rw [hsame.writeBlocks, hsame.cells, (hsame.inode (n - 1)).2.2]
    rw [if_neg hroom, and_iff_right (hshown hret), ← hkept]
    refine ⟨fun h => h.elim (fun hjoined => ?_) id, .inr⟩
    -- the failed write keeps the size, so nothing can have been joined on
    have hsize : (joined old text).length = old.length := by
      rw [← hjoined.size, hafter, (writeFailed_size t.fs (n - 1) _ (n - 1)).1]
      exact (hsame.holds hold).size
    rw [(joined_eq_self hsize).2] at hjoined
    exact hjoined

/-- The end both commands share: the file is read behind the text's copy, and
what comes of it is written back. -/
theorem appendLaw_end {s t s' : KernelState} (hwf : WellFormed t.fs) (hsame : SameStore s.fs t.fs)
    {n : Nat} (hn : ¬ BadInode n) {old copy : CString} (hold : Holds s.fs (n - 1) old.bytes)
    {text : List UInt8} (hcopy : copy.bytes = text ∨ copy.bytes.length = maxFileSize - 1)
    (stack : Nat → UInt8) {reach : Nat}
    (hreach : reach ≤ maxFileSize ↔ max (readInto t.fs n stack).terminated
      (newContent (readInto t.fs n stack) copy).reach ≤ maxFileSize)
    (hfs : s'.fs = (writeText { t with fs := (readInto t.fs n stack).fs } n
      (newContent (readInto t.fs n stack) copy).str).2.fs)
    (hshown : (writeText { t with fs := (readInto t.fs n stack).fs } n
      (newContent (readInto t.fs n stack) copy).str).1 ≠ fsSuccess → FailureShown s s') :
    AppendLaw s s' reach (n - 1) old.bytes text ↔
      AppendFits s.fs (n - 1) old.bytes text copy.bytes := by
  obtain ⟨hnew, hroom⟩ := newContent_readInto hwf hn (hsame.holds hold) stack copy
  have hread := (readInto_of_holds hwf hn (hsame.holds hold) stack).2.2.2
  refine appendLaw_write ?_ ?_ hn hold hcopy hnew (hreach.trans hroom) hfs hshown
  · show WellFormed (readInto t.fs n stack).fs
    rw [hread]
    exact hwf.accessed n
  · show SameStore s.fs (readInto t.fs n stack).fs
    rw [hread]
    exact hsame.trans (sameStore_accessed t.fs n)

/-! ## The two commands -/

section Commands

variable {s : KernelState} {dest : Name} {d : Nat} {old : CString}

/-- `echo` with `>>`, to a file that is there. -/
theorem appendOutput_iff (h : Sound s.fs) (hdest : FileHas s.fs dest.str d old.bytes)
    (text : CString) (stack : Nat → UInt8) :
    AppendLaw s (executeAppendOutput s dest text stack) (appendOutputReach s dest text stack)
        ((s.fs.files d).inode - 1) old.bytes text.bytes ↔
      AppendFits s.fs ((s.fs.files d).inode - 1) old.bytes text.bytes text.bytes := by
  have hbad := h.not_bad hdest.live
  have hfiles : (readInto s.fs (s.fs.files d).inode stack).fs.files = s.fs.files := by
    rw [(readInto_of_holds h.wellFormed hbad hdest.holds stack).2.2.2]
    exact (sameStore_accessed s.fs (s.fs.files d).inode).files
  rw [executeAppendOutput_eq hdest.found]
  rw [appendOutputReach]
  rw [hdest.found]
  dsimp only
  rw [hfiles]
  refine appendLaw_end h.wellFormed (.refl s.fs) hbad hdest.holds (.inl rfl) stack Iff.rfl ?_ ?_
  · split
    · rfl
    · rfl
  · intro hfailed
    rw [if_neg hfailed]
    exact .inl rfl

/-- What `cat` reads of its source, it reads whole or up to the end of the array. -/
theorem take_whole_or_full (text : List UInt8) :
    text.take (maxFileSize - 1) = text ∨
      (text.take (maxFileSize - 1)).length = maxFileSize - 1 := by
  rw [List.length_take]
  by_cases hlen : text.length < maxFileSize
  · exact .inl (take_whole hlen)
  · exact .inr (Nat.min_eq_left ((Nat.sub_le _ _).trans (Nat.not_lt.mp hlen)))

/-- `cat` with `>>`, to a file that is there. -/
theorem catRedirect_iff (h : Sound s.fs) (hdest : FileHas s.fs dest.str d old.bytes)
    {source text : CString} {i : Nat} (hsource : FileHas s.fs source i text.bytes)
    (stack stack' : Nat → UInt8) :
    AppendLaw s (executeCatRedirect s source dest true stack stack').1
        (executeCatRedirect s source dest true stack stack').2
        ((s.fs.files d).inode - 1) old.bytes text.bytes ↔
      text.bytes = [] ∨ AppendFits s.fs ((s.fs.files d).inode - 1) old.bytes text.bytes
        (text.bytes.take (maxFileSize - 1)) := by
  obtain ⟨hcount, htext, hterm, hread⟩ :=
    readInto_of_holds h.wellFormed (h.not_bad hsource.live) hsource.holds stack
  rw [executeCatRedirect]
  rw [hsource.found]
  dsimp only
  generalize readInto s.fs (s.fs.files i).inode stack = r at hcount htext hterm hread ⊢
  have hsame : SameStore s.fs r.fs := hread ▸ sameStore_accessed s.fs (s.fs.files i).inode
  have hwfr : WellFormed r.fs := hread ▸ h.wellFormed.accessed (s.fs.files i).inode
  have hzero : r.bytesRead = 0 ↔ text.bytes = [] := by
    rw [hcount, ← List.length_eq_zero_iff]
    simp only [maxFileSize]
    omega
  by_cases hempty : r.bytesRead = 0
  · -- refused, with a message, and nothing was to be appended
    have hnone := hzero.mp hempty
    rw [if_pos hempty]
    refine iff_of_true ⟨?_, .inr ⟨.inr ⟨source, rfl⟩, hsame.holds hdest.holds⟩⟩ (.inl hnone)
    have hle : r.reach ≤ r.terminated := Nat.le_max_left _ _
    rw [hnone] at hterm
    exact hle.trans (hterm.trans_le (by decide))
  · have hcopy : (stringAt r.content r.bytesRead).bytes = text.bytes.take (maxFileSize - 1) :=
      stringAt_bytes (fun h => text.nulFree (List.mem_of_mem_take h)) htext
    have hterminated : r.terminated ≤ maxFileSize := by
      rw [hterm]
      simp only [maxFileSize]
      omega
    rw [if_neg hempty, or_iff_right (fun hnone => hempty (hzero.mpr hnone)),
      findRegular_congr hsame.files hsame.fileCount hsame.currentInode, hdest.found]
    dsimp only
    rw [hsame.files, ← hcopy]
    refine appendLaw_end (t := { s with fs := r.fs }) hwfr hsame (h.not_bad hdest.live)
      hdest.holds (hcopy ▸ take_whole_or_full text.bytes) stack' ?_ ?_ ?_
    · rw [Nat.max_le]
      exact and_iff_right hterminated
    · split
      · rfl
      · rfl
    · intro hfailed
      rw [if_neg hfailed]
      exact .inl rfl

/-- **When appending works**, for every file and every text, by `echo … >>` and
by `cat … >>`. -/
theorem appendLaw_iff (hs : Reachable s) (hdest : FileHas s.fs dest.str d old.bytes) :
    (∀ (text : CString) (stack : Nat → UInt8),
      AppendLaw s (executeAppendOutput s dest text stack) (appendOutputReach s dest text stack)
          ((s.fs.files d).inode - 1) old.bytes text.bytes ↔
        AppendFits s.fs ((s.fs.files d).inode - 1) old.bytes text.bytes text.bytes) ∧
    ∀ (source text : CString) (i : Nat), FileHas s.fs source i text.bytes →
      ∀ stack stack' : Nat → UInt8,
        AppendLaw s (executeCatRedirect s source dest true stack stack').1
            (executeCatRedirect s source dest true stack stack').2
            ((s.fs.files d).inode - 1) old.bytes text.bytes ↔
          text.bytes = [] ∨ AppendFits s.fs ((s.fs.files d).inode - 1) old.bytes text.bytes
            (text.bytes.take (maxFileSize - 1)) := by
  refine ⟨fun text stack => ?_, fun source text i hsource stack stack' => ?_⟩
  · exact appendOutput_iff hs.sound hdest text stack
  · exact catRedirect_iff hs.sound hdest hsource stack stack'

end Commands

/-! ## One file -/

/-- `/fetch` with a text in it. -/
theorem fileHas_fetch {text : CString} (hlen : strlen text ≤ inodeDirectBlocks * blockSize) :
    FileHas (writeText kernelMain 8 text).2.fs "fetch" 12 text.bytes := by
  have hfacts : findRegular kernelMain.fs "fetch" = some 12 ∧ (kernelMain.fs.files 12).inode = 8 ∧
      inodeDirectBlocks ≤ (writeBlocks kernelMain.fs 7).length := by
    decide +kernel
  obtain ⟨hfound, hinode, hroom⟩ := hfacts
  have hlive : LiveInode kernelMain.fs (kernelMain.fs.files 12).inode := by
    rw [hinode]
    exact liveInode_fetch
  have hsound : Sound kernelMain.fs := reachable_kernelMain.sound
  rcases writeFile_cases hsound hfound hlive hlen with ⟨-, -, hfile⟩ | ⟨hfull, -⟩
  · rw [hinode] at hfile
    exact hfile
  · rw [hinode] at hfull
    exact absurd ((blocksNeeded_of_le hlen).2.trans hroom) hfull

theorem reachable_fetch {text : CString} (hlen : strlen text < 2 ^ 32) :
    Reachable (writeText kernelMain 8 text).2 := by
  have hreach : Reachable (callAll kernelMain [.write 8 text.mem (strlen text)]) := by
    refine reachable_callAll fun c hc => ?_
    obtain rfl := List.mem_singleton.mp hc
    exact ⟨by decide, hlen⟩
  exact hreach

/-- `echo b >> fetch`, with one byte in it. -/
theorem appendLaw_iff_fetch :
    let s := (writeText kernelMain 8 "a").2
    AppendLaw s (executeAppendOutput s "fetch" "b" fun _ => 0)
        (appendOutputReach s "fetch" "b" fun _ => 0) ((s.fs.files 12).inode - 1) (CString.bytes "a")
        (CString.bytes "b") ↔
      AppendFits s.fs ((s.fs.files 12).inode - 1) (CString.bytes "a") (CString.bytes "b")
        (CString.bytes "b") := by
  intro s
  have hfile : FileHas s.fs (Name.ofString "fetch").str 12 (CString.bytes "a") :=
    fileHas_fetch (by decide)
  have hreach : Reachable s := reachable_fetch (by decide)
  exact (appendLaw_iff hreach hfile).1 "b" fun _ => 0

/-- A file that fills the array, and one more byte: newline, byte and NUL end up
past the end. -/
theorem not_appendLaw_of_full {full : CString} (hlen : strlen full = maxFileSize - 1) :
    let s := (writeText kernelMain 8 full).2
    FileHas s.fs "fetch" 12 full.bytes ∧
      ¬ AppendLaw s (executeAppendOutput s "fetch" "b" fun _ => 0)
        (appendOutputReach s "fetch" "b" fun _ => 0) ((s.fs.files 12).inode - 1)
        full.bytes (CString.bytes "b") := by
  intro s
  have hreach : Reachable s := reachable_fetch (by rw [hlen]; decide)
  have hfile : FileHas s.fs (Name.ofString "fetch").str 12 full.bytes :=
    fileHas_fetch (by rw [hlen]; decide)
  refine ⟨hfile, fun hlaw => ?_⟩
  obtain ⟨hshort, -⟩ := (appendOutput_iff hreach.sound hfile "b" fun _ => 0).mp hlaw
  have hbytes : full.bytes.length = maxFileSize - 1 := hlen
  have hlong := length_le_joined (full.bytes.take (maxFileSize - 1)) (CString.bytes "b")
  have hone : (CString.bytes "b").length = 1 := by decide
  rw [List.length_take, hbytes, hone] at hlong
  simp only [maxFileSize] at hlong hshort
  omega

/-- 4095 bytes. -/
def fullText : CString :=
  ⟨List.replicate (maxFileSize - 1) 0x61, fun h => nomatch List.eq_of_mem_replicate h⟩

theorem not_appendLaw_fullText :
    let s := (writeText kernelMain 8 fullText).2
    FileHas s.fs "fetch" 12 fullText.bytes ∧
      ¬ AppendLaw s (executeAppendOutput s "fetch" "b" fun _ => 0)
        (appendOutputReach s "fetch" "b" fun _ => 0) ((s.fs.files 12).inode - 1)
        fullText.bytes (CString.bytes "b") :=
  not_appendLaw_of_full List.length_replicate

end Srunix
