import Srunix.Console.Command

/-!
# `echo`, to a file and to the screen

`echo w1 … wk > f` goes through the copy in lower case and the nine tokens;
`echo w1 … wk` cuts the line as it was typed and prints it word by word.
`echoStored_iff` says which lines store what was typed, `echoPaths_iff` when the
screen and the file show the same, `catWhole_iff` which files `cat` shows whole.
-/

namespace Srunix

open Library

/-- `echo w1 … wk`. -/
def echoLine (ws : List Word) : CString := spaced ((wordEcho :: ws).map Word.str)

/-- `echo w1 … wk > f`. -/
def echoRedirectLine (ws : List Word) (f : Word) : CString :=
  spaced ((wordEcho :: (ws ++ [redirectWord false, f])).map Word.str)

/-- What was typed between `echo` and the redirection. -/
def typed (ws : List Word) : CString := spaced (ws.map Word.str)

/-! ## The lines, parsed -/

section Parse

variable {ws : List Word} (hws : ∀ w ∈ ws, isRedirect w.str = false)

include hws

/-- No word becomes a redirection in lower case. -/
theorem isRedirect_folded : ∀ arg ∈ ws.map (fun w => foldCase w.str), isRedirect arg = false := by
  intro arg harg
  obtain ⟨w, hw, rfl⟩ := List.mem_map.mp harg
  rw [isRedirect_foldCase]
  exact hws w hw

/-- Up to six words, the redirection and the file name are among the tokens. -/
theorem parseCommand_short (hk : ws.length ≤ 6) (f : Word) :
    parseCommand (echoRedirectLine ws f)
      = .redirectOutput (foldCase f.str) (foldCase (typed ws)) := by
  have hall : (wordEcho :: (ws ++ [redirectWord false, f])).take 9
      = wordEcho :: (ws ++ [redirectWord false, f]) := by
    refine List.take_of_length_le ?_
    simp only [List.length_cons, List.length_append, List.length_nil]
    omega
  have hargs : tokens (foldCase (echoRedirectLine ws f)) =
      foldCase wordEcho.str :: (ws.map (fun w => foldCase w.str) ++
        foldCase (redirectWord false).str :: [foldCase f.str]) := by
    rw [echoRedirectLine]
    rw [tokens_foldCase_spaced, hall, List.map_cons, List.map_append]
    rfl
  rw [parseCommand_echo_redirect hargs (isRedirect_folded hws) (isRedirect_redirectWord false)]
  rw [typed]
  rw [foldCase_spaced, List.map_map]
  rfl

/-- From seven words on, the file name is not. -/
theorem parseCommand_long (hk : 7 ≤ ws.length) (f : Word) :
    parseCommand (echoRedirectLine ws f) = .echo (tokens (echoRedirectLine ws f)) := by
  have hargs : tokens (foldCase (echoRedirectLine ws f)) = foldCase wordEcho.str ::
      ((ws ++ [redirectWord false, f]).take 8).map fun w => foldCase w.str := by
    rw [echoRedirectLine]
    rw [tokens_foldCase_spaced, List.take_succ_cons, List.map_cons]
  refine (parseCommand_plain hargs (List.cons_ne_nil _ _) fun pos hpos => ?_).trans
    (plainCommand_echo _ _)
  rcases Nat.eq_or_lt_of_le hk with hseven | hmore
  · -- the redirection is the last token there is room for
    have htake : (ws ++ [redirectWord false, f]).take 8 = ws ++ [redirectWord false] := by
      rw [List.take_append, ← hseven, List.take_of_length_le (by omega)]
      rfl
    rw [htake, List.map_append] at hpos ⊢
    have hlast := redirectPos_of_mem (foldCase wordEcho.str) (ws.map fun w => foldCase w.str) []
      (isRedirect_folded hws) (isRedirect_redirectWord false)
    obtain rfl := Option.some.inj (hlast.symm.trans hpos)
    simp
  · have htake : (ws ++ [redirectWord false, f]).take 8 = ws.take 8 :=
      List.take_append_of_le_length hmore
    rw [htake] at hpos
    have hnone := redirectPos_of_none (foldCase wordEcho.str)
      (isRedirect_folded fun w hw => hws w (List.mem_of_mem_take (i := 8) hw))
    cases hnone.symm.trans hpos

/-- Without a redirection the words are printed as they were typed. -/
theorem parseCommand_echoLine (hk : ws.length ≤ 8) :
    parseCommand (echoLine ws) = .echo ((wordEcho :: ws).map Word.str) := by
  have hargs : tokens (foldCase (echoLine ws)) = foldCase wordEcho.str :: (ws.map fun w => foldCase w.str) := by
    rw [echoLine]
    rw [tokens_foldCase_spaced, List.take_of_length_le (Nat.succ_le_succ hk), List.map_cons]
  have hcmd : tokens (echoLine ws) = (wordEcho :: ws).map Word.str := by
    rw [echoLine]
    rw [tokens_spaced, List.take_of_length_le (Nat.succ_le_succ hk)]
  refine (parseCommand_plain hargs (List.cons_ne_nil _ _) fun pos hpos => ?_).trans ?_
  · cases (redirectPos_of_none _ (isRedirect_folded hws)).symm.trans hpos
  · rw [plainCommand_echo, hcmd]

end Parse

/-! ## What is stored -/

/-- A blank for each word but the first. -/
theorem strlen_spaced (ws : List CString) :
    strlen (spaced ws) = (ws.map CString.bytes).flatten.length + (ws.length - 1) := by
  have hbytes : strlen (spaced ws) = (spaced ws).bytes.length := rfl
  rw [hbytes, spaced_bytes, length_intercalate, List.length_map]

theorem strlen_foldCase (s : CString) : strlen (foldCase s) = strlen s := List.length_map ..

theorem strlen_typed_le (ws : List Word) (f : Word) :
    strlen (typed ws) ≤ strlen (echoRedirectLine ws f) := by
  rw [typed, echoRedirectLine]
  rw [strlen_spaced, strlen_spaced]
  simp only [List.map_cons, List.map_append, List.flatten_cons, List.flatten_append,
    List.length_cons, List.length_append, List.length_map]
  omega

/-- What a line can store fits a block. -/
theorem strlen_typed_le_block {ws : List Word} {f : Word}
    (hline : strlen (echoRedirectLine ws f) ≤ 255) : strlen (typed ws) ≤ blockSize :=
  ((strlen_typed_le ws f).trans hline).trans (by decide)

theorem typed_bytes (ws : List Word) :
    (typed ws).bytes = [(0x20 : UInt8)].intercalate (ws.map fun w => w.str.bytes) := by
  rw [typed]
  rw [spaced_bytes, List.map_map]
  rfl

theorem foldCase_typed {ws : List Word} (hlower : ∀ w ∈ ws, foldCase w.str = w.str) :
    foldCase (typed ws) = typed ws := by
  rw [typed]
  rw [foldCase_spaced, List.map_map]
  exact congrArg spaced (List.map_congr_left hlower)

/-- The name the shell sees, which puts every line in lower case. -/
def shellName (f : Word) (hfits : f.str.bytes.length ≤ 30) : Name :=
  ⟨foldCase f.str, (strlen_foldCase f.str).trans_le hfits⟩

/-- A name that fits is looked up as it is. -/
theorem runCommand_redirectOutput (rest : KernelState → Command → KernelState)
    (stack stack' : Nat → UInt8) (s : KernelState) (filename : Name) (text : CString) :
    runCommand rest stack stack' s (.redirectOutput filename.str text)
      = executeRedirectOutput s filename text := by
  have hname : entryName filename.str = some filename := dif_pos filename.fits
  show ((entryName filename.str).map _).getD _ = _
  rw [hname]
  rfl

/-- Up to six words, the text goes into the file, in lower case. -/
theorem executeCommand_short (rest : KernelState → Command → KernelState) (stack stack' : Nat → UInt8)
    (s : KernelState) {ws : List Word} (hws : ∀ w ∈ ws, isRedirect w.str = false)
    (hk : ws.length ≤ 6) (f : Word) (hfits : f.str.bytes.length ≤ 30) :
    executeCommand rest stack stack' s (echoRedirectLine ws f)
      = executeRedirectOutput s (shellName f hfits) (foldCase (typed ws)) := by
  rw [executeCommand]
  rw [parseCommand_short hws hk f]
  exact runCommand_redirectOutput rest stack stack' s (shellName f hfits) (foldCase (typed ws))

/-- From seven words on, nothing happens to the files. -/
theorem executeCommand_long (rest : KernelState → Command → KernelState) (stack stack' : Nat → UInt8)
    (s : KernelState) {ws : List Word} (hws : ∀ w ∈ ws, isRedirect w.str = false)
    (hk : 7 ≤ ws.length) (f : Word) :
    (executeCommand rest stack stack' s (echoRedirectLine ws f)).fs = s.fs := by
  rw [executeCommand]
  rw [parseCommand_long hws hk f]
  rfl

/-- **Which lines store what was typed**: those of six words at most without a
capital, if there is room. Of longer ones nothing is stored. -/
theorem echoStored_iff (rest : KernelState → Command → KernelState) (stack stack' : Nat → UInt8)
    {s : KernelState} (hs : Reachable s) {ws : List Word} (hws : ∀ w ∈ ws, isRedirect w.str = false)
    {f : Word} (hf : foldCase f.str = f.str) (hfits : f.str.bytes.length ≤ 30)
    (hline : strlen (echoRedirectLine ws f) ≤ 255) :
    FileIs (executeCommand rest stack stack' s (echoRedirectLine ws f)).fs f.str (typed ws).bytes ↔
      (ws.length ≤ 6 ∧ foldCase (typed ws) = typed ws ∧
        Storable s.fs ⟨f.str, hfits⟩ (strlen (typed ws))) ∨
      ((7 ≤ ws.length ∨ ¬ Storable s.fs ⟨f.str, hfits⟩ (strlen (typed ws))) ∧
        FileIs s.fs f.str (typed ws).bytes) := by
  by_cases hk : ws.length ≤ 6
  swap
  · have hlong : 7 ≤ ws.length := Nat.not_le.mp hk
    rw [executeCommand_long rest stack stack' s hws hlong f]
    constructor
    · intro h
      exact .inr ⟨.inl hlong, h⟩
    · rintro (⟨hshort, -⟩ | ⟨-, h⟩)
      · exact absurd hshort hk
      · exact h
  have hname : shellName f hfits = ⟨f.str, hfits⟩ := by
    rw [shellName]
    simp only [hf]
  rw [executeCommand_short rest stack stack' s hws hk f hfits, hname]
  have hlen : strlen (foldCase (typed ws)) ≤ blockSize :=
    (strlen_foldCase _).trans_le (strlen_typed_le_block hline)
  have hcases := @executeRedirectOutput_cases s ⟨f.str, hfits⟩ _ hs.sound f.nonempty hlen
  rw [strlen_foldCase] at hcases
  have hnotlong : ¬ 7 ≤ ws.length := Nat.not_le.mpr (Nat.lt_succ_of_le hk)
  rw [and_iff_right hk, or_iff_right hnotlong]
  rcases hcases with ⟨hstore, hfile⟩ | ⟨hno, ⟨-, hsame⟩ | ⟨hnone, hne, hempty⟩⟩
  · -- what is stored is the text in lower case
    rw [or_iff_left fun h => h.1 hstore, and_iff_left hstore]
    constructor
    · intro h
      exact CString.ext (hfile.unique h)
    · intro heq
      have hbytes : (foldCase (typed ws)).bytes = (typed ws).bytes := congrArg CString.bytes heq
      rw [← hbytes]
      exact hfile
  · rw [or_iff_right fun h => hno h.2, and_iff_right hno]
    exact hsame _
  · -- the file was made and stayed empty, and the text is not
    refine iff_of_false (fun h => hne ?_) ?_
    · have hnil := hempty.unique h
      show (typed ws).bytes.map toLower = []
      rw [← hnil]
      rfl
    · rintro (⟨-, hstore⟩ | ⟨-, i, hi⟩)
      · exact hno hstore
      · cases hnone.symm.trans hi.found

/-- What it takes to have room: a name no other kind of entry has, something
free of everything, and a counter of free blocks that stays below `2 ^ 32` when
the old blocks of the file come back. -/
theorem storable_of_free {fs : Bkfs} (h : Sound fs) {f : Name} (hvalid : isValidFilename f.str = true)
    (hkind : ∀ e ∈ entries fs, e.parentInode = fs.currentInode → e.name = f.str → e.type = fileRegular)
    (hentry : fs.fileCount < maxFiles) (hcounter : fs.freeInodes ≠ 0) (hinode : InodeFree fs)
    (hblock : ∃ b < maxBlocks, fs.blockUsed b = false) (hfree : fs.freeBlocks ≠ 0)
    (hwrap : fs.freeBlocks + inodeDirectBlocks < 2 ^ 32) {size : Nat} (hsize : size ≤ blockSize) :
    Storable fs f size := by
  obtain ⟨b, hb, hunused⟩ := hblock
  have hone : blocksNeeded size ≤ 1 := by
    have hneeded := (blocksNeeded_of_le (hsize.trans (by decide))).1
    simp only [blockSize] at hsize
    omega
  rw [Storable]
  cases hfound : findRegular fs f.str with
  | some i =>
    refine hone.trans (takeable_pos ?_ hb ?_)
    · -- with the old blocks back, the counter must not come round to zero
      have hreleased := List.length_filter_le (fun b => decide (b ≠ 0 ∧ b < maxBlocks))
        (fs.inodes ((fs.files i).inode - 1)).blockList
      have hblocks := h.wellFormed.blocks_le ((fs.files i).inode - 1)
      rw [Inode.length_blockList] at hreleased
      show uint32 (fs.freeBlocks + (releasable _).length) ≠ 0
      have hsmall : fs.freeBlocks + (releasable
          (fs.inodes ((fs.files i).inode - 1)).blockList).length < 2 ^ 32 :=
        Nat.lt_of_le_of_lt (Nat.add_le_add_left (hreleased.trans hblocks) _) hwrap
      rw [uint32, Nat.mod_eq_of_lt hsmall]
      omega
    · show mark fs.blockUsed _ false b = false
      rw [mark]
      split
      · rfl
      · exact hunused
  | none =>
    refine ⟨not_createRefused_iff.mpr ⟨hvalid, ?_, hentry, hcounter, hinode⟩,
      hone.trans (takeable_pos hfree hb hunused)⟩
    rintro ⟨e, he, hparent, hname⟩
    -- the entry with the name would be the file the scan did not find
    obtain ⟨i, hi, rfl⟩ := mem_entries.mp he
    have hnot := firstIndex_eq_none_iff.mp hfound i hi
    have htype := hkind _ he hparent hname
    simp [hparent, hname, htype, strcmp_eq_zero_iff] at hnot

/-- `echo fetch > note`, after boot. -/
theorem echoStored_iff_note :
    FileIs (executeCommand (fun s _ => s) (fun _ => 0) (fun _ => 0) kernelMain
        (echoRedirectLine [wordFetch] wordNote)).fs wordNote.str (typed [wordFetch]).bytes ↔
      (1 ≤ 6 ∧ foldCase (typed [wordFetch]) = typed [wordFetch] ∧
        Storable kernelMain.fs "note" (strlen (typed [wordFetch]))) ∨
      ((7 ≤ 1 ∨ ¬ Storable kernelMain.fs "note" (strlen (typed [wordFetch]))) ∧
        FileIs kernelMain.fs wordNote.str (typed [wordFetch]).bytes) :=
  echoStored_iff (fun s _ => s) (fun _ => 0) (fun _ => 0) reachable_kernelMain (by decide)
    (by decide) (by decide) (by decide)

/-- A new file can be made after boot, and written. -/
theorem storable_note {size : Nat} (hsize : size ≤ blockSize) : Storable kernelMain.fs "note" size := by
  have hfacts : (∀ e ∈ entries kernelMain.fs, e.name ≠ (Name.ofString "note").str) ∧
      kernelMain.fs.fileCount < maxFiles ∧ kernelMain.fs.freeInodes ≠ 0 ∧ InodeFree kernelMain.fs ∧
      kernelMain.fs.blockUsed 0 = false ∧ kernelMain.fs.freeBlocks = 1024 := by
    decide +kernel
  obtain ⟨hname, hentry, hcounter, hinode, hblock, hfree⟩ := hfacts
  exact storable_of_free reachable_kernelMain.sound (by decide) (fun e he _ h => absurd h (hname e he))
    hentry hcounter hinode ⟨0, by decide, hblock⟩ (by rw [hfree]; decide) (by rw [hfree]; decide) hsize

/-- A word that is not the same in lower case. -/
def wordCapital : Word := ⟨"A", by decide, by decide⟩

/-- Seven words, and one word with a capital. -/
theorem not_stored_note :
    ¬ FileIs (executeCommand (fun s _ => s) (fun _ => 0) (fun _ => 0) kernelMain
        (echoRedirectLine (List.replicate 7 wordFetch) wordNote)).fs wordNote.str
        (typed (List.replicate 7 wordFetch)).bytes ∧
      ¬ FileIs (executeCommand (fun s _ => s) (fun _ => 0) (fun _ => 0) kernelMain
        (echoRedirectLine [wordCapital] wordNote)).fs wordNote.str (typed [wordCapital]).bytes := by
  have hnone : findRegular kernelMain.fs wordNote.str = none := by decide +kernel
  constructor
  · rintro ⟨i, hi⟩
    rw [executeCommand_long _ _ _ _ (by decide) (by decide)] at hi
    cases hnone.symm.trans hi.found
  · intro h
    have hparse : parseCommand (echoRedirectLine [wordCapital] wordNote)
        = .redirectOutput (Name.ofString "note").str "a" :=
      parseCommand_short (by decide) (by decide) wordNote
    rw [executeCommand] at h
    rw [hparse, runCommand_redirectOutput] at h
    rcases @executeRedirectOutput_cases kernelMain "note" "a" reachable_kernelMain.sound (by decide)
      (by decide) with ⟨-, hfile⟩ | ⟨hno, -⟩
    · exact absurd (hfile.unique h) (by decide)
    · exact hno (storable_note (by decide))

/-! ## What is printed -/

/-- `cat f`. -/
def catLine (f : Word) : CString := spaced [wordCat.str, f.str]

/-- The characters a line sends to the terminal, if all it does is print. -/
def sentBy (fs : Bkfs) (stack : Nat → UInt8) (cmd : CString) : Option (List UInt8) :=
  (printCommand fs stack (parseCommand cmd)).map fun p => p.1.flatMap TermCall.sent

/-- What `echo w1 … wk` sends is what `cat f` sends after `echo w1 … wk > f`. -/
def EchoPathsAgree (rest : KernelState → Command → KernelState) (stack stack' : Nat → UInt8)
    (s : KernelState) (ws : List Word) (f : Word) : Prop :=
  ∃ sent, sentBy s.fs stack (echoLine ws) = some sent ∧
    sentBy (executeCommand rest stack stack' s (echoRedirectLine ws f)).fs stack (catLine f) = some sent

/-- `echo` sends the words with nothing between. -/
theorem executeEcho_sent (args : List CString) :
    (executeEcho args).flatMap TermCall.sent = ((args.drop 1).map CString.bytes).flatten ++ [0x0A] := by
  have hwords : ∀ l : List CString, (l.flatMap fun arg => [TermCall.writestring arg, .writestring ""]).flatMap
      TermCall.sent = (l.map CString.bytes).flatten := by
    intro l
    induction l with
    | nil => rfl
    | cons arg l ih =>
      rw [List.flatMap_cons, List.flatMap_append, ih]
      show (arg.bytes ++ ([] ++ [])) ++ (l.map CString.bytes).flatten = _
      rw [List.append_nil, List.append_nil]
      rfl
  rw [executeEcho]
  rw [List.flatMap_append, hwords]
  rfl

/-- What the line `echo` with words sends. -/
theorem sentBy_echoLine (fs : Bkfs) (stack : Nat → UInt8) {ws : List Word}
    (hws : ∀ w ∈ ws, isRedirect w.str = false) (hk : ws.length ≤ 8) :
    sentBy fs stack (echoLine ws) = some ((ws.map fun w => w.str.bytes).flatten ++ [0x0A]) := by
  rw [sentBy]
  rw [parseCommand_echoLine hws hk]
  show some ((executeEcho ((wordEcho :: ws).map Word.str)).flatMap TermCall.sent) = _
  rw [executeEcho_sent, List.map_cons, List.drop_succ_cons, List.drop_zero, List.map_map]
  rfl

theorem parseCommand_catLine (f : Word) : parseCommand (catLine f) = .cat (some (foldCase f.str)) := by
  have hargs : tokens (foldCase (catLine f)) = [foldCase wordCat.str, foldCase f.str] :=
    tokens_foldCase_spaced [wordCat, f]
  refine (parseCommand_plain hargs (List.cons_ne_nil _ _) fun pos hpos => ?_).trans
    (plainCommand_cat _ _)
  cases hf : isRedirect (foldCase f.str) with
  | true =>
    obtain rfl := Option.some.inj ((redirectPos_of_mem _ [] [] (fun _ h => nomatch h) hf).symm.trans hpos)
    exact Nat.le_refl _
  | false =>
    have hnone : redirectPos [foldCase wordCat.str, foldCase f.str] = none :=
      redirectPos_of_none _ fun arg harg => List.mem_singleton.mp harg ▸ hf
    cases hnone.symm.trans hpos

/-- `cat` reads into a buffer of one block: what it sends is the file up to
there, and a newline. -/
theorem executeCat_take {fs : Bkfs} (h : Sound fs) {name : CString} {d : List UInt8}
    (hfile : FileIs fs name d) (stack : Nat → UInt8) :
    (executeCat fs name stack).1.flatMap TermCall.sent = d.take blockSize ++ [0x0A] := by
  obtain ⟨i, hi⟩ := hfile
  have hbad := h.entriesInv.not_bad h.wellFormed hi.live
  obtain ⟨hret, hbuf⟩ := hi.holds.read h.wellFormed hbad stack blockSize
  -- what is printed is read into a buffer of one block
  have htable : table (fsReadFile fs (fs.files i).inode stack blockSize).2.1 (min blockSize d.length)
      = d.take blockSize := by
    rw [← List.length_take, ← table_getD (d.take blockSize), length_table]
    refine table_congr fun p hp => ?_
    rw [List.length_take] at hp
    rw [hbuf p, if_pos hp]
    simp only [List.getD_eq_getElem?_getD, List.getElem?_take_of_lt (hp.trans_le (Nat.min_le_left _ _))]
  have hlen : min blockSize d.length = (d.take blockSize).length := List.length_take.symm
  rw [executeCat]
  rw [hi.found]
  dsimp only
  rw [hret, Int.toNat_natCast, htable, hlen]
  cases d.take blockSize with
  | nil => rfl
  | cons c d =>
    rw [if_pos (by simp)]
    simp [TermCall.sent]
    rfl

/-- `cat` sends the file, if it is no longer than a block, and a newline. -/
theorem executeCat_sent {fs : Bkfs} (h : Sound fs) {name : CString} {d : List UInt8}
    (hfile : FileIs fs name d) (hlen : d.length ≤ blockSize) (stack : Nat → UInt8) :
    (executeCat fs name stack).1.flatMap TermCall.sent = d ++ [0x0A] := by
  rw [executeCat_take h hfile stack, List.take_of_length_le hlen]

/-- What the line `cat` with a word sends. -/
theorem sentBy_catLine (fs : Bkfs) (stack : Nat → UInt8) (f : Word) :
    sentBy fs stack (catLine f) = some ((executeCat fs (foldCase f.str) stack).1.flatMap TermCall.sent) := by
  rw [sentBy]
  rw [parseCommand_catLine]
  rfl

/-- The message for a missing file starts with a capital. -/
theorem executeCat_missing {fs : Bkfs} {name : CString} (hnone : findRegular fs name = none)
    (stack : Nat → UInt8) : 0x46 ∈ (executeCat fs name stack).1.flatMap TermCall.sent := by
  rw [executeCat]
  rw [hnone]
  show 0x46 ∈ (printfLoop (0x46 :: _) [.str name]).takeWhile (· ≠ 0) ++ []
  simp [printfLoop]

/-- Words in lower case, printed, have no capital in them. -/
theorem lower_of_mem {ws : List Word} (hlower : ∀ w ∈ ws, foldCase w.str = w.str) {c : UInt8}
    (hc : c ∈ (ws.map fun w => w.str.bytes).flatten ++ [0x0A]) : toLower c = c := by
  rcases List.mem_append.mp hc with hword | hnewline
  · obtain ⟨l, hl, hcl⟩ := List.mem_flatten.mp hword
    obtain ⟨w, hw, rfl⟩ := List.mem_map.mp hl
    have hbytes : w.str.bytes.map toLower = w.str.bytes := congrArg CString.bytes (hlower w hw)
    have hid : w.str.bytes.map toLower = w.str.bytes.map id := hbytes.trans (List.map_id _).symm
    exact List.map_inj_left.mp hid c hcl
  · obtain rfl := List.mem_singleton.mp hnewline
    decide

theorem findRegular_eq_none_of_fresh {fs : Bkfs} {name : CString}
    (h : ¬ NameTaken fs fs.currentInode name) : findRegular fs name = none := by
  refine firstIndex_eq_none_iff.mpr fun i hi => ?_
  have hne : ¬ ((fs.files i).parentInode = fs.currentInode ∧ (fs.files i).name = name) := fun hboth =>
    h ⟨fs.files i, mem_entries.mpr ⟨i, hi, rfl⟩, hboth.1, hboth.2⟩
  rw [← strcmp_eq_zero_iff] at hne
  by_contra htrue
  simp only [Bool.not_eq_false, Bool.and_eq_true, beq_iff_eq] at htrue
  exact hne htrue.1

/-- What has to be the same, for words in lower case. -/
theorem echoPathsAgree_iff (rest : KernelState → Command → KernelState) (stack stack' : Nat → UInt8)
    (s : KernelState) {ws : List Word} (hws : ∀ w ∈ ws, isRedirect w.str = false)
    (hlower : ∀ w ∈ ws, foldCase w.str = w.str) (hk : ws.length ≤ 6) {f : Word}
    (hfits : f.str.bytes.length ≤ 30) :
    EchoPathsAgree rest stack stack' s ws f ↔
      (executeCat (executeRedirectOutput s (shellName f hfits) (typed ws)).fs
        (shellName f hfits).str stack).1.flatMap TermCall.sent
          = (ws.map fun w => w.str.bytes).flatten ++ [0x0A] := by
  rw [EchoPathsAgree]
  rw [executeCommand_short rest stack stack' s hws hk f hfits, foldCase_typed hlower,
    sentBy_echoLine s.fs stack hws (hk.trans (by decide)), sentBy_catLine]
  constructor
  · rintro ⟨sent, hecho, hcat⟩
    exact (Option.some.inj hcat).trans (Option.some.inj hecho).symm
  · intro heq
    exact ⟨_, rfl, congrArg some heq⟩

/-- No letter to print means no word. -/
theorem eq_nil_of_flatten_eq_nil {ws : List Word}
    (h : (ws.map fun w => w.str.bytes).flatten = []) : ws = [] := by
  cases ws with
  | nil => rfl
  | cons w ws =>
    rw [List.map_cons, List.flatten_cons] at h
    exact absurd (List.append_eq_nil_iff.mp h).1 w.nonempty

/-- **The two paths agree** on one word at most, and if the file can be made. -/
theorem echoPaths_iff (rest : KernelState → Command → KernelState) (stack stack' : Nat → UInt8)
    {s : KernelState} (hs : Reachable s) {ws : List Word} (hws : ∀ w ∈ ws, isRedirect w.str = false)
    (hlower : ∀ w ∈ ws, foldCase w.str = w.str) (hk : ws.length ≤ 6) {f : Word}
    (hfits : f.str.bytes.length ≤ 30)
    (hfresh : ¬ NameTaken s.fs s.fs.currentInode (shellName f hfits).str)
    (hline : strlen (echoRedirectLine ws f) ≤ 255) :
    EchoPathsAgree rest stack stack' s ws f ↔
      ws.length ≤ 1 ∧ Storable s.fs (shellName f hfits) (strlen (typed ws)) := by
  have hnone := findRegular_eq_none_of_fresh hfresh
  have hlen := strlen_typed_le_block hline
  have hsound := hs.sound.executeRedirectOutput (shellName f hfits) (typed ws)
  rw [echoPathsAgree_iff rest stack stack' s hws hlower hk hfits]
  rcases @executeRedirectOutput_cases s (shellName f hfits) (typed ws) hs.sound f.fold.nonempty hlen with
    ⟨hstore, hfile⟩ | ⟨hno, ⟨hscan, -⟩ | ⟨-, hne, hempty⟩⟩
  · -- the words run together against the words with blanks between them
    have hcat := executeCat_sent hsound hfile hlen stack
    have hwords := @flatten_eq_intercalate_iff _ (0x20 : UInt8) (ws.map fun w => w.str.bytes)
    rw [List.length_map] at hwords
    rw [and_iff_left hstore, ← hwords, ← typed_bytes]
    constructor
    · intro heq
      exact (List.append_cancel_right (hcat.symm.trans heq)).symm
    · intro heq
      exact hcat.trans (by rw [heq])
  · -- no file, and the message that says so has a capital
    refine iff_of_false (fun heq => ?_) fun h => hno h.2
    have hcapital := executeCat_missing (hscan.trans hnone) stack
    rw [heq] at hcapital
    exact absurd (lower_of_mem hlower hcapital) (by decide)
  · refine iff_of_false (fun heq => hne ?_) fun h => hno h.2
    have hcat := executeCat_sent hsound hempty (Nat.zero_le _) stack
    obtain rfl : ws = [] :=
      eq_nil_of_flatten_eq_nil (List.append_cancel_right (hcat.symm.trans heq)).symm
    rfl

/-- One word, after boot. -/
theorem echoPaths_iff_note :
    EchoPathsAgree (fun s _ => s) (fun _ => 0) (fun _ => 0) kernelMain [wordFetch] wordNote ↔
      1 ≤ 1 ∧ Storable kernelMain.fs "note" (strlen (typed [wordFetch])) :=
  echoPaths_iff (fun s _ => s) (fun _ => 0) (fun _ => 0) reachable_kernelMain (by decide) (by decide)
    (by decide) (by decide) (by decide +kernel) (by decide)

/-- `echo fetch note` prints `fetchnote`. -/
theorem not_echoPathsAgree_two :
    ¬ EchoPathsAgree (fun s _ => s) (fun _ => 0) (fun _ => 0) kernelMain [wordFetch, wordNote]
      wordNote := by
  have hsent : sentBy kernelMain.fs (fun _ => 0) (echoLine [wordFetch, wordNote])
        = some (CString.bytes "fetchnote\n") ∧
      sentBy (executeCommand (fun s _ => s) (fun _ => 0) (fun _ => 0) kernelMain
          (echoRedirectLine [wordFetch, wordNote] wordNote)).fs (fun _ => 0) (catLine wordNote)
        = some (CString.bytes "fetch note\n") := by
    decide +kernel
  rintro ⟨sent, hecho, hcat⟩
  rw [hsent.1] at hecho
  rw [hsent.2] at hcat
  exact absurd (hecho.trans hcat.symm) (by decide)

/-! ## Long files -/

/-- **The files `cat` shows whole**: those of one block at most. -/
theorem catWhole_iff {s : KernelState} (hs : Reachable s) {name : CString} {d : List UInt8}
    (hfile : FileIs s.fs name d) (stack : Nat → UInt8) :
    (executeCat s.fs name stack).1.flatMap TermCall.sent = d ++ [0x0A] ↔ d.length ≤ blockSize := by
  constructor
  · intro hwhole
    rw [executeCat_take hs.sound hfile stack] at hwhole
    have htake : (d.take blockSize).length = d.length :=
      congrArg List.length (List.append_cancel_right hwhole)
    rw [List.length_take] at htake
    exact htake.symm.trans_le (Nat.min_le_left _ _)
  · exact fun hlen => executeCat_sent hs.sound hfile hlen stack

theorem catWhole_iff_fetch :
    let s := (writeText kernelMain 8 "a").2
    (executeCat s.fs "fetch" fun _ => 0).1.flatMap TermCall.sent = CString.bytes "a" ++ [0x0A] ↔
      (CString.bytes "a").length ≤ blockSize :=
  catWhole_iff (reachable_fetch (by decide)) fileIs_fetch fun _ => 0

/-- A block and one byte. -/
def blockText : CString :=
  ⟨List.replicate (blockSize + 1) 0x61, fun h => nomatch List.eq_of_mem_replicate h⟩

theorem strlen_blockText : strlen blockText = blockSize + 1 := List.length_replicate

/-- The last byte of `/fetch` is not shown. -/
theorem not_catWhole_blockText :
    let s := (writeText kernelMain 8 blockText).2
    Reachable s ∧ FileIs s.fs "fetch" blockText.bytes ∧
      (executeCat s.fs "fetch" fun _ => 0).1.flatMap TermCall.sent ≠ blockText.bytes ++ [0x0A] := by
  intro s
  have hreach : Reachable s := reachable_fetch (by rw [strlen_blockText]; decide)
  have hfile : FileIs s.fs "fetch" blockText.bytes :=
    ⟨12, fileHas_fetch (by rw [strlen_blockText]; decide)⟩
  refine ⟨hreach, hfile, fun hwhole => ?_⟩
  rw [executeCat_take hreach.sound hfile] at hwhole
  have htake : (blockText.bytes.take blockSize).length = strlen blockText :=
    congrArg List.length (List.append_cancel_right hwhole)
  rw [strlen_blockText, List.length_take] at htake
  exact absurd (htake.symm.trans_le (Nat.min_le_left _ _)) (Nat.not_succ_le_self blockSize)

end Srunix
