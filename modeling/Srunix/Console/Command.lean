import Srunix.Bkfs.Clash
import Srunix.Library.Words
import Srunix.Console.Frames
import Srunix.Shell.Append

/-!
# `execute_command` (`kernel/kernel.c`, `bin/echo.h`, `bin/cat.h`)

The line is copied, the copy put in lower case and cut into at most nine
tokens. `parseCommand` says which call the tokens amount to, `runCommand` makes
it. Only `echo` cuts the line itself again, in the case it was typed.

A command that is none of these is left to `rest`, and so is one whose file name
is longer than a directory entry has room for.
-/

namespace Srunix

open Library

/-! ## Tokens -/

theorem toNat_toLower (c : UInt8) :
    (toLower c).toNat = if 65 ≤ c.toNat ∧ c.toNat ≤ 90 then c.toNat + 32 else c.toNat := by
  have hletter : (0x41 ≤ c ∧ c ≤ 0x5A) ↔ 65 ≤ c.toNat ∧ c.toNat ≤ 90 := Iff.rfl
  rw [toLower]
  simp only [hletter]
  split
  · rename_i hupper
    rw [UInt8.toNat_add]
    exact Nat.mod_eq_of_lt (Nat.lt_of_le_of_lt (Nat.add_le_add_right hupper.2 32) (by decide))
  · rfl

/-- The bytes that matter to the tokens are no letters. -/
theorem toLower_eq_iff {b : UInt8} (hb : b < 0x41) (c : UInt8) : toLower c = b ↔ c = b := by
  have hlt : b.toNat < 65 := hb
  rw [← UInt8.toNat_inj, ← UInt8.toNat_inj, toNat_toLower]
  split
  · omega
  · rfl

theorem toLower_toLower (c : UInt8) : toLower (toLower c) = toLower c := by
  rw [← UInt8.toNat_inj, toNat_toLower, toNat_toLower]
  refine if_neg fun h => ?_
  split at h
  · omega
  · omega

/-- `for (char* p = cmd_copy; *p; p++) …` -/
def foldCase (s : CString) : CString :=
  ⟨s.bytes.map toLower, fun h => by
    obtain ⟨c, hc, hzero⟩ := List.mem_map.mp h
    exact s.nulFree ((toLower_eq_iff (by decide) c).mp hzero ▸ hc)⟩

/-- `args[0 .. arg_count)`: nine tokens at most, the rest of the line is dropped. -/
def tokens (line : CString) : List CString :=
  (cut 0x20 9 line.bytes).pmap (fun w h => ⟨w, h⟩) fun _ hw h => line.nulFree (mem_of_mem_cut hw h)

/-- The words are those of the library's `cut`. -/
theorem tokens_bytes (line : CString) : (tokens line).map CString.bytes = cut 0x20 9 line.bytes := by
  rw [tokens]
  rw [List.map_pmap]
  exact List.pmap_eq_self.mpr fun _ _ => rfl

/-- A `char` as a number. -/
def signedChar (c : UInt8) : Int := (c.toNat : Int).bmod 256

/-- The loop of `strcmp_case_insensitive`; where one string ends, what is left of the
other decides, and that byte is not put in lower case. -/
def strcmpCaseInsensitiveBytes : List UInt8 → List UInt8 → Int
  | a :: as, b :: bs =>
    if toLower a ≠ toLower b then signedChar (toLower a) - signedChar (toLower b)
    else strcmpCaseInsensitiveBytes as bs
  | [], bs => 0 - ((bs.headD 0).toNat : Int)
  | a :: _, [] => (a.toNat : Int)

/-- `strcmp_case_insensitive`. -/
def strcmpCaseInsensitive (s1 s2 : CString) : Int := strcmpCaseInsensitiveBytes s1.bytes s2.bytes

/-! ## The call a line amounts to -/

/-- What `execute_command` takes a line for, before it looks at the names of commands. -/
inductive Command where
  | empty
  | redirectOutput (filename text : CString)
  | appendOutput (filename text : CString)
  | catRedirect (sourceFile destFile : CString) (append : Bool)
  | catRedirectUsage
  | echo (args : List CString)
  /-- `none` is `cat` without an argument. -/
  | cat (filename : Option CString)
  | other (args : List CString)
deriving DecidableEq

/-- `strcmp(args[i], ">") == 0`, or the same with `">>"`. -/
def isRedirect (arg : CString) : Bool := strcmp arg ">" == 0 || strcmp arg ">>" == 0

/-- `redirect_pos`; `none` is -1. -/
def redirectPos (args : List CString) : Option Nat := ((args.drop 1).findIdx? isRedirect).map (· + 1)

/-- The loop that puts the words before the redirection back together. -/
def redirectText : List CString → CString
  | [] => .empty
  | arg :: args => args.foldl (fun text arg => text ++ CString.ofString " " ++ arg) arg

/-- `args[i]`. -/
def argAt (args : List CString) (i : Nat) : CString := args.getD i .empty

/-- The chain of comparisons, for a line without a redirection to be carried
out. -/
def plainCommand (cmd : CString) (args : List CString) : Command :=
  if strcmpCaseInsensitive (argAt args 0) "echo" = 0 then .echo (tokens cmd)
  else if strcmpCaseInsensitive (argAt args 0) "cat" = 0 then .cat args[1]?
  else .other args

/-- The first part of `execute_command`: the line in lower case, the words, and the
redirections. The comparisons stand in the order of the source. -/
def parseCommand (cmd : CString) : Command :=
  let args := tokens (foldCase cmd)
  if args.length = 0 then .empty
  else
    match redirectPos args with
    | some pos =>
      let append := strcmp (argAt args pos) ">" != 0
      if pos < args.length - 1 then
        if strcmpCaseInsensitive (argAt args 0) "echo" = 0 then
          let text := redirectText ((args.take pos).drop 1)
          if append then .appendOutput (argAt args (pos + 1)) text
          else .redirectOutput (argAt args (pos + 1)) text
        else if strcmpCaseInsensitive (argAt args 0) "cat" = 0 then
          if pos = 1 ∧ args.length = 3 then .catRedirect (argAt args 1) (argAt args 2) append
          else .catRedirectUsage
        else plainCommand cmd args
      else plainCommand cmd args
    | none => plainCommand cmd args

/-! ## Carrying it out -/

/-- A call of a terminal function. -/
inductive TermCall where
  | write (data : List UInt8)
  | writestring (data : CString)
  | printf (format : CString) (args : List PrintfArg)

/-- What the call does to the terminal. -/
def TermCall.run (t : Terminal) : TermCall → Terminal
  | .write data => terminalWrite t data
  | .writestring data => terminalWritestring t data
  | .printf format args => terminalPrintf t format args

/-- The characters it sends to the terminal. -/
def TermCall.sent : TermCall → List UInt8
  | .write data => data
  | .writestring data => data.bytes
  | .printf format args => (printfLoop format.bytes args).takeWhile (· ≠ 0)

/-- A call is the characters it sends, one by one, if there is no mouse mode. -/
theorem TermCall.run_eq (t : Terminal) (c : TermCall) :
    c.run t = if t.smouseMode then t else c.sent.foldl terminalPutchar t := by
  cases c with
  | write data => rfl
  | writestring data => rfl
  | printf format args => rfl

/-- `echo`: the words behind the first, with an empty string where a blank was meant. -/
def executeEcho (args : List CString) : List TermCall :=
  ((args.drop 1).flatMap fun arg => [.writestring arg, .writestring ""]) ++ [.writestring "\n"]

/-- `execute_cat` on a name; `stack` is what the uninitialised `buffer` holds. -/
def executeCat (fs : Bkfs) (filename : CString) (stack : Nat → UInt8) : List TermCall × Bkfs :=
  match findRegular fs filename with
  | some i =>
    let (bytesRead, buffer, fs) := fsReadFile fs (fs.files i).inode stack blockSize
    ((if bytesRead > 0 then [.write (table buffer bytesRead.toNat)] else []) ++ [.writestring "\n"], fs)
  | none => ([.printf "File not found: %s\n" [.str filename]], fs)

/-- The message for a `cat` with a redirection that is not its second word. -/
def catRedirectUsage : CString :=
  "Usage: cat <source_file> > <dest_file> or cat <source_file> >> <dest_file>\n"

/-- The printing of the commands that only print and read: what they send to the
terminal, and the file system they leave. -/
def printCommand (fs : Bkfs) (stack : Nat → UInt8) : Command → Option (List TermCall × Bkfs)
  | .empty => some ([], fs)
  | .echo args => some (executeEcho args, fs)
  | .cat (some filename) => some (executeCat fs filename stack)
  | .cat none => some ([.writestring "Usage: cat <filename>\n"], fs)
  | .catRedirectUsage => some ([.writestring catRedirectUsage], fs)
  | .redirectOutput .. | .appendOutput .. | .catRedirect .. | .other .. => none

/-- A file name as long as a directory entry allows. -/
def entryName (filename : CString) : Option Name :=
  if h : filename.bytes.length ≤ 30 then some ⟨filename, h⟩ else none

/-- The commands that write files. -/
def writeCommand (s : KernelState) (stack stack' : Nat → UInt8) : Command → Option KernelState
  | .redirectOutput filename text =>
    (entryName filename).map fun filename => executeRedirectOutput s filename text
  | .appendOutput filename text =>
    (entryName filename).map fun filename => executeAppendOutput s filename text stack
  | .catRedirect sourceFile destFile append =>
    (entryName destFile).map fun destFile =>
      (executeCatRedirect s sourceFile destFile append stack stack').1
  | _ => none

/-- A line that is taken apart: the commands that print and those that write are
followed, all others are `rest`. -/
def runCommand (rest : KernelState → Command → KernelState) (stack stack' : Nat → UInt8)
    (s : KernelState) (command : Command) : KernelState :=
  match printCommand s.fs stack command with
  | some (calls, fs) => { fs := fs, term := calls.foldl TermCall.run s.term }
  | none => (writeCommand s stack stack' command).getD (rest s command)

/-- `execute_command` as far as `echo`, `cat` and the redirections go; `rest` is any
behaviour of the others. -/
def executeCommand (rest : KernelState → Command → KernelState) (stack stack' : Nat → UInt8)
    (s : KernelState) (cmd : CString) : KernelState :=
  runCommand rest stack stack' s (parseCommand cmd)

/-! ## Lines of words -/

/-- What stands between blanks. -/
structure Word where
  str : CString
  nonempty : str.bytes ≠ []
  blankFree : 0x20 ∉ str.bytes

theorem Word.isWord (w : Word) : IsWord (0x20 : UInt8) w.str.bytes := ⟨w.nonempty, w.blankFree⟩

/-- The word in lower case. -/
def Word.fold (w : Word) : Word where
  str := foldCase w.str
  nonempty := fun h => w.nonempty (List.map_eq_nil_iff.mp h)
  blankFree := fun h => by
    obtain ⟨c, hc, hblank⟩ := List.mem_map.mp h
    exact w.blankFree ((toLower_eq_iff (by decide) c).mp hblank ▸ hc)

/-- Strings with a blank between any two. -/
def spaced : List CString → CString
  | [] => .empty
  | [w] => w
  | w :: w' :: ws => w ++ CString.ofString " " ++ spaced (w' :: ws)

theorem spaced_bytes (ws : List CString) :
    (spaced ws).bytes = [(0x20 : UInt8)].intercalate (ws.map CString.bytes) := by
  induction ws with
  | nil => rfl
  | cons w ws ih =>
    cases ws with
    | nil => simp [spaced]
    | cons w' ws =>
      rw [spaced, CString.bytes_append, CString.bytes_append, ih]
      exact List.intercalate_cons_cons.symm

theorem foldCase_spaced (ws : List CString) : foldCase (spaced ws) = spaced (ws.map foldCase) := by
  have hblank : toLower 0x20 = 0x20 := by decide
  refine CString.ext ?_
  show (spaced ws).bytes.map toLower = _
  rw [spaced_bytes, spaced_bytes, map_intercalate, hblank, List.map_map, List.map_map]
  rfl

/-- The text put back together is the words, with a blank between any two. -/
theorem redirectText_eq (args : List CString) : redirectText args = spaced args := by
  have hloop : ∀ (args : List CString) (text arg : CString),
      args.foldl (fun text arg => text ++ CString.ofString " " ++ arg) (text ++ CString.ofString " " ++ arg)
        = text ++ CString.ofString " " ++ spaced (arg :: args) := by
    intro args
    induction args with
    | nil => exact fun text arg => rfl
    | cons arg' args ih =>
      intro text arg
      rw [List.foldl_cons, ih]
      refine CString.ext ?_
      simp only [CString.bytes_append, spaced, List.append_assoc]
  cases args with
  | nil => rfl
  | cons arg args =>
    cases args with
    | nil => rfl
    | cons arg' args => exact hloop args arg arg'

/-- Words with blanks between are taken apart as they were, up to nine. -/
theorem tokens_spaced (ws : List Word) :
    tokens (spaced (ws.map Word.str)) = (ws.take 9).map Word.str := by
  have hinj : Function.Injective CString.bytes := fun _ _ h => CString.ext h
  refine List.map_injective_iff.mpr hinj ?_
  have hwords : ∀ w ∈ (ws.map Word.str).map CString.bytes, IsWord (0x20 : UInt8) w := by
    intro w hw
    rw [List.map_map] at hw
    obtain ⟨word, -, rfl⟩ := List.mem_map.mp hw
    exact word.isWord
  rw [tokens_bytes, spaced_bytes, cut_intercalate hwords, ← List.map_take, ← List.map_take]

/-- The tokens of the copy in lower case. -/
theorem tokens_foldCase_spaced (ws : List Word) :
    tokens (foldCase (spaced (ws.map Word.str))) = (ws.take 9).map fun w => foldCase w.str := by
  have hfold : (ws.map Word.str).map foldCase = (ws.map Word.fold).map Word.str := by
    rw [List.map_map, List.map_map]
    rfl
  rw [foldCase_spaced, hfold, tokens_spaced, ← List.map_take, List.map_map]
  rfl

/-! ## Redirections -/

theorem isRedirect_iff {arg : CString} : isRedirect arg = true ↔ arg = ">" ∨ arg = ">>" := by
  rw [isRedirect]
  rw [Bool.or_eq_true, beq_iff_eq, beq_iff_eq, strcmp_eq_zero_iff, strcmp_eq_zero_iff]

/-- A string without letters is what it is in lower case, and nothing else is. -/
theorem foldCase_eq_iff {s t : CString} (hletterless : (t.bytes.all fun c => c < 0x41) = true) :
    foldCase s = t ↔ s = t := by
  have ht : ∀ c ∈ t.bytes, c < 0x41 := fun c hc =>
    of_decide_eq_true (List.all_eq_true.mp hletterless c hc)
  have hmap : ∀ {l m : List UInt8}, (∀ c ∈ m, c < 0x41) → (l.map toLower = m ↔ l = m) := by
    intro l m hm
    induction m generalizing l with
    | nil => exact List.map_eq_nil_iff
    | cons c m ih =>
      cases l with
      | nil => exact iff_of_false (fun h => nomatch h) fun h => nomatch h
      | cons b l =>
        rw [List.map_cons, List.cons.injEq, List.cons.injEq,
          toLower_eq_iff (hm c List.mem_cons_self), ih fun c' hc' => hm c' (List.mem_cons_of_mem c hc')]
  constructor
  · intro h
    exact CString.ext ((hmap ht).mp (congrArg CString.bytes h))
  · rintro rfl
    exact CString.ext ((hmap ht).mpr rfl)

theorem isRedirect_foldCase (arg : CString) : isRedirect (foldCase arg) = isRedirect arg := by
  rw [Bool.eq_iff_iff, isRedirect_iff, isRedirect_iff, foldCase_eq_iff (by decide),
    foldCase_eq_iff (by decide)]

/-- The first redirection is the one that is found. -/
theorem redirectPos_of_mem (name : CString) {r : CString} (before after : List CString)
    (hbefore : ∀ arg ∈ before, isRedirect arg = false) (hr : isRedirect r = true) :
    redirectPos (name :: (before ++ r :: after)) = some (before.length + 1) := by
  have hnone : before.findIdx? isRedirect = none := List.findIdx?_eq_none_iff.mpr hbefore
  rw [redirectPos]
  rw [List.drop_succ_cons, List.drop_zero, List.findIdx?_append, hnone, List.findIdx?_cons, if_pos hr]
  simp

theorem redirectPos_of_none (name : CString) {args : List CString}
    (h : ∀ arg ∈ args, isRedirect arg = false) : redirectPos (name :: args) = none := by
  have hnone : args.findIdx? isRedirect = none := List.findIdx?_eq_none_iff.mpr h
  rw [redirectPos]
  rw [List.drop_succ_cons, List.drop_zero, hnone]
  rfl

/-- A line whose redirection, if any, is its last token. -/
theorem parseCommand_plain {cmd : CString} {args : List CString} (hargs : tokens (foldCase cmd) = args)
    (hne : args ≠ []) (hpos : ∀ pos, redirectPos args = some pos → args.length - 1 ≤ pos) :
    parseCommand cmd = plainCommand cmd args := by
  have hlen : args.length ≠ 0 := fun h => hne (List.eq_nil_of_length_eq_zero h)
  rw [parseCommand]
  rw [hargs]
  dsimp only
  rw [if_neg hlen]
  cases hscan : redirectPos args with
  | none => rfl
  | some pos => exact if_neg (Nat.not_lt.mpr (hpos pos hscan))

/-- A line with a redirection and something after it. -/
theorem parseCommand_redirect {cmd : CString} {args : List CString} {pos : Nat}
    (hargs : tokens (foldCase cmd) = args) (hpos : redirectPos args = some pos)
    (hlt : pos < args.length - 1) : parseCommand cmd =
      if strcmpCaseInsensitive (argAt args 0) "echo" = 0 then
        if strcmp (argAt args pos) ">" != 0 then
          .appendOutput (argAt args (pos + 1)) (redirectText ((args.take pos).drop 1))
        else .redirectOutput (argAt args (pos + 1)) (redirectText ((args.take pos).drop 1))
      else if strcmpCaseInsensitive (argAt args 0) "cat" = 0 then
        if pos = 1 ∧ args.length = 3 then
          .catRedirect (argAt args 1) (argAt args 2) (strcmp (argAt args pos) ">" != 0)
        else .catRedirectUsage
      else plainCommand cmd args := by
  have hlen : args.length ≠ 0 := by omega
  rw [parseCommand]
  rw [hargs]
  dsimp only
  rw [if_neg hlen, hpos]
  dsimp only
  rw [if_pos hlt]

/-- The word `echo`. -/
def wordEcho : Word := ⟨"echo", by decide, by decide⟩
/-- The word `cat`. -/
def wordCat : Word := ⟨"cat", by decide, by decide⟩

/-- How the chain of comparisons goes for these two. -/
theorem strcmp_names :
    strcmpCaseInsensitive (foldCase wordEcho.str) "echo" = 0 ∧
      strcmpCaseInsensitive (foldCase wordCat.str) "echo" ≠ 0 ∧
      strcmpCaseInsensitive (foldCase wordCat.str) "cat" = 0 := by
  decide

theorem plainCommand_echo (cmd : CString) (args : List CString) :
    plainCommand cmd (foldCase wordEcho.str :: args) = .echo (tokens cmd) :=
  if_pos strcmp_names.1

theorem plainCommand_cat (cmd : CString) (args : List CString) :
    plainCommand cmd (foldCase wordCat.str :: args) = .cat args[0]? :=
  (if_neg strcmp_names.2.1).trans (if_pos strcmp_names.2.2)

/-- `echo` with a redirection: the words before it, and the one behind. -/
theorem parseCommand_echo_redirect {cmd r f : CString} {before after : List CString}
    (hargs : tokens (foldCase cmd) = foldCase wordEcho.str :: (before ++ r :: f :: after))
    (hbefore : ∀ arg ∈ before, isRedirect arg = false) (hr : isRedirect r = true) :
    parseCommand cmd =
      if strcmp r ">" != 0 then .appendOutput f (spaced before)
      else .redirectOutput f (spaced before) := by
  have hpos := redirectPos_of_mem (foldCase wordEcho.str) before (f :: after) hbefore hr
  have hlt : before.length + 1
      < (foldCase wordEcho.str :: (before ++ r :: f :: after)).length - 1 := by
    simp only [List.length_cons, List.length_append]
    omega
  have hredirect : argAt (foldCase wordEcho.str :: (before ++ r :: f :: after)) (before.length + 1) = r := by
    simp [argAt]
  have hfile : argAt (foldCase wordEcho.str :: (before ++ r :: f :: after)) (before.length + 1 + 1) = f := by
    simp [argAt]
  have hwords : ((foldCase wordEcho.str :: (before ++ r :: f :: after)).take (before.length + 1)).drop 1
      = before := by
    simp
  rw [parseCommand_redirect hargs hpos hlt, hredirect, hfile, hwords, redirectText_eq]
  exact if_pos strcmp_names.1

/-! ## Where control is afterwards -/

theorem signedChar_inj {a b : UInt8} : signedChar a = signedChar b ↔ a = b := by
  have ha := a.toNat_lt
  have hb := b.toNat_lt
  unfold signedChar
  rw [← UInt8.toNat_inj, Int.bmod_def, Int.bmod_def]
  omega

theorem toNat_head_ne_zero {c : UInt8} {l : List UInt8} (h : 0 ∉ c :: l) : c.toNat ≠ 0 :=
  UInt8.toNat_inj.ne.mpr (Ne.symm (List.ne_of_not_mem_cons h))

/-- Where one string ends first, the other has a letter that is not NUL. -/
theorem strcmpCaseInsensitiveBytes_eq_zero_iff {l₁ l₂ : List UInt8} (h₁ : 0 ∉ l₁) (h₂ : 0 ∉ l₂) :
    strcmpCaseInsensitiveBytes l₁ l₂ = 0 ↔ l₁.map toLower = l₂.map toLower := by
  induction l₁ generalizing l₂ with
  | nil =>
    cases l₂ with
    | nil => exact iff_of_true rfl rfl
    | cons b bs =>
      have hb := toNat_head_ne_zero h₂
      refine iff_of_false ?_ fun h => nomatch h
      show 0 - (b.toNat : Int) ≠ 0
      omega
  | cons a as ih =>
    cases l₂ with
    | nil =>
      have ha := toNat_head_ne_zero h₁
      refine iff_of_false ?_ fun h => nomatch h
      show (a.toNat : Int) ≠ 0
      omega
    | cons b bs =>
      rw [strcmpCaseInsensitiveBytes, List.map_cons, List.map_cons, List.cons.injEq]
      -- the source compares the folded characters first
      by_cases hab : toLower a = toLower b
      · rw [if_neg (not_not.mpr hab), and_iff_right hab]
        exact ih (List.not_mem_of_not_mem_cons h₁) (List.not_mem_of_not_mem_cons h₂)
      · rw [if_pos hab, Int.sub_eq_zero, signedChar_inj]
        exact iff_of_false hab fun h => hab h.1

/-- `strcmp_case_insensitive` returns zero on strings with the same letters
only. -/
theorem strcmpCaseInsensitive_eq_zero_iff {s1 s2 : CString} :
    strcmpCaseInsensitive s1 s2 = 0 ↔ foldCase s1 = foldCase s2 := by
  have hbytes := strcmpCaseInsensitiveBytes_eq_zero_iff s1.nulFree s2.nulFree
  constructor
  · intro h
    exact CString.ext (hbytes.mp h)
  · intro h
    exact hbytes.mpr (congrArg CString.bytes h)

/-- `args[0]` is the token the console goes by. -/
theorem firstToken_eq (cmd : CString) : firstToken cmd = (argAt (tokens (foldCase cmd)) 0).bytes := by
  have hbytes := tokens_bytes (foldCase cmd)
  have hhead : ((tokens (foldCase cmd)).map CString.bytes).getD 0 []
      = (argAt (tokens (foldCase cmd)) 0).bytes := by
    rw [argAt]
    cases tokens (foldCase cmd) with
    | nil => rfl
    | cons arg args => rfl
  rw [← hhead, hbytes]
  rw [cut, firstToken]
  show ((cmd.bytes.map toLower).dropWhile _).takeWhile _ = _
  have hline : (foldCase cmd).bytes = cmd.bytes.map toLower := rfl
  rw [hline]
  cases (cmd.bytes.map toLower).dropWhile (· = 0x20) with
  | nil => rfl
  | cons c rest => rfl

/-- What is left when it is no redirection, no `echo` and no `cat`. -/
theorem parseCommand_other {cmd : CString} (hne : tokens (foldCase cmd) ≠ [])
    (hecho : strcmpCaseInsensitive (argAt (tokens (foldCase cmd)) 0) "echo" ≠ 0)
    (hcat : strcmpCaseInsensitive (argAt (tokens (foldCase cmd)) 0) "cat" ≠ 0) :
    parseCommand cmd = .other (tokens (foldCase cmd)) := by
  have hplain : plainCommand cmd (tokens (foldCase cmd)) = .other (tokens (foldCase cmd)) :=
    (if_neg hecho).trans (if_neg hcat)
  by_cases hredirect : ∃ pos, redirectPos (tokens (foldCase cmd)) = some pos ∧
      pos < (tokens (foldCase cmd)).length - 1
  · obtain ⟨pos, hpos, hlt⟩ := hredirect
    rw [parseCommand_redirect rfl hpos hlt, if_neg hecho, if_neg hcat, hplain]
  · refine (parseCommand_plain rfl hne fun pos hpos => ?_).trans hplain
    exact Nat.not_lt.mp fun hlt => hredirect ⟨pos, hpos, hlt⟩

/-- **The commands modelled here return to the shell.** -/
theorem commandKind_of_parse {cmd : CString} (h : ∀ args, parseCommand cmd ≠ .other args) :
    commandKind cmd = .returns := by
  have hfirst := firstToken_eq cmd
  have hlower : foldCase (argAt (tokens (foldCase cmd)) 0) = argAt (tokens (foldCase cmd)) 0 := by
    refine CString.ext ?_
    show (argAt (tokens (foldCase cmd)) 0).bytes.map toLower = _
    rw [← hfirst]
    refine (List.map_congr_left fun c hc => ?_).trans (List.map_id _)
    have hline : c ∈ cmd.bytes.map toLower :=
      (List.dropWhile_sublist _).subset ((List.takeWhile_sublist _).subset hc)
    obtain ⟨b, -, rfl⟩ := List.mem_map.mp hline
    exact toLower_toLower b
  -- only `echo`, `cat` and the empty line are no word of the table
  have hname : argAt (tokens (foldCase cmd)) 0 = "echo" ∨ argAt (tokens (foldCase cmd)) 0 = "cat" ∨
      argAt (tokens (foldCase cmd)) 0 = .empty := by
    by_contra hnone
    obtain ⟨hecho, hcat, hempty⟩ := not_or.mp hnone |>.imp_right not_or.mp
    refine h _ (parseCommand_other (fun hnil => hempty ?_) (fun hzero => hecho ?_) fun hzero => hcat ?_)
    · rw [hnil]
      rfl
    · exact hlower.symm.trans (strcmpCaseInsensitive_eq_zero_iff.mp hzero)
    · exact hlower.symm.trans (strcmpCaseInsensitive_eq_zero_iff.mp hzero)
  rw [commandKind]
  rw [hfirst]
  rcases hname with hname | hname | hname
  · rw [hname]
    decide
  · rw [hname]
    decide
  · rw [hname]
    decide

/-! ## `cat` with a redirection -/

/-- `>` or `>>`. -/
def redirectWord (append : Bool) : Word :=
  if append then ⟨">>", by decide, by decide⟩ else ⟨">", by decide, by decide⟩

theorem isRedirect_redirectWord (append : Bool) : isRedirect (foldCase (redirectWord append).str) = true := by
  cases append with
  | false => decide
  | true => decide

/-- `cat S > D` or `cat S >> D`. -/
def copyLine (source dest : Word) (append : Bool) : CString :=
  spaced ([wordCat, source, redirectWord append, dest].map Word.str)

/-- Four tokens, the second of them the first that may be a redirection: the
branch that calls `execute_cat_redirect` wants it to be the first of two. -/
theorem parseCommand_copyLine (source dest : Word) (append : Bool) :
    parseCommand (copyLine source dest append) = .catRedirectUsage := by
  have hargs : tokens (foldCase (copyLine source dest append)) =
      [foldCase wordCat.str, foldCase source.str, foldCase (redirectWord append).str,
        foldCase dest.str] :=
    tokens_foldCase_spaced [wordCat, source, redirectWord append, dest]
  have hpos : ∃ pos, pos < 3 ∧ redirectPos [foldCase wordCat.str, foldCase source.str,
      foldCase (redirectWord append).str, foldCase dest.str] = some pos := by
    cases hs : isRedirect (foldCase source.str) with
    | true => exact ⟨1, by decide, redirectPos_of_mem _ [] _ (fun _ h => nomatch h) hs⟩
    | false =>
      exact ⟨2, by decide, redirectPos_of_mem _ [foldCase source.str] _
        (fun arg harg => List.mem_singleton.mp harg ▸ hs) (isRedirect_redirectWord append)⟩
  obtain ⟨pos, hlt, hpos⟩ := hpos
  obtain ⟨-, hecho, hcat⟩ := strcmp_names
  refine (parseCommand_redirect hargs hpos hlt).trans ?_
  exact (if_neg hecho).trans ((if_pos hcat).trans (if_neg fun h => nomatch h.2))

/-- `cat` with a redirection behind its file ends in the usage message. -/
theorem executeCommand_copyLine (rest : KernelState → Command → KernelState)
    (stack stack' : Nat → UInt8) (s : KernelState) (source dest : Word) (append : Bool) :
    executeCommand rest stack stack' s (copyLine source dest append)
      = s.writestring catRedirectUsage := by
  rw [executeCommand]
  rw [parseCommand_copyLine]
  rfl

/-- A file has one content. -/
theorem FileIs.unique {fs : Bkfs} {name : CString} {d d' : List UInt8} (h : FileIs fs name d)
    (h' : FileIs fs name d') : d = d' := by
  obtain ⟨i, hi⟩ := h
  obtain ⟨j, hj⟩ := h'
  obtain rfl : i = j := Option.some.inj (hi.found.symm.trans hj.found)
  exact hi.holds.unique hj.holds

/-- `cat S > D`, as its usage message has it: `D` is a copy of `S`, which is
what it was. -/
structure CopyLaw (fs : Bkfs) (source dest : CString) (text : List UInt8) : Prop where
  copied : FileIs fs dest text
  kept : FileIs fs source text

/-- The same for `cat S >> D`; a file that is not there counts as empty. -/
def CopyAppendLaw (fs fs' : Bkfs) (dest : CString) (text : List UInt8) : Prop :=
  ∃ old, (FileIs fs dest old ∨ (findRegular fs dest = none ∧ old = [])) ∧
    FileIs fs' dest (joined old text)

/-- **No line gets to `execute_cat_redirect`**: `cat S > D` does what it should
if there is nothing to do, `cat S >> D` never. -/
theorem catCopy_iff (rest : KernelState → Command → KernelState) (stack stack' : Nat → UInt8)
    {s : KernelState} (source dest : Word) {text : CString} (htext : text.bytes ≠ [])
    (hsource : FileIs s.fs source.str text.bytes) :
    (CopyLaw (executeCommand rest stack stack' s (copyLine source dest false)).fs source.str dest.str
        text.bytes ↔ FileIs s.fs dest.str text.bytes) ∧
      ¬ CopyAppendLaw s.fs (executeCommand rest stack stack' s (copyLine source dest true)).fs
        dest.str text.bytes := by
  rw [executeCommand_copyLine, executeCommand_copyLine]
  constructor
  · exact ⟨CopyLaw.copied, fun h => ⟨h, hsource⟩⟩
  · rintro ⟨old, hold, hafter⟩
    have hafter : FileIs s.fs dest.str (joined old text.bytes) := hafter
    rcases hold with hold | ⟨hnone, -⟩
    · exact htext (joined_eq_self (congrArg List.length (hafter.unique hold))).1
    · obtain ⟨i, hi⟩ := hafter
      cases hnone.symm.trans hi.found

/-- A file of one byte to copy. -/
theorem fileIs_fetch : FileIs (writeText kernelMain 8 "a").2.fs "fetch" (CString.bytes "a") :=
  ⟨12, fileHas_fetch (by decide)⟩

/-- The name of the file the boot writes. -/
def wordFetch : Word := ⟨"fetch", by decide, by decide⟩
/-- A name no entry of the boot has. -/
def wordNote : Word := ⟨"note", by decide, by decide⟩

theorem catCopy_iff_fetch :
    let s := (writeText kernelMain 8 "a").2
    CopyLaw (executeCommand (fun s _ => s) (fun _ => 0) (fun _ => 0) s
        (copyLine wordFetch wordNote false)).fs "fetch" "note" (CString.bytes "a") ↔
      FileIs s.fs "note" (CString.bytes "a") :=
  (catCopy_iff (fun s _ => s) (fun _ => 0) (fun _ => 0) wordFetch wordNote (by decide) fileIs_fetch).1

/-- A copy to a new file is not made. -/
theorem not_copied {s : KernelState} (source dest : Word)
    (hnone : findRegular s.fs dest.str = none) (text : List UInt8) :
    ¬ CopyLaw (executeCommand (fun s _ => s) (fun _ => 0) (fun _ => 0) s
      (copyLine source dest false)).fs source.str dest.str text := by
  rw [executeCommand_copyLine]
  rintro ⟨⟨i, hi⟩, -⟩
  cases hnone.symm.trans hi.found

/-- `cat fetch > note`, with nothing in the way of it: no `note`. -/
theorem not_copied_fetch :
    let s := (writeText kernelMain 8 "a").2
    Reachable s ∧ FileIs s.fs "fetch" (CString.bytes "a") ∧ ¬ CreateRefused s.fs "note" ∧
      ¬ CopyLaw (executeCommand (fun s _ => s) (fun _ => 0) (fun _ => 0) s
        (copyLine wordFetch wordNote false)).fs "fetch" "note" (CString.bytes "a") := by
  intro s
  obtain ⟨hfiles, hcount, hcur⟩ := writeText_entries wellFormed_kernelMain 8 "a"
  have hboot : findRegular kernelMain.fs "note" = none := by decide +kernel
  have hnone : findRegular s.fs "note" = none :=
    (findRegular_congr hfiles hcount hcur "note").trans hboot
  have hmade : (fsCreateFile (writeText kernelMain 8 "a").2 "note" 1 fileRegular).1 = fsSuccess := by
    decide +kernel
  exact ⟨reachable_fetch (by decide), fileIs_fetch,
    (fsCreateFile_success_iff s "note" 1 fileRegular).mp hmade, not_copied wordFetch wordNote hnone _⟩

end Srunix
