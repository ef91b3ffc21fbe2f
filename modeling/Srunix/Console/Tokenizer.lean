import Srunix.Console.Command
import Srunix.Lib.Strings

/-!
# Cutting a line in place (`kernel/kernel.c`)

`execute_command` cuts its copy of the line where it stands: `args` points into
the buffer, and the blank behind every word becomes a NUL. The branch for `echo`
does the same to the line itself. Here the loops are run as they are written, on
a buffer of bytes, with places in it for pointers; a loop that finds no end
within `MAX_CMD_LEN` bytes is `none`.

`tokenizer_correct` says that both find the runs of characters that are no
blanks, in the same places, and so `tokens` is what they find
(`args_eq_tokens`).
-/

namespace Srunix

open Library

/-! ## The loops -/

/-- `while (p(*token)) token++;` -/
def scanWhile (p : UInt8 → Bool) (buf : Nat → UInt8) (token : Nat) : Nat → Option Nat
  | 0 => none
  | fuel + 1 => if p (buf token) then scanWhile p buf (token + 1) fuel else some token

/-- `for (char* p = cmd_copy; *p; p++) …`, putting the copy in lower case. -/
def lowerLoop (buf : Nat → UInt8) (p : Nat) : Nat → Option (Nat → UInt8)
  | 0 => none
  | fuel + 1 =>
    if buf p = 0 then some buf
    else lowerLoop (Function.update buf p (toLower (buf p))) (p + 1) fuel

/-- The loop over the words. There is room for `room` more in `args`; every round
fills one, or is the last. -/
def splitLoop (buf : Nat → UInt8) (token : Nat) (args : List Nat) :
    Nat → Option ((Nat → UInt8) × List Nat)
  | 0 => some (buf, args)
  | room + 1 =>
    if buf token = 0 then some (buf, args)
    else
      match scanWhile (· = 0x20) buf token maxCmdLen with
      | none => none
      | some token =>
        if buf token = 0 then some (buf, args)
        else
          let args := args ++ [token]
          match scanWhile (fun c => c ≠ 0 && c ≠ 0x20) buf token maxCmdLen with
          | none => none
          | some token =>
            if buf token ≠ 0 then splitLoop (Function.update buf token 0) (token + 1) args room
            else splitLoop buf token args room

/-- `cmd_copy` before the first loop; `garbage` is what the array holds. -/
def cmdCopy (garbage : Nat → UInt8) (cmd : CString) : Option (Nat → UInt8) :=
  lowerLoop (strcpy garbage cmd) 0 maxCmdLen

/-- `args` of the first loop, `orig_args` of the second. -/
def splitArgs (buf : Nat → UInt8) : Option ((Nat → UInt8) × List Nat) := splitLoop buf 0 [] (10 - 1)

/-- `text`, put together from `args[1 .. redirect_pos)`. -/
def echoText : List CString → TextBuffer
  | [] => .fresh
  | arg :: args => args.foldl (fun text arg => (text.strcat " ").strcat arg) (TextBuffer.fresh.strcat arg)

/-! ## What the loops do -/

theorem stringIn_strcpy (dst : Nat → UInt8) (src : CString) : StringIn (strcpy dst src) 0 src.bytes := by
  intro i hi
  rw [strcpy, Nat.zero_add]
  rcases Nat.eq_or_lt_of_le hi with rfl | hlt
  · simp
  · simp [List.getElem?_append_left hlt, List.getElem?_eq_getElem hlt]

/-- A scan stops where the string does, if not before. -/
theorem scanWhile_eq {p : UInt8 → Bool} (hp : p 0 = false) {buf : Nat → UInt8} {s : List UInt8}
    {token fuel : Nat} (h : StringIn buf token s) (hfuel : s.length < fuel) :
    scanWhile p buf token fuel = some (token + (s.takeWhile p).length) := by
  induction s generalizing token fuel with
  | nil =>
    obtain ⟨fuel, rfl⟩ := Nat.exists_eq_succ_of_ne_zero (Nat.ne_of_gt hfuel)
    have hnul : buf token = 0 := h.nul
    rw [scanWhile, hnul, hp]
    rfl
  | cons c s ih =>
    obtain ⟨fuel, rfl⟩ := Nat.exists_eq_succ_of_ne_zero (Nat.ne_of_gt (Nat.lt_of_le_of_lt (Nat.zero_le _) hfuel))
    rw [scanWhile, h.head]
    cases hc : p c with
    | false => rw [List.takeWhile_cons_of_neg (by simp [hc])]; rfl
    | true =>
      rw [if_pos rfl, ih h.tail (Nat.lt_of_succ_lt_succ hfuel), List.takeWhile_cons_of_pos hc,
        List.length_cons, Nat.add_assoc, Nat.add_comm 1]

/-- The copy in lower case. -/
theorem lowerLoop_eq {buf : Nat → UInt8} {s : List UInt8} (hs : 0 ∉ s) {p fuel : Nat}
    (h : StringIn buf p s) (hfuel : s.length < fuel) :
    ∃ buf', lowerLoop buf p fuel = some buf' ∧ (∀ i < p, buf' i = buf i) ∧
      StringIn buf' p (s.map toLower) := by
  -- the induction is on the string; the loop has one round for each byte and one for the NUL
  induction s generalizing buf p fuel with
  | nil =>
    obtain ⟨fuel, rfl⟩ := Nat.exists_eq_succ_of_ne_zero (Nat.ne_of_gt hfuel)
    have hnul : buf p = 0 := h.nul
    exact ⟨buf, by rw [lowerLoop, if_pos hnul], fun _ _ => rfl, h⟩
  | cons c s ih =>
    obtain ⟨fuel, rfl⟩ := Nat.exists_eq_succ_of_ne_zero (Nat.ne_of_gt (Nat.lt_of_le_of_lt (Nat.zero_le _) hfuel))
    have hc : c ≠ 0 := fun hzero => hs (hzero ▸ List.mem_cons_self)
    have htail : StringIn (Function.update buf p (toLower c)) (p + 1) s :=
      h.tail.congr fun i hi _ => Function.update_of_ne (Nat.ne_of_gt hi) _ _
    obtain ⟨buf', hloop, hbelow, hlower⟩ :=
      ih (List.not_mem_of_not_mem_cons hs) htail (Nat.lt_of_succ_lt_succ hfuel)
    rw [lowerLoop, h.head, if_neg hc]
    refine ⟨buf', hloop, fun i hi => ?_, fun i hi => ?_⟩
    · rw [hbelow i (Nat.lt_succ_of_lt hi), Function.update_of_ne (Nat.ne_of_lt hi)]
    · cases i with
      | zero => rw [Nat.add_zero, hbelow p (Nat.lt_succ_self p), Function.update_self]; rfl
      | succ i =>
        have hplace : p + (i + 1) = p + 1 + i := by omega
        rw [hplace]
        exact hlower i (Nat.le_of_succ_le_succ hi)

/-- At the NUL the loop ends. -/
theorem splitLoop_end {buf : Nat → UInt8} {token : Nat} (h : buf token = 0) (args : List Nat) (room : Nat) :
    splitLoop buf token args room = some (buf, args) := by
  cases room with
  | zero => rfl
  | succ room => rw [splitLoop, if_pos h]

theorem takeWhile_word {s : List UInt8} (hs : 0 ∉ s) :
    s.takeWhile (fun c => c ≠ 0 && c ≠ 0x20) = s.takeWhile (· ≠ 0x20) := by
  induction s with
  | nil => rfl
  | cons c s ih =>
    have hc : c ≠ 0 := fun hzero => hs (hzero ▸ List.mem_cons_self)
    rw [List.takeWhile_cons, List.takeWhile_cons, ih (List.not_mem_of_not_mem_cons hs)]
    simp [hc]

/-- What is left behind the blanks. -/
theorem StringIn.behindBlanks {buf : Nat → UInt8} {token : Nat} {s : List UInt8} (h : StringIn buf token s) :
    StringIn buf (token + (s.takeWhile (· = 0x20)).length) (s.dropWhile (· = 0x20)) := by
  rw [← List.takeWhile_append_dropWhile (p := fun c => decide (c = 0x20)) (l := s)] at h
  exact h.suffix

/-- What is left behind a word is the rest of the line. -/
theorem StringIn.behindWord {buf : Nat → UInt8} {token : Nat} {s : List UInt8} (h : StringIn buf token s) :
    StringIn buf (token + (s.takeWhile (· ≠ 0x20)).length) (s.dropWhile (· ≠ 0x20)) := by
  rw [← List.takeWhile_append_dropWhile (p := fun c => decide (c ≠ 0x20)) (l := s)] at h
  exact h.suffix

section Round

variable {buf : Nat → UInt8} {token : Nat} {s : List UInt8} (h : StringIn buf token s)
  (hlen : s.length < maxCmdLen)

include h hlen

/-- A round that finds blanks only is the last one. -/
theorem splitLoop_of_blank (hblank : s.dropWhile (· = 0x20) = []) (args : List Nat) (room : Nat) :
    splitLoop buf token args (room + 1) = some (buf, args) := by
  have hrest := h.behindBlanks
  rw [hblank] at hrest
  have hnul : buf (token + (s.takeWhile (· = 0x20)).length) = 0 := hrest.nul
  rw [splitLoop, scanWhile_eq (by decide) h hlen]
  dsimp only
  rw [if_pos hnul]
  exact ite_self _

/-- A round that finds a word: it ends the line, or a blank is behind it. -/
theorem splitLoop_of_word (hs : 0 ∉ s) {c : UInt8} {rest : List UInt8} (hword : s.dropWhile (· = 0x20) = c :: rest)
    (args : List Nat) (room : Nat) :
    splitLoop buf token args (room + 1) =
      let start := token + (s.takeWhile (· = 0x20)).length
      let behind := start + ((c :: rest).takeWhile (· ≠ 0x20)).length
      if (c :: rest).dropWhile (· ≠ 0x20) = [] then some (buf, args ++ [start])
      else splitLoop (Function.update buf behind 0) (behind + 1) (args ++ [start]) room := by
  have hrest := h.behindBlanks
  have hsub := List.dropWhile_sublist (fun c => decide (c = 0x20)) (l := s)
  rw [hword] at hrest hsub
  have hnul : 0 ∉ c :: rest := fun hmem => hs (hsub.subset hmem)
  have hc : c ≠ 0 := fun hzero => hnul (hzero ▸ List.mem_cons_self)
  have hfirst : buf token ≠ 0 := by
    cases s with
    | nil => cases hword
    | cons c' s => exact h.head ▸ fun hzero => hs (hzero ▸ List.mem_cons_self)
  have hbehind := hrest.behindWord
  rw [splitLoop, if_neg hfirst, scanWhile_eq (by decide) h hlen]
  dsimp only
  rw [hrest.head, if_neg hc, scanWhile_eq (by decide) hrest (hsub.length_le.trans_lt hlen), takeWhile_word hnul]
  dsimp only
  -- the word ends the string, or a blank is behind it and becomes a NUL
  cases htail : (c :: rest).dropWhile (· ≠ 0x20) with
  | nil =>
    rw [htail] at hbehind
    have hend : buf (token + (s.takeWhile (· = 0x20)).length
        + ((c :: rest).takeWhile (· ≠ 0x20)).length) = 0 := hbehind.nul
    rw [if_neg (not_not.mpr hend), if_pos rfl, splitLoop_end hend]
  | cons b tail =>
    have hmem : b ∈ c :: rest := (List.dropWhile_sublist _).subset (htail ▸ List.mem_cons_self)
    have hb : b ≠ 0 := fun hzero => hnul (hzero ▸ hmem)
    rw [htail] at hbehind
    rw [hbehind.head, if_pos hb, if_neg (List.cons_ne_nil b tail)]

end Round

/-- The words of the rest of the line, in their places, with a NUL behind each. -/
theorem splitLoop_eq {room : Nat} {buf : Nat → UInt8} {token : Nat} {s : List UInt8} (hs : 0 ∉ s)
    (h : StringIn buf token s) (hlen : s.length < maxCmdLen) (args : List Nat) :
    ∃ buf', splitLoop buf token args room = some (buf', args ++ (cutAt 0x20 room token s).map Prod.fst) ∧
      (∀ i < token, buf' i = buf i) ∧
      ∀ a w, (a, w) ∈ cutAt 0x20 room token s → StringIn buf' a w := by
  induction room generalizing buf token s args with
  | zero =>
    rw [cutAt, List.map_nil, List.append_nil]
    exact ⟨buf, rfl, fun _ _ => rfl, fun _ _ hmem => absurd hmem List.not_mem_nil⟩
  | succ room ih =>
    cases hrest : s.dropWhile (· = 0x20) with
    | nil =>
      rw [splitLoop_of_blank h hlen hrest, cutAt_of_nil hrest, List.map_nil, List.append_nil]
      exact ⟨buf, rfl, fun _ _ => rfl, fun _ _ hmem => absurd hmem List.not_mem_nil⟩
    | cons c rest =>
      have hword := h.behindBlanks
      have hsub := List.dropWhile_sublist (fun c => decide (c = 0x20)) (l := s)
      rw [hrest] at hword hsub
      have hbehind := hword.behindWord
      have hsplit := List.takeWhile_append_dropWhile (p := fun c => decide (c ≠ 0x20)) (l := c :: rest)
      rw [splitLoop_of_word h hlen hs hrest, cutAt_succ_of_cons hrest, List.map_cons]
      dsimp only
      have hstart : token ≤ token + (s.takeWhile (· = 0x20)).length := Nat.le_add_right _ _
      generalize token + (s.takeWhile (· = 0x20)).length = start at hword hbehind hstart ⊢
      generalize (c :: rest).takeWhile (· ≠ 0x20) = word at hbehind hsplit ⊢
      have hroom := congrArg List.length hsplit
      rw [List.length_append] at hroom
      cases htail : (c :: rest).dropWhile (· ≠ 0x20) with
      | nil =>
        -- the word ends the line
        rw [if_pos rfl, List.drop_nil, cutAt_of_nil rfl]
        rw [htail, List.append_nil] at hsplit
        refine ⟨buf, rfl, fun _ _ => rfl, fun a w hmem => ?_⟩
        obtain ⟨rfl, rfl⟩ := Prod.mk.inj (List.mem_singleton.mp hmem)
        rw [hsplit]
        exact hword
      | cons b tail =>
        rw [if_neg (List.cons_ne_nil b tail), List.drop_succ_cons, List.drop_zero]
        rw [htail] at hbehind hroom hsplit
        have hsub' : tail.Sublist (c :: rest) := by
          rw [← hsplit]
          exact (List.sublist_cons_self b tail).trans (List.sublist_append_right word (b :: tail))
        have hnext : StringIn (Function.update buf (start + word.length) 0) (start + word.length + 1) tail :=
          hbehind.tail.congr fun i hi _ => Function.update_of_ne (Nat.ne_of_gt hi) _ _
        obtain ⟨buf', hloop, hbelow, hwords⟩ := ih (fun hmem => hs ((hsub'.trans hsub).subset hmem)) hnext
          ((hsub'.trans hsub).length_le.trans_lt hlen) (args ++ [start])
        refine ⟨buf', ?_, fun i hi => ?_, fun a w hmem => ?_⟩
        · rw [hloop, List.append_assoc]
          rfl
        · rw [hbelow i (by omega)]
          exact Function.update_of_ne (by omega) _ _
        · rcases List.mem_cons.mp hmem with heq | hlater
          · obtain ⟨rfl, rfl⟩ := Prod.mk.inj heq
            rw [← hsplit] at hword
            exact hword.ended.congr fun i _ hi => hbelow i (Nat.lt_succ_of_le hi)
          · exact hwords a w hlater

/-! ## Both loops on one line -/

/-- The run of characters that are no blanks, from `a` on. -/
def runAt (line : List UInt8) (a : Nat) : List UInt8 := (line.drop a).takeWhile (· ≠ 0x20)

/-- **What cutting a line should leave**: pointers to the beginnings of the first
nine runs, in order, with the run and a NUL at each, all of it inside the buffer;
so `args[9]` is the last that is written. -/
structure Tokenized (buf : Nat → UInt8) (line : List UInt8) (args : List Nat) : Prop where
  starts : args = (runStarts 0x20 true 0 line).take 9
  words : ∀ a ∈ args, StringIn buf a (runAt line a)
  inside : ∀ a ∈ args, a + (runAt line a).length < maxCmdLen
  count : args.length ≤ 9

/-- The loop finds the first nine runs and ends each with a NUL. -/
theorem tokenized_splitArgs {buf : Nat → UInt8} {line : List UInt8} (hline : 0 ∉ line)
    (h : StringIn buf 0 line) (hlen : line.length < maxCmdLen) :
    ∃ buf', splitArgs buf = some (buf', (runStarts 0x20 true 0 line).take 9) ∧
      Tokenized buf' line ((runStarts 0x20 true 0 line).take 9) := by
  obtain ⟨buf', hloop, -, hwords⟩ := @splitLoop_eq 9 buf 0 line hline h hlen []
  rw [cutAt_fst, List.nil_append] at hloop
  have hmem : ∀ a ∈ (runStarts 0x20 true 0 line).take 9, ∃ w, (a, w) ∈ cutAt 0x20 9 0 line := by
    intro a ha
    rw [← cutAt_fst] at ha
    obtain ⟨⟨a', w⟩, hw, rfl⟩ := List.mem_map.mp ha
    exact ⟨w, hw⟩
  refine ⟨buf', hloop, rfl, fun a ha => ?_, fun a ha => ?_, List.length_take_le _ _⟩
  · obtain ⟨w, hw⟩ := hmem a ha
    have hrun : w = runAt line a := (eq_run_of_mem_cutAt hw).2.2
    rw [← hrun]
    exact hwords a w hw
  · obtain ⟨w, hw⟩ := hmem a ha
    have hrun : w = runAt line a := (eq_run_of_mem_cutAt hw).2.2
    have hend := (eq_run_of_mem_cutAt hw).2.1
    rw [Nat.zero_add] at hend
    rw [← hrun]
    exact Nat.lt_of_le_of_lt hend hlen

/-- The words of `Command` are the strings the loop leaves pointers to. -/
theorem args_eq_tokens (line : CString) : (tokens line).map CString.bytes
    = ((runStarts 0x20 true 0 line.bytes).take 9).map (runAt line.bytes) := by
  rw [tokens_bytes, ← cutAt_snd 9 0, ← cutAt_fst, List.map_map]
  refine List.map_congr_left fun p hp => ?_
  obtain ⟨-, -, hrun⟩ := eq_run_of_mem_cutAt (a := p.1) (w := p.2) hp
  exact hrun

/-- The blanks of a line are where they were, in lower case. -/
theorem runStarts_foldCase (cmd : CString) :
    runStarts 0x20 true 0 (foldCase cmd).bytes = runStarts 0x20 true 0 cmd.bytes :=
  runStarts_map (toLower_eq_iff (by decide)) true 0 cmd.bytes

/-! ## The text of `echo` -/

/-- The words are joined as `redirectText` says, within the buffer. -/
theorem echoText_eq (args : List CString) : (echoText args).str = redirectText args ∧
    (echoText args).reach ≤ strlen (redirectText args) + 1 := by
  -- the induction is on the words; the buffer grows by a blank and a word
  have hloop : ∀ (args : List CString) (b : TextBuffer), b.reach ≤ strlen b.str + 1 →
      (args.foldl (fun text arg => (text.strcat " ").strcat arg) b).str
          = args.foldl (fun text arg => text ++ CString.ofString " " ++ arg) b.str ∧
        (args.foldl (fun text arg => (text.strcat " ").strcat arg) b).reach
          ≤ strlen (args.foldl (fun text arg => text ++ CString.ofString " " ++ arg) b.str) + 1 := by
    intro args
    induction args with
    | nil => exact fun b hb => ⟨rfl, hb⟩
    | cons arg args ih =>
      intro b hb
      refine ih ((b.strcat " ").strcat arg) ?_
      simp only [TextBuffer.strcat, strlen, CString.bytes_append, List.length_append] at hb ⊢
      omega
  cases args with
  | nil => exact ⟨rfl, Nat.zero_le _⟩
  | cons arg args =>
    obtain ⟨hstr, hreach⟩ := hloop args (TextBuffer.fresh.strcat arg) (by
      simp [TextBuffer.strcat, TextBuffer.fresh, strlen, CString.empty])
    have harg : (TextBuffer.fresh.strcat arg).str = arg := CString.ext rfl
    rw [harg] at hstr hreach
    exact ⟨hstr, hreach⟩

/-- Some of the words take no more room than all of them, and those fit the line. -/
theorem strlen_redirectText_le (line : CString) {args : List CString} (hargs : args.Sublist (tokens line)) :
    strlen (redirectText args) ≤ strlen line := by
  have hall : (spaced (tokens line)).bytes.length ≤ line.bytes.length := by
    rw [spaced_bytes, tokens_bytes]
    exact length_intercalate_cut_le 9 line.bytes
  have hflat := length_flatten_le (hargs.map CString.bytes)
  have hlen := hargs.length_le
  rw [spaced_bytes, length_intercalate, List.length_map] at hall
  rw [redirectText_eq]
  show (spaced args).bytes.length ≤ line.bytes.length
  rw [spaced_bytes, length_intercalate, List.length_map]
  omega

/-- **Cutting a line**: both loops, on the copy in lower case and on the line as it
was typed, end with pointers to the first nine words, at the same places, and
what `echo` joins of them fits its array. -/
theorem tokenizer_correct {cmd : CString} (hlen : strlen cmd ≤ maxCmdLen - 1) (garbage garbage' : Nat → UInt8) :
    ∃ copy buf buf' args, cmdCopy garbage cmd = some copy ∧
      splitArgs copy = some (buf, args) ∧ splitArgs (strcpy garbage' cmd) = some (buf', args) ∧
      Tokenized buf (foldCase cmd).bytes args ∧ Tokenized buf' cmd.bytes args ∧
      (tokens (foldCase cmd)).map CString.bytes = args.map (runAt (foldCase cmd).bytes) ∧
      ∀ redirectPos, (echoText (((tokens (foldCase cmd)).take redirectPos).drop 1)).reach ≤ maxCmdLen := by
  have hlt : cmd.bytes.length < maxCmdLen := Nat.lt_of_le_of_lt hlen (by decide)
  have hlower : strlen (foldCase cmd) = cmd.bytes.length := List.length_map ..
  obtain ⟨copy, hcopy, -, hfolded⟩ := lowerLoop_eq cmd.nulFree (stringIn_strcpy garbage cmd) hlt
  obtain ⟨buf, hbuf, htoken⟩ := tokenized_splitArgs (foldCase cmd).nulFree hfolded (hlower.trans_lt hlt)
  obtain ⟨buf', hbuf', htoken'⟩ := tokenized_splitArgs cmd.nulFree (stringIn_strcpy garbage' cmd) hlt
  have hsame := runStarts_foldCase cmd
  rw [← hsame] at hbuf' htoken'
  refine ⟨copy, buf, buf', _, hcopy, hbuf, hbuf', htoken, htoken', args_eq_tokens (foldCase cmd), fun pos => ?_⟩
  have hsub : (((tokens (foldCase cmd)).take pos).drop 1).Sublist (tokens (foldCase cmd)) :=
    (List.drop_sublist _ _).trans (List.take_sublist _ _)
  calc (echoText (((tokens (foldCase cmd)).take pos).drop 1)).reach
      ≤ strlen (redirectText (((tokens (foldCase cmd)).take pos).drop 1)) + 1 := (echoText_eq _).2
    _ ≤ strlen (foldCase cmd) + 1 := Nat.succ_le_succ (strlen_redirectText_le _ hsub)
    _ ≤ maxCmdLen := by rw [hlower]; exact hlt

/-- Blanks in front, between and behind. -/
theorem tokenizer_correct_blanks :
    ∃ copy buf buf' args, cmdCopy (fun _ => 0xFF) "  Echo  A > b " = some copy ∧
      splitArgs copy = some (buf, args) ∧
      splitArgs (strcpy (fun _ => 0xFF) "  Echo  A > b ") = some (buf', args) ∧
      Tokenized buf (foldCase "  Echo  A > b ").bytes args ∧
      Tokenized buf' (CString.bytes "  Echo  A > b ") args ∧
      (tokens (foldCase "  Echo  A > b ")).map CString.bytes
        = args.map (runAt (foldCase "  Echo  A > b ").bytes) ∧
      ∀ redirectPos, (echoText (((tokens (foldCase "  Echo  A > b ")).take redirectPos).drop 1)).reach
        ≤ maxCmdLen :=
  tokenizer_correct (by decide) _ _

end Srunix
