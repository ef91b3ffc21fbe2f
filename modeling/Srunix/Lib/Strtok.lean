import Srunix.Library.Words
import Srunix.Lib.Strings

/-!
# `strtok` (`lib/prdio.h`)

`strtok` ends a token at the next delimiter, also where the cursor already stands
on one: it cuts a string into fields, and a field may be empty. The calls return
the words of the string just if no field is empty (`strtok_words_iff`).
-/

namespace Srunix

open Library

/-- The memory, and the cursor `saved_str`. -/
structure StrtokState where
  mem : Memory
  savedStr : Option Ptr

/-- `while (*a != '\0')`: whether `c` is a byte of the string. -/
def acceptLoop (mem : Memory) (c : UInt8) (a : Ptr) : Nat → Option Bool
  | 0 => none
  | fuel + 1 => do
    let d ← load mem a
    if d = 0 then some false
    else if c = d then some true
    else acceptLoop mem c (a.add 1) fuel

/-- `while (*s != '\0')` -/
def strpbrkLoop (mem : Memory) (accept s : Ptr) : Nat → Option (Option Ptr)
  | 0 => none
  | fuel + 1 => do
    let c ← load mem s
    if c = 0 then some none
    else
      let found ← acceptLoop mem c accept (accept.limit - accept.addr)
      if found then some (some s) else strpbrkLoop mem accept (s.add 1) fuel

/-- `strpbrk`. -/
def strpbrk (mem : Memory) (s accept : Ptr) : Option (Option Ptr) :=
  strpbrkLoop mem accept s (s.limit - s.addr)

/-- `strtok`, with its static cursor. The end of a token is overwritten in place. -/
def strtok (st : StrtokState) (str : Option Ptr) (delim : Ptr) : Option (Option Ptr × StrtokState) := do
  let st := match str with
    | some _ => { st with savedStr := str }
    | none => st
  match st.savedStr with
  | none => some (none, st)
  | some tokenStart =>
    let c ← load st.mem tokenStart
    if c = 0 then some (none, st)
    else
      let tokenEnd ← strpbrk st.mem tokenStart delim
      match tokenEnd with
      | some tokenEnd =>
        -- the token may be empty: `token_end` is `token_start` then
        let mem ← store st.mem tokenEnd 0
        some (some tokenStart, { mem := mem, savedStr := some (tokenEnd.add 1) })
      | none => some (some tokenStart, { st with savedStr := none })

/-- `strtok(str, delim)` and then `strtok(NULL, delim)` until it returns `NULL`,
in so many calls at most. -/
def strtokCalls (delim : Ptr) (st : StrtokState) (str : Option Ptr) : Nat → Option (List Ptr × StrtokState)
  | 0 => none
  | calls + 1 => do
    let (token, st) ← strtok st str delim
    match token with
    | none => some ([], st)
    | some token =>
      let (tokens, st) ← strtokCalls delim st none calls
      some (token :: tokens, st)

/-! ## `strpbrk` -/

/-- The inner loop looks for the character in the set. -/
theorem acceptLoop_eq {mem : Memory} {a : Ptr} {d : List UInt8} {fuel : Nat} (h : Points mem a d)
    (hnul : 0 ∉ d) (hfuel : d.length < fuel) (c : UInt8) :
    acceptLoop mem c a fuel = some (decide (c ∈ d)) := by
  induction d generalizing a fuel with
  | nil =>
    obtain ⟨fuel, rfl⟩ := Nat.exists_eq_succ_of_ne_zero (Nat.ne_of_gt hfuel)
    rw [acceptLoop, h.load_nil]
    rfl
  | cons b d ih =>
    obtain ⟨fuel, rfl⟩ := Nat.exists_eq_succ_of_ne_zero (Nat.ne_of_gt (Nat.zero_lt_of_lt hfuel))
    have hb : b ≠ 0 := fun hzero => hnul (hzero ▸ List.mem_cons_self)
    rw [acceptLoop, h.load_head]
    dsimp only [Option.bind_eq_bind, Option.bind_some]
    rw [if_neg hb]
    by_cases hcb : c = b
    · rw [if_pos hcb, decide_eq_true (hcb ▸ List.mem_cons_self)]
    · rw [if_neg hcb, ih h.tail (List.not_mem_of_not_mem_cons hnul) (Nat.lt_of_succ_lt_succ hfuel)]
      exact congrArg some (decide_eq_decide.mpr (List.mem_cons.trans (or_iff_right hcb)).symm)

theorem accept_eq {mem : Memory} {a : Ptr} {d : List UInt8} (h : Points mem a d) (hnul : 0 ∉ d)
    (c : UInt8) : acceptLoop mem c a (a.limit - a.addr) = some (decide (c ∈ d)) := by
  have hfits := h.fits
  exact acceptLoop_eq h hnul (by omega) c

/-- The search passes over bytes that are not accepted. -/
theorem strpbrkLoop_skip {mem : Memory} {accept s : Ptr} {d word rest : List UInt8} {fuel : Nat}
    (hd : Points mem accept d) (hdnul : 0 ∉ d) (hs : Points mem s (word ++ rest)) (hnul : 0 ∉ word)
    (hclear : ∀ c ∈ word, c ∉ d) :
    strpbrkLoop mem accept s (word.length + fuel) =
      strpbrkLoop mem accept (s.add word.length) fuel := by
  induction word generalizing s with
  | nil => rw [List.length_nil, Nat.zero_add]; rfl
  | cons c word ih =>
    have hc : c ≠ 0 := fun hzero => hnul (hzero ▸ List.mem_cons_self)
    have hclear' := List.forall_mem_cons.mp hclear
    rw [List.length_cons, Nat.add_right_comm, strpbrkLoop, hs.load_head]
    dsimp only [Option.bind_eq_bind, Option.bind_some]
    rw [if_neg hc, accept_eq hd hdnul, decide_eq_false hclear'.1]
    dsimp only [Option.bind_some]
    rw [if_neg Bool.false_ne_true, ih hs.tail (List.not_mem_of_not_mem_cons hnul) hclear'.2, Ptr.add_add,
      Nat.add_comm 1]

/-- There is no accepted byte. -/
theorem strpbrk_none {mem : Memory} {accept s : Ptr} {d word : List UInt8} (hd : Points mem accept d)
    (hdnul : 0 ∉ d) (hs : Points mem s word) (hnul : 0 ∉ word) (hclear : ∀ c ∈ word, c ∉ d) :
    strpbrk mem s accept = some none := by
  have hfits := hs.fits
  obtain ⟨fuel, hfuel⟩ : ∃ fuel, s.limit - s.addr = word.length + (fuel + 1) :=
    ⟨s.limit - s.addr - word.length - 1, by omega⟩
  have hs : Points mem s (word ++ []) := by rwa [List.append_nil]
  rw [strpbrk, hfuel, strpbrkLoop_skip hd hdnul hs hnul hclear, strpbrkLoop, hs.suffix.load_nil]
  rfl

/-- The first accepted byte stands behind `word`. -/
theorem strpbrk_some {mem : Memory} {accept s : Ptr} {d word rest : List UInt8} {c : UInt8}
    (hd : Points mem accept d) (hdnul : 0 ∉ d) (hs : Points mem s (word ++ c :: rest)) (hnul : 0 ∉ word)
    (hclear : ∀ c ∈ word, c ∉ d) (hc : c ∈ d) : strpbrk mem s accept = some (some (s.add word.length)) := by
  have hfits := hs.fits
  rw [List.length_append] at hfits
  obtain ⟨fuel, hfuel⟩ : ∃ fuel, s.limit - s.addr = word.length + (fuel + 1) :=
    ⟨s.limit - s.addr - word.length - 1, by omega⟩
  have hne : c ≠ 0 := fun hzero => hdnul (hzero ▸ hc)
  rw [strpbrk, hfuel, strpbrkLoop_skip hd hdnul hs hnul hclear, strpbrkLoop, hs.suffix.load_head]
  dsimp only [Option.bind_eq_bind, Option.bind_some]
  rw [if_neg hne, accept_eq hd hdnul, decide_eq_true hc]
  rfl

/-! ## What one call does -/

/-- At the end of the string there is nothing left. -/
theorem strtok_end {st : StrtokState} {p delim : Ptr} (hsaved : st.savedStr = some p)
    (hp : Points st.mem p []) : strtok st none delim = some (none, st) := by
  rw [strtok, hsaved]
  dsimp only
  rw [hp.load_nil]
  rfl

/-- Nothing is left: the call before took the last field. -/
theorem strtok_null {st : StrtokState} (hsaved : st.savedStr = none) (delim : Ptr) :
    strtok st none delim = some (none, st) := by
  rw [strtok, hsaved]

/-- The last token ends with the string. -/
theorem strtok_last {st : StrtokState} {p delim : Ptr} {d word : List UInt8} (hsaved : st.savedStr = some p)
    (hd : Points st.mem delim d) (hdnul : 0 ∉ d) (hp : Points st.mem p word) (hnul : 0 ∉ word)
    (hne : word ≠ []) (hclear : ∀ c ∈ word, c ∉ d) :
    strtok st none delim = some (some p, { st with savedStr := none }) := by
  have hscan := strpbrk_none hd hdnul hp hnul hclear
  obtain ⟨c, word, rfl⟩ := List.exists_cons_of_ne_nil hne
  have hc : c ≠ 0 := fun hzero => hnul (hzero ▸ List.mem_cons_self)
  rw [strtok, hsaved]
  dsimp only [Option.bind_eq_bind]
  rw [hp.load_head, Option.bind_some, if_neg hc, hscan]
  rfl

/-- A token that ends at a delimiter, which becomes a NUL. -/
theorem strtok_field {st : StrtokState} {p delim : Ptr} {d word rest : List UInt8} {c : UInt8}
    (hsaved : st.savedStr = some p) (hd : Points st.mem delim d) (hdnul : 0 ∉ d)
    (hp : Points st.mem p (word ++ c :: rest)) (hnul : 0 ∉ word) (hclear : ∀ c ∈ word, c ∉ d) (hc : c ∈ d) :
    strtok st none delim = some (some p,
      { mem := Function.update st.mem (p.addr + word.length) 0
        savedStr := some (p.add (word.length + 1)) }) := by
  have hscan := strpbrk_some hd hdnul hp hnul hclear hc
  have hroom : (p.add word.length).addr < (p.add word.length).limit :=
    Nat.lt_of_le_of_lt (Nat.le_add_right _ _) hp.suffix.fits
  obtain ⟨b, tail, htail⟩ := List.exists_cons_of_ne_nil (List.append_ne_nil_of_right_ne_nil word
    (List.cons_ne_nil c rest))
  -- the string is not at its end: the delimiter is still ahead
  have hb : b ≠ 0 := by
    intro hzero
    have hmem : b ∈ word ++ c :: rest := htail ▸ List.mem_cons_self
    subst hzero
    cases word with
    | nil => exact hdnul ((List.cons.inj htail).1 ▸ hc)
    | cons w word => exact hnul ((List.cons.inj htail).1 ▸ List.mem_cons_self)
  rw [htail] at hp
  rw [strtok, hsaved]
  dsimp only [Option.bind_eq_bind]
  rw [hp.load_head, Option.bind_some, if_neg hb, hscan, Option.bind_some]
  dsimp only
  rw [store_of_lt hroom, Option.bind_some, Ptr.add_add]
  rfl

/-! ## The whole sequence -/

/-- Which bytes are delimiters. -/
def marks (d s : List UInt8) : List Bool := s.map fun c => decide (c ∈ d)

/-- The string at `a` with a NUL for every delimiter. -/
def endTokens (mem : Memory) (a : Nat) (d s : List UInt8) : Memory := fun q =>
  if a ≤ q ∧ s.getD (q - a) 0 ∈ d then 0 else mem q

theorem length_marks (d s : List UInt8) : (marks d s).length = s.length := List.length_map _

theorem not_true_mem_marks {d word : List UInt8} (hclear : ∀ c ∈ word, c ∉ d) : true ∉ marks d word := by
  intro hmem
  obtain ⟨c, hc, hmark⟩ := List.mem_map.mp hmem
  exact hclear c hc (of_decide_eq_true hmark)

theorem endTokens_of_clear {d word : List UInt8} (hdnul : 0 ∉ d) (hclear : ∀ c ∈ word, c ∉ d) (mem : Memory)
    (a : Nat) : endTokens mem a d word = mem := by
  funext q
  refine if_neg fun h => ?_
  rw [List.getD_eq_getElem?_getD] at h
  cases hget : word[q - a]? with
  | none => exact hdnul (by simpa [hget] using h.2)
  | some c => exact hclear c (List.mem_of_getElem? hget) (by simpa [hget] using h.2)

/-- The first field, and then the rest. -/
theorem endTokens_field {d word rest : List UInt8} {c : UInt8} (hclear : ∀ c ∈ word, c ∉ d) (hc : c ∈ d)
    (mem : Memory) (a : Nat) :
    endTokens (Function.update mem (a + word.length) 0) (a + word.length + 1) d rest =
      endTokens mem a d (word ++ c :: rest) := by
  funext q
  rw [endTokens, endTokens]
  by_cases hlow : q < a
  · rw [if_neg (by omega), if_neg (by omega), Function.update_of_ne (by omega)]
  obtain ⟨i, rfl⟩ := Nat.exists_eq_add_of_le (Nat.not_lt.mp hlow)
  rw [Nat.add_sub_cancel_left]
  rcases Nat.lt_trichotomy i word.length with hi | rfl | hi
  · -- a byte of the word
    have hget : (word ++ c :: rest).getD i 0 ∉ d := by
      rw [List.getD_eq_getElem?_getD, List.getElem?_append_left hi, List.getElem?_eq_getElem hi]
      exact hclear _ (List.getElem_mem hi)
    rw [if_neg (by omega), if_neg fun h => hget h.2, Function.update_of_ne (by omega)]
  · have hget : (word ++ c :: rest).getD word.length 0 ∈ d := by simpa using hc
    rw [if_neg (by omega), if_pos ⟨Nat.le_add_right _ _, hget⟩, Function.update_self]
  · obtain ⟨k, rfl⟩ := Nat.exists_eq_add_of_lt hi
    have hget : (word ++ c :: rest).getD (word.length + k + 1) 0 = rest.getD k 0 := by
      rw [List.getD_eq_getElem?_getD, List.getElem?_append_right (Nat.le_of_lt hi), Nat.add_assoc,
        Nat.add_sub_cancel_left, List.getElem?_cons_succ, List.getD_eq_getElem?_getD]
    have hplace : a + (word.length + k + 1) - (a + word.length + 1) = k := by omega
    have hleft : a + word.length + 1 ≤ a + (word.length + k + 1) := by omega
    rw [hget, hplace, Function.update_of_ne (by omega)]
    simp only [hleft, Nat.le_add_right, true_and]

/-- A string is clear of delimiters, or has a first one. -/
theorem clear_or_field (d s : List UInt8) : (∀ c ∈ s, c ∉ d) ∨
    ∃ word c rest, s = word ++ c :: rest ∧ (∀ b ∈ word, b ∉ d) ∧ c ∈ d := by
  cases hfind : s.find? fun c => decide (c ∈ d) with
  | none => exact Or.inl fun c hc => by simpa using List.find?_eq_none.mp hfind c hc
  | some c =>
    obtain ⟨hc, word, rest, rfl, hword⟩ := List.find?_eq_some_iff_append.mp hfind
    exact Or.inr ⟨word, c, rest, rfl, fun b hb => by simpa using hword b hb, of_decide_eq_true hc⟩

/-- The two strings and their NULs lie in different places. -/
def Apart (p : Ptr) (s : List UInt8) (q : Ptr) (t : List UInt8) : Prop :=
  p.addr + s.length < q.addr ∨ q.addr + t.length < p.addr

/-- The last field starts where it starts. -/
theorem fieldStarts_marks_last {d s : List UInt8} (hne : s ≠ []) (hclear : ∀ c ∈ s, c ∉ d) (pos : Nat) :
    fieldStarts true true pos (marks d s) = [pos] := by
  have hmarks : marks d s ≠ [] := fun h => hne (List.map_eq_nil_iff.mp h)
  rw [fieldStarts_fresh hmarks, fieldStarts_of_clear (not_true_mem_marks hclear)]

/-- A field, and those behind its delimiter. -/
theorem fieldStarts_marks_field {d word : List UInt8} {c : UInt8} (hclear : ∀ c ∈ word, c ∉ d) (hc : c ∈ d)
    (pos : Nat) (rest : List UInt8) : fieldStarts true true pos (marks d (word ++ c :: rest)) =
      pos :: fieldStarts true true (pos + word.length + 1) (marks d rest) := by
  have hmarks : marks d (word ++ c :: rest) = marks d word ++ true :: marks d rest := by
    rw [marks, List.map_append, List.map_cons, decide_eq_true hc]
    rfl
  have hne : marks d word ++ true :: marks d rest ≠ [] :=
    List.append_ne_nil_of_right_ne_nil _ (List.cons_ne_nil _ _)
  rw [hmarks, fieldStarts_fresh hne, fieldStarts_of_field (not_true_mem_marks hclear), length_marks]

section

variable {st : StrtokState} {str delim : Ptr} {d : List UInt8} {pos : Nat}

/-- No delimiter is left: one more token, if there is anything left. -/
theorem strtokCalls_clear {calls : Nat} {s : List UInt8} (hsaved : st.savedStr = some (str.add pos))
    (hd : Points st.mem delim d) (hdnul : 0 ∉ d) (hs : Points st.mem (str.add pos) s) (hnul : 0 ∉ s)
    (hclear : ∀ c ∈ s, c ∉ d) (hcalls : s.length < calls) :
    ∃ saved, strtokCalls delim st none calls =
      some ((fieldStarts true true pos (marks d s)).map str.add, ⟨st.mem, saved⟩) := by
  obtain ⟨calls, rfl⟩ := Nat.exists_eq_succ_of_ne_zero (Nat.ne_of_gt (Nat.zero_lt_of_lt hcalls))
  rw [strtokCalls]
  by_cases hne : s = []
  · subst hne
    rw [strtok_end hsaved hs]
    exact ⟨st.savedStr, rfl⟩
  · -- the last field, and a call that finds the cursor gone
    have hpos := List.length_pos_iff.mpr hne
    obtain ⟨calls, rfl⟩ := Nat.exists_eq_succ_of_ne_zero (show calls ≠ 0 by omega)
    rw [strtok_last hsaved hd hdnul hs hnul hne hclear]
    dsimp only [Option.bind_eq_bind, Option.bind_some]
    rw [strtokCalls, strtok_null rfl, fieldStarts_marks_last hne hclear]
    exact ⟨none, rfl⟩

/-- Behind the delimiter. -/
theorem points_behind {mem : Memory} {word rest : List UInt8} {c : UInt8}
    (hs : Points mem (str.add pos) (word ++ c :: rest)) :
    Points mem (str.add (pos + word.length + 1)) rest := by
  have hrest := hs.suffix.tail
  rwa [Ptr.add_add, Ptr.add_add] at hrest

/-- From the cursor on, the calls return the fields, and end them all. -/
theorem strtokCalls_eq {calls : Nat} {s : List UInt8} (hsaved : st.savedStr = some (str.add pos))
    (hd : Points st.mem delim d) (hdnul : 0 ∉ d) (hs : Points st.mem (str.add pos) s) (hnul : 0 ∉ s)
    (hapart : Apart (str.add pos) s delim d) (hcalls : s.length < calls) :
    ∃ saved, strtokCalls delim st none calls =
      some ((fieldStarts true true pos (marks d s)).map str.add,
        ⟨endTokens st.mem (str.addr + pos) d s, saved⟩) := by
  induction calls generalizing st s pos with
  | zero => exact absurd hcalls (Nat.not_lt_zero _)
  | succ calls ih =>
    rcases clear_or_field d s with hclear | ⟨word, c, rest, rfl, hclear, hc⟩
    · rw [endTokens_of_clear hdnul hclear]
      exact strtokCalls_clear hsaved hd hdnul hs hnul hclear hcalls
    · have hnul' := List.mem_append.not.mp hnul
      rw [not_or] at hnul'
      have hlen : (word ++ c :: rest).length = word.length + 1 + rest.length := by
        rw [List.length_append, List.length_cons, Nat.add_assoc, Nat.add_comm 1]
      rw [Apart, hlen, Ptr.add_addr] at hapart
      have hapart' : Apart (str.add (pos + word.length + 1)) rest delim d := by
        rw [Apart, Ptr.add_addr]
        omega
      -- the cursor is behind the delimiter after the first call
      have hnext : StrtokState.savedStr
          { mem := Function.update st.mem ((str.add pos).addr + word.length) 0
            savedStr := some ((str.add pos).add (word.length + 1)) } =
          some (str.add (pos + word.length + 1)) := congrArg some (Ptr.add_add _ _ _)
      obtain ⟨saved, hcall⟩ := ih hnext (hd.update (by rw [Ptr.add_addr]; omega) 0)
        ((points_behind hs).update (by rw [Ptr.add_addr, Ptr.add_addr]; omega) 0)
        (List.not_mem_of_not_mem_cons hnul'.2) hapart' (by omega)
      have hplace : str.addr + (pos + word.length + 1) = str.addr + pos + word.length + 1 := by omega
      rw [strtokCalls, strtok_field hsaved hd hdnul hs hnul'.1 hclear hc]
      dsimp only [Option.bind_eq_bind, Option.bind_some]
      rw [hcall, fieldStarts_marks_field hclear hc, ← endTokens_field hclear hc, hplace]
      exact ⟨saved, rfl⟩

end

/-! ## The words -/

/-- The run of other bytes that begins at offset `k`. -/
def wordAt (d s : List UInt8) (k : Nat) : List UInt8 := (s.drop k).takeWhile fun c => decide (c ∉ d)

/-- `strtok(str, delim)` and the calls after it end; they return the words of the
string in order, and change nothing but delimiters of the string, to NUL. -/
structure SplitsWords (d s : List UInt8) (st : StrtokState) (str : Ptr) (tokens : List Ptr)
    (st' : StrtokState) : Prop where
  words : tokens = (runStarts true true 0 (marks d s)).map str.add
  strings : ∀ k ∈ runStarts true true 0 (marks d s), StringIn st'.mem (str.addr + k) (wordAt d s k)
  changed : ∀ q, st'.mem q ≠ st.mem q → ∃ i c, q = str.addr + i ∧ s[i]? = some c ∧ c ∈ d ∧ st'.mem q = 0

/-- A word ends with a delimiter, which is a NUL now, or with the string. -/
theorem stringIn_endTokens {mem : Memory} {str : Ptr} {d s : List UInt8} (hs : Points mem str s)
    (hdnul : 0 ∉ d) {k : Nat} (hk : k ≤ s.length) :
    StringIn (endTokens mem str.addr d s) (str.addr + k) (wordAt d s k) := by
  have hbyte : ∀ i, k + i ≤ s.length → endTokens mem str.addr d s (str.addr + k + i) =
      if (s.drop k).getD i 0 ∈ d then 0 else (s.drop k).getD i 0 := by
    intro i hi
    have hget : (s.drop k).getD i 0 = s.getD (k + i) 0 := by
      rw [List.getD_eq_getElem?_getD, List.getElem?_drop, List.getD_eq_getElem?_getD]
    rw [endTokens, Nat.add_assoc, Nat.add_sub_cancel_left, hget, hs.bytes (k + i) hi]
    simp only [Nat.le_add_right, true_and]
  have hlen : (s.drop k).length = s.length - k := List.length_drop
  rw [wordAt]
  generalize s.drop k = back at hbyte hlen
  rcases clear_or_field d back with hclear | ⟨word, c, rest, rfl, hclear, hc⟩
  · rw [List.takeWhile_eq_self_iff.mpr fun c hc => decide_eq_true (hclear c hc)]
    intro i hi
    rw [hbyte i (by omega), if_neg]
    rw [List.getD_eq_getElem?_getD]
    cases hget : back[i]? with
    | none => exact hdnul
    | some c => exact hclear c (List.mem_of_getElem? hget)
  · rw [List.takeWhile_append_of_pos fun b hb => decide_eq_true (hclear b hb),
      List.takeWhile_cons_of_neg (by simpa using hc), List.append_nil]
    rw [List.length_append, List.length_cons] at hlen
    intro i hi
    rw [hbyte i (by omega)]
    rcases Nat.eq_or_lt_of_le hi with rfl | hlt
    · -- the delimiter
      have hget : (word ++ c :: rest).getD word.length 0 = c := by simp
      have hend : word.getD word.length 0 = 0 := by simp
      rw [hget, hend, if_pos hc]
    · have hget : (word ++ c :: rest).getD i 0 = word.getD i 0 := by
        simp only [List.getD_eq_getElem?_getD, List.getElem?_append_left hlt]
      rw [hget, if_neg]
      rw [List.getD_eq_getElem?_getD, List.getElem?_eq_getElem hlt]
      exact hclear _ (List.getElem_mem hlt)

/-- No delimiter is in front, and none stands behind another. -/
structure Separated (d s : List UInt8) : Prop where
  front : ∀ c ∈ s.head?, c ∉ d
  between : s.IsChain fun b c => ¬ (b ∈ d ∧ c ∈ d)

/-- No two delimiters follow each other, said of the marks. -/
theorem noEmptyField_marks {d s : List UInt8} : NoEmptyField true true (marks d s) ↔ Separated d s := by
  have hchain : (marks d s).IsChain (fun b c => ¬ (b = true ∧ c = true)) ↔
      s.IsChain fun b c => ¬ (b ∈ d ∧ c ∈ d) := by
    rw [marks, List.isChain_map]
    simp only [decide_eq_true_eq]
  have hfront : (marks d s).head? ≠ some true ↔ ∀ c ∈ s.head?, c ∉ d := by
    cases s with
    | nil => simp [marks]
    | cons c s => simp [marks]
  constructor
  · rintro ⟨h, hbetween⟩
    exact ⟨hfront.mp (h rfl), hchain.mp hbetween⟩
  · rintro ⟨h, hbetween⟩
    exact ⟨fun _ => hfront.mpr h, hchain.mpr hbetween⟩

/-- What the calls do on any string: they return its fields. -/
theorem strtokCalls_fields {st : StrtokState} {str delim : Ptr} {s d : CString}
    (hs : Points st.mem str s.bytes) (hd : Points st.mem delim d.bytes)
    (hapart : Apart str s.bytes delim d.bytes) :
    ∃ saved, strtokCalls delim st (some str) (s.bytes.length + 1) =
      some ((fieldStarts true true 0 (marks d.bytes s.bytes)).map str.add,
        ⟨endTokens st.mem str.addr d.bytes s.bytes, saved⟩) :=
  @strtokCalls_eq { st with savedStr := some str } str delim d.bytes 0 _ s.bytes rfl hd d.nulFree hs
    s.nulFree hapart (Nat.lt_succ_self _)

/-- More calls than it takes make no difference. -/
theorem strtokCalls_mono {calls more : Nat} {delim : Ptr} {st : StrtokState} {str : Option Ptr}
    {r : List Ptr × StrtokState} (hle : calls ≤ more) (h : strtokCalls delim st str calls = some r) :
    strtokCalls delim st str more = some r := by
  induction calls generalizing st str r more with
  | zero => cases h
  | succ calls ih =>
    obtain ⟨more, rfl⟩ : ∃ k, more = k + 1 := ⟨more - 1, by omega⟩
    rw [strtokCalls] at h ⊢
    cases hcall : strtok st str delim with
    | none => rw [hcall] at h; cases h
    | some first =>
      obtain ⟨token, st'⟩ := first
      rw [hcall] at h
      dsimp only [Option.bind_eq_bind, Option.bind_some] at h ⊢
      cases token with
      | none => exact h
      | some token =>
        dsimp only at h ⊢
        cases hrest : strtokCalls delim st' none calls with
        | none => rw [hrest] at h; cases h
        | some rest => rwa [ih (Nat.le_of_succ_le_succ hle) hrest, ← hrest]

/-- The calls end, and what they do is cut the string into its words. -/
def CutsWords (d s : CString) (st : StrtokState) (str delim : Ptr) : Prop :=
  ∃ calls tokens st', strtokCalls delim st (some str) calls = some (tokens, st') ∧
    SplitsWords d.bytes s.bytes st str tokens st'

/-- Whatever the string, its bytes change only from delimiters to NUL. -/
theorem endTokens_changed {mem : Memory} {a q : Nat} {d s : List UInt8} (hdnul : 0 ∉ d)
    (h : endTokens mem a d s q ≠ mem q) :
    ∃ i c, q = a + i ∧ s[i]? = some c ∧ c ∈ d ∧ endTokens mem a d s q = 0 := by
  rw [endTokens] at h ⊢
  by_cases hq : a ≤ q ∧ s.getD (q - a) 0 ∈ d
  · rw [if_pos hq]
    obtain ⟨hle, hmem⟩ := hq
    rw [List.getD_eq_getElem?_getD] at hmem
    cases hget : s[q - a]? with
    | none => exact absurd (by simpa [hget] using hmem) hdnul
    | some c => exact ⟨q - a, c, (Nat.add_sub_cancel' hle).symm, hget, by simpa [hget] using hmem, rfl⟩
  · exact absurd (if_neg hq) h

theorem ptr_add_injective (p : Ptr) : Function.Injective p.add := fun _ _ h =>
  Nat.add_left_cancel (congrArg Ptr.addr h)

theorem le_length_of_mem_runStarts {d s : List UInt8} {k : Nat}
    (hk : k ∈ runStarts true true 0 (marks d s)) : k ≤ s.length := by
  have hlt := (mem_runStarts_bounds hk).2
  rw [length_marks, Nat.zero_add] at hlt
  exact Nat.le_of_lt hlt

/-- The words come out right exactly if the fields are the words. -/
theorem cutsWords_iff_fields {st : StrtokState} {str delim : Ptr} {s d : CString}
    (hs : Points st.mem str s.bytes) (hd : Points st.mem delim d.bytes)
    (hapart : Apart str s.bytes delim d.bytes) :
    CutsWords d s st str delim ↔
      fieldStarts true true 0 (marks d.bytes s.bytes) = runStarts true true 0 (marks d.bytes s.bytes) := by
  obtain ⟨saved, hcalls⟩ := strtokCalls_fields hs hd hapart
  constructor
  · rintro ⟨calls, tokens, st', heq, hsplit⟩
    -- both numbers of calls give the same
    have hmore := strtokCalls_mono (Nat.le_max_left calls (s.bytes.length + 1)) heq
    rw [strtokCalls_mono (Nat.le_max_right calls (s.bytes.length + 1)) hcalls] at hmore
    obtain ⟨htokens, -⟩ := Prod.mk.inj (Option.some.inj hmore)
    exact List.map_injective_iff.mpr (ptr_add_injective str) (htokens.trans hsplit.words)
  · intro hfields
    refine ⟨_, _, _, hcalls, ?_⟩
    exact {
      words := by rw [hfields]
      strings := fun k hk => stringIn_endTokens hs d.nulFree (le_length_of_mem_runStarts hk)
      changed := fun q hq => endTokens_changed d.nulFree hq }

/-- **The words of a string.** The calls cut a string into its words just if no
delimiter is in front of it or behind another one. -/
theorem strtok_words_iff {st : StrtokState} {str delim : Ptr} {s d : CString}
    (hs : Points st.mem str s.bytes) (hd : Points st.mem delim d.bytes)
    (hapart : Apart str s.bytes delim d.bytes) :
    CutsWords d s st str delim ↔ Separated d.bytes s.bytes := by
  rw [cutsWords_iff_fields hs hd hapart, fieldStarts_eq_runStarts_iff, noEmptyField_marks]

theorem strtok_words_twoStrings :
    CutsWords ", " "ls,rm -r" ⟨twoStrings "ls,rm -r" ", ", none⟩ (ptrTo 0 (CString.bytes "ls,rm -r"))
        (ptrTo 16 (CString.bytes ", ")) ↔
      Separated (CString.bytes ", ") (CString.bytes "ls,rm -r") :=
  have hmem := stringIn_twoStrings (s := "ls,rm -r") (t := ", ") (by decide)
  strtok_words_iff (points_ptrTo hmem.1) (points_ptrTo hmem.2) (Or.inl (by decide))

/-- `",a"` has one word; the first call returns an empty token. -/
theorem not_strtok_words : ¬ ∀ (st : StrtokState) (str delim : Ptr) (s d : CString),
    Points st.mem str s.bytes → Points st.mem delim d.bytes → Apart str s.bytes delim d.bytes →
      CutsWords d s st str delim := by
  intro h
  have hmem := stringIn_twoStrings (s := ",a") (t := ",") (by decide)
  have hs := points_ptrTo hmem.1
  have hd := points_ptrTo hmem.2
  have hapart : Apart (ptrTo 0 (CString.bytes ",a")) (CString.bytes ",a") (ptrTo 16 (CString.bytes ","))
      (CString.bytes ",") := Or.inl (by decide)
  have hcut := h ⟨twoStrings ",a" ",", none⟩ _ _ ",a" "," hs hd hapart
  rw [cutsWords_iff_fields hs hd hapart] at hcut
  exact absurd hcut (by decide)

end Srunix
