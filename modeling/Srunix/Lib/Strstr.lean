import Srunix.Lib.Strings

/-!
# `strstr` (`lib/prdio.h`)

`strstr` asks `memcmp` for the whole length of the needle, also where less than
that is left of the haystack. It stays inside all the same: the haystack's NUL
is not a byte of the needle, so the comparison ends there.
-/

namespace Srunix

open Library

/-- `while (n--)`: the difference of the first two bytes that differ. -/
def memcmp (mem : Memory) (p1 p2 : Ptr) : Nat → Option Int
  | 0 => some 0
  | n + 1 => do
    let c1 ← load mem p1
    let c2 ← load mem p2
    if c1 ≠ c2 then some ((c1.toNat : Int) - c2.toNat) else memcmp mem (p1.add 1) (p2.add 1) n

/-- `*haystack == *needle && !memcmp(haystack, needle, needle_len)` -/
def matchesAt (mem : Memory) (haystack needle : Ptr) (needleLen : Nat) (c : UInt8) : Option Bool := do
  let d ← load mem needle
  if c = d then
    let diff ← memcmp mem haystack needle needleLen
    some (diff == 0)
  else some false

/-- `for (; *haystack; haystack++)`. The fuel is what is left of the object. -/
def strstrLoop (mem : Memory) (needle : Ptr) (needleLen : Nat) (haystack : Ptr) :
    Nat → Option (Option Ptr)
  | 0 => none
  | fuel + 1 => do
    let c ← load mem haystack
    if c = 0 then some none
    else
      let found ← matchesAt mem haystack needle needleLen c
      if found then some (some haystack)
      else strstrLoop mem needle needleLen (haystack.add 1) fuel

/-- `strstr`. A load at the limit or behind it makes the whole call `none`. -/
def strstr (mem : Memory) (haystack needle : Ptr) : Option (Option Ptr) := do
  let needleLen ← strlenAt mem needle
  if needleLen = 0 then some (some haystack)
  else strstrLoop mem needle needleLen haystack (haystack.limit - haystack.addr)

/-! ## `memcmp` on strings -/

/-- Two strings compare equal over the length of the second just if the first
begins with it. Neither is read behind its NUL. -/
theorem memcmp_eq {mem : Memory} {p1 p2 : Ptr} {hay needle : List UInt8} (h1 : Points mem p1 hay)
    (h2 : Points mem p2 needle) (hnul : 0 ∉ needle) :
    ∃ diff, memcmp mem p1 p2 needle.length = some diff ∧ (diff = 0 ↔ needle <+: hay) := by
  induction needle generalizing p1 p2 hay with
  | nil => exact ⟨0, rfl, iff_of_true rfl (List.nil_prefix)⟩
  | cons d needle ih =>
    have hd : d ≠ 0 := fun hzero => hnul (hzero ▸ List.mem_cons_self)
    rw [List.length_cons, memcmp, h2.load_head]
    cases hay with
    | nil =>
      -- the NUL of the haystack ends the comparison
      rw [h1.load_nil]
      refine ⟨_, if_pos (Ne.symm hd), iff_of_false ?_ fun hpre => ?_⟩
      · have hpos : d.toNat ≠ 0 := fun hzero => hd (UInt8.toNat_inj.mp hzero)
        have hz : (0 : UInt8).toNat = 0 := rfl
        omega
      · exact absurd (List.prefix_nil.mp hpre) (List.cons_ne_nil _ _)
    | cons c hay =>
      rw [h1.load_head]
      dsimp only [Option.bind_eq_bind, Option.bind_some]
      by_cases hcd : c = d
      · subst hcd
        obtain ⟨diff, heq, hzero⟩ := ih h1.tail h2.tail (List.not_mem_of_not_mem_cons hnul)
        refine ⟨diff, ?_, ?_⟩
        · rw [if_neg (not_not_intro rfl), heq]
        · rw [hzero, List.prefix_cons_inj]
      · rw [if_pos hcd]
        refine ⟨_, rfl, iff_of_false (fun hzero => ?_) fun hpre => ?_⟩
        · exact hcd (UInt8.toNat_inj.mp (by omega))
        · exact hcd (List.cons_prefix_cons.mp hpre).1.symm

/-- The inner comparison, and where it may stop early. -/
theorem matchesAt_eq {mem : Memory} {haystack needle : Ptr} {c : UInt8} {hay word : List UInt8}
    (hh : Points mem haystack (c :: hay)) (hn : Points mem needle word) (hnul : 0 ∉ word) (hne : word ≠ []) :
    matchesAt mem haystack needle word.length c = some (decide (word <+: c :: hay)) := by
  obtain ⟨d, word, rfl⟩ := List.exists_cons_of_ne_nil hne
  rw [matchesAt, hn.load_head]
  dsimp only [Option.bind_eq_bind, Option.bind_some]
  by_cases hcd : c = d
  · obtain ⟨diff, heq, hzero⟩ := memcmp_eq hh hn hnul
    rw [if_pos hcd, heq]
    exact congrArg some (decide_eq_decide.mpr hzero)
  · rw [if_neg hcd, decide_eq_false]
    exact fun hpre => hcd (List.cons_prefix_cons.mp hpre).1.symm

/-! ## The first occurrence -/

/-- `k` is the least offset at which `needle` occurs in `hay`. -/
structure FirstAt (needle hay : List UInt8) (k : Nat) : Prop where
  inside : k ≤ hay.length
  occurs : needle <+: hay.drop k
  least : ∀ j < k, ¬ needle <+: hay.drop j

/-- What a search for `needle` in the string at `p` returns. -/
inductive Finds (needle hay : List UInt8) (p : Ptr) : Option Ptr → Prop
  | found {k : Nat} : FirstAt needle hay k → Finds needle hay p (some (p.add k))
  | absent : ¬ needle <:+: hay → Finds needle hay p none

/-- If there is no occurrence in front, the search goes on behind the first byte. -/
theorem Finds.cons {needle hay : List UInt8} {c : UInt8} {p : Ptr} {r : Option Ptr}
    (hc : ¬ needle <+: c :: hay) (h : Finds needle hay (p.add 1) r) : Finds needle (c :: hay) p r := by
  cases h with
  | @found k h =>
    rw [Ptr.add_add, Nat.add_comm 1]
    refine .found ⟨Nat.succ_le_succ h.inside, h.occurs, fun j hj => ?_⟩
    cases j with
    | zero => exact hc
    | succ j => exact h.least j (Nat.lt_of_succ_lt_succ hj)
  | absent h => exact .absent fun hin => (List.infix_cons_iff.mp hin).elim hc h

/-- The loop finds the first place, or none. The induction is on the fuel, which is
the memory up to the limit. -/
theorem strstrLoop_eq {mem : Memory} {needle haystack : Ptr} {word hay : List UInt8} {fuel : Nat}
    (hn : Points mem needle word) (hnul : 0 ∉ word) (hne : word ≠ []) (hh : Points mem haystack hay)
    (hhnul : 0 ∉ hay) (hfuel : hay.length < fuel) :
    ∃ r, strstrLoop mem needle word.length haystack fuel = some r ∧ Finds word hay haystack r := by
  induction hay generalizing haystack fuel with
  | nil =>
    obtain ⟨fuel, rfl⟩ := Nat.exists_eq_succ_of_ne_zero (Nat.ne_of_gt hfuel)
    refine ⟨none, ?_, .absent fun hin => hne (List.infix_nil.mp hin)⟩
    rw [strstrLoop, hh.load_nil]
    rfl
  | cons c hay ih =>
    obtain ⟨fuel, rfl⟩ := Nat.exists_eq_succ_of_ne_zero (Nat.ne_of_gt (Nat.zero_lt_of_lt hfuel))
    have hc : c ≠ 0 := fun hzero => hhnul (hzero ▸ List.mem_cons_self)
    rw [strstrLoop, hh.load_head]
    dsimp only [Option.bind_eq_bind, Option.bind_some]
    rw [if_neg hc, matchesAt_eq hh hn hnul hne]
    dsimp only [Option.bind_some]
    -- the word starts here, or not before the next byte
    by_cases hpre : word <+: c :: hay
    · rw [if_pos (decide_eq_true hpre)]
      exact ⟨_, rfl, .found (k := 0) ⟨Nat.zero_le _, hpre, fun j hj => absurd hj (Nat.not_lt_zero j)⟩⟩
    · rw [if_neg (by simpa using hpre)]
      obtain ⟨r, heq, hr⟩ :=
        ih hh.tail (List.not_mem_of_not_mem_cons hhnul) (Nat.lt_of_succ_lt_succ hfuel)
      exact ⟨r, heq, hr.cons hpre⟩

/-- **The first occurrence.** With both strings ending where their objects end,
`strstr` reads neither behind its end. It returns the least offset at which the
needle occurs and `NULL` if there is none; the haystack for an empty needle. -/
theorem strstr_first {mem : Memory} {a b : Nat} {haystack needle : CString}
    (hh : StringIn mem a haystack.bytes) (hn : StringIn mem b needle.bytes) :
    ∃ r, strstr mem (ptrTo a haystack.bytes) (ptrTo b needle.bytes) = some r ∧
      Finds needle.bytes haystack.bytes (ptrTo a haystack.bytes) r ∧
      (needle.bytes = [] → r = some (ptrTo a haystack.bytes)) := by
  have hneedle := points_ptrTo hn
  rw [strstr, hneedle.strlenAt needle.nulFree]
  dsimp only [Option.bind_eq_bind, Option.bind_some]
  by_cases hempty : needle.bytes = []
  · refine ⟨_, if_pos (List.length_eq_zero_iff.mpr hempty), ?_, fun _ => rfl⟩
    refine .found (k := 0) ⟨Nat.zero_le _, ?_, fun j hj => absurd hj (Nat.not_lt_zero j)⟩
    rw [hempty]
    exact List.nil_prefix
  · have hfuel : haystack.bytes.length < (ptrTo a haystack.bytes).limit - (ptrTo a haystack.bytes).addr := by
      show _ < a + haystack.bytes.length + 1 - a
      omega
    obtain ⟨r, heq, hr⟩ := strstrLoop_eq hneedle needle.nulFree hempty (points_ptrTo hh)
      haystack.nulFree hfuel
    refine ⟨r, ?_, hr, fun h => absurd h hempty⟩
    rw [if_neg fun h => hempty (List.length_eq_zero_iff.mp h), heq]

theorem strstr_first_twoStrings :
    ∃ r, strstr (twoStrings "kernel" "nel") (ptrTo 0 (CString.bytes "kernel"))
        (ptrTo 16 (CString.bytes "nel")) = some r ∧
      Finds (CString.bytes "nel") (CString.bytes "kernel") (ptrTo 0 (CString.bytes "kernel")) r ∧
      (CString.bytes "nel" = [] → r = some (ptrTo 0 (CString.bytes "kernel"))) :=
  have hmem := stringIn_twoStrings (s := "kernel") (t := "nel") (by decide)
  strstr_first hmem.1 hmem.2

end Srunix
