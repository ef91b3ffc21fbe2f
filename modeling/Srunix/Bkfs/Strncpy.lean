import Srunix.Bkfs.Boot
import Srunix.Lib.Memory

/-!
# `strncpy` (`lib/prdio.h`), as `fs_create_file` uses it

Two loops count the same `size_t` down. Where the source ends first, the second
one finds what is left and fills it with zeros. Where the count does, the first
loop has taken it below zero: the second one goes on for `2 ^ 64 - 1` bytes.

A pointer moves on from `dest` by the bytes stored so far, modulo `2 ^ 64`. The
source is a string of its own, which the stores do not touch.
-/

namespace Srunix

open Library

/-- `n--` -/
def decrement (n : Nat) : Nat := if n = 0 then 2 ^ 64 - 1 else n - 1

/-- `while (n-- && (*dest++ = *src++));` from byte `i` on; the memory, the bytes
stored and what is left of `n`. -/
def strncpyCopy (mem : Memory) (dest : Nat) (src : Memory) (i : Nat) : Nat → Memory × Nat × Nat
  | 0 => (mem, i, decrement 0)
  | n + 1 =>
    let mem := Function.update mem (uint64 (dest + i)) (src i)
    if src i = 0 then (mem, i + 1, n) else strncpyCopy mem dest src (i + 1) n

/-- `while (n-- > 0) *dest++ = '\0';` -/
def strncpyFill (mem : Memory) (dest i : Nat) : Nat → Memory × Nat
  | 0 => (mem, i)
  | n + 1 => strncpyFill (Function.update mem (uint64 (dest + i)) 0) dest (i + 1) n

/-- `strncpy(dest, src, n)`: the memory afterwards, and how many bytes were
stored. -/
def strncpy (mem : Memory) (dest : Nat) (src : CString) (n : Nat) : Memory × Nat :=
  let (mem, i, n) := strncpyCopy mem dest src.mem 0 n
  strncpyFill mem dest i n

example : (strncpy (fun _ => 0xFF) 100 "ab" 4).2 = 4 ∧
    table (fun i => (strncpy (fun _ => 0xFF) 100 "ab" 4).1 (99 + i)) 6 = [0xFF, 0x61, 0x62, 0, 0, 0xFF] := by
  decide

/-! ## Stores one after the other -/

/-- `dest[j] = f(j);` for the `n` indices from `i` on. -/
def storeRun (mem : Memory) (dest : Nat) (f : Memory) (i : Nat) : Nat → Memory
  | 0 => mem
  | n + 1 => storeRun (Function.update mem (uint64 (dest + i)) (f i)) dest f (i + 1) n

/-- A run of stores, in two parts. -/
theorem storeRun_append (mem : Memory) (dest : Nat) (f : Memory) (i m n : Nat) :
    storeRun mem dest f i (m + n) = storeRun (storeRun mem dest f i m) dest f (i + m) n := by
  induction m generalizing mem i with
  | zero => rw [Nat.zero_add]; rfl
  | succ m ih =>
    have hlen : m + 1 + n = m + n + 1 := by omega
    have hnext : i + (m + 1) = i + 1 + m := by omega
    rw [hlen, hnext]
    exact ih _ (i + 1)

/-- Only the bytes of the range matter. -/
theorem storeRun_congr {f g : Memory} {i n : Nat} (h : ∀ j, i ≤ j → j < i + n → f j = g j)
    (mem : Memory) (dest : Nat) : storeRun mem dest f i n = storeRun mem dest g i n := by
  induction n generalizing mem i with
  | zero => rfl
  | succ n ih =>
    rw [storeRun]
    rw [h i (Nat.le_refl i) (by omega)]
    exact ih (fun j hij hjn => h j (by omega) (by omega)) _

/-- An address none of the stores goes to. -/
theorem storeRun_of_ne {mem : Memory} {dest : Nat} {f : Memory} {i n a : Nat}
    (ha : ∀ j, i ≤ j → j < i + n → a ≠ uint64 (dest + j)) : storeRun mem dest f i n a = mem a := by
  induction n generalizing mem i with
  | zero => rfl
  | succ n ih =>
    rw [storeRun]
    rw [ih fun j hij hjn => ha j (by omega) (by omega)]
    exact Function.update_of_ne (ha i (Nat.le_refl i) (by omega)) _ _

/-- Less than `2 ^ 64` stores do not get in each other's way. -/
theorem storeRun_apply {mem : Memory} {dest : Nat} {f : Memory} {i n j : Nat} (hn : n < 2 ^ 64)
    (hij : i ≤ j) (hjn : j < i + n) : storeRun mem dest f i n (uint64 (dest + j)) = f j := by
  induction n generalizing mem i with
  | zero => omega
  | succ n ih =>
    rw [storeRun]
    by_cases hji : j = i
    · subst hji
      rw [storeRun_of_ne fun k hjk hkn => by simp only [uint64]; omega]
      exact Function.update_self ..
    · exact ih (by omega) (by omega) (by omega)

/-! ## The two loops -/

/-- The fill stores zeros, as many as it is told. -/
theorem strncpyFill_eq (mem : Memory) (dest i n : Nat) :
    strncpyFill mem dest i n = (storeRun mem dest (fun _ => 0) i n, i + n) := by
  induction n generalizing mem i with
  | zero => rfl
  | succ n ih =>
    rw [strncpyFill, ih, Nat.succ_add_eq_add_succ]
    rfl

theorem mem_eq_zero_iff (src : CString) (i : Nat) : src.mem i = 0 ↔ strlen src ≤ i := by
  rw [CString.mem, strlen]
  by_cases hi : i < src.bytes.length
  · have hget : src.bytes.getD i 0 = src.bytes[i] := by simp [hi]
    rw [hget]
    refine iff_of_false (fun hzero => src.nulFree ?_) (Nat.not_le.mpr hi)
    exact hzero ▸ List.getElem_mem hi
  · have hnone : src.bytes.getD i 0 = 0 := by simp [Nat.not_lt.mp hi]
    exact iff_of_true hnone (Nat.not_lt.mp hi)

/-- The copy stops behind the NUL, or where the count has run out. -/
theorem strncpyCopy_eq (mem : Memory) (dest : Nat) (src : CString) {i : Nat} (hi : i ≤ strlen src)
    (n : Nat) : strncpyCopy mem dest src.mem i n =
      if strlen src < i + n then
        (storeRun mem dest src.mem i (strlen src + 1 - i), strlen src + 1, i + n - (strlen src + 1))
      else (storeRun mem dest src.mem i n, i + n, decrement 0) := by
  induction n generalizing mem i with
  | zero =>
    rw [if_neg (by omega)]
    rfl
  | succ n ih =>
    unfold strncpyCopy
    dsimp only
    by_cases hend : strlen src ≤ i
    · -- the NUL has been copied
      obtain rfl : i = strlen src := Nat.le_antisymm hi hend
      have hone : strlen src + 1 - strlen src = 1 := Nat.add_sub_cancel_left ..
      have hleft : strlen src + (n + 1) - (strlen src + 1) = n := by omega
      rw [if_pos ((mem_eq_zero_iff src _).mpr hend), if_pos (by omega), hone, hleft]
      rfl
    · have hmore : strlen src + 1 - i = (strlen src + 1 - (i + 1)) + 1 := by omega
      rw [if_neg fun hzero => hend ((mem_eq_zero_iff src i).mp hzero), ih _ (Nat.not_le.mp hend),
        Nat.succ_add_eq_add_succ, hmore]
      rfl

/-- The string and zeros, `n` bytes in all. -/
theorem strncpy_of_lt (mem : Memory) (dest : Nat) {src : CString} {n : Nat} (h : strlen src < n) :
    strncpy mem dest src n = (storeRun mem dest src.mem 0 n, n) := by
  have hsplit : n = strlen src + 1 + (n - (strlen src + 1)) := by omega
  have hzeros : storeRun (storeRun mem dest src.mem 0 (strlen src + 1)) dest (fun _ => 0)
      (strlen src + 1) (n - (strlen src + 1)) = storeRun mem dest src.mem 0 n := by
    conv_rhs => rw [hsplit, storeRun_append, Nat.zero_add]
    refine storeRun_congr (fun j hj _ => ?_) _ dest
    exact ((mem_eq_zero_iff src j).mpr (Nat.le_of_succ_le hj)).symm
  rw [strncpy]
  rw [strncpyCopy_eq mem dest src (Nat.zero_le _), Nat.zero_add, if_pos h]
  dsimp only
  rw [strncpyFill_eq, Nat.sub_zero, hzeros, ← hsplit]

/-- The count has wrapped around. -/
theorem strncpy_of_le (mem : Memory) (dest : Nat) {src : CString} {n : Nat} (h : n ≤ strlen src) :
    (strncpy mem dest src n).2 = n + (2 ^ 64 - 1) := by
  rw [strncpy]
  rw [strncpyCopy_eq mem dest src (Nat.zero_le _), Nat.zero_add, if_neg (Nat.not_lt.mpr h)]
  dsimp only
  rw [strncpyFill_eq]
  rfl

/-! ## What `strncpy` promises -/

/-- **What `strncpy(dest, src, n)` should do**: store `n` bytes, the string as far
as it goes and zeros, and no other. -/
structure StrncpyLaw (mem : Memory) (dest : Nat) (src : CString) (n : Nat) (result : Memory × Nat) :
    Prop where
  count : result.2 = n
  stored : ∀ i < n, result.1 (uint64 (dest + i)) = src.bytes.getD i 0
  kept : ∀ a, (∀ i < n, a ≠ uint64 (dest + i)) → result.1 a = mem a

/-- A source that ends in time is copied and filled up. -/
theorem strncpyLaw_of_lt (mem : Memory) (dest : Nat) {src : CString} {n : Nat} (hn : n < 2 ^ 64)
    (h : strlen src < n) : StrncpyLaw mem dest src n (strncpy mem dest src n) := by
  rw [strncpy_of_lt mem dest h]
  refine ⟨rfl, fun i hi => ?_, fun a ha => ?_⟩
  · exact storeRun_apply hn (Nat.zero_le i) (by omega)
  · exact storeRun_of_ne fun j _ hj => ha j (by omega)

/-- The law holds exactly of a source that ends in time: otherwise the count of the
fill wraps. -/
theorem strncpyLaw_iff (mem : Memory) (dest : Nat) (src : CString) {n : Nat} (hn : n < 2 ^ 64) :
    StrncpyLaw mem dest src n (strncpy mem dest src n) ↔ strlen src < n := by
  constructor
  · intro hlaw
    by_contra hlong
    have hcount := hlaw.count
    rw [strncpy_of_le mem dest (Nat.not_lt.mp hlong)] at hcount
    omega
  · exact strncpyLaw_of_lt mem dest hn

/-! ## The name of a new entry -/

/-- `sizeof(File)` -/
abbrev sizeofFile : Nat := 48

/-- `offsetof(File, name)` -/
abbrev offsetofName : Nat := 4

example : cSizeof ([4] ++ List.replicate 32 1 ++ [4, 1, 4]) = sizeofFile ∧
    (cStruct 0 ([4] ++ List.replicate 32 1 ++ [4, 1, 4] |>.map fun w => (w, 0)))[1]?.map Field.off
      = some offsetofName := by
  decide +kernel

/-- `strncpy(files[file_count].name, name, 31);`, `files` being at address `files`. -/
def storeName (mem : Memory) (files fileCount : Nat) (name : CString) : Memory × Nat :=
  strncpy mem (files + fileCount * sizeofFile + offsetofName) name 31

/-- **When `strncpy` keeps its promise**: for strings shorter than the count. In
`fs_create_file`, which copies up to 31 bytes of the name, that is for names of
30 bytes at most. -/
theorem strncpy_iff (mem : Memory) (dest : Nat) (src : CString) {n : Nat} (hn : n < 2 ^ 64) :
    (StrncpyLaw mem dest src n (strncpy mem dest src n) ↔ strlen src < n) ∧
    ∀ files fileCount,
      StrncpyLaw mem (files + fileCount * sizeofFile + offsetofName) src 31
        (storeName mem files fileCount src) ↔ strlen src ≤ 30 := by
  refine ⟨strncpyLaw_iff mem dest src hn, fun files fileCount => ?_⟩
  rw [storeName, strncpyLaw_iff mem _ src (by decide)]
  exact Nat.lt_succ_iff

theorem strncpy_iff_note :
    (StrncpyLaw (fun _ => 0xFF) 0x1000 "note" 5 (strncpy (fun _ => 0xFF) 0x1000 "note" 5) ↔
      strlen "note" < 5) ∧
    ∀ files fileCount,
      StrncpyLaw (fun _ => 0xFF) (files + fileCount * sizeofFile + offsetofName) "note" 31
        (storeName (fun _ => 0xFF) files fileCount "note") ↔ strlen "note" ≤ 30 :=
  strncpy_iff (fun _ => 0xFF) 0x1000 "note" (by decide)

/-- 31 letters. -/
def longName : CString :=
  ⟨List.replicate 31 0x61, fun h => nomatch List.eq_of_mem_replicate h⟩

/-- `touch` with a name of 31 letters: the zeros go all the way round. -/
theorem not_strncpyLaw_longName :
    isValidFilename longName = true ∧
      ¬ StrncpyLaw (fun _ => 0xFF) (0x100000 + 26 * sizeofFile + offsetofName) longName 31
        (storeName (fun _ => 0xFF) 0x100000 26 longName) := by
  refine ⟨by decide, fun hlaw => ?_⟩
  have hshort := (strncpyLaw_iff _ _ longName (by decide)).mp hlaw
  exact absurd hshort (by decide)

end Srunix
