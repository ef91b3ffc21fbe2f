import Mathlib.Algebra.Group.Int.Defs
import Mathlib.Algebra.Group.Nat.Defs
import Mathlib.Data.List.Basic

/-!
# Constants and strings (`lib/pring.h`, the string half of `lib/prdio.h`)

A C string is modelled by the bytes before its terminator, `CString`; that none
of them is the NUL byte is a field of the structure, so `strcmp` needs no
side condition to decide equality (`strcmp_eq_zero_iff`).
-/

namespace Srunix

/-! ## Sizes and codes -/

/-- `MAX_FILES`: the entries of `files[]`. -/
abbrev maxFiles : Nat := 128
/-- `MAX_BLOCKS`: the blocks of the RAM disk. -/
abbrev maxBlocks : Nat := 1024
/-- `MAX_INODES`. -/
abbrev maxInodes : Nat := 128
/-- `BLOCK_SIZE`. -/
abbrev blockSize : Nat := 1024
/-- `INODE_DIRECT_BLOCKS`: there are no other blocks of an inode. -/
abbrev inodeDirectBlocks : Nat := 12
/-- `MAX_TTYS`. -/
abbrev maxTtys : Nat := 9
/-- `SCREEN_WIDTH`. -/
abbrev screenWidth : Nat := 80
/-- `SCREEN_HEIGHT`. -/
abbrev screenHeight : Nat := 25

/-- `FILE_REGULAR`. -/
abbrev fileRegular : UInt8 := 0
/-- `FILE_DIR`. -/
abbrev fileDir : UInt8 := 1

/-- `FS_SUCCESS`. -/
abbrev fsSuccess : Int := 0
/-- `FS_ERROR`. -/
abbrev fsError : Int := 1

/-- `COLOR_BLACK`. -/
abbrev colorBlack : UInt8 := 0x0
/-- `COLOR_RED`. -/
abbrev colorRed : UInt8 := 0x4
/-- `COLOR_WHITE`. -/
abbrev colorWhite : UInt8 := 0xF

/-- Unsigned 32-bit wrap-around. -/
abbrev uint32 (n : Nat) : Nat := n % 2 ^ 32

/-- The `int` a 32-bit value is read as when a function returns it. -/
def toInt (n : Nat) : Int := (n : Int).bmod (2 ^ 32)

theorem toInt_of_lt {n : Nat} (h : n < 2 ^ 31) : toInt n = n :=
  Int.bmod_eq_of_le (by omega) (by omega)

/-! ## Strings -/

/-- A C string: the bytes before the terminating NUL. -/
structure CString where
  bytes : List UInt8
  nulFree : 0 ∉ bytes
deriving DecidableEq

namespace CString

theorem ext {s t : CString} (h : s.bytes = t.bytes) : s = t := by
  cases s
  cases t
  cases h
  rfl

/-- The empty string. -/
def empty : CString := ⟨[], by simp⟩

/-- The string a C literal stands for. -/
def ofString (s : String) : CString :=
  ⟨(s.toList.map fun c => c.toNat.toUInt8).filter (· ≠ 0), by simp⟩

/-- One string behind the other. -/
def append (s t : CString) : CString :=
  ⟨s.bytes ++ t.bytes, by simp [s.nulFree, t.nulFree]⟩

instance : Append CString := ⟨append⟩

@[simp] theorem bytes_append (s t : CString) : (s ++ t).bytes = s.bytes ++ t.bytes := rfl

end CString

/-- A string literal may be written where a C string is expected. -/
instance : Coe String CString := ⟨CString.ofString⟩

/-- `strlen`. -/
def strlen (s : CString) : Nat := s.bytes.length

/-- The loop of `strcmp`, on the bytes of both strings. -/
def strcmpBytes : List UInt8 → List UInt8 → Int
  | [], [] => 0
  | [], b :: _ => 0 - (b.toNat : Int)
  | a :: _, [] => (a.toNat : Int)
  | a :: as, b :: bs => if a = b then strcmpBytes as bs else (a.toNat : Int) - b.toNat

/-- `strcmp`; only whether it is 0 is ever asked. -/
def strcmp (s1 s2 : CString) : Int := strcmpBytes s1.bytes s2.bytes

theorem strcmpBytes_self (l : List UInt8) : strcmpBytes l l = 0 := by
  induction l with
  | nil => rfl
  | cons a as ih => rw [strcmpBytes, if_pos rfl, ih]

/-- Strings that `strcmp` takes for equal are equal. -/
theorem eq_of_strcmpBytes : ∀ {l₁ l₂ : List UInt8}, 0 ∉ l₁ → 0 ∉ l₂ →
    strcmpBytes l₁ l₂ = 0 → l₁ = l₂
  | [], [], _, _, _ => rfl
  | [], b :: _, _, h₂, h => by
    have hb : b.toNat = 0 := by simpa [strcmpBytes] using h
    have hzero : b = 0 := UInt8.toNat_inj.mp hb
    exact absurd (hzero ▸ List.mem_cons_self) h₂
  | a :: _, [], h₁, _, h => by
    have ha : a.toNat = 0 := by simpa [strcmpBytes] using h
    have hzero : a = 0 := UInt8.toNat_inj.mp ha
    exact absurd (hzero ▸ List.mem_cons_self) h₁
  | a :: as, b :: bs, h₁, h₂, h => by
    by_cases hab : a = b
    · rw [strcmpBytes, if_pos hab] at h
      rw [hab, eq_of_strcmpBytes (fun hm => h₁ (List.mem_cons_of_mem _ hm))
        (fun hm => h₂ (List.mem_cons_of_mem _ hm)) h]
    · rw [strcmpBytes, if_neg hab] at h
      have : a.toNat = b.toNat := by omega
      exact absurd (UInt8.toNat_inj.mp this) hab

/-- `strcmp` returns zero on equal strings only. -/
theorem strcmp_eq_zero_iff {s1 s2 : CString} : strcmp s1 s2 = 0 ↔ s1 = s2 := by
  constructor
  · intro h
    exact CString.ext (eq_of_strcmpBytes s1.nulFree s2.nulFree h)
  · rintro rfl
    exact strcmpBytes_self _

/-- The characters `is_valid_filename` rejects. -/
def invalidChars : CString := "&;|*?'\"\x60[]()$<>\x7b\x7d^#\\/%!"

/-- `is_valid_filename`: not empty, and none of the forbidden characters. -/
def isValidFilename (name : CString) : Bool :=
  strlen name != 0 && name.bytes.all fun c => !invalidChars.bytes.contains c

/-- A name that fits its directory entry: `fs_create_file` copies it with
`strncpy(…, name, 31)`, which stores at most 30 bytes and the terminator whole
and runs past the entry's name field on anything longer. -/
structure Name where
  str : CString
  fits : str.bytes.length ≤ 30
deriving DecidableEq

end Srunix
