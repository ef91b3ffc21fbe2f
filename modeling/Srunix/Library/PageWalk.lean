import Srunix.Library.Bytes

/-!
# The four-level page walk of x86-64

`walk` translates an address through page tables in byte memory, from the table
`cr3` points to down to a page of 4 KiB, 2 MiB or 1 GiB. A table has 512 entries
of eight bytes. Bit 0 of an entry says that it is there, bit 1 that one may write
through it, and bit 7 that it is a large page and not a table.
-/

namespace Srunix.Library

namespace PageWalk

/-- A page can be written if every entry on the way to it says so. -/
structure Translation where
  phys : Nat
  writable : Bool
deriving DecidableEq

/-- Bits 47 to 63 of an address are the same. -/
def Canonical (v : Nat) : Prop := v < 2 ^ 47 ∨ (2 ^ 64 - 2 ^ 47 ≤ v ∧ v < 2 ^ 64)

instance (v : Nat) : Decidable (Canonical v) := inferInstanceAs (Decidable (_ ∨ _))

/-- How many bits of an address are below the index into a table of a level. -/
def levelShift (level : Nat) : Nat := 12 + 9 * level

/-- The nine bits of an address that a level of the tables uses. -/
def index (level v : Nat) : Nat := v / 2 ^ levelShift level % 512

/-- An entry of a table, eight bytes wide. -/
def entry (mem : Memory) (table i : Nat) : Nat := readLe mem (table + 8 * i) 8

/-- Bits 12 to 51: the next table, or the page. -/
def frame (e : Nat) : Nat := e % 2 ^ 52 / 2 ^ 12 * 2 ^ 12

/-- The walk from a table of level `level` on. Level 0 points to pages. -/
def walkFrom (mem : Memory) (v : Nat) : (level table : Nat) → Bool → Option Translation
  | 0, table, writable =>
    let e := entry mem table (index 0 v)
    if e.testBit 0 then some { phys := frame e + v % 2 ^ 12, writable := writable && e.testBit 1 } else none
  | level + 1, table, writable =>
    let e := entry mem table (index (level + 1) v)
    if e.testBit 0 then
      if e.testBit 7 then
        -- a large page; its address has no bits below its size, and the top level has none
        if level ≤ 1 ∧ frame e % 2 ^ levelShift (level + 1) = 0 then
          some { phys := frame e + v % 2 ^ levelShift (level + 1), writable := writable && e.testBit 1 }
        else none
      else walkFrom mem v level (frame e) (writable && e.testBit 1)
    else none

/-- What an address is translated to; `none` is a fault. -/
def walk (mem : Memory) (cr3 v : Nat) : Option Translation :=
  if Canonical v then walkFrom mem v 3 (frame cr3) true else none

variable {mem : Memory} {v level table : Nat} {writable : Bool}

/-! ## One level -/

/-- An entry that is not present ends the walk. -/
theorem walkFrom_absent (h : (entry mem table (index level v)).testBit 0 = false) :
    walkFrom mem v level table writable = none := by
  cases level with
  | zero => rw [walkFrom, h, if_neg Bool.false_ne_true]
  | succ level => rw [walkFrom, h, if_neg Bool.false_ne_true]

/-- An entry that refers to a table leads one level down. -/
theorem walkFrom_table {e : Nat} (he : entry mem table (index (level + 1) v) = e)
    (hpresent : e.testBit 0 = true) (htable : e.testBit 7 = false) :
    walkFrom mem v (level + 1) table writable = walkFrom mem v level (frame e) (writable && e.testBit 1) := by
  rw [walkFrom, he]
  rw [if_pos hpresent, htable, if_neg Bool.false_ne_true]

/-- An entry that maps a page ends the walk. -/
theorem walkFrom_page {e : Nat} (he : entry mem table (index (level + 1) v) = e)
    (hpresent : e.testBit 0 = true) (hpage : e.testBit 7 = true) (hlevel : level ≤ 1)
    (haligned : frame e % 2 ^ levelShift (level + 1) = 0) :
    walkFrom mem v (level + 1) table writable =
      some { phys := frame e + v % 2 ^ levelShift (level + 1), writable := writable && e.testBit 1 } := by
  rw [walkFrom, he]
  rw [if_pos hpresent, if_pos hpage, if_pos ⟨hlevel, haligned⟩]

/-! ## Entries made of an address and flags -/

/-- The flags of an entry are read back, since the address is aligned. -/
theorem testBit_addr_add {a flags k i : Nat} (ha : a % 2 ^ k = 0) (hflags : flags < 2 ^ k) (hi : i < k) :
    (a + flags).testBit i = flags.testBit i := by
  obtain ⟨b, rfl⟩ := Nat.dvd_of_mod_eq_zero ha
  rw [Nat.testBit_two_pow_mul_add b hflags, if_pos hi]

/-- The address of an entry is read back. -/
theorem frame_addr_add {a flags : Nat} (ha : a % 2 ^ 12 = 0) (hflags : flags < 2 ^ 12) (hlt : a < 2 ^ 52) :
    frame (a + flags) = a := by
  rw [frame]
  omega

/-- An empty entry is not there. -/
theorem testBit_zero_entry (h : entry mem table (index level v) = 0) :
    (entry mem table (index level v)).testBit 0 = false := by
  rw [h]
  exact Nat.zero_testBit 0

/-- An entry for a table, present and writable, with nothing else in its low bits. -/
theorem walkFrom_tableEntry {next : Nat} (he : entry mem table (index (level + 1) v) = next + 0b11)
    (haligned : next % 2 ^ 12 = 0) (hlt : next < 2 ^ 52) :
    walkFrom mem v (level + 1) table writable = walkFrom mem v level next writable := by
  have hbit : ∀ i < 12, (next + 0b11).testBit i = Nat.testBit 0b11 i := fun i hi =>
    testBit_addr_add haligned (by omega) hi
  rw [walkFrom_table he (hbit 0 (by omega)) (hbit 7 (by omega)), hbit 1 (by omega),
    frame_addr_add haligned (by omega) hlt]
  exact congrArg (walkFrom mem v level next) (Bool.and_true writable)

/-! ## Addresses by their indices -/

theorem index_lt (level v : Nat) : index level v < 512 := Nat.mod_lt _ (by omega)

theorem index_eq_div (h : v < 2 ^ levelShift (level + 1)) : index level v = v / 2 ^ levelShift level := by
  refine Nat.mod_eq_of_lt (Nat.div_lt_of_lt_mul ?_)
  rw [show (512 : Nat) = 2 ^ 9 from rfl, ← Nat.pow_add]
  exact h

theorem index_eq_zero (h : v < 2 ^ levelShift level) : index level v = 0 := by
  rw [index, Nat.div_eq_of_lt h]

/-- From 2³⁰ on, an address does not go by entry 0 of both upper tables. -/
theorem index_ne_zero (hv : Canonical v) (hlow : 2 ^ 30 ≤ v) : index 3 v ≠ 0 ∨ index 2 v ≠ 0 := by
  rw [Canonical] at hv
  show v / 2 ^ 39 % 512 ≠ 0 ∨ v / 2 ^ 30 % 512 ≠ 0
  omega

end PageWalk

end Srunix.Library
