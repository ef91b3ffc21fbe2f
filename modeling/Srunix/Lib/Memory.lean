import Mathlib.Algebra.Group.Nat.Defs
import Mathlib.Logic.Function.Basic
import Srunix.Library.Bytes

/-!
# Memory (`lib/prdio.h`)

`memset` and `memcpy` over the whole address space, a memory of `2 ^ 64` bytes
with pointers that wrap around. `memcpy` copies forwards: a byte of the source
that an earlier round has overwritten is copied as it is then.
-/

namespace Srunix

open Library

/-- Unsigned 64-bit wrap-around. -/
abbrev uint64 (n : Nat) : Nat := n % 2 ^ 64

/-- `while (n--) *p++ = c;` -/
def memset (mem : Memory) (p : Nat) (c : UInt8) : Nat → Memory
  | 0 => mem
  | n + 1 => memset (Function.update mem p c) (uint64 (p + 1)) c n

/-- The loop of `memcpy` from index `i` on, `n` rounds to go. -/
def memcpyLoop (mem : Memory) (d s i : Nat) : Nat → Memory
  | 0 => mem
  | n + 1 =>
    memcpyLoop (Function.update mem (uint64 (d + i)) (mem (uint64 (s + i)))) d s (i + 1) n

/-- `memcpy`, byte by byte from the front. -/
def memcpy (mem : Memory) (dest src n : Nat) : Memory := memcpyLoop mem dest src 0 n

/-! ## What they write -/

/-- `memset` leaves the addresses below alone. -/
theorem memset_of_lt {mem : Memory} {p n a : Nat} {c : UInt8} (hp : p + n ≤ 2 ^ 64) (ha : a < p) :
    memset mem p c n a = mem a := by
  induction n generalizing mem p with
  | zero => rfl
  | succ n ih =>
    rw [memset]
    cases n with
    | zero => exact Function.update_of_ne (Nat.ne_of_lt ha) _ _
    | succ n =>
      have hnext : uint64 (p + 1) = p + 1 := Nat.mod_eq_of_lt (by omega)
      rw [hnext, ih (by omega) (Nat.lt_succ_of_lt ha)]
      exact Function.update_of_ne (Nat.ne_of_lt ha) _ _

theorem memcpyLoop_of_lt {mem : Memory} {d s i n a : Nat} (hd : d + i + n ≤ 2 ^ 64)
    (ha : a < d + i) : memcpyLoop mem d s i n a = mem a := by
  induction n generalizing mem i with
  | zero => rfl
  | succ n ih =>
    have hcell : uint64 (d + i) = d + i := Nat.mod_eq_of_lt (by omega)
    rw [memcpyLoop]
    rw [hcell, ih (by omega) (by omega)]
    exact Function.update_of_ne (Nat.ne_of_lt ha) _ _

/-- A byte that lies below what is still to be written arrives as it was. -/
theorem memcpyLoop_apply {mem : Memory} {d s i n j : Nat} (hd : d + i + n ≤ 2 ^ 64) (hij : i ≤ j)
    (hjn : j < i + n) (hs : s + j < d + i) : memcpyLoop mem d s i n (d + j) = mem (s + j) := by
  induction n generalizing mem i with
  | zero => omega
  | succ n ih =>
    have hcell : uint64 (d + i) = d + i := Nat.mod_eq_of_lt (by omega)
    rw [memcpyLoop]
    rw [hcell]
    by_cases hji : j = i
    · -- this round copies it, and no later one comes back
      subst hji
      have hsrc : uint64 (s + j) = s + j := Nat.mod_eq_of_lt (by omega)
      rw [memcpyLoop_of_lt (by omega) (by omega), Function.update_self, hsrc]
    · rw [ih (by omega) (by omega) (by omega) (by omega)]
      exact Function.update_of_ne (by omega) _ _

/-- Below the destination nothing changes. -/
theorem memcpy_of_lt {mem : Memory} {d s n a : Nat} (hd : d + n ≤ 2 ^ 64) (ha : a < d) :
    memcpy mem d s n a = mem a :=
  memcpyLoop_of_lt hd ha

/-- What was copied is there, if the source was below the destination. -/
theorem memcpy_apply {mem : Memory} {d s n j : Nat} (hd : d + n ≤ 2 ^ 64) (hj : j < n)
    (hs : s + j < d) : memcpy mem d s n (d + j) = mem (s + j) :=
  memcpyLoop_apply hd (Nat.zero_le j) (by omega) hs

end Srunix
