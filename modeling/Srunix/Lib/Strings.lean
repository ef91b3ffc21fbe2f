import Mathlib.Data.List.Induction
import Srunix.Library.Bytes
import Srunix.Lib.Pring

/-!
# Strings in memory (`lib/prdio.h`)

Where it matters that a string function stays inside its buffers, its loops are
run as they are written, over a memory and pointers that know where the object
they point into ends: a read or a write behind the end is `none`.
-/

namespace Srunix

open Library

/-! ## Strings in a buffer -/

/-- The bytes `s` and a NUL, from `a` on. -/
def StringIn (buf : Nat → UInt8) (a : Nat) (s : List UInt8) : Prop :=
  ∀ i ≤ s.length, buf (a + i) = s.getD i 0

namespace StringIn

variable {buf : Nat → UInt8} {a : Nat} {s : List UInt8}

theorem nul (h : StringIn buf a s) : buf (a + s.length) = 0 := by
  rw [h s.length (Nat.le_refl _), List.getD_eq_getElem?_getD, List.getElem?_eq_none (Nat.le_refl _)]
  rfl

theorem head {c : UInt8} (h : StringIn buf a (c :: s)) : buf a = c := h 0 (Nat.zero_le _)

/-- The string behind a prefix. -/
theorem suffix {front : List UInt8} (h : StringIn buf a (front ++ s)) : StringIn buf (a + front.length) s := by
  intro i hi
  rw [Nat.add_assoc, h (front.length + i) (by rw [List.length_append]; omega)]
  simp only [List.getD_eq_getElem?_getD, List.getElem?_append_right (Nat.le_add_right _ _),
    Nat.add_sub_cancel_left]

theorem tail {c : UInt8} (h : StringIn buf a (c :: s)) : StringIn buf (a + 1) s :=
  @suffix buf a s [c] h

/-- Only the bytes of the string matter. -/
theorem congr {buf' : Nat → UInt8} (h : StringIn buf a s)
    (hsame : ∀ i, a ≤ i → i ≤ a + s.length → buf' i = buf i) : StringIn buf' a s := by
  intro i hi
  rw [hsame (a + i) (Nat.le_add_right _ _) (Nat.add_le_add_left hi a)]
  exact h i hi

/-- A NUL in place of the byte behind a word leaves the word. -/
theorem ended {token : Nat} {word tail : List UInt8} {b : UInt8}
    (h : StringIn buf token (word ++ b :: tail)) :
    StringIn (Function.update buf (token + word.length) 0) token word := by
  intro i hi
  rcases Nat.eq_or_lt_of_le hi with rfl | hlt
  · rw [Function.update_self]
    simp
  · rw [Function.update_of_ne (by omega), h i (by rw [List.length_append]; omega)]
    simp only [List.getD_eq_getElem?_getD, List.getElem?_append_left hlt]

end StringIn

/-! ## Pointers with an end -/

/-- A `char*`, and the end of the object it points into. -/
structure Ptr where
  addr : Nat
  limit : Nat

/-- `p + n` -/
def Ptr.add (p : Ptr) (n : Nat) : Ptr := { p with addr := p.addr + n }

@[simp] theorem Ptr.add_addr (p : Ptr) (n : Nat) : (p.add n).addr = p.addr + n := rfl

@[simp] theorem Ptr.add_limit (p : Ptr) (n : Nat) : (p.add n).limit = p.limit := rfl

theorem Ptr.add_add (p : Ptr) (m n : Nat) : (p.add m).add n = p.add (m + n) := by
  rw [add, add, add, Nat.add_assoc]

/-- `*p` -/
def load (mem : Memory) (p : Ptr) : Option UInt8 :=
  if p.addr < p.limit then some (mem p.addr) else none

/-- `*p = c` -/
def store (mem : Memory) (p : Ptr) (c : UInt8) : Option Memory :=
  if p.addr < p.limit then some (Function.update mem p.addr c) else none

theorem load_of_lt {mem : Memory} {p : Ptr} (h : p.addr < p.limit) : load mem p = some (mem p.addr) :=
  if_pos h

theorem store_of_lt {mem : Memory} {p : Ptr} (h : p.addr < p.limit) (c : UInt8) :
    store mem p c = some (Function.update mem p.addr c) :=
  if_pos h

/-- The string and its NUL lie inside the object. -/
structure Points (mem : Memory) (p : Ptr) (s : List UInt8) : Prop where
  bytes : StringIn mem p.addr s
  fits : p.addr + s.length < p.limit

namespace Points

variable {mem : Memory} {p : Ptr} {s : List UInt8}

theorem load_nil (h : Points mem p []) : load mem p = some 0 := by
  rw [load_of_lt h.fits]
  exact congrArg some h.bytes.nul

theorem load_head {c : UInt8} (h : Points mem p (c :: s)) : load mem p = some c := by
  rw [load_of_lt (Nat.lt_of_le_of_lt (Nat.le_add_right _ _) h.fits), h.bytes.head]

theorem tail {c : UInt8} (h : Points mem p (c :: s)) : Points mem (p.add 1) s := by
  refine ⟨h.bytes.tail, ?_⟩
  have hfits := h.fits
  rw [List.length_cons] at hfits
  show p.addr + 1 + s.length < p.limit
  omega

theorem suffix {front : List UInt8} (h : Points mem p (front ++ s)) :
    Points mem (p.add front.length) s := by
  refine ⟨h.bytes.suffix, ?_⟩
  have hfits := h.fits
  rw [List.length_append] at hfits
  show p.addr + front.length + s.length < p.limit
  omega

/-- A byte somewhere else. -/
theorem update {q : Nat} (h : Points mem p s) (hq : q < p.addr ∨ p.addr + s.length < q) (c : UInt8) :
    Points (Function.update mem q c) p s :=
  ⟨h.bytes.congr fun _ _ _ => Function.update_of_ne (by omega) _ _, h.fits⟩

end Points

/-! ## `strlen` -/

/-- `while (str[len]) len++;` The fuel is what is left of the object. -/
def strlenLoop (mem : Memory) (str : Ptr) (len : Nat) : Nat → Option Nat
  | 0 => none
  | fuel + 1 => do
    let c ← load mem (str.add len)
    if c ≠ 0 then strlenLoop mem str (len + 1) fuel else some len

/-- `strlen` at the level of memory: the loads up to the NUL have to stay below the
limit. -/
def strlenAt (mem : Memory) (str : Ptr) : Option Nat := strlenLoop mem str 0 (str.limit - str.addr)

/-- The loop stops at the NUL. -/
theorem strlenLoop_eq {mem : Memory} {str : Ptr} {len fuel : Nat} {s : List UInt8}
    (h : Points mem (str.add len) s) (hs : 0 ∉ s) (hfuel : s.length < fuel) :
    strlenLoop mem str len fuel = some (len + s.length) := by
  induction s generalizing len fuel with
  | nil =>
    obtain ⟨fuel, rfl⟩ := Nat.exists_eq_succ_of_ne_zero (Nat.ne_of_gt hfuel)
    rw [strlenLoop, h.load_nil]
    rfl
  | cons c s ih =>
    obtain ⟨fuel, rfl⟩ := Nat.exists_eq_succ_of_ne_zero (Nat.ne_of_gt (Nat.zero_lt_of_lt hfuel))
    have hc : c ≠ 0 := fun hzero => hs (hzero ▸ List.mem_cons_self)
    have htail : Points mem (str.add (len + 1)) s := by
      rw [← Ptr.add_add]
      exact h.tail
    rw [strlenLoop, h.load_head]
    show (if c ≠ 0 then _ else _) = _
    rw [if_pos hc, ih htail (List.not_mem_of_not_mem_cons hs) (Nat.lt_of_succ_lt_succ hfuel),
      List.length_cons, Nat.add_assoc, Nat.add_comm 1]

theorem Points.strlenAt {mem : Memory} {p : Ptr} {s : List UInt8} (h : Points mem p s) (hs : 0 ∉ s) :
    strlenAt mem p = some s.length := by
  have hfits := h.fits
  rw [Srunix.strlenAt, strlenLoop_eq (s := s) h hs (by omega), Nat.zero_add]

/-! ## Bytes put one behind the other -/

/-- The bytes `l` from address `a` on. -/
def putBytes (mem : Memory) (a : Nat) (l : List UInt8) : Memory := fun p =>
  if a ≤ p then l.getD (p - a) (mem p) else mem p

theorem putBytes_of_lt {mem : Memory} {a p : Nat} (l : List UInt8) (h : p < a) :
    putBytes mem a l p = mem p := if_neg (Nat.not_le.mpr h)

theorem putBytes_add (mem : Memory) (a i : Nat) (l : List UInt8) :
    putBytes mem a l (a + i) = l.getD i (mem (a + i)) := by
  rw [putBytes, if_pos (Nat.le_add_right a i), Nat.add_sub_cancel_left]

theorem putBytes_of_le {mem : Memory} {a p : Nat} {l : List UInt8} (h : a + l.length ≤ p) :
    putBytes mem a l p = mem p := by
  obtain ⟨i, rfl⟩ := Nat.exists_eq_add_of_le (Nat.le_of_add_right_le h)
  rw [putBytes_add, List.getD_eq_getElem?_getD, List.getElem?_eq_none (by omega)]
  rfl

theorem putBytes_nil (mem : Memory) (a : Nat) : putBytes mem a [] = mem :=
  funext fun p => by rw [putBytes, List.getD_nil, ite_self]

/-- One more byte. -/
theorem update_putBytes (mem : Memory) (a : Nat) (l : List UInt8) (c : UInt8) :
    Function.update (putBytes mem a l) (a + l.length) c = putBytes mem a (l ++ [c]) := by
  funext p
  by_cases hlow : p < a
  · rw [Function.update_of_ne (by omega), putBytes_of_lt l hlow, putBytes_of_lt _ hlow]
  obtain ⟨i, rfl⟩ := Nat.exists_eq_add_of_le (Nat.not_lt.mp hlow)
  rw [putBytes_add]
  rcases Nat.lt_trichotomy i l.length with hi | rfl | hi
  · rw [Function.update_of_ne (by omega), putBytes_add]
    simp only [List.getD_eq_getElem?_getD, List.getElem?_append_left hi]
  · rw [Function.update_self]
    simp
  · rw [Function.update_of_ne (by omega), putBytes_of_le (by omega)]
    simp only [List.getD_eq_getElem?_getD]
    rw [List.getElem?_eq_none (by rw [List.length_append, List.length_singleton]; omega)]
    rfl

/-- A byte in the middle. -/
theorem update_putBytes_middle (mem : Memory) (a : Nat) (front : List UInt8) (b c : UInt8)
    (back : List UInt8) :
    Function.update (putBytes mem a (front ++ b :: back)) (a + front.length) c
      = putBytes mem a (front ++ c :: back) := by
  funext p
  by_cases hlow : p < a
  · rw [Function.update_of_ne (by omega), putBytes_of_lt _ hlow, putBytes_of_lt _ hlow]
  obtain ⟨i, rfl⟩ := Nat.exists_eq_add_of_le (Nat.not_lt.mp hlow)
  rw [putBytes_add]
  rcases Nat.lt_trichotomy i front.length with hi | rfl | hi
  · rw [Function.update_of_ne (by omega), putBytes_add]
    simp only [List.getD_eq_getElem?_getD, List.getElem?_append_left hi]
  · rw [Function.update_self]
    simp
  · obtain ⟨k, rfl⟩ := Nat.exists_eq_add_of_lt hi
    have hback : ∀ d, (front ++ d :: back)[front.length + k + 1]? = back[k]? := by
      intro d
      rw [List.getElem?_append_right (Nat.le_of_lt hi), Nat.add_assoc, Nat.add_sub_cancel_left,
        List.getElem?_cons_succ]
    rw [Function.update_of_ne (by omega), putBytes_add]
    simp only [List.getD_eq_getElem?_getD, hback]

theorem stringIn_putBytes (mem : Memory) (a : Nat) (s : List UInt8) :
    StringIn (putBytes mem a (s ++ [0])) a s := by
  intro i hi
  rw [putBytes_add]
  rcases Nat.eq_or_lt_of_le hi with rfl | hlt
  · simp
  · simp [List.getElem?_append_left hlt, List.getElem?_eq_getElem hlt]

/-! ## Strings that fill their objects -/

/-- A pointer to the string at `a`; the object ends with the string's NUL. -/
def ptrTo (a : Nat) (s : List UInt8) : Ptr := { addr := a, limit := a + s.length + 1 }

theorem points_ptrTo {mem : Memory} {a : Nat} {s : List UInt8} (h : StringIn mem a s) :
    Points mem (ptrTo a s) s :=
  ⟨h, Nat.lt_succ_self _⟩

/-- A memory with one string at 0 and another at 16. -/
def twoStrings (s t : CString) : Memory :=
  putBytes (putBytes (fun _ => 0) 16 (t.bytes ++ [0])) 0 (s.bytes ++ [0])

theorem stringIn_twoStrings {s t : CString} (hlen : s.bytes.length < 16) :
    StringIn (twoStrings s t) 0 s.bytes ∧ StringIn (twoStrings s t) 16 t.bytes := by
  refine ⟨stringIn_putBytes _ 0 _, (stringIn_putBytes _ 16 _).congr fun i hi _ => putBytes_of_le ?_⟩
  rw [List.length_append, List.length_singleton]
  omega

end Srunix
