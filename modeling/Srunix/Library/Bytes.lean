import Mathlib.Algebra.Order.Group.Nat
import Mathlib.Data.List.Basic
import Mathlib.Data.Nat.Basic

/-!
# Little-endian numbers and C structs in byte memory

A memory is a function from addresses to bytes.

- `storeLe` and `readLe`: a number of `w` bytes, least significant first, with
  the round trip `readLe_storeLe` and the frame rule `readLe_storeLe_of_disjoint`;
- `blit`: a range copied from another memory (`memcpy`, `pwrite`), read from
  inside the range (`readLe_blit`) or outside (`readLe_blit_of_disjoint`);
- `cStruct`: where a C compiler puts the members of a struct, each aligned to
  its own width. Members never overlap, so each is read back from the image of
  the whole struct (`readLe_layout`).
-/

namespace Srunix.Library

/-- Bytes by address. -/
abbrev Memory := Nat → UInt8

/-- The `w` bytes of `n` at address `a`. -/
def storeLe (m : Memory) (a w n : Nat) : Memory := fun p =>
  if a ≤ p ∧ p < a + w then UInt8.ofNat (n / 256 ^ (p - a)) else m p

/-- The number in the `w` bytes from address `a`. -/
def readLe (m : Memory) (a : Nat) : Nat → Nat
  | 0 => 0
  | w + 1 => (m a).toNat + 256 * readLe m (a + 1) w

/-- `n` bytes copied from the start of `src` to address `a`. -/
def blit (m : Memory) (a : Nat) (src : Memory) (n : Nat) : Memory := fun p =>
  if a ≤ p ∧ p < a + n then src (p - a) else m p

/-! ## Reading -/

theorem readLe_congr {m m' : Memory} {a a' w : Nat} (h : ∀ i < w, m (a + i) = m' (a' + i)) :
    readLe m a w = readLe m' a' w := by
  induction w generalizing a a' with
  | zero => rfl
  | succ w ih =>
    have hhead : m a = m' a' := h 0 (Nat.succ_pos w)
    have hrest : readLe m (a + 1) w = readLe m' (a' + 1) w := by
      refine ih fun i hi => ?_
      have := h (i + 1) (Nat.succ_lt_succ hi)
      rwa [Nat.add_comm i 1, ← Nat.add_assoc, ← Nat.add_assoc] at this
    rw [readLe, readLe, hhead, hrest]

/-- Bytes that are those of a number read back as that number, cut to the width. -/
theorem readLe_eq_mod {m : Memory} {a w n : Nat}
    (h : ∀ i < w, m (a + i) = UInt8.ofNat (n / 256 ^ i)) : readLe m a w = n % 256 ^ w := by
  induction w generalizing a n with
  | zero => rw [Nat.pow_zero, Nat.mod_one]; rfl
  | succ w ih =>
    have hhead : (m a).toNat = n % 256 := by
      have h0 : m a = UInt8.ofNat (n / 256 ^ 0) := h 0 (Nat.succ_pos w)
      rw [h0, Nat.pow_zero, Nat.div_one, UInt8.toNat_ofNat']
    have hrest : readLe m (a + 1) w = n / 256 % 256 ^ w := by
      refine ih fun i hi => ?_
      have := h (i + 1) (Nat.succ_lt_succ hi)
      rw [Nat.add_comm i 1, ← Nat.add_assoc, Nat.add_comm 1 i, Nat.pow_succ, Nat.mul_comm,
        ← Nat.div_div_eq_div_mul] at this
      exact this
    rw [readLe, hhead, hrest, Nat.pow_succ, Nat.mul_comm (256 ^ w) 256, Nat.mod_mul]

/-- The low part of a number, and the rest. -/
theorem readLe_add (m : Memory) (a u w : Nat) :
    readLe m a (u + w) = readLe m a u + 256 ^ u * readLe m (a + u) w := by
  induction u generalizing a with
  | zero => rw [Nat.zero_add, readLe, Nat.pow_zero, Nat.one_mul, Nat.zero_add, Nat.add_zero]
  | succ u ih =>
    rw [Nat.add_right_comm, readLe, ih, readLe, Nat.pow_succ, Nat.mul_add, Nat.add_assoc, ← Nat.mul_assoc,
      Nat.mul_comm 256 (256 ^ u), Nat.add_comm 1 u, Nat.add_assoc]

/-- A number that was stored is read back, up to its width. -/
theorem readLe_storeLe (m : Memory) (a w n : Nat) : readLe (storeLe m a w n) a w = n % 256 ^ w := by
  refine readLe_eq_mod fun i hi => ?_
  rw [storeLe]
  rw [if_pos (by omega), Nat.add_sub_cancel_left]

/-- A store elsewhere changes nothing. -/
theorem readLe_storeLe_of_disjoint {m : Memory} {a w n b v : Nat} (h : a + w ≤ b ∨ b + v ≤ a) :
    readLe (storeLe m a w n) b v = readLe m b v := by
  refine readLe_congr fun i hi => ?_
  rw [storeLe]
  rw [if_neg (by omega)]

/-- What was copied is read as at its source. -/
theorem readLe_blit {m src : Memory} {a n b v : Nat} (hlo : a ≤ b) (hhi : b + v ≤ a + n) :
    readLe (blit m a src n) b v = readLe src (b - a) v := by
  refine readLe_congr fun i hi => ?_
  rw [blit]
  rw [if_pos (by omega)]
  congr 1
  omega

theorem readLe_blit_of_disjoint {m src : Memory} {a n b v : Nat} (h : a + n ≤ b ∨ b + v ≤ a) :
    readLe (blit m a src n) b v = readLe m b v := by
  refine readLe_congr fun i hi => ?_
  rw [blit]
  rw [if_neg (by omega)]

/-! ## Structs -/

/-- A member of a struct: its place, its width and the value in it. -/
structure Field where
  off : Nat
  width : Nat
  value : Nat

/-- Zeroed memory with the members stored in it. -/
def layout (fields : List Field) : Memory :=
  fields.foldl (fun m f => storeLe m f.off f.width f.value) fun _ => 0

/-- `n` rounded up to a multiple of `a`. -/
def alignUp (n a : Nat) : Nat := (n + (a - 1)) / a * a

/-- The places of the members (width, value) from `pos` on, each aligned to its
width. -/
def cStruct (pos : Nat) : List (Nat × Nat) → List Field
  | [] => []
  | (w, v) :: members =>
    { off := alignUp pos w, width := w, value := v } :: cStruct (alignUp pos w + w) members

/-- Where members of the given widths end, from `pos` on. -/
def cEnd (pos : Nat) : List Nat → Nat
  | [] => pos
  | w :: ws => cEnd (alignUp pos w + w) ws

/-- `sizeof`: the end of the last member, aligned to the widest. -/
def cSizeof (widths : List Nat) : Nat := alignUp (cEnd 0 widths) (widths.foldl max 1)

theorem le_alignUp {n a : Nat} (ha : 0 < a) : n ≤ alignUp n a := by
  have hsplit := Nat.div_add_mod' (n + (a - 1)) a
  have hmod := Nat.mod_lt (n + (a - 1)) ha
  rw [alignUp]
  omega

/-- Members come one after the other. -/
theorem le_off_of_mem_cStruct {members : List (Nat × Nat)} (hw : ∀ p ∈ members, 0 < p.1)
    {pos : Nat} {f : Field} (hf : f ∈ cStruct pos members) : pos ≤ f.off := by
  induction members generalizing pos with
  | nil => cases hf
  | cons p members ih =>
    have hpos := @le_alignUp pos p.1 (hw p List.mem_cons_self)
    rcases List.mem_cons.mp hf with rfl | hf
    · exact hpos
    · have := ih (fun q hq => hw q (List.mem_cons_of_mem _ hq)) hf
      omega

/-- A member is stored with its own width and value. -/
theorem mem_of_mem_cStruct {members : List (Nat × Nat)} {pos : Nat} {f : Field}
    (hf : f ∈ cStruct pos members) : (f.width, f.value) ∈ members := by
  induction members generalizing pos with
  | nil => cases hf
  | cons p members ih =>
    rcases List.mem_cons.mp hf with rfl | hf
    · exact List.mem_cons_self
    · exact List.mem_cons_of_mem p (ih hf)

theorem le_cEnd {widths : List Nat} (hw : ∀ w ∈ widths, 0 < w) {pos : Nat} :
    pos ≤ cEnd pos widths := by
  induction widths generalizing pos with
  | nil => exact Nat.le_refl pos
  | cons w ws ih =>
    have hpos := @le_alignUp pos w (hw w List.mem_cons_self)
    have := @ih (fun v hv => hw v (List.mem_cons_of_mem _ hv)) (alignUp pos w + w)
    rw [cEnd]
    omega

/-- The last member ends where the struct does. -/
theorem end_le_cEnd {members : List (Nat × Nat)} (hw : ∀ p ∈ members, 0 < p.1) {pos : Nat}
    {f : Field} (hf : f ∈ cStruct pos members) :
    f.off + f.width ≤ cEnd pos (members.map Prod.fst) := by
  induction members generalizing pos with
  | nil => cases hf
  | cons p members ih =>
    have hw' : ∀ q ∈ members, 0 < q.1 := fun q hq => hw q (List.mem_cons_of_mem _ hq)
    rw [List.map_cons, cEnd]
    rcases List.mem_cons.mp hf with rfl | hf
    · refine le_cEnd fun w hw => ?_
      obtain ⟨q, hq, rfl⟩ := List.mem_map.mp hw
      exact hw' q hq
    · exact ih hw' hf

/-- Stores elsewhere change nothing. -/
theorem readLe_foldl_of_disjoint {fields : List Field} {m : Memory} {a w : Nat}
    (h : ∀ f ∈ fields, f.off + f.width ≤ a ∨ a + w ≤ f.off) :
    readLe (fields.foldl (fun m f => storeLe m f.off f.width f.value) m) a w = readLe m a w := by
  induction fields generalizing m with
  | nil => rfl
  | cons f fields ih =>
    rw [List.foldl_cons, ih fun g hg => h g (List.mem_cons_of_mem _ hg)]
    exact readLe_storeLe_of_disjoint (h f List.mem_cons_self)

/-- **A member of a struct reads back as what was stored in it.** -/
theorem readLe_layout {members : List (Nat × Nat)} (hw : ∀ p ∈ members, 0 < p.1) {pos : Nat}
    {f : Field} (hf : f ∈ cStruct pos members) :
    readLe (layout (cStruct pos members)) f.off f.width = f.value % 256 ^ f.width := by
  rw [layout]
  generalize (fun _ => 0 : Memory) = m
  induction members generalizing pos m with
  | nil => cases hf
  | cons p members ih =>
    have hw' : ∀ q ∈ members, 0 < q.1 := fun q hq => hw q (List.mem_cons_of_mem _ hq)
    rw [cStruct, List.foldl_cons]
    rcases List.mem_cons.mp hf with rfl | hf
    · -- later members lie behind this one
      rw [readLe_foldl_of_disjoint fun g hg => .inr (le_off_of_mem_cStruct hw' hg)]
      exact readLe_storeLe ..
    · exact ih hw' hf _

theorem readLe_zero (a w : Nat) : readLe (fun _ => 0) a w = 0 := by
  induction w generalizing a with
  | zero => rfl
  | succ w ih =>
    rw [readLe, ih]
    rfl

/-- Behind its last member a struct is zero. -/
theorem readLe_layout_behind {members : List (Nat × Nat)} (hw : ∀ p ∈ members, 0 < p.1)
    {pos a w : Nat} (ha : cEnd pos (members.map Prod.fst) ≤ a) :
    readLe (layout (cStruct pos members)) a w = 0 := by
  rw [layout]
  rw [readLe_foldl_of_disjoint fun f hf => .inl (Nat.le_trans (end_le_cEnd hw hf) ha)]
  exact readLe_zero a w

end Srunix.Library
