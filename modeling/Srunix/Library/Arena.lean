import Mathlib.Data.List.Basic
import Mathlib.Data.Nat.Basic

/-!
# Blocks handed out by a bump pointer

An allocator that never reuses anything keeps one address, `top`: what lies
below it, from `lo` on, has been handed out. `Packed lo top blocks` says that
the blocks handed out so far lie in that range and do not overlap; it survives
handing out the cells from `top` on (`Packed.push`), whatever their number.

A block of no cells overlaps nothing, itself included.
-/

namespace Srunix.Library

/-- A range of addresses that was given out. -/
structure Block where
  addr : Nat
  size : Nat
deriving DecidableEq

/-- Address `a` is a cell of the block. -/
def Block.Covers (b : Block) (a : Nat) : Prop := b.addr ≤ a ∧ a < b.addr + b.size

/-- No cell is in both. -/
def Block.Apart (b c : Block) : Prop := ∀ a, b.Covers a → ¬ c.Covers a

theorem Block.Apart.of_end_le {b c : Block} (h : b.addr + b.size ≤ c.addr) : b.Apart c := by
  intro a hb hc
  exact absurd (Nat.lt_of_lt_of_le hb.2 h) (Nat.not_lt.mpr hc.1)

/-- The blocks lie in `lo … top - 1`, apart from each other. -/
structure Packed (lo top : Nat) (blocks : List Block) : Prop where
  le : lo ≤ top
  inside : ∀ b ∈ blocks, lo ≤ b.addr ∧ b.addr + b.size ≤ top
  apart : blocks.Pairwise Block.Apart

namespace Packed

variable {lo top : Nat} {blocks : List Block}

theorem nil (h : lo ≤ top) : Packed lo top [] := ⟨h, fun _ hb => (nomatch hb), .nil⟩

/-- The cells from `top` on are nobody's. -/
theorem apart_top (h : Packed lo top blocks) (n : Nat) : ∀ b ∈ blocks, b.Apart ⟨top, n⟩ :=
  fun b hb => .of_end_le (h.inside b hb).2

theorem lt_top (h : Packed lo top blocks) {b : Block} (hb : b ∈ blocks) {a : Nat}
    (ha : b.Covers a) : a < top :=
  Nat.lt_of_lt_of_le ha.2 (h.inside b hb).2

/-- One more block, at the top. -/
theorem push (h : Packed lo top blocks) (n : Nat) : Packed lo (top + n) (blocks ++ [⟨top, n⟩]) := by
  have hle : lo ≤ top + n := Nat.le_trans h.le (Nat.le_add_right _ _)
  refine ⟨hle, ?_, ?_⟩
  · intro b hb
    rcases List.mem_append.mp hb with hb | hb
    · obtain ⟨hlo, hhi⟩ := h.inside b hb
      exact ⟨hlo, Nat.le_trans hhi (Nat.le_add_right _ _)⟩
    · obtain rfl := List.mem_singleton.mp hb
      exact ⟨h.le, Nat.le_refl _⟩
  · refine List.pairwise_append.mpr ⟨h.apart, List.pairwise_singleton _ _, ?_⟩
    intro b hb c hc
    obtain rfl := List.mem_singleton.mp hc
    exact h.apart_top n b hb

theorem mono (h : Packed lo top blocks) {top' : Nat} (htop : top ≤ top') : Packed lo top' blocks where
  le := Nat.le_trans h.le htop
  inside b hb := ⟨(h.inside b hb).1, Nat.le_trans (h.inside b hb).2 htop⟩
  apart := h.apart

end Packed

end Srunix.Library
