import Mathlib.Order.Basic
import Mathlib.Order.Lattice
import Mathlib.Data.Nat.Basic

/-!
# Fuel

A loop whose length is not known is a function of a number of rounds, and `none`
means that they ran out. What such a computation returns it returns with more
rounds too; hence two numbers of rounds never lead to two results.
-/

namespace Srunix.Library

universe u v

variable {α : Type u} {β : Type v} {f : Nat → Option α}

/-- More fuel changes no result. -/
def Settles (f : Nat → Option α) : Prop := ∀ ⦃n m a⦄, n ≤ m → f n = some a → f m = some a

/-- One more round is enough. -/
theorem settles_of_succ (h : ∀ n a, f n = some a → f (n + 1) = some a) : Settles f := by
  intro n m a hle hn
  induction hle with
  | refl => exact hn
  | step _ ih => exact h _ a ih

namespace Settles

theorem const (x : Option α) : Settles fun _ => x := fun _ _ _ _ h => h

theorem map (h : Settles f) (g : α → β) : Settles fun n => (f n).map g := by
  intro n m b hle hn
  obtain ⟨a, ha, rfl⟩ := Option.map_eq_some_iff.mp hn
  exact Option.map_eq_some_iff.mpr ⟨a, h hle ha, rfl⟩

/-- What follows a computation that settles. -/
theorem bind (h : Settles f) {g : α → Nat → Option β} (hg : ∀ a, Settles (g a)) :
    Settles fun n => (f n).bind fun a => g a n := by
  intro n m b hle hn
  obtain ⟨a, ha, hb⟩ := Option.bind_eq_some_iff.mp hn
  exact Option.bind_eq_some_iff.mpr ⟨a, h hle ha, hg a hle hb⟩

theorem ite {p : Prop} [Decidable p] {g : Nat → Option α} (hf : p → Settles f) (hg : ¬ p → Settles g) :
    Settles fun n => if p then f n else g n := by
  intro n m a hle hn
  by_cases hp : p
  · exact (if_pos hp).trans (hf hp hle ((if_pos hp).symm.trans hn))
  · exact (if_neg hp).trans (hg hp hle ((if_neg hp).symm.trans hn))

/-- So the result does not depend on the fuel. -/
theorem unique (h : Settles f) {n m : Nat} {a b : α} (hn : f n = some a) (hm : f m = some b) : a = b := by
  have ha := h (Nat.le_max_left n m) hn
  have hb := h (Nat.le_max_right n m) hm
  exact Option.some.inj (ha.symm.trans hb)

end Settles

/-- A computation with two loops. -/
structure SettlesBoth (f : Nat → Nat → Option α) : Prop where
  left : ∀ m, Settles fun n => f n m
  right : ∀ n, Settles (f n)

theorem SettlesBoth.mono {f : Nat → Nat → Option α} (h : SettlesBoth f) {n n' m m' : Nat} {a : α}
    (hn : n ≤ n') (hm : m ≤ m') (ha : f n m = some a) : f n' m' = some a :=
  h.right n' hm (h.left m hn ha)

theorem SettlesBoth.unique {f : Nat → Nat → Option α} (h : SettlesBoth f) {n n' m m' : Nat} {a b : α}
    (ha : f n m = some a) (hb : f n' m' = some b) : a = b := by
  have ha' := h.mono (Nat.le_max_left n n') (Nat.le_max_left m m') ha
  have hb' := h.mono (Nat.le_max_right n n') (Nat.le_max_right m m') hb
  exact Option.some.inj (ha'.symm.trans hb')

end Srunix.Library
