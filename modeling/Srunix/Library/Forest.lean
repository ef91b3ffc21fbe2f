import Mathlib.Logic.Relation

/-!
# Forests given by a parent relation

Nodes name their parent: `parent n p`. The node `n` descends from `d` when a
chain of parents leads from `n` to `d`, `ReflTransGen parent n d`; no node list
and no child list is kept. What programs that store trees so need:

- nothing else descends from a leaf (`eq_of_descends_leaf`);
- removing a leaf cuts no chain but its own (`descends_of_remove_leaf`);
- with unique parents, a node on a cycle has all its ancestors on that cycle
  (`descends_back`), so below a root that is its own parent there are no other
  cycles (`eq_root_of_cycle`).
-/

namespace Srunix.Library

open Relation

universe u

variable {ι : Type u} {parent parent' : ι → ι → Prop} {n m d r x : ι}

/-- Nothing but the leaf itself descends from a leaf. -/
theorem eq_of_descends_leaf (hleaf : ∀ m, ¬ parent m d) (h : ReflTransGen parent n d) : n = d := by
  rcases ReflTransGen.cases_tail h with heq | ⟨m, -, hm⟩
  · exact heq.symm
  · exact absurd hm (hleaf m)

/-- A chain to another node does not go through a leaf. -/
theorem descends_of_remove_leaf (hleaf : ∀ m, ¬ parent m x)
    (hkeep : ∀ {a b}, parent a b → a ≠ x → parent' a b) (h : ReflTransGen parent n r)
    (hn : n ≠ x) : ReflTransGen parent' n r := by
  induction h using ReflTransGen.head_induction_on with
  | refl => exact .refl
  | @head a b hab _ ih =>
    have hb : b ≠ x := by
      rintro rfl
      exact hleaf a hab
    exact .head (hkeep hab hn) (ih hb)

/-- From every ancestor of a node on a cycle a chain leads back to it. -/
theorem descends_back (huniq : Relator.RightUnique parent) (hcycle : TransGen parent n n)
    (h : ReflTransGen parent n m) : ReflTransGen parent m n := by
  induction h with
  | refl => exact .refl
  | @tail a b _ hab ih =>
    -- one step on from `a`, along the chain back or into the cycle
    have hfrom : TransGen parent a n := by
      rcases ReflTransGen.cases_head ih with rfl | ⟨c, hac, hcn⟩
      · exact hcycle
      · exact .head' hac hcn
    obtain ⟨c, hac, hcn⟩ := TransGen.head'_iff.mp hfrom
    obtain rfl := huniq hab hac
    exact hcn

/-- A root that is its own parent has no other ancestor. -/
theorem eq_root_of_descends (huniq : Relator.RightUnique parent) (hroot : parent r r)
    (h : ReflTransGen parent r n) : n = r := by
  induction h with
  | refl => rfl
  | tail _ hab ih =>
    rw [ih] at hab
    exact (huniq hroot hab).symm

/-- Where every chain ends in a root that is its own parent, that is the only
cycle. -/
theorem eq_root_of_cycle (huniq : Relator.RightUnique parent) (hroot : parent r r)
    (hrooted : ReflTransGen parent n r) (hcycle : TransGen parent n n) : n = r :=
  eq_root_of_descends huniq hroot (descends_back huniq hcycle hrooted)

end Srunix.Library
