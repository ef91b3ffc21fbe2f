import Mathlib.Tactic.TypeStar

/-!
# Runs of labelled transition systems

A program that is called again and again from outside is a relation
`step s a t` ("the call `a` in state `s` may end in state `t`"); what it has
been through is a list of calls. The two rules every result about runs is
proved with are stated once, over arbitrary states and labels:

- `Steps.invariant`: what holds at the start and survives each step holds at
  the end of every run (and so in every state reached, a prefix of a run being
  a run);
- `Steps.simulation`: a relation to a more abstract system that each step can
  answer lifts to whole runs. This is refinement by forward simulation.

A run may also be taken apart at its last step (`snoc_cases`).
-/

namespace Srunix.Library

universe u v w

variable {σ : Type u} {α : Type v} {τ : Type w}

/-- `Steps step s as t`: the calls `as`, made in order from `s`, may end in `t`. -/
inductive Steps (step : σ → α → σ → Prop) : σ → List α → σ → Prop where
  | nil (s : σ) : Steps step s [] s
  | cons {s t u : σ} {a : α} {as : List α} :
      step s a t → Steps step t as u → Steps step s (a :: as) u

namespace Steps

variable {step step' : σ → α → σ → Prop} {s t u : σ} {a : α} {as bs : List α}

theorem single (h : step s a t) : Steps step s [a] t := .cons h (.nil t)

theorem append (h : Steps step s as t) (h' : Steps step t bs u) : Steps step s (as ++ bs) u := by
  induction h with
  | nil => exact h'
  | cons hstep _ ih => exact .cons hstep (ih h')

/-- One more call at the end of a run. -/
theorem snoc (h : Steps step s as t) (h' : step t a u) : Steps step s (as ++ [a]) u :=
  h.append (single h')

/-- A run is empty or has a last step. -/
theorem snoc_cases (h : Steps step s as t) :
    (as = [] ∧ t = s) ∨ ∃ bs a u, as = bs ++ [a] ∧ Steps step s bs u ∧ step u a t := by
  induction h with
  | nil => exact .inl ⟨rfl, rfl⟩
  | @cons s u t a as hstep hrest ih =>
    rcases ih with ⟨rfl, rfl⟩ | ⟨bs, b, v, rfl, hfront, hlast⟩
    · exact .inr ⟨[], a, s, rfl, .nil s, hstep⟩
    · exact .inr ⟨a :: bs, b, v, rfl, .cons hstep hfront, hlast⟩

/-- A run of a stronger step relation is a run of a weaker one. -/
theorem mono (h : Steps step s as t) (himp : ∀ {s a t}, step s a t → step' s a t) :
    Steps step' s as t := by
  induction h with
  | nil => exact .nil _
  | cons hstep _ ih => exact .cons (himp hstep) ih

/-- **The invariant rule.** -/
theorem invariant {Inv : σ → Prop} (h : Steps step s as t) (h0 : Inv s)
    (hstep : ∀ {s a t}, Inv s → step s a t → Inv t) : Inv t := by
  induction h with
  | nil => exact h0
  | cons hone _ ih => exact ih (hstep h0 hone)

/-- **The simulation rule**: if every step from related states is answered by an
abstract step to related states, every run is answered by an abstract run. -/
theorem simulation {astep : τ → α → τ → Prop} {R : σ → τ → Prop} (h : Steps step s as t)
    {m : τ} (h0 : R s m)
    (hstep : ∀ {s a t m}, R s m → step s a t → ∃ m', astep m a m' ∧ R t m') :
    ∃ m', Steps astep m as m' ∧ R t m' := by
  induction h generalizing m with
  | nil => exact ⟨m, .nil m, h0⟩
  | cons hone _ ih =>
    obtain ⟨m₁, hm₁, hR₁⟩ := hstep h0 hone
    obtain ⟨m₂, hm₂, hR₂⟩ := ih hR₁
    exact ⟨m₂, .cons hm₁ hm₂, hR₂⟩

end Steps

end Srunix.Library
