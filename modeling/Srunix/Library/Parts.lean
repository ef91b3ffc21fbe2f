import Srunix.Library.Steps

/-!
# Systems made of parts

Where a step touches one part of the state at most, a run of the whole is, seen
from a part, a run of that part alone: of the steps that are its own, in their
order. How the steps of the parts interleave does not show (`Steps.project`).

A label may have to say more for that than it does; `Steps.relabel` finds the
labels along a run.
-/

namespace Srunix.Library

universe u v w x

variable {σ : Type u} {α : Type v} {τ : Type w} {ι : Type x}

/-- A step is one of a part, which it takes by `pstep`, or of none. -/
structure MadeOfParts (step : σ → α → σ → Prop) (part : α → Option ι) (view : ι → σ → τ)
    (pstep : τ → α → τ → Prop) : Prop where
  own : ∀ {s a t i}, step s a t → part a = some i → pstep (view i s) a (view i t)
  other : ∀ {s a t i}, step s a t → part a ≠ some i → view i t = view i s

namespace MadeOfParts

variable {step : σ → α → σ → Prop} {part : α → Option ι} {view : ι → σ → τ} {pstep : τ → α → τ → Prop}
  {s t : σ} {as : List α}

/-- **The parts run on their own.** -/
theorem project [DecidableEq ι] (h : MadeOfParts step part view pstep) (hrun : Steps step s as t) (i : ι) :
    Steps pstep (view i s) (as.filter fun a => part a = some i) (view i t) := by
  induction hrun with
  | nil => exact .nil _
  | @cons s u t a as hone _ ih =>
    by_cases hpart : part a = some i
    · rw [List.filter_cons, if_pos (decide_eq_true hpart)]
      exact .cons (h.own hone hpart) ih
    · rw [List.filter_cons, if_neg fun hdec => hpart (of_decide_eq_true hdec), ← h.other hone hpart]
      exact ih

end MadeOfParts

/-- A run whose steps can be told apart by more than their labels. -/
theorem Steps.relabel {β : Type w} {step : σ → α → σ → Prop} {step' : σ → β → σ → Prop} {f : β → α}
    {s t : σ} {as : List α} (h : Steps step s as t)
    (hstep : ∀ {s a t}, step s a t → ∃ b, f b = a ∧ step' s b t) :
    ∃ bs, bs.map f = as ∧ Steps step' s bs t := by
  induction h with
  | nil s => exact ⟨[], rfl, .nil s⟩
  | cons hone _ ih =>
    obtain ⟨b, rfl, hb⟩ := hstep hone
    obtain ⟨bs, rfl, hbs⟩ := ih
    exact ⟨b :: bs, rfl, .cons hb hbs⟩

end Srunix.Library
