import Srunix.Library.Runs
import Srunix.Library.Steps

/-!
# Runs at two grains

A controller, which is a deterministic machine, decides of every operation
whether it is an action of the abstract system or nothing at all to it. A run of
the concrete steps is then answered by an abstract run of what the controller
gives out.

The other way about, one action of the abstract system may take the concrete one
several operations.
-/

namespace Srunix.Library

universe u v w x y z

variable {σ : Type u} {α : Type v} {τ : Type w} {β : Type x} {κ : Type y}

/-- An abstract step, or none at all. -/
def OrStays (astep : τ → β → τ → Prop) (t : τ) : Option β → τ → Prop
  | none, t' => t' = t
  | some b, t' => astep t b t'

theorem Steps.of_orStays {astep : τ → β → τ → Prop} {t t' : τ} {b : Option β}
    (h : OrStays astep t b t') : Steps astep t b.toList t' := by
  cases b with
  | none =>
    cases h
    exact .nil t
  | some b => exact .single h

/-- A run, in two parts. -/
theorem Steps.of_append {step : σ → α → σ → Prop} {s t : σ} {as bs : List α}
    (h : Steps step s (as ++ bs) t) : ∃ u, Steps step s as u ∧ Steps step u bs t := by
  induction as generalizing s with
  | nil => exact ⟨s, .nil s, h⟩
  | cons a as ih =>
    cases h with
    | cons hone hmany =>
      obtain ⟨u, hfront, hback⟩ := ih hmany
      exact ⟨u, .cons hone hfront, hback⟩

/-- The last step of a run. -/
theorem Steps.of_snoc {step : σ → α → σ → Prop} {s t : σ} {as : List α} {a : α}
    (h : Steps step s (as ++ [a]) t) : ∃ u, Steps step s as u ∧ step u a t := by
  obtain ⟨u, hfront, hlast⟩ := h.of_append
  cases hlast with
  | cons hstep hnil =>
    cases hnil
    exact ⟨u, hfront, hstep⟩

/-- The invariant rule, with the run there was before the step. -/
theorem Steps.invariant_of_run {step : σ → α → σ → Prop} {Inv : σ → Prop} {s t : σ} {as : List α}
    (h : Steps step s as t) (h0 : Inv s)
    (hstep : ∀ {bs u a v}, Steps step s bs u → step u a v → Inv u → Inv v) : Inv t := by
  induction as using List.reverseRecOn generalizing t with
  | nil =>
    cases h
    exact h0
  | append_singleton bs a ih =>
    obtain ⟨u, hrun, hlast⟩ := h.of_snoc
    exact hstep hrun hlast (ih hrun)

/-- **The simulation rule for silent steps.** -/
theorem Steps.simulation_outputs {step : σ → α → σ → Prop} {astep : τ → β → τ → Prop}
    {cstep : κ → α → κ} {emit : κ → α → Option β} {R : σ → κ → τ → Prop} {s t : σ} {as : List α}
    (h : Steps step s as t) {c : κ} {m : τ} (h0 : R s c m)
    (hstep : ∀ {s a t c m}, R s c m → step s a t →
      ∃ m', OrStays astep m (emit c a) m' ∧ R t (cstep c a) m') :
    ∃ m', Steps astep m (outputs cstep emit c as) m' ∧ R t (runOps cstep c as) m' := by
  induction h generalizing c m with
  | nil => exact ⟨m, .nil m, h0⟩
  | cons hone _ ih =>
    obtain ⟨m₁, hm₁, hR₁⟩ := hstep h0 hone
    obtain ⟨m₂, hm₂, hR₂⟩ := ih hR₁
    exact ⟨m₂, (Steps.of_orStays hm₁).append hm₂, hR₂⟩

theorem runOps_map {γ : Type z} (step : σ → α → σ) (g : γ → α) (s : σ) (cs : List γ) :
    runOps step s (cs.map g) = runOps (fun s c => step s (g c)) s cs :=
  List.foldl_map

/-- The operations are spelt in another way. -/
theorem outputs_map {γ : Type z} (step : σ → α → σ) (out : σ → α → Option β) (g : γ → α) (s : σ)
    (cs : List γ) :
    outputs step out s (cs.map g) = outputs (fun s c => step s (g c)) (fun s c => out s (g c)) s cs := by
  induction cs generalizing s with
  | nil => rfl
  | cons c cs ih => exact congrArg ((out s (g c)).toList ++ ·) (ih (step s (g c)))

/-- What is given out is turned into something else, or dropped. -/
theorem outputs_bind {γ : Type z} (step : σ → α → σ) (out : σ → α → Option β) (g : β → Option γ) (s : σ)
    (as : List α) :
    outputs step (fun s a => (out s a).bind g) s as = (outputs step out s as).filterMap g := by
  induction as generalizing s with
  | nil => rfl
  | cons a as ih =>
    rw [outputs, outputs, List.filterMap_append, ih]
    cases out s a with
    | none => rfl
    | some b => cases hg : g b <;> simp [hg]

/-- What an operation gives out is among the outputs. -/
theorem mem_outputs {step : σ → α → σ} {out : σ → α → Option β} {s : σ} {pre post : List α} {a : α} {b : β}
    (h : out (runOps step s pre) a = some b) : b ∈ outputs step out s (pre ++ a :: post) := by
  rw [outputs_append]
  refine List.mem_append_right _ (List.mem_append_left _ ?_)
  rw [h]
  exact List.mem_singleton_self b

/-- **The simulation rule for actions that are spelt out**: every action, written
as the operations it takes, gives out what it should. -/
theorem spelt_simulation {γ : Type z} {step : σ → α → σ} {out : σ → α → Option β}
    {astep : τ → γ → τ} {aok : τ → γ → Prop} {emit : τ → γ → Option β} {spell : γ → List α}
    {R : σ → τ → Prop}
    (hstep : ∀ {s t c}, R s t → aok t c →
      R (runOps step s (spell c)) (astep t c) ∧ outputs step out s (spell c) = (emit t c).toList)
    {s : σ} {t : τ} {cs : List γ} (hR : R s t) (h : Guarded astep aok t cs) :
    R (runOps step s (cs.flatMap spell)) (runOps astep t cs) ∧
      outputs step out s (cs.flatMap spell) = outputs astep emit t cs := by
  induction cs generalizing s t with
  | nil => exact ⟨hR, rfl⟩
  | cons c cs ih =>
    obtain ⟨hone, hout⟩ := hstep hR h.1
    obtain ⟨hrest, houts⟩ := ih hone h.2
    have hsplit : runOps step s ((c :: cs).flatMap spell)
        = runOps step (runOps step s (spell c)) (cs.flatMap spell) := by
      rw [List.flatMap_cons, runOps_append]
    refine ⟨?_, ?_⟩
    · rw [hsplit]
      exact hrest
    · rw [List.flatMap_cons, outputs_append, hout, houts]
      rfl

end Srunix.Library
