import Mathlib.Logic.Basic

/-!
# One live copy shared by many owners

A system keeps a record for each owner `i : ι`, one owner is current, and the
operations work on the current owner's record only; some operations hand over
to another owner. `TimeShare` says that of an operation set. Then no owner can
tell that it is not alone (`TimeShare.view_run`): its record after any
interleaving is what its own operations make of it, in any state that starts
with the same record.

`view s i` is whatever owner `i` can see of its record; `Good` and `ok` restrict
states and operations to those the law speaks of.
-/

namespace Srunix.Library

universe u v w x

variable {σ : Type u} {ι : Type v} {α : Type w} {V : Type x}

/-- Doing operations one after the other. -/
def runOps (step : σ → α → σ) (s : σ) (ops : List α) : σ := ops.foldl step s

@[simp] theorem runOps_nil (step : σ → α → σ) (s : σ) : runOps step s [] = s := rfl

@[simp] theorem runOps_cons (step : σ → α → σ) (s : σ) (a : α) (ops : List α) :
    runOps step s (a :: ops) = runOps step (step s a) ops := rfl

theorem runOps_append (step : σ → α → σ) (s : σ) (ops ops' : List α) :
    runOps step s (ops ++ ops') = runOps step (runOps step s ops) ops' :=
  List.foldl_append

/-- What holds before each of the operations and survives it holds after all. -/
theorem runOps_invariant {step : σ → α → σ} {Inv : σ → Prop} {ok : α → Prop}
    (hstep : ∀ s a, Inv s → ok a → Inv (step s a)) {s : σ} (h : Inv s) {ops : List α}
    (hops : ∀ a ∈ ops, ok a) : Inv (runOps step s ops) := by
  induction ops generalizing s with
  | nil => exact h
  | cons a ops ih =>
    have ha := hops a List.mem_cons_self
    exact ih (hstep s a h ha) fun b hb => hops b (List.mem_cons_of_mem _ hb)

/-- `current` owner, `view` of each record; an operation either hands over, to
the owner `target` names, or works on the current record. -/
structure TimeShare (step : σ → α → σ) (current : σ → ι) (view : σ → ι → V)
    (target : α → Option ι) (Good : σ → Prop) (ok : α → Prop) : Prop where
  good : ∀ s a, Good s → ok a → Good (step s a)
  switch_current : ∀ {s a i}, Good s → ok a → target a = some i → current (step s a) = i
  switch_view : ∀ {s a i}, Good s → ok a → target a = some i → ∀ j, view (step s a) j = view s j
  work_current : ∀ {s a}, Good s → ok a → target a = none → current (step s a) = current s
  work_other : ∀ {s a}, Good s → ok a → target a = none → ∀ j, j ≠ current s →
    view (step s a) j = view s j
  work_congr : ∀ {s s' a}, Good s → Good s' → ok a → target a = none →
    view s (current s) = view s' (current s') →
    view (step s a) (current s) = view (step s' a) (current s')

/-- The operations of a run done on the record of `i`, in order. -/
def issuedOn [DecidableEq ι] (step : σ → α → σ) (current : σ → ι) (target : α → Option ι) (i : ι) :
    σ → List α → List α
  | _, [] => []
  | s, a :: ops =>
    if target a = none ∧ current s = i then a :: issuedOn step current target i (step s a) ops
    else issuedOn step current target i (step s a) ops

namespace TimeShare

variable [DecidableEq ι] {step : σ → α → σ} {current : σ → ι} {view : σ → ι → V}
  {target : α → Option ι} {Good : σ → Prop} {ok : α → Prop}

/-- **No owner can tell it is not alone.** `r` is any state in which `i` is
current and has the record it starts with. -/
theorem view_run (h : TimeShare step current view target Good ok) {i : ι} {s r : σ}
    {ops : List α} (hs : Good s) (hr : Good r) (hcur : current r = i)
    (hview : view r i = view s i) (hops : ∀ a ∈ ops, ok a) :
    view (runOps step s ops) i = view (runOps step r (issuedOn step current target i s ops)) i := by
  induction ops generalizing s r with
  | nil => exact hview.symm
  | cons a ops ih =>
    have ha := hops a List.mem_cons_self
    have hrest : ∀ b ∈ ops, ok b := fun b hb => hops b (List.mem_cons_of_mem _ hb)
    have hs' := h.good s a hs ha
    rw [runOps_cons, issuedOn]
    cases htarget : target a with
    | some j =>
      rw [if_neg (by simp)]
      refine ih hs' hr hcur ?_ hrest
      rw [hview, h.switch_view hs ha htarget]
    | none =>
      by_cases hi : current s = i
      · -- both runs do the operation, on equal records
        rw [if_pos ⟨rfl, hi⟩, runOps_cons]
        refine ih hs' (h.good r a hr ha) ?_ ?_ hrest
        · rw [h.work_current hr ha htarget, hcur]
        · have heq := h.work_congr hs hr ha htarget (by rw [hi, hcur, hview])
          rw [hi, hcur] at heq
          exact heq.symm
      · rw [if_neg fun hboth => hi hboth.2]
        refine ih hs' hr hcur ?_ hrest
        rw [hview, h.work_other hs ha htarget i fun heq => hi heq.symm]

omit [DecidableEq ι] in
/-- Working on the current record hands nothing over. -/
theorem current_runOps (h : TimeShare step current view target Good ok) {r : σ} {ops : List α}
    (hr : Good r) (hops : ∀ a ∈ ops, ok a ∧ target a = none) :
    current (runOps step r ops) = current r := by
  induction ops generalizing r with
  | nil => rfl
  | cons a ops ih =>
    obtain ⟨hok, htarget⟩ := hops a List.mem_cons_self
    rw [runOps_cons, ih (h.good r a hr hok) fun b hb => hops b (List.mem_cons_of_mem _ hb),
      h.work_current hr hok htarget]

end TimeShare

/-- What was issued on a record was among the operations, and no handover. -/
theorem of_mem_issuedOn [DecidableEq ι] {step : σ → α → σ} {current : σ → ι} {target : α → Option ι}
    {i : ι} {s : σ} {ops : List α} {a : α} (ha : a ∈ issuedOn step current target i s ops) :
    a ∈ ops ∧ target a = none := by
  induction ops generalizing s with
  | nil => cases ha
  | cons b ops ih =>
    rw [issuedOn] at ha
    by_cases hb : target b = none ∧ current s = i
    · rw [if_pos hb] at ha
      rcases List.mem_cons.mp ha with rfl | ha
      · exact ⟨List.mem_cons_self, hb.1⟩
      · exact ⟨List.mem_cons_of_mem _ (ih ha).1, (ih ha).2⟩
    · rw [if_neg hb] at ha
      exact ⟨List.mem_cons_of_mem _ (ih ha).1, (ih ha).2⟩

end Srunix.Library
