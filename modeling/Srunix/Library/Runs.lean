import Mathlib.Data.List.Induction
import Srunix.Library.TimeShare

/-!
# Runs with guards and outputs

A deterministic machine is a function `step` from states and operations to
states; `runOps` does a list of them. `Guarded` says that every operation meets
a condition in the state it is done in, `outputs` collects what the operations
give out. Two machines that keep a relation on guarded operations, and give out
the same on them, give out the same on every guarded run
(`outputs_eq_of_simulation`).
-/

namespace Srunix.Library

universe u v w x

variable {σ : Type u} {α : Type v} {τ : Type w} {β : Type x}

/-- Every operation of the run meets `ok` in the state it is done in. -/
def Guarded (step : σ → α → σ) (ok : σ → α → Prop) : σ → List α → Prop
  | _, [] => True
  | s, a :: ops => ok s a ∧ Guarded step ok (step s a) ops

instance decidableGuarded (step : σ → α → σ) (ok : σ → α → Prop) [∀ s a, Decidable (ok s a)] :
    ∀ s ops, Decidable (Guarded step ok s ops)
  | _, [] => inferInstanceAs (Decidable True)
  | s, a :: ops =>
    have := decidableGuarded step ok (step s a) ops
    inferInstanceAs (Decidable (ok s a ∧ Guarded step ok (step s a) ops))

/-- What the operations of a run give out. -/
def outputs (step : σ → α → σ) (out : σ → α → Option β) : σ → List α → List β
  | _, [] => []
  | s, a :: ops => (out s a).toList ++ outputs step out (step s a) ops

variable {step : σ → α → σ} {ok : σ → α → Prop}

/-- The start of a guarded run is guarded. -/
theorem Guarded.of_append {s : σ} {pre post : List α} (h : Guarded step ok s (pre ++ post)) :
    Guarded step ok s pre := by
  induction pre generalizing s with
  | nil => trivial
  | cons a pre ih => exact ⟨h.1, ih h.2⟩

/-- A run is guarded if all but its last operation are and the last one is allowed
where it comes. -/
theorem guarded_snoc {s : σ} {pre : List α} {a : α} :
    Guarded step ok s (pre ++ [a]) ↔ Guarded step ok s pre ∧ ok (runOps step s pre) a := by
  induction pre generalizing s with
  | nil => exact ⟨fun h => ⟨trivial, h.1⟩, fun h => ⟨h.2, trivial⟩⟩
  | cons b pre ih =>
    rw [List.cons_append, runOps_cons]
    exact (and_congr_right' ih).trans and_assoc.symm

theorem runOps_snoc (step : σ → α → σ) (s : σ) (ops : List α) (a : α) :
    runOps step s (ops ++ [a]) = step (runOps step s ops) a :=
  runOps_append step s ops [a]

/-- An operation of a longer run is the last one, or was done before it. -/
theorem snoc_eq_append_cons {ops mid rest : List α} {a b : α}
    (h : ops ++ [a] = mid ++ b :: rest) :
    (mid = ops ∧ b = a) ∨ ∃ init, ops = mid ++ b :: init := by
  rcases List.eq_nil_or_concat rest with rfl | ⟨init, last, rfl⟩
  · obtain ⟨hops, hlast⟩ := List.append_inj' h rfl
    cases hlast
    exact .inl ⟨hops.symm, rfl⟩
  · have hinit : ops ++ [a] = (mid ++ b :: init) ++ [last] := by
      rw [h, List.concat_eq_append, List.append_assoc, List.cons_append]
    exact .inr ⟨init, (List.append_inj' hinit rfl).1⟩

/-- What two runs give out, one after the other. -/
theorem outputs_append (step : σ → α → σ) (out : σ → α → Option β) (s : σ) (ops ops' : List α) :
    outputs step out s (ops ++ ops') =
      outputs step out s ops ++ outputs step out (runOps step s ops) ops' := by
  induction ops generalizing s with
  | nil => rfl
  | cons a ops ih =>
    show (out s a).toList ++ outputs step out (step s a) (ops ++ ops') = _
    rw [ih, ← List.append_assoc]
    rfl

theorem guarded_forall {P : α → Prop} {s : σ} {ops : List α} :
    Guarded step (fun _ a => P a) s ops ↔ ∀ a ∈ ops, P a := by
  induction ops generalizing s with
  | nil => exact ⟨fun _ _ ha => (nomatch ha), fun _ => trivial⟩
  | cons a ops ih =>
    rw [List.forall_mem_cons]
    exact and_congr_right fun _ => ih

/-- **The exact guard**: if, in states of an invariant that good operations keep,
an operation is good just when it meets `ok`, then so it is for runs. -/
theorem guarded_iff {good : σ → α → Prop} (Inv : σ → Prop)
    {s : σ} {ops : List α} (hiff : ∀ s, ∀ a ∈ ops, Inv s → (good s a ↔ ok s a))
    (hinv : ∀ s, ∀ a ∈ ops, Inv s → good s a → Inv (step s a)) (h0 : Inv s) :
    Guarded step good s ops ↔ Guarded step ok s ops := by
  induction ops generalizing s with
  | nil => exact Iff.rfl
  | cons a ops ih =>
    have hrest : ∀ s, Inv s → (Guarded step good s ops ↔ Guarded step ok s ops) := fun s =>
      ih (fun s b hb => hiff s b (List.mem_cons_of_mem a hb))
        fun s b hb => hinv s b (List.mem_cons_of_mem a hb)
    have hmem : a ∈ a :: ops := List.mem_cons_self
    constructor
    · rintro ⟨ha, hops⟩
      exact ⟨(hiff s a hmem h0).mp ha, (hrest _ (hinv s a hmem h0 ha)).mp hops⟩
    · rintro ⟨ha, hops⟩
      have hgood := (hiff s a hmem h0).mpr ha
      exact ⟨hgood, (hrest _ (hinv s a hmem h0 hgood)).mpr hops⟩

/-- **The invariant rule** for guarded runs. -/
theorem Guarded.invariant {Inv : σ → Prop}
    (hstep : ∀ s a, Inv s → ok s a → Inv (step s a)) {s : σ} {ops : List α}
    (h : Guarded step ok s ops) (h0 : Inv s) : Inv (runOps step s ops) := by
  induction ops generalizing s with
  | nil => exact h0
  | cons a ops ih => exact ih h.2 (hstep s a h0 h.1)

/-- **The history rule**: an invariant may also speak of the operations done
so far. -/
theorem Guarded.history (Inv : List α → σ → Prop)
    (hstep : ∀ done s a, Inv done s → ok s a → Inv (done ++ [a]) (step s a)) {s : σ}
    {ops : List α} (h : Guarded step ok s ops) (h0 : Inv [] s) : Inv ops (runOps step s ops) := by
  induction ops using List.reverseRecOn with
  | nil => exact h0
  | append_singleton ops a ih =>
    obtain ⟨hpre, ha⟩ := guarded_snoc.mp h
    rw [runOps_snoc]
    exact hstep ops _ a (ih hpre) ha

/-- What holds all along a run holds at first and after every operation. -/
theorem forall_prefix_iff_guarded {P : σ → Prop} {s : σ} {ops : List α} :
    (∀ pre, pre <+: ops → P (runOps step s pre)) ↔ P s ∧ Guarded step (fun s a => P (step s a)) s ops := by
  induction ops generalizing s with
  | nil =>
    refine ⟨fun h => ⟨h [] List.nil_prefix, trivial⟩, fun h pre hpre => ?_⟩
    rw [List.prefix_nil.mp hpre]
    exact h.1
  | cons a ops ih =>
    constructor
    · intro h
      have hrest := ih.mp fun pre hpre => h (a :: pre) ((List.prefix_cons_inj a).mpr hpre)
      exact ⟨h [] List.nil_prefix, hrest⟩
    · rintro ⟨hs, hops⟩ pre hpre
      cases pre with
      | nil => exact hs
      | cons b pre =>
        obtain ⟨rfl, hrest⟩ := List.cons_prefix_cons.mp hpre
        exact ih.mpr hops pre hrest

/-- Two machines are in the same state all along a run just if every operation
does the same in the state the second one is in. -/
theorem forall_prefix_runOps_eq_iff {step' : σ → α → σ} {s : σ} {ops : List α} :
    (∀ pre, pre <+: ops → runOps step s pre = runOps step' s pre) ↔
      Guarded step' (fun s a => step s a = step' s a) s ops := by
  induction ops generalizing s with
  | nil =>
    refine iff_of_true (fun pre hpre => ?_) trivial
    rw [List.prefix_nil.mp hpre]
    rfl
  | cons a ops ih =>
    constructor
    · intro h
      have ha : step s a = step' s a := h [a] (List.prefix_append [a] ops)
      refine ⟨ha, ih.mp fun pre hpre => ?_⟩
      have hpre := h (a :: pre) ((List.prefix_cons_inj a).mpr hpre)
      rwa [runOps_cons, runOps_cons, ha] at hpre
    · rintro ⟨ha, hops⟩ pre hpre
      cases pre with
      | nil => rfl
      | cons b pre =>
        obtain ⟨rfl, hrest⟩ := List.cons_prefix_cons.mp hpre
        rw [runOps_cons, runOps_cons, ha]
        exact ih.mpr hops pre hrest

/-- The relation two machines keep, after a guarded run of the second one. -/
theorem runOps_simulation {step' : τ → α → τ} {ok : τ → α → Prop} {R : σ → τ → Prop}
    (hstep : ∀ s t a, R s t → ok t a → R (step s a) (step' t a)) {s : σ} {t : τ} {ops : List α}
    (hR : R s t) (h : Guarded step' ok t ops) : R (runOps step s ops) (runOps step' t ops) := by
  induction ops generalizing s t with
  | nil => exact hR
  | cons a ops ih => exact ih (hstep s t a hR h.1) h.2

/-- **Two machines that cannot be told apart**, as long as the second one's
operations are guarded. -/
theorem outputs_eq_of_simulation {step' : τ → α → τ} {ok : τ → α → Prop} {out : σ → α → Option β}
    {out' : τ → α → Option β} {R : σ → τ → Prop}
    (hstep : ∀ s t a, R s t → ok t a → R (step s a) (step' t a))
    (hout : ∀ s t a, R s t → ok t a → out s a = out' t a) {s : σ} {t : τ} {ops : List α}
    (hR : R s t) (h : Guarded step' ok t ops) :
    outputs step out s ops = outputs step' out' t ops := by
  induction ops generalizing s t with
  | nil => rfl
  | cons a ops ih =>
    show (out s a).toList ++ _ = (out' t a).toList ++ _
    rw [hout s t a hR h.1, ih (hstep s t a hR h.1) h.2]

end Srunix.Library
