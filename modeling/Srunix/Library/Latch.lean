import Mathlib.Logic.Function.Basic

/-!
# One flag for a group of keys

Keys go down and up; `hold` keeps the set of keys that are down. A `latch` keeps
one flag for a whole group of keys instead: any press of the group sets it, any
release clears it. The flag then says whether some key of the group is down as
long as no key of the group is released while another one is down
(`Latched.step`), and a release of one key while another is down always makes it
wrong (`latched_release_iff`).

A `toggle` turns at every press of its key. It is the parity of the times the
key went down as long as a key that is down is not pressed again.
-/

namespace Srunix.Library

universe u

variable {κ : Type u} [DecidableEq κ]

/-- A key goes down or comes up. -/
inductive Edge (κ : Type u) where
  | press (k : κ)
  | release (k : κ)

/-- The key it is. -/
def Edge.key : Edge κ → κ
  | .press k => k
  | .release k => k

/-- The keys that are down. -/
def hold (down : κ → Bool) : Edge κ → κ → Bool
  | .press k => Function.update down k true
  | .release k => Function.update down k false

@[simp] theorem hold_press (down : κ → Bool) (k : κ) : hold down (.press k) k = true := by
  simp [hold]

@[simp] theorem hold_release (down : κ → Bool) (k : κ) : hold down (.release k) k = false := by
  simp [hold]

theorem hold_of_ne (down : κ → Bool) {e : Edge κ} {k : κ} (h : k ≠ e.key) :
    hold down e k = down k := by
  cases e with
  | press k' => exact Function.update_of_ne h true down
  | release k' => exact Function.update_of_ne h false down

/-- A flag that any key of a group sets and any release of one clears. -/
def latch (group : κ → Bool) (flag : Bool) : Edge κ → Bool
  | .press k => if group k then true else flag
  | .release k => if group k then false else flag

omit [DecidableEq κ] in
theorem latch_congr {group group' : κ → Bool} {e : Edge κ} (h : group e.key = group' e.key)
    (flag : Bool) : latch group flag e = latch group' flag e := by
  cases e with
  | press k => simp [latch, show group k = group' k from h]
  | release k => simp [latch, show group k = group' k from h]

/-- The flag says whether a key of the group is down. -/
def Latched (group : κ → Bool) (down : κ → Bool) (flag : Bool) : Prop :=
  flag = true ↔ ∃ k, group k = true ∧ down k = true

variable {group : κ → Bool} {down : κ → Bool} {flag : Bool}

/-- No key of the group is down but `k`. -/
def Alone (group down : κ → Bool) (k : κ) : Prop :=
  ∀ k', group k' = true → k' ≠ k → down k' = false

omit [DecidableEq κ] in
theorem latched_none : Latched group (fun _ : κ => false) false := by
  simp [Latched]

/-- A key of the group goes down, and the flag is set. -/
theorem latched_press_group {k : κ} (hk : group k = true) :
    Latched group (hold down (.press k)) (latch group flag (.press k)) := by
  constructor
  · intro _
    exact ⟨k, hk, hold_press down k⟩
  · intro _
    show (if group k then true else flag) = true
    rw [if_pos hk]

/-- After a release in the group the flag is right just when the key was alone. -/
theorem latched_release_iff {k : κ} (hk : group k = true) :
    Latched group (hold down (.release k)) (latch group flag (.release k)) ↔
      Alone group down k := by
  have hflag : latch group flag (.release k) = false := if_pos hk
  rw [Latched, hflag]
  constructor
  · intro h k' hgroup hne
    by_contra hdown
    have hup : hold down (.release k) k' = true := by
      rw [hold_of_ne down hne]
      simpa using hdown
    exact Bool.false_ne_true (h.mpr ⟨k', hgroup, hup⟩)
  · intro h
    refine iff_of_false Bool.false_ne_true ?_
    rintro ⟨k', hgroup, hdown⟩
    by_cases hne : k' = k
    · subst hne
      rw [hold_release] at hdown
      exact Bool.false_ne_true hdown
    · rw [hold_of_ne down hne, h k' hgroup hne] at hdown
      exact Bool.false_ne_true hdown

/-- Keys outside the group leave flag and group alone. -/
theorem latched_other (h : Latched group down flag) {e : Edge κ} (hk : group e.key = false) :
    Latched group (hold down e) (latch group flag e) := by
  have hflag : latch group flag e = flag := by
    cases e with
    | press k => exact if_neg (by rw [show group k = false from hk]; exact Bool.false_ne_true)
    | release k => exact if_neg (by rw [show group k = false from hk]; exact Bool.false_ne_true)
  have hdown : ∀ k, group k = true → hold down e k = down k := by
    intro k hgroup
    refine hold_of_ne down ?_
    rintro rfl
    exact Bool.false_ne_true (hk.symm.trans hgroup)
  rw [Latched, hflag]
  refine h.trans (exists_congr fun k => and_congr_right fun hgroup => ?_)
  rw [hdown k hgroup]

/-- **The step rule for a shared flag**: it is right as long as no key is released
while another one of its group is down. -/
theorem Latched.step (h : Latched group down flag) {e : Edge κ}
    (hsafe : ∀ k, e = .release k → group k = true → Alone group down k) :
    Latched group (hold down e) (latch group flag e) := by
  cases hk : group e.key with
  | false => exact latched_other h hk
  | true =>
    cases e with
    | press k => exact latched_press_group hk
    | release k => exact (latched_release_iff hk).mpr (hsafe k rfl hk)

/-! ## A key that turns a flag -/

/-- A flag that a key turns over each time it goes down. -/
def toggle (key : κ) (flag : Bool) : Edge κ → Bool
  | .press k => if k = key then !flag else flag
  | .release _ => flag

/-- How often `key` went down: pressing it again while it is down does not
count. -/
def downs (key : κ) (down : κ → Bool) (n : Nat) : Edge κ → Nat
  | .press k => if k = key ∧ down key = false then n + 1 else n
  | .release _ => n

/-- **A toggle is the parity of its key**, unless the key repeats. -/
theorem toggle_step {key : κ} {n : Nat} (h : flag = decide (n % 2 = 1)) {e : Edge κ}
    (hsafe : e = .press key → down key = false) :
    toggle key flag e = decide (downs key down n e % 2 = 1) := by
  cases e with
  | release k => exact h
  | press k =>
    by_cases hk : k = key
    · subst hk
      have hup := hsafe rfl
      show (if k = k then !flag else flag) =
        decide ((if k = k ∧ down k = false then n + 1 else n) % 2 = 1)
      rw [if_pos rfl, if_pos ⟨rfl, hup⟩, h, ← decide_not, decide_eq_decide]
      omega
    · show (if k = key then !flag else flag) =
        decide ((if k = key ∧ down key = false then n + 1 else n) % 2 = 1)
      rw [if_neg hk, if_neg fun hboth => hk hboth.1, h]

end Srunix.Library
