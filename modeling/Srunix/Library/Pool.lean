import Mathlib.Data.Finset.Card
import Mathlib.Data.Finset.Range
import Mathlib.Data.List.Nodup
import Mathlib.Logic.Function.Basic
import Srunix.Library.FirstIndex

/-!
# Pools of numbered units and who holds them

A pool has `n` numbered units and one flag per unit saying whether it is in
use. A client keeps, next to the flags, a counter of the free units, and gives
units out to *owners* that each remember a list of what they hold.

- `freeCount n used`: how many units are free, and how one flag change moves it
  (`freeCount_take`, `freeCount_release`, and their list forms);
- `freeUnits n used`: the free units in the order a scan from 0 finds them;
- `mark used l v`: the flags after setting every unit of `l` to `v`;
- `Exclusive used held`: no unit is held twice and every held unit is in use.
  It survives an owner letting go of everything (`Exclusive.release`) and an
  owner with empty hands taking fresh units (`Exclusive.acquire`).

The flags may say "in use" for a unit nobody holds: `Exclusive` forbids
sharing, not leaking. `Covered` is the converse, and the two are kept apart
because a client may lose one and keep the other.
-/

namespace Srunix.Library

universe u

/-- The number of free units in a pool of `n`. -/
def freeCount (n : Nat) (used : Nat → Bool) : Nat :=
  ((Finset.range n).filter fun i => used i = false).card

/-- The flags after setting every unit of `l` to `v`. -/
def mark (used : Nat → Bool) (l : List Nat) (v : Bool) : Nat → Bool :=
  fun b => if b ∈ l then v else used b

@[simp] theorem mark_nil (used : Nat → Bool) (v : Bool) : mark used [] v = used := by
  funext b
  simp [mark]

theorem mark_of_mem {used : Nat → Bool} {l : List Nat} {v : Bool} {b : Nat} (h : b ∈ l) :
    mark used l v b = v := if_pos h

theorem mark_of_not_mem {used : Nat → Bool} {l : List Nat} {v : Bool} {b : Nat} (h : b ∉ l) :
    mark used l v b = used b := if_neg h

/-- One unit, and then the others. -/
theorem mark_cons (used : Nat → Bool) (b : Nat) (l : List Nat) (v : Bool) :
    mark used (b :: l) v = mark (Function.update used b v) l v := by
  funext c
  by_cases hl : c ∈ l
  · rw [mark_of_mem hl, mark_of_mem (List.mem_cons_of_mem _ hl)]
  · rw [mark_of_not_mem hl]
    by_cases hc : c = b
    · subst hc
      rw [mark_of_mem List.mem_cons_self, Function.update_self]
    · rw [Function.update_of_ne hc, mark_of_not_mem]
      simp [hc, hl]

/-! ## Counting -/

theorem freeCount_le (n : Nat) (used : Nat → Bool) : freeCount n used ≤ n := by
  calc freeCount n used
      ≤ (Finset.range n).card := Finset.card_filter_le _ _
    _ = n := Finset.card_range n

theorem freeCount_congr {n : Nat} {used used' : Nat → Bool} (h : ∀ i < n, used i = used' i) :
    freeCount n used = freeCount n used' := by
  rw [freeCount]
  congr 1
  refine Finset.filter_congr fun i hi => ?_
  rw [h i (Finset.mem_range.mp hi)]

/-- None is free exactly if all are in use. -/
theorem freeCount_eq_zero_iff {n : Nat} {used : Nat → Bool} :
    freeCount n used = 0 ↔ ∀ i < n, used i = true := by
  rw [freeCount]
  rw [Finset.card_eq_zero, Finset.filter_eq_empty_iff]
  constructor
  · intro h i hi
    simpa using h (Finset.mem_range.mpr hi)
  · intro h i hi
    simpa using h i (Finset.mem_range.mp hi)

/-- A list that has every free unit is at least as long as the count. -/
theorem freeCount_le_length {n : Nat} {used : Nat → Bool} {l : List Nat}
    (h : ∀ b < n, used b = false → b ∈ l) : freeCount n used ≤ l.length := by
  have hsub : ((Finset.range n).filter fun i => used i = false) ⊆ l.toFinset := by
    intro b hb
    obtain ⟨hb, hfree⟩ := Finset.mem_filter.mp hb
    exact List.mem_toFinset.mpr (h b (Finset.mem_range.mp hb) hfree)
  exact Nat.le_trans (Finset.card_le_card hsub) (List.toFinset_card_le l)

/-- Taking a free unit lowers the count by one. -/
theorem freeCount_take {n i : Nat} {used : Nat → Bool} (hi : i < n) (hfree : used i = false) :
    freeCount n (Function.update used i true) + 1 = freeCount n used := by
  have hmem : i ∈ (Finset.range n).filter fun j => used j = false := by
    simp [hi, hfree]
  have herase : ((Finset.range n).filter fun j => Function.update used i true j = false)
      = ((Finset.range n).filter fun j => used j = false).erase i := by
    ext j
    by_cases hj : j = i
    · subst hj
      simp
    · simp [hj]
  unfold freeCount
  rw [herase, Finset.card_erase_add_one hmem]

/-- Giving back a unit in use raises the count by one. -/
theorem freeCount_release {n i : Nat} {used : Nat → Bool} (hi : i < n) (hused : used i = true) :
    freeCount n (Function.update used i false) = freeCount n used + 1 := by
  have hfree : Function.update used i false i = false := Function.update_self ..
  have h := freeCount_take hi hfree
  have hback : Function.update (Function.update used i false) i true = used := by
    rw [Function.update_idem, ← hused, Function.update_eq_self]
  rw [hback] at h
  exact h.symm

/-- Taking a list of distinct free units. -/
theorem freeCount_mark_true {n : Nat} :
    ∀ {l : List Nat} {used : Nat → Bool}, l.Nodup → (∀ b ∈ l, b < n ∧ used b = false) →
      freeCount n (mark used l true) + l.length = freeCount n used
  | [], used, _, _ => by rw [mark_nil]; rfl
  | b :: l, used, hnd, hfree => by
    obtain ⟨hb, hnd⟩ := List.nodup_cons.mp hnd
    obtain ⟨hbn, hbfree⟩ := hfree b List.mem_cons_self
    have hrest : ∀ c ∈ l, c < n ∧ Function.update used b true c = false := by
      intro c hc
      obtain ⟨hcn, hcfree⟩ := hfree c (List.mem_cons_of_mem _ hc)
      have hcb : c ≠ b := fun h => hb (h ▸ hc)
      exact ⟨hcn, by rw [Function.update_of_ne hcb, hcfree]⟩
    have ih := freeCount_mark_true hnd hrest
    have hone := freeCount_take hbn hbfree
    rw [mark_cons, List.length_cons]
    omega

/-- Giving back a list of distinct units in use. -/
theorem freeCount_mark_false {n : Nat} :
    ∀ {l : List Nat} {used : Nat → Bool}, l.Nodup → (∀ b ∈ l, b < n ∧ used b = true) →
      freeCount n (mark used l false) = freeCount n used + l.length
  | [], used, _, _ => by rw [mark_nil]; rfl
  | b :: l, used, hnd, hused => by
    obtain ⟨hb, hnd⟩ := List.nodup_cons.mp hnd
    obtain ⟨hbn, hbused⟩ := hused b List.mem_cons_self
    have hrest : ∀ c ∈ l, c < n ∧ Function.update used b false c = true := by
      intro c hc
      obtain ⟨hcn, hcused⟩ := hused c (List.mem_cons_of_mem _ hc)
      have hcb : c ≠ b := fun h => hb (h ▸ hc)
      exact ⟨hcn, by rw [Function.update_of_ne hcb, hcused]⟩
    have ih := freeCount_mark_false hnd hrest
    have hone := freeCount_release hbn hbused
    rw [mark_cons, List.length_cons]
    omega

/-- One flag set to free changes the count by one at most. -/
theorem freeCount_update_false (n i : Nat) (used : Nat → Bool) :
    freeCount n (Function.update used i false) =
      freeCount n used + if i < n ∧ used i = true then 1 else 0 := by
  by_cases h : i < n ∧ used i = true
  · rw [if_pos h, freeCount_release h.1 h.2]
  · rw [if_neg h, Nat.add_zero]
    refine freeCount_congr fun j hj => ?_
    by_cases hji : j = i
    · subst hji
      have hfree : used j = false := Bool.eq_false_iff.mpr fun hused => h ⟨hj, hused⟩
      rw [Function.update_self, hfree]
    · rw [Function.update_of_ne hji]

/-- A release frees at most what it names. -/
theorem freeCount_mark_false_le (n : Nat) (l : List Nat) (used : Nat → Bool) :
    freeCount n (mark used l false) ≤ freeCount n used + l.length := by
  induction l generalizing used with
  | nil =>
    rw [mark_nil]
    exact Nat.le_add_right _ _
  | cons b l ih =>
    have hrest := ih (Function.update used b false)
    rw [freeCount_update_false] at hrest
    rw [mark_cons, List.length_cons]
    split at hrest <;> omega

/-- Giving back a list raises the count by its length *only* when it lists
distinct units in use. -/
theorem freeCount_mark_false_iff {n : Nat} {l : List Nat} {used : Nat → Bool} :
    freeCount n (mark used l false) = freeCount n used + l.length ↔
      l.Nodup ∧ ∀ b ∈ l, b < n ∧ used b = true := by
  refine ⟨fun h => ?_, fun h => freeCount_mark_false h.1 h.2⟩
  induction l generalizing used with
  | nil => exact ⟨List.nodup_nil, fun b hb => nomatch hb⟩
  | cons b l ih =>
    rw [mark_cons, List.length_cons] at h
    have hle := freeCount_mark_false_le n l (Function.update used b false)
    have hone := freeCount_update_false n b used
    by_cases hb : b < n ∧ used b = true
    · -- the head counts, so the tail has to count in full
      rw [if_pos hb] at hone
      obtain ⟨hnd, hrest⟩ := @ih (Function.update used b false) (by omega)
      have hfresh : b ∉ l := by
        intro hmem
        have := (hrest b hmem).2
        rw [Function.update_self] at this
        cases this
      refine ⟨List.nodup_cons.mpr ⟨hfresh, hnd⟩, fun c hc => ?_⟩
      rcases List.mem_cons.mp hc with rfl | hc
      · exact hb
      · have hcb : c ≠ b := fun heq => hfresh (heq ▸ hc)
        have hcused := hrest c hc
        rwa [Function.update_of_ne hcb] at hcused
    · rw [if_neg hb] at hone
      omega

/-! ## The free units in order -/

/-- The free units, lowest first. -/
def freeUnits (n : Nat) (used : Nat → Bool) : List Nat :=
  (List.range n).filter fun b => !used b

theorem mem_freeUnits {n b : Nat} {used : Nat → Bool} :
    b ∈ freeUnits n used ↔ b < n ∧ used b = false := by
  simp [freeUnits]

theorem nodup_freeUnits (n : Nat) (used : Nat → Bool) : (freeUnits n used).Nodup :=
  List.nodup_range.filter _

/-- Taking the unit a scan for a free one finds takes the head of the list. -/
theorem freeUnits_of_firstIndex {n b : Nat} {used : Nat → Bool}
    (h : firstIndex n (fun i => !used i) = some b) :
    freeUnits n used = b :: freeUnits n (Function.update used b true) := by
  obtain ⟨hfree, below, above, hsplit, hbelow⟩ := List.find?_eq_some_iff_append.mp h
  have hnd : (below ++ b :: above).Nodup := hsplit ▸ List.nodup_range
  -- the units below the first free one are used, those above are others
  have hne : ∀ c ∈ above, c ≠ b := by
    rintro c hc rfl
    exact (List.nodup_cons.mp (List.nodup_append.mp hnd).2.1).1 hc
  have hused : ∀ c ∈ below, ¬ (!used c) = true := by
    intro c hc
    simpa using hbelow c hc
  have hused' : ∀ c ∈ below, ¬ (!Function.update used b true c) = true := by
    intro c hc
    by_cases hcb : c = b
    · simp [hcb]
    · rw [Function.update_of_ne hcb]
      exact hused c hc
  have htaken : ¬ (!Function.update used b true b) = true := by simp
  unfold freeUnits
  rw [hsplit, List.filter_append, List.filter_append, List.filter_eq_nil_iff.mpr hused,
    List.filter_eq_nil_iff.mpr hused', List.nil_append, List.nil_append, List.filter_cons,
    if_pos hfree, List.filter_cons, if_neg htaken]
  congr 1
  refine List.filter_congr fun c hc => ?_
  rw [Function.update_of_ne (hne c hc)]

theorem freeUnits_eq_nil {n : Nat} {used : Nat → Bool}
    (h : firstIndex n (fun i => !used i) = none) : freeUnits n used = [] := by
  refine List.filter_eq_nil_iff.mpr fun b hb => ?_
  rw [firstIndex_eq_none_iff.mp h b (List.mem_range.mp hb)]
  exact Bool.false_ne_true

/-! ## Ownership -/

variable {ι : Type u} [DecidableEq ι] {used : Nat → Bool} {held : ι → List Nat}

/-- No unit is held twice, by one owner or by two, and every held unit is
flagged as in use. -/
structure Exclusive (used : Nat → Bool) (held : ι → List Nat) : Prop where
  nodup : ∀ k, (held k).Nodup
  disjoint : ∀ {k k' b}, b ∈ held k → b ∈ held k' → k = k'
  inUse : ∀ {k b}, b ∈ held k → used b = true

/-- Every unit in use is held by somebody: nothing has leaked. -/
def Covered (used : Nat → Bool) (held : ι → List Nat) : Prop :=
  ∀ b, used b = true → ∃ k, b ∈ held k

/-- An owner lets go of all it holds; some of those units (`l`) are flagged free
again, the others stay flagged and are lost. -/
theorem Exclusive.release (h : Exclusive used held) (k : ι) {l : List Nat}
    (hl : ∀ b ∈ l, b ∈ held k) :
    Exclusive (mark used l false) (Function.update held k []) := by
  have hother : ∀ {k' b}, b ∈ Function.update held k [] k' → k' ≠ k ∧ b ∈ held k' := by
    intro k' b hb
    by_cases hk : k' = k
    · subst hk
      simp at hb
    · exact ⟨hk, by rwa [Function.update_of_ne hk] at hb⟩
  refine { nodup := fun k' => ?_, disjoint := fun hb hb' => ?_, inUse := fun hb => ?_ }
  · by_cases hk : k' = k
    · subst hk
      simp
    · rw [Function.update_of_ne hk]
      exact h.nodup k'
  · exact h.disjoint (hother hb).2 (hother hb').2
  · obtain ⟨hk, hb⟩ := hother hb
    rw [mark_of_not_mem fun hbl => hk (h.disjoint hb (hl _ hbl))]
    exact h.inUse hb

/-- An owner with empty hands takes distinct units that were free. -/
theorem Exclusive.acquire (h : Exclusive used held) (k : ι) {l : List Nat} (hempty : held k = [])
    (hnd : l.Nodup) (hfree : ∀ b ∈ l, used b = false) :
    Exclusive (mark used l true) (Function.update held k l) := by
  -- units held by the other owners were in use, so none of them is in `l`
  have hfresh : ∀ {k' b}, b ∈ held k' → b ∉ l := by
    intro k' b hb hbl
    have := h.inUse hb
    rw [hfree b hbl] at this
    cases this
  have hother : ∀ {k' b}, b ∈ Function.update held k l k' →
      (k' = k ∧ b ∈ l) ∨ (k' ≠ k ∧ b ∈ held k') := by
    intro k' b hb
    by_cases hk : k' = k
    · subst hk
      exact .inl ⟨rfl, by rwa [Function.update_self] at hb⟩
    · exact .inr ⟨hk, by rwa [Function.update_of_ne hk] at hb⟩
  refine { nodup := fun k' => ?_, disjoint := fun hb hb' => ?_, inUse := fun hb => ?_ }
  · by_cases hk : k' = k
    · subst hk
      rwa [Function.update_self]
    · rw [Function.update_of_ne hk]
      exact h.nodup k'
  · rcases hother hb with ⟨rfl, hbl⟩ | ⟨hk, hbk⟩
    · rcases hother hb' with ⟨rfl, -⟩ | ⟨-, hbk'⟩
      · rfl
      · exact absurd hbl (hfresh hbk')
    · rcases hother hb' with ⟨-, hbl⟩ | ⟨-, hbk'⟩
      · exact absurd hbl (hfresh hbk)
      · exact h.disjoint hbk hbk'
  · rcases hother hb with ⟨-, hbl⟩ | ⟨-, hbk⟩
    · exact mark_of_mem hbl
    · rw [mark_of_not_mem (hfresh hbk)]
      exact h.inUse hbk

/-- Letting go of everything and flagging it all free leaks nothing. -/
theorem Covered.release (h : Covered used held) (k : ι) {l : List Nat}
    (hl : ∀ b ∈ held k, b ∈ l) :
    Covered (mark used l false) (Function.update held k []) := by
  intro b hb
  have hbl : b ∉ l := by
    intro hbl
    rw [mark_of_mem hbl] at hb
    cases hb
  rw [mark_of_not_mem hbl] at hb
  obtain ⟨k', hk'⟩ := h b hb
  have hk : k' ≠ k := by
    rintro rfl
    exact hbl (hl b hk')
  exact ⟨k', by rwa [Function.update_of_ne hk]⟩

/-- Units taken are held by the one who took them. -/
theorem Covered.acquire (h : Covered used held) (k : ι) {l : List Nat} (hempty : held k = []) :
    Covered (mark used l true) (Function.update held k l) := by
  intro b hb
  by_cases hbl : b ∈ l
  · exact ⟨k, by rwa [Function.update_self]⟩
  · rw [mark_of_not_mem hbl] at hb
    obtain ⟨k', hk'⟩ := h b hb
    have hk : k' ≠ k := by
      rintro rfl
      rw [hempty] at hk'
      cases hk'
    exact ⟨k', by rwa [Function.update_of_ne hk]⟩

end Srunix.Library
