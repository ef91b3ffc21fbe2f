import Mathlib.Data.List.Basic
import Mathlib.Data.List.Nodup
import Mathlib.Logic.Function.Basic

/-!
# First-match scans and array shifts

C programs without a container library search their tables with
`for (i = 0; i < n; i++) if (p(i)) …` and delete from them by shifting the tail
down one slot. Both are stated here once, over an arbitrary predicate and an
arbitrary array:

- `firstIndex n p`: the index such a scan stops at, characterized by
  `firstIndex_eq_some_iff` (the match is the *least* one) and
  `firstIndex_eq_none_iff`;
- `shiftDown a i m`: the array after `for (j = i; j < m; j++) a[j] = a[j + 1]`,
  with its closed form `shiftDown_apply`.
-/

namespace Srunix.Library

universe u

/-- The first index below `n` at which `p` holds. -/
def firstIndex (n : Nat) (p : Nat → Bool) : Option Nat :=
  (List.range n).find? p

/-- The first index with the property. -/
theorem firstIndex_eq_some_iff {n i : Nat} {p : Nat → Bool} :
    firstIndex n p = some i ↔ i < n ∧ p i = true ∧ ∀ j < i, p j = false := by
  rw [firstIndex]
  rw [List.find?_range_eq_some]
  constructor
  · rintro ⟨hp, hmem, hlt⟩
    exact ⟨List.mem_range.mp hmem, hp, fun j hj => by simpa using hlt j hj⟩
  · rintro ⟨hi, hp, hlt⟩
    exact ⟨hp, List.mem_range.mpr hi, fun j hj => by simpa using hlt j hj⟩

/-- No index below the bound has it. -/
theorem firstIndex_eq_none_iff {n : Nat} {p : Nat → Bool} :
    firstIndex n p = none ↔ ∀ i < n, p i = false := by
  rw [firstIndex]
  rw [List.find?_range_eq_none]
  constructor
  · intro h i hi
    simpa using h i hi
  · intro h i hi
    simpa using h i hi

/-- A scan finds something exactly when there is something to find. -/
theorem exists_firstIndex {n i : Nat} {p : Nat → Bool} (hi : i < n) (hp : p i = true) :
    ∃ j, firstIndex n p = some j ∧ j ≤ i := by
  cases hscan : firstIndex n p with
  | none =>
    have := firstIndex_eq_none_iff.mp hscan i hi
    rw [hp] at this
    cases this
  | some j =>
    refine ⟨j, rfl, ?_⟩
    by_contra hlt
    have := (firstIndex_eq_some_iff.mp hscan).2.2 i (by omega)
    rw [hp] at this
    cases this

/-- The first `n` cells of an array, in order. -/
def table {α : Type u} (a : Nat → α) (n : Nat) : List α :=
  (List.range n).map a

theorem mem_table {α : Type u} {a : Nat → α} {n : Nat} {x : α} :
    x ∈ table a n ↔ ∃ i < n, a i = x := by
  simp [table]

/-- Writing the cell after the last one appends to the table. -/
theorem table_update_append {α : Type u} (a : Nat → α) (n : Nat) (x : α) :
    table (Function.update a n x) (n + 1) = table a n ++ [x] := by
  rw [table]
  rw [List.range_succ, List.map_append]
  congr 1
  · refine List.map_congr_left fun i hi => ?_
    exact Function.update_of_ne (by have := List.mem_range.mp hi; omega) _ _
  · simp

/-- A table, in two parts. -/
theorem table_add {α : Type u} (a : Nat → α) (i m : Nat) :
    table a (i + m) = table a i ++ table (fun k => a (i + k)) m := by
  simp [table, List.range_add]

/-- Reading up to the first cell that fails `p`. -/
theorem takeWhile_table {α : Type u} {a : Nat → α} {p : α → Bool} {i n : Nat} (hi : i < n)
    (hp : ∀ x ∈ table a i, p x = true) (hstop : p (a i) = false) :
    (table a n).takeWhile p = table a i := by
  obtain ⟨m, rfl⟩ : ∃ m, n = i + (m + 1) := ⟨n - i - 1, by omega⟩
  have htail : (table (fun k => a (i + k)) (m + 1)).takeWhile p = [] := by
    rw [table, List.range_succ_eq_map, List.map_cons, List.takeWhile_cons_of_neg]
    simpa using hstop
  rw [table_add, List.takeWhile_append_of_pos hp, htail, List.append_nil]

theorem length_takeWhile_table {α : Type u} {a : Nat → α} {p : α → Bool} {i n : Nat} (hi : i < n)
    (hstop : p (a i) = false) : ((table a n).takeWhile p).length ≤ i := by
  obtain ⟨m, rfl⟩ : ∃ m, n = i + (m + 1) := ⟨n - i - 1, by omega⟩
  have htail : (table (fun k => a (i + k)) (m + 1)).takeWhile p = [] := by
    rw [table, List.range_succ_eq_map, List.map_cons, List.takeWhile_cons_of_neg]
    simpa using hstop
  rw [table_add, List.takeWhile_append]
  split
  · rw [htail, List.append_nil]
    simp [table]
  · exact Nat.le_trans (List.takeWhile_sublist p).length_le (by simp [table])

theorem length_table {α : Type u} (a : Nat → α) (n : Nat) : (table a n).length = n := by
  simp [table]

theorem dropLast_table {α : Type u} (a : Nat → α) (n : Nat) :
    (table a n).dropLast = table a (n - 1) := by
  cases n with
  | zero => rfl
  | succ n => simp [table, List.range_succ]

theorem table_congr {α : Type u} {a b : Nat → α} {n : Nat} (h : ∀ k < n, a k = b k) :
    table a n = table b n :=
  List.map_congr_left fun k hk => h k (List.mem_range.mp hk)

/-! ## Shifting the tail of an array down one slot -/

/-- `for (j = i; j < m; j++) a[j] = a[j + 1]`. -/
def shiftDown {α : Type u} (a : Nat → α) (i m : Nat) : Nat → α :=
  (List.range' i (m - i)).foldl (fun a j => Function.update a j (a (j + 1))) a

/-- The loop that moves the elements behind one place down. -/
theorem shiftDown_loop {α : Type u} (a : Nat → α) :
    ∀ (len i k : Nat),
      (List.range' i len).foldl (fun a j => Function.update a j (a (j + 1))) a k =
        if i ≤ k ∧ k < i + len then a (k + 1) else a k := by
  intro len
  induction len generalizing a with
  | zero =>
    intro i k
    rw [if_neg (by omega)]
    rfl
  | succ len ih =>
    intro i k
    rw [List.range'_succ, List.foldl_cons, ih]
    -- the rest of the loop reads cells above `i`, which the first step left alone
    by_cases hk : i + 1 ≤ k ∧ k < i + 1 + len
    · rw [if_pos hk, if_pos (by omega), Function.update_of_ne (by omega)]
    · rw [if_neg hk]
      by_cases hki : k = i
      · subst hki
        rw [if_pos (by omega), Function.update_self]
      · rw [if_neg (by omega), Function.update_of_ne hki]

/-- Closed form of the shift: cells `i … m - 1` hold their right neighbours. -/
theorem shiftDown_apply {α : Type u} (a : Nat → α) (i m k : Nat) :
    shiftDown a i m k = if i ≤ k ∧ k < m then a (k + 1) else a k := by
  rw [shiftDown]
  rw [shiftDown_loop]
  by_cases h : i ≤ k ∧ k < m
  · rw [if_pos h, if_pos (by omega)]
  · rw [if_neg h, if_neg (by omega)]

/-- Shifting over cell `i` erases exactly that cell from the table. -/
theorem table_shiftDown {α : Type u} (a : Nat → α) {i n : Nat} (hi : i < n) :
    table (shiftDown a i (n - 1)) (n - 1) = (table a n).eraseIdx i := by
  refine List.ext_getElem ?_ fun k hk hk' => ?_
  · simp [table, List.length_eraseIdx, hi]
  · have hk : k < n - 1 := by simpa [table] using hk
    rw [List.getElem_eraseIdx]
    simp only [table, List.getElem_map, List.getElem_range, shiftDown_apply]
    by_cases hki : k < i
    · rw [dif_pos hki, if_neg (by omega)]
    · rw [dif_neg hki, if_pos (by omega)]

/-- Shifting over the cell a scan found erases the first match. -/
theorem table_shiftDown_firstIndex {α : Type u} {a : Nat → α} {p : α → Bool} {n i : Nat}
    (h : firstIndex n (fun k => p (a k)) = some i) :
    table (shiftDown a i (n - 1)) (n - 1) = (table a n).eraseP p := by
  obtain ⟨hi, hp, hlt⟩ := firstIndex_eq_some_iff.mp h
  have hfind : (table a n).findIdx p = i := by
    rw [List.findIdx_eq (by rw [length_table]; exact hi)]
    simp only [table, List.getElem_map, List.getElem_range]
    exact ⟨hp, hlt⟩
  have hin : (table a n).findIdx p < (table a n).length := by
    rw [hfind, length_table]
    exact hi
  rw [table_shiftDown a hi, List.eraseP_eq_eraseIdx, ← hfind, List.findIdx?_eq_some_of_exists]
  exact List.findIdx_lt_length.mp hin

theorem eraseP_table_of_firstIndex {α : Type u} {a : Nat → α} {p : α → Bool} {n : Nat}
    (h : firstIndex n (fun k => p (a k)) = none) : (table a n).eraseP p = table a n := by
  refine List.eraseP_of_forall_not fun x hx => ?_
  obtain ⟨k, hk, rfl⟩ := mem_table.mp hx
  rw [firstIndex_eq_none_iff.mp h k hk]
  exact Bool.false_ne_true

/-! ## Deleting by key -/

/-- An element that is erased counts for itself. -/
theorem countP_eraseIdx_add {α : Type u} {p : α → Bool} {l : List α} {i : Nat} {x : α}
    (hx : l[i]? = some x) :
    (l.eraseIdx i).countP p + (if p x = true then 1 else 0) = l.countP p := by
  induction l generalizing i with
  | nil => cases hx
  | cons y l ih =>
    cases i with
    | zero =>
      obtain rfl : y = x := Option.some.inj hx
      rw [List.eraseIdx_cons_zero, List.countP_cons]
    | succ i =>
      have hrest := ih (i := i) hx
      rw [List.eraseIdx_cons_succ, List.countP_cons, List.countP_cons]
      omega

/-- Erasing the first match is filtering, where there is one match at most. -/
theorem eraseP_eq_filter_not {α : Type u} {p : α → Bool} {l : List α} (h : l.countP p ≤ 1) :
    l.eraseP p = l.filter fun x => !p x := by
  induction l with
  | nil => rfl
  | cons x l ih =>
    by_cases hx : p x = true
    · -- the head is the match, and no later element is
      rw [List.countP_cons_of_pos hx] at h
      have hnone : ∀ y ∈ l, ¬ p y = true := List.countP_eq_zero.mp (by omega)
      have hrest : l.filter (fun y => !p y) = l :=
        List.filter_eq_self.mpr fun y hy => by simpa using hnone y hy
      rw [List.eraseP_cons_of_pos hx, List.filter_cons, if_neg (by simp [hx]), hrest]
    · rw [List.countP_cons_of_neg hx] at h
      rw [List.eraseP_cons_of_neg hx, List.filter_cons, if_pos (by simp [hx]), ih h]

/-- Without repeated keys, one element at most has a given key. -/
theorem countP_key_le_one {α κ : Type u} [DecidableEq κ] (key : α → κ) (n : κ) {l : List α}
    (hnd : (l.map key).Nodup) : (l.countP fun x => key x == n) ≤ 1 := by
  have hcount := List.nodup_iff_count_le_one.mp hnd n
  rwa [List.count, List.countP_map] at hcount

/-- In a list without repeated keys, erasing the first match of a key is
filtering that key out. -/
theorem eraseP_eq_filter {α κ : Type u} [DecidableEq κ] (key : α → κ) (n : κ) {l : List α}
    (hnd : (l.map key).Nodup) : l.eraseP (fun x => key x == n) = l.filter fun x => key x ≠ n := by
  rw [eraseP_eq_filter_not (countP_key_le_one key n hnd)]
  refine List.filter_congr fun x _ => ?_
  by_cases h : key x = n
  · simp [h]
  · simp [h]

end Srunix.Library
