import Mathlib.Data.List.DropRight

/-!
# Text in rows

`wrap width nl text` is `text` in rows: a new one after every `nl` and after
every `width`-th character of a row, so that the last one always has room.

`shownAt` is what a screen shows of the last rows (`List.rtake`), and the last
rule of this file carries a relation between a machine that takes the text
character by character and the rows so far.
-/

namespace Srunix.Library

variable {α : Type*}

section Wrap

variable [DecidableEq α] (width : Nat) (nl : α)

/-- The rows of a text that begins in a row with `row` in it. -/
def wrapFrom (row : List α) : List α → List (List α)
  | [] => [row]
  | c :: text =>
    if c = nl then row :: wrapFrom [] text
    else if row.length + 1 = width then (row ++ [c]) :: wrapFrom [] text
    else wrapFrom (row ++ [c]) text

/-- The rows a text takes, broken at newlines and where a row is full. -/
def wrap (text : List α) : List (List α) := wrapFrom width nl [] text

/-- A full row, and the newline after it ends the empty one behind. -/
example : wrap 3 0 [1, 2, 3, 0, 4] = [[1, 2, 3], [], [4]] := by decide

end Wrap

/-! ## The last elements of a list -/

section Last

variable {n : Nat}

theorem length_rtake (l : List α) : (l.rtake n).length = min l.length n := by
  rw [List.rtake]
  rw [List.length_drop]
  omega

theorem rtake_concat (hn : 0 < n) (l : List α) (x : α) : (l ++ [x]).rtake n = l.rtake (n - 1) ++ [x] := by
  obtain ⟨m, rfl⟩ := Nat.exists_eq_succ_of_ne_zero hn.ne'
  exact List.rtake_concat_succ l m x

/-- The last `n` of the last `n` and one more. -/
theorem rtake_rtake_concat (l : List α) (x : α) : (l.rtake n ++ [x]).rtake n = (l ++ [x]).rtake n := by
  cases n with
  | zero => rw [List.rtake_zero, List.rtake_zero]
  | succ m =>
    have hinner : (l.rtake (m + 1)).rtake m = l.rtake m := by
      simp only [List.rtake_eq_reverse_take_reverse, List.reverse_reverse, List.take_take]
      rw [Nat.min_eq_left (Nat.le_succ m)]
    rw [List.rtake_concat_succ, List.rtake_concat_succ, hinner]

end Last

/-! ## The rows in sight -/

/-- The character in column `x` of the `y`-th of the last `height` rows; `blank`
where there is none. -/
def shownAt (height : Nat) (blank : α) (rows : List (List α)) (y x : Nat) : α :=
  ((rows.rtake height).getD y []).getD x blank

section Window

variable {height : Nat} {done : List (List α)} {row : List α}

theorem getLast?_rtake (hheight : 0 < height) : ((done ++ [row]).rtake height).getLast? = some row := by
  rw [rtake_concat hheight]
  exact List.getLast?_concat ..

/-- Where the last row is. -/
theorem index_last (hheight : 0 < height) :
    (done.rtake (height - 1)).length = ((done ++ [row]).rtake height).length - 1 := by
  rw [rtake_concat hheight, List.length_append, List.length_singleton, Nat.add_sub_cancel]

/-- One character more in the last row. -/
theorem shownAt_concat_char (hheight : 0 < height) (blank c : α) (y x : Nat) :
    shownAt height blank (done ++ [row ++ [c]]) y x =
      if y = ((done ++ [row]).rtake height).length - 1 ∧ x = row.length then c
      else shownAt height blank (done ++ [row]) y x := by
  unfold shownAt
  rw [← index_last hheight, rtake_concat hheight, rtake_concat hheight]
  generalize done.rtake (height - 1) = above
  rcases Nat.lt_trichotomy y above.length with hy | rfl | hy
  · -- above the last row
    rw [if_neg fun h => absurd h.1 (Nat.ne_of_lt hy)]
    simp only [List.getD_eq_getElem?_getD, List.getElem?_append_left hy]
  · have hlast : ∀ row : List α, (above ++ [row]).getD above.length [] = row := fun row => by simp
    rw [hlast, hlast]
    rcases Nat.lt_trichotomy x row.length with hx | rfl | hx
    · rw [if_neg fun h => absurd h.2 (Nat.ne_of_lt hx)]
      simp only [List.getD_eq_getElem?_getD, List.getElem?_append_left hx]
    · rw [if_pos ⟨rfl, rfl⟩]
      simp
    · rw [if_neg fun h => absurd h.2 (Nat.ne_of_gt hx)]
      simp only [List.getD_eq_getElem?_getD]
      rw [List.getElem?_eq_none (by simp; omega), List.getElem?_eq_none (by omega)]
  · -- below it there is nothing
    rw [if_neg fun h => absurd h.1 (Nat.ne_of_gt hy)]
    have hnone : ∀ row : List α, (above ++ [row]).getD y [] = [] := fun row => by
      rw [List.getD_eq_getElem?_getD, List.getElem?_eq_none (by simp; omega)]
      rfl
    rw [hnone, hnone]

/-- An empty row below the last one shows only if it pushes the first one out. -/
theorem shownAt_below (blank : α) (rows : List (List α)) {y : Nat} (hy : height ≤ y) (x : Nat) :
    shownAt height blank rows y x = blank := by
  have hlen : (rows.rtake height).length ≤ y := by
    rw [length_rtake]
    exact (Nat.min_le_right _ _).trans hy
  have hrow : (rows.rtake height).getD y [] = [] := by
    rw [List.getD_eq_getElem?_getD, List.getElem?_eq_none hlen]
    rfl
  rw [shownAt, hrow]
  rfl

/-- A new row, on a screen that is full or not. -/
theorem shownAt_concat_row (blank : α) (rows : List (List α)) (y x : Nat) :
    shownAt height blank (rows ++ [[]]) y x =
      if rows.length < height then shownAt height blank rows y x
      else shownAt height blank rows (y + 1) x := by
  have hnil : ∀ (l : List (List α)) (y : Nat), (l ++ [[]]).getD y [] = l.getD y [] := by
    intro l y
    simp only [List.getD_eq_getElem?_getD]
    rcases Nat.lt_trichotomy y l.length with hy | rfl | hy
    · rw [List.getElem?_append_left hy]
    · simp
    · rw [List.getElem?_eq_none (by simp; omega), List.getElem?_eq_none (by omega)]
  unfold shownAt List.rtake
  rw [List.length_append, List.length_singleton]
  split
  · rename_i hroom
    rw [Nat.sub_eq_zero_of_le (by omega), Nat.sub_eq_zero_of_le (by omega), List.drop_zero,
      List.drop_zero, hnil]
  · rename_i hfull
    rcases Nat.eq_zero_or_pos height with rfl | hheight
    · -- nothing is in sight
      rw [Nat.sub_zero, Nat.sub_zero, List.drop_of_length_le (by simp), List.drop_of_length_le (by simp)]
      rfl
    · have hdrop : rows.length + 1 - height ≤ rows.length := by omega
      have hindex : rows.length + 1 - height + y = rows.length - height + (y + 1) := by omega
      rw [List.drop_append_of_le_length hdrop, hnil]
      simp only [List.getD_eq_getElem?_getD, List.getElem?_drop]
      rw [hindex]

end Window

/-! ## Taking a text in -/

section Run

variable [DecidableEq α] {width : Nat} {nl : α} {σ : Type*} {step : σ → α → σ}
  {R : σ → List (List α) → List α → Prop} {ok : α → Prop}

/-- A relation between a machine and the rows it has taken in (those done with,
and the last one) that every character keeps, the whole text keeps. -/
theorem foldl_wrapFrom
    (hnl : ∀ s done row, R s done row → R (step s nl) (done ++ [row]) [])
    (hfull : ∀ s done row c, R s done row → ok c → c ≠ nl → row.length + 1 = width →
      R (step s c) (done ++ [row ++ [c]]) [])
    (htyped : ∀ s done row c, R s done row → ok c → c ≠ nl → row.length + 1 ≠ width →
      R (step s c) done (row ++ [c]))
    {text : List α} (htext : ∀ c ∈ text, ok c) {s : σ} {done : List (List α)} {row : List α}
    (h : R s done row) :
    ∃ done' row', done ++ wrapFrom width nl row text = done' ++ [row'] ∧
      R (text.foldl step s) done' row' := by
  induction text generalizing s done row with
  | nil => exact ⟨done, row, rfl, h⟩
  | cons c text ih =>
    have hc := htext c List.mem_cons_self
    have ih := fun s done row => @ih (fun b hb => htext b (List.mem_cons_of_mem c hb)) s done row
    rw [List.foldl_cons, wrapFrom]
    -- a break, a character that fills the row, or one that does not
    by_cases hbreak : c = nl
    · subst hbreak
      rw [if_pos rfl, List.append_cons]
      exact ih _ _ _ (hnl s done row h)
    rw [if_neg hbreak]
    by_cases hlast : row.length + 1 = width
    · rw [if_pos hlast, List.append_cons]
      exact ih _ _ _ (hfull s done row c h hc hbreak hlast)
    · rw [if_neg hlast]
      exact ih _ _ _ (htyped s done row c h hc hbreak hlast)

end Run

end Srunix.Library
