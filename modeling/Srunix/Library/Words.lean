import Mathlib.Data.List.Basic
import Mathlib.Data.List.Chain
import Mathlib.Data.List.TakeWhile

/-!
# Words on a line

Cutting a line at a separator, the way a command line is read: runs of the
separator count as one, and at most `n` words are taken. `cut_intercalate` says
that cutting finds the words of a line that has one separator between any two,
`cutAt_fst` and `eq_run_of_mem_cutAt` that in any line it finds the runs of other
elements, in order. Nothing here depends on the alphabet.
-/

namespace Srunix.Library

universe u v

variable {α : Type u} {β : Type v}

variable {sep : α}

/-- A separator for each word but the first. -/
theorem length_intercalate (ws : List (List α)) :
    ([sep].intercalate ws).length = ws.flatten.length + (ws.length - 1) := by
  induction ws with
  | nil => rfl
  | cons w ws ih =>
    cases ws with
    | nil => simp
    | cons w' ws =>
      rw [List.intercalate_cons_cons, List.length_append, List.length_append, ih]
      simp only [List.flatten_cons, List.length_append, List.length_cons, List.length_nil]
      omega

theorem length_flatten_le {ws ws' : List (List α)} (h : ws.Sublist ws') :
    ws.flatten.length ≤ ws'.flatten.length := by
  induction h with
  | slnil => exact Nat.le_refl _
  | cons w _ ih =>
    rw [List.flatten_cons, List.length_append]
    exact ih.trans (Nat.le_add_left _ _)
  | cons_cons w _ ih =>
    rw [List.flatten_cons, List.flatten_cons, List.length_append, List.length_append]
    exact Nat.add_le_add_left ih _

theorem map_intercalate (f : α → β) (ws : List (List α)) :
    ([sep].intercalate ws).map f = [f sep].intercalate (ws.map (List.map f)) := by
  induction ws with
  | nil => rfl
  | cons w ws ih =>
    cases ws with
    | nil => simp
    | cons w' ws =>
      rw [List.intercalate_cons_cons, List.map_append, List.map_append, ih]
      exact List.intercalate_cons_cons.symm

/-- Words run together are the words with separators only if there is nothing to
separate. -/
theorem flatten_eq_intercalate_iff (ws : List (List α)) :
    ws.flatten = [sep].intercalate ws ↔ ws.length ≤ 1 := by
  constructor
  · intro h
    have hlen := @length_intercalate α sep ws
    rw [← h] at hlen
    omega
  · intro h
    match ws, h with
    | [], _ => rfl
    | [w], _ => simp

theorem drop_behind (x y z : List α) (k : Nat) :
    (x ++ (y ++ z)).drop (x.length + y.length + k) = z.drop k := by
  rw [← List.append_assoc, ← List.length_append, List.drop_length_add_append]

variable [DecidableEq α]

/-- At most `n` words of a line. -/
def cut (sep : α) : Nat → List α → List (List α)
  | 0, _ => []
  | n + 1, line =>
    match line.dropWhile (· = sep) with
    | [] => []
    | c :: rest =>
      (c :: rest).takeWhile (· ≠ sep) :: cut sep n (((c :: rest).dropWhile (· ≠ sep)).drop 1)

theorem mem_of_mem_cut {n : Nat} {line w : List α} {x : α} (hw : w ∈ cut sep n line) (hx : x ∈ w) :
    x ∈ line := by
  induction n generalizing line with
  | zero => cases hw
  | succ n ih =>
    have hsub : ∀ {y}, y ∈ line.dropWhile (· = sep) → y ∈ line := fun hy =>
      (List.dropWhile_sublist _).subset hy
    unfold cut at hw
    cases hrest : line.dropWhile (· = sep) with
    | nil =>
      rw [hrest] at hw
      cases hw
    | cons c rest =>
      rw [hrest] at hw hsub
      rcases List.mem_cons.mp hw with rfl | hlater
      · exact hsub ((List.takeWhile_sublist _).subset hx)
      · exact hsub ((List.dropWhile_sublist _).subset (List.mem_of_mem_drop (ih hlater)))

/-- Something without a separator in it. -/
structure IsWord (sep : α) (w : List α) : Prop where
  nonempty : w ≠ []
  clear : sep ∉ w

theorem IsWord.takeWhile {w : List α} (h : IsWord sep w) (rest : List α) :
    (w ++ sep :: rest).takeWhile (· ≠ sep) = w ∧
      (w ++ sep :: rest).dropWhile (· ≠ sep) = sep :: rest := by
  have hpass : ∀ x ∈ w, decide (x ≠ sep) = true := fun x hx =>
    decide_eq_true fun heq => h.clear (heq ▸ hx)
  constructor
  · rw [List.takeWhile_append_of_pos hpass, List.takeWhile_cons_of_neg (by simp), List.append_nil]
  · rw [List.dropWhile_append_of_pos hpass, List.dropWhile_cons_of_neg (by simp)]

/-- Cutting off a word that stands in front. -/
theorem cut_word {w : List α} (h : IsWord sep w) (n : Nat) : cut sep (n + 1) w = [w] := by
  obtain ⟨c, rest, rfl⟩ := List.exists_cons_of_ne_nil h.nonempty
  have hpass : ∀ x ∈ c :: rest, decide (x ≠ sep) = true := fun x hx =>
    decide_eq_true fun heq => h.clear (heq ▸ hx)
  have hc : c ≠ sep := of_decide_eq_true (hpass c List.mem_cons_self)
  have hnone : cut sep n [] = [] := by
    cases n with
    | zero => rfl
    | succ n => rfl
  unfold cut
  rw [List.dropWhile_cons_of_neg (by simpa using hc)]
  dsimp only
  rw [List.takeWhile_eq_self_iff.mpr hpass, List.dropWhile_eq_nil_iff.mpr hpass, List.drop_nil, hnone]

/-- The first word, and the words of the rest. -/
theorem cut_word_append {w : List α} (h : IsWord sep w) (n : Nat) (rest : List α) :
    cut sep (n + 1) (w ++ sep :: rest) = w :: cut sep n rest := by
  obtain ⟨htake, hdrop⟩ := h.takeWhile rest
  obtain ⟨c, tail, rfl⟩ := List.exists_cons_of_ne_nil h.nonempty
  have hc : c ≠ sep := fun heq => h.clear (heq ▸ List.mem_cons_self)
  rw [cut, List.cons_append, List.dropWhile_cons_of_neg (by simpa using hc)]
  dsimp only
  rw [← List.cons_append, htake, hdrop]
  rfl

/-- **Cutting finds the words again**, the first `n` of them. -/
theorem cut_intercalate {ws : List (List α)} (h : ∀ w ∈ ws, IsWord sep w) (n : Nat) :
    cut sep n ([sep].intercalate ws) = ws.take n := by
  induction ws generalizing n with
  | nil =>
    cases n with
    | zero => rfl
    | succ n => rfl
  | cons w ws ih =>
    have hw := h w List.mem_cons_self
    have hws : ∀ w' ∈ ws, IsWord sep w' := fun w' hw' => h w' (List.mem_cons_of_mem w hw')
    cases n with
    | zero => rfl
    | succ n =>
      cases ws with
      | nil =>
        rw [List.intercalate_singleton, cut_word hw, List.take_succ_cons, List.take_nil]
      | cons w' ws =>
        rw [List.intercalate_cons_cons, List.append_assoc, List.singleton_append,
          cut_word_append hw, ih hws, List.take_succ_cons]

/-! ## Where the words are -/

/-- Where the runs of elements other than `sep` begin; `fresh` says that none has
begun before `pos`. -/
def runStarts (sep : α) (fresh : Bool) (pos : Nat) : List α → List Nat
  | [] => []
  | c :: line =>
    if c = sep then runStarts sep true (pos + 1) line
    else if fresh then pos :: runStarts sep false (pos + 1) line
    else runStarts sep false (pos + 1) line

/-- `cut`, with the place of each word in the line, which begins at `pos`. -/
def cutAt (sep : α) : Nat → Nat → List α → List (Nat × List α)
  | 0, _, _ => []
  | n + 1, pos, line =>
    match line.dropWhile (· = sep) with
    | [] => []
    | c :: rest =>
      (pos + (line.takeWhile (· = sep)).length, (c :: rest).takeWhile (· ≠ sep)) ::
        cutAt sep n (pos + (line.takeWhile (· = sep)).length + ((c :: rest).takeWhile (· ≠ sep)).length + 1)
          (((c :: rest).dropWhile (· ≠ sep)).drop 1)

example : runStarts 0 true 0 [0, 1, 2, 0, 0, 3] = [1, 5] ∧
    cutAt 0 9 0 [0, 1, 2, 0, 0, 3] = [(1, [1, 2]), (5, [3])] := by decide

/-- A line with a word in it: separators, the word, and what is behind. -/
theorem cutAt_succ_of_cons {line rest : List α} {c : α} (h : line.dropWhile (· = sep) = c :: rest)
    (n pos : Nat) : cutAt sep (n + 1) pos line =
      (pos + (line.takeWhile (· = sep)).length, (c :: rest).takeWhile (· ≠ sep)) ::
        cutAt sep n (pos + (line.takeWhile (· = sep)).length + ((c :: rest).takeWhile (· ≠ sep)).length + 1)
          (((c :: rest).dropWhile (· ≠ sep)).drop 1) := by
  rw [cutAt, h]

theorem cutAt_of_nil {line : List α} (h : line.dropWhile (· = sep) = []) (n pos : Nat) :
    cutAt sep n pos line = [] := by
  cases n with
  | zero => rfl
  | succ n => rw [cutAt, h]

theorem cutAt_snd (n pos : Nat) (line : List α) : (cutAt sep n pos line).map Prod.snd = cut sep n line := by
  induction n generalizing pos line with
  | zero => rfl
  | succ n ih =>
    rw [cut]
    cases h : line.dropWhile (· = sep) with
    | nil => rw [cutAt_of_nil h]; rfl
    | cons c rest => rw [cutAt_succ_of_cons h, List.map_cons, ih]

/-- Only the separators matter. -/
theorem runStarts_map {f : α → α} (hf : ∀ c, f c = sep ↔ c = sep) (fresh : Bool) (pos : Nat)
    (line : List α) : runStarts sep fresh pos (line.map f) = runStarts sep fresh pos line := by
  induction line generalizing fresh pos with
  | nil => rfl
  | cons c line ih => simp only [List.map_cons, runStarts, hf, ih]

/-- Skipping separators. -/
theorem runStarts_dropWhile (pos : Nat) (line : List α) :
    runStarts sep true pos line =
      runStarts sep true (pos + (line.takeWhile (· = sep)).length) (line.dropWhile (· = sep)) := by
  induction line generalizing pos with
  | nil => rfl
  | cons c line ih =>
    by_cases hc : c = sep
    · subst hc
      rw [runStarts, if_pos rfl, ih, List.takeWhile_cons_of_pos (by simp), List.dropWhile_cons_of_pos (by simp),
        List.length_cons, Nat.add_right_comm]
      rfl
    · rw [List.takeWhile_cons_of_neg (by simpa using hc), List.dropWhile_cons_of_neg (by simpa using hc)]
      rfl

/-- Going on to the end of a run, and over the separator behind it. -/
theorem runStarts_of_run (pos : Nat) (line : List α) :
    runStarts sep false pos line =
      runStarts sep true (pos + (line.takeWhile (· ≠ sep)).length + 1) ((line.dropWhile (· ≠ sep)).drop 1) := by
  induction line generalizing pos with
  | nil => rfl
  | cons c line ih =>
    by_cases hc : c = sep
    · subst hc
      rw [runStarts, if_pos rfl, List.takeWhile_cons_of_neg (by simp), List.dropWhile_cons_of_neg (by simp)]
      rfl
    · rw [runStarts, if_neg hc, if_neg Bool.false_ne_true, ih,
        List.takeWhile_cons_of_pos (by simpa using hc), List.dropWhile_cons_of_pos (by simpa using hc),
        List.length_cons, Nat.add_right_comm pos 1]
      rfl

/-- **The words are where the runs begin.** -/
theorem cutAt_fst (n pos : Nat) (line : List α) :
    (cutAt sep n pos line).map Prod.fst = (runStarts sep true pos line).take n := by
  induction n generalizing pos line with
  | zero => rfl
  | succ n ih =>
    rw [runStarts_dropWhile]
    cases h : line.dropWhile (· = sep) with
    | nil => rw [cutAt_of_nil h]; rfl
    | cons c rest =>
      have hc : c ≠ sep := fun heq => by
        have hhead := List.head_dropWhile_not (fun x => decide (x = sep)) (h ▸ List.cons_ne_nil c rest)
        simp [h, heq] at hhead
      have hrun : runStarts sep false (pos + (line.takeWhile (· = sep)).length) (c :: rest)
          = runStarts sep false (pos + (line.takeWhile (· = sep)).length + 1) rest := by
        rw [runStarts, if_neg hc, if_neg Bool.false_ne_true]
      rw [cutAt_succ_of_cons h, List.map_cons, ih, runStarts, if_neg hc, if_pos rfl, ← hrun,
        runStarts_of_run, List.take_succ_cons]

/-- **The words are the runs**: each ends at a separator or with the line. -/
theorem eq_run_of_mem_cutAt {n pos a : Nat} {line w : List α} (h : (a, w) ∈ cutAt sep n pos line) :
    pos ≤ a ∧ a + w.length ≤ pos + line.length ∧ w = (line.drop (a - pos)).takeWhile (· ≠ sep) := by
  induction n generalizing pos line with
  | zero => cases h
  | succ n ih =>
    have hsplit := List.takeWhile_append_dropWhile (p := fun x => decide (x = sep)) (l := line)
    cases hrest : line.dropWhile (· = sep) with
    | nil =>
      rw [cutAt_of_nil hrest] at h
      cases h
    | cons c rest =>
      rw [cutAt_succ_of_cons hrest] at h
      rw [hrest] at hsplit
      generalize line.takeWhile (· = sep) = blanks at h hsplit
      generalize c :: rest = tail at h hsplit
      subst hsplit
      have hword := List.takeWhile_append_dropWhile (p := fun x => decide (x ≠ sep)) (l := tail)
      have hlen := congrArg List.length hword
      rw [List.length_append] at hlen
      rw [List.length_append]
      rcases List.mem_cons.mp h with heq | hlater
      · obtain ⟨rfl, rfl⟩ := Prod.mk.inj heq
        rw [Nat.add_sub_cancel_left, List.drop_left]
        exact ⟨Nat.le_add_right _ _, by omega, rfl⟩
      · obtain ⟨hle, hend, hrun⟩ := ih hlater
        rw [List.length_drop] at hend
        have hpos : 1 ≤ (tail.dropWhile (· ≠ sep)).length := by
          refine Nat.one_le_iff_ne_zero.mpr fun hnone => ?_
          rw [List.eq_nil_of_length_eq_zero hnone, cutAt_of_nil rfl] at hlater
          cases hlater
        refine ⟨by omega, by omega, hrun.trans ?_⟩
        -- the rest of the line, counted from its beginning
        have hplace : a - pos = blanks.length + (tail.takeWhile (· ≠ sep)).length
            + (1 + (a - (pos + blanks.length + (tail.takeWhile (· ≠ sep)).length + 1))) := by omega
        have hbehind := drop_behind blanks (tail.takeWhile (· ≠ sep)) (tail.dropWhile (· ≠ sep))
          (1 + (a - (pos + blanks.length + (tail.takeWhile (· ≠ sep)).length + 1)))
        rw [hword, ← hplace] at hbehind
        rw [List.drop_drop, hbehind]

/-! ## Fields -/

/-- Where the fields begin: a separator ends a field also where there is nothing in
it. What is behind the last separator is a field if there is something. -/
def fieldStarts (sep : α) (fresh : Bool) (pos : Nat) : List α → List Nat
  | [] => []
  | c :: line =>
    if fresh then pos :: fieldStarts sep (c = sep) (pos + 1) line
    else fieldStarts sep (c = sep) (pos + 1) line

example : fieldStarts 0 true 0 [0, 1, 2, 0, 0, 3] = [0, 1, 4, 5] := by decide

/-- No field is empty: no separator is in front (unless a field is under way), and
none stands behind another. -/
structure NoEmptyField (sep : α) (fresh : Bool) (line : List α) : Prop where
  front : fresh = true → line.head? ≠ some sep
  between : line.IsChain fun b c => ¬ (b = sep ∧ c = sep)

theorem noEmptyField_cons {fresh : Bool} {c : α} {line : List α} :
    NoEmptyField sep fresh (c :: line) ↔
      (fresh = true → c ≠ sep) ∧ NoEmptyField sep (decide (c = sep)) line := by
  constructor
  · rintro ⟨hfront, hbetween⟩
    refine ⟨fun hfresh hc => hfront hfresh (congrArg some hc), fun hc hhead => ?_, hbetween.tail⟩
    exact hbetween.rel_head? hhead ⟨of_decide_eq_true hc, rfl⟩
  · rintro ⟨hfront, hrest⟩
    refine ⟨fun hfresh hhead => hfront hfresh (Option.some.inj hhead), hrest.between.cons fun b hb hsep => ?_⟩
    exact hrest.front (decide_eq_true hsep.1) (hb.trans (congrArg some hsep.2))

/-- A run starts within the line. -/
theorem mem_runStarts_bounds {fresh : Bool} {pos a : Nat} {line : List α}
    (h : a ∈ runStarts sep fresh pos line) : pos ≤ a ∧ a < pos + line.length := by
  induction line generalizing fresh pos with
  | nil => cases h
  | cons c line ih =>
    have hrest : ∀ {fresh}, a ∈ runStarts sep fresh (pos + 1) line → pos ≤ a ∧ a < pos + (line.length + 1) := by
      intro fresh h
      obtain ⟨hle, hlt⟩ := ih h
      omega
    rw [runStarts] at h
    rw [List.length_cons]
    split_ifs at h
    · exact hrest h
    · rcases List.mem_cons.mp h with rfl | h
      · omega
      · exact hrest h
    · exact hrest h

/-- The fields are the words just if none of them is empty. -/
theorem fieldStarts_eq_runStarts_iff {fresh : Bool} {pos : Nat} {line : List α} :
    fieldStarts sep fresh pos line = runStarts sep fresh pos line ↔ NoEmptyField sep fresh line := by
  induction line generalizing fresh pos with
  | nil => exact iff_of_true rfl ⟨fun _ => (Option.some_ne_none sep).symm, .nil⟩
  | cons c line ih =>
    rw [fieldStarts, runStarts, noEmptyField_cons]
    cases fresh with
    | true =>
      by_cases hc : c = sep
      · rw [if_pos rfl, if_pos hc]
        -- an empty field begins where no run does
        refine iff_of_false (fun heq => ?_) fun h => h.1 rfl hc
        exact Nat.not_succ_le_self pos (mem_runStarts_bounds (heq ▸ List.mem_cons_self)).1
      · rw [if_pos rfl, if_neg hc, if_pos rfl, decide_eq_false hc, List.cons_inj_right, ih]
        exact (and_iff_right fun _ => hc).symm
    | false =>
      rw [if_neg Bool.false_ne_true, if_neg Bool.false_ne_true,
        and_iff_right fun h => absurd h Bool.false_ne_true]
      by_cases hc : c = sep
      · rw [if_pos hc, decide_eq_true hc, ih]
      · rw [if_neg hc, decide_eq_false hc, ih]

/-- Without a separator no other field starts. -/
theorem fieldStarts_of_clear {word : List α} (hclear : sep ∉ word) (pos : Nat) :
    fieldStarts sep false pos word = [] := by
  induction word generalizing pos with
  | nil => rfl
  | cons c word ih =>
    have hc : c ≠ sep := fun heq => hclear (heq ▸ List.mem_cons_self)
    rw [fieldStarts, if_neg Bool.false_ne_true, decide_eq_false hc,
      ih (List.not_mem_of_not_mem_cons hclear)]

/-- Going on to the end of a field, and over the separator behind it. -/
theorem fieldStarts_of_field {word : List α} (hclear : sep ∉ word) (pos : Nat) (rest : List α) :
    fieldStarts sep false pos (word ++ sep :: rest) =
      fieldStarts sep true (pos + word.length + 1) rest := by
  induction word generalizing pos with
  | nil => rw [List.nil_append, fieldStarts, if_neg Bool.false_ne_true, decide_eq_true rfl]; rfl
  | cons c word ih =>
    have hc : c ≠ sep := fun heq => hclear (heq ▸ List.mem_cons_self)
    rw [List.cons_append, fieldStarts, if_neg Bool.false_ne_true, decide_eq_false hc,
      ih (List.not_mem_of_not_mem_cons hclear), List.length_cons, Nat.add_right_comm pos 1]
    rfl

theorem fieldStarts_fresh {line : List α} (hne : line ≠ []) (pos : Nat) :
    fieldStarts sep true pos line = pos :: fieldStarts sep false pos line := by
  obtain ⟨c, line, rfl⟩ := List.exists_cons_of_ne_nil hne
  rfl

/-- Put together again with one separator between any two, the words are no longer
than the line. -/
theorem length_intercalate_cut_le (n : Nat) (line : List α) :
    ([sep].intercalate (cut sep n line)).length ≤ line.length := by
  induction n generalizing line with
  | zero => exact Nat.zero_le _
  | succ n ih =>
    rw [cut]
    have hle := (List.dropWhile_sublist (fun x => decide (x = sep)) (l := line)).length_le
    cases hrest : line.dropWhile (· = sep) with
    | nil => exact Nat.zero_le _
    | cons c rest =>
      rw [hrest] at hle
      refine Nat.le_trans ?_ hle
      dsimp only
      generalize c :: rest = tail
      have hword := congrArg List.length
        (List.takeWhile_append_dropWhile (p := fun x => decide (x ≠ sep)) (l := tail))
      have hmore := ih ((tail.dropWhile (· ≠ sep)).drop 1)
      rw [List.length_append] at hword
      rw [List.length_drop] at hmore
      cases hcut : cut sep n ((tail.dropWhile (· ≠ sep)).drop 1) with
      | nil =>
        rw [List.intercalate_singleton]
        omega
      | cons w ws =>
        -- another word needs a separator in front
        have hpos : 1 ≤ (tail.dropWhile (· ≠ sep)).length := by
          refine Nat.one_le_iff_ne_zero.mpr fun hnone => ?_
          rw [List.eq_nil_of_length_eq_zero hnone, ← cutAt_snd n 0, cutAt_of_nil rfl] at hcut
          cases hcut
        rw [hcut] at hmore
        rw [List.intercalate_cons_cons, List.length_append, List.length_append, List.length_singleton]
        omega

end Srunix.Library
