import Mathlib.Data.List.Basic
import Mathlib.Data.List.Nodup
import Mathlib.Logic.Function.Basic

/-!
# Tables under keys

A list of records, each with a key, read as the partial function from keys to
values that a search of the list computes. The list carries no order that the
function would see: as long as the keys are distinct, adding a record, taking
one away and changing the value of one are `Function.update` at its key.
-/

namespace Srunix.Library

universe u v w

variable {α : Type u} {β : Type v} {κ : Type w} [DecidableEq κ]

/-- What `l` has under `k`. -/
def lookup (key : α → κ) (val : α → β) (l : List α) (k : κ) : Option β :=
  (l.find? fun a => key a = k).map val

variable {key : α → κ} {val val' : α → β} {l : List α} {a : α} {b : β} {k : κ}

theorem lookup_eq_none_iff : lookup key val l k = none ↔ ∀ a ∈ l, key a ≠ k := by
  rw [lookup, Option.map_eq_none_iff, List.find?_eq_none]
  simp

omit [DecidableEq κ] in
/-- Two records under one key are one. -/
theorem eq_of_key (h : (l.map key).Nodup) {a' : α} (ha : a ∈ l) (ha' : a' ∈ l)
    (heq : key a = key a') : a = a' :=
  List.inj_on_of_nodup_map h ha ha' heq

/-- Where keys are different, the one element of that key. -/
theorem lookup_eq_some_iff (h : (l.map key).Nodup) :
    lookup key val l k = some b ↔ ∃ a ∈ l, key a = k ∧ val a = b := by
  rw [lookup, Option.map_eq_some_iff]
  constructor
  · rintro ⟨a, hfind, rfl⟩
    exact ⟨a, List.mem_of_find?_eq_some hfind, by simpa using List.find?_some hfind, rfl⟩
  · rintro ⟨a, ha, rfl, rfl⟩
    cases hfind : l.find? fun a' => key a' = key a with
    | none =>
      have hmiss := List.find?_eq_none.mp hfind a ha
      rw [decide_eq_true rfl] at hmiss
      exact absurd rfl hmiss
    | some a' =>
      have heq : key a' = key a := by simpa using List.find?_some hfind
      rw [eq_of_key h (List.mem_of_find?_eq_some hfind) ha heq]
      exact ⟨a, rfl, rfl⟩

theorem lookup_of_mem (h : (l.map key).Nodup) (ha : a ∈ l) :
    lookup key val l (key a) = some (val a) :=
  (lookup_eq_some_iff h).mpr ⟨a, ha, rfl, rfl⟩

/-- Only the values of the elements matter. -/
theorem lookup_congr (hval : ∀ a ∈ l, val' a = val a) : lookup key val' l = lookup key val l := by
  funext k
  rw [lookup, lookup]
  cases hfind : l.find? fun a => key a = k with
  | none => rfl
  | some a => exact congrArg some (hval a (List.mem_of_find?_eq_some hfind))

/-- **Adding** a record under a new key. -/
theorem lookup_snoc (hnew : ∀ b ∈ l, key b ≠ key a) :
    lookup key val (l ++ [a]) = Function.update (lookup key val l) (key a) (some (val a)) := by
  funext k
  by_cases hk : k = key a
  · subst hk
    have hnone : (l.find? fun b => key b = key a) = none :=
      List.find?_eq_none.mpr fun b hb => by simpa using hnew b hb
    rw [Function.update_self, lookup, List.find?_append, hnone]
    simp
  · rw [Function.update_of_ne hk, lookup, lookup, List.find?_append]
    have hother : ([a].find? fun b => key b = k) = none := by simpa using Ne.symm hk
    rw [hother, Option.or_none]

/-- **Taking a record away**. -/
theorem lookup_remove (h : (l.map key).Nodup) (ha : a ∈ l) {p : α → Bool}
    (hp : ∀ b ∈ l, p b = false ↔ b = a) :
    lookup key val (l.filter p) = Function.update (lookup key val l) (key a) none := by
  have hsub : ((l.filter p).map key).Nodup := h.sublist (List.filter_sublist.map key)
  funext k
  by_cases hk : k = key a
  · subst hk
    rw [Function.update_self, lookup_eq_none_iff]
    intro b hb heq
    obtain ⟨hmem, hkept⟩ := List.mem_filter.mp hb
    rw [(hp b hmem).mpr (eq_of_key h hmem ha heq)] at hkept
    cases hkept
  · rw [Function.update_of_ne hk]
    refine Option.ext fun c => ?_
    rw [lookup_eq_some_iff hsub, lookup_eq_some_iff h]
    constructor
    · rintro ⟨b, hb, hrest⟩
      exact ⟨b, (List.mem_filter.mp hb).1, hrest⟩
    · rintro ⟨b, hb, rfl, hval⟩
      refine ⟨b, List.mem_filter.mpr ⟨hb, ?_⟩, rfl, hval⟩
      have hne : p b ≠ false := fun hgone => hk (congrArg key ((hp b hb).mp hgone))
      simpa using hne

/-- **Changing the value** of one record. -/
theorem lookup_revalue (h : (l.map key).Nodup) (ha : a ∈ l)
    (hval : ∀ b ∈ l, b ≠ a → val' b = val b) :
    lookup key val' l = Function.update (lookup key val l) (key a) (some (val' a)) := by
  funext k
  by_cases hk : k = key a
  · subst hk
    rw [Function.update_self, lookup_of_mem h ha]
  · rw [Function.update_of_ne hk, lookup, lookup]
    cases hfind : l.find? fun b => key b = k with
    | none => rfl
    | some b =>
      have hkey : key b = k := by simpa using List.find?_some hfind
      refine congrArg some (hval b (List.mem_of_find?_eq_some hfind) ?_)
      rintro rfl
      exact hk hkey.symm

end Srunix.Library
