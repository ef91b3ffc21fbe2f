import Mathlib.Algebra.Order.Group.Nat
import Mathlib.Data.List.TakeWhile

/-!
# Decimal numerals

A numeral is a string of ASCII digits that is not empty; `numeralValue` is the
number it stands for. A canonical one has no zero in front, except that `0` is
a zero. `digitRun` is what a reader that stops at the first other byte reads.
-/

namespace Srunix.Library

/-- A decimal digit, in ASCII. -/
def IsDigit (c : UInt8) : Prop := 0x30 ≤ c ∧ c ≤ 0x39

instance (c : UInt8) : Decidable (IsDigit c) := inferInstanceAs (Decidable (_ ∧ _))

/-- One digit or more, and nothing else. -/
structure IsNumeral (text : List UInt8) : Prop where
  nonempty : text ≠ []
  digits : ∀ c ∈ text, IsDigit c

/-- The one numeral of a number that has no zero in front. -/
structure IsCanonical (text : List UInt8) : Prop extends IsNumeral text where
  noLeadingZero : ∀ rest, text = 0x30 :: rest → rest = []

/-- What a digit counts. -/
def digitValue (c : UInt8) : Nat := c.toNat - 48

/-- The number the digits stand for, the first being worth most. -/
def numeralValue (text : List UInt8) : Nat := text.foldl (fun v c => 10 * v + digitValue c) 0

/-- The digits in front. -/
def digitRun (text : List UInt8) : List UInt8 := text.takeWhile fun c => decide (IsDigit c)

theorem numeralValue_append_singleton (text : List UInt8) (c : UInt8) :
    numeralValue (text ++ [c]) = 10 * numeralValue text + digitValue c := by
  rw [numeralValue, List.foldl_append]
  rfl

/-- The digits `d < 10` of a number, the last one first. -/
theorem numeralValue_reverse_digits {ds : List Nat} (h : ∀ d ∈ ds, d < 10) :
    numeralValue (ds.map fun d => UInt8.ofNat (48 + d)).reverse = ds.foldr (fun d v => d + 10 * v) 0 := by
  induction ds with
  | nil => rfl
  | cons d ds ih =>
    have hd := h d List.mem_cons_self
    have hvalue : digitValue (UInt8.ofNat (48 + d)) = d := by
      rw [digitValue, UInt8.toNat_ofNat', Nat.mod_eq_of_lt (by omega)]
      omega
    rw [List.map_cons, List.reverse_cons, numeralValue_append_singleton,
      ih fun d' hd' => h d' (List.mem_cons_of_mem d hd'), hvalue, List.foldr_cons, Nat.add_comm]

theorem isDigit_ofNat {d : Nat} (h : d < 10) : IsDigit (UInt8.ofNat (48 + d)) := by
  have hvalue : (UInt8.ofNat (48 + d)).toNat = 48 + d := by
    rw [UInt8.toNat_ofNat', Nat.mod_eq_of_lt (by omega)]
  rw [IsDigit, UInt8.le_iff_toNat_le, UInt8.le_iff_toNat_le, hvalue]
  show 48 ≤ 48 + d ∧ 48 + d ≤ 57
  omega

theorem digitRun_cons_of_digit {c : UInt8} (h : IsDigit c) (text : List UInt8) :
    digitRun (c :: text) = c :: digitRun text :=
  List.takeWhile_cons_of_pos (decide_eq_true h)

theorem digitRun_cons_of_not {c : UInt8} (h : ¬ IsDigit c) (text : List UInt8) :
    digitRun (c :: text) = [] :=
  List.takeWhile_cons_of_neg (by simpa using h)

/-- A numeral is all digits in front. -/
theorem IsNumeral.digitRun_eq {text : List UInt8} (h : IsNumeral text) : digitRun text = text :=
  List.takeWhile_eq_self_iff.mpr fun c hc => decide_eq_true (h.digits c hc)

end Srunix.Library
