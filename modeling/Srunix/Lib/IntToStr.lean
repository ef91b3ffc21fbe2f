import Srunix.Library.Decimal
import Srunix.Lib.Printf
import Srunix.Lib.Strings

/-!
# `int_to_str`, in place (`lib/prdio.h`)

The digits are stored the last one first, then the sign, then the NUL, and then
the string is reversed where it stands. `intToStr` is what is left in the end
(`intToStrAt_eq`), and it is the decimal numeral of every `int` but the least
(`prints_decimal_iff`), whose negation is itself.
-/

namespace Srunix

open Library

/-- The rounds a loop of `int_to_str` gets; one that needs more is `none`. -/
abbrev intToStrRounds : Nat := 11

/-- `while (num != 0)`, storing at `str[i]`. -/
def digitLoop (mem : Memory) (str : Ptr) (i : Nat) (num : Int) : Nat → Option (Memory × Nat)
  | 0 => none
  | fuel + 1 =>
    if num ≠ 0 then do
      let mem ← store mem (str.add i) (UInt8.ofInt (num.tmod 10 + 48))
      digitLoop mem str (i + 1) (num.tdiv 10) fuel
    else some (mem, i)

/-- `while (start < end)` -/
def reverseLoop (mem : Memory) (str : Ptr) (start stop : Nat) : Nat → Option Memory
  | 0 => none
  | fuel + 1 =>
    if start < stop then do
      let tmp ← load mem (str.add start)
      let last ← load mem (str.add stop)
      let mem ← store mem (str.add start) last
      let mem ← store mem (str.add stop) tmp
      reverseLoop mem str (start + 1) (stop - 1) fuel
    else some mem

/-- `int_to_str` at the level of memory: the digits from the last to the first, the
sign, the NUL, and the loop that turns them round. -/
def intToStrAt (mem : Memory) (num : Int) (str : Ptr) : Option Memory := do
  let negative := decide (num < 0)
  let (mem, i) ←
    -- `num = -num` wraps
    if num < 0 then digitLoop mem str 0 ((-num).bmod (2 ^ 32)) intToStrRounds
    else if num = 0 then do
      let mem ← store mem (str.add 0) 0x30
      digitLoop mem str 1 num intToStrRounds
    else digitLoop mem str 0 num intToStrRounds
  let (mem, i) ←
    if negative then do
      let mem ← store mem (str.add i) 0x2D
      pure (mem, i + 1)
    else pure (mem, i)
  let mem ← store mem (str.add i) 0
  -- something has been stored, so `i - 1` is an index
  reverseLoop mem str 0 (i - 1) intToStrRounds

/-! ## The loops -/

section Bytes

variable {mem : Memory} {str : Ptr} {front back : List UInt8} {b : UInt8}
  (hroom : str.addr + (front ++ b :: back).length ≤ str.limit)

include hroom

/-- A byte in the middle of what was written. -/
theorem load_putBytes :
    load (putBytes mem str.addr (front ++ b :: back)) (str.add front.length) = some b := by
  rw [List.length_append, List.length_cons] at hroom
  rw [load_of_lt (show str.addr + front.length < str.limit by omega), Ptr.add_addr, putBytes_add]
  simp

/-- A store in the middle of what was written. -/
theorem store_putBytes_middle (c : UInt8) :
    store (putBytes mem str.addr (front ++ b :: back)) (str.add front.length) c =
      some (putBytes mem str.addr (front ++ c :: back)) := by
  rw [List.length_append, List.length_cons] at hroom
  rw [store_of_lt (show str.addr + front.length < str.limit by omega)]
  exact congrArg some (update_putBytes_middle mem str.addr front b c back)

end Bytes

/-- One byte more behind those stored. -/
theorem store_putBytes {mem : Memory} {str : Ptr} {l : List UInt8} (c : UInt8)
    (hroom : str.addr + l.length < str.limit) :
    store (putBytes mem str.addr l) (str.add l.length) c = some (putBytes mem str.addr (l ++ [c])) := by
  rw [store_of_lt hroom]
  exact congrArg some (update_putBytes mem str.addr l c)

/-- The loop appends the digits, the last one first. -/
theorem digitLoop_eq {mem : Memory} {str : Ptr} {l : List UInt8} {num : Int} {fuel : Nat}
    (hnum : num.natAbs < 10 ^ fuel)
    (hroom : str.addr + l.length + (intDigits fuel num).length < str.limit) :
    digitLoop (putBytes mem str.addr l) str l.length num (fuel + 1) =
      some (putBytes mem str.addr (l ++ intDigits fuel num), (l ++ intDigits fuel num).length) := by
  induction fuel generalizing l num with
  | zero =>
    obtain rfl : num = 0 := by simpa using hnum
    rw [intDigits, List.append_nil]
    rfl
  | succ fuel ih =>
    by_cases hzero : num = 0
    · subst hzero
      rw [digitLoop, if_neg (not_not.mpr rfl), intDigits, if_pos rfl, List.append_nil]
    · rw [intDigits, if_neg hzero] at hroom ⊢
      rw [List.length_cons] at hroom
      -- one digit less each round, so the fuel is the number of digits
      have hquot : (num.tdiv 10).natAbs < 10 ^ fuel := by
        have habs : (num.tdiv 10).natAbs = num.natAbs / 10 := Int.natAbs_tdiv num 10
        rw [Nat.pow_succ] at hnum
        omega
      rw [digitLoop, if_pos hzero, store_putBytes _ (by omega)]
      have hlen : (l ++ [UInt8.ofInt (num.tmod 10 + 48)]).length = l.length + 1 :=
        List.length_append
      show digitLoop (putBytes mem str.addr (l ++ [_])) str (l.length + 1) _ (fuel + 1) = _
      rw [← hlen, ih hquot (by rw [hlen]; omega), List.append_assoc]
      rfl

/-- The digits of a number, in a string that is empty so far. -/
theorem digitLoop_start {mem : Memory} {str : Ptr} {num : Int} (hnum : num.natAbs < 10 ^ 10)
    (hroom : str.addr + (intDigits 10 num).length < str.limit) :
    digitLoop mem str 0 num intToStrRounds =
      some (putBytes mem str.addr (intDigits 10 num), (intDigits 10 num).length) := by
  have hloop := @digitLoop_eq mem str [] num 10 hnum hroom
  rw [putBytes_nil, List.nil_append] at hloop
  exact hloop

/-- One round: the two ends change places. -/
theorem reverseLoop_round {mem : Memory} {str : Ptr} {front mid back : List UInt8} {b c : UInt8} {fuel : Nat}
    (hroom : str.addr + (front ++ b :: (mid ++ c :: back)).length ≤ str.limit) :
    reverseLoop (putBytes mem str.addr (front ++ b :: (mid ++ c :: back))) str front.length
      (front.length + mid.length + 1) (fuel + 1) =
    reverseLoop (putBytes mem str.addr ((front ++ [c]) ++ (mid ++ b :: back))) str (front.length + 1)
      (front.length + mid.length) fuel := by
  -- the two ends of what is not reversed yet, before and after the first store
  have hfirst : front ++ b :: (mid ++ c :: back) = (front ++ b :: mid) ++ c :: back := by simp
  have hsecond : front ++ c :: (mid ++ c :: back) = (front ++ c :: mid) ++ c :: back := by simp
  have hstop : ∀ x : UInt8, front.length + mid.length + 1 = (front ++ x :: mid).length := fun x => by
    rw [List.length_append, List.length_cons, Nat.add_assoc]
  have hroom' : str.addr + (front ++ c :: (mid ++ c :: back)).length ≤ str.limit := by simpa using hroom
  have hlast : load (putBytes mem str.addr (front ++ b :: (mid ++ c :: back)))
      (str.add (front.length + mid.length + 1)) = some c := by
    rw [hstop b, hfirst]
    exact load_putBytes (hfirst ▸ hroom)
  have hswap : store (putBytes mem str.addr (front ++ c :: (mid ++ c :: back)))
      (str.add (front.length + mid.length + 1)) b =
        some (putBytes mem str.addr ((front ++ [c]) ++ (mid ++ b :: back))) := by
    rw [hstop c, hsecond, store_putBytes_middle (hsecond ▸ hroom')]
    simp
  rw [reverseLoop, if_pos (by omega), load_putBytes hroom, hlast]
  dsimp only [Option.bind_eq_bind, Option.bind_some]
  rw [store_putBytes_middle hroom, Option.bind_some, hswap]
  rfl

/-- The ends are swapped, then what is between them. -/
theorem reverseLoop_eq {mem : Memory} {str : Ptr} (mid : List UInt8) {front back : List UInt8}
    {fuel : Nat} (hfuel : mid.length < 2 * fuel)
    (hroom : str.addr + (front ++ (mid ++ back)).length ≤ str.limit) :
    reverseLoop (putBytes mem str.addr (front ++ (mid ++ back))) str front.length
      (front.length + mid.length - 1) fuel =
      some (putBytes mem str.addr (front ++ (mid.reverse ++ back))) := by
  obtain ⟨fuel, rfl⟩ := Nat.exists_eq_succ_of_ne_zero (show fuel ≠ 0 by omega)
  induction mid using List.bidirectionalRec generalizing front back fuel with
  | nil => exact if_neg (Nat.not_lt.mpr (Nat.sub_le _ _))
  | singleton c => exact if_neg (Nat.not_lt.mpr (Nat.le_refl _))
  | cons_append b mid c ih =>
    have hlen : (b :: (mid ++ [c])).length = mid.length + 2 := by simp
    have hsplit : front ++ ((b :: (mid ++ [c])) ++ back) = front ++ b :: (mid ++ c :: back) := by simp
    rw [hlen] at hfuel
    rw [hsplit] at hroom
    obtain ⟨fuel, rfl⟩ := Nat.exists_eq_succ_of_ne_zero (show fuel ≠ 0 by omega)
    -- what is left is between `c` and `b`
    have hinner := @ih (front ++ [c]) (b :: back) (by simpa using hroom) fuel (by omega)
    rw [List.length_append, List.length_singleton, Nat.add_right_comm, Nat.add_sub_cancel] at hinner
    rw [hsplit, hlen, Nat.add_succ_sub_one, ← Nat.add_assoc, reverseLoop_round hroom, hinner]
    simp

/-! ## The whole function -/

/-- The NUL behind the digits, and the reversal. -/
theorem terminate_eq {mem : Memory} {str : Ptr} {text : List UInt8} (hlen : text.length ≤ 11)
    (hroom : str.addr + text.length < str.limit) :
    (do let mem ← store (putBytes mem str.addr text) (str.add text.length) 0
        reverseLoop mem str 0 (text.length - 1) intToStrRounds) =
      some (putBytes mem str.addr (text.reverse ++ [0])) := by
  rw [store_putBytes 0 hroom]
  have hwhole : str.addr + ([] ++ (text ++ [0])).length ≤ str.limit := by
    rw [List.nil_append, List.length_append, List.length_singleton]
    omega
  have hreverse := @reverseLoop_eq mem str text [] [0] intToStrRounds (by simp only [intToStrRounds]; omega) hwhole
  rw [List.length_nil, Nat.zero_add] at hreverse
  exact hreverse

/-- **What `int_to_str` leaves** is the string `intToStr`, and it writes nothing else. -/
theorem intToStrAt_eq {mem : Memory} {str : Ptr} {num : Int} (hlo : -2 ^ 31 ≤ num) (hhi : num < 2 ^ 31)
    (hroom : str.addr + (intToStr num).length < str.limit) :
    intToStrAt mem num str = some (putBytes mem str.addr (intToStr num ++ [0])) := by
  have hmax := length_intToStr_le num
  rw [intToStr] at hroom hmax ⊢
  rw [List.length_reverse] at hroom hmax
  rw [intToStrAt]
  by_cases hneg : num < 0
  · rw [if_pos hneg] at hroom hmax ⊢
    rw [if_pos hneg]
    -- the negation is taken in 32 bits, so it has ten digits at most
    have hsize : ((-num).bmod (2 ^ 32)).natAbs < 10 ^ 10 := by
      rw [Int.bmod_def]
      omega
    rw [List.length_append, List.length_singleton] at hroom
    rw [digitLoop_start hsize (by omega)]
    dsimp only [Option.bind_eq_bind, Option.bind_some]
    rw [decide_eq_true hneg, if_pos rfl, store_putBytes _ (by omega)]
    have hsigned : (intDigits 10 ((-num).bmod (2 ^ 32))).length + 1
        = (intDigits 10 ((-num).bmod (2 ^ 32)) ++ [0x2D]).length := by
      rw [List.length_append, List.length_singleton]
    dsimp only [Option.bind_eq_bind, Option.bind_some, Option.pure_def]
    rw [hsigned]
    exact terminate_eq hmax (by rw [List.length_append, List.length_singleton]; omega)
  · rw [if_neg hneg] at hroom hmax ⊢
    rw [if_neg hneg, decide_eq_false hneg]
    by_cases hzero : num = 0
    -- `0` is stored by hand, before the loop
    · subst hzero
      rw [if_pos rfl] at hroom hmax ⊢
      rw [if_pos rfl]
      have hfirst := @store_putBytes mem str [] 0x30 (by rw [List.length_nil]; omega)
      rw [putBytes_nil, List.length_nil] at hfirst
      rw [hfirst]
      exact terminate_eq hmax hroom
    · rw [if_neg hzero] at hroom hmax ⊢
      rw [if_neg hzero]
      rw [digitLoop_start (by omega) hroom]
      exact terminate_eq hmax hroom

/-! ## The decimal numeral -/

theorem numeralValue_decimalDigits (n : Nat) : numeralValue (decimalDigits n) = n := by
  rw [decimalDigits]
  split
  · rename_i hzero
    rw [hzero]
    rfl
  · have hfold : (Nat.digits 10 n).foldr (fun d v => d + 10 * v) 0 = Nat.ofDigits 10 (Nat.digits 10 n) := by
      rw [Nat.ofDigits_eq_foldr]
      simp only [Nat.cast_id]
    rw [numeralValue_reverse_digits fun d hd => Nat.digits_lt_base (by decide) hd, hfold, Nat.ofDigits_digits]

theorem isNumeral_decimalDigits (n : Nat) : IsNumeral (decimalDigits n) := by
  rw [decimalDigits]
  split
  · exact ⟨List.cons_ne_nil _ _, List.forall_mem_singleton.mpr ⟨UInt8.le_refl _, of_decide_eq_true rfl⟩⟩
  · rename_i hzero
    refine ⟨fun hnil => hzero ?_, fun c hc => ?_⟩
    · exact Nat.digits_eq_nil_iff_eq_zero.mp (List.map_eq_nil_iff.mp (List.reverse_eq_nil_iff.mp hnil))
    · obtain ⟨d, hd, rfl⟩ := List.mem_map.mp (List.mem_reverse.mp hc)
      exact isDigit_ofNat (Nat.digits_lt_base (by decide) hd)

/-- The digit in front is the last one found, and that is not zero. -/
theorem isCanonical_decimalDigits (n : Nat) : IsCanonical (decimalDigits n) := by
  refine ⟨isNumeral_decimalDigits n, fun rest hrest => ?_⟩
  rw [decimalDigits] at hrest
  split at hrest
  · exact (List.cons.inj hrest).2.symm
  · rename_i hzero
    have hne : Nat.digits 10 n ≠ [] := Nat.digits_ne_nil_iff_ne_zero.mpr hzero
    have hlast := congrArg List.head? hrest
    rw [List.head?_reverse, List.getLast?_map, List.getLast?_eq_some_getLast hne, Option.map_some,
      List.head?_cons] at hlast
    have hdigit : (Nat.digits 10 n).getLast hne < 10 :=
      Nat.digits_lt_base (by decide) (List.getLast_mem hne)
    have hvalue := congrArg UInt8.toNat (Option.some.inj hlast)
    rw [UInt8.toNat_ofNat', Nat.mod_eq_of_lt (by omega)] at hvalue
    have hnonzero := Nat.getLast_digit_ne_zero 10 hzero
    have hzeroDigit : 48 + (Nat.digits 10 n).getLast hne = 48 := hvalue
    omega

/-- The text is the number in decimal: a sign only if it is negative, and a
canonical numeral of the rest. -/
def IsDecimalOf (num : Int) (text : List UInt8) : Prop :=
  ∃ digits, IsCanonical digits ∧ numeralValue digits = num.natAbs ∧
    text = if num < 0 then 0x2D :: digits else digits

theorem isDecimalOf_decimalText (num : Int) : IsDecimalOf num (decimalText num) :=
  ⟨decimalDigits num.natAbs, isCanonical_decimalDigits _, numeralValue_decimalDigits _, rfl⟩

/-- **What printing a number should leave** in a buffer of twelve bytes, whatever
else the memory holds. -/
def PrintsDecimal (num : Int32) : Prop :=
  ∀ (mem : Memory) (str : Ptr), str.addr + 12 ≤ str.limit →
    ∃ mem' text, intToStrAt mem num.toInt str = some mem' ∧ IsDecimalOf num.toInt text ∧
      StringIn mem' str.addr text ∧ text.length + 1 ≤ 12 ∧
      ∀ p, p < str.addr ∨ str.addr + 12 ≤ p → mem' p = mem p

/-- Twelve bytes are enough for every `int`. -/
theorem intToStrAt_int32 (mem : Memory) (num : Int32) {str : Ptr} (hroom : str.addr + 12 ≤ str.limit) :
    intToStrAt mem num.toInt str = some (putBytes mem str.addr (intToStr num.toInt ++ [0])) := by
  have hlen := length_intToStr_le num.toInt
  exact intToStrAt_eq num.le_toInt num.toInt_lt (by omega)

/-- Behind the sign of the least `int` there is a `.`. -/
theorem not_printsDecimal_least : ¬ PrintsDecimal Int32.minValue := by
  intro h
  obtain ⟨mem', text, hrun, ⟨digits, hdigits, -, rfl⟩, hstr, -, -⟩ := h (fun _ => 0) ⟨0, 12⟩ (Nat.le_refl _)
  rw [intToStrAt_int32 _ _ (Nat.le_refl _)] at hrun
  have hmem := Option.some.inj hrun
  obtain ⟨d, rest, rfl⟩ := List.exists_cons_of_ne_nil hdigits.nonempty
  have hfirst : mem' 1 = d := (if_pos (by decide : Int32.minValue.toInt < 0) ▸ hstr) 1 (by simp)
  have hdot : mem' 1 = 0x2E := by
    rw [← hmem]
    decide +kernel
  have hd := hdigits.digits d List.mem_cons_self
  rw [← hfirst, hdot] at hd
  exact absurd hd (by decide)

/-- **`int_to_str` prints every `int` but the least one.** -/
theorem prints_decimal_iff (num : Int32) : PrintsDecimal num ↔ num ≠ Int32.minValue := by
  constructor
  · rintro h rfl
    exact not_printsDecimal_least h
  · intro hne mem str hroom
    have hlo : -2 ^ 31 < num.toInt := by
      refine lt_of_le_of_ne num.le_toInt fun heq => hne ?_
      exact Int32.toInt_inj.mp heq.symm
    have hlen := length_intToStr_le num.toInt
    have htext := intToStr_eq_decimalText hlo num.toInt_lt
    refine ⟨_, intToStr num.toInt, intToStrAt_int32 mem num hroom, ?_, stringIn_putBytes _ _ _,
      Nat.succ_le_succ hlen, fun p hp => ?_⟩
    · rw [htext]
      exact isDecimalOf_decimalText _
    · rcases hp with hlow | hhigh
      · exact putBytes_of_lt _ hlow
      · exact putBytes_of_le (by rw [List.length_append, List.length_singleton]; omega)

theorem not_prints_decimal : ¬ ∀ num : Int32, PrintsDecimal num :=
  fun h => not_printsDecimal_least (h Int32.minValue)

end Srunix
