import Mathlib.Data.List.TakeWhile
import Mathlib.Data.Nat.Digits.Lemmas
import Srunix.Lib.Terminal

/-!
# What `terminal_printf` is to print

`printfLoop` puts the format into the buffer with its conversions replaced by
what the code makes of the arguments. `expand` replaces them by what they mean:
numbers in decimal or in eight hexadecimal digits, strings, characters. The two
are the same (`printfLoop_eq_expand`) unless an argument is the least `int`,
which `int_to_str` cannot negate.

A call is `Safe` when the buffer holds what it stores and the expansion is what
it prints.
-/

namespace Srunix

/-! ## Digits -/

/-- The digits of a number, the first one first. -/
def decimalDigits (n : Nat) : List UInt8 :=
  if n = 0 then [0x30] else ((Nat.digits 10 n).map fun d => UInt8.ofNat (48 + d)).reverse

/-- A number in decimal. -/
def decimalText (num : Int) : List UInt8 :=
  if num < 0 then 0x2D :: decimalDigits num.natAbs else decimalDigits num.natAbs

/-- A number in eight hexadecimal digits. -/
def hexText (num : Nat) : List UInt8 :=
  (List.range 8).reverse.map fun i =>
    let d := (Nat.digits 16 num).getD i 0
    UInt8.ofNat (if d < 10 then 48 + d else 55 + d)

theorem hexDigits_eq (num : Nat) : hexDigits num = hexText num := by
  rw [hexDigits, hexText]
  refine List.map_congr_left fun i _ => ?_
  rw [Nat.getD_digits num i (by decide)]

theorem ofInt_natCast (n : Nat) : UInt8.ofInt (n : Int) = UInt8.ofNat n := by
  refine UInt8.toNat_inj.mp ?_
  simp [UInt8.ofInt]
  omega

/-- The loop of `int_to_str` finds the digits, the last one first. -/
theorem intDigits_natCast {fuel n : Nat} (h : n < 10 ^ fuel) :
    intDigits fuel (n : Int) = (Nat.digits 10 n).map fun d => UInt8.ofNat (48 + d) := by
  induction fuel generalizing n with
  | zero =>
    obtain rfl : n = 0 := by simpa using h
    rfl
  | succ fuel ih =>
    by_cases hzero : n = 0
    · subst hzero
      rfl
    have hrest : n / 10 < 10 ^ fuel := by
      rw [Nat.pow_succ] at h
      omega
    have hdigit : UInt8.ofInt ((n : Int).tmod 10 + 48) = UInt8.ofNat (48 + n % 10) := by
      have hcast : (n : Int).tmod 10 + 48 = ((48 + n % 10 : Nat) : Int) := by
        rw [Nat.add_comm, Nat.cast_add]
        rfl
      rw [hcast, ofInt_natCast]
    have hquot : (n : Int).tdiv 10 = ((n / 10 : Nat) : Int) := rfl
    rw [intDigits, if_neg (by omega), hdigit, hquot, ih hrest,
      Nat.digits_def' (by decide) (Nat.pos_of_ne_zero hzero), List.map_cons]

/-- For every `int` but the least, the digits are those of the number. -/
theorem intToStr_eq_decimalText {num : Int} (hlo : -2 ^ 31 < num) (hhi : num < 2 ^ 31) :
    intToStr num = decimalText num := by
  have hsize : num.natAbs < 10 ^ 10 := by omega
  rw [intToStr, decimalText]
  by_cases hneg : num < 0
  · have hwrap : (-num).bmod (2 ^ 32) = (num.natAbs : Int) := by
      rw [Int.bmod_eq_of_le (by omega) (by omega)]
      omega
    rw [if_pos hneg, if_pos hneg, hwrap, intDigits_natCast hsize, decimalDigits,
      if_neg (by omega), List.reverse_append]
    rfl
  rw [if_neg hneg, if_neg hneg]
  by_cases hzero : num = 0
  · subst hzero
    rfl
  · have hcast : num = (num.natAbs : Int) := by omega
    rw [if_neg hzero, decimalDigits, if_neg (by omega)]
    nth_rewrite 1 [hcast]
    rw [intDigits_natCast hsize]

theorem length_intDigits_le (fuel : Nat) (num : Int) : (intDigits fuel num).length ≤ fuel := by
  induction fuel generalizing num with
  | zero => exact Nat.le_refl 0
  | succ fuel ih =>
    rw [intDigits]
    split
    · exact Nat.zero_le _
    · exact Nat.succ_le_succ (ih _)

/-- No `int` takes more than eleven characters. -/
theorem length_intToStr_le (num : Int) : (intToStr num).length ≤ 11 := by
  rw [intToStr, List.length_reverse]
  split
  · rw [List.length_append]
    exact Nat.succ_le_succ (length_intDigits_le 10 _)
  split
  · exact (by decide : 1 ≤ 11)
  · exact (length_intDigits_le 10 num).trans (by decide)

/-! ## The expansion -/

namespace PrintfArg

/-- The conversion an argument is for. -/
def letter : PrintfArg → UInt8
  | .int _ => 0x64
  | .str _ => 0x73
  | .char _ => 0x63
  | .hex _ => 0x78

theorem letter_mem (arg : PrintfArg) :
    arg.letter = 0x64 ∨ arg.letter = 0x73 ∨ arg.letter = 0x63 ∨ arg.letter = 0x78 := by
  cases arg with
  | int => exact .inl rfl
  | str => exact .inr (.inl rfl)
  | char => exact .inr (.inr (.inl rfl))
  | hex => exact .inr (.inr (.inr rfl))

/-- What a conversion is to print. -/
def shown : PrintfArg → List UInt8
  | .int num => decimalText num
  | .str s => s.bytes
  | .char c => [c]
  | .hex num => hexText num

/-- An argument that prints as what it is: not the least `int`, and no NUL. -/
def Printable : PrintfArg → Prop
  | .int num => -2 ^ 31 < num ∧ num < 2 ^ 31
  | .char c => c ≠ 0
  | .str _ | .hex _ => True

theorem render_eq_shown {arg : PrintfArg} (h : arg.Printable) : arg.render = arg.shown := by
  cases arg with
  | int num => exact intToStr_eq_decimalText h.1 h.2
  | str s => rfl
  | char c => rfl
  | hex num => exact hexDigits_eq num

end PrintfArg

/-- The conversions of a format that take an argument. -/
def conversions : List UInt8 → List UInt8
  | 0x25 :: 0x25 :: format => conversions format
  | 0x25 :: conv :: format => conv :: conversions format
  | _ :: format => conversions format
  | [] => []

/-- The format with its conversions replaced. -/
def expand : List UInt8 → List PrintfArg → List UInt8
  | 0x25 :: 0x25 :: format, args => 0x25 :: expand format args
  | 0x25 :: _ :: format, arg :: args => arg.shown ++ expand format args
  | c :: format, args => c :: expand format args
  | [], _ => []

/-- **`terminal_printf` prints the expansion.** -/
theorem printfLoop_eq_expand {format : List UInt8} {args : List PrintfArg}
    (htyped : conversions format = args.map PrintfArg.letter)
    (hargs : ∀ arg ∈ args, arg.Printable) : printfLoop format args = expand format args := by
  induction format, args using printfLoop.induct with
  | case1 format args ih =>
    rw [printfLoop, expand, ih htyped hargs]
  | case2 conv format arg args hpercent hconv ih =>
    rw [conversions, List.map_cons, List.cons.injEq] at htyped
    · have harg := hargs arg List.mem_cons_self
      have hrest := fun a ha => hargs a (List.mem_cons_of_mem arg ha)
      rw [printfLoop, expand, if_pos hconv, PrintfArg.render_eq_shown harg, ih htyped.2 hrest]
      · exact hpercent
      · exact hpercent
    · exact hpercent
  | case3 conv format arg args hpercent hconv ih =>
    -- the letters of the arguments are conversions
    rw [conversions, List.map_cons, List.cons.injEq] at htyped
    · rw [htyped.1] at hconv
      exact absurd arg.letter_mem hconv
    · exact hpercent
  | case4 conv format hpercent ih =>
    rw [conversions] at htyped
    · cases htyped
    · exact hpercent
  | case5 c format args htwo hconv hnone ih =>
    by_cases hc : c = 0x25
    · subst hc
      cases format with
      | nil => rfl
      | cons head rest =>
        cases args with
        | nil => exact (hnone head rest rfl rfl rfl).elim
        | cons arg args => exact (hconv head rest arg args rfl rfl rfl).elim
    · have htext : conversions (c :: format) = conversions format := by
        rw [conversions]
        · exact fun _ heq => absurd heq hc
        · exact fun _ _ heq => absurd heq hc
      rw [htext] at htyped
      rw [printfLoop, expand, ih htyped hargs]
      · exact fun _ heq => absurd heq hc
      · exact fun _ _ _ _ _ heq => absurd heq hc
      · exact htwo
      · exact hconv
      · exact hnone
  | case6 args => rfl

/-! ## What is in the buffer -/

theorem zero_not_mem_decimalDigits (n : Nat) : 0 ∉ decimalDigits n := by
  rw [decimalDigits]
  split
  · exact of_decide_eq_true rfl
  · intro hmem
    obtain ⟨d, hd, hzero⟩ := List.mem_map.mp (List.mem_reverse.mp hmem)
    have hlt : d < 10 := Nat.digits_lt_base (by decide) hd
    have hval := congrArg UInt8.toNat hzero
    rw [UInt8.toNat_ofNat', Nat.mod_eq_of_lt (by omega)] at hval
    exact absurd hval (Nat.ne_of_gt (Nat.add_pos_left (by decide) d))

theorem PrintfArg.zero_not_mem_shown {arg : PrintfArg} (h : arg.Printable) : 0 ∉ arg.shown := by
  cases arg with
  | int num =>
    show 0 ∉ decimalText num
    rw [decimalText]
    split
    · refine fun hmem => (List.mem_cons.mp hmem).elim (fun heq => ?_) ?_
      · exact absurd heq (by decide)
      · exact zero_not_mem_decimalDigits _
    · exact zero_not_mem_decimalDigits _
  | str s => exact s.nulFree
  | char c => exact fun hmem => h (List.mem_singleton.mp hmem).symm
  | hex num =>
    intro hmem
    obtain ⟨i, -, hzero⟩ := List.mem_map.mp hmem
    -- a digit in base 16 is no NUL, whichever of the two ranges it is in
    rw [Nat.getD_digits num i (by decide)] at hzero
    have hlt : num / 16 ^ i % 16 < 16 := Nat.mod_lt _ (by decide)
    have hval := congrArg UInt8.toNat hzero
    dsimp only at hval
    split at hval
    · rw [UInt8.toNat_ofNat', Nat.mod_eq_of_lt (by omega)] at hval
      exact absurd hval (Nat.ne_of_gt (Nat.add_pos_left (by decide) _))
    · rw [UInt8.toNat_ofNat', Nat.mod_eq_of_lt (by omega)] at hval
      exact absurd hval (Nat.ne_of_gt (Nat.add_pos_left (by decide) _))

/-- Every byte in the buffer is of the format or of what an argument makes. -/
theorem mem_printfLoop {format : List UInt8} {args : List PrintfArg} {b : UInt8}
    (h : b ∈ printfLoop format args) : b ∈ format ∨ ∃ arg ∈ args, b ∈ arg.render := by
  -- the cases are `%%`, a conversion with an argument, an unknown one, no argument left,
  -- text, the end
  induction format, args using printfLoop.induct with
  | case1 format args ih =>
    rw [printfLoop] at h
    rcases List.mem_cons.mp h with rfl | hrest
    · exact .inl List.mem_cons_self
    · exact (ih hrest).imp_left fun hmem => List.mem_cons_of_mem _ (List.mem_cons_of_mem _ hmem)
  | case2 conv format arg args hpercent hconv ih =>
    rw [printfLoop, if_pos hconv] at h
    · rcases List.mem_append.mp h with harg | hrest
      · exact .inr ⟨arg, List.mem_cons_self, harg⟩
      · rcases ih hrest with hmem | ⟨a, ha, hmem⟩
        · exact .inl (List.mem_cons_of_mem _ (List.mem_cons_of_mem _ hmem))
        · exact .inr ⟨a, List.mem_cons_of_mem _ ha, hmem⟩
    · exact hpercent
  | case3 conv format arg args hpercent hconv ih =>
    rw [printfLoop, if_neg hconv] at h
    · exact (ih h).imp_left fun hmem => List.mem_cons_of_mem _ (List.mem_cons_of_mem _ hmem)
    · exact hpercent
  | case4 conv format hpercent ih =>
    rw [printfLoop] at h
    · exact (ih h).imp_left fun hmem => List.mem_cons_of_mem _ (List.mem_cons_of_mem _ hmem)
    · exact hpercent
  | case5 c format args htwo hconv hnone ih =>
    rw [printfLoop] at h
    · rcases List.mem_cons.mp h with rfl | hrest
      · exact .inl List.mem_cons_self
      · exact (ih hrest).imp_left (List.mem_cons_of_mem _)
    · exact htwo
    · exact hconv
    · exact hnone
  | case6 args => cases h

/-- A byte for each of the arguments' bytes. -/
def argBytes : List PrintfArg → Nat
  | [] => 0
  | arg :: args => arg.render.length + argBytes args

theorem argBytes_le {args : List PrintfArg} {n : Nat} (h : ∀ arg ∈ args, arg.render.length ≤ n) :
    argBytes args ≤ args.length * n := by
  induction args with
  | nil => exact Nat.zero_le _
  | cons arg args ih =>
    have hhead := h arg List.mem_cons_self
    have hrest := ih fun a ha => h a (List.mem_cons_of_mem arg ha)
    rw [argBytes, List.length_cons, Nat.succ_mul]
    omega

/-- What comes out is at most the format and the arguments. -/
theorem length_printfLoop_le (format : List UInt8) (args : List PrintfArg) :
    (printfLoop format args).length ≤ format.length + argBytes args := by
  -- each conversion takes two bytes of the format and gives the text of one argument
  induction format, args using printfLoop.induct with
  | case1 format args ih =>
    rw [printfLoop, List.length_cons, List.length_cons, List.length_cons]
    omega
  | case2 conv format arg args hpercent hconv ih =>
    rw [printfLoop, if_pos hconv, List.length_append, List.length_cons, List.length_cons, argBytes]
    · omega
    · exact hpercent
  | case3 conv format arg args hpercent hconv ih =>
    rw [printfLoop, if_neg hconv, List.length_cons, List.length_cons]
    · omega
    · exact hpercent
  | case4 conv format hpercent ih =>
    rw [printfLoop, List.length_cons, List.length_cons]
    · omega
    · exact hpercent
  | case5 c format args htwo hconv hnone ih =>
    rw [printfLoop, List.length_cons, List.length_cons]
    · omega
    · exact htwo
    · exact hconv
    · exact hnone
  | case6 args => exact Nat.zero_le _

/-- Text goes in as it stands. -/
theorem printfLoop_text {text : List UInt8} (htext : 0x25 ∉ text) (rest : List UInt8)
    (args : List PrintfArg) : printfLoop (text ++ rest) args = text ++ printfLoop rest args := by
  induction text with
  | nil => rfl
  | cons c text ih =>
    have hc : c ≠ 0x25 := fun heq => htext (heq ▸ List.mem_cons_self)
    rw [List.cons_append, printfLoop, ih fun hmem => htext (List.mem_cons_of_mem _ hmem),
      List.cons_append]
    · exact fun _ heq => absurd heq hc
    · exact fun _ _ _ _ _ heq => absurd heq hc
    · exact fun _ _ _ heq => absurd heq hc

/-! ## Calls -/

/-- The size of `buffer` in `terminal_printf`, which nothing checks. -/
abbrev printfBufferSize : Nat := 256

/-- A call of `terminal_printf`. -/
structure PrintfCall where
  format : CString
  args : List PrintfArg

namespace PrintfCall

/-- What the call leaves in `buffer`, before the NUL. -/
def text (c : PrintfCall) : List UInt8 := printfLoop c.format.bytes c.args

/-- The conversions get arguments of their kind, the buffer holds the text and
its NUL, and what is printed of it is the expansion. -/
structure Safe (c : PrintfCall) : Prop where
  typed : conversions c.format.bytes = c.args.map PrintfArg.letter
  inBuffer : c.text.length + 1 ≤ printfBufferSize
  printed : c.text.takeWhile (· ≠ 0) = expand c.format.bytes c.args

variable {c : PrintfCall}

/-- A call whose arguments fit its conversions is safe exactly if its text and the NUL
fit the buffer. -/
theorem safe_iff (htyped : conversions c.format.bytes = c.args.map PrintfArg.letter)
    (hargs : ∀ arg ∈ c.args, arg.Printable) : c.Safe ↔ c.text.length + 1 ≤ printfBufferSize := by
  refine ⟨Safe.inBuffer, fun hlen => ⟨htyped, hlen, ?_⟩⟩
  have hnul : 0 ∉ c.text := by
    intro hmem
    rcases mem_printfLoop hmem with hformat | ⟨arg, harg, hmem⟩
    · exact c.format.nulFree hformat
    · rw [PrintfArg.render_eq_shown (hargs arg harg)] at hmem
      exact PrintfArg.zero_not_mem_shown (hargs arg harg) hmem
  rw [List.takeWhile_eq_self_iff.mpr]
  · exact printfLoop_eq_expand htyped hargs
  · exact fun b hb => decide_eq_true fun hzero => hnul (hzero ▸ hb)

/-- Short arguments do no harm. -/
theorem safe_of_short {n : Nat} (htyped : conversions c.format.bytes = c.args.map PrintfArg.letter)
    (hargs : ∀ arg ∈ c.args, arg.Printable ∧ arg.render.length ≤ n)
    (hroom : strlen c.format + c.args.length * n + 1 ≤ printfBufferSize) : c.Safe := by
  refine (safe_iff htyped fun arg harg => (hargs arg harg).1).mpr (Nat.le_trans ?_ hroom)
  have hbytes := argBytes_le fun arg harg => (hargs arg harg).2
  exact Nat.succ_le_succ ((length_printfLoop_le _ _).trans (Nat.add_le_add_left hbytes _))

/-- One string between two texts may take what they leave. -/
theorem safe_str_iff (before after : CString) {format : CString} {n : Nat}
    (hformat : format.bytes = before.bytes ++ 0x25 :: 0x73 :: after.bytes)
    (htyped : conversions format.bytes = [0x73]) (hbefore : 0x25 ∉ before.bytes)
    (hafter : 0x25 ∉ after.bytes) (hroom : strlen before + strlen after + n + 1 = printfBufferSize)
    (s : CString) : Safe ⟨format, [.str s]⟩ ↔ strlen s ≤ n := by
  have htext : text ⟨format, [.str s]⟩ = before.bytes ++ (s.bytes ++ after.bytes) := by
    have hlast : printfLoop after.bytes [] = after.bytes := by
      have hall := printfLoop_text hafter [] []
      rwa [List.append_nil, printfLoop, List.append_nil] at hall
    have hconv : printfLoop (0x25 :: 0x73 :: after.bytes) [.str s]
        = s.bytes ++ printfLoop after.bytes [] := rfl
    rw [text, hformat, printfLoop_text hbefore, hconv, hlast]
  rw [safe_iff htyped]
  · rw [htext, List.length_append, List.length_append, ← hroom, strlen, strlen, strlen]
    omega
  · intro arg harg
    rw [List.mem_singleton.mp harg]
    trivial

end PrintfCall

end Srunix
