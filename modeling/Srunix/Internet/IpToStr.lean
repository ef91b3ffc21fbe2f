import Srunix.Lib.IntToStr
import Srunix.Console.PrintfCalls

/-!
# `ip_to_str`, in place (`internet/internet.h`)

Every octet is printed where the one before it ended, over its NUL, which has
become a dot. What is left is `ipToStr`: four canonical numerals joined by dots,
at most 15 characters. `parseQuad` reads the address back.
-/

namespace Srunix

open Library

/-- `(ip >> shift) & 0xFF` -/
def octet (ip shift : UInt32) : Nat := ((ip >>> shift) &&& 0xFF).toNat

/-- `int_to_str(octet, p); p += strlen(p); *p++ = '.';` -/
def octetDot (mem : Memory) (octet : Nat) (p : Ptr) : Option (Memory × Ptr) := do
  let mem ← intToStrAt mem octet p
  let len ← strlenAt mem p
  let mem ← store mem (p.add len) 0x2E
  pure (mem, p.add (len + 1))

/-- `ip_to_str`: four times `int_to_str` at the end of the text so far, with dots
between. -/
def ipToStrAt (mem : Memory) (ip : UInt32) (buf : Ptr) : Option Memory := do
  let (mem, p) ← octetDot mem (octet ip 24) buf
  let (mem, p) ← octetDot mem (octet ip 16) p
  let (mem, p) ← octetDot mem (octet ip 8) p
  intToStrAt mem (octet ip 0) p

/-! ## What an address is to look like -/

/-- The octets of an address, the most significant first. -/
def octets (ip : UInt32) : List Nat := [24, 16, 8, 0].map fun shift => ip.toNat / 2 ^ shift % 256

/-- Four canonical numerals joined by dots, one for each octet. -/
def IsDottedQuad (ip : UInt32) (text : List UInt8) : Prop :=
  ∃ parts : List (List UInt8), text = [0x2E].intercalate parts ∧ (∀ part ∈ parts, IsCanonical part) ∧
    parts.map numeralValue = octets ip

/-- A reader of dotted quads. -/
def parseQuad (text : List UInt8) : Option UInt32 :=
  let parts := text.splitOn 0x2E
  if parts.all fun part => part ≠ [] && part.all fun c => decide (IsDigit c) then
    match parts.map numeralValue with
    | [a, b, c, d] =>
      if a < 256 ∧ b < 256 ∧ c < 256 ∧ d < 256 then
        some (UInt32.ofNat (a * 2 ^ 24 + b * 2 ^ 16 + c * 2 ^ 8 + d))
      else none
    | _ => none
  else none

/-- The shift and the mask, as arithmetic. -/
theorem octet_eq {ip shift : UInt32} (h : shift.toNat < 32) :
    octet ip shift = ip.toNat / 2 ^ shift.toNat % 256 := by
  rw [octet, UInt32.toNat_and, UInt32.toNat_shiftRight, Nat.mod_eq_of_lt h, Nat.shiftRight_eq_div_pow]
  exact Nat.and_two_pow_sub_one_eq_mod _ 8

/-- What was written as a dotted quad is read back. -/
theorem parseQuad_of_isDottedQuad {ip : UInt32} {text : List UInt8} (h : IsDottedQuad ip text) :
    parseQuad text = some ip := by
  obtain ⟨parts, rfl, hcanonical, hvalues⟩ := h
  have hclear : ∀ part ∈ parts, (0x2E : UInt8) ∉ part := fun part hpart hdot =>
    absurd ((hcanonical part hpart).digits _ hdot) (by decide)
  have hne : parts ≠ [] := by
    rintro rfl
    cases hvalues
  have hall : (parts.all fun part => part ≠ [] && part.all fun c => decide (IsDigit c)) = true := by
    refine List.all_eq_true.mpr fun part hpart => ?_
    have hnumeral := (hcanonical part hpart).toIsNumeral
    rw [Bool.and_eq_true, List.all_eq_true]
    exact ⟨decide_eq_true hnumeral.nonempty, fun c hc => decide_eq_true (hnumeral.digits c hc)⟩
  rw [parseQuad, List.splitOn_intercalate 0x2E hclear hne, if_pos hall, hvalues]
  -- the four octets make up the address again
  have hoctets : octets ip = [ip.toNat / 2 ^ 24 % 256, ip.toNat / 2 ^ 16 % 256, ip.toNat / 2 ^ 8 % 256,
    ip.toNat / 2 ^ 0 % 256] := rfl
  rw [hoctets]
  dsimp only
  have hlt := ip.toNat_lt
  rw [if_pos (by omega)]
  refine congrArg some (UInt32.toNat_inj.mp ?_)
  rw [UInt32.toNat_ofNat', Nat.mod_eq_of_lt (by omega)]
  omega

/-! ## One octet -/

/-- A number below a power of ten has so many digits. -/
theorem length_decimalDigits_le {n k : Nat} (hn : n < 10 ^ k) (hk : 0 < k) :
    (decimalDigits n).length ≤ k := by
  rw [decimalDigits]
  split
  · exact hk
  · rw [List.length_reverse, List.length_map]
    exact (Nat.digits_length_le_iff (by decide) n).mpr hn

theorem length_octet_le {n : Nat} (h : n < 256) : (decimalDigits n).length ≤ 3 :=
  length_decimalDigits_le (by omega) (by omega)

theorem octet_lt (ip shift : UInt32) : octet ip shift < 256 := Nat.and_le_right.trans_lt (by decide)

theorem intToStr_octet {n : Nat} (h : n < 256) : intToStr n = decimalDigits n := by
  rw [intToStr_eq_decimalText (by omega) (by omega), decimalText, if_neg (by omega)]
  rfl

theorem putBytes_putBytes (mem : Memory) (a : Nat) (front back : List UInt8) :
    putBytes (putBytes mem a front) (a + front.length) back = putBytes mem a (front ++ back) := by
  induction back using List.reverseRecOn with
  | nil => rw [putBytes_nil, List.append_nil]
  | append_singleton back c ih =>
    rw [← update_putBytes, ih, ← List.append_assoc, ← update_putBytes, List.length_append, Nat.add_assoc]

section Octet

variable {mem : Memory} {buf : Ptr} {front : List UInt8} {n : Nat} (hn : n < 256)
  (hroom : buf.addr + front.length + 3 < buf.limit)

include hn hroom

/-- `int_to_str` writes an octet at the end of the text so far. -/
theorem intToStrAt_octet : intToStrAt (putBytes mem buf.addr front) n (buf.add front.length) =
    some (putBytes mem buf.addr (front ++ (decimalDigits n ++ [0]))) := by
  have hlen := length_octet_le hn
  have hfits : (buf.add front.length).addr + (intToStr n).length < (buf.add front.length).limit := by
    rw [intToStr_octet hn]
    show buf.addr + front.length + (decimalDigits n).length < buf.limit
    omega
  rw [intToStrAt_eq (by omega) (by omega) hfits, intToStr_octet hn]
  exact congrArg some (putBytes_putBytes mem buf.addr front _)

/-- The NUL behind the octet becomes the dot. -/
theorem octetDot_eq : octetDot (putBytes mem buf.addr front) n (buf.add front.length) =
    some (putBytes mem buf.addr (front ++ (decimalDigits n ++ [0x2E])),
      buf.add (front ++ (decimalDigits n ++ [0x2E])).length) := by
  have hlen := length_octet_le hn
  have hpoints : Points (putBytes mem buf.addr (front ++ (decimalDigits n ++ [0]))) (buf.add front.length)
      (decimalDigits n) := by
    refine ⟨?_, ?_⟩
    · rw [← putBytes_putBytes]
      exact stringIn_putBytes _ _ _
    · show buf.addr + front.length + (decimalDigits n).length < buf.limit
      omega
  -- the dot is stored over the NUL of `int_to_str`
  have hdot : store (putBytes mem buf.addr (front ++ (decimalDigits n ++ [0])))
      (buf.add (front ++ decimalDigits n).length) 0x2E =
        some (putBytes mem buf.addr (front ++ decimalDigits n ++ [0x2E])) := by
    rw [← List.append_assoc]
    refine store_putBytes_middle ?_ 0x2E
    simp only [List.length_append, List.length_singleton]
    omega
  have hnext : (buf.add front.length).add ((decimalDigits n).length + 1)
      = buf.add (front ++ decimalDigits n ++ [0x2E]).length := by
    rw [Ptr.add_add, List.length_append, List.length_append, List.length_singleton, Nat.add_assoc]
  rw [octetDot, intToStrAt_octet hn hroom]
  dsimp only [Option.bind_eq_bind, Option.bind_some]
  rw [hpoints.strlenAt (zero_not_mem_decimalDigits n)]
  dsimp only [Option.bind_some]
  rw [Ptr.add_add, ← List.length_append, hdot, hnext, List.append_assoc]
  rfl

end Octet

/-! ## The whole address -/

theorem octets_eq (ip : UInt32) : octets ip = [octet ip 24, octet ip 16, octet ip 8, octet ip 0] := by
  rw [octet_eq (by decide), octet_eq (by decide), octet_eq (by decide), octet_eq (by decide)]
  rfl

/-- What the code makes of an address. -/
def quadText (ip : UInt32) : List UInt8 := [0x2E].intercalate ((octets ip).map decimalDigits)

theorem quadText_eq (ip : UInt32) : quadText ip =
    decimalDigits (octet ip 24) ++ [0x2E] ++ (decimalDigits (octet ip 16) ++ [0x2E]) ++
      (decimalDigits (octet ip 8) ++ [0x2E]) ++ decimalDigits (octet ip 0) := by
  rw [quadText, octets_eq]
  simp [List.intercalate]

/-- The text is a dotted quad of the address. -/
theorem isDottedQuad_quadText (ip : UInt32) : IsDottedQuad ip (quadText ip) := by
  refine ⟨_, rfl, fun part hpart => ?_, ?_⟩
  · obtain ⟨n, -, rfl⟩ := List.mem_map.mp hpart
    exact isCanonical_decimalDigits n
  · rw [List.map_map]
    exact List.map_id'' numeralValue_decimalDigits _

theorem zero_not_mem_quadText (ip : UInt32) : 0 ∉ quadText ip := by
  rw [quadText_eq]
  have hdigits := zero_not_mem_decimalDigits
  simp [hdigits]

/-- `ip_to_str`, as a string, is that text. -/
theorem ipToStr_bytes (ip : UInt32) : (ipToStr ip.toNat).bytes = quadText ip := by
  have hoctet : ∀ shift : Nat,
      intToStr (Int.ofNat (ip.toNat / 2 ^ shift % 256)) = decimalDigits (ip.toNat / 2 ^ shift % 256) :=
    fun shift => intToStr_octet (Nat.mod_lt _ (by omega))
  have htext : (ipToStr ip.toNat).bytes = (quadText ip).takeWhile (· ≠ 0) := by
    rw [quadText, octets, ipToStr]
    dsimp only
    rw [hoctet, hoctet, hoctet, hoctet]
    simp [arrayString, List.intercalate]
  rw [htext]
  exact List.takeWhile_eq_self_iff.mpr fun c hc =>
    decide_eq_true fun hzero => zero_not_mem_quadText ip (hzero ▸ hc)

/-- So 16 bytes are enough for it. -/
theorem length_quadText_le (ip : UInt32) : (quadText ip).length ≤ 15 := by
  have h₁ := length_octet_le (octet_lt ip 24)
  have h₂ := length_octet_le (octet_lt ip 16)
  have h₃ := length_octet_le (octet_lt ip 8)
  have h₄ := length_octet_le (octet_lt ip 0)
  rw [quadText_eq]
  simp only [List.length_append, List.length_singleton]
  omega

/-- **What `ip_to_str` leaves**, and it writes nothing else. -/
theorem ipToStrAt_eq {mem : Memory} {ip : UInt32} {buf : Ptr} (hroom : buf.addr + 16 ≤ buf.limit) :
    ipToStrAt mem ip buf = some (putBytes mem buf.addr (quadText ip ++ [0])) := by
  have h₁ := length_octet_le (octet_lt ip 24)
  have h₂ := length_octet_le (octet_lt ip 16)
  have h₃ := length_octet_le (octet_lt ip 8)
  -- each octet begins where the one before it ended
  have hfirst := @octetDot_eq mem buf [] _ (octet_lt ip 24) (by rw [List.length_nil]; omega)
  rw [putBytes_nil, List.nil_append] at hfirst
  have hsecond := @octetDot_eq mem buf (decimalDigits (octet ip 24) ++ [0x2E]) _ (octet_lt ip 16)
    (by simp only [List.length_append, List.length_singleton]; omega)
  have hthird := @octetDot_eq mem buf
    (decimalDigits (octet ip 24) ++ [0x2E] ++ (decimalDigits (octet ip 16) ++ [0x2E])) _ (octet_lt ip 8)
    (by simp only [List.length_append, List.length_singleton]; omega)
  have hlast := @intToStrAt_octet mem buf (decimalDigits (octet ip 24) ++ [0x2E] ++
    (decimalDigits (octet ip 16) ++ [0x2E]) ++ (decimalDigits (octet ip 8) ++ [0x2E])) _ (octet_lt ip 0)
    (by simp only [List.length_append, List.length_singleton]; omega)
  rw [ipToStrAt, quadText_eq]
  show (octetDot mem (octet ip 24) (buf.add 0)).bind _ = _
  rw [List.length_nil] at hfirst
  rw [hfirst]
  dsimp only [Option.bind_eq_bind, Option.bind_some]
  rw [hsecond]
  dsimp only [Option.bind_some]
  rw [hthird]
  dsimp only [Option.bind_some]
  rw [hlast, List.append_assoc _ _ [0]]

/-- **What printing an address should leave** in a buffer of 16 bytes, whatever
else the memory holds. -/
def PrintsQuad (ip : UInt32) : Prop :=
  ∀ (mem : Memory) (buf : Ptr), buf.addr + 16 ≤ buf.limit →
    ∃ mem', ipToStrAt mem ip buf = some mem' ∧ StringIn mem' buf.addr (ipToStr ip.toNat).bytes ∧
      ∀ p, p < buf.addr ∨ buf.addr + 16 ≤ p → mem' p = mem p

/-- **`ip_to_str` is exact and injective.** -/
theorem ip_to_str_exact (ip ip' : UInt32) :
    PrintsQuad ip ∧ IsDottedQuad ip (ipToStr ip.toNat).bytes ∧ strlen (ipToStr ip.toNat) ≤ 15 ∧
      parseQuad (ipToStr ip.toNat).bytes = some ip ∧
      (ipToStr ip.toNat = ipToStr ip'.toNat → ip = ip') := by
  have hparse : ∀ ip, parseQuad (ipToStr ip.toNat).bytes = some ip := fun ip =>
    parseQuad_of_isDottedQuad (ipToStr_bytes ip ▸ isDottedQuad_quadText ip)
  have hlen := length_quadText_le ip
  refine ⟨fun mem buf hroom => ⟨_, ipToStrAt_eq hroom, ?_, fun p hp => ?_⟩, ?_, ?_, hparse ip, fun heq => ?_⟩
  · rw [ipToStr_bytes]
    exact stringIn_putBytes _ _ _
  · rcases hp with hlow | hhigh
    · exact putBytes_of_lt _ hlow
    · exact putBytes_of_le (by rw [List.length_append, List.length_singleton]; omega)
  · rw [ipToStr_bytes]
    exact isDottedQuad_quadText ip
  · rw [strlen, ipToStr_bytes]
    exact hlen
  · have hboth := hparse ip
    rw [heq, hparse ip'] at hboth
    exact (Option.some.inj hboth).symm

end Srunix
