import Mathlib.Data.FinEnum
import Srunix.Library.TimeShare
import Srunix.Lib.Pring

/-!
# Decoding scancodes (`keyboard_getchar`, `lib/prdio.h`)

`keyboard_getchar` polls port `0x60`. A `Keyboard` is what stands between two
reads of the port: the four modifier globals, and whether the last byte was the
prefix `0xE0` of an extended key. `keyboardByte` is what one byte does.

The prefix is tested for after the release test, and `0xE0` has the release
bit: the four extended keys of the source are never decoded
(`prefixRead_never`), and their second bytes are looked up in the maps, behind
whose ends they point.
-/

namespace Srunix

open Library

/-- `KEY_ENTER`. -/
abbrev keyEnter : UInt8 := 0x1C
/-- `KEY_BACKSPACE`. -/
abbrev keyBackspace : UInt8 := 0x0E
/-- `KEY_ESC`. -/
abbrev keyEsc : UInt8 := 0x01
/-- `KEY_UP`, which comes behind `0xE0`. -/
abbrev keyUp : UInt8 := 0x48
/-- `KEY_DOWN`, which comes behind `0xE0`. -/
abbrev keyDown : UInt8 := 0x50
/-- `KEY_LEFT`, which comes behind `0xE0`. -/
abbrev keyLeft : UInt8 := 0x4B
/-- `KEY_RIGHT`, which comes behind `0xE0`. -/
abbrev keyRight : UInt8 := 0x4D
/-- `KEY_LSHIFT`. -/
abbrev keyLshift : UInt8 := 0x2A
/-- `KEY_RSHIFT`. -/
abbrev keyRshift : UInt8 := 0x36
/-- `KEY_CTRL`, of both keys. -/
abbrev keyCtrl : UInt8 := 0x1D
/-- `KEY_ALT`, of both keys. -/
abbrev keyAlt : UInt8 := 0x38
/-- `KEY_CAPSLOCK`. -/
abbrev keyCapslock : UInt8 := 0x3A
/-- `KEY_SPACE`. -/
abbrev keySpace : UInt8 := 0x39
/-- `KEY_F1`, the first of nine codes in a row. -/
abbrev keyF1 : UInt8 := 0x3B
/-- `KEY_F9`, the last of nine codes in a row. -/
abbrev keyF9 : UInt8 := 0x43
/-- `KEY_F10`, which is ignored. -/
abbrev keyF10 : UInt8 := 0x44

/-- The flags of `keyboard_getchar`, one for both keys of a kind, and where it stands. -/
structure Keyboard where
  shiftPressed : Bool
  ctrlPressed : Bool
  altPressed : Bool
  capsLock : Bool
  /-- Control stands at the `inb` inside `if (scancode == 0xE0)`. -/
  prefixRead : Bool
deriving DecidableEq

/-- The globals as they are initialised, nothing read yet. -/
def Keyboard.boot : Keyboard := ⟨false, false, false, false, false⟩

/-- What a byte makes of the round of the polling loop it is read in. -/
inductive Scan where
  /-- The loop goes on polling. -/
  | poll
  /-- `return c;` -/
  | ret (c : UInt8)
  /-- `switch_tty(ttyNum); continue;` -/
  | switchTty (ttyNum : Nat)
  /-- `keyboard_map_upper[index]` or `keyboard_map_lower[index]` is read. -/
  | map (uppercase : Bool) (index : Nat)
deriving DecidableEq

/-- The branch `if (scancode & 0x80)`. -/
def keyReleased (k : Keyboard) (releasedKey : UInt8) : Keyboard :=
  if releasedKey = keyLshift ∨ releasedKey = keyRshift then { k with shiftPressed := false }
  else if releasedKey = keyCtrl then { k with ctrlPressed := false }
  else if releasedKey = keyAlt then { k with altPressed := false }
  else k

/-- The part from `if (scancode == KEY_ENTER)` to the end of the body. -/
def namedKey (k : Keyboard) (scancode : UInt8) : Scan :=
  if scancode = keyEnter then .ret 0x0A
  else if scancode = keyBackspace then .ret 0x08
  else if scancode = keyEsc then .ret 0x1B
  else if scancode = keySpace then .ret 0x20
  -- nine tests, `KEY_F1` to `KEY_F9`, for the terminals 0 to 8
  else if keyF1 ≤ scancode ∧ scancode ≤ keyF9 then .switchTty (scancode - keyF1).toNat
  else if scancode = keyF10 then .ret 0xFA
  else if scancode < 0x80 then
    if k.ctrlPressed then
      if 0x10 ≤ scancode ∧ scancode ≤ 0x1C then .ret (scancode - 0x10 + 1) else .poll
    else if k.altPressed then .poll
    else .map (k.shiftPressed != k.capsLock) scancode.toNat
  else .poll

/-- The `switch` on the byte after the prefix, falling through to the rest. -/
def extendedKey (k : Keyboard) (scancode : UInt8) : Scan :=
  if scancode = keyUp then .ret 0x11
  else if scancode = keyDown then .ret 0x12
  else if scancode = keyLeft then .ret 0x13
  else if scancode = keyRight then .ret 0x14
  else namedKey k scancode

/-- One byte of port `0x60`. -/
def keyboardByte (k : Keyboard) (scancode : UInt8) : Keyboard × Scan :=
  if k.prefixRead then
    let k := { k with prefixRead := false }
    (k, extendedKey k scancode)
  else if scancode &&& 0x80 ≠ 0 then (keyReleased k (scancode &&& 0x7F), .poll)
  else if scancode = keyLshift ∨ scancode = keyRshift then ({ k with shiftPressed := true }, .poll)
  else if scancode = keyCtrl then ({ k with ctrlPressed := true }, .poll)
  else if scancode = keyAlt then ({ k with altPressed := true }, .poll)
  else if scancode = keyCapslock then ({ k with capsLock := !k.capsLock }, .poll)
  else if scancode = 0xE0 then ({ k with prefixRead := true }, .poll)
  else (k, namedKey k scancode)

/-- `keyboard_map_lower`. It has 59 bytes; what is read behind it is not its own. -/
def keyboardMapLower : List UInt8 :=
  [0x00, 0x1B] ++ CString.bytes "1234567890-=" ++ [0x08] ++ [0x00] ++
    CString.bytes "qwertyuiop[]" ++ [0x0D] ++ [0x00] ++ CString.bytes "asdfghjkl;'\x60" ++
    [0x00] ++ CString.bytes "\\zxcvbnm,./" ++ [0x00, 0x00, 0x00] ++ CString.bytes " " ++ [0x00]

/-- `keyboard_map_upper`, as long as the other. -/
def keyboardMapUpper : List UInt8 :=
  [0x00, 0x1B] ++ CString.bytes "!@#$%^&*()_+" ++ [0x08] ++ [0x00] ++
    CString.bytes "QWERTYUIOP\x7b\x7d" ++ [0x0D] ++ [0x00] ++ CString.bytes "ASDFGHJKL:\"~" ++
    [0x00] ++ CString.bytes "|ZXCVBNM<>?" ++ [0x00, 0x00, 0x00] ++ CString.bytes " " ++ [0x00]

/-- The map `keyboard_getchar` takes its character from. -/
def keyboardMap (uppercase : Bool) : List UInt8 :=
  if uppercase then keyboardMapUpper else keyboardMapLower

/-- `beyond` is what memory holds behind the ends of the two arrays. -/
def mapByte (beyond : Bool → Nat → UInt8) (uppercase : Bool) (index : Nat) : UInt8 :=
  (keyboardMap uppercase).getD index (beyond uppercase index)

/-- `keyboard_getchar` on the bytes that come: what it returns and what is left,
`none` while it still polls. A `switch_tty` that calls `login_screen` reads on
with the same globals. -/
def keyboardGetchar (beyond : Bool → Nat → UInt8) :
    Keyboard → List UInt8 → Option (UInt8 × Keyboard × List UInt8)
  | _, [] => none
  | k, scancode :: rest =>
    match keyboardByte k scancode with
    | (k, .ret c) => some (c, k, rest)
    | (k, .map uppercase index) =>
      let c := mapByte beyond uppercase index
      if c ≠ 0 then some (c, k, rest) else keyboardGetchar beyond k rest
    | (k, .switchTty _) => keyboardGetchar beyond k rest
    | (k, .poll) => keyboardGetchar beyond k rest

/-- The globals after a stream. -/
def keyboardAfter (k : Keyboard) (stream : List UInt8) : Keyboard :=
  runOps (fun k scancode => (keyboardByte k scancode).1) k stream

/-! ## Which bytes reach which branch -/

/-- The bit that `keyboard_getchar` tests. -/
theorem release_bit_iff : ∀ scancode : UInt8, scancode &&& 0x80 ≠ 0 ↔ 0x80 ≤ scancode := by
  decide +kernel

theorem press_bit {scancode : UInt8} (h : scancode < 0x80) : scancode &&& 0x80 = 0 := by
  by_contra hbit
  exact absurd ((release_bit_iff scancode).mp hbit) (UInt8.not_le.mpr h)

section Branches

variable {k : Keyboard} (hk : k.prefixRead = false) {scancode : UInt8}

include hk

/-- A release returns nothing. -/
theorem keyboardByte_release (h : 0x80 ≤ scancode) :
    keyboardByte k scancode = (keyReleased k (scancode &&& 0x7F), .poll) := by
  rw [keyboardByte]
  rw [if_neg (by rw [hk]; exact Bool.false_ne_true), if_pos ((release_bit_iff scancode).mpr h)]

/-- What is left for the named keys and the maps. -/
theorem keyboardByte_press (h : scancode < 0x80) (hmod : scancode ∉
      [keyLshift, keyRshift, keyCtrl, keyAlt, keyCapslock]) :
    keyboardByte k scancode = (k, namedKey k scancode) := by
  have hextended : scancode ≠ 0xE0 := by
    rintro rfl
    exact absurd h (by decide)
  simp only [List.mem_cons, List.not_mem_nil, or_false, not_or] at hmod
  obtain ⟨hl, hr, hc, ha, hcaps⟩ := hmod
  rw [keyboardByte]
  rw [if_neg (by rw [hk]; exact Bool.false_ne_true),
    if_neg (not_not_intro (press_bit h)), if_neg (by simp [hl, hr]), if_neg hc, if_neg ha,
    if_neg hcaps, if_neg hextended]

/-- A modifier key sets its global and the loop goes on polling. -/
theorem keyboardByte_modifier (hmod : scancode ∈
      [keyLshift, keyRshift, keyCtrl, keyAlt, keyCapslock]) :
    ∃ k', keyboardByte k scancode = (k', .poll) ∧ k'.prefixRead = false := by
  obtain ⟨shiftPressed, ctrlPressed, altPressed, capsLock, prefixRead⟩ := k
  cases hk
  simp only [List.mem_cons, List.not_mem_nil, or_false] at hmod
  rcases hmod with rfl | rfl | rfl | rfl | rfl <;> exact ⟨_, rfl, rfl⟩

variable (scancode) in
/-- A byte is a modifier's or a release, or it is for the part behind them. -/
theorem keyboardByte_cases :
    (∃ k', keyboardByte k scancode = (k', .poll) ∧ k'.prefixRead = false) ∨
      keyboardByte k scancode = (k, namedKey k scancode) := by
  by_cases hmake : scancode < 0x80
  · by_cases hmod : scancode ∈ [keyLshift, keyRshift, keyCtrl, keyAlt, keyCapslock]
    · exact .inl (keyboardByte_modifier hk hmod)
    · exact .inr (keyboardByte_press hk hmake hmod)
  · refine .inl ⟨_, keyboardByte_release hk (UInt8.not_lt.mp hmake), ?_⟩
    rw [keyReleased]
    split_ifs <;> exact hk

/-- **The prefix is never seen**: its byte is taken for a release. -/
theorem keyboardByte_prefixRead : (keyboardByte k scancode).1.prefixRead = false := by
  rcases keyboardByte_cases hk scancode with ⟨k', heq, hk'⟩ | heq
  · rw [heq]
    exact hk'
  · rw [heq]
    exact hk

end Branches

/-- The second byte behind `0xE0` is never waited for. -/
theorem prefixRead_never {k : Keyboard} (hk : k.prefixRead = false) (stream : List UInt8) :
    (keyboardAfter k stream).prefixRead = false := by
  have hstep : ∀ (k : Keyboard) (scancode : UInt8), k.prefixRead = false → True →
      (keyboardByte k scancode).1.prefixRead = false := fun _ _ h _ => keyboardByte_prefixRead h
  exact runOps_invariant hstep hk fun _ _ => trivial

/-- Neither Ctrl nor Alt is held, as far as the globals say. -/
def Keyboard.Plain (k : Keyboard) : Prop := k.ctrlPressed = false ∧ k.altPressed = false

instance (k : Keyboard) : Decidable k.Plain := inferInstanceAs (Decidable (_ ∧ _))

/-- Press codes behind the ends of the maps, up to `0x7F`: F11 and F12, the
number pad, and the second bytes of the extended arrow keys. -/
def BehindMaps (scancode : UInt8) : Prop := 0x45 ≤ scancode ∧ scancode < 0x80

instance (scancode : UInt8) : Decidable (BehindMaps scancode) := inferInstanceAs (Decidable (_ ∧ _))

theorem length_keyboardMap (uppercase : Bool) : (keyboardMap uppercase).length = 59 := by
  cases uppercase <;> rfl

/-- A code behind the maps is looked up all the same. -/
theorem namedKey_behindMaps {k : Keyboard} (hk : k.Plain) {scancode : UInt8}
    (h : BehindMaps scancode) :
    namedKey k scancode = .map (k.shiftPressed != k.capsLock) scancode.toNat := by
  have hother : scancode ≠ keyEnter ∧ scancode ≠ keyBackspace ∧ scancode ≠ keyEsc ∧
      scancode ≠ keySpace ∧ ¬ (keyF1 ≤ scancode ∧ scancode ≤ keyF9) ∧ scancode ≠ keyF10 := by
    revert h scancode
    decide +kernel
  obtain ⟨henter, hbackspace, hesc, hspace, hf, hf10⟩ := hother
  rw [namedKey]
  rw [if_neg henter, if_neg hbackspace, if_neg hesc, if_neg hspace, if_neg hf, if_neg hf10,
    if_pos h.2, if_neg (by simp [hk.1]), if_neg (by simp [hk.2])]

/-- A test that does not lead to the value was failed. -/
theorem of_ite_eq {α : Type} {c : Prop} [Decidable c] {a b d : α} (h : (if c then a else b) = d)
    (hne : a ≠ d) : ¬ c ∧ b = d :=
  (ite_eq_iff.mp h).resolve_left fun hboth => hne hboth.2

/-- When the maps are asked: a press with neither control nor alt, of a key that has
no name. -/
theorem plain_of_namedKey {k : Keyboard} {scancode : UInt8} {uppercase : Bool} {index : Nat}
    (h : namedKey k scancode = .map uppercase index) :
    k.Plain ∧ scancode < 0x80 ∧ index = scancode.toNat ∧
      ¬ (keyF1 ≤ scancode ∧ scancode ≤ keyF9) ∧ scancode ≠ keyF10 := by
  rw [namedKey] at h
  obtain ⟨-, h⟩ := of_ite_eq h nofun
  obtain ⟨-, h⟩ := of_ite_eq h nofun
  obtain ⟨-, h⟩ := of_ite_eq h nofun
  obtain ⟨-, h⟩ := of_ite_eq h nofun
  obtain ⟨hf, h⟩ := of_ite_eq h nofun
  obtain ⟨hf10, h⟩ := of_ite_eq h nofun
  split at h
  · rename_i hmake
    have hctrlRet : (if 0x10 ≤ scancode ∧ scancode ≤ 0x1C then Scan.ret (scancode - 0x10 + 1)
        else .poll) ≠ .map uppercase index := by
      split <;> exact nofun
    obtain ⟨hctrl, h⟩ := of_ite_eq h hctrlRet
    obtain ⟨halt, h⟩ := of_ite_eq h nofun
    obtain ⟨-, rfl⟩ := Scan.map.inj h
    exact ⟨⟨by simpa using hctrl, by simpa using halt⟩, hmake, rfl, hf, hf10⟩
  · exact nomatch h

theorem keyboardByte_behindMaps {k : Keyboard} (hk : k.prefixRead = false) {scancode : UInt8}
    (h : BehindMaps scancode) : keyboardByte k scancode = (k, namedKey k scancode) := by
  refine keyboardByte_press hk h.2 ?_
  revert h scancode
  decide +kernel

/-- A lookup comes from the part behind the modifier keys. -/
theorem keyboardByte_map {k : Keyboard} (hk : k.prefixRead = false) {scancode : UInt8}
    {uppercase : Bool} {index : Nat} (h : (keyboardByte k scancode).2 = .map uppercase index) :
    namedKey k scancode = .map uppercase index := by
  rcases keyboardByte_cases hk scancode with ⟨k', heq, -⟩ | heq
  · rw [heq] at h
    exact nomatch h
  · rwa [heq] at h

/-- **A lookup misses the maps on these bytes only.** -/
theorem lookup_behind_iff {k : Keyboard} (hk : k.prefixRead = false) (scancode : UInt8) :
    (∃ uppercase index, (keyboardByte k scancode).2 = .map uppercase index ∧
      (keyboardMap uppercase).length ≤ index) ↔ k.Plain ∧ BehindMaps scancode := by
  constructor
  · rintro ⟨uppercase, index, hmap, hindex⟩
    obtain ⟨hplain, hmake, rfl, hf, hf10⟩ := plain_of_namedKey (keyboardByte_map hk hmap)
    rw [length_keyboardMap] at hindex
    refine ⟨hplain, ?_, hmake⟩
    clear hmap
    revert hindex hmake hf hf10
    revert scancode
    decide +kernel
  · rintro ⟨hplain, hbehind⟩
    refine ⟨k.shiftPressed != k.capsLock, scancode.toNat, ?_, ?_⟩
    · rw [keyboardByte_behindMaps hk hbehind]
      exact namedKey_behindMaps hplain hbehind
    rw [length_keyboardMap]
    revert hbehind
    revert scancode
    decide +kernel

/-! ## The law of the extended keys -/

/-- The extended keys of `keyboard_getchar` and the bytes it means to return. -/
def extendedKeys : List (UInt8 × UInt8) :=
  [(keyUp, 0x11), (keyDown, 0x12), (keyLeft, 0x13), (keyRight, 0x14)]

theorem behindMaps_of_extended {key : UInt8 × UInt8} (h : key ∈ extendedKeys) :
    BehindMaps key.1 := by
  simp only [extendedKeys, List.mem_cons, List.not_mem_nil, or_false] at h
  rcases h with rfl | rfl | rfl | rfl <;> decide

/-- Wherever the two bytes of an extended key come and neither Ctrl nor Alt is
held, `keyboard_getchar` returns its byte; and every index used on the two maps
is inside them. -/
structure DecodesExtended (beyond : Bool → Nat → UInt8) (k : Keyboard) (stream : List UInt8) :
    Prop where
  extended : ∀ pre key post, key ∈ extendedKeys → stream = pre ++ 0xE0 :: key.1 :: post →
    (keyboardAfter k pre).Plain →
    ∃ k', keyboardGetchar beyond (keyboardAfter k pre) (0xE0 :: key.1 :: post) =
      some (key.2, k', post)
  inside : ∀ pre scancode post, stream = pre ++ scancode :: post → ∀ uppercase index,
    (keyboardByte (keyboardAfter k pre) scancode).2 = .map uppercase index →
    index < (keyboardMap uppercase).length

/-- No byte of the stream that is read with neither Ctrl nor Alt held lies
behind the maps. -/
def NoneBehindMaps (k : Keyboard) (stream : List UInt8) : Prop :=
  ∀ pre scancode post, stream = pre ++ scancode :: post → (keyboardAfter k pre).Plain →
    ¬ BehindMaps scancode

/-- The prefix alone changes nothing. -/
theorem keyboardByte_extended {k : Keyboard} (hk : k.prefixRead = false) :
    keyboardByte k 0xE0 = (k, .poll) := by
  rw [keyboardByte_release hk (by decide)]
  rfl

theorem keyboardAfter_extended {k : Keyboard} (hk : k.prefixRead = false) (pre : List UInt8) :
    keyboardAfter k (pre ++ [0xE0]) = keyboardAfter k pre := by
  show runOps _ k (pre ++ [0xE0]) = _
  rw [runOps_append]
  show (keyboardByte (keyboardAfter k pre) 0xE0).1 = _
  rw [keyboardByte_extended (prefixRead_never hk pre)]

/-- **The extended keys decode on exactly the streams that never ask for one.** -/
theorem decodesExtended_iff (beyond : Bool → Nat → UInt8) (k : Keyboard)
    (hk : k.prefixRead = false) (stream : List UInt8) :
    DecodesExtended beyond k stream ↔ NoneBehindMaps k stream := by
  constructor
  · intro h pre scancode post hstream hplain hbehind
    obtain ⟨uppercase, index, hmap, hindex⟩ :=
      (lookup_behind_iff (prefixRead_never hk pre) scancode).mpr ⟨hplain, hbehind⟩
    exact absurd (h.inside pre scancode post hstream uppercase index hmap) (by omega)
  · intro h
    refine ⟨?_, ?_⟩
    · -- the second byte of an extended key lies behind the maps
      intro pre key post hkey hstream hplain
      rw [← keyboardAfter_extended hk] at hplain
      have hsplit : stream = (pre ++ [0xE0]) ++ key.1 :: post := by rw [hstream]; simp
      exact absurd (behindMaps_of_extended hkey) (h _ _ _ hsplit hplain)
    · intro pre scancode post hstream uppercase index hmap
      by_contra hout
      have hboth := (lookup_behind_iff (prefixRead_never hk pre) scancode).mp
        ⟨uppercase, index, hmap, by omega⟩
      exact h pre scancode post hstream hboth.1 hboth.2

/-- Typing a letter asks for nothing behind the maps. -/
theorem decodesExtended_letter :
    DecodesExtended (fun _ _ => 0) Keyboard.boot [0x1E, 0x9E] := by
  refine (decodesExtended_iff _ Keyboard.boot rfl _).mpr fun pre scancode post hstream _ => ?_
  have hall : ∀ b ∈ [0x1E, 0x9E], ¬ BehindMaps b := by decide +kernel
  exact hall scancode (by rw [hstream]; simp)

/-- The up arrow, pressed right after boot, is looked up at index `0x48`. -/
theorem not_decodesExtended_up :
    ¬ DecodesExtended (fun _ _ => 0) Keyboard.boot [0xE0, keyUp] := by
  intro h
  have hmap : (keyboardByte (keyboardAfter Keyboard.boot [0xE0]) keyUp).2 = .map false 0x48 := by
    decide
  have hindex := h.inside [0xE0] keyUp [] rfl false 0x48 hmap
  rw [length_keyboardMap] at hindex
  exact absurd hindex (by decide)

end Srunix
