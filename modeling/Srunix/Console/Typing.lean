import Srunix.Console.Modifiers
import Srunix.Console.Frames

/-!
# From the hands to the shell

`decode` is what the loops around `keyboard_getchar` get out of the bytes of
port `0x60`, the function keys included. A typist has a US keyboard before him,
presses keys, lets go of them in any order, and means by each press the legend
that is up: `typedBy`.

The two agree on every run of a typist who keeps to the text keys, Shift and
the function keys and does not let go of one Shift while the other is down
(`decode_eq_typedBy`), and every text of the 94 legends, blanks, line ends and
backspaces can be typed that way (`decode_typed`).
-/

namespace Srunix

open Library

/-- A character that `keyboard_getchar` returns; 0 is none. -/
def charKey (c : UInt8) : Option Key := if h : c ≠ 0 then some (.char ⟨c, h⟩) else none

theorem charKey_val (c : KeyChar) : charKey c.val = some (.char c) := dif_pos c.property

/-! ## What the bytes decode to -/

/-- The key that a scancode completes. -/
def Scan.key (beyond : Bool → Nat → UInt8) : Scan → Option Key
  | .poll => none
  | .ret c => charKey c
  | .switchTty ttyNum => if h : ttyNum < maxTtys then some (.function ⟨ttyNum, h⟩) else none
  | .map uppercase index => charKey (mapByte beyond uppercase index)

/-- The keys a stream of scancodes completes, one call of `keyboard_getchar` after the
other. -/
def decode (beyond : Bool → Nat → UInt8) (k : Keyboard) (stream : List UInt8) : List Key :=
  outputs (fun k scancode => (keyboardByte k scancode).1)
    (fun k scancode => (keyboardByte k scancode).2.key beyond) k stream

section Decode

variable (beyond : Bool → Nat → UInt8)

theorem decode_cons (k : Keyboard) (scancode : UInt8) (stream : List UInt8) :
    decode beyond k (scancode :: stream) =
      ((keyboardByte k scancode).2.key beyond).toList
        ++ decode beyond (keyboardByte k scancode).1 stream := rfl

/-- A stream is decoded from left to right. -/
theorem decode_append (k : Keyboard) (stream rest : List UInt8) :
    decode beyond k (stream ++ rest) =
      decode beyond k stream ++ decode beyond (keyboardAfter k stream) rest :=
  outputs_append _ _ k stream rest

/-- No key of the source returns the byte 0. -/
theorem ne_zero_of_ret {k : Keyboard} (hk : k.prefixRead = false) {scancode c : UInt8}
    (h : (keyboardByte k scancode).2 = .ret c) : c ≠ 0 := by
  rcases keyboardByte_cases hk scancode with ⟨k', heq, -⟩ | heq
  · rw [heq] at h
    cases h
  rw [heq] at h
  -- Ctrl with a letter comes to the place of the letter, from 1 on
  have hctrl : ∀ scancode : UInt8, 0x10 ≤ scancode ∧ scancode ≤ 0x1C → scancode - 0x10 + 1 ≠ 0 := by
    decide +kernel
  have hreturn : ∀ {p : Prop} [Decidable p] {a : UInt8} {b : Scan}, a ≠ 0 →
      (if p then .ret a else b) = .ret c → c ≠ 0 ∨ b = .ret c := by
    intro p _ a b ha heq
    rcases ite_eq_iff.mp heq with ⟨-, hret⟩ | ⟨-, hrest⟩
    · cases hret
      exact .inl ha
    · exact .inr hrest
  rw [namedKey] at h
  -- the keys with a code of their own, one `if` after the other
  refine (hreturn (by decide) h).elim id fun h => ?_
  refine (hreturn (by decide) h).elim id fun h => ?_
  refine (hreturn (by decide) h).elim id fun h => ?_
  refine (hreturn (by decide) h).elim id fun h => ?_
  obtain ⟨-, h⟩ := of_ite_eq h fun hpoll => by cases hpoll
  refine (hreturn (by decide) h).elim id fun h => ?_
  split at h
  · split at h
    · split at h
      · cases h
        exact hctrl scancode ‹_›
      · cases h
    · split at h
      · cases h
      · cases h
  · cases h

/-- `decode` is `keyboard_getchar`, called again and again: each call switches
terminals on the way and ends with a character, or goes on polling. -/
theorem keyboardGetchar_decode {k : Keyboard} (hk : k.prefixRead = false) (stream : List UInt8) :
    (keyboardGetchar beyond k stream = none ∧
        ∃ ttys : List (Fin maxTtys), decode beyond k stream = ttys.map .function) ∨
      ∃ (c : KeyChar) (k' : Keyboard) (rest : List UInt8) (ttys : List (Fin maxTtys)),
        keyboardGetchar beyond k stream = some (c.val, k', rest) ∧ k'.prefixRead = false ∧
          decode beyond k stream = ttys.map .function ++ .char c :: decode beyond k' rest := by
  induction stream generalizing k with
  | nil => exact .inl ⟨rfl, [], rfl⟩
  | cons scancode rest ih =>
    have hk' : (keyboardByte k scancode).1.prefixRead = false := keyboardByte_prefixRead hk
    have hret : ∀ c, (keyboardByte k scancode).2 = .ret c → c ≠ 0 := fun c => ne_zero_of_ret hk
    rw [keyboardGetchar, decode_cons]
    generalize hbyte : keyboardByte k scancode = result at hk' hret
    obtain ⟨k', scan⟩ := result
    dsimp only at hk' hret ⊢
    -- a byte that returns nothing hands over to the rest of the stream
    have hgoOn : ∀ ttys : List (Fin maxTtys), (scan.key beyond).toList = ttys.map .function →
        (keyboardGetchar beyond k' rest = none ∧
          ∃ ttys : List (Fin maxTtys),
            (scan.key beyond).toList ++ decode beyond k' rest = ttys.map .function) ∨
        ∃ (c : KeyChar) (k'' : Keyboard) (rest' : List UInt8) (ttys : List (Fin maxTtys)),
          keyboardGetchar beyond k' rest = some (c.val, k'', rest') ∧ k''.prefixRead = false ∧
            (scan.key beyond).toList ++ decode beyond k' rest
              = ttys.map .function ++ .char c :: decode beyond k'' rest' := by
      intro here hhere
      rcases ih hk' with ⟨hnone, ttys, heq⟩ | ⟨c, k'', rest', ttys, hsome, hk'', heq⟩
      · exact .inl ⟨hnone, here ++ ttys, by rw [hhere, heq, List.map_append]⟩
      · refine .inr ⟨c, k'', rest', here ++ ttys, hsome, hk'', ?_⟩
        rw [hhere, heq, List.map_append, List.append_assoc]
    cases scan with
    | poll => exact hgoOn [] rfl
    | ret c =>
      refine .inr ⟨⟨c, hret c rfl⟩, k', rest, [], rfl, hk', ?_⟩
      show (charKey c).toList ++ _ = _
      rw [charKey, dif_pos (hret c rfl)]
      rfl
    | switchTty ttyNum =>
      by_cases htty : ttyNum < maxTtys
      · exact hgoOn [⟨ttyNum, htty⟩] (by rw [Scan.key, dif_pos htty]; rfl)
      · exact hgoOn [] (by rw [Scan.key, dif_neg htty]; rfl)
    | map uppercase index =>
      dsimp only
      by_cases hc : mapByte beyond uppercase index ≠ 0
      · rw [if_pos hc]
        refine .inr ⟨⟨_, hc⟩, k', rest, [], rfl, hk', ?_⟩
        show (charKey _).toList ++ _ = _
        rw [charKey, dif_pos hc]
        rfl
      · rw [if_neg hc]
        refine hgoOn [] ?_
        show (charKey _).toList = _
        rw [charKey, dif_neg hc]
        rfl

end Decode

/-! ## What a typist means -/

/-- The rows of a US keyboard: the code of the first key, and what is on the
keys below and above. -/
def usRows : List (Nat × List UInt8 × List UInt8) :=
  [(0x02, CString.bytes "1234567890-=", CString.bytes "!@#$%^&*()_+"),
    (0x10, CString.bytes "qwertyuiop[]", CString.bytes "QWERTYUIOP\x7b\x7d"),
    (0x1E, CString.bytes "asdfghjkl;'\x60", CString.bytes "ASDFGHJKL:\"~"),
    (0x2B, CString.bytes "\\zxcvbnm,./", CString.bytes "|ZXCVBNM<>?")]

/-- What is printed on a key, in the row it is in. -/
def legend (shift : Bool) (code : UInt8) : Option UInt8 :=
  usRows.findSome? fun (first, plain, shifted) =>
    if first ≤ code.toNat then (if shift then shifted else plain)[code.toNat - first]? else none

/-- What a press means, with Shift held or not. -/
def keyMeaning (shift : Bool) (code : UInt8) : Option Key :=
  if code = keyEnter then charKey 0x0A
  else if code = keyBackspace then charKey 0x08
  else if code = keySpace then charKey 0x20
  else if keyF1 ≤ code ∧ code ≤ keyF9 then some (.function (Fin.ofNat maxTtys (code - keyF1).toNat))
  else (legend shift code).bind charKey

/-- The keys a text is typed with, and the function keys. -/
def IsTextKey (key : PhysicalKey) : Prop :=
  key.extended = false ∧ (key.code ∈ [keyLshift, keyRshift] ∨ keyMeaning false key.code ≠ none)

instance (key : PhysicalKey) : Decidable (IsTextKey key) := inferInstanceAs (Decidable (_ ∧ _))

/-- A shift key is held. -/
def Hands.shift (h : Hands) : Bool := h.down .lshift || h.down .rshift

/-- The meaning of a key that goes down, with the shift keys as they are. -/
def typedKey (h : Hands) : KeyEvent → Option Key
  | .press key => keyMeaning h.shift key.code
  | .release _ => none

/-- What a typist has typed. -/
def typedBy (events : List KeyEvent) : List Key := outputs Hands.step typedKey .off events

/-- What a typist does: events the flags can follow, and presses of keys with a meaning. -/
structure TypistEvent (h : Hands) (e : KeyEvent) : Prop where
  safe : SafeEvent h e
  text : ∀ key, e = .press key → IsTextKey key

/-- All that is pressed and released is a typist's. -/
def Typing (events : List KeyEvent) : Prop := Guarded Hands.step TypistEvent .off events

/-! ## The maps are the legends -/

/-- On the keys with a legend `keyboard_getchar` gets to its maps, and finds it. -/
theorem legend_in_map : ∀ (code : UInt8) (shift : Bool), legend false code ≠ none →
    keyboardByte ⟨shift, false, false, false, false⟩ code
        = (⟨shift, false, false, false, false⟩, .map shift code.toNat) ∧
      legend shift code ≠ none ∧ (keyboardMap shift)[code.toNat]? = legend shift code := by
  decide +kernel

/-- The keys that have a meaning without a legend: Enter, Backspace, the space
bar and F1 to F9. -/
def namedKeys : List UInt8 :=
  [keyEnter, keyBackspace, keySpace, 0x3B, 0x3C, 0x3D, 0x3E, 0x3F, 0x40, 0x41, 0x42, 0x43]

theorem mem_namedKeys : ∀ code : UInt8, code ∈ namedKeys ↔
    code = keyEnter ∨ code = keyBackspace ∨ code = keySpace ∨ (keyF1 ≤ code ∧ code ≤ keyF9) := by
  decide +kernel

/-- All other keys mean what is printed on them. -/
theorem keyMeaning_of_not_named {shift : Bool} {code : UInt8} (h : code ∉ namedKeys) :
    keyMeaning shift code = (legend shift code).bind charKey := by
  rw [mem_namedKeys] at h
  simp only [not_or] at h
  rw [keyMeaning, if_neg h.1, if_neg h.2.1, if_neg h.2.2.1, if_neg h.2.2.2]

theorem named_key (beyond : Bool → Nat → UInt8) (shift : Bool) {code : UInt8} (h : code ∈ namedKeys) :
    (keyboardByte ⟨shift, false, false, false, false⟩ code).2.key beyond = keyMeaning shift code := by
  simp only [namedKeys, List.mem_cons, List.not_mem_nil, or_false] at h
  rcases h with rfl | rfl | rfl | rfl | rfl | rfl | rfl | rfl | rfl | rfl | rfl | rfl <;> rfl

theorem shift_means_nothing (shift : Bool) {code : UInt8} (h : code ∈ [keyLshift, keyRshift]) :
    (keyboardByte ⟨shift, false, false, false, false⟩ code).2 = .poll ∧
      keyMeaning shift code = none := by
  simp only [List.mem_cons, List.not_mem_nil, or_false] at h
  rcases h with rfl | rfl <;> cases shift <;> exact ⟨rfl, rfl⟩

/-- **A press of a text key** decodes to what it means. -/
theorem key_of_press (beyond : Bool → Nat → UInt8) (shift : Bool) {key : PhysicalKey}
    (h : IsTextKey key) :
    (keyboardByte ⟨shift, false, false, false, false⟩ key.code).2.key beyond
      = keyMeaning shift key.code := by
  obtain ⟨-, hshift | hmeans⟩ := h
  · obtain ⟨hpoll, hnone⟩ := shift_means_nothing shift hshift
    rw [hpoll, hnone]
    rfl
  by_cases hnamed : key.code ∈ namedKeys
  · exact named_key beyond shift hnamed
  -- a key without a name of its own is looked up in the maps
  · have hlegend : legend false key.code ≠ none := by
      rw [keyMeaning_of_not_named hnamed] at hmeans
      rintro hnone
      rw [hnone] at hmeans
      exact hmeans rfl
    obtain ⟨hbyte, hsome, hmap⟩ := legend_in_map key.code shift hlegend
    rw [hbyte, keyMeaning_of_not_named hnamed]
    show charKey (mapByte beyond shift key.code.toNat) = _
    cases hc : legend shift key.code with
    | none => exact absurd hc hsome
    | some c =>
      rw [hc] at hmap
      rw [mapByte, List.getD_eq_getElem?_getD, hmap]
      rfl

/-! ## One event -/

/-- What the bytes of an event decode to. -/
def eventKey (beyond : Bool → Nat → UInt8) (k : Keyboard) : KeyEvent → Option Key
  | .press key => (keyboardByte k key.code).2.key beyond
  | .release _ => none

/-- The scancodes of one event are decoded at one go. -/
theorem decode_scancodes (beyond : Bool → Nat → UInt8) {k : Keyboard} (hk : k.prefixRead = false)
    (e : KeyEvent) : decode beyond k (scancodes e) = (eventKey beyond k e).toList := by
  have hone : ∀ b : UInt8, decode beyond k [b] = ((keyboardByte k b).2.key beyond).toList := by
    intro b
    rw [decode_cons]
    exact List.append_nil _
  -- the prefix changes nothing and means nothing
  have hpre : decode beyond k (if e.key.extended then [0xE0] else []) = [] ∧
      keyboardAfter k (if e.key.extended then [0xE0] else []) = k := by
    split
    · refine ⟨?_, keyboardAfter_extended hk []⟩
      rw [hone, keyboardByte_extended hk]
      rfl
    · exact ⟨rfl, rfl⟩
  unfold scancodes
  rw [decode_append, hpre.1, hpre.2, List.nil_append]
  cases e with
  | press key => exact hone key.code
  | release key =>
    show decode beyond k [key.code ||| 0x80] = _
    rw [hone, keyboardByte_release hk (release_byte key.code key.isMake).1]
    rfl

/-- So are those of many. -/
theorem decode_events (beyond : Bool → Nat → UInt8) {k : Keyboard} (hk : k.prefixRead = false)
    (events : List KeyEvent) :
    decode beyond k (events.flatMap scancodes) = outputs keyboardEvent (eventKey beyond) k events := by
  induction events generalizing k with
  | nil => rfl
  | cons e events ih =>
    rw [List.flatMap_cons, decode_append, decode_scancodes beyond hk, keyboardAfter_scancodes hk,
      ih (k := keyboardEvent k e) hk]
    rfl

/-! ## Whole runs -/

/-- No modifier but Shift is down. -/
structure OnlyShift (h : Hands) : Prop where
  ctrl : ∀ key, PhysicalKey.isCtrl key = true → h.down key = false
  alt : ∀ key, PhysicalKey.isAlt key = true → h.down key = false
  caps : h.capsPresses = 0

theorem textKey_not_modifier : ∀ code : UInt8,
    code ∈ [keyLshift, keyRshift] ∨ keyMeaning false code ≠ none →
      code ≠ keyCtrl ∧ code ≠ keyAlt ∧ code ≠ keyCapslock := by
  intro code h
  have hcases : ∀ code : UInt8, code = keyCtrl ∨ code = keyAlt ∨ code = keyCapslock →
      code ∉ [keyLshift, keyRshift] ∧ keyMeaning false code = none := by
    rintro code (rfl | rfl | rfl) <;> exact ⟨by decide, rfl⟩
  refine ⟨?_, ?_, ?_⟩ <;> intro heq
  · exact h.elim (hcases code (.inl heq)).1 fun hne => hne (hcases code (.inl heq)).2
  · exact h.elim (hcases code (.inr (.inl heq))).1 fun hne => hne (hcases code (.inr (.inl heq))).2
  · exact h.elim (hcases code (.inr (.inr heq))).1 fun hne => hne (hcases code (.inr (.inr heq))).2

/-- A typist holds no other modifier. -/
theorem OnlyShift.step {h : Hands} (ho : OnlyShift h) {e : KeyEvent} (he : TypistEvent h e) :
    OnlyShift (h.step e) := by
  cases e with
  | release key =>
    have hdown : ∀ key', h.down key' = false → (h.step (.release key)).down key' = false := by
      intro key' hup
      by_cases heq : key' = key
      · rw [heq]
        exact hold_release h.down key
      · exact (hold_of_ne (e := .release key) h.down heq).trans hup
    exact ⟨fun key' hc => hdown key' (ho.ctrl key' hc), fun key' hc => hdown key' (ho.alt key' hc), ho.caps⟩
  | press key =>
    -- a key with a meaning is no modifier
    obtain ⟨-, htext⟩ := he.text key rfl
    obtain ⟨hctrl, halt, hcaps⟩ := textKey_not_modifier key.code htext
    have hdown : ∀ key', key' ≠ key → h.down key' = false →
        (h.step (.press key)).down key' = false :=
      fun key' hne hup => (hold_of_ne (e := .press key) h.down hne).trans hup
    refine ⟨fun key' hc => hdown key' ?_ (ho.ctrl key' hc), fun key' hc => hdown key' ?_ (ho.alt key' hc),
      ?_⟩
    · rintro rfl
      exact hctrl (by simpa [PhysicalKey.isCtrl] using hc)
    · rintro rfl
      exact halt (by simpa [PhysicalKey.isAlt] using hc)
    · show (if key = PhysicalKey.capslock ∧ h.down PhysicalKey.capslock = false then _ else _) = 0
      rw [if_neg fun hboth => hcaps (congrArg PhysicalKey.code hboth.1)]
      exact ho.caps

/-- The globals, with only Shift to follow. -/
structure Follows (k : Keyboard) (h : Hands) : Prop where
  noPrefix : k.prefixRead = false
  tracks : Tracks k h
  only : OnlyShift h

theorem Follows.boot : Follows .boot .off where
  noPrefix := rfl
  tracks := tracks_boot
  only := ⟨fun _ _ => rfl, fun _ _ => rfl, rfl⟩

/-- Where the flags follow the hands, the keyboard is in the state of its shift keys. -/
theorem Follows.keyboard_eq {k : Keyboard} {h : Hands} (hf : Follows k h) :
    k = ⟨h.shift, false, false, false, false⟩ := by
  have hshift : k.shiftPressed = h.shift := by
    have hheld : h.shift = true ↔ ∃ key, PhysicalKey.isShift key = true ∧ h.down key = true := by
      rw [Hands.shift, Bool.or_eq_true]
      constructor
      · rintro (hl | hr)
        · exact ⟨.lshift, rfl, hl⟩
        · exact ⟨.rshift, rfl, hr⟩
      -- a key of the group is one of the two, by its make code
      · rintro ⟨⟨extended, code, hmake⟩, hgroup, hdown⟩
        simp only [PhysicalKey.isShift, Bool.and_eq_true, Bool.not_eq_true', Bool.or_eq_true,
          beq_iff_eq] at hgroup
        obtain ⟨rfl, rfl | rfl⟩ := hgroup
        · exact .inl hdown
        · exact .inr hdown
    exact Bool.eq_iff_iff.mpr (hf.tracks.shift.trans hheld.symm)
  -- a typist holds no key of the other groups
  have hctrl : k.ctrlPressed = false := by
    refine Bool.eq_false_iff.mpr fun hflag => ?_
    obtain ⟨key, hgroup, hdown⟩ := hf.tracks.ctrl.mp hflag
    rw [hf.only.ctrl key hgroup] at hdown
    cases hdown
  have halt : k.altPressed = false := by
    refine Bool.eq_false_iff.mpr fun hflag => ?_
    obtain ⟨key, hgroup, hdown⟩ := hf.tracks.alt.mp hflag
    rw [hf.only.alt key hgroup] at hdown
    cases hdown
  have hcaps : k.capsLock = false := by
    rw [hf.tracks.caps, hf.only.caps]
    rfl
  obtain ⟨shiftPressed, ctrlPressed, altPressed, capsLock, prefixRead⟩ := k
  cases hf.noPrefix
  cases hctrl
  cases halt
  cases hcaps
  cases hshift
  rfl

/-- **What the kernel reads is what was typed.** -/
theorem decode_eq_typedBy (beyond : Bool → Nat → UInt8) {events : List KeyEvent}
    (htyping : Typing events) : decode beyond .boot (events.flatMap scancodes) = typedBy events := by
  rw [decode_events beyond rfl]
  refine outputs_eq_of_simulation (R := Follows) ?_ ?_ Follows.boot htyping
  · intro k h e hf he
    exact ⟨hf.noPrefix, hf.tracks.event he.safe, hf.only.step he⟩
  · intro k h e hf he
    cases e with
    | release key => rfl
    | press key =>
      show (keyboardByte k key.code).2.key beyond = keyMeaning h.shift key.code
      rw [hf.keyboard_eq]
      exact key_of_press beyond h.shift (he.text key rfl)

/-! ## Every text can be typed -/

/-- One key struck with all others up, under Shift if need be. -/
def stroke (shift : Bool) (key : PhysicalKey) : List KeyEvent :=
  if shift then [.press .lshift, .press key, .release key, .release .lshift]
  else [.press key, .release key]

/-- A key that types something is none of those that only modify. -/
theorem plain_of_means {shift : Bool} {code : UInt8} (h : keyMeaning shift code ≠ none) :
    code ∉ [keyLshift, keyRshift, keyCtrl, keyAlt, keyCapslock] := by
  intro hmem
  simp only [List.mem_cons, List.not_mem_nil, or_false] at hmem
  rcases hmem with rfl | rfl | rfl | rfl | rfl <;> cases shift <;> exact h rfl

theorem means_of_means : ∀ (shift : Bool) (code : UInt8), keyMeaning shift code ≠ none →
    keyMeaning false code ≠ none := by
  decide +kernel

section Stroke

variable {shift : Bool} {key : PhysicalKey} (hext : key.extended = false)
  (hmeans : keyMeaning shift key.code ≠ none)

include hext hmeans

theorem typistEvent_press (h : Hands) : TypistEvent h (.press key) := by
  have hplain := plain_of_means hmeans
  simp only [List.mem_cons, List.not_mem_nil, or_false, not_or] at hplain
  refine ⟨⟨nofun, nofun, nofun, fun heq => ?_, fun hfake => ?_⟩, fun key' heq => ?_⟩
  · exact absurd (congrArg (fun e : KeyEvent => e.key.code) heq) hplain.2.2.2.2
  · rw [PhysicalKey.Fake] at hfake
    exact absurd (hfake.1.symm.trans hext) Bool.noConfusion
  · cases heq
    exact ⟨hext, .inr (means_of_means shift key.code hmeans)⟩

theorem typistEvent_release (h : Hands) : TypistEvent h (.release key) := by
  have hplain := plain_of_means hmeans
  simp only [List.mem_cons, List.not_mem_nil, or_false, not_or] at hplain
  refine ⟨⟨?_, ?_, ?_, nofun, fun hfake => ?_⟩, nofun⟩
  · intro k heq hgroup
    cases heq
    simp [PhysicalKey.isShift, hplain.1, hplain.2.1] at hgroup
  · intro k heq hgroup
    cases heq
    simp [PhysicalKey.isCtrl, hplain.2.2.1] at hgroup
  · intro k heq hgroup
    cases heq
    simp [PhysicalKey.isAlt, hplain.2.2.2.1] at hgroup
  · rw [PhysicalKey.Fake] at hfake
    exact absurd (hfake.1.symm.trans hext) Bool.noConfusion

end Stroke

theorem typistEvent_lshift (h : Hands) : TypistEvent h (.press .lshift) := by
  refine ⟨⟨nofun, nofun, nofun, nofun, fun hfake => ?_⟩, fun key' heq => ?_⟩
  · exact Bool.noConfusion hfake.1
  · cases heq
    exact ⟨rfl, .inl (List.mem_cons_self ..)⟩

/-- Left Shift is let go of with nothing else down. -/
theorem typistEvent_lshift_up {h : Hands} (hdown : ∀ key, key ≠ .lshift → h.down key = false) :
    TypistEvent h (.release .lshift) := by
  refine ⟨⟨?_, ?_, ?_, nofun, fun hfake => Bool.noConfusion hfake.1⟩, nofun⟩
  · intro k heq _ k' _ hne
    cases heq
    exact hdown k' hne
  · intro k heq hgroup
    cases heq
    exact absurd hgroup (by decide)
  · intro k heq hgroup
    cases heq
    exact absurd hgroup (by decide)

theorem hands_ext {h : Hands} (hdown : ∀ key, h.down key = false) (hcaps : h.capsPresses = 0) :
    h = .off := by
  obtain ⟨down, caps⟩ := h
  cases hcaps
  exact congrArg (fun d => (⟨d, 0⟩ : Hands)) (funext hdown)

/-- **A stroke** is safe, types its meaning and leaves no key down. -/
theorem stroke_spec {shift : Bool} {key : PhysicalKey} (hext : key.extended = false) {k : Key}
    (hmeans : keyMeaning shift key.code = some k) (rest : List KeyEvent) (hrest : Typing rest) :
    Typing (stroke shift key ++ rest) ∧ typedBy (stroke shift key ++ rest) = k :: typedBy rest := by
  have hne : keyMeaning shift key.code ≠ none := by
    rw [hmeans]
    exact Option.some_ne_none k
  have hplain := plain_of_means hne
  simp only [List.mem_cons, List.not_mem_nil, or_false, not_or] at hplain
  have hnotShift : key ≠ .lshift ∧ key ≠ .rshift ∧ key ≠ .capslock :=
    ⟨fun heq => hplain.1 (congrArg PhysicalKey.code heq),
      fun heq => hplain.2.1 (congrArg PhysicalKey.code heq),
      fun heq => hplain.2.2.2.2 (congrArg PhysicalKey.code heq)⟩
  have hcaps : ∀ h : Hands, (h.step (.press key)).capsPresses = h.capsPresses := fun h =>
    if_neg fun hboth => hnotShift.2.2 hboth.1
  cases shift with
  | false =>
    -- nothing is held once the key is up again
    have hoff : (Hands.off.step (.press key)).step (.release key) = .off := by
      refine hands_ext (fun key' => ?_) (hcaps .off)
      show Function.update (Function.update (fun _ => false) key true) key false key' = false
      rw [Function.update_idem, Function.update_eq_self_iff.mpr rfl]
    refine ⟨⟨typistEvent_press hext hne _, typistEvent_release hext hne _, ?_⟩, ?_⟩
    · rw [hoff]
      exact hrest
    · show (keyMeaning Hands.off.shift key.code).toList ++ ([] ++ outputs Hands.step typedKey
        ((Hands.off.step (.press key)).step (.release key)) rest) = _
      rw [hoff, show Hands.off.shift = false from rfl, hmeans]
      rfl
  | true =>
    let h₁ := Hands.off.step (.press .lshift)
    let h₃ := (h₁.step (.press key)).step (.release key)
    -- the key leaves shift as it found it, which is then let go
    have hback : h₃ = h₁ := by
      have hdown : h₃.down = h₁.down := by
        show Function.update (Function.update (Function.update (fun _ => false) PhysicalKey.lshift true)
          key true) key false = Function.update (fun _ => false) PhysicalKey.lshift true
        rw [Function.update_idem, Function.update_eq_self_iff]
        exact (hold_of_ne (e := .press PhysicalKey.lshift) (fun _ => false) hnotShift.1).symm
      have hcount : h₃.capsPresses = h₁.capsPresses := hcaps h₁
      exact congrArg₂ Hands.mk hdown hcount
    have hoff : h₃.step (.release .lshift) = .off := by
      rw [hback]
      refine hands_ext (fun key' => ?_) rfl
      show Function.update (Function.update (fun _ => false) PhysicalKey.lshift true)
        PhysicalKey.lshift false key' = false
      rw [Function.update_idem, Function.update_eq_self_iff.mpr rfl]
    have hup : TypistEvent h₃ (.release .lshift) := by
      rw [hback]
      exact typistEvent_lshift_up fun key' hother =>
        hold_of_ne (e := .press PhysicalKey.lshift) (fun _ => false) hother
    refine ⟨⟨typistEvent_lshift _, typistEvent_press hext hne _, typistEvent_release hext hne _, hup, ?_⟩,
      ?_⟩
    · show Guarded Hands.step TypistEvent (h₃.step (.release .lshift)) rest
      rw [hoff]
      exact hrest
    · show (keyMeaning Hands.off.shift keyLshift).toList ++ ((keyMeaning h₁.shift key.code).toList
        ++ ([] ++ ([] ++ outputs Hands.step typedKey (h₃.step (.release .lshift)) rest))) = _
      have hheld : h₁.shift = true := by decide
      rw [hoff, hheld, hmeans]
      rfl

/-- Line ends, backspaces and printable ASCII. -/
def Typeable (c : UInt8) : Prop := c = 0x0A ∨ c = 0x08 ∨ (0x20 ≤ c ∧ c ≤ 0x7E)

instance (c : UInt8) : Decidable (Typeable c) := inferInstanceAs (Decidable (_ ∨ _))

/-- Every character that can be typed is on some key. -/
theorem exists_key : ∀ c : UInt8, Typeable c → ∃ shift : Bool, ∃ code : Fin 0x3A,
    keyMeaning shift (UInt8.ofNat code) = charKey c ∧ UInt8.ofNat code < 0x80 := by
  decide +kernel

/-- Every text of such characters can be typed. -/
theorem exists_typing {text : List KeyChar} (h : ∀ c ∈ text, Typeable c.val) :
    ∃ events, Typing events ∧ typedBy events = text.map .char := by
  induction text with
  | nil => exact ⟨[], trivial, rfl⟩
  | cons c text ih =>
    obtain ⟨events, htyping, htyped⟩ := ih fun c' hc' => h c' (List.mem_cons_of_mem _ hc')
    obtain ⟨shift, code, hmeans, hmake⟩ := exists_key c.val (h c (List.mem_cons_self ..))
    rw [charKey_val] at hmeans
    let key : PhysicalKey := ⟨false, UInt8.ofNat code, hmake⟩
    obtain ⟨htyping', htyped'⟩ := @stroke_spec shift key rfl _ hmeans events htyping
    exact ⟨stroke shift key ++ events, htyping', by rw [htyped', htyped]; rfl⟩

/-- **From the hands to the shell.** In every run of a typist the kernel reads
what was typed, whatever lies behind its maps; and any text is typed by some
run. -/
theorem decode_typed (beyond : Bool → Nat → UInt8) :
    (∀ events, Typing events → decode beyond .boot (events.flatMap scancodes) = typedBy events) ∧
      ∀ text : List KeyChar, (∀ c ∈ text, Typeable c.val) → ∃ events, Typing events ∧
        decode beyond .boot (events.flatMap scancodes) = text.map .char := by
  refine ⟨fun events => decode_eq_typedBy beyond, fun text h => ?_⟩
  obtain ⟨events, htyping, htyped⟩ := exists_typing h
  exact ⟨events, htyping, (decode_eq_typedBy beyond htyping).trans htyped⟩

end Srunix
