import Srunix.Library.Latch
import Srunix.Library.Runs
import Srunix.Console.Keyboard

/-!
# The modifier flags and the keys that are down

What the hands on the keyboard do is a list of presses and releases of physical
keys (`KeyEvent`), sent as one or two bytes each. `Hands` keeps which keys are
down, and how often Caps Lock went down; `Tracks` says that the four globals of
`keyboard_getchar` agree.

Each flag is a latch over a pair of keys, Caps Lock a toggle, and neither looks
at the prefix of an extended key. So the flags go wrong when one key of a pair
is released while the other is down, when Caps Lock repeats, and at the
`0xE0 0x2A` some keyboards send around a navigation key.
-/

namespace Srunix

open Library

/-- A key of a set-1 keyboard. Its release code is its press code with the high
bit set, both behind `0xE0` for an extended key. -/
structure PhysicalKey where
  extended : Bool
  code : UInt8
  isMake : code < 0x80
deriving DecidableEq

/-- A key goes down or comes up. -/
abbrev KeyEvent := Edge PhysicalKey

namespace PhysicalKey

/-- The left shift key. -/
def lshift : PhysicalKey := ⟨false, keyLshift, by decide⟩
/-- The right shift key. -/
def rshift : PhysicalKey := ⟨false, keyRshift, by decide⟩
/-- The caps lock key. -/
def capslock : PhysicalKey := ⟨false, keyCapslock, by decide⟩

/-- One of the two shift keys. The codes behind `0xE0` are others. -/
def isShift (k : PhysicalKey) : Bool := !k.extended && (k.code == keyLshift || k.code == keyRshift)

/-- Left or right: the code is the same. -/
def isCtrl (k : PhysicalKey) : Bool := k.code == keyCtrl

/-- One of the two alt keys, which have one code. -/
def isAlt (k : PhysicalKey) : Bool := k.code == keyAlt

/-- An extended key with the code of a Shift key or of Caps Lock. -/
def Fake (k : PhysicalKey) : Prop :=
  k.extended = true ∧ (k.code = keyLshift ∨ k.code = keyRshift ∨ k.code = keyCapslock)

/-- A press of the key gets as far as the two maps. -/
def ReachesMaps (k : PhysicalKey) : Prop :=
  k.code ∉ [keyLshift, keyRshift, keyCtrl, keyAlt, keyCapslock, keyEnter, keyBackspace, keyEsc,
    keySpace, keyF10] ∧ ¬ (keyF1 ≤ k.code ∧ k.code ≤ keyF9)

instance (k : PhysicalKey) : Decidable k.ReachesMaps := inferInstanceAs (Decidable (_ ∧ _))

end PhysicalKey

/-- The bytes of an event. -/
def scancodes (e : KeyEvent) : List UInt8 :=
  (if e.key.extended then [0xE0] else []) ++
    match e with
    | .press k => [k.code]
    | .release k => [k.code ||| 0x80]

/-- What the typist does: the keys that are down, and how often caps lock went down. -/
structure Hands where
  down : PhysicalKey → Bool
  capsPresses : Nat

/-- No key is down. -/
def Hands.off : Hands := ⟨fun _ => false, 0⟩

/-- The hands after a key goes down or comes up. -/
def Hands.step (h : Hands) (e : KeyEvent) : Hands :=
  { down := hold h.down e
    capsPresses := downs PhysicalKey.capslock h.down h.capsPresses e }

/-- The globals say which keys are down. -/
structure Tracks (k : Keyboard) (h : Hands) : Prop where
  shift : Latched PhysicalKey.isShift h.down k.shiftPressed
  ctrl : Latched PhysicalKey.isCtrl h.down k.ctrlPressed
  alt : Latched PhysicalKey.isAlt h.down k.altPressed
  caps : k.capsLock = decide (h.capsPresses % 2 = 1)

/-- The events the flags can follow: no key of a pair is let go while the other
one is down, Caps Lock does not repeat, and no extended key has the code of a
Shift key or of Caps Lock. -/
structure SafeEvent (h : Hands) (e : KeyEvent) : Prop where
  shift : ∀ k, e = .release k → k.isShift = true → Alone PhysicalKey.isShift h.down k
  ctrl : ∀ k, e = .release k → k.isCtrl = true → Alone PhysicalKey.isCtrl h.down k
  alt : ∀ k, e = .release k → k.isAlt = true → Alone PhysicalKey.isAlt h.down k
  caps : e = .press PhysicalKey.capslock → h.down PhysicalKey.capslock = false
  real : ¬ e.key.Fake

/-- Every event is one that the flags can follow. -/
def SafeEvents (events : List KeyEvent) : Prop := Guarded Hands.step SafeEvent Hands.off events

/-! ## What one event does to the globals -/

theorem release_byte : ∀ code : UInt8, code < 0x80 →
    0x80 ≤ code ||| 0x80 ∧ (code ||| 0x80) &&& 0x7F = code := by
  decide +kernel

/-- The globals after an event. -/
def keyboardEvent (k : Keyboard) (e : KeyEvent) : Keyboard :=
  { shiftPressed :=
      latch (fun key => key.code == keyLshift || key.code == keyRshift) k.shiftPressed e
    ctrlPressed := latch PhysicalKey.isCtrl k.ctrlPressed e
    altPressed := latch PhysicalKey.isAlt k.altPressed e
    capsLock :=
      match e with
      | .press key => if key.code = keyCapslock then !k.capsLock else k.capsLock
      | .release _ => k.capsLock
    prefixRead := k.prefixRead }

/-- A press, seen from the globals. -/
theorem keyboardByte_press_eq {k : Keyboard} (hk : k.prefixRead = false) (key : PhysicalKey) :
    (keyboardByte k key.code).1 = keyboardEvent k (.press key) := by
  obtain ⟨extended, code, hmake⟩ := key
  have hbit := press_bit hmake
  by_cases hmod : code ∈ [keyLshift, keyRshift, keyCtrl, keyAlt, keyCapslock]
  · obtain ⟨shiftPressed, ctrlPressed, altPressed, capsLock, prefixRead⟩ := k
    cases hk
    simp only [List.mem_cons, List.not_mem_nil, or_false] at hmod
    rcases hmod with rfl | rfl | rfl | rfl | rfl <;>
      simp [keyboardByte, hbit, keyboardEvent, latch, PhysicalKey.isCtrl, PhysicalKey.isAlt,
        keyLshift, keyRshift, keyCtrl, keyAlt, keyCapslock]
  · rw [keyboardByte_press hk hmake hmod]
    simp only [List.mem_cons, List.not_mem_nil, or_false, not_or] at hmod
    obtain ⟨hl, hr, hc, ha, hcaps⟩ := hmod
    simp [keyboardEvent, latch, PhysicalKey.isCtrl, PhysicalKey.isAlt, hl, hr, hc, ha, hcaps]

/-- A release, seen from the globals. -/
theorem keyboardByte_release_eq {k : Keyboard} (hk : k.prefixRead = false) (key : PhysicalKey) :
    (keyboardByte k (key.code ||| 0x80)).1 = keyboardEvent k (.release key) := by
  obtain ⟨hbit, hcode⟩ := release_byte key.code key.isMake
  rw [keyboardByte_release hk hbit, hcode]
  obtain ⟨extended, code, hmake⟩ := key
  by_cases hmod : code ∈ [keyLshift, keyRshift, keyCtrl, keyAlt]
  · simp only [List.mem_cons, List.not_mem_nil, or_false] at hmod
    rcases hmod with rfl | rfl | rfl | rfl <;> rfl
  · simp only [List.mem_cons, List.not_mem_nil, or_false, not_or] at hmod
    obtain ⟨hl, hr, hc, ha⟩ := hmod
    simp [keyReleased, keyboardEvent, latch, PhysicalKey.isCtrl, PhysicalKey.isAlt, hl, hr, hc, ha]

/-- The prefix of an extended key changes nothing. -/
theorem keyboardAfter_scancodes {k : Keyboard} (hk : k.prefixRead = false) (e : KeyEvent) :
    keyboardAfter k (scancodes e) = keyboardEvent k e := by
  have hextended : keyboardAfter k (if e.key.extended then [0xE0] else []) = k := by
    split
    · exact keyboardAfter_extended hk []
    · rfl
  unfold scancodes keyboardAfter
  rw [runOps_append]
  show runOps _ (keyboardAfter k _) _ = _
  rw [hextended]
  cases e with
  | press key => exact keyboardByte_press_eq hk key
  | release key => exact keyboardByte_release_eq hk key

/-! ## The flags follow safe events -/

/-- The flag the decoder keeps for Shift looks at the code alone. -/
theorem latch_shift {e : KeyEvent} (hreal : ¬ e.key.Fake) (flag : Bool) :
    latch (fun key => key.code == keyLshift || key.code == keyRshift) flag e =
      latch PhysicalKey.isShift flag e := by
  have hsame : (e.key.code == keyLshift || e.key.code == keyRshift) = e.key.isShift := by
    rw [PhysicalKey.isShift]
    cases hext : e.key.extended with
    | false => simp
    | true =>
      rw [PhysicalKey.Fake] at hreal
      simp only [hext, true_and, not_or] at hreal
      simp [hreal.1, hreal.2.1]
  exact latch_congr hsame flag

/-- A key that is really there and goes down turns caps lock over. -/
theorem toggle_caps {e : KeyEvent} (hreal : ¬ e.key.Fake) (k : Keyboard) :
    (keyboardEvent k e).capsLock = toggle PhysicalKey.capslock k.capsLock e := by
  cases e with
  | release key => rfl
  | press key =>
    have hsame : key.code = keyCapslock ↔ key = PhysicalKey.capslock := by
      constructor
      · intro hcode
        obtain ⟨extended, code, hmake⟩ := key
        cases extended with
        | true => exact absurd ⟨rfl, .inr (.inr hcode)⟩ hreal
        | false =>
          cases hcode
          rfl
      · rintro rfl
        rfl
    show (if key.code = keyCapslock then !k.capsLock else k.capsLock) =
      if key = PhysicalKey.capslock then !k.capsLock else k.capsLock
    simp only [hsame]

theorem tracks_boot : Tracks Keyboard.boot Hands.off where
  shift := latched_none
  ctrl := latched_none
  alt := latched_none
  caps := rfl

/-- The step lemma of `Tracks`. -/
theorem Tracks.event {k : Keyboard} {h : Hands} (ht : Tracks k h) {e : KeyEvent}
    (hsafe : SafeEvent h e) : Tracks (keyboardEvent k e) (h.step e) where
  shift := by
    show Latched _ _ (latch _ _ _)
    rw [latch_shift hsafe.real]
    exact ht.shift.step hsafe.shift
  ctrl := ht.ctrl.step hsafe.ctrl
  alt := ht.alt.step hsafe.alt
  caps := by
    rw [toggle_caps hsafe.real]
    exact toggle_step ht.caps hsafe.caps

/-- What the bytes of a list of events leave in the globals. -/
theorem keyboardAfter_events {k : Keyboard} (hk : k.prefixRead = false) (events : List KeyEvent) :
    keyboardAfter k (events.flatMap scancodes) = runOps keyboardEvent k events := by
  induction events generalizing k with
  | nil => rfl
  | cons e events ih =>
    have hnext : (keyboardEvent k e).prefixRead = false := hk
    rw [List.flatMap_cons, runOps_cons, ← ih hnext, ← keyboardAfter_scancodes hk e]
    exact runOps_append _ k (scancodes e) _

/-! ## The law -/

/-- The globals after the bytes of a list of events, from boot. -/
def keyboardRun (events : List KeyEvent) : Keyboard :=
  keyboardAfter Keyboard.boot (events.flatMap scancodes)

/-- The hands after all that was pressed and released. -/
def handsRun (events : List KeyEvent) : Hands := runOps Hands.step Hands.off events

/-- Whenever a key gets as far as the maps, the four globals say which modifier
keys are down. -/
def ModifiersTrack (events : List KeyEvent) : Prop :=
  ∀ pre k post, events = pre ++ .press k :: post → k.ReachesMaps →
    Tracks (keyboardRun pre) (handsRun pre)

/-- **The flags follow the hands**, as long as every event is a safe one. -/
theorem modifiersTrack_of_safe_run (events : List KeyEvent)
    (hsafe : SafeEvents events) : ModifiersTrack events := by
  intro pre k post hsplit _
  rw [hsplit] at hsafe
  rw [keyboardRun, keyboardAfter_events rfl]
  refine Guarded.history (fun done h => Tracks (runOps keyboardEvent .boot done) h) ?_
    hsafe.of_append tracks_boot
  intro done h e htracks hevent
  rw [runOps_snoc]
  exact htracks.event hevent

/-- Right Shift and `a`. -/
theorem modifiersTrack_of_safe_run_shift :
    ModifiersTrack [.press PhysicalKey.rshift, .press ⟨false, 0x1E, by decide⟩] := by
  have hpress : ∀ (h : Hands) (k : PhysicalKey), k ≠ PhysicalKey.capslock → ¬ k.Fake →
      SafeEvent h (.press k) := by
    intro h k hcaps hreal
    exact ⟨nofun, nofun, nofun, fun heq => absurd (Edge.press.inj heq) hcaps, hreal⟩
  refine modifiersTrack_of_safe_run _ ⟨hpress _ _ (by decide) ?_, hpress _ _ (by decide) ?_, trivial⟩
  · exact fun h => Bool.false_ne_true h.1
  · exact fun h => Bool.false_ne_true h.1

/-- Both Shift keys go down and the left one up: `a` comes out in lower case
with the right one still down. -/
theorem not_modifiersTrack_both_shifts :
    ¬ ModifiersTrack [.press PhysicalKey.lshift, .press PhysicalKey.rshift,
      .release PhysicalKey.lshift, .press ⟨false, 0x1E, by decide⟩] := by
  intro h
  have htracks := h [.press PhysicalKey.lshift, .press PhysicalKey.rshift,
    .release PhysicalKey.lshift] ⟨false, 0x1E, by decide⟩ [] rfl (by decide)
  have hflag := htracks.shift.mpr ⟨PhysicalKey.rshift, by decide, by decide⟩
  exact absurd hflag (by decide)

end Srunix
