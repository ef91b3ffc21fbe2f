import Srunix.Library.Silent
import Srunix.Live.Step
import Srunix.Console.Credentials

/-!
# The login screen (`login_screen`, `kernel/kernel.c`)

Whatever is typed into the two fields, corrections included, the screen shows
the name as it stands and as many asterisks as the password has bytes
(`login_shows`).
-/

namespace Srunix

open Library

/-! ## Ahead of the cursor -/

/-- From the cursor on the screen is empty, in the colour that is set. -/
structure Fresh (t : Terminal) : Prop where
  mode : t.smouseMode = false
  onScreen : OnScreen t.row t.column
  blank : ∀ i, cursorIndex t ≤ i → i < screenCells → t.buffer i = cell 0x20 t.color

theorem fresh_clear {t : Terminal} (hmode : t.smouseMode = false) : Fresh (terminalClear t) where
  mode := hmode
  onScreen := ⟨Nat.zero_lt_succ _, Nat.zero_lt_succ _⟩
  blank _ _ hlt := if_pos hlt

/-- To the start of the next row, where everything below was empty. -/
theorem fresh_nextRow {t : Terminal} (hmode : t.smouseMode = false) (hrow : t.row < screenHeight)
    (hcolumn : t.column = 0)
    (hbelow : ∀ i, (t.row + 1) * screenWidth ≤ i → i < screenCells → t.buffer i = cell 0x20 t.color) :
    Fresh (nextRow t) := by
  rw [nextRow]
  by_cases hfull : t.row + 1 = screenHeight
  · rw [if_pos hfull]
    refine ⟨hmode, ⟨Nat.lt_succ_self _, Nat.zero_lt_succ _⟩, fun i hi hlt => ?_⟩
    have hlast : (screenHeight - 1) * screenWidth + 0 ≤ i := hi
    exact (if_neg (by omega)).trans (if_pos hlt)
  · rw [if_neg hfull]
    refine ⟨hmode, ⟨?_, ?_⟩, fun i hi hlt => hbelow i ?_ hlt⟩
    · show t.row + 1 < screenHeight
      omega
    · show t.column < screenWidth
      rw [hcolumn]
      exact Nat.zero_lt_succ _
    · have hnext : (t.row + 1) * screenWidth + t.column ≤ i := hi
      omega

namespace Fresh

variable {t : Terminal}

theorem setcolor (h : Fresh t) (fg bg : UInt8) (hcolor : (bg <<< 4) ||| (fg &&& 0x0F) = t.color) :
    Fresh (terminalSetcolor t fg bg) where
  mode := h.mode
  onScreen := h.onScreen
  blank i hi hlt := (h.blank i hi hlt).trans (congrArg (cell 0x20) hcolor.symm)

/-- The cells behind the one that is written. -/
theorem behind (h : Fresh t) (c : UInt8) {i : Nat} (hi : cursorIndex t < i) (hlt : i < screenCells) :
    (putCell t c).buffer i = cell 0x20 t.color := by
  rw [putCell_buffer, if_neg (by omega)]
  exact h.blank i (by omega) hlt

/-- Anything but a backspace leaves the rest of the screen empty. -/
theorem putchar (h : Fresh t) {c : UInt8} (hbs : c ≠ 0x08) : Fresh (terminalPutchar t c) := by
  obtain ⟨hrow, hcol⟩ := h.onScreen
  have hindex : ∀ {i}, (t.row + 1) * screenWidth ≤ i → cursorIndex t < i := by
    intro i hi
    simp only [cursorIndex, screenWidth] at hi hcol ⊢
    omega
  by_cases hnl : c = 0x0A
  · rw [hnl, putchar_newline h.mode]
    exact fresh_nextRow h.mode hrow rfl fun i hi hlt => h.blank i (hindex hi).le hlt
  rw [putchar_glyph h.mode hnl hbs]
  by_cases hend : t.column + 1 = screenWidth
  · rw [if_pos hend]
    exact fresh_nextRow h.mode hrow rfl fun i hi hlt => h.behind c (hindex hi) hlt
  · rw [if_neg hend]
    refine ⟨h.mode, ⟨hrow, ?_⟩, fun i hi hlt => h.behind c ?_ hlt⟩
    · show t.column + 1 < screenWidth
      omega
    · have hnext : t.row * screenWidth + (t.column + 1) ≤ i := hi
      rw [cursorIndex]
      omega

/-- What is put out leaves the cells ahead blank, if it has no backspace in it. -/
theorem putchars (h : Fresh t) {text : List UInt8} (hbs : 0x08 ∉ text) :
    Fresh (text.foldl terminalPutchar t) := by
  induction text generalizing t with
  | nil => exact h
  | cons c text ih =>
    obtain ⟨hc, htext⟩ := not_or.mp (List.mem_cons.not.mp hbs)
    exact ih (h.putchar fun heq => hc heq.symm) htext

end Fresh

/-! ## A field -/

/-- Bytes of which none ends the line or goes back. -/
structure Glyphs (shown : List UInt8) : Prop where
  newline : 0x0A ∉ shown
  backspace : 0x08 ∉ shown

theorem Glyphs.cons {c : UInt8} {shown : List UInt8} (h : Glyphs (c :: shown)) :
    c ≠ 0x0A ∧ c ≠ 0x08 ∧ Glyphs shown :=
  ⟨fun heq => h.newline (heq ▸ List.mem_cons_self ..), fun heq => h.backspace (heq ▸ List.mem_cons_self ..),
    fun hmem => h.newline (List.mem_cons_of_mem _ hmem), fun hmem => h.backspace (List.mem_cons_of_mem _ hmem)⟩

theorem Glyphs.append {shown shown' : List UInt8} (h : Glyphs shown) (h' : Glyphs shown') :
    Glyphs (shown ++ shown') :=
  ⟨fun hmem => (List.mem_append.mp hmem).elim h.newline h'.newline,
    fun hmem => (List.mem_append.mp hmem).elim h.backspace h'.backspace⟩

theorem Glyphs.dropLast {shown : List UInt8} (h : Glyphs shown) : Glyphs shown.dropLast :=
  ⟨fun hmem => h.newline (List.mem_of_mem_dropLast hmem), fun hmem => h.backspace (List.mem_of_mem_dropLast hmem)⟩

namespace Fresh

variable {t : Terminal}

/-- A character that does not fill its row. -/
theorem glyph (h : Fresh t) {c : UInt8} (hnl : c ≠ 0x0A) (hbs : c ≠ 0x08) (hroom : t.column + 1 < screenWidth) :
    terminalPutchar t c = { putCell t c with column := t.column + 1 } := by
  rw [putchar_glyph h.mode hnl hbs, if_neg hroom.ne]

/-- Each of them takes one column. -/
theorem column_putchars (h : Fresh t) {shown : List UInt8} (hglyphs : Glyphs shown)
    (hroom : t.column + shown.length < screenWidth) :
    (shown.foldl terminalPutchar t).column = t.column + shown.length := by
  induction shown generalizing t with
  | nil => rfl
  | cons c shown ih =>
    obtain ⟨hnl, hbs, hrest⟩ := hglyphs.cons
    rw [List.length_cons] at hroom ⊢
    have hcolumn : (terminalPutchar t c).column = t.column + 1 := by
      rw [h.glyph hnl hbs (by omega)]
    rw [List.foldl_cons, ih (h.putchar hbs) hrest (by omega), hcolumn]
    omega

/-- Back over what was just written. -/
theorem back (h : Fresh t) {c : UInt8} (hnl : c ≠ 0x0A) (hbs : c ≠ 0x08) (hroom : t.column + 1 < screenWidth) :
    terminalPutchar (terminalPutchar t c) 0x08 = t := by
  have hcell : cell 0x20 t.color = t.buffer (cursorIndex t) :=
    (h.blank _ (Nat.le_refl _) (index_lt h.onScreen)).symm
  let t' : Terminal := { putCell t c with column := t.column + 1 }
  have hmode : t'.smouseMode = false := h.mode
  rw [h.glyph hnl hbs hroom]
  show terminalPutchar t' 0x08 = t
  rw [putchar_backspace hmode, if_pos (Nat.succ_pos t.column)]
  have hbuffer : Function.update (Function.update t.buffer (cursorIndex t) (cell c t.color))
      (cursorIndex t) (cell 0x20 t.color) = t.buffer := by
    rw [Function.update_idem, hcell, Function.update_eq_self]
  exact congrArg (fun buffer => { t with buffer := buffer }) hbuffer

/-- The last byte of a field is taken off the screen again. -/
theorem back_putchars (h : Fresh t) {shown : List UInt8} (hglyphs : Glyphs shown) (hne : shown ≠ [])
    (hroom : t.column + shown.length < screenWidth) :
    terminalPutchar (shown.foldl terminalPutchar t) 0x08 = shown.dropLast.foldl terminalPutchar t := by
  obtain ⟨front, c, rfl⟩ := List.eq_nil_or_concat' shown |>.resolve_left hne
  have hfront : Glyphs front := by
    have hdrop := hglyphs.dropLast
    rwa [List.dropLast_concat] at hdrop
  have hc : c ≠ 0x0A ∧ c ≠ 0x08 :=
    ⟨fun heq => hglyphs.newline (by simp [heq]), fun heq => hglyphs.backspace (by simp [heq])⟩
  rw [List.length_append, List.length_singleton] at hroom
  have hcolumn := h.column_putchars hfront (by omega)
  rw [List.dropLast_concat, List.foldl_append]
  exact (h.putchars hfront.backspace).back hc.1 hc.2 (by omega)

end Fresh

/-- What a field looks like: `shown` for each of its bytes. -/
def fieldText (shown : UInt8 → UInt8) (field : CString) : List UInt8 := field.bytes.map shown

theorem length_fieldText (shown : UInt8 → UInt8) (field : CString) :
    (fieldText shown field).length = strlen field := List.length_map _

/-- One key in a field: the screen shows the field as it is then. -/
theorem echoField_shown {s : Live} {t : Terminal} (hfresh : Fresh t) (hroom : t.column + 31 < screenWidth)
    {shown : UInt8 → UInt8} {field : CString} (hglyphs : Glyphs (fieldText shown field))
    (hlen : strlen field ≤ 31) (hterm : s.kernel.term = (fieldText shown field).foldl terminalPutchar t)
    (ch : KeyChar) :
    (s.echoField field ch (shown ch.val)).kernel = { s.kernel with
      term := (fieldText shown (fieldChar field ch)).foldl terminalPutchar t } := by
  have hsame : s.kernel = { s.kernel with term := (fieldText shown field).foldl terminalPutchar t } := by
    rw [← hterm]
  unfold Live.echoField fieldChar
  by_cases hbs : ch.val = 0x08
  -- backspace takes the last character away, if there is one
  · rw [if_pos hbs, if_pos hbs]
    by_cases hempty : strlen field > 0
    · rw [if_pos hempty]
      have hne : fieldText shown field ≠ [] := by
        intro hnil
        rw [← length_fieldText shown, hnil] at hempty
        exact absurd hempty (Nat.lt_irrefl 0)
      have hback := hfresh.back_putchars hglyphs hne (by rw [length_fieldText]; omega)
      have hdrop : (fieldText shown field).dropLast = field.bytes.dropLast.map shown := by
        rw [fieldText, List.map_dropLast]
      rw [hdrop, ← hterm] at hback
      exact congrArg (fun term => { s.kernel with term := term }) hback
    · rw [if_neg hempty]
      have hnil : field.bytes = [] := List.length_eq_zero_iff.mp (Nat.eq_zero_of_not_pos hempty)
      rw [fieldText, hnil] at hsame
      rw [fieldText]
      show s.kernel = { s.kernel with term := (field.bytes.dropLast.map shown).foldl terminalPutchar t }
      rw [hnil]
      exact hsame
  · rw [if_neg hbs, if_neg hbs]
    -- a full field drops the character
    by_cases hfull : strlen field < 31
    · rw [if_pos hfull, if_pos hfull]
      have happend : (field.bytes ++ [ch.val]).map shown = fieldText shown field ++ [shown ch.val] := by
        rw [List.map_append]
        rfl
      show { s.kernel with term := terminalPutchar s.kernel.term (shown ch.val) } = _
      rw [hterm]
      show _ = { s.kernel with term := ((field.bytes ++ [ch.val]).map shown).foldl terminalPutchar t }
      rw [happend, List.foldl_append]
      rfl
    · rw [if_neg hfull, if_neg hfull]
      exact hsame

/-- A field holds no newline and no backspace. -/
theorem glyphs_fieldChar {field : CString} (h : Glyphs field.bytes) {ch : KeyChar} (hnl : ch ≠ .newline) :
    Glyphs (fieldChar field ch).bytes := by
  unfold fieldChar
  split
  · exact h.dropLast
  · rename_i hbs
    split
    · refine h.append ⟨fun hmem => ?_, fun hmem => ?_⟩
      · exact hnl (KeyChar.eq_newline_iff.mp (List.mem_singleton.mp hmem).symm)
      · exact hbs (List.mem_singleton.mp hmem).symm
    · exact h

/-- A field never overflows. -/
theorem length_fieldChar_le {field : CString} (h : strlen field ≤ 31) (ch : KeyChar) :
    strlen (fieldChar field ch) ≤ 31 := by
  unfold fieldChar
  split
  · have hdrop : field.bytes.dropLast.length ≤ field.bytes.length := by
      rw [List.length_dropLast]
      omega
    exact hdrop.trans h
  · split
    · rename_i hroom
      have happend : (field.bytes ++ [ch.val]).length = strlen field + 1 := List.length_append
      show (field.bytes ++ [ch.val]).length ≤ 31
      omega
    · exact h

/-! ## Keys at a field -/

namespace Live

/-- One key after the other, whatever the hardware is like. -/
abbrev Presses (s : Live) (keys : List Key) (t : Live) : Prop :=
  Steps (fun s k t => ∃ hw, s.Answers ⟨hw, k⟩ t) s keys t

/-- `login_screen` at one of its loops, which it came to in `s`. -/
def atField (s : Live) (frame : CString → Frame) (shown : UInt8 → UInt8) (rest : List Frame)
    (field : CString) : Live :=
  { s with
    console := { s.console with stack := frame field :: rest }
    kernel := { s.kernel with term := (fieldText shown field).foldl terminalPutchar s.kernel.term } }

/-- What both loops of `login_screen` do with a character. -/
structure FieldLoop (frame : CString → Frame) (shown : UInt8 → UInt8) : Prop where
  press : ∀ hw fuel fuel' (s : Live) field rest ch, s.console.stack = frame field :: rest →
    ch ≠ KeyChar.newline → s.press hw fuel fuel' (.char ch) = some
      (echoField { s with console := { s.console with stack := frame (fieldChar field ch) :: rest } }
        field ch (shown ch.val))
  glyph : ∀ c, Glyphs [c] → Glyphs [shown c]

/-- The first loop shows each character as it is. -/
theorem fieldLoop_username : FieldLoop .username id where
  press := by
    intro hw fuel fuel' s field rest ch hstack hnl
    rw [Live.press_name_char hstack hnl, Console.press_username_char hstack hnl]
    rfl
  glyph _ h := h

/-- The second loop shows an asterisk for each. -/
theorem fieldLoop_password (user : CString) : FieldLoop (.password user) fun _ => 0x2A where
  press := by
    intro hw fuel fuel' s field rest ch hstack hnl
    rw [Live.press_password_char hstack hnl, Console.press_password_char hstack hnl]
  glyph _ _ := ⟨by decide, by decide⟩

theorem glyphs_fieldText {frame : CString → Frame} {shown : UInt8 → UInt8} (h : FieldLoop frame shown)
    {field : CString} (hfield : Glyphs field.bytes) : Glyphs (fieldText shown field) := by
  have hbyte : ∀ c ∈ field.bytes, Glyphs [shown c] := fun c hc => h.glyph c
    ⟨fun heq => hfield.newline (List.mem_singleton.mp heq ▸ hc),
      fun heq => hfield.backspace (List.mem_singleton.mp heq ▸ hc)⟩
  refine ⟨fun hmem => ?_, fun hmem => ?_⟩
  · obtain ⟨c, hc, heq⟩ := List.mem_map.mp hmem
    exact (hbyte c hc).newline (List.mem_singleton.mpr heq.symm)
  · obtain ⟨c, hc, heq⟩ := List.mem_map.mp hmem
    exact (hbyte c hc).backspace (List.mem_singleton.mpr heq.symm)

/-- The echo of a character changes the screen at most. -/
theorem echoField_withKernel (s : Live) (field : CString) (ch : KeyChar) (shown : UInt8) :
    s.echoField field ch shown = s.withKernel (s.echoField field ch shown).kernel := by
  unfold echoField
  split
  · split <;> rfl
  · split <;> rfl

/-- **Whatever is typed at a field**, the screen shows what is in it. -/
theorem atField_of_presses {frame : CString → Frame} {shown : UInt8 → UInt8} (hloop : FieldLoop frame shown)
    {s : Live} (hfresh : Fresh s.kernel.term) (hroom : s.kernel.term.column + 31 < screenWidth)
    {rest : List Frame} {field : CString} (hglyphs : Glyphs field.bytes) (hlen : strlen field ≤ 31)
    {chars : List KeyChar} (hnl : KeyChar.newline ∉ chars) {t : Live}
    (h : Presses (s.atField frame shown rest field) (chars.map .char) t) :
    t = s.atField frame shown rest (chars.foldl fieldChar field) := by
  -- one character after the other; the field drawn so far is the state of the induction
  induction chars generalizing field with
  | nil =>
    cases h
    rfl
  | cons ch chars ih =>
    obtain ⟨hch, hchars⟩ := not_or.mp (List.mem_cons.not.mp hnl)
    have hne : ch ≠ .newline := fun heq => hch heq.symm
    cases h with
    | @cons _ u _ _ _ hone hmany =>
      obtain ⟨hw, fuel, fuel', hpress⟩ := hone
      rw [hloop.press hw fuel fuel' _ field rest ch rfl hne] at hpress
      let s' : Live := { s.atField frame shown rest field with
        console := { s.console with stack := frame (fieldChar field ch) :: rest } }
      have hkernel := echoField_shown (s := s') hfresh hroom (glyphs_fieldText hloop hglyphs) hlen rfl ch
      have hu : u = s.atField frame shown rest (fieldChar field ch) := by
        have hwith : u = s'.withKernel (s'.echoField field ch (shown ch.val)).kernel :=
          (Option.some.inj hpress).symm.trans (echoField_withKernel s' field ch _)
        rw [hwith, hkernel]
        rfl
      rw [hu] at hmany
      exact ih (glyphs_fieldChar hglyphs hne) (length_fieldChar_le hlen ch) hchars hmany

end Live

/-! ## The login screen -/

theorem color_putchars (t : Terminal) (text : List UInt8) :
    (text.foldl terminalPutchar t).color = t.color := by
  induction text generalizing t with
  | nil => rfl
  | cons c text ih =>
    obtain ⟨row, column, buffer, hframe⟩ := terminalPutchar_frame t c
    rw [List.foldl_cons, ih, hframe]

theorem column_newline {t : Terminal} (hmode : t.smouseMode = false) :
    (terminalPutchar t 0x0A).column = 0 := by
  rw [putchar_newline hmode, nextRow]
  split <;> rfl

namespace Fresh

variable {t : Terminal}

theorem writestring (h : Fresh t) (text : CString) (hbs : 0x08 ∉ text.bytes) :
    Fresh (terminalWritestring t text) ∧ (terminalWritestring t text).color = t.color := by
  rw [terminalWritestring, if_neg (by rw [h.mode]; exact Bool.false_ne_true)]
  exact ⟨h.putchars hbs, color_putchars t text.bytes⟩

/-- Behind a line the cursor is at the left. -/
theorem writestring_line (h : Fresh t) (text : CString) (hbs : 0x08 ∉ text.bytes)
    (hline : text.bytes.getLast? = some 0x0A) : (terminalWritestring t text).column = 0 := by
  obtain ⟨front, hfront⟩ := List.getLast?_eq_some_iff.mp hline
  rw [hfront] at hbs
  have hfresh : Fresh (front.foldl terminalPutchar t) :=
    h.putchars fun hmem => hbs (List.mem_append_left _ hmem)
  rw [terminalWritestring, if_neg (by rw [h.mode]; exact Bool.false_ne_true), hfront, List.foldl_append]
  exact column_newline hfresh.mode

/-- After the end of a line and a label that fits a row. -/
theorem label (h : Fresh t) (hcolumn : t.column = 0) (text : CString) (hglyphs : Glyphs text.bytes)
    (hroom : strlen text < screenWidth) :
    Fresh (terminalWritestring t text) ∧ (terminalWritestring t text).column = strlen text := by
  have hwidth : t.column + text.bytes.length < screenWidth := by
    rw [hcolumn, Nat.zero_add]
    exact hroom
  have hend := h.column_putchars hglyphs hwidth
  rw [hcolumn, Nat.zero_add] at hend
  rw [terminalWritestring, if_neg (by rw [h.mode]; exact Bool.false_ne_true)]
  exact ⟨h.putchars hglyphs.backspace, hend⟩

end Fresh

theorem backspace_not_mem_tty : ∀ t < maxTtys, (0x08 : UInt8) ∉ (decimal (Int.ofNat t + 1)).bytes := by
  decide

/-- `login_screen` waits behind its first label, on an empty screen. -/
theorem loginScreen_fresh {k : KernelState} (hmode : k.term.smouseMode = false)
    (htty : k.term.currentTty < maxTtys) :
    Fresh (loginScreen k).term ∧ (loginScreen k).term.column = 7 := by
  -- the banner, one call of the source after the other
  let t₀ := terminalClear (terminalSetcolor k.term colorGray colorBlack)
  let t₁ := terminalWritestring t₀ "\n\n"
  let t₂ := terminalWritestring t₁ "Srunix86 tty"
  have h₀ : Fresh t₀ := fresh_clear hmode
  obtain ⟨h₁, hcolor₁⟩ : Fresh t₁ ∧ t₁.color = t₀.color := h₀.writestring _ (by decide)
  obtain ⟨h₂, hcolor₂⟩ : Fresh t₂ ∧ t₂.color = t₁.color := h₁.writestring _ (by decide)
  have htty₂ : t₂.currentTty = k.term.currentTty :=
    ((terminalWritestring_same t₀ "\n\n").trans (terminalWritestring_same t₁ "Srunix86 tty")).currentTty
  obtain ⟨h₃, hcolor₃⟩ := h₂.writestring (decimal (t₂.currentTty + 1))
    (backspace_not_mem_tty _ (htty₂ ▸ htty))
  obtain ⟨h₄, hcolor₄⟩ := h₃.writestring "\n" (by decide)
  have hcolor : (colorBlack <<< 4) ||| (colorGray &&& 0x0F)
      = (terminalWritestring (terminalWritestring t₂ (decimal (t₂.currentTty + 1))) "\n").color := by
    rw [hcolor₄, hcolor₃, hcolor₂, hcolor₁]
    rfl
  have h₅ := h₄.setcolor colorGray colorBlack hcolor
  let banner : CString := "OpenSource Operation System.\nPlease login: root, password 1\n\n"
  have hbanner : 0x08 ∉ banner.bytes := by
    decide
  obtain ⟨h₆, -⟩ := h₅.writestring banner hbanner
  exact h₆.label (h₅.writestring_line banner hbanner (by decide)) "login: " ⟨by decide, by decide⟩
    (by decide)

/-- The asterisks for a password. -/
def stars (n : Nat) : CString :=
  ⟨List.replicate n 0x2A, fun h => absurd (List.eq_of_mem_replicate h) (by decide)⟩

theorem fieldText_stars (field : CString) : fieldText (fun _ => 0x2A) field = (stars (strlen field)).bytes :=
  List.map_const ..

theorem terminalWritestring_live {t : Terminal} (hmode : t.smouseMode = false) (text : CString) :
    terminalWritestring t text = text.bytes.foldl terminalPutchar t :=
  if_neg (by rw [hmode]; exact Bool.false_ne_true)

/-- What was typed stands in its field without what was taken back. -/
theorem glyphs_typedField {chars : List KeyChar} (hnl : KeyChar.newline ∉ chars) :
    Glyphs (Console.typedField chars).bytes ∧ strlen (Console.typedField chars) ≤ 31 := by
  induction chars using List.reverseRecOn with
  | nil => exact ⟨⟨List.not_mem_nil, List.not_mem_nil⟩, Nat.zero_le _⟩
  | append_singleton chars ch ih =>
    obtain ⟨hglyphs, hlen⟩ := ih fun hmem => hnl (List.mem_append_left _ hmem)
    have hch : ch ≠ .newline := fun heq => hnl (List.mem_append_right _ (List.mem_singleton.mpr heq.symm))
    rw [Console.typedField_snoc]
    exact ⟨glyphs_fieldChar hglyphs hch, length_fieldChar_le hlen ch⟩

namespace Live

theorem exists_press_enter (hw : Hardware) {s : Live} {user : CString} {rest : List Frame}
    (hstack : s.console.stack = .username user :: rest) : ∃ t, s.press hw 0 0 .enter = some t :=
  ⟨_, press_name_enter hstack⟩

/-- Enter after the name. -/
theorem press_username_enter {s : Live} {user : CString} {rest : List Frame}
    (hstack : s.console.stack = .username user :: rest) {t : Live} {hw : Hardware} {fuel fuel' : Nat}
    (h : s.press hw fuel fuel' .enter = some t) :
    t = { s with
      console := { s.console with stack := .password user CString.empty :: rest }
      kernel := (({ s.kernel with term := terminalPutchar s.kernel.term 0x0A } : KernelState).writestring
        "Password: ") } := by
  rw [press_name_enter hstack] at h
  cases h
  rw [Console.press_username_enter hstack]
  rfl

end Live

/-- The second label, on a line of its own. -/
theorem second_label {t : Terminal} (h : Fresh t) :
    let t' := terminalWritestring (terminalPutchar t 0x0A) "Password: "
    Fresh t' ∧ t'.column = 10 ∧ t' = terminalWritestring t "\nPassword: " := by
  have hnext : Fresh (terminalPutchar t 0x0A) := h.putchar (by decide)
  obtain ⟨hfresh, hcolumn⟩ := hnext.label (column_newline h.mode) "Password: " ⟨by decide, by decide⟩ (by decide)
  refine ⟨hfresh, hcolumn, ?_⟩
  rw [terminalWritestring_live h.mode, terminalWritestring_live hnext.mode]
  rfl

namespace Live

theorem eq_atField {s : Live} {frame : CString → Frame} {rest : List Frame}
    (hstack : s.console.stack = frame CString.empty :: rest) (shown : UInt8 → UInt8) :
    s = s.atField frame shown rest CString.empty := by
  have hconsole : s.console = { s.console with stack := frame CString.empty :: rest } := by
    rw [← hstack]
  exact congrArg (fun console => { s with console := console }) hconsole

/-- All that is typed at a field that is empty yet. -/
theorem field_of_presses {frame : CString → Frame} {shown : UInt8 → UInt8} (hloop : FieldLoop frame shown)
    {s : Live} {rest : List Frame} (hstack : s.console.stack = frame CString.empty :: rest)
    (hfresh : Fresh s.kernel.term) (hroom : s.kernel.term.column + 31 < screenWidth)
    {chars : List KeyChar} (hnl : KeyChar.newline ∉ chars) {t : Live} (h : s.Presses (chars.map .char) t) :
    t = s.atField frame shown rest (Console.typedField chars) := by
  have hnone : Glyphs CString.empty.bytes := ⟨List.not_mem_nil, List.not_mem_nil⟩
  rw [eq_atField hstack shown] at h
  exact atField_of_presses hloop hfresh hroom hnone (Nat.zero_le 31) hnl h

end Live

/-- **What the login screen shows**: the name as it stands, whatever was typed to
get there, and an asterisk for each byte of the password. Nothing else changes. -/
theorem login_shows {s t : Live} {k : KernelState} {rest : List Frame}
    (hstack : s.console.stack = .username CString.empty :: rest) (hkernel : s.kernel = loginScreen k)
    (hmode : k.term.smouseMode = false) (htty : k.term.currentTty < maxTtys) {user pass : List KeyChar}
    (huser : KeyChar.newline ∉ user) (hpass : KeyChar.newline ∉ pass)
    (h : s.Presses (user.map .char ++ .enter :: pass.map .char) t) :
    t = { s with
      console := { s.console with
        stack := .password (Console.typedField user) (Console.typedField pass) :: rest }
      kernel := ((s.kernel.writestring (Console.typedField user)).writestring "\nPassword: ").writestring
        (stars (strlen (Console.typedField pass))) } := by
  obtain ⟨hfresh, hcolumn⟩ := loginScreen_fresh hmode htty
  rw [← hkernel] at hfresh hcolumn
  have hroom : s.kernel.term.column + 31 < screenWidth := by
    rw [hcolumn]
    decide
  obtain ⟨u₁, hname, hrest⟩ := Steps.of_append h
  obtain rfl := Live.field_of_presses Live.fieldLoop_username hstack hfresh hroom huser hname
  cases hrest with
  | @cons _ u₂ _ _ _ henter hstars =>
    -- the name is on the screen
    let t₁ := (fieldText id (Console.typedField user)).foldl terminalPutchar s.kernel.term
    have hname₁ : terminalWritestring s.kernel.term (Console.typedField user) = t₁ := by
      rw [terminalWritestring_live hfresh.mode, ← List.map_id (Console.typedField user).bytes]
      rfl
    have hfresh₁ : Fresh t₁ := hname₁ ▸ (hfresh.writestring _ (glyphs_typedField huser).1.backspace).1
    -- Enter, and the second label
    obtain ⟨hw, fuel, fuel', hpress⟩ := henter
    obtain rfl := Live.press_username_enter rfl hpress
    obtain ⟨hfresh₂, hcolumn₂, hlabel⟩ := second_label hfresh₁
    have hroom₂ : (terminalWritestring (terminalPutchar t₁ 0x0A) "Password: ").column + 31 < screenWidth := by
      rw [hcolumn₂]
      decide
    -- the asterisks
    have ht := Live.field_of_presses (Live.fieldLoop_password (Console.typedField user)) rfl hfresh₂ hroom₂
      hpass hstars
    have hterm : (fieldText (fun _ => 0x2A) (Console.typedField pass)).foldl terminalPutchar
        (terminalWritestring (terminalPutchar t₁ 0x0A) "Password: ") =
          terminalWritestring (terminalWritestring (terminalWritestring s.kernel.term
            (Console.typedField user)) "\nPassword: ") (stars (strlen (Console.typedField pass))) := by
      rw [hname₁, ← hlabel, terminalWritestring_live hfresh₂.mode, fieldText_stars]
    rw [ht]
    exact congrArg (fun term => { s with
      console := { s.console with
        stack := .password (Console.typedField user) (Console.typedField pass) :: rest }
      kernel := { s.kernel with term := term } }) hterm

namespace Live

/-- Every character is taken at a field. -/
theorem FieldLoop.exists_presses {frame : CString → Frame} {shown : UInt8 → UInt8}
    (hloop : FieldLoop frame shown) {s : Live} {field : CString} {rest : List Frame}
    (hstack : s.console.stack = frame field :: rest) {chars : List KeyChar} (hnl : KeyChar.newline ∉ chars) :
    ∃ t, s.Presses (chars.map .char) t ∧ t.console.stack = frame (chars.foldl fieldChar field) :: rest := by
  induction chars generalizing s field with
  | nil => exact ⟨s, .nil s, hstack⟩
  | cons ch chars ih =>
    obtain ⟨hch, hchars⟩ := not_or.mp (List.mem_cons.not.mp hnl)
    have hpress := hloop.press .still 0 0 s field rest ch hstack fun heq => hch heq.symm
    let u : Live := Live.echoField
      { s with console := { s.console with stack := frame (fieldChar field ch) :: rest } }
      field ch (shown ch.val)
    have hu : u.console.stack = frame (fieldChar field ch) :: rest :=
      congrArg (fun t : Live => t.console.stack) (Live.echoField_withKernel _ _ _ _)
    obtain ⟨t, hmany, ht⟩ := ih hu hchars
    exact ⟨t, .cons ⟨_, _, _, hpress⟩ hmany, ht⟩

/-- A login is typed up to its last key, whatever stands in the fields. -/
theorem exists_presses_login {s : Live} {rest : List Frame}
    (hstack : s.console.stack = .username CString.empty :: rest) {user pass : List KeyChar}
    (huser : KeyChar.newline ∉ user) (hpass : KeyChar.newline ∉ pass) :
    ∃ t, s.Presses (user.map .char ++ .enter :: pass.map .char) t := by
  obtain ⟨u, hname, hstackU⟩ := fieldLoop_username.exists_presses hstack huser
  obtain ⟨v, henter⟩ := exists_press_enter .still hstackU
  obtain rfl := press_username_enter hstackU henter
  obtain ⟨t, hstars, -⟩ := (fieldLoop_password (user.foldl fieldChar CString.empty)).exists_presses
    (s := { u with
      console := { u.console with
        stack := .password (user.foldl fieldChar CString.empty) CString.empty :: rest }
      kernel := (({ u.kernel with term := terminalPutchar u.kernel.term 0x0A } : KernelState).writestring
        "Password: ") }) rfl hpass
  exact ⟨t, hname.append (.cons ⟨.still, _, _, henter⟩ hstars)⟩

end Live

/-- The name in the next one: `r`. -/
def keyR : KeyChar := ⟨0x72, by decide⟩

/-- The login screen of the boot, after `r`, a slip that is taken back, Enter, and a
password of two letters. -/
theorem login_shows_corrected : ∃ t : Live,
    Live.boot.Presses ([keyR, ⟨0x78, by decide⟩, .backspace].map .char ++
      .enter :: [⟨0x61, by decide⟩, ⟨0x62, by decide⟩].map .char) t ∧
    t = { Live.boot with
      console := { Live.boot.console with stack := [.password "r" "ab"] }
      kernel := ((Live.boot.kernel.writestring "r").writestring "\nPassword: ").writestring (stars 2) } := by
  let user : List KeyChar := [keyR, ⟨0x78, by decide⟩, .backspace]
  let pass : List KeyChar := [⟨0x61, by decide⟩, ⟨0x62, by decide⟩]
  have hname : Console.typedField user = "r" := by
    decide +kernel
  have hsecret : Console.typedField pass = "ab" := by
    decide +kernel
  have hmode : kernelMain.term.smouseMode = false := by
    decide +kernel
  obtain ⟨t, h⟩ : ∃ t, Live.boot.Presses (user.map .char ++ .enter :: pass.map .char) t :=
    Live.exists_presses_login rfl (by decide) (by decide)
  have ht := login_shows rfl rfl hmode shellInv_kernelMain.currentTty_lt (by decide) (by decide) h
  rw [hname, hsecret] at ht
  exact ⟨t, h, ht⟩

end Srunix
