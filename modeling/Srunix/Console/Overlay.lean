import Srunix.Console.Colour
import Srunix.Console.Mouse

/-!
# The pointer and the selection on the screen (`lib/prdio.h`)

Both are drawn into the cells they are shown over, and nothing of what was there
is kept. `clear_mouse` puts a cell back as it finds it, so a pointer that has been
drawn stays; `clear_selection` gives its cells the current colour, whatever colour
they had. `overlays_transparent_iff` says on which screens that does not show.
-/

namespace Srunix

open Library

/-- `0xDB | (COLOR_WHITE << 8)` -/
abbrev pointerCell : UInt16 := 0x0FDB

/-- `draw_mouse`: the pointer is stored over the cell it is on. -/
def drawMouse (s : MouseState) : MouseState :=
  if !s.mouseEnabled then s
  else
    let pos := cellPos s.mouseX s.mouseY
    { s with term := { s.term with buffer := Function.update s.term.buffer pos pointerCell } }

/-- `clear_mouse`, which stores the cell it has just read, pointer and all. -/
def clearMouse (s : MouseState) : MouseState :=
  if !s.mouseEnabled then s
  else
    let pos := cellPos s.mouseX s.mouseY
    let attr := s.term.buffer pos
    { s with term := { s.term with buffer := Function.update s.term.buffer pos attr } }

/-! ## Packets on the screen -/

/-- A position and the left button, as a packet gives them. -/
structure PointerEvent where
  x : Int
  y : Int
  left : Bool
  inScreen : InScreen x y

/-- `mouse_handler` at the end of a packet. -/
def pointTo (s : MouseState) (e : PointerEvent) : MouseState :=
  trackSelection { s with mouseX := e.x, mouseY := e.y, mouseLeftPressed := e.left }

/-- What `keyboard_getchar` does with a packet. -/
def overlayStep (s : MouseState) (e : PointerEvent) : MouseState :=
  updateSelection (drawMouse (clearMouse (pointTo s e)))

/-- A packet is an event of the pointer. -/
theorem handlePacket_eq_pointTo (s : MouseState) :
    ∃ e right, handlePacket s = pointTo { s with mouseRightPressed := right } e := by
  refine ⟨⟨keepBelow screenWidth (s.mouseX + (readDelta (s.mouseByte 0 &&& 0x10 != 0) (s.mouseByte 1) / 2).toInt),
    keepBelow screenHeight (s.mouseY + (-readDelta (s.mouseByte 0 &&& 0x20 != 0) (s.mouseByte 2) / 2).toInt),
    s.mouseByte 0 &&& 0x01 != 0, ?_⟩, s.mouseByte 0 &&& 0x02 != 0, rfl⟩
  exact keepBelow_inScreen _ _

/-- The cell is in the selection there is now. -/
def Selected (s : MouseState) (k : Nat) : Prop :=
  ¬ (s.selectionStartX = -1 ∨ s.selectionEndX = -1) ∧ k ∈ selectionCells s

instance (s : MouseState) (k : Nat) : Decidable (Selected s k) := inferInstanceAs (Decidable (¬ _ ∧ _))

/-- **What the overlays should be**, over `screen`: taking them away again leaves
the screen, and outside the selection nothing has another colour than there. -/
structure Transparent (screen : Nat → UInt16) (s : MouseState) : Prop where
  restored : (clearSelection (clearMouse s)).term.buffer = screen
  highlighted : ∀ k, ¬ Selected s k → highByte (s.term.buffer k) = highByte (screen k)

/-! ## Cells -/

theorem toNat_lowByte (attr : UInt16) : (lowByte attr).toNat = attr.toNat % 256 := UInt16.toNat_toUInt8 attr

theorem toNat_highByte (attr : UInt16) : (highByte attr).toNat = attr.toNat / 256 := by
  have hlt := attr.toNat_lt
  show (attr >>> 8).toNat % 2 ^ 8 = _
  rw [UInt16.toNat_shiftRight]
  show attr.toNat >>> 8 % 2 ^ 8 = _
  rw [Nat.shiftRight_eq_div_pow]
  omega

/-- A cell is its character and its colour. -/
theorem vgaCell_bytes (attr : UInt16) : vgaCell (lowByte attr) (highByte attr) = attr := by
  rw [← UInt16.toNat_inj, toNat_vgaCell, toNat_lowByte, toNat_highByte]
  exact Nat.div_add_mod' attr.toNat 256

theorem recolour_eq (color : UInt8) (attr : UInt16) : recolour color attr = vgaCell (lowByte attr) color := by
  have hlow : attr &&& (0xFF : UInt16) = (lowByte attr).toUInt16 := by
    rw [← UInt16.toNat_inj, UInt16.toNat_and, UInt8.toNat_toUInt16, toNat_lowByte]
    exact Nat.and_two_pow_sub_one_eq_mod attr.toNat 8
  rw [recolour, vgaCell, hlow]

theorem lowByte_recolour (color : UInt8) (attr : UInt16) : lowByte (recolour color attr) = lowByte attr := by
  rw [recolour_eq, lowByte_vgaCell]

/-- The last colour is the one that stays. -/
theorem recolour_recolour (color color' : UInt8) (attr : UInt16) :
    recolour color (recolour color' attr) = recolour color attr := by
  rw [recolour_eq, lowByte_recolour, recolour_eq]

/-- A cell comes back with its colour exactly if it had the colour of the terminal. -/
theorem recolour_eq_iff {color : UInt8} {attr attr' : UInt16} :
    recolour color attr = attr' ↔ lowByte attr = lowByte attr' ∧ highByte attr' = color := by
  rw [recolour_eq]
  constructor
  · rintro rfl
    exact ⟨(lowByte_vgaCell _ _).symm, highByte_vgaCell _ _⟩
  · rintro ⟨hlow, rfl⟩
    rw [hlow, vgaCell_bytes]

/-- A loop over cells gives each of them the colour. -/
theorem foldl_recolour (color : UInt8) (cells : List Nat) (buffer : Nat → UInt16) (k : Nat) :
    cells.foldl (fun buffer pos => Function.update buffer pos (recolour color (buffer pos))) buffer k =
      if k ∈ cells then recolour color (buffer k) else buffer k := by
  induction cells generalizing buffer with
  | nil => rfl
  | cons pos cells ih =>
    rw [List.foldl_cons, ih]
    by_cases hk : k = pos
    · -- coming to a cell again makes no difference
      subst hk
      rw [Function.update_self, recolour_recolour, ite_self, if_pos List.mem_cons_self]
    · rw [Function.update_of_ne hk]
      simp only [List.mem_cons, hk, false_or]

theorem paintSelection_buffer (s : MouseState) (color : UInt8) (k : Nat) :
    (paintSelection s color).term.buffer k =
      if Selected s k then recolour color (s.term.buffer k) else s.term.buffer k := by
  rw [paintSelection]
  by_cases hnone : s.selectionStartX = -1 ∨ s.selectionEndX = -1
  · rw [if_pos hnone, if_neg fun h => h.1 hnone]
  · rw [if_neg hnone]
    refine (foldl_recolour color (selectionCells s) s.term.buffer k).trans ?_
    exact if_congr (and_iff_right hnone).symm rfl rfl

theorem selected_paintSelection (s : MouseState) (color : UInt8) (k : Nat) :
    Selected (paintSelection s color) k ↔ Selected s k := by
  obtain ⟨buffer, heq⟩ := paintSelection_fields s color
  rw [heq]
  exact Iff.rfl

/-- What is selected is drawn in white on black, whatever colour it got before that. -/
theorem updateSelection_buffer (s : MouseState) (k : Nat) :
    (updateSelection s).term.buffer k =
      if Selected s k then recolour 0x0F (s.term.buffer k) else s.term.buffer k := by
  rw [updateSelection]
  split
  · rename_i hnone
    rw [if_neg fun h => h.1 hnone]
  · rw [drawSelection, paintSelection_buffer, clearSelection, paintSelection_buffer]
    by_cases hk : Selected s k
    · rw [if_pos ((selected_paintSelection s _ k).mpr hk), if_pos hk, if_pos hk, recolour_recolour]
    · rw [if_neg fun h => hk ((selected_paintSelection s _ k).mp h), if_neg hk, if_neg hk]

/-- The pointer is put back as it is found. -/
theorem clearMouse_eq (s : MouseState) : clearMouse s = s := by
  rw [clearMouse]
  split
  · rfl
  · dsimp only
    rw [Function.update_eq_self]

/-- The screen without pointer and selection, as the code takes them off. -/
theorem removed_buffer (s : MouseState) (k : Nat) : (clearSelection (clearMouse s)).term.buffer k =
    if Selected s k then recolour s.term.color (s.term.buffer k) else s.term.buffer k := by
  rw [clearMouse_eq, clearSelection, paintSelection_buffer]

/-! ## One packet -/

section

variable {s : MouseState} {e : PointerEvent}

/-- Where a selection that goes on started, or starts now. -/
def selectionStart (s : MouseState) (e : PointerEvent) : Int × Int :=
  if s.selectionStartX = -1 then (e.x, e.y) else (s.selectionStartX, s.selectionStartY)

/-- The cell is in the selection that a packet with the button down makes. -/
def SelectedNext (s : MouseState) (e : PointerEvent) (k : Nat) : Prop :=
  k ∈ regionCells (selectionStart s e).1 (selectionStart s e).2 e.x e.y

theorem pointTo_fields (s : MouseState) (e : PointerEvent) :
    (pointTo s e).mouseX = e.x ∧ (pointTo s e).mouseY = e.y ∧ (pointTo s e).mouseEnabled = s.mouseEnabled ∧
      (pointTo s e).term.color = s.term.color :=
  trackSelection_fields _

theorem pointTo_pressed (hleft : e.left = true) :
    (pointTo s e).term = s.term ∧ (pointTo s e).selectionStartX = (selectionStart s e).1 ∧
      (pointTo s e).selectionStartY = (selectionStart s e).2 ∧ (pointTo s e).selectionEndX = e.x ∧
      (pointTo s e).selectionEndY = e.y := by
  rw [pointTo, trackSelection, selectionStart, if_pos hleft]
  split_ifs <;> exact ⟨rfl, rfl, rfl, rfl, rfl⟩

/-- What is selected while the button is down. -/
theorem selected_pointTo_pressed (hleft : e.left = true) (k : Nat) :
    Selected (pointTo s e) k ↔ SelectedNext s e k := by
  obtain ⟨-, hstartX, hstartY, hendX, hendY⟩ := pointTo_pressed (s := s) hleft
  have hactive : ¬ ((selectionStart s e).1 = -1 ∨ e.x = -1) := by
    have hx := e.inScreen.1
    rw [selectionStart]
    split_ifs with hstart
    · show ¬ (e.x = -1 ∨ e.x = -1)
      omega
    · show ¬ (s.selectionStartX = -1 ∨ e.x = -1)
      omega
  rw [Selected, selectionCells, hstartX, hstartY, hendX, hendY]
  exact and_iff_right hactive

/-- Letting go of the button takes the selection off the screen. -/
theorem pointTo_released (h : PointsOnScreen s) (hleft : e.left = false) :
    NoSelection (pointTo s e) ∧ ∀ k, (pointTo s e).term.buffer k =
      if Selected s k then recolour s.term.color (s.term.buffer k) else s.term.buffer k := by
  rw [pointTo, trackSelection, if_neg (by rw [hleft]; exact Bool.false_ne_true)]
  split
  · exact ⟨⟨rfl, rfl, rfl, rfl⟩, fun k => paintSelection_buffer _ _ k⟩
  · rename_i hstart
    have hstart : s.selectionStartX = -1 := not_not.mp hstart
    have hnone : NoSelection s := h.selection.resolve_right fun hin => by
      have := hin.1.1
      omega
    exact ⟨hnone, fun k => (if_neg fun hk : Selected s k => hk.1 (Or.inl hstart)).symm⟩

theorem drawMouse_eq (hmouse : s.mouseEnabled = true) : drawMouse s = { s with term := { s.term with
    buffer := Function.update s.term.buffer (cellPos s.mouseX s.mouseY) pointerCell } } :=
  if_neg (by rw [hmouse]; exact Bool.false_ne_true)

theorem drawMouse_fields (s : MouseState) :
    ∃ buffer, drawMouse s = { s with term := { s.term with buffer := buffer } } := by
  by_cases hmouse : s.mouseEnabled = true
  · exact ⟨_, drawMouse_eq hmouse⟩
  · rw [Bool.not_eq_true] at hmouse
    exact ⟨s.term.buffer, if_pos (by rw [hmouse]; rfl)⟩

theorem updateSelection_fields (s : MouseState) :
    ∃ buffer, updateSelection s = { s with term := { s.term with buffer := buffer } } := by
  rw [updateSelection]
  split
  · exact ⟨s.term.buffer, rfl⟩
  · obtain ⟨buffer, hclear⟩ := paintSelection_fields s s.term.color
    obtain ⟨buffer', hdraw⟩ := paintSelection_fields (clearSelection s) 0x0F
    exact ⟨buffer', by rw [drawSelection, hdraw, clearSelection, hclear]⟩

/-- A step draws on the screen and changes nothing else of the event's state. -/
theorem overlayStep_fields (s : MouseState) (e : PointerEvent) :
    ∃ buffer, overlayStep s e =
      { pointTo s e with term := { (pointTo s e).term with buffer := buffer } } := by
  obtain ⟨buffer, hdraw⟩ := drawMouse_fields (pointTo s e)
  obtain ⟨buffer', hupdate⟩ := updateSelection_fields (drawMouse (pointTo s e))
  exact ⟨buffer', by rw [overlayStep, clearMouse_eq, hupdate, hdraw]⟩

theorem selected_overlayStep (s : MouseState) (e : PointerEvent) (k : Nat) :
    Selected (overlayStep s e) k ↔ Selected (pointTo s e) k := by
  obtain ⟨buffer, heq⟩ := overlayStep_fields s e
  rw [heq]
  exact Iff.rfl

theorem overlayStep_color (s : MouseState) (e : PointerEvent) :
    (overlayStep s e).term.color = s.term.color := by
  obtain ⟨buffer, heq⟩ := overlayStep_fields s e
  rw [heq]
  exact (pointTo_fields s e).2.2.2

/-- The pointer, and the selection over it. -/
theorem overlayStep_buffer (hmouse : s.mouseEnabled = true) (k : Nat) :
    (overlayStep s e).term.buffer k =
      if Selected (pointTo s e) k then
        recolour 0x0F (Function.update (pointTo s e).term.buffer (cellPos e.x e.y) pointerCell k)
      else Function.update (pointTo s e).term.buffer (cellPos e.x e.y) pointerCell k := by
  obtain ⟨hx, hy, henabled, -⟩ := pointTo_fields s e
  rw [overlayStep, clearMouse_eq, updateSelection_buffer, drawMouse_eq (henabled.trans hmouse), ← hx, ← hy]
  rfl

end

/-! ## What is left when the overlays are taken away -/

/-- The screen with the selection drawn over it, where it can be taken away. -/
structure Overlaid (screen : Nat → UInt16) (s : MouseState) : Prop where
  buffer : ∀ k, s.term.buffer k = if Selected s k then recolour 0x0F (screen k) else screen k
  colour : ∀ k, Selected s k → highByte (screen k) = s.term.color

variable {screen : Nat → UInt16} {s : MouseState} {e : PointerEvent}

/-- Taking the overlays off gives the screen back. -/
theorem Overlaid.removed (h : Overlaid screen s) (k : Nat) :
    (if Selected s k then recolour s.term.color (s.term.buffer k) else s.term.buffer k) = screen k := by
  have hbuffer := h.buffer k
  by_cases hk : Selected s k
  · rw [if_pos hk] at hbuffer ⊢
    rw [hbuffer, recolour_recolour]
    exact recolour_eq_iff.mpr ⟨rfl, h.colour k hk⟩
  · rw [if_neg hk] at hbuffer ⊢
    exact hbuffer

/-- So what is below can be had. -/
theorem Overlaid.transparent (h : Overlaid screen s) : Transparent screen s where
  restored := funext fun k => (removed_buffer s k).trans (h.removed k)
  highlighted k hk := by rw [h.buffer k, if_neg hk]

/-- After a packet, that is the only way. -/
theorem transparent_overlayStep_iff (hmouse : s.mouseEnabled = true) :
    Transparent screen (overlayStep s e) ↔ Overlaid screen (overlayStep s e) := by
  refine ⟨fun h => ?_, Overlaid.transparent⟩
  have hremoved : ∀ k, (if Selected (overlayStep s e) k then
      recolour (overlayStep s e).term.color ((overlayStep s e).term.buffer k)
      else (overlayStep s e).term.buffer k) = screen k := fun k => by
    rw [← removed_buffer, h.restored]
  constructor
  · intro k
    have hk := hremoved k
    by_cases hsel : Selected (overlayStep s e) k
    · rw [if_pos hsel] at hk ⊢
      have hdrawn := overlayStep_buffer (e := e) hmouse k
      rw [if_pos ((selected_overlayStep s e k).mp hsel)] at hdrawn
      rw [recolour_eq, ← (recolour_eq_iff.mp hk).1, ← recolour_eq, hdrawn, recolour_recolour]
    · rw [if_neg hsel] at hk ⊢
      exact hk
  · intro k hsel
    have hk := hremoved k
    rw [if_pos hsel] at hk
    exact (recolour_eq_iff.mp hk).2

/-! ## Which packets leave it so -/

theorem mem_upTo {lo hi v : Int} : v ∈ upTo lo hi ↔ lo ≤ v ∧ v ≤ hi := by
  rw [upTo, List.mem_map]
  constructor
  · rintro ⟨k, hk, rfl⟩
    have := List.mem_range.mp hk
    omega
  · rintro ⟨hlo, hhi⟩
    exact ⟨(v - lo).toNat, List.mem_range.mpr (by omega), by omega⟩

/-- The pointer is at a corner of the selection. -/
theorem mem_regionCells_end {x y x' y' : Int} (h : InScreen x y) (h' : InScreen x' y') :
    cellPos x' y' ∈ regionCells x y x' y' := by
  obtain ⟨hxlo, hxhi, -, -⟩ := h
  obtain ⟨hxlo', hxhi', -, -⟩ := h'
  simp only [screenWidth] at hxhi hxhi'
  rw [regionCells]
  refine List.mem_flatMap.mpr ⟨y', mem_upTo.mpr ?_, List.mem_map.mpr ⟨x', mem_upTo.mpr ?_, rfl⟩⟩
  · split_ifs <;> omega
  · simp only [screenWidth]
    split_ifs <;> omega

/-- What the screen has to be like for a packet not to spoil it. Without the button
the pointer has to look like the cell it is drawn over. With the button, what is
selected has the current colour, and if a cell is left out again that colour is
the one selections are drawn in. -/
def StepOk (screen : Nat → UInt16) (s : MouseState) (e : PointerEvent) : Prop :=
  if e.left = true then
    lowByte (screen (cellPos e.x e.y)) = 0xDB ∧
      (∀ k, SelectedNext s e k → highByte (screen k) = s.term.color) ∧
      ∀ k, Selected s k → ¬ SelectedNext s e k → s.term.color = 0x0F
  else screen (cellPos e.x e.y) = pointerCell

/-- The pointer is drawn inside the selection it makes. -/
theorem selectedNext_pointer (h : PointsOnScreen s) : SelectedNext s e (cellPos e.x e.y) := by
  refine mem_regionCells_end ?_ e.inScreen
  rw [selectionStart]
  split_ifs with hstart
  · exact e.inScreen
  · exact (h.selection.resolve_left fun hnone => hstart hnone.1).1

section Pressed

variable (hmouse : s.mouseEnabled = true) (hleft : e.left = true)

include hleft

theorem selected_pressed_iff (k : Nat) : Selected (overlayStep s e) k ↔ SelectedNext s e k :=
  (selected_overlayStep s e k).trans (selected_pointTo_pressed hleft k)

include hmouse

/-- What is selected is drawn over, and the pointer is a part of it. -/
theorem pressed_buffer (hpoints : PointsOnScreen s) (k : Nat) :
    (SelectedNext s e k → (overlayStep s e).term.buffer k =
      recolour 0x0F (Function.update s.term.buffer (cellPos e.x e.y) pointerCell k)) ∧
    (¬ SelectedNext s e k → (overlayStep s e).term.buffer k = s.term.buffer k) := by
  have hsel := selected_pointTo_pressed (s := s) hleft k
  rw [overlayStep_buffer hmouse, (pointTo_pressed hleft).1]
  refine ⟨fun hk => if_pos (hsel.mpr hk), fun hk => ?_⟩
  have hne : k ≠ cellPos e.x e.y := fun heq => hk (heq ▸ selectedNext_pointer hpoints)
  rw [if_neg fun h => hk (hsel.mp h), Function.update_of_ne hne]

/-- The condition is necessary while the button is down. -/
theorem stepOk_of_overlaid_pressed (hpoints : PointsOnScreen s) (h : Overlaid screen s)
    (h' : Overlaid screen (overlayStep s e)) : StepOk screen s e := by
  have hsel := selected_pressed_iff (s := s) hleft
  rw [StepOk, if_pos hleft]
  refine ⟨?_, fun k hk => ?_, fun k hk hleave => ?_⟩
  · have hpointer : SelectedNext s e (cellPos e.x e.y) := selectedNext_pointer hpoints
    have hat := h'.buffer (cellPos e.x e.y)
    rw [(pressed_buffer hmouse hleft hpoints _).1 hpointer, if_pos ((hsel _).mpr hpointer),
      Function.update_self] at hat
    have hlow := congrArg lowByte hat
    rw [lowByte_recolour, lowByte_recolour] at hlow
    exact hlow.symm
  · rw [h'.colour k ((hsel k).mpr hk), overlayStep_color]
  · -- the cell keeps the highlight
    have hcell := h'.buffer k
    rw [(pressed_buffer hmouse hleft hpoints k).2 hleave, h.buffer k, if_pos hk,
      if_neg fun h => hleave ((hsel k).mp h)] at hcell
    rw [← h.colour k hk, (recolour_eq_iff.mp hcell).2]

/-- The condition is enough while the button is down. -/
theorem overlaid_of_stepOk_pressed (hpoints : PointsOnScreen s) (h : Overlaid screen s)
    (hok : StepOk screen s e) : Overlaid screen (overlayStep s e) := by
  have hsel := selected_pressed_iff (s := s) hleft
  rw [StepOk, if_pos hleft] at hok
  obtain ⟨hglyph, hcolour, hleave⟩ := hok
  refine ⟨fun k => ?_, fun k hk => ?_⟩
  · by_cases hk : SelectedNext s e k
    · rw [(pressed_buffer hmouse hleft hpoints k).1 hk, if_pos ((hsel k).mpr hk), recolour_eq, recolour_eq]
      congr 1
      by_cases hat : k = cellPos e.x e.y
      · rw [hat, Function.update_self, hglyph]
        rfl
      · -- drawn or not, the cell has its own character
        rw [Function.update_of_ne hat, h.buffer k]
        split
        · exact lowByte_recolour _ _
        · rfl
    · rw [(pressed_buffer hmouse hleft hpoints k).2 hk, h.buffer k, if_neg fun h => hk ((hsel k).mp h)]
      split
      · rename_i hold
        exact recolour_eq_iff.mpr ⟨rfl, (h.colour k hold).trans (hleave k hold hk)⟩
      · rfl
  · rw [overlayStep_color]
    exact hcolour k ((hsel k).mp hk)

end Pressed

/-- Both, when the button is up. -/
theorem overlaid_released_iff (hmouse : s.mouseEnabled = true) (hpoints : PointsOnScreen s)
    (h : Overlaid screen s) (hleft : e.left = false) : Overlaid screen (overlayStep s e) ↔ StepOk screen s e := by
  obtain ⟨hnone, hcleared⟩ := pointTo_released hpoints hleft
  have hsel : ∀ k, ¬ Selected (pointTo s e) k := fun k hk => hk.1 (Or.inl hnone.1)
  have hsel' : ∀ k, ¬ Selected (overlayStep s e) k := fun k hk => hsel k ((selected_overlayStep s e k).mp hk)
  -- the selection is gone, and the screen is there again
  have hscreen : (pointTo s e).term.buffer = screen := funext fun k => (hcleared k).trans (h.removed k)
  have hbuffer : (overlayStep s e).term.buffer = Function.update screen (cellPos e.x e.y) pointerCell :=
    funext fun k => by rw [overlayStep_buffer hmouse, if_neg (hsel k), hscreen]
  rw [StepOk, if_neg (by rw [hleft]; exact Bool.false_ne_true)]
  constructor
  · intro h'
    have hat := h'.buffer (cellPos e.x e.y)
    rw [hbuffer, if_neg (hsel' _), Function.update_self] at hat
    exact hat.symm
  · intro hat
    refine ⟨fun k => ?_, fun k hk => absurd hk (hsel' k)⟩
    rw [hbuffer, if_neg (hsel' k), ← hat, Function.update_eq_self]

/-- One step, in both cases. -/
theorem overlaid_step_iff (hmouse : s.mouseEnabled = true) (hpoints : PointsOnScreen s)
    (h : Overlaid screen s) (e : PointerEvent) :
    Transparent screen (overlayStep s e) ↔ StepOk screen s e := by
  rw [transparent_overlayStep_iff hmouse]
  cases hleft : e.left with
  | true =>
    exact ⟨stepOk_of_overlaid_pressed hmouse hleft hpoints h,
      overlaid_of_stepOk_pressed hmouse hleft hpoints h⟩
  | false => exact overlaid_released_iff hmouse hpoints h hleft

theorem overlayStep_pointsOnScreen (h : PointsOnScreen s) (e : PointerEvent) :
    PointsOnScreen (overlayStep s e) := by
  obtain ⟨buffer, heq⟩ := overlayStep_fields s e
  obtain ⟨hpointer, hselection⟩ : PointsOnScreen (pointTo s e) :=
    trackSelection_pointsOnScreen ⟨e.inScreen, h.selection⟩
  rw [heq]
  exact ⟨hpointer, hselection⟩

theorem overlayStep_enabled (s : MouseState) (e : PointerEvent) :
    (overlayStep s e).mouseEnabled = s.mouseEnabled := by
  obtain ⟨buffer, heq⟩ := overlayStep_fields s e
  rw [heq]
  exact (pointTo_fields s e).2.2.1

/-- The mouse is on, and nothing is selected yet. -/
structure MouseReady (s : MouseState) : Prop where
  enabled : s.mouseEnabled = true
  pointer : InScreen s.mouseX s.mouseY
  selection : NoSelection s

/-- **Overlays, packet after packet.** They can be taken away again at any time, and
leave the other cells alone, just if the screen meets `StepOk` at every packet. -/
theorem overlays_transparent_iff (h : MouseReady s) (events : List PointerEvent) :
    (∀ front, front <+: events → Transparent s.term.buffer (runOps overlayStep s front)) ↔
      Guarded overlayStep (StepOk s.term.buffer) s events := by
  have hsel : ∀ k, ¬ Selected s k := fun k hk => hk.1 (Or.inl h.selection.1)
  have hstart : Overlaid s.term.buffer s := ⟨fun k => (if_neg (hsel k)).symm, fun k hk => absurd hk (hsel k)⟩
  rw [forall_prefix_iff_guarded, and_iff_right hstart.transparent]
  refine guarded_iff
    (fun s' => s'.mouseEnabled = true ∧ PointsOnScreen s' ∧ Overlaid s.term.buffer s')
    (fun s' e _ h' => overlaid_step_iff h'.1 h'.2.1 h'.2.2 e) (fun s' e _ h' hgood => ?_)
    ⟨h.enabled, ⟨h.pointer, Or.inl h.selection⟩, hstart⟩
  exact ⟨(overlayStep_enabled s' e).trans h'.1, overlayStep_pointsOnScreen h'.2.1 e,
    (transparent_overlayStep_iff h'.1).mp hgood⟩

/-- The mouse switched on after boot. -/
def MouseState.switchedOn (term : Terminal) : MouseState := { MouseState.boot term with mouseEnabled := true }

theorem mouseReady_switchedOn (term : Terminal) : MouseReady (.switchedOn term) :=
  ⟨rfl, (pointsOnScreen_boot term).pointer, rfl, rfl, rfl, rfl⟩

/-- The pointer at rest in the middle of the screen. -/
def atRest : PointerEvent :=
  { x := 40, y := 12, left := false, inScreen := (pointsOnScreen_boot programImage.term).pointer }

theorem overlays_transparent_atRest :
    (∀ front, front <+: [atRest] → Transparent programImage.term.buffer
        (runOps overlayStep (.switchedOn programImage.term) front)) ↔
      Guarded overlayStep (StepOk programImage.term.buffer) (.switchedOn programImage.term) [atRest] :=
  overlays_transparent_iff (mouseReady_switchedOn programImage.term) [atRest]

/-- A pointer drawn once stays on the screen. -/
theorem not_overlays_transparent : ¬ ∀ s, MouseReady s → ∀ events front, front <+: events →
    Transparent s.term.buffer (runOps overlayStep s front) := by
  intro h
  have hdrawn := h (.switchedOn programImage.term) (mouseReady_switchedOn _) [atRest] [atRest] (List.prefix_refl _)
  exact absurd (congrFun hdrawn.restored 1000) (by decide)

end Srunix
