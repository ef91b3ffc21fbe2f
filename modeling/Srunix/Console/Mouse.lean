import Srunix.Bkfs.Boot
import Srunix.Library.Runs

/-!
# The mouse (`lib/prdio.h`)

`mouse_handler` reads one byte a call; three bytes are a packet. A coordinate is
a number of nine bits, the sign in the first byte, but a data byte is a `char`
and brings a sign of its own: without the sign bit, a byte from `0x80` up moves
the pointer the other way. `mouse_decodes_iff` says which packets that spoils.
-/

namespace Srunix

open Library

/-- The globals of the mouse, and the `static` variables of `mouse_handler`. -/
structure MouseState where
  term : Terminal
  mouseEnabled : Bool
  mouseX : Int
  mouseY : Int
  mouseLeftPressed : Bool
  mouseRightPressed : Bool
  selectionStartX : Int
  selectionStartY : Int
  selectionEndX : Int
  selectionEndY : Int
  mouseCycle : Nat
  mouseByte : Nat → UInt8

/-- The globals as they are set in the program image. -/
def MouseState.boot (term : Terminal) : MouseState :=
  { term := term, mouseEnabled := false, mouseX := 40, mouseY := 12, mouseLeftPressed := false
    mouseRightPressed := false, selectionStartX := -1, selectionStartY := -1, selectionEndX := -1
    selectionEndY := -1, mouseCycle := 0, mouseByte := fun _ => 0 }

/-! ## The selection on the screen -/

/-- `for (int i = lo; i <= hi; i++)` -/
def upTo (lo hi : Int) : List Int := (List.range (hi + 1 - lo).toNat).map fun k : Nat => lo + (k : Int)

/-- `uint16_t pos = y * SCREEN_WIDTH + x` -/
def cellPos (x y : Int) : Nat := ((y * screenWidth + x) % 2 ^ 16).toNat

/-- The cells from one corner to the other, as the two loops come to them: rows
between the first and the last are taken whole. -/
def regionCells (x y x' y' : Int) : List Nat :=
  let startX := if x < x' then x else x'
  let endX := if x < x' then x' else x
  let startY := if y < y' then y else y'
  let endY := if y < y' then y' else y
  (upTo startY endY).flatMap fun y =>
    (upTo (if y = startY then startX else 0) (if y = endY then endX else screenWidth - 1)).map fun x =>
      cellPos x y

/-- The cells of the selected region. -/
def selectionCells (s : MouseState) : List Nat :=
  regionCells s.selectionStartX s.selectionStartY s.selectionEndX s.selectionEndY

/-- `(attr & 0xFF) | color << 8` -/
def recolour (color : UInt8) (attr : UInt16) : UInt16 := (attr &&& (0xFF : UInt16)) ||| (color.toUInt16 <<< 8)

/-- `terminal_buffer[pos] = …` for every cell of the selection, if there is one. -/
def paintSelection (s : MouseState) (color : UInt8) : MouseState :=
  if s.selectionStartX = -1 ∨ s.selectionEndX = -1 then s
  else
    { s with term := { s.term with
        buffer := (selectionCells s).foldl
          (fun buffer pos => Function.update buffer pos (recolour color (buffer pos))) s.term.buffer } }

/-- `COLOR_WHITE` on `COLOR_BLACK` -/
def drawSelection (s : MouseState) : MouseState := paintSelection s 0x0F

/-- `clear_selection`: the region gets the colour of the terminal back. -/
def clearSelection (s : MouseState) : MouseState := paintSelection s s.term.color

/-- `update_selection`, which clears the region of the new corners and not that of the
old ones. -/
def updateSelection (s : MouseState) : MouseState :=
  if s.selectionStartX = -1 ∨ s.selectionEndX = -1 then s
  else drawSelection (clearSelection s)

/-! ## `mouse_handler` -/

/-- `int dx = (int)mouse_byte[1]; if (mouse_byte[0] & 0x10) dx |= 0xFFFFFF00;` -/
def readDelta (signBit : Bool) (data : UInt8) : Int32 :=
  let d := data.toInt8.toInt32
  if signBit then d ||| (0xFFFFFF00 : UInt32).toInt32 else d

/-- `if (v < 0) v = 0; if (v >= limit) v = limit - 1;` -/
def keepBelow (limit v : Int) : Int :=
  let v := if v < 0 then 0 else v
  if v ≥ limit then limit - 1 else v

/-- What a packet does to the selection, with the pointer where it is now. -/
def trackSelection (s : MouseState) : MouseState :=
  if s.mouseLeftPressed then
    let s := if s.selectionStartX = -1 then
        { s with selectionStartX := s.mouseX, selectionStartY := s.mouseY }
      else s
    { s with selectionEndX := s.mouseX, selectionEndY := s.mouseY }
  else if s.selectionStartX ≠ -1 then
    let s := clearSelection s
    { s with selectionStartX := -1, selectionStartY := -1, selectionEndX := -1, selectionEndY := -1 }
  else s

/-- What follows when `mouse_byte` holds a whole packet. -/
def handlePacket (s : MouseState) : MouseState :=
  let s := { s with
    mouseLeftPressed := s.mouseByte 0 &&& 0x01 != 0
    mouseRightPressed := s.mouseByte 0 &&& 0x02 != 0 }
  let dx := readDelta (s.mouseByte 0 &&& 0x10 != 0) (s.mouseByte 1)
  let dy := readDelta (s.mouseByte 0 &&& 0x20 != 0) (s.mouseByte 2)
  let dy := -dy
  let s := { s with
    mouseX := keepBelow screenWidth (s.mouseX + (dx / 2).toInt)
    mouseY := keepBelow screenHeight (s.mouseY + (dy / 2).toInt) }
  trackSelection s

/-- `mouse_handler`: one byte of a packet. The third completes it. -/
def mouseHandler (s : MouseState) (data : UInt8) : MouseState :=
  match s.mouseCycle with
  | 0 =>
    -- a byte that cannot be the first one is stored all the same
    let s := { s with mouseByte := Function.update s.mouseByte 0 data }
    if data &&& 0x08 = 0 then s else { s with mouseCycle := 1 }
  | 1 => { s with mouseByte := Function.update s.mouseByte 1 data, mouseCycle := 2 }
  | 2 =>
    let s := handlePacket { s with mouseByte := Function.update s.mouseByte 2 data }
    { s with mouseCycle := 0 }
  | _ => s

/-! ## What the bytes mean -/

/-- The three bytes of a packet. -/
structure Packet where
  head : UInt8
  xData : UInt8
  yData : UInt8

/-- The packets of a stream: a byte with bit 3 set, and the two bytes behind it. -/
def packets : List UInt8 → List Packet
  | [] => []
  | head :: rest =>
    if head &&& 0x08 = 0 then packets rest
    else
      match rest with
      | xData :: yData :: rest => { head := head, xData := xData, yData := yData } :: packets rest
      | _ => []

/-- A byte that cannot be the first one is left out. -/
theorem packets_skip {head : UInt8} (hhead : head &&& 0x08 = 0) (rest : List UInt8) :
    packets (head :: rest) = packets rest := by
  match rest with
  | [] => simp [packets]
  | [_] => simp [packets, hhead]
  | _ :: _ :: _ => rw [packets, if_pos hhead]

theorem packets_packet {head : UInt8} (hhead : head &&& 0x08 ≠ 0) (xData yData : UInt8) (rest : List UInt8) :
    packets (head :: xData :: yData :: rest) =
      { head := head, xData := xData, yData := yData } :: packets rest := by
  rw [packets, if_neg hhead]

/-- A packet that is not complete is none. -/
theorem packets_short {head : UInt8} {rest : List UInt8} (hhead : head &&& 0x08 ≠ 0)
    (hshort : ∀ xData yData rest', rest = xData :: yData :: rest' → False) : packets (head :: rest) = [] := by
  rw [packets, if_neg hhead]
  exact hshort

/-- A two's-complement number of nine bits, from its sign bit and the rest. -/
def nineBits (signBit : Bool) (data : UInt8) : Int := (data.toNat : Int) - if signBit then 256 else 0

namespace Packet

variable (p : Packet)

/-- The movement to the left: the ninth bit of `x`. -/
def xSign : Bool := p.head &&& 0x10 != 0

/-- The movement down: the ninth bit of `y`. -/
def ySign : Bool := p.head &&& 0x20 != 0

/-- Where a packet moves the pointer: by half of its two numbers, and not off
the screen. -/
def move (pos : Int × Int) : Int × Int :=
  (max 0 (min (pos.1 + (nineBits p.xSign p.xData).tdiv 2) (screenWidth - 1)),
    max 0 (min (pos.2 + (-nineBits p.ySign p.yData).tdiv 2) (screenHeight - 1)))

/-- Where the code moves it: a data byte is read as a `char`. -/
def moveSigned (pos : Int × Int) : Int × Int :=
  (keepBelow screenWidth (pos.1 + (readDelta p.xSign p.xData / 2).toInt),
    keepBelow screenHeight (pos.2 + (-readDelta p.ySign p.yData / 2).toInt))

end Packet

/-- The pointer is on the screen. -/
def InScreen (x y : Int) : Prop := 0 ≤ x ∧ x < screenWidth ∧ 0 ≤ y ∧ y < screenHeight

/-- Nothing is selected. -/
def NoSelection (s : MouseState) : Prop :=
  s.selectionStartX = -1 ∧ s.selectionStartY = -1 ∧ s.selectionEndX = -1 ∧ s.selectionEndY = -1

/-- The pointer and the corners of a selection are cells of the screen. -/
structure PointsOnScreen (s : MouseState) : Prop where
  pointer : InScreen s.mouseX s.mouseY
  selection : NoSelection s ∨
    (InScreen s.selectionStartX s.selectionStartY ∧ InScreen s.selectionEndX s.selectionEndY)

/-! ## One byte -/

/-- Painting changes the screen and nothing else. -/
theorem paintSelection_fields (s : MouseState) (color : UInt8) :
    ∃ buffer, paintSelection s color = { s with term := { s.term with buffer := buffer } } := by
  rw [paintSelection]
  split
  · exact ⟨s.term.buffer, rfl⟩
  · exact ⟨_, rfl⟩

/-- The two tests keep the value on the screen. -/
theorem keepBelow_eq {limit : Int} (hlimit : 0 < limit) (v : Int) :
    keepBelow limit v = max 0 (min v (limit - 1)) := by
  rw [keepBelow]
  split <;> split <;> omega

theorem keepBelow_inScreen (x y : Int) : InScreen (keepBelow screenWidth x) (keepBelow screenHeight y) := by
  rw [InScreen, keepBelow_eq (by decide), keepBelow_eq (by decide)]
  simp only [screenWidth, screenHeight]
  omega

/-- The selection moves neither the pointer nor the colour. -/
theorem trackSelection_fields (s : MouseState) :
    (trackSelection s).mouseX = s.mouseX ∧ (trackSelection s).mouseY = s.mouseY ∧
      (trackSelection s).mouseEnabled = s.mouseEnabled ∧ (trackSelection s).term.color = s.term.color := by
  obtain ⟨buffer, hclear⟩ := paintSelection_fields s s.term.color
  rw [trackSelection, clearSelection, hclear]
  split_ifs <;> exact ⟨rfl, rfl, rfl, rfl⟩

/-- The selection follows the pointer, and stays on the screen with it. -/
theorem trackSelection_pointsOnScreen {s : MouseState} (h : PointsOnScreen s) :
    PointsOnScreen (trackSelection s) := by
  obtain ⟨hpointer, hselection⟩ := h
  obtain ⟨buffer, hclear⟩ := paintSelection_fields s s.term.color
  rw [trackSelection, clearSelection, hclear]
  split
  · -- the end is where the pointer is; so is the start, if there was none
    refine ⟨?_, Or.inr ?_⟩
    · split_ifs <;> exact hpointer
    · rcases hselection with hnone | ⟨hstart, -⟩
      · rw [if_pos hnone.1]
        exact ⟨hpointer, hpointer⟩
      · rw [if_neg (by have := hstart.1; omega)]
        exact ⟨hstart, hpointer⟩
  · split
    · exact ⟨hpointer, Or.inl ⟨rfl, rfl, rfl, rfl⟩⟩
    · exact ⟨hpointer, hselection⟩

theorem handlePacket_pointsOnScreen {s : MouseState} (h : PointsOnScreen s) :
    PointsOnScreen (handlePacket s) := by
  rw [handlePacket]
  exact trackSelection_pointsOnScreen ⟨keepBelow_inScreen _ _, h.selection⟩

/-- **The range.** No byte takes the pointer or the selection off the screen. -/
theorem mouseHandler_pointsOnScreen {s : MouseState} (h : PointsOnScreen s) (data : UInt8) :
    PointsOnScreen (mouseHandler s data) := by
  have hsame : ∀ mouseByte mouseCycle, PointsOnScreen { s with mouseByte := mouseByte, mouseCycle := mouseCycle } :=
    fun _ _ => ⟨h.pointer, h.selection⟩
  rw [mouseHandler]
  split
  · dsimp only
    split
    · exact hsame _ _
    · exact hsame _ _
  · exact hsame _ _
  · obtain ⟨hpointer, hselection⟩ := handlePacket_pointsOnScreen
      (hsame (Function.update s.mouseByte 2 data) s.mouseCycle)
    exact ⟨hpointer, hselection⟩
  · exact h

/-- The run lemma of `PointsOnScreen`. -/
theorem pointsOnScreen_run {s : MouseState} (h : PointsOnScreen s) (stream : List UInt8) :
    PointsOnScreen (runOps mouseHandler s stream) :=
  @runOps_invariant _ _ mouseHandler PointsOnScreen (fun _ => True)
    (fun _ data hs _ => mouseHandler_pointsOnScreen hs data) s h stream fun _ _ => trivial

/-! ## Packets -/

/-- Where the pointer is. -/
def MouseState.pos (s : MouseState) : Int × Int := (s.mouseX, s.mouseY)

section

variable {s : MouseState} (hcycle : s.mouseCycle = 0)

include hcycle

/-- A byte that cannot be the first one moves nothing. -/
theorem mouseHandler_skip {data : UInt8} (hdata : data &&& 0x08 = 0) :
    (mouseHandler s data).mouseCycle = 0 ∧ (mouseHandler s data).pos = s.pos := by
  rw [mouseHandler, hcycle]
  dsimp only
  rw [if_pos hdata]
  exact ⟨rfl, rfl⟩

theorem mouseHandler_head {head : UInt8} (hhead : head &&& 0x08 ≠ 0) :
    mouseHandler s head =
      { s with mouseByte := Function.update s.mouseByte 0 head, mouseCycle := 1 } := by
  rw [mouseHandler, hcycle]
  exact if_neg hhead

end

theorem mouseHandler_second {s : MouseState} (hcycle : s.mouseCycle = 1) (data : UInt8) :
    mouseHandler s data =
      { s with mouseByte := Function.update s.mouseByte 1 data, mouseCycle := 2 } := by
  rw [mouseHandler, hcycle]
  rfl

/-- The third byte completes the packet. -/
theorem mouseHandler_third {s : MouseState} (hcycle : s.mouseCycle = 2) (data : UInt8) :
    mouseHandler s data = { handlePacket { s with mouseByte := Function.update s.mouseByte 2 data } with
      mouseCycle := 0 } := by
  rw [mouseHandler, hcycle]
  rfl

/-- Where a packet moves the pointer. -/
theorem handlePacket_pos (s : MouseState) : (handlePacket s).pos =
    Packet.moveSigned { head := s.mouseByte 0, xData := s.mouseByte 1, yData := s.mouseByte 2 } s.pos := by
  obtain ⟨hx, hy, -⟩ := trackSelection_fields { s with
    mouseLeftPressed := s.mouseByte 0 &&& 0x01 != 0
    mouseRightPressed := s.mouseByte 0 &&& 0x02 != 0
    mouseX := keepBelow screenWidth
      (s.mouseX + (readDelta (s.mouseByte 0 &&& 0x10 != 0) (s.mouseByte 1) / 2).toInt)
    mouseY := keepBelow screenHeight
      (s.mouseY + (-readDelta (s.mouseByte 0 &&& 0x20 != 0) (s.mouseByte 2) / 2).toInt) }
  exact Prod.ext hx hy

/-- Three bytes that are a packet. -/
theorem mouseHandler_packet {s : MouseState} (hcycle : s.mouseCycle = 0) {head : UInt8}
    (hhead : head &&& 0x08 ≠ 0) (xData yData : UInt8) :
    (mouseHandler (mouseHandler (mouseHandler s head) xData) yData).mouseCycle = 0 ∧
      (mouseHandler (mouseHandler (mouseHandler s head) xData) yData).pos =
        Packet.moveSigned { head := head, xData := xData, yData := yData } s.pos := by
  rw [mouseHandler_head hcycle hhead, mouseHandler_second (by rfl) xData,
    mouseHandler_third (by rfl) yData]
  refine ⟨rfl, ?_⟩
  exact handlePacket_pos { s with
    mouseByte := Function.update (Function.update (Function.update s.mouseByte 0 head) 1 xData) 2 yData
    mouseCycle := 2 }

/-- What the bytes read so far make of the pointer. -/
theorem pos_run {s : MouseState} (hcycle : s.mouseCycle = 0) (stream : List UInt8) :
    (runOps mouseHandler s stream).pos =
      runOps (fun pos (p : Packet) => p.moveSigned pos) s.pos (packets stream) := by
  induction stream using packets.induct generalizing s with
  | case1 => rfl
  | case2 head rest hskip ih =>
    obtain ⟨hcycle', hpos⟩ := mouseHandler_skip hcycle hskip
    rw [packets_skip hskip, runOps_cons, ih hcycle', hpos]
  | case3 head hhead xData yData rest ih =>
    obtain ⟨hcycle', hpos⟩ := mouseHandler_packet hcycle hhead xData yData
    rw [packets_packet hhead, runOps_cons, runOps_cons, runOps_cons, runOps_cons, ih hcycle', hpos]
  | case4 head rest hhead hshort =>
    rw [packets_short hhead hshort, runOps_cons, mouseHandler_head hcycle hhead]
    match rest, hshort with
    | [], _ => rfl
    | [_], _ => rfl
    | xData :: yData :: rest, hshort => exact absurd rfl (hshort xData yData rest)

/-! ## Which packets are read right -/

/-- The sign bit has to be set where the data byte has its top bit. -/
theorem readDelta_toInt (signBit : Bool) (data : UInt8) :
    (readDelta signBit data).toInt = nineBits (signBit || decide (0x80 ≤ data)) data := by
  have hall : ∀ (signBit : Bool) (n : Fin 256), (readDelta signBit (UInt8.ofNat n)).toInt =
      nineBits (signBit || decide (0x80 ≤ UInt8.ofNat n)) (UInt8.ofNat n) := by
    decide +kernel
  have hdata := hall signBit ⟨data.toNat, data.toNat_lt⟩
  rwa [UInt8.ofNat_toNat] at hdata

theorem tdiv_two (a : Int) : a.tdiv 2 = if 0 ≤ a then a / 2 else -(-a / 2) := by
  split
  · exact Int.tdiv_eq_ediv_of_nonneg ‹_›
  · rw [← Int.tdiv_eq_ediv_of_nonneg (a := -a) (by omega), Int.neg_tdiv, Int.neg_neg]

theorem nineBits_bounds (signBit : Bool) (data : UInt8) :
    -256 ≤ nineBits signBit data ∧ nineBits signBit data ≤ 255 := by
  have hlt : data.toNat < 256 := data.toNat_lt
  rw [nineBits]
  split <;> omega

/-- Half of what `mouse_handler` reads, with the sign it takes. -/
theorem half_readDelta (signBit : Bool) (data : UInt8) :
    (readDelta signBit data / 2).toInt = (nineBits (signBit || decide (0x80 ≤ data)) data).tdiv 2 := by
  rw [Int32.toInt_div_of_ne_right _ _ (by decide), readDelta_toInt]
  rfl

theorem half_neg_readDelta (signBit : Bool) (data : UInt8) :
    (-readDelta signBit data / 2).toInt = (-nineBits (signBit || decide (0x80 ≤ data)) data).tdiv 2 := by
  have hbounds := nineBits_bounds (signBit || decide (0x80 ≤ data)) data
  rw [Int32.toInt_div_of_ne_right _ _ (by decide), Int32.toInt_neg, readDelta_toInt,
    Int.bmod_eq_of_le (by omega) (by omega)]
  rfl

/-- The top bit of the data byte comes with the sign bit; or the byte is `-1`, half
of which is nothing, and the pointer is at the end it should move to. -/
def AxisOk (signBit : Bool) (data : UInt8) (atEnd : Prop) : Prop :=
  signBit = true ∨ data < 0x80 ∨ (data = 0xFF ∧ atEnd)

instance (signBit : Bool) (data : UInt8) (atEnd : Prop) [Decidable atEnd] :
    Decidable (AxisOk signBit data atEnd) :=
  inferInstanceAs (Decidable (_ ∨ _ ∨ _))

/-- On both axes the byte is read as its sign bit says, or it makes no difference. -/
def PacketOk (pos : Int × Int) (p : Packet) : Prop :=
  AxisOk p.xSign p.xData (pos.1 = screenWidth - 1) ∧ AxisOk p.ySign p.yData (pos.2 = 0)

theorem nineBits_of_ok {signBit : Bool} {data : UInt8} (h : signBit = true ∨ data < 0x80) :
    nineBits (signBit || decide (0x80 ≤ data)) data = nineBits signBit data := by
  rcases h with rfl | hlt
  · rfl
  · rw [decide_eq_false (UInt8.not_le.mpr hlt), Bool.or_false]

/-- A byte with its top bit set: what it says, and what it is read as. -/
theorem nineBits_of_not_ok {signBit : Bool} {data : UInt8} (h : ¬ (signBit = true ∨ data < 0x80)) :
    nineBits signBit data = data.toNat ∧ nineBits (signBit || decide (0x80 ≤ data)) data = (data.toNat : Int) - 256 ∧
      128 ≤ data.toNat ∧ data.toNat < 256 := by
  obtain ⟨hsign, hdata⟩ := not_or.mp h
  have hle : 0x80 ≤ data := UInt8.not_lt.mp hdata
  rw [Bool.not_eq_true] at hsign
  subst hsign
  refine ⟨?_, ?_, UInt8.le_iff_toNat_le.mp hle, data.toNat_lt⟩
  · exact Int.sub_zero _
  · rw [decide_eq_true hle]
    rfl

/-- Where the sign is misread, only `-1` makes no difference, and only at the end. -/
theorem axisOk_iff_of_not_ok {signBit : Bool} {data : UInt8} (h : ¬ (signBit = true ∨ data < 0x80)) (atEnd : Prop) :
    AxisOk signBit data atEnd ↔ data.toNat = 255 ∧ atEnd := by
  rw [AxisOk, ← or_assoc, or_iff_right h, ← UInt8.toNat_inj]
  rfl

/-- The two numbers agree on where to move if the data byte does not bring a sign,
and otherwise where the move for `data - 256` is the move for `data`. -/
theorem move_agrees_iff {move : Int → Int} {atEnd : Prop}
    (hend : ∀ n : Int, 128 ≤ n → n < 256 → (move (n - 256) = move n ↔ n = 255 ∧ atEnd))
    (signBit : Bool) (data : UInt8) :
    move (nineBits (signBit || decide (0x80 ≤ data)) data) = move (nineBits signBit data) ↔
      AxisOk signBit data atEnd := by
  by_cases hok : signBit = true ∨ data < 0x80
  · rw [nineBits_of_ok hok]
    exact iff_of_true rfl (or_assoc.mp (Or.inl hok))
  · obtain ⟨hmeant, hread, hge, hlt⟩ := nineBits_of_not_ok hok
    rw [axisOk_iff_of_not_ok hok, hmeant, hread, hend _ (by omega) (by omega)]
    exact and_congr_left fun _ => by omega

/-- Taken for a sign, the top bit moves the pointer to the left or nowhere. -/
theorem moveSigned_x_iff {x : Int} (hlo : 0 ≤ x) (hhi : x < screenWidth) (signBit : Bool) (data : UInt8) :
    keepBelow screenWidth (x + (readDelta signBit data / 2).toInt) =
        max 0 (min (x + (nineBits signBit data).tdiv 2) (screenWidth - 1)) ↔
      AxisOk signBit data (x = screenWidth - 1) := by
  rw [keepBelow_eq (by decide), half_readDelta]
  refine @move_agrees_iff (fun n => max 0 (min (x + n.tdiv 2) (screenWidth - 1))) _
    (fun n hge hlt => ?_) signBit data
  rw [tdiv_two, tdiv_two, if_neg (by omega), if_pos (by omega)]
  simp only [screenWidth] at hhi ⊢
  omega

/-- And down or nowhere. -/
theorem moveSigned_y_iff {y : Int} (hlo : 0 ≤ y) (hhi : y < screenHeight) (signBit : Bool) (data : UInt8) :
    keepBelow screenHeight (y + (-readDelta signBit data / 2).toInt) =
        max 0 (min (y + (-nineBits signBit data).tdiv 2) (screenHeight - 1)) ↔
      AxisOk signBit data (y = 0) := by
  rw [keepBelow_eq (by decide), half_neg_readDelta]
  refine @move_agrees_iff (fun n => max 0 (min (y + (-n).tdiv 2) (screenHeight - 1))) _
    (fun n hge hlt => ?_) signBit data
  rw [tdiv_two, tdiv_two, if_pos (by omega), if_neg (by omega)]
  simp only [screenHeight] at hhi ⊢
  omega

/-- A packet is decoded rightly exactly if both of its axes are. -/
theorem moveSigned_eq_iff {pos : Int × Int} (h : InScreen pos.1 pos.2) (p : Packet) :
    p.moveSigned pos = p.move pos ↔ PacketOk pos p := by
  obtain ⟨hxlo, hxhi, hylo, hyhi⟩ := h
  rw [Packet.moveSigned, Packet.move, Prod.mk.injEq]
  exact and_congr (moveSigned_x_iff hxlo hxhi _ _) (moveSigned_y_iff hylo hyhi _ _)

theorem move_inScreen (p : Packet) (pos : Int × Int) : InScreen (p.move pos).1 (p.move pos).2 := by
  rw [InScreen, Packet.move]
  simp only [screenWidth, screenHeight]
  omega

/-! ## The stream -/

/-- What is read of a stream is the start of what will be. -/
theorem packets_mono {front stream : List UInt8} (h : front <+: stream) : packets front <+: packets stream := by
  induction front using packets.induct generalizing stream with
  | case1 => exact List.nil_prefix
  | case2 head front hskip ih =>
    obtain ⟨rest, rfl⟩ := h
    rw [packets_skip hskip, List.cons_append, packets_skip hskip]
    exact ih (List.prefix_append front rest)
  | case3 head hhead xData yData front ih =>
    obtain ⟨rest, rfl⟩ := h
    rw [packets_packet hhead, List.cons_append, List.cons_append, List.cons_append, packets_packet hhead]
    exact (List.prefix_cons_inj _).mpr (ih (List.prefix_append front rest))
  | case4 head front hhead hshort =>
    rw [packets_short hhead hshort]
    exact List.nil_prefix

/-- Every packet is read when some of the stream has been read. -/
theorem exists_prefix_of_packets {stream : List UInt8} {ps : List Packet} (h : ps <+: packets stream) :
    ∃ front, front <+: stream ∧ packets front = ps := by
  induction stream using packets.induct generalizing ps with
  | case1 => exact ⟨[], List.nil_prefix, (List.prefix_nil.mp h).symm⟩
  | case2 head rest hskip ih =>
    rw [packets_skip hskip] at h
    obtain ⟨front, hfront, rfl⟩ := ih h
    exact ⟨head :: front, List.prefix_cons_inj head |>.mpr hfront, packets_skip hskip front⟩
  | case3 head hhead xData yData rest ih =>
    rw [packets_packet hhead] at h
    cases ps with
    | nil => exact ⟨[], List.nil_prefix, rfl⟩
    | cons p ps =>
      obtain ⟨rfl, hps⟩ := List.cons_prefix_cons.mp h
      obtain ⟨front, hfront, rfl⟩ := ih hps
      refine ⟨head :: xData :: yData :: front, ?_, packets_packet hhead xData yData front⟩
      simpa only [List.prefix_cons_inj] using hfront
  | case4 head rest hhead hshort =>
    rw [packets_short hhead hshort] at h
    exact ⟨[], List.nil_prefix, (List.prefix_nil.mp h).symm⟩

/-- **What reading a stream should do**, after every byte of it: the pointer is
where the packets so far move it, and it and the selection are on the screen. -/
def MouseDecodes (s : MouseState) (stream : List UInt8) : Prop :=
  ∀ front, front <+: stream →
    (runOps mouseHandler s front).pos = runOps (fun pos (p : Packet) => p.move pos) s.pos (packets front) ∧
      PointsOnScreen (runOps mouseHandler s front)

/-- A stream is decoded rightly if every packet of it is where it comes. -/
theorem mouseDecodes_iff_guarded {s : MouseState} (hcycle : s.mouseCycle = 0) (h : PointsOnScreen s)
    (stream : List UInt8) :
    MouseDecodes s stream ↔ Guarded (fun pos (p : Packet) => p.move pos) PacketOk s.pos (packets stream) := by
  have hexact : Guarded (fun pos (p : Packet) => p.move pos) (fun pos p => p.moveSigned pos = p.move pos) s.pos
      (packets stream) ↔ Guarded (fun pos (p : Packet) => p.move pos) PacketOk s.pos (packets stream) :=
    guarded_iff (fun pos => InScreen pos.1 pos.2) (fun _ p _ hpos => moveSigned_eq_iff hpos p)
      (fun pos p _ _ _ => move_inScreen p pos) h.pointer
  rw [← hexact, ← forall_prefix_runOps_eq_iff]
  constructor
  · intro hdecodes ps hps
    obtain ⟨front, hfront, rfl⟩ := exists_prefix_of_packets hps
    rw [← (hdecodes front hfront).1, pos_run hcycle]
  · intro hpackets front hfront
    refine ⟨?_, pointsOnScreen_run h front⟩
    rw [pos_run hcycle, hpackets _ (packets_mono hfront)]

theorem pointsOnScreen_boot (term : Terminal) : PointsOnScreen (.boot term) := by
  refine ⟨?_, Or.inl ⟨rfl, rfl, rfl, rfl⟩⟩
  show (0 : Int) ≤ 40 ∧ (40 : Int) < 80 ∧ (0 : Int) ≤ 12 ∧ (12 : Int) < 25
  omega

/-- **Mouse packets, from boot on.** The pointer is where the packets move it, all
along a stream, just if every packet in it is read right where the pointer is then. -/
theorem mouse_decodes_iff (term : Terminal) (stream : List UInt8) :
    MouseDecodes (.boot term) stream ↔
      Guarded (fun pos (p : Packet) => p.move pos) PacketOk (40, 12) (packets stream) :=
  mouseDecodes_iff_guarded rfl (pointsOnScreen_boot term) stream

/-- A packet that moves the pointer 128 units to the right moves it to the left edge. -/
theorem not_mouse_decodes : ¬ ∀ term stream, MouseDecodes (.boot term) stream := by
  intro h
  have hguard := (mouseDecodes_iff_guarded rfl (pointsOnScreen_boot programImage.term) [0x08, 0x80, 0x00]).mp
    (h programImage.term [0x08, 0x80, 0x00])
  exact absurd hguard.1.1 (by decide)

end Srunix
