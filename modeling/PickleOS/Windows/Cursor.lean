import Mathlib.Data.List.ProdSigma
import Mathlib.Data.List.FinRange
import PickleOS.Windows.Framebuffer

set_option autoImplicit false

namespace PickleOS.Windows

open Shared

def cursorW : Nat := 12

def cursorH : Nat := 19

/-- `#` is black, `.` is white, and a blank is transparent. -/
def cursor : List String := [
  "#           ",
  "##          ",
  "#.#         ",
  "#..#        ",
  "#...#       ",
  "#....#      ",
  "#.....#     ",
  "#......#    ",
  "#.......#   ",
  "#........#  ",
  "#.....####  ",
  "#..#..#     ",
  "#.# #..#    ",
  "##  #..#    ",
  "#    #..#   ",
  "     #..#   ",
  "      #..#  ",
  "      #..#  ",
  "       ##   "]

namespace Fb

variable (fb : Fb) (sx sy : Int32)

/-- `put_pixel` where both coordinates are on the positive side. -/
def putAt (color : Color) : Fb :=
  if 0 ≤ sx ∧ 0 ≤ sy then fb.putPixel sx.toInt64.toUInt64 sy.toInt64.toUInt64 color else fb

def readAt : Color :=
  if 0 ≤ sx ∧ 0 ≤ sy then fb.readPixel sx.toInt64.toUInt64 sy.toInt64.toUInt64 else .black

end Fb

abbrev Cell := Fin cursorH × Fin cursorW

def slot (cell : Cell) : Fin (cursorW * cursorH) :=
  ⟨cell.1 * cursorW + cell.2, by have := cell.1.isLt; have := cell.2.isLt; simp only [cursorW, cursorH] at *; omega⟩

structure CursorSaver where
  valid : Bool
  x : Int32
  y : Int32
  pixels : Vector Color (cursorW * cursorH)

/-- `for row in 0..CURSOR_H { for col in 0..CURSOR_W { .. } }`. -/
def eachCell {σ : Type} (turn : σ → Cell → σ) (start : σ) : σ :=
  (List.finRange cursorH).foldl (fun state row => (List.finRange cursorW).foldl
    (fun state col => turn state (row, col)) state) start

namespace CursorSaver

def new : CursorSaver where
  valid := false
  x := 0
  y := 0
  pixels := Vector.replicate _ .black

variable (saver : CursorSaver)

def save (fb : Fb) (x y : Int32) : CursorSaver where
  valid := true
  x := x
  y := y
  pixels := eachCell (fun pixels cell =>
    pixels.set (slot cell) (fb.readAt (x + Int32.ofNat cell.2) (y + Int32.ofNat cell.1))) saver.pixels

def restore (fb : Fb) : Fb :=
  if !saver.valid then fb
  else eachCell (fun fb cell =>
    fb.putAt (saver.x + Int32.ofNat cell.2) (saver.y + Int32.ofNat cell.1) saver.pixels[slot cell]) fb

end CursorSaver

def ink (ch : Char) : Option Color := if ch = '#' then some .black else if ch = '.' then some .white else none

def drawCursor (fb : Fb) (x y : Int32) : Fb :=
  cursor.zipIdx.foldl (fun fb (line, row) => line.toList.zipIdx.foldl (fun fb (ch, col) =>
    match ink ch with
    | none => fb
    | some color => fb.putAt (x + Int32.ofNat col) (y + Int32.ofNat row) color) fb) fb

/-! ### Saved, drawn, restored -/

def cells : List Cell := List.finRange cursorH ×ˢ List.finRange cursorW

theorem mem_cells (cell : Cell) : cell ∈ cells :=
  List.mem_product.mpr ⟨List.mem_finRange _, List.mem_finRange _⟩

theorem eachCell_eq {σ : Type} (turn : σ → Cell → σ) (start : σ) :
    eachCell turn start = cells.foldl turn start := by
  unfold cells eachCell
  generalize List.finRange cursorH = rows
  induction rows generalizing start with
  | nil => rfl
  | cons row rest ih => rw [List.foldl_cons, ih, List.product_cons, List.foldl_append, List.foldl_map]

theorem slot_distinct (first second : Cell) (same : slot first = slot second) : first = second := by
  have places : first.1.val * 12 + first.2.val = second.1.val * 12 + second.2.val := congrArg Fin.val same
  have col : first.2.val < 12 := first.2.isLt
  have col' : second.2.val < 12 := second.2.isLt
  exact Prod.ext (Fin.ext (by omega)) (Fin.ext (by omega))

namespace FrameBuffer

variable (screen : FrameBuffer) (sx sy : Int32)

def putAt (color : Color) : FrameBuffer :=
  if 0 ≤ sx ∧ 0 ≤ sy then screen.putPixelRaw sx.toInt64.toUInt64 sy.toInt64.toUInt64 color else screen

def coversAt (info : FrameBufferInfo) : Set UInt64 :=
  { a | (0 ≤ sx ∧ 0 ≤ sy) ∧ a ∈ covers info sx.toInt64.toUInt64 sy.toInt64.toUInt64 }

@[simp] theorem info_putAt (color : Color) : (screen.putAt sx sy color).info = screen.info := by
  unfold putAt
  split
  · exact info_putPixelRaw color
  · rfl

theorem putAt_other (color : Color) {a : UInt64} (outside : a ∉ coversAt sx sy screen.info) :
    (screen.putAt sx sy color).bytes a = screen.bytes a := by
  unfold putAt
  split
  next visible => exact screen.putPixelRaw_other _ _ color fun inside => outside ⟨visible, inside⟩
  next => rfl

theorem putAt_readAt (old : FrameBuffer) (same : old.info = screen.info)
    (known : screen.info.pixelFormat ≠ .unknown) {a : UInt64}
    (inside : a ∈ coversAt sx sy screen.info) :
      (screen.putAt sx sy (Fb.readAt (some old) sx sy)).bytes a = old.bytes a := by
  rw [putAt, Fb.readAt, if_pos inside.1, if_pos inside.1]
  exact putPixelRaw_readPixel same known inside.2

end FrameBuffer

theorem Fb.putAt_some (screen : FrameBuffer) (sx sy : Int32) (color : Color) :
    Fb.putAt (some screen) sx sy color = some (screen.putAt sx sy color) := by
  unfold Fb.putAt FrameBuffer.putAt
  split <;> rfl

/-- The cells of the sprite at `(x, y)` on a screen. -/
def sprite (info : FrameBufferInfo) (known : info.pixelFormat ≠ .unknown) (x y : Int32) :
    Surface UInt64 UInt8 Color Cell where
  covers cell := FrameBuffer.coversAt (x + Int32.ofNat cell.2) (y + Int32.ofNat cell.1) info
  read bytes cell := Fb.readAt (some ⟨info, bytes⟩) (x + Int32.ofNat cell.2) (y + Int32.ofNat cell.1)
  paint bytes cell color :=
    (FrameBuffer.putAt ⟨info, bytes⟩ (x + Int32.ofNat cell.2) (y + Int32.ofNat cell.1) color).bytes
  other bytes _ color _ outside := FrameBuffer.putAt_other ⟨info, bytes⟩ _ _ color outside
  again bytes old _ _ inside := FrameBuffer.putAt_readAt ⟨info, bytes⟩ _ _ ⟨info, old⟩ rfl known inside

section Screen

variable {info : FrameBufferInfo} {known : info.pixelFormat ≠ .unknown} {bytes bytes' : UInt64 → UInt8}
    {x y : Int32}

theorem putAt_sprite (known : info.pixelFormat ≠ .unknown) (bytes : UInt64 → UInt8) (x y : Int32)
    (cell : Cell) (color : Color) :
    Fb.putAt (some ⟨info, bytes⟩) (x + Int32.ofNat cell.2) (y + Int32.ofNat cell.1) color =
      some ⟨info, (sprite info known x y).paint bytes cell color⟩ := by
  have whole : ∀ screen : FrameBuffer, screen.info = info → screen = ⟨info, screen.bytes⟩ := by
    rintro ⟨_, _⟩ rfl
    rfl
  rw [Fb.putAt_some]
  exact congrArg some (whole _ (FrameBuffer.info_putAt ⟨info, bytes⟩ _ _ color))

theorem pixels_save (saver : CursorSaver) (fb : Fb) (x y : Int32) (cell : Cell) :
    (saver.save fb x y).pixels[slot cell] = fb.readAt (x + Int32.ofNat cell.2) (y + Int32.ofNat cell.1) := by
  have filled := eachCell_eq (fun (pixels : Vector Color (cursorW * cursorH)) cell =>
    pixels.set (slot cell) (fb.readAt (x + Int32.ofNat cell.2) (y + Int32.ofNat cell.1))) saver.pixels
  rw [show (saver.save fb x y).pixels = _ from filled]
  exact getElem_foldl_set slot_distinct (fun cell => fb.readAt (x + Int32.ofNat cell.2)
    (y + Int32.ofNat cell.1)) (.inl (mem_cells cell))

/-- A screen that is as before, but for the cells of the sprite. -/
def Under (known : info.pixelFormat ≠ .unknown) (bytes : UInt64 → UInt8) (x y : Int32) (fb : Fb) : Prop :=
  ∃ bytes', fb = some ⟨info, bytes'⟩ ∧ (sprite info known x y).Beside cells bytes bytes'

theorem under_drawCursor (known : info.pixelFormat ≠ .unknown) (bytes : UInt64 → UInt8) (x y : Int32) :
    Under known bytes x y (drawCursor (some ⟨info, bytes⟩) x y) := by
  have narrow : ∀ line ∈ cursor, line.toList.length = cursorW := by decide
  unfold drawCursor
  refine List.foldlRecOn _ _ ⟨bytes, rfl, .refl⟩ ?_
  rintro fb under ⟨line, row⟩ member
  refine List.foldlRecOn _ _ under ?_
  rintro fb ⟨bytes', rfl, beside⟩ ⟨ch, col⟩ member'
  have low : row < cursorH := List.snd_lt_of_mem_zipIdx member
  have wide : col < cursorW := by
    rw [← narrow line (List.fst_mem_of_mem_zipIdx member)]
    exact List.snd_lt_of_mem_zipIdx member'
  dsimp only
  split
  next => exact ⟨bytes', rfl, beside⟩
  next color _ =>
    exact ⟨_, putAt_sprite known bytes' x y (⟨row, low⟩, ⟨col, wide⟩) color, beside.paint (mem_cells _) color⟩

theorem restore_drawCursor (known : info.pixelFormat ≠ .unknown) (saver : CursorSaver)
    (bytes : UInt64 → UInt8) (x y : Int32) :
    (saver.save (some ⟨info, bytes⟩) x y).restore
      (drawCursor (some ⟨info, bytes⟩) x y) = some ⟨info, bytes⟩ := by
  obtain ⟨bytes', drawn, beside⟩ := under_drawCursor known bytes x y
  have restored : ∀ (ks : List Cell) (bytes' : UInt64 → UInt8),
      ks.foldl (fun fb cell => Fb.putAt fb (x + Int32.ofNat cell.2) (y + Int32.ofNat cell.1)
        (saver.save (some ⟨info, bytes⟩) x y).pixels[slot cell]) (some ⟨info, bytes'⟩) =
      some ⟨info, ks.foldl (fun m cell => (sprite info known x y).paint
        m cell ((sprite info known x y).read bytes cell)) bytes'⟩ := by
    intro ks
    induction ks with
    | nil => exact fun _ => rfl
    | cons cell rest ih =>
      intro bytes'
      rw [List.foldl_cons, putAt_sprite known, ih, pixels_save]
      rfl
  have valid : (saver.save (some ⟨info, bytes⟩) x y).valid = true := rfl
  rw [CursorSaver.restore, valid, if_neg (by decide), drawn, eachCell_eq]
  refine (restored cells bytes').trans ?_
  rw [beside.restore]

end Screen

/-- The pixels of the screen, if there is one, have a color that can be read and stored again. -/
def Fb.Known (fb : Fb) : Prop := ∀ screen, fb = some screen → screen.info.pixelFormat ≠ .unknown

theorem drawCursor_none (x y : Int32) : drawCursor none x y = none := by
  unfold drawCursor
  refine List.foldlRecOn (motive := fun fb : Fb => fb = none) _ _ rfl ?_
  rintro fb rfl ⟨line, row⟩ _
  refine List.foldlRecOn (motive := fun fb : Fb => fb = none) _ _ rfl ?_
  rintro fb rfl ⟨ch, col⟩ _
  dsimp only
  split
  · rfl
  · exact ite_self _

theorem restore_none (saver : CursorSaver) : saver.restore none = none := by
  unfold CursorSaver.restore
  split
  · rfl
  · rw [eachCell_eq]
    refine List.foldlRecOn (motive := fun fb : Fb => fb = none) _ _ rfl ?_
    rintro fb rfl cell _
    exact ite_self _

theorem restore_drawn {fb : Fb} (known : fb.Known) (saver : CursorSaver) (x y : Int32) :
    (saver.save fb x y).restore (drawCursor fb x y) = fb := by
  cases fb with
  | none => rw [drawCursor_none, restore_none]
  | some screen => exact restore_drawCursor (known screen rfl) saver screen.bytes x y

/-- Wherever the cursor is drawn, also partly or fully off the screen, what it covers is brought back, and
nothing else changes. -/
theorem cursor_erased {fb : Fb} (known : fb.Known) (saver : CursorSaver) (x y : Int32) :
    (saver.save fb x y).restore (drawCursor fb x y) = fb :=
  restore_drawn known saver x y

/-- A screen of 3 x 2 pixels in rows of 4. -/
def corner : FrameBuffer where
  info := { byteLen := 32, width := 3, height := 2, pixelFormat := .bgr, bytesPerPixel := 4, stride := 4 }
  bytes := fun _ => 7

theorem cursor_erased_corner : (drawCursor (some corner) (-1) (-2)).map
    (fun screen => screen.bytes 0) = some 255 ∧
    (CursorSaver.new.save (some corner) (-1) (-2)).restore (drawCursor (some corner) (-1) (-2)) = some corner :=
  ⟨by decide +kernel, cursor_erased (fun _ same => by cases same; decide) _ _ _⟩

/-! ### Turn after turn -/

/-- A turn of the compositor that erases the cursor, paints, and draws the cursor where the mouse is. -/
structure Turn where
  paint : Fb → Fb
  x : Int32
  y : Int32
  keeps : ∀ fb, fb.Known → (paint fb).Known

/-- The framebuffer and the pixels that were saved. -/
def Turn.take (turn : Turn) (s : Fb × CursorSaver) : Fb × CursorSaver :=
  let fb := turn.paint (s.2.restore s.1)
  (drawCursor fb turn.x turn.y, s.2.save fb turn.x turn.y)

theorem turns_erased {fb : Fb} (known : fb.Known) (saver : CursorSaver) (x y : Int32) (turns : List Turn) :
    (turns.foldl (fun s turn => turn.take s) (drawCursor fb x y, saver.save fb x y)).2.restore
      (turns.foldl (fun s turn => turn.take s) (drawCursor fb x y, saver.save fb x y)).1 =
    turns.foldl (fun fb turn => turn.paint fb) fb := by
  induction turns generalizing fb saver x y with
  | nil => exact restore_drawn known saver x y
  | cons turn rest ih =>
    have taken : turn.take (drawCursor fb x y, saver.save fb x y) =
        (drawCursor (turn.paint fb) turn.x turn.y, (saver.save fb x y).save (turn.paint fb) turn.x turn.y) := by
      rw [Turn.take, restore_drawn known]
    rw [List.foldl_cons, List.foldl_cons, taken]
    exact ih (turn.keeps fb known) _ _ _

end PickleOS.Windows
