import PickleOS.Shared.Words
import PickleOS.Windows.Drawing
import Mathlib.Tactic.Ring

set_option autoImplicit false

/-!
# The text console on the framebuffer

What is printed is an endless sheet of text, and the screen shows the last rows of it.
-/

namespace PickleOS.Windows

open Shared

def Color.desktop : Color := ⟨0x0A3D4A⟩

namespace FrameBuffer

/-- `ptr::copy(ptr.add(shift), ptr, total - shift)`. -/
def moveUp (screen : FrameBuffer) : FrameBuffer :=
  let rowBytes := screen.info.stride * screen.info.bytesPerPixel
  let shift := glyphH * rowBytes
  let total := screen.info.height * rowBytes
  { screen with bytes := fun a => if a < total - shift then screen.bytes (a + shift) else screen.bytes a }

/-- Everything goes up by one row of text, and the last row of text is cleared. -/
def scrollUp (screen : FrameBuffer) (bg : Color) : FrameBuffer :=
  let lastY := (screen.info.height / glyphH - 1) * glyphH
  (span lastY screen.info.height).foldl
    (fun screen' yy => (span 0 screen.info.width).foldl (fun screen' xx => screen'.putPixelRaw xx yy bg)
    screen') screen.moveUp

end FrameBuffer

/-- The statics `FB` and `CONSOLE`. -/
structure TextConsole where
  fb : Fb
  col : UInt64 := 0
  row : UInt64 := 0
  cols : UInt64 := 0
  rows : UInt64 := 0
  fg : Color := ⟨0x00FF66⟩
  bg : Color := .desktop
  active : Bool := false

namespace TextConsole

variable (font : Font) (con : TextConsole)

def init (info : FrameBufferInfo) (memory : UInt64 → UInt8) : TextConsole :=
  let screen : FrameBuffer := { info := info, bytes := memory }
  { fb := some (screen.clear .desktop), cols := info.width / glyphW, rows := info.height / glyphH,
    active := true }

def setConsoleColors (fg bg : Color) : TextConsole := { con with fg := fg, bg := bg }

/-- `draw_glyph(ch, col * GLYPH_W, row * GLYPH_H, fg, bg)`. -/
def drawAt (ch : Char) (col : UInt64) : TextConsole :=
  { con with
    fb := con.fb.map fun screen => screen.drawGlyph font ch (col * glyphW) (con.row * glyphH) con.fg con.bg }

/-- What a character does, before the checks for the end of the row and of the screen. -/
def place (ch : Char) : TextConsole :=
  if ch = '\n' then { con with col := 0, row := con.row + 1 }
  else if ch = '\r' then { con with col := 0 }
  else if ch = '\t' then { con with col := (con.col + 4) &&& ~~~3 }
  else if ch = '\x08' then
    if 0 < con.col then { con.drawAt font ' ' (con.col - 1) with col := con.col - 1 } else con
  else { con.drawAt font ch con.col with col := con.col + 1 }

def wrap : TextConsole := if con.cols ≤ con.col then { con with col := 0, row := con.row + 1 } else con

def scroll : TextConsole :=
  if con.rows ≤ con.row then { con with fb := con.fb.map fun screen => screen.scrollUp con.bg, row :=
    con.rows - 1 } else con

def consoleWriteStr (text : String) : TextConsole :=
  if con.cols = 0 ∨ con.rows = 0 then con else
    text.toList.foldl (fun con ch => (con.place font ch).wrap.scroll) con

end TextConsole

inductive TextCell where
  | blank (bg : Color)
  | glyph (ch : Char) (fg bg : Color)

def TextCell.color (font : Font) (row col : Fin 8) : TextCell → Color
  | blank bg => bg
  | glyph ch fg bg => if font.lit ch row col then fg else bg

/-- Text without an end, written at the cursor. -/
structure Sheet where
  cells : Nat → Nat → TextCell := fun _ _ => .blank .desktop
  row : Nat := 0
  col : Nat := 0
  fg : Color := ⟨0x00FF66⟩
  bg : Color := .desktop

namespace Sheet

variable (cols rows : Nat) (sheet : Sheet)

/-- The first row on the screen. -/
def top : Nat := sheet.row + 1 - rows

def put (ch : Char) (col : Nat) : Sheet :=
  { sheet with cells := Function.update sheet.cells sheet.row (Function.update (sheet.cells sheet.row)
  col (.glyph ch sheet.fg sheet.bg)) }

/-- The rows that the screen had no room for have the background of the time when they come up. -/
def newLine : Sheet :=
  { sheet with
    row := sheet.row + 1
    col := 0
    cells :=
      if sheet.row + 1 < rows then sheet.cells else Function.update sheet.cells (sheet.row + 1) fun _ =>
        .blank sheet.bg }

def move (col : Nat) : Sheet := if cols ≤ col then sheet.newLine rows else { sheet with col := col }

def type (ch : Char) : Sheet :=
  if ch = '\n' then sheet.newLine rows
  else if ch = '\r' then { sheet with col := 0 }
  else if ch = '\t' then sheet.move cols rows ((sheet.col + 4) / 4 * 4)
  else if ch = '\x08' then if 0 < sheet.col then
    { sheet.put ' ' (sheet.col - 1) with col := sheet.col - 1 } else sheet
  else (sheet.put ch sheet.col).move cols rows (sheet.col + 1)

/-- The pixels of the rows of text on the screen. -/
def picture (font : Font) : Picture := fun p =>
  let row := p.2.toNat / 8
  let col := p.1.toNat / 8
  if row < rows ∧ col < cols then
    some ((sheet.cells (sheet.top rows + row) col).color font (Fin.ofNat 8 p.2.toNat) (Fin.ofNat 8 p.1.toNat))
  else none

end Sheet

inductive ConsoleCommand where
  | write (text : String)
  | colors (fg bg : Color)

def TextConsole.step (font : Font) (con : TextConsole) : ConsoleCommand → TextConsole
  | .write text => con.consoleWriteStr font text
  | .colors fg bg => con.setConsoleColors fg bg

def Sheet.step (cols rows : Nat) (sheet : Sheet) : ConsoleCommand → Sheet
  | .write text => text.toList.foldl (Sheet.type cols rows) sheet
  | .colors fg bg => { sheet with fg := fg, bg := bg }

/-! ### Scrolling -/

section

variable {screen : FrameBuffer} {picture : Picture}

/-- The picture, moved up by one row of text. -/
def raised (info : FrameBufferInfo) (picture : Picture) : Picture := fun p =>
  if p.2.toNat + 8 < info.height.toNat then picture (p.1, p.2 + 8) else none

variable (regular : screen.info.Regular) (tall : glyphH ≤ screen.info.height)

include regular tall

theorem FrameBuffer.moveUp_bytes {x y px px' : UInt64}
    {i : Nat} (below : y.toNat + 8 < screen.info.height.toNat)
    (found : screen.info.offset x y = some px) (found' : screen.info.offset x (y + 8) = some px')
    (inside : i < screen.info.pixelFormat.size) :
      screen.moveUp.bytes (px + UInt64.ofNat i) = screen.bytes (px' + UInt64.ofNat i) := by
  rw [UInt64.le_iff_toNat_le, toNat_glyphH] at tall
  have next : (y + 8).toNat = y.toNat + 8 := by
    have := screen.info.height.toNat_lt
    rw [UInt64.toNat_add, Nat.mod_eq_of_lt (by simp; omega)]
    rfl
  obtain ⟨right, low⟩ := FrameBufferInfo.offset_some found
  obtain ⟨_, low'⟩ := FrameBufferInfo.offset_some found'
  obtain ⟨_, place, number⟩ := FrameBufferInfo.offset_eq regular right low
  obtain ⟨_, place', number'⟩ := FrameBufferInfo.offset_eq regular right low'
  cases found.symm.trans place
  cases found'.symm.trans place'
  have last := FrameBufferInfo.pixels_below regular right low'
  have room := regular.room
  have limit := screen.info.byteLen.toNat_lt
  have size := regular.bytes
  rw [Nat.mul_assoc] at room last
  have rows : 8 * (screen.info.stride.toNat * screen.info.bytesPerPixel.toNat) ≤
      screen.info.height.toNat * (screen.info.stride.toNat * screen.info.bytesPerPixel.toNat) :=
        Nat.mul_le_mul_right _ tall
  have down : ((y.toNat + 8) * screen.info.stride.toNat + x.toNat) * screen.info.bytesPerPixel.toNat =
      (y.toNat * screen.info.stride.toNat + x.toNat) * screen.info.bytesPerPixel.toNat +
        8 * (screen.info.stride.toNat * screen.info.bytesPerPixel.toNat) := by ring
  rw [next, down] at last number'
  have rowBytes : (screen.info.stride * screen.info.bytesPerPixel).toNat =
      screen.info.stride.toNat * screen.info.bytesPerPixel.toNat := by
    rw [UInt64.toNat_mul, Nat.mod_eq_of_lt (by omega)]
  have shift : (glyphH * (screen.info.stride * screen.info.bytesPerPixel)).toNat =
      8 * (screen.info.stride.toNat * screen.info.bytesPerPixel.toNat) := by
    rw [UInt64.toNat_mul, rowBytes, toNat_glyphH, Nat.mod_eq_of_lt (by omega)]
  have total : (screen.info.height * (screen.info.stride * screen.info.bytesPerPixel)).toNat =
      screen.info.height.toNat * (screen.info.stride.toNat * screen.info.bytesPerPixel.toNat) := by
    rw [UInt64.toNat_mul, rowBytes, Nat.mod_eq_of_lt (by omega)]
  have small : (UInt64.ofNat i).toNat = i := UInt64.toNat_ofNat_of_lt' (show i < 2 ^ 64 by omega)
  have moved : px' = px + glyphH * (screen.info.stride * screen.info.bytesPerPixel) := by
    apply UInt64.toNat_inj.mp
    rw [UInt64.toNat_add, shift, number', number, Nat.mod_eq_of_lt (by omega)]
  have address : (px + UInt64.ofNat i).toNat = px.toNat + i := by
    rw [UInt64.toNat_add, small, number, Nat.mod_eq_of_lt (by omega)]
  unfold FrameBuffer.moveUp
  dsimp only
  rw [if_pos, moved]
  · congr 1
    grind
  · rw [UInt64.lt_iff_toNat_lt, UInt64.toNat_sub_of_le _ _
      (by rw [UInt64.le_iff_toNat_le, shift, total]; exact rows), shift, total, address,
      number]
    omega

theorem FrameBuffer.Depicts.moveUp (depicts : screen.Depicts picture) :
    screen.moveUp.Depicts (raised screen.info picture) := by
  intro x y px color found known i b at'
  change screen.info.offset x y = some px at found
  change (screen.info.pixelFormat.encode color)[i]? = some b at at'
  unfold raised at known
  split at known
  next below =>
    change y.toNat + 8 < screen.info.height.toNat at below
    have low' : y + 8 < screen.info.height := by
      rw [UInt64.lt_iff_toNat_lt]
      exact Nat.lt_of_le_of_lt (Nat.mod_le _ _) below
    obtain ⟨px', found', _⟩ := FrameBufferInfo.offset_eq regular (FrameBufferInfo.offset_some found).1 low'
    have inside : i < screen.info.pixelFormat.size := by
      rw [← PixelFormat.length_encode _ color]
      exact (List.getElem?_eq_some_iff.mp at').choose
    rw [FrameBuffer.moveUp_bytes regular tall below found found' inside]
    exact depicts x (y + 8) px' color found' known i b at'
  next => cases known

theorem scrollUp_paints (depicts : screen.Depicts picture) (bg : Color) :
    (screen.scrollUp bg).info = screen.info ∧
      (screen.scrollUp bg).Depicts ((raised screen.info picture).under fun p =>
        if p.1 ∈ span 0 screen.info.width ∧ p.2 ∈ span ((screen.info.height / glyphH - 1) * glyphH)
          screen.info.height then some bg
        else none) := by
  have draws := draws_block regular (span 0 screen.info.width)
    (span ((screen.info.height / glyphH - 1) * glyphH) screen.info.height) bg
  exact ⟨draws.keeps screen.moveUp rfl, draws.paints screen.moveUp _ rfl (depicts.moveUp regular tall)⟩

end

theorem bitAt_cell {col row : UInt64} (wide : col.toNat * 8 + 8 ≤ 2 ^ 64)
    (tall : row.toNat * 8 + 8 ≤ 2 ^ 64) (p : UInt64 × UInt64) :
    bitAt (col * glyphW) (row * glyphH) p =
      if p.2.toNat / 8 = row.toNat ∧ p.1.toNat / 8 = col.toNat then
        some (Fin.ofNat 8 p.2.toNat, Fin.ofNat 8 p.1.toNat) else none := by
  have number (q k : UInt64) (room : k.toNat * 8 + 8 ≤ 2 ^ 64) :
    (q - k * 8).toNat = (2 ^ 64 - k.toNat * 8 + q.toNat) % 2 ^ 64 := by
    rw [UInt64.toNat_sub, UInt64.toNat_mul, Nat.mod_eq_of_lt
      (show k.toNat * (8 : UInt64).toNat < 2 ^ 64 by simp; omega)]
    rfl
  have col' := number p.1 col wide
  have row' := number p.2 row tall
  have := p.1.toNat_lt
  have := p.2.toNat_lt
  unfold bitAt glyphW glyphH
  by_cases here : p.2.toNat / 8 = row.toNat ∧ p.1.toNat / 8 = col.toNat
  · rw [if_pos here, dif_pos (by omega), Option.some.injEq, Prod.mk.injEq, Fin.ext_iff, Fin.ext_iff]
    simp only [Fin.ofNat]
    omega
  · rw [if_neg here, dif_neg (by omega)]

/-! ### The sheet on the screen -/

/-- The screen has the last rows of the sheet, and the cursor is in the same place. -/
structure TextConsole.Shows (font : Font) (info : FrameBufferInfo) (con : TextConsole) (sheet : Sheet) :
    Prop where
  screen : ∃ screen, con.fb = some screen ∧ screen.info = info ∧
    screen.Depicts (sheet.picture (info.width.toNat / 8) (info.height.toNat / 8) font)
  cols : con.cols = info.width / glyphW
  rows : con.rows = info.height / glyphH
  col : con.col.toNat = sheet.col
  row : con.row.toNat + sheet.top (info.height.toNat / 8) = sheet.row
  fg : con.fg = sheet.fg
  bg : con.bg = sheet.bg

namespace Sheet

variable {font : Font} {info : FrameBufferInfo} {cols rows : Nat} {sheet : Sheet}

theorem cells_put (sheet : Sheet) (ch : Char) (col r c : Nat) :
    (sheet.put ch col).cells r c = if r = sheet.row ∧ c = col then .glyph ch sheet.fg sheet.bg else
      sheet.cells r c := by
  unfold put
  dsimp only
  by_cases row : r = sheet.row
  · by_cases same : c = col
    · rw [row, same, Function.update_self, Function.update_self, if_pos ⟨rfl, rfl⟩]
    · rw [row, Function.update_self, Function.update_of_ne same, if_neg fun here => same here.2]
  · rw [Function.update_of_ne row, if_neg fun here => row here.1]

theorem picture_put {col row : UInt64} (wide : col.toNat * 8 + 8 ≤ 2 ^ 64) (tall : row.toNat * 8 + 8 ≤ 2 ^ 64)
    (here : row.toNat + sheet.top rows = sheet.row) (ch : Char) {p : UInt64 × UInt64} {color : Color}
    (shown : (sheet.put ch col.toNat).picture cols rows font p = some color) :
    ((sheet.picture cols rows font).under
      (bitLayer (col * glyphW) (row * glyphH) fun i j =>
        some (if font.lit ch i j then sheet.fg else sheet.bg))) p = some color := by
  simp only [picture] at shown
  split at shown
  next visible =>
    rw [Layer.under, bitLayer, bitAt_cell wide tall]
    rw [cells_put, show (sheet.put ch col.toNat).top rows = sheet.top rows from rfl] at shown
    by_cases cell : p.2.toNat / 8 = row.toNat ∧ p.1.toNat / 8 = col.toNat
    · rw [if_pos ⟨by omega, cell.2⟩] at shown
      rw [if_pos cell]
      exact shown
    · rw [if_neg (by omega)] at shown
      rw [if_neg cell, picture, if_pos visible]
      exact shown
  next => cases shown

theorem picture_newLine (full : info.height.toNat / 8 ≤ sheet.row + 1) {p : UInt64 × UInt64} {color : Color}
    (shown : (sheet.newLine (info.height.toNat / 8)).picture (info.width.toNat / 8)
    (info.height.toNat / 8) font p = some color) :
    ((raised info (sheet.picture (info.width.toNat / 8) (info.height.toNat / 8) font)).under fun p =>
      if p.1 ∈ span 0 info.width ∧ p.2 ∈ span ((info.height / glyphH - 1) * glyphH) info.height then
        some sheet.bg else none) p =
      some color := by
  simp only [picture] at shown
  split at shown
  next visible =>
    have := p.1.toNat_lt
    have height := info.height.toNat_lt
    have rows : (info.height / glyphH).toNat = info.height.toNat / 8 := by rw [UInt64.toNat_div, toNat_glyphH]
    have lastY : ((info.height / glyphH - 1) * glyphH).toNat = (info.height.toNat / 8 - 1) * 8 := by
      rw [UInt64.toNat_mul, UInt64.toNat_sub_of_le _ _
        (by rw [UInt64.le_iff_toNat_le, rows]; simp; omega), rows, toNat_glyphH]
      simp
      omega
    rw [Layer.under]
    simp only [mem_span, UInt64.le_iff_toNat_le, UInt64.lt_iff_toNat_lt, lastY]
    have cells : (sheet.newLine (info.height.toNat / 8)).cells = Function.update sheet.cells
      (sheet.row + 1) fun _ => .blank sheet.bg := by
      simp only [newLine]
      rw [if_neg (by omega)]
    have top : (sheet.newLine (info.height.toNat / 8)).top (info.height.toNat / 8) = sheet.row + 1 + 1 -
      info.height.toNat / 8 := rfl
    rw [cells, top] at shown
    by_cases last : p.2.toNat / 8 = info.height.toNat / 8 - 1
    · rw [show sheet.row + 1 + 1 - info.height.toNat / 8 + p.2.toNat / 8 = sheet.row + 1 by omega,
        Function.update_self] at shown
      rw [if_pos (by simp; omega)]
      exact shown
    · have next : (p.2 + 8).toNat = p.2.toNat + 8 := by
        rw [UInt64.toNat_add, Nat.mod_eq_of_lt (by simp; omega)]
        rfl
      rw [Function.update_of_ne (by omega)] at shown
      rw [if_neg (by omega), Option.none_or, raised, if_pos (by omega), picture]
      dsimp only
      have bit : Fin.ofNat 8 (p.2.toNat + 8) = Fin.ofNat 8 p.2.toNat := Fin.ext (Nat.add_mod_right _ 8)
      have row : sheet.top (info.height.toNat / 8) + (p.2.toNat + 8) / 8 =
          sheet.row + 1 + 1 - info.height.toNat / 8 + p.2.toNat / 8 := by
        unfold Sheet.top
        omega
      rw [next, if_pos (by omega), ← shown, bit, row]
  next => cases shown

end Sheet

namespace TextConsole.Shows

variable {font : Font} {info : FrameBufferInfo} {con : TextConsole} {sheet : Sheet}

theorem below (shows : con.Shows font info sheet) :
    0 < info.height.toNat / 8 → con.row.toNat < info.height.toNat / 8 := by
  have row := shows.row
  unfold Sheet.top at row
  omega

theorem toNat_cols (shows : con.Shows font info sheet) : con.cols.toNat = info.width.toNat / 8 := by
  rw [shows.cols, UInt64.toNat_div, toNat_glyphW]

theorem toNat_rows (shows : con.Shows font info sheet) : con.rows.toNat = info.height.toNat / 8 := by
  rw [shows.rows, UInt64.toNat_div, toNat_glyphH]

theorem moved (shows : con.Shows font info sheet) {col : UInt64} {col' : Nat} (same : col.toNat = col') :
    Shows font info { con with col := col } { sheet with col := col' } :=
  { shows with col := same }

variable (regular : info.Regular) (wide : 0 < info.width.toNat / 8) (tall : 0 < info.height.toNat / 8)

include regular tall in
theorem drawAt (shows : con.Shows font info sheet) (ch : Char)
    {col : UInt64} (inside : col.toNat < info.width.toNat / 8) :
    (con.drawAt font ch col).Shows font info (sheet.put ch col.toNat) := by
  have below := shows.below tall
  have width := info.width.toNat_lt
  have height := info.height.toNat_lt
  obtain ⟨screen, active, same, depicts⟩ := shows.screen
  have draws := draws_drawGlyph regular font ch (col * glyphW) (con.row * glyphH) con.fg con.bg
  have shown : ∃ screen, (con.drawAt font ch col).fb = some screen ∧ screen.info = info ∧
      screen.Depicts ((sheet.put ch col.toNat).picture (info.width.toNat / 8) (info.height.toNat / 8)
        font) := by
    refine ⟨_, by rw [TextConsole.drawAt, active]; rfl, draws.keeps screen same,
      (draws.paints screen _ same depicts).weaken ?_⟩
    rw [shows.fg, shows.bg]
    exact fun p color _ => Sheet.picture_put (by omega) (by omega) shows.row ch
  exact { shows with screen := shown }

include regular tall in
theorem newLine (shows : con.Shows font info sheet) :
    ({ con with col := 0, row := con.row + 1 } : TextConsole).scroll.Shows
      font info (sheet.newLine (info.height.toNat / 8)) := by
  have below := shows.below tall
  have row := shows.row
  have height := info.height.toNat_lt
  have next : (con.row + 1).toNat = con.row.toNat + 1 := by
    rw [UInt64.toNat_add, Nat.mod_eq_of_lt (by simp; omega)]
    rfl
  unfold Sheet.top at row
  unfold TextConsole.scroll
  split
  next full =>
    rw [UInt64.le_iff_toNat_le, shows.toNat_rows, next] at full
    obtain ⟨screen, active, same, depicts⟩ := shows.screen
    have last : (con.rows - 1).toNat = info.height.toNat / 8 - 1 := by
      rw [UInt64.toNat_sub_of_le _ _ (by rw [UInt64.le_iff_toNat_le, shows.toNat_rows]; exact tall),
        shows.toNat_rows]
      rfl
    have high : glyphH ≤ screen.info.height := by
      rw [UInt64.le_iff_toNat_le, same, toNat_glyphH]
      omega
    have scrolled := scrollUp_paints (same ▸ regular) high depicts con.bg
    rw [same, shows.bg] at scrolled
    refine { shows with screen := ⟨_, by rw [active]; rfl, ?_, ?_⟩, col := rfl, row := ?_ }
    · rw [shows.bg, scrolled.1]
    · rw [shows.bg]
      exact scrolled.2.weaken fun p color _ => Sheet.picture_newLine (by omega)
    · rw [last]
      change _ + (sheet.row + 1 + 1 - _) = sheet.row + 1
      omega
  next room =>
    rw [UInt64.not_le, UInt64.lt_iff_toNat_lt, shows.toNat_rows, next] at room
    have cells : (sheet.newLine (info.height.toNat / 8)).cells = sheet.cells := by
      unfold Sheet.newLine
      rw [if_pos (by omega)]
    have top : (sheet.newLine (info.height.toNat / 8)).top
      (info.height.toNat / 8) = sheet.top (info.height.toNat / 8) := by
      change sheet.row + 1 + 1 - _ = sheet.row + 1 - _
      omega
    obtain ⟨screen, active, same, depicts⟩ := shows.screen
    refine { shows with screen := ⟨screen, active, same, ?_⟩, col := rfl, row := ?_ }
    · unfold Sheet.picture at depicts ⊢
      rwa [cells, top]
    · change (con.row + 1).toNat + (sheet.row + 1 + 1 - _) = sheet.row + 1
      omega

include regular wide tall in
theorem move (shows : con.Shows font info sheet) {col : UInt64} {col' : Nat} (same : col.toNat = col') :
    ({ con with col := col } : TextConsole).wrap.scroll.Shows
      font info (sheet.move (info.width.toNat / 8) (info.height.toNat / 8) col') ∧
      (sheet.move (info.width.toNat / 8) (info.height.toNat / 8) col').col < info.width.toNat / 8 := by
  unfold TextConsole.wrap Sheet.move
  by_cases past : info.width.toNat / 8 ≤ col'
  · rw [if_pos past, if_pos (by rw [UInt64.le_iff_toNat_le, shows.toNat_cols, same]; exact past)]
    have lined := shows.newLine regular tall
    exact ⟨lined, wide⟩
  · rw [if_neg past, if_neg (by rw [UInt64.le_iff_toNat_le, shows.toNat_cols, same]; exact past)]
    have below := shows.below tall
    refine ⟨?_, Nat.lt_of_not_le past⟩
    unfold TextConsole.scroll
    rw [if_neg (by rw [UInt64.le_iff_toNat_le, shows.toNat_rows]; exact Nat.not_le.mpr below)]
    exact shows.moved same

include regular wide tall in
theorem type (shows : con.Shows font info sheet) (inside : sheet.col < info.width.toNat / 8) (ch : Char) :
    (con.place font ch).wrap.scroll.Shows font info
      (sheet.type (info.width.toNat / 8) (info.height.toNat / 8) ch) ∧
      (sheet.type (info.width.toNat / 8) (info.height.toNat / 8) ch).col < info.width.toNat / 8 := by
  have width := info.width.toNat_lt
  have next (k : UInt64) (small : k.toNat ≤ 4) : (con.col + k).toNat = sheet.col + k.toNat := by
    rw [UInt64.toNat_add, shows.col, Nat.mod_eq_of_lt (by omega)]
  have stay (sheet' : Sheet) {col : Nat} (inside : col < info.width.toNat / 8) :
      sheet'.move (info.width.toNat / 8) (info.height.toNat / 8) col = { sheet' with col := col } := by
    rw [Sheet.move, if_neg (Nat.not_le.mpr inside)]
  unfold TextConsole.place Sheet.type
  split
  next =>
    have room : ¬con.cols ≤ 0 := by
      rw [UInt64.le_iff_toNat_le, shows.toNat_cols]
      exact Nat.not_le.mpr wide
    rw [TextConsole.wrap, if_neg room]
    exact ⟨shows.newLine regular tall, wide⟩
  next =>
    split
    next =>
      have moved := shows.move regular wide tall UInt64.toNat_zero
      rwa [stay sheet wide] at moved
    next =>
      split
      next =>
        have mask : (~~~3 : UInt64).toNat = (2 ^ (64 - 2) - 1) * 2 ^ 2 := by decide
        refine shows.move regular wide tall ?_
        rw [Words.toNat_and_mask _ (by decide) mask, next 4 (by decide)]
        rfl
      next =>
        split
        next =>
          have positive : 0 < con.col ↔ 0 < sheet.col := by
            rw [UInt64.lt_iff_toNat_lt, shows.col]
            rfl
          rw [if_congr positive rfl rfl, apply_ite TextConsole.wrap, apply_ite TextConsole.scroll]
          split
          next later =>
            have before : (con.col - 1).toNat = sheet.col - 1 := by
              rw [UInt64.toNat_sub_of_le _ _ (by rw [UInt64.le_iff_toNat_le, shows.col]; exact later),
                shows.col]
              rfl
            have erased := shows.drawAt regular tall ' ' (by rw [before]; omega)
            have moved := erased.move regular wide tall before
            rwa [before, stay _ (by omega)] at moved
          next =>
            have moved := shows.move regular wide tall shows.col
            rwa [stay _ inside] at moved
        next =>
          have drawn := shows.drawAt regular tall ch (by rw [shows.col]; exact inside)
          rw [shows.col] at drawn
          exact drawn.move regular wide tall (next 1 (by decide))

include regular wide tall in
theorem write (shows : con.Shows font info sheet) (inside : sheet.col < info.width.toNat / 8)
    (text : List Char) :
    (text.foldl (fun con ch => (con.place font ch).wrap.scroll) con).Shows font info
        (text.foldl (Sheet.type (info.width.toNat / 8) (info.height.toNat / 8)) sheet) ∧
      (text.foldl (Sheet.type (info.width.toNat / 8) (info.height.toNat / 8)) sheet).col <
        info.width.toNat / 8 := by
  induction text generalizing con sheet with
  | nil => exact ⟨shows, inside⟩
  | cons ch rest ih =>
    obtain ⟨first, inside⟩ := shows.type regular wide tall inside ch
    exact ih first inside

include regular wide tall in
theorem step (shows : con.Shows font info sheet) (inside : sheet.col < info.width.toNat / 8)
    (command : ConsoleCommand) :
    (con.step font command).Shows font info (sheet.step (info.width.toNat / 8) (info.height.toNat / 8)
    command) ∧
      (sheet.step (info.width.toNat / 8) (info.height.toNat / 8) command).col < info.width.toNat / 8 := by
  cases command with
  | write text =>
    have cols := shows.toNat_cols
    have rows := shows.toNat_rows
    unfold TextConsole.step TextConsole.consoleWriteStr
    dsimp only
    rw [if_neg]
    · exact shows.write regular wide tall inside text.toList
    · rintro (none | none)
      · rw [none, UInt64.toNat_zero] at cols
        omega
      · rw [none, UInt64.toNat_zero] at rows
        omega
  | colors fg bg => exact ⟨{ shows with fg := rfl, bg := rfl }, inside⟩

include regular wide tall in
theorem run (shows : con.Shows font info sheet) (inside : sheet.col < info.width.toNat / 8)
    (commands : List ConsoleCommand) :
    (commands.foldl (TextConsole.step font) con).Shows font info
      (commands.foldl (Sheet.step (info.width.toNat / 8) (info.height.toNat / 8)) sheet) := by
  induction commands generalizing con sheet with
  | nil => exact shows
  | cons command rest ih =>
    obtain ⟨first, inside⟩ := shows.step regular wide tall inside command
    exact ih first inside

end TextConsole.Shows

theorem TextConsole.shows_init {info : FrameBufferInfo} (regular : info.Regular)
    (tall : 0 < info.height.toNat / 8) (font : Font)
    (memory : UInt64 → UInt8) : (TextConsole.init info memory).Shows font info {} := by
  have draws := draws_clear regular .desktop
  have blank : ({ info, bytes := memory } : FrameBuffer).Depicts Layer.clear :=
    fun _ _ _ _ _ known => by cases known
  refine
    { screen := ⟨_, rfl, draws.keeps _ rfl, (draws.paints _ Layer.clear rfl blank).weaken
      fun p color _ shown => ?_⟩
      cols := rfl, rows := rfl, col := rfl, row := ?_, fg := rfl, bg := rfl }
  · unfold Sheet.picture at shown
    dsimp only at shown
    split at shown
    next visible =>
      have right : p.1 < info.width := by
        rw [UInt64.lt_iff_toNat_lt]
        omega
      have low : p.2 < info.height := by
        rw [UInt64.lt_iff_toNat_lt]
        omega
      rw [Layer.under, rectangle_whole right low]
      exact shown
    next => cases shown
  · change 0 + (0 + 1 - _) = 0
    omega

theorem console_shows_text (font : Font) {info : FrameBufferInfo} (regular : info.Regular)
    (wide : 8 ≤ info.width) (tall : 8 ≤ info.height)
    (memory : UInt64 → UInt8) (commands : List ConsoleCommand) :
    (commands.foldl (TextConsole.step font) (.init info memory)).Shows font info
      (commands.foldl (Sheet.step (info.width.toNat / 8) (info.height.toNat / 8)) {}) := by
  rw [UInt64.le_iff_toNat_le] at wide tall
  have width : 8 ≤ info.width.toNat := wide
  have height : 8 ≤ info.height.toNat := tall
  exact (TextConsole.shows_init regular (by omega) font memory).run regular (by omega) (by omega)
    (by change 0 < _; omega) commands

theorem console_shows_text_scrolled :
    let info : FrameBufferInfo :=
      { byteLen := 384, width := 8, height := 16, pixelFormat := .rgb, bytesPerPixel := 3, stride := 8 }
    let font : Font := fun _ => .replicate 8 0x18
    let sheet := [ConsoleCommand.write "ab"].foldl (Sheet.step 1 2) {}
    ([ConsoleCommand.write "ab"].foldl (TextConsole.step font) (.init info fun _ => 0)).Shows font info sheet ∧
      sheet.top 2 = 1 ∧ sheet.cells 1 0 = .glyph 'b' ⟨0x00FF66⟩ .desktop :=
  ⟨console_shows_text _ ⟨by decide, by decide, by decide⟩ (by decide) (by decide) _ _, rfl, rfl⟩

end PickleOS.Windows
