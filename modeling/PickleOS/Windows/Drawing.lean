import PickleOS.Shared.Layers
import PickleOS.Windows.Framebuffer
import Mathlib.Data.List.FinRange

set_option autoImplicit false

namespace PickleOS.Windows

open Shared

/-- `lo..hi`. -/
def span (lo hi : UInt64) : List UInt64 := (List.range' lo.toNat (hi.toNat - lo.toNat)).map UInt64.ofNat

def saturatingAdd (a b : UInt64) : UInt64 := if a.toNat + b.toNat < 2 ^ 64 then a + b else -1

/-- `BASIC_LEGACY`: eight rows for each ASCII character, the leftmost pixel in the lowest bit. -/
abbrev Font := Fin 128 → Vector UInt8 8

def Font.glyph (font : Font) (ch : Char) : Vector UInt8 8 :=
  if ascii : ch.toNat < 128 then font ⟨ch.toNat, ascii⟩ else font ⟨('?').toNat, by decide⟩

def Font.lit (font : Font) (ch : Char) (row col : Fin 8) : Bool :=
  (font.glyph ch)[row] >>> UInt8.ofNat col &&& 1 ≠ 0

def glyphW : UInt64 := 8

def glyphH : UInt64 := 8

@[simp] theorem toNat_glyphW : glyphW.toNat = 8 := rfl

@[simp] theorem toNat_glyphH : glyphH.toNat = 8 := rfl

namespace FrameBuffer

variable (screen : FrameBuffer) (font : Font)

def fillRect (x y w h : UInt64) (color : Color) : FrameBuffer :=
  let xEnd := min (saturatingAdd x w) screen.info.width
  let yEnd := min (saturatingAdd y h) screen.info.height
  (span y yEnd).foldl (fun screen yy => (span x xEnd).foldl
    (fun screen xx => screen.putPixelRaw xx yy color) screen) screen

def clear (color : Color) : FrameBuffer := screen.fillRect 0 0 screen.info.width screen.info.height color

/-- `for (row, bits) in glyph.iter().enumerate() { for col in 0..GLYPH_W { .. } }`. -/
def eachBit (turn : FrameBuffer → Fin 8 → Fin 8 → FrameBuffer) : FrameBuffer :=
  (List.finRange 8).foldl (fun screen row => (List.finRange 8).foldl
    (fun screen col => turn screen row col) screen) screen

def drawGlyph (ch : Char) (px py : UInt64) (fg bg : Color) : FrameBuffer :=
  screen.eachBit fun screen row col =>
    screen.putPixelRaw (px + UInt64.ofNat col) (py + UInt64.ofNat row) (if font.lit ch row col then fg else bg)

end FrameBuffer

/-! ### What is seen -/

theorem mem_span {lo hi v : UInt64} : v ∈ span lo hi ↔ lo ≤ v ∧ v < hi := by
  rw [span, List.mem_map]
  constructor
  · rintro ⟨n, inside, rfl⟩
    rw [List.mem_range'_1] at inside
    have number : (UInt64.ofNat n).toNat = n :=
      UInt64.toNat_ofNat_of_lt' (show n < 2 ^ 64 by have := hi.toNat_lt; omega)
    rw [UInt64.le_iff_toNat_le, UInt64.lt_iff_toNat_lt, number]
    omega
  · rintro ⟨low, high⟩
    rw [UInt64.le_iff_toNat_le] at low
    rw [UInt64.lt_iff_toNat_lt] at high
    exact ⟨v.toNat, List.mem_range'_1.mpr (by omega), UInt64.ofNat_toNat⟩

theorem lt_least {v a b : UInt64} : v < min a b ↔ v < a ∧ v < b := by
  rw [show min a b = if a ≤ b then a else b from rfl]
  simp only [UInt64.lt_iff_toNat_lt, UInt64.le_iff_toNat_le]
  split <;> omega

namespace PixelFormat

/-- The bytes that a color has in memory. -/
def encode : PixelFormat → Color → List UInt8
  | rgb, color => [color.r, color.g, color.b]
  | bgr, color => [color.b, color.g, color.r]
  | u8, color => [color.lum]
  | unknown, color => [color.b]

def size : PixelFormat → Nat
  | rgb | bgr => 3
  | u8 | unknown => 1

@[simp] theorem length_encode (format : PixelFormat) (color : Color) :
  (format.encode color).length = format.size := by
  cases format <;> rfl

end PixelFormat

theorem digits_unique {base a b i j : Nat} (low : i < base) (low' : j < base)
    (same : a * base + i = b * base + j) : a = b ∧ i = j := by
  have high (q r : Nat) (low : r < base) : (q * base + r) / base = q := by
    rw [Nat.mul_comm, Nat.mul_add_div (by omega), Nat.div_eq_of_lt low, Nat.add_zero]
  have digits : a = b := by
    rw [← high a i low, same, high b j low']
  rw [digits] at same
  exact ⟨digits, Nat.add_left_cancel same⟩

structure FrameBufferInfo.Regular (info : FrameBufferInfo) : Prop where
  wide : info.width.toNat ≤ info.stride.toNat
  bytes : info.pixelFormat.size ≤ info.bytesPerPixel.toNat
  room : info.height.toNat * info.stride.toNat * info.bytesPerPixel.toNat ≤ info.byteLen.toNat

/-- The colors of pixels by column and row, where they are known. -/
abbrev Picture := Layer (UInt64 × UInt64) Color

/-- The pixels on the screen have these colors. -/
def FrameBuffer.Depicts (screen : FrameBuffer) (picture : Picture) : Prop :=
  ∀ x y px color, screen.info.offset x y = some px → picture (x, y) = some color →
    ∀ i b, (screen.info.pixelFormat.encode color)[i]? = some b → screen.bytes (px + UInt64.ofNat i) = b

def FrameBufferInfo.OnScreen (info : FrameBufferInfo) (p : UInt64 × UInt64) : Prop :=
  p.1 < info.width ∧ p.2 < info.height

section Regular

variable {info : FrameBufferInfo} {x y x' y' px px' : UInt64}

namespace FrameBufferInfo

theorem offset_some (found : info.offset x y = some px) : x < info.width ∧ y < info.height := by
  unfold offset at found
  split at found
  next => cases found
  next onScreen =>
    simp only [not_or, UInt64.not_le] at onScreen
    exact onScreen

variable (regular : info.Regular)

include regular

theorem pixels_below (right : x < info.width) (low : y < info.height) :
    (y.toNat * info.stride.toNat + x.toNat) * info.bytesPerPixel.toNat + info.bytesPerPixel.toNat ≤
      info.height.toNat * info.stride.toNat * info.bytesPerPixel.toNat := by
  have wide := regular.wide
  rw [UInt64.lt_iff_toNat_lt] at right low
  have rows : (y.toNat + 1) * info.stride.toNat ≤ info.height.toNat * info.stride.toNat :=
    Nat.mul_le_mul_right _ low
  rw [Nat.succ_mul] at rows
  have pixels : (y.toNat * info.stride.toNat + x.toNat + 1) * info.bytesPerPixel.toNat ≤
      info.height.toNat * info.stride.toNat * info.bytesPerPixel.toNat := Nat.mul_le_mul_right _ (by omega)
  rwa [Nat.succ_mul] at pixels

theorem room_below (right : x < info.width) (low : y < info.height) :
    (y.toNat * info.stride.toNat + x.toNat) * info.bytesPerPixel.toNat + info.bytesPerPixel.toNat ≤
      info.byteLen.toNat :=
  (pixels_below regular right low).trans regular.room

theorem offset_eq (right : x < info.width) (low : y < info.height) :
    ∃ px, info.offset x y = some px ∧ px.toNat = (y.toNat * info.stride.toNat + x.toNat) *
      info.bytesPerPixel.toNat := by
  have below := room_below regular right low
  have limit := info.byteLen.toNat_lt
  have positive : 1 ≤ info.bytesPerPixel.toNat := by
    refine Nat.le_trans ?_ regular.bytes
    cases info.pixelFormat <;> decide
  have pixels : y.toNat * info.stride.toNat + x.toNat ≤ (y.toNat * info.stride.toNat + x.toNat) *
    info.bytesPerPixel.toNat :=
    Nat.le_mul_of_pos_right _ positive
  have product : (y * info.stride).toNat = y.toNat * info.stride.toNat := by
    rw [UInt64.toNat_mul, Nat.mod_eq_of_lt (by omega)]
  have sum : (y * info.stride + x).toNat = y.toNat * info.stride.toNat + x.toNat := by
    rw [UInt64.toNat_add, product, Nat.mod_eq_of_lt (by omega)]
  have offset : ((y * info.stride + x) * info.bytesPerPixel).toNat =
      (y.toNat * info.stride.toNat + x.toNat) * info.bytesPerPixel.toNat := by
    rw [UInt64.toNat_mul, sum, Nat.mod_eq_of_lt (by omega)]
  refine ⟨(y * info.stride + x) * info.bytesPerPixel, ?_, offset⟩
  unfold FrameBufferInfo.offset
  rw [if_neg (by simp only [not_or, UInt64.not_le]; exact ⟨right, low⟩)]
  dsimp only
  rw [if_neg]
  rw [UInt64.not_lt, UInt64.le_iff_toNat_le, UInt64.toNat_add, offset, Nat.mod_eq_of_lt (by omega)]
  exact below

theorem apart (found : info.offset x y = some px) (found' : info.offset x' y' = some px') {i j : Nat}
    (inside : i < info.pixelFormat.size) (inside' : j < info.pixelFormat.size)
    (same : px + UInt64.ofNat i = px' + UInt64.ofNat j) : (x, y) = (x', y') ∧ i = j := by
  obtain ⟨right, low⟩ := offset_some found
  obtain ⟨right', low'⟩ := offset_some found'
  obtain ⟨_, place, number⟩ := offset_eq regular right low
  obtain ⟨_, place', number'⟩ := offset_eq regular right' low'
  cases found.symm.trans place
  cases found'.symm.trans place'
  have room := room_below regular right low
  have room' := room_below regular right' low'
  have limit := info.byteLen.toNat_lt
  have bytes := regular.bytes
  have wide := regular.wide
  rw [UInt64.lt_iff_toNat_lt] at right right'
  have address := congrArg UInt64.toNat same
  have small : (UInt64.ofNat i).toNat = i := UInt64.toNat_ofNat_of_lt' (show i < 2 ^ 64 by omega)
  have small' : (UInt64.ofNat j).toNat = j := UInt64.toNat_ofNat_of_lt' (show j < 2 ^ 64 by omega)
  rw [UInt64.toNat_add, UInt64.toNat_add, small, small', number, number', Nat.mod_eq_of_lt (by omega),
    Nat.mod_eq_of_lt (by omega)]
    at address
  obtain ⟨pixel, byte⟩ := digits_unique (by omega) (by omega) address
  obtain ⟨row, col⟩ := digits_unique (by omega) (by omega) pixel
  exact ⟨Prod.ext (UInt64.toNat_inj.mp col) (UInt64.toNat_inj.mp row), byte⟩

end FrameBufferInfo

namespace FrameBuffer

variable {screen : FrameBuffer} {picture seen : Picture}

theorem Depicts.weaken (depicts : screen.Depicts picture)
    (known : ∀ p color, screen.info.OnScreen p → seen p = some color → picture p = some color) :
      screen.Depicts seen :=
  fun x y px color found shown => depicts x y px color found
    (known _ _ (FrameBufferInfo.offset_some found) shown)

theorem mem_covers {info : FrameBufferInfo} {a : UInt64} (inside : a ∈ covers info x y) :
    ∃ px i, info.offset x y = some px ∧ i < info.pixelFormat.size ∧ a = px + UInt64.ofNat i := by
  obtain ⟨px, found, inside⟩ := inside
  cases format : info.pixelFormat with
  | rgb | bgr =>
    rw [format, if_neg (by decide)] at inside
    rcases inside with rfl | rfl | rfl
    · exact ⟨a, 0, found, by decide, (UInt64.add_zero a).symm⟩
    · exact ⟨px, 1, found, by decide, rfl⟩
    · exact ⟨px, 2, found, by decide, rfl⟩
  | u8 | unknown =>
    rw [format, if_pos (by decide)] at inside
    exact ⟨px, 0, found, by decide, inside.trans (UInt64.add_zero px).symm⟩

theorem storeThree_get (bytes : UInt64 → UInt8) (px : UInt64) (u v w : UInt8)
    {i : Nat} {b : UInt8} (at' : [u, v, w][i]? = some b) :
    storeThree bytes px u v w (px + UInt64.ofNat i) = b := by
  have first : px ≠ px + 1 := by simp
  have second : px ≠ px + 2 := by simp
  have third : px + 1 ≠ px + 2 := by simp
  unfold storeThree
  match i, at' with
  | 0, at' =>
    cases at'
    rw [show UInt64.ofNat 0 = 0 from rfl, UInt64.add_zero, Function.update_of_ne second,
      Function.update_of_ne first, Function.update_self]
  | 1, at' =>
    cases at'
    rw [show UInt64.ofNat 1 = 1 from rfl, Function.update_of_ne third, Function.update_self]
  | 2, at' =>
    cases at'
    rw [show UInt64.ofNat 2 = 2 from rfl, Function.update_self]

theorem putPixelRaw_byte {color : Color} {i : Nat} {b : UInt8} (found : screen.info.offset x y = some px)
    (at' : (screen.info.pixelFormat.encode color)[i]? = some b) :
      (screen.putPixelRaw x y color).bytes (px + UInt64.ofNat i) = b := by
  unfold FrameBuffer.putPixelRaw
  rw [found]
  cases format : screen.info.pixelFormat with
  | rgb | bgr =>
    rw [format] at at'
    exact storeThree_get _ _ _ _ _ at'
  | u8 | unknown =>
    rw [format] at at'
    match i, at' with
    | 0, at' =>
      cases at'
      dsimp only
      rw [show UInt64.ofNat 0 = 0 from rfl, UInt64.add_zero, Function.update_self]

theorem Depicts.putPixelRaw (regular : screen.info.Regular) (depicts : screen.Depicts picture)
    (x y : UInt64) (color : Color) :
    (screen.putPixelRaw x y color).Depicts (picture.under (Layer.dot (x, y) color)) := by
  intro x' y' px shown found known i b at'
  rw [info_putPixelRaw] at found at'
  by_cases same : (x', y') = (x, y)
  · cases same
    have own : picture.under (Layer.dot (x, y) color) (x, y) = some color := by simp [Layer.under, Layer.dot]
    cases own.symm.trans known
    exact putPixelRaw_byte found at'
  · have old : picture.under (Layer.dot (x, y) color) (x', y') = picture (x', y') := by
      simp [Layer.under, Layer.dot, same]
    rw [putPixelRaw_other]
    · exact depicts x' y' px shown found (old.symm.trans known) i b at'
    · intro inside
      obtain ⟨px', j, found', low, address⟩ := mem_covers inside
      have short : i < screen.info.pixelFormat.size := by
        rw [← PixelFormat.length_encode _ shown]
        exact (List.getElem?_eq_some_iff.mp at').choose
      exact same (FrameBufferInfo.apart regular found found' short low address).1

end FrameBuffer

end Regular

/-! ### Drawings as layers -/

structure Draws (info : FrameBufferInfo) (drawing : FrameBuffer → FrameBuffer) (layer : Picture) : Prop where
  keeps : ∀ screen, screen.info = info → (drawing screen).info = info
  paints : ∀ screen picture, screen.info = info → screen.Depicts picture →
    (drawing screen).Depicts (picture.under layer)

namespace Draws

variable {info : FrameBufferInfo} {first second : FrameBuffer → FrameBuffer} {back front layer : Picture}

theorem skip : Draws info (fun screen => screen) Layer.clear :=
  ⟨fun _ same => same, fun _ _ _ depicts => depicts⟩

theorem after (draws : Draws info first back) (draws' : Draws info second front) :
    Draws info (fun screen => second (first screen)) (back.under front) where
  keeps screen same := draws'.keeps _ (draws.keeps screen same)
  paints screen picture same depicts := by
    rw [← Layer.under_assoc]
    exact draws'.paints _ _ (draws.keeps screen same) (draws.paints screen picture same depicts)

theorem foldl {ι : Type} {items : List ι} {turn : FrameBuffer → ι → FrameBuffer} {layers : ι → Picture}
    (each : ∀ item ∈ items, Draws info (fun screen => turn screen item) (layers item)) :
    Draws info (fun screen => items.foldl turn screen) (Layer.stack (items.map layers)) := by
  induction items with
  | nil => exact skip
  | cons item rest ih =>
    rw [List.map_cons, Layer.stack_cons]
    exact (each item List.mem_cons_self).after (ih fun item member => each item (List.mem_cons_of_mem _ member))

theorem congr (draws : Draws info first back) (same : ∀ p, back p = layer p) : Draws info first layer := by
  rwa [← show back = layer from funext same]

end Draws

section Shapes

variable {info : FrameBufferInfo} (regular : info.Regular)

def rectangle (info : FrameBufferInfo) (x y w h : UInt64) (color : Color) : Picture := fun p =>
  if (x ≤ p.1 ∧ p.1 < min (saturatingAdd x w) info.width) ∧ y ≤ p.2 ∧
    p.2 < min (saturatingAdd y h) info.height then some color
  else none

include regular

theorem draws_putPixelRaw (x y : UInt64) (color : Color) :
    Draws info (fun screen => screen.putPixelRaw x y color) (Layer.dot (x, y) color) where
  keeps screen same := by rw [FrameBuffer.info_putPixelRaw, same]
  paints screen picture same depicts := depicts.putPixelRaw (same ▸ regular) x y color

theorem draws_row (cols : List UInt64) (y : UInt64) (color : Color) :
    Draws info (fun screen => cols.foldl (fun screen x => screen.putPixelRaw x y color) screen)
      (fun p => if p.1 ∈ cols ∧ p.2 = y then some color else none) := by
  refine (Draws.foldl fun x _ => draws_putPixelRaw regular x y color).congr fun p => ?_
  split
  next inside =>
    refine Layer.stack_eq_some (List.forall_mem_map.mpr fun x _ d covered => ?_)
      ⟨_, List.mem_map_of_mem inside.1, ?_⟩
    · unfold Layer.dot at covered
      split at covered <;> cases covered
      rfl
    · have here : p = (p.1, y) := Prod.ext rfl inside.2
      rw [Layer.dot, if_pos here]
      rfl
  next outside =>
    rw [Layer.stack_eq_none, List.forall_mem_map]
    intro x member
    refine if_neg ?_
    rintro rfl
    exact outside ⟨member, rfl⟩

theorem draws_block (cols rows : List UInt64) (color : Color) :
    Draws info (fun screen => rows.foldl (fun screen y =>
      cols.foldl (fun screen x => screen.putPixelRaw x y color) screen) screen)
      (fun p => if p.1 ∈ cols ∧ p.2 ∈ rows then some color else none) := by
  refine (Draws.foldl fun y _ => draws_row regular cols y color).congr fun p => ?_
  split
  next inside =>
    refine Layer.stack_eq_some (List.forall_mem_map.mpr fun y _ d covered => ?_)
      ⟨_, List.mem_map_of_mem inside.2, ?_⟩
    · split at covered <;> cases covered
      rfl
    · rw [if_pos ⟨inside.1, rfl⟩]
      rfl
  next outside =>
    rw [Layer.stack_eq_none, List.forall_mem_map]
    intro y member
    refine if_neg ?_
    rintro ⟨inside, rfl⟩
    exact outside ⟨inside, member⟩

theorem draws_fillRect (x y w h : UInt64) (color : Color) :
    Draws info (fun screen => screen.fillRect x y w h color) (rectangle info x y w h color) where
  keeps screen same := by
    subst same
    exact (draws_block regular _ _ color).keeps screen rfl
  paints screen picture same depicts := by
    subst same
    have painted := (draws_block regular (span x (min (saturatingAdd x w) screen.info.width))
      (span y (min (saturatingAdd y h) screen.info.height)) color).paints screen picture rfl depicts
    simp only [mem_span] at painted
    exact painted

theorem draws_clear (color : Color) :
    Draws info (fun screen => screen.clear color) (rectangle info 0 0 info.width info.height color) where
  keeps screen same := by
    subst same
    exact (draws_fillRect regular 0 0 screen.info.width screen.info.height color).keeps screen rfl
  paints screen picture same depicts := by
    subst same
    exact (draws_fillRect regular 0 0 screen.info.width screen.info.height color).paints
      screen picture rfl depicts

omit regular in
theorem rectangle_whole {p : UInt64 × UInt64} (right : p.1 < info.width) (low : p.2 < info.height)
    (color : Color) :
    rectangle info 0 0 info.width info.height color p = some color := by
  have from' (n : UInt64) : 0 ≤ n := by
    rw [UInt64.le_iff_toNat_le, UInt64.toNat_zero]
    exact Nat.zero_le _
  have whole (n : UInt64) : saturatingAdd 0 n = n := by
    unfold saturatingAdd
    rw [if_pos (by simpa using n.toNat_lt), UInt64.zero_add]
  rw [rectangle, whole, whole, if_pos]
  rw [lt_least, lt_least]
  exact ⟨⟨from' _, right, right⟩, from' _, low, low⟩

end Shapes

section Glyphs

variable {info : FrameBufferInfo} (regular : info.Regular)

/-- The row and the column that a place has in the glyph at `(px, py)`. -/
def bitAt (px py : UInt64) (p : UInt64 × UInt64) : Option (Fin 8 × Fin 8) :=
  if inside : (p.2 - py).toNat < 8 ∧ (p.1 - px).toNat < 8 then
    some (⟨(p.2 - py).toNat, inside.1⟩, ⟨(p.1 - px).toNat, inside.2⟩)
  else none

theorem bitAt_some {px py : UInt64} {p : UInt64 × UInt64} {row col : Fin 8} :
    bitAt px py p = some (row, col) ↔ p = (px + UInt64.ofNat col, py + UInt64.ofNat row) := by
  have number (k : Fin 8) : (UInt64.ofNat k).toNat = k.val :=
    UInt64.toNat_ofNat_of_lt' (show k.val < 2 ^ 64 by omega)
  have moved (q o : UInt64) (k : Fin 8) : (q - o).toNat = k.val ↔ q = o + UInt64.ofNat k := by
    rw [← number, UInt64.toNat_inj]
    constructor <;> grind
  rw [bitAt, Prod.ext_iff, ← moved, ← moved]
  split
  next inside =>
    rw [Option.some.injEq, Prod.mk.injEq, Fin.ext_iff, Fin.ext_iff]
    exact and_comm
  next outside =>
    refine iff_of_false (by simp) fun both => outside ?_
    have below := row.isLt
    have below' := col.isLt
    omega

def bitLayer (px py : UInt64) (color : Fin 8 → Fin 8 → Option Color) : Picture := fun p =>
  (bitAt px py p).bind fun bit => color bit.1 bit.2

include regular

theorem draws_eachBit (px py : UInt64) (color : Fin 8 → Fin 8 → Option Color)
    {turn : FrameBuffer → Fin 8 → Fin 8 → FrameBuffer}
    (puts : ∀ screen row col, turn screen row col =
      ((color row col).map fun c => screen.putPixelRaw (px + UInt64.ofNat col) (py + UInt64.ofNat row)
      c).getD screen) :
    Draws info (fun screen => screen.eachBit turn) (bitLayer px py color) := by
  have bit (row col : Fin 8) : Draws info (fun screen => turn screen row col)
      ((color row col).elim Layer.clear (Layer.dot (px + UInt64.ofNat col, py + UInt64.ofNat row))) := by
    rw [funext fun screen => puts screen row col]
    cases color row col with
    | none => exact .skip
    | some c => exact draws_putPixelRaw regular _ _ c
  refine (Draws.foldl fun row _ => Draws.foldl fun col _ => bit row col).congr fun p => ?_
  have elsewhere {row col : Fin 8} (other : bitAt px py p ≠ some (row, col)) :
      (color row col).elim Layer.clear (Layer.dot (px + UInt64.ofNat col, py + UInt64.ofNat row)) p = none := by
    cases color row col with
    | none => rfl
    | some c => exact if_neg fun here => other (bitAt_some.mpr here)
  rw [bitLayer]
  cases found : bitAt px py p with
  | none =>
    have bare {row col : Fin 8} : bitAt px py p ≠ some (row, col) := by
      rw [found]
      simp
    rw [Option.bind_none, Layer.stack_eq_none, List.forall_mem_map]
    intro row _
    rw [Layer.stack_eq_none, List.forall_mem_map]
    exact fun col _ => elsewhere bare
  | some place =>
    obtain ⟨row, col⟩ := place
    rw [Layer.stack_single (List.mem_finRange row), Layer.stack_single (List.mem_finRange col)]
    · cases own : color row col with
      | none => rw [Option.bind_some, own]; rfl
      | some c =>
        rw [Option.bind_some, own]
        exact if_pos (bitAt_some.mp found)
    · refine fun other _ different => elsewhere ?_
      rw [found]
      rintro ⟨⟩
      exact different rfl
    · intro other _ different
      rw [Layer.stack_eq_none, List.forall_mem_map]
      refine fun col' _ => elsewhere ?_
      rw [found]
      rintro ⟨⟩
      exact different rfl

theorem draws_drawGlyph (font : Font) (ch : Char) (px py : UInt64) (fg bg : Color) :
    Draws info (fun screen => screen.drawGlyph font ch px py fg bg)
      (bitLayer px py fun row col => some (if font.lit ch row col then fg else bg)) :=
  draws_eachBit regular px py _ fun _ _ _ => rfl

end Glyphs

end PickleOS.Windows
