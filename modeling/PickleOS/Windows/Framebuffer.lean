import Mathlib.Algebra.Group.Nat.Defs
import Mathlib.Logic.Function.Basic
import PickleOS.Shared.SaveUnder

set_option autoImplicit false

namespace PickleOS.Windows

open Shared

/-- `0x00RRGGBB`. -/
structure Color where
  value : UInt32
  deriving DecidableEq

namespace Color

def black : Color := ⟨0x000000⟩

def white : Color := ⟨0xFFFFFF⟩

def rgb (r g b : UInt8) : Color := ⟨(r.toUInt32 <<< 16) ||| (g.toUInt32 <<< 8) ||| b.toUInt32⟩

def r (c : Color) : UInt8 := (c.value >>> 16).toUInt8

def g (c : Color) : UInt8 := (c.value >>> 8).toUInt8

def b (c : Color) : UInt8 := c.value.toUInt8

/-- What a gray pixel has of a color. -/
def lum (c : Color) : UInt8 := ((c.r.toUInt32 * 54 + c.g.toUInt32 * 183 + c.b.toUInt32 * 19) >>> 8).toUInt8

theorem value_rgb (x y z : UInt8) : (rgb x y z).value.toNat = 2 ^ 16 *
    x.toNat + (2 ^ 8 * y.toNat + z.toNat) := by
  have := x.toNat_lt
  have := y.toNat_lt
  have := z.toNat_lt
  have high : (x.toUInt32 <<< 16).toNat = 2 ^ 16 * x.toNat := by
    rw [UInt32.toNat_shiftLeft, UInt8.toNat_toUInt32, Nat.shiftLeft_eq]
    simp
    omega
  have middle : (y.toUInt32 <<< 8).toNat = 2 ^ 8 * y.toNat := by
    rw [UInt32.toNat_shiftLeft, UInt8.toNat_toUInt32, Nat.shiftLeft_eq]
    simp
    omega
  rw [rgb, UInt32.toNat_or, UInt32.toNat_or, high, middle, UInt8.toNat_toUInt32, Nat.or_assoc,
    ← Nat.two_pow_add_eq_or_of_lt (i := 8) (by omega), ← Nat.two_pow_add_eq_or_of_lt (i := 16) (by omega)]

section Channels

variable (x y z : UInt8)

@[simp] theorem r_rgb : (rgb x y z).r = x := by
  have := x.toNat_lt
  have := y.toNat_lt
  have := z.toNat_lt
  apply UInt8.toNat_inj.mp
  rw [r, UInt32.toNat_toUInt8, UInt32.toNat_shiftRight, value_rgb, Nat.shiftRight_eq_div_pow]
  simp
  omega

@[simp] theorem g_rgb : (rgb x y z).g = y := by
  have := y.toNat_lt
  have := z.toNat_lt
  apply UInt8.toNat_inj.mp
  rw [g, UInt32.toNat_toUInt8, UInt32.toNat_shiftRight, value_rgb, Nat.shiftRight_eq_div_pow]
  simp
  omega

@[simp] theorem b_rgb : (rgb x y z).b = z := by
  have := z.toNat_lt
  apply UInt8.toNat_inj.mp
  rw [b, UInt32.toNat_toUInt8, value_rgb]
  omega

@[simp] theorem lum_rgb : (rgb x x x).lum = x := by
  have := x.toNat_lt
  apply UInt8.toNat_inj.mp
  simp [lum, Nat.shiftRight_eq_div_pow]
  omega

end Channels

end Color

inductive PixelFormat where
  | rgb
  | bgr
  | u8
  | unknown
  deriving DecidableEq

structure FrameBufferInfo where
  byteLen : UInt64
  width : UInt64
  height : UInt64
  pixelFormat : PixelFormat
  bytesPerPixel : UInt64
  stride : UInt64

/-- Where a pixel starts, if it is on the screen and in the buffer. Products and sums wrap, as in the
release build. -/
def FrameBufferInfo.offset (info : FrameBufferInfo) (x y : UInt64) : Option UInt64 :=
  if info.width ≤ x ∨ info.height ≤ y then none
  else
    let offset := (y * info.stride + x) * info.bytesPerPixel
    if info.byteLen < offset + info.bytesPerPixel then none else some offset

/-- The geometry, and the memory by its distance from `ptr`. -/
structure FrameBuffer where
  info : FrameBufferInfo
  bytes : UInt64 → UInt8

/-- `*px.add(0) = u`, `*px.add(1) = v` and `*px.add(2) = w`. -/
def storeThree (bytes : UInt64 → UInt8) (px : UInt64) (u v w : UInt8) : UInt64 → UInt8 :=
  Function.update (Function.update (Function.update bytes px u) (px + 1) v) (px + 2) w

section Stores

variable {bytes old : UInt64 → UInt8} {px a : UInt64}

theorem storeThree_other (outside : ¬(a = px ∨ a = px + 1 ∨ a = px + 2)) (u v w : UInt8) :
    storeThree bytes px u v w a = bytes a := by
  simp only [not_or] at outside
  rw [storeThree, Function.update_of_ne outside.2.2, Function.update_of_ne outside.2.1,
    Function.update_of_ne outside.1]

theorem storeThree_old (inside : a = px ∨ a = px + 1 ∨ a = px + 2) :
    storeThree bytes px (old px) (old (px + 1)) (old (px + 2)) a = old a := by
  rw [storeThree, Function.update_apply, Function.update_apply, Function.update_apply]
  split
  next third => rw [third]
  next notThird =>
    split
    next second => rw [second]
    next notSecond =>
      have first := inside.resolve_right (not_or.mpr ⟨notSecond, notThird⟩)
      rw [if_pos first, first]

end Stores

namespace FrameBuffer

variable (fb : FrameBuffer) (x y : UInt64)

def putPixelRaw (color : Color) : FrameBuffer :=
  match fb.info.offset x y with
  | none => fb
  | some px =>
    let stored :=
      match fb.info.pixelFormat with
      | .rgb => storeThree fb.bytes px color.r color.g color.b
      | .bgr => storeThree fb.bytes px color.b color.g color.r
      | .u8 => Function.update fb.bytes px color.lum
      | .unknown => Function.update fb.bytes px color.b
    { fb with bytes := stored }

def readPixel : Color :=
  match fb.info.offset x y with
  | none => .black
  | some px =>
    let a := fb.bytes px
    let b := fb.bytes (px + 1)
    let c := fb.bytes (px + 2)
    match fb.info.pixelFormat with
    | .rgb => .rgb a b c
    | .bgr => .rgb c b a
    | .u8 => .rgb a a a
    | .unknown => .rgb a b c

end FrameBuffer

/-- The static `FB`, which is empty before `init`. -/
abbrev Fb := Option FrameBuffer

def Fb.putPixel (fb : Fb) (x y : UInt64) (color : Color) : Fb := fb.map fun fb => fb.putPixelRaw x y color

def Fb.readPixel (fb : Fb) (x y : UInt64) : Color :=
  match fb with
  | none => .black
  | some fb => fb.readPixel x y

namespace FrameBuffer

variable {fb : FrameBuffer} {x y : UInt64}

@[simp] theorem info_putPixelRaw (color : Color) : (fb.putPixelRaw x y color).info = fb.info := by
  unfold putPixelRaw
  cases fb.info.offset x y <;> rfl

/-- The bytes of a pixel that its format stores a color in. -/
def covers (info : FrameBufferInfo) (x y : UInt64) : Set UInt64 :=
  { a | ∃ px, info.offset x y = some px ∧
    if info.pixelFormat = .u8 ∨ info.pixelFormat = .unknown then a = px else a = px ∨ a = px + 1 ∨ a = px + 2 }

theorem putPixelRaw_other (fb : FrameBuffer) (x y : UInt64) (color : Color)
    {a : UInt64} (outside : a ∉ covers fb.info x y) :
    (fb.putPixelRaw x y color).bytes a = fb.bytes a := by
  unfold putPixelRaw
  cases found : fb.info.offset x y with
  | none => rfl
  | some px =>
    have apart := fun inside => outside ⟨px, found, inside⟩
    cases format : fb.info.pixelFormat with
    | rgb | bgr =>
      rw [format, if_neg (by decide)] at apart
      exact storeThree_other apart _ _ _
    | u8 | unknown =>
      rw [format, if_pos (by decide)] at apart
      exact Function.update_of_ne apart _ _

/-- A color that was read brings its bytes back. -/
theorem putPixelRaw_readPixel {fb old : FrameBuffer} (same : old.info = fb.info)
    (known : fb.info.pixelFormat ≠ .unknown) {a : UInt64}
    (inside : a ∈ covers fb.info x y) : (fb.putPixelRaw x y (old.readPixel x y)).bytes a = old.bytes a := by
  obtain ⟨px, found, inside⟩ := inside
  unfold putPixelRaw readPixel
  rw [same, found]
  cases format : fb.info.pixelFormat with
  | rgb | bgr =>
    rw [format, if_neg (by decide)] at inside
    simp only [Color.r_rgb, Color.g_rgb, Color.b_rgb]
    exact storeThree_old inside
  | u8 =>
    rw [format, if_pos (by decide)] at inside
    simp only [Color.lum_rgb]
    rw [inside, Function.update_self]
  | unknown => exact absurd format known

end FrameBuffer

end PickleOS.Windows
