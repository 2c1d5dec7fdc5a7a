import Mathlib.Logic.Basic

set_option autoImplicit false

namespace PickleOS.Apps

inductive Event where
  | mouseMove (x y : Int32)
  | mouseDown (x y : Int32)
  | mouseUp (x y : Int32)
  | key (k : UInt8)
  | focus
  | blur
  | close

inductive Panic where
  | bounds
  /-- A position in a string that is not between two characters. -/
  | boundary
  deriving DecidableEq

structure Rect where
  x : Int32
  y : Int32
  w : UInt32
  h : UInt32

/-- The sums wrap, as they do without overflow checks. -/
def Rect.contains (r : Rect) (px py : Int32) : Bool :=
  r.x ≤ px && px < r.x + r.w.toInt32 && r.y ≤ py && py < r.y + r.h.toInt32

end PickleOS.Apps
