import PickleOS.Apps.Gui
import PickleOS.Shared.Checked
import PickleOS.Shared.Text

set_option autoImplicit false

namespace PickleOS.Apps

open Shared

structure TextBox where
  rect : Rect
  text : List Char
  /-- A position in bytes. -/
  cursorPos : Nat
  focused : Bool
  maxLength : Nat

namespace TextBox

def new (x y : Int32) (w : UInt32) : TextBox where
  rect := { x := x, y := y, w := w, h := 24 }
  text := []
  cursorPos := 0
  focused := false
  maxLength := 64

variable (b : TextBox)

def setText (text : List Char) : TextBox := { b with text := text, cursorPos := Text.size text }

def clear : TextBox := { b with text := [], cursorPos := 0 }

/-- `is_ascii_graphic`, or a blank. -/
def isShown (key : UInt8) : Bool := (0x21 ≤ key && key ≤ 0x7E) || key = 0x20

def backspace : Except Panic TextBox :=
  if 0 < b.cursorPos then do
    let text ← Checked.value .boundary (Text.remove b.text (b.cursorPos - 1))
    pure { b with text := text, cursorPos := b.cursorPos - 1 }
  else .ok b

def delete : Except Panic TextBox :=
  if b.cursorPos < Text.size b.text then do
    let text ← Checked.value .boundary (Text.remove b.text b.cursorPos)
    pure { b with text := text }
  else .ok b

def insert (ch : Char) : Except Panic TextBox :=
  if Text.size b.text < b.maxLength then do
    let text ← Checked.value .boundary (Text.insert b.text b.cursorPos ch)
    pure { b with text := text, cursorPos := b.cursorPos + 1 }
  else .ok b

/-- With `true` if the event is handled. -/
def handleKey (key : UInt8) : Except Panic (Bool × TextBox) :=
  if !b.focused then .ok (false, b)
  else if key = 0x08 then b.backspace.map fun b => (true, b)
  else if key = 0x7F then b.delete.map fun b => (true, b)
  else if key = 0x0A ∨ key = 0x0D then .ok (true, b)
  else if isShown key then (b.insert (Char.ofNat key.toNat)).map fun b => (true, b)
  else .ok (false, b)

def handleEvent : Event → Except Panic (Bool × TextBox)
  | .mouseDown x y =>
    let focused := b.rect.contains x y
    .ok (b.focused != focused, { b with focused := focused })
  | .key key => b.handleKey key
  | _ => .ok (false, b)

end TextBox

inductive TextBox.Call where
  | setText (text : List Char)
  | clear
  | handleEvent (event : Event)

def TextBox.call (b : TextBox) : TextBox.Call → Except Panic TextBox
  | .setText text => .ok (b.setText text)
  | .clear => .ok b.clear
  | .handleEvent event => (b.handleEvent event).map Prod.snd

end PickleOS.Apps
