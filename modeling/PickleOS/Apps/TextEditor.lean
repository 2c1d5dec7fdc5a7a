import PickleOS.Apps.Gui
import PickleOS.Shared.Checked
import PickleOS.Shared.Decoding
import PickleOS.Shared.Text

set_option autoImplicit false

namespace PickleOS.Apps.TextEditor

open Shared

def winH : Int32 := 240
def margin : Int32 := 8
def lineH : Int32 := 10
def topBar : Int32 := 24
def bottomBar : Int32 := 22
def glyphW : Int32 := 8

/-- `EDIT_PATH`. -/
def editPath : String := "/tmp/scratch.txt"

/-- What the file system does with a file that is opened to be written anew. -/
structure Disk where
  opens : Bool
  /-- What `sys_write` gives when so many bytes are written, `none` for `u64::MAX`. It takes no more than
  it is offered. -/
  accepts : Nat → Option Nat

/-- The number of bytes in the file when the loop around `sys_write` ends. Each turn but the last writes a
byte. -/
def Disk.writeLoop (disk : Disk) (length : Nat) : Nat → Nat → Nat
  | 0, written => written
  | turns + 1, written =>
    if written < length then
      match disk.accepts written with
      | none => written
      | some 0 => written
      | some (n + 1) => disk.writeLoop length turns (written + min (n + 1) (length - written))
    else written

def Disk.written (disk : Disk) (length : Nat) : Nat := disk.writeLoop length length 0

structure Editor where
  lines : List (List Char)
  cursorRow : Nat
  cursorCol : Nat
  scrollRow : Nat
  status : String
  dirty : Bool

namespace Editor

variable (ed : Editor)

/-- What `sys_read` gives of a file is all that it has. -/
def load (file : Option (List UInt8)) : Editor :=
  match file with
  | none => { ed with status := "New file: " ++ editPath }
  | some data =>
    let lines := (Utf8.lossy data).splitOn '\n'
    { ed with
      lines := if lines = [] then [[]] else lines
      status := "Loaded " ++ toString data.length ++ " bytes" }

/-- `content`. -/
def content : List UInt8 := Utf8.encode (['\n'].intercalate ed.lines ++ ['\n'])

/-- The editor and the file after `save`. -/
def save (disk : Disk) (file : Option (List UInt8)) : Editor × Option (List UInt8) :=
  if disk.opens then
    let written := disk.written ed.content.length
    ({ ed with dirty := false, status := "Saved " ++ toString written ++ " bytes to " ++ editPath },
    some (ed.content.take written))
  else ({ ed with status := "Save failed: open error" }, file)

/-- `Editor::new`, when there is a window. -/
def new (file : Option (List UInt8)) : Editor :=
  let ed : Editor :=
    { lines := [], cursorRow := 0, cursorCol := 0, scrollRow := 0, status := "Ctrl-S=Save  ESC=Quit",
      dirty := false }
  let ed := ed.load file
  if ed.lines = [] then { ed with lines := [[]] } else ed

def visibleRows : Nat := ((winH - topBar - bottomBar) / lineH).toInt.toNat

def ensureCursorVisible : Editor :=
  if ed.cursorRow < ed.scrollRow then { ed with scrollRow := ed.cursorRow }
  else if ed.scrollRow + visibleRows ≤ ed.cursorRow then { ed with scrollRow := ed.cursorRow - visibleRows + 1 }
  else ed

/-- `char_indices`, from a position on. -/
def charIndices (start : Nat) : List Char → List (Nat × Char)
  | [] => []
  | c :: rest => (start, c) :: charIndices (start + c.utf8Size) rest

def charToByte (s : List Char) (charIdx : Nat) : Nat :=
  ((charIndices 0 s)[charIdx]?.map Prod.fst).getD (Text.size s)

def insertChar (ch : Char) : Except Panic Editor := do
  let line ← Checked.elemAt .bounds ed.lines ed.cursorRow
  let line ← Checked.value .boundary (Text.insert line (charToByte line ed.cursorCol) ch)
  pure { ed with lines := ed.lines.set ed.cursorRow line, cursorCol := ed.cursorCol + 1, dirty := true }

def newline : Except Panic Editor := do
  let line ← Checked.elemAt .bounds ed.lines ed.cursorRow
  let parts ← Checked.value .boundary (Text.splitAt line (charToByte line ed.cursorCol))
  let lines ← Checked.insertAt .bounds (ed.lines.set ed.cursorRow parts.1) (ed.cursorRow + 1) parts.2
  pure { ed with lines := lines, cursorRow := ed.cursorRow + 1, cursorCol := 0, dirty := true }

def backspace : Except Panic Editor :=
  if 0 < ed.cursorCol then do
    let line ← Checked.elemAt .bounds ed.lines ed.cursorRow
    let line ← Checked.value .boundary (Text.remove line (charToByte line (ed.cursorCol - 1)))
    pure { ed with lines := ed.lines.set ed.cursorRow line, cursorCol := ed.cursorCol - 1, dirty := true }
  else if 0 < ed.cursorRow then do
    let removed ← Checked.removeAt .bounds ed.lines ed.cursorRow
    let above ← Checked.elemAt .bounds removed.2 (ed.cursorRow - 1)
    let lines := removed.2.set (ed.cursorRow - 1) (above ++ removed.1)
    pure { ed with lines := lines, cursorRow := ed.cursorRow - 1, cursorCol := above.length, dirty := true }
  else .ok ed

/-- The keys that edit. -/
def pressed (key : UInt8) : Except Panic Editor :=
  if key = 0x0A ∨ key = 0x0D then ed.newline
  else if key = 0x08 ∨ key = 0x7F then ed.backspace
  else if 0x20 ≤ key ∧ key < 0x7F then ed.insertChar (Char.ofNat key.toNat)
  else .ok ed

def lineLen (row : Nat) : Except Panic Nat := do
  let line ← Checked.elemAt .bounds ed.lines row
  pure line.length

/-- `max(0) as usize`. -/
def clip (n : Int32) : Nat := if n < 0 then 0 else n.toInt.toNat

/-- A click in the text. The difference wraps, as it does without overflow checks. -/
def click (x y : Int32) : Except Panic Editor :=
  if topBar ≤ y ∧ y < winH - bottomBar then
    let row := ed.scrollRow + clip ((y - topBar - 4) / lineH)
    if row < ed.lines.length then do
      let len ← ed.lineLen row
      pure { ed with cursorRow := row, cursorCol := min (clip ((x - margin) / glyphW)) len }
    else .ok ed
  else .ok ed

end Editor

structure Desk where
  editor : Editor
  file : Option (List UInt8)

namespace Desk

variable (d : Desk)

def save (disk : Disk) : Desk :=
  let saved := d.editor.save disk d.file
  { editor := saved.1, file := saved.2 }

/-- The arms of `handle_key` but for the one that quits. -/
def pressed (disk : Disk) (key : UInt8) : Except Panic Desk :=
  if key = 0x13 then .ok (d.save disk) else (d.editor.pressed key).map fun ed => { d with editor := ed }

/-- With `true` if the editor quits. -/
def handleKey (disk : Disk) (key : UInt8) : Except Panic (Bool × Desk) :=
  if key = 0x1B then .ok (true, d)
  else (d.pressed disk key).map fun d => (false, { d with editor := d.editor.ensureCursorVisible })

def handle (disk : Disk) : Event → Except Panic (Bool × Desk)
  | .key k => d.handleKey disk k
  | .mouseDown x y => do
    let ed ← d.editor.click x y
    pure (false, { d with editor := ed })
  | .close => .ok (true, d)
  | _ => .ok (false, d)

/-- The events of a run until the editor quits, each with what the disk does meanwhile. -/
def run : List (Event × Disk) → Desk → Except Panic Desk
  | [], d => .ok d
  | (event, disk) :: rest, d => do
    let (quits, d) ← d.handle disk event
    if quits then pure d else run rest d

/-- `Editor::new`. -/
def opened (file : Option (List UInt8)) : Desk := { editor := .new file, file := file }

end Desk

end PickleOS.Apps.TextEditor
