import PickleOS.Shared.Checked

set_option autoImplicit false

namespace PickleOS.Console

open Shared

def cols : Nat := 64
def rows : Nat := 28
def maxTerms : Nat := 4
def primary : Nat := 0
def tab : Nat := 4
def scrollbackMax : Nat := 200
def defaultFg : UInt32 := 0
def usizeMax : Nat := 0xFFFFFFFFFFFFFFFF

structure Cell where
  ch : Char
  fg : UInt32
  deriving DecidableEq

def Cell.blank : Cell := { ch := ' ', fg := defaultFg }

def ansi : List UInt32 := [0x1A1A1A, 0xE05561, 0x8CC265, 0xE0C060, 0x5C9CE6, 0xC162DE, 0x4CC9C0, 0xD7DAE0]

def ansiBright : List UInt32 := [0x6B7280, 0xFF7A85, 0xB4F08C, 0xFFE08A, 0x8AB8FF, 0xE08CFF, 0x80F0E8, 0xFFFFFF]

inductive Esc where
  | none
  | seen
  | csi
  deriving DecidableEq

abbrev Row := Vector Cell cols
abbrev Grid := Vector Row rows

def blankRow : Row := Vector.replicate cols .blank
def blankGrid : Grid := Vector.replicate rows blankRow

structure Terminal where
  cells : Grid := blankGrid
  cx : Nat := 0
  cy : Nat := 0
  inUse : Bool := false
  owner : Nat := 0
  curFg : UInt32 := defaultFg
  esc : Esc := .none
  params : Vector UInt16 8 := Vector.replicate 8 0
  nparam : Nat := 0
  haveDigit : Bool := false
  scroll : List Row := []
  view : Nat := 0

inductive Panic where
  | bounds
  | clamp
  deriving DecidableEq

/-- `xs[i] = value`, with the check of the index. -/
def setAt {α : Type} {n : Nat} (xs : Vector α n) (i : Nat) (value : α) : Except Panic (Vector α n) :=
  if inside : i < n then .ok (xs.set i value inside) else .error .bounds

def getAt {α : Type} {n : Nat} (xs : Vector α n) (i : Nat) : Except Panic α :=
  if inside : i < n then .ok xs[i] else .error .bounds

namespace Terminal

variable (t : Terminal)

def setCell (row col : Nat) (cell : Cell) : Except Panic Terminal := do
  let line ← getAt t.cells row
  let line ← setAt line col cell
  let cells ← setAt t.cells row line
  pure { t with cells := cells }

/-- The rows after each has taken the place of the one above it. -/
def movedUp (cells : Grid) : Grid :=
  Vector.ofFn fun r => if below : r.val + 1 < rows then cells[r.val + 1] else blankRow

def scrollUp : Terminal :=
  let kept := if scrollbackMax ≤ t.scroll.length then t.scroll.tail else t.scroll
  { t with scroll := kept ++ [t.cells.get ⟨0, by decide⟩], cells := movedUp t.cells, cy := t.cy - 1 }

def newline : Terminal :=
  let t := { t with cx := 0, cy := t.cy + 1 }
  if rows ≤ t.cy then t.scrollUp else t

def put (c : Char) : Except Panic Terminal :=
  if c = '\n' then .ok t.newline
  else if c = '\r' then .ok { t with cx := 0 }
  else if c = '\t' then .ok { t with cx := min ((t.cx / tab + 1) * tab) (cols - 1) }
  else if c = '\x08' then
    if 0 < t.cx then .ok { t with cx := t.cx - 1 }
    else if 0 < t.cy then .ok { t with cy := t.cy - 1, cx := cols - 1 }
    else .ok t
  else if 0x20 ≤ c.val then do
    let t := if cols ≤ t.cx then t.newline else t
    let t ← t.setCell t.cy t.cx { ch := c, fg := t.curFg }
    pure { t with cx := t.cx + 1 }
  else .ok t

def sgr (code : UInt16) : Except Panic Terminal :=
  if code = 0 ∨ code = 39 then .ok { t with curFg := defaultFg }
  else if 30 ≤ code ∧ code ≤ 37 then do
    let fg ← Checked.elemAt .bounds ansi (code.toNat - 30)
    pure { t with curFg := fg }
  else if 90 ≤ code ∧ code ≤ 97 then do
    let fg ← Checked.elemAt .bounds ansiBright (code.toNat - 90)
    pure { t with curFg := fg }
  else .ok t

def eraseToEol : Except Panic Terminal :=
  (List.range' t.cx (cols - t.cx)).foldlM (fun t c => t.setCell t.cy c .blank) t

def clearGrid : Terminal := { t with cells := blankGrid, cx := 0, cy := 0, view := 0 }

def clearRow (row : Nat) : Except Panic Terminal := do
  let cells ← setAt t.cells row blankRow
  pure { t with cells := cells }

/-- `ESC[row;colH`, counted from one. -/
def cursorTo (count : Nat) : Except Panic Terminal := do
  let first ← getAt t.params 0
  let second ← getAt t.params 1
  let row := if 0 < count ∧ 0 < first then first.toNat else 1
  let col := if 1 < count ∧ 0 < second then second.toNat else 1
  pure { t with cy := min (row - 1) (rows - 1), cx := min (col - 1) (cols - 1) }

def eraseDisplay (count : Nat) : Except Panic Terminal := do
  let first ← getAt t.params 0
  let mode := if 0 < count then first else 0
  if mode = 2 ∨ mode = 3 then pure t.clearGrid
  else
    let t ← t.eraseToEol
    (List.range' (t.cy + 1) (rows - (t.cy + 1))).foldlM clearRow t

def csiDispatch (finalByte : Char) (count : Nat) : Except Panic Terminal :=
  if finalByte = 'm' then
    if count = 0 then .ok { t with curFg := defaultFg }
    else
      (List.range count).foldlM (fun t i => do
        let code ← getAt t.params i
        t.sgr code) t
  else if finalByte = 'H' ∨ finalByte = 'f' then t.cursorTo count
  else if finalByte = 'J' then t.eraseDisplay count
  else if finalByte = 'K' then t.eraseToEol
  else .ok t

/-- A further digit of a parameter, which stays at the largest `u16` once it gets there. -/
def accumulate (slot : UInt16) (c : Char) : UInt16 :=
  UInt16.ofNat (min (min (slot.toNat * 10) 65535 + (c.toNat - '0'.toNat)) 65535)

def feed (c : Char) : Except Panic Terminal :=
  match t.esc with
  | .seen =>
    if c = '[' then .ok { t with esc := .csi, params := Vector.replicate 8 0, nparam := 0, haveDigit := false }
    else .ok { t with esc := .none }
  | .csi =>
    if c.isDigit then do
      let slot ← getAt t.params t.nparam
      let params ← setAt t.params t.nparam (accumulate slot c)
      pure { t with params := params, haveDigit := true }
    else if c = ';' then .ok (if t.nparam + 1 < 8 then { t with nparam := t.nparam + 1 } else t)
    else do
      let count := if t.haveDigit ∨ 0 < t.nparam then t.nparam + 1 else 0
      let t ← t.csiDispatch c count
      pure { t with esc := .none }
  | .none => if c = '\x1b' then .ok { t with esc := .seen } else t.put c

def resetFull : Terminal := { ({} : Terminal) with inUse := t.inUse, owner := t.owner }

/-- The body of `write`, under the lock. -/
def writeStr (s : String) : Except Panic Terminal := s.toList.foldlM feed { t with view := 0 }

/-- `i32::clamp`. -/
def clamp (x low high : Int32) : Except Panic Int32 :=
  if high < low then .error .clamp else .ok (if x < low then low else if high < x then high else x)

/-- The new offset of the view. The sum wraps, as it does without overflow checks. -/
def scrolled (delta : Int32) : Except Panic Nat := do
  let max := Int32.ofNat t.scroll.length
  let v ← clamp (Int32.ofNat t.view + delta) 0 max
  pure v.toInt64.toUInt64.toNat

def copyGrid : Except Panic (List Row × Nat × Nat) :=
  if t.view = 0 then .ok (t.cells.toList, t.cx, t.cy)
  else do
    let s := t.scroll.length
    let start := s - min t.view s
    let out ← (List.range rows).mapM fun r =>
      if start + r < s then Checked.elemAt .bounds t.scroll (start + r) else getAt t.cells (start + r - s)
    pure (out, usizeMax, usizeMax)

end Terminal

/-! ### The pool of terminals -/

structure Terms where
  slots : Vector Terminal maxTerms
  seq : Vector UInt64 maxTerms

namespace Terms

variable (terms : Terms)

/-- Work on one slot, after which its change counter goes up. An id outside the pool does nothing. -/
def changing (id : Nat) (f : Terminal → Except Panic Terminal) : Except Panic Terms :=
  if maxTerms ≤ id then .ok terms
  else do
    let t ← getAt terms.slots id
    let t ← f t
    let slots ← setAt terms.slots id t
    let count ← getAt terms.seq id
    let seq ← setAt terms.seq id (count + 1)
    pure { slots := slots, seq := seq }

def write (id : Nat) (s : String) : Except Panic Terms := terms.changing id fun t => t.writeStr s

def clear (id : Nat) : Except Panic Terms := terms.changing id fun t => .ok t.clearGrid

/-- The slot of a task's own terminal, or the primary one. -/
def target (tid : Nat) : Nat := (terms.slots.toList.findIdx? fun t => t.inUse && t.owner = tid).getD primary

def writeForCurrent (tid : Nat) (s : String) : Except Panic Terms := terms.write (terms.target tid) s

def clearForCurrent (tid : Nat) : Except Panic Terms := terms.clear (terms.target tid)

def setView (id view : Nat) : Except Panic Terms :=
  terms.changing id fun t => .ok { t with view := view }

def scrollView (id : Nat) (delta : Int32) : Except Panic Terms :=
  if maxTerms ≤ id then .ok terms
  else do
    let t ← getAt terms.slots id
    let v ← t.scrolled delta
    if v ≠ t.view then terms.setView id v else pure terms

def scrollToBottom (id : Nat) : Except Panic Terms :=
  if maxTerms ≤ id then .ok terms
  else do
    let t ← getAt terms.slots id
    if t.view ≠ 0 then terms.setView id 0 else pure terms

def copyGrid (id : Nat) : Except Panic (List Row × Nat × Nat) :=
  if maxTerms ≤ id then .ok (blankGrid.toList, 0, 0)
  else do
    let t ← getAt terms.slots id
    t.copyGrid

def allocTerminal : Except Panic (Option Nat × Terms) :=
  match terms.slots.toList.findIdx? fun t => !t.inUse with
  | none => .ok (none, terms)
  | some id => do
    let terms ← terms.changing id fun t => .ok { t.resetFull with inUse := true }
    pure (some id, terms)

def freeTerminal (id : Nat) : Except Panic Terms :=
  terms.changing id fun t => .ok { t.resetFull with inUse := false, owner := 0 }

def bind (id taskId : Nat) : Except Panic Terms :=
  if maxTerms ≤ id then .ok terms
  else do
    let t ← getAt terms.slots id
    let slots ← setAt terms.slots id { t with owner := taskId }
    pure { terms with slots := slots }

end Terms

end PickleOS.Console
