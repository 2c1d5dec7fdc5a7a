import PickleOS.Console.TerminalSafety
import PickleOS.Shared.Recent

set_option autoImplicit false

/-!
# A terminal on an endless roll

It shows the last lines of a roll on which nothing is ever lost. To scroll is to unroll a blank line.
-/

namespace PickleOS.Console

open Shared

/-- What a terminal has beside its rows. -/
structure Head where
  cx : Nat := 0
  cy : Nat := 0
  inUse : Bool := false
  owner : Nat := 0
  curFg : UInt32 := defaultFg
  esc : Esc := .none
  params : Vector UInt16 8 := Vector.replicate 8 0
  nparam : Nat := 0
  haveDigit : Bool := false

namespace Head

variable (h : Head)

def param (i : Nat) : UInt16 := h.params[i]?.getD 0

/-- The characters that only move the cursor. -/
def control (c : Char) : Head :=
  if c = '\r' then { h with cx := 0 }
  else if c = '\t' then { h with cx := min ((h.cx / tab + 1) * tab) (cols - 1) }
  else if c = '\x08' then
    if 0 < h.cx then { h with cx := h.cx - 1 }
    else if 0 < h.cy then { h with cy := h.cy - 1, cx := cols - 1 }
    else h
  else h

def sgr (code : UInt16) : Head :=
  if code = 0 ∨ code = 39 then { h with curFg := defaultFg }
  else if 30 ≤ code ∧ code ≤ 37 then { h with curFg := ansi[code.toNat - 30]?.getD defaultFg }
  else if 90 ≤ code ∧ code ≤ 97 then { h with curFg := ansiBright[code.toNat - 90]?.getD defaultFg }
  else h

def cursorTo (count : Nat) : Head :=
  let row := if 0 < count ∧ 0 < h.param 0 then (h.param 0).toNat else 1
  let col := if 1 < count ∧ 0 < h.param 1 then (h.param 1).toNat else 1
  { h with cy := min (row - 1) (rows - 1), cx := min (col - 1) (cols - 1) }

end Head

structure Roll where
  head : Head := {}
  lines : List Row := List.replicate rows blankRow

namespace Roll

variable (roll : Roll)

/-- Where the page starts that the terminal shows. -/
def top : Nat := roll.lines.length - rows

def history : List Row := roll.lines.rdrop rows

def page : List Row := roll.lines.rtake rows

def edit (row : Nat) (f : Row → Row) : Roll := { roll with lines := roll.lines.modify (roll.top + row) f }

def newline : Roll :=
  if roll.head.cy + 1 < rows then { roll with head := { roll.head with cx := 0, cy := roll.head.cy + 1 } }
  else { head := { roll.head with cx := 0 }, lines := roll.lines ++ [blankRow] }

def print (c : Char) : Roll :=
  let roll := roll.edit roll.head.cy fun line =>
    line.setIfInBounds roll.head.cx { ch := c, fg := roll.head.curFg }
  { roll with head := { roll.head with cx := roll.head.cx + 1 } }

def put (c : Char) : Roll :=
  if c = '\n' then roll.newline
  else if c.val < 0x20 then { roll with head := roll.head.control c }
  else if roll.head.cx < cols then roll.print c
  else roll.newline.print c

def eraseToEol : Roll :=
  roll.edit roll.head.cy fun line => line.mapIdx fun c cell => if c < roll.head.cx then cell else .blank

def clear : Roll :=
  { head := { roll.head with cx := 0, cy := 0 }, lines := roll.history ++ List.replicate rows blankRow }

def eraseDisplay (count : Nat) : Roll :=
  if 0 < count ∧ (roll.head.param 0 = 2 ∨ roll.head.param 0 = 3) then roll.clear
  else
    let roll := roll.eraseToEol
    let below := roll.head.cy + 1
    { roll with lines := roll.lines.take (roll.top + below) ++ List.replicate (rows - below) blankRow }

def csiDispatch (finalByte : Char) (count : Nat) : Roll :=
  if finalByte = 'm' then
    if count = 0 then { roll with head := roll.head.sgr 0 }
    else { roll with head := (List.range count).foldl (fun h i => h.sgr (h.param i)) roll.head }
  else if finalByte = 'H' ∨ finalByte = 'f' then { roll with head := roll.head.cursorTo count }
  else if finalByte = 'J' then roll.eraseDisplay count
  else if finalByte = 'K' then roll.eraseToEol
  else roll

def feed (c : Char) : Roll :=
  match roll.head.esc with
  | .seen =>
    if c = '[' then
      { roll with head :=
        { roll.head with esc := .csi, params := Vector.replicate 8 0, nparam := 0, haveDigit := false } }
    else { roll with head := { roll.head with esc := .none } }
  | .csi =>
    if c.isDigit then
      let slot := Terminal.accumulate (roll.head.param roll.head.nparam) c
      { roll with head :=
        { roll.head with params := roll.head.params.setIfInBounds roll.head.nparam slot, haveDigit := true } }
    else if c = ';' then { roll with head := { roll.head with nparam := min (roll.head.nparam + 1) 7 } }
    else
      let roll := roll.csiDispatch c (if roll.head.haveDigit ∨
        0 < roll.head.nparam then roll.head.nparam + 1 else 0)
      { roll with head := { roll.head with esc := .none } }
  | .none => if c = '\x1b' then { roll with head := { roll.head with esc := .seen } } else roll.put c

def writeStr (s : String) : Roll := s.toList.foldl feed roll

end Roll

/-! ### A roll for each terminal -/

abbrev Rolls := Vector Roll maxTerms

namespace Rolls

variable (rolls : Rolls)

def change (id : Nat) (f : Roll → Roll) : Rolls := rolls.mapIdx fun i roll => if i = id then f roll else roll

def target (tid : Nat) : Nat :=
  (rolls.toList.findIdx? fun roll => roll.head.inUse && roll.head.owner = tid).getD primary

/-- A new roll for the next owner. -/
def fresh (inUse : Bool) (owner : Nat) : Roll := { head := { inUse := inUse, owner := owner } }

def alloc : Rolls :=
  match rolls.toList.findIdx? fun roll => !roll.head.inUse with
  | none => rolls
  | some id => rolls.change id fun roll => fresh true roll.head.owner

def act : Action → Rolls
  | .write id s => rolls.change id fun roll => roll.writeStr s
  | .writeForCurrent tid s => rolls.change (rolls.target tid) fun roll => roll.writeStr s
  | .clear id => rolls.change id Roll.clear
  | .clearForCurrent tid => rolls.change (rolls.target tid) Roll.clear
  | .scrollView _ _ => rolls
  | .scrollToBottom _ => rolls
  | .allocTerminal => rolls.alloc
  | .freeTerminal id => rolls.change id fun _ => fresh false 0
  | .bind id taskId => rolls.change id fun roll => { roll with head := { roll.head with owner := taskId } }

end Rolls

end PickleOS.Console
