import PickleOS.Windows.Calls
import PickleOS.Console.Terminal

set_option autoImplicit false

namespace PickleOS.Windows

open Shared

def titleH : Int32 := 20
def taskbarH : Int32 := 28
def closeSz : Int32 := 14
def newtermX : Int32 := 96
def newtermW : Int32 := 104
def termCharW : Int32 := 8
def termLineH : Int32 := 10
def termPadX : Int32 := 8
def termPadY : Int32 := 4
def noTerm : Nat := Console.usizeMax

inductive WindowKind where
  | info
  | terminal
  | client
  deriving DecidableEq

structure Window where
  x : Int32
  y : Int32
  w : Int32
  h : Int32
  title : String
  kind : WindowKind
  termId : Nat
  clientId : WindowId
  -- Not in the source: which of the windows made so far this is.
  serial : Nat

inductive Panic where
  | unwrap
  | clamp
  | bounds
  deriving DecidableEq

/-- `Ord::clamp`, with its assertion. -/
def clamp (value lo hi : Int32) : Except Panic Int32 :=
  if hi < lo then .error .clamp else .ok (if value < lo then lo else if hi < value then hi else value)

namespace Window

def new (x y w h : Int32) (title : String) (serial : Nat) : Window :=
  { x := x, y := y, w := w, h := h, title := title, kind := .info, termId := noTerm, clientId :=
    0, serial := serial }

def newTerminal (x y : Int32) (title : String) (termId serial : Nat) : Window where
  x := x
  y := y
  w := Int32.ofNat Console.cols * termCharW + termPadX * 2
  h := titleH + termPadY + Int32.ofNat Console.rows * termLineH + termPadY
  title := title
  kind := .terminal
  termId := termId
  clientId := 0
  serial := serial

def newClient (x y cw ch : Int32) (title : String) (clientId : WindowId) (serial : Nat) : Window where
  x := x
  y := y
  w := cw
  h := titleH + ch
  title := title
  kind := .client
  termId := noTerm
  clientId := clientId
  serial := serial

variable (win : Window) (px py : Int32)

def closeRect : Int32 × Int32 × Int32 × Int32 := (win.x + win.w - closeSz - 4, win.y + 3, closeSz, closeSz)

def pointInTitle : Bool := win.x ≤ px ∧ px < win.x + win.w ∧ win.y ≤ py ∧ py < win.y + titleH

def pointInWindow : Bool := win.x ≤ px ∧ px < win.x + win.w ∧ win.y ≤ py ∧ py < win.y + win.h

def pointInClose : Bool :=
  let (cx, cy, cw, ch) := win.closeRect
  cx ≤ px ∧ px < cx + cw ∧ cy ≤ py ∧ py < cy + ch

def frames (id : WindowId) : Bool := win.kind = .client ∧ win.clientId = id

end Window

structure Screen where
  w : Int32
  h : Int32

def newTermButtonRect (screenH : Int32) : Int32 × Int32 × Int32 × Int32 :=
  let tbY := screenH - taskbarH
  (newtermX, tbY + 4, newtermW, taskbarH - 8)

def pointInNewTerm (px py screenH : Int32) : Bool :=
  let (bx, by', bw, bh) := newTermButtonRect screenH
  bx ≤ px ∧ px < bx + bw ∧ by' ≤ py ∧ py < by' + bh

structure MouseState where
  x : Int32
  y : Int32
  left : Bool
  seq : UInt64

structure Drag where
  ox : Int32
  oy : Int32
  -- Not in the source: the window whose title bar was pressed.
  serial : Nat

/-- The variables of `compositor_task`. -/
structure Desk where
  windows : List Window
  focus : Nat
  dragging : Option Drag
  prevLeft : Bool
  lastMouseSeq : UInt64
  focusedClient : Option WindowId
  prevLeftClient : Bool
  m : MouseState
  mouseChanged : Bool
  -- Not in the source: how many windows were made.
  serials : Nat

inductive Pc where
  | top
  | takeNew
  | sizing (id : WindowId)
  | placing (id : WindowId) (x y : Int32)
  | greeting (id : WindowId)
  | takeDestroy
  /-- The end of a reconcile pass. -/
  | pointer
  | moving (id : WindowId) (x y : Int32)
  | closing (i : Nat)
  | destroying (i : Nat)
  | routing
  | switching (queue : List (WindowId × Pushed))
  | keys (cid : WindowId)
  | reporting (cid : WindowId) (queue : List Pushed)
  | sleeping
  | panicked (panic : Panic)
  deriving DecidableEq

def placeClient (screen : Screen) (n cw ch : Int32) : Except Panic (Int32 × Int32) := do
  let wx ← clamp (360 + 26 * n) 0 (screen.w - max cw 1)
  let totalH := titleH + ch
  let wy ← clamp (180 + 26 * n) 0 (max (screen.h - taskbarH) 0 - totalH)
  pure (wx, wy)

namespace Desk

variable (d : Desk)

def windowCount (kind : WindowKind) : Int32 := Int32.ofNat (d.windows.countP fun w => w.kind = kind)

def terminalWindowCount : Int32 := d.windowCount .terminal

def clientWindowCount : Int32 := d.windowCount .client

/-- The window that is made next is put on top. -/
def push (make : Nat → Window) : Desk :=
  { d with windows := d.windows ++ [make d.serials], focus := d.windows.length, serials := d.serials + 1 }

/-- The new window, and where its client area is. -/
def frame (screen : Screen) (id : WindowId) (size : Nat × Nat × String) : Except Panic
    (Desk × Int32 × Int32) := do
  let (cw, ch, title) := size
  let cw := Int32.ofNat cw
  let ch := Int32.ofNat ch
  let (wx, wy) ← placeClient screen d.clientWindowCount cw ch
  pure (d.push (Window.newClient wx wy cw ch title id), wx, wy + titleH)

def unfocus (id : WindowId) : Desk :=
  { d with focusedClient := if d.focusedClient = some id then none else d.focusedClient }

def unframe (id : WindowId) : Desk :=
  match d.windows.findIdx? fun w => w.frames id with
  | none => d
  | some i =>
    let windows := d.windows.eraseIdx i
    { d with windows := windows, focus := windows.length - 1 }.unfocus id

def drag (screen : Screen) (offset : Drag) : Except Panic (Desk × Option (WindowId × Int32 × Int32)) :=
  match d.windows.getLast? with
  | none => .error .unwrap
  | some win => do
    let x ← clamp (d.m.x - offset.ox) 0 (screen.w - win.w)
    let y ← clamp (d.m.y - offset.oy) 0 (max (screen.h - taskbarH) 0 - win.h)
    let win := { win with x := x, y := y }
    let moved := if win.kind = .client then some (win.clientId, win.x, win.y + titleH) else none
    pure ({ d with windows := d.windows.dropLast ++ [win] }, moved)

def openTerminal (screen : Screen) (id : Nat) : Except Panic Desk := do
  let n := d.terminalWindowCount
  let wx ← clamp (300 + 28 * n) 0 (screen.w - 200)
  let wy ← clamp (150 + 28 * n) 0 (screen.h - 120)
  pure (d.push (Window.newTerminal wx wy "Terminal - pickleos shell" id))

/-- The topmost window under the pointer. -/
def hit : Option Nat :=
  (List.range d.windows.length).reverse.find? fun i => (d.windows[i]?).any fun win =>
    win.pointInWindow d.m.x d.m.y

def remove (i : Nat) : Desk :=
  let windows := d.windows.eraseIdx i
  let focus := if i = d.focus then windows.length - 1 else if i ≤ d.focus then d.focus - 1 else d.focus
  { d with windows := windows, focus := focus }

def raise (i : Nat) (win : Window) : Desk :=
  let windows := d.windows.eraseIdx i ++ [win]
  let grabbed : Drag := { ox := d.m.x - win.x, oy := d.m.y - win.y, serial := win.serial }
  { d with
    windows := windows
    focus := windows.length - 1
    dragging := if win.pointInTitle d.m.x d.m.y then some grabbed else d.dragging }

def click (i : Nat) : Except Panic (Desk × Pc) := do
  let win ← Checked.elemAt .bounds d.windows i
  if win.pointInClose d.m.x d.m.y then
    -- A terminal gives its slot back here.
    pure (if win.kind = .client then (d, .closing i) else (d.remove i, .routing))
  else pure (d.raise i win, .routing)

/-- A press of the button; `slot` is the answer of `alloc_terminal`. -/
def press (screen : Screen) (slot : Option Nat) : Except Panic (Desk × Pc) :=
  if pointInNewTerm d.m.x d.m.y screen.h then
    match slot with
    | some id => do pure (← d.openTerminal screen id, .routing)
    | none => .ok (d, .routing)
  else
    match d.hit with
    | some i => d.click i
    | none => .ok (d, .routing)

def point (screen : Screen) (slot : Option Nat) : Except Panic (Desk × Pc) :=
  if d.mouseChanged then
    let leftPressed := d.m.left && !d.prevLeft
    let d := { d with prevLeft := d.m.left }
    match d.dragging with
    | some offset =>
      if d.m.left then do
        let (d, moved) ← d.drag screen offset
        pure (d, (moved.map fun (id, x, y) => Pc.moving id x y).getD .routing)
      else .ok ({ d with dragging := none }, .routing)
    | none => if leftPressed then d.press screen slot else .ok (d, .routing)
  else .ok (d, .routing)

def topClient : Option WindowId :=
  (d.windows[d.focus]?).bind fun win => if d.focus + 1 = d.windows.length ∧
    win.kind = .client then some win.clientId else none

def switch : Desk × List (WindowId × Pushed) :=
  if d.topClient = d.focusedClient then (d, [])
  else
    ({ d with focusedClient := d.topClient },
      (d.focusedClient.map fun old => (old, .blur)).toList ++ (d.topClient.map fun new => (new, .focus)).toList)

/-- What the mouse did, as the focused client sees it. -/
def reports : List Pushed :=
  match d.windows[d.focus]? with
  | none => []
  | some win =>
    let lx := d.m.x - win.x
    let ly := d.m.y - (win.y + titleH)
    if d.mouseChanged ∧ 0 ≤ lx ∧ 0 ≤ ly ∧ lx < win.w ∧ ly < win.h - titleH then
      .mouseMove lx ly ::
        if d.m.left ∧ ¬d.prevLeftClient then [.mouseDown lx ly]
        else if ¬d.m.left ∧ d.prevLeftClient then [.mouseUp lx ly]
        else []
    else []

end Desk

end PickleOS.Windows
