import PickleOS.Windows.Desktop
import PickleOS.Shared.Machine

set_option autoImplicit false

/-!
# The compositor beside its clients

The compositor, the self-test and the clients take turns at every critical section of the registry.
-/

namespace PickleOS.Windows

open Shared Shared.Machine

/-- The next thing that `wm_selftest` does. -/
inductive TestPc where
  | create
  | drainNew (id : WindowId)
  | isOwner (id : WindowId)
  | windowInfo (id : WindowId)
  | dirty (id : WindowId)
  | commit (id : WindowId) (before : UInt64)
  | dirtied (id : WindowId) (before : UInt64)
  | pushKey (id : WindowId)
  | pushMouse (id : WindowId)
  | poll (id : WindowId) (polled : List (Option WmEvent))
  | destroy (id : WindowId)
  | drainDestroy (id : WindowId)
  | gone (id : WindowId)
  | done

structure Checks where
  owner : Bool := false
  geom : Bool := false
  commit : Bool := false
  dirty : Bool := false
  events : Bool := false
  destroy : Bool := false
  notified : Bool := false
  gone : Bool := false

def Checks.pass (c : Checks) : Bool :=
  c.owner && c.geom && c.commit && c.dirty && c.events && c.destroy && c.notified && c.gone

structure Selftest where
  owner : TaskId
  pc : TestPc
  checks : Checks

def eventsOk : List (Option WmEvent) → Bool
  | [some e1, some e2, none] =>
    e1.kind == Op.evKey && e1.arg == ('A').val && (e2.kind == Op.evMouseDown && e2.x == 3 && e2.y == 4)
  | _ => false

structure State where
  screen : Screen
  wm : Wm
  mouse : MouseState
  desk : Desk
  pc : Pc
  test : Selftest
  -- Not in the source: the windows whose notices the self-test took off the queues.
  tookNew : List WindowId
  tookDestroy : List WindowId

inductive Action where
  | mouse (x y : Int32) (left : Bool)
  | createWindow (owner : TaskId) (w h : Nat) (title : String)
  | destroyWindow (id : WindowId)
  | destroyWindowsOwnedBy (owner : TaskId)
  | commit (id : WindowId) (src : List UInt32)
  | setTitle (id : WindowId) (title : String)
  | pollEvent (id : WindowId)
  /-- `slot` and `ch` are the answers of `alloc_terminal` and `read_char`, where they are asked for. -/
  | compositor (slot : Option Nat) (ch : Option Char)
  | selftest

namespace Selftest

variable (t : Selftest) (wm : Wm)

def goto (pc : TestPc) : Selftest := { t with pc := pc }

def check (f : Checks → Checks) (pc : TestPc) : Selftest := { t with pc := pc, checks := f t.checks }

end Selftest

namespace State

def boot (screen : Screen) (tester : TaskId) (primary : Nat) : State where
  screen := screen
  wm := .initial
  mouse := { x := screen.w / 2, y := screen.h / 2, left := false, seq := 0 }
  desk := {
    windows := [
      Window.new 40 120 330 180 "Welcome" 0,
      Window.new 880 130 320 160 "System" 1,
      Window.newTerminal 300 150 "Terminal - pickleos shell" primary 2]
    focus := 2
    dragging := none
    prevLeft := false
    lastMouseSeq := -1
    focusedClient := none
    prevLeftClient := false
    m := { x := screen.w / 2, y := screen.h / 2, left := false, seq := 0 }
    mouseChanged := false
    serials := 3 }
  pc := .top
  test := { owner := tester, pc := .create, checks := {} }
  tookNew := []
  tookDestroy := []

variable (s : State)

def goto (pc : Pc) : State := { s with pc := pc }

def proceed (next : Except Panic (Desk × Pc)) : State :=
  match next with
  | .ok (desk, pc) => { s with desk := desk, pc := pc }
  | .error panic => s.goto (.panicked panic)

def compositor (slot : Option Nat) (ch : Option Char) : Option State :=
  match s.pc with
  | .top =>
    let desk := { s.desk with m := s.mouse, mouseChanged :=
      s.mouse.seq ≠ s.desk.lastMouseSeq, lastMouseSeq := s.mouse.seq }
    some { s with desk := desk, pc := .takeNew }
  | .takeNew =>
    let (id, wm) := s.wm.takePendingNew
    some { s with wm := wm, pc := (id.map Pc.sizing).getD .takeDestroy }
  | .sizing id =>
    match s.wm.windowSizeTitle id with
    | none => some (s.goto .takeNew)
    | some size =>
      some (s.proceed ((s.desk.frame s.screen id size).map fun (desk, x, y) => (desk, .placing id x y)))
  | .placing id x y => some { s with wm := s.wm.setPosition id x y, pc := .greeting id }
  | .greeting id => some { s with wm := s.wm.pushEvent id Pushed.focus.event, pc := .takeNew }
  | .takeDestroy =>
    let (id, wm) := s.wm.takePendingDestroy
    match id with
    | none => some { s with wm := wm, pc := .pointer }
    | some id => some { s with wm := wm, desk := s.desk.unframe id }
  | .pointer => some (s.proceed (s.desk.point s.screen slot))
  | .moving id x y => some { s with wm := s.wm.setPosition id x y, pc := .routing }
  | .closing i =>
    match s.desk.windows[i]? with
    | none => some (s.goto (.panicked .bounds))
    | some win => some { s with wm := s.wm.pushEvent win.clientId Pushed.close.event, pc := .destroying i }
  | .destroying i =>
    match s.desk.windows[i]? with
    | none => some (s.goto (.panicked .bounds))
    | some win =>
      let desk := (s.desk.unfocus win.clientId).remove i
      some { s with wm := (s.wm.destroyWindow win.clientId).2, desk := desk, pc := .routing }
  | .routing => some { s with desk := s.desk.switch.1, pc := .switching s.desk.switch.2 }
  | .switching ((id, pushed) :: rest) =>
    some { s with wm := s.wm.pushEvent id pushed.event, pc := .switching rest }
  | .switching [] => some (s.goto ((s.desk.topClient.map Pc.keys).getD .sleeping))
  | .keys cid =>
    match ch with
    | some ch => some { s with wm := s.wm.pushEvent cid (Pushed.key ch).event }
    | none => some { s with desk :=
      { s.desk with prevLeftClient := s.desk.m.left }, pc := .reporting cid s.desk.reports }
  | .reporting cid (pushed :: rest) =>
    some { s with wm := s.wm.pushEvent cid pushed.event, pc := .reporting cid rest }
  | .reporting _ [] => some (s.goto .sleeping)
  | .sleeping => some (s.goto .top)
  | .panicked _ => none

def selftest : Option State :=
  let t := s.test
  match t.pc with
  | .create =>
    let (id, wm) := s.wm.createWindow t.owner 64 32 "selftest"
    some { s with wm := wm, test := t.goto ((id.map TestPc.drainNew).getD .done) }
  | .drainNew id =>
    match s.wm.takePendingNew with
    | (some n, wm) => some { s with wm := wm, tookNew := n :: s.tookNew }
    | (none, wm) => some { s with wm := wm, test := t.goto (.isOwner id) }
  | .isOwner id =>
    some { s with test := t.check (fun c => { c with owner := s.wm.isOwner id t.owner }) (.windowInfo id) }
  | .windowInfo id =>
    let ok := ((s.wm.windowInfo id).map fun (_, _, w, h) => w == 64 && h == 32).getD false
    some { s with test := t.check (fun c => { c with geom := ok }) (.dirty id) }
  | .dirty id => some { s with test := t.goto (.commit id s.wm.dirty) }
  | .commit id before =>
    let (ok, wm) := s.wm.commit id (List.replicate (64 * 32) 0x00FF00FF)
    some { s with wm := wm, test := t.check (fun c => { c with commit := ok }) (.dirtied id before) }
  | .dirtied id before =>
    some { s with test := t.check (fun c => { c with dirty := before < s.wm.dirty }) (.pushKey id) }
  | .pushKey id =>
    some { s with wm := s.wm.pushEvent id (WmEvent.new Op.evKey 0 0 ('A').val), test := t.goto (.pushMouse id) }
  | .pushMouse id =>
    some { s with wm := s.wm.pushEvent id (WmEvent.new Op.evMouseDown 3 4 0), test := t.goto (.poll id []) }
  | .poll id polled =>
    let (ev, wm) := s.wm.pollEvent id
    let polled := polled ++ [ev]
    some { s with
      wm := wm
      test := if polled.length < 3 then t.goto (.poll id polled)
        else t.check (fun c => { c with events := eventsOk polled }) (.destroy id) }
  | .destroy id =>
    let (ok, wm) := s.wm.destroyWindow id
    some { s with wm := wm, test := t.check (fun c => { c with destroy := ok }) (.drainDestroy id) }
  | .drainDestroy id =>
    match s.wm.takePendingDestroy with
    | (some d, wm) =>
      let test := t.check (fun c => { c with notified := c.notified || d == id }) (.drainDestroy id)
      some { s with wm := wm, tookDestroy := d :: s.tookDestroy, test := test }
    | (none, wm) => some { s with wm := wm, test := t.goto (.gone id) }
  | .gone id => some { s with test := t.check (fun c => { c with gone := !s.wm.windowExists id }) .done }
  | .done => none

end State

def step (s : State) : Action → Option State
  | .mouse x y left => some { s with mouse := { x := x, y := y, left := left, seq := s.mouse.seq + 1 } }
  | .createWindow owner w h title => some { s with wm := (s.wm.createWindow owner w h title).2 }
  | .destroyWindow id => some { s with wm := (s.wm.destroyWindow id).2 }
  | .destroyWindowsOwnedBy owner => some { s with wm := (s.wm.destroyWindowsOwnedBy owner).2 }
  | .commit id src => some { s with wm := (s.wm.commit id src).2 }
  | .setTitle id title => some { s with wm := (s.wm.setTitle id title).2 }
  | .pollEvent id => some { s with wm := (s.wm.pollEvent id).2 }
  | .compositor slot ch => s.compositor slot ch
  | .selftest => s.selftest

end PickleOS.Windows
