import PickleOS.Windows.Server
import PickleOS.Shared.Bytes

set_option autoImplicit false

/-!
# Window events on the wire

One writer, `WmEvent::to_bytes`, and two readers: `Event::from_bytes` of libpickleos and the event
loop of the calculator.
-/

namespace PickleOS.Windows

open Shared

namespace Op

def evMouseMove : UInt32 := 0x10
def evMouseDown : UInt32 := 0x11
def evMouseUp : UInt32 := 0x12
def evKey : UInt32 := 0x13
def evClose : UInt32 := 0x14
def evFocus : UInt32 := 0x15
def evBlur : UInt32 := 0x16

end Op

def WmEvent.new (kind : UInt32) (x y : Int32) (arg : UInt32) : WmEvent :=
  { kind := kind, x := x, y := y, arg := arg }

def WmEvent.toBytes (ev : WmEvent) : List UInt8 :=
  Bytes.pack [(4, ev.kind.toNat), (4, ev.x.toUInt32.toNat), (4, ev.y.toUInt32.toNat), (4, ev.arg.toNat)]

/-- The calls of `push_event` that the compositor makes, with what it fills in. -/
inductive Pushed
  | mouseMove (x y : Int32)
  | mouseDown (x y : Int32)
  | mouseUp (x y : Int32)
  | key (ch : Char)
  | close
  | focus
  | blur
deriving DecidableEq

def Pushed.event : Pushed → WmEvent
  | .mouseMove x y => WmEvent.new Op.evMouseMove x y 0
  | .mouseDown x y => WmEvent.new Op.evMouseDown x y 0
  | .mouseUp x y => WmEvent.new Op.evMouseUp x y 0
  | .key ch => WmEvent.new Op.evKey 0 0 ch.val
  | .close => WmEvent.new Op.evClose 0 0 0
  | .focus => WmEvent.new Op.evFocus 0 0 0
  | .blur => WmEvent.new Op.evBlur 0 0 0

def u32FromLe (b : List UInt8) (off : Nat) : UInt32 := UInt32.ofNat (Bytes.decode (Bytes.slice b off 4))

namespace Libpickleos

def evMouseMove : UInt32 := 0x10
def evMouseDown : UInt32 := 0x11
def evMouseUp : UInt32 := 0x12
def evKey : UInt32 := 0x13
def evClose : UInt32 := 0x14
def evFocus : UInt32 := 0x15
def evBlur : UInt32 := 0x16

inductive Event
  | mouseMove (x y : Int32)
  | mouseDown (x y : Int32)
  | mouseUp (x y : Int32)
  | key (byte : UInt8)
  | focus
  | blur
  | close
deriving DecidableEq

def Event.fromBytes (b : List UInt8) : Option Event :=
  let kind := u32FromLe b 0
  let x := (u32FromLe b 4).toInt32
  let y := (u32FromLe b 8).toInt32
  let arg := u32FromLe b 12
  if kind = evMouseMove then some (.mouseMove x y)
  else if kind = evMouseDown then some (.mouseDown x y)
  else if kind = evMouseUp then some (.mouseUp x y)
  else if kind = evKey then some (.key arg.toUInt8)
  else if kind = evFocus then some .focus
  else if kind = evBlur then some .blur
  else if kind = evClose then some .close
  else none

def Event.Means : Event → Pushed → Prop
  | .mouseMove x y, .mouseMove x' y' => x = x' ∧ y = y'
  | .mouseDown x y, .mouseDown x' y' => x = x' ∧ y = y'
  | .mouseUp x y, .mouseUp x' y' => x = x' ∧ y = y'
  | .key byte, .key ch => byte.toNat = ch.toNat
  | .focus, .focus => True
  | .blur, .blur => True
  | .close, .close => True
  | _, _ => False

end Libpickleos

namespace Calculator

def evMouseMove : UInt8 := 1
def evMouseDown : UInt8 := 2
def evMouseUp : UInt8 := 3
def evKey : UInt8 := 4
def evFocus : UInt8 := 5
def evBlur : UInt8 := 6
def evClose : UInt8 := 7

def u16At (event : List UInt8) (off : Nat) : UInt16 := UInt16.ofNat (Bytes.decode (Bytes.slice event off 2))

inductive Event
  | close
  | mouseDown (mx my : UInt16)
  | mouseUp (mx my : UInt16)
deriving DecidableEq

/-- What the event loop reads out of its buffer; the kinds that it does not test for are dropped. -/
def decode (event : List UInt8) : Option Event :=
  let kind := event.getD 0 0
  if kind = evClose then some .close
  else if kind = evMouseDown then some (.mouseDown (u16At event 2) (u16At event 4))
  else if kind = evMouseUp then some (.mouseUp (u16At event 2) (u16At event 4))
  else none

def Event.Means : Event → Pushed → Prop
  | .close, .close => True
  | .mouseDown mx my, .mouseDown x y => (mx.toNat : Int) = x.toInt ∧ (my.toNat : Int) = y.toInt
  | .mouseUp mx my, .mouseUp x y => (mx.toNat : Int) = x.toInt ∧ (my.toNat : Int) = y.toInt
  | _, _ => False

end Calculator

def RecoveredByLibpickleos (p : Pushed) : Prop :=
  ∃ e, Libpickleos.Event.fromBytes p.event.toBytes = some e ∧ e.Means p

def RecoveredByCalculator (p : Pushed) : Prop :=
  ∃ e, Calculator.decode p.event.toBytes = some e ∧ e.Means p

theorem u32FromLe_pack (before after : List (Nat × Nat)) (word : UInt32) :
    u32FromLe (Bytes.pack (before ++ (4, word.toNat) :: after)) (before.map Prod.fst).sum = word := by
  have below : word.toNat % 256 ^ 4 = word.toNat := Nat.mod_eq_of_lt word.toNat_lt
  rw [u32FromLe, Bytes.slice_pack, Bytes.decode_encode, below, UInt32.ofNat_toNat]

section Wire

variable (ev : WmEvent)

@[simp] theorem kind_toBytes : u32FromLe ev.toBytes 0 = ev.kind :=
  u32FromLe_pack [] _ ev.kind

@[simp] theorem x_toBytes : (u32FromLe ev.toBytes 4).toInt32 = ev.x := by
  have word : u32FromLe ev.toBytes 4 = ev.x.toUInt32 := u32FromLe_pack [(4, ev.kind.toNat)] _ ev.x.toUInt32
  rw [word, Int32.toInt32_toUInt32]

@[simp] theorem y_toBytes : (u32FromLe ev.toBytes 8).toInt32 = ev.y := by
  have word : u32FromLe ev.toBytes 8 = ev.y.toUInt32 :=
    u32FromLe_pack [(4, ev.kind.toNat), (4, ev.x.toUInt32.toNat)] _ ev.y.toUInt32
  rw [word, Int32.toInt32_toUInt32]

@[simp] theorem arg_toBytes : u32FromLe ev.toBytes 12 = ev.arg :=
  u32FromLe_pack [(4, ev.kind.toNat), (4, ev.x.toUInt32.toNat), (4, ev.y.toUInt32.toNat)] [] ev.arg

@[simp] theorem head_toBytes : ev.toBytes.getD 0 0 = UInt8.ofNat ev.kind.toNat := rfl

end Wire

/-- libpickleos reads every field back, and then keeps one byte of the character of a key. -/
def Pushed.seen : Pushed → Libpickleos.Event
  | .mouseMove x y => .mouseMove x y
  | .mouseDown x y => .mouseDown x y
  | .mouseUp x y => .mouseUp x y
  | .key ch => .key ch.val.toUInt8
  | .close => .close
  | .focus => .focus
  | .blur => .blur

theorem fromBytes_event (p : Pushed) : Libpickleos.Event.fromBytes p.event.toBytes = some p.seen := by
  simp only [Libpickleos.Event.fromBytes, kind_toBytes, x_toBytes, y_toBytes, arg_toBytes]
  cases p <;> rfl

theorem recoveredByLibpickleos_iff (p : Pushed) :
    RecoveredByLibpickleos p ↔ ∀ ch, p = .key ch → ch.toNat < 256 := by
  simp only [RecoveredByLibpickleos, fromBytes_event, Option.some.injEq, exists_eq_left']
  have other (same : p.seen.Means p) (plain : ∀ ch, p ≠ .key ch) :
      p.seen.Means p ↔ ∀ ch, p = .key ch → ch.toNat < 256 :=
    iff_of_true same fun ch key => (plain ch key).elim
  cases p with
  | key ch =>
    have byte : ch.val.toUInt8.toNat = ch.toNat % 256 := UInt32.toNat_toUInt8 ch.val
    have means : (Pushed.key ch).seen.Means (.key ch) ↔ ch.val.toUInt8.toNat = ch.toNat := Iff.rfl
    rw [means, byte]
    constructor
    · intro kept ch' same
      cases same
      omega
    · intro small
      have := small ch rfl
      omega
  | mouseMove x y => exact other ⟨rfl, rfl⟩ fun ch => Pushed.noConfusion
  | mouseDown x y => exact other ⟨rfl, rfl⟩ fun ch => Pushed.noConfusion
  | mouseUp x y => exact other ⟨rfl, rfl⟩ fun ch => Pushed.noConfusion
  | close => exact other trivial fun ch => Pushed.noConfusion
  | focus => exact other trivial fun ch => Pushed.noConfusion
  | blur => exact other trivial fun ch => Pushed.noConfusion

-- The kinds of the kernel start at 0x10, those that the calculator tests for end at 7.
theorem decode_event (p : Pushed) : Calculator.decode p.event.toBytes = none := by
  simp only [Calculator.decode, head_toBytes]
  cases p <;> rfl

/-- No event that is pushed comes out of both decoders as it went in: the calculator drops every
one, and libpickleos changes the keys above U+00FF. -/
theorem event_lost (p : Pushed) :
    ¬(RecoveredByLibpickleos p ∧ RecoveredByCalculator p) ∧ ¬RecoveredByCalculator p ∧
      (RecoveredByLibpickleos p ↔ ∀ ch, p = .key ch → ch.toNat < 256) := by
  have dropped : ¬RecoveredByCalculator p := by
    rintro ⟨e, decoded, -⟩
    rw [decode_event] at decoded
    cases decoded
  exact ⟨fun both => dropped both.2, dropped, recoveredByLibpickleos_iff p⟩

/-- A click on the calculator's first button. -/
theorem click_lost : ¬(RecoveredByLibpickleos (.mouseDown 20 60) ∧
    RecoveredByCalculator (.mouseDown 20 60)) := by
  rintro ⟨-, e, decoded, -⟩
  have dropped : Calculator.decode (Pushed.mouseDown 20 60).event.toBytes = none := by decide
  rw [dropped] at decoded
  cases decoded

end PickleOS.Windows
