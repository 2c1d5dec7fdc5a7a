import PickleOS.Tasks.Sleepers

set_option autoImplicit false

/-!
# The input of the console

`INPUT` is a lock with a ring of characters and the tasks that wait for one. A task is preempted
wherever its interrupts are on, also with the lock held.
-/

namespace PickleOS.Console.Input

open Shared Shared.Machine Tasks Tasks.Scheduler

namespace Keys

def arrowUp : Char := '\x11'
def arrowDown : Char := '\x12'
def arrowLeft : Char := '\x13'
def arrowRight : Char := '\x14'
def home : Char := '\x15'
def endKey : Char := '\x16'
def pageUp : Char := '\x17'
def pageDown : Char := '\x18'
def delete : Char := '\x7f'

end Keys

def cap : Nat := 256

structure ConsoleInput where
  buf : Vector Char cap
  head : Fin cap
  tail : Fin cap
  waiters : List UInt32
  -- `DROPPED`.
  dropped : Nat

inductive KeyCode where
  | arrowUp
  | arrowDown
  | arrowLeft
  | arrowRight
  | home
  | endKey
  | pageUp
  | pageDown
  | delete
  | other

inductive DecodedKey where
  | unicode (c : Char)
  | rawKey (code : KeyCode)

def rawKeyToSentinel : KeyCode → Option Char
  | .arrowUp => some Keys.arrowUp
  | .arrowDown => some Keys.arrowDown
  | .arrowLeft => some Keys.arrowLeft
  | .arrowRight => some Keys.arrowRight
  | .home => some Keys.home
  | .endKey => some Keys.endKey
  | .pageUp => some Keys.pageUp
  | .pageDown => some Keys.pageDown
  | .delete => some Keys.delete
  | .other => none

def DecodedKey.char : DecodedKey → Option Char
  | .unicode c => some c
  | .rawKey code => rawKeyToSentinel code

namespace ConsoleInput

def initial : ConsoleInput where
  buf := Vector.replicate cap '\x00'
  head := ⟨0, by decide⟩
  tail := ⟨0, by decide⟩
  waiters := []
  dropped := 0

variable (i : ConsoleInput)

/-- `(index + 1) % CAP`. -/
def next (index : Fin cap) : Fin cap := ⟨(index + 1) % cap, Nat.mod_lt _ (by decide)⟩

def empty : Bool := i.head = i.tail

def pushChar (c : Char) : ConsoleInput :=
  if next i.head = i.tail then { i with dropped := i.dropped + 1 }
  else { i with buf := i.buf.set i.head c, head := next i.head }

def pop : Option Char × ConsoleInput :=
  if i.empty then (none, i) else (some i.buf[i.tail], { i with tail := next i.tail })

def flush : ConsoleInput := { i with tail := i.head }

def register (task : UInt32) : ConsoleInput :=
  { i with waiters := if task ∈ i.waiters then i.waiters else i.waiters ++ [task] }

end ConsoleInput

inductive Op where
  /-- With what the decoder makes of the code and of those before it. -/
  | feedScancode (key : Option DecodedKey)
  | injectChar (c : Char)
  | readChar
  | hasInput
  | flush
  | readCharBlocking

/-- Where a task is. `enabled` is its interrupt flag. -/
inductive Pc where
  | outside
  | locking (enabled : Bool) (op : Op)
  | locked (enabled : Bool) (op : Op)
  /-- In `wake_waiters`, with the lock, and before these waiters. -/
  | waking (enabled : Bool) (rest : List UInt32)
  /-- Registered as a waiter, with the lock given back. -/
  | blocking (enabled : Bool)

def Pc.enabled : Pc → Bool
  | .outside => true
  | .locking enabled _ | .locked enabled _ | .waking enabled _ | .blocking enabled => enabled

/-- In `read_char_blocking`. -/
def Pc.reads : Pc → Bool
  | .locking _ .readCharBlocking | .locked _ .readCharBlocking | .blocking _ => true
  | _ => false

structure State where
  timeline : Timeline
  input : ConsoleInput
  /-- The task whose guard locks `INPUT`. -/
  holder : Option TaskId
  pc : TaskId → Pc

def State.initial : State where
  timeline := .booted
  input := .initial
  holder := none
  pc _ := .outside

namespace State

variable (s : State)

def current : Option TaskId := s.timeline.table.me.map (·.id)

def goto (id : TaskId) (pc : Pc) : State := { s with pc := Function.update s.pc id pc }

def release (id : TaskId) (input : ConsoleInput) (pc : Pc) : State :=
  { s.goto id pc with input := input, holder := none }

/-- A character arrives, and the waiters are woken. -/
def arrive (id : TaskId) (enabled : Bool) (c : Char) : State :=
  { s.goto id (.waking enabled s.input.waiters) with input := s.input.pushChar c }

/-- What the operation does with the lock. Characters go to the caller. -/
def perform (id : TaskId) (enabled : Bool) : Op → State
  | .feedScancode key =>
    match key.bind DecodedKey.char with
    | some c => s.arrive id enabled c
    | none => s.release id s.input .outside
  | .injectChar c => s.arrive id enabled c
  | .readChar => s.release id s.input.pop.2 .outside
  | .hasInput => s.release id s.input .outside
  | .flush => s.release id s.input.flush .outside
  | .readCharBlocking =>
    if s.input.empty then s.release id (s.input.register (UInt32.ofNat id)) (.blocking enabled)
    else s.release id s.input.pop.2 .outside

def advance (id : TaskId) : Option State :=
  match s.pc id with
  | .outside => none
  | .locking enabled op =>
    some (if s.holder = none then { s.goto id (.locked enabled op) with holder := some id } else s)
  | .locked enabled op => some (s.perform id enabled op)
  | .waking enabled (w :: rest) =>
    some { s.goto id (.waking enabled rest) with timeline :=
      { s.timeline with table := s.timeline.table.unblock w.toNat } }
  | .waking _ [] => some (s.release id { s.input with waiters := [] } .outside)
  | .blocking _ =>
    -- `block_current_and_schedule` returns with the interrupts enabled, whatever they were.
    some { s.goto id (.locking true .readCharBlocking) with
      timeline := { s.timeline with table := s.timeline.table.blockCurrentAndSchedule } }

end State

inductive Action where
  | call (enabled : Bool) (op : Op)
  | advance
  /-- What tasks do elsewhere, and interrupts. -/
  | other (event : Event)

def step (s : State) (a : Action) : Option State :=
  match s.current with
  | none => none
  | some id =>
    match a with
    | .call enabled op =>
      match s.pc id with
      | .outside => if s.timeline.acts then some (s.goto id (.locking enabled op)) else none
      | _ => none
    | .advance => s.advance id
    | .other event =>
      match s.pc id with
      | .outside => (transition s.timeline event).map fun l => { s with timeline := l }
      | pc =>
        if pc.enabled ∧ event.isInterrupt then (transition s.timeline event).map fun l =>
          { s with timeline := l } else none

abbrev Reachable (s : State) : Prop := Reaches step (fun _ _ => True) .initial s

/-- Nobody sleeps in `read_char_blocking`, without being a waiter, while there is input. -/
def NoLostWakeup (s : State) : Prop :=
  ∀ id, s.timeline.table.Sleeps id → (s.pc id).reads → ¬s.input.empty → id ∈ s.input.waiters.map UInt32.toNat

/-- No wake-up meets a task that has registered and does not sleep yet, and whoever registers has an
id that a waiter can have. -/
def Undisturbed (s : State) : Action → Prop
  | .advance => ∀ id, s.current = some id →
    match s.pc id with
    | .waking _ (w :: _) => ∀ reader enabled, s.pc reader = .blocking enabled → UInt32.ofNat reader ≠ w
    | .locked _ .readCharBlocking => s.input.empty → id < 0x100000000
    | _ => True
  | _ => True

end PickleOS.Console.Input
