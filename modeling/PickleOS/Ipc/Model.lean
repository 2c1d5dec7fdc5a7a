import PickleOS.Shared.Machine
import Mathlib.Logic.Function.Basic

set_option autoImplicit false

/-!
# Endpoints, calls and replies

Every action is one critical section of one task, with the task's own computation up to its next
section. Tasks are preempted between sections. `task::current_id()` is the id of the acting task.
-/

namespace PickleOS.Ipc

/-- `NEXT_EP` is an `AtomicU64`: ids are numbers, as long as fewer than 2^64 endpoints have been made. -/
abbrev EndpointId := Nat
abbrev TaskId := Nat

structure Message where
  tag : UInt64
  words : Fin 6 → UInt64
  sender : TaskId

def Message.new (tag : UInt64) : Message := { tag := tag, words := fun _ => 0, sender := 0 }

structure Stamped where
  serial : Nat
  message : Message

/-- What a reply slot holds: a reply, with the serial number of the message it answers as a ghost, or
the message that a receiver has parked there. -/
inductive Slot where
  | reply (answers : Nat) (message : Message)
  | parked (message : Stamped)

def Slot.message : Slot → Message
  | reply _ message => message
  | parked stamped => stamped.message

structure Endpoint where
  queue : List Stamped := []
  waiters : List TaskId := []

structure Request where
  ep : EndpointId
  serial : Nat
  deriving DecidableEq

inductive Pc where
  | idle
  | receivePop (ep : EndpointId)
  | receiveRegister (ep : EndpointId)
  | receiveBlock (ep : EndpointId)
  | sendWake (waiter : TaskId)
  | replyWake (caller : TaskId)
  | callWake (request : Request) (waiter : TaskId)
  | callDeadline (request : Request)
  | callPoll (request : Request) (deadline : Nat)
  | callTimeout (request : Request) (deadline : Nat)
  | callExpire (request : Request)
  | callBlock (request : Request) (deadline : Nat)
  deriving DecidableEq

/-- `Runnable` and `Running` are `ready`, `Zombie` and `Dead` are `dead`. -/
inductive Status where
  | ready
  | blocked
  | dead
  deriving DecidableEq

/-- What a `call` has returned: the reply taken from the slot, or an error. -/
structure Result where
  caller : TaskId
  request : Request
  value : Option Slot

structure State where
  endpoints : EndpointId → Option Endpoint
  nextEp : EndpointId
  replies : TaskId → Option (Option Slot)
  ticks : Nat
  status : TaskId → Status
  pc : TaskId → Pc
  /-- Messages that the task has received and not let go of. -/
  held : TaskId → List Stamped
  -- The rest is history that no task looks at.
  serial : Nat
  pushed : EndpointId → List Stamped
  removed : EndpointId → List (TaskId × Stamped)
  returned : EndpointId → List (TaskId × Stamped)
  results : List Result

/-- After `init`, with all tasks in their own code. -/
def State.initial : State where
  endpoints _ := none
  nextEp := 1
  replies _ := none
  ticks := 0
  status _ := .ready
  pc _ := .idle
  held _ := []
  serial := 0
  pushed _ := []
  removed _ := []
  returned _ := []
  results := []

namespace State

variable (s : State)

def queue (ep : EndpointId) : List Stamped := ((s.endpoints ep).map Endpoint.queue).getD []

def waiters (ep : EndpointId) : List TaskId := ((s.endpoints ep).map Endpoint.waiters).getD []

def goto (t : TaskId) (pc : Pc) : State := { s with pc := Function.update s.pc t pc }

def setEndpoint (ep : EndpointId) (endpoint : Endpoint) : State :=
  { s with endpoints := Function.update s.endpoints ep (some endpoint) }

def setSlot (t : TaskId) (slot : Option Slot) : State :=
  { s with replies := Function.update s.replies t (some slot) }

def removeSlot (t : TaskId) : State := { s with replies := Function.update s.replies t none }

def block (t : TaskId) : State := { s with status := Function.update s.status t .blocked }

def unblock (t : TaskId) : State :=
  { s with status := if s.status t = .blocked then Function.update s.status t .ready else s.status }

def stamp (t : TaskId) (message : Message) : Stamped := ⟨s.serial, { message with sender := t }⟩

/-- `queue.push_back(msg); waiters.pop_front()`. A missing endpoint drops the message. -/
def push (ep : EndpointId) (stamped : Stamped) : State × Option TaskId :=
  match s.endpoints ep with
  | none => ({ s with serial := s.serial + 1 }, none)
  | some endpoint =>
    let endpoint' := { queue := endpoint.queue ++ [stamped], waiters := endpoint.waiters.tail : Endpoint }
    ({ s.setEndpoint ep endpoint' with
        serial := s.serial + 1
        pushed := Function.update s.pushed ep (s.pushed ep ++ [stamped]) },
      endpoint.waiters.head?)

/-- `queue.pop_front()`. -/
def pop (t : TaskId) (ep : EndpointId) : Option (Stamped × State) :=
  match s.endpoints ep with
  | none => none
  | some endpoint =>
    match endpoint.queue with
    | [] => none
    | stamped :: rest =>
      some (stamped, { s.setEndpoint ep { endpoint with queue := rest } with
        removed := Function.update s.removed ep (s.removed ep ++ [(t, stamped)]) })

/-- `receive` returns to its caller. -/
def receiveReturn (t : TaskId) (ep : EndpointId) (stamped : Stamped) : State :=
  { s.goto t .idle with
    held := Function.update s.held t (stamped :: s.held t)
    returned := Function.update s.returned ep (s.returned ep ++ [(t, stamped)]) }

/-- `waiters.retain(|&w| w != me); waiters.push_back(me)`. -/
def register (t : TaskId) (ep : EndpointId) : State :=
  match s.endpoints ep with
  | none => s
  | some endpoint => s.setEndpoint ep { endpoint with waiters := endpoint.waiters.filter (· ≠ t) ++ [t] }

/-- `call` returns to its caller. -/
def callReturn (t : TaskId) (request : Request) (value : Option Slot) : State :=
  { (s.removeSlot t).goto t .idle with results := s.results ++ [⟨t, request, value⟩] }

def advance (t : TaskId) : Pc → Option State
  | .idle => none
  | .receivePop ep =>
    match s.pop t ep with
    | some (stamped, s') => some (s'.receiveReturn t ep stamped)
    | none => some (s.goto t (.receiveRegister ep))
  | .receiveRegister ep =>
    match s.pop t ep with
    | some (stamped, s') => some ((s'.setSlot t (some (.parked stamped))).goto t (.receiveBlock ep))
    | none => some ((s.register t ep).goto t (.receiveBlock ep))
  | .receiveBlock ep =>
    -- The slot is only tested for a message, and removed: what was parked there is dropped.
    match s.replies t with
    | some (some _) => some ((s.removeSlot t).goto t (.receivePop ep))
    | _ => some (((s.removeSlot t).block t).goto t (.receivePop ep))
  | .sendWake waiter => some ((s.unblock waiter).goto t .idle)
  | .replyWake caller => some ((s.unblock caller).goto t .idle)
  | .callWake request waiter => some ((s.unblock waiter).goto t (.callDeadline request))
  | .callDeadline request => some (s.goto t (.callPoll request (s.ticks + 500)))
  | .callPoll request deadline =>
    match s.replies t with
    | some (some slot) => some (s.callReturn t request (some slot))
    | _ => some (s.goto t (.callTimeout request deadline))
  | .callTimeout request deadline =>
    if deadline ≤ s.ticks then some (s.goto t (.callExpire request))
    else some (s.goto t (.callBlock request deadline))
  | .callExpire request => some (s.callReturn t request none)
  | .callBlock request deadline => some ((s.block t).goto t (.callPoll request deadline))

def send (t : TaskId) (ep : EndpointId) (message : Message) : State :=
  match s.push ep (s.stamp t message) with
  | (s', some waiter) => s'.goto t (.sendWake waiter)
  | (s', none) => s'

def call (t : TaskId) (ep : EndpointId) (message : Message) : State :=
  match (s.setSlot t none).push ep (s.stamp t message) with
  | (s', some waiter) => s'.goto t (.callWake ⟨ep, s.serial⟩ waiter)
  | (s', none) => s'.goto t (.callDeadline ⟨ep, s.serial⟩)

/-- The first section of `reply`: the reply goes to the slot of the original's sender, if there is one. -/
def reply (t : TaskId) (original : Stamped) (message : Message) : State :=
  let caller := original.message.sender
  if (s.replies caller).isSome then
    (s.setSlot caller (some (.reply original.serial { message with sender := t }))).goto t (.replyWake caller)
  else s

end State

inductive Action where
  | tick
  | create (t : TaskId)
  | send (t : TaskId) (ep : EndpointId) (message : Message)
  | receive (t : TaskId) (ep : EndpointId)
  | call (t : TaskId) (ep : EndpointId) (message : Message)
  | reply (t : TaskId) (position : Nat) (message : Message)
  /-- Let go of the message at a position of the held messages. -/
  | discard (t : TaskId) (position : Nat)
  /-- `do_exit`. -/
  | exit (t : TaskId)
  /-- `terminate_task` on another task; unlike `do_exit` it leaves the victim's reply slot. -/
  | kill (t : TaskId) (victim : TaskId)
  | advance (t : TaskId)

def State.Free (s : State) (t : TaskId) : Prop := s.status t = .ready ∧ s.pc t = .idle

instance (s : State) (t : TaskId) : Decidable (s.Free t) := by unfold State.Free; infer_instance

def step (s : State) : Action → Option State
  | .tick => some { s with ticks := s.ticks + 1 }
  | .create t =>
    if s.Free t then some { s.setEndpoint s.nextEp {} with nextEp := s.nextEp + 1 } else none
  | .send t ep message => if s.Free t then some (s.send t ep message) else none
  | .receive t ep => if s.Free t then some (s.goto t (.receivePop ep)) else none
  | .call t ep message => if s.Free t then some (s.call t ep message) else none
  | .reply t position message =>
    if s.Free t then (s.held t)[position]?.map fun original => s.reply t original message else none
  | .discard t position =>
    if s.Free t then some { s with held := Function.update s.held t ((s.held t).eraseIdx position) } else none
  | .exit t =>
    if s.Free t then some { s.removeSlot t with status := Function.update s.status t .dead } else none
  | .kill t victim =>
    if s.Free t ∧ victim ≠ t ∧ s.status victim ≠ .dead then
      some { s with status := Function.update s.status victim .dead }
    else none
  | .advance t => if s.status t = .ready then s.advance t (s.pc t) else none

abbrev Reachable (s : State) : Prop := Shared.Machine.Reaches step (fun _ _ => True) .initial s

end PickleOS.Ipc
