import PickleOS.Ipc.Model
import PickleOS.Shared.Locks
import Mathlib.Data.List.Basic

set_option autoImplicit false

/-!
# The locks behind the endpoints

The sections of the operations as one processor runs them, each with the locks that it takes, in the
order it takes them. A timer interrupt comes between two sections only, since a lock is held with
interrupts off.
-/

namespace PickleOS.Ipc.Locking

open Shared Shared.Locks Shared.Machine Shared.Outcome

inductive Lock where
  /-- `SCHEDULER` in `task.rs`. -/
  | scheduler
  /-- `KERNEL_CR3` in `task.rs`. -/
  | kernelCr3
  /-- `STATE` in `ipc.rs`. -/
  | state
  deriving DecidableEq

inductive Ring where
  | kernel
  | user
  deriving DecidableEq

structure Task where
  id : TaskId
  ring : Ring

structure Kernel where
  tasks : List Task
  current : Fin tasks.length
  ipc : State
  /-- Ghost: the tasks that have called `schedule`. -/
  scheduled : List TaskId

namespace Kernel

variable (k : Kernel)

def running : Task := k.tasks.get k.current

def goto (pc : Pc) : Kernel := { k with ipc := k.ipc.goto k.running.id pc }

/-- The slots in the order in which `schedule` looks at them, the running task's own slot last. -/
def slots : List (Fin k.tasks.length) :=
  (List.range k.tasks.length).map fun n => ⟨(k.current + 1 + n) % k.tasks.length,
  Nat.mod_lt _ (Fin.pos k.current)⟩

def next : Option (Fin k.tasks.length) :=
  (k.slots.find? fun i => k.ipc.status (k.tasks.get i).id = .ready).filter (· ≠ k.current)

def switch : Kernel :=
  match k.next with
  | some i => { k with current := i }
  | none => k

end Kernel

abbrev Code (α : Type) := Locks.Code Lock Kernel α

def ipc {α : Type} (f : State → α × State) : Code α :=
  access fun k => ((f k.ipc).1, { k with ipc := (f k.ipc).2 })

def update (f : Kernel → Kernel) : Code Unit := access fun k => ((), f k)

/-- `scheduler::with`. -/
def schedulerWith {α : Type} (body : Code α) : Code α := withLock .scheduler body

def withState {α : Type} (body : Code α) : Code α := withLock .state body

def currentId : Code TaskId := schedulerWith (access fun k => (k.running.id, k))

def unblock (id : TaskId) : Code Unit := schedulerWith (ipc fun s => ((), s.unblock id))

def schedule : Code Unit := do
  update fun k => { k with scheduled := k.running.id :: k.scheduled }
  schedulerWith do
    let switched ← access fun k => (k.next.isSome, k.switch)
    let ring ← access fun k => (k.running.ring, k)
    -- A kernel task runs in the kernel's own address space, whose CR3 has a lock too.
    if switched ∧ ring = .kernel then withLock .kernelCr3 (return)

/-- `send`, up to the call of `unblock`. -/
def send (ep : EndpointId) (message : Message) : Code Unit := do
  let me ← currentId
  let woke ← withState (ipc fun s =>
    let pushed := s.push ep (s.stamp me message)
    (pushed.2, pushed.1))
  match woke with
  | some waiter => update (·.goto (.sendWake waiter))
  | none => return

/-- `call`, up to the call of `unblock`. -/
def call (ep : EndpointId) (message : Message) : Code Unit := do
  let me ← currentId
  let (request, woke) ← withState (ipc fun s =>
    let pushed := (s.setSlot me none).push ep (s.stamp me message)
    ((⟨ep, s.serial⟩, pushed.2), pushed.1))
  match woke with
  | some waiter => update (·.goto (.callWake request waiter))
  | none => update (·.goto (.callDeadline request))

/-- `reply`, up to the call of `unblock`. -/
def reply (original : Stamped) (message : Message) : Code Unit := do
  let me ← currentId
  let caller := original.message.sender
  let shouldWake ← withState (ipc fun s =>
    if (s.replies caller).isSome then
      (true, s.setSlot caller (some (.reply original.serial { message with sender := me })))
    else (false, s))
  if shouldWake then update (·.goto (.replyWake caller))

/-- `queue.pop_front()` of the endpoint, if it is there. -/
def pop (me : TaskId) (ep : EndpointId) : Code (Option Stamped) :=
  ipc fun s =>
    match s.pop me ep with
    | some (stamped, s') => (some stamped, s')
    | none => (none, s)

/-- The first look of `receive` at the queue. -/
def receivePop (ep : EndpointId) : Code Unit := do
  let me ← access fun k => (k.running.id, k)
  match ← withState (pop me ep) with
  | some stamped => ipc fun s => ((), s.receiveReturn me ep stamped)
  | none => update (·.goto (.receiveRegister ep))

/-- The second look, after which the task is a waiter. -/
def receiveRegister (ep : EndpointId) : Code Unit := do
  let me ← currentId
  withState do
    match ← pop me ep with
    | some stamped => ipc fun s => ((), s.setSlot me (some (.parked stamped)))
    | none => ipc fun s => ((), s.register me ep)
  update (·.goto (.receiveBlock ep))

/-- The closure that is to block the task runs under the scheduler's lock, and looks for a parked message
in it. -/
def receiveBlock (ep : EndpointId) : Code Unit := do
  let shouldLoop ← schedulerWith do
    let hasReply ← withState do
      let me ← currentId
      ipc fun s => (((s.replies me).join).isSome, s.removeSlot me)
    if hasReply then return false
    update fun k => { k with ipc := k.ipc.block k.running.id }
    return true
  update (·.goto (.receivePop ep))
  if shouldLoop then schedule

/-- One turn of the loop of `call`. -/
def callPoll (request : Request) (deadline : Nat) : Code Unit := do
  let me ← access fun k => (k.running.id, k)
  let reply ← withState (ipc fun s =>
    match s.replies me with
    | some (some slot) => (some slot, s.removeSlot me)
    | _ => (none, s))
  match reply with
  | some slot => ipc fun s => ((), s.callReturn me request (some slot))
  | none => update (·.goto (.callTimeout request deadline))

def callExpire (request : Request) : Code Unit := do
  let me ← access fun k => (k.running.id, k)
  withState (ipc fun s => ((), s.removeSlot me))
  ipc fun s => ((), s.callReturn me request none)

def callBlock (request : Request) (deadline : Nat) : Code Unit := do
  schedulerWith (update fun k => { k with ipc := k.ipc.block k.running.id })
  update (·.goto (.callPoll request deadline))
  schedule

def advance : Pc → Code Unit
  | .idle => return
  | .receivePop ep => receivePop ep
  | .receiveRegister ep => receiveRegister ep
  | .receiveBlock ep => receiveBlock ep
  | .sendWake waiter => do
    unblock waiter
    update (·.goto .idle)
  | .replyWake caller => do
    unblock caller
    update (·.goto .idle)
  | .callWake request waiter => do
    unblock waiter
    update (·.goto (.callDeadline request))
  | .callDeadline request => update fun k => k.goto (.callPoll request (k.ipc.ticks + 500))
  | .callPoll request deadline => callPoll request deadline
  | .callTimeout request deadline =>
    update fun k => k.goto (if deadline ≤ k.ipc.ticks then .callExpire request else .callBlock request deadline)
  | .callExpire request => callExpire request
  | .callBlock request deadline => callBlock request deadline

/-- What happens next: the timer interrupt, or something that the running task does. -/
inductive Action where
  | tick
  | create
  | send (ep : EndpointId) (message : Message)
  | receive (ep : EndpointId)
  | call (ep : EndpointId) (message : Message)
  | reply (position : Nat) (message : Message)
  | unblock (id : TaskId)
  | schedule
  | advance

def code (k : Kernel) : Action → Option (Code Unit)
  | .tick => some do
    ipc fun s => ((), { s with ticks := s.ticks + 1 })
    schedule
  | .advance => if k.ipc.pc k.running.id = .idle then none else some (advance (k.ipc.pc k.running.id))
  | a =>
    if k.ipc.pc k.running.id ≠ .idle then none else
    match a with
    | .create => some (withState (ipc fun s => ((), { s.setEndpoint s.nextEp {} with nextEp := s.nextEp + 1 })))
    | .send ep message => some (send ep message)
    | .receive ep => some (update (·.goto (.receivePop ep)))
    | .call ep message => some (call ep message)
    | .reply position message => (k.ipc.held k.running.id)[position]?.map fun original => reply original message
    | .unblock id => some (unblock id)
    | .schedule => some schedule
    | _ => none

/-- The processor, with the lock that it spins on. -/
structure Machine where
  cpu : Cpu Lock Kernel
  spinning : Option Lock

/-- All tasks in their own code, with the endpoints as after `init`. -/
def Machine.initial (tasks : List Task) (current : Fin tasks.length) : Machine where
  cpu := { held := [], shared := { tasks := tasks, current := current, ipc := .initial, scheduled := [] } }
  spinning := none

def step (m : Machine) (a : Action) : Option Machine :=
  -- Interrupts are off while it spins, so this is the end.
  if m.spinning.isSome then none else
  (code m.cpu.shared a).map fun code =>
    match code m.cpu with
    | .ok _ cpu => { cpu := cpu, spinning := none }
    | .error lock cpu => { cpu := cpu, spinning := some lock }

section Sections

variable (k : Kernel)

/-- A section that returns leaves no lock behind, and does to the endpoints what `s` says. -/
def Leaves (s : State) (_ : Unit) (last : Cpu Lock Kernel) : Prop := last.held = [] ∧ last.shared.ipc = s

/-- The same for a section that does not call `schedule`. -/
def Does (s : State) (_ : Unit) (last : Cpu Lock Kernel) : Prop := last = ⟨[], { k with ipc := s }⟩

variable {k}

theorem Does.leaves {s : State} {last : Cpu Lock Kernel} (does : Does k s () last) : Leaves s () last := by
  rw [Does] at does
  simp [Leaves, does]

@[simp] theorem switch_ipc : k.switch.ipc = k.ipc := by
  unfold Kernel.switch
  split <;> rfl

theorem schedule_ends : Ends schedule ⟨[], k⟩ (Leaves k.ipc) fun _ _ => False := by
  simp only [schedule, update, schedulerWith, ends_bind, ends_access, ends_withLock]
  split
  · contradiction
  · split <;> simp [Leaves]

theorem currentId_ends (returns : TaskId → Cpu Lock Kernel → Prop) (fails : Lock → Cpu Lock Kernel → Prop)
    (held : List Lock)
    (free : .scheduler ∉ held) : Ends currentId ⟨held, k⟩ returns fails ↔ returns k.running.id ⟨held, k⟩ := by
  simp [currentId, schedulerWith, free]

theorem unblock_ends (id : TaskId) : Ends (unblock id) ⟨[], k⟩ (Does k (k.ipc.unblock id)) fun _ _ =>
    False := by
  simp [unblock, schedulerWith, ipc, Does]

theorem send_ends (ep : EndpointId) (message : Message) :
    Ends (send ep message) ⟨[], k⟩ (Does k (k.ipc.send k.running.id ep message)) fun _ _ => False := by
  simp only [send, withState, ipc, update, ends_bind, currentId_ends, List.not_mem_nil, not_false_eq_true,
    ends_withLock,
    if_false, ends_access, List.erase_cons_head, State.send]
  rcases k.ipc.push ep (k.ipc.stamp k.running.id message) with ⟨pushed, _ | waiter⟩
  · simp [Does]
  · simp [Does, Kernel.goto, Kernel.running]

theorem call_ends (ep : EndpointId) (message : Message) :
    Ends (call ep message) ⟨[], k⟩ (Does k (k.ipc.call k.running.id ep message)) fun _ _ => False := by
  simp only [call, withState, ipc, update, ends_bind, currentId_ends, List.not_mem_nil, not_false_eq_true,
    ends_withLock,
    if_false, ends_access, List.erase_cons_head, State.call]
  rcases (k.ipc.setSlot k.running.id none).push ep (k.ipc.stamp k.running.id message) with ⟨pushed, _ | waiter⟩
  · simp [Does, Kernel.goto, Kernel.running]
  · simp [Does, Kernel.goto, Kernel.running]

theorem reply_ends (original : Stamped) (message : Message) :
    Ends (reply original message) ⟨[], k⟩ (Does k (k.ipc.reply k.running.id original message)) fun _ _ =>
      False := by
  simp only [reply, withState, ipc, update, ends_bind, currentId_ends, List.not_mem_nil,
    not_false_eq_true, ends_withLock,
    if_false, ends_access, List.erase_cons_head, State.reply]
  cases (k.ipc.replies original.message.sender).isSome with
  | false => simp [Does]
  | true => simp [Does, Kernel.goto, Kernel.running]

theorem receivePop_ends (ep : EndpointId) :
    Ends (receivePop ep) ⟨[], k⟩ (fun u last => ∃ s,
      k.ipc.advance k.running.id (.receivePop ep) = some s ∧ Does k s u last)
      fun _ _ => False := by
  simp only [receivePop, withState, pop, ipc, update, ends_bind, ends_withLock, List.not_mem_nil,
    if_false, ends_access,
    List.erase_cons_head, State.advance]
  cases k.ipc.pop k.running.id ep with
  | none => simp [Does, Kernel.goto, Kernel.running]
  | some popped => simp [Does]

theorem receiveRegister_ends (ep : EndpointId) :
    Ends (receiveRegister ep) ⟨[], k⟩
      (fun u last => ∃ s, k.ipc.advance k.running.id (.receiveRegister ep) = some s ∧ Does k s u last)
      fun _ _ => False := by
  simp only [receiveRegister, withState, pop, ipc, update, ends_bind, currentId_ends, List.not_mem_nil,
    not_false_eq_true,
    ends_withLock, if_false, ends_access, State.advance]
  cases k.ipc.pop k.running.id ep with
  | none => simp [Does, Kernel.goto, Kernel.running]
  | some popped => simp [Does, Kernel.goto, Kernel.running]

theorem receiveBlock_ends (ep : EndpointId) :
    Ends (receiveBlock ep) ⟨[], k⟩ (fun _ _ => False) fun lock last => lock = .scheduler ∧ last.shared = k := by
  -- The lock that `current_id` wants is the one that the closure runs under.
  simp [receiveBlock, schedulerWith, withState, currentId]

theorem callPoll_ends (request : Request) (deadline : Nat) :
    Ends (callPoll request deadline) ⟨[], k⟩
      (fun u last => ∃ s, k.ipc.advance k.running.id (.callPoll request deadline) = some s ∧ Does k s u last)
      fun _ _ => False := by
  simp only [callPoll, withState, ipc, update, ends_bind, ends_withLock, List.not_mem_nil, if_false,
    ends_access,
    List.erase_cons_head, State.advance]
  rcases k.ipc.replies k.running.id with _ | _ | slot
  · simp [Does, Kernel.goto, Kernel.running]
  · simp [Does, Kernel.goto, Kernel.running]
  · simp [Does, State.callReturn, State.removeSlot, State.goto]

theorem callExpire_ends (request : Request) :
    Ends (callExpire request) ⟨[], k⟩ (Does k (k.ipc.callReturn k.running.id request none)) fun _ _ =>
      False := by
  simp [callExpire, withState, ipc, Does, State.callReturn, State.removeSlot, State.goto]

theorem callBlock_ends (request : Request) (deadline : Nat) :
    Ends (callBlock request deadline) ⟨[], k⟩
      (Leaves ((k.ipc.block k.running.id).goto k.running.id (.callPoll request deadline))) fun _ _ =>
        False := by
  simp only [callBlock, schedulerWith, update, ends_bind, ends_withLock, List.not_mem_nil, if_false,
    ends_access,
    List.erase_cons_head]
  exact schedule_ends

theorem advance_ends {pc : Pc} (inside : pc ≠ .idle) (unblocked : ∀ ep, pc ≠ .receiveBlock ep) :
    Ends (advance pc) ⟨[], k⟩ (fun u last => ∃ s, k.ipc.advance k.running.id pc = some s ∧ Leaves s u last)
      fun _ _ => False := by
  -- What a section other than the last one of `receive`'s slow path does is what the endpoints' model says.
  cases pc with
  | idle => contradiction
  | receiveBlock ep => exact absurd rfl (unblocked ep)
  | receivePop ep =>
    refine (receivePop_ends ep).imp ?_ fun _ _ => id
    rintro _ last ⟨s, taken, does⟩
    exact ⟨s, taken, does.leaves⟩
  | receiveRegister ep =>
    refine (receiveRegister_ends ep).imp ?_ fun _ _ => id
    rintro _ last ⟨s, taken, does⟩
    exact ⟨s, taken, does.leaves⟩
  | sendWake waiter =>
    simp [advance, unblock, schedulerWith, ipc, update, State.advance, Leaves, Kernel.goto, Kernel.running]
  | replyWake caller =>
    simp [advance, unblock, schedulerWith, ipc, update, State.advance, Leaves, Kernel.goto, Kernel.running]
  | callWake request waiter =>
    simp [advance, unblock, schedulerWith, ipc, update, State.advance, Leaves, Kernel.goto, Kernel.running]
  | callDeadline request => simp [advance, update, State.advance, Leaves, Kernel.goto]
  | callPoll request deadline =>
    refine (callPoll_ends request deadline).imp ?_ fun _ _ => id
    rintro _ last ⟨s, taken, does⟩
    exact ⟨s, taken, does.leaves⟩
  | callTimeout request deadline =>
    by_cases late : deadline ≤ k.ipc.ticks
    · simp [advance, update, State.advance, Leaves, Kernel.goto, late]
    · simp [advance, update, State.advance, Leaves, Kernel.goto, late]
  | callExpire request =>
    refine (callExpire_ends request).imp ?_ fun _ _ => id
    intro _ last does
    exact ⟨_, rfl, does.leaves⟩
  | callBlock request deadline =>
    refine (callBlock_ends request deadline).imp ?_ fun _ _ => id
    intro _ last leaves
    exact ⟨_, rfl, leaves⟩

inductive Follows (k : Kernel) : Action → State → Prop
  | tick : Follows k .tick { k.ipc with ticks := k.ipc.ticks + 1 }
  | create : Follows k .create { k.ipc.setEndpoint k.ipc.nextEp {} with nextEp := k.ipc.nextEp + 1 }
  | send (ep : EndpointId) (message : Message) :
    Follows k (.send ep message) (k.ipc.send k.running.id ep message)
  | receive (ep : EndpointId) : Follows k (.receive ep) (k.ipc.goto k.running.id (.receivePop ep))
  | call (ep : EndpointId) (message : Message) :
    Follows k (.call ep message) (k.ipc.call k.running.id ep message)
  | reply {position : Nat} {original : Stamped} (message : Message)
      (held : (k.ipc.held k.running.id)[position]? = some original) :
      Follows k (.reply position message) (k.ipc.reply k.running.id original message)
  | unblock (id : TaskId) : Follows k (.unblock id) (k.ipc.unblock id)
  | schedule : Follows k .schedule k.ipc
  | advance {s : State} (taken : k.ipc.advance k.running.id (k.ipc.pc k.running.id) = some s) :
    Follows k .advance s

/-- The running task goes on to the last section of `receive`'s slow path. -/
def Blocks (k : Kernel) (a : Action) : Prop := a = .advance ∧ ∃ ep, k.ipc.pc k.running.id = .receiveBlock ep

theorem code_ends {a : Action} {c : Code Unit} (issued : code k a = some c) (fine : ¬Blocks k a) :
    Ends c ⟨[], k⟩ (fun _ last => last.held = [] ∧ Follows k a last.shared.ipc) fun _ _ => False := by
  have returned : ∀ {c : Code Unit} {s : State}, Ends c ⟨[], k⟩ (Does k s) (fun _ _ => False) → Follows k a s →
      Ends c ⟨[], k⟩ (fun _ last => last.held = [] ∧ Follows k a last.shared.ipc) fun _ _ => False := by
    intro c s ends follows
    refine ends.imp ?_ fun _ _ => id
    rintro _ last does
    rw [does.leaves.2]
    exact ⟨does.leaves.1, follows⟩
  cases a with
  | advance =>
    simp only [code, Option.ite_none_left_eq_some, Option.some.injEq] at issued
    obtain ⟨inside, rfl⟩ := issued
    refine (advance_ends inside fun ep here => fine ⟨rfl, ep, here⟩).imp ?_ fun _ _ => id
    rintro _ last ⟨s, taken, left, same⟩
    rw [same]
    exact ⟨left, .advance taken⟩
  | tick =>
    cases issued
    simp only [ipc, ends_bind, ends_access]
    refine schedule_ends.imp ?_ fun _ _ => id
    rintro _ last ⟨left, same⟩
    rw [same]
    exact ⟨left, .tick⟩
  | schedule =>
    simp only [code, ne_eq, ite_not, Option.ite_none_right_eq_some, Option.some.injEq] at issued
    obtain ⟨_, rfl⟩ := issued
    refine schedule_ends.imp ?_ fun _ _ => id
    rintro _ last ⟨left, same⟩
    rw [same]
    exact ⟨left, .schedule⟩
  | reply position message =>
    simp only [code, ne_eq, ite_not, Option.ite_none_right_eq_some, Option.map_eq_some_iff] at issued
    obtain ⟨_, original, held, rfl⟩ := issued
    exact returned (reply_ends original message) (.reply message held)
  | create =>
    simp only [code, ne_eq, ite_not, Option.ite_none_right_eq_some, Option.some.injEq] at issued
    obtain ⟨_, rfl⟩ := issued
    refine returned ?_ .create
    simp [withState, ipc, Does]
  | send ep message =>
    simp only [code, ne_eq, ite_not, Option.ite_none_right_eq_some, Option.some.injEq] at issued
    obtain ⟨_, rfl⟩ := issued
    exact returned (send_ends ep message) (.send ep message)
  | receive ep =>
    simp only [code, ne_eq, ite_not, Option.ite_none_right_eq_some, Option.some.injEq] at issued
    obtain ⟨_, rfl⟩ := issued
    refine returned ?_ (.receive ep)
    simp [update, Does, Kernel.goto]
  | call ep message =>
    simp only [code, ne_eq, ite_not, Option.ite_none_right_eq_some, Option.some.injEq] at issued
    obtain ⟨_, rfl⟩ := issued
    exact returned (call_ends ep message) (.call ep message)
  | unblock id =>
    simp only [code, ne_eq, ite_not, Option.ite_none_right_eq_some, Option.some.injEq] at issued
    obtain ⟨_, rfl⟩ := issued
    exact returned (unblock_ends id) (.unblock id)

end Sections

theorem step_follows {m m' : Machine} {a : Action} (clear : m.cpu.held = []) (fine : ¬Blocks m.cpu.shared a)
    (taken : step m a = some m') : m'.spinning = none ∧ m'.cpu.held = [] ∧
      Follows m.cpu.shared a m'.cpu.shared.ipc := by
  obtain ⟨⟨held, k⟩, spinning⟩ := m
  cases clear
  simp only [step, Option.ite_none_left_eq_some, Option.map_eq_some_iff] at taken
  obtain ⟨-, c, issued, result⟩ := taken
  obtain ⟨_, cpu, returned, left, follows⟩ := (code_ends issued fine).ok_of_never
  rw [returned] at result
  cases result
  exact ⟨rfl, left, follows⟩

theorem step_blocks {m : Machine} (ep : EndpointId) (clear : m.cpu.held = []) (here : m.spinning = none)
    (blocks : m.cpu.shared.ipc.pc m.cpu.shared.running.id = .receiveBlock ep) :
    ∃ m', step m .advance = some m' ∧ m'.spinning = some .scheduler ∧ m'.cpu.shared = m.cpu.shared := by
  obtain ⟨⟨held, k⟩, spinning⟩ := m
  cases clear
  cases here
  have issued : code k .advance = some (receiveBlock ep) := by
    dsimp only at blocks
    simp [code, blocks, advance]
  have ends := receiveBlock_ends (k := k) ep
  unfold Ends at ends
  cases result : receiveBlock ep ⟨[], k⟩ with
  | ok value last => simp [result] at ends
  | error lock last =>
    simp only [result] at ends
    obtain ⟨rfl, same⟩ := ends
    refine ⟨{ cpu := last, spinning := some .scheduler }, ?_, rfl, same⟩
    simp [step, issued, result]

/-- No task is past the first look of a `receive`. -/
def Looks (s : State) : Prop := ∀ t ep, s.pc t ≠ .receiveRegister ep ∧ s.pc t ≠ .receiveBlock ep

/-- The message is there when the running task looks for it with `receive`. -/
def findsMessage (m : Machine) (a : Action) : Bool :=
  match a, m.cpu.shared.ipc.pc m.cpu.shared.running.id with
  | .advance, .receivePop ep => !(m.cpu.shared.ipc.queue ep).isEmpty
  | _, _ => true

theorem push_pc (s : State) (ep : EndpointId) (x : Stamped) : (s.push ep x).1.pc = s.pc := by
  unfold State.push
  split <;> rfl

theorem unblock_pc (s : State) (t : TaskId) : (s.unblock t).pc = s.pc := rfl

theorem pop_pc {s s' : State} {t : TaskId} {ep : EndpointId}
    {x : Stamped} (popped : s.pop t ep = some (x, s')) :
    s'.pc = s.pc := by
  unfold State.pop at popped
  split at popped
  · cases popped
  · split at popped
    · cases popped
    · cases popped
      rfl

theorem pop_some {s : State} {ep : EndpointId} (t : TaskId) (filled : s.queue ep ≠ []) :
    ∃ x s', s.pop t ep = some (x, s') := by
  unfold State.pop
  cases present : s.endpoints ep with
  | none => simp [State.queue, present] at filled
  | some endpoint =>
    cases queued : endpoint.queue with
    | nil => simp [State.queue, present, queued] at filled
    | cons x rest => simp [queued]

theorem pop_none {s : State} {ep : EndpointId} (t : TaskId) (empty : s.queue ep = []) : s.pop t ep = none := by
  unfold State.pop
  cases present : s.endpoints ep with
  | none => rfl
  | some endpoint =>
    have queued : endpoint.queue = [] := by simpa [State.queue, present] using empty
    simp [queued]

theorem Looks.goto {s : State} (looks : Looks s) (t : TaskId) {pc : Pc}
    (outside : ∀ ep, pc ≠ .receiveRegister ep ∧ pc ≠ .receiveBlock ep) : Looks (s.goto t pc) := by
  intro u ep
  by_cases own : u = t
  · subst own
    simpa [State.goto] using outside ep
  · simpa [State.goto, own] using looks u ep

theorem Looks.of_pc {s s' : State} (looks : Looks s) (same : s'.pc = s.pc) : Looks s' := by
  intro t ep
  rw [same]
  exact looks t ep

theorem Looks.send {s : State} (looks : Looks s) (t : TaskId) (ep : EndpointId) (message : Message) :
    Looks (s.send t ep message) := by
  have pushed := looks.of_pc (push_pc s ep (s.stamp t message))
  unfold State.send
  split <;> rename_i result <;> rw [result] at pushed
  · exact pushed.goto t (by simp)
  · exact pushed

theorem Looks.call {s : State} (looks : Looks s) (t : TaskId) (ep : EndpointId) (message : Message) :
    Looks (s.call t ep message) := by
  have pushed : Looks ((s.setSlot t none).push ep (s.stamp t message)).1 := looks.of_pc (push_pc _ _ _)
  unfold State.call
  split <;> rename_i result <;> rw [result] at pushed
  · exact pushed.goto t (by simp)
  · exact pushed.goto t (by simp)

theorem Looks.advance {s s' : State} (looks : Looks s) (t : TaskId)
    (finds : ∀ ep, s.pc t = .receivePop ep → s.queue ep ≠ [])
    (taken : s.advance t (s.pc t) = some s') : Looks s' := by
  cases here : s.pc t with
  | idle => simp [here, State.advance] at taken
  | receiveRegister ep => exact absurd here (looks t ep).1
  | receiveBlock ep => exact absurd here (looks t ep).2
  | receivePop ep =>
    obtain ⟨x, s'', popped⟩ := pop_some t (finds ep here)
    simp only [here, State.advance, popped, Option.some.injEq] at taken
    rw [← taken]
    have idle : Looks (s''.goto t .idle) := (looks.of_pc (pop_pc popped)).goto t (by simp)
    exact idle.of_pc rfl
  | sendWake waiter =>
    simp only [here, State.advance, Option.some.injEq] at taken
    exact taken ▸ (looks.of_pc (unblock_pc s waiter)).goto t (by simp)
  | replyWake caller =>
    simp only [here, State.advance, Option.some.injEq] at taken
    exact taken ▸ (looks.of_pc (unblock_pc s caller)).goto t (by simp)
  | callWake request waiter =>
    simp only [here, State.advance, Option.some.injEq] at taken
    exact taken ▸ (looks.of_pc (unblock_pc s waiter)).goto t (by simp)
  | callDeadline request =>
    simp only [here, State.advance, Option.some.injEq] at taken
    exact taken ▸ looks.goto t (by simp)
  | callPoll request deadline =>
    simp only [here, State.advance] at taken
    split at taken
    · cases taken
      exact (Looks.goto (s := s.removeSlot t) looks t (by simp)).of_pc rfl
    · cases taken
      exact looks.goto t (by simp)
  | callTimeout request deadline =>
    simp only [here, State.advance] at taken
    split at taken <;> cases taken <;> exact looks.goto t (by simp)
  | callExpire request =>
    simp only [here, State.advance, Option.some.injEq] at taken
    exact taken ▸ (Looks.goto (s := s.removeSlot t) looks t (by simp)).of_pc rfl
  | callBlock request deadline =>
    simp only [here, State.advance, Option.some.injEq] at taken
    exact taken ▸ Looks.goto (s := s.block t) looks t (by simp)

theorem Looks.follows {k : Kernel} {a : Action} {s : State} (looks : Looks k.ipc)
    (finds : a = .advance → ∀ ep, k.ipc.pc k.running.id = .receivePop ep → k.ipc.queue ep ≠ [])
    (follows : Follows k a s) :
    Looks s := by
  cases follows with
  | tick => exact looks
  | create => exact looks
  | send ep message => exact looks.send k.running.id ep message
  | receive ep => exact looks.goto k.running.id (by simp)
  | call ep message => exact looks.call k.running.id ep message
  | @reply position original message held =>
    simp only [State.reply]
    split
    · exact Looks.goto (s := k.ipc.setSlot _ _) looks k.running.id (by simp)
    · exact looks
  | unblock id => exact looks
  | schedule => exact looks
  | advance taken => exact looks.advance k.running.id (finds rfl) taken

/-- Nothing spins, and no lock outlives its section. -/
structure Orderly (m : Machine) : Prop where
  spinning : m.spinning = none
  held : m.cpu.held = []
  looks : Looks m.cpu.shared.ipc

theorem Orderly.step {m m' : Machine} {a : Action} (orderly : Orderly m) (finds : findsMessage m a)
    (taken : step m a = some m') :
    Orderly m' := by
  have fine : ¬Blocks m.cpu.shared a := fun ⟨_, ep, here⟩ => (orderly.looks _ ep).2 here
  obtain ⟨spinning, held, follows⟩ := step_follows orderly.held fine taken
  refine ⟨spinning, held, orderly.looks.follows ?_ follows⟩
  rintro rfl ep here
  simpa [findsMessage, here] using finds

theorem empty_spins {m : Machine} {ep : EndpointId} (held : m.cpu.held = []) (here : m.spinning = none)
    (receives : m.cpu.shared.ipc.pc m.cpu.shared.running.id = .receivePop ep)
    (empty : m.cpu.shared.ipc.queue ep = []) :
    ∃ m', run step m [.advance, .advance, .advance] = some m' ∧ m'.spinning = some .scheduler ∧
      m'.cpu.shared.scheduled = m.cpu.shared.scheduled := by
  -- A receiver that finds nothing goes through the slow path, if it runs on, and stops in it.
  obtain ⟨⟨_, k⟩, _⟩ := m
  cases held
  cases here
  dsimp only at receives empty
  let k₁ : Kernel := { k with ipc := k.ipc.goto k.running.id (.receiveRegister ep) }
  let k₂ : Kernel := { k with ipc := (k₁.ipc.register k.running.id ep).goto k.running.id (.receiveBlock ep) }
  -- The queue is as empty as it was, and the task still runs.
  have first : step ⟨⟨[], k⟩, none⟩ .advance = some ⟨⟨[], k₁⟩, none⟩ := by
    obtain ⟨_, cpu, returned, s, taken, does⟩ := (receivePop_ends (k := k) ep).ok_of_never
    simp only [State.advance, pop_none k.running.id empty, Option.some.injEq] at taken
    subst taken
    cases does
    simp [step, code, receives, advance, returned, k₁]
  have second : step ⟨⟨[], k₁⟩, none⟩ .advance = some ⟨⟨[], k₂⟩, none⟩ := by
    obtain ⟨_, cpu, returned, s, taken, does⟩ := (receiveRegister_ends (k := k₁) ep).ok_of_never
    have registers : k₁.ipc.pc k₁.running.id = .receiveRegister ep := Function.update_self ..
    simp only [State.advance, pop_none k₁.running.id (s := k₁.ipc) empty, Option.some.injEq] at taken
    subst taken
    cases does
    simp only [step, code, registers, Option.isSome_none, Bool.false_eq_true, if_false, reduceCtorEq, advance,
      Option.map_some, returned]
    rfl
  obtain ⟨m', third, spins, same⟩ :=
    step_blocks (m := ⟨⟨[], k₂⟩, none⟩) ep rfl rfl (Function.update_self ..)
  exact ⟨m', by simp [run, first, second, third], spins, by rw [same]⟩

/-- As long as every receiver finds its message, no lock is taken by a processor that holds it. The first
receiver that finds none never gets to `schedule`: it spins on the scheduler's lock. -/
theorem locks_taken_once {tasks : List Task} {current : Fin tasks.length} {m : Machine}
    (reached : Reaches step (fun m a => findsMessage m a = true) (.initial tasks current) m) :
    m.spinning = none ∧ m.cpu.held = [] ∧
      ∀ ep, m.cpu.shared.ipc.pc m.cpu.shared.running.id = .receivePop ep → m.cpu.shared.ipc.queue ep = [] →
        ∃ m', run step m [.advance, .advance, .advance] = some m' ∧ m'.spinning = some .scheduler ∧
          m'.cpu.shared.scheduled = m.cpu.shared.scheduled := by
  have orderly : Orderly m := by
    refine reached.invariant ⟨rfl, rfl, ?_⟩ fun m a m' orderly finds taken => orderly.step finds taken
    intro t ep
    exact ⟨nofun, nofun⟩
  exact ⟨orderly.spinning, orderly.held, fun ep receives empty =>
    empty_spins orderly.held orderly.spinning receives empty⟩

/-- A user task runs, and a kernel task is ready. -/
def booted : Machine := .initial [⟨1, .user⟩, ⟨2, .kernel⟩] ⟨0, by decide⟩

theorem locks_taken_once_delivered :
    ∃ m, replay step (fun m a => findsMessage m a = true) booted
      [.create, .send 1 (.new 7), .tick, .receive 1, .advance, .schedule, .unblock 2] = some m ∧
        m.spinning = none := by
  obtain ⟨m, done⟩ := Option.isSome_iff_exists.mp (show (replay step (fun m a => findsMessage m a = true)
    booted [.create, .send 1 (.new 7), .tick, .receive 1, .advance, .schedule, .unblock 2]).isSome by decide)
  exact ⟨m, done, (locks_taken_once (Reaches.of_replay (fun _ _ => id) .start done)).1⟩

/-- A task waits for a message with `receive`. -/
theorem receive_spins :
    ∃ m, run step booted [.create, .receive 1, .advance, .advance, .advance] = some m ∧
      m.spinning = some .scheduler ∧ m.cpu.held = [.state, .scheduler] ∧ m.cpu.shared.scheduled = [] := by
  have result : (run step booted [.create, .receive 1, .advance, .advance, .advance]).map
      (fun m => (m.spinning, m.cpu.held, m.cpu.shared.scheduled)) =
        some (some .scheduler, [.state, .scheduler], []) := by
    decide
  simpa only [Option.map_eq_some_iff, Prod.mk.injEq] using result

end PickleOS.Ipc.Locking
