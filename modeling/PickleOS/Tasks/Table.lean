import PickleOS.Shared.Machine
import Mathlib.Data.List.Basic

set_option autoImplicit false

/-!
# The task table and the process tree

`do_exit`, `do_fork`, `do_wait` and `terminate_task` run with interrupts off up to their call of
`schedule`, so each of them is one step; `reap_orphans` is preempted between its sections.
-/

namespace PickleOS.Tasks

/-- `NEXT_ID` is an `AtomicU64`: ids are numbers, as long as fewer than 2^64 tasks have been made. -/
abbrev TaskId := Nat

inductive State where
  | runnable
  | running
  | blocked
  | zombie
  | dead
  deriving DecidableEq

inductive Ring where
  | kernel
  | user
  deriving DecidableEq

structure Task where
  id : TaskId
  state : State := .runnable
  ring : Ring
  userCr3 : Option UInt64
  parent : Option TaskId := none
  children : List TaskId := []
  exitStatus : Int32 := 0
  waitBlocked : Bool := false
  -- `signals.pending`.
  pending : UInt32 := 0
  deriving DecidableEq

/-- Where `reap_orphans` is. -/
inductive Reaping where
  | idle
  | children (ids : List TaskId)
  | zombies (ids : List TaskId)
  deriving DecidableEq

structure Scheduler where
  tasks : List Task
  current : Nat
  nextId : TaskId
  initTaskId : Option TaskId
  reaping : Reaping
  deriving DecidableEq

namespace Task

def ended (status : Int32) (t : Task) : Task :=
  { t with exitStatus := status, state := .zombie, children := [] }

/-- `SIGCHLD` is posted, and the sleep in `wait` is over. -/
def notified (t : Task) : Task :=
  { t with
    -- Bit 17 is `SIGCHLD`.
    pending := t.pending ||| 0x20000
    state := if t.state = .blocked ∧ t.waitBlocked then .runnable else t.state }

def reparented (reaper : Option TaskId) (t : Task) : Task := { t with parent := reaper }

def adopting (children : List TaskId) (t : Task) : Task := { t with children := t.children ++ children }

def without (child : TaskId) (t : Task) : Task := { t with children := t.children.filter (· ≠ child) }

def inState (state : State) (t : Task) : Task := { t with state := state }

def waiting (waits : Bool) (t : Task) : Task := { t with waitBlocked := waits }

end Task

/-- `iter_mut().find(|t| t.id == id)`, and a change of what it finds. -/
def modifyFirst (id : TaskId) (f : Task → Task) : List Task → List Task
  | [] => []
  | t :: rest => if t.id = id then f t :: rest else t :: modifyFirst id f rest

namespace Scheduler

def initial : Scheduler where
  tasks := []
  current := 0
  nextId := 0
  initTaskId := none
  reaping := .idle

variable (s : Scheduler)

def find (id : TaskId) : Option Task := s.tasks.find? fun t => t.id = id

def modify (id : TaskId) (f : Task → Task) : Scheduler := { s with tasks := modifyFirst id f s.tasks }

def me : Option Task := s.tasks[s.current]?

def modifyCurrent (f : Task → Task) : Scheduler := { s with tasks := s.tasks.modify s.current f }

def addTask (task : Task) : Scheduler :=
  match s.tasks.findIdx? fun t => t.state = .dead with
  | some i => { s with tasks := s.tasks.set i task }
  | none => { s with tasks := s.tasks ++ [task] }

/-- `spawn_kernel_task` and `spawn_user_from_entry`. -/
def spawn (ring : Ring) (userCr3 : Option UInt64) : Scheduler :=
  { s with nextId := s.nextId + 1 }.addTask { id := s.nextId, ring := ring, userCr3 := userCr3 }

def doFork (childCr3 : UInt64) : Scheduler :=
  match s.me with
  | none => s
  | some t =>
    match t.userCr3 with
    | none => s
    | some _ =>
      let child : Task := { id := s.nextId, ring := .user, userCr3 := some childCr3, parent := some t.id }
      ({ s with nextId := s.nextId + 1 }.addTask child).modify t.id (·.adopting [s.nextId])

def reparent (children : List TaskId) : Scheduler :=
  if children.isEmpty then s
  else
    let moved := children.foldl (fun u child => u.modify child (·.reparented s.initTaskId)) s
    match s.initTaskId with
    | some reaper => moved.modify reaper (·.adopting children)
    | none => moved

def notify (parent : Option TaskId) : Scheduler :=
  match parent with
  | some pid => s.modify pid (·.notified)
  | none => s

def doExit (status : Int32) : Scheduler :=
  match s.me with
  | none => s
  | some t => ((s.modifyCurrent (·.ended status)).reparent t.children).notify t.parent

def terminateTask (id : TaskId) (status : Int32) : Scheduler :=
  if s.me.map (·.id) = some id then s.doExit status
  else
    match s.find id with
    | none => s
    | some t =>
      if t.state = .zombie ∨ t.state = .dead then s
      else ((s.modify id (·.ended status)).reparent t.children).notify t.parent

/-- What the trampoline does when a task's entry returns. -/
def taskExitCurrent : Scheduler := s.modifyCurrent (·.inState .dead)

def isZombie (id : TaskId) : Bool := (s.find id).any fun t => t.state = .zombie

/-- One turn of the loop of `do_wait`. A task that is inside it has slept. -/
def doWait : Scheduler :=
  match s.me with
  | none => s
  | some t =>
    let s := s.modifyCurrent (·.waiting false)
    if t.children = [] then s
    else
      match t.children.find? s.isZombie with
      | some cid => (s.modifyCurrent (·.without cid)).modify cid (·.inState .dead)
      | none => s.modifyCurrent fun t => (t.waiting true).inState .blocked

/-- The next section of `reap_orphans`, which only init runs. -/
def reapOrphans : Scheduler :=
  match s.initTaskId with
  | none => s
  | some reaper =>
    match s.reaping with
    | .idle =>
      let children := ((s.find reaper).map (·.children)).getD []
      if children.isEmpty then s else { s with reaping := .children children }
    | .children ids => { s with reaping := .zombies (ids.filter s.isZombie) }
    | .zombies [] => { s with reaping := .idle }
    | .zombies (cid :: rest) =>
      { (s.modify reaper (·.without cid)).modify cid (·.inState .dead) with reaping := .zombies rest }

def unblock (id : TaskId) : Scheduler :=
  s.modify id fun t => if t.state = .blocked then t.inState .runnable else t

/-- `schedule`, which picks the task in slot `i`. -/
def switchTo (i : Nat) : Scheduler :=
  let demoted := s.modifyCurrent fun t => if t.state = .running then t.inState .runnable else t
  { demoted with tasks := demoted.tasks.modify i (·.inState .running), current := i }

end Scheduler

inductive Action where
  | spawnKernel
  | spawnUser (cr3 : UInt64)
  /-- `set_init_task` on a task that has just been spawned. -/
  | setInit (id : TaskId)
  | schedule (i : Nat)
  /-- A sleep in an IPC operation. -/
  | block
  | unblock (id : TaskId)
  | fork (childCr3 : UInt64)
  | exit (status : Int32)
  | kill (id : TaskId) (status : Int32)
  | wait
  | reapOrphans

namespace Scheduler

variable (s : Scheduler)

/-- The current task runs, and is not inside `do_wait`. -/
def acts : Bool := s.me.any fun t => t.state = .running ∧ ¬t.waitBlocked

end Scheduler

def step (s : Scheduler) : Action → Option Scheduler
  | .spawnKernel => some (s.spawn .kernel none)
  | .spawnUser cr3 => some (s.spawn .user (some cr3))
  | .setInit id =>
    if s.initTaskId = none ∧ (s.find id).any (fun t => t.state = .runnable ∧ t.parent = none) then
      some { s with initTaskId := some id }
    else none
  | .schedule i => if s.tasks[i]?.any (fun t => t.state = .runnable) then some (s.switchTo i) else none
  | .block => if s.acts then some (s.modifyCurrent (·.inState .blocked)) else none
  | .unblock id => some (s.unblock id)
  | .fork childCr3 => if s.acts then some (s.doFork childCr3) else none
  | .exit status => if s.acts then some (s.doExit status) else none
  | .kill id status => if s.acts then some (s.terminateTask id status) else none
  | .wait => if s.me.any fun t => t.state = .running then some s.doWait else none
  | .reapOrphans =>
    if s.acts ∧ s.initTaskId.isSome ∧ s.me.map (·.id) = s.initTaskId then some s.reapOrphans else none

abbrev Reachable (s : Scheduler) : Prop := Shared.Machine.Reaches step (fun _ _ => True) .initial s

end PickleOS.Tasks
