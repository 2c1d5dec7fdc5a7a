import PickleOS.Tasks.Tree
import PickleOS.Fs.Counts
import PickleOS.Ipc.Model
import PickleOS.Windows.Server

set_option autoImplicit false

/-!
# The ways for a task to end

What they do in the modules that hold something for a task, up to the call of `schedule`.
-/

namespace PickleOS.Tasks

open Shared

def Task.blank (t : Task) : Task := { t with state := .dead, exitStatus := 0 }

namespace Scheduler

def withCurrent (s : Scheduler) (i : Nat) : Scheduler := { s with current := i }

/-- The table without what the ways to end may differ in. -/
def apart (id : TaskId) (s : Scheduler) : Scheduler :=
  { s.modify id (·.blank) with current := 0 }

/-- Nobody waits for the task to end, and its parent has been told already. -/
def Heard (s : Scheduler) (e : Task) : Prop :=
  ∀ p q, e.parent = some p → s.find p = some q →
    q.pending ||| 0x20000 = q.pending ∧ ¬(q.state = .blocked ∧ q.waitBlocked)

end Scheduler

structure Kernel where
  scheduler : Scheduler
  vfs : Fs.Vfs
  -- The map of the IPC state, after `init`.
  replies : Map TaskId (Option Ipc.Message)
  wm : Windows.Wm

namespace Kernel

variable (k : Kernel)

def cleanupTaskFds (id : TaskId) : Kernel := { k with vfs := k.vfs.cleanupTaskFds (Fs.taskKey id) }

def cleanupReplySlot (id : TaskId) : Kernel := { k with replies := k.replies.erase id }

def destroyWindowsOwnedBy (id : TaskId) : Kernel := { k with wm := (k.wm.destroyWindowsOwnedBy id).2 }

def doExit (status : Int32) : Kernel :=
  match k.scheduler.me with
  | none => k
  | some t =>
    let k := { k with scheduler := k.scheduler.modifyCurrent (·.ended status) }
    let k := ((k.cleanupTaskFds t.id).cleanupReplySlot t.id).destroyWindowsOwnedBy t.id
    { k with scheduler := (k.scheduler.reparent t.children).notify t.parent }

def terminateTask (id : TaskId) (status : Int32) : Kernel :=
  if k.scheduler.me.map (·.id) = some id then k.doExit status
  else
    match k.scheduler.find id with
    | none => k
    | some t =>
      if t.state = .zombie ∨ t.state = .dead then k
      else
        let k := { k with scheduler := k.scheduler.modify id (·.ended status) }
        -- No reply slot and no window is looked for here.
        let k := k.cleanupTaskFds id
        { k with scheduler := (k.scheduler.reparent t.children).notify t.parent }

def taskExitCurrent : Kernel := { k with scheduler := k.scheduler.taskExitCurrent }

def withCurrent (i : Nat) : Kernel := { k with scheduler := k.scheduler.withCurrent i }

def apart (id : TaskId) : Kernel := { k with scheduler := k.scheduler.apart id }

theorem doExit_scheduler (status : Int32) : (k.doExit status).scheduler = k.scheduler.doExit status := by
  unfold doExit Scheduler.doExit
  cases k.scheduler.me <;> rfl

theorem terminateTask_scheduler (id : TaskId) (status : Int32) :
    (k.terminateTask id status).scheduler = k.scheduler.terminateTask id status := by
  unfold terminateTask Scheduler.terminateTask
  split
  · exact k.doExit_scheduler status
  · cases k.scheduler.find id with
    | none => rfl
    | some t =>
      dsimp only
      split <;> rfl

end Kernel

inductive Ending where
  | exit (status : Int32)
  | terminate (status : Int32)
  | returned

namespace Kernel

variable (k : Kernel)

/-- The end of the task in slot `i`, which runs unless it is another one that ends it. -/
def ends (i : Nat) (e : Task) : Ending → Kernel
  | .exit status => (k.withCurrent i).doExit status
  | .terminate status => k.terminateTask e.id status
  | .returned => (k.withCurrent i).taskExitCurrent

/-- Nothing is left of a task that was `e`. -/
structure Released (e : Task) : Prop where
  ended : ∃ t, k.scheduler.find e.id = some t ∧ (t.state = .zombie ∨ t.state = .dead)
  fdTable : k.vfs.fdTables.lookup (Fs.taskKey e.id) = none
  credentials : k.vfs.credentials.lookup (Fs.taskKey e.id) = none
  reply : k.replies.lookup e.id = none
  windows : ¬k.wm.Owns e.id
  children : ∀ c ∈ e.children, (k.scheduler.find c).map (·.parent) = some k.scheduler.initTaskId

/-- What an ending leaves undone has nothing to be done for it. -/
def Clears (e : Task) : Ending → Prop
  | .exit _ => True
  | .terminate _ => k.scheduler.me = some e ∨ k.replies.lookup e.id = none ∧ ¬k.wm.Owns e.id
  | .returned =>
    (k.vfs.fdTables.lookup (Fs.taskKey e.id) = none ∧ k.vfs.credentials.lookup (Fs.taskKey e.id) = none ∧
      k.replies.lookup e.id = none ∧ ¬k.wm.Owns e.id) ∧
    (e.children = [] ∨ k.scheduler.initTaskId = some e.id) ∧ k.scheduler.Heard e

end Kernel

namespace Scheduler

variable {s t : Scheduler}

theorem tasks_eq (numbered : Numbered s) (ids : t.tasks.map (·.id) = s.tasks.map (·.id))
    (found : ∀ i, t.find i = s.find i) :
    t.tasks = s.tasks := by
  -- A table is known by its ids and by what is found under them.
  have numbered' : (t.tasks.map (·.id)).Nodup := ids ▸ numbered.distinct
  have lengths : t.tasks.length = s.tasks.length := by simpa using congrArg List.length ids
  refine List.ext_getElem lengths fun n inside inside' => ?_
  have same : t.tasks[n].id = s.tasks[n].id := by
    have := congrArg (·[n]?) ids
    simpa [inside, inside'] using this
  have left := find_of_mem numbered' (List.getElem_mem inside)
  have right := find_of_mem numbered.distinct (List.getElem_mem inside')
  have := found s.tasks[n].id
  unfold find at this
  rw [right, ← same, left] at this
  exact Option.some.inj this

theorem find_apart (id i : TaskId) : (s.apart id).find i = if i = id then (s.find i).map (·.blank) else
    s.find i :=
  find_modify (s := s) (f := (·.blank)) (fun _ => rfl) i

theorem same_apart (s : Scheduler) (id : TaskId) : Same s (s.apart id) := by
  obtain ⟨ids, nextId, init, reaping⟩ := Same.modify s id (f := (·.blank)) fun _ => rfl
  exact ⟨ids, nextId, init, reaping⟩

theorem apart_eq (numbered : Numbered s) (same : Same s t) (id : TaskId) :
    t.apart id = s.apart id ↔ ∀ i, (t.apart id).find i = (s.apart id).find i := by
  constructor
  · rintro equal i
    rw [equal]
  · intro found
    have tasks := tasks_eq ((same_apart s id).numbered numbered)
      (((same_apart t id).ids.trans same.ids).trans (same_apart s id).ids.symm) found
    have whole : ∀ u : Scheduler, u.apart id = { u with tasks := (u.apart id).tasks, current := 0 } :=
      fun _ => rfl
    rw [whole t, whole s, tasks, same.nextId, same.init, same.reaping]

theorem find_taskExitCurrent (numbered : Numbered s) {e : Task} (me : s.me = some e) (i : TaskId) :
    s.taskExitCurrent.find i = if i = e.id then (s.find i).map (·.inState .dead) else s.find i := by
  unfold taskExitCurrent
  rw [modifyCurrent_eq numbered me, find_modify (f := (·.inState .dead)) fun _ => rfl]

theorem change_blank (e : Task) (status status' : Int32) (reaper : Option TaskId) (t : Task) :
    (change e status reaper e.id t).blank = (change e status' reaper e.id t).blank := by
  -- The status of the ended task is all that two endings differ in.
  unfold change
  simp only [if_true]
  split <;> split <;> split <;> simp [Task.blank, Task.ended, Task.reparented, Task.adopting, Task.notified]

theorem change_other {e : Task} {i : TaskId} (other : i ≠ e.id) (status status' : Int32)
    (reaper : Option TaskId) (t : Task) :
    change e status reaper i t = change e status' reaper i t := by
  simp only [change, other, if_false]

theorem finish_apart (numbered : Numbered s) (e : Task) (i : Nat) (status status' : Int32) :
    ((s.withCurrent i).finish e status).apart e.id = (s.finish e status').apart e.id := by
  have before := Same.finish s e status'
  have after := Same.finish (s.withCurrent i) e status
  have same : Same (s.finish e status') ((s.withCurrent i).finish e status) :=
    ⟨after.ids.trans before.ids.symm, after.nextId.trans before.nextId.symm, after.init.trans before.init.symm,
      after.reaping.trans before.reaping.symm⟩
  rw [apart_eq (before.numbered numbered) same]
  intro j
  rw [find_apart, find_apart, find_finish, find_finish]
  have kept : (s.withCurrent i).find j = s.find j := rfl
  rw [kept]
  cases s.find j with
  | none => rfl
  | some t =>
    by_cases own : j = e.id
    · simp only [own, if_true, Option.map_some]
      exact congrArg some (change_blank e status status' s.initTaskId t)
    · simp only [own, if_false, Option.map_some]
      exact congrArg some (change_other own status status' s.initTaskId t)

theorem change_pending (e : Task) (status : Int32) (reaper : Option TaskId) (i : TaskId) (t : Task) :
    (change e status reaper i t).pending = if e.parent = some i then t.pending ||| 0x20000 else t.pending := by
  unfold change
  split <;> split <;> split <;> split <;> rfl

theorem notified_eq {t : Task} (pending : t.pending ||| 0x20000 = t.pending)
    (awake : ¬(t.state = .blocked ∧ t.waitBlocked)) :
    t.notified = t := by
  unfold Task.notified
  rw [pending, if_neg awake]

section Returning

variable {e : Task} (tree : Tree s) (alive : s.live e.id = some e)
include tree alive

theorem not_self (settled : e.children = [] ∨ s.initTaskId = some e.id) :
    e.parent ≠ some e.id ∧ e.id ∉ e.children := by
  -- A task whose children need no other parent is not its own parent.
  have present : s.forest e.id = some ⟨e.parent, e.children⟩ := forest_some.mpr ⟨e, alive, rfl⟩
  have listed : e.id ∈ e.children ↔ e.parent = some e.id := by
    rw [tree.linked.listed e.id _ present e.id, present]
    simp
  cases settled with
  | inl none =>
    have absent : e.id ∉ e.children := by simp [none]
    exact ⟨mt listed.mpr absent, absent⟩
  | inr root =>
    have rootless : e.parent = none := tree.root e.id _ root present
    have orphan : e.parent ≠ some e.id := by simp [rootless]
    exact ⟨orphan, mt listed.mp orphan⟩

theorem change_self (status : Int32) :
    (change e status s.initTaskId e.id e).blank = e.blank ↔ e.children = [] ∨ s.initTaskId = some e.id := by
  constructor
  · intro same
    have lists : (change e status s.initTaskId e.id e).children = e.children := congrArg (·.children) same
    rw [(change_links ..).2] at lists
    by_cases root : s.initTaskId = some e.id
    · exact .inr root
    · simp only [if_true, root, if_false, List.append_nil] at lists
      exact .inl lists.symm
  · intro settled
    obtain ⟨orphan, absent⟩ := not_self tree alive settled
    unfold change
    simp only [if_true, orphan, absent, if_false]
    obtain none | root := settled
    · simp [none, Task.blank, Task.ended]
    · by_cases none : e.children = []
      · simp [none, Task.blank, Task.ended]
      · simp [none, root, Task.blank, Task.ended, Task.adopting]

theorem change_rest (status : Int32) (settled : e.children = [] ∨ s.initTaskId = some e.id) :
    (∀ j t, j ≠ e.id → s.find j = some t → change e status s.initTaskId j t = t) ↔ s.Heard e := by
  constructor
  · intro same p q parent found
    have other : p ≠ e.id := fun self => (not_self tree alive settled).1 (self ▸ parent)
    have kept := same p q other found
    have pending := congrArg (·.pending) kept
    have state := congrArg (·.state) kept
    simp only [change_pending, change_state, parent, other, if_true, if_false, true_and] at pending state
    refine ⟨pending, fun sleeps => ?_⟩
    rw [if_pos sleeps, sleeps.1] at state
    cases state
  · intro heard j t other found
    have unmoved : (if j ∈ e.children then t.reparented s.initTaskId else t) = t := by
      split
      next member =>
        -- Only init has children here, and they name it already.
        have root := settled.resolve_left (List.ne_nil_of_mem member)
        have present : s.forest e.id = some ⟨e.parent, e.children⟩ := forest_some.mpr ⟨e, alive, rfl⟩
        obtain ⟨child, there, parent⟩ := (tree.linked.listed e.id _ present j).mp member
        obtain ⟨u, living, rfl⟩ := forest_some.mp there
        have same : u = t := by simpa [(live_find.mp living).1] using found
        subst same
        have named : u.parent = s.initTaskId := by rw [root]; exact parent
        simp [Task.reparented, ← named]
      next => rfl
    have kept : ¬(e.children ≠ [] ∧ s.initTaskId = some j) := by
      rintro ⟨some, root⟩
      rw [settled.resolve_left some] at root
      exact other (Option.some.inj root).symm
    unfold change
    simp only [other, if_false, unmoved, kept]
    split
    next parent => exact notified_eq (heard j t parent found).1 (heard j t parent found).2
    next => rfl

theorem returned_apart {i : Nat} (here : s.tasks[i]? = some e) (status : Int32) :
    (s.withCurrent i).taskExitCurrent.apart e.id = (s.finish e status).apart e.id ↔
      (e.children = [] ∨ s.initTaskId = some e.id) ∧ s.Heard e := by
  have before := Same.finish s e status
  have after := Same.modifyCurrent (s.withCurrent i) (f := (·.inState .dead)) fun _ => rfl
  have same : Same (s.finish e status) (s.withCurrent i).taskExitCurrent :=
    ⟨after.ids.trans before.ids.symm, after.nextId.trans before.nextId.symm, after.init.trans before.init.symm,
      after.reaping.trans before.reaping.symm⟩
  have numbered : Numbered (s.withCurrent i) := ⟨tree.numbered.distinct, tree.numbered.below⟩
  rw [apart_eq (before.numbered tree.numbered) same]
  simp only [find_apart, find_finish, find_taskExitCurrent numbered
    (show (s.withCurrent i).me = some e from here)]
  have kept : ∀ j, (s.withCurrent i).find j = s.find j := fun _ => rfl
  have found := (live_find.mp alive).1
  simp only [kept]
  constructor
  · intro equal
    have self := equal e.id
    simp only [if_true, found, Option.map_some, Option.some.injEq] at self
    have settled := (change_self tree alive status).mp self.symm
    refine ⟨settled, (change_rest tree alive status settled).mp fun j t other there => ?_⟩
    have rest := equal j
    simp only [other, if_false, there, Option.map_some, Option.some.injEq] at rest
    exact rest.symm
  · rintro ⟨settled, heard⟩ j
    by_cases own : j = e.id
    · subst own
      simp only [if_true, found, Option.map_some, Option.some.injEq]
      exact ((change_self tree alive status).mpr settled).symm
    · simp only [own, if_false]
      cases there : s.find j with
      | none => rfl
      | some t =>
        rw [Option.map_some, (change_rest tree alive status settled).mpr heard j t own there]

end Returning

end Scheduler

theorem cleanup_clears (vfs : Fs.Vfs) (key : Fs.TaskId) :
    (vfs.cleanupTaskFds key).fdTables.lookup key = none ∧
      (vfs.cleanupTaskFds key).credentials.lookup key = none := by
  unfold Fs.Vfs.cleanupTaskFds
  refine ⟨?_, AList.lookup_erase ..⟩
  cases present : vfs.fdTables.lookup key with
  | none => exact present
  | some table =>
    have settled := Fs.Settles.foldl Fs.settles_release (Map.values table.files)
      { vfs with fdTables := vfs.fdTables.erase key }
    dsimp only
    rw [settled.fdTables]
    exact AList.lookup_erase ..

theorem cleanup_eq_self {vfs : Fs.Vfs} {key : Fs.TaskId} :
    vfs.cleanupTaskFds key = vfs ↔ vfs.fdTables.lookup key = none ∧ vfs.credentials.lookup key = none := by
  constructor
  · intro same
    rw [← same]
    exact cleanup_clears vfs key
  · rintro ⟨table, credentials⟩
    unfold Fs.Vfs.cleanupTaskFds
    simp only [table, Map.erase_eq_self.mpr credentials]

namespace Kernel

variable {k : Kernel} {i : Nat} {e : Task}

theorem exit_eq (numbered : Scheduler.Numbered k.scheduler) (here : k.scheduler.tasks[i]? = some e)
    (status : Int32) :
    k.ends i e (.exit status) =
      { scheduler := (k.scheduler.withCurrent i).finish e status, vfs := k.vfs.cleanupTaskFds (Fs.taskKey e.id)
        replies := k.replies.erase e.id, wm := (k.wm.destroyWindowsOwnedBy e.id).2 } := by
  have numbered' : Scheduler.Numbered (k.scheduler.withCurrent i) := ⟨numbered.distinct, numbered.below⟩
  have me : (k.withCurrent i).scheduler.me = some e := here
  have ended : (k.withCurrent i).scheduler.modifyCurrent (·.ended status) =
      (k.scheduler.withCurrent i).modify e.id (·.ended status) := Scheduler.modifyCurrent_eq numbered' me _
  unfold ends doExit
  simp only [me, ended]
  rfl

theorem current_eq (numbered : Scheduler.Numbered k.scheduler) (here : k.scheduler.tasks[i]? = some e)
    (me : k.scheduler.me = some e) : k.withCurrent i = k := by
  -- Slots are the same when their tasks are.
  have inside : i < k.scheduler.tasks.length := (List.getElem?_eq_some_iff.mp here).1
  have same : i = k.scheduler.current :=
    (List.getElem?_inj inside numbered.distinct.of_map).mp (here.trans me.symm)
  subst same
  rfl

theorem terminate_eq (numbered : Scheduler.Numbered k.scheduler) (here : k.scheduler.tasks[i]? = some e)
    (alive : e.state ≠ .zombie ∧ e.state ≠ .dead) (other : k.scheduler.me ≠ some e) (status : Int32) :
    k.ends i e (.terminate status) =
      { k with scheduler := k.scheduler.finish e status, vfs := k.vfs.cleanupTaskFds (Fs.taskKey e.id) } := by
  have found := numbered.find_eq (List.mem_of_getElem? here)
  have elsewhere : k.scheduler.me.map (·.id) ≠ some e.id := by
    intro same
    obtain ⟨u, me, equal⟩ := Option.map_eq_some_iff.mp same
    have there := numbered.find_eq (List.mem_of_getElem? me)
    rw [equal, found] at there
    cases there
    exact other me
  unfold ends terminateTask
  simp only [elsewhere, if_false, found, alive, or_self]
  rfl

theorem exit_released (tree : Tree k.scheduler) (here : k.scheduler.tasks[i]? = some e)
    (alive : e.state ≠ .dead)
    (status : Int32) : (k.ends i e (.exit status)).Released e := by
  have living := tree.numbered.live_mem (List.mem_of_getElem? here) alive
  have found : (k.scheduler.withCurrent i).find e.id = some e := (Scheduler.live_find.mp living).1
  rw [exit_eq tree.numbered here]
  constructor
  · refine ⟨_, by rw [Scheduler.find_finish, found, Option.map_some], .inl ?_⟩
    rw [Scheduler.change_state, if_pos rfl]
  · exact (cleanup_clears ..).1
  · exact (cleanup_clears ..).2
  · exact AList.lookup_erase ..
  · exact Windows.not_owns_destroyed k.wm e.id
  · intro c member
    have present : k.scheduler.forest e.id = some ⟨e.parent, e.children⟩ :=
      Scheduler.forest_some.mpr ⟨e, living, rfl⟩
    obtain ⟨child, there, _⟩ := (tree.linked.listed e.id _ present c).mp member
    obtain ⟨t, alive', _⟩ := Scheduler.forest_some.mp there
    have found' : (k.scheduler.withCurrent i).find c = some t := (Scheduler.live_find.mp alive').1
    dsimp only
    rw [Scheduler.find_finish, found', Option.map_some, Option.map_some, (Scheduler.change_links ..).1,
      if_pos member,
      (Scheduler.Same.finish ..).init]

theorem apart_parts {k' : Kernel} {id : TaskId} (same : k'.apart id = k.apart id) :
    k'.scheduler.apart id = k.scheduler.apart id ∧ k'.vfs = k.vfs ∧ k'.replies = k.replies ∧ k'.wm = k.wm := by
  unfold apart at same
  simpa only [Kernel.mk.injEq] using same

theorem Released.of_apart {k' : Kernel} (released : k.Released e) (same : k'.apart e.id = k.apart e.id)
    (ended : ∃ t, k'.scheduler.find e.id = some t ∧ (t.state = .zombie ∨ t.state = .dead)) : k'.Released e where
  -- The status of the task is all that is put aside.
  ended := ended
  fdTable := (apart_parts same).2.1 ▸ released.fdTable
  credentials := (apart_parts same).2.1 ▸ released.credentials
  reply := (apart_parts same).2.2.1 ▸ released.reply
  windows := (apart_parts same).2.2.2 ▸ released.windows
  children c member := by
    have scheduler := (apart_parts same).1
    have parents : ∀ s : Scheduler, (s.find c).map (·.parent) = ((s.apart e.id).find c).map (·.parent) := by
      intro s
      rw [Scheduler.find_apart]
      split
      · rw [Option.map_map]
        rfl
      · rfl
    have init : k'.scheduler.initTaskId = k.scheduler.initTaskId := congrArg (·.initTaskId) scheduler
    rw [parents, scheduler, ← parents, init]
    exact released.children c member

theorem exit_apart (numbered : Scheduler.Numbered k.scheduler) (here : k.scheduler.tasks[i]? = some e)
    (status status' : Int32) :
    (k.ends i e (.exit status)).apart e.id = (k.ends i e (.exit status')).apart e.id := by
  have left := Scheduler.finish_apart numbered e i status 0
  have right := Scheduler.finish_apart numbered e i status' 0
  rw [exit_eq numbered here, exit_eq numbered here]
  unfold apart
  simp only [left, right]

/-- An ending leaves nothing behind, and does what `do_exit` does, if and only if what it leaves out has
nothing to do. -/
theorem endings_agree (run : Reachable k.scheduler) (here : k.scheduler.tasks[i]? = some e)
    (alive : e.state ≠ .zombie ∧ e.state ≠ .dead) (ending : Ending) (status : Int32) :
    ((k.ends i e ending).Released e ∧ (k.ends i e ending).apart e.id = (k.ends i e (.exit status)).apart e.id) ↔
      k.Clears e ending := by
  have tree := tree_of_reachable run
  have numbered := tree.numbered
  have living := numbered.live_mem (List.mem_of_getElem? here) alive.2
  have found : k.scheduler.find e.id = some e := (Scheduler.live_find.mp living).1
  have exited := exit_released tree here alive.2 status
  have finished := Scheduler.finish_apart numbered e i status 0
  cases ending with
  | exit status' =>
    exact iff_of_true ⟨exit_released tree here alive.2 status', exit_apart numbered here status' status⟩ trivial
  | terminate status' =>
    by_cases me : k.scheduler.me = some e
    · have own : k.ends i e (.terminate status') = k.ends i e (.exit status') := by
        change k.terminateTask e.id status' = (k.withCurrent i).doExit status'
        unfold terminateTask
        rw [me, Option.map_some, if_pos rfl, current_eq numbered here me]
      rw [own]
      exact iff_of_true ⟨exit_released tree here alive.2 status', exit_apart numbered here status' status⟩
        (.inl me)
    · have terminated := terminate_eq numbered here alive me status'
      constructor
      · rintro ⟨released, _⟩
        rw [terminated] at released
        exact .inr ⟨released.reply, released.windows⟩
      · intro clear
        obtain ⟨reply, windows⟩ := clear.resolve_left me
        have same : (k.ends i e (.terminate status')).apart e.id = (k.ends i e (.exit status)).apart e.id := by
          have killed := Scheduler.finish_apart numbered e i status status'
          rw [terminated, exit_eq numbered here]
          unfold apart
          simp only [killed, Map.erase_eq_self.mpr reply, Windows.destroy_eq_self.mpr windows]
        refine ⟨exited.of_apart same ?_, same⟩
        rw [terminated]
        refine ⟨_, by rw [Scheduler.find_finish, found, Option.map_some], .inl ?_⟩
        rw [Scheduler.change_state, if_pos rfl]
  | returned =>
    have scheduler := Scheduler.returned_apart tree living here 0
    constructor
    · rintro ⟨released, same⟩
      refine ⟨⟨released.fdTable, released.credentials, released.reply, released.windows⟩, scheduler.mp ?_⟩
      have schedulers := (apart_parts same).1
      rw [exit_eq numbered here] at schedulers
      exact schedulers.trans finished
    · rintro ⟨⟨table, credentials, reply, windows⟩, settled⟩
      have same : (k.ends i e .returned).apart e.id = (k.ends i e (.exit status)).apart e.id := by
        have ended := (scheduler.mpr settled).trans finished.symm
        have vfs := cleanup_eq_self.mpr ⟨table, credentials⟩
        rw [exit_eq numbered here]
        unfold ends taskExitCurrent withCurrent apart
        simp only [ended, vfs, Map.erase_eq_self.mpr reply, Windows.destroy_eq_self.mpr windows]
      refine ⟨exited.of_apart same ⟨e.inState .dead, ?_, .inr rfl⟩, same⟩
      have numbered' : Scheduler.Numbered (k.scheduler.withCurrent i) := ⟨numbered.distinct, numbered.below⟩
      have gone := Scheduler.find_taskExitCurrent numbered' (e := e) here e.id
      rw [if_pos rfl, show (k.scheduler.withCurrent i).find e.id = some e from found] at gone
      exact gone

/-- A user task has forked, and is current. -/
def family : Kernel where
  scheduler := (Machine.run step .initial [.spawnKernel, .setInit 0, .spawnUser 7, .schedule 1,
    .fork 8]).getD .initial
  vfs := Fs.Vfs.initial.initTaskFds 2
  replies := ∅
  wm := .initial

def child : Task := { id := 2, ring := .user, userCr3 := some 8, parent := some 1 }

theorem family_reachable : Reachable family.scheduler :=
  .of_run .start (show Machine.run step .initial
    [.spawnKernel, .setInit 0, .spawnUser 7, .schedule 1, .fork 8] =
    some family.scheduler by decide)

theorem endings_agree_killed :
    (family.ends 2 child (.terminate 137)).Released child ∧
      (family.ends 2 child (.terminate 137)).apart child.id = (family.ends 2 child (.exit 0)).apart
        child.id := by
  refine (endings_agree (i := 2) family_reachable (by decide) (by decide) (.terminate 137) 0).mpr
    (.inr ⟨rfl, ?_⟩)
  rintro ⟨s, registered, id, w, found, _⟩
  cases registered
  simp at found

/-- A client whose parent kills it, and that has a window. -/
theorem window_outlives :
    let k : Kernel := { family with wm := (family.wm.createWindow 2 64 32 "selftest").2 }
    k.scheduler.tasks[2]? = some child ∧ (k.terminateTask 2 137).wm.Owns 2 ∧
    ¬(k.ends 2 child (.exit 137)).wm.Owns 2 := by
  intro k
  have here : k.scheduler.tasks[2]? = some child := by decide
  have numbered := (tree_of_reachable family_reachable).numbered
  refine ⟨here, ?_, ?_⟩
  · have killed := terminate_eq (k := k) numbered here (by decide) (by decide) 137
    change (k.ends 2 child (.terminate 137)).wm.Owns 2
    rw [killed]
    exact ⟨_, rfl, 1, _, rfl, rfl⟩
  · rw [exit_eq (k := k) numbered here]
    exact Windows.not_owns_destroyed k.wm 2

end Kernel

end PickleOS.Tasks
