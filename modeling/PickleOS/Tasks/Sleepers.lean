import PickleOS.Tasks.Timeline

set_option autoImplicit false

/-!
# Who goes to sleep

Only the current task does, whatever else a step changes.
-/

namespace PickleOS.Tasks

open Shared Shared.Machine Syscall

namespace Scheduler

variable {s : Scheduler} {i : TaskId}

def Sleeps (s : Scheduler) (id : TaskId) : Prop := ∃ x ∈ s.tasks, x.id = id ∧ x.state = .blocked

structure Wakeful (f : Task → Task) : Prop where
  id : ∀ x, (f x).id = x.id
  state : ∀ x, (f x).state = .blocked → x.state = .blocked

theorem Wakeful.of_state {f : Task → Task} (id : ∀ x, (f x).id = x.id)
    (state : ∀ x, (f x).state = x.state) : Wakeful f where
  id := id
  state x sleeps := (state x).symm.trans sleeps

theorem Wakeful.of_other {f : Task → Task} (id : ∀ x, (f x).id = x.id)
    (state : ∀ x, (f x).state ≠ .blocked) : Wakeful f where
  id := id
  state x sleeps := absurd sleeps (state x)

theorem Rouses.wakeful {f : Task → Task} (rouses : Rouses f) : Wakeful f where
  id := rouses.id
  state x sleeps := by
    rcases rouses.state x with same | ⟨slept, _⟩
    · exact same.symm.trans sleeps
    · exact slept

theorem wakeful_inState (state : State) (other : state ≠ .blocked) : Wakeful (·.inState state) :=
  .of_other (fun _ => rfl) fun _ => other

theorem wakeful_notified : Wakeful (·.notified) where
  id _ := rfl
  state x sleeps := by
    unfold Task.notified at sleeps
    dsimp only at sleeps
    split at sleeps
    next slept => exact slept.1
    next => exact sleeps

theorem wakeful_demoted : Wakeful fun t => if t.state = .running then t.inState .runnable else t where
  id x := by split <;> rfl
  state x sleeps := by
    split at sleeps
    · cases sleeps
    · exact sleeps

theorem mem_modifyFirst {id : TaskId} {f : Task → Task} {tasks : List Task}
    {y : Task} (member : y ∈ modifyFirst id f tasks) :
    y ∈ tasks ∨ ∃ x ∈ tasks, x.id = id ∧ f x = y := by
  induction tasks with
  | nil => cases member
  | cons t rest ih =>
    unfold modifyFirst at member
    split at member
    next own =>
      rcases List.mem_cons.mp member with rfl | later
      · exact .inr ⟨t, List.mem_cons_self .., own, rfl⟩
      · exact .inl (List.mem_cons_of_mem _ later)
    next =>
      rcases List.mem_cons.mp member with rfl | later
      · exact .inl (List.mem_cons_self ..)
      · rcases ih later with same | ⟨x, before, changed⟩
        · exact .inl (List.mem_cons_of_mem _ same)
        · exact .inr ⟨x, List.mem_cons_of_mem _ before, changed⟩

theorem mem_modify {n : Nat} {f : Task → Task} {tasks : List Task} {y : Task} (member : y ∈ tasks.modify n f) :
    y ∈ tasks ∨ ∃ x, tasks[n]? = some x ∧ f x = y := by
  obtain ⟨k, here⟩ := List.mem_iff_getElem?.mp member
  rw [List.getElem?_modify] at here
  obtain ⟨x, before, changed⟩ := Option.map_eq_some_iff.mp here
  split at changed
  next own => exact .inr ⟨x, own ▸ before, changed⟩
  next => exact .inl (changed ▸ List.mem_of_getElem? before)

theorem sleeps_modify {id : TaskId} {f : Task → Task} (wakeful : Wakeful f)
    (sleeps : (s.modify id f).Sleeps i) : s.Sleeps i := by
  obtain ⟨y, member, own, slept⟩ := sleeps
  rcases mem_modifyFirst member with same | ⟨x, before, _, rfl⟩
  · exact ⟨y, same, own, slept⟩
  · exact ⟨x, before, (wakeful.id x).symm.trans own, wakeful.state x slept⟩

theorem sleeps_modifyCurrent {f : Task → Task} (id : ∀ x, (f x).id = x.id)
    (sleeps : (s.modifyCurrent f).Sleeps i) :
    s.Sleeps i ∨ s.me.map (·.id) = some i := by
  -- A change of the current task may put that to sleep.
  obtain ⟨y, member, own, slept⟩ := sleeps
  rcases mem_modify member with same | ⟨x, here, rfl⟩
  · exact .inl ⟨y, same, own, slept⟩
  · refine .inr ?_
    rw [me, here, Option.map_some, ← id x, own]

theorem sleeps_modifyCurrent_wakeful {f : Task → Task} (wakeful : Wakeful f)
    (sleeps : (s.modifyCurrent f).Sleeps i) : s.Sleeps i := by
  obtain ⟨y, member, own, slept⟩ := sleeps
  rcases mem_modify member with same | ⟨x, here, rfl⟩
  · exact ⟨y, same, own, slept⟩
  · exact ⟨x, List.mem_of_getElem? here, (wakeful.id x).symm.trans own, wakeful.state x slept⟩

theorem sleeps_addTask {task : Task} (awake : task.state ≠ .blocked)
    (sleeps : ({ s with nextId := s.nextId + 1 }.addTask task).Sleeps i) : s.Sleeps i := by
  obtain ⟨y, member, own, slept⟩ := sleeps
  unfold addTask at member
  split at member
  · rcases List.mem_or_eq_of_mem_set member with same | rfl
    · exact ⟨y, same, own, slept⟩
    · exact absurd slept awake
  · rcases List.mem_append.mp member with same | new
    · exact ⟨y, same, own, slept⟩
    · cases List.mem_singleton.mp new
      exact absurd slept awake

theorem sleeps_switchTo {n : Nat} (sleeps : (s.switchTo n).Sleeps i) : s.Sleeps i := by
  obtain ⟨y, member, own, slept⟩ := sleeps
  rcases mem_modify member with same | ⟨x, _, rfl⟩
  · exact sleeps_modifyCurrent_wakeful wakeful_demoted ⟨y, same, own, slept⟩
  · cases slept

theorem sleeps_schedule (sleeps : s.schedule.Sleeps i) : s.Sleeps i := by
  unfold schedule at sleeps
  split at sleeps
  · exact sleeps
  · split at sleeps
    · split at sleeps
      · exact sleeps_modifyCurrent_wakeful (wakeful_inState .running nofun) sleeps
      · exact sleeps
    · split at sleeps
      · split at sleeps
        · exact sleeps_modifyCurrent_wakeful (wakeful_inState .running nofun) sleeps
        · exact sleeps
      · exact sleeps_switchTo sleeps

theorem sleeps_awayIf {state : State} (sleeps : (s.awayIf state).Sleeps i) : s.Sleeps i := by
  unfold awayIf at sleeps
  split at sleeps
  · exact sleeps_schedule sleeps
  · exact sleeps

theorem sleeps_notify {parent : Option TaskId} (sleeps : (s.notify parent).Sleeps i) : s.Sleeps i := by
  unfold notify at sleeps
  split at sleeps
  · exact sleeps_modify wakeful_notified sleeps
  · exact sleeps

theorem sleeps_reparent {children : List TaskId} (sleeps : (s.reparent children).Sleeps i) : s.Sleeps i := by
  have moved : ∀ (reaper : Option TaskId) (ids : List TaskId) (u : Scheduler),
      (ids.foldl (fun u child => u.modify child (·.reparented reaper)) u).Sleeps i → u.Sleeps i := by
    intro reaper ids
    induction ids with
    | nil => exact fun _ => id
    | cons child rest ih =>
      have wakeful : Wakeful (·.reparented reaper) := .of_state (fun _ => rfl) fun _ => rfl
      exact fun u sleeps => sleeps_modify wakeful (ih (u.modify child (·.reparented reaper)) sleeps)
  unfold reparent at sleeps
  split at sleeps
  · exact sleeps
  · dsimp only at sleeps
    split at sleeps
    · exact moved _ _ s (sleeps_modify (rouses_adopting children).wakeful sleeps)
    · exact moved _ _ s sleeps

theorem sleeps_spawn {ring : Ring} {userCr3 : Option UInt64} (sleeps : (s.spawn ring userCr3).Sleeps i) :
    s.Sleeps i := by
  refine sleeps_addTask ?_ sleeps
  nofun

theorem wakeful_ended (status : Int32) : Wakeful (·.ended status) := .of_other (fun _ => rfl) fun _ => nofun

theorem sleeps_doExit {status : Int32} (sleeps : (s.doExit status).Sleeps i) : s.Sleeps i := by
  unfold doExit at sleeps
  split at sleeps
  · exact sleeps
  · exact sleeps_modifyCurrent_wakeful (wakeful_ended status) (sleeps_reparent (sleeps_notify sleeps))

theorem sleeps_terminateTask {id : TaskId} {status : Int32}
    (sleeps : (s.terminateTask id status).Sleeps i) : s.Sleeps i := by
  unfold terminateTask at sleeps
  split at sleeps
  · exact sleeps_doExit sleeps
  · split at sleeps
    · exact sleeps
    · split at sleeps
      · exact sleeps
      · exact sleeps_modify (wakeful_ended status) (sleeps_reparent (sleeps_notify sleeps))

theorem sleeps_doKill {pid : TaskId} {sig : UInt32}
    {handler : UInt64} (sleeps : (s.doKill pid sig handler).2.Sleeps i) : s.Sleeps i := by
  rcases doKill_cases s pid sig handler with same | ⟨status, ended⟩ | marked
  · exact same ▸ sleeps
  · exact sleeps_terminateTask (ended ▸ sleeps)
  · exact sleeps_modify (rouses_signalled sig).wakeful (marked ▸ sleeps)

theorem sleeps_doFork {childCr3 : UInt64} (sleeps : (s.doFork childCr3).Sleeps i) : s.Sleeps i := by
  unfold doFork at sleeps
  split at sleeps
  · exact sleeps
  · split at sleeps
    · exact sleeps
    · refine sleeps_addTask ?_ (sleeps_modify (rouses_adopting [s.nextId]).wakeful sleeps)
      nofun

theorem sleeps_doWait (sleeps : s.doWait.Sleeps i) : s.Sleeps i ∨ s.me.map (·.id) = some i := by
  unfold doWait at sleeps
  split at sleeps
  · exact .inl sleeps
  next t me =>
    have awake : ∀ {j}, (s.modifyCurrent (·.waiting false)).Sleeps j → s.Sleeps j :=
      sleeps_modifyCurrent_wakeful (rouses_waiting false).wakeful
    dsimp only at sleeps
    split at sleeps
    · exact .inl (awake sleeps)
    · split at sleeps
      next cid _ =>
        exact .inl (awake (sleeps_modifyCurrent_wakeful (rouses_without cid).wakeful
          (sleeps_modify (wakeful_inState .dead nofun) sleeps)))
      next =>
        have changed : ∀ x : Task, ((x.waiting true).inState .blocked).id = x.id := fun _ => rfl
        rcases sleeps_modifyCurrent changed sleeps with before | own
        · exact .inl (awake before)
        · refine .inr ?_
          rw [me_modifyCurrent, me] at own
          exact me ▸ own

theorem sleeps_reapOrphans (sleeps : s.reapOrphans.Sleeps i) : s.Sleeps i := by
  unfold reapOrphans at sleeps
  split at sleeps
  · exact sleeps
  · split at sleeps
    · dsimp only at sleeps
      split at sleeps <;> exact sleeps
    · exact sleeps
    · exact sleeps
    next cid _ _ =>
      exact sleeps_modify (rouses_without cid).wakeful (sleeps_modify (wakeful_inState .dead nofun) sleeps)

end Scheduler

open Scheduler

theorem sleeps_transition {l l' : Timeline} {event : Event} (taken : transition l event = some l') {i : TaskId}
    (sleeps : l'.table.Sleeps i) : l.table.Sleeps i ∨ l.table.me.map (·.id) = some i := by
  cases event with
  | spawnKernel =>
    cases taken
    exact .inl (sleeps_spawn sleeps)
  | spawnUser cr3 =>
    cases taken
    exact .inl (sleeps_spawn sleeps)
  | setInit id =>
    simp only [transition, Option.ite_none_right_eq_some, Option.some.injEq] at taken
    obtain ⟨_, rfl⟩ := taken
    exact .inl sleeps
  | schedule =>
    cases taken
    exact .inl (sleeps_schedule sleeps)
  | block =>
    simp only [transition, Option.ite_none_right_eq_some, Option.some.injEq] at taken
    obtain ⟨_, rfl⟩ := taken
    have changed : ∀ x : Task, (x.inState .blocked).id = x.id := fun _ => rfl
    exact sleeps_modifyCurrent changed (sleeps_schedule sleeps)
  | unblock id =>
    cases taken
    exact .inl (sleeps_modify rouses_unblock.wakeful sleeps)
  | fork childCr3 =>
    simp only [transition, Option.ite_none_right_eq_some, Option.some.injEq] at taken
    obtain ⟨_, rfl⟩ := taken
    exact .inl (sleeps_doFork sleeps)
  | exit status =>
    simp only [transition, Option.ite_none_right_eq_some, Option.some.injEq] at taken
    obtain ⟨_, rfl⟩ := taken
    exact .inl (sleeps_doExit (sleeps_schedule sleeps))
  | kill pid sig handler =>
    simp only [transition, Option.ite_none_right_eq_some, Option.some.injEq] at taken
    obtain ⟨_, rfl⟩ := taken
    exact .inl (sleeps_doKill (sleeps_awayIf sleeps))
  | wait =>
    simp only [transition, Option.ite_none_right_eq_some, Option.some.injEq] at taken
    obtain ⟨_, rfl⟩ := taken
    exact sleeps_doWait (sleeps_awayIf sleeps)
  | reapOrphans =>
    simp only [transition, Option.ite_none_right_eq_some, Option.some.injEq] at taken
    obtain ⟨_, rfl⟩ := taken
    exact .inl (sleeps_reapOrphans sleeps)

theorem sleeps_interrupt {l l' : Timeline} {event : Event} (interrupt : event.isInterrupt)
    (taken : transition l event = some l')
    {id : TaskId} (sleeps : l'.table.Sleeps id) : l.table.Sleeps id := by
  cases event with
  | schedule =>
    cases taken
    exact sleeps_schedule sleeps
  | unblock =>
    cases taken
    exact sleeps_modify rouses_unblock.wakeful sleeps
  | _ => cases interrupt

theorem not_sleeps_unblock {s : Scheduler} (numbered : Numbered s) (id : TaskId) :
    ¬(s.unblock id).Sleeps id := by
  rintro ⟨y, member, own, slept⟩
  have here := (numbered.modify id rouses_unblock.id).find_eq member
  rw [own, find_modify rouses_unblock.id, if_pos rfl] at here
  obtain ⟨x, _, rfl⟩ := Option.map_eq_some_iff.mp here
  split at slept
  next => cases slept
  next awake => exact awake slept

theorem Sound.current_awake {l : Timeline} (sound : Sound l)
    {id : TaskId} (current : l.table.me.map (·.id) = some id) :
    ¬l.table.Sleeps id := by
  rintro ⟨x, member, own, slept⟩
  obtain ⟨e, me, rfl⟩ := Option.map_eq_some_iff.mp current
  have numbered := sound.tree.numbered
  have same : some x = some e := by
    rw [← numbered.find_eq member, ← numbered.find_eq (List.mem_of_getElem? me), own]
  cases same
  have running := sound.steady.me_running me
  rw [slept] at running
  cases running

theorem Scheduler.Steady.gives_way {s : Scheduler} (steady : Steady s) (numbered : Numbered s)
    {e : Task} (me : s.me = some e)
    (other : e.id ≠ 0) : s.schedule.me.map (·.id) ≠ some e.id := by
  -- The idle task is always there to take over.
  have running := steady.me_running me
  obtain ⟨y, first, zero, ready⟩ := steady.task
  have runnable : y.state = .runnable := by
    refine ready.resolve_right fun runs => other ?_
    rw [Scheduler.me, ← steady.alone 0 y first runs, first] at me
    cases me
    exact zero
  obtain ⟨i, x, _, here, waits, switched⟩ := schedule_away me (by simp [running]) first runnable
  intro same
  rw [switched, Scheduler.me, show (s.switchTo i).current = i from rfl,
    switchTo_slot (by assumption) here, if_pos rfl,
    Option.map_some, Option.some.injEq] at same
  have found := numbered.find_eq (List.mem_of_getElem? here)
  rw [show x.id = e.id from same, numbered.find_eq (List.mem_of_getElem? me)] at found
  cases found
  rw [running] at waits
  cases waits

end PickleOS.Tasks
