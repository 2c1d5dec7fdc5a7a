import PickleOS.Tasks.Scheduling

set_option autoImplicit false

/-!
# Runs of the scheduler

Who runs, and what becomes of those that ended.
-/

namespace PickleOS.Tasks

open Shared Shared.Machine Syscall

structure Timeline where
  table : Scheduler
  /-- Ghost: the tasks that were reaped, with the exit statuses. -/
  reaped : List (TaskId × Int32)

namespace Timeline

variable (l : Timeline)

/-- `scheduler::run` has switched to the idle task, in the first slot. -/
def booted : Timeline where
  table :=
    { tasks := [{ id := 0, state := .running, ring := .kernel, userCr3 := none }]
      current := 0
      nextId := 1
      initTaskId := none
      reaping := .idle }
  reaped := []

/-- The current task is neither idle nor init, which only run their loops, nor inside `do_wait`. -/
def acts : Bool := l.table.acts && l.table.me.any fun t => t.id ≠ 0 ∧ l.table.initTaskId ≠ some t.id

end Timeline

inductive Event where
  | spawnKernel
  | spawnUser (cr3 : UInt64)
  | setInit (id : TaskId)
  /-- A timer tick, or a call of `yield_now`. -/
  | schedule
  | block
  | unblock (id : TaskId)
  | fork (childCr3 : UInt64)
  | exit (status : Int32)
  | kill (pid : TaskId) (sig : UInt32) (handler : UInt64)
  | wait
  | reapOrphans

/-- What a handler may do in the middle of a task: the timer's preempts it, and any line's wakes its
driver. -/
def Event.isInterrupt : Event → Bool
  | .schedule | .unblock _ => true
  | _ => false

def Scheduler.awayIf (s : Scheduler) (state : State) : Scheduler :=
  if s.me.any (·.state = state) then s.schedule else s

/-- What the next section of `reap_orphans` buries. -/
def Scheduler.buries (s : Scheduler) : List (TaskId × Int32) :=
  match s.reaping with
  | .zombies (cid :: _) => ((s.find cid).map fun c => (cid, c.exitStatus)).toList
  | _ => []

def transition (l : Timeline) : Event → Option Timeline
  | .spawnKernel => some { l with table := l.table.spawn .kernel none }
  | .spawnUser cr3 => some { l with table := l.table.spawn .user (some cr3) }
  | .setInit id =>
    if id ≠ 0 ∧ l.table.initTaskId = none ∧ (l.table.find id).any
      (fun t => t.state = .runnable ∧ t.parent = none) then
      some { l with table := { l.table with initTaskId := some id } }
    else none
  | .schedule => some { l with table := l.table.schedule }
  | .block => if l.acts then some { l with table := l.table.blockCurrentAndSchedule } else none
  | .unblock id => some { l with table := l.table.unblock id }
  | .fork childCr3 => if l.acts then some { l with table := l.table.doFork childCr3 } else none
  | .exit status => if l.acts then some { l with table := (l.table.doExit status).schedule } else none
  | .kill pid sig handler =>
    -- Nobody kills the idle task.
    -- A task that ends itself does not return.
    if l.acts ∧ pid ≠ 0 then some { l with table := (l.table.doKill pid sig handler).2.awayIf .zombie }
      else none
  | .wait =>
    if l.table.me.any fun t => t.state = .running ∧ t.id ≠ 0 ∧ l.table.initTaskId ≠ some t.id then
      some
        { table := l.table.doWait.awayIf .blocked
          reaped :=
            match l.table.waitScan with
            | .reaped child status => l.reaped ++ [(child, status)]
            | _ => l.reaped }
    else none
  | .reapOrphans =>
    if l.table.acts ∧ l.table.initTaskId.isSome ∧ l.table.me.map (·.id) = l.table.initTaskId then
      some { table := l.table.reapOrphans, reaped := l.reaped ++ l.table.buries }
    else none

namespace Scheduler

variable {s t : Scheduler}

/-! ### What a system call comes to -/

theorem doKill_cases (s : Scheduler) (pid : TaskId) (sig : UInt32) (handler : UInt64) :
    (s.doKill pid sig handler).2 = s ∨ (∃ status, (s.doKill pid sig handler).2 = s.terminateTask pid status) ∨
      (s.doKill pid sig handler).2 = s.modify pid (·.signalled sig) := by
  unfold doKill
  dsimp only
  repeat' split
  all_goals first
    | exact .inl rfl
    | exact .inr (.inl ⟨_, rfl⟩)
    | exact .inr (.inr rfl)

theorem isZombie_iff {c : TaskId} : s.isZombie c = true ↔ ∃ z, s.find c = some z ∧ z.state = .zombie := by
  simp [isZombie, Option.any_eq_true]

theorem findSome_zombie (ids : List TaskId) :
    (ids.findSome? fun c => (s.find c).filter fun z => z.state = .zombie) = (ids.find? s.isZombie).bind
      s.find := by
  induction ids with
  | nil => rfl
  | cons c rest ih =>
    rw [List.findSome?_cons, List.find?_cons, ih]
    cases found : s.find c with
    | none => simp [isZombie, found]
    | some z => by_cases zombie : z.state = .zombie <;> simp [isZombie, found, zombie, Option.filter]

theorem waitScan_cases (numbered : Numbered s) {e : Task} (me : s.me = some e) :
    let awake := s.modify e.id (·.waiting false)
    s.waitScan = .noChildren ∧ s.doWait = awake ∨
      s.waitScan = .waitMore ∧ s.doWait = awake.modifyCurrent (fun t => (t.waiting true).inState .blocked) ∨
      ∃ c z, c ∈ e.children ∧ s.find c = some z ∧ z.state = .zombie ∧ s.waitScan = .reaped c z.exitStatus ∧
        s.doWait = (awake.modify e.id (·.without c)).modify c (·.inState .dead) := by
  have awake := modifyCurrent_eq numbered me (·.waiting false)
  obtain ⟨numbered', me'⟩ := numbered.awake me
  have zombies : (s.modifyCurrent (·.waiting false)).isZombie = s.isZombie := by
    funext c
    rw [awake]
    unfold isZombie
    rw [find_modify (f := (·.waiting false)) fun _ => rfl]
    split <;> cases s.find c <;> rfl
  unfold waitScan doWait
  simp only [me]
  rw [findSome_zombie, ← awake]
  split
  · exact .inl ⟨rfl, rfl⟩
  · rw [zombies]
    cases found : e.children.find? s.isZombie with
    | none => exact .inr (.inl ⟨rfl, rfl⟩)
    | some c =>
      obtain ⟨z, here, zombie⟩ := isZombie_iff.mp (List.find?_some found)
      refine .inr (.inr ⟨c, z, List.mem_of_find?_eq_some found, here, zombie, ?_, ?_⟩)
      · simp only [Option.bind_some, here, find_id here]
      · dsimp only
        rw [modifyCurrent_eq numbered' me' (·.without c)]
        rfl

end Scheduler

open Scheduler

theorem Scheduler.Steady.goes {s : Scheduler} (steady : Steady s) (state : State) (stopped : state ≠ .running) :
    s.awayIf state = s := by
  obtain ⟨me, here, running⟩ := steady.running
  rw [awayIf, if_neg (by simpa [here, running] using stopped.symm)]

/-- What a step does to those that have ended. -/
structure Advance (handed : Option (TaskId × Int32)) (l l' : Timeline) : Prop where
  onward : Onward (handed.map (·.1)) l.table l'.table
  reaped : l'.reaped = l.reaped ++ handed.toList
  zombie : ∀ c ∈ handed, ∃ z, l.table.find c.1 = some z ∧ z.state = .zombie ∧ z.exitStatus = c.2

structure Sound (l : Timeline) : Prop where
  tree : Tree l.table
  steady : Steady l.table
  once : (l.reaped.map (·.1)).Nodup
  gone : ∀ id ∈ l.reaped.map (·.1), id < l.table.nextId ∧ ∀ x ∈ l.table.tasks, x.id = id → x.state = .dead
  told : ∀ d ∈ l.table.tasks, d.state = .dead → (d.id, d.exitStatus) ∈ l.reaped
  -- What `reap_orphans` has in hand waits for it.
  distinct : l.table.reaping.ids.Nodup
  inHand : ∀ ids, l.table.reaping = .zombies ids → ∀ c ∈ ids, ∃ z, l.table.find c = some z ∧ z.state = .zombie

namespace Sound

variable {l l' : Timeline}

theorem booted : Sound .booted where
  tree := by
    have first : Tree (Scheduler.initial.spawn .kernel none) := Tree.initial.spawn ..
    exact first.switchTo (i := 0) rfl rfl
  steady := ⟨⟨⟨_, rfl, rfl, .inr rfl⟩, fun i x here _ => by
    cases i with
    | zero => rfl
    | succ i => simp [Timeline.booted] at here⟩, _, rfl, rfl⟩
  once := List.nodup_nil
  gone := nofun
  told d member gone := by
    cases List.mem_singleton.mp member
    cases gone
  distinct := List.nodup_nil
  inHand := nofun

theorem advance {handed : Option (TaskId × Int32)} (sound : Sound l) (advance : Advance handed l l')
    (tree : Tree l'.table)
    (steady : Steady l'.table) (distinct : l'.table.reaping.ids.Nodup)
    (inHand : ∀ ids, l'.table.reaping = .zombies ids → ∀ c ∈ ids, handed.map (·.1) ≠ some c ∧
      ∃ z, l.table.find c = some z ∧ z.state = .zombie) : Sound l' where
  tree := tree
  steady := steady
  once := by
    rw [advance.reaped]
    cases handed with
    | none => simpa using sound.once
    | some c =>
      obtain ⟨z, found, zombie, _⟩ := advance.zombie c rfl
      simp only [Option.toList_some, List.map_append, List.map_cons, List.map_nil, List.nodup_append,
        sound.once,
        List.nodup_singleton, List.mem_singleton, true_and]
      rintro id before _ rfl rfl
      have dead := (sound.gone c.1 before).2 z (find_mem found) (find_id found)
      rw [zombie] at dead
      cases dead
  gone := by
    intro id member
    rw [advance.reaped, List.map_append, List.mem_append] at member
    rcases member with before | new
    · obtain ⟨below, dead⟩ := sound.gone id before
      refine ⟨Nat.lt_of_lt_of_le below advance.onward.nextId, fun y member own => ?_⟩
      obtain ⟨x, here, fate⟩ := advance.onward.of_old member (own ▸ below)
      exact fate.dead (dead x here (fate.id.symm.trans own))
    · cases handed with
      | none => cases new
      | some c =>
        cases List.mem_singleton.mp new
        obtain ⟨z, found, zombie, _⟩ := advance.zombie c rfl
        have below : c.1 < l.table.nextId := find_id found ▸ sound.tree.numbered.below z (find_mem found)
        refine ⟨Nat.lt_of_lt_of_le below advance.onward.nextId, fun y member own => ?_⟩
        obtain ⟨x, here, fate⟩ := advance.onward.of_old member (own ▸ below)
        have own : x.id = c.1 := fate.id.symm.trans own
        have same := sound.tree.numbered.find_eq here
        rw [own, found] at same
        cases same
        rcases fate.zombie zombie with ⟨other, _⟩ | ⟨_, dead⟩
        · exact absurd (congrArg some own.symm) other
        · exact dead
  told := by
    intro d member gone
    rw [advance.reaped]
    rcases advance.onward.tasks d member with ⟨x, before, fate⟩ | ⟨_, alive⟩
    · rw [fate.id]
      rcases fate.buried gone with dead | own
      · rw [fate.status (.inr dead)]
        exact List.mem_append_left _ (sound.told x before dead)
      · obtain ⟨c, rfl, same⟩ := Option.map_eq_some_iff.mp own
        obtain ⟨z, found, zombie, status⟩ := advance.zombie c rfl
        have equal := sound.tree.numbered.find_eq before
        rw [← same, found] at equal
        cases equal
        rw [fate.status (.inl zombie), status, ← same]
        exact List.mem_append_right _ (List.mem_singleton.mpr rfl)
    · exact absurd gone alive
  distinct := distinct
  inHand ids here c member := by
    obtain ⟨other, z, found, zombie⟩ := inHand ids here c member
    obtain ⟨i, before⟩ := List.mem_iff_getElem?.mp (find_mem found)
    obtain ⟨y, after, fate | ⟨dead, _⟩⟩ := advance.onward.slot i z before
    · have id : y.id = c := fate.id.trans (find_id found)
      refine ⟨y, id ▸ tree.numbered.find_eq (List.mem_of_getElem? after), ?_⟩
      rcases fate.zombie zombie with ⟨_, still⟩ | ⟨own, _⟩
      · exact still
      · rw [find_id found] at own
        exact absurd own other
    · rw [zombie] at dead
      cases dead

theorem quiet (sound : Sound l) {t : Scheduler} (tree : Tree t) (steady : Steady t)
    (onward : Onward none l.table t)
    (reaping : t.reaping = l.table.reaping) :
    ∃ handed, Advance handed l { l with table := t } ∧ Sound { l with table := t } := by
  -- A step that reaps nobody.
  have advance : Advance none l { l with table := t } := ⟨onward, (List.append_nil _).symm, nofun⟩
  refine ⟨none, advance, sound.advance advance tree steady ?_ fun ids here c member => ⟨nofun, ?_⟩⟩
  · dsimp only
    rw [reaping]
    exact sound.distinct
  · exact sound.inHand ids (reaping ▸ here) c member

theorem acting (sound : Sound l) (acts : l.acts) :
    ∃ e, l.table.me = some e ∧ e.state = .running ∧ e.id ≠ 0 ∧ l.table.initTaskId ≠ some e.id := by
  -- The current task is neither idle nor init.
  obtain ⟨_, here⟩ := Bool.and_eq_true_iff.mp acts
  obtain ⟨e, me, fine⟩ := (Option.any_eq_true ..).mp here
  exact ⟨e, me, sound.steady.me_running me, of_decide_eq_true fine⟩

theorem spawn (sound : Sound l) (ring : Ring) (userCr3 : Option UInt64) :
    ∃ handed, Advance handed l { l with table := l.table.spawn ring userCr3 } ∧
      Sound { l with table := l.table.spawn ring userCr3 } := by
  let task : Task := { id := l.table.nextId, ring := ring, userCr3 := userCr3 }
  obtain ⟨steady, onward⟩ := sound.steady.addTask (show task.id = l.table.nextId from rfl) rfl
  exact sound.quiet (sound.tree.spawn ..) steady onward (Tree.addTask_kept ..).2.2

theorem fork (sound : Sound l) (acts : l.acts) (childCr3 : UInt64) :
    ∃ handed, Advance handed l { l with table := l.table.doFork childCr3 } ∧
    Sound { l with table := l.table.doFork childCr3 } := by
  obtain ⟨e, me, running, _, _⟩ := sound.acting acts
  have tree := sound.tree.doFork me (by simp [running]) childCr3
  rcases doFork_cases me childCr3 with same | forked
  · rw [same]
    exact sound.quiet sound.tree sound.steady (Keeps.refl _).onward rfl
  · rw [forked] at tree ⊢
    let child : Task := { id := l.table.nextId, ring := .user, userCr3 := some childCr3, parent := some e.id }
    have new : child.id = l.table.nextId := rfl
    obtain ⟨steady, onward⟩ := sound.steady.addTask new rfl
    have numbered := numbered_addTask sound.tree.numbered new
    obtain ⟨steady, keeps⟩ := steady.rouse numbered e.id (rouses_adopting [l.table.nextId])
    exact sound.quiet tree steady (onward.keeps keeps) (Tree.addTask_kept ..).2.2

theorem away (sound : Sound l) {t : Scheduler} (tree : Tree t) (halted : Halted t)
    (keeps : Keeps none l.table t)
    (reaping : t.reaping = l.table.reaping) :
    ∃ handed, Advance handed l { l with table := t.schedule } ∧ Sound { l with table := t.schedule } := by
  -- The current task sleeps, or has come to an end, and gives way.
  obtain ⟨steady, tree, switched⟩ := halted.schedule tree
  exact sound.quiet tree steady (keeps.trans switched).onward ((schedule_reaping t).trans reaping)

theorem sleep (sound : Sound l) {e : Task} (me : l.table.me = some e) (other : e.id ≠ 0) :
    ∃ handed, Advance handed l { l with table := l.table.blockCurrentAndSchedule } ∧
      Sound { l with table := l.table.blockCurrentAndSchedule } := by
  have running := sound.steady.me_running me
  obtain ⟨halted, keeps⟩ :=
    sound.steady.sleep (f := (·.inState .blocked)) sound.tree.numbered me other (fun _ => rfl) fun _ => rfl
  exact sound.away (sound.tree.of_same (Same.modifyCurrent _ fun _ => rfl)
    (view_block stable_link sound.tree.numbered me running))
    halted keeps rfl

theorem ends (sound : Sound l) {me e : Task} (here : l.table.me = some me) (found : l.table.find e.id = some e)
    (alive : e.state ≠ .zombie ∧ e.state ≠ .dead) (other : e.id ≠ 0) (status : Int32) :
    ∃ handed, Advance handed l { l with table := (l.table.finish e status).awayIf .zombie } ∧
      Sound { l with table := (l.table.finish e status).awayIf .zombie } := by
  -- A task ends, by its own doing or by another's.
  have numbered := sound.tree.numbered
  have tree := sound.tree.finish (live_find.mpr ⟨found, alive.2⟩) status
  have keeps := keeps_finish numbered found alive status
  have after : (l.table.finish e status).me = some (change e status l.table.initTaskId me.id me) := by
    rw [(Changes.finish numbered e status).me, here, Option.map_some]
  by_cases own : me.id = e.id
  · have same := eq_of_found numbered found (List.mem_of_getElem? here) own
    subst same
    rw [awayIf, if_pos (by simp [after, change_state])]
    exact sound.away tree (Halted.finish numbered sound.steady.toIdle other here status)
      keeps (Same.finish ..).reaping
  · have steady := sound.steady.finish numbered other (e := e) (fun me' here' => ?_) status
    · rw [steady.goes .zombie nofun]
      exact sound.quiet tree steady keeps.onward (Same.finish ..).reaping
    · rw [here] at here'
      cases here'
      exact own

theorem exit (sound : Sound l) (acts : l.acts) (status : Int32) :
    ∃ handed, Advance handed l { l with table := (l.table.doExit status).schedule } ∧
      Sound { l with table := (l.table.doExit status).schedule } := by
  obtain ⟨e, me, running, other, _⟩ := sound.acting acts
  have numbered := sound.tree.numbered
  have found := numbered.find_eq (List.mem_of_getElem? me)
  have alive : e.state ≠ .zombie ∧ e.state ≠ .dead := by simp [running]
  rw [doExit_eq numbered me]
  exact sound.away (sound.tree.finish (live_find.mpr ⟨found, alive.2⟩) status)
    (Halted.finish numbered sound.steady.toIdle other me status)
    (keeps_finish numbered found alive status) (Same.finish ..).reaping

theorem kill (sound : Sound l) (acts : l.acts) {pid : TaskId} (other : pid ≠ 0) (sig : UInt32)
    (handler : UInt64) :
    ∃ handed, Advance handed l { l with table := (l.table.doKill pid sig handler).2.awayIf .zombie } ∧
      Sound { l with table := (l.table.doKill pid sig handler).2.awayIf .zombie } := by
  obtain ⟨e, me, running, _, _⟩ := sound.acting acts
  rcases doKill_cases l.table pid sig handler with same | ⟨status, ended⟩ | marked
  · rw [same, sound.steady.goes .zombie nofun]
    exact sound.quiet sound.tree sound.steady (Keeps.refl _).onward rfl
  · rw [ended]
    rcases terminateTask_cases sound.tree.numbered pid status with same | ⟨target, found, kind, finished⟩
    · rw [same, sound.steady.goes .zombie nofun]
      exact sound.quiet sound.tree sound.steady (Keeps.refl _).onward rfl
    · rw [finished]
      have id := find_id found
      refine sound.ends me (id ▸ found) ?_ (id ▸ other) status
      rcases kind with self | alive
      · rw [me] at self
        cases self
        simp [running]
      · exact alive
  · obtain ⟨steady, keeps⟩ := sound.steady.rouse sound.tree.numbered pid (rouses_signalled sig)
    rw [marked, steady.goes .zombie nofun]
    refine sound.quiet (sound.tree.of_same (Same.modify _ pid fun _ => rfl) ?_) steady keeps.onward rfl
    refine view_modify stable_link (f := (·.signalled sig)) (fun _ => rfl) fun x _ => ⟨rfl, rfl, ?_, ?_⟩
    · by_cases slept : x.state = .blocked <;> simp [Task.signalled, slept]
    · by_cases slept : x.state = .blocked <;> simp [Task.signalled, slept]

theorem bury (sound : Sound l) {t : Scheduler} {c : TaskId} {z : Task} (found : l.table.find c = some z)
    (zombie : z.state = .zombie)
    (tree : Tree t) (steady : Steady t) (keeps : Keeps (some c) l.table t) (distinct : t.reaping.ids.Nodup)
    (inHand : ∀ ids, t.reaping = .zombies ids → ∀ i ∈ ids, c ≠ i ∧ ∃ z, l.table.find i = some z ∧
      z.state = .zombie) :
    ∃ handed, Advance handed l { table := t, reaped := l.reaped ++ [(c, z.exitStatus)] } ∧
      Sound { table := t, reaped := l.reaped ++ [(c, z.exitStatus)] } := by
  -- The end of a step that buries a zombie.
  have advance : Advance (some (c, z.exitStatus)) l
    { table := t, reaped := l.reaped ++ [(c, z.exitStatus)] } := by
    refine ⟨keeps.onward, rfl, fun handed here => ?_⟩
    cases here
    exact ⟨z, found, zombie, rfl⟩
  refine ⟨_, advance, sound.advance advance tree steady distinct fun ids here i member => ?_⟩
  obtain ⟨other, rest⟩ := inHand ids here i member
  exact ⟨fun same => other (Option.some.inj same), rest⟩

theorem wait (sound : Sound l) {e : Task} (me : l.table.me = some e) (other : e.id ≠ 0)
    (common : l.table.initTaskId ≠ some e.id)
    {reaped : List (TaskId × Int32)}
    (log : reaped = match l.table.waitScan with
      | .reaped child status => l.reaped ++ [(child, status)]
      | _ => l.reaped) :
    ∃ handed, Advance handed l { table := l.table.doWait.awayIf .blocked, reaped } ∧
      Sound { table := l.table.doWait.awayIf .blocked, reaped } := by
  have numbered := sound.tree.numbered
  have running := sound.steady.me_running me
  have tree := sound.tree.doWait me running
  obtain ⟨awake, roused⟩ := sound.steady.rouse numbered e.id (rouses_waiting false)
  have numbered' : Numbered (l.table.modify e.id (·.waiting false)) :=
    numbered.modify e.id (f := (·.waiting false)) fun _ => rfl
  have me' : (l.table.modify e.id (·.waiting false)).me = some (e.waiting false) := by
    rw [← modifyCurrent_eq numbered me, me_modifyCurrent, me]
    rfl
  rcases waitScan_cases numbered me with ⟨scan, turn⟩ | ⟨scan, turn⟩ | ⟨c, z, listed, found, zombie, scan,
    turn⟩
  · rw [scan] at log
    rw [log, turn, awake.goes .blocked nofun]
    exact sound.quiet (turn ▸ tree) awake roused.onward rfl
  · rw [scan] at log
    rw [turn] at tree
    obtain ⟨halted, keeps⟩ :=
      awake.sleep (f := fun t => (t.waiting true).inState .blocked) numbered' me' other (fun _ => rfl)
      fun _ => rfl
    rw [log, turn, awayIf, if_pos (by simp [me_modifyCurrent, me', Task.inState])]
    exact sound.away tree halted (roused.trans keeps) rfl
  · rw [scan] at log
    rw [turn] at tree
    obtain ⟨removed, crossed⟩ := awake.rouse numbered' e.id (rouses_without c)
    have numbered'' := numbered'.modify e.id (f := (·.without c)) fun _ => rfl
    have here : ∃ z', ((l.table.modify e.id (·.waiting false)).modify e.id (·.without c)).find c = some z' ∧
        z'.state = .zombie := by
      rw [find_modify (f := (·.without c)) fun _ => rfl, find_modify (f := (·.waiting false)) fun _ =>
        rfl, found]
      split
      · exact ⟨_, rfl, zombie⟩
      · exact ⟨_, rfl, zombie⟩
    obtain ⟨z', found', zombie'⟩ := here
    obtain ⟨steady, keeps⟩ := removed.bury numbered'' found' zombie'
    rw [log, turn, steady.goes .blocked nofun]
    refine sound.bury found zombie tree steady ((roused.trans crossed).trans keeps) sound.distinct
      fun ids hand i member => ⟨?_, ?_⟩
    · -- What init has in hand is a child of init, and this is a child of another.
      rintro rfl
      have present := sound.tree.present_me me (by simp [running])
      obtain ⟨child, there, parent⟩ := (sound.tree.linked.listed e.id _ present c).mp listed
      have adopted := (sound.tree.reaping c (by
        rw [show l.table.reaping = .zombies ids from hand]
        exact member)).2 child there
      exact common (adopted.2.symm.trans parent)
    · exact sound.inHand ids hand i member

theorem steady_of_reaping {s : Scheduler} (steady : Steady s) (reaping : Reaping) : Steady { s with reaping } :=
  ⟨⟨steady.task, steady.alone⟩, steady.running⟩

theorem keeps_of_reaping {reaped : Option TaskId} {s t : Scheduler} (keeps : Keeps reaped s t)
    (reaping : Reaping) :
    Keeps reaped s { t with reaping } :=
  ⟨keeps.nextId, keeps.length, keeps.slot⟩

theorem inspect (sound : Sound l) {reaping : Reaping} (tree : Tree { l.table with reaping })
    (distinct : reaping.ids.Nodup)
    (inHand : ∀ ids, reaping = .zombies ids → ∀ c ∈ ids, ∃ z, l.table.find c = some z ∧ z.state = .zombie) :
    ∃ handed, Advance handed l { l with table := { l.table with reaping } } ∧
    Sound { l with table := { l.table with reaping } } := by
  -- Nothing is buried: what is in hand is found among what was there.
  have advance : Advance none l { l with table := { l.table with reaping } } :=
    ⟨(keeps_of_reaping (Keeps.refl l.table) reaping).onward, (List.append_nil _).symm, nofun⟩
  exact ⟨none, advance, sound.advance advance tree (steady_of_reaping sound.steady reaping) distinct
    fun ids here c member =>
    ⟨nofun, inHand ids here c member⟩⟩

theorem reapOrphans (sound : Sound l) {e : Task} (me : l.table.me = some e)
    (own : l.table.initTaskId = some e.id)
    (running : e.state = .running) :
    ∃ handed, Advance handed l { table := l.table.reapOrphans, reaped := l.reaped ++ l.table.buries } ∧
      Sound { table := l.table.reapOrphans, reaped := l.reaped ++ l.table.buries } := by
  have numbered := sound.tree.numbered
  have tree := sound.tree.reapOrphans me (by simp [running]) own
  have present := sound.tree.present_me me (by simp [running])
  cases hand : l.table.reaping with
  | idle =>
    have found : l.table.find e.id = some e := numbered.find_eq (List.mem_of_getElem? me)
    have nothing : l.table.buries = [] := by simp [buries, hand]
    rw [nothing, List.append_nil]
    by_cases none : e.children = []
    · have turn : l.table.reapOrphans = l.table := by simp [Scheduler.reapOrphans, own, hand, found, none]
      rw [turn]
      exact sound.quiet sound.tree sound.steady (Keeps.refl _).onward rfl
    · have turn : l.table.reapOrphans = { l.table with reaping := .children e.children } := by
        simp [Scheduler.reapOrphans, own, hand, found, none]
      rw [turn] at tree ⊢
      exact sound.inspect tree (sound.tree.linked.nodup e.id _ present) fun _ other => by cases other
  | children ids =>
    have nothing : l.table.buries = [] := by simp [buries, hand]
    have distinct : ids.Nodup := by simpa [hand, Reaping.ids] using sound.distinct
    have turn : l.table.reapOrphans = { l.table with reaping := .zombies (ids.filter l.table.isZombie) } := by
      simp [Scheduler.reapOrphans, own, hand]
    rw [turn] at tree ⊢
    rw [nothing, List.append_nil]
    refine sound.inspect tree (distinct.filter _) fun ids' here c member => ?_
    cases here
    exact isZombie_iff.mp (List.mem_filter.mp member).2
  | zombies ids =>
    cases ids with
    | nil =>
      have nothing : l.table.buries = [] := by simp [buries, hand]
      have turn : l.table.reapOrphans = { l.table with reaping := .idle } := by
        simp [Scheduler.reapOrphans, own, hand]
      rw [turn] at tree ⊢
      rw [nothing, List.append_nil]
      exact sound.inspect tree List.nodup_nil fun _ other => by cases other
    | cons c rest =>
      obtain ⟨z, found, zombie⟩ := sound.inHand _ hand c (List.mem_cons_self ..)
      have buried : l.table.buries = [(c, z.exitStatus)] := by simp [buries, hand, found]
      have distinct : (c :: rest).Nodup := by simpa [hand, Reaping.ids] using sound.distinct
      obtain ⟨fresh, others⟩ := List.nodup_cons.mp distinct
      obtain ⟨removed, crossed⟩ := sound.steady.rouse numbered e.id (rouses_without c)
      obtain ⟨z', found', zombie'⟩ : ∃ z', (l.table.modify e.id (·.without c)).find c = some z' ∧
        z'.state = .zombie := by
        rw [find_modify (f := (·.without c)) fun _ => rfl, found]
        split <;> exact ⟨_, rfl, zombie⟩
      obtain ⟨steady, keeps⟩ :=
        removed.bury (numbered.modify e.id (f := (·.without c)) fun _ => rfl) found' zombie'
      have turn : l.table.reapOrphans =
          { (l.table.modify e.id (·.without c)).modify c (·.inState .dead) with reaping := .zombies rest } := by
        simp [Scheduler.reapOrphans, own, hand]
      rw [turn] at tree ⊢
      rw [buried]
      refine sound.bury found zombie tree (steady_of_reaping steady _)
        (keeps_of_reaping (crossed.trans keeps) _) others ?_
      intro ids here i member
      cases here
      exact ⟨fun same => fresh (same ▸ member), sound.inHand _ hand i (List.mem_cons_of_mem _ member)⟩

theorem step {event : Event} (sound : Sound l) (taken : transition l event = some l') :
    ∃ handed, Advance handed l l' ∧ Sound l' := by
  cases event with
  | spawnKernel =>
    cases taken
    exact sound.spawn ..
  | spawnUser cr3 =>
    cases taken
    exact sound.spawn ..
  | setInit id =>
    simp only [transition, Option.ite_none_right_eq_some, Option.some.injEq] at taken
    obtain ⟨⟨_, unregistered, fine⟩, rfl⟩ := taken
    have tree : Tree { l.table with initTaskId := some id } :=
      sound.tree.step (a := .setInit id) (if_pos ⟨unregistered, fine⟩)
    have steady : Steady { l.table with initTaskId := some id } :=
      ⟨⟨sound.steady.task, sound.steady.alone⟩, sound.steady.running⟩
    have keeps := Keeps.refl l.table
    exact sound.quiet tree steady (Keeps.onward ⟨keeps.nextId, keeps.length, keeps.slot⟩) rfl
  | schedule =>
    cases taken
    obtain ⟨steady, tree, keeps⟩ := sound.steady.schedule sound.tree
    exact sound.quiet tree steady keeps.onward (schedule_reaping l.table)
  | block =>
    simp only [transition, Option.ite_none_right_eq_some, Option.some.injEq] at taken
    obtain ⟨acts, rfl⟩ := taken
    obtain ⟨_, me, _, other, _⟩ := sound.acting acts
    exact sound.sleep me other
  | unblock id =>
    cases taken
    obtain ⟨steady, keeps⟩ := sound.steady.rouse sound.tree.numbered id rouses_unblock
    exact sound.quiet (sound.tree.step (a := .unblock id) rfl) steady keeps.onward rfl
  | fork childCr3 =>
    simp only [transition, Option.ite_none_right_eq_some, Option.some.injEq] at taken
    obtain ⟨acts, rfl⟩ := taken
    exact sound.fork acts childCr3
  | exit status =>
    simp only [transition, Option.ite_none_right_eq_some, Option.some.injEq] at taken
    obtain ⟨acts, rfl⟩ := taken
    exact sound.exit acts status
  | kill pid sig handler =>
    simp only [transition, Option.ite_none_right_eq_some, Option.some.injEq] at taken
    obtain ⟨⟨acts, other⟩, rfl⟩ := taken
    exact sound.kill acts other sig handler
  | wait =>
    simp only [transition, Option.ite_none_right_eq_some, Option.some.injEq] at taken
    obtain ⟨fine, rfl⟩ := taken
    obtain ⟨e, me, fine⟩ := (Option.any_eq_true ..).mp fine
    obtain ⟨_, other, common⟩ := of_decide_eq_true fine
    exact sound.wait me other common rfl
  | reapOrphans =>
    simp only [transition, Option.ite_none_right_eq_some, Option.some.injEq] at taken
    obtain ⟨⟨acts, _, own⟩, rfl⟩ := taken
    obtain ⟨e, me, fine⟩ := (Option.any_eq_true ..).mp acts
    refine sound.reapOrphans me ?_ (of_decide_eq_true fine).1
    rw [← own, me]
    rfl

theorem of_run (run : Reaches transition (fun _ _ => True) .booted l) : Sound l :=
  run.invariant .booted fun _ _ _ sound _ taken => (sound.step taken).elim fun _ both => both.2

end Sound

theorem ended_for_good {l later : Timeline} (sound : Sound l) {z : Task} (member : z ∈ l.table.tasks)
    (ended : z.state = .zombie ∨ z.state = .dead) (run : Reaches transition (fun _ _ => True) l later) :
    Sound later ∧ z.id < later.table.nextId ∧
      ∀ x ∈ later.table.tasks, x.id = z.id → x.state = .zombie ∨ x.state = .dead := by
  -- A task that has ended stays ended, under an id that nobody else gets.
  induction run with
  | start =>
    refine ⟨sound, sound.tree.numbered.below z member, fun x here same => ?_⟩
    have found := sound.tree.numbered.find_eq here
    rw [same, sound.tree.numbered.find_eq member] at found
    cases found
    exact ended
  | step _ _ taken ih =>
    obtain ⟨sound, below, all⟩ := ih
    obtain ⟨handed, advance, after⟩ := sound.step taken
    refine ⟨after, Nat.lt_of_lt_of_le below advance.onward.nextId, fun y here same => ?_⟩
    obtain ⟨x, before, fate⟩ := advance.onward.of_old here (same ▸ below)
    rcases all x before (fate.id.symm.trans same) with zombie | dead
    · exact (fate.zombie zombie).imp (·.2) (·.2)
    · exact .inr (fate.dead dead)

theorem transition_reaped {l l' : Timeline} {event : Event} (taken : transition l event = some l') :
    event = .wait ∨ event = .reapOrphans ∨ l'.reaped = l.reaped := by
  cases event with
  | wait => exact .inl rfl
  | reapOrphans => exact .inr (.inl rfl)
  | spawnKernel | spawnUser _ | schedule | unblock _ =>
    cases taken
    exact .inr (.inr rfl)
  | setInit _ | block | fork _ | exit _ | kill _ _ _ =>
    simp only [transition, Option.ite_none_right_eq_some, Option.some.injEq] at taken
    obtain ⟨_, rfl⟩ := taken
    exact .inr (.inr rfl)

/-- Only the current task runs, and it does; `schedule` switches to runnable tasks only; what has
ended is not current again; each status is handed out once at most, by `do_wait` or `reap_orphans`;
and only then does the slot change hands. -/
theorem scheduling_sound {l : Timeline} (run : Reaches transition (fun _ _ => True) .booted l) :
    (∀ (i : Nat) (t : Task), l.table.tasks[i]? = some t → (t.state = .running ↔ i = l.table.current)) ∧
    (∀ s : Scheduler, s.schedule.current ≠ s.current → ∃ t, s.tasks[s.schedule.current]? = some t ∧
      t.state = .runnable) ∧
    (∀ z ∈ l.table.tasks, z.state = .zombie ∨ z.state = .dead → ∀ later,
    Reaches transition (fun _ _ => True) l later →
      ∀ t, later.table.me = some t → t.id ≠ z.id) ∧
    (l.reaped.map (·.1)).Nodup ∧ (∀ d ∈ l.table.tasks, d.state = .dead → (d.id, d.exitStatus) ∈ l.reaped) ∧
    ∀ event l', transition l event = some l' → ∃ handed : Option (TaskId × Int32),
      l'.reaped = l.reaped ++ handed.toList ∧ (handed.isSome → event = .wait ∨ event = .reapOrphans) ∧
      ∀ (i : Nat) (x : Task), l.table.tasks[i]? = some x → ∃ y, l'.table.tasks[i]? = some y ∧
        (y.id ≠ x.id → x.state = .dead) ∧
        (x.state = .zombie → y.exitStatus = x.exitStatus ∧
          (y.state = .zombie ∧ handed.map (·.1) ≠ some x.id ∨ y.state = .dead ∧
            handed = some (x.id, x.exitStatus))) := by
  have sound := Sound.of_run run
  refine ⟨fun i t here => ⟨sound.steady.alone i t here, ?_⟩, fun _ => schedule_picks, ?_, sound.once,
    sound.told, ?_⟩
  · rintro rfl
    obtain ⟨e, me, running⟩ := sound.steady.running
    rw [show l.table.tasks[l.table.current]? = some e from me] at here
    cases here
    exact running
  · intro z member ended later onward t me same
    obtain ⟨after, _, all⟩ := ended_for_good sound member ended onward
    have running := after.steady.me_running me
    have stopped := all t (List.mem_of_getElem? me) same
    rw [running] at stopped
    rcases stopped with zombie | dead
    · cases zombie
    · cases dead
  · intro event l' taken
    obtain ⟨handed, advance, _⟩ := sound.step taken
    refine ⟨handed, advance.reaped, fun some => ?_, fun i x here => ?_⟩
    · rcases transition_reaped taken with wait | reap | same
      · exact .inl wait
      · exact .inr reap
      · obtain ⟨c, rfl⟩ := Option.isSome_iff_exists.mp some
        have longer := advance.reaped
        simp [same] at longer
    · obtain ⟨y, after, kind⟩ := advance.onward.slot i x here
      refine ⟨y, after, fun other => ?_, fun zombie => ?_⟩
      · rcases kind with fate | ⟨dead, _⟩
        · exact absurd fate.id other
        · exact dead
      · have fate := kind.resolve_right fun ⟨dead, _⟩ => by
          rw [zombie] at dead
          cases dead
        refine ⟨fate.status (.inl zombie), (fate.zombie zombie).imp And.symm fun ⟨own, dead⟩ => ⟨dead, ?_⟩⟩
        obtain ⟨c, rfl, same⟩ := Option.map_eq_some_iff.mp own
        obtain ⟨z, found, _, status⟩ := advance.zombie c rfl
        have equal := sound.tree.numbered.find_eq (List.mem_of_getElem? here)
        rw [← same, found] at equal
        cases equal
        rw [status, ← same]

/-- A child ends, is reaped by its parent, and leaves its slot to a task that is started then. -/
def reapingSchedule : List Event :=
  [.spawnKernel, .setInit 1, .spawnUser 7, .schedule, .schedule, .fork 8, .wait, .exit 5, .schedule,
  .schedule, .wait,
    .spawnUser 9]

theorem scheduling_sound_reaped :
    ∃ l, run transition .booted reapingSchedule = some l ∧ l.reaped = [(3, 5)] ∧
    (l.reaped.map (·.1)).Nodup := by
  have log : (run transition .booted reapingSchedule).map (·.reaped) = some [(3, 5)] := by decide
  obtain ⟨l, done, reaped⟩ := Option.map_eq_some_iff.mp log
  exact ⟨l, done, reaped, (scheduling_sound (.of_run .start done)).2.2.2.1⟩

end PickleOS.Tasks
