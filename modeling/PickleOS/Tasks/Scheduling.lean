import PickleOS.Tasks.Tree
import PickleOS.Syscall.Signals

set_option autoImplicit false

/-!
# The scheduler

Every path to `schedule` has interrupts off from its first look at the table on, and is one step
together with it.
-/

namespace PickleOS.Tasks

open Shared Shared.Machine Syscall

namespace Scheduler

variable (s : Scheduler)

/-- The loop that looks for the next runnable task, `turns` slots after `idx`. -/
def findRunnable : Nat → Nat → Option Nat
  | 0, _ => none
  | turns + 1, idx =>
    let idx := (idx + 1) % s.tasks.length
    if s.tasks[idx]?.any (·.state = .runnable) then some idx else findRunnable turns idx

def schedule : Scheduler :=
  if s.tasks.length = 0 then s
  else
    match s.findRunnable s.tasks.length s.current with
    | none =>
      -- Nobody else is runnable: the current task goes on if it can.
      if s.me.any fun t => t.state = .running ∨
        t.state = .runnable then s.modifyCurrent (·.inState .running) else s
    | some next =>
      if next = s.current then if s.me.any (·.state ≠ .dead) then s.modifyCurrent (·.inState .running) else s
      else s.switchTo next

def yieldNow : Scheduler := s.schedule

def blockCurrentAndSchedule : Scheduler := (s.modifyCurrent (·.inState .blocked)).schedule

end Scheduler

/-- What `do_wait` finds among the children. -/
inductive WaitScan where
  | noChildren
  | reaped (child : TaskId) (status : Int32)
  | waitMore

def Scheduler.waitScan (s : Scheduler) : WaitScan :=
  match s.me with
  | none => .noChildren
  | some t =>
    if t.children = [] then .noChildren
    else
      match t.children.findSome? fun cid => (s.find cid).filter fun c => c.state = .zombie with
      | some child => .reaped child.id child.exitStatus
      | none => .waitMore

def defaultTerminates (sig : UInt32) : Bool := !([17, 18, 23, 28, 29, 19, 20, 21, 22].contains sig)

def Task.signalled (sig : UInt32) (t : Task) : Task :=
  { t with pending := t.pending ||| (1 <<< sig), state := if t.state = .blocked then .runnable else t.state }

/-- `handler` is what the target does about the signal. -/
def Scheduler.doKill (s : Scheduler) (pid : TaskId) (sig : UInt32) (handler : UInt64) : UInt64 × Scheduler :=
  let failure := 0xFFFF_FFFF_FFFF_FFFF
  if NSIG ≤ sig.toNat then (failure, s)
  else
    match s.me with
    | none => (failure, s)
    | some cur =>
      let isChild := cur.children.contains pid || s.tasks.any fun t => t.id = pid ∧ t.parent = some cur.id
      let isInit := s.initTaskId = some cur.id
      if cur.ring = .user ∧ cur.id ≠ pid ∧ ¬isChild ∧ ¬isInit then (failure, s)
      else
        match s.find pid with
        | none => (failure, s)
        | some t =>
          let status := Int32.ofInt (128 + sig.toNat)
          if t.state = .zombie ∨ t.state = .dead then (0, s)
          else if sig = 0 then (0, s)
          else if sig = SIGKILL then (0, s.terminateTask pid status)
          else if handler = SIG_IGN then (0, s)
          else if handler = SIG_DFL then (0, if defaultTerminates sig then s.terminateTask pid status else s)
          else (0, s.modify pid (·.signalled sig))

namespace Scheduler

variable {s t u : Scheduler}

/-! ### What `schedule` picks -/

theorem findRunnable_some {turns idx i : Nat} (found : s.findRunnable turns idx = some i) :
    ∃ x, s.tasks[i]? = some x ∧ x.state = .runnable := by
  induction turns generalizing idx with
  | zero => cases found
  | succ turns ih =>
    unfold findRunnable at found
    dsimp only at found
    split at found
    next runnable =>
      cases found
      obtain ⟨x, here, fine⟩ := (Option.any_eq_true ..).mp runnable
      exact ⟨x, here, of_decide_eq_true fine⟩
    next => exact ih found

theorem findRunnable_none {turns idx : Nat} (none : s.findRunnable turns idx = none)
    {k : Nat} (within : k < turns) {x : Task}
    (here : s.tasks[(idx + k + 1) % s.tasks.length]? = some x) : x.state ≠ .runnable := by
  induction turns generalizing idx k with
  | zero => exact absurd within (Nat.not_lt_zero k)
  | succ turns ih =>
    unfold findRunnable at none
    dsimp only at none
    split at none
    next => cases none
    next other =>
      cases k with
      | zero =>
        intro runnable
        simp [here, runnable] at other
      | succ k =>
        refine ih none (Nat.lt_of_succ_lt_succ within) ?_
        rw [show (idx + 1) % s.tasks.length + k + 1 = (idx + 1) % s.tasks.length + (k + 1) from rfl,
          Nat.mod_add_mod,
          show idx + 1 + (k + 1) = idx + (k + 1) + 1 by omega]
        exact here

theorem findRunnable_finds (inside : s.current < s.tasks.length)
    {i : Nat} {x : Task} (here : s.tasks[i]? = some x)
    (runnable : x.state = .runnable) : ∃ j, s.findRunnable s.tasks.length s.current = some j := by
  -- A turn through the table passes every slot.
  refine Option.ne_none_iff_exists'.mp fun none => ?_
  have bound : i < s.tasks.length := (List.getElem?_eq_some_iff.mp here).1
  by_cases after : s.current < i
  · refine findRunnable_none none (k := i - s.current - 1) (by omega) ?_ runnable
    rw [show s.current + (i - s.current - 1) + 1 = i by omega, Nat.mod_eq_of_lt bound]
    exact here
  · refine findRunnable_none none (k := i + s.tasks.length - s.current - 1) (by omega) ?_ runnable
    rw [show s.current + (i + s.tasks.length - s.current - 1) + 1 = i + s.tasks.length by omega,
      Nat.add_mod_right,
      Nat.mod_eq_of_lt bound]
    exact here

theorem modifyCurrent_self {e : Task} (me : s.me = some e) {f : Task → Task} (same : f e = e) :
    s.modifyCurrent f = s := by
  unfold Scheduler.me at me
  have unchanged : s.tasks.modify s.current f = s.tasks := by
    apply List.ext_getElem?
    intro n
    rw [List.getElem?_modify]
    split
    next here =>
      subst here
      simp [me, same]
    next => simp
  unfold modifyCurrent
  rw [unchanged]

theorem schedule_running {e : Task} (me : s.me = some e) (running : e.state = .running) :
    s.schedule = s ∨ ∃ i x, i ≠ s.current ∧ s.tasks[i]? = some x ∧ x.state = .runnable ∧
    s.schedule = s.switchTo i := by
  -- A task that runs goes on, or a runnable one takes its place.
  have same : s.modifyCurrent (·.inState .running) = s := by
    refine modifyCurrent_self me ?_
    rw [Task.inState, ← running]
  unfold schedule
  split
  · exact .inl rfl
  · split
    · split
      · exact .inl same
      · exact .inl rfl
    next next found =>
      split
      · split
        · exact .inl same
        · exact .inl rfl
      next other =>
        obtain ⟨x, here, runnable⟩ := findRunnable_some found
        exact .inr ⟨next, x, other, here, runnable, rfl⟩

theorem schedule_away {e : Task} (me : s.me = some e) (stopped : e.state ≠ .runnable) {j : Nat} {y : Task}
    (other : s.tasks[j]? = some y) (ready : y.state = .runnable) :
    ∃ i x, i ≠ s.current ∧ s.tasks[i]? = some x ∧ x.state = .runnable ∧ s.schedule = s.switchTo i := by
  -- A task that cannot go on gives way, as long as some other can run.
  have inside : s.current < s.tasks.length := (List.getElem?_eq_some_iff.mp me).1
  obtain ⟨i, found⟩ := findRunnable_finds inside other ready
  obtain ⟨x, here, runnable⟩ := findRunnable_some found
  have elsewhere : i ≠ s.current := by
    rintro rfl
    rw [show s.tasks[s.current]? = some e from me] at here
    cases here
    exact stopped runnable
  refine ⟨i, x, elsewhere, here, runnable, ?_⟩
  unfold schedule
  rw [if_neg (by omega), found]
  exact if_neg elsewhere

theorem schedule_picks (switched : s.schedule.current ≠ s.current) :
    ∃ x, s.tasks[s.schedule.current]? = some x ∧ x.state = .runnable := by
  -- Whoever is switched to was runnable.
  unfold schedule at *
  split at switched
  · exact (switched rfl).elim
  next some =>
    rw [if_neg some]
    split at switched
    · split at switched <;> exact (switched rfl).elim
    next next found =>
      split at switched
      · split at switched <;> exact (switched rfl).elim
      next other =>
        rw [if_neg other]
        exact findRunnable_some found

theorem schedule_reaping (s : Scheduler) : s.schedule.reaping = s.reaping := by
  unfold schedule
  split
  · rfl
  · split
    · split <;> rfl
    · split
      · split <;> rfl
      · rfl

/-! ### What becomes of the tasks in their slots -/

theorem modifyFirst_eq_map {tasks : List Task} (distinct : (tasks.map (·.id)).Nodup) (id : TaskId)
    (f : Task → Task) :
    modifyFirst id f tasks = tasks.map fun x => if x.id = id then f x else x := by
  induction tasks with
  | nil => rfl
  | cons x rest ih =>
    simp only [List.map_cons, List.nodup_cons, List.mem_map, not_exists, not_and] at distinct
    by_cases first : x.id = id
    · have others : ∀ y ∈ rest, (if y.id = id then f y else y) = y := fun y member =>
        if_neg fun same => distinct.1 y member (same.trans first.symm)
      rw [modifyFirst, if_pos first, List.map_cons, if_pos first, List.map_congr_left others, List.map_id']
    · rw [modifyFirst, if_neg first, List.map_cons, if_neg first, ih distinct.2]

structure Changes (s t : Scheduler) (g : Task → Task) : Prop where
  tasks : t.tasks = s.tasks.map g
  current : t.current = s.current
  nextId : t.nextId = s.nextId
  id : ∀ x, (g x).id = x.id

namespace Changes

variable {g h : Task → Task}

theorem me (changes : Changes s t g) : t.me = s.me.map g := by
  simp [Scheduler.me, changes.tasks, changes.current]

theorem slot (changes : Changes s t g) (i : Nat) : t.tasks[i]? = s.tasks[i]?.map g := by
  simp [changes.tasks]

theorem modify (numbered : Numbered s) (id : TaskId) {f : Task → Task} (keeps : ∀ t, (f t).id = t.id) :
    Changes s (s.modify id f) fun x => if x.id = id then f x else x where
  tasks := modifyFirst_eq_map numbered.distinct id f
  current := rfl
  nextId := rfl
  id x := by
    split
    · exact keeps x
    · rfl

theorem modifyCurrent (numbered : Numbered s) {e : Task} (me : s.me = some e)
    {f : Task → Task} (keeps : ∀ t, (f t).id = t.id) :
    Changes s (s.modifyCurrent f) fun x => if x.id = e.id then f x else x := by
  rw [modifyCurrent_eq numbered me]
  exact modify numbered e.id keeps

theorem of_find (numbered : Numbered s) (same : Same s t) (current : t.current = s.current)
    {g : TaskId → Task → Task}
    (keeps : ∀ i x, (g i x).id = x.id) (find : ∀ i, t.find i = (s.find i).map (g i)) :
      Changes s t fun x => g x.id x where
  -- A change that is known by its effect on each id.
  tasks := by
    apply List.ext_getElem?
    intro n
    have ids : t.tasks[n]?.map (·.id) = s.tasks[n]?.map (·.id) := by
      rw [← List.getElem?_map, ← List.getElem?_map, same.ids]
    rw [List.getElem?_map]
    cases before : s.tasks[n]? with
    | none => simpa [before] using ids
    | some x =>
      rw [before] at ids
      obtain ⟨y, after, (id : y.id = x.id)⟩ := Option.map_eq_some_iff.mp ids
      have found := find x.id
      rw [numbered.find_eq (List.mem_of_getElem? before), ← id,
        (same.numbered numbered).find_eq (List.mem_of_getElem? after), Option.map_some, Option.some.injEq]
        at found
      rw [after, found, Option.map_some, id]
  current := current
  nextId := same.nextId
  id x := keeps x.id x

end Changes

theorem reparent_current (children : List TaskId) : (s.reparent children).current = s.current :=
  reparent_keeps (·.current) (fun _ _ _ => rfl) children

theorem notify_current (parent : Option TaskId) : (s.notify parent).current = s.current := by
  unfold notify
  split <;> rfl

theorem change_id (e : Task) (status : Int32) (reaper : Option TaskId) (i : TaskId) (x : Task) :
    (change e status reaper i x).id = x.id := by
  unfold change
  dsimp only
  split <;> split <;> split <;> split <;> rfl

theorem Changes.finish (numbered : Numbered s) (e : Task) (status : Int32) :
    Changes s (s.finish e status) fun x => change e status s.initTaskId x.id x :=
  .of_find numbered (Same.finish s e status) ((notify_current _).trans (reparent_current _))
    (change_id e status s.initTaskId)
    (find_finish e status)

/-- What may become of the task in a slot. `reaped` is the one whose status is handed out. -/
structure Fate (reaped : Option TaskId) (x y : Task) : Prop where
  id : y.id = x.id
  dead : x.state = .dead → y.state = .dead
  zombie : x.state = .zombie → reaped ≠ some x.id ∧ y.state = .zombie ∨ reaped = some x.id ∧ y.state = .dead
  -- A task dies only where it is reaped.
  buried : y.state = .dead → x.state = .dead ∨ reaped = some x.id
  status : x.state = .zombie ∨ x.state = .dead → y.exitStatus = x.exitStatus

namespace Fate

variable {x y : Task}

theorem of_same (id : y.id = x.id) (state : y.state = x.state) (status : y.exitStatus = x.exitStatus) :
    Fate none x y where
  id := id
  dead := state.trans
  zombie ended := .inl ⟨nofun, state.trans ended⟩
  buried gone := .inl (state.symm.trans gone)
  status _ := status

theorem of_alive {reaped : Option TaskId} (id : y.id = x.id) (before : x.state ≠ .zombie ∧ x.state ≠ .dead)
    (after : y.state ≠ .dead) : Fate reaped x y where
  -- A task that has not come to an end, and does not die.
  id := id
  dead gone := absurd gone before.2
  zombie ended := absurd ended before.1
  buried gone := absurd gone after
  status ended := ended.elim (absurd · before.1) (absurd · before.2)

theorem trans {reaped : Option TaskId} {z : Task} (first : Fate none x y) (second : Fate reaped y z) :
    Fate reaped x z where
  id := second.id.trans first.id
  dead gone := second.dead (first.dead gone)
  zombie ended := by
    rcases first.zombie ended with ⟨_, still⟩ | ⟨never, _⟩
    · exact first.id ▸ second.zombie still
    · cases never
  buried gone := by
    rcases second.buried gone with dead | own
    · rcases first.buried dead with before | never
      · exact .inl before
      · cases never
    · exact .inr (first.id ▸ own)
  status ended := by
    refine (second.status ?_).trans (first.status ended)
    rcases ended with zombie | dead
    · rcases first.zombie zombie with ⟨_, still⟩ | ⟨never, _⟩
      · exact .inl still
      · cases never
    · exact .inr (first.dead dead)

end Fate

/-- No slot is given away. -/
structure Keeps (reaped : Option TaskId) (s t : Scheduler) : Prop where
  nextId : t.nextId = s.nextId
  length : t.tasks.length = s.tasks.length
  slot : ∀ (i : Nat) (x : Task), s.tasks[i]? = some x → ∃ y, t.tasks[i]? = some y ∧ Fate reaped x y

/-- A dead task may lose its slot to a new one. -/
structure Onward (reaped : Option TaskId) (s t : Scheduler) : Prop where
  nextId : s.nextId ≤ t.nextId
  slot : ∀ (i : Nat) (x : Task), s.tasks[i]? = some x →
    ∃ y, t.tasks[i]? = some y ∧ (Fate reaped x y ∨ x.state = .dead ∧ s.nextId ≤ y.id)
  tasks : ∀ y ∈ t.tasks, (∃ x ∈ s.tasks, Fate reaped x y) ∨ s.nextId ≤ y.id ∧ y.state ≠ .dead

namespace Keeps

variable {reaped : Option TaskId}

theorem refl (s : Scheduler) : Keeps none s s where
  nextId := rfl
  length := rfl
  slot _ x here := ⟨x, here, .of_same rfl rfl rfl⟩

theorem trans (first : Keeps none s t) (second : Keeps reaped t u) : Keeps reaped s u where
  nextId := second.nextId.trans first.nextId
  length := second.length.trans first.length
  slot i x here := by
    obtain ⟨y, middle, early⟩ := first.slot i x here
    obtain ⟨z, last, late⟩ := second.slot i y middle
    exact ⟨z, last, early.trans late⟩

theorem onward (keeps : Keeps reaped s t) : Onward reaped s t where
  nextId := Nat.le_of_eq keeps.nextId.symm
  slot i x here := by
    obtain ⟨y, after, fate⟩ := keeps.slot i x here
    exact ⟨y, after, .inl fate⟩
  tasks y member := by
    obtain ⟨i, after⟩ := List.mem_iff_getElem?.mp member
    have bound := (List.getElem?_eq_some_iff.mp after).1
    rw [keeps.length] at bound
    obtain ⟨z, same, fate⟩ := keeps.slot i _ (List.getElem?_eq_getElem bound)
    rw [after] at same
    cases same
    exact .inl ⟨_, List.getElem_mem bound, fate⟩

end Keeps

theorem Onward.keeps (onward : Onward none s t) (keeps : Keeps none t u) : Onward none s u where
  nextId := keeps.nextId ▸ onward.nextId
  slot i x here := by
    obtain ⟨y, middle, early⟩ := onward.slot i x here
    obtain ⟨z, last, late⟩ := keeps.slot i y middle
    refine ⟨z, last, early.imp (fun fate => fate.trans late) fun ⟨dead, new⟩ => ⟨dead, ?_⟩⟩
    rw [late.id]
    exact new
  tasks z member := by
    rcases keeps.onward.tasks z member with ⟨y, middle, late⟩ | ⟨new, alive⟩
    · rcases onward.tasks y middle with ⟨x, before, early⟩ | ⟨new, alive⟩
      · exact .inl ⟨x, before, early.trans late⟩
      · refine .inr ⟨late.id ▸ new, fun gone => ?_⟩
        rcases late.buried gone with dead | never
        · exact alive dead
        · cases never
    · exact .inr ⟨Nat.le_trans onward.nextId new, alive⟩

theorem Onward.of_old {reaped : Option TaskId} (onward : Onward reaped s t) {y : Task} (member : y ∈ t.tasks)
    (old : y.id < s.nextId) : ∃ x ∈ s.tasks, Fate reaped x y :=
  (onward.tasks y member).resolve_right fun ⟨new, _⟩ => absurd old (Nat.not_lt.mpr new)

theorem Changes.keeps {g : Task → Task} {reaped : Option TaskId} (changes : Changes s t g)
    (fate : ∀ x ∈ s.tasks, Fate reaped x (g x)) : Keeps reaped s t where
  nextId := changes.nextId
  length := by simp [changes.tasks]
  slot i x here := ⟨g x, by simp [changes.slot, here], fate x (List.mem_of_getElem? here)⟩

/-! ### Who runs -/

structure Idle (s : Scheduler) : Prop where
  task : ∃ x, s.tasks[0]? = some x ∧ x.id = 0 ∧ (x.state = .runnable ∨ x.state = .running)
  -- Nobody runs but the current task, if that does.
  alone : ∀ (i : Nat) (x : Task), s.tasks[i]? = some x → x.state = .running → i = s.current

/-- Between two steps the current task runs. -/
structure Steady (s : Scheduler) : Prop extends Idle s where
  running : ∃ e, s.me = some e ∧ e.state = .running

/-- Before `schedule`, the current task may have come to an end or gone to sleep. -/
structure Halted (s : Scheduler) : Prop extends Idle s where
  stopped : ∃ e, s.me = some e ∧ e.state ≠ .running ∧ e.state ≠ .runnable

theorem Steady.me_running (steady : Steady s) {e : Task} (me : s.me = some e) : e.state = .running := by
  obtain ⟨e', me', running⟩ := steady.running
  rw [me] at me'
  cases me'
  exact running

theorem switchTo_slot {i : Nat} {x : Task} (other : i ≠ s.current) (here : s.tasks[i]? = some x) (n : Nat) :
    (s.switchTo i).tasks[n]? =
      if n = i then some (x.inState .running)
      else if n = s.current then s.tasks[n]?.map fun t => if t.state = .running then t.inState .runnable else t
      else s.tasks[n]? := by
  simp only [switchTo, Scheduler.modifyCurrent, List.getElem?_modify]
  by_cases first : n = i
  · subst first
    simp [other.symm, here]
  · by_cases second : n = s.current
    · subst second
      simp [first, Ne.symm first]
    · simp [first, Ne.symm first, second, Ne.symm second]

theorem keeps_switchTo {i : Nat} {x : Task} (other : i ≠ s.current) (here : s.tasks[i]? = some x)
    (runnable : x.state = .runnable) :
    Keeps none s (s.switchTo i) where
  nextId := rfl
  length := by simp [switchTo, Scheduler.modifyCurrent]
  slot n y there := by
    rw [switchTo_slot other here]
    by_cases first : n = i
    · subst first
      rw [here] at there
      cases there
      exact ⟨_, if_pos rfl, .of_alive rfl (by simp [runnable]) (by simp [Task.inState])⟩
    · by_cases second : n = s.current
      · refine ⟨_, by rw [if_neg first, if_pos second, there, Option.map_some], ?_⟩
        split
        next running => exact .of_alive rfl (by simp [running]) (by simp [Task.inState])
        next => exact .of_same rfl rfl rfl
      · exact ⟨y, by rw [if_neg first, if_neg second, there], .of_same rfl rfl rfl⟩

theorem Idle.switchTo (idle : Idle s) {i : Nat} {x : Task} (other : i ≠ s.current)
    (here : s.tasks[i]? = some x) :
    Steady (s.switchTo i) := by
  have current : (s.switchTo i).current = i := rfl
  refine ⟨⟨?_, ?_⟩, x.inState .running, ?_, rfl⟩
  · obtain ⟨y, first, zero, ready⟩ := idle.task
    rw [switchTo_slot other here]
    by_cases target : 0 = i
    · subst target
      rw [first] at here
      cases here
      exact ⟨_, if_pos rfl, zero, .inr rfl⟩
    · by_cases own : 0 = s.current
      · refine ⟨_, by rw [if_neg target, if_pos own, first, Option.map_some], ?_⟩
        split
        · exact ⟨zero, .inl rfl⟩
        · exact ⟨zero, ready⟩
      · exact ⟨y, by rw [if_neg target, if_neg own, first], zero, ready⟩
  · intro n y there running
    rw [switchTo_slot other here] at there
    rw [current]
    by_contra elsewhere
    rw [if_neg elsewhere] at there
    split at there
    next =>
      obtain ⟨z, _, same⟩ := Option.map_eq_some_iff.mp there
      split at same
      next =>
        subst same
        cases running
      next demoted =>
        subst same
        exact demoted running
    next apart => exact apart (idle.alone n y there running)
  · rw [Scheduler.me, current, switchTo_slot other here, if_pos rfl]

theorem Steady.schedule (steady : Steady s) (tree : Tree s) :
    Steady s.schedule ∧ Tree s.schedule ∧ Keeps none s s.schedule := by
  obtain ⟨e, me, running⟩ := steady.running
  obtain same | ⟨i, x, other, here, runnable, switched⟩ := schedule_running me running
  · rw [same]
    exact ⟨steady, tree, .refl s⟩
  · rw [switched]
    exact ⟨steady.toIdle.switchTo other here, tree.switchTo here runnable, keeps_switchTo other here runnable⟩

theorem Halted.schedule (halted : Halted s) (tree : Tree s) :
    Steady s.schedule ∧ Tree s.schedule ∧ Keeps none s s.schedule := by
  obtain ⟨e, me, stopped, unready⟩ := halted.stopped
  obtain ⟨y, first, _, ready⟩ := halted.task
  have runnable : y.state = .runnable := by
    refine ready.resolve_right fun running => stopped ?_
    have own := halted.alone 0 y first running
    rw [Scheduler.me, ← own, first] at me
    cases me
    exact running
  obtain ⟨i, x, other, here, runnable, switched⟩ := schedule_away me unready first runnable
  rw [switched]
  exact ⟨halted.toIdle.switchTo other here, tree.switchTo here runnable, keeps_switchTo other here runnable⟩

/-! ### What the operations do to both -/

section Changes

variable {g : Task → Task}

theorem Idle.changes (idle : Idle s) (changes : Changes s t g)
    (quiet : ∀ x ∈ s.tasks, (g x).state = .running → x.state = .running)
    (ready : ∀ x ∈ s.tasks, x.id = 0 → x.state = .runnable ∨ x.state = .running →
      (g x).state = .runnable ∨ (g x).state = .running) : Idle t where
  task := by
    obtain ⟨x, here, zero, state⟩ := idle.task
    refine ⟨g x, by rw [changes.slot, here, Option.map_some], (changes.id x).trans zero, ?_⟩
    exact ready x (List.mem_of_getElem? here) zero state
  alone i y there running := by
    rw [changes.slot] at there
    obtain ⟨x, here, rfl⟩ := Option.map_eq_some_iff.mp there
    rw [changes.current]
    exact idle.alone i x here (quiet x (List.mem_of_getElem? here) running)

theorem Steady.changes (steady : Steady s) (changes : Changes s t g)
    (same : ∀ x ∈ s.tasks, (g x).state = .running ↔ x.state = .running)
    (ready : ∀ x ∈ s.tasks, x.id = 0 → x.state = .runnable → (g x).state = .runnable) : Steady t where
  toIdle := by
    refine steady.toIdle.changes changes (fun x member => (same x member).mp) fun x member zero state => ?_
    exact state.imp (ready x member zero) (same x member).mpr
  running := by
    obtain ⟨e, me, running⟩ := steady.running
    exact ⟨g e, by rw [changes.me, me, Option.map_some], (same e (List.mem_of_getElem? me)).mpr running⟩

end Changes

structure Rouses (f : Task → Task) : Prop where
  id : ∀ x, (f x).id = x.id
  state : ∀ x, (f x).state = x.state ∨ x.state = .blocked ∧ (f x).state = .runnable
  status : ∀ x, (f x).exitStatus = x.exitStatus

theorem Rouses.fate {f : Task → Task} (rouses : Rouses f) (x : Task) : Fate none x (f x) := by
  rcases rouses.state x with same | ⟨slept, woken⟩
  · exact .of_same (rouses.id x) same (rouses.status x)
  · exact .of_alive (rouses.id x) (by simp [slept]) (by simp [woken])

theorem Steady.rouse (steady : Steady s) (numbered : Numbered s) (id : TaskId)
    {f : Task → Task} (rouses : Rouses f) :
    Steady (s.modify id f) ∧ Keeps none s (s.modify id f) := by
  have changes := Changes.modify numbered id rouses.id
  refine ⟨steady.changes changes (fun x _ => ?_) fun x _ _ state => ?_, changes.keeps fun x _ => ?_⟩
  · split
    · rcases rouses.state x with same | ⟨slept, woken⟩
      · rw [same]
      · simp [slept, woken]
    · exact Iff.rfl
  · split
    · rcases rouses.state x with same | ⟨slept, _⟩
      · rw [same, state]
      · rw [state] at slept
        cases slept
    · exact state
  · split
    · exact rouses.fate x
    · exact .of_same rfl rfl rfl

theorem Steady.sleep (steady : Steady s) (numbered : Numbered s) {e : Task} (me : s.me = some e)
    (other : e.id ≠ 0)
    {f : Task → Task} (id : ∀ x, (f x).id = x.id) (sleeps : ∀ x, (f x).state = .blocked) :
    Halted (s.modifyCurrent f) ∧ Keeps none s (s.modifyCurrent f) := by
  -- The current task goes to sleep.
  have changes := Changes.modifyCurrent numbered me id
  have running := steady.me_running me
  refine ⟨⟨steady.toIdle.changes changes (fun x _ awake => ?_) fun x _ zero ready => ?_, ?_⟩,
    changes.keeps fun x member => ?_⟩
  · split at awake
    · rw [sleeps] at awake
      cases awake
    · exact awake
  · rw [if_neg (zero ▸ Ne.symm other)]
    exact ready
  · refine ⟨_, by rw [changes.me, me, Option.map_some], ?_⟩
    simp [sleeps]
  · split
    next own =>
      have here := numbered.find_eq member
      rw [own, numbered.find_eq (List.mem_of_getElem? me)] at here
      cases here
      exact .of_alive (id e) (by simp [running]) (by simp [sleeps])
    next => exact .of_same rfl rfl rfl

theorem rouses_unblock : Rouses fun t => if t.state = .blocked then t.inState .runnable else t where
  id x := by split <;> rfl
  state x := by
    split
    next slept => exact .inr ⟨slept, rfl⟩
    next => exact .inl rfl
  status x := by split <;> rfl

theorem rouses_signalled (sig : UInt32) : Rouses (·.signalled sig) where
  id _ := rfl
  state x := by
    by_cases slept : x.state = .blocked <;> simp [Task.signalled, slept]
  status _ := rfl

theorem rouses_adopting (children : List TaskId) : Rouses (·.adopting children) :=
  ⟨fun _ => rfl, fun _ => .inl rfl, fun _ => rfl⟩

theorem rouses_without (child : TaskId) : Rouses (·.without child) :=
  ⟨fun _ => rfl, fun _ => .inl rfl, fun _ => rfl⟩

theorem rouses_waiting (waits : Bool) : Rouses (·.waiting waits) :=
  ⟨fun _ => rfl, fun _ => .inl rfl, fun _ => rfl⟩

theorem addTask_slot (s : Scheduler) (task : Task) : ∃ n :
    Nat, (∀ d : Task, s.tasks[n]? = some d → d.state = .dead) ∧
    ∀ i : Nat, (s.addTask task).tasks[i]? = if i = n then some task else s.tasks[i]? := by
  -- A new task takes one slot, which nobody alive is in.
  unfold addTask
  split
  next n found =>
    obtain ⟨inside, dead, _⟩ := List.findIdx?_eq_some_iff_getElem.mp found
    refine ⟨n, fun d here => ?_, fun i => ?_⟩
    · rw [List.getElem?_eq_getElem inside] at here
      cases here
      exact of_decide_eq_true dead
    · rw [List.getElem?_set]
      by_cases here : i = n
      · simp [here, inside]
      · simp [here, Ne.symm here]
  next =>
    refine ⟨s.tasks.length, fun d here => ?_, fun i => ?_⟩
    · simp at here
    · by_cases here : i = s.tasks.length
      · simp [here]
      · rw [if_neg here]
        by_cases inside : i < s.tasks.length
        · exact List.getElem?_append_left inside
        · rw [List.getElem?_eq_none (by simp; omega), List.getElem?_eq_none (by omega)]

theorem addTask_current (s : Scheduler) (task : Task) : (s.addTask task).current = s.current := by
  unfold addTask
  split <;> rfl

theorem Steady.addTask (steady : Steady s) {task : Task} (id : task.id = s.nextId)
    (ready : task.state = .runnable) :
    Steady ({ s with nextId := s.nextId + 1 }.addTask task) ∧
    Onward none s ({ s with nextId := s.nextId + 1 }.addTask task) := by
  obtain ⟨n, free, slot⟩ := addTask_slot { s with nextId := s.nextId + 1 } task
  have current := addTask_current { s with nextId := s.nextId + 1 } task
  -- Whoever is alive stays where it is.
  have stays : ∀ (i : Nat) (x : Task), s.tasks[i]? = some x → x.state ≠ .dead →
      ({ s with nextId := s.nextId + 1 }.addTask task).tasks[i]? = some x := by
    intro i x here alive
    rw [slot, if_neg, here]
    rintro rfl
    exact alive (free x here)
  refine ⟨⟨⟨?_, ?_⟩, ?_⟩, ?_, ?_, ?_⟩
  · obtain ⟨x, here, zero, state⟩ := steady.task
    exact ⟨x, stays 0 x here (by rcases state with state | state <;> simp [state]), zero, state⟩
  · intro i x there running
    rw [slot] at there
    rw [current]
    split at there
    · cases there
      rw [ready] at running
      cases running
    · exact steady.alone i x there running
  · obtain ⟨e, me, running⟩ := steady.running
    refine ⟨e, ?_, running⟩
    rw [Scheduler.me, current]
    exact stays s.current e me (by simp [running])
  · rw [(Tree.addTask_kept _ task).1]
    exact Nat.le_succ _
  · intro i x here
    rw [slot]
    split
    next taken =>
      subst taken
      exact ⟨task, rfl, .inr ⟨free x here, Nat.le_of_eq id.symm⟩⟩
    next => exact ⟨x, here, .inl (.of_same rfl rfl rfl)⟩
  · intro y member
    obtain ⟨i, there⟩ := List.mem_iff_getElem?.mp member
    rw [slot] at there
    split at there
    · cases there
      exact .inr ⟨Nat.le_of_eq id.symm, by simp [ready]⟩
    · exact .inl ⟨y, List.mem_of_getElem? there, .of_same rfl rfl rfl⟩

theorem change_status (e : Task) (status : Int32) (reaper : Option TaskId) (i : TaskId) (x : Task) :
    (change e status reaper i x).exitStatus = if i = e.id then status else x.exitStatus := by
  unfold change
  dsimp only
  split <;> split <;> split <;> split <;> rfl

section Ends

variable {e : Task} (numbered : Numbered s)
include numbered

theorem eq_of_found (found : s.find e.id = some e) {x : Task} (member : x ∈ s.tasks) (own : x.id = e.id) :
    x = e := by
  have other := numbered.find_eq member
  rw [own, found] at other
  exact (Option.some.inj other).symm

theorem keeps_finish (found : s.find e.id = some e) (alive : e.state ≠ .zombie ∧ e.state ≠ .dead)
    (status : Int32) : Keeps none s (s.finish e status) := by
  refine (Changes.finish numbered e status).keeps fun x member => ?_
  have state := change_state e status s.initTaskId x.id x
  by_cases own : x.id = e.id
  · rw [if_pos own] at state
    cases eq_of_found numbered found member own
    refine .of_alive (change_id ..) alive ?_
    rw [state]
    nofun
  · have status := change_status e status s.initTaskId x.id x
    rw [if_neg own] at state status
    split at state
    next woken => exact .of_alive (change_id ..) (by simp [woken]) (by simp [state])
    next => exact .of_same (change_id ..) state status

theorem Idle.finish (idle : Idle s) (other : e.id ≠ 0) (status : Int32) : Idle (s.finish e status) := by
  refine idle.changes (Changes.finish numbered e status) (fun x _ running => ?_) fun x _ zero ready => ?_
  · rw [change_state] at running
    split at running
    · cases running
    · split at running
      · cases running
      · exact running
  · rw [change_state, if_neg (zero ▸ Ne.symm other)]
    split
    · exact .inl rfl
    · exact ready

theorem Steady.finish (steady : Steady s) (other : e.id ≠ 0) (away : ∀ me, s.me = some me → me.id ≠ e.id)
    (status : Int32) :
    Steady (s.finish e status) where
  toIdle := steady.toIdle.finish numbered other status
  running := by
    obtain ⟨me, here, running⟩ := steady.running
    refine ⟨_, by rw [(Changes.finish numbered e status).me, here, Option.map_some], ?_⟩
    rw [change_state, if_neg (away me here)]
    simp [running]

theorem Halted.finish (idle : Idle s) (other : e.id ≠ 0) (me : s.me = some e) (status : Int32) :
    Halted (s.finish e status) where
  toIdle := idle.finish numbered other status
  stopped := by
    refine ⟨_, by rw [(Changes.finish numbered e status).me, me, Option.map_some], ?_⟩
    rw [change_state, if_pos rfl]
    simp

end Ends

theorem Steady.bury (steady : Steady s) (numbered : Numbered s)
    {c : TaskId} {z : Task} (found : s.find c = some z)
    (zombie : z.state = .zombie) : Steady (s.modify c (·.inState .dead)) ∧
      Keeps (some c) s (s.modify c (·.inState .dead)) := by
  have changes := Changes.modify numbered c (f := (·.inState .dead)) fun _ => rfl
  have stuck : ∀ x ∈ s.tasks, x.id = c → x.state = .zombie := by
    intro x member own
    have here := numbered.find_eq member
    rw [own, found] at here
    cases here
    exact zombie
  refine ⟨steady.changes changes (fun x member => ?_) fun x member _ ready => ?_,
    changes.keeps fun x member => ?_⟩
  · split
    next own => simp [stuck x member own, Task.inState]
    next => exact Iff.rfl
  · split
    next own =>
      rw [stuck x member own] at ready
      cases ready
    next => exact ready
  · split
    next own =>
      have ended := stuck x member own
      exact ⟨rfl, fun _ => rfl, fun _ => .inr ⟨congrArg some own.symm, rfl⟩,
        fun _ => .inr (congrArg some own.symm), fun _ => rfl⟩
    next own =>
      have other : some c ≠ some x.id := fun same => own (Option.some.inj same).symm
      exact ⟨rfl, id, fun ended => .inl ⟨other, ended⟩, .inl, fun _ => rfl⟩

end Scheduler

end PickleOS.Tasks
