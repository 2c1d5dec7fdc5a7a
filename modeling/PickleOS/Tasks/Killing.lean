import PickleOS.Tasks.Endings
import PickleOS.Tasks.Scheduling

set_option autoImplicit false

namespace PickleOS.Tasks

open Shared Syscall

/-- What comes of a call of `do_kill`. -/
inductive KillAction where
  | nothing
  | terminate
  | post
  deriving DecidableEq

namespace Scheduler

variable (s : Scheduler)

/-- The two ways in which `do_kill` knows a child of the caller. -/
def knowsChild (cur : Task) (pid : TaskId) : Bool :=
  cur.children.contains pid || s.tasks.any fun t => t.id = pid ∧ t.parent = some cur.id

def denies (cur : Task) (pid : TaskId) : Prop :=
  cur.ring = .user ∧ cur.id ≠ pid ∧ ¬s.knowsChild cur pid ∧ ¬s.initTaskId = some cur.id

instance (cur : Task) (pid : TaskId) : Decidable (s.denies cur pid) :=
  inferInstanceAs (Decidable (_ ∧ _ ∧ _ ∧ _))

def killAction (pid : TaskId) (sig : UInt32) (handler : UInt64) : KillAction :=
  if NSIG ≤ sig.toNat then .nothing
  else
    match s.me with
    | none => .nothing
    | some cur =>
      if s.denies cur pid then .nothing
      else
        match s.find pid with
        | none => .nothing
        | some t =>
          if t.state = .zombie ∨ t.state = .dead then .nothing
          else if sig = 0 then .nothing
          else if sig = SIGKILL then .terminate
          else if handler = SIG_IGN then .nothing
          else if handler = SIG_DFL then if defaultTerminates sig then .terminate else .nothing
          else .post

end Scheduler

def killStatus (sig : UInt32) : Int32 := Int32.ofInt (128 + sig.toNat)

namespace Kernel

variable (k : Kernel)

/-- With what the modules lose that hold something for the target. -/
def doKill (pid : TaskId) (sig : UInt32) (handler : UInt64) : UInt64 × Kernel :=
  let failure := 0xFFFF_FFFF_FFFF_FFFF
  if NSIG ≤ sig.toNat then (failure, k)
  else
    match k.scheduler.me with
    | none => (failure, k)
    | some cur =>
      if k.scheduler.denies cur pid then (failure, k)
      else
        match k.scheduler.find pid with
        | none => (failure, k)
        | some t =>
          if t.state = .zombie ∨ t.state = .dead then (0, k)
          else if sig = 0 then (0, k)
          else if sig = SIGKILL then (0, k.terminateTask pid (killStatus sig))
          else if handler = SIG_IGN then (0, k)
          else if handler = SIG_DFL then (0, if defaultTerminates sig then
            k.terminateTask pid (killStatus sig) else k)
          else (0, { k with scheduler := k.scheduler.modify pid (·.signalled sig) })

end Kernel

namespace Scheduler

def carryOut (s : Scheduler) (pid : TaskId) (sig : UInt32) : KillAction → Scheduler
  | .nothing => s
  | .terminate => s.terminateTask pid (killStatus sig)
  | .post => s.modify pid (·.signalled sig)

theorem doKill_eq (s : Scheduler) (pid : TaskId) (sig : UInt32) (handler : UInt64) :
    (s.doKill pid sig handler).2 = s.carryOut pid sig (s.killAction pid sig handler) := by
  unfold doKill killAction
  dsimp only
  by_cases invalid : NSIG ≤ sig.toNat
  · simp only [invalid, if_true, carryOut]
  simp only [invalid, if_false]
  cases s.me with
  | none => rfl
  | some cur =>
    dsimp only
    by_cases denied : s.denies cur pid
    · rw [if_pos denied]
      exact congrArg Prod.snd (if_pos denied)
    rw [if_neg denied]
    refine (congrArg Prod.snd (if_neg denied)).trans ?_
    cases s.find pid with
    | none => rfl
    | some t =>
      dsimp only
      repeat' split
      all_goals rfl

end Scheduler

namespace Kernel

theorem doKill_scheduler (k : Kernel) (pid : TaskId) (sig : UInt32) (handler : UInt64) :
    (k.doKill pid sig handler).2.scheduler = k.scheduler.carryOut pid sig
      (k.scheduler.killAction pid sig handler) := by
  unfold doKill Scheduler.killAction
  dsimp only
  by_cases invalid : NSIG ≤ sig.toNat
  · simp only [invalid, if_true, Scheduler.carryOut]
  simp only [invalid, if_false]
  cases k.scheduler.me with
  | none => rfl
  | some cur =>
    dsimp only
    by_cases denied : k.scheduler.denies cur pid
    · simp only [denied, if_true, Scheduler.carryOut]
    simp only [denied, if_false]
    cases k.scheduler.find pid with
    | none => rfl
    | some t =>
      dsimp only
      repeat' split
      all_goals first
        | rfl
        | exact k.terminateTask_scheduler pid (killStatus sig)

end Kernel

/-- What may become of a task when another one is killed. -/
structure Bystander (target : Task) (reaper : Option TaskId) (x y : Task) : Prop where
  same : y.id = x.id ∧ y.ring = x.ring ∧ y.userCr3 = x.userCr3 ∧ y.exitStatus = x.exitStatus ∧
  y.waitBlocked = x.waitBlocked
  parent : y.parent = x.parent ∨ x.id ∈ target.children ∧ y.parent = reaper
  children : y.children = x.children ∨ reaper = some x.id ∧ y.children = x.children ++ target.children
  pending : y.pending = x.pending ∨ target.parent = some x.id ∧ y.pending = x.pending ||| 0x20000
  state : y.state = x.state ∨ target.parent = some x.id ∧ x.state = .blocked ∧ x.waitBlocked ∧
  y.state = .runnable

theorem Bystander.refl (target : Task) (reaper : Option TaskId) (x : Task) : Bystander target reaper x x where
  same := ⟨rfl, rfl, rfl, rfl, rfl⟩
  parent := .inl rfl
  children := .inl rfl
  pending := .inl rfl
  state := .inl rfl

namespace Scheduler

variable {s : Scheduler} {pid : TaskId} {sig : UInt32} {handler : UInt64} {e t : Task}

theorem change_bystander (reaper : Option TaskId) {x : Task} (other : x.id ≠ e.id) (status : Int32) :
    Bystander e reaper x (change e status reaper x.id x) where
  same := by
    unfold change
    rw [if_neg other]
    dsimp only
    split <;> split <;> split <;> exact ⟨rfl, rfl, rfl, rfl, rfl⟩
  parent := by
    rw [(change_links ..).1]
    split
    next child => exact .inr ⟨child, rfl⟩
    next => exact .inl rfl
  children := by
    rw [(change_links ..).2, if_neg other]
    split
    next own => exact .inr ⟨own, rfl⟩
    next => exact .inl (List.append_nil _)
  pending := by
    rw [change_pending]
    split
    next parent => exact .inr ⟨parent, rfl⟩
    next => exact .inl rfl
  state := by
    rw [change_state, if_neg other]
    split
    next woken => exact .inr ⟨woken.1, woken.2.1, woken.2.2, rfl⟩
    next => exact .inl rfl

theorem terminateTask_alive (numbered : Numbered s) (found : s.find pid = some t)
    (alive : t.state ≠ .zombie ∧ t.state ≠ .dead)
    (status : Int32) : s.terminateTask pid status = s.finish t status := by
  unfold terminateTask
  split
  next self =>
    obtain ⟨cur, me, rfl⟩ := Option.map_eq_some_iff.mp self
    rw [numbered.find_eq (List.mem_of_getElem? me)] at found
    cases found
    exact doExit_eq numbered me status
  next =>
    simp only [found, alive, or_self, if_false, finish, find_id found]

theorem killAction_permitted (acts : s.killAction pid sig handler ≠ .nothing) :
    ∃ cur t, s.me = some cur ∧ ¬s.denies cur pid ∧
    s.find pid = some t ∧ t.state ≠ .zombie ∧ t.state ≠ .dead := by
  unfold killAction at acts
  split at acts
  · exact absurd rfl acts
  split at acts
  · exact absurd rfl acts
  next cur me =>
    split at acts
    · exact absurd rfl acts
    next permitted =>
      split at acts
      · exact absurd rfl acts
      next t found =>
        split at acts
        · exact absurd rfl acts
        next alive => exact ⟨cur, t, me, permitted, found, not_or.mp alive⟩

theorem killAction_sigkill {cur : Task} (me : s.me = some cur) (permitted : ¬s.denies cur pid)
    (found : s.find pid = some t)
    (alive : t.state ≠ .zombie ∧ t.state ≠ .dead) (handler : UInt64) :
      s.killAction pid SIGKILL handler = .terminate := by
  unfold killAction
  simp only [me, found]
  rw [if_neg (by decide), if_neg permitted, if_neg (not_or.mpr alive), if_neg (by decide), if_pos trivial]

theorem carryOut_bystander (numbered : Numbered s) (acts : s.killAction pid sig handler ≠ .nothing)
    (found : s.find pid = some t)
    {i : TaskId} (other : i ≠ pid) {x : Task} (here : s.find i = some x) :
    ∃ y, (s.carryOut pid sig (s.killAction pid sig handler)).find i = some y ∧
    Bystander t s.initTaskId x y := by
  obtain ⟨_, t', _, _, found', alive⟩ := killAction_permitted acts
  cases found.symm.trans found'
  obtain rfl := find_id here
  cases s.killAction pid sig handler with
  | nothing => exact ⟨x, here, .refl ..⟩
  | terminate =>
    refine ⟨_, ?_, change_bystander s.initTaskId (e := t) (by rwa [find_id found]) (killStatus sig)⟩
    rw [carryOut, terminateTask_alive numbered found alive, find_finish, here, Option.map_some]
  | post =>
    refine ⟨x, ?_, .refl ..⟩
    rw [carryOut, find_modify (f := (·.signalled sig)) (fun _ => rfl), if_neg other, here]

end Scheduler

theorem Kernel.doKill_denied {k : Kernel} {cur : Task} {pid : TaskId} (me : k.scheduler.me = some cur)
    (denied : k.scheduler.denies cur pid) (sig : UInt32) (handler : UInt64) :
      (k.doKill pid sig handler).2 = k := by
  unfold Kernel.doKill
  dsimp only
  split
  · rfl
  · simp only [me, denied, if_true]

theorem Kernel.doKill_missing {k : Kernel} {pid : TaskId} (missing : k.scheduler.find pid = none) (sig : UInt32)
    (handler : UInt64) : (k.doKill pid sig handler).2 = k := by
  unfold Kernel.doKill
  dsimp only
  split
  · rfl
  split
  · rfl
  split
  · rfl
  · simp only [missing]

/-- A user task changes something only by a signal to itself or a child, unless it is init; nobody
that is permitted fails with `SIGKILL`; and nobody notices but the target's relatives. -/
theorem kill_confined {k : Kernel} (numbered : k.scheduler.Numbered)
    {cur : Task} (me : k.scheduler.me = some cur)
    (user : cur.ring = .user) (pid : TaskId) (sig : UInt32) (handler : UInt64) :
    ((k.doKill pid sig handler).2 ≠ k →
      cur.id = pid ∨ k.scheduler.knowsChild cur pid ∨ k.scheduler.initTaskId = some cur.id) ∧
    (∀ t, k.scheduler.find pid = some t → t.state ≠ .zombie → t.state ≠ .dead →
      cur.id = pid ∨ k.scheduler.knowsChild cur pid ∨ k.scheduler.initTaskId = some cur.id →
      ∃ y, (k.doKill pid SIGKILL handler).2.scheduler.find pid = some y ∧ y.state = .zombie ∧
      y.exitStatus = 137) ∧
    (k.scheduler.find pid = none → (k.doKill pid sig handler).2 = k) ∧
    (∀ t, k.scheduler.find pid = some t → ∀ i x, i ≠ pid → k.scheduler.find i = some x →
      ∃ y, (k.doKill pid sig handler).2.scheduler.find i = some y ∧ Bystander t k.scheduler.initTaskId x y) ∧
    (k.doKill pid sig handler).2.scheduler.tasks.map (·.id) = k.scheduler.tasks.map (·.id) := by
  refine ⟨?_, ?_, fun missing => Kernel.doKill_missing missing sig handler, ?_, ?_⟩
  · intro changed
    by_contra stranger
    rw [not_or, not_or] at stranger
    exact changed (Kernel.doKill_denied me ⟨user, stranger⟩ sig handler)
  · intro t found notZombie notDead permitted
    have allowed : ¬k.scheduler.denies cur pid := by
      rintro ⟨_, other, noChild, noInit⟩
      rcases permitted with own | child | init
      · exact other own
      · exact noChild child
      · exact noInit init
    rw [Kernel.doKill_scheduler, Scheduler.killAction_sigkill me allowed found ⟨notZombie, notDead⟩,
      Scheduler.carryOut,
      Scheduler.terminateTask_alive numbered found ⟨notZombie, notDead⟩, Scheduler.find_finish, found]
    refine ⟨_, rfl, ?_, ?_⟩
    · rw [Scheduler.change_state, if_pos (Scheduler.find_id found).symm]
    · rw [Scheduler.change_status, if_pos (Scheduler.find_id found).symm]
      decide
  · intro t found i x other here
    rw [Kernel.doKill_scheduler]
    by_cases acts : k.scheduler.killAction pid sig handler = .nothing
    · rw [acts]
      exact ⟨x, here, .refl ..⟩
    · exact Scheduler.carryOut_bystander numbered acts found other here
  · rw [Kernel.doKill_scheduler]
    cases action : k.scheduler.killAction pid sig handler with
    | nothing => rfl
    | terminate =>
      obtain ⟨_, t, _, _, found, alive⟩ := Scheduler.killAction_permitted (by rw [action]; nofun)
      rw [Scheduler.carryOut, Scheduler.terminateTask_alive numbered found alive]
      exact (Scheduler.Same.finish k.scheduler t (killStatus sig)).ids
    | post => exact modifyFirst_ids (f := (·.signalled sig)) (fun _ => rfl) _

theorem kill_confined_child : ∃ y, (Kernel.family.doKill 2 SIGKILL 0x400000).2.scheduler.find 2 = some y ∧
    y.state = .zombie ∧
    y.exitStatus = 137 := by
  have numbered := (tree_of_reachable Kernel.family_reachable).numbered
  have me : Kernel.family.scheduler.me =
      some { id := 1, state := .running, ring := .user, userCr3 := some 7, children := [2] } := by decide
  exact (kill_confined numbered me rfl 2 SIGKILL 0x400000).2.1 Kernel.child (by decide) (by decide) (by decide)
    (.inr (.inl (by decide)))

end PickleOS.Tasks
