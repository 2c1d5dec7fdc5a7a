import PickleOS.Tasks.Sleepers

set_option autoImplicit false

/-!
# The lock of the mounted file system

`lock_fs` gives the interrupt flag back when it returns the guard, and a poll of the disk yields
with the guard held.
-/

namespace PickleOS.Fs.MountLock

open Shared Shared.Machine Tasks Tasks.Scheduler

/-- Where a task is in `with_fs` or `with_fs_mut`. `enabled` is the interrupt flag of the caller. -/
inductive Pc where
  | outside
  /-- In `lock_fs`, with interrupts off. -/
  | spinning (enabled : Bool)
  /-- In the closure. -/
  | holding (enabled : Bool)
  deriving DecidableEq

structure State where
  timeline : Timeline
  /-- The task whose guard locks `MOUNTED_FS`. -/
  holder : Option Tasks.TaskId
  pc : Tasks.TaskId → Pc

def State.initial : State where
  timeline := .booted
  holder := none
  pc _ := .outside

namespace State

variable (s : State)

def current : Option Tasks.TaskId := s.timeline.table.me.map (·.id)

def goto (id : Tasks.TaskId) (pc : Pc) : State := { s with pc := Function.update s.pc id pc }

/-- The running task holds the guard. -/
def inside : Bool :=
  s.current.any fun id =>
    match s.pc id with
    | .holding _ => true
    | _ => false

end State

inductive Action where
  | lockFs (enabled : Bool)
  | tryLock
  /-- The disk is not ready yet. -/
  | sleepYield
  | dropGuard
  /-- What tasks do elsewhere, and interrupts. -/
  | other (event : Event)

def step (s : State) (a : Action) : Option State :=
  match s.current with
  | none => none
  | some id =>
    match s.pc id, a with
    | .outside, .lockFs enabled => if s.timeline.acts then some (s.goto id (.spinning enabled)) else none
    | .outside, .other event => (transition s.timeline event).map fun l => { s with timeline := l }
    -- There are no ticks here: a lock that is taken stays so.
    | .spinning enabled, .tryLock =>
      some (if s.holder = none then { s.goto id (.holding enabled) with holder := some id } else s)
    | .holding _, .sleepYield =>
      some { s with timeline := { s.timeline with table := s.timeline.table.yieldNow } }
    | .holding true, .other event =>
      if event.isInterrupt then (transition s.timeline event).map fun l => { s with timeline := l } else none
    | .holding _, .dropGuard => some { s.goto id .outside with holder := none }
    | _, _ => none

def Action.switches : Action → Bool
  | .sleepYield | .other .schedule => true
  | _ => false

/-- No tick and no yield while the running task is in the closure. -/
def Undisturbed (s : State) (a : Action) : Prop := s.inside → a.switches = false

instance (s : State) (a : Action) : Decidable (Undisturbed s a) := inferInstanceAs (Decidable (_ → _))

structure Disciplined (s : State) : Prop where
  held : ∀ h, s.holder = some h → s.current = some h
  -- Nobody spins for a task that is switched out.
  spins : ∀ i e h, s.current = some i → s.pc i = .spinning e → s.holder = some h → s.current = some h
  -- Nobody was killed with the guard.
  killed : ∀ h, s.holder = some h → ∃ x ∈ s.timeline.table.tasks, x.id = h ∧ x.state ≠ .zombie ∧
  x.state ≠ .dead

variable {s t : State}

theorem of_current {i : Tasks.TaskId} (current : s.current = some i) :
    ∃ x, s.timeline.table.me = some x ∧ x.id = i :=
  Option.map_eq_some_iff.mp current

/-- Whoever is in `with_fs` runs. -/
structure Inv (s : State) : Prop where
  sound : Sound s.timeline
  runs : ∀ i, s.pc i ≠ .outside → s.current = some i ∧ i ≠ 0
  holder : ∀ i, s.holder = some i ↔ ∃ e, s.pc i = .holding e

theorem current_unblock {u : Scheduler} (numbered : Numbered u) (id : Tasks.TaskId) :
    (u.unblock id).me.map (·.id) = u.me.map (·.id) := by
  have changes := Changes.modify numbered id rouses_unblock.id
  rw [show (u.unblock id).me = _ from changes.me, Option.map_map]
  congr 1
  exact funext changes.id

namespace Inv

theorem initial : Inv .initial where
  sound := .booted
  runs _ within := absurd rfl within
  holder _ := ⟨nofun, nofun⟩

theorem disciplined (inv : Inv s) : Disciplined s := by
  have held : ∀ h, s.holder = some h → s.current = some h := by
    intro h here
    obtain ⟨e, holding⟩ := (inv.holder h).mp here
    exact (inv.runs h (by simp [holding])).1
  refine ⟨held, fun _ _ h _ _ here => held h here, fun h here => ?_⟩
  obtain ⟨x, me, id⟩ := of_current (held h here)
  have running := inv.sound.steady.me_running me
  exact ⟨x, List.mem_of_getElem? me, id, by simp [running]⟩

theorem advance (inv : Inv s) {l : Timeline} (sound : Sound l)
    (stays : ∀ i, s.pc i ≠ .outside → s.current = some i → l.table.me.map (·.id) = some i) :
      Inv { s with timeline := l } where
  -- The timeline goes on, and whoever is in `with_fs` stays on the CPU.
  sound := sound
  runs i within := by
    obtain ⟨current, other⟩ := inv.runs i within
    exact ⟨stays i within current, other⟩
  holder := inv.holder

theorem moves (inv : Inv s) {i : Tasks.TaskId} (current : s.current = some i) (other : i ≠ 0) (pc : Pc)
    (holder : Option Tasks.TaskId)
    (held : ∀ j, holder = some j ↔ j = i ∧ ∃ e, pc = .holding e) : Inv { s.goto i pc with holder } where
  -- The running task moves on in `with_fs`, and takes the lock or lets it go.
  sound := inv.sound
  runs j within := by
    by_cases own : j = i
    · exact ⟨own ▸ current, own ▸ other⟩
    · have before : s.pc j ≠ .outside := by simpa [State.goto, own] using within
      exact inv.runs j before
  holder j := by
    rw [held j]
    by_cases own : j = i
    · simp [State.goto, own]
    · have outside : s.pc j = .outside := by
        by_contra within
        have same := current.symm.trans (inv.runs j within).1
        exact own (Option.some.inj same).symm
      simp [State.goto, own, outside]

theorem inside_of_holding {i : Tasks.TaskId} {e : Bool} (current : s.current = some i)
    (here : s.pc i = .holding e) : s.inside := by
  simp [State.inside, current, here]

theorem kept {a : Action} (inv : Inv s) (calm : Undisturbed s a) (taken : step s a = some t) : Inv t := by
  unfold step at taken
  split at taken
  · cases taken
  next i current =>
    obtain ⟨me, here, id⟩ := of_current current
    split at taken
    next enabled outside =>
      simp only [Option.ite_none_right_eq_some, Option.some.injEq] at taken
      obtain ⟨acts, rfl⟩ := taken
      obtain ⟨e, me', _, other, _⟩ := inv.sound.acting acts
      rw [here] at me'
      cases me'
      have free : s.holder = none := by
        by_contra held
        obtain ⟨h, held⟩ := Option.ne_none_iff_exists'.mp held
        obtain ⟨_, holding⟩ := (inv.holder h).mp held
        have same := current.symm.trans (inv.runs h (by simp [holding])).1
        cases same
        rw [outside] at holding
        cases holding
      have moved := inv.moves current (id ▸ other) (.spinning enabled) none (by simp)
      rw [← free] at moved
      exact moved
    next event outside =>
      obtain ⟨l, moved, rfl⟩ := Option.map_eq_some_iff.mp taken
      obtain ⟨_, _, sound⟩ := inv.sound.step moved
      refine inv.advance sound fun j within running => ?_
      -- Only the running task could be in `with_fs`, and that is not.
      cases current.symm.trans running
      exact absurd outside within
    next enabled spinning =>
      cases taken
      split
      · refine inv.moves current (inv.runs i (by simp [spinning])).2 (.holding enabled) (some i) fun j => ?_
        simp [eq_comm]
      · exact inv
    next e holding =>
      have calm := calm (inside_of_holding current holding)
      cases calm
    next event holding =>
      have calm := calm (inside_of_holding current holding)
      simp only [Option.ite_none_right_eq_some, Option.map_eq_some_iff] at taken
      obtain ⟨interrupt, l, moved, rfl⟩ := taken
      obtain ⟨_, _, sound⟩ := inv.sound.step moved
      refine inv.advance sound fun j _ running => ?_
      cases event with
      | unblock id =>
        cases moved
        exact (current_unblock inv.sound.tree.numbered id).trans running
      | schedule => cases calm
      | _ => cases interrupt
    next e holding =>
      cases taken
      exact inv.moves current (inv.runs i (by simp [holding])).2 .outside none (by simp)
    next => cases taken

theorem disturbed {a : Action} (inv : Inv s) (switched : ¬Undisturbed s a) (taken : step s a = some t) :
    ¬Disciplined t := by
  -- The scheduler takes the CPU from whoever holds the guard.
  obtain ⟨inside, entered⟩ := Classical.not_imp.mp switched
  obtain ⟨i, current, here⟩ := (Option.any_eq_true ..).mp inside
  obtain ⟨e, holding⟩ : ∃ e, s.pc i = .holding e := by
    cases pc : s.pc i with
    | holding e => exact ⟨e, rfl⟩
    | _ => simp [pc] at here
  obtain ⟨me, own, id⟩ := of_current current
  have other := (inv.runs i (by simp [holding])).2
  have away := inv.sound.steady.gives_way inv.sound.tree.numbered own (id ▸ other)
  have held := (inv.holder i).mpr ⟨e, holding⟩
  have left : t.holder = s.holder ∧ t.timeline.table = s.timeline.table.schedule := by
    simp only [step, current, holding] at taken
    cases a with
    | sleepYield =>
      cases taken
      exact ⟨rfl, rfl⟩
    | other event =>
      cases event with
      | schedule =>
        cases e with
        | false => cases taken
        | true =>
          cases taken
          exact ⟨rfl, rfl⟩
      | _ => cases entered rfl
    | _ => cases entered rfl
  intro disciplined
  have still := disciplined.held i (left.1.trans held)
  rw [State.current, left.2, ← id] at still
  exact away still

theorem of_run (run : Reaches step Undisturbed .initial s) : Inv s :=
  run.invariant .initial fun _ _ _ inv calm taken => inv.kept calm taken

end Inv

theorem hangs {i h : Tasks.TaskId} {e : Bool} (current : s.current = some i)
    (spins : s.pc i = .spinning e) (held : s.holder = some h)
    {a : Action} (taken : step s a = some t) : t = s := by
  -- A task that spins with interrupts off is never rid of the CPU.
  simp only [step, current, spins] at taken
  cases a with
  | tryLock => simpa [held, eq_comm] using taken
  | _ => cases taken

/-- The discipline is kept exactly until the scheduler is entered from the closure. -/
theorem fs_lock_disciplined (run : Reaches step Undisturbed .initial s) :
    Disciplined s ∧ ∀ a t, step s a = some t → (Disciplined t ↔ Undisturbed s a) := by
  have inv := Inv.of_run run
  refine ⟨inv.disciplined, fun a t taken => ⟨fun disciplined => ?_,
    fun calm => (inv.kept calm taken).disciplined⟩⟩
  by_contra switched
  exact inv.disturbed switched taken disciplined

theorem fs_lock_disciplined_inside : ∃ s, s.inside ∧ Disciplined s ∧
    ∀ a t, step s a = some t → (Disciplined t ↔ Undisturbed s a) := by
  have ends : (replay step Undisturbed .initial
    [.other .spawnKernel, .other .schedule, .lockFs true, .tryLock]).map (·.inside) =
      some true := by decide
  obtain ⟨s, done, inside⟩ := Option.map_eq_some_iff.mp ends
  exact ⟨s, inside, fs_lock_disciplined (Reaches.of_replay (fun _ _ => id) .start done)⟩

def preempted : List Action :=
  [.other .spawnKernel, .other .spawnKernel, .other .schedule, .lockFs true, .tryLock, .other .schedule,
  .lockFs true]

def killed : List Action :=
  [.other .spawnKernel, .other .spawnKernel, .other .schedule, .lockFs true, .tryLock, .other .schedule,
    .other (.kill 1 Syscall.SIGKILL Syscall.SIG_DFL)]

theorem fs_lock_hangs :
    (∃ s, Reaches step (fun _ _ => True) .initial s ∧ ¬Disciplined s ∧ ∀ a t, step s a = some t → t = s) ∧
      ∃ s, Reaches step (fun _ _ => True) .initial s ∧ s.holder = some 1 ∧
        ∃ x ∈ s.timeline.table.tasks, x.id = 1 ∧ x.state = .zombie := by
  constructor
  · have ends : (run step .initial preempted).map (fun s => (s.current, s.pc 2, s.holder)) =
      some (some 2, .spinning true, some 1) := by
      decide
    obtain ⟨s, done, here⟩ := Option.map_eq_some_iff.mp ends
    simp only [Prod.mk.injEq] at here
    obtain ⟨current, spins, holder⟩ := here
    refine ⟨s, Reaches.of_run .start done, fun disciplined => ?_, fun a t => hangs current spins holder⟩
    have other := disciplined.held 1 holder
    rw [current] at other
    cases other
  · have ends : (run step .initial killed).map (fun s =>
        (s.holder, decide (∃ x ∈ s.timeline.table.tasks, x.id = 1 ∧ x.state = .zombie))) =
          some (some 1, true) := by
      decide
    obtain ⟨s, done, here⟩ := Option.map_eq_some_iff.mp ends
    simp only [Prod.mk.injEq] at here
    exact ⟨s, Reaches.of_run .start done, here.1, of_decide_eq_true here.2⟩

end PickleOS.Fs.MountLock
