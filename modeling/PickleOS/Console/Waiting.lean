import PickleOS.Console.Input

set_option autoImplicit false

namespace PickleOS.Console.Input

open Shared Shared.Machine Tasks Tasks.Scheduler

def Pc.holds : Pc → Bool
  | .locked _ _ | .waking _ _ => true
  | _ => false

/-- The waiters that `wake_waiters` has not come to, if it runs. -/
def Pc.unwoken (waiters : List UInt32) : Pc → List UInt32
  | .waking _ rest => rest
  | _ => waiters

def State.unwoken (s : State) : List UInt32 :=
  ((s.holder.map s.pc).map (Pc.unwoken s.input.waiters)).getD s.input.waiters

structure Inv (s : State) : Prop where
  sound : Sound s.timeline
  idle : s.pc 0 = .outside
  holder : ∀ id, (s.pc id).holds → s.holder = some id
  listed : ∀ w ∈ s.unwoken, w ∈ s.input.waiters
  registered : ∀ id enabled, s.pc id = .blocking enabled → id < 0x100000000 ∧ UInt32.ofNat id ∈ s.unwoken
  waits : ∀ id, s.timeline.table.Sleeps id → (s.pc id).reads → id < 0x100000000 ∧ UInt32.ofNat id ∈ s.unwoken

variable {s t : State} {id : TaskId}

theorem unwoken_goto {pc : Pc} (before : (s.pc id).unwoken s.input.waiters = s.input.waiters)
    (after : pc.unwoken s.input.waiters = s.input.waiters) : (s.goto id pc).unwoken = s.unwoken := by
  unfold State.unwoken
  cases held : s.holder with
  | none => simp [State.goto, held]
  | some h =>
    by_cases own : h = id
    · subst own
      simp [State.goto, held, before, after]
    · simp [State.goto, held, own]

theorem unwoken_holder (held : s.holder = some id) : s.unwoken = (s.pc id).unwoken s.input.waiters := by
  simp [State.unwoken, held]

theorem unwoken_free (free : s.holder = none) : s.unwoken = s.input.waiters := by
  simp [State.unwoken, free]

namespace Inv

theorem initial : Inv .initial where
  sound := .booted
  idle := rfl
  holder _ held := by cases held
  listed _ member := member
  registered _ _ here := by cases here
  waits _ _ reads := by cases reads

theorem safe (inv : Inv s) : NoLostWakeup s := by
  intro id sleeps reads _
  obtain ⟨small, unwoken⟩ := inv.waits id sleeps reads
  refine List.mem_map.mpr ⟨UInt32.ofNat id, inv.listed _ unwoken, ?_⟩
  rw [UInt32.toNat_ofNat']
  exact Nat.mod_eq_of_lt small

/-- The timeline goes on with nobody new asleep in `read_char_blocking`. -/
theorem advances (inv : Inv s) {l : Timeline} (sound : Sound l)
    (sleeps : ∀ id, l.table.Sleeps id → (s.pc id).reads → s.timeline.table.Sleeps id) :
      Inv { s with timeline := l } where
  sound := sound
  idle := inv.idle
  holder := inv.holder
  listed := inv.listed
  registered := inv.registered
  waits id slept reads := inv.waits id (sleeps id slept reads) reads

theorem busy (inv : Inv s) (within : s.pc id ≠ .outside) : id ≠ 0 := by
  rintro rfl
  exact within inv.idle

theorem alone (inv : Inv s) (held : s.holder = some id) {other : TaskId} (away : other ≠ id) :
    (s.pc other).holds = false := by
  by_contra holds
  exact away (Option.some.inj (held.symm.trans (inv.holder other (by simpa using holds)))).symm

theorem moves (inv : Inv s) (current : s.current = some id) (busy : id ≠ 0) (timeline : t.timeline = s.timeline)
    (others : ∀ other, other ≠ id → t.pc other = s.pc other)
    (holder : ∀ other, (t.pc other).holds → t.holder = some other)
    (listed : ∀ w ∈ t.unwoken, w ∈ t.input.waiters) (unwoken : ∀ w ∈ s.unwoken, w ∈ t.unwoken)
    (own : ∀ enabled, t.pc id = .blocking enabled → id < 0x100000000 ∧ UInt32.ofNat id ∈ t.unwoken) :
      Inv t where
  sound := timeline ▸ inv.sound
  idle := (others 0 busy.symm).trans inv.idle
  holder := holder
  listed := listed
  registered other enabled here := by
    by_cases same : other = id
    · subst same
      exact own enabled here
    · obtain ⟨small, member⟩ := inv.registered other enabled (others other same ▸ here)
      exact ⟨small, unwoken _ member⟩
  waits other slept reads := by
    rw [timeline] at slept
    have away : other ≠ id := by
      rintro rfl
      exact inv.sound.current_awake current slept
    obtain ⟨small, member⟩ := inv.waits other slept (others other away ▸ reads)
    exact ⟨small, unwoken _ member⟩

theorem releases (inv : Inv s) (current : s.current = some id)
    {enabled : Bool} {op : Op} (here : s.pc id = .locked enabled op)
    {input : ConsoleInput} {pc : Pc} (free : pc.holds = false) (more : ∀ w ∈ s.input.waiters, w ∈ input.waiters)
    (own : ∀ enabled, pc = .blocking enabled → id < 0x100000000 ∧ UInt32.ofNat id ∈ input.waiters) :
      Inv (s.release id input pc) := by
  have held := inv.holder id (by rw [here]; rfl)
  have before : s.unwoken = s.input.waiters := by rw [unwoken_holder held, here]; rfl
  have after : (s.release id input pc).unwoken = input.waiters := unwoken_free rfl
  refine inv.moves current (inv.busy (by simp [here]))
    rfl (fun other away => by simp [State.release, State.goto, away])
    (fun other holds => ?_) ?_ ?_ ?_
  · by_cases same : other = id
    · subst same
      simp [State.release, State.goto, free] at holds
    · simp [State.release, State.goto, same, inv.alone held same] at holds
  · rw [after]
    exact fun _ member => member
  · rw [before, after]
    exact more
  · intro enabled blocking
    rw [after]
    exact own enabled (by simpa [State.release, State.goto] using blocking)

theorem arrives (inv : Inv s) (current : s.current = some id)
    {enabled : Bool} {op : Op} (here : s.pc id = .locked enabled op) (c : Char) :
    Inv (s.arrive id enabled c) := by
  have held := inv.holder id (by rw [here]; rfl)
  have before : s.unwoken = s.input.waiters := by rw [unwoken_holder held, here]; rfl
  have waiters : (s.arrive id enabled c).input.waiters = s.input.waiters := by
    unfold State.arrive ConsoleInput.pushChar
    dsimp only
    split <;> rfl
  have after : (s.arrive id enabled c).unwoken = s.input.waiters := by
    rw [unwoken_holder (s := s.arrive id enabled c) held]
    simp [State.arrive, State.goto, Pc.unwoken]
  refine inv.moves current (inv.busy (by simp [here]))
    rfl (fun other away => by simp [State.arrive, State.goto, away])
    (fun other holds => ?_) ?_ ?_ ?_
  · by_cases same : other = id
    · exact same ▸ held
    · exact inv.holder other (by simpa [State.arrive, State.goto, same] using holds)
  · rw [after, waiters]
    exact fun _ member => member
  · rw [before, after]
    exact fun _ member => member
  · intro enabled blocking
    simp [State.arrive, State.goto] at blocking

theorem performs (inv : Inv s) (current : s.current = some id)
    {enabled : Bool} {op : Op} (here : s.pc id = .locked enabled op)
    (small : op = .readCharBlocking → s.input.empty → id < 0x100000000) : Inv (s.perform id enabled op) := by
  have pops : ∀ w ∈ s.input.waiters, w ∈ s.input.pop.2.waiters := by
    unfold ConsoleInput.pop
    split <;> exact fun _ member => member
  cases op with
  | feedScancode key =>
    unfold State.perform
    dsimp only
    split
    · exact inv.arrives current here _
    · exact inv.releases current here rfl (fun _ member => member) fun _ blocking => by cases blocking
  | injectChar c => exact inv.arrives current here c
  | readChar => exact inv.releases current here rfl pops fun _ blocking => by cases blocking
  | hasInput | flush =>
    exact inv.releases current here rfl (fun _ member => member) fun _ blocking => by cases blocking
  | readCharBlocking =>
    unfold State.perform
    dsimp only
    split
    next empty =>
      have member : UInt32.ofNat id ∈ (s.input.register (UInt32.ofNat id)).waiters := by
        unfold ConsoleInput.register
        dsimp only
        split <;> simp [*]
      refine inv.releases current here rfl (fun w member => ?_) fun _ _ => ⟨small rfl empty, member⟩
      unfold ConsoleInput.register
      dsimp only
      split
      · exact member
      · exact List.mem_append_left _ member
    next => exact inv.releases current here rfl pops fun _ blocking => by cases blocking

theorem calls (inv : Inv s) (current : s.current = some id) (here : s.pc id = .outside)
    (acts : s.timeline.acts) {enabled : Bool} {op : Op} :
    Inv (s.goto id (.locking enabled op)) := by
  obtain ⟨e, me, _, other, _⟩ := inv.sound.acting acts
  have own : e.id = id := by
    rw [State.current, me] at current
    exact Option.some.inj current
  have same : (s.goto id (.locking enabled op)).unwoken = s.unwoken :=
    unwoken_goto (by simp [here, Pc.unwoken]) rfl
  refine inv.moves current (own ▸ other) rfl (fun other away => by simp [State.goto, away])
    (fun other holds => ?_) ?_ ?_ ?_
  · by_cases same : other = id
    · subst same
      simp [State.goto, Pc.holds] at holds
    · exact inv.holder other (by simpa [State.goto, same] using holds)
  · rw [same]
    exact inv.listed
  · rw [same]
    exact fun _ member => member
  · intro enabled blocking
    simp [State.goto] at blocking

theorem acquires (inv : Inv s) (current : s.current = some id)
    {enabled : Bool} {op : Op} (here : s.pc id = .locking enabled op)
    (free : s.holder = none) : Inv { s.goto id (.locked enabled op) with holder := some id } := by
  have before := unwoken_free free
  have after : State.unwoken { s.goto id (.locked enabled op) with holder := some id } = s.input.waiters := by
    simp [State.unwoken, State.goto, Pc.unwoken]
  refine inv.moves current (inv.busy (by simp [here])) rfl (fun other away => by simp [State.goto, away])
    (fun other holds => ?_) ?_ ?_ ?_
  · by_cases same : other = id
    · rw [same]
    · have held := inv.holder other (by simpa [State.goto, same] using holds)
      cases free.symm.trans held
  · rw [after]
    exact fun _ member => member
  · rw [before, after]
    exact fun _ member => member
  · intro enabled blocking
    simp [State.goto] at blocking

theorem wakes (inv : Inv s) (current : s.current = some id) {enabled : Bool} {w : UInt32} {rest : List UInt32}
    (here : s.pc id = .waking enabled (w :: rest))
    (clear : ∀ reader enabled, s.pc reader = .blocking enabled → UInt32.ofNat reader ≠ w) :
    Inv { s.goto id (.waking enabled rest) with timeline :=
      { s.timeline with table := s.timeline.table.unblock w.toNat } } := by
  have held := inv.holder id (by rw [here]; rfl)
  have before : s.unwoken = w :: rest := by rw [unwoken_holder held, here]; rfl
  have after : (s.goto id (.waking enabled rest)).unwoken = rest := by
    rw [unwoken_holder (s := s.goto id (.waking enabled rest)) held]
    simp [State.goto, Pc.unwoken]
  have unblocked : transition s.timeline (.unblock w.toNat) =
    some { s.timeline with table := s.timeline.table.unblock w.toNat } := rfl
  obtain ⟨_, _, sound⟩ := inv.sound.step unblocked
  have busy : id ≠ 0 := inv.busy (by simp [here])
  refine ⟨sound, by simp [State.goto, busy.symm, inv.idle], fun other holds => ?_, fun v member => ?_,
    fun reader flag blocking => ?_, fun reader slept reads => ?_⟩
  · by_cases same : other = id
    · exact same ▸ held
    · exact inv.holder other (by simpa [State.goto, same] using holds)
  · refine inv.listed v ?_
    rw [before]
    exact .tail w (after ▸ member)
  · have away : reader ≠ id := by
      rintro rfl
      simp [State.goto] at blocking
    have blocking : s.pc reader = .blocking flag := by simpa [State.goto, away] using blocking
    obtain ⟨small, member⟩ := inv.registered reader flag blocking
    rw [before] at member
    refine ⟨small, ?_⟩
    change _ ∈ (s.goto id (.waking enabled rest)).unwoken
    rw [after]
    exact (List.mem_cons.mp member).resolve_left (clear reader flag blocking)
  · have slept' : s.timeline.table.Sleeps reader := sleeps_modify rouses_unblock.wakeful slept
    have away : reader ≠ id := by
      rintro rfl
      exact inv.sound.current_awake current slept'
    obtain ⟨small, member⟩ := inv.waits reader slept' (by simpa [State.goto, away] using reads)
    rw [before] at member
    refine ⟨small, ?_⟩
    change _ ∈ (s.goto id (.waking enabled rest)).unwoken
    rw [after]
    refine (List.mem_cons.mp member).resolve_left fun own => ?_
    -- The waiter that is woken does not sleep any more.
    have same : w.toNat = reader := by
      rw [← own, UInt32.toNat_ofNat']
      exact Nat.mod_eq_of_lt small
    exact not_sleeps_unblock inv.sound.tree.numbered w.toNat (same ▸ slept)

theorem clears (inv : Inv s) (current : s.current = some id)
    {enabled : Bool} (here : s.pc id = .waking enabled []) :
    Inv (s.release id { s.input with waiters := [] } .outside) := by
  have held := inv.holder id (by rw [here]; rfl)
  have before : s.unwoken = [] := by rw [unwoken_holder held, here]; rfl
  refine inv.moves current (inv.busy (by simp [here]))
    rfl (fun other away => by simp [State.release, State.goto, away])
    (fun other holds => ?_) ?_ ?_ ?_
  · by_cases same : other = id
    · subst same
      simp [State.release, State.goto, Pc.holds] at holds
    · simp [State.release, State.goto, same, inv.alone held same] at holds
  · intro w member
    rw [unwoken_free rfl] at member
    exact member
  · rw [before]
    exact fun w member => by cases member
  · intro enabled blocking
    simp [State.release, State.goto] at blocking

theorem blocks (inv : Inv s) (current : s.current = some id)
    {enabled : Bool} (here : s.pc id = .blocking enabled) :
    Inv { s.goto id (.locking true .readCharBlocking) with
      timeline := { s.timeline with table := s.timeline.table.blockCurrentAndSchedule } } := by
  have busy : id ≠ 0 := inv.busy (by simp [here])
  obtain ⟨small, member⟩ := inv.registered id enabled here
  have same : (s.goto id (.locking true .readCharBlocking)).unwoken = s.unwoken :=
    unwoken_goto (by simp [here, Pc.unwoken]) rfl
  obtain ⟨e, me, own⟩ := Option.map_eq_some_iff.mp current
  obtain ⟨_, _, sound⟩ := inv.sound.sleep me (own ▸ busy)
  refine ⟨sound, by simp [State.goto, busy.symm, inv.idle], fun other holds => ?_, ?_,
    fun reader flag blocking => ?_,
    fun reader slept reads => ?_⟩
  · by_cases same : other = id
    · subst same
      simp [State.goto, Pc.holds] at holds
    · exact inv.holder other (by simpa [State.goto, same] using holds)
  · change ∀ w ∈ (s.goto id (.locking true .readCharBlocking)).unwoken, _
    rw [same]
    exact inv.listed
  · change _ ∧ _ ∈ (s.goto id (.locking true .readCharBlocking)).unwoken
    rw [same]
    have away : reader ≠ id := by
      rintro rfl
      simp [State.goto] at blocking
    exact inv.registered reader flag (by simpa [State.goto, away] using blocking)
  · change _ ∧ _ ∈ (s.goto id (.locking true .readCharBlocking)).unwoken
    rw [same]
    by_cases own : reader = id
    · subst own
      exact ⟨small, member⟩
    · refine inv.waits reader ?_ (by simpa [State.goto, own] using reads)
      have slept : (s.timeline.table.modifyCurrent (·.inState .blocked)).Sleeps reader := sleeps_schedule slept
      have changed : ∀ x : Task, (x.inState .blocked).id = x.id := fun _ => rfl
      rcases sleeps_modifyCurrent changed slept with before | runs
      · exact before
      · exact absurd (Option.some.inj (current.symm.trans runs)).symm own

theorem advance (inv : Inv s) (quiet : Undisturbed s .advance) (current : s.current = some id)
    (taken : s.advance id = some t) : Inv t := by
  have quiet := quiet id current
  unfold State.advance at taken
  cases here : s.pc id with
  | outside => simp [here] at taken
  | locking enabled op =>
    simp only [here, Option.some.injEq] at taken
    subst taken
    split
    next free => exact inv.acquires current here free
    next => exact inv
  | locked enabled op =>
    simp only [here, Option.some.injEq] at taken quiet
    subst taken
    refine inv.performs current here fun reads empty => ?_
    subst reads
    exact quiet empty
  | waking enabled rest =>
    cases rest with
    | nil =>
      simp only [here, Option.some.injEq] at taken
      subst taken
      exact inv.clears current here
    | cons w rest =>
      simp only [here, Option.some.injEq] at taken quiet
      subst taken
      exact inv.wakes current here quiet
  | blocking enabled =>
    simp only [here, Option.some.injEq] at taken
    subst taken
    exact inv.blocks current here

theorem kept {a : Action} (inv : Inv s) (quiet : Undisturbed s a) (taken : step s a = some t) : Inv t := by
  unfold step at taken
  split at taken
  · cases taken
  next id current =>
    cases a with
    | advance => exact inv.advance quiet current taken
    | call enabled op =>
      cases here : s.pc id with
      | outside =>
        simp only [here, Option.ite_none_right_eq_some, Option.some.injEq] at taken
        obtain ⟨acts, rfl⟩ := taken
        exact inv.calls current here acts
      | _ => simp [here] at taken
    | other event =>
      have interrupts {l : Timeline} (interrupt : event.isInterrupt)
        (moved : transition s.timeline event = some l) :
          Inv { s with timeline := l } := by
        obtain ⟨_, _, sound⟩ := inv.sound.step moved
        exact inv.advances sound fun _ slept _ => sleeps_interrupt interrupt moved slept
      cases here : s.pc id with
      | outside =>
        simp only [here, Option.map_eq_some_iff] at taken
        obtain ⟨l, moved, rfl⟩ := taken
        obtain ⟨_, _, sound⟩ := inv.sound.step moved
        refine inv.advances sound fun reader slept reads => ?_
        -- The running task is not in `read_char_blocking`.
        rcases sleeps_transition moved slept with before | runs
        · exact before
        · cases current.symm.trans runs
          simp [here, Pc.reads] at reads
      | _ =>
        simp only [here, Option.ite_none_right_eq_some, Option.map_eq_some_iff] at taken
        obtain ⟨⟨-, interrupt⟩, l, moved, rfl⟩ := taken
        exact interrupts interrupt moved

theorem of_run (run : Reaches step Undisturbed .initial s) : Inv s :=
  run.invariant .initial fun _ _ _ inv quiet taken => inv.kept quiet taken

end Inv

/-- As long as no wake-up meets a task between its registration and its sleep, a task asleep in
`read_char_blocking` is a waiter. -/
theorem input_wakes (run : Reaches step Undisturbed .initial s) : NoLostWakeup s := (Inv.of_run run).safe

def asleep : List Action :=
  [.other .spawnKernel, .other .spawnKernel, .other .spawnKernel, .other .schedule,
  .call false .readCharBlocking, .advance, .advance,
    .advance]

/-- Nobody is woken in this step, and the running task has a small id. -/
def calm (s : State) (_ : Action) : Bool :=
  s.current.all fun id =>
    match s.pc id with
    | .waking _ (_ :: _) => false
    | _ => id < 0x100000000

theorem undisturbed_of_calm {a : Action} (calms : calm s a) : Undisturbed s a := by
  cases a with
  | advance =>
    intro id current
    simp only [calm, current, Option.all_some] at calms
    split
    next here => simp [here] at calms
    next here =>
      simp only [here, decide_eq_true_eq] at calms
      exact fun _ => calms
    next => trivial
  | _ => trivial

theorem input_wakes_asleep : ∃ s : State, s.timeline.table.Sleeps 1 ∧ (s.pc 1).reads ∧ NoLostWakeup s := by
  have ends : (replay step (fun s a => calm s a) .initial asleep).map (fun s =>
      (decide (∃ x ∈ s.timeline.table.tasks, x.id = 1 ∧ x.state = .blocked), (s.pc 1).reads)) =
        some (true, true) := by decide
  obtain ⟨s, done, here⟩ := Option.map_eq_some_iff.mp ends
  simp only [Prod.mk.injEq, decide_eq_true_eq] at here
  obtain ⟨sleeps, reads⟩ := here
  exact ⟨s, sleeps, reads, input_wakes (Reaches.of_replay (fun _ _ => undisturbed_of_calm) .start done)⟩

def feed (c : Char) : List Action := [.call true (.injectChar c), .advance, .advance, .advance, .advance]

def overtaken : List Action :=
  asleep ++ feed 'a' ++ [.other .schedule, .call true .readChar, .advance, .advance, .other .schedule,
    .other .schedule, .advance,
    .advance, .other .schedule] ++ feed 'b' ++ [.other .schedule, .other .schedule, .other .schedule, .advance]

theorem input_lost : ∃ s, Reachable s ∧ ¬NoLostWakeup s := by
  have ends : (run step .initial overtaken).map (fun s =>
      (decide (∃ x ∈ s.timeline.table.tasks, x.id = 1 ∧ x.state = .blocked), (s.pc 1).reads,
      s.input.empty, s.input.waiters)) =
      some (true, true, false, []) := by decide
  obtain ⟨s, done, here⟩ := Option.map_eq_some_iff.mp ends
  simp only [Prod.mk.injEq, decide_eq_true_eq] at here
  obtain ⟨sleeps, reads, filled, waiters⟩ := here
  refine ⟨s, Reaches.of_run .start done, fun safe => ?_⟩
  have member := safe 1 sleeps reads (by simp [filled])
  rw [waiters] at member
  cases member

end PickleOS.Console.Input
