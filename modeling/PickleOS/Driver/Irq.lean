import PickleOS.Tasks.Sleepers

set_option autoImplicit false

/-!
# The IRQ bridge

One line, with the driver that waits on it. The other tasks are those of the scheduler's timeline.
-/

namespace PickleOS.Driver.Irq

open Shared Shared.Machine Tasks Tasks.Scheduler

structure IrqLine where
  pending : UInt64
  waiter : TaskId
  count : UInt64

def IrqLine.new : IrqLine := { pending := 0, waiter := 0, count := 0 }

/-- Where the driver is in `wait`. -/
inductive Pc where
  | outside
  /-- At the head of the loop. -/
  | entered
  | disabled
  | loaded (pending : UInt64)
  | published
  /-- In `block_current_and_schedule`, from its first section on. -/
  | sleeping
  /-- `block_current_and_schedule` has enabled the interrupts again and returned. -/
  | woken
  deriving DecidableEq

def Pc.enabled : Pc → Bool
  | .outside | .entered | .woken => true
  | .disabled | .loaded _ | .published | .sleeping => false

structure Bridge where
  timeline : Timeline
  line : IrqLine
  pc : Pc
  /-- Ghost: the notifications so far. -/
  notified : Nat
  /-- Ghost: the values that `wait` has returned. -/
  returned : List UInt64
  /-- Ghost: how often `pending` has wrapped. -/
  wrapped : Nat

def Bridge.initial : Bridge where
  timeline := .booted
  line := .new
  pc := .outside
  notified := 0
  returned := []
  wrapped := 0

namespace Bridge

variable (b : Bridge) (driver : TaskId)

def runs : Bool := b.timeline.table.me.map (·.id) = some driver

def notifyFromIsr : Bridge :=
  { b with
    -- `fetch_add` wraps.
    line := { b.line with pending := b.line.pending + 1, count := b.line.count + 1 }
    timeline :=
      if b.line.waiter ≠ 0 then { b.timeline with table := b.timeline.table.unblock b.line.waiter } else
        b.timeline
    notified := b.notified + 1
    wrapped := b.wrapped + if b.line.pending + 1 = 0 then 1 else 0 }

def wait : Option Bridge :=
  match b.pc with
  | .outside => if b.timeline.acts then some { b with pc := .entered } else none
  | .entered => some { b with pc := .disabled }
  | .disabled => some { b with pc := .loaded b.line.pending }
  | .loaded p =>
    -- The value is out with the store; after the interrupts are enabled, `wait` only returns.
    if 0 < p then some { b with line := { b.line with pending := 0 }, returned := b.returned ++ [p], pc :=
      .outside }
    else some { b with line := { b.line with waiter := driver }, pc := .published }
  | .published =>
    some { b with timeline := { b.timeline with table := b.timeline.table.blockCurrentAndSchedule }, pc :=
      .sleeping }
  | .sleeping => some { b with pc := .woken }
  | .woken => some { b with line := { b.line with waiter := 0 }, pc := .entered }

end Bridge

inductive Action where
  | notify
  | driver
  | other (event : Event)

/-- What the driver does between two calls is as free as what any other task does. -/
def step (driver : TaskId) (b : Bridge) : Action → Option Bridge
  | .notify => if b.runs driver = false ∨ b.pc.enabled then some b.notifyFromIsr else none
  | .driver => if b.runs driver then b.wait driver else none
  | .other event =>
    if b.runs driver = false ∨ b.pc = .outside ∨ b.pc.enabled ∧ event.isInterrupt then
      (transition b.timeline event).map fun l => { b with timeline := l }
    else none

abbrev Reachable (driver : TaskId) (b : Bridge) : Prop := Reaches (step driver) (fun _ _ => True) .initial b

variable {driver : TaskId} {b b' : Bridge}

/-! ### Who sleeps -/

theorem not_sleeps_of_runs (sound : Sound b.timeline) (runs : b.runs driver) :
    ¬b.timeline.table.Sleeps driver :=
  sound.current_awake (of_decide_eq_true runs)

/-! ### The handshake -/

/-- What the driver has seen and published where it is. -/
def Bridge.Stands (b : Bridge) (driver : TaskId) : Prop :=
  match b.pc with
  | .loaded p => p = b.line.pending
  | .published => b.line.pending = 0 ∧ b.line.waiter = driver
  | .sleeping => b.line.waiter = driver
  | _ => True

structure Inv (driver : TaskId) (b : Bridge) : Prop where
  sound : Sound b.timeline
  balance : (b.returned.map (·.toNat)).sum + b.line.pending.toNat + 2 ^ 64 * b.wrapped = b.notified
  positive : ∀ p ∈ b.returned, 1 ≤ p
  stands : b.Stands driver
  -- With the interrupts off the driver stays on the CPU.
  masked : b.pc.enabled = false → b.pc ≠ .sleeping → b.runs driver
  asleep : b.timeline.table.Sleeps driver → b.pc = .outside ∨ b.pc = .sleeping ∧ b.line.pending = 0

theorem Inv.initial (driver : TaskId) : Inv driver .initial where
  sound := .booted
  balance := rfl
  positive := nofun
  stands := trivial
  masked := nofun
  asleep _ := .inl rfl

theorem Inv.interruptible (inv : Inv driver b) (free : b.runs driver = false ∨ b.pc.enabled) :
    b.pc.enabled ∨ b.pc = .sleeping := by
  -- Where a notification finds the driver.
  by_contra within
  obtain ⟨off, awake⟩ := not_or.mp within
  have runs := inv.masked (Bool.eq_false_iff.mpr off) awake
  exact free.elim (by simp [runs]) off

theorem Inv.notify (inv : Inv driver b) (other : driver ≠ 0) (free : b.runs driver = false ∨ b.pc.enabled) :
    Inv driver b.notifyFromIsr where
  sound := by
    unfold Bridge.notifyFromIsr
    dsimp only
    split
    · have unblocked : transition b.timeline (.unblock b.line.waiter) = some _ := rfl
      obtain ⟨_, _, sound⟩ := inv.sound.step unblocked
      exact sound
    · exact inv.sound
  balance := by
    have before := inv.balance
    have bound := b.line.pending.toNat_lt
    have next : (b.line.pending + 1).toNat = (b.line.pending.toNat + 1) % 2 ^ 64 := UInt64.toNat_add ..
    have wraps : b.line.pending + 1 = 0 ↔ (b.line.pending + 1).toNat = 0 := UInt64.toNat_inj.symm
    simp only [Bridge.notifyFromIsr, wraps, next]
    split <;> omega
  positive := inv.positive
  stands := by
    -- The driver is not between the load and the sleep.
    have stands := inv.stands
    rcases inv.interruptible free with open_ | sleeping
    · unfold Bridge.Stands Bridge.notifyFromIsr
      cases here : b.pc <;> simp [here, Pc.enabled] at open_ ⊢
    · simpa [Bridge.Stands, Bridge.notifyFromIsr, sleeping] using stands
  masked off awake := by
    rcases inv.interruptible free with open_ | sleeping
    · simp [Bridge.notifyFromIsr, open_] at off
    · exact absurd sleeping awake
  asleep := by
    intro sleeps
    by_cases waits : b.line.waiter ≠ 0
    · have woken : (b.timeline.table.unblock b.line.waiter).Sleeps driver := by
        simpa [Bridge.notifyFromIsr, waits] using sleeps
      rcases inv.asleep (sleeps_modify rouses_unblock.wakeful woken) with outside | ⟨sleeping, _⟩
      · exact .inl outside
      · have stands := inv.stands
        simp only [Bridge.Stands, sleeping] at stands
        rw [stands] at woken
        exact absurd woken (not_sleeps_unblock inv.sound.tree.numbered driver)
    · have before : b.timeline.table.Sleeps driver := by simpa [Bridge.notifyFromIsr, waits] using sleeps
      rcases inv.asleep before with outside | ⟨sleeping, _⟩
      · exact .inl outside
      · have stands := inv.stands
        simp only [Bridge.Stands, sleeping] at stands
        rw [stands] at waits
        exact absurd other waits

theorem Inv.other (inv : Inv driver b) {event : Event} {l : Timeline}
    (free : b.runs driver = false ∨ b.pc = .outside ∨ b.pc.enabled ∧ event.isInterrupt)
    (taken : transition b.timeline event = some l) :
    Inv driver { b with timeline := l } where
  sound := by
    obtain ⟨_, _, sound⟩ := inv.sound.step taken
    exact sound
  balance := inv.balance
  positive := inv.positive
  stands := inv.stands
  masked off awake := by
    have runs := inv.masked off awake
    rcases free with away | outside | ⟨open_, _⟩
    · simp [runs] at away
    · simp [outside, Pc.enabled] at off
    · simp [open_] at off
  asleep sleeps := by
    rcases free with away | outside | ⟨_, interrupt⟩
    · rcases sleeps_transition taken sleeps with before | own
      · exact inv.asleep before
      · simp [Bridge.runs, own] at away
    · exact .inl outside
    · exact inv.asleep (sleeps_interrupt interrupt taken sleeps)

theorem Inv.moves (inv : Inv driver b) (runs : b.runs driver) (timeline : b'.timeline = b.timeline)
    (balance : (b'.returned.map (·.toNat)).sum + b'.line.pending.toNat + 2 ^ 64 * b'.wrapped = b'.notified)
    (positive : ∀ p ∈ b'.returned, 1 ≤ p) (stands : b'.Stands driver) : Inv driver b' where
  -- The driver moves on, and leaves the scheduler alone.
  sound := timeline ▸ inv.sound
  balance := balance
  positive := positive
  stands := stands
  masked _ _ := by
    unfold Bridge.runs
    rw [timeline]
    exact runs
  asleep sleeps := by
    rw [timeline] at sleeps
    exact absurd sleeps (not_sleeps_of_runs inv.sound runs)

theorem Inv.blocks (inv : Inv driver b) (other : driver ≠ 0) (runs : b.runs driver)
    (published : b.pc = .published) :
    Inv driver { b with timeline :=
      { b.timeline with table := b.timeline.table.blockCurrentAndSchedule }, pc := .sleeping } where
  sound := by
    obtain ⟨e, me, id⟩ := Option.map_eq_some_iff.mp (of_decide_eq_true runs)
    obtain ⟨_, _, sound⟩ := inv.sound.sleep me (id ▸ other)
    exact sound
  balance := inv.balance
  positive := inv.positive
  stands := by
    have stands := inv.stands
    simp only [Bridge.Stands, published] at stands
    exact stands.2
  masked _ awake := absurd rfl awake
  asleep _ := by
    have stands := inv.stands
    simp only [Bridge.Stands, published] at stands
    exact .inr ⟨rfl, stands.1⟩

theorem Inv.wait (inv : Inv driver b) (other : driver ≠ 0) (runs : b.runs driver)
    (taken : b.wait driver = some b') : Inv driver b' := by
  have stands := inv.stands
  unfold Bridge.wait at taken
  cases here : b.pc with
  | outside =>
    simp only [here, Option.ite_none_right_eq_some, Option.some.injEq] at taken
    obtain ⟨_, rfl⟩ := taken
    exact inv.moves runs rfl inv.balance inv.positive trivial
  | entered =>
    rw [here] at taken
    cases taken
    exact inv.moves runs rfl inv.balance inv.positive trivial
  | disabled =>
    rw [here] at taken
    cases taken
    exact inv.moves runs rfl inv.balance inv.positive rfl
  | loaded p =>
    have fresh : p = b.line.pending := by simpa [Bridge.Stands, here] using stands
    simp only [here] at taken
    split at taken
    next some =>
      cases taken
      refine inv.moves runs rfl ?_ (fun q member => ?_) trivial
      · have before := inv.balance
        simp only [List.map_append, List.map_cons, List.map_nil, List.sum_append, List.sum_cons,
          List.sum_nil, UInt64.toNat_zero]
        rw [fresh]
        omega
      · rcases List.mem_append.mp member with old | new
        · exact inv.positive q old
        · cases List.mem_singleton.mp new
          exact UInt64.le_iff_toNat_le.mpr (UInt64.lt_iff_toNat_lt.mp some)
    next none =>
      cases taken
      refine inv.moves runs rfl inv.balance inv.positive ⟨?_, rfl⟩
      rw [← fresh]
      exact UInt64.le_zero_iff.mp (UInt64.not_lt.mp none)
  | published =>
    rw [here] at taken
    cases taken
    exact inv.blocks other runs here
  | sleeping =>
    rw [here] at taken
    cases taken
    exact inv.moves runs rfl inv.balance inv.positive trivial
  | woken =>
    rw [here] at taken
    cases taken
    exact inv.moves runs rfl inv.balance inv.positive trivial

theorem Inv.step {action : Action} (inv : Inv driver b) (other : driver ≠ 0)
    (taken : step driver b action = some b') : Inv driver b' := by
  cases action with
  | notify =>
    simp only [Irq.step, Option.ite_none_right_eq_some, Option.some.injEq] at taken
    obtain ⟨free, rfl⟩ := taken
    exact inv.notify other free
  | driver =>
    simp only [Irq.step, Option.ite_none_right_eq_some] at taken
    exact inv.wait other taken.1 taken.2
  | other event =>
    simp only [Irq.step, Option.ite_none_right_eq_some, Option.map_eq_some_iff] at taken
    obtain ⟨free, l, moved, rfl⟩ := taken
    exact inv.other free moved

theorem Inv.of_run (other : driver ≠ 0) (run : Reachable driver b) : Inv driver b :=
  run.invariant (Inv.initial driver) fun _ _ _ inv _ taken => inv.step other taken

/-- `pending` loses `2 ^ 64` notifications each time it wraps, and nothing else is lost or made up. -/
theorem notifications_accounted (other : driver ≠ 0) (run : Reachable driver b) :
    (b.returned.map (·.toNat)).sum + b.line.pending.toNat + 2 ^ 64 * b.wrapped = b.notified ∧
      (∀ p ∈ b.returned, 1 ≤ p) ∧
      ∀ x ∈ b.timeline.table.tasks, x.id = driver → x.state = .blocked → b.pc ≠ .outside →
        b.line.pending = 0 := by
  have inv := Inv.of_run other run
  refine ⟨inv.balance, inv.positive, fun x member own slept within => ?_⟩
  rcases inv.asleep ⟨x, member, own, slept⟩ with outside | ⟨_, none⟩
  · exact absurd outside within
  · exact none

/-- A sleep, a notification that ends it, and one more while the driver is at work. -/
def slept : List Action :=
  [.other .spawnKernel, .other .schedule, .driver, .driver, .driver, .driver, .driver, .notify,
  .other .schedule, .driver, .driver,
    .driver, .driver, .driver, .notify]

theorem slept_accounted : ∃ b, Reachable 1 b ∧ b.returned = [1] ∧ b.line.pending = 1 ∧
    (b.returned.map (·.toNat)).sum + b.line.pending.toNat + 2 ^ 64 * b.wrapped = b.notified ∧
      (∀ p ∈ b.returned, 1 ≤ p) ∧
      ∀ x ∈ b.timeline.table.tasks, x.id = 1 → x.state = .blocked → b.pc ≠ .outside → b.line.pending = 0 := by
  have ends : (run (step 1) .initial slept).map (fun b => (b.returned, b.line.pending)) = some ([1], 1) :=
    by decide
  obtain ⟨b, done, here⟩ := Option.map_eq_some_iff.mp ends
  obtain ⟨returned, pending⟩ := Prod.mk.inj here
  have reached : Reachable 1 b := Reaches.of_run .start done
  exact ⟨b, reached, returned, pending, notifications_accounted (by decide) reached⟩

theorem reaches_unserviced (n : Nat) : ∃ b, Reachable 1 b ∧ b.runs 1 = false ∧ b.line.waiter = 0 ∧
    b.returned = [] ∧ b.notified = n := by
  -- The idle task runs while the driver, which is not in `wait`, is not scheduled.
  induction n with
  | zero =>
    exact ⟨{ Bridge.initial with timeline := _ }, Reaches.step .start trivial (a := .other .spawnKernel)
      rfl, rfl, rfl, rfl, rfl⟩
  | succ n ih =>
    obtain ⟨b, reached, away, waiter, returned, notified⟩ := ih
    have taken : step 1 b .notify = some b.notifyFromIsr := if_pos (.inl away)
    refine ⟨b.notifyFromIsr, reached.step trivial taken, ?_, waiter, returned, congrArg Nat.succ notified⟩
    rw [← away]
    simp [Bridge.runs, Bridge.notifyFromIsr, waiter]

/-- The notification that finds `pending` at its maximum takes all of them with it. -/
theorem notifications_wrap : ∃ b, Reachable 1 b ∧ (b.returned.map (·.toNat)).sum + b.line.pending.toNat
    ≠ b.notified := by
  obtain ⟨b, reached, _, _, returned, notified⟩ := reaches_unserviced (2 ^ 64)
  refine ⟨b, reached, ?_⟩
  have bound := b.line.pending.toNat_lt
  rw [returned, notified, List.map_nil, List.sum_nil, Nat.zero_add]
  exact Nat.ne_of_lt bound

end PickleOS.Driver.Irq
