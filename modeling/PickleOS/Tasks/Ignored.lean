import PickleOS.Syscall.Sigreturn
import PickleOS.Tasks.Killing
import PickleOS.Tasks.Sleepers

set_option autoImplicit false

/-!
# Signals that are ignored

The pending set of a task is in the table. A signal is posted to it by `do_kill`, and by the end of
a child.
-/

namespace PickleOS.Tasks

open Shared Shared.Machine Syscall Memory

def SIGCHLD : UInt32 := 17

/-- The bit of a signal. -/
def marked (pending sig : UInt32) : Bool := pending.toBitVec.getLsbD sig.toNat

theorem marked_zero (sig : UInt32) : marked 0 sig = false := by simp [marked]

theorem marked_or (p q sig : UInt32) : marked (p ||| q) sig = (marked p sig || marked q sig) := by simp [marked]

theorem marked_shift {sig : UInt32} (small : sig.toNat < NSIG) (other : UInt32) :
    marked (1 <<< sig) other = decide (other = sig) := by
  rw [NSIG] at small
  have bit : (1 <<< sig : UInt32).toBitVec = 1#32 <<< sig.toNat := by
    simp [Nat.mod_eq_of_lt small]
  rw [marked, bit, BitVec.getLsbD_shiftLeft, Bool.eq_iff_iff]
  simp only [BitVec.getLsbD_one, Bool.and_eq_true, decide_eq_true_eq, Bool.not_eq_true',
    decide_eq_false_iff_not]
  constructor
  · rintro ⟨_, _, same⟩
    exact UInt32.toNat_inj.mp (by omega)
  · rintro rfl
    omega

theorem marked_clear {p sig other : UInt32} (small : sig.toNat < NSIG)
    (still : marked (p &&& ~~~(1 <<< sig)) other = true) :
    marked p other = true ∧ other ≠ sig := by
  have gone := marked_shift small other
  unfold marked at still gone ⊢
  simp only [UInt32.toBitVec_and, UInt32.toBitVec_not, BitVec.getLsbD_and, BitVec.getLsbD_not, gone,
    Bool.and_eq_true,
    Bool.not_eq_true', decide_eq_false_iff_not] at still
  exact ⟨still.1, still.2.2⟩

theorem marked_of_and {p sig : UInt32} (small : sig.toNat < NSIG) (here : p &&& (1 <<< sig) ≠ 0) :
    marked p sig = true := by
  rw [NSIG] at small
  by_contra unmarked
  refine here (UInt32.toBitVec_inj.mp (BitVec.eq_of_getLsbD_eq fun i inside => ?_))
  have bit := marked_shift small (UInt32.ofNat i)
  have value : (UInt32.ofNat i).toNat = i := UInt32.toNat_ofNat_of_lt' (by simp [UInt32.size]; omega)
  unfold marked at unmarked bit
  rw [value] at bit
  rw [UInt32.toBitVec_and, BitVec.getLsbD_and, bit]
  by_cases own : UInt32.ofNat i = sig
  · subst own
    rw [value] at unmarked
    simp [unmarked]
  · simp [own]

namespace Scheduler

variable {s : Scheduler} {i : TaskId} {sig : UInt32}

def Pends (s : Scheduler) (id : TaskId) (sig : UInt32) : Prop :=
  ∃ x ∈ s.tasks, x.id = id ∧ marked x.pending sig = true

/-- A change that posts nothing. -/
structure Mute (f : Task → Task) : Prop where
  id : ∀ x, (f x).id = x.id
  pending : ∀ x, (f x).pending = x.pending

theorem pends_modify {id : TaskId} {f : Task → Task} (mute : Mute f)
    (pends : (s.modify id f).Pends i sig) : s.Pends i sig := by
  obtain ⟨y, member, own, bit⟩ := pends
  rcases mem_modifyFirst member with same | ⟨x, before, _, rfl⟩
  · exact ⟨y, same, own, bit⟩
  · exact ⟨x, before, (mute.id x).symm.trans own, by rwa [← mute.pending x]⟩

theorem pends_modifyCurrent {f : Task → Task} (mute : Mute f) (pends : (s.modifyCurrent f).Pends i sig) :
    s.Pends i sig := by
  obtain ⟨y, member, own, bit⟩ := pends
  rcases mem_modify member with same | ⟨x, here, rfl⟩
  · exact ⟨y, same, own, bit⟩
  · exact ⟨x, List.mem_of_getElem? here, (mute.id x).symm.trans own, by rwa [← mute.pending x]⟩

theorem pends_addTask {task : Task} (none : task.pending = 0)
    (pends : ({ s with nextId := s.nextId + 1 }.addTask task).Pends i sig) : s.Pends i sig := by
  obtain ⟨y, member, own, bit⟩ := pends
  unfold addTask at member
  split at member
  · rcases List.mem_or_eq_of_mem_set member with same | rfl
    · exact ⟨y, same, own, bit⟩
    · simp [none, marked_zero] at bit
  · rcases List.mem_append.mp member with same | new
    · exact ⟨y, same, own, bit⟩
    · cases List.mem_singleton.mp new
      simp [none, marked_zero] at bit

theorem mute_inState (state : State) : Mute (·.inState state) := ⟨fun _ => rfl, fun _ => rfl⟩

theorem mute_adopting (children : List TaskId) : Mute (·.adopting children) := ⟨fun _ => rfl, fun _ => rfl⟩

theorem mute_without (child : TaskId) : Mute (·.without child) := ⟨fun _ => rfl, fun _ => rfl⟩

theorem mute_waiting (waits : Bool) : Mute (·.waiting waits) := ⟨fun _ => rfl, fun _ => rfl⟩

theorem mute_sleep : Mute fun t => (t.waiting true).inState .blocked := ⟨fun _ => rfl, fun _ => rfl⟩

theorem mute_ended (status : Int32) : Mute (·.ended status) := ⟨fun _ => rfl, fun _ => rfl⟩

theorem mute_demoted : Mute fun t => if t.state = .running then t.inState .runnable else t where
  id x := by split <;> rfl
  pending x := by split <;> rfl

theorem pends_switchTo {n : Nat} (pends : (s.switchTo n).Pends i sig) : s.Pends i sig := by
  obtain ⟨y, member, own, bit⟩ := pends
  rcases mem_modify member with same | ⟨x, here, rfl⟩
  · exact pends_modifyCurrent mute_demoted ⟨y, same, own, bit⟩
  · exact pends_modifyCurrent mute_demoted ⟨x, List.mem_of_getElem? here, own, bit⟩

theorem pends_schedule (pends : s.schedule.Pends i sig) : s.Pends i sig := by
  unfold schedule at pends
  split at pends
  · exact pends
  · split at pends
    · split at pends
      · exact pends_modifyCurrent (mute_inState .running) pends
      · exact pends
    · split at pends
      · split at pends
        · exact pends_modifyCurrent (mute_inState .running) pends
        · exact pends
      · exact pends_switchTo pends

theorem pends_awayIf {state : State} (pends : (s.awayIf state).Pends i sig) : s.Pends i sig := by
  unfold awayIf at pends
  split at pends
  · exact pends_schedule pends
  · exact pends

theorem pends_reparent {children : List TaskId} (pends : (s.reparent children).Pends i sig) :
    s.Pends i sig := by
  have moved : ∀ (reaper : Option TaskId) (ids : List TaskId) (u : Scheduler),
      (ids.foldl (fun u child => u.modify child (·.reparented reaper)) u).Pends i sig → u.Pends i sig := by
    intro reaper ids
    induction ids with
    | nil => exact fun _ => id
    | cons child rest ih =>
      have mute : Mute (·.reparented reaper) := ⟨fun _ => rfl, fun _ => rfl⟩
      exact fun u pends => pends_modify mute (ih (u.modify child (·.reparented reaper)) pends)
  unfold reparent at pends
  split at pends
  · exact pends
  · dsimp only at pends
    split at pends
    · exact moved _ _ s (pends_modify (mute_adopting children) pends)
    · exact moved _ _ s pends

theorem pends_post {pid : TaskId} {posted : UInt32} {f : Task → Task} (small : posted.toNat < NSIG)
    (id : ∀ x, (f x).id = x.id)
    (pending : ∀ x, (f x).pending = x.pending ||| (1 <<< posted)) (pends : (s.modify pid f).Pends i sig) :
    s.Pends i sig ∨ i = pid ∧ sig = posted := by
  obtain ⟨y, member, own, bit⟩ := pends
  rcases mem_modifyFirst member with same | ⟨x, before, target, rfl⟩
  · exact .inl ⟨y, same, own, bit⟩
  · rw [pending, marked_or, marked_shift small, Bool.or_eq_true, decide_eq_true_eq] at bit
    rcases bit with old | new
    · exact .inl ⟨x, before, (id x).symm.trans own, old⟩
    · exact .inr ⟨own.symm.trans ((id x).trans target), new⟩

theorem pends_notify {parent : Option TaskId} (pends : (s.notify parent).Pends i sig) :
    s.Pends i sig ∨ parent = some i ∧ sig = SIGCHLD := by
  unfold notify at pends
  split at pends
  next pid =>
    have bit : (0x20000 : UInt32) = 1 <<< SIGCHLD := by decide
    have pending : ∀ x : Task, x.notified.pending = x.pending ||| (1 <<< SIGCHLD) := fun x => by
      rw [← bit]
      rfl
    exact (pends_post (f := (·.notified)) (by decide) (fun _ => rfl) pending pends).imp id
      fun ⟨own, chld⟩ => ⟨own ▸ rfl, chld⟩
  next => exact .inl pends

theorem pends_doExit {status : Int32} (pends : (s.doExit status).Pends i sig) :
    s.Pends i sig ∨ s.me.bind (·.parent) = some i ∧ sig = SIGCHLD := by
  unfold doExit at pends
  split at pends
  · exact .inl pends
  next me =>
    rw [me]
    exact (pends_notify pends).imp (fun before => pends_modifyCurrent (mute_ended status)
      (pends_reparent before)) id

theorem pends_terminateTask (numbered : Numbered s) {id : TaskId} {status : Int32}
    (pends : (s.terminateTask id status).Pends i sig) :
    s.Pends i sig ∨ (s.find id).bind (·.parent) = some i ∧ sig = SIGCHLD := by
  unfold terminateTask at pends
  split at pends
  next self =>
    obtain ⟨t, me, rfl⟩ := Option.map_eq_some_iff.mp self
    rw [numbered.find_eq (List.mem_of_getElem? me), ← me]
    exact pends_doExit pends
  next =>
    split at pends
    · exact .inl pends
    next found =>
      rw [found]
      split at pends
      · exact .inl pends
      · exact (pends_notify pends).imp (fun before => pends_modify (mute_ended status)
          (pends_reparent before)) fun both => both

theorem pends_doFork {childCr3 : UInt64} (pends : (s.doFork childCr3).Pends i sig) : s.Pends i sig := by
  unfold doFork at pends
  split at pends
  · exact pends
  · split at pends
    · exact pends
    · exact pends_addTask rfl (pends_modify (mute_adopting [s.nextId]) pends)

theorem pends_doWait (pends : s.doWait.Pends i sig) : s.Pends i sig := by
  unfold doWait at pends
  split at pends
  · exact pends
  · have awake : ∀ {j}, (s.modifyCurrent (·.waiting false)).Pends j sig → s.Pends j sig :=
      pends_modifyCurrent (mute_waiting false)
    dsimp only at pends
    split at pends
    · exact awake pends
    · split at pends
      next cid _ =>
        exact awake (pends_modifyCurrent (mute_without cid) (pends_modify (mute_inState .dead) pends))
      next => exact awake (pends_modifyCurrent mute_sleep pends)

theorem pends_reapOrphans (pends : s.reapOrphans.Pends i sig) : s.Pends i sig := by
  unfold reapOrphans at pends
  split at pends
  · exact pends
  · split at pends
    · dsimp only at pends
      split at pends <;> exact pends
    · exact pends
    · exact pends
    next cid _ _ => exact pends_modify (mute_without cid) (pends_modify (mute_inState .dead) pends)

theorem pends_unblock {id : TaskId} (pends : (s.unblock id).Pends i sig) : s.Pends i sig := by
  refine pends_modify ⟨fun x => ?_, fun x => ?_⟩ pends
  · split <;> rfl
  · split <;> rfl

end Scheduler

/-- What `SignalState` has beside the pending set. -/
structure Disposition where
  handlers : Nat → UInt64
  restorer : UInt64
  saved : Option SavedSigContext

def Disposition.new : Disposition := { handlers := fun _ => SIG_DFL, restorer := 0, saved := none }

def resetForExec (s : SignalState) : SignalState where
  pending := 0
  handlers sig := if s.handlers sig = SIG_IGN then SIG_IGN else SIG_DFL
  restorer := 0
  saved := none

def Ring.ofTask : Ring → Syscall.Ring
  | .kernel => .kernel
  | .user => .user

structure Signalling where
  timeline : Timeline
  dispositions : TaskId → Disposition
  -- The rest is history that nothing looks at: what was posted while it was not ignored and has not been
  -- delivered since, and
  -- what was delivered although there was no such thing.
  owed : TaskId → UInt32 → Bool
  wronged : List (TaskId × UInt32)

inductive SignalEvent where
  /-- Anything that the table of tasks knows but `do_kill`. -/
  | table (event : Event)
  | kill (pid : TaskId) (sig : UInt32)
  | signal (sig : UInt32) (handler restorer : UInt64)
  | exec
  | sigreturn
  /-- The current task returns from a system call. -/
  | deliver (k : Ring0) (frame : TrapFrame) (ret : UInt64)

namespace Signalling

def booted : Signalling where
  timeline := .booted
  dispositions _ := .new
  owed _ _ := false
  wronged := []

variable (s : Signalling)

def handler (id : TaskId) (sig : UInt32) : UInt64 := (s.dispositions id).handlers sig.toNat

def ignores (id : TaskId) (sig : UInt32) : Prop :=
  s.handler id sig = SIG_IGN ∨ s.handler id sig = SIG_DFL ∧ defaultTerminates sig = false

def signals (t : Task) : SignalState :=
  let d := s.dispositions t.id
  { pending := t.pending, handlers := d.handlers, restorer := d.restorer, saved := d.saved }

def killAction (pid : TaskId) (sig : UInt32) : KillAction :=
  s.timeline.table.killAction pid sig (s.handler pid sig)

/-- The parent of the child that comes to an end. -/
def tells : SignalEvent → Option TaskId
  | .table (.exit _) => s.timeline.table.me.bind (·.parent)
  | .kill pid sig =>
    if s.killAction pid sig = .terminate then (s.timeline.table.find pid).bind (·.parent) else none
  | _ => none

def marks : SignalEvent → Option (TaskId × UInt32)
  | .kill pid sig => if s.killAction pid sig = .post then some (pid, sig) else none
  | _ => none

def posts (e : SignalEvent) : List (TaskId × UInt32) :=
  (s.marks e).toList ++ (s.tells e).toList.map fun parent => (parent, SIGCHLD)

instance (id : TaskId) (sig : UInt32) : Decidable (s.ignores id sig) := inferInstanceAs (Decidable (_ ∨ _ ∧ _))

def record (e : SignalEvent) : Signalling :=
  { s with owed := fun id sig => s.owed id sig || ((s.posts e).contains (id, sig) && !s.ignores id sig) }

/-- The dispositions that a new task starts with. -/
def inherited (event : Event) : TaskId → Disposition :=
  match event, s.timeline.table.me with
  | .spawnKernel, _ | .spawnUser _, _ => Function.update s.dispositions s.timeline.table.nextId .new
  | .fork _, some t =>
    Function.update s.dispositions s.timeline.table.nextId { s.dispositions t.id with saved := none }
  | _, _ => s.dispositions

/-- The signals of the current task, which has this id. -/
def store (id : TaskId) (signals : SignalState) : Signalling :=
  { s with
    timeline := { s.timeline with table :=
      s.timeline.table.modifyCurrent fun t => { t with pending := signals.pending } }
    dispositions := Function.update s.dispositions id ⟨signals.handlers, signals.restorer, signals.saved⟩ }

def pay (id : TaskId) (sig : UInt32) : Signalling :=
  { s with
    owed := Function.update s.owed id (Function.update (s.owed id) sig false)
    wronged := if s.owed id sig then s.wronged else s.wronged ++ [(id, sig)] }

def deliver (t : Task) (k : Ring0) (frame : TrapFrame) (ret : UInt64) : Option Signalling :=
  match deliverPendingSignals t.ring.ofTask k (s.signals t) frame ret, (s.signals t).nextDeliverable with
  | .panic, _ => none
  | .entered _ signals _, some (sig, _) => some ((s.pay t.id sig).store t.id signals)
  | _, _ => some s

end Signalling

def signalStep (s : Signalling) (e : SignalEvent) : Option Signalling :=
  match e with
  | .table event =>
    match event with
    | .kill .. => none
    | event =>
      (transition s.timeline event).map fun l =>
        { s.record e with timeline := l, dispositions := s.inherited event }
  | .kill pid sig =>
    (transition s.timeline (.kill pid sig (s.handler pid sig))).map fun l => { s.record e with timeline := l }
  | .signal sig handler restorer =>
    match s.timeline.table.me with
    | some t =>
      if s.timeline.acts then some (s.store t.id (doSignal (s.signals t) sig handler restorer).2) else none
    | none => none
  | .exec =>
    match s.timeline.table.me with
    | some t =>
      if s.timeline.acts then
        some { s.store t.id (resetForExec (s.signals t)) with owed := Function.update s.owed t.id fun _ =>
          false }
      else none
    | none => none
  | .sigreturn =>
    match s.timeline.table.me with
    | some t => if s.timeline.acts then some (s.store t.id { (s.signals t) with saved := none }) else none
    | none => none
  | .deliver k frame ret =>
    match s.timeline.table.me with
    | some t => if s.timeline.acts then s.deliver t k frame ret else none
    | none => none

/-- Whoever is told of the end of a child does not ignore it. -/
def Heeds (s : Signalling) (e : SignalEvent) : Prop :=
  ∀ parent, s.tells e = some parent → ¬s.ignores parent SIGCHLD

instance (s : Signalling) (e : SignalEvent) : Decidable (Heeds s e) :=
  inferInstanceAs (Decidable (∀ parent ∈ s.tells e, ¬s.ignores parent SIGCHLD))

/-- What was ignored has been discarded: no task has it pending, and none has got it. -/
structure Discards (s : Signalling) : Prop where
  pending : ∀ t ∈ s.timeline.table.tasks, ∀ sig : UInt32, marked t.pending sig = true → s.owed t.id sig = true
  delivered : s.wronged = []

namespace Scheduler

variable {s : Scheduler} {pid i : TaskId} {sig : UInt32} {handler : UInt64}

theorem killAction_post (posts : s.killAction pid sig handler = .post) :
    sig.toNat < NSIG ∧ handler ≠ SIG_IGN ∧ handler ≠ SIG_DFL := by
  unfold killAction at posts
  split at posts
  · cases posts
  next small =>
    refine ⟨Nat.lt_of_not_le small, ?_⟩
    split at posts
    · cases posts
    split at posts
    · cases posts
    split at posts
    · cases posts
    split at posts
    · cases posts
    split at posts
    · cases posts
    split at posts
    · cases posts
    split at posts
    · cases posts
    next caught =>
      split at posts
      · split at posts <;> cases posts
      next own => exact ⟨caught, own⟩

theorem pends_carryOut (numbered : Numbered s) {posted : UInt32}
    (pends : (s.carryOut pid posted (s.killAction pid posted handler)).Pends i sig) : s.Pends i sig ∨
      s.killAction pid posted handler = .terminate ∧ (s.find pid).bind (·.parent) = some i ∧ sig = SIGCHLD ∨
      s.killAction pid posted handler = .post ∧ i = pid ∧ sig = posted := by
  cases action : s.killAction pid posted handler with
  | nothing =>
    rw [action] at pends
    exact .inl pends
  | terminate =>
    rw [action] at pends
    exact (pends_terminateTask numbered pends).imp id fun told => .inl ⟨rfl, told⟩
  | post =>
    obtain ⟨small, _⟩ := killAction_post action
    rw [action] at pends
    exact (pends_post (f := (·.signalled posted)) small (fun _ => rfl) (fun _ => rfl) pends).imp id
      fun own => .inr ⟨rfl, own⟩

end Scheduler

open Scheduler

theorem pends_transition {l l' : Timeline} {event : Event} (taken : transition l event = some l')
    {i : TaskId} {sig : UInt32}
    (calm : ∀ pid posted handler, event ≠ .kill pid posted handler) (pends : l'.table.Pends i sig) :
    l.table.Pends i sig ∨ (∃ status, event = .exit status) ∧ l.table.me.bind (·.parent) = some i ∧
    sig = SIGCHLD := by
  cases event with
  | spawnKernel =>
    cases taken
    exact .inl (pends_addTask rfl pends)
  | spawnUser cr3 =>
    cases taken
    exact .inl (pends_addTask rfl pends)
  | setInit id =>
    simp only [transition, Option.ite_none_right_eq_some, Option.some.injEq] at taken
    obtain ⟨_, rfl⟩ := taken
    exact .inl pends
  | schedule =>
    cases taken
    exact .inl (pends_schedule pends)
  | block =>
    simp only [transition, Option.ite_none_right_eq_some, Option.some.injEq] at taken
    obtain ⟨_, rfl⟩ := taken
    exact .inl (pends_modifyCurrent (mute_inState .blocked) (pends_schedule pends))
  | unblock id =>
    cases taken
    exact .inl (pends_unblock pends)
  | fork childCr3 =>
    simp only [transition, Option.ite_none_right_eq_some, Option.some.injEq] at taken
    obtain ⟨_, rfl⟩ := taken
    exact .inl (pends_doFork pends)
  | exit status =>
    simp only [transition, Option.ite_none_right_eq_some, Option.some.injEq] at taken
    obtain ⟨_, rfl⟩ := taken
    exact (pends_doExit (pends_schedule pends)).imp id fun told => ⟨⟨status, rfl⟩, told⟩
  | kill pid posted handler => exact absurd rfl (calm pid posted handler)
  | wait =>
    simp only [transition, Option.ite_none_right_eq_some, Option.some.injEq] at taken
    obtain ⟨_, rfl⟩ := taken
    exact .inl (pends_doWait (pends_awayIf pends))
  | reapOrphans =>
    simp only [transition, Option.ite_none_right_eq_some, Option.some.injEq] at taken
    obtain ⟨_, rfl⟩ := taken
    exact .inl (pends_reapOrphans pends)

namespace Signalling

variable {s s' : Signalling} {e : SignalEvent} {i : TaskId} {sig : UInt32}

theorem owed_record (owed : s.owed i sig = true) : (s.record e).owed i sig = true := by simp [record, owed]

theorem owed_record_posted (posted : (i, sig) ∈ s.posts e) (heeded : ¬s.ignores i sig) :
    (s.record e).owed i sig = true := by
  simp [record, posted, heeded]

theorem mem_posts_told (told : s.tells e = some i) : (i, SIGCHLD) ∈ s.posts e := by simp [posts, told]

/-- Under `Heeds`, what is posted is owed. -/
theorem owed_told (heeds : Heeds s e) (told : s.tells e = some i) : (s.record e).owed i SIGCHLD = true :=
  owed_record_posted (mem_posts_told told) (heeds i told)

theorem owed_marked {pid : TaskId} (posts : s.killAction pid sig = .post) :
    (s.record (.kill pid sig)).owed pid sig = true := by
  obtain ⟨_, notIgnored, notDefault⟩ := killAction_post posts
  refine owed_record_posted ?_ ?_
  · simp [Signalling.posts, marks, posts]
  · rintro (ignored | ⟨default, _⟩)
    · exact notIgnored ignored
    · exact notDefault default

theorem find_store (numbered : Numbered s.timeline.table) {t : Task} (me : s.timeline.table.me = some t)
    (signals : SignalState) :
    (s.store t.id signals).timeline.table = s.timeline.table.modify t.id fun x =>
      { x with pending := signals.pending } :=
  modifyCurrent_eq numbered me fun x => { x with pending := signals.pending }

theorem mem_store (numbered : Numbered s.timeline.table) {t : Task} (me : s.timeline.table.me = some t)
    {signals : SignalState}
    {y : Task} (member : y ∈ (s.store t.id signals).timeline.table.tasks) :
    y.id = t.id ∧ y.pending = signals.pending ∨ y.id ≠ t.id ∧ y ∈ s.timeline.table.tasks := by
  rw [find_store numbered me] at member
  have here := (numbered.modify t.id (f := fun x => { x with pending := signals.pending }) fun _ =>
    rfl).find_eq member
  rw [find_modify (f := fun x => { x with pending := signals.pending }) fun _ => rfl] at here
  split at here
  next own =>
    obtain ⟨x, _, rfl⟩ := Option.map_eq_some_iff.mp here
    exact .inl ⟨own, rfl⟩
  next other => exact .inr ⟨other, find_mem here⟩

theorem sound_store (sound : Sound s.timeline) {t : Task} (me : s.timeline.table.me = some t)
    (signals : SignalState) :
    Sound (s.store t.id signals).timeline := by
  have rouses : Rouses fun x => { x with pending := signals.pending } :=
    ⟨fun _ => rfl, fun _ => .inl rfl, fun _ => rfl⟩
  obtain ⟨steady, keeps⟩ := sound.steady.rouse sound.tree.numbered t.id rouses
  have tree := sound.tree.of_same (Same.modify s.timeline.table t.id rouses.id)
    (view_modify stable_link rouses.id fun x _ =>
    ⟨rfl, rfl, .rfl, .rfl⟩)
  obtain ⟨_, _, after⟩ := sound.quiet tree steady keeps.onward rfl
  rw [← find_store sound.tree.numbered me] at after
  exact after

theorem discards_store (sound : Sound s.timeline) (discards : Discards s)
    {t : Task} (me : s.timeline.table.me = some t)
    {signals : SignalState} (owed : ∀ sig, marked signals.pending sig = true → s.owed t.id sig = true) :
    Discards (s.store t.id signals) where
  pending y member sig bit := by
    rcases mem_store sound.tree.numbered me member with ⟨own, pending⟩ | before
    · rw [pending] at bit
      exact own ▸ owed sig bit
    · exact discards.pending y before.2 sig bit
  delivered := discards.delivered

end Signalling

theorem nextDeliverable_pending {s : SignalState} {sig : UInt32}
    {handler : UInt64} (next : s.nextDeliverable = some (sig, handler)) :
    sig.toNat < NSIG ∧ marked s.pending sig = true := by
  obtain ⟨found, member, here⟩ := List.exists_of_findSome?_eq_some next
  obtain ⟨n, range, rfl⟩ := List.mem_map.mp member
  obtain ⟨_, top⟩ := List.mem_range'_1.mp range
  have small : (UInt32.ofNat n).toNat < NSIG := by
    rw [NSIG] at top ⊢
    rw [UInt32.toNat_ofNat_of_lt' (by simp [UInt32.size]; omega)]
    omega
  split at here
  next bit =>
    dsimp only at here
    split at here
    · cases here
      exact ⟨small, marked_of_and small bit⟩
    · cases here
  · cases here

theorem entered_pending {ring : Syscall.Ring} {k k' : Ring0} {s s' : SignalState}
    {frame frame' : TrapFrame} {ret handler : UInt64}
    {sig : UInt32} (next : s.nextDeliverable = some (sig, handler))
    (entered : deliverPendingSignals ring k s frame ret = .entered k' s' frame') :
      s'.pending = s.pending &&& ~~~(1 <<< sig) := by
  unfold deliverPendingSignals at entered
  split at entered
  · cases entered
  · rw [next] at entered
    dsimp only at entered
    split at entered
    · cases entered
    · split at entered
      · cases entered
      · cases entered
        exact congrArg SignalState.pending (if_pos (nextDeliverable_pending next).1)

namespace Signalling

variable {s s' : Signalling} {e : SignalEvent}

theorem discards_record {l' : Timeline} {d : TaskId → Disposition} (discards : Discards s)
    (posted : ∀ i sig, l'.table.Pends i sig → s.timeline.table.Pends i sig ∨ (s.record e).owed i sig = true) :
    Discards { s.record e with timeline := l', dispositions := d } where
  pending t member sig bit := by
    rcases posted t.id sig ⟨t, member, rfl, bit⟩ with ⟨x, before, own, old⟩ | owed
    · exact owed_record (own ▸ discards.pending x before sig old)
    · exact owed
  delivered := discards.delivered

theorem signalStep_table {event : Event} (taken : signalStep s (.table event) = some s') :
    (∀ pid posted handler, event ≠ .kill pid posted handler) ∧ ∃ l, transition s.timeline event = some l ∧
      s' = { s.record (.table event) with timeline := l, dispositions := s.inherited event } := by
  cases event with
  | kill => cases taken
  | _ =>
    simp only [signalStep, Option.map_eq_some_iff] at taken
    obtain ⟨l, moved, rfl⟩ := taken
    exact ⟨nofun, l, moved, rfl⟩

theorem discards_table (sound : Sound s.timeline) (discards : Discards s)
    {event : Event} (heeds : Heeds s (.table event))
    (taken : signalStep s (.table event) = some s') : Sound s'.timeline ∧ Discards s' := by
  obtain ⟨calm, l', moved, rfl⟩ := signalStep_table taken
  obtain ⟨_, _, after⟩ := sound.step moved
  refine ⟨after, discards_record discards fun i sig pends => ?_⟩
  refine (pends_transition moved calm pends).imp id ?_
  rintro ⟨⟨status, rfl⟩, parent, rfl⟩
  exact owed_told heeds parent

theorem discards_kill (sound : Sound s.timeline) (discards : Discards s)
    {pid : TaskId} {sig : UInt32} (heeds : Heeds s (.kill pid sig))
    (taken : signalStep s (.kill pid sig) = some s') : Sound s'.timeline ∧ Discards s' := by
  obtain ⟨l', moved, rfl⟩ := Option.map_eq_some_iff.mp taken
  obtain ⟨_, _, after⟩ := sound.step moved
  refine ⟨after, discards_record discards fun i posted pends => ?_⟩
  simp only [transition, Option.ite_none_right_eq_some, Option.some.injEq] at moved
  obtain ⟨_, rfl⟩ := moved
  have carried := pends_awayIf pends
  rw [doKill_eq] at carried
  refine (pends_carryOut sound.tree.numbered carried).imp id ?_
  rintro (⟨terminates, parent, rfl⟩ | ⟨posts, rfl, rfl⟩)
  · exact owed_told heeds ((if_pos terminates).trans parent)
  · exact owed_marked posts

theorem discards_own (sound : Sound s.timeline) (discards : Discards s)
    {t : Task} (me : s.timeline.table.me = some t)
    {signals : SignalState} (pending : signals.pending = t.pending) :
    Sound (s.store t.id signals).timeline ∧ Discards (s.store t.id signals) := by
  refine ⟨sound_store sound me signals, discards_store sound discards me fun sig bit => ?_⟩
  exact discards.pending t (List.mem_of_getElem? me) sig (pending ▸ bit)

theorem discards_exec (sound : Sound s.timeline) (discards : Discards s)
    {t : Task} (me : s.timeline.table.me = some t) :
    Sound (s.store t.id (resetForExec (s.signals t))).timeline ∧
      Discards { s.store t.id (resetForExec (s.signals t))
        with owed := Function.update s.owed t.id fun _ => false } := by
  refine ⟨sound_store sound me _, fun y member sig bit => ?_, discards.delivered⟩
  rcases mem_store sound.tree.numbered me member with ⟨_, pending⟩ | ⟨other, before⟩
  · rw [pending, show (resetForExec (s.signals t)).pending = 0 from rfl, marked_zero] at bit
    cases bit
  · exact (congrFun (Function.update_of_ne other ..) sig).trans (discards.pending y before sig bit)

theorem discards_deliver (sound : Sound s.timeline) (discards : Discards s)
    {t : Task} (me : s.timeline.table.me = some t) {k : Ring0}
    {frame : TrapFrame} {ret : UInt64} (taken : s.deliver t k frame ret = some s') : Sound s'.timeline ∧
      Discards s' := by
  unfold deliver at taken
  split at taken
  · cases taken
  next signals _ sig handler entered next =>
    cases taken
    obtain ⟨small, bit⟩ := nextDeliverable_pending next
    have owed := discards.pending t (List.mem_of_getElem? me) sig bit
    refine ⟨sound_store (s := s.pay t.id sig) sound me signals, fun y member other bit => ?_, ?_⟩
    · -- Only the signal that is delivered is owed no more.
      rcases mem_store (s := s.pay t.id sig) sound.tree.numbered me member with ⟨own, pending⟩ | ⟨apart, before⟩
      · rw [pending, entered_pending next entered] at bit
        obtain ⟨old, apart⟩ := marked_clear small bit
        rw [own]
        simp only [store, pay, Function.update_self, Function.update_of_ne apart]
        exact discards.pending t (List.mem_of_getElem? me) other old
      · simp only [store, pay, Function.update_of_ne apart]
        exact discards.pending y before other bit
    · exact (if_pos owed).trans discards.delivered
  · cases taken
    exact ⟨sound, discards⟩

theorem discards_step (sound : Sound s.timeline) (discards : Discards s) (heeds : Heeds s e)
    (taken : signalStep s e = some s') :
    Sound s'.timeline ∧ Discards s' := by
  cases e with
  | table event => exact discards_table sound discards heeds taken
  | kill pid sig => exact discards_kill sound discards heeds taken
  | signal sig handler restorer =>
    simp only [signalStep] at taken
    split at taken
    next t me =>
      simp only [Option.ite_none_right_eq_some, Option.some.injEq] at taken
      obtain ⟨_, rfl⟩ := taken
      exact discards_own sound discards me (doSignal_kept (s.signals t) sig handler restorer).2
    · cases taken
  | exec =>
    simp only [signalStep] at taken
    split at taken
    next t me =>
      simp only [Option.ite_none_right_eq_some, Option.some.injEq] at taken
      obtain ⟨_, rfl⟩ := taken
      exact discards_exec sound discards me
    · cases taken
  | sigreturn =>
    simp only [signalStep] at taken
    split at taken
    next t me =>
      simp only [Option.ite_none_right_eq_some, Option.some.injEq] at taken
      obtain ⟨_, rfl⟩ := taken
      exact discards_own sound discards me rfl
    · cases taken
  | deliver k frame ret =>
    simp only [signalStep] at taken
    split at taken
    next t me =>
      rw [Option.ite_none_right_eq_some] at taken
      exact discards_deliver sound discards me taken.2
    · cases taken

end Signalling

theorem Discards.booted : Discards .booted where
  pending t member sig bit := by
    cases List.mem_singleton.mp member
    rw [show ({ id := 0, state := .running, ring := .kernel, userCr3 := none } : Task).pending = 0
      from rfl, marked_zero] at bit
    cases bit
  delivered := rfl

/-- Ignored signals are discarded as long as nobody that ignores `SIGCHLD` loses a child. -/
theorem ignored_discarded {s : Signalling} (reached : Reaches signalStep Heeds .booted s) : Discards s := by
  have sound : Sound s.timeline ∧ Discards s := by
    refine reached.invariant (motive := fun s => Sound s.timeline ∧ Discards s) ⟨.booted, .booted⟩ ?_
    exact fun s e t both heeds taken => Signalling.discards_step both.1 both.2 heeds taken
  exact sound.2

def interruptedWork : TrapFrame := { rdi := 0, rip := 0x400100, rflags := 0x202, rsp := 0x810 }

theorem ignored_discarded_caught : ∃ s, run signalStep .booted
    [.table (.spawnUser 7), .table .schedule, .table (.fork 8), .signal SIGCHLD 0x400000 0x401000,
    .table .schedule,
      .table (.exit 5), .table .schedule, .deliver stackKernel interruptedWork 0] = some s ∧
    (s.dispositions 1).saved.isSome ∧ Discards s := by
  have computed : (replay signalStep Heeds .booted
      [.table (.spawnUser 7), .table .schedule, .table (.fork 8), .signal SIGCHLD 0x400000 0x401000,
      .table .schedule,
        .table (.exit 5), .table .schedule, .deliver stackKernel interruptedWork 0]).map
          (fun s => (s.dispositions 1).saved.isSome) =
      some true := by
    decide
  obtain ⟨s, reached, entered⟩ := Option.map_eq_some_iff.mp computed
  exact ⟨s, run_of_replay reached, entered, ignored_discarded (.of_replay (fun _ _ => id) .start reached)⟩

/-- The handler comes after the end of the child. -/
theorem ignored_delivered : ∃ s, run signalStep .booted
    [.table (.spawnUser 7), .table .schedule, .table (.fork 8), .table .schedule, .table (.exit 5),
    .table .schedule,
      .signal SIGCHLD 0x400000 0x401000, .deliver stackKernel interruptedWork 0] = some s ∧
    s.wronged = [(1, SIGCHLD)] ∧ ¬Discards s := by
  have computed : (run signalStep .booted
      [.table (.spawnUser 7), .table .schedule, .table (.fork 8), .table .schedule, .table (.exit 5),
      .table .schedule,
        .signal SIGCHLD 0x400000 0x401000, .deliver stackKernel interruptedWork 0]).map
          (·.wronged) = some [(1, SIGCHLD)] := by
    decide
  obtain ⟨s, done, wronged⟩ := Option.map_eq_some_iff.mp computed
  refine ⟨s, done, wronged, fun discards => ?_⟩
  rw [discards.delivered] at wronged
  cases wronged

end PickleOS.Tasks
