import PickleOS.Tasks.Tree

set_option autoImplicit false

namespace PickleOS.Tasks

open Shared Shared.Machine Scheduler

/-- All that counts here: whom a task names as its parent, and whether it has ended. -/
structure Kin where
  parent : Option TaskId
  zombie : Bool

def Task.kin (t : Task) : Kin := ⟨t.parent, t.state = .zombie⟩

theorem stable_kin : Stable Task.kin := fun f t neutral => by
  simp [Task.kin, neutral.parent, neutral.zombie]

section Operations

variable {s : Scheduler}

theorem kin_some {id : TaskId} {k : Kin} : s.view Task.kin id = some k ↔ ∃ t, s.live id = some t ∧
    t.kin = k := by
  simp [view]

theorem kin_spawn (numbered : Numbered s) (ring : Ring) (userCr3 : Option UInt64) (i : TaskId) :
    (s.spawn ring userCr3).view Task.kin i = if i = s.nextId then some ⟨none, false⟩ else
      s.view Task.kin i := by
  unfold view spawn
  rw [live_addTask (s := { s with nextId := s.nextId + 1 }) numbered.next
    (fun u member => Nat.ne_of_lt (numbered.below u member)) (by simp)]
  by_cases new : i = s.nextId
  · simp [new, Task.kin]
  · simp [new, live, find]

theorem kin_forked (numbered : Numbered s) (p : TaskId) (childCr3 : UInt64) (i : TaskId) :
    (s.forked p childCr3).view Task.kin i = if i = s.nextId then some ⟨some p, false⟩ else
      s.view Task.kin i := by
  unfold forked view
  rw [live_modify (f := (·.adopting [s.nextId])) (fun _ => rfl) (fun _ _ => Iff.rfl),
    live_addTask (s := { s with nextId := s.nextId + 1 }) numbered.next
      (fun u member => Nat.ne_of_lt (numbered.below u member)) (by simp)]
  by_cases new : i = s.nextId
  · subst new
    by_cases parent : s.nextId = p
    · simp [parent, Task.kin, Task.adopting]
    · simp [parent, Task.kin]
  · by_cases parent : i = p
    · subst parent
      simp only [if_true, new, if_false, Option.map_map]
      rfl
    · simp only [new, parent, if_false]
      rfl

theorem change_zombie (e : Task) (status : Int32) (reaper : Option TaskId) (i : TaskId) (t : Task) :
    (change e status reaper i t).state = .zombie ↔ i = e.id ∨ t.state = .zombie := by
  -- Only the end of a task makes a zombie of it: a wake-up is for sleepers.
  rw [change_state]
  by_cases own : i = e.id
  · simp [own]
  · by_cases told : e.parent = some i ∧ t.state = .blocked ∧ t.waitBlocked
    · simp [own, told]
    · simp [own, told]

theorem kin_finish {e : Task} (alive : s.live e.id = some e) (status : Int32) (i : TaskId) :
    (s.finish e status).view Task.kin i = (s.view Task.kin i).map fun k =>
      ⟨if i ∈ e.children then s.initTaskId else k.parent, i = e.id || k.zombie⟩ := by
  unfold view
  rw [live_finish alive, Option.map_map, Option.map_map]
  congr 1
  funext t
  simp only [Function.comp_apply, Task.kin, (change_links e status s.initTaskId i t).1, change_zombie,
    Bool.decide_or]

theorem kin_reap (p c i : TaskId) :
    ((s.modify p (·.without c)).modify c (·.inState .dead)).view Task.kin i = if i = c then none else
      s.view Task.kin i := by
  unfold view
  rw [live_bury, live_modify (f := (·.without c)) (fun _ => rfl) (fun _ _ => Iff.rfl)]
  by_cases gone : i = c
  · simp [gone]
  · by_cases parent : i = p
    · subst parent
      simp only [gone, if_true, if_false, Option.map_map]
      rfl
    · simp [gone, parent]

end Operations

open Scheduler in
/-- Every parent is there to reap, and so is init. -/
structure Kept (s : Scheduler) : Prop where
  followed : ∀ c k, s.view Task.kin c = some k → ∀ p, k.parent = some p → p ≠ c ∧
  (s.view Task.kin p).map (·.zombie) = some false
  claimed : ∀ c k, s.view Task.kin c = some k → k.zombie = true → k.parent.isSome
  reaper : ∀ r, s.initTaskId = some r → s.view Task.kin r = some ⟨none, false⟩
  -- What `reap_orphans` is about to bury has ended.
  inHand : ∀ ids, s.reaping = .zombies ids → ∀ c ∈ ids, c < s.nextId ∧ ∀ k, s.view Task.kin c = some k →
    k.zombie = true

/-- A task may end if it names a parent, and if its zombies have somewhere to go. -/
def accounted (s : Scheduler) (a : Action) : Bool :=
  match ending s a with
  | some e => e.parent.isSome && (s.initTaskId.isSome || e.children.all fun c => !s.isZombie c)
  | none => true

namespace Kept

variable {s t : Scheduler}

theorem initial : Kept .initial where
  followed := nofun
  claimed := nofun
  reaper := nofun
  inHand := nofun

theorem of_same (kept : Kept s) (same : Same s t) (view : t.view Task.kin = s.view Task.kin) : Kept t where
  followed := by
    rw [view]
    exact kept.followed
  claimed := by
    rw [view]
    exact kept.claimed
  reaper := by
    rw [view, same.init]
    exact kept.reaper
  inHand := by
    rw [view, same.reaping, same.nextId]
    exact kept.inHand

theorem grown (kept : Kept s) (tree : Tree s) {k : Kin} (fresh : k.zombie = false)
    (parent : ∀ p, k.parent = some p → (s.view Task.kin p).map (·.zombie) = some false)
    (view : ∀ i, t.view Task.kin i = if i = s.nextId then some k else s.view Task.kin i)
    (nextId : t.nextId = s.nextId + 1)
    (init : t.initTaskId = s.initTaskId) (reaping : t.reaping = s.reaping) : Kept t := by
  -- A new task names nobody, or one who can reap it.
  have unused : s.view Task.kin s.nextId = none := by
    cases there : s.view Task.kin s.nextId with
    | none => rfl
    | some k =>
      obtain ⟨u, alive, _⟩ := kin_some.mp there
      exact absurd (tree.numbered.live_lt alive) (Nat.lt_irrefl _)
  have before : ∀ p, (s.view Task.kin p).map (·.zombie) = some false →
      p ≠ s.nextId ∧ (t.view Task.kin p).map (·.zombie) = some false := by
    intro p here
    have other : p ≠ s.nextId := by
      rintro rfl
      simp [unused] at here
    exact ⟨other, by rw [view, if_neg other, here]⟩
  constructor
  · intro c k' here p named
    rw [view] at here
    split at here
    next new =>
      cases here
      obtain ⟨other, fine⟩ := before p (parent p named)
      exact ⟨new ▸ other, fine⟩
    next =>
      obtain ⟨other, fine⟩ := kept.followed c k' here p named
      exact ⟨other, (before p fine).2⟩
  · intro c k' here zombie
    rw [view] at here
    split at here
    · cases here
      simp [fresh] at zombie
    · exact kept.claimed c k' here zombie
  · intro r registered
    rw [init] at registered
    rw [view, if_neg (Nat.ne_of_lt (tree.registered r registered))]
    exact kept.reaper r registered
  · intro ids here c member
    rw [reaping] at here
    obtain ⟨below, zombie⟩ := kept.inHand ids here c member
    refine ⟨nextId ▸ Nat.lt_succ_of_lt below, fun k' found => zombie k' ?_⟩
    rwa [view, if_neg (Nat.ne_of_lt below)] at found

theorem spawn (kept : Kept s) (tree : Tree s) (ring : Ring) (userCr3 : Option UInt64) :
    Kept (s.spawn ring userCr3) := by
  obtain ⟨nextId, init, reaping⟩ := Tree.addTask_kept { s with nextId := s.nextId + 1 }
    { id := s.nextId, ring := ring, userCr3 := userCr3 }
  exact kept.grown (k := ⟨none, false⟩) tree rfl nofun (kin_spawn tree.numbered ring userCr3)
    nextId init reaping

theorem doFork (kept : Kept s) (tree : Tree s) {e : Task} (me : s.me = some e) (running : e.state = .running)
    (childCr3 : UInt64) : Kept (s.doFork childCr3) := by
  cases doFork_cases me childCr3 with
  | inl unchanged =>
    rw [unchanged]
    exact kept
  | inr forked =>
    rw [forked]
    have alive := tree.numbered.live_me me (by simp [running])
    have parent : s.view Task.kin e.id = some ⟨e.parent, false⟩ :=
      kin_some.mpr ⟨e, alive, by simp [Task.kin, running]⟩
    obtain ⟨nextId, init, reaping⟩ := Tree.addTask_kept { s with nextId := s.nextId + 1 }
      { id := s.nextId, ring := .user, userCr3 := some childCr3, parent := some e.id }
    refine kept.grown tree rfl ?_ (kin_forked tree.numbered e.id childCr3) nextId init reaping
    rintro p ⟨⟩
    rw [parent]
    rfl

theorem reaped (kept : Kept s) {c : TaskId} (zombie : ∀ k, s.view Task.kin c = some k → k.zombie = true)
    (view : ∀ i, t.view Task.kin i = if i = c then none else s.view Task.kin i) (nextId : t.nextId = s.nextId)
    (init : t.initTaskId = s.initTaskId)
    (reaping : ∀ ids, t.reaping = .zombies ids → ∃ more, s.reaping = .zombies more ∧ ∀ c ∈ ids, c ∈ more)
    : Kept t := by
  -- A zombie goes, and nobody named it.
  have before : ∀ p, (s.view Task.kin p).map (·.zombie) = some false →
    (t.view Task.kin p).map (·.zombie) = some false := by
    intro p here
    rw [view]
    split
    next gone =>
      subst gone
      obtain ⟨k, found, fine⟩ := Option.map_eq_some_iff.mp here
      rw [zombie k found] at fine
      cases fine
    next => exact here
  have old : ∀ i k, t.view Task.kin i = some k → s.view Task.kin i = some k := by
    intro i k here
    rw [view] at here
    split at here
    · cases here
    · exact here
  constructor
  · intro i k here p named
    obtain ⟨other, fine⟩ := kept.followed i k (old i k here) p named
    exact ⟨other, before p fine⟩
  · exact fun i k here => kept.claimed i k (old i k here)
  · intro r registered
    have here := kept.reaper r (init ▸ registered)
    rw [view, if_neg, here]
    rintro rfl
    cases zombie _ here
  · intro ids here i member
    obtain ⟨more, there, within⟩ := reaping ids here
    obtain ⟨below, fine⟩ := kept.inHand more there i (within i member)
    exact ⟨nextId ▸ below, fun k found => fine k (old i k found)⟩

theorem finish (kept : Kept s) (tree : Tree s) {e : Task} (alive : s.live e.id = some e)
    (running : e.state ≠ .zombie)
    (parent : e.parent.isSome) (room : s.initTaskId.isSome ∨ ∀ c ∈ e.children, s.isZombie c = false)
    (status : Int32) :
    Kept (s.finish e status) := by
  have same := Same.finish s e status
  have own : s.view Task.kin e.id = some ⟨e.parent, false⟩ :=
    kin_some.mpr ⟨e, alive, by simp [Task.kin, running]⟩
  have present : s.forest e.id = some ⟨e.parent, e.children⟩ := forest_some.mpr ⟨e, alive, rfl⟩
  -- Its children are those that name it.
  have mine : ∀ c k, s.view Task.kin c = some k → (c ∈ e.children ↔ k.parent = some e.id) := by
    intro c k here
    obtain ⟨u, living, rfl⟩ := kin_some.mp here
    rw [tree.linked.listed e.id _ present c, forest_some.mpr ⟨u, living, rfl⟩]
    simp [Task.kin]
  have notInit : s.initTaskId ≠ some e.id := by
    intro registered
    have orphan : e.parent = none := by simpa [own] using kept.reaper e.id registered
    simp [orphan] at parent
  have after : ∀ c k, (s.finish e status).view Task.kin c = some k → ∃ before, s.view Task.kin c = some before ∧
      k.parent = (if c ∈ e.children then s.initTaskId else before.parent) ∧
      k.zombie = (c = e.id || before.zombie) := by
    intro c k here
    rw [kin_finish alive] at here
    obtain ⟨before, found, rfl⟩ := Option.map_eq_some_iff.mp here
    exact ⟨before, found, rfl, rfl⟩
  have still : ∀ p, p ≠ e.id → (s.view Task.kin p).map (·.zombie) = some false →
      ((s.finish e status).view Task.kin p).map (·.zombie) = some false := by
    intro p other here
    obtain ⟨k, found, fine⟩ := Option.map_eq_some_iff.mp here
    simp [kin_finish alive, found, other, fine]
  constructor
  · intro c k here p named
    obtain ⟨before, found, moved, _⟩ := after c k here
    rw [moved] at named
    split at named
    next adopted =>
      have init := kept.reaper p named
      refine ⟨?_, still p (fun same => notInit (same ▸ named)) (by simp [init])⟩
      rintro rfl
      rw [init] at found
      cases found
      cases (mine _ _ init).mp adopted
    next left =>
      obtain ⟨other, fine⟩ := kept.followed c before found p named
      exact ⟨other, still p (fun same => left ((mine c before found).mpr (same ▸ named))) fine⟩
  · intro c k here zombie
    obtain ⟨before, found, moved, ended⟩ := after c k here
    rw [moved]
    split
    next adopted =>
      refine room.resolve_right fun none => ?_
      have fine := none c adopted
      obtain ⟨u, living, rfl⟩ := kin_some.mp found
      have other : c ≠ e.id := (kept.followed c _ found e.id ((mine c _ found).mp adopted)).1.symm
      rw [ended] at zombie
      have stuck : u.state = .zombie := by simpa [other, Task.kin] using zombie
      simp [isZombie, (live_find.mp living).1, stuck] at fine
    next left =>
      by_cases self : c = e.id
      · subst self
        rw [own] at found
        cases found
        exact parent
      · refine kept.claimed c before found ?_
        simpa [ended, self] using zombie
  · intro r registered
    rw [same.init] at registered
    have init := kept.reaper r registered
    have other : r ≠ e.id := fun same => notInit (same ▸ registered)
    have root : r ∉ e.children := fun adopted => by cases (mine _ _ init).mp adopted
    simp [kin_finish alive, init, other, root]
  · intro ids here c member
    rw [same.reaping] at here
    obtain ⟨below, fine⟩ := kept.inHand ids here c member
    refine ⟨same.nextId ▸ below, fun k found => ?_⟩
    obtain ⟨before, there, _, ended⟩ := after c k found
    simp [ended, fine before there]

theorem doWait (kept : Kept s) (tree : Tree s) {e : Task} (me : s.me = some e)
    (running : e.state = .running) : Kept s.doWait := by
  have numbered := tree.numbered
  have awake : Kept (s.modifyCurrent (·.waiting false)) := kept.of_same (Same.modifyCurrent s fun _ => rfl)
    (view_modifyCurrent stable_kin numbered (fun _ => rfl) fun t _ => waiting_neutral false t)
  have numbered' : Numbered (s.modifyCurrent (·.waiting false)) :=
    (Same.modifyCurrent s (f := (·.waiting false)) fun _ => rfl).numbered numbered
  obtain idle | sleeps | ⟨cid, _, zombie, reaped⟩ := doWait_cases numbered me
  · rw [idle]
    exact awake
  · rw [sleeps]
    refine awake.of_same (Same.modifyCurrent _ fun _ => rfl) ?_
    refine view_modifyCurrent stable_kin numbered' (f := fun t => (t.waiting true).inState .blocked)
      (fun _ => rfl) fun t here => ?_
    rw [me_modifyCurrent, me] at here
    cases here
    exact sleep_neutral running
  · rw [reaped]
    refine awake.reaped (c := cid) (fun k found => ?_) (kin_reap e.id cid) rfl rfl fun ids here =>
      ⟨ids, here, fun _ => id⟩
    obtain ⟨u, living, rfl⟩ := kin_some.mp found
    simpa [isZombie, (live_find.mp living).1, Task.kin] using zombie

theorem handed (kept : Kept s) {reaping : Reaping}
    (ended : ∀ ids, reaping = .zombies ids → ∀ c ∈ ids, c < s.nextId ∧
    ∀ k, s.view Task.kin c = some k → k.zombie = true) : Kept { s with reaping := reaping } where
  -- Only what `reap_orphans` has in hand is different.
  followed := kept.followed
  claimed := kept.claimed
  reaper := kept.reaper
  inHand := ended

theorem reapOrphans (kept : Kept s) (tree : Tree s) : Kept s.reapOrphans := by
  unfold Scheduler.reapOrphans
  split
  · exact kept
  next reaper _ =>
    split
    next =>
      dsimp only
      split
      · exact kept
      · exact kept.handed nofun
    next ids here =>
      refine kept.handed fun zombies found c member => ?_
      cases found
      obtain ⟨listed, zombie⟩ := List.mem_filter.mp member
      refine ⟨(tree.reaping c (by rw [here]; exact listed)).1, fun k found => ?_⟩
      obtain ⟨u, living, rfl⟩ := kin_some.mp found
      simpa [isZombie, (live_find.mp living).1, Task.kin] using zombie
    next => exact kept.handed nofun
    next cid rest here =>
      have hand := kept.inHand _ here
      have buried : Kept ((s.modify reaper (·.without cid)).modify cid (·.inState .dead)) :=
        kept.reaped (hand cid (List.mem_cons_self ..)).2 (kin_reap reaper cid) rfl rfl fun ids there =>
          ⟨ids, there, fun _ => id⟩
      refine buried.handed fun ids found c member => ?_
      cases found
      exact buried.inHand _ here c (List.mem_cons_of_mem _ member)

theorem step {a : Action} (kept : Kept s) (tree : Tree s) (fine : accounted s a)
    (taken : step s a = some t) : Kept t := by
  have acting : s.acts → ∃ e, s.me = some e ∧ e.state = .running := by
    intro acts
    obtain ⟨e, me, running⟩ := (Option.any_eq_true ..).mp acts
    exact ⟨e, me, (of_decide_eq_true running).1⟩
  -- An end, however it comes about.
  have ends : ∀ e, e.state ≠ .zombie → ending s a = some e → Kept t := by
    intro e running ends
    obtain ⟨alive, status, rfl⟩ := step_ends tree ends taken
    simp only [accounted, ends, Bool.and_eq_true, Bool.or_eq_true, List.all_eq_true, Bool.not_eq_true'] at fine
    exact kept.finish tree alive running fine.1 fine.2 status
  cases a with
  | spawnKernel =>
    cases taken
    exact kept.spawn tree ..
  | spawnUser cr3 =>
    cases taken
    exact kept.spawn tree ..
  | setInit id =>
    simp only [Tasks.step, Option.ite_none_right_eq_some, Option.some.injEq] at taken
    obtain ⟨⟨_, fine⟩, rfl⟩ := taken
    obtain ⟨e, found, fine⟩ := (Option.any_eq_true ..).mp fine
    obtain ⟨runnable, root⟩ := of_decide_eq_true fine
    have alive : s.live id = some e := live_find.mpr ⟨found, by simp [runnable]⟩
    refine ⟨kept.followed, kept.claimed, fun r registered => ?_, kept.inHand⟩
    cases registered
    exact kin_some.mpr ⟨e, alive, by simp [Task.kin, runnable, root]⟩
  | schedule i =>
    simp only [Tasks.step, Option.ite_none_right_eq_some, Option.some.injEq] at taken
    obtain ⟨fine, rfl⟩ := taken
    obtain ⟨e, here, runnable⟩ := (Option.any_eq_true ..).mp fine
    exact kept.of_same (Same.switchTo s i) (view_switchTo
      stable_kin tree.numbered here (of_decide_eq_true runnable))
  | block =>
    simp only [Tasks.step, Option.ite_none_right_eq_some, Option.some.injEq] at taken
    obtain ⟨acts, rfl⟩ := taken
    obtain ⟨e, me, running⟩ := acting acts
    exact kept.of_same (Same.modifyCurrent s fun _ => rfl) (view_block stable_kin tree.numbered me running)
  | unblock id =>
    cases taken
    exact kept.of_same (Same.unblock s id) (view_unblock stable_kin id)
  | fork childCr3 =>
    simp only [Tasks.step, Option.ite_none_right_eq_some, Option.some.injEq] at taken
    obtain ⟨acts, rfl⟩ := taken
    obtain ⟨e, me, running⟩ := acting acts
    exact kept.doFork tree me running childCr3
  | exit status =>
    simp only [Tasks.step, Option.ite_none_right_eq_some, Option.some.injEq] at taken
    obtain ⟨acts, rfl⟩ := taken
    obtain ⟨e, me, running⟩ := acting acts
    exact ends e (by simp [running]) me
  | kill id status =>
    simp only [Tasks.step, Option.ite_none_right_eq_some, Option.some.injEq] at taken
    obtain ⟨acts, rfl⟩ := taken
    obtain ⟨me, here, running⟩ := acting acts
    obtain unchanged | ⟨e, found, kind, _⟩ := terminateTask_cases tree.numbered id status
    · rw [unchanged]
      exact kept
    · refine ends e ?_ (Option.filter_eq_some_iff.mpr ⟨found, decide_eq_true kind⟩)
      obtain self | other := kind
      · rw [here] at self
        cases self
        simp [running]
      · exact other.1
  | wait =>
    simp only [Tasks.step, Option.ite_none_right_eq_some, Option.some.injEq] at taken
    obtain ⟨fine, rfl⟩ := taken
    obtain ⟨e, me, running⟩ := (Option.any_eq_true ..).mp fine
    exact kept.doWait tree me (of_decide_eq_true running)
  | reapOrphans =>
    simp only [Tasks.step, Option.ite_none_right_eq_some, Option.some.injEq] at taken
    obtain ⟨_, rfl⟩ := taken
    exact kept.reapOrphans tree

end Kept

theorem kept_of_run {s : Scheduler} (run : Reaches step (fun s a => accounted s a) .initial s) :
    Tree s ∧ Kept s := by
  induction run with
  | start => exact ⟨.initial, .initial⟩
  | step _ fine taken ih => exact ⟨ih.1.step taken, ih.2.step ih.1 fine taken⟩

def Lost (s : Scheduler) (id : TaskId) : Prop :=
  (s.find id).map (·.state) = some .zombie ∧ ∀ p ∈ s.tasks, p.state ≠ .dead → id ∉ p.children

theorem lost_of_orphan {s : Scheduler} (tree : Tree s)
    {id : TaskId} (here : s.view Task.kin id = some ⟨none, true⟩) :
    Lost s id := by
  obtain ⟨u, alive, same⟩ := kin_some.mp here
  simp only [Task.kin, Kin.mk.injEq, decide_eq_true_eq] at same
  refine ⟨by rw [(live_find.mp alive).1, Option.map_some, same.2], fun p member notDead => ?_⟩
  exact tree.linked.unlisted (forest_some.mpr ⟨u, alive, rfl⟩) same.1
    (forest_some.mpr ⟨p, tree.numbered.live_mem member notDead, rfl⟩)

theorem unaccounted_lost {s t : Scheduler} {a : Action} (tree : Tree s) (taken : step s a = some t)
    (bad : accounted s a = false) :
    ∃ id, Lost t id := by
  -- A step that is not accounted for loses a zombie.
  unfold accounted at bad
  cases ends : ending s a with
  | none => simp [ends] at bad
  | some e =>
    obtain ⟨alive, status, rfl⟩ := step_ends tree ends taken
    have after := tree.step taken
    have present : s.forest e.id = some ⟨e.parent, e.children⟩ := forest_some.mpr ⟨e, alive, rfl⟩
    simp only [ends, Bool.and_eq_false_iff, Bool.or_eq_false_iff, Option.isSome_eq_false_iff,
      Option.isNone_iff_eq_none,
      List.all_eq_false] at bad
    obtain orphan | ⟨unregistered, c, listed, stuck⟩ := bad
    · refine ⟨e.id, lost_of_orphan after ?_⟩
      have own : s.view Task.kin e.id = some ⟨none, e.state = .zombie⟩ :=
        kin_some.mpr ⟨e, alive, by simp [Task.kin, orphan]⟩
      have other : e.id ∉ e.children := fun member => by
        obtain ⟨child, found, parent⟩ := (tree.linked.listed e.id _ present e.id).mp member
        rw [present] at found
        cases found
        simp [orphan] at parent
      simp [kin_finish alive, own, other]
    · refine ⟨c, lost_of_orphan after ?_⟩
      obtain ⟨child, found, _⟩ := (tree.linked.listed e.id _ present c).mp listed
      obtain ⟨u, living, _⟩ := forest_some.mp found
      have zombie : u.state = .zombie := by simpa [isZombie, (live_find.mp living).1] using stuck
      have here : s.view Task.kin c = some ⟨u.parent, true⟩ :=
        kin_some.mpr ⟨u, living, by simp [Task.kin, zombie]⟩
      simp [kin_finish alive, here, listed, unregistered]

/-- Where every task that ends has a parent, and takes no zombie with it before there is an init,
each zombie can be reaped. Any other end loses one. -/
theorem zombies_kept (s : Scheduler) :
    (Reaches step (fun s a => accounted s a) .initial s → ∀ z ∈ s.tasks, z.state = .zombie →
      ∃ p ∈ s.tasks, p.state ≠ .zombie ∧ p.state ≠ .dead ∧ z.id ∈ p.children) ∧
    (Reachable s → ∀ t a, step s a = some t → accounted s a = false → ∃ id, Lost t id) := by
  refine ⟨fun run z member zombie => ?_, fun run t a taken bad => unaccounted_lost (tree_of_reachable run)
    taken bad⟩
  obtain ⟨tree, kept⟩ := kept_of_run run
  have living := tree.numbered.live_mem member (by simp [zombie])
  have here : s.view Task.kin z.id = some ⟨z.parent, true⟩ :=
    kin_some.mpr ⟨z, living, by simp [Task.kin, zombie]⟩
  obtain ⟨p, parent⟩ := Option.isSome_iff_exists.mp (kept.claimed z.id _ here rfl)
  obtain ⟨k, there, running⟩ := Option.map_eq_some_iff.mp (kept.followed z.id _ here p parent).2
  obtain ⟨u, alive, rfl⟩ := kin_some.mp there
  obtain ⟨found, notDead⟩ := live_find.mp alive
  refine ⟨u, find_mem found, by simpa [Task.kin] using running, notDead, ?_⟩
  rw [tree.linked.listed p _ (forest_some.mpr ⟨u, alive, rfl⟩) z.id, forest_some.mpr ⟨z, living, rfl⟩]
  simpa using parent

theorem zombies_kept_adopted :
    ∃ s, replay step (fun s a => accounted s a) .initial (adoptionSchedule.take 12) = some s ∧
    s.isZombie 3 = true ∧
      ∀ z ∈ s.tasks, z.state = .zombie → ∃ p ∈ s.tasks, p.state ≠ .zombie ∧ p.state ≠ .dead ∧
      z.id ∈ p.children := by
  obtain ⟨s, done⟩ := Option.isSome_iff_exists.mp
    (show (replay step (fun s a => accounted s a) .initial (adoptionSchedule.take 12)).isSome by decide)
  refine ⟨s, done, ?_, (zombies_kept s).1 (.of_replay (fun _ _ => id) .start done)⟩
  cases done
  decide

/-- What `spawn_user_from_entry` starts has no parent. -/
theorem zombie_lost :
    ∃ s, run step .initial [.spawnKernel, .setInit 0, .spawnUser 7, .schedule 1, .exit 0] = some s ∧
      s.initTaskId = some 0 ∧ ∃ z ∈ s.tasks, z.state = .zombie ∧ ∀ p ∈ s.tasks, p.state ≠ .dead →
        z.id ∉ p.children := by
  obtain ⟨s, done⟩ := Option.isSome_iff_exists.mp
    (show (run step .initial [.spawnKernel, .setInit 0, .spawnUser 7, .schedule 1, .exit 0]).isSome by decide)
  refine ⟨s, done, ?_⟩
  cases done
  decide

end PickleOS.Tasks
