import PickleOS.Tasks.Live

set_option autoImplicit false

namespace PickleOS.Tasks

open Shared Shared.Machine

def Reaping.ids : Reaping → List TaskId
  | .idle => []
  | .children ids | .zombies ids => ids

open Scheduler in
/-- The links agree, and everything in use has an id that was handed out. -/
structure Tree (s : Scheduler) : Prop where
  numbered : Numbered s
  linked : Forest.Linked s.forest
  named : ∀ c node, s.forest c = some node → ∀ p, node.parent = some p → p < s.nextId
  registered : ∀ r, s.initTaskId = some r → r < s.nextId
  root : ∀ r node, s.initTaskId = some r → s.forest r = some node → node.parent = none
  -- What `reap_orphans` has in hand are children of init until they are gone.
  reaping : ∀ c ∈ s.reaping.ids, c < s.nextId ∧ ∀ node, s.forest c = some node → s.initTaskId.isSome ∧
  node.parent = s.initTaskId

namespace Tree

open Scheduler

variable {s t : Scheduler}

theorem initial : Tree .initial where
  numbered := ⟨List.nodup_nil, nofun⟩
  linked := Forest.Linked.empty
  named := nofun
  registered := nofun
  root := nofun
  reaping := nofun

theorem of_same (tree : Tree s) (same : Same s t) (forest : t.forest = s.forest) : Tree t where
  numbered := same.numbered tree.numbered
  linked := forest ▸ tree.linked
  named := by
    rw [forest, same.nextId]
    exact tree.named
  registered := by
    rw [same.init, same.nextId]
    exact tree.registered
  root := by
    rw [same.init, forest]
    exact tree.root
  reaping := by
    rw [same.reaping, same.nextId, same.init, forest]
    exact tree.reaping

theorem fresh (tree : Tree s) : Forest.Fresh s.forest s.nextId where
  absent := by
    cases here : s.forest s.nextId with
    | none => rfl
    | some node =>
      obtain ⟨u, alive, _⟩ := forest_some.mp here
      exact absurd (tree.numbered.live_lt alive) (Nat.lt_irrefl _)
  unnamed c child found parent := Nat.lt_irrefl _ (tree.named c child found _ parent)

theorem grown (tree : Tree s) (numbered : Numbered t) (nextId : t.nextId = s.nextId + 1)
    (init : t.initTaskId = s.initTaskId)
    (reaping : t.reaping = s.reaping) (linked : Forest.Linked t.forest)
    (links : ∀ c node, t.forest c = some node → (c = s.nextId ∧ ∀ p, node.parent = some p → p < s.nextId) ∨
      ∃ before, s.forest c = some before ∧ node.parent = before.parent) : Tree t where
  -- A new task comes in, under the next id.
  numbered := numbered
  linked := linked
  named c node here p parent := by
    rw [nextId]
    obtain ⟨_, below⟩ | ⟨before, found, same⟩ := links c node here
    · exact Nat.lt_succ_of_lt (below p parent)
    · exact Nat.lt_succ_of_lt (tree.named c before found p (same ▸ parent))
  registered r registered := by
    rw [nextId]
    exact Nat.lt_succ_of_lt (tree.registered r (init ▸ registered))
  root r node registered here := by
    rw [init] at registered
    obtain ⟨new, _⟩ | ⟨before, found, same⟩ := links r node here
    · exact absurd (tree.registered r registered) (new ▸ Nat.lt_irrefl _)
    · rw [same]
      exact tree.root r before registered found
  reaping c member := by
    rw [reaping] at member
    obtain ⟨below, adopted⟩ := tree.reaping c member
    refine ⟨nextId ▸ Nat.lt_succ_of_lt below, fun node here => ?_⟩
    obtain ⟨new, _⟩ | ⟨before, found, same⟩ := links c node here
    · exact absurd below (new ▸ Nat.lt_irrefl _)
    · rw [init, same]
      exact adopted before found

theorem addTask_kept (u : Scheduler) (task : Task) : (u.addTask task).nextId = u.nextId ∧
    (u.addTask task).initTaskId = u.initTaskId ∧ (u.addTask task).reaping = u.reaping := by
  unfold Scheduler.addTask
  split <;> exact ⟨rfl, rfl, rfl⟩

theorem spawn (tree : Tree s) (ring : Ring) (userCr3 : Option UInt64) : Tree (s.spawn ring userCr3) := by
  have forest := forest_spawn tree.numbered ring userCr3
  obtain ⟨nextId, init, reaping⟩ := addTask_kept { s with nextId := s.nextId + 1 }
    { id := s.nextId, ring := ring, userCr3 := userCr3 }
  refine tree.grown (numbered_addTask tree.numbered rfl)
    nextId init reaping (forest ▸ tree.linked.plant tree.fresh) ?_
  intro c node here
  rw [forest, Forest.plant] at here
  by_cases new : c = s.nextId
  · simp only [new, Function.update_self, Option.some.injEq] at here
    subst here
    exact .inl ⟨new, nofun⟩
  · rw [Function.update_of_ne new] at here
    exact .inr ⟨node, here, rfl⟩

theorem doFork (tree : Tree s) {e : Task} (me : s.me = some e) (alive : e.state ≠ .dead) (childCr3 : UInt64) :
    Tree (s.doFork childCr3) := by
  cases doFork_cases me childCr3 with
  | inl unchanged =>
    rw [unchanged]
    exact tree
  | inr forked =>
    rw [forked]
    have parent := tree.numbered.live_me me alive
    have present : s.forest e.id = some ⟨e.parent, e.children⟩ := forest_some.mpr ⟨e, parent, rfl⟩
    have below := tree.numbered.live_lt parent
    have forest := forest_forked tree.numbered (Nat.ne_of_lt below) childCr3
    obtain ⟨nextId, init, reaping⟩ := addTask_kept { s with nextId := s.nextId + 1 }
      { id := s.nextId, ring := .user, userCr3 := some childCr3, parent := some e.id }
    have numbered : Numbered (s.forked e.id childCr3) :=
      (Same.modify _ e.id (f := (·.adopting [s.nextId])) fun _ => rfl).numbered
        (numbered_addTask tree.numbered rfl)
    refine tree.grown numbered nextId init reaping (forest ▸ tree.linked.fork present tree.fresh) ?_
    intro c node here
    rw [forest, Forest.fork] at here
    by_cases new : c = s.nextId
    · simp only [new, if_true, Option.some.injEq] at here
      subst here
      refine .inl ⟨new, fun p named => ?_⟩
      cases named
      exact below
    · by_cases own : c = e.id
      · subst own
        simp only [new, if_false, if_true, present, Option.map_some, Option.some.injEq] at here
        subst here
        exact .inr ⟨_, present, rfl⟩
      · simp only [new, own, if_false] at here
        exact .inr ⟨node, here, rfl⟩

theorem finish (tree : Tree s) {e : Task} (alive : s.live e.id = some e) (status : Int32) :
    Tree (s.finish e status) := by
  have same := Same.finish s e status
  have forest := forest_finish alive status
  have present : s.forest e.id = some ⟨e.parent, e.children⟩ := forest_some.mpr ⟨e, alive, rfl⟩
  have links : ∀ c node, (s.finish e status).forest c = some node →
      ∃ before, s.forest c = some before ∧ node.parent = if c ∈ e.children then s.initTaskId else
        before.parent := by
    intro c node here
    rw [forest, Forest.bequeath] at here
    obtain ⟨before, found, rfl⟩ := Option.map_eq_some_iff.mp here
    exact ⟨before, found, rfl⟩
  constructor
  · exact same.numbered tree.numbered
  · exact forest ▸ tree.linked.bequeath s.initTaskId present
  · intro c node here p parent
    rw [same.nextId]
    obtain ⟨before, found, moved⟩ := links c node here
    rw [moved] at parent
    split at parent
    · exact tree.registered p parent
    · exact tree.named c before found p parent
  · rw [same.init, same.nextId]
    exact tree.registered
  · intro r node registered here
    rw [same.init] at registered
    obtain ⟨before, found, moved⟩ := links r node here
    have root := tree.root r before registered found
    -- Init is nobody's child, so it is not moved.
    have stays : r ∉ e.children := tree.linked.unlisted found root present
    rw [moved, if_neg stays, root]
  · intro c member
    rw [same.reaping] at member
    obtain ⟨below, adopted⟩ := tree.reaping c member
    refine ⟨same.nextId ▸ below, fun node here => ?_⟩
    obtain ⟨before, found, moved⟩ := links c node here
    obtain ⟨some, parent⟩ := adopted before found
    rw [same.init, moved, parent, ite_self]
    exact ⟨some, rfl⟩

theorem shrunk (tree : Tree s) (numbered : Numbered t) (nextId : t.nextId = s.nextId)
    (init : t.initTaskId = s.initTaskId)
    (reaping : ∀ c ∈ t.reaping.ids, c ∈ s.reaping.ids) (linked : Forest.Linked t.forest)
    (links : ∀ c node, t.forest c = some node → ∃ before, s.forest c = some before ∧
      node.parent = before.parent) : Tree t where
  -- No task is new, and no parent is.
  numbered := numbered
  linked := linked
  named c node here p parent := by
    obtain ⟨before, found, same⟩ := links c node here
    rw [nextId]
    exact tree.named c before found p (same ▸ parent)
  registered := by
    rw [init, nextId]
    exact tree.registered
  root r node registered here := by
    obtain ⟨before, found, same⟩ := links r node here
    rw [same]
    exact tree.root r before (init ▸ registered) found
  reaping c member := by
    obtain ⟨below, adopted⟩ := tree.reaping c (reaping c member)
    refine ⟨nextId ▸ below, fun node here => ?_⟩
    obtain ⟨before, found, same⟩ := links c node here
    rw [init, same]
    exact adopted before found

theorem prune_links {f : Forest TaskId} {p c i : TaskId}
    {node : Node TaskId} (here : f.prune p c i = some node) :
    ∃ before, f i = some before ∧ node.parent = before.parent := by
  unfold Forest.prune at here
  split at here
  · cases here
  · split at here
    next parent =>
      obtain ⟨before, found, rfl⟩ := Option.map_eq_some_iff.mp here
      exact ⟨before, parent ▸ found, rfl⟩
    next => exact ⟨node, here, rfl⟩

theorem present_me (tree : Tree s) {e : Task} (me : s.me = some e) (alive : e.state ≠ .dead) :
    s.forest e.id = some ⟨e.parent, e.children⟩ :=
  -- A task that is not dead is current.
  forest_some.mpr ⟨e, tree.numbered.live_me me alive, rfl⟩

theorem modifyCurrent (tree : Tree s) {f : Task → Task} (keeps : ∀ t, (f t).id = t.id)
    (neutral : ∀ t, s.me = some t → Neutral f t) :
    Tree (s.modifyCurrent f) :=
  tree.of_same (Same.modifyCurrent s keeps) (view_modifyCurrent stable_link tree.numbered keeps neutral)

theorem doWait (tree : Tree s) {e : Task} (me : s.me = some e) (running : e.state = .running) :
    Tree s.doWait := by
  have awake : Tree (s.modifyCurrent (·.waiting false)) := tree.modifyCurrent (fun _ => rfl) fun t _ =>
    waiting_neutral false t
  have me' : (s.modifyCurrent (·.waiting false)).me = some (e.waiting false) := by
    rw [me_modifyCurrent, me]
    rfl
  obtain idle | sleeps | ⟨cid, member, _, reaped⟩ := doWait_cases tree.numbered me
  · rw [idle]
    exact awake
  · rw [sleeps]
    refine awake.modifyCurrent (f := fun t => (t.waiting true).inState .blocked) (fun _ => rfl) fun t here => ?_
    rw [me'] at here
    cases here
    exact sleep_neutral running
  · rw [reaped]
    have present := awake.present_me me' (by simp [Task.waiting, running])
    have forest := forest_reap (s := s.modifyCurrent (·.waiting false)) (p := e.id) (c := cid)
    have numbered : Numbered (((s.modifyCurrent (·.waiting false)).modify e.id (·.without cid)).modify
      cid (·.inState .dead)) :=
      (awake.numbered.modify e.id (f := (·.without cid)) fun _ => rfl).modify cid (f := (·.inState .dead))
      fun _ => rfl
    exact awake.shrunk numbered rfl rfl (fun _ => id) (forest ▸ awake.linked.prune present member)
      fun c node here =>
      prune_links (forest ▸ here)

theorem inHand (tree : Tree s) {reaping : Reaping} (adopted : ∀ c ∈ reaping.ids, c < s.nextId ∧
    ∀ node, s.forest c = some node → s.initTaskId.isSome ∧ node.parent = s.initTaskId) :
    Tree { s with reaping := reaping } where
  -- Only what `reap_orphans` has in hand is different.
  numbered := ⟨tree.numbered.distinct, tree.numbered.below⟩
  linked := tree.linked
  named := tree.named
  registered := tree.registered
  root := tree.root
  reaping := adopted

theorem reapOrphans (tree : Tree s) {e : Task} (me : s.me = some e) (alive : e.state ≠ .dead)
    (own : s.initTaskId = some e.id) : Tree s.reapOrphans := by
  have present := tree.present_me me alive
  unfold Scheduler.reapOrphans
  split
  next none => simp [none] at own
  next reaper registered =>
    have same : reaper = e.id := by simpa [registered] using own
    subst same
    split
    next =>
      have found : s.find e.id = some e := (live_find.mp (tree.numbered.live_me me alive)).1
      simp only [found, Option.map_some, Option.getD_some]
      split
      · exact tree
      · refine tree.inHand fun c member => ?_
        obtain ⟨child, here, parent⟩ := (tree.linked.listed e.id _ present c).mp member
        obtain ⟨t, living, _⟩ := forest_some.mp here
        refine ⟨tree.numbered.live_lt living, fun node there => ?_⟩
        rw [here] at there
        cases there
        rw [own, parent]
        exact ⟨rfl, rfl⟩
    next ids here =>
      refine tree.inHand fun c member => tree.reaping c ?_
      rw [here]
      exact List.mem_of_mem_filter member
    next => exact tree.inHand nofun
    next cid rest here =>
      obtain ⟨below, adopted⟩ := tree.reaping cid (by simp [here, Reaping.ids])
      have linked : Forest.Linked (s.forest.prune e.id cid) := by
        cases there : s.forest cid with
        | none =>
          rw [tree.linked.prune_absent e.id there]
          exact tree.linked
        | some node =>
          refine tree.linked.prune present ((tree.linked.listed e.id _ present cid).mpr ⟨node, there, ?_⟩)
          rw [(adopted node there).2, own]
      have forest := forest_reap (s := s) (p := e.id) (c := cid)
      have numbered : Numbered ((s.modify e.id (·.without cid)).modify cid (·.inState .dead)) :=
        (tree.numbered.modify e.id (f := (·.without cid)) fun _ => rfl).modify
          cid (f := (·.inState .dead)) fun _ => rfl
      have reaped : Tree ((s.modify e.id (·.without cid)).modify cid (·.inState .dead)) :=
        tree.shrunk numbered rfl rfl (fun _ => id) (forest ▸ linked) fun c node found =>
          prune_links (forest ▸ found)
      refine reaped.inHand fun c member => reaped.reaping c ?_
      rw [modify_reaping, modify_reaping, here]
      exact List.mem_cons_of_mem _ member

theorem terminateTask (tree : Tree s) {me : Task} (here : s.me = some me) (alive : me.state ≠ .dead)
    (id : TaskId)
    (status : Int32) : Tree (s.terminateTask id status) := by
  obtain unchanged | ⟨e, found, kind, ended⟩ := terminateTask_cases tree.numbered id status
  · rw [unchanged]
    exact tree
  · rw [ended]
    refine tree.finish ?_ status
    rw [find_id found]
    refine live_find.mpr ⟨found, ?_⟩
    obtain self | other := kind
    · rw [here] at self
      cases self
      exact alive
    · exact other.2

theorem switchTo (tree : Tree s) {i : Nat} {e : Task} (here : s.tasks[i]? = some e)
    (runnable : e.state = .runnable) :
    Tree (s.switchTo i) :=
  tree.of_same (Same.switchTo s i) (view_switchTo stable_link tree.numbered here runnable)

theorem step {a : Action} (tree : Tree s) (taken : step s a = some t) : Tree t := by
  have acting : s.acts → ∃ e, s.me = some e ∧ e.state = .running := by
    intro acts
    obtain ⟨e, me, running⟩ := (Option.any_eq_true ..).mp acts
    exact ⟨e, me, (of_decide_eq_true running).1⟩
  cases a with
  | spawnKernel =>
    cases taken
    exact tree.spawn ..
  | spawnUser cr3 =>
    cases taken
    exact tree.spawn ..
  | setInit id =>
    simp only [Tasks.step, Option.ite_none_right_eq_some, Option.some.injEq] at taken
    obtain ⟨⟨unregistered, fine⟩, rfl⟩ := taken
    obtain ⟨e, found, fine⟩ := (Option.any_eq_true ..).mp fine
    obtain ⟨runnable, root⟩ := of_decide_eq_true fine
    have alive : s.live id = some e := live_find.mpr ⟨found, by simp [runnable]⟩
    refine ⟨⟨tree.numbered.distinct, tree.numbered.below⟩, tree.linked, tree.named, ?_, ?_, fun c member => ?_⟩
    · intro r registered
      cases registered
      exact tree.numbered.live_lt alive
    · intro r node registered here
      cases registered
      obtain ⟨u, living, rfl⟩ := forest_some.mp here
      change s.live id = some u at living
      rw [alive] at living
      cases living
      exact root
    · obtain ⟨below, adopted⟩ := tree.reaping c member
      refine ⟨below, fun node here => ?_⟩
      have := (adopted node here).1
      simp [unregistered] at this
  | schedule i =>
    simp only [Tasks.step, Option.ite_none_right_eq_some, Option.some.injEq] at taken
    obtain ⟨fine, rfl⟩ := taken
    obtain ⟨e, here, runnable⟩ := (Option.any_eq_true ..).mp fine
    exact tree.switchTo here (of_decide_eq_true runnable)
  | block =>
    simp only [Tasks.step, Option.ite_none_right_eq_some, Option.some.injEq] at taken
    obtain ⟨acts, rfl⟩ := taken
    obtain ⟨e, me, running⟩ := acting acts
    exact tree.of_same (Same.modifyCurrent s fun _ => rfl) (view_block stable_link tree.numbered me running)
  | unblock id =>
    cases taken
    exact tree.of_same (Same.unblock s id) (view_unblock stable_link id)
  | fork childCr3 =>
    simp only [Tasks.step, Option.ite_none_right_eq_some, Option.some.injEq] at taken
    obtain ⟨acts, rfl⟩ := taken
    obtain ⟨e, me, running⟩ := acting acts
    exact tree.doFork me (by simp [running]) childCr3
  | exit status =>
    simp only [Tasks.step, Option.ite_none_right_eq_some, Option.some.injEq] at taken
    obtain ⟨acts, rfl⟩ := taken
    obtain ⟨e, me, running⟩ := acting acts
    rw [doExit_eq tree.numbered me]
    exact tree.finish (tree.numbered.live_me me (by simp [running])) status
  | kill id status =>
    simp only [Tasks.step, Option.ite_none_right_eq_some, Option.some.injEq] at taken
    obtain ⟨acts, rfl⟩ := taken
    obtain ⟨e, me, running⟩ := acting acts
    exact tree.terminateTask me (by simp [running]) id status
  | wait =>
    simp only [Tasks.step, Option.ite_none_right_eq_some, Option.some.injEq] at taken
    obtain ⟨fine, rfl⟩ := taken
    obtain ⟨e, me, running⟩ := (Option.any_eq_true ..).mp fine
    exact tree.doWait me (of_decide_eq_true running)
  | reapOrphans =>
    simp only [Tasks.step, Option.ite_none_right_eq_some, Option.some.injEq] at taken
    obtain ⟨⟨acts, _, own⟩, rfl⟩ := taken
    obtain ⟨e, me, running⟩ := acting acts
    refine tree.reapOrphans me (by simp [running]) ?_
    rw [← own, me]
    rfl

end Tree

theorem tree_of_reachable {s : Scheduler} (run : Reachable s) : Tree s :=
  run.invariant .initial fun _ _ _ tree _ taken => tree.step taken

def ending (s : Scheduler) : Action → Option Task
  | .exit _ => s.me
  | .kill id _ => (s.find id).filter fun t => s.me = some t ∨ t.state ≠ .zombie ∧ t.state ≠ .dead
  | _ => none

theorem step_ends {s t : Scheduler} {a : Action} {e : Task} (tree : Tree s) (ends : ending s a = some e)
    (taken : step s a = some t) : s.live e.id = some e ∧ ∃ status, t = s.finish e status := by
  cases a with
  | exit status =>
    simp only [step, Option.ite_none_right_eq_some, Option.some.injEq] at taken
    obtain ⟨acts, rfl⟩ := taken
    obtain ⟨me, here, running⟩ := (Option.any_eq_true ..).mp acts
    rw [show s.me = some e from ends] at here
    cases here
    have running := (of_decide_eq_true running).1
    exact ⟨tree.numbered.live_me ends (by simp [running]), status,
      Scheduler.doExit_eq tree.numbered ends status⟩
  | kill id status =>
    simp only [step, Option.ite_none_right_eq_some, Option.some.injEq] at taken
    obtain ⟨acts, rfl⟩ := taken
    obtain ⟨me, here, running⟩ := (Option.any_eq_true ..).mp acts
    have running := (of_decide_eq_true running).1
    obtain ⟨found, kind⟩ := Option.filter_eq_some_iff.mp ends
    obtain self | ⟨living, alive⟩ := of_decide_eq_true kind
    · rw [self] at here
      cases here
      refine ⟨tree.numbered.live_me self (by simp [running]), status, ?_⟩
      unfold Scheduler.terminateTask
      rw [self, Option.map_some, Scheduler.find_id found, if_pos rfl]
      exact Scheduler.doExit_eq tree.numbered self status
    · refine ⟨Scheduler.live_find.mpr ⟨Scheduler.find_id found ▸ found, alive⟩, status, ?_⟩
      unfold Scheduler.terminateTask
      split
      next own =>
        obtain ⟨u, self, same⟩ := Option.map_eq_some_iff.mp own
        have equal : u = e := by
          have := tree.numbered.find_eq (List.mem_of_getElem? self)
          rw [same, found] at this
          exact (Option.some.inj this).symm
        exact Scheduler.doExit_eq tree.numbered (equal ▸ self) status
      next => simp only [found, living, alive, or_self, if_false, Scheduler.finish, Scheduler.find_id found]
  | _ => cases ends

/-- Parent links and lists of children say the same in every state; no list names a task that has
been reaped; and the children of a task that ends go to init, each of them once. -/
theorem tree_linked {s : Scheduler} (run : Reachable s) :
    (∀ p ∈ s.tasks, ∀ c ∈ s.tasks, p.state ≠ .dead → c.state ≠ .dead →
      (c.id ∈ p.children ↔ c.parent = some p.id) ∧ p.children.count c.id ≤ 1) ∧
    (∀ p ∈ s.tasks, p.state ≠ .dead → ∀ id ∈ p.children, ∃ c ∈ s.tasks, c.id = id ∧ c.state ≠ .dead)
    ∧
    ∀ a t e reaper init, step s a = some t → ending s a = some e → s.initTaskId = some reaper →
      s.live reaper = some init →
      ∀ c ∈ e.children, (t.live c).map (·.parent) = some (some reaper) ∧
        (t.live reaper).map (·.children.count c) = some 1 := by
  have tree := tree_of_reachable run
  have node : ∀ p ∈ s.tasks, p.state ≠ .dead → s.forest p.id = some ⟨p.parent, p.children⟩ :=
    fun p member alive =>
    Scheduler.forest_some.mpr ⟨p, tree.numbered.live_mem member alive, rfl⟩
  refine ⟨?_, ?_, ?_⟩
  · intro p pmem c cmem palive calive
    refine ⟨?_, List.nodup_iff_count_le_one.mp (tree.linked.nodup p.id _ (node p pmem palive)) c.id⟩
    rw [tree.linked.listed p.id _ (node p pmem palive) c.id, node c cmem calive]
    simp
  · intro p member alive id listed
    obtain ⟨child, here, _⟩ := (tree.linked.listed p.id _ (node p member alive) id).mp listed
    obtain ⟨c, living, _⟩ := Scheduler.forest_some.mp here
    obtain ⟨found, alive⟩ := Scheduler.live_find.mp living
    exact ⟨c, Scheduler.find_mem found, Scheduler.find_id found, alive⟩
  · intro a t e reaper init taken ends registered living c member
    obtain ⟨alive, status, rfl⟩ := step_ends tree ends taken
    have after := tree.step taken
    have present : s.forest e.id = some ⟨e.parent, e.children⟩ := Scheduler.forest_some.mpr ⟨e, alive, rfl⟩
    obtain ⟨child, here, _⟩ := (tree.linked.listed e.id _ present c).mp member
    obtain ⟨u, living', _⟩ := Scheduler.forest_some.mp here
    have moved : (s.finish e status).live c = some (Scheduler.change e status s.initTaskId c u) := by
      rw [Scheduler.live_finish alive, living', Option.map_some]
    have heir : (s.finish e status).live reaper =
      some (Scheduler.change e status s.initTaskId reaper init) := by
      rw [Scheduler.live_finish alive, living, Option.map_some]
    have parent : (Scheduler.change e status s.initTaskId c u).parent = some reaper := by
      rw [(Scheduler.change_links ..).1, if_pos member, registered]
    have root : (s.finish e status).forest reaper = some ⟨_, _⟩ := Scheduler.forest_some.mpr ⟨_, heir, rfl⟩
    have listed : c ∈ (Scheduler.change e status s.initTaskId reaper init).children :=
      (after.linked.listed reaper _ root c).mpr ⟨_, Scheduler.forest_some.mpr ⟨_, moved, rfl⟩, parent⟩
    rw [moved, heir]
    simp only [Option.map_some, parent, true_and, Option.some.injEq]
    exact List.count_eq_one_of_mem (after.linked.nodup reaper _ root) listed

/-- A child of a task that is killed goes to init, and is reaped there. -/
def adoptionSchedule : List Action :=
  [.spawnKernel, .setInit 0, .spawnUser 7, .schedule 1, .fork 8, .schedule 2, .fork 9, .schedule 1,
  .kill 2 137, .wait,
    .schedule 3, .exit 0, .schedule 0, .reapOrphans, .reapOrphans, .reapOrphans]

theorem tree_linked_adopted :
    ∃ s, run step .initial adoptionSchedule = some s ∧
      ∀ p ∈ s.tasks, p.state ≠ .dead → ∀ id ∈ p.children, ∃ c ∈ s.tasks, c.id = id ∧
      c.state ≠ .dead := by
  obtain ⟨s, done⟩ := Option.isSome_iff_exists.mp (show (run step .initial adoptionSchedule).isSome by decide)
  exact ⟨s, done, (tree_linked (.of_run .start done)).2.1⟩

end PickleOS.Tasks
