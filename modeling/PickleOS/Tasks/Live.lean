import PickleOS.Tasks.Table
import PickleOS.Shared.Forest

set_option autoImplicit false

/-!
# The tasks that are not dead

What the operations of the task table do to them, and to the forest that they make up.
-/

namespace PickleOS.Tasks

open Shared

theorem find_modifyFirst {id : TaskId} {f : Task → Task} (keeps : ∀ t, (f t).id = t.id)
    (tasks : List Task) (i : TaskId) :
    (modifyFirst id f tasks).find? (fun t => t.id = i) =
      if i = id then (tasks.find? fun t => t.id = i).map f else tasks.find? fun t => t.id = i := by
  induction tasks with
  | nil => simp [modifyFirst]
  | cons t rest ih =>
    by_cases first : t.id = id
    · by_cases here : t.id = i
      · simp [modifyFirst, first, keeps, ← here]
      · have other : i ≠ id := fun same => here (first.trans same.symm)
        simp [modifyFirst, first, keeps, other, Ne.symm other]
    · by_cases here : t.id = i
      · have other : i ≠ id := fun same => first (here.trans same)
        simp [modifyFirst, here, other]
      · simp [modifyFirst, first, here, ih]

theorem modifyFirst_ids {id : TaskId} {f : Task → Task} (keeps : ∀ t, (f t).id = t.id) (tasks : List Task) :
    (modifyFirst id f tasks).map (·.id) = tasks.map (·.id) := by
  induction tasks with
  | nil => rfl
  | cons t rest ih =>
    by_cases first : t.id = id
    · simp [modifyFirst, first, keeps]
    · simp [modifyFirst, first, ih]

theorem modify_eq_modifyFirst {f : Task → Task} {tasks : List Task} (distinct : (tasks.map (·.id)).Nodup)
    {i : Nat} {t : Task}
    (here : tasks[i]? = some t) : tasks.modify i f = modifyFirst t.id f tasks := by
  induction tasks generalizing i with
  | nil => simp at here
  | cons u rest ih =>
    simp only [List.map_cons, List.nodup_cons, List.mem_map, not_exists, not_and] at distinct
    cases i with
    | zero =>
      simp only [List.getElem?_cons_zero, Option.some.injEq] at here
      simp [modifyFirst, here]
    | succ i =>
      simp only [List.getElem?_cons_succ] at here
      have other : u.id ≠ t.id := fun same => distinct.1 t (List.mem_of_getElem? here) same.symm
      simp [modifyFirst, other, ih distinct.2 here]

theorem find_of_mem {tasks : List Task} (distinct : (tasks.map (·.id)).Nodup) {t : Task} (member : t ∈ tasks) :
    tasks.find? (fun u => u.id = t.id) = some t := by
  induction tasks with
  | nil => cases member
  | cons u rest ih =>
    simp only [List.map_cons, List.nodup_cons, List.mem_map, not_exists, not_and] at distinct
    cases List.mem_cons.mp member with
    | inl here => simp [here]
    | inr later =>
      have other : u.id ≠ t.id := fun same => distinct.1 t later same.symm
      simp [other, ih distinct.2 later]

def Task.link (t : Task) : Node TaskId := ⟨t.parent, t.children⟩

/-- A change that leaves the links of a task alone, and neither ends it nor kills it. -/
structure Neutral (f : Task → Task) (t : Task) : Prop where
  parent : (f t).parent = t.parent
  children : (f t).children = t.children
  zombie : (f t).state = .zombie ↔ t.state = .zombie
  dead : (f t).state = .dead ↔ t.state = .dead

/-- Nothing that such a change does is seen by `g`. -/
def Stable {β : Type} (g : Task → β) : Prop := ∀ f t, Neutral f t → g (f t) = g t

theorem stable_link : Stable Task.link := fun f t neutral => by
  simp [Task.link, neutral.parent, neutral.children]

namespace Scheduler

variable {s : Scheduler}

/-- The ids are those handed out so far, each given to one task. -/
structure Numbered (s : Scheduler) : Prop where
  distinct : (s.tasks.map (·.id)).Nodup
  below : ∀ t ∈ s.tasks, t.id < s.nextId

def live (s : Scheduler) (id : TaskId) : Option Task := (s.find id).filter fun t => t.state ≠ .dead

/-- What `g` sees of the tasks that are not dead. -/
def view {β : Type} (g : Task → β) (s : Scheduler) (id : TaskId) : Option β := (s.live id).map g

def forest (s : Scheduler) : Forest TaskId := s.view Task.link

theorem find_id {id : TaskId} {t : Task} (found : s.find id = some t) : t.id = id := by
  simpa using List.find?_some found

theorem find_mem {id : TaskId} {t : Task} (found : s.find id = some t) : t ∈ s.tasks :=
  List.mem_of_find?_eq_some found

theorem live_find {id : TaskId} {t : Task} : s.live id = some t ↔ s.find id = some t ∧ t.state ≠ .dead := by
  simp [live, Option.filter_eq_some_iff]

theorem Numbered.find_eq (numbered : Numbered s) {t : Task} (member : t ∈ s.tasks) : s.find t.id = some t :=
  find_of_mem numbered.distinct member

theorem Numbered.live_mem (numbered : Numbered s) {t : Task} (member : t ∈ s.tasks) (alive : t.state ≠ .dead) :
    s.live t.id = some t := live_find.mpr ⟨numbered.find_eq member, alive⟩

theorem Numbered.live_me (numbered : Numbered s) {t : Task} (me : s.me = some t) (alive : t.state ≠ .dead) :
    s.live t.id = some t := numbered.live_mem (List.mem_of_getElem? me) alive

theorem Numbered.live_lt (numbered : Numbered s) {id : TaskId} {t : Task} (found : s.live id = some t) :
    id < s.nextId := by
  obtain ⟨found, _⟩ := live_find.mp found
  rw [← find_id found]
  exact numbered.below t (find_mem found)

theorem modifyCurrent_eq (numbered : Numbered s) {t : Task} (me : s.me = some t) (f : Task → Task) :
    s.modifyCurrent f = s.modify t.id f := by
  unfold modifyCurrent modify
  rw [modify_eq_modifyFirst numbered.distinct me]

theorem find_modify {id : TaskId} {f : Task → Task} (keeps : ∀ t, (f t).id = t.id) (i : TaskId) :
    (s.modify id f).find i = if i = id then (s.find i).map f else s.find i :=
  find_modifyFirst keeps s.tasks i

theorem Numbered.modify (numbered : Numbered s) (id : TaskId) {f : Task → Task} (keeps : ∀ t, (f t).id = t.id) :
    Numbered (s.modify id f) where
  distinct := by
    unfold Scheduler.modify
    rw [modifyFirst_ids keeps]
    exact numbered.distinct
  below t member := by
    have listed : t.id ∈ (modifyFirst id f s.tasks).map (·.id) := List.mem_map_of_mem member
    rw [modifyFirst_ids keeps] at listed
    obtain ⟨u, before, same⟩ := List.mem_map.mp listed
    rw [← same]
    exact numbered.below u before

theorem Numbered.next (numbered : Numbered s) : Numbered { s with nextId := s.nextId + 1 } where
  distinct := numbered.distinct
  below t member := Nat.lt_succ_of_lt (numbered.below t member)

theorem live_modify {id : TaskId} {f : Task → Task} (keeps : ∀ t, (f t).id = t.id)
    (dead : ∀ t, s.find id = some t → ((f t).state = .dead ↔ t.state = .dead)) (i : TaskId) :
    (s.modify id f).live i = if i = id then (s.live i).map f else s.live i := by
  unfold live
  rw [find_modify keeps]
  by_cases here : i = id
  · simp only [here, if_true]
    cases found : s.find id with
    | none => rfl
    | some t =>
      by_cases gone : t.state = .dead
      · simp [Option.filter, gone, (dead t found).mpr gone]
      · simp [Option.filter, gone, mt (dead t found).mp gone]
  · simp [here]

theorem live_bury (id i : TaskId) : (s.modify id (·.inState .dead)).live i = if i = id then none else
    s.live i := by
  unfold live
  rw [find_modify (f := (·.inState .dead)) fun _ => rfl]
  by_cases here : i = id
  · simp only [here, if_true]
    cases s.find id <;> simp [Task.inState]
  · simp [here]

@[simp] theorem modify_nextId (id : TaskId) (f : Task → Task) : (s.modify id f).nextId = s.nextId := rfl
@[simp] theorem modify_init (id : TaskId) (f : Task → Task) : (s.modify id f).initTaskId = s.initTaskId := rfl
@[simp] theorem modify_reaping (id : TaskId) (f : Task → Task) : (s.modify id f).reaping = s.reaping := rfl

/-! ### New tasks -/

theorem find_set {tasks : List Task} (distinct : (tasks.map (·.id)).Nodup)
    {task : Task} (fresh : ∀ u ∈ tasks, u.id ≠ task.id)
    {i : Nat} {d : Task} (here : tasks[i]? = some d) (j : TaskId) :
    (tasks.set i task).find? (fun t => t.id = j) =
      if j = task.id then some task else if j = d.id then none else tasks.find? fun t => t.id = j := by
  induction tasks generalizing i with
  | nil => simp at here
  | cons u rest ih =>
    simp only [List.map_cons, List.nodup_cons, List.mem_map, not_exists, not_and] at distinct
    cases i with
    | zero =>
      simp only [List.getElem?_cons_zero, Option.some.injEq] at here
      subst here
      by_cases new : j = task.id
      · simp [new]
      · by_cases old : j = u.id
        · subst old
          have gone : rest.find? (fun t => t.id = u.id) = none := by simpa using distinct.1
          simp [new, Ne.symm new, gone]
        · simp [new, Ne.symm new, old, Ne.symm old]
    | succ i =>
      simp only [List.getElem?_cons_succ] at here
      have other : u.id ≠ task.id := fresh u (List.mem_cons_self ..)
      have kept : u.id ≠ d.id := fun same => distinct.1 d (List.mem_of_getElem? here) same.symm
      by_cases first : u.id = j
      · subst first
        simp [other, kept]
      · simpa [first] using ih distinct.2 (fun v member => fresh v (List.mem_cons_of_mem _ member)) here

theorem live_addTask (numbered : Numbered s) {task : Task} (fresh : ∀ u ∈ s.tasks, u.id ≠ task.id)
    (alive : task.state ≠ .dead)
    (i : TaskId) : (s.addTask task).live i = if i = task.id then some task else s.live i := by
  -- A dead task may lose its slot to the new one.
  unfold addTask
  cases found : s.tasks.findIdx? fun t => t.state = .dead with
  | none =>
    unfold live find
    by_cases new : i = task.id
    · subst new
      have absent : s.tasks.find? (fun t => t.id = task.id) = none := by simpa using fresh
      simp [List.find?_append, absent, Option.filter, alive]
    · simp [List.find?_append, new, Ne.symm new]
  | some n =>
    obtain ⟨inside, dead, _⟩ := List.findIdx?_eq_some_iff_getElem.mp found
    have here : s.tasks[n]? = some s.tasks[n] := List.getElem?_eq_getElem inside
    unfold live find
    dsimp only
    rw [find_set numbered.distinct fresh here]
    by_cases new : i = task.id
    · simp [new, Option.filter, alive]
    · by_cases buried : i = s.tasks[n].id
      · subst buried
        have listed := numbered.find_eq (List.getElem_mem inside)
        unfold find at listed
        simp only [new, if_false, if_true, listed, Option.filter]
        simpa using dead
      · simp [new, buried]

theorem numbered_addTask (numbered : Numbered s) {task : Task} (new : task.id = s.nextId) :
    Numbered ({ s with nextId := s.nextId + 1 }.addTask task) := by
  have fresh : task.id ∉ s.tasks.map (·.id) := by
    rw [List.mem_map]
    rintro ⟨u, member, same⟩
    have below := numbered.below u member
    rw [same, new] at below
    exact Nat.lt_irrefl _ below
  unfold addTask
  constructor
  · split
    · simpa [List.map_set] using numbered.distinct.set fresh
    · simpa [List.nodup_append, numbered.distinct] using fresh
  · intro t member
    have kinds : t = task ∨ t ∈ s.tasks := by
      split at member
      · exact (List.mem_or_eq_of_mem_set member).symm
      · simpa [or_comm] using member
    have bound : t.id < s.nextId + 1 := by
      cases kinds with
      | inl here => rw [here, new]; exact Nat.lt_succ_self _
      | inr before => exact Nat.lt_succ_of_lt (numbered.below t before)
    split <;> exact bound

/-! ### Endings -/

theorem find_reparented (reaper : Option TaskId) (children : List TaskId) (i : TaskId) :
    (children.foldl (fun u child => u.modify child (·.reparented reaper)) s).find i =
      if i ∈ children then (s.find i).map (·.reparented reaper) else s.find i := by
  induction children generalizing s with
  | nil => simp
  | cons child rest ih =>
    rw [List.foldl_cons, ih, find_modify (f := (·.reparented reaper)) fun _ => rfl]
    by_cases first : i = child <;> by_cases later : i ∈ rest <;>
      simp [first, later, Option.map_map, Function.comp_def, Task.reparented]

/-- What becomes of a task when `e` ends. -/
def change (e : Task) (status : Int32) (reaper : Option TaskId) (i : TaskId) (t : Task) : Task :=
  let t := if i = e.id then t.ended status else t
  let t := if i ∈ e.children then t.reparented reaper else t
  let t := if e.children ≠ [] ∧ reaper = some i then t.adopting e.children else t
  if e.parent = some i then t.notified else t

/-- What `do_exit` and `terminate_task` have in common. -/
def finish (s : Scheduler) (e : Task) (status : Int32) : Scheduler :=
  ((s.modify e.id (·.ended status)).reparent e.children).notify e.parent

theorem find_reparent (children : List TaskId) (i : TaskId) :
    (s.reparent children).find i = (s.find i).map fun t =>
      let t := if i ∈ children then t.reparented s.initTaskId else t
      if children ≠ [] ∧ s.initTaskId = some i then t.adopting children else t := by
  unfold reparent
  cases children with
  | nil => simp
  | cons child rest =>
    simp only [List.isEmpty_cons, Bool.false_eq_true, if_false, ne_eq, reduceCtorEq, not_false_eq_true,
      true_and]
    cases s.initTaskId with
    | none =>
      rw [find_reparented]
      split <;> simp [*]
    | some reaper =>
      rw [find_modify (f := (·.adopting (child :: rest))) fun _ => rfl, find_reparented]
      by_cases here : i = reaper
      · subst here
        simp only [if_true]
        split <;> simp [*, Option.map_map, Function.comp_def]
      · have other : ¬some reaper = some i := by simpa using Ne.symm here
        simp only [here, other, if_false]
        split <;> simp [*]

theorem find_notify (parent : Option TaskId) (i : TaskId) :
    (s.notify parent).find i = (s.find i).map fun t => if parent = some i then t.notified else t := by
  unfold notify
  cases parent with
  | none => simp
  | some pid =>
    dsimp only
    rw [find_modify (f := (·.notified)) fun _ => rfl]
    by_cases here : i = pid
    · subst here
      simp
    · simp [here, Ne.symm here]

theorem reparent_keeps {α : Type} (field : Scheduler → α)
    (keeps : ∀ u id f, field (Scheduler.modify u id f) = field u)
    (children : List TaskId) : field (s.reparent children) = field s := by
  have moved : ∀ (reaper : Option TaskId) (u : Scheduler),
      field (children.foldl (fun u child => u.modify child (·.reparented reaper)) u) = field u := by
    intro reaper
    induction children with
    | nil => exact fun _ => rfl
    | cons child rest ih => exact fun u => (ih (u.modify child (·.reparented reaper))).trans (keeps u child _)
  unfold reparent
  split
  · rfl
  · dsimp only
    split
    · exact (keeps _ _ _).trans (moved _ s)
    · exact moved _ s

@[simp] theorem reparent_init (children : List TaskId) : (s.reparent children).initTaskId = s.initTaskId :=
  reparent_keeps (·.initTaskId) (fun _ _ _ => rfl) children

theorem find_finish (e : Task) (status : Int32) (i : TaskId) :
    (s.finish e status).find i = (s.find i).map (change e status s.initTaskId i) := by
  unfold finish change
  rw [find_notify, find_reparent, find_modify (f := (·.ended status)) (fun _ => rfl), modify_init]
  by_cases own : i = e.id <;> simp [own, Option.map_map, Function.comp_def]

theorem change_links (e : Task) (status : Int32) (reaper : Option TaskId) (i : TaskId) (t : Task) :
    (change e status reaper i t).parent = (if i ∈ e.children then reaper else t.parent) ∧
      (change e status reaper i t).children =
        (if i = e.id then [] else t.children) ++ if reaper = some i then e.children else [] := by
  have told : ∀ u : Task, (if e.parent = some i then u.notified else u).parent = u.parent ∧
      (if e.parent = some i then u.notified else u).children = u.children := by
    intro u
    split <;> exact ⟨rfl, rfl⟩
  unfold change
  rw [(told _).1, (told _).2]
  by_cases none : e.children = []
  · by_cases own : i = e.id <;> simp [none, own, Task.ended]
  · simp only [none, ne_eq, not_false_eq_true, true_and]
    split <;> split <;> split <;> simp [Task.ended, Task.reparented, Task.adopting]

theorem change_state (e : Task) (status : Int32) (reaper : Option TaskId) (i : TaskId) (t : Task) :
    (change e status reaper i t).state =
      if i = e.id then .zombie
      else if e.parent = some i ∧ t.state = .blocked ∧ t.waitBlocked then .runnable
      else t.state := by
  have adopted : ∀ u : Task, (if e.children ≠ [] ∧ reaper = some i then u.adopting e.children else
    u).state = u.state ∧
      (if e.children ≠ [] ∧ reaper = some i then u.adopting e.children else u).waitBlocked = u.waitBlocked := by
    intro u
    split <;> exact ⟨rfl, rfl⟩
  have moved : ∀ u : Task, (if i ∈ e.children then u.reparented reaper else u).state = u.state ∧
      (if i ∈ e.children then u.reparented reaper else u).waitBlocked = u.waitBlocked := by
    intro u
    split <;> exact ⟨rfl, rfl⟩
  have told : ∀ u : Task, (if e.parent = some i then u.notified else u).state =
      if e.parent = some i ∧ u.state = .blocked ∧ u.waitBlocked then .runnable else u.state := by
    intro u
    by_cases parent : e.parent = some i <;> simp [parent, Task.notified]
  unfold change
  dsimp only
  rw [told, (adopted _).1, (adopted _).2, (moved _).1, (moved _).2]
  by_cases own : i = e.id <;> simp [own, Task.ended]

theorem live_finish {e : Task} (alive : s.live e.id = some e) (status : Int32) (i : TaskId) :
    (s.finish e status).live i = (s.live i).map (change e status s.initTaskId i) := by
  unfold live
  rw [find_finish]
  cases found : s.find i with
  | none => rfl
  | some t =>
    have dead : (change e status s.initTaskId i t).state = .dead ↔ t.state = .dead := by
      rw [change_state]
      by_cases own : i = e.id
      · obtain ⟨here, notDead⟩ := live_find.mp alive
        rw [own, here] at found
        cases found
        simp [own, notDead]
      · by_cases told : e.parent = some i ∧ t.state = .blocked ∧ t.waitBlocked
        · simp [own, told]
        · simp [own, told]
    by_cases gone : t.state = .dead
    · simp [Option.filter, dead, gone]
    · simp [Option.filter, dead, gone]

theorem forest_finish {e : Task} (alive : s.live e.id = some e) (status : Int32) :
    (s.finish e status).forest = s.forest.bequeath e.id e.children s.initTaskId := by
  funext i
  simp only [forest, view, Forest.bequeath, live_finish alive, Option.map_map]
  congr 1
  funext t
  unfold Task.link
  obtain ⟨parent, children⟩ := change_links e status s.initTaskId i t
  simp only [Function.comp_apply, parent, children]

/-- Ids, the reaper and the phase of `reap_orphans` are the same, and no task is new. -/
structure Same (s t : Scheduler) : Prop where
  ids : t.tasks.map (·.id) = s.tasks.map (·.id)
  nextId : t.nextId = s.nextId
  init : t.initTaskId = s.initTaskId
  reaping : t.reaping = s.reaping

namespace Same

variable {t u : Scheduler}

theorem refl (s : Scheduler) : Same s s := ⟨rfl, rfl, rfl, rfl⟩

theorem trans (first : Same s t) (second : Same t u) : Same s u where
  ids := second.ids.trans first.ids
  nextId := second.nextId.trans first.nextId
  init := second.init.trans first.init
  reaping := second.reaping.trans first.reaping

theorem modify (s : Scheduler) (id : TaskId) {f : Task → Task} (keeps : ∀ t, (f t).id = t.id) :
    Same s (s.modify id f) :=
  ⟨modifyFirst_ids keeps s.tasks, rfl, rfl, rfl⟩

theorem modifyCurrent (s : Scheduler) {f : Task → Task} (keeps : ∀ t, (f t).id = t.id) :
    Same s (s.modifyCurrent f) where
  ids := by
    apply List.ext_getElem?
    intro n
    simp only [Scheduler.modifyCurrent, List.getElem?_map, List.getElem?_modify]
    cases s.tasks[n]? with
    | none => rfl
    | some t =>
      simp only [Option.map_eq_map, Option.map_some, Option.some.injEq]
      split
      · exact keeps t
      · rfl
  nextId := rfl
  init := rfl
  reaping := rfl

theorem numbered (same : Same s t) (numbered : Numbered s) : Numbered t where
  distinct := by
    rw [same.ids]
    exact numbered.distinct
  below x member := by
    have listed : x.id ∈ t.tasks.map (·.id) := List.mem_map_of_mem member
    rw [same.ids] at listed
    obtain ⟨y, before, equal⟩ := List.mem_map.mp listed
    rw [same.nextId, ← equal]
    exact numbered.below y before

theorem reparent (s : Scheduler) (children : List TaskId) : Same s (s.reparent children) := by
  have moved : ∀ (reaper : Option TaskId) (u : Scheduler),
      Same u (children.foldl (fun u child => u.modify child (·.reparented reaper)) u) := by
    intro reaper
    induction children with
    | nil => exact refl
    | cons child rest ih =>
      exact fun u => (modify u child (f := (·.reparented reaper)) fun _ => rfl).trans (ih _)
  unfold Scheduler.reparent
  split
  · exact refl s
  · dsimp only
    split
    · exact (moved _ s).trans (modify _ _ fun _ => rfl)
    · exact moved _ s

theorem notify (s : Scheduler) (parent : Option TaskId) : Same s (s.notify parent) := by
  unfold Scheduler.notify
  split
  · exact modify s _ fun _ => rfl
  · exact refl s

theorem finish (s : Scheduler) (e : Task) (status : Int32) : Same s (s.finish e status) :=
  ((modify s e.id (f := (·.ended status)) fun _ => rfl).trans (reparent _ _)).trans (notify _ _)

theorem unblock (s : Scheduler) (id : TaskId) : Same s (s.unblock id) := by
  refine modify s id fun u => ?_
  split <;> rfl

theorem switchTo (s : Scheduler) (i : Nat) : Same s (s.switchTo i) := by
  have demoted : Same s (s.modifyCurrent fun t => if t.state = .running then t.inState .runnable else t) := by
    refine modifyCurrent s fun t => ?_
    split <;> rfl
  have promoted := modifyCurrent
    { s.modifyCurrent (fun t => if t.state = .running then t.inState .runnable else t) with current := i }
    (f := (·.inState .running)) fun _ => rfl
  exact demoted.trans ⟨promoted.ids, rfl, rfl, rfl⟩

end Same

/-! ### The operations on the forest -/

section Views

variable {β : Type} {g : Task → β}

theorem view_modify (stable : Stable g) {id : TaskId} {f : Task → Task} (keeps : ∀ t, (f t).id = t.id)
    (neutral : ∀ t, s.find id = some t → Neutral f t) : (s.modify id f).view g = s.view g := by
  funext i
  unfold view
  rw [live_modify keeps fun t found => (neutral t found).dead]
  by_cases here : i = id
  · subst here
    cases alive : s.live i with
    | none => simp
    | some t => simp [stable f t (neutral t (live_find.mp alive).1)]
  · simp [here]

theorem view_modifyCurrent (stable : Stable g) (numbered : Numbered s)
    {f : Task → Task} (keeps : ∀ t, (f t).id = t.id)
    (neutral : ∀ t, s.me = some t → Neutral f t) : (s.modifyCurrent f).view g = s.view g := by
  cases me : s.me with
  | none =>
    have beyond : s.tasks.length ≤ s.current := by simpa [Scheduler.me] using me
    rw [modifyCurrent, List.modify_eq_self beyond]
  | some t =>
    rw [modifyCurrent_eq numbered me]
    refine view_modify stable keeps fun u found => ?_
    rw [numbered.find_eq (List.mem_of_getElem? me)] at found
    cases found
    exact neutral t me

theorem waiting_neutral (waits : Bool) (t : Task) : Neutral (·.waiting waits) t := ⟨rfl, rfl, Iff.rfl, Iff.rfl⟩

theorem sleep_neutral {t : Task} (running : t.state = .running) :
    Neutral (fun t => (t.waiting true).inState .blocked) t :=
  ⟨rfl, rfl, by simp [Task.inState, Task.waiting, running], by simp [Task.inState, Task.waiting, running]⟩

theorem view_block (stable : Stable g) (numbered : Numbered s) {t : Task} (me : s.me = some t)
    (running : t.state = .running) :
    (s.modifyCurrent (·.inState .blocked)).view g = s.view g := by
  refine view_modifyCurrent stable numbered (fun _ => rfl) fun u here => ?_
  rw [me] at here
  cases here
  exact ⟨rfl, rfl, by simp [Task.inState, running], by simp [Task.inState, running]⟩

theorem view_unblock (stable : Stable g) (id : TaskId) : (s.unblock id).view g = s.view g := by
  refine view_modify stable (fun u => ?_) fun u _ => ?_
  · split <;> rfl
  · by_cases blocked : u.state = .blocked <;> constructor <;> simp [blocked, Task.inState]

theorem view_switchTo (stable : Stable g) (numbered : Numbered s)
    {i : Nat} {e : Task} (here : s.tasks[i]? = some e)
    (runnable : e.state = .runnable) : (s.switchTo i).view g = s.view g := by
  let demote : Task → Task := fun t => if t.state = .running then t.inState .runnable else t
  have keeps : ∀ t, (demote t).id = t.id := by
    intro t
    dsimp only [demote]
    split <;> rfl
  have neutral : ∀ t, Neutral demote t := by
    intro t
    by_cases runs : t.state = .running <;> constructor <;> simp [demote, runs, Task.inState]
  have demoted := (Same.modifyCurrent s keeps).numbered numbered
  have numbered' : Numbered { s.modifyCurrent demote with current := i } := ⟨demoted.distinct, demoted.below⟩
  have promoted : ({ s.modifyCurrent demote with current := i }.modifyCurrent (·.inState .running)).view g =
      (s.modifyCurrent demote).view g := by
    refine view_modifyCurrent stable numbered' (fun _ => rfl) fun t found => ?_
    have state : t.state = .runnable := by
      simp only [me, modifyCurrent, List.getElem?_modify, here, Option.map_eq_map, Option.map_some,
        Option.some.injEq] at found
      rw [← found]
      split <;> simp [demote, runnable]
    exact ⟨rfl, rfl, by simp [Task.inState, state], by simp [Task.inState, state]⟩
  exact promoted.trans (view_modifyCurrent stable numbered keeps fun t _ => neutral t)

end Views

theorem forest_some {id : TaskId} {node : Node TaskId} :
    s.forest id = some node ↔ ∃ t, s.live id = some t ∧ node = ⟨t.parent, t.children⟩ := by
  simp only [forest, view, Task.link, Option.map_eq_some_iff]
  constructor
  · rintro ⟨t, found, rfl⟩
    exact ⟨t, found, rfl⟩
  · rintro ⟨t, found, rfl⟩
    exact ⟨t, found, rfl⟩

theorem forest_spawn (numbered : Numbered s) (ring : Ring) (userCr3 : Option UInt64) :
    (s.spawn ring userCr3).forest = s.forest.plant s.nextId := by
  funext i
  unfold forest view spawn Forest.plant
  rw [live_addTask (s := { s with nextId := s.nextId + 1 }) numbered.next
    (fun u member => Nat.ne_of_lt (numbered.below u member)) (by simp)]
  by_cases new : i = s.nextId
  · simp [new, Task.link]
  · simp [new, live, find]

/-- The table with a new child of `p`. -/
def forked (s : Scheduler) (p : TaskId) (childCr3 : UInt64) : Scheduler :=
  ({ s with nextId := s.nextId + 1 }.addTask
    { id := s.nextId, ring := .user, userCr3 := some childCr3, parent := some p }).modify
      p (·.adopting [s.nextId])

theorem doFork_cases {t : Task} (me : s.me = some t) (childCr3 : UInt64) :
    s.doFork childCr3 = s ∨ s.doFork childCr3 = s.forked t.id childCr3 := by
  unfold doFork
  simp only [me]
  cases t.userCr3 with
  | none => exact .inl rfl
  | some cr3 => exact .inr rfl

theorem forest_forked (numbered : Numbered s) {p : TaskId} (other : p ≠ s.nextId) (childCr3 : UInt64) :
    (s.forked p childCr3).forest = s.forest.fork p s.nextId := by
  funext i
  unfold forked forest view Forest.fork
  rw [live_modify (f := (·.adopting [s.nextId])) (fun _ => rfl) (fun _ _ => Iff.rfl),
    live_addTask (s := { s with nextId := s.nextId + 1 }) numbered.next
      (fun u member => Nat.ne_of_lt (numbered.below u member)) (by simp)]
  by_cases new : i = s.nextId
  · simp [new, Ne.symm other, Task.link]
  · by_cases parent : i = p
    · subst parent
      simp only [if_true, new, if_false, Option.map_map]
      rfl
    · simp only [parent, new, if_false]
      rfl

theorem doExit_eq (numbered : Numbered s) {t : Task} (me : s.me = some t) (status : Int32) :
    s.doExit status = s.finish t status := by
  unfold doExit finish
  simp only [me]
  rw [modifyCurrent_eq numbered me]

theorem terminateTask_cases (numbered : Numbered s) (id : TaskId) (status : Int32) :
    s.terminateTask id status = s ∨
      ∃ e, s.find id = some e ∧ (s.me = some e ∨ e.state ≠ .zombie ∧ e.state ≠ .dead) ∧
        s.terminateTask id status = s.finish e status := by
  -- A task that ends by `terminate_task`, and how.
  unfold terminateTask
  split
  next self =>
    obtain ⟨t, me, rfl⟩ := Option.map_eq_some_iff.mp self
    exact .inr ⟨t, numbered.find_eq (List.mem_of_getElem? me), .inl me, doExit_eq numbered me status⟩
  next =>
    cases found : s.find id with
    | none => exact .inl rfl
    | some e =>
      by_cases gone : e.state = .zombie ∨ e.state = .dead
      · simp [gone]
      · simp only [gone, if_false]
        refine .inr ⟨e, rfl, .inr (not_or.mp gone), ?_⟩
        rw [finish, find_id found]

theorem forest_reap {p c : TaskId} :
    ((s.modify p (·.without c)).modify c (·.inState .dead)).forest = s.forest.prune p c := by
  -- A zombie is taken off a list and buried.
  funext i
  unfold forest view Forest.prune
  rw [live_bury, live_modify (f := (·.without c)) (fun _ => rfl) (fun _ _ => Iff.rfl)]
  by_cases gone : i = c
  · simp [gone]
  · by_cases parent : i = p
    · subst parent
      simp only [gone, if_false, if_true, Option.map_map]
      rfl
    · simp [gone, parent]

theorem me_modifyCurrent (f : Task → Task) : (s.modifyCurrent f).me = s.me.map f := by
  simp [Scheduler.me, Scheduler.modifyCurrent]

theorem Numbered.awake (numbered : Numbered s) {e : Task} (me : s.me = some e) :
    Numbered (s.modifyCurrent (·.waiting false)) ∧
    (s.modifyCurrent (·.waiting false)).me = some (e.waiting false) := by
  refine ⟨(Same.modifyCurrent s (f := (·.waiting false)) fun _ => rfl).numbered numbered, ?_⟩
  rw [me_modifyCurrent, me]
  rfl

/-- The three ends of a turn of `do_wait`. -/
theorem doWait_cases (numbered : Numbered s) {e : Task} (me : s.me = some e) :
    let awake := s.modifyCurrent (·.waiting false)
    s.doWait = awake ∨ s.doWait = awake.modifyCurrent (fun t => (t.waiting true).inState .blocked) ∨
      ∃ cid ∈ e.children, awake.isZombie cid ∧
        s.doWait = (awake.modify e.id (·.without cid)).modify cid (·.inState .dead) := by
  obtain ⟨numbered', me'⟩ := numbered.awake me
  unfold doWait
  simp only [me]
  split
  · exact .inl rfl
  · split
    next cid found =>
      refine .inr (.inr ⟨cid, List.mem_of_find?_eq_some found, List.find?_some found, ?_⟩)
      rw [modifyCurrent_eq numbered' me']
      rfl
    next => exact .inr (.inl rfl)

end Scheduler

end PickleOS.Tasks
