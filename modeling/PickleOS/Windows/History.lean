import PickleOS.Windows.Convergence
import PickleOS.Windows.Queues
import PickleOS.Shared.Turns
import Mathlib.Logic.Function.Basic

set_option autoImplicit false

namespace PickleOS.Windows

open Shared Shared.Checked Shared.Machine

/-- The call of `push_event` of the next step of the compositor. -/
def State.pushes (s : State) (ch : Option Char) : Option (WindowId × Pushed) :=
  match s.pc with
  | .greeting id => some (id, .focus)
  | .closing i => (s.desk.windows[i]?).map fun win => (win.clientId, .close)
  | .switching (first :: _) => some first
  | .keys cid => ch.map fun ch => (cid, .key ch)
  | .reporting cid (pushed :: _) => some (cid, pushed)
  | _ => none

namespace Desk

variable (d : Desk)

/-- The mouse did something in the client area of the window on top. -/
def inside : Bool :=
  (d.windows[d.focus]?).any fun win =>
    let lx := d.m.x - win.x
    let ly := d.m.y - (win.y + titleH)
    d.mouseChanged ∧ 0 ≤ lx ∧ 0 ≤ ly ∧ lx < win.w ∧ ly < win.h - titleH

def topmost : Option WindowId := d.windows.getLast?.bind Window.client

end Desk

/-- A run of the compositor, with what it pushed to the windows that were there. -/
structure Watched where
  s : State
  log : WindowId → List Pushed
  -- The client in whose area the pointer was when the button went down.
  held : Option WindowId

namespace Watched

def boot (screen : Screen) (tester : TaskId) (primary : Nat) : Watched :=
  { s := .boot screen tester primary, log := fun _ => [], held := none }

variable (w : Watched)

def logged (ch : Option Char) : WindowId → List Pushed :=
  match w.s.pushes ch with
  | some (id, pushed) =>
    if w.s.wm.windowExists id then Function.update w.log id (w.log id ++ [pushed]) else w.log
  | none => w.log

def holds (ch : Option Char) : Option WindowId :=
  match w.s.pc, ch with
  | .keys cid, none =>
    let d := w.s.desk
    if d.m.left ∧ ¬d.prevLeftClient then (if d.inside then some cid else none) else w.held
  | _, _ => w.held

def watch : Action → Option Watched
  | .compositor slot ch =>
    (step w.s (.compositor slot ch)).map fun t => { s := t, log := w.logged ch, held := w.holds ch }
  | a => (step w.s a).map fun t => { w with s := t }

end Watched

def Pushed.focusTurn : Pushed → Option Bool
  | .focus => some true
  | .blur => some false
  | _ => none

def Pushed.buttonTurn : Pushed → Option Bool
  | .mouseDown _ _ => some true
  | .mouseUp _ _ => some false
  | _ => none

namespace Watched

variable (w : Watched) (id : WindowId)

def focusTurns : List Bool := (w.log id).filterMap Pushed.focusTurn

def buttonTurns : List Bool := (w.log id).filterMap Pushed.buttonTurn

end Watched

/-- The events of a list that are for one window. -/
def sent (id : WindowId) (events : List (WindowId × Pushed)) : List Pushed :=
  events.filterMap fun event => if event.1 = id then some event.2 else none

/-- The events that are decided on and still have to be pushed. -/
def Pc.queue : Pc → List (WindowId × Pushed)
  | .switching queue => queue
  | .reporting cid queue => queue.map fun pushed => (cid, pushed)
  | _ => []

def State.decides (s : State) (ch : Option Char) : List (WindowId × Pushed) :=
  match s.pc with
  | .greeting id => [(id, .focus)]
  | .closing i => ((s.desk.windows[i]?).map fun win => (win.clientId, .close)).toList
  | .routing => s.desk.switch.2
  | .keys cid =>
    match ch with
    | some ch => [(cid, .key ch)]
    | none => s.desk.reports.map fun pushed => (cid, pushed)
  | _ => []

def Watched.due (w : Watched) (id : WindowId) : List Pushed := w.log id ++ sent id w.s.pc.queue

section Sent

variable (id : WindowId) (first second : List (WindowId × Pushed))

@[simp] theorem sent_nil : sent id [] = [] := rfl

@[simp] theorem sent_append : sent id (first ++ second) = sent id first ++ sent id second :=
  List.filterMap_append

@[simp] theorem sent_self (pushed : Pushed) : sent id [(id, pushed)] = [pushed] := by simp [sent]

@[simp] theorem sent_reports (reports : List Pushed) :
  sent id (reports.map fun pushed => (id, pushed)) = reports := by
  simp [sent, List.filterMap_map]

theorem sent_other {id other : WindowId} (different : other ≠ id) (reports : List Pushed) :
    sent id (reports.map fun pushed => (other, pushed)) = [] := by
  simp [sent, different]

end Sent

variable {s t : State} {slot : Option Nat} {ch : Option Char} {w : Watched} {id : WindowId}

theorem pushed_event {pushed : Pushed} (taken : s.compositor slot ch = some t)
    (pushes : s.pushes ch = some (id, pushed)) :
    t.wm = s.wm.pushEvent id pushed.event := by
  unfold State.compositor at taken
  unfold State.pushes at pushes
  cases here : s.pc with
  | greeting other =>
    simp only [here] at taken pushes
    cases taken
    cases pushes
    rfl
  | closing i =>
    simp only [here] at taken pushes
    cases at' : s.desk.windows[i]? with
    | none => simp [at'] at pushes
    | some win =>
      simp only [at', Option.map_some] at taken pushes
      cases taken
      cases pushes
      rfl
  | switching queue =>
    cases queue with
    | nil => simp [here] at pushes
    | cons first rest =>
      simp only [here] at taken pushes
      cases taken
      cases pushes
      rfl
  | keys cid =>
    cases ch with
    | none => simp [here] at pushes
    | some ch =>
      simp only [here, Option.map_some] at taken pushes
      cases taken
      cases pushes
      rfl
  | reporting cid queue =>
    cases queue with
    | nil => simp [here] at pushes
    | cons first rest =>
      simp only [here] at taken pushes
      cases taken
      cases pushes
      rfl
  | _ => simp [here] at pushes

structure SameQueues (wm wm' : Wm) : Prop where
  queues : ∀ id win, wm'.window id = some win → (wm.window id).map ServerWindow.events = some win.events
  nextId : wm'.nextId = wm.nextId

theorem Thins.sameQueues {wm wm' : Wm} (thins : Thins wm wm') : SameQueues wm wm' where
  queues id win found := by rw [thins.window id win found, Option.map_some]
  nextId := thins.nextId

theorem setPosition_sameQueues (wm : Wm) (id : WindowId) (x y : Int32) :
    SameQueues wm (wm.setPosition id x y) := by
  have edits := @setPosition_edits wm id x y
  refine ⟨fun other win found => ?_, edits.nextId⟩
  rw [edits.window] at found
  split at found
  next here =>
    obtain ⟨old, was, rfl⟩ := Option.map_eq_some_iff.mp found
    rw [here, was, Option.map_some]
  next => rw [found, Option.map_some]

theorem unpushed_queues (taken : s.compositor slot ch = some t) (pushes : s.pushes ch = none) :
    SameQueues s.wm t.wm := by
  have kept : SameQueues s.wm s.wm := (Thins.refl s.wm).sameQueues
  unfold State.compositor at taken
  unfold State.pushes at pushes
  cases here : s.pc with
  | takeNew =>
    simp only [here] at taken
    cases taken
    exact (takePendingNew_thins s.wm).sameQueues
  | takeDestroy =>
    simp only [here] at taken
    split at taken <;> cases taken <;> exact (takePendingDestroy_thins s.wm).sameQueues
  | placing other x y | moving other x y =>
    simp only [here] at taken
    cases taken
    exact setPosition_sameQueues s.wm other x y
  | sizing other =>
    simp only [here] at taken
    split at taken
    next =>
      cases taken
      exact kept
    next size found =>
      cases taken
      cases s.desk.frame s.screen other size <;> exact kept
  | pointer =>
    simp only [here] at taken
    cases taken
    cases s.desk.point s.screen slot <;> exact kept
  | closing i =>
    simp only [here] at taken pushes
    cases at' : s.desk.windows[i]? with
    | none =>
      simp only [at'] at taken
      cases taken
      exact kept
    | some win => simp [at'] at pushes
  | destroying i =>
    simp only [here] at taken
    split at taken
    next =>
      cases taken
      exact kept
    next win at' =>
      cases taken
      exact (destroyWindow_thins s.wm win.clientId).sameQueues
  | switching queue =>
    cases queue with
    | nil =>
      simp only [here] at taken
      cases taken
      exact kept
    | cons first rest => simp [here] at pushes
  | keys cid =>
    cases ch with
    | none =>
      simp only [here] at taken
      cases taken
      exact kept
    | some ch => simp [here] at pushes
  | reporting cid queue =>
    cases queue with
    | nil =>
      simp only [here] at taken
      cases taken
      exact kept
    | cons first rest => simp [here] at pushes
  | greeting other => simp [here] at pushes
  | top | routing | sleeping =>
    simp only [here] at taken
    cases taken
    exact kept
  | panicked panic => simp [here] at taken

theorem compositor_wm (taken : s.compositor slot ch = some t) :
    (∀ id, t.wm.Registered id → s.wm.Registered id) ∧ t.wm.nextId = s.wm.nextId := by
  cases pushes : s.pushes ch with
  | none =>
    obtain ⟨queues, nextId⟩ := unpushed_queues taken pushes
    refine ⟨fun id still => ?_, nextId⟩
    obtain ⟨win, found⟩ := Option.isSome_iff_exists.mp still
    obtain ⟨old, was, -⟩ := Option.map_eq_some_iff.mp (queues id win found)
    simp [Wm.Registered, was]
  | some first =>
    have keeps : Keeps s.wm (s.wm.pushEvent first.1 first.2.event) := .pushEvent _
    rw [← pushed_event taken pushes] at keeps
    exact ⟨fun id => (keeps.registered id).mp, keeps.nextId⟩

theorem Pointed.queue {d d' : Desk} {pc : Pc} (pointed : Pointed d d' pc) : pc.queue = [] := by
  cases pointed with
  | kept => rfl
  | dragged init win win' moved windows pc next => rcases next with rfl | ⟨id, x, y, rfl⟩ <;> rfl
  | released => rfl
  | pressed free pressed => cases pressed <;> rfl

theorem logged_self {pushed : Pushed} (registered : w.s.wm.Registered id)
    (pushes : w.s.pushes ch = some (id, pushed)) :
    w.logged ch id = w.log id ++ [pushed] := by
  have present : w.s.wm.windowExists id = true := registered
  rw [Watched.logged, pushes]
  simp [present]

theorem logged_other {other : WindowId} {pushed : Pushed} (different : other ≠ id)
    (pushes : w.s.pushes ch = some (other, pushed)) :
    w.logged ch id = w.log id := by
  rw [Watched.logged, pushes]
  dsimp only
  split
  · exact Function.update_of_ne different.symm _ _
  · rfl

theorem logged_first {first : WindowId × Pushed} (registered : w.s.wm.Registered id)
    (pushes : w.s.pushes ch = some first) :
    w.logged ch id = w.log id ++ sent id [first] := by
  obtain ⟨other, pushed⟩ := first
  by_cases same : other = id
  · subst same
    rw [logged_self registered pushes, sent_self]
  · rw [logged_other same pushes]
    simp [sent, same]

theorem logged_unregistered (gone : ¬w.s.wm.Registered id) : w.logged ch id = w.log id := by
  cases pushes : w.s.pushes ch with
  | none => rw [Watched.logged, pushes]
  | some first =>
    obtain ⟨other, pushed⟩ := first
    by_cases same : other = id
    · subst same
      have absent : w.s.wm.windowExists other = false := Bool.eq_false_iff.mpr gone
      rw [Watched.logged, pushes]
      simp [absent]
    · exact logged_other same pushes

theorem logged_none (pushes : w.s.pushes ch = none) :
    w.logged ch id = w.log id := by rw [Watched.logged, pushes]

theorem queue_step (taken : s.compositor slot ch = some t) :
    (s.pushes ch).toList ++ t.pc.queue = s.pc.queue ++ s.decides ch := by
  unfold State.compositor at taken
  unfold State.pushes State.decides
  cases here : s.pc with
  | switching queue =>
    cases queue with
    | nil =>
      simp only [here] at taken
      cases taken
      cases s.desk.topClient <;> rfl
    | cons first rest =>
      simp only [here] at taken
      cases taken
      simp [Pc.queue]
  | reporting cid queue =>
    cases queue with
    | nil =>
      simp only [here] at taken
      cases taken
      rfl
    | cons first rest =>
      simp only [here] at taken
      cases taken
      simp [Pc.queue]
  | keys cid =>
    cases ch with
    | none =>
      simp only [here] at taken
      cases taken
      rfl
    | some ch =>
      simp only [here] at taken
      cases taken
      rfl
  | closing i =>
    simp only [here] at taken
    cases at' : s.desk.windows[i]? with
    | none =>
      simp only [at'] at taken
      cases taken
      simp [at', State.goto, Pc.queue]
    | some win =>
      simp only [at'] at taken
      cases taken
      simp [at', Pc.queue]
  | takeNew =>
    simp only [here] at taken
    cases taken
    cases s.wm.takePendingNew.1 <;> rfl
  | sizing other =>
    simp only [here] at taken
    split at taken
    next =>
      cases taken
      rfl
    next size found =>
      cases taken
      cases s.desk.frame s.screen other size <;> rfl
  | takeDestroy =>
    simp only [here] at taken
    split at taken <;> cases taken <;> rfl
  | pointer =>
    simp only [here] at taken
    cases taken
    cases pointed : s.desk.point s.screen slot with
    | error panic => rfl
    | ok next =>
      obtain ⟨left, pointed⟩ := point_pointed pointed
      exact pointed.queue
  | destroying i =>
    simp only [here] at taken
    split at taken <;> cases taken <;> rfl
  | top | routing | placing other x y | moving other x y | greeting other | sleeping =>
    simp only [here] at taken
    cases taken
    simp [State.goto, Pc.queue]
  | panicked panic => simp [here] at taken

theorem due_step (registered : w.s.wm.Registered id) (taken : w.s.compositor slot ch = some t) :
    w.logged ch id ++ sent id t.pc.queue = w.due id ++ sent id (w.s.decides ch) := by
  have logged : w.logged ch id = w.log id ++ sent id (w.s.pushes ch).toList := by
    cases pushes : w.s.pushes ch with
    | none => rw [logged_none pushes, Option.toList_none, sent_nil, List.append_nil]
    | some first => exact logged_first registered pushes
  rw [logged, List.append_assoc, ← sent_append, queue_step taken, sent_append, ← List.append_assoc, Watched.due]

/-- What the steps of the others do to the windows and the desk. -/
structure Beside (s t : State) : Prop where
  registered : ∀ id, t.wm.Registered id → s.wm.Registered id ∨ s.wm.nextId ≤ id ∧ id < t.wm.nextId
  nextId : s.wm.nextId ≤ t.wm.nextId
  desk : t.desk = s.desk
  pc : t.pc = s.pc

section Beside

variable {wm wm' : Wm}

def Grows (wm wm' : Wm) : Prop :=
  (∀ id, wm'.Registered id → wm.Registered id ∨ wm.nextId ≤ id ∧ id < wm'.nextId) ∧ wm.nextId ≤ wm'.nextId

theorem Keeps.grows (keeps : Keeps wm wm') : Grows wm wm' :=
  ⟨fun id still => .inl ((keeps.registered id).mp still), keeps.nextId.ge⟩

theorem Takes.grows (takes : Takes wm wm') : Grows wm wm' :=
  ⟨fun id still => .inl ((takes.registered id).mp still), takes.nextId.ge⟩

theorem Destroys.grows {ids : List WindowId} (destroys : Destroys ids wm wm') : Grows wm wm' :=
  ⟨fun id still => .inl ((destroys.registered id).mp still).1, destroys.nextId.ge⟩

theorem Creates.grows (creates : Creates wm wm') : Grows wm wm' := by
  rw [Grows, creates.nextId]
  refine ⟨fun id still => ?_, Nat.le_succ _⟩
  rcases (creates.registered id).mp still with old | rfl
  · exact .inl old
  · exact .inr ⟨Nat.le_refl _, Nat.lt_succ_self _⟩

theorem createWindow_grows (wm : Wm) (owner : TaskId) (w h : Nat) (title : String) :
    Grows wm (wm.createWindow owner w h title).2 := by
  rcases createWindow_effect wm owner w h title with keeps | creates
  · exact keeps.grows
  · exact creates.grows

theorem Tested.beside (tested : Tested s t) : Beside s t := by
  obtain ⟨desk, pc⟩ := tested.same
  have grows : Grows s.wm t.wm := by
    cases tested with
    | keeps wm test keeps => exact keeps.grows
    | creates wm test creates => exact creates.grows
    | destroys wm test ids destroys => exact destroys.grows
    | takesNew wm id takes waiting pendingDestroy => exact takes.grows
    | takesDestroy wm test id takes pendingNew waiting => exact takes.grows
  exact ⟨grows.1, grows.2, desk, pc⟩

end Beside

theorem step_beside {a : Action} (other : ∀ slot ch, a ≠ .compositor slot ch)
    (taken : step s a = some t) : Beside s t := by
  have beside {wm : Wm} (grows : Grows s.wm wm) : Beside s { s with wm := wm } := ⟨grows.1, grows.2, rfl, rfl⟩
  cases a with
  | compositor slot ch => exact absurd rfl (other slot ch)
  | selftest => exact (selftest_tested taken).beside
  | createWindow owner width height title =>
    cases taken
    exact beside (createWindow_grows s.wm owner width height title)
  | destroyWindow id =>
    cases taken
    obtain ⟨ids, destroys, -⟩ := destroyWindow_destroys s.wm id
    exact beside destroys.grows
  | destroyWindowsOwnedBy owner =>
    cases taken
    obtain ⟨ids, destroys⟩ := destroyOwned_destroys s.wm owner
    exact beside destroys.grows
  | mouse x y left =>
    cases taken
    exact ⟨fun id still => .inl still, Nat.le_refl _, rfl, rfl⟩
  | commit id src =>
    cases taken
    exact beside (Keeps.commit src).grows
  | setTitle id title =>
    cases taken
    exact beside (Keeps.setTitle title).grows
  | pollEvent id =>
    cases taken
    exact beside Keeps.pollEvent.grows

theorem watch_cases {w' : Watched} {a : Action} (taken : w.watch a = some w') :
    (∃ slot ch t, a = .compositor slot ch ∧ w.s.compositor slot ch = some t ∧
      w' = { s := t, log := w.logged ch, held := w.holds ch }) ∨
      (∀ slot ch, a ≠ .compositor slot ch) ∧ ∃ t, step w.s a = some t ∧ w' = { w with s := t } := by
  cases a with
  | compositor slot ch =>
    obtain ⟨t, done, same⟩ := Option.map_eq_some_iff.mp taken
    exact .inl ⟨slot, ch, t, rfl, done, same.symm⟩
  | _ =>
    simp only [Watched.watch] at taken
    obtain ⟨t, done, same⟩ := Option.map_eq_some_iff.mp taken
    exact .inr ⟨(fun _ _ same => by cases same), t, done, same.symm⟩

end PickleOS.Windows
