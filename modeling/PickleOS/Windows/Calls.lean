import PickleOS.Windows.Events

set_option autoImplicit false

/-!
# The calls of the window server

Each one is a critical section of the lock of the registry.
-/

namespace PickleOS.Windows

open Shared

def eventQueueCap : Nat := 64

namespace ServerWindow

variable (win : ServerWindow)

def present (src : List UInt32) : ServerWindow :=
  let n := min src.length win.pixels.length
  { win with pixels := src.take n ++ win.pixels.drop n, bufSeq := win.bufSeq + 1 }

def receive (ev : WmEvent) : ServerWindow :=
  let kept := if eventQueueCap ≤ win.events.length then win.events.tail else win.events
  { win with events := kept ++ [ev] }

end ServerWindow

namespace WmState

variable (s : WmState) (id : WindowId)

/-- What is done with the result of `get_mut`, and whether there was one. -/
def update (f : ServerWindow → ServerWindow) : Bool × WmState :=
  match s.windows.lookup id with
  | some win => (true, { s with windows := s.windows.insert id (f win) })
  | none => (false, s)

end WmState

namespace Wm

variable (wm : Wm) (id : WindowId)

def withState {R : Type} (f : WmState → R × WmState) : Option R × Wm :=
  match wm.state with
  | none => (none, wm)
  | some s => (some (f s).1, { wm with state := some (f s).2 })

/-- The end of the calls that repaint when they found the window. -/
def bumpedIf (found : Option Bool × Wm) : Bool × Wm :=
  let ok := found.1.getD false
  (ok, if ok then found.2.bumpDirty else found.2)

def window : Option ServerWindow := wm.state.bind fun s => s.windows.lookup id

def isOwner (task : TaskId) : Bool := ((wm.window id).map fun w => w.owner == task).getD false

def commit (src : List UInt32) : Bool × Wm :=
  bumpedIf (wm.withState fun s => s.update id fun win => win.present src)

def setTitle (title : String) : Bool × Wm :=
  bumpedIf (wm.withState fun s => s.update id fun win => { win with title := title })

def destroyWindow : Bool × Wm :=
  bumpedIf (wm.withState fun s => if (s.windows.lookup id).isSome then (true, s.destroy id) else (false, s))

def pollEvent : Option WmEvent × Wm :=
  let (ev, wm) := wm.withState fun s =>
    ((s.windows.lookup id).bind fun win => win.events.head?,
    (s.update id fun win => { win with events := win.events.tail }).2)
  (ev.join, wm)

def windowInfo : Option (Int32 × Int32 × Nat × Nat) := (wm.window id).map fun w => (w.x, w.y, w.w, w.h)

def takePendingNew : Option WindowId × Wm :=
  let (id, wm) := wm.withState fun s => (s.pendingNew.head?, { s with pendingNew := s.pendingNew.tail })
  (id.join, wm)

def takePendingDestroy : Option WindowId × Wm :=
  let (id, wm) := wm.withState fun s => (s.pendingDestroy.head?,
    { s with pendingDestroy := s.pendingDestroy.tail })
  (id.join, wm)

def windowSizeTitle : Option (Nat × Nat × String) := (wm.window id).map fun w => (w.w, w.h, w.title)

def windowExists : Bool := (wm.window id).isSome

def setPosition (x y : Int32) : Wm :=
  (wm.withState fun s => s.update id fun win => { win with x := x, y := y }).2

def pushEvent (ev : WmEvent) : Wm := (wm.withState fun s => s.update id fun win => win.receive ev).2

def pendingNew : List WindowId := (wm.state.map WmState.pendingNew).getD []

def pendingDestroy : List WindowId := (wm.state.map WmState.pendingDestroy).getD []

def Registered : Prop := (wm.window id).isSome

end Wm

/-- The ids in the registry and the notices are left alone. -/
structure Keeps (wm wm' : Wm) : Prop where
  registered : ∀ id, wm'.Registered id ↔ wm.Registered id
  pendingNew : wm'.pendingNew = wm.pendingNew
  pendingDestroy : wm'.pendingDestroy = wm.pendingDestroy
  nextId : wm'.nextId = wm.nextId

/-- The ids leave the registry, with a notice each. -/
structure Destroys (ids : List WindowId) (wm wm' : Wm) : Prop where
  were : ∀ id ∈ ids, wm.Registered id
  registered : ∀ id, wm'.Registered id ↔ wm.Registered id ∧ id ∉ ids
  pendingNew : wm'.pendingNew = wm.pendingNew
  pendingDestroy : wm'.pendingDestroy = wm.pendingDestroy ++ ids
  nextId : wm'.nextId = wm.nextId

structure Creates (wm wm' : Wm) : Prop where
  registered : ∀ id, wm'.Registered id ↔ wm.Registered id ∨ id = wm.nextId
  pendingNew : wm'.pendingNew = wm.pendingNew ++ [wm.nextId]
  pendingDestroy : wm'.pendingDestroy = wm.pendingDestroy
  nextId : wm'.nextId = wm.nextId + 1

variable {wm wm' : Wm} {id : WindowId}

@[simp] theorem window_bumpDirty : wm.bumpDirty.window id = wm.window id := rfl
@[simp] theorem pendingNew_bumpDirty : wm.bumpDirty.pendingNew = wm.pendingNew := rfl
@[simp] theorem pendingDestroy_bumpDirty : wm.bumpDirty.pendingDestroy = wm.pendingDestroy := rfl
@[simp] theorem nextId_bumpDirty : wm.bumpDirty.nextId = wm.nextId := rfl

namespace Keeps

theorem refl (wm : Wm) : Keeps wm wm where
  registered _ := Iff.rfl
  pendingNew := rfl
  pendingDestroy := rfl
  nextId := rfl

theorem bumped (keeps : Keeps wm wm') : Keeps wm wm'.bumpDirty := { keeps with }

theorem destroys_none (keeps : Keeps wm wm') : Destroys [] wm wm' where
  were _ member := by cases member
  registered id := by simp [keeps.registered id]
  pendingNew := keeps.pendingNew
  pendingDestroy := by simp [keeps.pendingDestroy]
  nextId := keeps.nextId

theorem update {f : WmState → ServerWindow → ServerWindow} {R : Type} (answer : WmState → Bool → R) :
    Keeps wm (wm.withState fun s => (answer s (s.update id (f s)).1, (s.update id (f s)).2)).2 := by
  unfold Wm.withState
  cases here : wm.state with
  | none => exact refl wm
  | some s =>
    simp only [WmState.update]
    split
    next win found =>
      refine ⟨fun other => ?_, by simp [Wm.pendingNew, here], by simp [Wm.pendingDestroy, here], rfl⟩
      simp only [Wm.Registered, Wm.window, here, Option.bind_some, Map.lookup_insert_eq]
      by_cases same : other = id
      · subst same
        simp [found]
      · simp [same]
    next => exact ⟨fun other => by simp [Wm.Registered, Wm.window, here], by simp [Wm.pendingNew, here],
      by simp [Wm.pendingDestroy, here], rfl⟩

theorem bumpedIf {found : Option Bool × Wm} (keeps : Keeps wm found.2) : Keeps wm (Wm.bumpedIf found).2 := by
  unfold Wm.bumpedIf
  cases found.1.getD false with
  | false => exact keeps
  | true => exact keeps.bumped

theorem commit (src : List UInt32) : Keeps wm (wm.commit id src).2 := (update fun _ ok => ok).bumpedIf

theorem setTitle (title : String) : Keeps wm (wm.setTitle id title).2 := (update fun _ ok => ok).bumpedIf

theorem pollEvent : Keeps wm (wm.pollEvent id).2 :=
  update fun s _ => (s.windows.lookup id).bind fun win => win.events.head?

theorem setPosition (x y : Int32) : Keeps wm (wm.setPosition id x y) := update fun _ ok => ok

theorem pushEvent (ev : WmEvent) : Keeps wm (wm.pushEvent id ev) := update fun _ ok => ok

end Keeps

theorem Destroys.bumped {ids : List WindowId} (destroys : Destroys ids wm wm') :
    Destroys ids wm wm'.bumpDirty := { destroys with }

theorem destroyWindow_destroys (wm : Wm) (id : WindowId) :
    ∃ ids, Destroys ids wm (wm.destroyWindow id).2 ∧ ∀ other, other ∈ ids ↔ other = id ∧
    wm.Registered id := by
  unfold Wm.destroyWindow Wm.withState Wm.bumpedIf
  cases here : wm.state with
  | none => exact ⟨[], (Keeps.refl wm).destroys_none, by simp [Wm.Registered, Wm.window, here]⟩
  | some s =>
    cases found : s.windows.lookup id with
    | none =>
      have same : { wm with state := some s } = wm := by rw [← here]
      simp only [found, Option.isSome_none, Bool.false_eq_true, if_false, Option.getD_some, same]
      exact ⟨[], (Keeps.refl wm).destroys_none, by simp [Wm.Registered, Wm.window, here, found]⟩
    | some win =>
      refine ⟨[id], ?_, by simp [Wm.Registered, Wm.window, here, found]⟩
      simp only [found, Option.isSome_some, if_true, Option.getD_some]
      refine Destroys.bumped ⟨by simp [Wm.Registered, Wm.window, here, found], fun other => ?_,
        by simp [Wm.pendingNew, WmState.destroy, here], by simp [Wm.pendingDestroy, WmState.destroy, here], rfl⟩
      simp only [Wm.Registered, Wm.window, WmState.destroy, here, Option.bind_some, Map.lookup_erase_eq]
      by_cases same : other = id <;> simp [same]

theorem not_registered_destroyed : ¬(wm.destroyWindow id).2.Registered id := by
  obtain ⟨ids, destroys, which⟩ := destroyWindow_destroys wm id
  intro still
  obtain ⟨was, kept⟩ := (destroys.registered id).mp still
  exact kept ((which id).mpr ⟨rfl, was⟩)

theorem pending_destroyed (ids : List WindowId) (s : WmState) :
    (ids.foldl WmState.destroy s).pendingNew = s.pendingNew ∧
      (ids.foldl WmState.destroy s).pendingDestroy = s.pendingDestroy ++ ids := by
  induction ids generalizing s with
  | nil => simp
  | cons first rest ih =>
    rw [List.foldl_cons]
    obtain ⟨new, destroyed⟩ := ih (s.destroy first)
    refine ⟨new, ?_⟩
    rw [destroyed, WmState.destroy, List.append_assoc, List.singleton_append]

theorem destroyOwned_destroys (wm : Wm) (owner : TaskId) :
    ∃ ids, Destroys ids wm (wm.destroyWindowsOwnedBy owner).2 := by
  unfold Wm.destroyWindowsOwnedBy
  cases here : wm.state with
  | none => exact ⟨[], (Keeps.refl wm).destroys_none⟩
  | some s =>
    obtain ⟨new, destroyed⟩ := pending_destroyed (s.idsOf owner) s
    have swept : Destroys (s.idsOf owner) wm { wm
      with state := some ((s.idsOf owner).foldl WmState.destroy s) } := by
      refine ⟨fun id member => ?_, fun id => ?_, by simp [Wm.pendingNew, here, new],
        by simp [Wm.pendingDestroy, here, destroyed], rfl⟩
      · obtain ⟨w, found, -⟩ := mem_idsOf.mp member
        simp [Wm.Registered, Wm.window, here, found]
      · simp only [Wm.Registered, Wm.window, here, Option.bind_some, lookup_destroyed]
        by_cases member : id ∈ s.idsOf owner <;> simp [member]
    refine ⟨s.idsOf owner, ?_⟩
    dsimp only
    split
    · exact swept.bumped
    · exact swept

theorem createWindow_effect (wm : Wm) (owner : TaskId) (w h : Nat) (title : String) :
    Keeps wm (wm.createWindow owner w h title).2 ∨ Creates wm (wm.createWindow owner w h title).2 := by
  unfold Wm.createWindow
  split
  · exact .inl (.refl wm)
  cases here : wm.state with
  | none => exact .inl (.refl wm)
  | some s =>
    simp only
    split
    · exact .inl (.refl wm)
    · refine .inr ⟨fun id => ?_, by simp [Wm.bumpDirty, Wm.pendingNew, here],
        by simp [Wm.bumpDirty, Wm.pendingDestroy, here], rfl⟩
      simp only [Wm.Registered, Wm.bumpDirty, Wm.window, here, Option.bind_some, Map.lookup_insert_eq]
      by_cases same : id = wm.nextId <;> simp [same]

/-- A notice is taken off its queue. -/
structure Takes (wm wm' : Wm) : Prop where
  registered : ∀ id, wm'.Registered id ↔ wm.Registered id
  nextId : wm'.nextId = wm.nextId

theorem takePendingNew_takes (wm : Wm) : Takes wm wm.takePendingNew.2 ∧
    wm.takePendingNew.1 = wm.pendingNew.head? ∧
    wm.takePendingNew.2.pendingNew = wm.pendingNew.tail ∧
    wm.takePendingNew.2.pendingDestroy = wm.pendingDestroy := by
  unfold Wm.takePendingNew Wm.withState
  cases here : wm.state with
  | none => simpa [Wm.pendingNew, here] using (⟨fun _ => Iff.rfl, rfl⟩ : Takes wm wm)
  | some s =>
    refine ⟨⟨fun id => ?_, rfl⟩, by simp [Wm.pendingNew, here], by simp [Wm.pendingNew, here],
      by simp [Wm.pendingDestroy, here]⟩
    simp [Wm.Registered, Wm.window, here]

theorem takePendingNew_none {wm : Wm} (none : wm.pendingNew = []) : Keeps wm wm.takePendingNew.2 := by
  obtain ⟨takes, -, pendingNew, pendingDestroy⟩ := takePendingNew_takes wm
  refine ⟨takes.registered, ?_, pendingDestroy, takes.nextId⟩
  rw [pendingNew, none]
  rfl

theorem takePendingDestroy_takes (wm : Wm) : Takes wm wm.takePendingDestroy.2 ∧
    wm.takePendingDestroy.1 = wm.pendingDestroy.head? ∧
    wm.takePendingDestroy.2.pendingDestroy = wm.pendingDestroy.tail ∧
    wm.takePendingDestroy.2.pendingNew = wm.pendingNew := by
  unfold Wm.takePendingDestroy Wm.withState
  cases here : wm.state with
  | none => simpa [Wm.pendingDestroy, here] using (⟨fun _ => Iff.rfl, rfl⟩ : Takes wm wm)
  | some s =>
    refine ⟨⟨fun id => ?_, rfl⟩, by simp [Wm.pendingDestroy, here], by simp [Wm.pendingDestroy, here],
      by simp [Wm.pendingNew, here]⟩
    simp [Wm.Registered, Wm.window, here]

theorem takePendingDestroy_none {wm : Wm} (none : wm.pendingDestroy = []) :
    Keeps wm wm.takePendingDestroy.2 := by
  obtain ⟨takes, -, pendingDestroy, pendingNew⟩ := takePendingDestroy_takes wm
  refine ⟨takes.registered, pendingNew, ?_, takes.nextId⟩
  rw [pendingDestroy, none]
  rfl

end PickleOS.Windows
