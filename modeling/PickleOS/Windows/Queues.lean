import PickleOS.Windows.Calls
import PickleOS.Shared.Lossy
import Mathlib.Data.List.Induction

set_option autoImplicit false

namespace PickleOS.Windows

open Shared

inductive Call where
  | createWindow (owner : TaskId) (w h : Nat) (title : String)
  | commit (id : WindowId) (src : List UInt32)
  | destroyWindow (id : WindowId)
  | destroyWindowsOwnedBy (owner : TaskId)
  | setTitle (id : WindowId) (title : String)
  | pollEvent (id : WindowId)
  | takePendingNew
  | takePendingDestroy
  | setPosition (id : WindowId) (x y : Int32)
  | pushEvent (id : WindowId) (ev : WmEvent)

namespace Wm

variable (wm : Wm)

def perform : Call → Wm
  | .createWindow owner w h title => (wm.createWindow owner w h title).2
  | .commit id src => (wm.commit id src).2
  | .destroyWindow id => (wm.destroyWindow id).2
  | .destroyWindowsOwnedBy owner => (wm.destroyWindowsOwnedBy owner).2
  | .setTitle id title => (wm.setTitle id title).2
  | .pollEvent id => (wm.pollEvent id).2
  | .takePendingNew => wm.takePendingNew.2
  | .takePendingDestroy => wm.takePendingDestroy.2
  | .setPosition id x y => wm.setPosition id x y
  | .pushEvent id ev => wm.pushEvent id ev

def windowCount : Nat := (wm.state.map fun s => s.windows.entries.length).getD 0

end Wm

/-- The window server, with a record of the windows it made and of the events that went into their queues
and out of them. -/
structure Traffic where
  wm : Wm
  created : List WindowId
  moves : WindowId → List (Lossy.Move WmEvent)

namespace Traffic

def start : Traffic := { wm := .initial, created := [], moves := fun _ => [] }

variable (t : Traffic)

def note (id : WindowId) (move : Lossy.Move WmEvent) : WindowId → List (Lossy.Move WmEvent) :=
  Function.update t.moves id (t.moves id ++ [move])

def pushedTo (id : WindowId) (ev : WmEvent) : WindowId → List (Lossy.Move WmEvent) :=
  if t.wm.windowExists id then t.note id (.pushed ev) else t.moves

def polledFrom (id : WindowId) : WindowId → List (Lossy.Move WmEvent) :=
  ((t.wm.pollEvent id).1.map fun ev => t.note id (.popped ev)).getD t.moves

def serve (call : Call) : Traffic where
  wm := t.wm.perform call
  created :=
    match call with
    | .createWindow owner w h title => t.created ++ (t.wm.createWindow owner w h title).1.toList
    | _ => t.created
  moves :=
    match call with
    | .pushEvent id ev => t.pushedTo id ev
    | .pollEvent id => t.polledFrom id
    | _ => t.moves

def after (calls : List Call) : Traffic := calls.foldl serve start

end Traffic

/-- Every event of a window was polled, or waits, or was overrun; what waits stands in the queue until the
window is destroyed. -/
structure Accounted (t : Traffic) : Prop where
  few : t.wm.windowCount ≤ maxWindows
  once : t.created.Nodup
  ids : ∀ id win, t.wm.window id = some win → id ∈ t.created ∧ win.id = id
  sized : ∀ id win, t.wm.window id = some win → win.pixels.length = win.w * win.h
  queues : ∀ id, ∃ waiting taken, Lossy.Accounts eventQueueCap (t.moves id) waiting taken ∧
    ∀ win, t.wm.window id = some win → win.events = waiting

/-- One window is rewritten. -/
structure Edits (id : WindowId) (f : ServerWindow → ServerWindow) (wm wm' : Wm) : Prop where
  window : ∀ other, wm'.window other = if other = id then (wm.window id).map f else wm.window other
  windowCount : wm'.windowCount = wm.windowCount
  nextId : wm'.nextId = wm.nextId

structure Makes (made : ServerWindow) (wm wm' : Wm) : Prop where
  id : made.id = wm.nextId
  sized : made.pixels.length = made.w * made.h
  events : made.events = []
  window : ∀ other, wm'.window other = if other = wm.nextId then some made else wm.window other
  windowCount : wm'.windowCount ≤ maxWindows
  nextId : wm'.nextId = wm.nextId + 1

/-- Windows are left alone or taken away. -/
structure Thins (wm wm' : Wm) : Prop where
  window : ∀ id win, wm'.window id = some win → wm.window id = some win
  windowCount : wm'.windowCount ≤ wm.windowCount
  nextId : wm'.nextId = wm.nextId

section Effects

variable {wm : Wm} {id : WindowId}

theorem length_erase_present {m : Map WindowId ServerWindow}
    {win : ServerWindow} (present : m.lookup id = some win) :
    (m.entries.kerase id).length + 1 = m.entries.length := by
  have member : id ∈ m.keys := AList.mem_keys.mp (AList.lookup_isSome.mp (by simp [present]))
  obtain ⟨_, before, after, -, whole, rest⟩ := List.exists_of_kerase member
  rw [rest, whole]
  simp only [List.length_append, List.length_cons]
  omega

theorem Edits.update {R : Type} (f : ServerWindow → ServerWindow) (answer : WmState → Bool → R) :
    Edits id f wm (wm.withState fun s => (answer s (s.update id f).1, (s.update id f).2)).2 := by
  unfold Wm.withState
  cases here : wm.state with
  | none => exact ⟨fun other => by simp [Wm.window, here], rfl, rfl⟩
  | some s =>
    simp only [WmState.update]
    cases found : s.windows.lookup id with
    | none =>
      refine ⟨fun other => ?_, by simp [Wm.windowCount, here], rfl⟩
      by_cases same : other = id
      · subst same
        simp [Wm.window, here, found]
      · simp [Wm.window, here, same]
    | some win =>
      refine ⟨fun other => ?_, ?_, rfl⟩
      · simp [Wm.window, here, found, Map.lookup_insert_eq]
      · simp [Wm.windowCount, here, length_erase_present found]

theorem Edits.bumpedIf {f : ServerWindow → ServerWindow} {found : Option Bool × Wm}
    (edits : Edits id f wm found.2) :
    Edits id f wm (Wm.bumpedIf found).2 := by
  unfold Wm.bumpedIf
  cases found.1.getD false with
  | false => exact edits
  | true => exact { edits with }

theorem commit_edits (src : List UInt32) : Edits id (fun win => win.present src) wm (wm.commit id src).2 :=
  (Edits.update _ fun _ ok => ok).bumpedIf

theorem setTitle_edits (title : String) : Edits id (fun win => { win with title := title })
    wm (wm.setTitle id title).2 :=
  (Edits.update _ fun _ ok => ok).bumpedIf

theorem pollEvent_edits : Edits id (fun win => { win with events := win.events.tail }) wm (wm.pollEvent id).2 :=
  .update _ fun s _ => (s.windows.lookup id).bind fun win => win.events.head?

theorem setPosition_edits (x y : Int32) : Edits id (fun win => { win with x := x, y := y })
    wm (wm.setPosition id x y) :=
  .update _ fun _ ok => ok

theorem pushEvent_edits (ev : WmEvent) : Edits id (fun win => win.receive ev) wm (wm.pushEvent id ev) :=
  .update _ fun _ ok => ok

theorem Thins.refl (wm : Wm) : Thins wm wm := ⟨fun _ _ found => found, Nat.le_refl _, rfl⟩

theorem Thins.bumped {wm' : Wm} (thins : Thins wm wm') : Thins wm wm'.bumpDirty := { thins with }

theorem takePendingNew_thins (wm : Wm) : Thins wm wm.takePendingNew.2 := by
  unfold Wm.takePendingNew Wm.withState
  cases here : wm.state with
  | none => exact .refl wm
  | some s =>
    exact ⟨fun id win found => by simpa [Wm.window, here] using found, by simp [Wm.windowCount, here], rfl⟩

theorem takePendingDestroy_thins (wm : Wm) : Thins wm wm.takePendingDestroy.2 := by
  unfold Wm.takePendingDestroy Wm.withState
  cases here : wm.state with
  | none => exact .refl wm
  | some s =>
    exact ⟨fun id win found => by simpa [Wm.window, here] using found, by simp [Wm.windowCount, here], rfl⟩

theorem lookup_of_destroyed {ids : List WindowId} {s : WmState} {win : ServerWindow}
    (found : (ids.foldl WmState.destroy s).windows.lookup id = some win) : s.windows.lookup id = some win := by
  rw [lookup_destroyed] at found
  split at found
  · cases found
  · exact found

theorem length_destroyed (ids : List WindowId) (s : WmState) :
    (ids.foldl WmState.destroy s).windows.entries.length ≤ s.windows.entries.length := by
  induction ids generalizing s with
  | nil => exact Nat.le_refl _
  | cons first rest ih => exact (ih _).trans (Map.length_erase_le _ _)

theorem Thins.destroy {s : WmState} (here : wm.state = some s) (ids : List WindowId) :
    Thins wm { wm with state := some (ids.foldl WmState.destroy s) } where
  window id win found := by
    rw [Wm.window, here]
    exact lookup_of_destroyed found
  windowCount := by simpa [Wm.windowCount, here] using length_destroyed ids s
  nextId := rfl

theorem destroyWindow_thins (wm : Wm) (id : WindowId) : Thins wm (wm.destroyWindow id).2 := by
  unfold Wm.destroyWindow Wm.withState Wm.bumpedIf
  cases here : wm.state with
  | none => exact .refl wm
  | some s =>
    have same : { wm with state := some s } = wm := by rw [← here]
    cases found : s.windows.lookup id with
    | none => simpa [found, same] using Thins.refl wm
    | some win => simpa [found] using (Thins.destroy here [id]).bumped

theorem destroyOwned_thins (wm : Wm) (owner : TaskId) : Thins wm (wm.destroyWindowsOwnedBy owner).2 := by
  unfold Wm.destroyWindowsOwnedBy
  cases here : wm.state with
  | none => exact .refl wm
  | some s =>
    dsimp only
    split
    · exact (Thins.destroy here _).bumped
    · exact Thins.destroy here _

theorem createWindow_makes (wm : Wm) (owner : TaskId) (w h : Nat) (title : String) :
    wm.createWindow owner w h title = (none, wm) ∨
      (wm.createWindow owner w h title).1 = some wm.nextId ∧ ∃ made,
      Makes made wm (wm.createWindow owner w h title).2 := by
  unfold Wm.createWindow
  split
  · exact .inl rfl
  cases here : wm.state with
  | none => exact .inl rfl
  | some s =>
    simp only
    split
    · exact .inl rfl
    next room =>
      let made : ServerWindow :=
        { id := wm.nextId, owner := owner, w := min w maxW, h := min h maxH, title := title,
          pixels := List.replicate (min w maxW * min h maxH) 0 }
      refine .inr ⟨rfl, made, rfl, List.length_replicate, rfl, fun other => ?_, ?_, rfl⟩
      · simp [Wm.window, Wm.bumpDirty, here, Map.lookup_insert_eq, made]
      · have fewer := Map.length_erase_le s.windows wm.nextId
        simp only [Wm.windowCount, Wm.bumpDirty, Option.map_some, Option.getD_some, AList.entries_insert,
          List.length_cons]
        exact Nat.lt_of_le_of_lt fewer (Nat.lt_of_not_le room)

end Effects

structure Recorded (t : Traffic) : Prop where
  accounted : Accounted t
  fresh : ∀ id, t.wm.nextId ≤ id → id ∉ t.created ∧ t.moves id = []

namespace Recorded

variable {t : Traffic} {wm : Wm} {id : WindowId}

theorem start : Recorded .start where
  accounted := {
    few := by decide
    once := List.nodup_nil
    ids _ _ found := by cases found
    sized _ _ found := by cases found
    queues _ := ⟨[], [], .start, fun _ found => by cases found⟩ }
  fresh _ _ := ⟨List.not_mem_nil, rfl⟩

theorem thins (recorded : Recorded t) (thins : Thins t.wm wm) : Recorded { t with wm := wm } where
  accounted := {
    few := thins.windowCount.trans recorded.accounted.few
    once := recorded.accounted.once
    ids id win found := recorded.accounted.ids id win (thins.window id win found)
    sized id win found := recorded.accounted.sized id win (thins.window id win found)
    queues id := by
      obtain ⟨waiting, taken, accounts, stands⟩ := recorded.accounted.queues id
      exact ⟨waiting, taken, accounts, fun win found => stands win (thins.window id win found)⟩ }
  fresh id new := recorded.fresh id (thins.nextId ▸ new)

theorem makes {made : ServerWindow} (recorded : Recorded t) (makes : Makes made t.wm wm) :
    Recorded { t with wm := wm, created := t.created ++ [t.wm.nextId] } where
  accounted := {
    few := makes.windowCount
    once := by
      have new := (recorded.fresh t.wm.nextId (Nat.le_refl _)).1
      exact List.nodup_append.mpr ⟨recorded.accounted.once, List.nodup_singleton _, fun a old b last same =>
        new (List.mem_singleton.mp last ▸ same ▸ old)⟩
    ids id win found := by
      rw [makes.window] at found
      split at found
      next here =>
        cases found
        exact ⟨by simp [here], makes.id.trans here.symm⟩
      next =>
        obtain ⟨old, same⟩ := recorded.accounted.ids id win found
        exact ⟨List.mem_append_left _ old, same⟩
    sized id win found := by
      rw [makes.window] at found
      split at found
      · cases found
        exact makes.sized
      · exact recorded.accounted.sized id win found
    queues id := by
      by_cases here : id = t.wm.nextId
      · have none := (recorded.fresh id here.ge).2
        refine ⟨[], [], by simpa only [none] using .start, fun win found => ?_⟩
        rw [makes.window, if_pos here] at found
        cases found
        exact makes.events
      · obtain ⟨waiting, taken, accounts, stands⟩ := recorded.accounted.queues id
        refine ⟨waiting, taken, accounts, fun win found => stands win ?_⟩
        rwa [makes.window, if_neg here] at found }
  fresh id new := by
    rw [makes.nextId] at new
    obtain ⟨unmade, none⟩ := recorded.fresh id (Nat.le_of_succ_le new)
    refine ⟨fun member => ?_, none⟩
    rcases List.mem_append.mp member with old | last
    · exact unmade old
    · exact absurd (List.mem_singleton.mp last) (Nat.ne_of_gt new)

theorem edits {f : ServerWindow → ServerWindow} {moves : WindowId → List (Lossy.Move WmEvent)}
    (recorded : Recorded t)
    (edits : Edits id f t.wm wm) (same : ∀ win, (f win).id = win.id)
    (sized : ∀ win, win.pixels.length = win.w * win.h → (f win).pixels.length = (f win).w * (f win).h)
    (others : ∀ other, other ≠ id ∨ t.wm.window id = none → moves other = t.moves other)
    (queue : ∀ win waiting taken, t.wm.window id = some win → win.events = waiting →
      Lossy.Accounts eventQueueCap (t.moves id) waiting taken →
        ∃ taken, Lossy.Accounts eventQueueCap (moves id) (f win).events taken) :
    Recorded { t with wm := wm, moves := moves } where
  accounted := {
    few := edits.windowCount ▸ recorded.accounted.few
    once := recorded.accounted.once
    ids other win found := by
      rw [edits.window] at found
      split at found
      next here =>
        obtain ⟨old, was, rfl⟩ := Option.map_eq_some_iff.mp found
        rw [here, same]
        exact recorded.accounted.ids id old was
      · exact recorded.accounted.ids other win found
    sized other win found := by
      rw [edits.window] at found
      split at found
      · obtain ⟨old, was, rfl⟩ := Option.map_eq_some_iff.mp found
        exact sized old (recorded.accounted.sized id old was)
      · exact recorded.accounted.sized other win found
    queues other := by
      obtain ⟨waiting, taken, accounts, stands⟩ := recorded.accounted.queues other
      change ∃ waiting taken, Lossy.Accounts eventQueueCap (moves other) waiting taken ∧
        ∀ win, wm.window other = some win → win.events = waiting
      by_cases here : other = id
      · subst here
        cases found : t.wm.window other with
        | none =>
          refine ⟨waiting, taken, ?_, fun win now => ?_⟩
          · rw [others other (.inr found)]
            exact accounts
          · rw [edits.window, if_pos rfl, found] at now
            cases now
        | some win =>
          obtain ⟨taken, accounts⟩ := queue win waiting taken found (stands win found) accounts
          refine ⟨_, taken, accounts, fun win' now => ?_⟩
          rw [edits.window, if_pos rfl, found] at now
          cases now
          rfl
      · rw [others other (.inl here)]
        refine ⟨waiting, taken, accounts, fun win found => stands win ?_⟩
        rwa [edits.window, if_neg here] at found }
  fresh other new := by
    rw [edits.nextId] at new
    obtain ⟨unmade, none⟩ := recorded.fresh other new
    refine ⟨unmade, ?_⟩
    change moves other = []
    by_cases here : other = id
    · subst here
      rw [others other (.inr ?_)]
      · exact none
      · cases found : t.wm.window other with
        | none => rfl
        | some win => exact absurd (recorded.accounted.ids other win found).1 unmade
    · rw [others other (.inl here)]
      exact none

theorem redraws {f : ServerWindow → ServerWindow} (recorded : Recorded t) (edits : Edits id f t.wm wm)
    (same : ∀ win, (f win).id = win.id)
    (sized : ∀ win, win.pixels.length = win.w * win.h → (f win).pixels.length = (f win).w * (f win).h)
    (queue : ∀ win, (f win).events = win.events) : Recorded { t with wm := wm } :=
  recorded.edits edits same sized (fun _ _ => rfl) fun win waiting taken _ stands accounts =>
    ⟨taken, by rw [queue, stands]; exact accounts⟩

theorem polls (recorded : Recorded t) : Recorded
    { t with wm := (t.wm.pollEvent id).2, moves := t.polledFrom id } := by
  have answer : (t.wm.pollEvent id).1 = (t.wm.window id).bind fun win => win.events.head? := by
    unfold Wm.pollEvent Wm.withState Wm.window
    cases t.wm.state <;> rfl
  refine recorded.edits pollEvent_edits (fun _ => rfl) (fun _ sized => sized) (fun other elsewhere => ?_)
    fun win waiting taken found stands accounts => ?_
  · rw [Traffic.polledFrom, answer]
    rcases elsewhere with different | none
    · cases (t.wm.window id).bind fun win => win.events.head? with
      | none => rfl
      | some ev => exact Function.update_of_ne different _ _
    · rw [none]
      rfl
  · rw [Traffic.polledFrom, answer, found, Option.bind_some, stands]
    cases waiting with
    | nil => exact ⟨taken, accounts⟩
    | cons ev rest =>
      refine ⟨taken ++ [Lossy.front (t.moves id) (ev :: rest)], ?_⟩
      rw [List.head?_cons, Option.map_some, Option.getD_some, Traffic.note, Function.update_self]
      exact accounts.pop

theorem pushes (recorded : Recorded t) (ev : WmEvent) :
    Recorded { t with wm := t.wm.pushEvent id ev, moves := t.pushedTo id ev } := by
  refine recorded.edits (pushEvent_edits ev) (fun _ => rfl) (fun _ sized => sized) (fun other elsewhere => ?_)
    fun win waiting taken found stands accounts => ?_
  · rcases elsewhere with different | none
    · unfold Traffic.pushedTo
      split
      · exact Function.update_of_ne different _ _
      · rfl
    · simp [Traffic.pushedTo, Wm.windowExists, none]
  · have present : t.wm.windowExists id = true := by simp [Wm.windowExists, found]
    refine ⟨taken, ?_⟩
    rw [Traffic.pushedTo, if_pos present, Traffic.note, Function.update_self]
    rw [← stands] at accounts
    exact accounts.push (by decide) ev

theorem serve (recorded : Recorded t) (call : Call) : Recorded (t.serve call) := by
  cases call with
  | createWindow owner w h title =>
    rcases createWindow_makes t.wm owner w h title with same | ⟨answer, made, makes⟩
    · simpa [Traffic.serve, Wm.perform, same] using recorded
    · simpa [Traffic.serve, Wm.perform, answer] using recorded.makes makes
  | commit id src =>
    refine recorded.redraws (commit_edits src) (fun _ => rfl) (fun win sized => ?_) fun _ => rfl
    simp only [ServerWindow.present, List.length_append, List.length_take, List.length_drop]
    omega
  | destroyWindow id => exact recorded.thins (destroyWindow_thins t.wm id)
  | destroyWindowsOwnedBy owner => exact recorded.thins (destroyOwned_thins t.wm owner)
  | setTitle id title =>
    exact recorded.redraws (setTitle_edits title) (fun _ => rfl) (fun _ sized => sized) fun _ => rfl
  | pollEvent id => exact recorded.polls
  | takePendingNew => exact recorded.thins (takePendingNew_thins t.wm)
  | takePendingDestroy => exact recorded.thins (takePendingDestroy_thins t.wm)
  | setPosition id x y =>
    exact recorded.redraws (setPosition_edits x y) (fun _ => rfl) (fun _ sized => sized) fun _ => rfl
  | pushEvent id ev => exact recorded.pushes ev

end Recorded

theorem queue_accounts (calls : List Call) : Accounted (.after calls) := by
  have recorded : Recorded (.after calls) := by
    induction calls using List.reverseRecOn with
    | nil => exact .start
    | append_singleton calls call ih =>
      rw [Traffic.after, List.foldl_append]
      exact ih.serve call
  exact recorded.accounted

end PickleOS.Windows
