import PickleOS.Windows.Convergence

set_option autoImplicit false

namespace PickleOS.Windows

open Shared Shared.Checked Shared.Machine

/-- A window of this size can be placed on the screen. -/
def Fits (screen : Screen) (size : Nat × Nat × String) : Prop :=
  0 ≤ screen.w - max (Int32.ofNat size.1) 1 ∧ 0 ≤ max (screen.h - taskbarH) 0 - (titleH + Int32.ofNat size.2.1)

structure DragSafe (s : State) : Prop where
  -- The window on top is the one whose title bar was pressed.
  last : ∀ drag, s.desk.dragging = some drag → ∃ win, s.desk.windows.getLast? = some win ∧
  win.serial = drag.serial
  unwraps : s.pc ≠ .panicked .unwrap

/-- No new window is framed while one is dragged, and the dragged one is not taken off the desk. -/
def Quiet (s : State) : Action → Prop
  | .compositor _ _ =>
    match s.pc with
    | .sizing id => ∀ size, s.wm.windowSizeTitle id = some size → Fits s.screen size → s.desk.dragging = none
    | .takeDestroy => ∀ id drag, s.wm.pendingDestroy.head? = some id → s.desk.dragging = some drag →
        ∀ win ∈ s.desk.windows, win.serial = drag.serial → ¬win.frames id
    | _ => True
  | _ => True

def Desk.marks (d : Desk) : List Nat := d.windows.map Window.serial

structure Carried (d : Desk) : Prop where
  once : d.marks.Nodup
  made : ∀ n ∈ d.marks, n < d.serials
  last : ∀ drag, d.dragging = some drag → d.marks.getLast? = some drag.serial

variable {d d' : Desk} {screen : Screen} {slot : Option Nat} {pc : Pc}

theorem getLast?_eraseIdx {α : Type} {xs : List α} {i : Nat} {last x : α} (top : xs.getLast? = some last)
    (at' : xs[i]? = some x)
    (other : x ≠ last) : (xs.eraseIdx i).getLast? = some last := by
  obtain ⟨init, rfl⟩ : ∃ init, xs = init ++ [last] := ⟨_, (List.dropLast_append_getLast? last top).symm⟩
  have inside : i < init.length := by
    by_contra beyond
    have first : i = init.length := by
      have := (List.getElem?_eq_some_iff.mp at').1
      rw [List.length_append, List.length_singleton] at this
      omega
    rw [first, List.getElem?_concat_length] at at'
    exact other (Option.some.inj at').symm
  rw [List.eraseIdx_append_of_lt_length inside]
  simp

theorem Desk.sole {i : Nat} {id : WindowId} {first win : Window} (once : d.framed.Nodup)
    (at' : d.windows[i]? = some first)
    (client : first.client = some id) (member : win ∈ d.windows) (client' : win.client = some id) :
      win = first := by
  have perm := Desk.framed_eraseIdx at'
  rw [client] at perm
  have absent := (List.nodup_cons.mp (perm.nodup_iff.mpr once)).1
  obtain ⟨inside, rfl⟩ := List.getElem?_eq_some_iff.mp at'
  rcases List.mem_cons.mp ((List.getElem_cons_eraseIdx_perm inside).mem_iff.mpr member) with same | other
  · exact same
  · exact absurd (List.mem_filterMap.mpr ⟨win, other, client'⟩) absent

namespace Carried

theorem same (carried : Carried d) (marks : d'.marks = d.marks) (dragging : d'.dragging = d.dragging)
    (serials : d'.serials = d.serials) :
    Carried d' where
  once := marks ▸ carried.once
  made n member := by
    rw [serials]
    exact carried.made n (marks ▸ member)
  last drag held := by
    rw [marks]
    exact carried.last drag (dragging ▸ held)

theorem push (carried : Carried d) (free : d.dragging = none)
    {make : Nat → Window} (serial : ∀ n, (make n).serial = n) :
    Carried (d.push make) := by
  have marks : (d.push make).marks = d.marks ++ [d.serials] := by simp [Desk.marks, Desk.push, serial]
  refine ⟨?_, fun n member => ?_, fun drag held => ?_⟩
  · rw [marks]
    refine List.nodup_append.mpr ⟨carried.once, List.nodup_singleton _, fun n old m new same => ?_⟩
    rw [List.mem_singleton.mp new] at same
    exact absurd (carried.made n old) (by omega)
  · rw [marks] at member
    change n < d.serials + 1
    rcases List.mem_append.mp member with old | new
    · exact Nat.lt_succ_of_lt (carried.made n old)
    · exact Nat.lt_succ_of_le (List.mem_singleton.mp new).le
  · cases free.symm.trans held

theorem erase (carried : Carried d) {i : Nat} {win : Window} (at' : d.windows[i]? = some win)
    (windows : d'.windows = d.windows.eraseIdx i) (dragging : d'.dragging = d.dragging)
    (serials : d'.serials = d.serials)
    (other : ∀ drag, d.dragging = some drag → win.serial ≠ drag.serial) : Carried d' := by
  have marks : d'.marks = d.marks.eraseIdx i := by rw [Desk.marks, windows, Desk.marks, List.eraseIdx_map]
  refine ⟨?_, fun n member => ?_, fun drag held => ?_⟩
  · rw [marks]
    exact carried.once.eraseIdx i
  · rw [serials]
    rw [marks] at member
    exact carried.made n (List.mem_of_mem_eraseIdx member)
  · rw [dragging] at held
    rw [marks]
    refine getLast?_eraseIdx (carried.last drag held) ?_ (other drag held)
    rw [Desk.marks, List.getElem?_map, at', Option.map_some]

theorem raise (carried : Carried d) {i : Nat} {win : Window} (free : d.dragging = none)
    (at' : d.windows[i]? = some win) :
    Carried (d.raise i win) := by
  have marks : (d.raise i win).marks.Perm d.marks := by
    obtain ⟨inside, rfl⟩ := List.getElem?_eq_some_iff.mp at'
    have perm := (List.getElem_cons_eraseIdx_perm inside).map Window.serial
    refine List.Perm.trans ?_ perm
    simp only [Desk.marks, Desk.raise, List.map_append, List.map_cons, List.map_nil]
    exact List.perm_append_comm
  refine ⟨marks.nodup_iff.mpr carried.once, fun n member => carried.made n (marks.mem_iff.mp member),
    fun drag held => ?_⟩
  have top : (d.raise i win).marks.getLast? = some win.serial := by simp [Desk.marks, Desk.raise]
  rw [top]
  simp only [Desk.raise] at held
  split at held
  · cases held
    rfl
  · cases free.symm.trans held

theorem switch (carried : Carried d) : Carried d.switch.1 := by
  unfold Desk.switch
  split
  · exact carried
  · exact carried.same rfl rfl rfl

theorem not_mem_erased (carried : Carried d) {i : Nat} {win : Window} (at' : d.windows[i]? = some win) :
    win.serial ∉ (d.windows.eraseIdx i).map Window.serial := by
  obtain ⟨inside, rfl⟩ := List.getElem?_eq_some_iff.mp at'
  have perm := (List.getElem_cons_eraseIdx_perm inside).map Window.serial
  exact (List.nodup_cons.mp (perm.nodup_iff.mpr carried.once)).1

theorem pointed (carried : Carried d) (pointed : Pointed d d' pc) : Carried d' := by
  cases pointed with
  | kept => exact carried
  | dragged init win win' moved windows pc next =>
    refine carried.same ?_ rfl rfl
    simp [Desk.marks, windows, moved.serial]
  | released => exact ⟨carried.once, carried.made, fun drag held => by cases held⟩
  | pressed free pressed =>
    cases pressed with
    | kept => exact carried
    | opened make kind serial => exact carried.push free serial
    | asked => exact carried
    | removed i win at' kind =>
      exact carried.erase at' rfl rfl rfl fun drag held => by cases free.symm.trans held
    | raised i win at' => exact carried.raise free at'

end Carried

theorem Pointed.free (pointed : Pointed d d' pc) :
    (∀ i, pc = .closing i ∨ pc = .destroying i → d'.dragging = none) ∧ pc ≠ .panicked .unwrap := by
  cases pointed with
  | kept => simp
  | dragged init win win' moved windows pc next => rcases next with rfl | ⟨id, x, y, rfl⟩ <;> simp
  | released => simp
  | pressed free pressed =>
    cases pressed with
    | asked => simp [free]
    | _ => simp

section Panics

theorem clamp_eq_ok (value : Int32) {lo hi : Int32} : (∃ place, clamp value lo hi = .ok place) ↔ lo ≤ hi := by
  unfold clamp
  by_cases empty : hi < lo
  · simp [empty]
  · simp [empty, Int32.not_lt.mp empty]

theorem clamp_ne_unwrap (value lo hi : Int32) : clamp value lo hi ≠ .error .unwrap := by
  unfold clamp
  split <;> simp

theorem elemAt_ne_unwrap (i : Nat) : elemAt .bounds d.windows i ≠ .error Panic.unwrap := by
  unfold elemAt
  split <;> simp

theorem frame_ok_iff (d : Desk) (id : WindowId) {size : Nat × Nat × String} :
    (∃ next, d.frame screen id size = .ok next) ↔ Fits screen size := by
  unfold Fits
  rw [← clamp_eq_ok (360 + 26 * d.clientWindowCount), ← clamp_eq_ok (180 + 26 * d.clientWindowCount)]
  constructor
  · rintro ⟨next, done⟩
    obtain ⟨place, placed, -⟩ := bind_ok done
    obtain ⟨x, first, placed⟩ := bind_ok placed
    obtain ⟨y, second, -⟩ := bind_ok placed
    exact ⟨⟨x, first⟩, ⟨y, second⟩⟩
  · rintro ⟨⟨x, first⟩, ⟨y, second⟩⟩
    have placed : placeClient screen d.clientWindowCount (Int32.ofNat size.1)
      (Int32.ofNat size.2.1) = .ok (x, y) := by
      simp only [placeClient, first, second]
      rfl
    simp only [Desk.frame, placed]
    exact ⟨_, rfl⟩

theorem frame_ne_unwrap (id : WindowId) (size : Nat × Nat × String) :
    d.frame screen id size ≠ .error .unwrap := by
  refine bind_ne_error ?_ fun _ _ => by simp [pure, Except.pure]
  refine bind_ne_error (clamp_ne_unwrap _ _ _) fun _ _ => ?_
  exact bind_ne_error (clamp_ne_unwrap _ _ _) fun _ _ => by simp [pure, Except.pure]

theorem openTerminal_ne_unwrap (id : Nat) : d.openTerminal screen id ≠ .error .unwrap := by
  refine bind_ne_error (clamp_ne_unwrap _ _ _) fun _ _ => ?_
  exact bind_ne_error (clamp_ne_unwrap _ _ _) fun _ _ => by simp [pure, Except.pure]

theorem press_ne_unwrap : d.press screen slot ≠ .error .unwrap := by
  unfold Desk.press
  split
  · split
    · exact bind_ne_error (openTerminal_ne_unwrap _) fun _ _ => by simp [pure, Except.pure]
    · simp
  · split
    · refine bind_ne_error (elemAt_ne_unwrap _) fun win _ => ?_
      split <;> simp [pure, Except.pure]
    · simp

theorem drag_ne_unwrap {offset : Drag} {win : Window} (top : d.windows.getLast? = some win) :
    d.drag screen offset ≠ .error .unwrap := by
  unfold Desk.drag
  rw [top]
  refine bind_ne_error (clamp_ne_unwrap _ _ _) fun _ _ => ?_
  exact bind_ne_error (clamp_ne_unwrap _ _ _) fun _ _ => by simp [pure, Except.pure]

theorem Carried.top (carried : Carried d) {drag : Drag} (held : d.dragging = some drag) :
    ∃ win, d.windows.getLast? = some win ∧ win.serial = drag.serial := by
  have last := carried.last drag held
  rw [Desk.marks, List.getLast?_map] at last
  exact Option.map_eq_some_iff.mp last

theorem Carried.point_ne_unwrap (carried : Carried d) : d.point screen slot ≠ .error .unwrap := by
  unfold Desk.point
  split
  · dsimp only
    split
    next offset held =>
      split
      · obtain ⟨win, top, -⟩ := carried.top held
        exact bind_ne_error (drag_ne_unwrap top) fun _ _ => by simp [pure, Except.pure]
      · simp
    next =>
      split
      · exact press_ne_unwrap
      · simp
  · simp

end Panics

structure Orderly (s : State) : Prop where
  carried : Carried s.desk
  free : ∀ i, s.pc = .closing i ∨ s.pc = .destroying i → s.desk.dragging = none
  unwraps : s.pc ≠ .panicked .unwrap
  running : Running s

namespace Orderly

variable {s t : State}

theorem safe (orderly : Orderly s) : DragSafe s := ⟨fun _ held => orderly.carried.top held, orderly.unwraps⟩

theorem boot (screen : Screen) (tester : TaskId) (primary : Nat) : Orderly (.boot screen tester primary) where
  carried := by
    refine ⟨?_, ?_, fun _ held => by cases held⟩
    · change [0, 1, 2].Nodup
      decide
    · change ∀ n ∈ [0, 1, 2], n < 3
      decide
  free i here := by rcases here with here | here <;> cases here
  unwraps here := by cases here
  running _ := .boot screen tester primary

theorem still (orderly : Orderly s) (desk : t.desk = s.desk) (pc : t.pc = s.pc) (running : Running t) :
    Orderly t where
  carried := desk ▸ orderly.carried
  free i here := by
    rw [desk]
    exact orderly.free i (pc ▸ here)
  unwraps := pc ▸ orderly.unwraps
  running := running

theorem proceeds (running : Running t) (carried : Carried t.desk)
    (calm : ∀ i, t.pc ≠ .closing i ∧ t.pc ≠ .destroying i)
    (unwraps : t.pc ≠ .panicked .unwrap) : Orderly t where
  carried := carried
  free i here := by
    rcases here with here | here
    · exact absurd here (calm i).1
    · exact absurd here (calm i).2
  unwraps := unwraps
  running := running

theorem shuts (orderly : Orderly s) {i : Nat} {win : Window} {pc : Pc} {wm : Wm} (here : s.pc = .destroying i)
    (at' : s.desk.windows[i]? = some win) (calm : ∀ i, pc ≠ .closing i ∧ pc ≠ .destroying i)
    (unwraps : pc ≠ .panicked .unwrap)
    (running : Running { s with wm := wm, desk := (s.desk.unfocus win.clientId).remove i, pc := pc }) :
    Orderly { s with wm := wm, desk := (s.desk.unfocus win.clientId).remove i, pc := pc } := by
  have free := orderly.free i (.inr here)
  exact proceeds running (orderly.carried.erase at' rfl rfl rfl
    fun drag held => by cases free.symm.trans held) calm unwraps

theorem compositor {slot : Option Nat} {ch : Option Char} (orderly : Orderly s)
    (quiet : Quiet s (.compositor slot ch))
    (taken : s.compositor slot ch = some t) : Orderly t := by
  have running : Running t := compositor_keeps orderly.running taken
  have carried := orderly.carried
  unfold State.compositor at taken
  unfold Quiet at quiet
  cases here : s.pc with
  | takeNew =>
    simp only [here] at taken
    cases taken
    refine proceeds running carried ?_ ?_ <;> cases s.wm.takePendingNew.1 <;> simp
  | sizing id =>
    simp only [here] at taken quiet
    split at taken
    next =>
      cases taken
      exact proceeds running carried (by simp [State.goto]) (by simp [State.goto])
    next size found =>
      cases taken
      cases framed : s.desk.frame s.screen id size with
      | error panic =>
        rw [framed] at running
        refine proceeds running carried (by simp [State.proceed, State.goto, Except.map]) fun unwrap => ?_
        cases unwrap
        exact frame_ne_unwrap id size framed
      | ok next =>
        rw [framed] at running
        have free := quiet size found ((frame_ok_iff s.desk id).mp ⟨next, framed⟩)
        obtain ⟨desk, x, y⟩ := next
        obtain ⟨make, rfl, -, serial⟩ := frame_pushes framed
        exact proceeds running (carried.push free serial) (by simp [State.proceed, Except.map])
          (by simp [State.proceed, Except.map])
  | takeDestroy =>
    simp only [here] at taken quiet
    obtain ⟨-, answer, -⟩ := takePendingDestroy_takes s.wm
    cases waiting : s.wm.pendingDestroy.head? with
    | none =>
      simp only [answer, waiting] at taken
      cases taken
      exact proceeds running carried (by simp) (by simp)
    | some id =>
      simp only [answer, waiting] at taken
      cases taken
      refine proceeds running ?_ (by simp) (by simp)
      rcases s.desk.unframe_cases id with ⟨same, -⟩ | ⟨i, win, at', client, windows, dragging, serials⟩
      · simp only [same]
        exact carried
      · refine carried.erase at' windows dragging serials fun drag held same => ?_
        exact quiet id drag waiting held win (List.mem_of_getElem? at')
          same (Window.client_of_frames.mpr client)
  | pointer =>
    simp only [here] at taken
    cases taken
    cases pointed : s.desk.point s.screen slot with
    | error panic =>
      rw [pointed] at running
      refine proceeds running carried (by simp [State.proceed, State.goto]) fun unwrap => ?_
      cases unwrap
      exact carried.point_ne_unwrap pointed
    | ok next =>
      rw [pointed] at running
      obtain ⟨desk, pc⟩ := next
      obtain ⟨left, pointed⟩ := point_pointed pointed
      have carried : Carried { s.desk with prevLeft := left } := carried.same rfl rfl rfl
      have free := pointed.free
      exact ⟨carried.pointed pointed, free.1, free.2, running⟩
  | closing i =>
    simp only [here] at taken
    split at taken
    next =>
      cases taken
      exact proceeds running carried (by simp [State.goto]) (by simp [State.goto])
    next win at' =>
      cases taken
      refine ⟨carried, fun j _ => orderly.free i (.inl here), by simp, running⟩
  | destroying i =>
    simp only [here] at taken
    split at taken
    next =>
      cases taken
      exact proceeds running carried (by simp [State.goto]) (by simp [State.goto])
    next win at' =>
      cases taken
      exact orderly.shuts here at' (by simp) (by simp) running
  | routing =>
    simp only [here] at taken
    cases taken
    exact proceeds running carried.switch (by simp) (by simp)
  | switching queue =>
    cases queue with
    | nil =>
      simp only [here] at taken
      cases taken
      refine proceeds running carried ?_ ?_ <;> cases s.desk.topClient <;> simp [State.goto]
    | cons first rest =>
      simp only [here] at taken
      cases taken
      exact proceeds running carried (by simp) (by simp)
  | keys cid =>
    cases ch with
    | none =>
      simp only [here] at taken
      cases taken
      exact proceeds running (carried.same rfl rfl rfl) (by simp) (by simp)
    | some ch =>
      simp only [here] at taken
      cases taken
      exact proceeds running carried (by simp) (by simp)
  | reporting cid queue =>
    cases queue with
    | nil =>
      simp only [here] at taken
      cases taken
      exact proceeds running carried (by simp [State.goto]) (by simp [State.goto])
    | cons first rest =>
      simp only [here] at taken
      cases taken
      exact proceeds running carried (by simp) (by simp)
  | top =>
    simp only [here] at taken
    cases taken
    exact proceeds running (carried.same rfl rfl rfl) (by simp) (by simp)
  | placing id x y | moving id x y =>
    simp only [here] at taken
    cases taken
    exact proceeds running carried (by simp) (by simp)
  | greeting id =>
    simp only [here] at taken
    cases taken
    exact proceeds running carried (by simp) (by simp)
  | sleeping =>
    simp only [here] at taken
    cases taken
    exact proceeds running carried (by simp [State.goto]) (by simp [State.goto])
  | panicked panic => simp [here] at taken

theorem kept {a : Action} (orderly : Orderly s) (quiet : Quiet s a) (taken : step s a = some t) :
    Orderly t := by
  have running : Running t := orderly.running.kept taken
  cases a with
  | compositor slot ch => exact orderly.compositor quiet taken
  | selftest =>
    obtain ⟨desk, pc⟩ := (selftest_tested taken).same
    exact orderly.still desk pc running
  | _ =>
    cases taken
    exact orderly.still rfl rfl running

theorem of_run {screen : Screen} {tester : TaskId}
    {primary : Nat} (run : Reaches step Quiet (.boot screen tester primary) s) : Orderly s :=
  run.invariant (.boot screen tester primary) fun _ _ _ orderly quiet taken => orderly.kept quiet taken

theorem disturbed {a : Action} (orderly : Orderly s) (loud : ¬Quiet s a) (taken : step s a = some t) :
    ¬DragSafe t := by
  intro safe
  have carried := orderly.carried
  cases a with
  | compositor slot ch =>
    change s.compositor slot ch = some t at taken
    unfold State.compositor at taken
    unfold Quiet at loud
    cases here : s.pc with
    | sizing id =>
      -- The new window is on top of the one that is dragged.
      simp only [here, not_forall] at taken loud
      obtain ⟨size, found, fits, held⟩ := loud
      obtain ⟨drag, held⟩ := Option.ne_none_iff_exists'.mp held
      obtain ⟨⟨desk, x, y⟩, framed⟩ := (frame_ok_iff s.desk id).mpr fits
      obtain ⟨make, rfl, -, serial⟩ := frame_pushes framed
      simp only [found, framed] at taken
      cases taken
      obtain ⟨win, top, same⟩ := safe.last drag held
      have made : (make s.desk.serials).serial = drag.serial := by
        have last : (s.desk.push make).windows.getLast? = some (make s.desk.serials) := by simp [Desk.push]
        rw [← Option.some.inj (last.symm.trans top)] at same
        exact same
      have old := carried.made drag.serial (List.mem_of_getLast? (carried.last drag held))
      rw [serial] at made
      omega
    | takeDestroy =>
      -- The dragged window is not on the desk any more.
      simp only [here, not_forall, not_not] at taken loud
      obtain ⟨id, drag, waiting, held, win, member, same, frames⟩ := loud
      obtain ⟨-, answer, -⟩ := takePendingDestroy_takes s.wm
      simp only [answer, waiting] at taken
      cases taken
      have client := Window.client_of_frames.mp frames
      rcases s.desk.unframe_cases id with ⟨-, absent⟩ | ⟨i, first, at', client', windows, dragging, -⟩
      · exact absent (List.mem_filterMap.mpr ⟨win, member, client⟩)
      · have running : s.Mirrors := orderly.running fun panic panicked => by simp [here] at panicked
        have sole := Desk.sole (List.nodup_append.mp running.once).2.1 at' client' member client
        obtain ⟨top, last, same'⟩ := safe.last drag (dragging.trans held)
        refine carried.not_mem_erased at' (List.mem_map.mpr ⟨top, ?_, ?_⟩)
        · rw [← windows]
          exact List.mem_of_getLast? last
        · rw [same', ← same, sole]
    | _ => simp [here] at loud
  | _ => exact loud trivial

end Orderly

/-- Dragging is safe exactly until a window is framed during a drag, or the dragged one is taken away. -/
theorem drag_safe {screen : Screen} {tester : TaskId} {primary : Nat} {s : State}
    (run : Reaches step Quiet (.boot screen tester primary) s) :
    DragSafe s ∧ ∀ a t, step s a = some t → (DragSafe t ↔ Quiet s a) := by
  have orderly := Orderly.of_run run
  refine ⟨orderly.safe, fun a t taken => ⟨fun safe => ?_, fun quiet => (orderly.kept quiet taken).safe⟩⟩
  by_contra loud
  exact orderly.disturbed loud taken safe

/-- A press on the title bar of the terminal, up to where the compositor grabs the window. -/
def grab : List Action := .mouse 400 155 true :: pass 4

theorem quiet_of_free {s : State} {a : Action} (free : s.desk.dragging.isNone) : Quiet s a := by
  have none := Option.isNone_iff_eq_none.mp free
  cases a with
  | compositor =>
    unfold Quiet
    cases s.pc <;> simp [none]
  | _ => trivial

theorem drag_safe_grabbed : ∃ s, s.desk.dragging.isSome ∧ DragSafe s ∧ ∀ a t, step s a = some t →
    (DragSafe t ↔ Quiet s a) := by
  have ends : (replay step (fun s _ => s.desk.dragging.isNone) (.boot ⟨1280, 720⟩ 5 0) grab).map
    (fun s => s.desk.dragging.isSome) =
      some true := by decide
  obtain ⟨s, done, held⟩ := Option.map_eq_some_iff.mp ends
  exact ⟨s, held, drag_safe (Reaches.of_replay (fun _ _ => quiet_of_free) .start done)⟩

/-- A client makes a window while the terminal is dragged, and the next move of the mouse goes to
that one. -/
def framedOver : List Action := grab ++ .createWindow 7 160 120 "demo client" :: .mouse 500 300 true :: pass 11

def click (x y : Int32) : List Action := .mouse x y true :: pass 7 ++ .mouse x y false :: pass 7

/-- The three windows of the boot are closed, and then a client destroys its window while that is
dragged. -/
def emptied : List Action :=
  click 815 160 ++ click 1190 140 ++ click 360 130 ++ .createWindow 7 160 120 "demo client" ::
    .mouse 365 185 true :: pass 8 ++
    .destroyWindow 1 :: .mouse 400 300 true :: pass 11

theorem drag_unsafe :
    (∃ s, Reaches step (fun _ _ => True) (.boot ⟨1280, 720⟩ 5 0) s ∧ s.desk.dragging.map Drag.serial = some 2 ∧
      s.desk.windows.getLast?.map (fun win => (win.serial, win.x, win.y)) = some (3, 400, 295) ∧ ¬DragSafe s) ∧
    ∃ s, Reaches step (fun _ _ => True) (.boot ⟨1280, 720⟩ 5 0) s ∧ s.pc = .panicked .unwrap ∧
    ¬DragSafe s := by
  constructor
  · have ends : (run step (.boot ⟨1280, 720⟩ 5 0) framedOver).map (fun s =>
        (s.desk.dragging.map Drag.serial, s.desk.windows.getLast?.map fun win => (win.serial, win.x, win.y))) =
        some (some 2, some (3, 400, 295)) := by decide
    obtain ⟨s, done, here⟩ := Option.map_eq_some_iff.mp ends
    simp only [Prod.mk.injEq] at here
    obtain ⟨held, top⟩ := here
    refine ⟨s, Reaches.of_run .start done, held, top, fun safe => ?_⟩
    obtain ⟨drag, grabbed, serial⟩ := Option.map_eq_some_iff.mp held
    obtain ⟨win, last, same⟩ := safe.last drag grabbed
    rw [last, Option.map_some, Option.some.injEq, Prod.mk.injEq] at top
    omega
  · have ends : (run step (.boot ⟨1280, 720⟩ 5 0) emptied).map State.pc = some (.panicked .unwrap) := by decide
    obtain ⟨s, done, here⟩ := Option.map_eq_some_iff.mp ends
    exact ⟨s, Reaches.of_run .start done, here, fun safe => safe.unwraps here⟩

end PickleOS.Windows
