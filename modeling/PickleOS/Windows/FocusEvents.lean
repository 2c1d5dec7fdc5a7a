import PickleOS.Windows.Routing

set_option autoImplicit false

namespace PickleOS.Windows

open Shared Shared.Machine

/-- The events of the focus alternate, and a pass ends with `EV_FOCUS` for the topmost window alone. -/
def Watched.FocusTold (w : Watched) (id : WindowId) : Prop :=
  Turns.Alternates (w.focusTurns id) ∧
    (w.s.pc = .sleeping → (Turns.On (w.focusTurns id) ↔ w.s.desk.topmost = some id))

def focusOf (events : List Pushed) : List Bool := events.filterMap Pushed.focusTurn

structure Focusing (w : Watched) : Prop where
  settled : Settled w.s
  fresh : ∀ id, w.s.wm.nextId ≤ id →
    w.log id = [] ∧ focusOf (sent id w.s.pc.queue) = [] ∧ w.s.desk.focusedClient ≠ some id ∧
    id ∉ w.s.desk.framed
  known : ∀ id, w.s.wm.Registered id → id < w.s.wm.nextId
  waiting : ∀ id, w.s.wm.Registered id → ¬w.s.Greeted id → focusOf (w.due id) = [] ∧
  w.s.desk.focusedClient ≠ some id
  -- The greeting comes on top of the turns that follow the routing.
  greeted : ∀ id, w.s.wm.Registered id → w.s.Greeted id →
    ∃ rest, focusOf (w.due id) = true :: rest ∧ Turns.Alternates rest ∧
    (Turns.On rest ↔ w.s.desk.focusedClient = some id)

section Turns

variable {s : State} {ch : Option Char} {id : WindowId}

@[simp] theorem focusOf_append (first second : List Pushed) :
  focusOf (first ++ second) = focusOf first ++ focusOf second :=
  List.filterMap_append

theorem focusOf_reports (d : Desk) : focusOf d.reports = [] := by
  unfold Desk.reports
  split
  · rfl
  · dsimp only
    split_ifs <;> rfl

theorem focusOf_switch (d : Desk) : focusOf (sent id d.switch.2) =
    if d.topClient = d.focusedClient then []
    else (if d.focusedClient = some id then [false] else []) ++
      (if d.topClient = some id then [true] else []) := by
  unfold Desk.switch
  split
  · rfl
  · dsimp only
    rw [sent_append, focusOf_append]
    congr 1
    · cases d.focusedClient with
      | none => rfl
      | some old => by_cases same : old = id <;> simp [sent, focusOf, Pushed.focusTurn, same]
    · cases d.topClient with
      | none => rfl
      | some new => by_cases same : new = id <;> simp [sent, focusOf, Pushed.focusTurn, same]

theorem focusOf_decides : focusOf (sent id (s.decides ch)) =
    if s.pc = .greeting id then [true] else if s.pc = .routing then focusOf (sent id s.desk.switch.2) else
      [] := by
  unfold State.decides
  cases here : s.pc with
  | greeting other => by_cases same : other = id <;> simp [sent, focusOf, Pushed.focusTurn, same]
  | closing i =>
    cases at' : s.desk.windows[i]? with
    | none => simp [at', focusOf]
    | some win => by_cases same : win.clientId = id <;> simp [at', sent, focusOf, Pushed.focusTurn, same]
  | keys cid =>
    cases ch with
    | some ch => by_cases same : cid = id <;> simp [sent, focusOf, Pushed.focusTurn, same]
    | none =>
      by_cases same : cid = id
      · subst same
        simp [focusOf_reports]
      · simp [sent_other same, focusOf]
  | routing => simp
  | _ => simp [focusOf]

theorem switch_turns {d : Desk} {turns : List Bool} (alternates : Turns.Alternates turns)
    (on : Turns.On turns ↔ d.focusedClient = some id) :
    Turns.Alternates (turns ++ focusOf (sent id d.switch.2)) ∧
      (Turns.On (turns ++ focusOf (sent id d.switch.2)) ↔ d.topClient = some id) := by
  rw [focusOf_switch]
  by_cases same : d.topClient = d.focusedClient
  · rw [if_pos same, List.append_nil, same]
    exact ⟨alternates, on⟩
  · rw [if_neg same]
    by_cases focused : d.focusedClient = some id
    · have untopped : d.topClient ≠ some id := fun top => same (top.trans focused.symm)
      rw [if_pos focused, if_neg untopped, List.append_nil, Turns.alternates_concat, Turns.on_concat]
      simp [alternates, on, focused, untopped]
    · by_cases top : d.topClient = some id
      · rw [if_neg focused, if_pos top, List.nil_append, Turns.alternates_concat, Turns.on_concat]
        simp [alternates, on, focused, top]
      · rw [if_neg focused, if_neg top, List.append_nil, List.append_nil]
        simp [alternates, on, focused, top]

end Turns

namespace Focusing

variable {w : Watched}

theorem boot (screen : Screen) (tester : TaskId) (primary : Nat) : Focusing (.boot screen tester primary) where
  settled := .boot screen tester primary
  fresh id _ := ⟨rfl, rfl, (fun same => by cases same), List.not_mem_nil⟩
  known id here := by cases here
  waiting id here := by cases here
  greeted id here := by cases here

theorem beside {t : State} (focusing : Focusing w) (settled : Settled t) (beside : Beside w.s t) :
    Focusing { w with s := t } := by
  obtain ⟨registered, nextId, desk, pc⟩ := beside
  have greeted (id : WindowId) : t.Greeted id ↔ w.s.Greeted id := by rw [State.Greeted, desk, pc, State.Greeted]
  have due (id : WindowId) : Watched.due { w with s := t } id = w.due id := by rw [Watched.due, Watched.due, pc]
  refine ⟨settled, fun id new => ?_, fun id here => ?_, fun id here waits => ?_, fun id here done => ?_⟩
  · rw [pc, desk]
    exact focusing.fresh id (nextId.trans new)
  · rcases registered id here with old | ⟨-, below⟩
    · exact (focusing.known id old).trans_le nextId
    · exact below
  · rw [due, desk]
    rcases registered id here with old | ⟨new, -⟩
    · exact focusing.waiting id old fun done => waits ((greeted id).mpr done)
    · obtain ⟨log, queue, unfocused, -⟩ := focusing.fresh id new
      exact ⟨by rw [Watched.due, log, List.nil_append, queue], unfocused⟩
  · rw [due, desk]
    rcases registered id here with old | ⟨new, -⟩
    · exact focusing.greeted id old ((greeted id).mp done)
    · exact absurd ((greeted id).mp done).1 (focusing.fresh id new).2.2.2

theorem topClient_greeted {s : State} {id : WindowId} (routing : s.pc = .routing)
    (top : s.desk.topClient = some id) : s.Greeted id :=
  ⟨Desk.mem_framed_of_topClient top, by simp [routing, Pc.greets]⟩

theorem fresh_compositor {slot : Option Nat} {ch : Option Char} {t : State}
    {id : WindowId} (focusing : Focusing w)
    (taken : w.s.compositor slot ch = some t) (new : w.s.wm.nextId ≤ id) :
    w.logged ch id = [] ∧ focusOf (sent id t.pc.queue) = [] ∧ t.desk.focusedClient ≠ some id ∧
    id ∉ t.desk.framed := by
  obtain ⟨log, queue, unfocused, unframed⟩ := focusing.fresh id new
  have gone : ¬w.s.wm.Registered id := fun here => absurd (focusing.known id here) (Nat.not_lt.mpr new)
  have untopped : w.s.desk.topClient ≠ some id := fun top => unframed (Desk.mem_framed_of_topClient top)
  have unrouted : w.s.routes ≠ some id := by
    unfold State.routes
    split
    · exact untopped
    · exact unfocused
  have framed : id ∈ t.desk.framed → id ∈ w.s.desk.framed ∨ w.s.wm.Registered id := (newcomer taken).1
  have focused : t.desk.focusedClient = some id → w.s.routes = some id := (newcomer taken).2
  refine ⟨(logged_unregistered gone).trans log, ?_, fun same => unrouted (focused same),
    fun there => (framed there).elim unframed gone⟩
  have undecided : focusOf (sent id (w.s.decides ch)) = [] := by
    rw [focusOf_decides]
    split_ifs with greeting
    · exact absurd (focusing.settled.greets id (by rw [greeting]; rfl)) unframed
    · rw [focusOf_switch, if_neg unfocused, if_neg untopped]
      exact ite_self _
    · rfl
  have steps := congrArg (fun events => focusOf (sent id events)) (queue_step taken)
  simp only [sent_append, focusOf_append, queue, undecided, List.append_nil, List.append_eq_nil_iff] at steps
  exact steps.2

theorem compositor {slot : Option Nat} {ch : Option Char} {t : State} (focusing : Focusing w)
    (taken : w.s.compositor slot ch = some t) :
    Focusing { s := t, log := w.logged ch, held := w.holds ch } := by
  have settled := focusing.settled
  obtain ⟨registered, nextId⟩ := compositor_wm taken
  have turns (id : WindowId) (here : t.wm.Registered id) :
      focusOf (Watched.due { s := t, log := w.logged ch, held := w.holds ch } id) = focusOf (w.due id) ++
        focusOf (sent id (w.s.decides ch)) := by
    rw [Watched.due, due_step (registered id here) taken, focusOf_append]
  refine ⟨settled.compositor taken, fun id new => ?_, fun id here => ?_, fun id here waits => ?_,
    fun id here done => ?_⟩
  · exact focusing.fresh_compositor taken (nextId ▸ new)
  · rw [nextId]
    exact focusing.known id (registered id here)
  · obtain ⟨greets, focused⟩ := desk_step settled taken here
    have before : ¬w.s.Greeted id := fun done => waits (greets.mpr (.inl done))
    have ungreeted : w.s.pc ≠ .greeting id := fun now => waits (greets.mpr (.inr now))
    obtain ⟨none, unfocused⟩ := focusing.waiting id (registered id here) before
    rw [turns id here, none, List.nil_append, focusOf_decides, if_neg ungreeted]
    by_cases routing : w.s.pc = .routing
    · have untopped : w.s.desk.topClient ≠ some id := fun top => before (topClient_greeted routing top)
      refine ⟨?_, fun same => untopped ?_⟩
      · rw [if_pos routing, focusOf_switch, if_neg unfocused, if_neg untopped]
        exact ite_self _
      · simpa [State.routes, routing] using focused.mp same
    · refine ⟨if_neg routing, fun same => unfocused ?_⟩
      exact State.routes_of_ne routing ▸ focused.mp same
  · obtain ⟨greets, focused⟩ := desk_step settled taken here
    rw [turns id here, focusOf_decides]
    rcases greets.mp done with before | greeting
    · obtain ⟨rest, all, alternates, on⟩ := focusing.greeted id (registered id here) before
      have greeted : w.s.pc ≠ .greeting id := fun now => before.2 (by rw [now]; rfl)
      rw [if_neg greeted, all, List.cons_append]
      by_cases routing : w.s.pc = .routing
      · rw [if_pos routing]
        obtain ⟨alternates, on⟩ := switch_turns alternates on
        refine ⟨_, rfl, alternates, on.trans ?_⟩
        rw [focused, State.routes, routing]
      · rw [if_neg routing, List.append_nil]
        refine ⟨rest, rfl, alternates, on.trans ?_⟩
        rw [focused, State.routes_of_ne routing]
    · have before : ¬w.s.Greeted id := fun done => done.2 (by rw [greeting]; rfl)
      obtain ⟨none, unfocused⟩ := focusing.waiting id (registered id here) before
      rw [none, if_pos greeting]
      have early : w.s.pc ≠ .routing := by simp [greeting]
      refine ⟨[], rfl, Turns.alternates_nil, iff_of_false Turns.not_on_nil fun same => unfocused ?_⟩
      exact State.routes_of_ne early ▸ focused.mp same

theorem kept {a : Action} {w' : Watched} (focusing : Focusing w) (taken : w.watch a = some w') :
    Focusing w' := by
  rcases watch_cases taken with ⟨slot, ch, t, rfl, done, rfl⟩ | ⟨other, t, done, rfl⟩
  · exact focusing.compositor done
  · exact focusing.beside (focusing.settled.kept done) (step_beside other done)

theorem of_run {screen : Screen} {tester : TaskId} {primary : Nat}
    (run : Reaches Watched.watch (fun _ _ => True) (.boot screen tester primary) w) : Focusing w :=
  run.invariant (.boot screen tester primary) fun _ _ _ focusing _ taken => focusing.kept taken

theorem told {id : WindowId} (focusing : Focusing w) (ends : w.s.pc = .sleeping)
    (registered : w.s.wm.Registered id)
    (framed : id ∈ w.s.desk.framed) :
    ∃ rest, w.focusTurns id = true :: rest ∧ Turns.Alternates rest ∧
    (Turns.On rest ↔ w.s.desk.topmost = some id) := by
  obtain ⟨rest, all, alternates, on⟩ := focusing.greeted id registered ⟨framed, by simp [ends, Pc.greets]⟩
  have due : w.due id = w.log id := by simp [Watched.due, ends, Pc.queue]
  rw [due] at all
  refine ⟨rest, all, alternates, on.trans ?_⟩
  rw [focusing.settled.routed (by rw [ends]; rfl), Desk.topClient_eq focusing.settled.onTop]

theorem untold {id : WindowId} (focusing : Focusing w) (registered : w.s.wm.Registered id)
    (unframed : id ∉ w.s.desk.framed) :
    w.focusTurns id = [] := by
  have none := (focusing.waiting id registered fun done => unframed done.1).1
  rw [Watched.due, focusOf_append, List.append_eq_nil_iff] at none
  exact none.1

theorem unframed_told {id : WindowId} (focusing : Focusing w) (registered : w.s.wm.Registered id)
    (unframed : id ∉ w.s.desk.framed) :
    w.FocusTold id := by
  unfold Watched.FocusTold
  rw [focusing.untold registered unframed]
  refine ⟨Turns.alternates_nil, fun ends => iff_of_false Turns.not_on_nil fun top => unframed ?_⟩
  exact Desk.mem_framed_of_topClient ((Desk.topClient_eq focusing.settled.onTop).trans top)

end Focusing

/-- A client window is told about its focus as it should be as long as the compositor has no frame
for it, and no longer: at the end of a pass, a window on the desk was greeted with an `EV_FOCUS`
that the routing knows nothing of. -/
theorem focus_told_iff {screen : Screen} {tester : TaskId} {primary : Nat} {w : Watched}
    (run : Reaches Watched.watch (fun _ _ => True) (.boot screen tester primary) w) {id : WindowId}
    (registered : w.s.wm.Registered id) :
    (id ∉ w.s.desk.framed → w.FocusTold id) ∧
      (w.s.pc = .sleeping → (w.FocusTold id ↔ id ∉ w.s.desk.framed)) := by
  have focusing := Focusing.of_run run
  refine ⟨focusing.unframed_told registered, fun ends =>
    ⟨fun told framed => ?_, focusing.unframed_told registered⟩⟩
  obtain ⟨rest, all, alternates, on⟩ := focusing.told ends registered framed
  obtain ⟨turns, last⟩ := told
  rw [all] at turns last
  have none : rest = [] := Turns.eq_nil_of_alternates_cons turns alternates
  subst none
  have top : w.s.desk.topmost = some id := (last ends).mp rfl
  exact Turns.not_on_nil (on.mpr top)

/-- A client makes a window, and the compositor does one pass. -/
def opened : List Action := .createWindow 7 160 120 "demo client" :: pass 13

theorem focus_told_opened : ∃ w : Watched, w.s.wm.Registered 1 ∧ w.s.pc = .sleeping ∧ 1 ∈ w.s.desk.framed ∧
    (w.FocusTold 1 ↔ 1 ∉ w.s.desk.framed) := by
  have ends : (run Watched.watch (.boot ⟨1280, 720⟩ 5 0) opened).map
    (fun w => (w.s.pc, (w.s.wm.window 1).isSome, w.s.desk.framed)) =
      some (.sleeping, true, [1]) := by decide
  obtain ⟨w, done, here⟩ := Option.map_eq_some_iff.mp ends
  simp only [Prod.mk.injEq] at here
  obtain ⟨asleep, registered, framed⟩ := here
  exact ⟨w, registered, asleep, by simp [framed],
    (focus_told_iff (Reaches.of_run .start done) registered).2 asleep⟩

/-- It has got `EV_FOCUS` twice. -/
theorem focus_told_twice : ∃ w : Watched, Reaches Watched.watch (fun _ _ => True) (.boot ⟨1280, 720⟩ 5 0) w ∧
    w.s.wm.Registered 1 ∧ w.focusTurns 1 = [true, true] ∧ ¬w.FocusTold 1 := by
  have ends : (run Watched.watch (.boot ⟨1280, 720⟩ 5 0) opened).map
    (fun w => ((w.s.wm.window 1).isSome, w.focusTurns 1)) =
      some (true, [true, true]) := by decide
  obtain ⟨w, done, here⟩ := Option.map_eq_some_iff.mp ends
  simp only [Prod.mk.injEq] at here
  obtain ⟨registered, turns⟩ := here
  refine ⟨w, Reaches.of_run .start done, registered, turns, fun told => ?_⟩
  have alternates := told.1
  rw [turns] at alternates
  exact absurd alternates (by decide)

end PickleOS.Windows
