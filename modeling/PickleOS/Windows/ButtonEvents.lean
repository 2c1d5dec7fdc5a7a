import PickleOS.Windows.Routing

set_option autoImplicit false

namespace PickleOS.Windows

open Shared Shared.Machine Shared.Checked

def buttonsOf (events : List Pushed) : List Bool := events.filterMap Pushed.buttonTurn

/-- When the compositor lets the button go, it does so in the client area in which the button went down,
and in no other. -/
def Captured (w : Watched) : Action → Prop
  | .compositor _ ch =>
    match w.s.pc, ch with
    | .keys cid, none =>
      let d := w.s.desk
      ¬d.m.left → d.prevLeftClient → ∀ id, w.s.wm.Registered id → (w.held = some id ↔ d.inside ∧ cid = id)
    | _, _ => True
  | _ => True

/-- What is pushed and what is decided alternates, and no press is left over once the button is up. -/
def Paired (w : Watched) : Prop :=
  ∀ id, w.s.wm.Registered id → Turns.Alternates (buttonsOf (w.due id)) ∧
  (¬w.s.desk.prevLeftClient → ¬Turns.On (buttonsOf (w.due id)))

structure Pairing (w : Watched) : Prop where
  settled : Settled w.s
  fresh : ∀ id, w.s.wm.nextId ≤ id →
    w.log id = [] ∧ buttonsOf (sent id w.s.pc.queue) = [] ∧ w.held ≠ some id ∧ id ∉ w.s.desk.framed
  known : ∀ id, w.s.wm.Registered id → id < w.s.wm.nextId
  alternates : ∀ id, w.s.wm.Registered id → Turns.Alternates (buttonsOf (w.due id))
  -- A window has a press without its release exactly while the button is down that went down in it.
  on : ∀ id, w.s.wm.Registered id → (Turns.On (buttonsOf (w.due id)) ↔ w.s.desk.prevLeftClient = true ∧
  w.held = some id)

section Buttons

variable {s t : State} {slot : Option Nat} {ch : Option Char} {id cid : WindowId} {d d' : Desk} {pc : Pc}

@[simp] theorem buttonsOf_append (first second : List Pushed) :
  buttonsOf (first ++ second) = buttonsOf first ++ buttonsOf second :=
  List.filterMap_append

theorem buttonsOf_reports (d : Desk) : buttonsOf d.reports =
    if d.inside ∧ d.m.left ≠ d.prevLeftClient then [d.m.left] else [] := by
  unfold Desk.reports Desk.inside
  cases d.windows[d.focus]? with
  | none => rfl
  | some win =>
    simp only [Option.any_some, decide_eq_true_eq]
    by_cases inside : d.mouseChanged ∧ 0 ≤ d.m.x - win.x ∧ 0 ≤ d.m.y - (win.y + titleH) ∧
      d.m.x - win.x < win.w ∧
        d.m.y - (win.y + titleH) < win.h - titleH
    · rw [if_pos inside]
      cases d.m.left <;> cases d.prevLeftClient <;>
        simp [inside, buttonsOf, Pushed.buttonTurn, List.filterMap_cons]
    · rw [if_neg inside, if_neg fun both => inside both.1]
      rfl

theorem buttonsOf_switch (d : Desk) : buttonsOf (sent id d.switch.2) = [] := by
  unfold Desk.switch
  split
  · rfl
  · dsimp only
    rw [sent_append, buttonsOf_append, List.append_eq_nil_iff]
    constructor
    · cases d.focusedClient with
      | none => rfl
      | some old => by_cases same : old = id <;> simp [sent, buttonsOf, Pushed.buttonTurn, same]
    · cases d.topClient with
      | none => rfl
      | some new => by_cases same : new = id <;> simp [sent, buttonsOf, Pushed.buttonTurn, same]

theorem buttonsOf_decides (other : ∀ cid, s.pc = .keys cid → ch ≠ none) :
    buttonsOf (sent id (s.decides ch)) = [] := by
  unfold State.decides
  cases here : s.pc with
  | greeting other => by_cases same : other = id <;> simp [sent, buttonsOf, Pushed.buttonTurn, same]
  | closing i =>
    cases at' : s.desk.windows[i]? with
    | none => simp [at', buttonsOf]
    | some win => by_cases same : win.clientId = id <;> simp [at', sent, buttonsOf, Pushed.buttonTurn, same]
  | keys cid =>
    cases ch with
    | some ch => by_cases same : cid = id <;> simp [sent, buttonsOf, Pushed.buttonTurn, same]
    | none => exact absurd rfl (other cid here)
  | routing => exact buttonsOf_switch s.desk
  | _ => simp [buttonsOf]

theorem Pointed.prevLeftClient (pointed : Pointed d d' pc) : d'.prevLeftClient = d.prevLeftClient := by
  cases pointed with
  | pressed free pressed => cases pressed <;> rfl
  | _ => rfl

theorem Desk.prevLeftClient_unframe (d : Desk) (id : WindowId) :
    (d.unframe id).prevLeftClient = d.prevLeftClient := by
  unfold Desk.unframe
  split <;> rfl

theorem Desk.prevLeftClient_switch (d : Desk) : d.switch.1.prevLeftClient = d.prevLeftClient := by
  unfold Desk.switch
  split <;> rfl

theorem flag_step (taken : s.compositor slot ch = some t) (other : ∀ cid, s.pc = .keys cid → ch ≠ none) :
    t.desk.prevLeftClient = s.desk.prevLeftClient := by
  unfold State.compositor at taken
  cases here : s.pc with
  | sizing other =>
    simp only [here] at taken
    split at taken
    next =>
      cases taken
      rfl
    next size found =>
      cases taken
      cases done : s.desk.frame s.screen other size with
      | error panic => rfl
      | ok next =>
        obtain ⟨desk, x, y⟩ := next
        obtain ⟨make, rfl, -⟩ := frame_pushes done
        rfl
  | takeDestroy =>
    simp only [here] at taken
    split at taken
    next =>
      cases taken
      rfl
    next id took =>
      cases taken
      exact Desk.prevLeftClient_unframe s.desk id
  | pointer =>
    simp only [here] at taken
    cases taken
    cases done : s.desk.point s.screen slot with
    | error panic => rfl
    | ok next =>
      obtain ⟨left, pointed⟩ := point_pointed done
      exact pointed.prevLeftClient
  | closing i | destroying i =>
    simp only [here] at taken
    split at taken <;> cases taken <;> rfl
  | routing =>
    simp only [here] at taken
    cases taken
    exact Desk.prevLeftClient_switch s.desk
  | keys cid =>
    cases ch with
    | none => exact absurd rfl (other cid here)
    | some ch =>
      simp only [here] at taken
      cases taken
      rfl
  | switching queue | reporting cid queue =>
    cases queue <;> simp only [here] at taken <;> cases taken <;> rfl
  | takeNew | top | placing other x y | moving other x y | greeting other | sleeping =>
    simp only [here] at taken
    cases taken
    rfl
  | panicked panic => simp [here] at taken

end Buttons

namespace Pairing

variable {w : Watched}

theorem boot (screen : Screen) (tester : TaskId) (primary : Nat) : Pairing (.boot screen tester primary) where
  settled := .boot screen tester primary
  fresh id _ := ⟨rfl, rfl, (fun same => by cases same), List.not_mem_nil⟩
  known id here := by cases here
  alternates id here := by cases here
  on id here := by cases here

theorem beside {t : State} (pairing : Pairing w) (settled : Settled t) (beside : Beside w.s t) :
    Pairing { w with s := t } := by
  obtain ⟨registered, nextId, desk, pc⟩ := beside
  have due (id : WindowId) : Watched.due { w with s := t } id = w.due id := by rw [Watched.due, Watched.due, pc]
  have paired (id : WindowId) (here : t.wm.Registered id) : Turns.Alternates (buttonsOf (w.due id)) ∧
      (Turns.On (buttonsOf (w.due id)) ↔ w.s.desk.prevLeftClient = true ∧ w.held = some id) := by
    rcases registered id here with old | ⟨new, -⟩
    · exact ⟨pairing.alternates id old, pairing.on id old⟩
    · obtain ⟨log, queue, unheld, -⟩ := pairing.fresh id new
      rw [Watched.due, log, List.nil_append, queue]
      exact ⟨Turns.alternates_nil, iff_of_false Turns.not_on_nil fun both => unheld both.2⟩
  refine ⟨settled, fun id new => ?_, fun id here => ?_, fun id here => ?_, fun id here => ?_⟩
  · rw [pc, desk]
    exact pairing.fresh id (nextId.trans new)
  · rcases registered id here with old | ⟨-, below⟩
    · exact (pairing.known id old).trans_le nextId
    · exact below
  · rw [due]
    exact (paired id here).1
  · rw [due, desk]
    exact (paired id here).2

section Compositor

variable {slot : Option Nat} {ch : Option Char} {t : State} {id cid : WindowId}

theorem fresh_compositor (pairing : Pairing w) (taken : w.s.compositor slot ch = some t)
    (new : w.s.wm.nextId ≤ id) :
    w.logged ch id = [] ∧ buttonsOf (sent id t.pc.queue) = [] ∧ w.holds ch ≠ some id ∧ id ∉ t.desk.framed := by
  obtain ⟨log, queue, unheld, unframed⟩ := pairing.fresh id new
  have gone : ¬w.s.wm.Registered id := fun here => absurd (pairing.known id here) (Nat.not_lt.mpr new)
  have unkeyed (cid : WindowId) (keys : w.s.pc = .keys cid) : cid ≠ id := by
    rintro rfl
    exact unframed (Desk.mem_framed_of_topClient (pairing.settled.keyed cid keys))
  refine ⟨(logged_unregistered gone).trans log, ?_, ?_,
    fun there => ((newcomer taken).1 there).elim unframed gone⟩
  · have undecided : buttonsOf (sent id (w.s.decides ch)) = [] := by
      by_cases input : ∃ cid, w.s.pc = .keys cid ∧ ch = none
      · obtain ⟨cid, keys, rfl⟩ := input
        simp [State.decides, keys, sent_other (unkeyed cid keys), buttonsOf]
      · exact buttonsOf_decides fun cid keys none => input ⟨cid, keys, none⟩
    have steps := congrArg (fun events => buttonsOf (sent id events)) (queue_step taken)
    simp only [sent_append, buttonsOf_append, queue, undecided, List.append_nil, List.append_eq_nil_iff]
      at steps
    exact steps.2
  · unfold Watched.holds
    split
    next cid keys =>
      dsimp only
      split_ifs
      · exact fun same => unkeyed cid keys (Option.some.inj same)
      · simp
      · exact unheld
    next => exact unheld

theorem quiet (pairing : Pairing w) (taken : w.s.compositor slot ch = some t)
    (other : ∀ cid, w.s.pc = .keys cid → ch ≠ none) :
    Pairing { s := t, log := w.logged ch, held := w.holds ch } := by
  obtain ⟨registered, nextId⟩ := compositor_wm taken
  have holds : w.holds ch = w.held := by
    unfold Watched.holds
    split
    next cid keys => exact absurd rfl (other cid keys)
    next => rfl
  have due (id : WindowId) (here : t.wm.Registered id) :
      buttonsOf (Watched.due { s := t, log := w.logged ch, held := w.holds ch } id) = buttonsOf (w.due id) := by
    rw [Watched.due, due_step (registered id here) taken, buttonsOf_append, buttonsOf_decides other,
      List.append_nil]
  refine ⟨pairing.settled.compositor taken, fun id new => ?_, fun id here => ?_, fun id here => ?_,
    fun id here => ?_⟩
  · exact pairing.fresh_compositor taken (nextId ▸ new)
  · rw [nextId]
    exact pairing.known id (registered id here)
  · rw [due id here]
    exact pairing.alternates id (registered id here)
  · rw [due id here, holds, flag_step taken other]
    exact pairing.on id (registered id here)

/-- The pass in which a client on top gets to see the mouse. -/
def input (w : Watched) (cid : WindowId) : Watched where
  s := { w.s with desk :=
    { w.s.desk with prevLeftClient := w.s.desk.m.left }, pc := .reporting cid w.s.desk.reports }
  log := w.logged none
  held := w.holds none

theorem input_step (slot : Option Nat) (keys : w.s.pc = .keys cid) :
    w.s.compositor slot none = some (input w cid).s := by
  simp [State.compositor, keys, input]

theorem due_input (keys : w.s.pc = .keys cid) (registered : w.s.wm.Registered id) :
    buttonsOf ((input w cid).due id) =
      buttonsOf (w.due id) ++ if w.s.desk.inside ∧ cid = id ∧
      w.s.desk.m.left ≠ w.s.desk.prevLeftClient then [w.s.desk.m.left] else [] := by
  have due : (input w cid).due id = w.due id ++ sent id (w.s.decides none) :=
    due_step registered (input_step none keys)
  rw [due, buttonsOf_append, State.decides, keys]
  by_cases same : cid = id
  · subst same
    rw [sent_reports, buttonsOf_reports]
    simp
  · rw [sent_other same, if_neg fun all => same all.2.1]
    rfl

theorem holds_input (keys : w.s.pc = .keys cid) : (input w cid).held =
    if w.s.desk.m.left ∧ ¬w.s.desk.prevLeftClient then (if w.s.desk.inside then some cid else none) else
      w.held := by
  unfold input Watched.holds
  rw [keys]

theorem input_kept (pairing : Pairing w) (keys : w.s.pc = .keys cid) (registered : w.s.wm.Registered id)
    (captured : ¬w.s.desk.m.left → w.s.desk.prevLeftClient → (w.held = some id ↔ w.s.desk.inside ∧ cid = id)) :
    Turns.Alternates (buttonsOf ((input w cid).due id)) ∧
      (Turns.On (buttonsOf ((input w cid).due id)) ↔ w.s.desk.m.left = true ∧
        (input w cid).held = some id) := by
  have alternates := pairing.alternates id registered
  have on := pairing.on id registered
  rw [due_input keys registered, holds_input keys]
  cases left : w.s.desk.m.left <;> cases prev : w.s.desk.prevLeftClient <;> simp only [left, prev]
    at captured on ⊢
  case true.true => simp [alternates, on]
  case false.false => simp [alternates, on]
  case true.false =>
    have off : ¬Turns.On (buttonsOf (w.due id)) := fun pressed => by simpa using on.mp pressed
    by_cases mine : w.s.desk.inside ∧ cid = id
    · simp [mine, Turns.alternates_concat, alternates, off]
    · by_cases inside : w.s.desk.inside
      · have other : cid ≠ id := fun same => mine ⟨inside, same⟩
        simp [inside, other, alternates, off]
      · simp [inside, alternates, off]
  case false.true =>
    have captured := captured (by simp) trivial
    by_cases mine : w.s.desk.inside ∧ cid = id
    · have pressed := on.mpr ⟨trivial, captured.mpr mine⟩
      simp [mine, Turns.alternates_concat, alternates, pressed]
    · have off : ¬Turns.On (buttonsOf (w.due id)) := fun pressed => mine (captured.mp (on.mp pressed).2)
      have none : ¬(w.s.desk.inside ∧ cid = id ∧ false ≠ true) := fun all => mine ⟨all.1, all.2.1⟩
      rw [if_neg none, List.append_nil]
      simp [alternates, off]

theorem input_broken (pairing : Pairing w) (keys : w.s.pc = .keys cid) (registered : w.s.wm.Registered id)
    (up : ¬w.s.desk.m.left)
    (was : w.s.desk.prevLeftClient) (uncaptured : ¬(w.held = some id ↔ w.s.desk.inside ∧ cid = id)) :
      ¬Paired (input w cid) := by
  intro paired
  obtain ⟨alternates, released⟩ := paired id registered
  have off := released up
  have on := pairing.on id registered
  have left : w.s.desk.m.left = false := Bool.eq_false_iff.mpr up
  have prev : w.s.desk.prevLeftClient = true := was
  rw [due_input keys registered] at alternates off
  by_cases mine : w.s.desk.inside ∧ cid = id
  · have unpressed : ¬Turns.On (buttonsOf (w.due id)) := fun pressed =>
      uncaptured (iff_of_true (on.mp pressed).2 mine)
    simp [mine, left, prev, Turns.alternates_concat, unpressed] at alternates
  · have none : ¬(w.s.desk.inside ∧ cid = id ∧ w.s.desk.m.left ≠ w.s.desk.prevLeftClient) := fun all =>
      mine ⟨all.1, all.2.1⟩
    rw [if_neg none, List.append_nil, on] at off
    exact uncaptured (iff_of_false (fun held => off ⟨was, held⟩) mine)

theorem input_pairing (pairing : Pairing w) (keys : w.s.pc = .keys cid)
    (captured : Captured w (.compositor slot none)) :
    Pairing (input w cid) := by
  have taken := input_step slot keys
  have fits : ∀ id, w.s.wm.Registered id → ¬w.s.desk.m.left → w.s.desk.prevLeftClient →
      (w.held = some id ↔ w.s.desk.inside ∧ cid = id) := by
    intro id registered up was
    unfold Captured at captured
    rw [keys] at captured
    exact captured up was id registered
  exact ⟨pairing.settled.compositor taken, fun id new => pairing.fresh_compositor taken new, pairing.known,
    fun id here => (pairing.input_kept keys here (fits id here)).1, fun id here =>
      (pairing.input_kept keys here (fits id here)).2⟩

theorem input_exact (pairing : Pairing w) (keys : w.s.pc = .keys cid) (paired : Paired (input w cid)) :
    Captured w (.compositor slot none) := by
  unfold Captured
  rw [keys]
  intro up was id registered
  by_contra uncaptured
  exact pairing.input_broken keys registered up was uncaptured paired

end Compositor

theorem paired (pairing : Pairing w) : Paired w := fun id registered =>
  ⟨pairing.alternates id registered, fun up pressed => up ((pairing.on id registered).mp pressed).1⟩

theorem captured_unseen {slot : Option Nat} {ch : Option Char}
    (unseen : ∀ cid, w.s.pc = .keys cid → ch ≠ none) :
    Captured w (.compositor slot ch) := by
  cases keys : w.s.pc with
  | keys cid =>
    cases ch with
    | none => exact absurd rfl (unseen cid keys)
    | some ch => simp [Captured, keys]
  | _ => simp [Captured, keys]

theorem kept {a : Action} {w' : Watched} (pairing : Pairing w) (captured : Captured w a)
    (taken : w.watch a = some w') : Pairing w' := by
  rcases watch_cases taken with ⟨slot, ch, t, rfl, done, rfl⟩ | ⟨other, t, done, rfl⟩
  · by_cases seen : ∃ cid, w.s.pc = .keys cid ∧ ch = none
    · obtain ⟨cid, keys, rfl⟩ := seen
      cases (input_step slot keys).symm.trans done
      exact pairing.input_pairing keys captured
    · exact pairing.quiet done fun cid keys none => seen ⟨cid, keys, none⟩
  · exact pairing.beside (pairing.settled.kept done) (step_beside other done)

theorem captured {a : Action} {w' : Watched} (pairing : Pairing w) (taken : w.watch a = some w')
    (paired : Paired w') : Captured w a := by
  rcases watch_cases taken with ⟨slot, ch, t, rfl, done, rfl⟩ | ⟨other, t, done, rfl⟩
  · by_cases seen : ∃ cid, w.s.pc = .keys cid ∧ ch = none
    · obtain ⟨cid, keys, rfl⟩ := seen
      cases (input_step slot keys).symm.trans done
      exact pairing.input_exact keys paired
    · exact captured_unseen fun cid keys none => seen ⟨cid, keys, none⟩
  · cases a with
    | compositor slot ch => exact absurd rfl (other slot ch)
    | _ => trivial

theorem of_run {screen : Screen} {tester : TaskId} {primary : Nat}
    (run : Reaches Watched.watch Captured (.boot screen tester primary) w) : Pairing w :=
  run.invariant (.boot screen tester primary) fun _ _ _ pairing captured taken => pairing.kept captured taken

end Pairing

/-- The button events of every window alternate as long as a button that went down in a client area
is let go there, and one that went down elsewhere is let go elsewhere; the first step against this
breaks it. -/
theorem buttons_alternate {screen : Screen} {tester : TaskId} {primary : Nat} {w : Watched}
    (run : Reaches Watched.watch Captured (.boot screen tester primary) w) :
    (∀ id, w.s.wm.Registered id → Turns.Alternates (w.buttonTurns id)) ∧
      ∀ a w', w.watch a = some w' → (Paired w' ↔ Captured w a) := by
  have pairing := Pairing.of_run run
  refine ⟨fun id registered => ?_, fun a w' taken =>
    ⟨fun paired => pairing.captured taken paired, fun captured => ?_⟩⟩
  · have alternates := pairing.alternates id registered
    rw [Watched.due, buttonsOf_append] at alternates
    exact alternates.of_append
  · exact (pairing.kept captured taken).paired

/-- The client whose window is asked for its input was pressed, if the button comes up. -/
def Watched.fair (w : Watched) : Bool :=
  match w.s.pc with
  | .keys cid => w.s.desk.m.left || !w.s.desk.prevLeftClient || (w.s.desk.inside && w.held == some cid)
  | _ => true

theorem captured_of_fair {w : Watched} {a : Action} (fair : w.fair) : Captured w a := by
  cases a with
  | compositor slot ch =>
    cases keys : w.s.pc with
    | keys cid =>
      cases ch with
      | some ch => simp [Captured, keys]
      | none =>
        simp only [Captured, keys]
        intro up was id registered
        have both : w.s.desk.inside ∧ w.held = some cid := by simpa [Watched.fair, keys, up, was] using fair
        simp [both.1, both.2]
    | _ => simp [Captured, keys]
  | _ => trivial

/-- A client makes a window, and the button goes down in it. -/
def pressedIn : List Action :=
  .createWindow 7 160 120 "demo client" :: pass 13 ++ .mouse 400 250 true :: pass 11

theorem buttons_alternate_clicked : ∃ w : Watched, w.buttonTurns 1 = [true, false] ∧
    (∀ id, w.s.wm.Registered id → Turns.Alternates (w.buttonTurns id)) ∧ ∀ a w', w.watch a = some w' →
      (Paired w' ↔ Captured w a) := by
  have ends : (replay Watched.watch (fun w _ => w.fair) (.boot ⟨1280, 720⟩ 5 0)
    (pressedIn ++ .mouse 410 260 false :: pass 11)).map
      (fun w => w.buttonTurns 1) = some [true, false] := by decide
  obtain ⟨w, done, turns⟩ := Option.map_eq_some_iff.mp ends
  exact ⟨w, turns, buttons_alternate (Reaches.of_replay (fun _ _ => captured_of_fair) .start done)⟩

/-- It comes up outside, and goes down in the window again. -/
theorem buttons_repeat : ∃ w : Watched, Reaches Watched.watch (fun _ _ => True) (.boot ⟨1280, 720⟩ 5 0)
    w ∧ w.s.wm.Registered 1 ∧
    w.buttonTurns 1 = [true, true] ∧ ¬Turns.Alternates (w.buttonTurns 1) := by
  have ends : (run Watched.watch (.boot ⟨1280, 720⟩ 5 0)
      (pressedIn ++ .mouse 600 650 false :: pass 9 ++ .mouse 400 250 true :: pass 11)).map
        (fun w => ((w.s.wm.window 1).isSome, w.buttonTurns 1)) = some (true, [true, true]) := by decide
  obtain ⟨w, done, here⟩ := Option.map_eq_some_iff.mp ends
  simp only [Prod.mk.injEq] at here
  obtain ⟨registered, turns⟩ := here
  refine ⟨w, Reaches.of_run .start done, registered, turns, ?_⟩
  rw [turns]
  decide

end PickleOS.Windows
