import PickleOS.Windows.History

set_option autoImplicit false

namespace PickleOS.Windows

open Shared Shared.Checked Shared.Machine

/-- The window that is being put on the desk. -/
def Pc.greets : Pc → Option WindowId
  | .placing id _ _ => some id
  | .greeting id => some id
  | _ => none

def Pc.routed : Pc → Bool
  | .switching _ => true
  | .keys _ => true
  | .reporting _ _ => true
  | .sleeping => true
  | _ => false

def Desk.OnTop (d : Desk) : Prop := d.windows = [] ∨ d.focus + 1 = d.windows.length

structure Settled (s : State) : Prop where
  running : Running s
  onTop : s.desk.OnTop
  greets : ∀ id, s.pc.greets = some id → id ∈ s.desk.framed
  routed : s.pc.routed → s.desk.focusedClient = s.desk.topClient
  keyed : ∀ cid, s.pc = .keys cid → s.desk.topClient = some cid

section Desks

variable {d d' : Desk} {pc : Pc}

theorem Desk.topClient_eq (onTop : d.OnTop) : d.topClient = d.topmost := by
  unfold Desk.topClient Desk.topmost
  rcases onTop with none | last
  · rw [none]
    rfl
  · have here : d.windows.length - 1 = d.focus := by omega
    rw [List.getLast?_eq_getElem?, here]
    simp only [last, true_and]
    rfl

theorem Desk.mem_framed_of_topClient {id : WindowId} (top : d.topClient = some id) : id ∈ d.framed := by
  obtain ⟨win, found, client⟩ := Option.bind_eq_some_iff.mp top
  refine List.mem_filterMap.mpr ⟨win, List.mem_of_getElem? found, ?_⟩
  split at client
  next here => rw [Window.client, if_pos here.2, ← client]
  next => cases client

theorem Desk.onTop_push (make : Nat → Window) : (d.push make).OnTop := .inr (by simp [Desk.push])

theorem Desk.onTop_remove {i : Nat} (inside : i < d.windows.length) (onTop : d.OnTop) : (d.remove i).OnTop := by
  have length : (d.windows.eraseIdx i).length = d.windows.length - 1 := List.length_eraseIdx_of_lt inside
  have last : d.focus + 1 = d.windows.length := by
    rcases onTop with none | last
    · simp [none] at inside
    · exact last
  unfold Desk.OnTop Desk.remove
  simp only [← List.length_eq_zero_iff, length]
  split
  · omega
  · split <;> omega

theorem Desk.onTop_raise {i : Nat} {win : Window} : (d.raise i win).OnTop := .inr (by simp [Desk.raise])

theorem Desk.onTop_unframe (onTop : d.OnTop) (id : WindowId) : (d.unframe id).OnTop := by
  unfold Desk.unframe
  split
  · exact onTop
  next i found =>
    unfold Desk.OnTop
    simp only [Desk.unfocus]
    cases d.windows.eraseIdx i with
    | nil => exact .inl rfl
    | cons first rest => exact .inr rfl

theorem Pointed.onTop (pointed : Pointed d d' pc) (onTop : d.OnTop) : d'.OnTop := by
  cases pointed with
  | kept => exact onTop
  | dragged init win win' moved windows pc next =>
    refine .inr ?_
    rcases onTop with none | last
    · simp [none] at windows
    · simpa [windows] using last
  | released => exact onTop
  | pressed free pressed =>
    cases pressed with
    | kept | asked => exact onTop
    | opened make kind serial => exact Desk.onTop_push make
    | removed i win at' kind => exact Desk.onTop_remove (List.getElem?_eq_some_iff.mp at').1 onTop
    | raised i win at' => exact Desk.onTop_raise

theorem Pointed.focusedClient (pointed : Pointed d d' pc) : d'.focusedClient = d.focusedClient := by
  cases pointed with
  | pressed free pressed => cases pressed <;> rfl
  | _ => rfl

theorem Pointed.unrouted (pointed : Pointed d d' pc) :
    pc.routed = false ∧ pc.greets = none ∧ ∀ cid, pc ≠ .keys cid := by
  cases pointed with
  | dragged init win win' moved windows pc next =>
    rcases next with rfl | ⟨id, x, y, rfl⟩ <;> simp [Pc.routed, Pc.greets]
  | pressed free pressed => cases pressed <;> simp [Pc.routed, Pc.greets]
  | _ => simp [Pc.routed, Pc.greets]

theorem Desk.focusedClient_switch (d : Desk) : d.switch.1.focusedClient = d.topClient := by
  unfold Desk.switch
  split
  next same => exact same.symm
  next => rfl

theorem Desk.topClient_switch (d : Desk) : d.switch.1.topClient = d.topClient := by
  unfold Desk.switch
  split <;> rfl

theorem Desk.onTop_switch (onTop : d.OnTop) : d.switch.1.OnTop := by
  unfold Desk.switch
  split <;> exact onTop

end Desks

namespace Settled

variable {s t : State} {slot : Option Nat} {ch : Option Char}

theorem boot (screen : Screen) (tester : TaskId) (primary : Nat) : Settled (.boot screen tester primary) where
  running _ := .boot screen tester primary
  onTop := .inr rfl
  greets id here := by cases here
  routed here := by cases here
  keyed cid here := by cases here

theorem still (settled : Settled s) (running : Running t) (desk : t.desk = s.desk) (pc : t.pc = s.pc) :
    Settled t where
  running := running
  onTop := desk ▸ settled.onTop
  greets id here := by
    rw [desk]
    exact settled.greets id (pc ▸ here)
  routed here := by
    rw [desk]
    exact settled.routed (pc ▸ here)
  keyed cid here := by
    rw [desk]
    exact settled.keyed cid (pc ▸ here)

theorem early (running : Running t) (onTop : t.desk.OnTop) (greets : t.pc.greets = none)
    (routed : t.pc.routed = false) : Settled t where
  running := running
  onTop := onTop
  greets id here := by simp [greets] at here
  routed here := by simp [routed] at here
  keyed cid here := by simp [here, Pc.routed] at routed

theorem late (running : Running t) (onTop : t.desk.OnTop) (greets : t.pc.greets = none)
    (focused : t.desk.focusedClient = t.desk.topClient)
    (keyed : ∀ cid, t.pc = .keys cid → t.desk.topClient = some cid) : Settled t where
  running := running
  onTop := onTop
  greets id here := by simp [greets] at here
  routed _ := focused
  keyed := keyed

theorem compositor (settled : Settled s) (taken : s.compositor slot ch = some t) : Settled t := by
  have running : Running t := compositor_keeps settled.running taken
  have onTop := settled.onTop
  have routed := settled.routed
  unfold State.compositor at taken
  cases here : s.pc with
  | takeNew =>
    simp only [here] at taken
    cases taken
    refine early running onTop ?_ ?_ <;> cases s.wm.takePendingNew.1 <;> rfl
  | sizing id =>
    simp only [here] at taken
    split at taken
    next =>
      cases taken
      exact early running onTop rfl rfl
    next size found =>
      cases taken
      cases framed : s.desk.frame s.screen id size with
      | error panic =>
        rw [framed] at running
        exact early running onTop rfl rfl
      | ok next =>
        rw [framed] at running
        obtain ⟨desk, x, y⟩ := next
        obtain ⟨make, rfl, client, -⟩ := frame_pushes framed
        refine ⟨running, Desk.onTop_push make, fun other same => ?_, (fun late => by cases late),
          fun cid keyed => by cases keyed⟩
        cases same
        change id ∈ (s.desk.push make).framed
        simp [client]
  | placing id x y =>
    simp only [here] at taken
    cases taken
    refine ⟨running, onTop, fun other same => ?_, (fun late => by cases late), fun cid keyed => by cases keyed⟩
    cases same
    exact settled.greets id (by rw [here]; rfl)
  | takeDestroy =>
    simp only [here] at taken
    split at taken
    next =>
      cases taken
      exact early running onTop rfl rfl
    next id taken' =>
      cases taken
      exact early running (Desk.onTop_unframe onTop id) rfl rfl
  | pointer =>
    simp only [here] at taken
    cases taken
    cases pointed : s.desk.point s.screen slot with
    | error panic =>
      rw [pointed] at running
      exact early running onTop rfl rfl
    | ok next =>
      rw [pointed] at running
      obtain ⟨left, pointed⟩ := point_pointed pointed
      exact early running (pointed.onTop onTop) pointed.unrouted.2.1 pointed.unrouted.1
  | closing i =>
    simp only [here] at taken
    split at taken
    next =>
      cases taken
      exact early running onTop rfl rfl
    next =>
      cases taken
      exact early running onTop rfl rfl
  | destroying i =>
    simp only [here] at taken
    split at taken
    next =>
      cases taken
      exact early running onTop rfl rfl
    next win at' =>
      cases taken
      refine early running (Desk.onTop_remove ?_ onTop) rfl rfl
      exact (List.getElem?_eq_some_iff.mp at').1
  | routing =>
    simp only [here] at taken
    cases taken
    refine late running (Desk.onTop_switch onTop) rfl ?_ fun cid keyed => by cases keyed
    exact (Desk.focusedClient_switch s.desk).trans (Desk.topClient_switch s.desk).symm
  | switching queue =>
    have focused := routed (by rw [here]; rfl)
    cases queue with
    | nil =>
      simp only [here] at taken
      cases taken
      cases top : s.desk.topClient with
      | none =>
        rw [top] at running
        exact late running onTop rfl focused fun cid keyed => by cases keyed
      | some id =>
        rw [top] at running
        refine late running onTop rfl focused fun cid keyed => ?_
        cases keyed
        exact top
    | cons first rest =>
      simp only [here] at taken
      cases taken
      exact late running onTop rfl focused fun cid keyed => by cases keyed
  | keys cid =>
    have focused := routed (by rw [here]; rfl)
    cases ch with
    | none =>
      simp only [here] at taken
      cases taken
      exact late running onTop rfl focused fun cid keyed => by cases keyed
    | some ch =>
      simp only [here] at taken
      cases taken
      refine late running onTop rfl focused fun other keyed => ?_
      cases keyed
      exact settled.keyed cid here
  | reporting cid queue =>
    have focused := routed (by rw [here]; rfl)
    cases queue with
    | nil =>
      simp only [here] at taken
      cases taken
      exact late running onTop rfl focused fun cid keyed => by cases keyed
    | cons first rest =>
      simp only [here] at taken
      cases taken
      exact late running onTop rfl focused fun cid keyed => by cases keyed
  | top | moving id x y | greeting id | sleeping =>
    simp only [here] at taken
    cases taken
    exact early running onTop rfl rfl
  | panicked panic => simp [here] at taken

theorem kept {a : Action} (settled : Settled s) (taken : step s a = some t) : Settled t := by
  have running : Running t := settled.running.kept taken
  cases a with
  | compositor slot ch => exact settled.compositor taken
  | selftest =>
    obtain ⟨desk, pc⟩ := (selftest_tested taken).same
    exact settled.still running desk pc
  | _ =>
    cases taken
    exact settled.still running rfl rfl

end Settled

namespace State

/-- The window is on the desk, and the compositor is through with putting it there. -/
def Greeted (s : State) (id : WindowId) : Prop := id ∈ s.desk.framed ∧ s.pc.greets ≠ some id

/-- The client that has the focus after the next step. -/
def routes (s : State) : Option WindowId :=
  match s.pc with
  | .routing => s.desk.topClient
  | _ => s.desk.focusedClient

theorem routes_of_ne {s : State} (early : s.pc ≠ .routing) : s.routes = s.desk.focusedClient := by
  unfold routes
  split
  next here => exact absurd here early
  next => rfl

end State

section Desks

variable {s t : State} {slot : Option Nat} {ch : Option Char} {id : WindowId}

theorem Desk.mem_erased {d : Desk} {i : Nat} {win : Window} {windows : List Window}
    (at' : d.windows[i]? = some win)
    (same : windows = d.windows.eraseIdx i) (other : win.client ≠ some id) :
    id ∈ windows.filterMap Window.client ↔ id ∈ d.framed := by
  rw [same, ← (Desk.framed_eraseIdx at').mem_iff, List.mem_append]
  constructor
  · exact .inr
  · rintro (here | there)
    · exact absurd (Option.mem_toList.mp here) other
    · exact there

theorem Desk.focusedClient_unfocus {d : Desk} {other : WindowId} (different : id ≠ other) :
    (d.unfocus other).focusedClient = some id ↔ d.focusedClient = some id := by
  simp only [Desk.unfocus]
  split
  next here => simp [here, different.symm]
  next => rfl

theorem Desk.focusedClient_of_unfocus {d : Desk}
    {other : WindowId} (focused : (d.unfocus other).focusedClient = some id) :
    d.focusedClient = some id := by
  simp only [Desk.unfocus] at focused
  split at focused
  · cases focused
  · exact focused

theorem Desk.focusedClient_unframe {d : Desk}
    {other : WindowId} (focused : (d.unframe other).focusedClient = some id) :
    d.focusedClient = some id := by
  unfold Desk.unframe at focused
  split at focused
  · exact focused
  · exact Desk.focusedClient_of_unfocus focused

theorem Desk.unframe_other {d : Desk} {other : WindowId} (different : id ≠ other) :
    (id ∈ (d.unframe other).framed ↔ id ∈ d.framed) ∧
      ((d.unframe other).focusedClient = some id ↔ d.focusedClient = some id) := by
  constructor
  · rcases d.unframe_cases other with ⟨same, -⟩ | ⟨i, win, at', client, windows, -⟩
    · rw [same]
    · exact Desk.mem_erased at' windows (by rw [client]; exact fun same => different (Option.some.inj
        same).symm)
  · unfold Desk.unframe
    split
    · rfl
    · exact Desk.focusedClient_unfocus different

theorem desk_step (settled : Settled s) (taken : s.compositor slot ch = some t) (stays : t.wm.Registered id) :
    (t.Greeted id ↔ s.Greeted id ∨ s.pc = .greeting id) ∧
      (t.desk.focusedClient = some id ↔ s.routes = some id) := by
  have mirrors : s.Mirrors := by
    refine settled.running fun panic here => ?_
    simp [State.compositor, here] at taken
  unfold State.compositor at taken
  unfold State.Greeted State.routes
  cases here : s.pc with
  | takeNew =>
    simp only [here] at taken
    cases taken
    cases s.wm.takePendingNew.1 <;> simp [Pc.greets]
  | sizing other =>
    simp only [here] at taken
    split at taken
    next =>
      cases taken
      simp [State.goto, Pc.greets]
    next size found =>
      cases taken
      cases framed : s.desk.frame s.screen other size with
      | error panic => simp [State.proceed, State.goto, Except.map, Pc.greets]
      | ok next =>
        obtain ⟨desk, x, y⟩ := next
        obtain ⟨make, rfl, client, -⟩ := frame_pushes framed
        have new : other ∉ s.desk.framed := by
          have once := mirrors.once
          simp only [State.coming, here, Pc.held_sizing, List.append_assoc, List.singleton_append] at once
          exact (List.nodup_cons.mp (List.nodup_append.mp once).2.1).1
        refine ⟨?_, by simp [State.proceed, Except.map, Desk.push]⟩
        have both : id ∈ (s.desk.push make).framed ∧ other ≠ id ↔ id ∈ s.desk.framed := by
          rw [Desk.framed_push, client, List.mem_append, Option.toList_some, List.mem_singleton]
          constructor
          · rintro ⟨old | last, different⟩
            · exact old
            · exact absurd last.symm different
          · exact fun old => ⟨.inl old, fun same => new (same ▸ old)⟩
        simpa [State.proceed, Except.map, Pc.greets] using both
  | placing other x y =>
    simp only [here] at taken
    cases taken
    simp [Pc.greets]
  | greeting other =>
    simp only [here] at taken
    cases taken
    have framed := settled.greets other (by rw [here]; rfl)
    by_cases same : other = id
    · subst same
      simp [Pc.greets, framed]
    · simp [Pc.greets, same]
  | takeDestroy =>
    simp only [here] at taken
    obtain ⟨takes, answer, -⟩ := takePendingDestroy_takes s.wm
    split at taken
    next =>
      cases taken
      simp [Pc.greets]
    next other took =>
      cases taken
      have gone : ¬s.wm.Registered other := by
        refine (Mirror.gone mirrors other ?_).2
        exact List.mem_of_mem_head? (answer.symm.trans took)
      have different : id ≠ other := by
        rintro rfl
        exact gone ((takes.registered id).mp stays)
      obtain ⟨framed, focused⟩ := Desk.unframe_other different
      simpa [Pc.greets] using And.intro framed focused
  | pointer =>
    simp only [here] at taken
    cases taken
    cases pointed : s.desk.point s.screen slot with
    | error panic => simp [State.proceed, State.goto, Pc.greets]
    | ok next =>
      obtain ⟨left, pointed⟩ := point_pointed pointed
      have framed : id ∈ next.1.framed ↔ id ∈ s.desk.framed := pointed.framed.mem_iff
      have calm : (s.proceed (.ok next)).pc.greets = none := pointed.unrouted.2.1
      simp only [calm]
      simp [State.proceed, framed, pointed.focusedClient, Pc.greets]
  | closing i =>
    simp only [here] at taken
    split at taken <;> cases taken <;> simp [State.goto, Pc.greets]
  | destroying i =>
    simp only [here] at taken
    split at taken
    next =>
      cases taken
      simp [State.goto, Pc.greets]
    next win at' =>
      cases taken
      have different : id ≠ win.clientId := by
        rintro rfl
        exact not_registered_destroyed stays
      have other : win.client ≠ some id := by
        unfold Window.client
        split
        · exact fun same => different (Option.some.inj same).symm
        · simp
      have framed : id ∈ ((s.desk.unfocus win.clientId).remove i).framed ↔ id ∈ s.desk.framed :=
        Desk.mem_erased at' rfl other
      have focused : ((s.desk.unfocus win.clientId).remove i).focusedClient = some id ↔
        s.desk.focusedClient = some id :=
        Desk.focusedClient_unfocus different
      simp [Pc.greets, framed, focused]
  | routing =>
    simp only [here] at taken
    cases taken
    simp [Pc.greets, Desk.framed_switch, Desk.focusedClient_switch]
  | switching queue =>
    cases queue with
    | nil =>
      simp only [here] at taken
      cases taken
      cases s.desk.topClient <;> simp [State.goto, Pc.greets]
    | cons first rest =>
      simp only [here] at taken
      cases taken
      simp [Pc.greets]
  | keys cid =>
    cases ch <;> simp only [here] at taken <;> cases taken <;> simp [Pc.greets, Desk.framed]
  | reporting cid queue =>
    cases queue <;> simp only [here] at taken <;> cases taken <;> simp [State.goto, Pc.greets]
  | top | moving other x y | sleeping =>
    simp only [here] at taken
    cases taken
    simp [State.goto, Pc.greets, Desk.framed]
  | panicked panic => simp [here] at taken

theorem newcomer (taken : s.compositor slot ch = some t) :
    (id ∈ t.desk.framed → id ∈ s.desk.framed ∨ s.wm.Registered id) ∧
      (t.desk.focusedClient = some id → s.routes = some id) := by
  unfold State.compositor at taken
  have kept (framed : t.desk.framed = s.desk.framed) (focused : t.desk.focusedClient = s.routes) :
      (id ∈ t.desk.framed → id ∈ s.desk.framed ∨ s.wm.Registered id) ∧
        (t.desk.focusedClient = some id → s.routes = some id) := by
    rw [framed, focused]
    exact ⟨.inl, fun same => same⟩
  cases here : s.pc with
  | sizing other =>
    have routes := State.routes_of_ne (s := s) (by simp [here])
    simp only [here] at taken
    split at taken
    next =>
      cases taken
      exact kept rfl routes.symm
    next size found =>
      cases taken
      cases done : s.desk.frame s.screen other size with
      | error panic =>
        rw [done] at kept
        exact kept rfl routes.symm
      | ok next =>
        obtain ⟨desk, x, y⟩ := next
        obtain ⟨make, rfl, client, -⟩ := frame_pushes done
        refine ⟨fun framed => ?_, fun focused => routes.trans focused⟩
        change id ∈ (s.desk.push make).framed at framed
        rw [Desk.framed_push, client, List.mem_append, Option.toList_some, List.mem_singleton] at framed
        refine framed.imp_right fun same => ?_
        obtain ⟨win, found, -⟩ := Option.map_eq_some_iff.mp found
        simp [Wm.Registered, same, found]
  | takeDestroy =>
    have routes := State.routes_of_ne (s := s) (by simp [here])
    simp only [here] at taken
    split at taken
    next =>
      cases taken
      exact kept rfl routes.symm
    next other took =>
      cases taken
      rw [routes]
      constructor
      · intro framed
        rcases s.desk.unframe_cases other with ⟨same, -⟩ | ⟨i, win, -, -, windows, -⟩
        · exact .inl (same ▸ framed)
        · unfold Desk.framed at framed
          rw [windows] at framed
          exact .inl (((List.eraseIdx_sublist _ _).filterMap _).subset framed)
      · exact Desk.focusedClient_unframe
  | pointer =>
    have routes := State.routes_of_ne (s := s) (by simp [here])
    simp only [here] at taken
    cases taken
    cases done : s.desk.point s.screen slot with
    | error panic =>
      rw [done] at kept
      exact kept rfl routes.symm
    | ok next =>
      obtain ⟨left, pointed⟩ := point_pointed done
      rw [routes]
      exact ⟨fun framed => .inl (pointed.framed.mem_iff.mp framed),
        fun focused => pointed.focusedClient.symm.trans focused⟩
  | destroying i =>
    have routes := State.routes_of_ne (s := s) (by simp [here])
    simp only [here] at taken
    split at taken
    next =>
      cases taken
      exact kept rfl routes.symm
    next win at' =>
      cases taken
      rw [routes]
      exact ⟨fun framed => .inl (((List.eraseIdx_sublist _ _).filterMap _).subset framed),
        Desk.focusedClient_of_unfocus⟩
  | routing =>
    have routes : s.routes = s.desk.topClient := by rw [State.routes, here]
    simp only [here] at taken
    cases taken
    exact kept (Desk.framed_switch s.desk) ((Desk.focusedClient_switch s.desk).trans routes.symm)
  | closing i =>
    have routes := State.routes_of_ne (s := s) (by simp [here])
    simp only [here] at taken
    split at taken <;> cases taken <;> exact kept rfl routes.symm
  | switching queue =>
    have routes := State.routes_of_ne (s := s) (by simp [here])
    cases queue <;> simp only [here] at taken <;> cases taken <;> exact kept rfl routes.symm
  | keys cid =>
    have routes := State.routes_of_ne (s := s) (by simp [here])
    cases ch <;> simp only [here] at taken <;> cases taken <;> exact kept rfl routes.symm
  | reporting cid queue =>
    have routes := State.routes_of_ne (s := s) (by simp [here])
    cases queue <;> simp only [here] at taken <;> cases taken <;> exact kept rfl routes.symm
  | takeNew | top | placing other x y | moving other x y | greeting other | sleeping =>
    have routes := State.routes_of_ne (s := s) (by simp [here])
    simp only [here] at taken
    cases taken
    exact kept rfl routes.symm
  | panicked panic => simp [here] at taken

end Desks

end PickleOS.Windows
