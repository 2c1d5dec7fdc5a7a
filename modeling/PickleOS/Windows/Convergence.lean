import PickleOS.Windows.Arranging
import PickleOS.Shared.Mirror

set_option autoImplicit false

namespace PickleOS.Windows

open Shared Shared.Machine

def Wm.ids (wm : Wm) : Set WindowId := { id | wm.Registered id }

def Wm.used (wm : Wm) : Set WindowId := { id | id < wm.nextId }

/-- The window whose notice the compositor holds. -/
def Pc.held : Pc → List WindowId
  | .sizing id => [id]
  | _ => []

@[simp] theorem Pc.held_sizing (id : WindowId) : (Pc.sizing id).held = [id] := rfl

namespace State

/-- The windows on their way to the desk, and on it. -/
def coming (s : State) : List WindowId := s.wm.pendingNew ++ s.pc.held ++ s.desk.framed

def Mirrors (s : State) : Prop :=
  Mirror s.wm.used s.wm.ids s.coming s.desk.framed s.wm.pendingDestroy s.tookNew s.tookDestroy

end State

section Calls

variable {wm wm' : Wm}

theorem Keeps.ids (keeps : Keeps wm wm') : wm'.ids = wm.ids := Set.ext keeps.registered

theorem Keeps.used (keeps : Keeps wm wm') : wm'.used = wm.used := by rw [Wm.used, keeps.nextId, Wm.used]

theorem Takes.ids (takes : Takes wm wm') : wm'.ids = wm.ids := Set.ext takes.registered

theorem Takes.used (takes : Takes wm wm') : wm'.used = wm.used := by rw [Wm.used, takes.nextId, Wm.used]

theorem Creates.ids (creates : Creates wm wm') : wm'.ids = insert wm.nextId wm.ids := by
  ext id
  rw [Set.mem_insert_iff, or_comm]
  exact creates.registered id

theorem Creates.used (creates : Creates wm wm') : wm'.used = insert wm.nextId wm.used := by
  ext id
  change id < wm'.nextId ↔ id = wm.nextId ∨ id < wm.nextId
  rw [creates.nextId, Nat.lt_succ_iff, Nat.le_iff_lt_or_eq, or_comm]

theorem Destroys.ids {ids : List WindowId} (destroys : Destroys ids wm wm') :
    wm'.ids = { id | id ∈ wm.ids ∧ id ∉ ids } :=
  Set.ext destroys.registered

theorem Destroys.used {ids : List WindowId} (destroys : Destroys ids wm wm') : wm'.used = wm.used := by
  rw [Wm.used, destroys.nextId, Wm.used]

end Calls

variable {s t : State}

namespace State.Mirrors

theorem boot (screen : Screen) (tester : TaskId) (primary : Nat) :
    (State.boot screen tester primary).Mirrors := by
  have none : (State.boot screen tester primary).wm.ids = ∅ := by
    ext id
    simp [Wm.ids, Wm.Registered, Wm.window, State.boot, Wm.initial]
  rw [State.Mirrors, none]
  exact Mirror.empty _

theorem keeps (mirrors : s.Mirrors) (keeps : Keeps s.wm t.wm) (held : t.pc.held = s.pc.held)
    (framed : t.desk.framed.Perm s.desk.framed)
    (tookNew : t.tookNew = s.tookNew) (tookDestroy : t.tookDestroy = s.tookDestroy) : t.Mirrors := by
  unfold State.Mirrors State.coming
  rw [keeps.ids, keeps.used, keeps.pendingNew, keeps.pendingDestroy, held, tookNew, tookDestroy]
  exact mirrors.perm (framed.append_left _) framed

theorem destroys {ids : List WindowId} {wm : Wm} (mirrors : s.Mirrors) (destroys : Destroys ids s.wm wm) :
    { s with wm := wm }.Mirrors := by
  unfold State.Mirrors State.coming
  rw [destroys.ids, destroys.used, destroys.pendingNew, destroys.pendingDestroy]
  exact mirrors.unregister destroys.were

theorem creates {wm : Wm} (mirrors : s.Mirrors) (creates : Creates s.wm wm) : { s with wm := wm }.Mirrors := by
  unfold State.Mirrors State.coming
  rw [creates.ids, creates.used, creates.pendingNew, creates.pendingDestroy]
  refine (mirrors.register (Nat.lt_irrefl _)).perm ?_ (.refl _)
  simp only [State.coming, List.append_assoc, List.singleton_append]
  exact List.perm_middle

theorem holds {id : WindowId} {rest : List WindowId} {wm : Wm} (mirrors : s.Mirrors)
    (none : s.pc.held = []) (takes : Takes s.wm wm)
    (waiting : s.wm.pendingNew = id :: rest) (pendingNew : wm.pendingNew = rest)
    (pendingDestroy : wm.pendingDestroy = s.wm.pendingDestroy) :
    { s with wm := wm, pc := .sizing id }.Mirrors := by
  unfold State.Mirrors State.coming
  rw [takes.ids, takes.used, pendingNew, pendingDestroy]
  refine Mirror.perm mirrors ?_ (.refl _)
  simp only [State.coming, waiting, none, Pc.held_sizing, List.append_nil, List.append_assoc, List.cons_append]
  exact List.perm_middle

theorem frames {id : WindowId} {desk : Desk} {pc : Pc} (mirrors : s.Mirrors) (here : s.pc = .sizing id)
    (registered : s.wm.Registered id)
    (held : pc.held = []) (framed : desk.framed.Perm (id :: s.desk.framed)) :
      { s with desk := desk, pc := pc }.Mirrors := by
  refine (Mirror.add mirrors registered).perm ?_ framed
  simp only [State.coming, here, held, Pc.held_sizing, List.append_nil, List.append_assoc]
  exact framed.append_left _

theorem drops {id : WindowId} {pc : Pc} (mirrors : s.Mirrors) (here : s.pc = .sizing id)
    (gone : ¬s.wm.Registered id)
    (held : pc.held = []) : (s.goto pc).Mirrors := by
  have front : Mirror s.wm.used s.wm.ids (id :: (s.goto pc).coming)
    s.desk.framed s.wm.pendingDestroy s.tookNew s.tookDestroy := by
    refine mirrors.perm ?_ (.refl _)
    simp only [State.coming, State.goto, here, held, Pc.held_sizing, List.append_nil, List.append_assoc,
      List.singleton_append]
    exact List.perm_middle.symm
  exact front.forget gone (List.Subset.refl _)

theorem closes {id : WindowId} {desk : Desk} {pc : Pc} (mirrors : s.Mirrors) (held : pc.held = s.pc.held)
    (gone : ¬s.wm.Registered id)
    (framed : (id :: desk.framed).Perm s.desk.framed) : { s with desk := desk, pc := pc }.Mirrors := by
  have front : Mirror s.wm.used s.wm.ids (id :: (s.wm.pendingNew ++ pc.held ++ desk.framed))
    s.desk.framed s.wm.pendingDestroy
      s.tookNew s.tookDestroy := by
    refine mirrors.perm ?_ (.refl _)
    simp only [State.coming, held]
    exact List.perm_middle.symm.trans (framed.append_left _)
  exact front.forget gone fun other member => framed.mem_iff.mp (.tail id member)

theorem acknowledges {id : WindowId} {rest : List WindowId} {wm : Wm} {pc : Pc} (mirrors : s.Mirrors)
    (held : pc.held = s.pc.held)
    (takes : Takes s.wm wm) (waiting : s.wm.pendingDestroy = id :: rest)
    (pendingDestroy : wm.pendingDestroy = rest)
    (pendingNew : wm.pendingNew = s.wm.pendingNew) (absent : id ∉ s.desk.framed) :
      { s with wm := wm, pc := pc }.Mirrors := by
  unfold State.Mirrors State.coming
  rw [takes.ids, takes.used, pendingNew, pendingDestroy, held]
  unfold State.Mirrors at mirrors
  rw [waiting] at mirrors
  exact mirrors.acknowledge absent

theorem unframes {id : WindowId} {rest : List WindowId} {wm : Wm} {pc : Pc} (mirrors : s.Mirrors)
    (held : pc.held = s.pc.held)
    (takes : Takes s.wm wm) (waiting : s.wm.pendingDestroy = id :: rest)
    (pendingDestroy : wm.pendingDestroy = rest)
    (pendingNew : wm.pendingNew = s.wm.pendingNew) :
      { s with wm := wm, desk := s.desk.unframe id, pc := pc }.Mirrors := by
  have gone : ¬s.wm.Registered id := (Mirror.gone mirrors id (by rw [waiting]; exact .head _)).2
  rcases s.desk.unframe_cases id with ⟨same, absent⟩ | ⟨i, win, at', client, windows, -⟩
  · rw [same]
    exact mirrors.acknowledges held takes waiting pendingDestroy pendingNew absent
  · have framed : (id :: (s.desk.unframe id).framed).Perm s.desk.framed := by
      have perm := Desk.framed_eraseIdx at'
      rw [← windows, client] at perm
      exact perm
    have closed : { s with desk := s.desk.unframe id, pc := pc }.Mirrors := mirrors.closes held gone framed
    refine closed.acknowledges rfl takes waiting pendingDestroy pendingNew fun member => ?_
    have once : s.desk.framed.Nodup := (List.nodup_append.mp mirrors.once).2.1
    exact (List.nodup_cons.mp (framed.nodup_iff.mpr once)).1 member

theorem shuts {i : Nat} {win : Window} {desk : Desk} {pc : Pc} (mirrors : s.Mirrors)
    (held : pc.held = s.pc.held)
    (at' : s.desk.windows[i]? = some win) (windows : desk.windows = s.desk.windows.eraseIdx i) :
    { s with wm := (s.wm.destroyWindow win.clientId).2, desk := desk, pc := pc }.Mirrors := by
  obtain ⟨ids, destroys, -⟩ := destroyWindow_destroys s.wm win.clientId
  have destroyed := mirrors.destroys destroys
  have perm := Desk.framed_eraseIdx at'
  rw [← windows] at perm
  cases client : win.client with
  | none =>
    rw [client] at perm
    exact destroyed.keeps (.refl _) held perm rfl rfl
  | some id =>
    have same : win.clientId = id := by
      unfold Window.client at client
      split at client
      · exact Option.some.inj client
      · cases client
    rw [client] at perm
    refine destroyed.closes held ?_ perm
    rw [← same]
    exact not_registered_destroyed

end State.Mirrors

theorem Pointed.held {d d' : Desk} {pc : Pc} (pointed : Pointed d d' pc) : pc.held = [] := by
  cases pointed with
  | kept => rfl
  | dragged init win win' moved windows pc next => rcases next with rfl | ⟨id, x, y, rfl⟩ <;> rfl
  | released => rfl
  | pressed free pressed => cases pressed <;> rfl

/-- The compositor runs, and the windows are where they should be. -/
def Running (s : State) : Prop := (∀ panic, s.pc ≠ .panicked panic) → s.Mirrors

theorem compositor_keeps {slot : Option Nat} {ch : Option Char} (inv : Running s)
    (taken : s.compositor slot ch = some t) : Running t := by
  intro runs
  have mirrors : s.Mirrors := by
    refine inv fun panic here => ?_
    simp [State.compositor, here] at taken
  unfold State.compositor at taken
  cases here : s.pc with
  | takeNew =>
    simp only [here] at taken
    obtain ⟨takes, answer, pendingNew, pendingDestroy⟩ := takePendingNew_takes s.wm
    cases taken
    cases waiting : s.wm.pendingNew with
    | nil =>
      simp only [answer, waiting]
      exact mirrors.keeps (takePendingNew_none waiting) (by rw [here]; rfl) (.refl _) rfl rfl
    | cons id rest =>
      simp only [answer, waiting]
      exact mirrors.holds (by rw [here]; rfl) takes waiting (by rw [pendingNew, waiting]; rfl) pendingDestroy
  | sizing id =>
    simp only [here] at taken
    split at taken
    next gone =>
      cases taken
      refine mirrors.drops here ?_ rfl
      simpa [Wm.windowSizeTitle, Wm.Registered] using gone
    next size found =>
      have registered : s.wm.Registered id := by
        obtain ⟨win, found, -⟩ := Option.map_eq_some_iff.mp found
        simp [Wm.Registered, found]
      cases taken
      cases framed : s.desk.frame s.screen id size with
      | error panic =>
        rw [framed] at runs
        exact absurd rfl (runs panic)
      | ok next =>
        obtain ⟨desk, x, y⟩ := next
        obtain ⟨make, rfl, client, -⟩ := frame_pushes framed
        refine mirrors.frames here registered rfl ?_
        rw [Desk.framed_push, client]
        exact List.perm_append_comm
  | takeDestroy =>
    simp only [here] at taken
    obtain ⟨takes, answer, pendingDestroy, pendingNew⟩ := takePendingDestroy_takes s.wm
    cases waiting : s.wm.pendingDestroy with
    | nil =>
      simp only [answer, waiting] at taken
      cases taken
      exact mirrors.keeps (takePendingDestroy_none waiting) (by rw [here]; rfl) (.refl _) rfl rfl
    | cons id rest =>
      simp only [answer, waiting] at taken
      cases taken
      exact mirrors.unframes (by rw [here]) takes waiting (by rw [pendingDestroy, waiting]; rfl) pendingNew
  | pointer =>
    simp only [here] at taken
    cases taken
    cases pointed : s.desk.point s.screen slot with
    | error panic =>
      rw [pointed] at runs
      exact absurd rfl (runs panic)
    | ok next =>
      obtain ⟨left, pointed⟩ := point_pointed pointed
      exact mirrors.keeps (.refl _) (by rw [here]; exact pointed.held) pointed.framed rfl rfl
  | closing i =>
    simp only [here] at taken
    split at taken
    next =>
      cases taken
      exact absurd rfl (runs .bounds)
    next win at' =>
      cases taken
      exact mirrors.keeps (.pushEvent _) (by rw [here]; rfl) (.refl _) rfl rfl
  | destroying i =>
    simp only [here] at taken
    split at taken
    next =>
      cases taken
      exact absurd rfl (runs .bounds)
    next win at' =>
      cases taken
      exact mirrors.shuts (by rw [here]; rfl) at' rfl
  | routing =>
    simp only [here] at taken
    cases taken
    exact mirrors.keeps (.refl _) (by rw [here]; rfl) (s.desk.framed_switch ▸ .refl _) rfl rfl
  | switching queue =>
    cases queue with
    | nil =>
      simp only [here] at taken
      cases taken
      refine mirrors.keeps (.refl _) ?_ (.refl _) rfl rfl
      rw [here, State.goto]
      cases s.desk.topClient <;> rfl
    | cons first rest =>
      simp only [here] at taken
      cases taken
      exact mirrors.keeps (.pushEvent _) (by rw [here]; rfl) (.refl _) rfl rfl
  | keys cid =>
    cases ch with
    | none =>
      simp only [here] at taken
      cases taken
      exact mirrors.keeps (.refl _) (by rw [here]; rfl) (.refl _) rfl rfl
    | some ch =>
      simp only [here] at taken
      cases taken
      exact mirrors.keeps (.pushEvent _) (by rw [here]) (.refl _) rfl rfl
  | reporting cid queue =>
    cases queue with
    | nil =>
      simp only [here] at taken
      cases taken
      exact mirrors.keeps (.refl _) (by rw [here]; rfl) (.refl _) rfl rfl
    | cons first rest =>
      simp only [here] at taken
      cases taken
      exact mirrors.keeps (.pushEvent _) (by rw [here]; rfl) (.refl _) rfl rfl
  | placing id x y | moving id x y =>
    simp only [here] at taken
    cases taken
    exact mirrors.keeps (.setPosition x y) (by rw [here]; rfl) (.refl _) rfl rfl
  | greeting id =>
    simp only [here] at taken
    cases taken
    exact mirrors.keeps (.pushEvent _) (by rw [here]; rfl) (.refl _) rfl rfl
  | top | sleeping =>
    simp only [here] at taken
    cases taken
    exact mirrors.keeps (.refl _) (by rw [here]; rfl) (.refl _) rfl rfl
  | panicked panic => simp [here] at taken

inductive Tested (s : State) : State → Prop
  | keeps (wm : Wm) (test : Selftest) (keeps : Keeps s.wm wm) : Tested s { s with wm := wm, test := test }
  | creates (wm : Wm) (test : Selftest) (creates : Creates s.wm wm) : Tested s { s with wm := wm, test := test }
  | destroys (wm : Wm) (test : Selftest) (ids : List WindowId) (destroys : Destroys ids s.wm wm) :
      Tested s { s with wm := wm, test := test }
  | takesNew (wm : Wm) (id : WindowId) (takes : Takes s.wm wm) (waiting : s.wm.pendingNew = id :: wm.pendingNew)
      (pendingDestroy : wm.pendingDestroy = s.wm.pendingDestroy) :
        Tested s { s with wm := wm, tookNew := id :: s.tookNew }
  | takesDestroy (wm : Wm) (test : Selftest) (id : WindowId) (takes : Takes s.wm wm)
    (pendingNew : wm.pendingNew = s.wm.pendingNew)
      (waiting : s.wm.pendingDestroy = id :: wm.pendingDestroy) :
      Tested s { s with wm := wm, test := test, tookDestroy := id :: s.tookDestroy }

theorem selftest_tested (taken : s.selftest = some t) : Tested s t := by
  unfold State.selftest at taken
  cases here : s.test.pc with
  | create =>
    simp only [here] at taken
    cases taken
    rcases createWindow_effect s.wm s.test.owner 64 32 "selftest" with keeps | creates
    · exact .keeps _ _ keeps
    · exact .creates _ _ creates
  | drainNew id =>
    simp only [here] at taken
    obtain ⟨takes, answer, pendingNew, pendingDestroy⟩ := takePendingNew_takes s.wm
    split at taken
    next id wm took =>
      cases taken
      rw [took] at takes answer pendingNew pendingDestroy
      refine .takesNew wm id takes ?_ pendingDestroy
      rw [pendingNew]
      exact List.eq_cons_of_mem_head? answer.symm
    next wm took =>
      cases taken
      rw [took] at answer
      have keeps := takePendingNew_none (List.head?_eq_none_iff.mp answer.symm)
      rw [took] at keeps
      exact .keeps _ _ keeps
  | drainDestroy id =>
    simp only [here] at taken
    obtain ⟨takes, answer, pendingDestroy, pendingNew⟩ := takePendingDestroy_takes s.wm
    split at taken
    next id wm took =>
      cases taken
      rw [took] at takes answer pendingNew pendingDestroy
      refine .takesDestroy wm _ id takes pendingNew ?_
      rw [pendingDestroy]
      exact List.eq_cons_of_mem_head? answer.symm
    next wm took =>
      cases taken
      rw [took] at answer
      have keeps := takePendingDestroy_none (List.head?_eq_none_iff.mp answer.symm)
      rw [took] at keeps
      exact .keeps _ _ keeps
  | destroy id =>
    simp only [here] at taken
    cases taken
    obtain ⟨ids, destroys, -⟩ := destroyWindow_destroys s.wm id
    exact .destroys _ _ ids destroys
  | commit id before =>
    simp only [here] at taken
    cases taken
    exact .keeps _ _ (.commit _)
  | poll id polled =>
    simp only [here] at taken
    cases taken
    exact .keeps _ _ .pollEvent
  | pushKey id | pushMouse id =>
    simp only [here] at taken
    cases taken
    exact .keeps _ _ (.pushEvent _)
  | isOwner id | windowInfo id | dirty id | dirtied id before | gone id =>
    simp only [here] at taken
    cases taken
    exact .keeps s.wm _ (.refl _)
  | done => simp [here] at taken

theorem Tested.mirrors (mirrors : s.Mirrors) (tested : Tested s t) : t.Mirrors := by
  cases tested with
  | keeps wm test keeps => exact mirrors.keeps keeps rfl (.refl _) rfl rfl
  | creates wm test creates => exact mirrors.creates creates
  | destroys wm test ids destroys => exact mirrors.destroys destroys
  | takesNew wm id takes waiting pendingDestroy =>
    unfold State.Mirrors State.coming
    rw [takes.ids, takes.used, pendingDestroy]
    unfold State.Mirrors State.coming at mirrors
    rw [waiting] at mirrors
    exact mirrors.loseNew
  | takesDestroy wm test id takes pendingNew waiting =>
    unfold State.Mirrors State.coming
    rw [takes.ids, takes.used, pendingNew]
    unfold State.Mirrors at mirrors
    rw [waiting] at mirrors
    exact mirrors.loseGone

theorem Tested.same (tested : Tested s t) : t.desk = s.desk ∧ t.pc = s.pc := by
  cases tested <;> exact ⟨rfl, rfl⟩

theorem Running.kept {a : Action} (inv : Running s) (taken : step s a = some t) : Running t := by
  cases a with
  | compositor slot ch => exact compositor_keeps inv taken
  | selftest =>
    intro runs
    have tested := selftest_tested taken
    exact tested.mirrors (inv (tested.same.2 ▸ runs))
  | mouse x y left =>
    cases taken
    exact fun runs => (inv runs).keeps (.refl _) rfl (.refl _) rfl rfl
  | createWindow owner w h title =>
    cases taken
    intro runs
    rcases createWindow_effect s.wm owner w h title with keeps | creates
    · exact (inv runs).keeps keeps rfl (.refl _) rfl rfl
    · exact (inv runs).creates creates
  | destroyWindow id =>
    cases taken
    obtain ⟨ids, destroys, -⟩ := destroyWindow_destroys s.wm id
    exact fun runs => (inv runs).destroys destroys
  | destroyWindowsOwnedBy owner =>
    cases taken
    obtain ⟨ids, destroys⟩ := destroyOwned_destroys s.wm owner
    exact fun runs => (inv runs).destroys destroys
  | commit id src =>
    cases taken
    exact fun runs => (inv runs).keeps (.commit src) rfl (.refl _) rfl rfl
  | setTitle id title =>
    cases taken
    exact fun runs => (inv runs).keeps (.setTitle title) rfl (.refl _) rfl rfl
  | pollEvent id =>
    cases taken
    exact fun runs => (inv runs).keeps .pollEvent rfl (.refl _) rfl rfl

theorem Running.of_run {screen : Screen} {tester : TaskId} {primary : Nat}
    (run : Reaches step (fun _ _ => True) (.boot screen tester primary) s) : Running s :=
  run.invariant (fun _ => .boot screen tester primary) fun _ _ _ inv _ taken => inv.kept taken

/-- At the end of a reconcile pass that leaves no notice behind, the desk has a window for each
client in the registry and for no other, but for the clients whose notices the self-test took off a
queue. -/
theorem windows_converge {screen : Screen} {tester : TaskId} {primary : Nat}
    (run : Reaches step (fun _ _ => True) (.boot screen tester primary) s) (pass : s.pc = .pointer)
    (noNew : s.wm.pendingNew = [])
    (noDestroy : s.wm.pendingDestroy = []) :
    s.desk.framed.Nodup ∧ (∀ id, s.wm.Registered id → id ∈ s.desk.framed ∨ id ∈ s.tookNew) ∧
      ∀ id ∈ s.desk.framed, s.wm.Registered id ∨ id ∈ s.tookDestroy := by
  have mirrors : s.Mirrors := Running.of_run run fun panic here => by simp [pass] at here
  unfold State.Mirrors at mirrors
  have coming : s.coming = s.desk.framed := by rw [State.coming, noNew, pass]; rfl
  rw [coming, noDestroy] at mirrors
  exact mirrors.agrees

def State.first (s : State) : Pc × List WindowId × List WindowId × List WindowId × Bool :=
  (s.pc, s.wm.pendingNew, s.wm.pendingDestroy, s.desk.framed, (s.wm.window 1).isSome)

def pass (steps : Nat) : List Action := List.replicate steps (.compositor none none)

theorem windows_converge_framed : ∃ s : State, s.wm.Registered 1 ∧ s.desk.framed.Nodup ∧
    (∀ id, s.wm.Registered id → id ∈ s.desk.framed ∨ id ∈ s.tookNew) ∧
      ∀ id ∈ s.desk.framed, s.wm.Registered id ∨ id ∈ s.tookDestroy := by
  have ends : (run step (.boot ⟨1280, 720⟩ 5 0) (.createWindow 7 160 120 "demo client" :: pass 7)).map
    State.first =
      some (.pointer, [], [], [1], true) := by decide
  obtain ⟨s, done, here⟩ := Option.map_eq_some_iff.mp ends
  simp only [State.first, Prod.mk.injEq] at here
  obtain ⟨pass, noNew, noDestroy, framed, registered⟩ := here
  exact ⟨s, registered, windows_converge (Reaches.of_run .start done) pass noNew noDestroy⟩

/-- The self-test has made its window and taken its own notice when the compositor ends a pass. -/
theorem selftest_unframed : ∃ s, Reaches step (fun _ _ => True) (.boot ⟨1280, 720⟩ 5 0) s ∧ s.pc = .pointer ∧
    s.wm.pendingNew = [] ∧ s.wm.pendingDestroy = [] ∧ ¬∀ id, id ∈ s.desk.framed ↔ s.wm.Registered id := by
  have ends : (run step (.boot ⟨1280, 720⟩ 5 0) (.selftest :: .selftest :: pass 3)).map State.first =
      some (.pointer, [], [], [], true) := by decide
  obtain ⟨s, done, here⟩ := Option.map_eq_some_iff.mp ends
  simp only [State.first, Prod.mk.injEq] at here
  obtain ⟨pass, noNew, noDestroy, framed, registered⟩ := here
  refine ⟨s, Reaches.of_run .start done, pass, noNew, noDestroy, fun same => ?_⟩
  have member := (same 1).mpr registered
  rw [framed] at member
  cases member

end PickleOS.Windows
