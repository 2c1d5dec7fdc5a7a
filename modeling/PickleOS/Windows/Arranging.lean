import PickleOS.Windows.Compositor
import Mathlib.Data.List.Perm.Basic

set_option autoImplicit false

namespace PickleOS.Windows

open Shared Shared.Checked

structure Moved (win win' : Window) : Prop where
  kind : win'.kind = win.kind
  clientId : win'.clientId = win.clientId
  serial : win'.serial = win.serial

inductive Pressed (d : Desk) : Desk → Pc → Prop
  | kept : Pressed d d .routing
  | opened (make : Nat → Window) (kind : ∀ n, (make n).kind = .terminal) (serial : ∀ n, (make n).serial = n) :
      Pressed d (d.push make) .routing
  | asked (i : Nat) : Pressed d d (.closing i)
  | removed (i : Nat) (win : Window) (at' : d.windows[i]? = some win) (kind : win.kind ≠ .client) :
    Pressed d (d.remove i) .routing
  | raised (i : Nat) (win : Window) (at' : d.windows[i]? = some win) : Pressed d (d.raise i win) .routing

inductive Pointed (d : Desk) : Desk → Pc → Prop
  | kept : Pointed d d .routing
  | dragged (init : List Window) (win win' : Window) (moved : Moved win win')
    (windows : d.windows = init ++ [win]) (pc : Pc)
      (next : pc = .routing ∨ ∃ id x y, pc = .moving id x y) : Pointed d { d with windows := init ++ [win'] } pc
  | released : Pointed d { d with dragging := none } .routing
  | pressed (free : d.dragging = none) {d' : Desk} {pc : Pc} (pressed : Pressed d d' pc) : Pointed d d' pc

def Window.client (win : Window) : Option WindowId := if win.kind = .client then some win.clientId else none

def Desk.framed (d : Desk) : List WindowId := d.windows.filterMap Window.client

variable {d d' : Desk} {screen : Screen} {slot : Option Nat} {pc : Pc}

theorem click_pressed {i : Nat} (done : d.click i = .ok (d', pc)) : Pressed d d' pc := by
  obtain ⟨win, found, done⟩ := bind_ok done
  have at' := elemAt_eq_ok.mp found
  split at done
  · by_cases client : win.kind = .client
    · simp only [client, if_true] at done
      cases done
      exact .asked i
    · simp only [client, if_false] at done
      cases done
      exact .removed i win at' client
  · cases done
    exact .raised i win at'

theorem press_pressed (done : d.press screen slot = .ok (d', pc)) : Pressed d d' pc := by
  unfold Desk.press at done
  split at done
  · split at done
    next id =>
      obtain ⟨opened, made, done⟩ := bind_ok done
      cases done
      obtain ⟨wx, -, made⟩ := bind_ok made
      obtain ⟨wy, -, made⟩ := bind_ok made
      cases made
      exact .opened _ (fun _ => rfl) fun _ => rfl
    next =>
      cases done
      exact .kept
  · split at done
    next => exact click_pressed done
    next =>
      cases done
      exact .kept

theorem drag_pointed {offset : Drag} {moved : Option (WindowId × Int32 × Int32)}
    (done : d.drag screen offset = .ok (d', moved)) :
    ∃ init win win', Moved win win' ∧ d.windows = init ++ [win] ∧
    d' = { d with windows := init ++ [win'] } := by
  unfold Desk.drag at done
  split at done
  · cases done
  next win last =>
    obtain ⟨x, -, done⟩ := bind_ok done
    obtain ⟨y, -, done⟩ := bind_ok done
    cases done
    refine ⟨d.windows.dropLast, win, { win with x := x, y := y }, ⟨rfl, rfl, rfl⟩, ?_, rfl⟩
    exact (List.dropLast_append_getLast? win last).symm

theorem point_pointed (done : d.point screen slot = .ok (d', pc)) :
    ∃ left, Pointed { d with prevLeft := left } d' pc := by
  unfold Desk.point at done
  split at done
  · refine ⟨d.m.left, ?_⟩
    dsimp only at done
    split at done
    next offset grabbed =>
      split at done
      · obtain ⟨⟨moved, place⟩, dragged, done⟩ := bind_ok done
        obtain ⟨init, win, win', same, windows, rfl⟩ := drag_pointed dragged
        cases done
        refine .dragged init win win' same windows _ ?_
        cases place with
        | none => exact .inl rfl
        | some place => exact .inr ⟨place.1, place.2.1, place.2.2, rfl⟩
      · cases done
        exact .released
    next free =>
      split at done
      · refine .pressed ?_ (press_pressed done)
        exact free
      · cases done
        exact .kept
  · cases done
    exact ⟨d.prevLeft, .kept⟩

theorem Moved.client {win win' : Window} (moved : Moved win win') : win'.client = win.client := by
  simp only [Window.client, moved.kind, moved.clientId]

theorem Window.client_of_frames {win : Window} {id : WindowId} : win.frames id ↔ win.client = some id := by
  simp [Window.frames, Window.client]

@[simp] theorem Desk.framed_push (make : Nat → Window) :
  (d.push make).framed = d.framed ++ (make d.serials).client.toList := by
  simp only [Desk.framed, Desk.push, List.filterMap_append, List.filterMap_cons, List.filterMap_nil]
  cases (make d.serials).client <;> rfl

theorem Desk.framed_eraseIdx {i : Nat} {win : Window} (at' : d.windows[i]? = some win) :
    (win.client.toList ++ (d.windows.eraseIdx i).filterMap Window.client).Perm d.framed := by
  obtain ⟨inside, rfl⟩ := List.getElem?_eq_some_iff.mp at'
  have perm := (List.getElem_cons_eraseIdx_perm inside).filterMap Window.client
  rw [List.filterMap_cons] at perm
  cases client : d.windows[i].client with
  | none => simpa [Desk.framed, client] using perm
  | some id => simpa [Desk.framed, client] using perm

theorem Desk.framed_raise {i : Nat} {win : Window} (at' : d.windows[i]? = some win) :
    (d.raise i win).framed.Perm d.framed := by
  refine List.Perm.trans ?_ (Desk.framed_eraseIdx at')
  simp only [Desk.framed, Desk.raise, List.filterMap_append, List.filterMap_cons, List.filterMap_nil]
  cases win.client with
  | none => simp
  | some id => exact List.perm_append_comm

theorem Pointed.framed (pointed : Pointed d d' pc) : d'.framed.Perm d.framed := by
  cases pointed with
  | kept => rfl
  | dragged init win win' moved windows pc next =>
    simp only [Desk.framed, windows, List.filterMap_append, List.filterMap_cons, moved.client]
    rfl
  | released => rfl
  | pressed free pressed =>
    cases pressed with
    | kept => rfl
    | opened make kind serial =>
      have none : (make d.serials).client = none := by simp [Window.client, kind]
      simp [none]
    | asked => rfl
    | removed i win at' kind =>
      have none : win.client = none := by simp [Window.client, kind]
      have perm := Desk.framed_eraseIdx at'
      rw [none] at perm
      exact perm
    | raised i win at' => exact Desk.framed_raise at'

theorem Desk.windows_switch (d : Desk) : d.switch.1.windows = d.windows := by
  unfold Desk.switch
  split <;> rfl

theorem Desk.framed_switch (d : Desk) : d.switch.1.framed = d.framed :=
  by rw [Desk.framed, d.windows_switch, Desk.framed]

theorem Desk.unframe_cases (d : Desk) (id : WindowId) :
    d.unframe id = d ∧ id ∉ d.framed ∨
      ∃ i win, d.windows[i]? = some win ∧ win.client = some id ∧ (d.unframe id).windows = d.windows.eraseIdx i ∧
        (d.unframe id).dragging = d.dragging ∧ (d.unframe id).serials = d.serials := by
  unfold Desk.unframe
  split
  next absent =>
    refine .inl ⟨rfl, fun member => ?_⟩
    obtain ⟨win, inside, client⟩ := List.mem_filterMap.mp member
    have none := List.findIdx?_eq_none_iff.mp absent win inside
    simp [Window.client_of_frames.mpr client] at none
  next i found =>
    obtain ⟨inside, frames, -⟩ := List.findIdx?_eq_some_iff_getElem.mp found
    exact .inr ⟨i, d.windows[i], List.getElem?_eq_getElem inside, Window.client_of_frames.mp frames, rfl,
      rfl, rfl⟩

theorem frame_pushes {id : WindowId} {size : Nat × Nat × String}
    {x y : Int32} (done : d.frame screen id size = .ok (d', x, y)) :
    ∃ make : Nat → Window, d' = d.push make ∧ (∀ n, (make n).client = some id) ∧ ∀ n,
      (make n).serial = n := by
  obtain ⟨place, -, done⟩ := bind_ok done
  cases done
  exact ⟨_, rfl, fun _ => rfl, fun _ => rfl⟩

end PickleOS.Windows
