import PickleOS.Shared.Map
import Mathlib.Data.List.Sort

set_option autoImplicit false

namespace PickleOS.Windows

open Shared

/-- `NEXT_ID` is an `AtomicU64`: ids are numbers, as long as fewer than 2^64 windows have been made. -/
abbrev WindowId := Nat
abbrev TaskId := Nat

def maxW : Nat := 320
def maxH : Nat := 240
def maxWindows : Nat := 16

structure WmEvent where
  kind : UInt32
  x : Int32
  y : Int32
  arg : UInt32

structure ServerWindow where
  id : WindowId
  owner : TaskId
  x : Int32 := 0
  y : Int32 := 0
  w : Nat
  h : Nat
  title : String
  pixels : List UInt32
  bufSeq : UInt64 := 0
  events : List WmEvent := []

structure WmState where
  windows : Map WindowId ServerWindow
  pendingNew : List WindowId
  pendingDestroy : List WindowId

structure Wm where
  -- `none` before `init`.
  state : Option WmState
  nextId : WindowId
  dirty : UInt64

namespace WmState

variable (s : WmState)

/-- The ids that the loop of `destroy_windows_owned_by` collects, from the lowest to the highest. -/
def idsOf (owner : TaskId) : List WindowId :=
  ((s.windows.entries.filter fun entry => entry.2.owner = owner).map Sigma.fst).insertionSort (· ≤ ·)

def destroy (id : WindowId) : WmState :=
  { s with windows := s.windows.erase id, pendingDestroy := s.pendingDestroy ++ [id] }

end WmState

namespace Wm

variable (wm : Wm)

def initial : Wm where
  state := some { windows := ∅, pendingNew := [], pendingDestroy := [] }
  nextId := 1
  dirty := 0

def bumpDirty : Wm := { wm with dirty := wm.dirty + 1 }

def createWindow (owner : TaskId) (w h : Nat) (title : String) : Option WindowId × Wm :=
  if w = 0 ∨ h = 0 then (none, wm)
  else
    let w := min w maxW
    let h := min h maxH
    match wm.state with
    | none => (none, wm)
    | some s =>
      if maxWindows ≤ s.windows.entries.length then (none, wm)
      else
        let id := wm.nextId
        let window : ServerWindow :=
          { id := id, owner := owner, w := w, h := h, title := title, pixels := List.replicate (w * h) 0 }
        let s := { s with windows := s.windows.insert id window, pendingNew := s.pendingNew ++ [id] }
        (some id, { wm with state := some s, nextId := id + 1 }.bumpDirty)

def destroyWindowsOwnedBy (owner : TaskId) : Nat × Wm :=
  match wm.state with
  | none => (0, wm)
  | some s =>
    let ids := s.idsOf owner
    let swept := { wm with state := some (ids.foldl WmState.destroy s) }
    (ids.length, if 0 < ids.length then swept.bumpDirty else swept)

def Owns (owner : TaskId) : Prop :=
  ∃ s, wm.state = some s ∧ ∃ id w, s.windows.lookup id = some w ∧ w.owner = owner

end Wm

theorem mem_idsOf {s : WmState} {owner : TaskId} {id : WindowId} :
    id ∈ s.idsOf owner ↔ ∃ w, s.windows.lookup id = some w ∧ w.owner = owner := by
  simp only [WmState.idsOf, List.mem_insertionSort, List.mem_map, List.mem_filter, decide_eq_true_eq]
  constructor
  · rintro ⟨⟨id, w⟩, ⟨member, own⟩, rfl⟩
    exact ⟨w, Map.mem_entries.mp member, own⟩
  · rintro ⟨w, found, own⟩
    exact ⟨⟨id, w⟩, ⟨Map.mem_entries.mpr found, own⟩, rfl⟩

theorem lookup_destroyed (ids : List WindowId) (s : WmState) (id : WindowId) :
    (ids.foldl WmState.destroy s).windows.lookup id = if id ∈ ids then none else s.windows.lookup id := by
  induction ids generalizing s with
  | nil => simp
  | cons first rest ih =>
    have gone : (s.destroy first).windows.lookup id = if id = first then none else s.windows.lookup id :=
      Map.lookup_erase_eq ..
    rw [List.foldl_cons, ih, gone]
    by_cases here : id = first <;> by_cases later : id ∈ rest <;> simp [here, later]

theorem not_owns_destroyed (wm : Wm) (owner : TaskId) : ¬(wm.destroyWindowsOwnedBy owner).2.Owns owner := by
  rintro ⟨s', after, id, w, found, own⟩
  unfold Wm.destroyWindowsOwnedBy at after
  cases here : wm.state with
  | none => simp [here] at after
  | some s =>
    have swept : (s.idsOf owner).foldl WmState.destroy s = s' := by
      simp only [here] at after
      split at after <;> exact Option.some.inj after
    rw [← swept, lookup_destroyed] at found
    split at found
    · cases found
    next kept => exact kept (mem_idsOf.mpr ⟨w, found, own⟩)

theorem destroy_eq_self {wm : Wm} {owner : TaskId} :
    (wm.destroyWindowsOwnedBy owner).2 = wm ↔ ¬wm.Owns owner := by
  constructor
  · intro same
    rw [← same]
    exact not_owns_destroyed wm owner
  · intro clear
    unfold Wm.destroyWindowsOwnedBy
    cases here : wm.state with
    | none => rfl
    | some s =>
      have none : s.idsOf owner = [] := by
        rw [List.eq_nil_iff_forall_not_mem]
        intro id member
        obtain ⟨w, found, own⟩ := mem_idsOf.mp member
        exact clear ⟨s, here, id, w, found, own⟩
      simp [none, ← here]

end PickleOS.Windows
