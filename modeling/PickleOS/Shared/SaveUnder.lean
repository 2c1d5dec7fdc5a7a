import Mathlib.Data.Set.Basic

set_option autoImplicit false

namespace Shared

/-- Places of a memory that can be read and painted. To paint a place changes nothing but what it
covers, and to paint what was read there brings that back. -/
structure Surface (α β γ κ : Type) where
  covers : κ → Set α
  read : (α → β) → κ → γ
  paint : (α → β) → κ → γ → α → β
  other : ∀ m k c a, a ∉ covers k → paint m k c a = m a
  again : ∀ m old k a, a ∈ covers k → paint m k (read old k) a = old a

namespace Surface

variable {α β γ κ : Type} (surface : Surface α β γ κ) {m m' m'' old : α → β} {ks : List κ}

/-- Outside these places the memories are the same. -/
def Beside (ks : List κ) (m m' : α → β) : Prop := ∀ a, (∀ k ∈ ks, a ∉ surface.covers k) → m' a = m a

variable {surface}

theorem Beside.refl : surface.Beside ks m m := fun _ _ => rfl

theorem Beside.paint (beside : surface.Beside ks m m') {k : κ} (member : k ∈ ks) (c : γ) :
    surface.Beside ks m (surface.paint m' k c) := by
  intro a outside
  rw [surface.other m' k c a (outside k member)]
  exact beside a outside

theorem again_or (surface : Surface α β γ κ) {a : α} {k : κ} (either : a ∈ surface.covers k ∨ m a = old a) :
    surface.paint m k (surface.read old k) a = old a := by
  by_cases covered : a ∈ surface.covers k
  · exact surface.again m old k a covered
  · rw [surface.other m k _ a covered]
    exact either.resolve_left covered

theorem restored (surface : Surface α β γ κ) {a : α}
    (either : (∃ k ∈ ks, a ∈ surface.covers k) ∨ m a = old a) :
    ks.foldl (fun m k => surface.paint m k (surface.read old k)) m a = old a := by
  induction ks generalizing m with
  | nil => exact either.resolve_left fun ⟨_, member, _⟩ => List.not_mem_nil member
  | cons k rest ih =>
    rw [List.foldl_cons]
    refine ih ?_
    rcases either with ⟨j, member, covered⟩ | same
    · rcases List.mem_cons.mp member with rfl | later
      · exact .inr (surface.again_or (.inl covered))
      · exact .inl ⟨j, later, covered⟩
    · exact .inr (surface.again_or (.inr same))

theorem Beside.restore (beside : surface.Beside ks old m) :
    ks.foldl (fun m k => surface.paint m k (surface.read old k)) m = old := by
  funext a
  by_cases covered : ∃ k ∈ ks, a ∈ surface.covers k
  · exact surface.restored (.inl covered)
  · exact surface.restored (.inr (beside a fun k member inside => covered ⟨k, member, inside⟩))

end Surface

theorem getElem_foldl_set {γ κ : Type} {n : Nat}
    {slot : κ → Fin n} (distinct : ∀ j k, slot j = slot k → j = k) (value : κ → γ)
    {ks : List κ} {array : Vector γ n} {k : κ} (either : k ∈ ks ∨ array[slot k] = value k) :
    (ks.foldl (fun array k => array.set (slot k) (value k)) array)[slot k] = value k := by
  induction ks generalizing array with
  | nil => exact either.resolve_left List.not_mem_nil
  | cons j rest ih =>
    rw [List.foldl_cons]
    by_cases same : j = k
    next =>
      subst same
      exact ih (.inr (Vector.getElem_set_self ..))
    next =>
      refine ih ?_
      rcases either with member | already
      · exact .inl ((List.mem_cons.mp member).resolve_left (Ne.symm same))
      · refine .inr (Eq.trans ?_ already)
        exact Vector.getElem_set_ne _ _ fun slots => same (distinct j k (Fin.ext slots))

end Shared
