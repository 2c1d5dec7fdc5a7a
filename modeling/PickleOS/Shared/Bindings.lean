import Mathlib.Data.List.Basic

set_option autoImplicit false

/-!
# Tables of bindings

What a state binds to a key is changed one key at a time, and a change may be refused.
-/

namespace Shared

/-- A key that is bound is not bound again, and one that is not bound cannot be released. -/
structure Bindings (σ κ ν : Type) where
  look : σ → κ → Option ν
  bind : σ → κ → ν → Option σ
  release : σ → κ → Option σ
  bind_vacant : ∀ {s s' k v}, bind s k v = some s' → look s k = none
  bind_self : ∀ {s s' k v}, bind s k v = some s' → look s' k = some v
  bind_other : ∀ {s s' k v}, bind s k v = some s' → ∀ j, j ≠ k → look s' j = look s j
  release_vacant : ∀ {s k}, look s k = none → release s k = none
  release_self : ∀ {s s' k}, release s k = some s' → look s' k = none
  release_other : ∀ {s s' k}, release s k = some s' → ∀ j, j ≠ k → look s' j = look s j

namespace Bindings

variable {σ κ ν : Type} (b : Bindings σ κ ν) {s s' : σ}

def bindAll (s : σ) (pairs : List (κ × ν)) : Option σ := pairs.foldlM (fun s p => b.bind s p.1 p.2) s

def releaseAll (s : σ) (keys : List κ) : Option σ := keys.foldlM b.release s

variable {b}

theorem bindAll_cons {p : κ × ν} {rest : List (κ × ν)} :
    b.bindAll s (p :: rest) = some s' ↔ ∃ t, b.bind s p.1 p.2 = some t ∧ b.bindAll t rest = some s' := by
  rw [bindAll, List.foldlM_cons]
  exact Option.bind_eq_some_iff

theorem releaseAll_cons {k : κ} {rest : List κ} :
    b.releaseAll s (k :: rest) = some s' ↔ ∃ t, b.release s k = some t ∧ b.releaseAll t rest = some s' := by
  rw [releaseAll, List.foldlM_cons]
  exact Option.bind_eq_some_iff

theorem bindAll_other {pairs : List (κ × ν)} (done : b.bindAll s pairs = some s')
    {j : κ} (other : ∀ p ∈ pairs, p.1 ≠ j) :
    b.look s' j = b.look s j := by
  induction pairs generalizing s with
  | nil =>
    cases done
    rfl
  | cons p rest ih =>
    obtain ⟨t, first, onward⟩ := bindAll_cons.mp done
    rw [ih onward fun q later => other q (List.mem_cons_of_mem _ later)]
    exact b.bind_other first j (other p (List.mem_cons_self ..)).symm

theorem releaseAll_vacant {keys : List κ} (done : b.releaseAll s keys = some s')
    {j : κ} (vacant : b.look s j = none) :
    b.look s' j = none := by
  induction keys generalizing s with
  | nil =>
    cases done
    exact vacant
  | cons k rest ih =>
    obtain ⟨t, first, onward⟩ := releaseAll_cons.mp done
    refine ih onward ?_
    by_cases same : j = k
    · rw [same, b.release_self first]
    · rwa [b.release_other first j same]

theorem releaseAll_mem {keys : List κ} (done : b.releaseAll s keys = some s') {j : κ} (member : j ∈ keys) :
    (b.look s j).isSome ∧ b.look s' j = none := by
  induction keys generalizing s with
  | nil => cases member
  | cons k rest ih =>
    obtain ⟨t, first, onward⟩ := releaseAll_cons.mp done
    by_cases same : j = k
    · subst same
      refine ⟨?_, releaseAll_vacant onward (b.release_self first)⟩
      cases found : b.look s j with
      | none =>
        rw [b.release_vacant found] at first
        cases first
      | some v => rfl
    · rw [← b.release_other first j same]
      exact ih onward ((List.mem_cons.mp member).resolve_left same)

end Bindings

end Shared
