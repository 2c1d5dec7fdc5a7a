import Mathlib.Data.List.Basic
import Mathlib.Logic.Function.Basic

set_option autoImplicit false

/-!
# Layers of paint

A layer covers some places with colors, and what is painted later covers what was painted before.
-/

namespace Shared

/-- What is put on some of the places. -/
abbrev Layer (κ γ : Type) := κ → Option γ

namespace Layer

variable {κ γ : Type}

def clear : Layer κ γ := fun _ => none

def dot [DecidableEq κ] (p : κ) (c : γ) : Layer κ γ := fun q => if q = p then some c else none

/-- One layer behind another one. -/
def under (back front : Layer κ γ) : Layer κ γ := fun p => (front p).or (back p)

/-- Layers from back to front as one. -/
def stack (layers : List (Layer κ γ)) : Layer κ γ := layers.foldl under clear

section

variable {back front : Layer κ γ} {layers more : List (Layer κ γ)} {p : κ} {c : γ}

theorem under_clear : under clear front = front := by
  funext p
  simp only [under, clear, Option.or_none]

theorem under_bare : under back clear = back := rfl

theorem under_assoc (first second third : Layer κ γ) :
    under (under first second) third = under first (under second third) := by
  funext p
  simp only [under]
  cases third p <;> rfl

theorem foldl_under : layers.foldl under back = under back (stack layers) := by
  unfold stack
  induction layers generalizing back with
  | nil => rfl
  | cons layer rest ih =>
    have first := @ih (under clear layer)
    rw [List.foldl_cons, List.foldl_cons, ih, first, under_clear, under_assoc]

@[simp] theorem stack_nil : stack ([] : List (Layer κ γ)) = clear := rfl

@[simp] theorem stack_cons (layer : Layer κ γ) : stack (layer :: layers) = under layer (stack layers) := by
  rw [stack, List.foldl_cons, under_clear, foldl_under]

@[simp] theorem stack_append : stack (layers ++ more) = under (stack layers) (stack more) := by
  rw [stack, List.foldl_append, foldl_under]
  rfl

theorem stack_eq_none : stack layers p = none ↔ ∀ layer ∈ layers, layer p = none := by
  induction layers with
  | nil => simp [clear]
  | cons layer rest ih =>
    rw [stack_cons, under, Option.or_eq_none_iff, ih, List.forall_mem_cons, and_comm]

theorem stack_isSome : (stack layers p).isSome = true ↔ ∃ layer ∈ layers, (layer p).isSome = true := by
  rw [← Option.ne_none_iff_isSome, Ne, stack_eq_none]
  simp only [not_forall, exists_prop, ← ne_eq, Option.ne_none_iff_isSome]

theorem stack_eq_some (agree : ∀ layer ∈ layers, ∀ d, layer p = some d → d = c)
    (covered : ∃ layer ∈ layers, (layer p).isSome = true) : stack layers p = some c := by
  have value : ∀ d, stack layers p = some d → d = c := by
    clear covered
    induction layers with
    | nil => intro d covered; cases covered
    | cons layer rest ih =>
      intro d covered
      rw [stack_cons, under, Option.or_eq_some_iff] at covered
      rcases covered with later | ⟨_, first⟩
      · exact ih (fun layer member => agree layer (List.mem_cons_of_mem _ member)) d later
      · exact agree layer List.mem_cons_self d first
  obtain ⟨d, found⟩ := Option.isSome_iff_exists.mp (stack_isSome.mpr covered)
  rw [found, value d found]

theorem stack_single {ι : Type} {items : List ι} {layer : ι → Layer κ γ} {k : ι} (member : k ∈ items)
    (others : ∀ j ∈ items, j ≠ k → layer j p = none) : stack (items.map layer) p = layer k p := by
  cases own : layer k p with
  | none =>
    rw [stack_eq_none, List.forall_mem_map]
    intro j inside
    by_cases same : j = k
    · rw [same, own]
    · exact others j inside same
  | some c =>
    refine stack_eq_some (List.forall_mem_map.mpr fun j inside d covered => ?_)
      ⟨_, List.mem_map_of_mem member, by rw [own]; rfl⟩
    by_cases same : j = k
    · rw [same, own] at covered
      exact (Option.some.inj covered).symm
    · rw [others j inside same] at covered
      cases covered

end

end Layer

end Shared
