import Mathlib.Data.List.Chain

set_option autoImplicit false

namespace Shared.Turns

def On (turns : List Bool) : Prop := turns.getLast? = some true

/-- The first turn switches on, and each one undoes the one before. -/
def Alternates (turns : List Bool) : Prop := turns.head? ≠ some false ∧ turns.IsChain (· ≠ ·)

instance (turns : List Bool) : Decidable (Alternates turns) := inferInstanceAs (Decidable (_ ∧ _))

variable {turns later : List Bool} {turn : Bool}

@[simp] theorem alternates_nil : Alternates [] := ⟨by simp, .nil⟩

@[simp] theorem not_on_nil : ¬On [] := by simp [On]

@[simp] theorem on_concat : On (turns ++ [turn]) ↔ turn = true := by simp [On]

theorem alternates_concat : Alternates (turns ++ [turn]) ↔ Alternates turns ∧ (turn = true ↔ ¬On turns) := by
  cases last : turns.getLast? with
  | none =>
    rw [List.getLast?_eq_none_iff] at last
    subst last
    cases turn <;> simp [Alternates]
  | some before =>
    have nonempty : turns ≠ [] := by
      rintro rfl
      cases last
    have first : (turns ++ [turn]).head? = turns.head? := List.head?_append_of_ne_nil _ nonempty
    simp only [Alternates, first, List.isChain_append, last, On, List.head?_cons, Option.mem_def,
      Option.some.injEq, forall_eq',
      List.isChain_singleton, true_and, and_assoc]
    cases before <;> cases turn <;> simp

theorem Alternates.of_append (alternates : Alternates (turns ++ later)) : Alternates turns := by
  induction later using List.reverseRecOn with
  | nil => simpa using alternates
  | append_singleton rest turn ih =>
    rw [← List.append_assoc, alternates_concat] at alternates
    exact ih alternates.1

theorem eq_nil_of_alternates_cons (alternates : Alternates (true :: turns)) (rest : Alternates turns) :
    turns = [] := by
  cases turns with
  | nil => rfl
  | cons turn turns =>
    cases turn with
    | true => simp [Alternates] at alternates
    | false => simp [Alternates] at rest

end Shared.Turns
