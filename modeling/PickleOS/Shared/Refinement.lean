import PickleOS.Shared.Machine

set_option autoImplicit false

/-!
# What a machine looks like from outside

A specification says which states an action may lead to. A machine follows it where every step of
the machine, seen through a function of its state, is one that the specification allows.
-/

namespace Shared.Machine

variable {σ τ α : Type}

/-- The states that actions taken one after the other may lead to. -/
inductive Follows (spec : τ → α → τ → Prop) : τ → List α → τ → Prop
  | nil (s : τ) : Follows spec s [] s
  | cons {s t u : τ} {a : α} {rest : List α} (first : spec s a t) (after : Follows spec t rest u) :
    Follows spec s (a :: rest) u

variable {spec : τ → α → τ → Prop} {s t u : τ} {first second : List α}

namespace Follows

theorem append_iff : Follows spec s (first ++ second) u ↔ ∃ t, Follows spec s first t ∧
    Follows spec t second u := by
  constructor
  · intro run
    induction first generalizing s with
    | nil => exact ⟨s, .nil s, run⟩
    | cons a rest ih =>
      cases run with
      | cons here after =>
        obtain ⟨t, before, later⟩ := ih after
        exact ⟨t, .cons here before, later⟩
  · rintro ⟨t, before, after⟩
    induction before with
    | nil => exact after
    | cons here _ ih => exact .cons here (ih after)

theorem keeps {motive : τ → Prop} {actions : List α} (run : Follows spec s actions t)
    (each : ∀ s a t, a ∈ actions → spec s a t → motive s → motive t) (initial : motive s) : motive t := by
  induction run with
  | nil => exact initial
  | cons here _ ih =>
    exact ih (fun s a t member => each s a t (List.mem_cons_of_mem _ member))
      (each _ _ _ List.mem_cons_self here initial)

end Follows

theorem Follows.simulated {step : σ → α → σ → Prop} {rel : σ → τ → Prop} {start last : σ} {m : τ}
    {actions : List α}
    (run : Follows step start actions last)
    (each : ∀ s a s' m, step s a s' → rel s m → ∃ m', spec m a m' ∧ rel s' m') (initial : rel start m) :
    ∃ m', Follows spec m actions m' ∧ rel last m' := by
  induction run generalizing m with
  | nil => exact ⟨m, .nil m, initial⟩
  | cons here _ ih =>
    obtain ⟨n, allowed, next⟩ := each _ _ _ _ here initial
    obtain ⟨m', after, related⟩ := ih next
    exact ⟨m', .cons allowed after, related⟩

theorem follows_of_replay {step : σ → α → Option σ} {allowed : σ → α → Prop}
    [∀ s a, Decidable (allowed s a)]
    (seen : σ → τ) (inv : σ → Prop)
    (each : ∀ s a s', inv s → allowed s a → step s a = some s' → inv s' ∧ spec (seen s) a (seen s'))
    {start last : σ} {actions : List α} (initial : inv start)
    (done : replay step allowed start actions = some last) :
    inv last ∧ Follows spec (seen start) actions (seen last) := by
  induction actions generalizing start with
  | nil =>
    cases done
    exact ⟨initial, .nil _⟩
  | cons a rest ih =>
    simp only [replay] at done
    split at done
    next fine =>
      obtain ⟨next, taken, after⟩ := Option.bind_eq_some_iff.mp done
      obtain ⟨kept, here⟩ := each start a next initial fine taken
      obtain ⟨kept', there⟩ := ih kept after
      exact ⟨kept', .cons here there⟩
    next => cases done

end Shared.Machine
