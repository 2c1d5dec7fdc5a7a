import Mathlib.Logic.Basic

set_option autoImplicit false

/-!
# Runs of a machine

A machine takes its next step, or refuses it, as a partial function of its state and an action.
-/

namespace Shared.Machine

variable {σ α : Type}

/-- The states reached by steps that are all allowed in the state they are taken in. -/
inductive Reaches (step : σ → α → Option σ) (allowed : σ → α → Prop) (start : σ) : σ → Prop
  | start : Reaches step allowed start start
  | step {s t : σ} {a : α} (before : Reaches step allowed start s) (fine : allowed s a)
    (taken : step s a = some t) :
      Reaches step allowed start t

variable {step : σ → α → Option σ} {allowed : σ → α → Prop} {start s t : σ}

theorem Reaches.invariant {motive : σ → Prop} (initial : motive start)
    (kept : ∀ s a t, motive s → allowed s a → step s a = some t → motive t)
    (run : Reaches step allowed start s) :
    motive s := by
  induction run with
  | start => exact initial
  | step _ fine taken ih => exact kept _ _ _ ih fine taken

theorem Reaches.trans (before : Reaches step allowed start s) (after : Reaches step allowed s t) :
    Reaches step allowed start t := by
  induction after with
  | start => exact before
  | step _ fine taken ih => exact ih.step fine taken

theorem Reaches.mono {allowed' : σ → α → Prop} (more : ∀ s a, allowed s a → allowed' s a)
    (run : Reaches step allowed start s) :
    Reaches step allowed' start s := by
  induction run with
  | start => exact .start
  | step _ fine taken ih => exact ih.step (more _ _ fine) taken

theorem Reaches.cons {a : α} (fine : allowed start a) (taken : step start a = some s)
    (after : Reaches step allowed s t) :
    Reaches step allowed start t :=
  (Reaches.step .start fine taken).trans after

def run (step : σ → α → Option σ) : σ → List α → Option σ
  | s, [] => some s
  | s, a :: rest => (step s a).bind fun t => run step t rest

theorem run_append (s : σ) (first second : List α) :
    run step s (first ++ second) = (run step s first).bind fun t => run step t second := by
  induction first generalizing s with
  | nil => rfl
  | cons a rest ih =>
    simp only [List.cons_append, run]
    cases step s a with
    | none => rfl
    | some t => exact ih t

theorem Reaches.of_run (before : Reaches step (fun _ _ => True) start s) {schedule : List α}
    (done : run step s schedule = some t) : Reaches step (fun _ _ => True) start t := by
  induction schedule generalizing s with
  | nil =>
    cases done
    exact before
  | cons a rest ih =>
    simp only [run, Option.bind_eq_some_iff] at done
    obtain ⟨u, taken, rest⟩ := done
    exact ih (before.step trivial taken) rest

/-- A schedule whose steps are allowed, tested one by one. -/
def replay (step : σ → α → Option σ) (allowed : σ → α → Prop) [∀ s a, Decidable (allowed s a)] :
    σ → List α → Option σ
  | s, [] => some s
  | s, a :: rest => if allowed s a then (step s a).bind fun t => replay step allowed t rest else none

theorem replay_append {checked : σ → α → Prop} [∀ s a, Decidable (checked s a)] {first : List α}
    (done : replay step checked s first = some t) (second : List α) :
    replay step checked s (first ++ second) = replay step checked t second := by
  induction first generalizing s with
  | nil =>
    cases done
    rfl
  | cons a rest ih =>
    simp only [replay, List.cons_append] at done ⊢
    by_cases fine : checked s a
    · simp only [fine, if_true, Option.bind_eq_some_iff] at done ⊢
      obtain ⟨u, taken, rest⟩ := done
      rw [taken, Option.bind_some, ih rest]
    · simp [fine] at done

theorem run_of_replay {checked : σ → α → Prop} [∀ s a, Decidable (checked s a)] {schedule : List α}
    (done : replay step checked s schedule = some t) : run step s schedule = some t := by
  induction schedule generalizing s with
  | nil => exact done
  | cons a rest ih =>
    simp only [replay] at done
    by_cases fine : checked s a
    · simp only [fine, if_true, Option.bind_eq_some_iff] at done
      obtain ⟨u, taken, rest⟩ := done
      exact Option.bind_eq_some_iff.mpr ⟨u, taken, ih rest⟩
    · simp [fine] at done

theorem Reaches.of_replay {checked : σ → α → Prop} [∀ s a, Decidable (checked s a)]
    (sound : ∀ s a, checked s a → allowed s a) (before : Reaches step allowed start s) {schedule : List α}
    (done : replay step checked s schedule = some t) : Reaches step allowed start t := by
  induction schedule generalizing s with
  | nil =>
    cases done
    exact before
  | cons a rest ih =>
    simp only [replay] at done
    by_cases fine : checked s a
    · simp only [fine, if_true, Option.bind_eq_some_iff] at done
      obtain ⟨u, taken, rest⟩ := done
      exact ih (before.step (sound s a fine) taken) rest
    · simp [fine] at done

end Shared.Machine
