import PickleOS.Shared.Outcome

set_option autoImplicit false

namespace Shared.Locks

open Outcome

variable {κ σ α : Type}

/-- The locks that the processor holds, last taken first, and what the locks protect. -/
structure Cpu (κ σ : Type) where
  held : List κ
  shared : σ

/-- Code that takes locks. Its exception is the lock that it spins on. -/
abbrev Code (κ σ α : Type) := EStateM κ (Cpu κ σ) α

def access (f : σ → α × σ) : Code κ σ α := fun cpu =>
  let (value, shared) := f cpu.shared
  .ok value { cpu with shared := shared }

@[simp] theorem ends_access (f : σ → α × σ) (start : Cpu κ σ) (returns : α → Cpu κ σ → Prop)
  (fails : κ → Cpu κ σ → Prop) :
    Ends (access f) start returns fails ↔ returns (f start.shared).1
      { start with shared := (f start.shared).2 } := Iff.rfl

variable [DecidableEq κ]

/-- Run `body` under a lock. Nobody else runs meanwhile: if the processor holds the lock already, then
it is never released. -/
def withLock (lock : κ) (body : Code κ σ α) : Code κ σ α := do
  if lock ∈ (← get).held then throw lock
  modify fun cpu => { cpu with held := lock :: cpu.held }
  let value ← body
  -- The guard is dropped.
  modify fun cpu => { cpu with held := cpu.held.erase lock }
  return value

@[simp] theorem ends_withLock (lock : κ) (body : Code κ σ α) (start : Cpu κ σ) (returns : α → Cpu κ σ → Prop)
    (fails : κ → Cpu κ σ → Prop) :
    Ends (withLock lock body) start returns fails ↔
      if lock ∈ start.held then fails lock start
      else Ends body { start with held := lock :: start.held }
        (fun value last => returns value { last with held := last.held.erase lock }) fails := by
  unfold withLock
  rw [ends_bind, ends_get]
  by_cases taken : lock ∈ start.held
  · simp [taken]
  · simp only [taken, if_false, ends_bind, ends_modify, ends_pure]

end Shared.Locks
