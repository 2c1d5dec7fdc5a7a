import Mathlib.Logic.Basic

set_option autoImplicit false

/-!
# Ledgers

Owners `ι` refer to resources `β` at places `π`. A ledger is sound if no reference dangles and no
resource is referred to twice, and covered if no used resource is left without a reference.
-/

namespace Shared.Ledger

variable {ι π β : Type}

structure Sound (owner : ι → Prop) (hold : ι → π → Option β) (used : β → Prop) : Prop where
  backed : ∀ {i p b}, owner i → hold i p = some b → used b
  exclusive : ∀ {i j p q b}, owner i → owner j → hold i p = some b → hold j q = some b → i = j ∧ p = q

def Covered (owner : ι → Prop) (hold : ι → π → Option β) (used : β → Prop) : Prop :=
  ∀ b, used b → ∃ i p, owner i ∧ hold i p = some b

variable {owner owner' : ι → Prop} {hold hold' : ι → π → Option β} {used used' : β → Prop} {i : ι}

theorem Sound.replace (sound : Sound owner hold used)
    (owners : ∀ j, j ≠ i → owner' j → owner j)
    (same : ∀ j, j ≠ i → owner' j → hold' j = hold j)
    (kept : ∀ j p b, j ≠ i → owner' j → hold j p = some b → used' b)
    (backed : owner' i → ∀ p b, hold' i p = some b → used' b)
    (distinct : owner' i → ∀ p q b, hold' i p = some b → hold' i q = some b → p = q)
    (origin : owner' i → ∀ p b, hold' i p = some b → (owner i ∧ ∃ q, hold i q = some b) ∨ ¬used b) :
    Sound owner' hold' used' := by
  have apart : ∀ j p q b, j ≠ i → owner' i → owner' j → hold' i p = some b → hold' j q = some b → False := by
    intro j p q b different here there new old
    rw [same j different there] at old
    have backedOld := sound.backed (owners j different there) old
    rcases origin here p b new with ⟨held, r, before⟩ | unused
    · exact different (sound.exclusive (owners j different there) held old before).1
    · exact unused backedOld
  constructor
  · intro j p b owned reference
    by_cases different : j = i
    · subst different
      exact backed owned p b reference
    · rw [same j different owned] at reference
      exact kept j p b different owned reference
  · intro j k p q b left right first second
    by_cases here : j = i <;> by_cases there : k = i
    · subst here there
      exact ⟨rfl, distinct left p q b first second⟩
    · subst here
      exact (apart k p q b there left right first second).elim
    · subst there
      exact (apart j q p b here right left second first).elim
    · rw [same j here left] at first
      rw [same k there right] at second
      exact sound.exclusive (owners j here left) (owners k there right) first second

theorem Covered.replace (covered : Covered owner hold used)
    (owners : ∀ j, j ≠ i → owner j → owner' j)
    (same : ∀ j, j ≠ i → owner' j → hold' j = hold j)
    (cover : ∀ b, used' b →
      (used b ∧ ∀ p, owner i → hold i p ≠ some b) ∨ ∃ p, owner' i ∧ hold' i p = some b) :
    Covered owner' hold' used' := by
  intro b inUse
  rcases cover b inUse with ⟨before, others⟩ | ⟨p, owned, reference⟩
  · obtain ⟨j, p, owned, reference⟩ := covered b before
    have different : j ≠ i := by
      rintro rfl
      exact others p owned reference
    refine ⟨j, p, owners j different owned, ?_⟩
    rw [same j different (owners j different owned), reference]
  · exact ⟨i, p, owned, reference⟩

end Shared.Ledger
