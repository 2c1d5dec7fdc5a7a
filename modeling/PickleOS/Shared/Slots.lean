import Mathlib.Logic.Function.Basic

set_option autoImplicit false

namespace Shared

abbrev Slots (β : Type) := List (Option β)

namespace Slots

variable {β : Type}

def look (slots : Slots β) (i : Nat) : Option β := slots[i]?.join

/-- The slot that was taken, and the slots with the new content. -/
def insert (slots : Slots β) (x : β) : Nat × Slots β :=
  match slots.findIdx? Option.isNone with
  | some i => (i, slots.set i (some x))
  | none => (slots.length, slots ++ [some x])

def remove (slots : Slots β) (i : Nat) : Slots β := slots.set i none

@[simp] theorem look_nil : look ([] : Slots β) = fun _ => none := rfl

theorem look_insert_free (slots : Slots β) (x : β) : slots.look (slots.insert x).1 = none := by
  unfold insert look
  cases found : slots.findIdx? Option.isNone with
  | none => simp
  | some i =>
    obtain ⟨inside, free, _⟩ := List.findIdx?_eq_some_iff_getElem.mp found
    simpa [inside] using free

theorem look_insert (slots : Slots β) (x : β) :
    (slots.insert x).2.look = Function.update slots.look (slots.insert x).1 (some x) := by
  funext j
  unfold insert look
  cases found : slots.findIdx? Option.isNone with
  | none =>
    by_cases last : j = slots.length
    · simp [last]
    · rcases Nat.lt_or_gt_of_ne last with before | after
      · simp [last, List.getElem?_append_left before]
      · obtain ⟨n, rfl⟩ := Nat.exists_eq_add_of_lt after
        rw [Function.update_of_ne last, List.getElem?_eq_none, List.getElem?_eq_none (by omega)]
        rw [List.length_append, List.length_singleton]
        omega
  | some i =>
    obtain ⟨inside, _⟩ := List.findIdx?_eq_some_iff_getElem.mp found
    by_cases here : j = i
    · simp [here, inside]
    · simp [here, List.getElem?_set_ne (Ne.symm here)]

theorem look_remove (slots : Slots β) (i : Nat) :
    (slots.remove i).look = Function.update slots.look i none := by
  funext j
  unfold remove look
  by_cases here : j = i
  · subst here
    simp only [List.getElem?_set_self', Function.update_self]
    cases slots[j]? <;> rfl
  · simp [here, List.getElem?_set_ne (Ne.symm here)]

end Slots

end Shared
