import Mathlib.Data.List.Nodup

set_option autoImplicit false

namespace Shared.Dealing

variable {α : Type} {xs : List α} {n i j : Nat} {x : α}

/-- What `n` calls return that each take the next element, if one is left. -/
def dealt (xs : List α) (n : Nat) : List (Option α) := (List.range n).map fun i => xs[i]?

theorem dealt_succ (xs : List α) (n : Nat) : dealt xs (n + 1) = dealt xs n ++ [xs[n]?] := by
  rw [dealt, List.range_succ, List.map_append]
  rfl

@[simp] theorem length_dealt (xs : List α) (n : Nat) : (dealt xs n).length = n := by simp [dealt]

theorem of_dealt {y : Option α} (call : (dealt xs n)[i]? = some y) : i < n ∧ xs[i]? = y := by
  simp only [dealt, List.getElem?_map, Option.map_eq_some_iff, List.getElem?_eq_some_iff,
    List.length_range] at call
  obtain ⟨k, ⟨below, same⟩, rfl⟩ := call
  rw [List.getElem_range] at same
  exact ⟨below, by rw [same]⟩

theorem mem_of_dealt (member : some x ∈ dealt xs n) : x ∈ xs := by
  obtain ⟨i, call⟩ := List.getElem?_of_mem member
  exact List.mem_of_getElem? (of_dealt call).2

theorem dealt_once (nodup : xs.Nodup) (first : (dealt xs n)[i]? = some (some x))
    (second : (dealt xs n)[j]? = some (some x)) :
    i = j := by
  have here := (of_dealt first).2
  have bound : i < xs.length := (List.getElem?_eq_some_iff.mp here).1
  exact (List.getElem?_inj bound nodup).mp (here.trans (of_dealt second).2.symm)

theorem dealt_before (call : (dealt xs n)[i]? = some none) (member : x ∈ xs) :
    some x ∈ (dealt xs n).take i := by
  obtain ⟨below, out⟩ := of_dealt call
  have length : xs.length ≤ i := List.getElem?_eq_none_iff.mp out
  obtain ⟨k, inside, rfl⟩ := List.getElem_of_mem member
  refine List.mem_of_getElem? (i := k) ?_
  rw [List.getElem?_take, if_pos (by omega), dealt, List.getElem?_map, List.getElem?_range (by omega)]
  simp [inside]

end Shared.Dealing
