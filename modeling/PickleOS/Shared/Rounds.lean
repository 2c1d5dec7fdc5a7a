import Mathlib.Order.Lattice
import Mathlib.Data.List.Basic

set_option autoImplicit false

/-!
# Rounds

A round goes through the elements of an ordered list, first those after a given place and then the others.
-/

namespace Shared.Rounds

variable {α : Type} [LinearOrder α] {xs rest : List α} {a c : α}

def roundAfter (c : α) (xs : List α) : List α := xs.filter (c < ·) ++ xs.filter (· ≤ c)

theorem perm_roundAfter (c : α) (xs : List α) : (roundAfter c xs).Perm xs := by
  have parts := List.filter_append_perm (fun x => decide (c < x)) xs
  simpa only [roundAfter, ← decide_not, not_lt] using parts

theorem filter_sorted (sorted : xs.Pairwise (· < ·)) (c : α) : xs.filter (· ≤ c) ++ xs.filter (c < ·) = xs := by
  induction xs with
  | nil => rfl
  | cons x rest ih =>
    obtain ⟨least, sorted⟩ := List.pairwise_cons.mp sorted
    by_cases early : x ≤ c
    · rw [List.filter_cons_of_pos (by simpa using early), List.filter_cons_of_neg (by simpa using early),
        List.cons_append,
        ih sorted]
    · have late : c < x := lt_of_not_ge early
      have none : rest.filter (· ≤ c) = [] := List.filter_eq_nil_iff.mpr fun y member => by
        simpa using lt_trans late (least y member)
      have all : rest.filter (c < ·) = rest := List.filter_eq_self.mpr fun y member => by
        simpa using lt_trans late (least y member)
      rw [List.filter_cons_of_neg (by simpa using early), List.filter_cons_of_pos (by simpa using late),
        none, all,
        List.nil_append]

theorem roundAfter_mid {front back : List α} (sorted : (front ++ a :: back).Pairwise (· < ·)) :
    roundAfter a (front ++ a :: back) = back ++ (front ++ [a]) := by
  obtain ⟨_, sorted, before⟩ := List.pairwise_append.mp sorted
  have after := (List.pairwise_cons.mp sorted).1
  have early : ∀ x ∈ front, x < a := fun x member => before x member a (List.mem_cons_self ..)
  have one : front.filter (a < ·) = [] := List.filter_eq_nil_iff.mpr fun x member => by
    simpa using le_of_lt (early x member)
  have two : front.filter (· ≤ a) = front := List.filter_eq_self.mpr fun x member => by
    simpa using le_of_lt (early x member)
  have three : back.filter (a < ·) = back := List.filter_eq_self.mpr fun x member => by
    simpa using after x member
  have four : back.filter (· ≤ a) = [] := List.filter_eq_nil_iff.mpr fun x member => by
    simpa using after x member
  rw [roundAfter, List.filter_append, List.filter_append, List.filter_cons_of_neg (by simp),
    List.filter_cons_of_pos (by simp), one, two, three, four]
  simp

theorem roundAfter_next (sorted : xs.Pairwise (· < ·)) (first : roundAfter c xs = a :: rest) :
    roundAfter a xs = rest ++ [a] := by
  have whole := filter_sorted sorted c
  unfold roundAfter at first
  cases late : xs.filter (c < ·) with
  | nil =>
    rw [late, List.nil_append] at first
    rw [late, first, List.append_nil] at whole
    rw [← whole] at sorted ⊢
    have here : roundAfter a ([] ++ a :: rest) = rest ++ ([] ++ [a]) := roundAfter_mid sorted
    simpa using here
  | cons x back =>
    rw [late, List.cons_append, List.cons.injEq] at first
    obtain ⟨rfl, rfl⟩ := first
    rw [late] at whole
    rw [← whole] at sorted
    have next := roundAfter_mid sorted
    rw [whole] at next
    rw [next, List.append_assoc]

variable {place : Nat → α}

theorem round_of_steps (sorted : xs.Pairwise (· < ·))
    (next : ∀ k, k < xs.length → (roundAfter (place k) xs).head? = some (place (k + 1))) :
    (List.range xs.length).map (fun k => place (k + 1)) = roundAfter (place 0) xs := by
  have size : (roundAfter (place 0) xs).length = xs.length := (perm_roundAfter ..).length_eq
  -- After `k` steps the rest of the round is still to come, and what has been is behind it.
  have steps : ∀ k, k ≤ xs.length →
      roundAfter (place k) xs = (roundAfter (place 0) xs).drop k ++ (roundAfter (place 0) xs).take k ∧
        (List.range k).map (fun k => place (k + 1)) = (roundAfter (place 0) xs).take k := by
    intro k inside
    induction k with
    | zero => simp
    | succ k ih =>
      obtain ⟨round, past⟩ := ih (Nat.le_of_succ_le inside)
      have here : k < (roundAfter (place 0) xs).length := by omega
      have head := next k inside
      rw [round, List.drop_eq_getElem_cons here, List.cons_append, List.head?_cons, Option.some.injEq] at head
      rw [List.drop_eq_getElem_cons here, head, List.cons_append] at round
      constructor
      · rw [roundAfter_next sorted round, List.append_assoc, List.take_succ_eq_append_getElem here, head]
      · rw [List.range_succ, List.map_append, past, List.take_succ_eq_append_getElem here, head]
        rfl
  have whole := (steps xs.length (Nat.le_refl _)).2
  rw [whole, ← size, List.take_length]

end Shared.Rounds
