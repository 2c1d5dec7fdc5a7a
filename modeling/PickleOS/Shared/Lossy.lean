import Mathlib.Data.List.Basic

set_option autoImplicit false

namespace Shared.Lossy

variable {α : Type}

/-- What went into a queue and what came out. -/
inductive Move (α : Type) where
  | pushed (x : α)
  | popped (x : α)

def push (cap : Nat) (queue : List α) (x : α) : List α :=
  (if cap ≤ queue.length then queue.tail else queue) ++ [x]

def pushed (moves : List (Move α)) : List α := moves.filterMap fun move => match move with
  | .pushed x => some x
  | .popped _ => none

def popped (moves : List (Move α)) : List α := moves.filterMap fun move => match move with
  | .pushed _ => none
  | .popped x => some x

/-- Before its turn came, `cap` others were pushed after the element at `i`. The elements at `taken` were
popped, in this order. -/
def Overrun (cap : Nat) (moves : List (Move α)) (taken : List Nat) (i : Nat) : Prop :=
  ∃ before after, moves = before ++ after ∧ i + cap < (pushed before).length ∧
  ∀ j ∈ taken.take (popped before).length, j < i

/-- The first of the elements that wait. -/
def front (moves : List (Move α)) (waiting : List α) : Nat := (pushed moves).length - waiting.length

structure Accounts (cap : Nat) (moves : List (Move α)) (waiting : List α) (taken : List Nat) : Prop where
  bounded : waiting.length ≤ cap
  waits : waiting = (pushed moves).drop (front moves waiting)
  ordered : taken.Pairwise (· < ·)
  popped : (popped moves).map some = taken.map fun i => (pushed moves)[i]?
  sublist : (Lossy.popped moves).Sublist ((pushed moves).take (front moves waiting))
  passed : ∀ i ∈ taken, i < front moves waiting
  fate : ∀ i < (pushed moves).length, i ∈ taken ∨ front moves waiting ≤ i ∨ Overrun cap moves taken i

section Moves

variable (moves : List (Move α)) (x : α)

@[simp] theorem pushed_nil : pushed ([] : List (Move α)) = [] := rfl
@[simp] theorem popped_nil : popped ([] : List (Move α)) = [] := rfl

@[simp] theorem pushed_push : pushed (moves ++ [.pushed x]) = pushed moves ++ [x] := by simp [pushed]
@[simp] theorem pushed_pop : pushed (moves ++ [.popped x]) = pushed moves := by simp [pushed]
@[simp] theorem popped_push : popped (moves ++ [.pushed x]) = popped moves := by simp [popped]
@[simp] theorem popped_pop : popped (moves ++ [.popped x]) = popped moves ++ [x] := by simp [popped]

theorem length_popped_append (before after : List (Move α)) :
    (popped before).length ≤ (popped (before ++ after)).length := by
  rw [popped, popped, List.filterMap_append, List.length_append]
  exact Nat.le_add_right ..

end Moves

variable {cap : Nat} {moves : List (Move α)} {waiting : List α} {taken : List Nat} {i : Nat}

theorem Overrun.more (overrun : Overrun cap moves taken i) (move : Move α) {later : List Nat}
    (count : (popped moves).length ≤ taken.length) : Overrun cap (moves ++ [move]) (taken ++ later) i := by
  obtain ⟨before, after, rfl, beyond, earlier⟩ := overrun
  refine ⟨before, after ++ [move], by simp, beyond, fun j member => earlier j ?_⟩
  have early := Nat.le_trans (length_popped_append before after) count
  rwa [List.take_append_of_le_length early] at member

namespace Accounts

theorem start : Accounts cap ([] : List (Move α)) [] [] where
  bounded := Nat.zero_le _
  waits := rfl
  ordered := .nil
  popped := rfl
  sublist := .slnil
  passed i member := by cases member
  fate i inside := by cases inside

theorem length_taken (accounts : Accounts cap moves waiting taken) :
    (Lossy.popped moves).length ≤ taken.length := by
  have same := congrArg List.length accounts.popped
  rw [List.length_map, List.length_map] at same
  exact Nat.le_of_eq same

theorem length_waiting (accounts : Accounts cap moves waiting taken) :
    waiting.length ≤ (pushed moves).length := by
  have same := congrArg List.length accounts.waits
  rw [List.length_drop] at same
  omega

theorem push (accounts : Accounts cap moves waiting taken) (room : 0 < cap) (x : α) :
    Accounts cap (moves ++ [.pushed x]) (Lossy.push cap waiting x) taken := by
  have count := accounts.length_taken
  have within := accounts.length_waiting
  have start := accounts.waits
  -- What is left of the old ones keeps its places.
  have keeps (kept : List α) (fewer : kept.length < cap) (less : kept.length ≤ waiting.length)
      (same : kept = (pushed moves).drop ((pushed moves).length - kept.length))
      (lost : ∀ i, front moves waiting ≤ i → i < (pushed moves).length - kept.length →
        Overrun cap (moves ++ [.pushed x]) taken i) :
      Accounts cap (moves ++ [.pushed x]) (kept ++ [x]) taken := by
    have moved : front (moves ++ [.pushed x]) (kept ++ [x]) = (pushed moves).length - kept.length := by
      simp [front]
    have later : front moves waiting ≤ (pushed moves).length - kept.length := Nat.sub_le_sub_left less _
    refine ⟨?_, ?_, accounts.ordered, ?_, ?_, fun i member => ?_, fun i inside => ?_⟩
    · rw [List.length_append, List.length_singleton]
      exact fewer
    · rw [moved, pushed_push, List.drop_append_of_le_length (Nat.sub_le ..), ← same]
    · rw [popped_push, accounts.popped]
      refine List.map_congr_left fun i member => ?_
      rw [pushed_push, List.getElem?_append_left
        (Nat.lt_of_lt_of_le (accounts.passed i member) (Nat.sub_le ..))]
    · rw [popped_push, moved, pushed_push, List.take_append_of_le_length (Nat.sub_le ..)]
      exact accounts.sublist.trans (List.take_sublist_take_left later)
    · rw [moved]
      exact Nat.lt_of_lt_of_le (accounts.passed i member) later
    · rw [moved]
      by_cases waits : (pushed moves).length - kept.length ≤ i
      · exact .inr (.inl waits)
      · rcases accounts.fate i (by omega) with popped | waited | overrun
        · exact .inl popped
        · exact .inr (.inr (lost i waited (by omega)))
        · have more : Overrun cap (moves ++ [.pushed x]) (taken ++ []) i := overrun.more (.pushed x) count
          rw [List.append_nil] at more
          exact .inr (.inr more)
  unfold Lossy.push
  split
  next full =>
    have size : waiting.tail.length = waiting.length - 1 := List.length_tail
    have bounded := accounts.bounded
    refine keeps _ (by omega) (by omega) ?_ fun i waited gone => ?_
    · conv_lhs => rw [start]
      rw [List.tail_drop, size, front]
      congr 1
      omega
    · refine ⟨moves ++ [.pushed x], [], by simp, ?_, fun j member => ?_⟩
      · rw [pushed_push, List.length_append, List.length_singleton]
        omega
      · exact Nat.lt_of_lt_of_le (accounts.passed j (List.mem_of_mem_take member)) waited
  next free =>
    exact keeps waiting (by omega) (Nat.le_refl _) start fun i waited gone =>
      absurd gone (Nat.not_lt.mpr waited)

theorem pop {x : α} {rest : List α} (accounts : Accounts cap moves (x :: rest) taken) :
    Accounts cap (moves ++ [.popped x]) rest (taken ++ [front moves (x :: rest)]) := by
  have within := accounts.length_waiting
  rw [List.length_cons] at within
  have moved : front (moves ++ [.popped x]) rest = front moves (x :: rest) + 1 := by
    simp only [front, pushed_pop, List.length_cons]
    omega
  have inside : front moves (x :: rest) < (pushed moves).length := by
    simp only [front, List.length_cons]
    omega
  have first : (pushed moves)[front moves (x :: rest)]? = some x := by
    rw [← List.head?_drop, ← accounts.waits, List.head?_cons]
  refine ⟨?_, ?_, ?_, ?_, ?_, fun i member => ?_, fun i pushed => ?_⟩
  · exact Nat.le_of_succ_le accounts.bounded
  · rw [moved, pushed_pop, ← List.tail_drop, ← accounts.waits, List.tail_cons]
  · refine List.pairwise_append.mpr ⟨accounts.ordered, List.pairwise_singleton .., fun i member j last => ?_⟩
    rw [List.mem_singleton.mp last]
    exact accounts.passed i member
  · rw [popped_pop, pushed_pop, List.map_append, List.map_append, accounts.popped, List.map_singleton,
      List.map_singleton, first]
  · rw [popped_pop, pushed_pop, moved, ← List.take_append_getElem inside]
    refine accounts.sublist.append ?_
    rw [List.getElem?_eq_getElem inside] at first
    rw [Option.some.inj first]
  · rw [moved]
    rcases List.mem_append.mp member with earlier | last
    · exact Nat.lt_succ_of_lt (accounts.passed i earlier)
    · rw [List.mem_singleton.mp last]
      exact Nat.lt_succ_self _
  · rw [pushed_pop] at pushed
    rw [moved]
    rcases accounts.fate i pushed with popped | waits | overrun
    · exact .inl (List.mem_append_left _ popped)
    · rcases Nat.eq_or_lt_of_le waits with here | later
      · exact .inl (List.mem_append_right _ (by rw [here]; exact List.mem_singleton_self _))
      · exact .inr (.inl later)
    · exact .inr (.inr (overrun.more _ accounts.length_taken))

end Accounts

end Shared.Lossy
