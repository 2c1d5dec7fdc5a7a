import Mathlib.Data.List.DropRight
import PickleOS.Shared.Lossy

set_option autoImplicit false

namespace Shared.Recent

variable {α : Type}

/-- The `height` elements that end `back` before the end. -/
def window (height back : Nat) (xs : List α) : List α := (xs.rdrop back).rtake height

theorem length_rtake (count : Nat) (xs : List α) : (xs.rtake count).length = min count xs.length := by
  rw [List.rtake, List.length_drop]
  omega

theorem rtake_min (count : Nat) (xs : List α) : xs.rtake (min count xs.length) = xs.rtake count := by
  rw [List.rtake, List.rtake]
  congr 1
  omega

theorem rtake_append_length (xs ys : List α) : (xs ++ ys).rtake ys.length = ys := by
  rw [List.rtake, List.length_append, Nat.add_sub_cancel, List.drop_left]

/-- To drop the oldest when there is no room keeps the last `cap`. -/
theorem push_rtake {cap : Nat} (positive : 0 < cap) (xs : List α) (x : α) :
    Lossy.push cap (xs.rtake cap) x = (xs ++ [x]).rtake cap := by
  obtain ⟨smaller, rfl⟩ := Nat.exists_eq_succ_of_ne_zero (Nat.pos_iff_ne_zero.mp positive)
  rw [List.rtake_concat_succ, Lossy.push, length_rtake]
  congr 1
  split
  next full =>
    rw [List.rtake, List.rtake, List.tail_drop]
    congr 1
    omega
  next room =>
    rw [List.rtake, List.rtake, Nat.sub_eq_zero_of_le (by omega), Nat.sub_eq_zero_of_le (by omega)]

theorem getElem?_window {height back : Nat} {xs : List α} (fits : height + back ≤ xs.length)
    {i : Nat} (inside : i < height) :
    (window height back xs)[i]? = xs[xs.length - back - height + i]? := by
  rw [window, List.rtake, List.rdrop, List.getElem?_drop, List.length_take, List.getElem?_take_of_lt (by omega)]
  congr 1
  omega

theorem length_window {height back : Nat} {xs : List α} (fits : height + back ≤ xs.length) :
    (window height back xs).length = height := by
  rw [window, length_rtake, List.rdrop, List.length_take]
  omega

theorem modify_append (xs ys : List α) (i : Nat) (f : α → α) :
    (xs ++ ys).modify (xs.length + i) f = xs ++ ys.modify i f := by
  induction xs with
  | nil => rw [List.length_nil, Nat.zero_add, List.nil_append, List.nil_append]
  | cons x rest ih =>
    rw [List.length_cons, Nat.add_right_comm, List.cons_append, List.modify_succ_cons, ih, List.cons_append]

end Shared.Recent
