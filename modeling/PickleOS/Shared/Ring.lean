import Mathlib.Data.List.Basic

set_option autoImplicit false

/-!
# Rings

A ring keeps a queue between its tail, where elements leave, and its head, where they enter. One
cell stays free.
-/

namespace Shared.Ring

variable {α : Type} {n : Nat}

def next (i : Fin n) : Fin n := ⟨(i + 1) % n, Nat.mod_lt _ i.pos⟩

/-- The cell `k` places after `i`. -/
def cell (i : Fin n) (k : Nat) : Fin n := ⟨(i + k) % n, Nat.mod_lt _ i.pos⟩

def size (head tail : Fin n) : Nat := (head + n - tail) % n

def content (buf : Vector α n) (head tail : Fin n) : List α :=
  (List.range (size head tail)).map fun k => buf[cell tail k]

variable (buf : Vector α n) (head tail : Fin n)

theorem cell_zero : cell tail 0 = tail := Fin.ext (Nat.mod_eq_of_lt tail.isLt)

theorem cell_next (k : Nat) : cell (next tail) k = cell tail (k + 1) := by
  apply Fin.ext
  simp only [cell, next, Nat.mod_add_mod]
  rw [Nat.add_assoc, Nat.add_comm 1 k]

theorem size_lt : size head tail < n := Nat.mod_lt _ tail.pos

theorem size_eq : size head tail = if tail ≤ head then head - tail.val else head + n - tail := by
  have left := head.isLt
  have right := tail.isLt
  unfold size
  split
  next behind =>
    rw [Fin.le_def] at behind
    rw [show head.val + n - tail = head - tail + n by omega, Nat.add_mod_right, Nat.mod_eq_of_lt (by omega)]
  next ahead =>
    rw [Fin.le_def] at ahead
    exact Nat.mod_eq_of_lt (by omega)

theorem cell_size : cell tail (size head tail) = head := by
  have left := head.isLt
  have right := tail.isLt
  apply Fin.ext
  simp only [cell, size_eq, Fin.le_def]
  split
  · rw [show tail.val + (head - tail) = head by omega]
    exact Nat.mod_eq_of_lt left
  · rw [show tail.val + (head + n - tail) = head + n by omega, Nat.add_mod_right]
    exact Nat.mod_eq_of_lt left

theorem cell_injective {j k : Nat} (first : j < n) (second : k < n) (same : cell tail j = cell tail k) :
    j = k := by
  have equal : (tail + j) % n = (tail + k) % n := congrArg Fin.val same
  have right := tail.isLt
  by_cases wrapsFirst : tail + j < n <;> by_cases wrapsSecond : tail + k < n
  all_goals
    first
    | rw [Nat.mod_eq_of_lt wrapsFirst] at equal
    | rw [Nat.mod_eq_sub_mod (Nat.le_of_not_lt wrapsFirst),
      Nat.mod_eq_of_lt (by omega : tail + j - n < n)] at equal
    first
    | rw [Nat.mod_eq_of_lt wrapsSecond] at equal
    | rw [Nat.mod_eq_sub_mod (Nat.le_of_not_lt wrapsSecond),
      Nat.mod_eq_of_lt (by omega : tail + k - n < n)] at equal
    omega

theorem size_of_cell {k : Nat} (small : k < n) (here : cell tail k = head) : size head tail = k :=
  cell_injective tail (size_lt head tail) small ((cell_size head tail).trans here.symm)

theorem content_eq_nil : content buf head tail = [] ↔ head = tail := by
  simp only [content, List.map_eq_nil_iff, List.range_eq_nil]
  constructor
  · intro empty
    have here := cell_size head tail
    rw [empty, cell_zero] at here
    exact here.symm
  · rintro rfl
    exact size_of_cell head head head.pos (cell_zero head)

theorem size_next (free : next head ≠ tail) : size (next head) tail = size head tail + 1 := by
  have step : cell tail (size head tail + 1) = next head := by
    apply Fin.ext
    have here := congrArg Fin.val (cell_size head tail)
    simp only [cell] at here
    simp only [cell, next, ← Nat.add_assoc, ← here, Nat.mod_add_mod]
  have room : size head tail + 1 < n := by
    have bound := size_lt head tail
    by_contra full
    have last : size head tail + 1 = n := by omega
    refine free (step.symm.trans (Fin.ext ?_))
    simp only [cell, last, Nat.add_mod_right]
    exact Nat.mod_eq_of_lt tail.isLt
  exact size_of_cell (next head) tail room step

theorem content_push (x : α) (free : next head ≠ tail) :
    content (buf.set head x) (next head) tail = content buf head tail ++ [x] := by
  simp only [content, size_next head tail free, List.range_succ, List.map_append, List.map_cons, List.map_nil]
  congr 1
  · apply List.map_congr_left
    intro k inside
    have before := List.mem_range.mp inside
    have apart : cell tail k ≠ head := by
      intro same
      have reached := size_of_cell head tail (Nat.lt_trans before (size_lt head tail)) same
      omega
    simp only [Fin.getElem_fin]
    exact Vector.getElem_set_ne head.isLt (cell tail k).isLt fun same => apart (Fin.ext same.symm)
  · simp [cell_size]

theorem size_pop (used : head ≠ tail) : size head tail = size head (next tail) + 1 := by
  have here := cell_size head tail
  cases known : size head tail with
  | zero =>
    rw [known, cell_zero] at here
    exact absurd here.symm used
  | succ k =>
    have bound := size_lt head tail
    rw [known, ← cell_next] at here
    rw [size_of_cell head (next tail) (by omega) here]

theorem content_pop (used : head ≠ tail) : content buf head tail = buf[tail] ::
    content buf head (next tail) := by
  simp only [content, size_pop head tail used, List.range_succ_eq_map, List.map_cons, List.map_map, cell_zero]
  congr 1
  apply List.map_congr_left
  intro k _
  simp only [Function.comp_apply, Nat.succ_eq_add_one, cell_next]

end Shared.Ring
