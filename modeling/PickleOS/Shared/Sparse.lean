import PickleOS.Shared.Bytes

set_option autoImplicit false

namespace Shared

namespace Bytes

/-- The bytes `byte` with `data` written over them from `off` on. -/
def overlay (byte : Nat → UInt8) (off : Nat) (data : List UInt8) (p : Nat) : UInt8 :=
  if off ≤ p ∧ p < off + data.length then data.getD (p - off) 0 else byte p

variable (byte : Nat → UInt8) (off : Nat)

@[simp] theorem overlay_nil : overlay byte off [] = byte := by
  funext p
  rw [overlay, if_neg (by simp)]

theorem overlay_append (first second : List UInt8) :
    overlay (overlay byte off first) (off + first.length) second = overlay byte off (first ++ second) := by
  funext p
  simp only [overlay, List.length_append, List.getD_eq_getElem?_getD]
  by_cases later : off + first.length ≤ p
  · rw [List.getElem?_append_right (by omega), show p - off - first.length = p - (off + first.length) by omega]
    split
    next => rw [if_pos (by omega)]
    next => rw [if_neg (by omega), if_neg (by omega)]
  · rw [if_neg (by omega)]
    split
    next inside => rw [if_pos (by omega), List.getElem?_append_left (by omega)]
    next => rw [if_neg (by omega)]

theorem overlay_add (data : List UInt8) (k : Nat) :
    overlay byte off data (off + k) = if k < data.length then data.getD k 0 else byte (off + k) := by
  simp only [overlay, Nat.le_add_right, true_and, Nat.add_lt_add_iff_left, Nat.add_sub_cancel_left]

theorem overlay_below (data : List UInt8) {p : Nat} (below : p < off) : overlay byte off data p = byte p :=
  if_neg fun both => Nat.not_le_of_gt below both.1

theorem getD_splice (bytes : List UInt8) (data : List UInt8) (room : off + data.length ≤ bytes.length)
    (k : Nat) :
    (splice bytes off data).getD k 0 = overlay (fun j => bytes.getD j 0) off data k := by
  rw [List.getD_eq_getElem?_getD, getElem?_splice _ _ _ _ room, overlay]
  split <;> rw [List.getD_eq_getElem?_getD]

theorem slice_eq_map (bytes : List UInt8) (n : Nat) (room : off + n ≤ bytes.length) :
    slice bytes off n = (List.range' off n).map fun k => bytes.getD k 0 := by
  apply List.ext_getElem
  · simp only [slice, List.length_take, List.length_drop, List.length_map, List.length_range']
    omega
  · intro k inside _
    have below : off + k < bytes.length := by
      simp only [slice, List.length_take, List.length_drop] at inside
      omega
    simp [slice, below]

end Bytes

/-- A byte array that reads as zero wherever it was not written. -/
structure Sparse where
  size : Nat
  byte : Nat → UInt8

namespace Sparse

def empty : Sparse := { size := 0, byte := fun _ => 0 }

def write (a : Sparse) (off : Nat) (data : List UInt8) : Sparse where
  size := max a.size (off + data.length)
  byte := Bytes.overlay a.byte off data

def read (a : Sparse) (off len : Nat) : List UInt8 := (List.range' off (min len (a.size - off))).map a.byte

def ofWrites : List (Nat × List UInt8) → Sparse
  | [] => empty
  | (off, data) :: earlier => (ofWrites earlier).write off data

theorem size_ofWrites (ws : List (Nat × List UInt8)) :
    (ofWrites ws).size = (ws.map fun w => w.1 + w.2.length).foldr max 0 := by
  induction ws with
  | nil => rfl
  | cons w earlier ih =>
    rw [List.map_cons, List.foldr_cons, ← ih, Nat.max_comm]
    rfl

end Sparse

end Shared
