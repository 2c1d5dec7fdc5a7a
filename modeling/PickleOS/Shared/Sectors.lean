import PickleOS.Shared.Sparse

set_option autoImplicit false

/-!
# Sectors

A store of sectors of one size, read and written as a row of bytes that starts with some sector.
-/

namespace Shared.Sectors

variable {size : Nat} {disk : Nat → Nat → UInt8} {lba : Nat}

def byteFrom (size : Nat) (disk : Nat → Nat → UInt8) (lba k : Nat) : UInt8 := disk (lba + k / size) (k % size)

def load (size : Nat) (disk : Nat → Nat → UInt8) (lba n : Nat) : List UInt8 :=
  (List.range n).map (byteFrom size disk lba)

def store (size : Nat) (disk : Nat → Nat → UInt8) (lba : Nat) (data : List UInt8) : Nat → Nat → UInt8 :=
  fun sector k =>
  if lba ≤ sector ∧ k < size ∧ (sector - lba) * size + k < data.length then
    data.getD ((sector - lba) * size + k) 0
  else disk sector k

@[simp] theorem load_length (size : Nat) (disk : Nat → Nat → UInt8) (lba n : Nat) :
  (load size disk lba n).length = n := by
  simp [load]

theorem getD_load {n k : Nat} (inside : k < n) :
    (load size disk lba n).getD k 0 = byteFrom size disk lba k := by
  simp [load, List.getD_eq_getElem?_getD, inside]

theorem byteFrom_store (positive : 0 < size) (data : List UInt8) {k : Nat} (inside : k < data.length) :
    byteFrom size (store size disk lba data) lba k = data.getD k 0 := by
  have whole : k / size * size + k % size = k := Nat.div_add_mod' k size
  rw [byteFrom, store, Nat.add_sub_cancel_left, whole,
    if_pos ⟨Nat.le_add_right .., Nat.mod_lt _ positive, inside⟩]

theorem byteFrom_store_beyond (data : List UInt8) {k : Nat} (beyond : data.length ≤ k) :
    byteFrom size (store size disk lba data) lba k = byteFrom size disk lba k := by
  have whole : k / size * size + k % size = k := Nat.div_add_mod' k size
  rw [byteFrom, store, Nat.add_sub_cancel_left, whole, if_neg (by omega), byteFrom]

theorem store_elsewhere {count sector : Nat} (data : List UInt8) (length : data.length ≤ count * size)
    (off : ¬(lba ≤ sector ∧ sector < lba + count)) (k : Nat) :
      store size disk lba data sector k = disk sector k := by
  rw [store, if_neg]
  rintro ⟨later, _, inside⟩
  have beyond : count * size ≤ (sector - lba) * size := Nat.mul_le_mul_right size (by omega)
  omega

end Shared.Sectors
