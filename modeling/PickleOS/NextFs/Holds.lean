import PickleOS.NextFs.Steps
import PickleOS.Shared.Ledger

set_option autoImplicit false

namespace PickleOS.NextFs

open Shared Shared.Outcome

/-- Where an inode refers to a block: a logical block index, through a direct pointer or an entry of the
indirect block, or the indirect block itself. -/
inductive Place where
  | data (k : Fin 137)
  | indirect
  deriving DecidableEq

/-- A block pointer as a reference; 0 refers to nothing. -/
def target (pointer : UInt32) : Option Nat := if pointer = 0 then none else some pointer.toNat

@[simp] theorem target_zero : target 0 = none := rfl

theorem target_eq_some {pointer : UInt32} {b : Nat} :
    target pointer = some b ↔ pointer ≠ 0 ∧ pointer.toNat = b := by
  unfold target
  split <;> simp_all

theorem target_eq_none {pointer : UInt32} : target pointer = none ↔ pointer = 0 := by
  unfold target
  split <;> simp_all

theorem target_ofNat {b : Nat} (nonzero : b ≠ 0) (bound : b < 2 ^ 32) : target (UInt32.ofNat b) = some b := by
  have value : (UInt32.ofNat b).toNat = b := UInt32.toNat_ofNat_of_lt' bound
  rw [target_eq_some]
  refine ⟨?_, value⟩
  intro zero
  rw [zero] at value
  exact nonzero value.symm

namespace Inode

/-- Pointer of a logical block index below `9 + 128`. -/
def pointer (v : Inode) (data : Nat → Block) (k : Nat) : UInt32 :=
  if h : k < directPtrs then v.direct ⟨k, h⟩
  else if v.indirect = 0 then 0
  else (data v.indirect.toNat).pointer (k - directPtrs)

def holds (v : Inode) (data : Nat → Block) : Place → Option Nat
  | .data k => target (v.pointer data k)
  | .indirect => target v.indirect

theorem pointer_direct (v : Inode) (data : Nat → Block) {k : Nat} (h : k < 9) :
    v.pointer data k = v.direct ⟨k, h⟩ := dif_pos h

theorem pointer_entry (v : Inode) (data : Nat → Block) {k : Nat} (h : ¬k < 9) (indirect : v.indirect ≠ 0) :
    v.pointer data k = (data v.indirect.toNat).pointer (k - 9) := by
  rw [pointer, dif_neg h, if_neg indirect]

theorem pointer_hole (v : Inode) (data : Nat → Block) {k : Nat} (h : ¬k < 9) (indirect : v.indirect = 0) :
    v.pointer data k = 0 := by
  rw [pointer, dif_neg h, if_pos indirect]

theorem holds_congr (v : Inode) {data data' : Nat → Block}
    (same : ∀ b, v.holds data .indirect = some b → data' b = data b) : v.holds data' = v.holds data := by
  -- Only the contents of the indirect block matter for what an inode holds.
  funext p
  cases p with
  | indirect => rfl
  | data k =>
    simp only [holds, pointer]
    split
    · rfl
    · split
      · rfl
      next indirect =>
        rw [same v.indirect.toNat (target_eq_some.mpr ⟨indirect, rfl⟩)]

theorem holds_direct (v : Inode) (data : Nat → Block) {k : Nat} (h : k < 9) {b : Nat} (pointer : UInt32)
    (value : target pointer = some b) :
    ({ v with direct := Function.update v.direct ⟨k, h⟩ pointer } : Inode).holds data =
      Function.update (v.holds data) (.data ⟨k, by omega⟩) (some b) := by
  funext p
  cases p with
  | indirect => simp [holds]
  | data j =>
    by_cases same : j.val = k
    · have place : Place.data j = .data ⟨k, by omega⟩ := by simp [Fin.ext_iff, same]
      rw [place, Function.update_self]
      simp [holds, Inode.pointer, h, value]
    · have place : Place.data j ≠ .data ⟨k, by omega⟩ := by simp [Fin.ext_iff, same]
      rw [Function.update_of_ne place]
      simp only [holds, Inode.pointer]
      split
      · rw [Function.update_of_ne (by simp [Fin.ext_iff, same])]
      · rfl

theorem holds_indirect (v : Inode) (data : Nat → Block) (hole : v.indirect = 0) {b : Nat} (pointer : UInt32)
    (value : target pointer = some b) :
    ({ v with indirect := pointer } : Inode).holds (Function.update data b Block.zero) =
      Function.update (v.holds data) .indirect (some b) := by
  obtain ⟨nonzero, number⟩ := target_eq_some.mp value
  funext p
  cases p with
  | indirect => simp [holds, value]
  | data k =>
    rw [Function.update_of_ne (by simp)]
    simp only [holds, Inode.pointer, hole, nonzero, if_true, if_false, number, Function.update_self]
    split
    · rfl
    · rw [Block.pointer_zero _ (by simp only [directPtrs]; omega)]

theorem holds_entry (v : Inode) (data : Nat → Block) (indirect : v.indirect ≠ 0) {k : Nat} (low : ¬k < 9)
    (high : k < 137) {b : Nat} (pointer : UInt32) (value : target pointer = some b) :
    v.holds (Function.update data v.indirect.toNat
        ((data v.indirect.toNat).setPointer (k - 9) pointer)) =
      Function.update (v.holds data) (.data ⟨k, high⟩) (some b) := by
  funext p
  cases p with
  | indirect => simp [holds]
  | data j =>
    by_cases same : j.val = k
    · have place : Place.data j = .data ⟨k, high⟩ := by simp [Fin.ext_iff, same]
      rw [place, Function.update_self]
      simp only [holds, Inode.pointer, dif_neg low, if_neg indirect, Function.update_self,
        Block.pointer_setPointer _ _ _ _ (show k - 9 < 128 by omega), if_true, value]
    · have place : Place.data j ≠ .data ⟨k, high⟩ := by simp [Fin.ext_iff, same]
      rw [Function.update_of_ne place]
      simp only [holds, Inode.pointer, if_neg indirect, Function.update_self]
      split
      · rfl
      next range =>
        have different : j.val - 9 ≠ k - 9 := by
          simp only [directPtrs] at range
          omega
        rw [Block.pointer_setPointer _ _ _ _ (by omega), if_neg different]

end Inode

end PickleOS.NextFs
