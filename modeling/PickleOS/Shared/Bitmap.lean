import Mathlib.Data.List.Count
import Mathlib.Algebra.Group.Nat.Defs
import Mathlib.Data.Nat.Bitwise
import Mathlib.Tactic.IntervalCases

set_option autoImplicit false

namespace Shared.Bitmap

/-- Bit `n` of a byte array, lowest bit of byte 0 first. A bit past the end reads as clear. -/
def test (bits : List UInt8) (n : Nat) : Bool :=
  bits.getD (n / 8) 0 &&& (1 <<< UInt8.ofNat (n % 8)) ≠ 0

/-- Set or clear bit `n`. A bit past the end is left alone. -/
def put (bits : List UInt8) (n : Nat) (value : Bool) : List UInt8 :=
  bits.modify (n / 8) fun byte =>
    if value then byte ||| (1 <<< UInt8.ofNat (n % 8)) else byte &&& ~~~(1 <<< UInt8.ofNat (n % 8))

@[simp] theorem put_length (bits : List UInt8) (n : Nat) (value : Bool) :
    (put bits n value).length = bits.length := by
  simp [put]

private theorem mask_bits (k : Nat) (inside : k < 8) :
    (1 <<< UInt8.ofNat k : UInt8).toBitVec = BitVec.twoPow 8 k := by
  interval_cases k <;> decide

private theorem masked (byte : UInt8) (k : Nat) (inside : k < 8) :
    decide (byte &&& (1 <<< UInt8.ofNat k) ≠ 0) = byte.toBitVec.getLsbD k := by
  have zero : byte &&& (1 <<< UInt8.ofNat k) = 0 ↔ byte.toBitVec &&& BitVec.twoPow 8 k = 0#8 := by
    rw [← UInt8.toBitVec_inj, UInt8.toBitVec_and, mask_bits k inside]
    rfl
  have nonzero : BitVec.twoPow 8 k ≠ 0#8 := by interval_cases k <;> decide
  simp only [ne_eq, zero, BitVec.and_twoPow]
  cases byte.toBitVec.getLsbD k <;> simp [nonzero]

theorem test_eq (bits : List UInt8) (n : Nat) :
    test bits n = (bits.getD (n / 8) 0).toBitVec.getLsbD (n % 8) :=
  masked _ _ (Nat.mod_lt _ (by decide))

theorem test_put (bits : List UInt8) (n m : Nat) (value : Bool) (inside : n / 8 < bits.length) :
    test (put bits n value) m = if m = n then value else test bits m := by
  have lower : n % 8 < 8 := Nat.mod_lt _ (by decide)
  have lower' : m % 8 < 8 := Nat.mod_lt _ (by decide)
  rw [test_eq, test_eq, put]
  by_cases same : m / 8 = n / 8
  · have index : m = n ↔ m % 8 = n % 8 := by omega
    simp only [List.getD_eq_getElem?_getD, List.getElem?_modify, same, if_true,
      List.getElem?_eq_getElem inside, Option.getD_some, index]
    by_cases shift : m % 8 = n % 8
    · cases value <;> simp [mask_bits _ lower, lower, shift]
    · cases value <;> simp [mask_bits _ lower, lower', shift]
  · have different : m ≠ n := by rintro rfl; exact same rfl
    simp [Ne.symm same, different]

theorem test_of_length_le (bits : List UInt8) (n : Nat) (outside : bits.length ≤ n / 8) :
    test bits n = false := by
  simp [test_eq, List.getElem?_eq_none outside]

theorem ext_test {left right : List UInt8} (length : left.length = right.length)
    (bits : ∀ n, test left n = test right n) : left = right := by
  apply List.ext_getElem length
  intro k hleft hright
  apply UInt8.toBitVec_inj.mp
  apply BitVec.eq_of_getLsbD_eq
  intro i small
  have h := bits (8 * k + i)
  have index : (8 * k + i) / 8 = k := by omega
  have shift : (8 * k + i) % 8 = i := by omega
  simpa [test_eq, index, shift, List.getElem?_eq_getElem hleft, List.getElem?_eq_getElem hright] using h

/-- First bit of the window `[lo, lo + n)` with the wanted value. -/
def first (bits : List UInt8) (want : Bool) (lo n : Nat) : Option Nat :=
  (List.range' lo n).find? fun k => test bits k == want

theorem first_some {bits : List UInt8} {want : Bool} {lo n k : Nat} (found : first bits want lo n = some k) :
    lo ≤ k ∧ k < lo + n ∧ test bits k = want := by
  have value := List.find?_some found
  have member := List.mem_of_find?_eq_some found
  simp only [List.mem_range'_1] at member
  exact ⟨member.1, member.2, by simpa using value⟩

/-- Number of bits of the window `[lo, lo + n)` with the wanted value. -/
def count (bits : List UInt8) (want : Bool) (lo n : Nat) : Nat :=
  (List.range' lo n).countP fun k => test bits k == want

private theorem countP_flip {p q : Nat → Bool} {k : Nat} (was : p k = false) (now : q k = true)
    (others : ∀ j, j ≠ k → q j = p j) (keys : List Nat) (distinct : keys.Nodup) (member : k ∈ keys) :
    keys.countP q = keys.countP p + 1 := by
  induction keys with
  | nil => simp at member
  | cons key rest ih =>
    obtain ⟨fresh, distinct⟩ := List.nodup_cons.mp distinct
    rcases List.mem_cons.mp member with same | member
    · subst same
      have tail : rest.countP q = rest.countP p :=
        List.countP_congr fun j inside => by
          rw [others j (by rintro rfl; exact fresh inside)]
      simp [was, now, tail]
    · have different : key ≠ k := by rintro rfl; exact fresh member
      have tail := ih distinct member
      simp only [List.countP_cons, others key different, tail]
      omega

theorem count_put {bits : List UInt8} {want : Bool} {lo n k : Nat} (low : lo ≤ k) (high : k < lo + n)
    (inside : k / 8 < bits.length) (was : test bits k ≠ want) :
    count (put bits k want) want lo n = count bits want lo n + 1 := by
  apply countP_flip (k := k)
  · simpa using was
  · simp [test_put bits k k want inside]
  · intro j different
    simp [test_put bits k j want inside, different]
  · exact List.nodup_range'
  · exact List.mem_range'_1.mpr ⟨low, high⟩

theorem count_put_not {bits : List UInt8} {want : Bool} {lo n k : Nat} (low : lo ≤ k) (high : k < lo + n)
    (inside : k / 8 < bits.length) (was : test bits k = want) :
    count (put bits k !want) want lo n + 1 = count bits want lo n := by
  symm
  apply countP_flip (k := k)
  · simp [test_put bits k k _ inside]
  · simpa using was
  · intro j different
    simp [test_put bits k j _ inside, different]
  · exact List.nodup_range'
  · exact List.mem_range'_1.mpr ⟨low, high⟩

end Shared.Bitmap
