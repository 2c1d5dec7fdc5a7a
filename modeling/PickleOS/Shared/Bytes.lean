import Mathlib.Data.List.Basic
import Mathlib.Algebra.GroupWithZero.Nat

set_option autoImplicit false

namespace Shared.Bytes

/-- The `width` low bytes of a number, least significant first. -/
def encode : Nat → Nat → List UInt8
  | 0, _ => []
  | width + 1, n => UInt8.ofNat n :: encode width (n / 256)

def decode : List UInt8 → Nat
  | [] => 0
  | byte :: rest => byte.toNat + 256 * decode rest

@[simp] theorem encode_length (width n : Nat) : (encode width n).length = width := by
  induction width generalizing n with
  | zero => rfl
  | succ width ih => simp [encode, ih]

@[simp] theorem decode_encode (width n : Nat) : decode (encode width n) = n % 256 ^ width := by
  induction width generalizing n with
  | zero => simp [encode, decode, Nat.mod_one]
  | succ width ih =>
    have low : (UInt8.ofNat n).toNat = n % 256 := by simp
    rw [encode, decode, ih, low, Nat.pow_succ, Nat.mul_comm (256 ^ width) 256, Nat.mod_mul]

theorem decode_append (first second : List UInt8) :
    decode (first ++ second) = decode first + 256 ^ first.length * decode second := by
  induction first with
  | nil => simp [decode]
  | cons byte rest ih =>
    rw [List.cons_append, decode, decode, ih, List.length_cons, Nat.pow_succ, Nat.mul_add, ← Nat.mul_assoc,
      Nat.mul_comm 256 (256 ^ rest.length), Nat.add_assoc]

theorem decode_replicate_zero (n : Nat) : decode (List.replicate n 0) = 0 := by
  induction n with
  | zero => rfl
  | succ n ih => simp [List.replicate_succ, decode, ih]

/-- A packed record: fields of given widths, one after the other without padding. -/
def pack : List (Nat × Nat) → List UInt8
  | [] => []
  | (width, n) :: rest => encode width n ++ pack rest

def unpack : List Nat → List UInt8 → List Nat
  | [], _ => []
  | width :: rest, bytes => decode (bytes.take width) :: unpack rest (bytes.drop width)

@[simp] theorem pack_length (fields : List (Nat × Nat)) :
    (pack fields).length = (fields.map Prod.fst).sum := by
  induction fields with
  | nil => rfl
  | cons field rest ih => simp [pack, ih]

theorem unpack_pack (fields : List (Nat × Nat)) :
    unpack (fields.map Prod.fst) (pack fields) = fields.map fun field => field.2 % 256 ^ field.1 := by
  induction fields with
  | nil => rfl
  | cons field rest ih => simp [pack, unpack, ih]

theorem unpack_zero (widths : List Nat) (n k : Nat) :
    (unpack widths (List.replicate n 0)).getD k 0 = 0 := by
  induction widths generalizing n k with
  | nil => rfl
  | cons width rest ih =>
    cases k with
    | zero => simp [unpack, List.take_replicate, decode_replicate_zero]
    | succ k => simpa [unpack, List.drop_replicate] using ih (n - width) k

/-- `n` bytes from offset `off` on. -/
def slice (bytes : List UInt8) (off n : Nat) : List UInt8 :=
  (bytes.drop off).take n

theorem pack_append (first second : List (Nat × Nat)) : pack (first ++ second) = pack first ++ pack second := by
  induction first with
  | nil => rfl
  | cons field rest ih => simp [pack, ih]

theorem slice_pack (before after : List (Nat × Nat)) (width n : Nat) :
    slice (pack (before ++ (width, n) :: after)) (before.map Prod.fst).sum width = encode width n := by
  have length := pack_length before
  rw [pack_append, pack, slice, ← length, List.drop_left]
  exact List.take_left' (encode_length width n)

/-- Overwrite the bytes from offset `off` on with `data`; the length stays as it is. -/
def splice (bytes : List UInt8) (off : Nat) (data : List UInt8) : List UInt8 :=
  (bytes.take off ++ data ++ bytes.drop (off + data.length)).take bytes.length

@[simp] theorem splice_length (bytes : List UInt8) (off : Nat) (data : List UInt8) :
    (splice bytes off data).length = bytes.length := by
  simp only [splice, List.length_take, List.length_append, List.length_drop]
  omega

theorem getElem?_splice (bytes : List UInt8) (off : Nat) (data : List UInt8) (k : Nat)
    (room : off + data.length ≤ bytes.length) :
    (splice bytes off data)[k]? =
      if off ≤ k ∧ k < off + data.length then data[k - off]? else bytes[k]? := by
  by_cases inside : k < bytes.length
  · simp only [splice, List.getElem?_take, inside, if_true, List.append_assoc]
    have prefixLength : (bytes.take off).length = off := by simp; omega
    by_cases before : k < off
    · rw [List.getElem?_append_left (by omega), List.getElem?_take, if_pos before, if_neg (by omega)]
    · have rest : (bytes.take off ++ (data ++ bytes.drop (off + data.length)))[k]? =
          (data ++ bytes.drop (off + data.length))[k - off]? := by
        rw [List.getElem?_append_right (by omega), prefixLength]
      rw [rest]
      by_cases covered : k < off + data.length
      · rw [if_pos ⟨by omega, covered⟩, List.getElem?_append_left (by omega)]
      · rw [if_neg (by omega), List.getElem?_append_right (by omega), List.getElem?_drop]
        congr 1
        omega
  · have outside : ¬(off ≤ k ∧ k < off + data.length) := by omega
    rw [if_neg outside, List.getElem?_eq_none (by simpa using inside),
      List.getElem?_eq_none (by simpa using inside)]

theorem slice_splice_same (bytes : List UInt8) (off : Nat) (data : List UInt8)
    (room : off + data.length ≤ bytes.length) : slice (splice bytes off data) off data.length = data := by
  apply List.ext_getElem?
  intro k
  simp only [slice, List.getElem?_take, List.getElem?_drop]
  by_cases inside : k < data.length
  · rw [if_pos inside, getElem?_splice _ _ _ _ room, if_pos (by omega)]
    congr 1
    omega
  · rw [if_neg inside, List.getElem?_eq_none (by omega)]

theorem slice_splice_part (bytes : List UInt8) (start off n : Nat) (data : List UInt8)
    (room : start + data.length ≤ bytes.length) (inside : off + n ≤ data.length) :
    slice (splice bytes start data) (start + off) n = slice data off n := by
  apply List.ext_getElem?
  intro k
  simp only [slice, List.getElem?_take, List.getElem?_drop]
  by_cases within : k < n
  · rw [if_pos within, if_pos within, getElem?_splice _ _ _ _ room, if_pos (by omega)]
    congr 1
    omega
  · rw [if_neg within, if_neg within]

theorem slice_splice_disjoint (bytes : List UInt8) (off n at' : Nat) (data : List UInt8)
    (room : off + data.length ≤ bytes.length) (disjoint : at' + n ≤ off ∨ off + data.length ≤ at') :
    slice (splice bytes off data) at' n = slice bytes at' n := by
  apply List.ext_getElem?
  intro k
  simp only [slice, List.getElem?_take, List.getElem?_drop]
  by_cases inside : k < n
  · rw [if_pos inside, if_pos inside, getElem?_splice _ _ _ _ room, if_neg (by omega)]
  · rw [if_neg inside, if_neg inside]

theorem splice_splice_same (bytes : List UInt8) (off : Nat) (first second : List UInt8)
    (length : first.length = second.length) (room : off + first.length ≤ bytes.length) :
    splice (splice bytes off first) off second = splice bytes off second := by
  apply List.ext_getElem?
  intro k
  rw [getElem?_splice _ _ _ _ (by rw [splice_length]; omega), getElem?_splice _ _ _ _ room,
    getElem?_splice _ _ _ _ (by omega), length]
  split <;> rfl

end Shared.Bytes
