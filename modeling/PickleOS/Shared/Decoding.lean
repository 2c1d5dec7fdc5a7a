import Mathlib.Data.List.Basic
import PickleOS.Shared.Utf8

set_option autoImplicit false

namespace Shared.Utf8

def encode (text : List Char) : List UInt8 := text.flatMap String.utf8EncodeChar

def decodeChar (bytes : List UInt8) : Option Char := bytes.toByteArray.utf8DecodeChar? 0

/-- How many bytes one replacement character stands for, where no character starts: those that a character
could start with. -/
def brokenLength : List UInt8 → Nat
  | lead :: b :: rest =>
    if 0xE0 ≤ lead ∧ lead ≤ 0xEF then if secondOfThree lead b then 2 else 1
    else if 0xF0 ≤ lead ∧ lead ≤ 0xF4 ∧ secondOfFour lead b then if rest.head?.any continuation then 3 else 2
    else 1
  | _ => 1

def lossyAux : Nat → List UInt8 → List Char
  | 0, _ => []
  | _ + 1, [] => []
  | fuel + 1, lead :: rest =>
    match decodeChar (lead :: rest) with
    | some c => c :: lossyAux fuel ((lead :: rest).drop c.utf8Size)
    | none => '\uFFFD' :: lossyAux fuel ((lead :: rest).drop (brokenLength (lead :: rest)))

/-- `String::from_utf8_lossy`. -/
def lossy (bytes : List UInt8) : List Char := lossyAux bytes.length bytes

theorem encode_cons (c : Char) (rest : List Char) :
    encode (c :: rest) = String.utf8EncodeChar c ++ encode rest := List.flatMap_cons

theorem decodeChar_encode (c : Char) (rest : List UInt8) :
    decodeChar (String.utf8EncodeChar c ++ rest) = some c := by
  rw [decodeChar, List.toByteArray_append]
  exact ByteArray.utf8DecodeChar?_utf8EncodeChar_append

theorem length_utf8EncodeChar_pos (c : Char) : 0 < (String.utf8EncodeChar c).length := by
  rw [String.length_utf8EncodeChar]
  exact Char.utf8Size_pos c

theorem lossyAux_encode (text : List Char) {fuel : Nat} (enough : (encode text).length ≤ fuel) :
    lossyAux fuel (encode text) = text := by
  induction text generalizing fuel with
  | nil => cases fuel <;> rfl
  | cons c rest ih =>
    have positive := length_utf8EncodeChar_pos c
    rw [encode_cons, List.length_append] at enough
    obtain ⟨fuel, rfl⟩ : ∃ less, fuel = less + 1 := ⟨fuel - 1, by omega⟩
    obtain ⟨lead, more, split⟩ := List.exists_cons_of_length_pos positive
    have shape : encode (c :: rest) = lead :: (more ++ encode rest) := by
      rw [encode_cons, split, List.cons_append]
    have decoded : decodeChar (lead :: (more ++ encode rest)) = some c := by
      rw [← shape, encode_cons]
      exact decodeChar_encode c (encode rest)
    have next : (lead :: (more ++ encode rest)).drop c.utf8Size = encode rest := by
      rw [← shape, encode_cons, ← String.length_utf8EncodeChar, List.drop_left]
    rw [shape, lossyAux, decoded]
    dsimp only
    rw [next, ih (by omega)]

theorem lossy_encode (text : List Char) : lossy (encode text) = text := lossyAux_encode text (Nat.le_refl _)

end Shared.Utf8
