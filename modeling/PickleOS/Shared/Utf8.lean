import Mathlib.Data.List.Basic

set_option autoImplicit false

namespace Shared.Utf8

/-- A continuation byte `10xxxxxx`. -/
def continuation (byte : UInt8) : Bool := 0x80 ≤ byte && byte ≤ 0xBF

-- Second byte after a three-byte lead: no overlong forms after E0, no surrogates after ED.
def secondOfThree (lead byte : UInt8) : Bool :=
  if lead = 0xE0 then 0xA0 ≤ byte && byte ≤ 0xBF
  else if lead = 0xED then 0x80 ≤ byte && byte ≤ 0x9F
  else continuation byte

-- Second byte after a four-byte lead: no overlong forms after F0, nothing above U+10FFFF after F4.
def secondOfFour (lead byte : UInt8) : Bool :=
  if lead = 0xF0 then 0x90 ≤ byte && byte ≤ 0xBF
  else if lead = 0xF4 then 0x80 ≤ byte && byte ≤ 0x8F
  else continuation byte

def valid : List UInt8 → Bool
  | [] => true
  | lead :: rest =>
    if lead < 0x80 then valid rest
    else if 0xC2 ≤ lead ∧ lead ≤ 0xDF then
      match rest with
      | b :: rest => continuation b && valid rest
      | _ => false
    else if 0xE0 ≤ lead ∧ lead ≤ 0xEF then
      match rest with
      | b :: c :: rest => secondOfThree lead b && continuation c && valid rest
      | _ => false
    else if 0xF0 ≤ lead ∧ lead ≤ 0xF4 then
      match rest with
      | b :: c :: d :: rest => secondOfFour lead b && continuation c && continuation d && valid rest
      | _ => false
    else false

theorem continuation_ascii {byte : UInt8} (ascii : byte < 0x80) : continuation byte = false := by
  simp only [continuation, Bool.and_eq_false_iff, decide_eq_false_iff_not]
  exact Or.inl (UInt8.not_le.mpr ascii)

theorem secondOfThree_ascii {lead byte : UInt8} (ascii : byte < 0x80) :
    secondOfThree lead byte = false := by
  have low : byte.toNat < 128 := ascii
  unfold secondOfThree
  split
  · simp [UInt8.le_iff_toNat_le]
    omega
  · split
    · simp [UInt8.le_iff_toNat_le]
      omega
    · exact continuation_ascii ascii

theorem secondOfFour_ascii {lead byte : UInt8} (ascii : byte < 0x80) :
    secondOfFour lead byte = false := by
  have low : byte.toNat < 128 := ascii
  unfold secondOfFour
  split
  · simp [UInt8.le_iff_toNat_le]
    omega
  · split
    · simp [UInt8.le_iff_toNat_le]
      omega
    · exact continuation_ascii ascii

theorem valid_after_ascii {back : List UInt8} {byte : UInt8} (ascii : byte < 0x80) :
    ∀ front : List UInt8, valid (front ++ byte :: back) = true → valid back = true
  | [], whole => by
    rw [List.nil_append, valid.eq_def] at whole
    simpa only [ascii, if_true] using whole
  | lead :: front, whole => by
    rw [List.cons_append, valid.eq_def] at whole
    dsimp only at whole
    split at whole
    · exact valid_after_ascii ascii front whole
    split at whole
    · match front, whole with
      | [], whole => simp [continuation_ascii ascii] at whole
      | b :: front, whole =>
        simp only [List.cons_append, Bool.and_eq_true] at whole
        exact valid_after_ascii ascii front whole.2
    split at whole
    · match front, whole with
      | [], whole => cases back <;> simp [secondOfThree_ascii ascii] at whole
      | [b], whole => simp [continuation_ascii ascii] at whole
      | b :: c :: front, whole =>
        simp only [List.cons_append, Bool.and_eq_true] at whole
        exact valid_after_ascii ascii front whole.2
    split at whole
    · match front, whole with
      | [], whole =>
        rcases back with _ | ⟨c, _ | ⟨d, back⟩⟩ <;> simp [secondOfFour_ascii ascii] at whole
      | [b], whole => cases back <;> simp [continuation_ascii ascii] at whole
      | [b, c], whole => simp [continuation_ascii ascii] at whole
      | b :: c :: d :: front, whole =>
        simp only [List.cons_append, Bool.and_eq_true] at whole
        exact valid_after_ascii ascii front whole.2
    · simp at whole

theorem valid_before_ascii {back : List UInt8} {byte : UInt8} (ascii : byte < 0x80) :
    ∀ front : List UInt8, valid (front ++ byte :: back) = true → valid front = true
  | [], _ => rfl
  | lead :: front, whole => by
    rw [List.cons_append, valid.eq_def] at whole
    rw [valid.eq_def]
    dsimp only at whole ⊢
    by_cases one : lead < 0x80
    · rw [if_pos one] at whole ⊢
      exact valid_before_ascii ascii front whole
    rw [if_neg one] at whole ⊢
    by_cases two : 0xC2 ≤ lead ∧ lead ≤ 0xDF
    · rw [if_pos two] at whole ⊢
      match front, whole with
      | [], whole => simp [continuation_ascii ascii] at whole
      | b :: front, whole =>
        simp only [List.cons_append, Bool.and_eq_true] at whole ⊢
        exact ⟨whole.1, valid_before_ascii ascii front whole.2⟩
    rw [if_neg two] at whole ⊢
    by_cases three : 0xE0 ≤ lead ∧ lead ≤ 0xEF
    · rw [if_pos three] at whole ⊢
      match front, whole with
      | [], whole => cases back <;> simp [secondOfThree_ascii ascii] at whole
      | [b], whole => simp [continuation_ascii ascii] at whole
      | b :: c :: front, whole =>
        simp only [List.cons_append, Bool.and_eq_true] at whole ⊢
        exact ⟨whole.1, valid_before_ascii ascii front whole.2⟩
    rw [if_neg three] at whole ⊢
    by_cases four : 0xF0 ≤ lead ∧ lead ≤ 0xF4
    · rw [if_pos four] at whole ⊢
      match front, whole with
      | [], whole =>
        rcases back with _ | ⟨c, _ | ⟨d, back⟩⟩ <;> simp [secondOfFour_ascii ascii] at whole
      | [b], whole => cases back <;> simp [continuation_ascii ascii] at whole
      | [b, c], whole => simp [continuation_ascii ascii] at whole
      | b :: c :: d :: front, whole =>
        simp only [List.cons_append, Bool.and_eq_true] at whole ⊢
        exact ⟨whole.1, valid_before_ascii ascii front whole.2⟩
    · rw [if_neg four] at whole
      cases whole

end Shared.Utf8
