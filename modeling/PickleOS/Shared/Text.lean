import Mathlib.Algebra.GroupWithZero.Nat
import Mathlib.Data.List.DropRight

set_option autoImplicit false

namespace Shared.Text

/-! ### Lines -/

/-- A line without the carriage return at its end. -/
def stripReturn (line : List Char) : List Char := if line.getLast? = some '\r' then line.dropLast else line

/-- `str::lines`: nothing follows the last newline unless it has a character. -/
def lines (text : List Char) : List (List Char) :=
  let parts := text.splitOn '\n'
  parts.dropLast.map stripReturn ++ parts.getLast?.toList.filter (· ≠ [])

/-- Each line with its newline. -/
def terminated (lines : List (List Char)) : List Char := lines.flatMap (· ++ ['\n'])

theorem splitOn_terminated {lines : List (List Char)} (whole : ∀ line ∈ lines, '\n' ∉ line) :
    (terminated lines).splitOn '\n' = lines ++ [[]] := by
  induction lines with
  | nil => rfl
  | cons line rest ih =>
    have tail := ih fun other member => whole other (.tail _ member)
    rw [terminated, List.flatMap_cons, List.append_assoc, List.singleton_append,
      List.splitOn_append_cons_self_of_not_mem (whole line (.head _))]
    exact congrArg (line :: ·) tail

theorem length_splitOn_terminated (lines : List (List Char)) :
    ∃ more, ((terminated lines).splitOn '\n').length = lines.length + 1 + more := by
  induction lines with
  | nil => exact ⟨0, rfl⟩
  | cons line rest ih =>
    obtain ⟨more, length⟩ := ih
    have positive := List.length_pos_of_ne_nil (List.splitOn_ne_nil '\n' line)
    rw [terminated] at length
    rw [terminated, List.flatMap_cons, List.append_assoc, List.singleton_append,
      List.splitOn_append_cons_self, List.length_append,
      length, List.length_cons]
    exact ⟨(line.splitOn '\n').length - 1 + more, by omega⟩

theorem lines_terminated {texts : List (List Char)} (whole : ∀ line ∈ texts, '\n' ∉ line)
    (plain : ∀ line ∈ texts, line.getLast? ≠ some '\r') : lines (terminated texts) = texts := by
  rw [lines, splitOn_terminated whole, List.dropLast_concat, List.getLast?_concat]
  have kept : texts.map stripReturn = texts.map id := List.map_congr_left fun line member =>
    if_neg (plain line member)
  rw [kept, List.map_id]
  exact List.append_nil texts

theorem terminated_eq_intercalate {lines : List (List Char)} (filled : lines ≠ []) :
    ['\n'].intercalate lines ++ ['\n'] = terminated lines := by
  induction lines with
  | nil => exact absurd rfl filled
  | cons line rest ih =>
    cases rest with
    | nil => simp [terminated]
    | cons next rest =>
      have tail := ih (by simp)
      rw [List.intercalate_cons_cons, List.append_assoc, List.append_assoc, tail]
      simp [terminated]

/-! ### Blanks -/

/-- `char::is_whitespace`. -/
def isWhitespace (c : Char) : Bool :=
  (9 ≤ c.toNat && c.toNat ≤ 13) || c.toNat = 0x20 || c.toNat = 0x85 || c.toNat = 0xA0 || c.toNat = 0x1680 ||
    (0x2000 ≤ c.toNat && c.toNat ≤ 0x200A) || c.toNat = 0x2028 || c.toNat = 0x2029 || c.toNat = 0x202F ||
      c.toNat = 0x205F ||
    c.toNat = 0x3000

def trim (text : List Char) : List Char := (text.dropWhile isWhitespace).rdropWhile isWhitespace

theorem getLast?_of_trim {text : List Char} (trimmed : trim text = text)
    {c : Char} (last : text.getLast? = some c) :
    isWhitespace c = false := by
  rw [← trimmed] at last
  have filled : trim text ≠ [] := by
    intro empty
    rw [empty] at last
    cases last
  rw [List.getLast?_eq_getLast_of_ne_nil filled, Option.some_inj] at last
  have black := List.rdropWhile_last_not isWhitespace (text.dropWhile isWhitespace) filled
  rw [← last]
  exact Bool.eq_false_iff.mpr black

/-! ### Positions in bytes -/

/-- `str::len`. -/
def size (text : List Char) : Nat := (text.map Char.utf8Size).sum

/-- `str::split_at`, which stops where `index` is in the middle of a character or behind the end. -/
def splitAt : List Char → Nat → Option (List Char × List Char)
  | text, 0 => some ([], text)
  | [], _ + 1 => none
  | c :: text, index + 1 =>
    if index + 1 < c.utf8Size then none
    else (splitAt text (index + 1 - c.utf8Size)).map fun parts => (c :: parts.1, parts.2)

/-- `String::insert`. -/
def insert (text : List Char) (index : Nat) (c : Char) : Option (List Char) :=
  (splitAt text index).map fun parts => parts.1 ++ c :: parts.2

/-- `String::remove`. -/
def remove (text : List Char) (index : Nat) : Option (List Char) :=
  match splitAt text index with
  | some (front, _ :: back) => some (front ++ back)
  | _ => none

@[simp] theorem size_nil : size [] = 0 := rfl

@[simp] theorem size_cons (c : Char) (text : List Char) : size (c :: text) = c.utf8Size + size text := by
  rw [size, List.map_cons, List.sum_cons, size]

@[simp] theorem size_append (front back : List Char) : size (front ++ back) = size front + size back := by
  rw [size, List.map_append, List.sum_append, size, size]

theorem splitAt_size (front back : List Char) : splitAt (front ++ back) (size front) = some (front, back) := by
  induction front with
  | nil => cases back <;> rfl
  | cons c rest ih =>
    obtain ⟨less, width⟩ := Nat.exists_eq_succ_of_ne_zero (Nat.pos_iff_ne_zero.mp (Char.utf8Size_pos c))
    have index : size (c :: rest) = less + size rest + 1 := by
      rw [size_cons, width]
      omega
    rw [List.cons_append, index, splitAt, if_neg (by omega), width,
      show less + size rest + 1 - less.succ = size rest by omega, ih]
    rfl

theorem splitAt_eq_some {text front back : List Char} {index : Nat} :
    splitAt text index = some (front, back) ↔ text = front ++ back ∧ index = size front := by
  refine ⟨fun split => ?_, fun ⟨whole, position⟩ => by rw [whole, position, splitAt_size]⟩
  induction text generalizing index front with
  | nil =>
    cases index with
    | zero =>
      cases split
      exact ⟨rfl, rfl⟩
    | succ index => cases split
  | cons c rest ih =>
    cases index with
    | zero =>
      cases split
      exact ⟨rfl, rfl⟩
    | succ index =>
      rw [splitAt] at split
      by_cases inside : index + 1 < c.utf8Size
      next =>
        rw [if_pos inside] at split
        cases split
      next =>
        rw [if_neg inside, Option.map_eq_some_iff] at split
        obtain ⟨parts, split, same⟩ := split
        cases same
        obtain ⟨whole, position⟩ := ih split
        exact ⟨by rw [List.cons_append, ← whole], by rw [size_cons]; omega⟩

theorem splitAt_inside {front back : List Char} {c : Char} {index : Nat} (behind : size front < index)
    (inside : index < size front + c.utf8Size) : splitAt (front ++ c :: back) index = none := by
  induction front generalizing index with
  | nil =>
    obtain ⟨less, rfl⟩ : ∃ less, index = less + 1 := ⟨index - 1, by omega⟩
    rw [size_nil, Nat.zero_add] at inside
    rw [List.nil_append, splitAt, if_pos inside]
  | cons d rest ih =>
    obtain ⟨less, rfl⟩ : ∃ less, index = less + 1 := ⟨index - 1, by omega⟩
    rw [size_cons] at behind inside
    rw [List.cons_append, splitAt, if_neg (by omega), ih (by omega) (by omega)]
    rfl

theorem remove_inside {front back : List Char} {c : Char} {index : Nat} (behind : size front < index)
    (inside : index < size front + c.utf8Size) : remove (front ++ c :: back) index = none := by
  rw [remove, splitAt_inside behind inside]

theorem insert_size (front back : List Char) (c : Char) :
    insert (front ++ back) (size front) c = some (front ++ c :: back) := by
  rw [insert, splitAt_size]
  rfl

theorem remove_size (front back : List Char) (c : Char) :
    remove (front ++ c :: back) (size front) = some (front ++ back) := by
  rw [remove, splitAt_size]

end Shared.Text
