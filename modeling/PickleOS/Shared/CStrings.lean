import PickleOS.Shared.Sparse

set_option autoImplicit false

/-!
# Words and strings in memory

A string ends with a zero byte, and an array of pointers with a zero word.
-/

namespace Shared.Bytes

variable {mem mem' : Nat → UInt8} {a b : Nat} {s t first second : List UInt8}

def Stands (mem : Nat → UInt8) (a : Nat) (bytes : List UInt8) : Prop :=
  (List.range' a bytes.length).map mem = bytes

theorem Stands.nil : Stands mem a [] := rfl

theorem stands_append : Stands mem a (first ++ second) ↔ Stands mem a first ∧
    Stands mem (a + first.length) second := by
  unfold Stands
  rw [List.length_append, ← List.range'_append_1, List.map_append]
  constructor
  · intro both
    exact List.append_inj both (by simp)
  · rintro ⟨left, right⟩
    rw [left, right]

theorem stands_cons {byte : UInt8} : Stands mem a (byte :: s) ↔ mem a = byte ∧ Stands mem (a + 1) s := by
  simp [Stands, List.range'_succ]

theorem Stands.congr (same : ∀ p, a ≤ p → p < a + s.length → mem' p = mem p) (stands : Stands mem a s) :
    Stands mem' a s := by
  refine (List.map_congr_left ?_).trans stands
  intro p inside
  have bounds := List.mem_range'_1.mp inside
  exact same p bounds.1 bounds.2

/-- Memory that is the same but `d` further up. -/
theorem Stands.shift {d : Nat} (same : ∀ p, a ≤ p → p < a + s.length → mem' (d + p) = mem p)
    (stands : Stands mem a s) :
    Stands mem' (d + a) s := by
  induction s generalizing a with
  | nil => exact .nil
  | cons byte rest ih =>
    obtain ⟨here, after⟩ := stands_cons.mp stands
    refine stands_cons.mpr ⟨?_, ?_⟩
    · rw [← here]
      exact same a (Nat.le_refl a) (by simp)
    · rw [Nat.add_assoc]
      refine ih ?_ after
      intro p low high
      refine same p (by omega) ?_
      simp only [List.length_cons]
      omega

/-- Two writes that have no byte in common. -/
def Apart (v w : Nat × List UInt8) : Prop := v.1 + v.2.length ≤ w.1 ∨ w.1 + w.2.length ≤ v.1

theorem stands_overlay (byte : Nat → UInt8) (a : Nat) (s : List UInt8) : Stands (overlay byte a s) a s := by
  apply List.ext_getElem
  · simp
  · intro k inside _
    simp only [List.length_map, List.length_range'] at inside
    simp [overlay, inside]

theorem stands_ofWrites {ws : List (Nat × List UInt8)} (apart : ws.Pairwise Apart) (written : (a, s) ∈ ws) :
    Stands (Sparse.ofWrites ws).byte a s := by
  induction ws with
  | nil => cases written
  | cons w earlier ih =>
    obtain ⟨off, data⟩ := w
    rw [List.pairwise_cons] at apart
    rcases List.mem_cons.mp written with last | before
    · cases last
      exact stands_overlay _ a s
    · refine (ih apart.2 before).congr ?_
      intro p low high
      have clear := apart.1 _ before
      simp only [Apart] at clear
      simp only [Sparse.ofWrites, Sparse.write, overlay]
      exact if_neg (by omega)

theorem length_words (words : List Nat) : (words.flatMap (encode 8)).length = 8 * words.length := by
  induction words with
  | nil => rfl
  | cons n rest ih =>
    rw [List.flatMap_cons, List.length_append, encode_length, ih, List.length_cons]
    omega

theorem stands_words {words : List Nat} (each : ∀ i n, words[i]? = some n → Stands mem (a + 8 * i)
    (encode 8 n)) :
    Stands mem a (words.flatMap (encode 8)) := by
  induction words generalizing a with
  | nil => exact .nil
  | cons n rest ih =>
    rw [List.flatMap_cons, stands_append, encode_length]
    refine ⟨each 0 n rfl, ih ?_⟩
    intro i m here
    rw [show a + 8 + 8 * i = a + 8 * (i + 1) by omega]
    exact each (i + 1) m here

def word (mem : Nat → UInt8) (a : Nat) : Nat := decode ((List.range' a 8).map mem)

theorem word_of_stands {n : Nat} (small : n < 2 ^ 64) (stands : Stands mem a (encode 8 n)) :
    word mem a = n := by
  unfold Stands at stands
  rw [encode_length] at stands
  rw [word, stands, decode_encode]
  exact Nat.mod_eq_of_lt small

inductive CString (mem : Nat → UInt8) : Nat → List UInt8 → Prop
  | nul {a : Nat} (here : mem a = 0) : CString mem a []
  | byte {a : Nat} {s : List UInt8} (here : mem a ≠ 0) (after : CString mem (a + 1) s) :
    CString mem a (mem a :: s)

theorem CString.unique (left : CString mem a s) (right : CString mem a t) : s = t := by
  induction left generalizing t with
  | nul here =>
    cases right with
    | nul => rfl
    | byte other => exact absurd here other
  | byte here _ ih =>
    cases right with
    | nul other => exact absurd other here
    | byte _ after => rw [ih after]

theorem CString.of_stands (clean : 0 ∉ s) (stands : Stands mem a (s ++ [0])) : CString mem a s := by
  induction s generalizing a with
  | nil => exact .nul (stands_cons.mp stands).1
  | cons byte rest ih =>
    simp only [List.mem_cons, not_or] at clean
    obtain ⟨rfl, after⟩ := stands_cons.mp stands
    exact .byte (Ne.symm clean.1) (ih clean.2 after)

/-- An array of pointers to strings, and the address behind its end. -/
inductive CStrings (mem : Nat → UInt8) : Nat → List (List UInt8) → Nat → Prop
  | null {a : Nat} (here : word mem a = 0) : CStrings mem a [] (a + 8)
  | entry {a next : Nat} {s : List UInt8} {rest : List (List UInt8)} (here : word mem a ≠ 0)
    (string : CString mem (word mem a) s)
      (after : CStrings mem (a + 8) rest next) : CStrings mem a (s :: rest) next

theorem CStrings.unique {ss ts : List (List UInt8)} {m n : Nat} (left : CStrings mem a ss m)
    (right : CStrings mem a ts n) :
    ss = ts ∧ m = n := by
  induction left generalizing ts n with
  | null here =>
    cases right with
    | null => exact ⟨rfl, rfl⟩
    | entry other => exact absurd here other
  | entry here string _ ih =>
    cases right with
    | null other => exact absurd other here
    | entry _ other after =>
      obtain ⟨rest, next⟩ := ih after
      exact ⟨by rw [string.unique other, rest], next⟩

theorem CStrings.of_stands {pointers : List Nat} {ss : List (List UInt8)}
    (strings : List.Forall₂ (fun p s => p ≠ 0 ∧ p < 2 ^ 64 ∧ CString mem p s) pointers ss)
    (stands : Stands mem a ((pointers ++ [0]).flatMap (encode 8))) :
      CStrings mem a ss (a + 8 * (pointers.length + 1)) := by
  induction strings generalizing a with
  | nil =>
    refine .null (word_of_stands (by decide) ?_)
    simpa using stands
  | @cons p s pointers ss head _ ih =>
    obtain ⟨nonzero, small, string⟩ := head
    rw [List.cons_append, List.flatMap_cons, stands_append, encode_length] at stands
    have here := word_of_stands small stands.1
    have after := ih stands.2
    rw [show a + 8 + 8 * (pointers.length + 1) = a + 8 *
      ((p :: pointers).length + 1) by rw [List.length_cons]; omega] at after
    exact .entry (by rwa [here]) (by rwa [here]) after

end Shared.Bytes
