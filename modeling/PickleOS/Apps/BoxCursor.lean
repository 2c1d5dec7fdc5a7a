import PickleOS.Apps.TextBox

set_option autoImplicit false

namespace PickleOS.Apps

open Shared Shared.Checked

namespace TextBox

/-- The cursor is between two characters. -/
def Placed (b : TextBox) : Prop := ∃ front back, b.text = front ++ back ∧ b.cursorPos = Text.size front

/-- No key makes the text longer than `max_length`. -/
def Capped (b : TextBox) : Prop :=
  ∀ event handled after, b.handleEvent event = .ok (handled, after) →
    Text.size after.text ≤ max (Text.size b.text) b.maxLength

def charBefore (b : TextBox) : Option Char :=
  (Text.splitAt b.text b.cursorPos).bind fun parts => parts.1.getLast?

/-- No backspace where the character before the cursor has more than one byte. -/
def Spares (b : TextBox) : Call → Prop
  | .handleEvent (.key key) => b.focused = true → key = 0x08 → ∀ c, b.charBefore = some c → c.utf8Size = 1
  | _ => True

/-- Each call of a run in the state it is made in. -/
def SparesAll : TextBox → List Call → Prop
  | _, [] => True
  | b, call :: rest => b.Spares call ∧ ∀ next, b.call call = .ok next → next.SparesAll rest

variable {b : TextBox}

theorem size_ofNat {key : UInt8} (shown : isShown key = true) : (Char.ofNat key.toNat).utf8Size = 1 := by
  have small : key.toNat < 128 := by
    simp only [isShown, Bool.or_eq_true, Bool.and_eq_true, decide_eq_true_eq, UInt8.le_iff_toNat_le] at shown
    rcases shown with ⟨_, high⟩ | rfl
    · exact Nat.lt_of_le_of_lt high (by decide)
    · decide
  rw [Char.utf8Size_eq_one_iff, UInt32.le_iff_toNat_le]
  have same : (Char.ofNat key.toNat).val.toNat = key.toNat := by
    rw [Char.ofNat, dif_pos (.inl (by omega))]
    rfl
  rw [same]
  exact Nat.le_of_lt_succ small

theorem Placed.within (placed : b.Placed) : b.cursorPos ≤ Text.size b.text := by
  obtain ⟨front, back, text, cursor⟩ := placed
  rw [text, cursor, Text.size_append]
  exact Nat.le_add_right ..

theorem Placed.backspace (placed : b.Placed) :
    (∃ c, b.charBefore = some c ∧ c.utf8Size ≠ 1 ∧ b.backspace = .error .boundary) ∨
      (∀ c, b.charBefore = some c → c.utf8Size = 1) ∧ Yields b.backspace Placed := by
  obtain ⟨front, back, text, cursor⟩ := placed
  have before : b.charBefore = front.getLast? := by
    rw [charBefore, text, cursor, Text.splitAt_size, Option.bind_some]
  rw [before]
  rcases List.eq_nil_or_concat front with rfl | ⟨front, c, rfl⟩
  · refine .inr ⟨fun c absent => (by cases absent), ?_⟩
    rw [TextBox.backspace, if_neg (by rw [cursor]; decide)]
    exact .ok ⟨[], back, text, cursor⟩
  · rw [List.concat_eq_append] at text cursor ⊢
    rw [List.append_assoc, List.singleton_append] at text
    rw [Text.size_append, Text.size_cons, Text.size_nil, Nat.add_zero] at cursor
    have positive := Char.utf8Size_pos c
    rw [List.getLast?_concat, TextBox.backspace, if_pos (by omega), text]
    by_cases one : c.utf8Size = 1
    next =>
      refine .inr ⟨fun d same => Option.some.inj same ▸ one, ?_⟩
      rw [show b.cursorPos - 1 = Text.size front by omega, Text.remove_size]
      exact .ok ⟨front, back, rfl, rfl⟩
    next =>
      refine .inl ⟨c, rfl, one, ?_⟩
      rw [Text.remove_inside (by omega) (by omega)]
      rfl

theorem Placed.delete (placed : b.Placed) : Yields b.delete Placed := by
  obtain ⟨front, back, text, cursor⟩ := placed
  unfold TextBox.delete
  split
  next inside =>
    cases back with
    | nil =>
      rw [text, cursor, List.append_nil] at inside
      exact absurd inside (Nat.lt_irrefl _)
    | cons c back =>
      rw [text, cursor, Text.remove_size]
      exact .ok ⟨front, back, rfl, rfl⟩
  next => exact .ok ⟨front, back, text, cursor⟩

theorem Placed.insert (placed : b.Placed) {ch : Char} (one : ch.utf8Size = 1) :
    Yields (b.insert ch) Placed := by
  obtain ⟨front, back, text, cursor⟩ := placed
  unfold TextBox.insert
  split
  · rw [text, cursor, Text.insert_size]
    refine .ok ⟨front ++ [ch], back, ?_, ?_⟩
    · rw [List.append_assoc, List.singleton_append]
    · rw [Text.size_append, Text.size_cons, Text.size_nil, one]
  · exact .ok ⟨front, back, text, cursor⟩

theorem Placed.key (placed : b.Placed) {key : UInt8} (spares : b.Spares (.handleEvent (.key key))) :
    Yields (b.handleKey key) fun after => after.2.Placed := by
  unfold handleKey
  split
  next => exact .ok placed
  next focused =>
    split
    next back =>
      have focused : b.focused = true := by simpa using focused
      refine Yields.map ?_
      rcases placed.backspace with ⟨c, before, wide, _⟩ | ⟨_, fine⟩
      · exact absurd (spares focused back c before) wide
      · exact fine
    split
    · refine Yields.map ?_
      exact placed.delete
    split
    · exact .ok placed
    split
    next shown =>
      refine Yields.map ?_
      exact placed.insert (size_ofNat shown)
    next => exact .ok placed

theorem Placed.call (placed : b.Placed) {call : Call} (spares : b.Spares call) :
    Yields (b.call call) Placed := by
  cases call with
  | setText text => exact .ok ⟨text, [], (List.append_nil text).symm, rfl⟩
  | clear => exact .ok ⟨[], [], rfl, rfl⟩
  | handleEvent event =>
    refine Yields.map ?_
    cases event with
    | key key => exact placed.key spares
    | mouseDown x y => exact .ok placed
    | mouseMove x y => exact .ok placed
    | mouseUp x y => exact .ok placed
    | focus => exact .ok placed
    | blur => exact .ok placed
    | close => exact .ok placed

theorem Placed.stops (placed : b.Placed) {call : Call} (cuts : ¬b.Spares call) :
    b.call call = .error .boundary := by
  cases call with
  | setText text => exact absurd trivial cuts
  | clear => exact absurd trivial cuts
  | handleEvent event =>
    cases event with
    | key key =>
      rw [Spares, Classical.not_imp, Classical.not_imp] at cuts
      obtain ⟨focused, rfl, cuts⟩ := cuts
      rcases placed.backspace with ⟨c, before, wide, stops⟩ | ⟨fine, _⟩
      · rw [TextBox.call, handleEvent, handleKey, focused, stops]
        rfl
      · exact absurd fine cuts
    | _ => exact absurd trivial cuts

/-! ### The length -/

theorem size_remove {text after : List Char} {index : Nat} (removed : Text.remove text index = some after) :
    Text.size after ≤ Text.size text := by
  unfold Text.remove at removed
  split at removed
  next front c back split =>
    cases removed
    rw [(Text.splitAt_eq_some.mp split).1, Text.size_append, Text.size_append, Text.size_cons]
    omega
  next => cases removed

theorem size_insert {text after : List Char} {index : Nat}
    {c : Char} (inserted : Text.insert text index c = some after) :
    Text.size after = Text.size text + c.utf8Size := by
  obtain ⟨parts, split, rfl⟩ := Option.map_eq_some_iff.mp inserted
  obtain ⟨front, back⟩ := parts
  rw [(Text.splitAt_eq_some.mp split).1, Text.size_append, Text.size_append, Text.size_cons]
  dsimp only
  omega

theorem size_backspace {after : TextBox} (done : b.backspace = .ok after) :
    Text.size after.text ≤ Text.size b.text := by
  unfold TextBox.backspace at done
  split at done
  · obtain ⟨text, removed, rest⟩ := bind_ok done
    cases rest
    exact size_remove (value_eq_ok.mp removed)
  · cases done
    exact Nat.le_refl _

theorem size_delete {after : TextBox} (done : b.delete = .ok after) :
    Text.size after.text ≤ Text.size b.text := by
  unfold TextBox.delete at done
  split at done
  · obtain ⟨text, removed, rest⟩ := bind_ok done
    cases rest
    exact size_remove (value_eq_ok.mp removed)
  · cases done
    exact Nat.le_refl _

theorem size_typed {after : TextBox} {ch : Char} (one : ch.utf8Size = 1) (done : b.insert ch = .ok after) :
    Text.size after.text ≤ max (Text.size b.text) b.maxLength := by
  unfold TextBox.insert at done
  split at done
  next room =>
    obtain ⟨text, inserted, rest⟩ := bind_ok done
    cases rest
    have length := size_insert (value_eq_ok.mp inserted)
    dsimp only
    omega
  next =>
    cases done
    exact Nat.le_max_left ..

theorem map_ok {m : Except Panic TextBox} {handled : Bool} {after : TextBox}
    (done : (m.map fun b => (true, b)) = .ok (handled, after)) : m = .ok after := by
  cases m with
  | error stop => cases done
  | ok value =>
    cases done
    rfl

theorem capped (b : TextBox) : b.Capped := by
  intro event handled after done
  have same (kept : after.text = b.text) : Text.size after.text ≤ max (Text.size b.text) b.maxLength := by
    rw [kept]
    exact Nat.le_max_left ..
  cases event with
  | key key =>
    rw [handleEvent] at done
    unfold handleKey at done
    split at done
    next => cases done; exact same rfl
    split at done
    next => exact Nat.le_trans (size_backspace (map_ok done)) (Nat.le_max_left ..)
    split at done
    next => exact Nat.le_trans (size_delete (map_ok done)) (Nat.le_max_left ..)
    split at done
    next => cases done; exact same rfl
    split at done
    next shown => exact size_typed (size_ofNat shown) (map_ok done)
    next => cases done; exact same rfl
  | mouseDown x y => cases done; exact same rfl
  | mouseMove x y => cases done; exact same rfl
  | mouseUp x y => cases done; exact same rfl
  | focus => cases done; exact same rfl
  | blur => cases done; exact same rfl
  | close => cases done; exact same rfl

/-! ### Every run -/

theorem Placed.run (placed : b.Placed) (calls : List Call) :
    Yields (calls.foldlM TextBox.call b) Placed ↔ b.SparesAll calls := by
  induction calls generalizing b with
  | nil => exact iff_of_true (.ok placed) trivial
  | cons call rest ih =>
    rw [List.foldlM_cons]
    by_cases spares : b.Spares call
    next =>
      obtain ⟨next, done, placed'⟩ := placed.call spares
      rw [done]
      refine (ih placed').trans ⟨fun later => ⟨spares, fun other same => ?_⟩, fun all => all.2 next done⟩
      rw [done] at same
      cases same
      exact later
    next =>
      rw [placed.stops spares]
      refine iff_of_false (fun yields => ?_) fun all => spares all.1
      obtain ⟨last, done, _⟩ := yields
      cases done

/-- No call of a run stops, and the cursor is at a character boundary of a text that typing keeps
within its length, exactly if each backspace takes a character of one byte. -/
theorem box_holds_iff (x y : Int32) (w : UInt32) (calls : List Call) :
    (Yields (calls.foldlM TextBox.call (.new x y w)) fun last =>
      last.Placed ∧ last.cursorPos ≤ Text.size last.text ∧ last.Capped) ↔
        (TextBox.new x y w).SparesAll calls := by
  have start : (TextBox.new x y w).Placed := ⟨[], [], rfl, rfl⟩
  refine Iff.trans ⟨fun yields => yields.imp fun last holds => holds.1, fun yields => ?_⟩ (start.run calls)
  exact yields.imp fun last placed => ⟨placed, placed.within, capped last⟩

/-- A text that ends with an accent, a click, and a backspace. -/
theorem box_stops :
    [Call.setText ['\u00E9'], .handleEvent (.mouseDown 0 0), .handleEvent (.key 0x08)].foldlM
      TextBox.call (.new 0 0 100) =
      .error .boundary := by
  rfl

end TextBox

end PickleOS.Apps
