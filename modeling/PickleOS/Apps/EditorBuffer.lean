import PickleOS.Apps.TextEditor

set_option autoImplicit false

namespace PickleOS.Apps.TextEditor

open Shared Shared.Checked

namespace Editor

/-- The cursor is in the text. -/
structure Sound (ed : Editor) : Prop where
  row : ed.cursorRow < ed.lines.length
  col : ed.cursorCol ≤ (ed.lines.get ⟨ed.cursorRow, row⟩).length

variable {ed : Editor}

theorem charIndices_get (s : List Char) (start charIdx : Nat) :
    (charIndices start s)[charIdx]?.map Prod.fst = if charIdx < s.length then
      some (start + Text.size (s.take charIdx)) else none := by
  induction s generalizing start charIdx with
  | nil => simp [charIndices]
  | cons c rest ih =>
    cases charIdx with
    | zero => simp [charIndices]
    | succ charIdx =>
      rw [charIndices, List.getElem?_cons_succ, ih, List.length_cons, List.take_succ_cons, Text.size_cons,
        Nat.add_assoc]
      by_cases inside : charIdx < rest.length
      next => rw [if_pos inside, if_pos (by omega)]
      next => rw [if_neg inside, if_neg (by omega)]

theorem charToByte_eq (s : List Char) (charIdx : Nat) : charToByte s charIdx = Text.size (s.take charIdx) := by
  rw [charToByte, charIndices_get]
  by_cases inside : charIdx < s.length
  next => rw [if_pos inside, Option.getD_some, Nat.zero_add]
  next => rw [if_neg inside, Option.getD_none, List.take_of_length_le (Nat.not_lt.mp inside)]

structure Around (ed : Editor) (front back : List Char) : Prop where
  line : ed.lines[ed.cursorRow]? = some (front ++ back)
  col : ed.cursorCol = front.length

theorem Sound.around (sound : ed.Sound) : ∃ front back, ed.Around front back := by
  obtain ⟨row, col⟩ := sound
  let line := ed.lines.get ⟨ed.cursorRow, row⟩
  refine ⟨line.take ed.cursorCol, line.drop ed.cursorCol, ?_, (List.length_take_of_le col).symm⟩
  rw [List.take_append_drop]
  exact List.getElem?_eq_getElem row

theorem Around.sound {front back : List Char} (around : ed.Around front back) : ed.Sound := by
  obtain ⟨inside, line⟩ := List.getElem?_eq_some_iff.mp around.line
  refine ⟨inside, ?_⟩
  rw [List.get_eq_getElem, line, around.col, List.length_append]
  exact Nat.le_add_right ..

theorem Around.rewritten {front back : List Char} (around : ed.Around front back) :
    ed.lines.set ed.cursorRow (front ++ back) = ed.lines := by
  obtain ⟨inside, line⟩ := List.getElem?_eq_some_iff.mp around.line
  rw [← line, List.set_getElem_self]

theorem Around.charToByte {front back : List Char} :
    charToByte (front ++ back) front.length = Text.size front := by
  rw [charToByte_eq, List.take_left]

theorem Around.insertChar {front back : List Char} (around : ed.Around front back) (ch : Char) :
    Yields (ed.insertChar ch) fun ed' => ed'.Around (front ++ [ch]) back ∧
      ed'.lines = ed.lines.set ed.cursorRow (front ++ ch :: back) ∧ ed'.cursorRow = ed.cursorRow := by
  have inside := around.sound.row
  rw [Editor.insertChar, elemAt_eq_ok.mpr around.line]
  change Yields (Checked.value _ (Text.insert (front ++ back)
    (Editor.charToByte (front ++ back) ed.cursorCol) ch) >>= _) _
  rw [around.col, Around.charToByte, Text.insert_size]
  refine .ok ⟨⟨?_, ?_⟩, rfl, rfl⟩
  · dsimp only
    rw [List.getElem?_set_self inside, List.append_assoc, List.singleton_append]
  · rw [List.length_append, List.length_singleton]

theorem Around.newline {front back : List Char} (around : ed.Around front back) :
    Yields ed.newline fun ed' => ed'.Around [] back ∧
      ed'.lines = (ed.lines.set ed.cursorRow front).insertIdx (ed.cursorRow + 1) back ∧
      ed'.cursorRow = ed.cursorRow + 1 := by
  have inside := around.sound.row
  have length : (ed.lines.set ed.cursorRow front).length = ed.lines.length := List.length_set
  rw [Editor.newline, elemAt_eq_ok.mpr around.line]
  change Yields (Checked.value _ (Text.splitAt (front ++ back)
    (Editor.charToByte (front ++ back) ed.cursorCol)) >>= _) _
  rw [around.col, Around.charToByte, Text.splitAt_size]
  change Yields (Checked.insertAt _ (ed.lines.set ed.cursorRow front) _ back >>= _) _
  rw [Checked.insertAt, if_pos (by omega)]
  refine .ok ⟨⟨?_, rfl⟩, rfl, rfl⟩
  dsimp only
  rw [List.getElem?_insertIdx_self, if_pos (by omega), List.nil_append]

theorem Around.backspace {front back : List Char} {c : Char} (around : ed.Around (front ++ [c]) back) :
    ed.backspace =
    .ok { ed with lines := ed.lines.set ed.cursorRow (front ++ back), cursorCol := front.length, dirty :=
      true } := by
  have line := around.line
  have col := around.col
  rw [List.append_assoc, List.singleton_append] at line
  rw [List.length_append, List.length_singleton] at col
  have before : ed.cursorCol - 1 = front.length := by omega
  rw [Editor.backspace, if_pos (by omega), elemAt_eq_ok.mpr line]
  change (Checked.value _ (Text.remove (front ++ c :: back)
    (Editor.charToByte (front ++ c :: back) (ed.cursorCol - 1))) >>= _) = _
  rw [before, Around.charToByte, Text.remove_size]
  rfl

theorem Around.backspace_joins {above back : List Char} (around : ed.Around [] back)
    (positive : 0 < ed.cursorRow)
    (line : ed.lines[ed.cursorRow - 1]? = some above) : ed.backspace =
    .ok { ed with
      lines := (ed.lines.eraseIdx ed.cursorRow).set (ed.cursorRow - 1) (above ++ back)
      cursorRow := ed.cursorRow - 1
      cursorCol := above.length
      dirty := true } := by
  have inside := around.sound.row
  have current := around.line
  rw [List.getElem?_eq_getElem inside, List.nil_append, Option.some_inj] at current
  rw [Editor.backspace, if_neg (by rw [around.col]; decide), if_pos positive, Checked.removeAt_eq _ inside]
  change (Checked.elemAt _ (ed.lines.eraseIdx ed.cursorRow) (ed.cursorRow - 1) >>= _) = _
  have kept : (ed.lines.eraseIdx ed.cursorRow)[ed.cursorRow - 1]? = some above := by
    rw [List.getElem?_eraseIdx_of_lt (by omega), line]
  rw [elemAt_eq_ok.mpr kept, current]
  rfl

/-! ### Undone -/

structure Same (ed ed' : Editor) : Prop where
  lines : ed'.lines = ed.lines
  row : ed'.cursorRow = ed.cursorRow
  col : ed'.cursorCol = ed.cursorCol

theorem Sound.insert_undone (sound : ed.Sound) (ch : Char) :
    Yields (ed.insertChar ch >>= Editor.backspace) ed.Same := by
  obtain ⟨front, back, around⟩ := sound.around
  refine (around.insertChar ch).bind fun ed' typed => ?_
  obtain ⟨behind, lines, row⟩ := typed
  refine ⟨_, behind.backspace, ?_, row, around.col.symm⟩
  dsimp only
  rw [lines, row, List.set_set, around.rewritten]

theorem Sound.newline_undone (sound : ed.Sound) : Yields (ed.newline >>= Editor.backspace) ed.Same := by
  obtain ⟨front, back, around⟩ := sound.around
  refine around.newline.bind fun ed' split => ?_
  obtain ⟨behind, lines, row⟩ := split
  have above : ed'.lines[ed'.cursorRow - 1]? = some front := by
    rw [lines, row, Nat.add_sub_cancel, List.getElem?_insertIdx_of_lt (Nat.lt_succ_self _),
      List.getElem?_set_self sound.row]
  refine ⟨_, behind.backspace_joins (by omega) above, ?_, by dsimp only; omega, around.col.symm⟩
  dsimp only
  rw [lines, row, List.eraseIdx_insertIdx_self, Nat.add_sub_cancel, List.set_set, around.rewritten]

/-! ### Every run -/

theorem Sound.backspace (sound : ed.Sound) : Yields ed.backspace Sound := by
  obtain ⟨front, back, around⟩ := sound.around
  have inside := sound.row
  rcases List.eq_nil_or_concat front with rfl | ⟨front, c, rfl⟩
  · by_cases first : ed.cursorRow = 0
    next =>
      have stays : ed.backspace = .ok ed := by
        rw [Editor.backspace, if_neg (by rw [around.col]; decide), if_neg (by omega)]
      rw [stays]
      exact .ok sound
    next =>
      have line := List.getElem?_eq_getElem (show ed.cursorRow - 1 < ed.lines.length by omega)
      rw [around.backspace_joins (by omega) line]
      refine .ok (@Around.sound _ (ed.lines[ed.cursorRow - 1]) back ⟨?_, rfl⟩)
      exact List.getElem?_set_self (by rw [List.length_eraseIdx_of_lt inside]; omega)
  · rw [List.concat_eq_append] at around
    rw [around.backspace]
    refine .ok (@Around.sound _ front back ⟨?_, rfl⟩)
    exact List.getElem?_set_self inside

theorem Sound.pressed (sound : ed.Sound) (key : UInt8) : Yields (ed.pressed key) Sound := by
  obtain ⟨front, back, around⟩ := sound.around
  unfold Editor.pressed
  split
  · exact around.newline.imp fun _ split => split.1.sound
  split
  · exact sound.backspace
  split
  · exact (around.insertChar _).imp fun _ typed => typed.1.sound
  · exact .ok sound

theorem Sound.click (sound : ed.Sound) (x y : Int32) : Yields (ed.click x y) Sound := by
  unfold Editor.click
  split
  · dsimp only
    split
    next inside =>
      have line : Yields (ed.lineLen (ed.scrollRow + clip ((y - topBar - 4) / lineH)))
          fun len => len = (ed.lines.get ⟨_, inside⟩).length := by
        rw [lineLen, elemAt_eq_ok.mpr (List.getElem?_eq_getElem inside)]
        exact .ok rfl
      refine line.bind fun len length => ?_
      exact .ok ⟨inside, by rw [length]; exact Nat.min_le_right ..⟩
    next => exact .ok sound
  · exact .ok sound

theorem Sound.ensureCursorVisible (sound : ed.Sound) : ed.ensureCursorVisible.Sound := by
  unfold Editor.ensureCursorVisible
  split
  · exact ⟨sound.row, sound.col⟩
  split
  · exact ⟨sound.row, sound.col⟩
  · exact sound

theorem Sound.save (sound : ed.Sound) (disk : Disk) (file : Option (List UInt8)) :
    (ed.save disk file).1.Sound := by
  unfold Editor.save
  split
  · exact ⟨sound.row, sound.col⟩
  · exact ⟨sound.row, sound.col⟩

theorem Sound.start {lines : List (List Char)} (filled : lines ≠ []) (status : String) :
    { Editor.new none with lines := lines, status := status }.Sound :=
  ⟨List.length_pos_of_ne_nil filled, Nat.zero_le _⟩

theorem sound_new (file : Option (List UInt8)) : (Editor.new file).Sound := by
  cases file with
  | none => exact .start (by decide) _
  | some data =>
    have filled := List.splitOn_ne_nil '\n' (Utf8.lossy data)
    rw [Editor.new, load]
    dsimp only
    rw [if_neg filled, if_neg filled]
    exact .start filled _

end Editor

namespace Desk

open Editor

theorem sound_handleKey {d : Desk} (sound : d.editor.Sound) (disk : Disk) (key : UInt8) :
    Yields (d.handleKey disk key) fun after => after.2.editor.Sound := by
  unfold handleKey
  split
  · exact .ok sound
  refine Yields.map ?_
  have pressed : Yields (d.pressed disk key) fun after => after.editor.Sound := by
    unfold pressed
    split
    · exact .ok (sound.save disk d.file)
    · refine Yields.map ?_
      exact sound.pressed key
  exact pressed.imp fun after sound => sound.ensureCursorVisible

theorem sound_handle {d : Desk} (sound : d.editor.Sound) (disk : Disk) (event : Event) :
    Yields (d.handle disk event) fun after => after.2.editor.Sound := by
  cases event with
  | key k => exact sound_handleKey sound disk k
  | mouseDown x y => exact (sound.click x y).bind fun ed sound => .ok sound
  | close => exact .ok sound
  | mouseMove x y => exact .ok sound
  | mouseUp x y => exact .ok sound
  | focus => exact .ok sound
  | blur => exact .ok sound

theorem sound_run (events : List (Event × Disk)) {d : Desk} (sound : d.editor.Sound) :
    Yields (run events d) fun last => last.editor.Sound := by
  induction events generalizing d with
  | nil => exact .ok sound
  | cons event rest ih =>
    refine (sound_handle sound event.2 event.1).bind fun after sound => ?_
    obtain ⟨quits, d⟩ := after
    dsimp only
    split
    · exact .ok sound
    · exact ih sound

end Desk

/-- Whatever is loaded and whatever happens, no operation stops, the cursor is in the text, and what is
typed can be taken back. -/
theorem buffer_sound (file : Option (List UInt8)) (events : List (Event × Disk)) :
    Yields (Desk.run events (.opened file)) fun last =>
      (∃ line, last.editor.lines[last.editor.cursorRow]? = some line ∧ last.editor.cursorCol ≤ line.length) ∧
        (∀ ch, Yields (last.editor.insertChar ch >>= Editor.backspace) last.editor.Same) ∧
        Yields (last.editor.newline >>= Editor.backspace) last.editor.Same := by
  have start : (Desk.opened file).editor.Sound := Editor.sound_new file
  refine (Desk.sound_run events start).imp fun last sound =>
    ⟨?_, fun ch => sound.insert_undone ch, sound.newline_undone⟩
  exact ⟨_, List.getElem?_eq_getElem sound.row, sound.col⟩

end PickleOS.Apps.TextEditor
