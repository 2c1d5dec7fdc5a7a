import PickleOS.Console.LineEditor

set_option autoImplicit false

namespace PickleOS.Console

open Shared Shared.Checked

/-- The cursor is at `col` of the row `y`, which shows `text`. -/
structure Terminal.OnRow (t : Terminal) (y : Nat) (text : Nat → Char) (col : Nat) : Prop where
  low : y < rows
  row : t.cy = y
  column : t.cx = col
  ordinary : t.esc = .none
  shown : ∀ k (inside : k < cols), t.cells[y][k].ch = text k

/-- The text after `chars` were written from `col` on. -/
def written (text : Nat → Char) (col : Nat) (chars : List Char) : Nat → Char :=
  fun k => if col ≤ k then chars[k - col]?.getD (text k) else text k

theorem written_before (text : Nat → Char) {col k : Nat} (chars : List Char) (before : k < col) :
    written text col chars k = text k :=
  if_neg (Nat.not_le.mpr before)

theorem written_at (text : Nat → Char) {col k : Nat} (chars : List Char) (behind : col ≤ k) :
    written text col chars k = chars[k - col]?.getD (text k) :=
  if_pos behind

theorem written_behind (text : Nat → Char) {col k : Nat} (chars : List Char) (behind : col + chars.length ≤ k) :
    written text col chars k = text k := by
  rw [written_at text chars (by omega), List.getElem?_eq_none (by omega), Option.getD_none]

theorem written_cons (text : Nat → Char) (col : Nat) (c : Char) (rest : List Char) :
    written (written text col [c]) (col + 1) rest = written text col (c :: rest) := by
  funext k
  by_cases first : k ≤ col
  next =>
    rw [written_before _ _ (by omega)]
    by_cases same : k = col
    next =>
      subst same
      simp [written]
    next => rw [written_before _ _ (by omega), written_before _ _ (by omega)]
  next =>
    rw [written_at _ _ (by omega), written_at text (c :: rest) (by omega),
      written_behind text [c] (by simp; omega),
      show k - col = k - (col + 1) + 1 by omega, List.getElem?_cons_succ]

namespace Terminal.OnRow

variable {t : Terminal} {y col : Nat} {text : Nat → Char}

theorem congr (on : t.OnRow y text col) {text' : Nat → Char} (same : ∀ k < cols, text k = text' k) :
    t.OnRow y text' col :=
  ⟨on.low, on.row, on.column, on.ordinary, fun k inside => (on.shown k inside).trans (same k inside)⟩

theorem feed_return (on : t.OnRow y text col) : Yields (t.feed '\r') fun t' => t'.OnRow y text 0 := by
  rw [feed, on.ordinary]
  exact .ok ⟨on.low, on.row, rfl, on.ordinary, on.shown⟩

theorem feed_back (on : t.OnRow y text (col + 1)) : Yields (t.feed '\x08') fun t' => t'.OnRow y text col := by
  have column := on.column
  rw [feed, on.ordinary]
  change Yields (if 0 < t.cx then _ else _) _
  rw [if_pos (by omega)]
  exact .ok ⟨on.low, on.row, by dsimp only; omega, on.ordinary, on.shown⟩

theorem feed_glyph (on : t.OnRow y text col) {c : Char} (printable : Printable c) (room : col < cols) :
    Yields (t.feed c) fun t' => t'.OnRow y (written text col [c]) (col + 1) := by
  have other (d : Char) (control : ¬Printable d) : c ≠ d := fun same => control (same ▸ printable)
  have column := on.column
  have inRow : t.cy < rows := on.row ▸ on.low
  rw [feed, on.ordinary]
  dsimp only
  rw [if_neg (other '\x1b' (by decide)), put, if_neg (other '\n' (by decide)), if_neg (other '\r' (by decide)),
    if_neg (other '\t' (by decide)), if_neg (other '\x08' (by decide)),
      if_pos (show 0x20 ≤ c.val from printable),
    if_neg (by omega)]
  dsimp only
  rw [setCell_eq _ inRow (by omega)]
  refine .ok ⟨on.low, on.row, congrArg (· + 1) on.column, on.ordinary, fun k inside => ?_⟩
  obtain rfl := on.row
  obtain rfl := on.column
  have old := on.shown k inside
  simp only [Vector.getElem_set_self, Vector.getElem_set]
  rw [written]
  by_cases same : t.cx = k
  next =>
    subst same
    simp
  next =>
    rw [if_neg same, old]
    by_cases behind : t.cx ≤ k
    next => rw [if_pos behind, List.getElem?_eq_none (by simp; omega), Option.getD_none]
    next => rw [if_neg behind]

theorem unscrolled (on : t.OnRow y text col) : { t with view := 0 }.OnRow y text col :=
  ⟨on.low, on.row, on.column, on.ordinary, on.shown⟩

theorem foldlM_glyphs {f : Terminal → Char → Except Panic Terminal} (on : t.OnRow y text col)
    {chars : List Char}
    (one : ∀ {t : Terminal} {text : Nat → Char} {col : Nat} {c : Char}, t.OnRow y text col → Printable c →
      col < cols →
      Yields (f t c) fun t' => t'.OnRow y (written text col [c]) (col + 1))
    (printable : ∀ c ∈ chars, Printable c) (room : col + chars.length ≤ cols) :
    Yields (chars.foldlM f t) fun t' => t'.OnRow y (written text col chars) (col + chars.length) := by
  induction chars generalizing t text col with
  | nil => exact .ok (on.congr fun k _ => by simp [written])
  | cons c rest ih =>
    rw [List.length_cons] at room
    rw [List.foldlM_cons]
    refine (one on (printable c (.head _)) (by omega)).bind fun t' next => ?_
    have follows := ih next (fun d member => printable d (.tail _ member)) (by omega)
    rwa [written_cons, Nat.add_assoc, Nat.add_comm 1] at follows

theorem glyphs (on : t.OnRow y text col) {chars : List Char} (printable : ∀ c ∈ chars, Printable c)
    (room : col + chars.length ≤ cols) :
    Yields (t.prints (chars.map String.singleton)) fun t' =>
      t'.OnRow y (written text col chars) (col + chars.length) := by
  rw [prints, List.foldlM_map]
  refine on.foldlM_glyphs (fun {t} _ _ c on printable room => ?_) printable room
  rw [writeStr, String.toList_singleton, List.foldlM_cons]
  exact (on.unscrolled.feed_glyph printable room).bind fun _ on => .ok on

theorem backs {n : Nat} (on : t.OnRow y text (col + n)) :
    Yields (t.prints (List.replicate n "\x08")) fun t' => t'.OnRow y text col := by
  induction n generalizing t with
  | zero => exact .ok on
  | succ n ih =>
    rw [List.replicate_succ, prints, List.foldlM_cons, writeStr, show "\x08".toList = ['\x08'] from rfl,
      List.foldlM_cons]
    refine (on.unscrolled.feed_back.bind fun t' next => .ok next).bind fun t' next => ?_
    exact ih next

end Terminal.OnRow

theorem Terminal.prints_append (t : Terminal) (first second : List String) :
    t.prints (first ++ second) = t.prints first >>= fun t => t.prints second :=
  List.foldlM_append

def lineText (prompt chars : List Char) (most : Nat) (old : Nat → Char) : Nat → Char :=
  fun k => if k < prompt.length + most then (prompt ++ chars)[k]?.getD ' ' else old k

theorem lineText_painted (prompt before chars : List Char) {most : Nat} (old : Nat → Char)
    (within : before.length ≤ most) :
    written (written (written (lineText prompt before most old) 0 prompt) prompt.length chars)
      (prompt.length + chars.length)
        (List.replicate (before.length - chars.length) ' ') =
      lineText prompt chars (max most chars.length) old := by
  funext k
  by_cases inPrompt : k < prompt.length
  next =>
    have right : lineText prompt chars (max most chars.length) old k = prompt[k] := by
      rw [lineText, if_pos (by omega), List.getElem?_append_left inPrompt, List.getElem?_eq_getElem inPrompt]
      rfl
    rw [right, written_before _ _ (by omega), written_before _ _ inPrompt, written_at _ _ (Nat.zero_le k),
      Nat.sub_zero,
      List.getElem?_eq_getElem inPrompt]
    rfl
  by_cases inLine : k < prompt.length + chars.length
  next =>
    have inside : k - prompt.length < chars.length := by omega
    have right : lineText prompt chars (max most chars.length) old k = chars[k - prompt.length] := by
      rw [lineText, if_pos (by omega), List.getElem?_append_right (by omega), List.getElem?_eq_getElem inside]
      rfl
    rw [right, written_before _ _ inLine, written_at _ _ (by omega), List.getElem?_eq_getElem inside]
    rfl
  have right : lineText prompt chars (max most chars.length)
    old k = if k < prompt.length + max most chars.length then ' ' else old k := by
    rw [lineText, List.getElem?_eq_none (by rw [List.length_append]; omega)]
    rfl
  rw [right]
  by_cases inBlanks : k < prompt.length + before.length
  next =>
    rw [written_at _ _ (by omega), List.getElem?_replicate, if_pos (by omega), if_pos (by omega)]
    rfl
  next =>
    -- What is painted now does not reach as far as it did before.
    rw [written_behind _ _ (by rw [List.length_replicate]; omega), written_behind _ _ (by omega),
      written_behind _ _ (by omega), lineText,
      List.getElem?_eq_none (by rw [List.length_append]; omega)]
    by_cases behind : k < prompt.length + most
    next => rw [if_pos behind, if_pos (by omega), Option.getD_none]
    next => rw [if_neg behind, if_neg (by omega)]

theorem written_prompt (prompt : List Char) (old : Nat → Char) (k : Nat) :
    written old 0 prompt k = lineText prompt [] 0 old k := by
  rw [written_at _ _ (Nat.zero_le k), lineText, List.append_nil, Nat.add_zero, Nat.sub_zero]
  by_cases within : k < prompt.length
  next =>
    rw [if_pos within, List.getElem?_eq_getElem within]
    rfl
  next => rw [if_neg within, List.getElem?_eq_none (Nat.not_lt.mp within), Option.getD_none]

namespace LineEditor

structure Sound (e : LineEditor) : Prop where
  cursor : e.cursor ≤ e.chars.length
  painted : e.painted = e.chars.length
  position : ∀ i, e.histPos = some i → i < e.hist.length
  prompt : ∀ c ∈ e.prompt.toList, Printable c
  chars : ∀ c ∈ e.chars, Printable c
  hist : ∀ entry ∈ e.hist, ∀ c ∈ entry.toList, Printable c
  draft : ∀ c ∈ e.draft, Printable c

/-- The terminal shows what the editor holds. -/
structure Shown (e : LineEditor) (t : Terminal) (y most : Nat) (old : Nat → Char) : Prop where
  within : e.chars.length ≤ most
  row : t.OnRow y (lineText e.prompt.toList e.chars most old) (e.prompt.toList.length + e.cursor)

variable {e : LineEditor} {t : Terminal} {y most col : Nat} {old : Nat → Char}

theorem yields_redraw {before : List Char} (on : t.OnRow y (lineText e.prompt.toList before most old) col)
    (within : before.length ≤ most)
    (painted : e.painted = before.length) (cursor : e.cursor ≤ e.chars.length)
    (prompt : ∀ c ∈ e.prompt.toList, Printable c)
    (chars : ∀ c ∈ e.chars, Printable c) (fits : e.prompt.toList.length + max most e.chars.length ≤ cols) :
    Yields (t.prints e.redraw.2) fun t' => Shown e.redraw.1 t' y (max most e.chars.length) old := by
  have blank : List.replicate (e.painted - e.chars.length) " " =
      (List.replicate (before.length - e.chars.length) ' ').map String.singleton := by
    rw [List.map_replicate, painted]
    rfl
  rw [redraw]
  dsimp only
  rw [blank, painted]
  simp only [Terminal.prints_append]
  have first : Yields (t.prints ["\r" ++ e.prompt])
      fun t' => t'.OnRow y (written (lineText e.prompt.toList before most old) 0 e.prompt.toList)
        (0 + e.prompt.toList.length) := by
    rw [Terminal.prints, List.foldlM_cons, Terminal.writeStr, String.toList_append,
      show "\r".toList = ['\r'] from rfl,
      List.singleton_append, List.foldlM_cons]
    refine (on.unscrolled.feed_return.bind fun t' home => ?_).bind fun t' done => .ok done
    exact home.foldlM_glyphs (fun on printable room => on.feed_glyph printable room) prompt (by omega)
  rw [Nat.zero_add] at first
  have line := first.bind fun t' on => on.glyphs chars (by omega)
  have spaces (c : Char) (member : c ∈ List.replicate (before.length - e.chars.length) ' ') : Printable c :=
    (List.eq_of_mem_replicate member) ▸ (by decide : Printable ' ')
  have blanks := line.bind fun t' on => on.glyphs spaces (by rw [List.length_replicate]; omega)
  rw [List.length_replicate, lineText_painted _ _ _ _ within] at blanks
  have back := blanks.bind fun t' on => on.backs
  have column : e.prompt.toList.length + e.chars.length = e.prompt.toList.length + e.cursor +
    (e.chars.length - e.cursor) := by omega
  rw [column] at back
  exact (back.bind fun t' on => on.backs).imp fun t' on => ⟨Nat.le_max_right .., on⟩

/-- The output of an operation on `e`: the editor stays sound, and the terminal shows its line if
that fits. -/
def Follows (e : LineEditor) (t : Terminal) (y most : Nat) (old : Nat → Char) (output : Output) : Prop :=
  Yields output fun after => after.1.Sound ∧ after.1.prompt = e.prompt ∧
    (e.prompt.toList.length + max most after.1.chars.length ≤ cols →
      Yields (t.prints after.2) fun t' => after.1.Shown t' y (max most after.1.chars.length) old)

theorem Shown.redrawn (shown : e.Shown t y most old) (sound : e.Sound)
    {e' : LineEditor} (prompt : e'.prompt = e.prompt)
    (painted : e'.painted = e.painted) (cursor : e'.cursor ≤ e'.chars.length)
    (position : ∀ i, e'.histPos = some i → i < e'.hist.length)
    (chars : ∀ c ∈ e'.chars, Printable c) (hist : ∀ entry ∈ e'.hist, ∀ c ∈ entry.toList, Printable c)
    (draft : ∀ c ∈ e'.draft, Printable c) : e.Follows t y most old (.ok e'.redraw) := by
  have fine : ∀ c ∈ e'.prompt.toList, Printable c := prompt ▸ sound.prompt
  refine .ok ⟨⟨cursor, rfl, position, fine, chars, hist, draft⟩, prompt, fun fits => ?_⟩
  have on := shown.row
  rw [← prompt] at on fits
  exact yields_redraw on shown.within (painted.trans sound.painted) cursor fine chars fits

theorem Shown.moved (shown : e.Shown t y most old) (sound : e.Sound)
    {cursor : Nat} {texts : List String} (inside : cursor ≤ e.chars.length)
    (printed : e.prompt.toList.length + most ≤ cols → Yields (t.prints texts)
      fun t' => t'.OnRow y (lineText e.prompt.toList e.chars most old) (e.prompt.toList.length + cursor)) :
    e.Follows t y most old (.ok ({ e with cursor := cursor }, texts)) := by
  have same : max most e.chars.length = most := Nat.max_eq_left shown.within
  refine .ok ⟨⟨inside, sound.painted, sound.position, sound.prompt, sound.chars, sound.hist, sound.draft⟩,
    rfl, fun fits => ?_⟩
  dsimp only at fits ⊢
  rw [same] at fits ⊢
  exact (printed fits).imp fun t' on => ⟨shown.within, on⟩

theorem Shown.kept (shown : e.Shown t y most old) (sound : e.Sound) : e.Follows t y most old (.ok (e, [])) :=
  shown.moved sound sound.cursor fun _ => .ok shown.row

theorem lineText_again (prompt chars : List Char) {cursor count : Nat} {most : Nat} (old : Nat → Char)
    (within : chars.length ≤ most) :
    written (lineText prompt chars most old) (prompt.length + cursor)
      ((chars.drop cursor).take count) = lineText prompt chars most old := by
  funext k
  by_cases before : k < prompt.length + cursor
  next => exact written_before _ _ before
  rw [written_at _ _ (by omega)]
  cases shown : ((chars.drop cursor).take count)[k - (prompt.length + cursor)]? with
  | none => rfl
  | some c =>
    obtain ⟨inside, rfl⟩ := List.getElem?_eq_some_iff.mp shown
    rw [List.length_take, List.length_drop] at inside
    rw [Option.getD_some, List.getElem_take, List.getElem_drop, lineText, if_pos (by omega),
      List.getElem?_append_right (by omega),
      List.getElem?_eq_getElem (by omega), Option.getD_some]
    congr 1
    omega

variable (sound : e.Sound) (shown : e.Shown t y most old)
include sound shown

theorem follows_insert {c : Char} (printable : Printable c) : e.Follows t y most old (e.insert c) := by
  have inserted (d : Char) (member : d ∈ e.chars.insertIdx e.cursor c) : Printable d := by
    rcases (List.mem_insertIdx sound.cursor).mp member with rfl | old
    · exact printable
    · exact sound.chars d old
  rw [insert, Checked.insertAt, if_pos sound.cursor]
  refine shown.redrawn sound rfl rfl ?_ sound.position inserted sound.hist sound.draft
  have cursor := sound.cursor
  dsimp only
  rw [List.length_insertIdx_of_le_length cursor]
  omega

theorem follows_backspace : e.Follows t y most old e.backspace := by
  have cursor := sound.cursor
  unfold backspace
  split
  next positive =>
    rw [Checked.removeAt_eq _ (by omega)]
    refine shown.redrawn sound rfl rfl ?_ sound.position
      (fun c member => sound.chars c (List.mem_of_mem_eraseIdx member)) sound.hist
      sound.draft
    dsimp only
    rw [List.length_eraseIdx_of_lt (by omega)]
    omega
  next => exact shown.kept sound

theorem follows_delete : e.Follows t y most old e.delete := by
  unfold delete
  split
  next inside =>
    rw [Checked.removeAt_eq _ inside]
    refine shown.redrawn sound rfl rfl ?_ sound.position
      (fun c member => sound.chars c (List.mem_of_mem_eraseIdx member)) sound.hist
      sound.draft
    dsimp only
    rw [List.length_eraseIdx_of_lt inside]
    omega
  next => exact shown.kept sound

theorem follows_left : e.Follows t y most old e.left := by
  have cursor := sound.cursor
  unfold left
  split
  next positive =>
    refine shown.moved sound (by omega) fun _ => ?_
    have on := shown.row
    rw [show e.prompt.toList.length + e.cursor = e.prompt.toList.length + (e.cursor - 1) + 1 by omega] at on
    exact on.backs
  next => exact shown.kept sound

theorem follows_right : e.Follows t y most old e.right := by
  unfold right
  split
  next inside =>
    refine shown.moved sound inside fun fits => ?_
    have next : (e.chars.drop e.cursor).take 1 = [e.chars[e.cursor]] := by
      rw [List.drop_eq_getElem_cons inside]
      rfl
    have within := shown.within
    have glyph (c : Char) (member : c ∈ [e.chars[e.cursor]]) : Printable c := by
      rw [List.mem_singleton] at member
      exact member ▸ sound.chars _ (List.getElem_mem inside)
    have one := shown.row.glyphs glyph (by rw [List.length_singleton]; omega)
    rw [← next, lineText_again _ _ _ within, next] at one
    exact one
  next => exact shown.kept sound

theorem follows_home : e.Follows t y most old e.home :=
  shown.moved sound (Nat.zero_le _) fun _ => shown.row.backs

theorem follows_goEnd : e.Follows t y most old e.goEnd := by
  have cursor := sound.cursor
  have within := shown.within
  refine shown.moved sound (Nat.max_le.mpr ⟨cursor, Nat.le_refl _⟩) fun fits => ?_
  have glyphs (c : Char) (member : c ∈ e.chars.drop e.cursor) : Printable c :=
    sound.chars c (List.mem_of_mem_drop member)
  have passed := shown.row.glyphs glyphs (by rw [List.length_drop]; omega)
  have all : (e.chars.drop e.cursor).take e.chars.length = e.chars.drop e.cursor :=
    List.take_of_length_le (by rw [List.length_drop]; omega)
  rw [← all, lineText_again _ _ _ within, all, List.length_drop] at passed
  rw [Nat.max_eq_right cursor]
  rwa [show e.prompt.toList.length + e.cursor + (e.chars.length - e.cursor) = e.prompt.toList.length +
    e.chars.length by omega] at passed

theorem follows_showEntry {e' : LineEditor} (prompt : e'.prompt = e.prompt) (painted : e'.painted = e.painted)
    (hist : ∀ entry ∈ e'.hist, ∀ c ∈ entry.toList, Printable c) (draft : ∀ c ∈ e'.draft, Printable c)
    {i : Nat}
    (inside : i < e'.hist.length) : e.Follows t y most old (e'.showEntry i) := by
  have entry : Checked.elemAt Panic.bounds e'.hist i = .ok e'.hist[i] := by
    rw [elemAt_eq_ok]
    exact List.getElem?_eq_getElem inside
  rw [showEntry, entry]
  refine shown.redrawn sound prompt painted (Nat.le_refl _) (fun j same => ?_)
    (hist _ (List.getElem_mem inside)) hist draft
  cases same
  exact inside

theorem follows_historyPrev {snapshot : List String}
    (printable : ∀ entry ∈ snapshot, ∀ c ∈ entry.toList, Printable c) :
    e.Follows t y most old (e.historyPrev snapshot) := by
  unfold historyPrev
  cases browsing : e.histPos with
  | none =>
    dsimp only
    split
    next empty =>
      refine .ok ⟨⟨sound.cursor, sound.painted, ?_, sound.prompt, sound.chars, printable, sound.draft⟩,
        rfl, fun fits => .ok ?_⟩
      · intro i same
        cases same
      · dsimp only
        rw [Nat.max_eq_left shown.within]
        exact ⟨shown.within, shown.row⟩
    next entries =>
      have inside : snapshot.length - 1 < snapshot.length :=
        Nat.sub_lt (List.length_pos_of_ne_nil entries) Nat.one_pos
      refine follows_showEntry sound shown ?_ ?_ printable sound.chars inside
      · rfl
      · rfl
  | some i =>
    have inside := sound.position i browsing
    cases i with
    | zero => exact shown.kept sound
    | succ i => exact follows_showEntry sound shown rfl rfl sound.hist sound.draft (Nat.lt_of_succ_lt inside)

theorem follows_historyNext : e.Follows t y most old e.historyNext := by
  unfold historyNext
  cases browsing : e.histPos with
  | none => exact shown.kept sound
  | some i =>
    dsimp only
    split
    next inside => exact follows_showEntry sound shown rfl rfl sound.hist sound.draft inside
    next =>
      refine shown.redrawn sound rfl rfl (Nat.le_refl _) (fun j same => ?_) sound.draft sound.hist sound.draft
      cases same

theorem follows_edit {op : Edit} (printable : op.Printable) : e.Follows t y most old (e.edit op) := by
  cases op with
  | insert c => exact follows_insert sound shown printable
  | backspace => exact follows_backspace sound shown
  | delete => exact follows_delete sound shown
  | left => exact follows_left sound shown
  | right => exact follows_right sound shown
  | home => exact follows_home sound shown
  | goEnd => exact follows_goEnd sound shown
  | historyPrev snapshot => exact follows_historyPrev sound shown printable
  | historyNext => exact follows_historyNext sound shown

omit sound shown

theorem length_le_longest (e : LineEditor) (ops : List Edit) : e.chars.length ≤ e.longest ops := by
  cases ops with
  | nil => exact Nat.le_refl _
  | cons op rest =>
    rw [longest]
    split
    · exact Nat.le_max_left ..
    · exact Nat.le_refl _

theorem yields_edits (ops : List Edit) (printable : ∀ op ∈ ops, op.Printable)
    {s : Session} (sound : s.editor.Sound)
    (shown : s.editor.Shown s.terminal y most old)
    (fits : s.editor.prompt.toList.length + max most (s.editor.longest ops) ≤ cols) :
    Yields (ops.foldlM Session.edit s) fun last => last.editor.Sound ∧ last.editor.prompt = s.editor.prompt ∧
      last.editor.Shown last.terminal y (max most (s.editor.longest ops)) old := by
  induction ops generalizing s most with
  | nil =>
    rw [longest, Nat.max_eq_left shown.within]
    exact .ok ⟨sound, rfl, shown⟩
  | cons op rest ih =>
    rw [List.foldlM_cons]
    obtain ⟨⟨e', texts⟩, edited, sound', prompt, paints⟩ := follows_edit sound shown (printable op (.head _))
    have within := shown.within
    have least := length_le_longest e' rest
    have whole : s.editor.longest (op :: rest) = max s.editor.chars.length (e'.longest rest) := by
      rw [longest, edited]
    rw [whole] at fits ⊢
    obtain ⟨t', printed, shown'⟩ := paints (by dsimp only; omega)
    have stepped : s.edit op = .ok { editor := e', terminal := t' } := by
      rw [Session.edit, edited]
      change (s.terminal.prints texts >>= _) = _
      rw [printed]
      rfl
    rw [stepped]
    have follows := ih (s := { editor := e', terminal := t' })
      (fun op member => printable op (.tail _ member)) sound' shown'
      (by dsimp only at prompt ⊢; rw [prompt]; omega)
    have length : max (max most e'.chars.length)
      (e'.longest rest) = max most (max s.editor.chars.length (e'.longest rest)) := by omega
    rw [length] at follows
    exact follows.imp fun last kept => ⟨kept.1, kept.2.1.trans prompt, kept.2.2⟩

end LineEditor

theorem Terminal.OnRow.rowText {t : Terminal} {y col : Nat} {text : Nat → Char} (on : t.OnRow y text col) :
    t.rowText y = (List.range cols).map text := by
  rw [Terminal.rowText, Vector.getElem?_eq_getElem on.low, Option.getD_some]
  refine List.ext_getElem (by rw [List.length_map, Vector.length_toList, List.length_map,
    List.length_range]) fun k inside _ => ?_
  rw [List.length_map, Vector.length_toList] at inside
  rw [List.getElem_map, Vector.getElem_toList, List.getElem_map, List.getElem_range]
  exact on.shown k inside

theorem map_lineText (prompt chars old : List Char) {most : Nat} (within : chars.length ≤ most)
    (length : old.length = cols)
    (fits : prompt.length + most ≤ cols) :
    (List.range cols).map (lineText prompt chars most fun k => old[k]?.getD ' ') =
      prompt ++ chars ++ List.replicate (most - chars.length) ' ' ++ old.drop (prompt.length + most) := by
  refine List.ext_getElem? fun k => ?_
  by_cases inside : k < cols
  next =>
    rw [List.getElem?_map, List.getElem?_range inside, Option.map_some, lineText]
    have painted : (prompt ++ chars ++ List.replicate (most - chars.length) ' ').length = prompt.length +
      most := by
      rw [List.length_append, List.length_append, List.length_replicate]
      omega
    by_cases near : k < prompt.length + most
    next =>
      rw [if_pos near]
      by_cases line : k < (prompt ++ chars).length
      next =>
        rw [List.getElem?_eq_getElem line, List.getElem?_append_left (painted ▸ near),
          List.getElem?_append_left line,
          List.getElem?_eq_getElem line]
        rfl
      next =>
        have behind := Nat.not_lt.mp line
        rw [List.getElem?_eq_none behind, List.getElem?_append_left (painted ▸ near),
          List.getElem?_append_right behind,
          List.getElem?_replicate]
        rw [List.length_append] at behind ⊢
        rw [if_pos (by omega)]
        rfl
    next =>
      rw [if_neg near, List.getElem?_append_right (by omega), painted, List.getElem?_drop,
        Nat.add_sub_cancel' (Nat.not_lt.mp near),
        List.getElem?_eq_getElem (by omega)]
      rfl
  next =>
    rw [List.getElem?_eq_none (by rw [List.length_map, List.length_range]; omega), List.getElem?_eq_none]
    simp only [List.length_append, List.length_replicate, List.length_drop]
    omega

/-- The row after edits of which the longest line had the length `most`. -/
structure RowShows (t : Terminal) (prompt : String) (most : Nat) (s : Session) : Prop where
  cursor : s.editor.cursor ≤ s.editor.chars.length
  position : ∀ i, s.editor.histPos = some i → i < s.editor.hist.length
  row : s.terminal.cy = t.cy
  column : s.terminal.cx = prompt.length + s.editor.cursor
  text : s.terminal.rowText t.cy =
    prompt.toList ++ s.editor.chars ++ List.replicate (most - s.editor.chars.length)
      ' ' ++ (t.rowText t.cy).drop (prompt.length + most)

/-- The row has the prompt, the line, and blanks as far as there ever was a line; behind that it is as it
was. -/
theorem row_shows {t : Terminal} {prompt : String} {ops : List Edit} (safe : t.Safe) (left : t.cx = 0)
    (ordinary : t.esc = .none)
    (glyphs : ∀ c ∈ prompt.toList, Printable c) (typed : ∀ op ∈ ops, op.Printable)
    (fits : prompt.length + (LineEditor.new prompt).longest ops ≤ cols) :
    Yields (Session.prompted prompt t ops) (RowShows t prompt ((LineEditor.new prompt).longest ops)) := by
  have size : prompt.toList.length = prompt.length := String.length_toList
  have length : (t.rowText t.cy).length = cols := by
    rw [Terminal.rowText, List.length_map, Vector.length_toList]
  have on : t.OnRow t.cy (fun k => (t.rowText t.cy)[k]?.getD ' ') 0 := by
    refine ⟨safe.row, rfl, left, ordinary, fun k inside => ?_⟩
    rw [Terminal.rowText, Vector.getElem?_eq_getElem safe.row, Option.getD_some, List.getElem?_map,
      Vector.getElem?_toList,
      Vector.getElem?_eq_getElem inside]
    rfl
  have printed : Yields (t.writeStr prompt) fun t' => (LineEditor.new prompt).Shown t' t.cy 0 fun k =>
    (t.rowText t.cy)[k]?.getD ' ' := by
    refine (on.unscrolled.foldlM_glyphs (fun on printable room => on.feed_glyph printable room)
      glyphs (by omega)).imp fun t' on' => ?_
    refine ⟨Nat.le_refl _, ?_⟩
    rw [Nat.zero_add] at on'
    exact on'.congr fun k _ => written_prompt prompt.toList _ k
  have sound : (LineEditor.new prompt).Sound := by
    refine ⟨Nat.le_refl _, rfl, ?_, glyphs, ?_, ?_, ?_⟩ <;> simp [LineEditor.new]
  refine printed.bind fun t' shown => ?_
  refine (LineEditor.yields_edits ops typed (s := { editor := .new prompt, terminal := t' }) sound shown
    ?_).imp fun s last => ?_
  · dsimp only
    rw [Nat.zero_max, show (LineEditor.new prompt).prompt = prompt from rfl]
    omega
  · obtain ⟨sound, same, shown⟩ := last
    rw [Nat.zero_max] at shown
    have row := shown.row
    rw [same] at row
    refine ⟨sound.cursor, sound.position, row.row, ?_, ?_⟩
    · exact row.column.trans (by dsimp only [LineEditor.new]; omega)
    · rw [row.rowText]
      refine (map_lineText prompt.toList s.editor.chars _ shown.within length ?_).trans ?_
      · dsimp only
        omega
      · rw [size]

theorem row_shows_typed :
    Yields (Session.prompted shellPrompt {} [.insert 'l', .insert 's', .home, .right, .backspace,
      .historyPrev ["help"], .historyNext])
      (RowShows {} shellPrompt 4) :=
  row_shows (Terminal.safe_resetFull {}) rfl rfl (by simp [shellPrompt, Printable])
    (by simp [Edit.Printable, Printable]) (by decide)

/-- A prompt at the left of a row in which something stands: the row keeps it. -/
theorem row_keeps_rest : ∃ t, ({} : Terminal).writeStr "             x\x1b[H" = .ok t ∧ t.cx = 0 ∧ t.cy = 0 ∧
    Yields (Session.prompted shellPrompt t [.insert 'l', .insert 's']) fun s =>
      ¬∃ count, s.terminal.rowText 0 = shellPrompt.toList ++ s.editor.chars ++ List.replicate count ' ' := by
  have run : ((({} : Terminal).writeStr "             x\x1b[H") >>= fun t =>
      (Session.prompted shellPrompt t [.insert 'l', .insert 's']).map fun s =>
        (t.cx, t.cy, s.terminal.rowText 0, s.editor.chars)) =
      .ok (0, 0, "pickleos> ls x".toList ++ List.replicate 50 ' ', ['l', 's']) := by
    decide
  obtain ⟨t, start, rest⟩ := bind_ok run
  refine ⟨t, start, ?_⟩
  cases typed : Session.prompted shellPrompt t [.insert 'l', .insert 's'] with
  | error stop =>
    rw [typed] at rest
    cases rest
  | ok s =>
    rw [typed] at rest
    obtain ⟨column, row, text, chars⟩ : t.cx = 0 ∧ t.cy = 0 ∧
        s.terminal.rowText 0 = "pickleos> ls x".toList ++ List.replicate 50 ' ' ∧
        s.editor.chars = ['l', 's'] := by
      simpa [Except.map] using rest
    refine ⟨column, row, .ok fun ⟨count, blank⟩ => ?_⟩
    rw [text, chars] at blank
    have rest : (List.replicate count ' ')[1]? = some 'x' := (congrArg (fun row => row[13]?) blank).symm
    rw [List.getElem?_replicate] at rest
    split at rest <;> simp at rest

end PickleOS.Console
