import PickleOS.Console.Roll

set_option autoImplicit false

namespace PickleOS.Console

open Shared Shared.Checked Shared.Recent

namespace Terminal

def head (t : Terminal) : Head where
  cx := t.cx
  cy := t.cy
  inUse := t.inUse
  owner := t.owner
  curFg := t.curFg
  esc := t.esc
  params := t.params
  nparam := t.nparam
  haveDigit := t.haveDigit

/-- The terminal at the end of a roll on which `history` was scrolled off. -/
def onRoll (t : Terminal) (history : List Row) : Roll := { head := t.head, lines := history ++ t.cells.toList }

/-- The roll shows what the terminal shows, and keeps all of what the terminal keeps the end of. -/
def Recalls (roll : Roll) (t : Terminal) : Prop :=
  ∃ history, roll = t.onRoll history ∧ t.scroll = history.rtake scrollbackMax

variable {t : Terminal} {roll : Roll} {history : List Row}

@[simp] theorem head_onRoll : (t.onRoll history).head = t.head := rfl

@[simp] theorem top_onRoll : (t.onRoll history).top = history.length := by
  rw [Roll.top, onRoll, List.length_append, Vector.length_toList, Nat.add_sub_cancel]

@[simp] theorem history_onRoll : (t.onRoll history).history = history := by
  have split : (history ++ t.cells.toList).rdrop t.cells.toList.length = history := List.rdrop_append_length
  rwa [Vector.length_toList] at split

@[simp] theorem page_onRoll : (t.onRoll history).page = t.cells.toList := by
  have split := rtake_append_length history t.cells.toList
  rwa [Vector.length_toList] at split

theorem onRoll_edit {row : Nat} (inside : row < rows) (f : Row → Row) :
    (t.onRoll history).edit row f = { t with cells := t.cells.set row (f t.cells[row]) }.onRoll history := by
  have within : row < t.cells.toList.length := by rwa [Vector.length_toList]
  rw [Roll.edit, top_onRoll, onRoll, onRoll, Vector.toList_set]
  congr 1
  refine (modify_append history t.cells.toList row f).trans ?_
  congr 1
  refine List.ext_getElem? fun i => ?_
  rw [List.getElem?_modify, List.getElem?_set]
  by_cases same : row = i
  next => subst same; simp [inside]
  next => simp [same]

theorem setIfInBounds_eq {α : Type} {n i : Nat} (xs : Vector α n) (value : α) (inside : i < n) :
    xs.setIfInBounds i value = xs.set i value inside :=
  Vector.ext fun k within => by rw [Vector.getElem_setIfInBounds, Vector.getElem_set]

theorem toList_movedUp (cells : Grid) : cells.toList ++ [blankRow] = cells[0] :: (movedUp cells).toList := by
  refine List.ext_getElem? fun i => ?_
  cases i with
  | zero => simp [show 0 < rows by decide]
  | succ i =>
    rw [List.getElem?_cons_succ]
    by_cases inside : i + 1 < rows
    next => simp [movedUp, inside, Nat.lt_of_succ_lt inside]
    next =>
      by_cases last : i + 1 = rows
      next => simp [movedUp, last, show i < rows by omega]
      next =>
        rw [List.getElem?_eq_none (by simp; omega), List.getElem?_eq_none (by simp; omega)]

theorem Recalls.newline (recalls : Recalls roll t) (row : t.cy < rows) : Recalls roll.newline t.newline := by
  obtain ⟨history, rfl, scroll⟩ := recalls
  by_cases room : t.cy + 1 < rows
  next =>
    refine ⟨history, ?_, ?_⟩
    · rw [Roll.newline, head_onRoll, Terminal.newline]
      dsimp only
      rw [if_pos (show t.head.cy + 1 < rows from room), if_neg (show ¬rows ≤ t.cy + 1 from Nat.not_le.mpr room)]
      rfl
    · rw [Terminal.newline]
      dsimp only
      rw [if_neg (show ¬rows ≤ t.cy + 1 from Nat.not_le.mpr room)]
      exact scroll
  next =>
    refine ⟨history ++ [t.cells[0]], ?_, ?_⟩
    · rw [Roll.newline, head_onRoll, Terminal.newline]
      dsimp only
      rw [if_neg (show ¬t.head.cy + 1 < rows from room), if_pos (show rows ≤ t.cy + 1 from Nat.not_lt.mp room)]
      rw [onRoll, onRoll]
      congr 1
      refine (List.append_assoc ..).trans ?_
      rw [toList_movedUp]
      exact (List.append_cons ..)
    · rw [Terminal.newline]
      dsimp only
      rw [if_pos (show rows ≤ t.cy + 1 from Nat.not_lt.mp room)]
      refine (congrArg (fun old => Lossy.push scrollbackMax old t.cells[0]) scroll).trans ?_
      exact push_rtake (by decide) history t.cells[0]

theorem Recalls.print (recalls : Recalls roll t) (c : Char) (row : t.cy < rows) (col : t.cx < cols) :
    Yields (t.setCell t.cy t.cx { ch := c, fg := t.curFg }) fun t' =>
      Recalls (roll.print c) { t' with cx := t'.cx + 1 } := by
  obtain ⟨history, rfl, scroll⟩ := recalls
  rw [setCell_eq _ row col]
  refine .ok ⟨history, ?_, scroll⟩
  rw [Roll.print]
  dsimp only
  rw [head_onRoll, show t.head.cy = t.cy from rfl, onRoll_edit row, show t.head.cx = t.cx from rfl,
    setIfInBounds_eq _ _ col]
  rfl

theorem Recalls.head (recalls : Recalls roll t) : roll.head = t.head := by
  obtain ⟨history, rfl, scroll⟩ := recalls
  rfl

theorem Recalls.moved (recalls : Recalls roll t) {head : Head} {t' : Terminal} (cells : t'.cells = t.cells)
    (scroll : t'.scroll = t.scroll) (same : head = t'.head) : Recalls { roll with head := head } t' := by
  obtain ⟨history, rfl, old⟩ := recalls
  exact ⟨history, by rw [same, onRoll, onRoll, cells], scroll.trans old⟩

theorem Recalls.put (recalls : Recalls roll t) (safe : t.Safe) (c : Char) :
    Yields (t.put c) (Recalls (roll.put c)) := by
  rw [Roll.put, Terminal.put]
  by_cases feed : c = '\n'
  next =>
    rw [if_pos feed, if_pos feed]
    exact .ok (recalls.newline safe.row)
  rw [if_neg feed, if_neg feed]
  by_cases control : c.val < 0x20
  next =>
    rw [if_pos control, Head.control, recalls.head]
    by_cases back : c = '\r'
    next =>
      rw [if_pos back, if_pos back]
      exact .ok (recalls.moved rfl rfl rfl)
    rw [if_neg back, if_neg back]
    by_cases stop : c = '\t'
    next =>
      rw [if_pos stop, if_pos stop]
      exact .ok (recalls.moved rfl rfl rfl)
    rw [if_neg stop, if_neg stop]
    by_cases erase : c = '\x08'
    next =>
      rw [if_pos erase, if_pos erase, show t.head.cx = t.cx from rfl, show t.head.cy = t.cy from rfl]
      split
      · exact .ok (recalls.moved rfl rfl rfl)
      split
      · exact .ok (recalls.moved rfl rfl rfl)
      · exact .ok (recalls.moved rfl rfl rfl)
    rw [if_neg erase, if_neg erase, if_neg (UInt32.not_le.mpr control)]
    exact .ok (recalls.moved rfl rfl rfl)
  next =>
    have glyph := UInt32.not_lt.mp control
    have back : c ≠ '\r' := by rintro rfl; exact control (by decide)
    have stop : c ≠ '\t' := by rintro rfl; exact control (by decide)
    have erase : c ≠ '\x08' := by rintro rfl; exact control (by decide)
    rw [if_neg control, if_neg back, if_neg stop, if_neg erase, if_pos glyph, recalls.head,
      show t.head.cx = t.cx from rfl]
    by_cases room : t.cx < cols
    next =>
      rw [if_pos room, if_neg (Nat.not_le.mpr room)]
      exact (recalls.print c safe.row room).bind fun _ recalls => .ok recalls
    next =>
      rw [if_neg room, if_pos (Nat.not_lt.mp room)]
      have start : t.newline.cx < cols := by rw [newline_cx]; decide
      exact ((recalls.newline safe.row).print c safe.newline.row start).bind fun _ recalls => .ok recalls

theorem erase_eq (n c : Nat) (fits : c + n ≤ cols) (t : Terminal) (row : t.cy < rows) :
    (List.range' c n).foldlM (fun t c => t.setCell t.cy c .blank) t =
      .ok { t with cells :=
        t.cells.set t.cy (t.cells[t.cy].mapIdx fun k cell => if c ≤ k ∧ k < c + n then .blank else cell) } := by
  induction n generalizing c t with
  | zero =>
    have nothing : (t.cells[t.cy].mapIdx fun k cell => if c ≤ k ∧ k < c + 0 then Cell.blank else cell) =
      t.cells[t.cy] :=
      Vector.ext fun k inside => by rw [Vector.getElem_mapIdx, if_neg (by omega)]
    rw [nothing, Vector.set_getElem_self]
    rfl
  | succ n ih =>
    rw [List.range'_succ, List.foldlM_cons, setCell_eq .blank row (by omega)]
    refine (ih (c + 1) (by omega) { t with cells := t.cells.set t.cy (t.cells[t.cy].set c .blank) }
      row).trans ?_
    dsimp only
    rw [Vector.set_set, Vector.getElem_set_self]
    congr 3
    refine Vector.ext fun k inside => ?_
    rw [Vector.getElem_mapIdx, Vector.getElem_mapIdx, Vector.getElem_set]
    split_ifs <;> first | rfl | omega

theorem Recalls.eraseToEol (recalls : Recalls roll t) (safe : t.Safe) :
    Yields t.eraseToEol fun t' => Recalls roll.eraseToEol t' ∧ t'.cy = t.cy := by
  have column := safe.column
  obtain ⟨history, rfl, scroll⟩ := recalls
  rw [Terminal.eraseToEol, erase_eq _ _ (by omega) t safe.row]
  refine .ok ⟨⟨history, ?_, scroll⟩, rfl⟩
  rw [Roll.eraseToEol, head_onRoll, show t.head.cy = t.cy from rfl, onRoll_edit safe.row]
  congr 3
  refine Vector.ext fun k inside => ?_
  rw [Vector.getElem_mapIdx, Vector.getElem_mapIdx, show t.head.cx = t.cx from rfl]
  split_ifs <;> first | rfl | omega

theorem clear_rows_eq (n r : Nat) (fits : r + n ≤ rows) (t : Terminal) :
    (List.range' r n).foldlM clearRow t =
      .ok { t with cells := t.cells.mapIdx fun k line => if r ≤ k ∧ k < r + n then blankRow else line } := by
  induction n generalizing r t with
  | zero =>
    have nothing : (t.cells.mapIdx fun k line => if r ≤ k ∧ k < r + 0 then blankRow else line) = t.cells :=
      Vector.ext fun k inside => by rw [Vector.getElem_mapIdx, if_neg (by omega)]
    rw [nothing]
    rfl
  | succ n ih =>
    rw [List.range'_succ, List.foldlM_cons, clearRow, setAt_eq t.cells blankRow (show r < rows by omega)]
    refine (ih (r + 1) (by omega) _).trans ?_
    dsimp only
    congr 2
    refine Vector.ext fun k inside => ?_
    rw [Vector.getElem_mapIdx, Vector.getElem_mapIdx, Vector.getElem_set]
    split_ifs <;> first | rfl | omega

theorem Recalls.clearGrid (recalls : Recalls roll t) : Recalls roll.clear t.clearGrid := by
  obtain ⟨history, rfl, scroll⟩ := recalls
  refine ⟨history, ?_, scroll⟩
  rw [Roll.clear, history_onRoll]
  rfl

theorem Recalls.eraseDisplay (recalls : Recalls roll t) (safe : t.Safe) (count : Nat) :
    Yields (t.eraseDisplay count) (Recalls (roll.eraseDisplay count)) := by
  have first : roll.head.param 0 = t.params[0] := by
    rw [recalls.head]
    rfl
  rw [Terminal.eraseDisplay, getAt_eq _ (by decide : 0 < 8), Roll.eraseDisplay, first]
  change Yields (if (if 0 < count then t.params[0] else 0) = 2 ∨
    (if 0 < count then t.params[0] else 0) = 3 then _ else _) _
  by_cases whole : 0 < count ∧ (t.params[0] = 2 ∨ t.params[0] = 3)
  next =>
    rw [if_pos whole, if_pos whole.1, if_pos whole.2]
    exact .ok recalls.clearGrid
  next =>
    have below : ¬((if 0 < count then t.params[0] else 0) = 2 ∨
      (if 0 < count then t.params[0] else 0) = 3) := by
      by_cases given : 0 < count
      next =>
        rw [if_pos given]
        exact fun mode => whole ⟨given, mode⟩
      next =>
        rw [if_neg given]
        decide
    rw [if_neg whole, if_neg below]
    refine (recalls.eraseToEol safe).bind fun t' erased => ?_
    obtain ⟨⟨history, same, scroll⟩, row⟩ := erased
    have inside : t'.cy < rows := row ▸ safe.row
    rw [clear_rows_eq _ _ (by omega) t']
    refine .ok ⟨history, ?_, scroll⟩
    dsimp only
    rw [same, head_onRoll, top_onRoll, onRoll, onRoll, show t'.head.cy = t'.cy from rfl]
    congr 1
    dsimp only
    rw [List.take_length_add_append, List.append_assoc]
    congr 1
    refine List.ext_getElem? fun k => ?_
    rw [List.getElem?_append, List.length_take, Vector.length_toList, List.getElem?_replicate,
      List.getElem?_take,
      Vector.getElem?_toList, Vector.getElem?_toList, Vector.getElem?_mapIdx]
    by_cases within : k < rows
    next =>
      rw [Vector.getElem?_eq_getElem within, Option.map_some]
      split_ifs <;> first | rfl | omega
    next =>
      rw [Vector.getElem?_eq_none (Nat.not_lt.mp within), Option.map_none]
      split_ifs <;> first | rfl | omega

theorem Recalls.sgr (recalls : Recalls roll t) (code : UInt16) :
    Yields (t.sgr code) (Recalls { roll with head := roll.head.sgr code }) := by
  have taken (colours : List UInt32) {i : Nat} (inside : i < colours.length) :
      Checked.elemAt Panic.bounds colours i = .ok (colours[i]?.getD defaultFg) := by
    rw [elemAt_eq_ok, List.getElem?_eq_getElem inside]
    rfl
  rw [Terminal.sgr, Head.sgr, recalls.head]
  split
  · exact .ok (recalls.moved rfl rfl rfl)
  split
  next range =>
    have low := UInt16.le_iff_toNat_le.mp range.1
    have high := UInt16.le_iff_toNat_le.mp range.2
    rw [taken ansi (by simp [ansi] at low high ⊢; omega)]
    exact .ok (recalls.moved rfl rfl rfl)
  split
  next range =>
    have low := UInt16.le_iff_toNat_le.mp range.1
    have high := UInt16.le_iff_toNat_le.mp range.2
    rw [taken ansiBright (by simp [ansiBright] at low high ⊢; omega)]
    exact .ok (recalls.moved rfl rfl rfl)
  · exact .ok (recalls.moved rfl rfl rfl)

theorem Recalls.param (recalls : Recalls roll t) {i : Nat} (inside : i < 8) :
    getAt t.params i = .ok (roll.head.param i) := by
  rw [getAt_eq _ inside, recalls.head, Head.param, show t.head.params = t.params from rfl,
    Vector.getElem?_eq_getElem inside]
  rfl

theorem Recalls.csiDispatch (recalls : Recalls roll t) (safe : t.Safe) (finalByte : Char)
    {count : Nat} (bound : count ≤ 8) :
    Yields (t.csiDispatch finalByte count) (Recalls (roll.csiDispatch finalByte count)) := by
  rw [Terminal.csiDispatch, Roll.csiDispatch]
  split
  · split
    · exact recalls.sgr 0
    · have loop := Yields.foldlM_foldl (List.range count) (f := fun t i => do
          let code ← getAt t.params i
          t.sgr code) (g := fun h i => h.sgr (h.param i)) (R := fun h => Recalls { roll with head := h })
        (fun h t' i member kept => by
          rw [kept.param (Nat.lt_of_lt_of_le (List.mem_range.mp member) bound)]
          exact kept.sgr _) (s := t) recalls
      exact loop
  split
  · rw [Terminal.cursorTo, recalls.param (by decide), recalls.param (by decide)]
    refine .ok (recalls.moved rfl rfl ?_)
    rw [Head.cursorTo, recalls.head]
    rfl
  split
  · exact recalls.eraseDisplay safe count
  split
  · exact (recalls.eraseToEol safe).imp fun _ erased => erased.1
  · exact .ok recalls

theorem Recalls.feed (recalls : Recalls roll t) (safe : t.Safe) (c : Char) :
    Yields (t.feed c) (Recalls (roll.feed c)) := by
  have params := safe.params
  rw [Terminal.feed, Roll.feed, recalls.head, show t.head.esc = t.esc from rfl]
  cases state : t.esc with
  | seen =>
    dsimp only
    split
    · exact .ok (recalls.moved rfl rfl rfl)
    · exact .ok (recalls.moved rfl rfl rfl)
  | csi =>
    dsimp only
    split
    · rw [recalls.param params, recalls.head]
      change Yields (setAt t.params t.nparam _ >>= _) _
      rw [setAt_eq _ _ params]
      refine .ok (recalls.moved rfl rfl ?_)
      rw [show t.head.nparam = t.nparam from rfl, setIfInBounds_eq _ _ params,
        show t.head.esc = .csi from state]
      rfl
    split
    · refine .ok ?_
      split
      next room =>
        have more : min (t.nparam + 1) 7 = t.nparam + 1 := by omega
        refine recalls.moved rfl rfl ?_
        rw [show t.head.nparam = t.nparam from rfl, more, show t.head.esc = .csi from state]
        rfl
      next full =>
        have last : min (t.nparam + 1) 7 = t.nparam := by omega
        refine recalls.moved rfl rfl ?_
        rw [show t.head.nparam = t.nparam from rfl, last]
        rfl
    · refine (recalls.csiDispatch safe c (by split <;> omega)).bind fun t' kept => ?_
      exact .ok (kept.moved rfl rfl (congrArg (fun head : Head => { head with esc := .none }) kept.head))
  | none =>
    dsimp only
    split
    · exact .ok (recalls.moved rfl rfl rfl)
    · exact recalls.put safe c

theorem Recalls.writeStr (recalls : Recalls roll t) (safe : t.Safe) (s : String) :
    Yields (t.writeStr s) fun t' => Recalls (roll.writeStr s) t' ∧ t'.Safe := by
  refine Yields.foldlM_foldl (R := fun roll t => Recalls roll t ∧ t.Safe)
    s.toList (fun roll t c member kept => ?_) ⟨?_, ?_⟩
  · exact (kept.1.feed kept.2 c).and (kept.2.feed c)
  · exact recalls.moved rfl rfl recalls.head
  · exact ⟨safe.column, safe.row, safe.params, safe.history, Nat.zero_le _⟩

theorem recalls_fresh (t : Terminal) (inUse : Bool) (owner : Nat) :
    Recalls (Rolls.fresh inUse owner) { t.resetFull with inUse := inUse, owner := owner } :=
  ⟨[], rfl, rfl⟩

/-- A view `view` lines up shows the rows of history and grid that end `view` above the last. -/
theorem copyGrid_window (view : Nat) (inside : view ≤ t.scroll.length) :
    Yields { t with view := view }.copyGrid fun shown =>
      shown.1 = window rows view (t.scroll ++ t.cells.toList) := by
  have fits : rows + view ≤ (t.scroll ++ t.cells.toList).length := by
    rw [List.length_append, Vector.length_toList]
    omega
  rw [copyGrid]
  dsimp only
  split
  next bottom =>
    refine .ok ?_
    rw [bottom, window, List.rdrop_zero]
    have live := rtake_append_length t.scroll t.cells.toList
    rw [Vector.length_toList] at live
    exact live.symm
  next back =>
    have each (r : Nat) (member : r ∈ List.range rows) :
        (if t.scroll.length - min view t.scroll.length + r < t.scroll.length then
          elemAt Panic.bounds t.scroll (t.scroll.length - min view t.scroll.length + r)
        else getAt t.cells (t.scroll.length - min view t.scroll.length + r - t.scroll.length)) =
          .ok ((t.scroll ++ t.cells.toList)[t.scroll.length - view + r]?.getD blankRow) := by
      have row := List.mem_range.mp member
      rw [Nat.min_eq_left inside]
      split
      next old => rw [elemAt_eq_ok, List.getElem?_append_left old, List.getElem?_eq_getElem old]; rfl
      next live =>
        rw [getAt_eq _ (by omega), List.getElem?_append_right (by omega), Vector.getElem?_toList,
          Vector.getElem?_eq_getElem (by omega)]
        rfl
    rw [mapM_ok (List.range rows) each]
    refine .ok (List.ext_getElem? fun r => ?_)
    have length : (t.scroll ++ t.cells.toList).length = t.scroll.length + rows := by
      rw [List.length_append, Vector.length_toList]
    by_cases row : r < rows
    next =>
      rw [getElem?_window fits row, List.getElem?_map, List.getElem?_range row, length, Option.map_some,
        show t.scroll.length + rows - view - rows = t.scroll.length - view by omega,
        List.getElem?_eq_getElem (show t.scroll.length -
          view + r < (t.scroll ++ t.cells.toList).length by omega)]
      rfl
    next =>
      rw [List.getElem?_eq_none (by rw [List.length_map, List.length_range]; omega),
        List.getElem?_eq_none (by rw [length_window fits]; omega)]

end Terminal

namespace Rolls

def Follow (rolls : Rolls) (terms : Terms) : Prop :=
  ∀ i (inside : i < maxTerms), Terminal.Recalls rolls[i] terms.slots[i]

variable {rolls : Rolls} {terms : Terms}

theorem Follow.findIdx (follow : rolls.Follow terms) (p : Head → Bool) :
    rolls.toList.findIdx? (fun roll => p roll.head) = terms.slots.toList.findIdx? fun t => p t.head := by
  have heads : rolls.toList.map (fun roll => roll.head) = terms.slots.toList.map fun t => t.head := by
    refine List.ext_getElem (by rw [List.length_map, List.length_map, Vector.length_toList,
      Vector.length_toList]) fun i inside _ => ?_
    rw [List.length_map, Vector.length_toList] at inside
    rw [List.getElem_map, List.getElem_map, Vector.getElem_toList, Vector.getElem_toList]
    exact (follow i inside).head
  have same := congrArg (List.findIdx? p) heads
  rwa [List.findIdx?_map, List.findIdx?_map] at same

theorem Follow.target (follow : rolls.Follow terms) (tid : Nat) : rolls.target tid = terms.target tid :=
  congrArg (fun found => found.getD primary) (follow.findIdx fun head => head.inUse && head.owner = tid)

theorem Follow.changing (follow : rolls.Follow terms) (id : Nat) {f : Terminal → Except Panic Terminal}
    {g : Roll → Roll}
    (both : ∀ inside : id < maxTerms, Yields (f terms.slots[id]) (Terminal.Recalls (g rolls[id]))) :
    Yields (terms.changing id f) (rolls.change id g).Follow := by
  unfold Terms.changing
  split
  next outside =>
    refine .ok fun i inside => ?_
    rw [change, Vector.getElem_mapIdx, if_neg (by omega)]
    exact follow i inside
  next inside =>
    have inside := Nat.not_le.mp inside
    refine (yields_getAt terms.slots inside).bind ?_
    rintro _ rfl
    refine (both inside).bind fun t' recalls => ?_
    refine (yields_setAt terms.slots t' inside).bind fun slots written => ?_
    refine (yields_getAt terms.seq inside).bind fun count _ => ?_
    refine (yields_setAt terms.seq (count + 1) inside).bind fun seq _ => .ok fun i within => ?_
    dsimp only
    rw [written i within, change, Vector.getElem_mapIdx]
    by_cases same : i = id
    next =>
      subst same
      rw [if_pos rfl, if_pos rfl]
      exact recalls
    next =>
      rw [if_neg same, if_neg (Ne.symm same)]
      exact follow i within

theorem Follow.write (follow : rolls.Follow terms) (safe : terms.Safe) (id : Nat) (s : String) :
    Yields (terms.write id s) (rolls.change id fun roll => roll.writeStr s).Follow :=
  follow.changing id fun inside => ((follow id inside).writeStr (safe id inside) s).imp fun _ kept => kept.1

theorem Follow.clear (follow : rolls.Follow terms) (id : Nat) :
    Yields (terms.clear id) (rolls.change id Roll.clear).Follow :=
  follow.changing id fun inside => .ok (follow id inside).clearGrid

theorem Follow.setView (follow : rolls.Follow terms) (id view : Nat) :
    Yields (terms.setView id view) rolls.Follow := by
  have same : rolls.change id (fun roll => roll) = rolls :=
    Vector.ext fun i inside => by rw [change, Vector.getElem_mapIdx, ite_self]
  have viewed := follow.changing id (f := fun t => .ok { t with view := view }) (g := fun roll => roll)
    fun inside =>
    .ok ((follow id inside).moved rfl rfl (follow id inside).head)
  rwa [same] at viewed

theorem Follow.scrollView (follow : rolls.Follow terms) (safe : terms.Safe) (id : Nat) (delta : Int32) :
    Yields (terms.scrollView id delta) rolls.Follow := by
  unfold Terms.scrollView
  split
  · exact .ok follow
  next inside =>
    refine (yields_getAt terms.slots (Nat.not_le.mp inside)).bind ?_
    rintro _ rfl
    refine ((safe id (Nat.not_le.mp inside)).scrolled delta).bind fun view _ => ?_
    split
    · exact follow.setView id view
    · exact .ok follow

theorem Follow.scrollToBottom (follow : rolls.Follow terms) (id : Nat) :
    Yields (terms.scrollToBottom id) rolls.Follow := by
  unfold Terms.scrollToBottom
  split
  · exact .ok follow
  next inside =>
    refine (yields_getAt terms.slots (Nat.not_le.mp inside)).bind fun t _ => ?_
    split
    · exact follow.setView id 0
    · exact .ok follow

theorem Follow.bind (follow : rolls.Follow terms) (id taskId : Nat) :
    Yields (terms.bind id taskId) (rolls.act (.bind id taskId)).Follow := by
  refine (terms.yields_bind id taskId).imp fun terms' after i within => ?_
  rw [after i within, act, change, Vector.getElem_mapIdx]
  split
  · refine (follow i within).moved rfl rfl ?_
    rw [(follow i within).head]
    rfl
  · exact follow i within

theorem Follow.allocTerminal (follow : rolls.Follow terms) :
    Yields terms.allocTerminal fun result => rolls.alloc.Follow result.2 := by
  have search : rolls.toList.findIdx? (fun roll => !roll.head.inUse) = terms.slots.toList.findIdx?
    fun t => !t.inUse :=
    follow.findIdx fun head => !head.inUse
  unfold Terms.allocTerminal alloc
  rw [search]
  cases found : terms.slots.toList.findIdx? (fun t => !t.inUse) with
  | none => exact .ok follow
  | some id =>
    refine Yields.bind (follow.changing id fun inside => .ok ?_) fun terms' follow' => .ok follow'
    rw [(follow id inside).head]
    exact Terminal.recalls_fresh terms.slots[id] true terms.slots[id].owner

theorem Follow.act (follow : rolls.Follow terms) (safe : terms.Safe) (action : Action) :
    Yields (terms.act action) (rolls.act action).Follow := by
  cases action with
  | write id s => exact follow.write safe id s
  | writeForCurrent tid s =>
    rw [Rolls.act, follow.target]
    exact follow.write safe _ s
  | clear id => exact follow.clear id
  | clearForCurrent tid =>
    rw [Rolls.act, follow.target]
    exact follow.clear _
  | scrollView id delta => exact follow.scrollView safe id delta
  | scrollToBottom id => exact follow.scrollToBottom id
  | allocTerminal => exact follow.allocTerminal.map
  | freeTerminal id =>
    exact follow.changing id fun inside => .ok (Terminal.recalls_fresh terms.slots[id] false 0)
  | bind id taskId => exact follow.bind id taskId

/-- A new roll in each slot, with the owners that the terminals have. -/
def start (terms : Terms) : Rolls := terms.slots.map fun t => fresh t.inUse t.owner

theorem follow_start (terms : Terms) : (start terms).Follow terms.resetAll := by
  intro i inside
  rw [Terms.resetAll, start, Vector.getElem_map]
  dsimp only
  rw [Vector.getElem_map]
  exact Terminal.recalls_fresh terms.slots[i] terms.slots[i].inUse terms.slots[i].owner

end Rolls

theorem yields_setView {terms : Terms} {i : Nat} (inside : i < maxTerms) (view : Nat) :
    Yields (terms.setView i view) fun viewed => viewed.slots[i] = { terms.slots[i] with view := view } := by
  unfold Terms.setView Terms.changing
  rw [if_neg (Nat.not_le.mpr inside)]
  refine (yields_getAt terms.slots inside).bind ?_
  rintro _ rfl
  refine (yields_setAt terms.slots { terms.slots[i] with view := view } inside).bind fun slots written => ?_
  refine (yields_getAt terms.seq inside).bind fun count _ => ?_
  refine (yields_setAt terms.seq (count + 1) inside).bind fun seq _ => .ok ?_
  exact (written i inside).trans (if_pos rfl)

/-- The terminal has the last of the rows that were scrolled off the roll, and the page. -/
def Remembers (roll : Roll) (t : Terminal) : Prop :=
  t.scroll ++ t.cells.toList = roll.history.rtake (min scrollbackMax roll.history.length) ++ roll.page

/-- After any calls each terminal has the end of its roll, and every view shows the rows of it that stand
there. -/
theorem scrollback_recent (terms : Terms) (actions : List Action) :
    Yields (actions.foldlM Terms.act terms.resetAll) fun last => ∀ i (inside : i < maxTerms),
      Remembers (actions.foldl Rolls.act (Rolls.start terms))[i] last.slots[i] ∧
        ∀ view ≤ last.slots[i].scroll.length,
          Yields (last.setView i view >>= fun viewed => viewed.copyGrid i) fun shown =>
          shown.1 = window rows view (last.slots[i].scroll ++ last.slots[i].cells.toList) := by
  have start : (Rolls.start terms).Follow terms.resetAll ∧ terms.resetAll.Safe := by
    refine ⟨Rolls.follow_start terms, fun i inside => ?_⟩
    simp only [Terms.resetAll, Vector.getElem_map]
    exact Terminal.safe_resetFull _
  have run := Yields.foldlM_foldl (R := fun rolls terms => Rolls.Follow rolls terms ∧ Terms.Safe terms) actions
    (fun _ _ action _ kept => (kept.1.act kept.2 action).and (kept.2.act action)) start
  refine run.imp fun last kept i inside => ⟨?_, fun view back => ?_⟩
  · obtain ⟨history, roll, scroll⟩ := kept.1 i inside
    rw [Remembers, roll, Terminal.history_onRoll, Terminal.page_onRoll, rtake_min, scroll]
  · refine (yields_setView inside view).bind fun viewed same => ?_
    rw [Terms.copyGrid, if_neg (Nat.not_le.mpr inside)]
    refine (yields_getAt viewed.slots inside).bind ?_
    rintro _ rfl
    rw [same]
    exact Terminal.copyGrid_window view back

end PickleOS.Console
