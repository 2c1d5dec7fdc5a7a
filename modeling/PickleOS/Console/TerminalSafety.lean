import PickleOS.Console.Terminal

set_option autoImplicit false

namespace PickleOS.Console

open Shared Shared.Checked

structure Terminal.Safe (t : Terminal) : Prop where
  column : t.cx ≤ cols
  row : t.cy < rows
  params : t.nparam < 8
  history : t.scroll.length ≤ scrollbackMax
  view : t.view ≤ t.scroll.length

theorem getAt_eq {α : Type} {n i : Nat} (xs : Vector α n) (inside : i < n) : getAt xs i = .ok xs[i] :=
  dif_pos inside

theorem setAt_eq {α : Type} {n i : Nat} (xs : Vector α n) (value : α) (inside : i < n) :
    setAt xs i value = .ok (xs.set i value inside) := dif_pos inside

theorem yields_getAt {α : Type} {n i : Nat} (xs : Vector α n) (inside : i < n) :
    Yields (getAt xs i) fun value => value = xs[i] := by
  unfold getAt
  rw [dif_pos inside]
  exact .ok rfl

theorem yields_setAt {α : Type} {n i : Nat} (xs : Vector α n) (value : α) (inside : i < n) :
    Yields (setAt xs i value) fun xs' => ∀ j (within : j < n), xs'[j] = if i = j then value else xs[j] := by
  unfold setAt
  rw [dif_pos inside]
  exact .ok fun j within => Vector.getElem_set inside within

namespace Terminal

variable {t : Terminal}

theorem setCell_eq {row col : Nat} (cell : Cell) (inRow : row < rows) (inCol : col < cols) :
    t.setCell row col cell = .ok { t with cells := t.cells.set row (t.cells[row].set col cell) } := by
  rw [setCell, getAt_eq _ inRow]
  change (setAt t.cells[row] col cell >>= _) = _
  rw [setAt_eq _ _ inCol]
  change (setAt t.cells row _ >>= _) = _
  rw [setAt_eq _ _ inRow]
  rfl

def Repainted (t t' : Terminal) : Prop := ∃ cells, t' = { t with cells := cells }

theorem Repainted.safe {t' : Terminal} (safe : t.Safe) (repainted : Repainted t t') : t'.Safe := by
  obtain ⟨cells, rfl⟩ := repainted
  exact ⟨safe.column, safe.row, safe.params, safe.history, safe.view⟩

theorem yields_setCell {row col : Nat} (cell : Cell) (inRow : row < rows) (inCol : col < cols) :
    Yields (t.setCell row col cell) (Repainted t) := by
  refine (yields_getAt t.cells inRow).bind fun line _ => ?_
  refine (yields_setAt line cell inCol).bind fun line _ => ?_
  refine (yields_setAt t.cells line inRow).bind fun cells _ => ?_
  exact .ok ⟨cells, rfl⟩

@[simp] theorem scrollUp_cx (t : Terminal) : t.scrollUp.cx = t.cx := by
  simp only [scrollUp]

@[simp] theorem scrollUp_cy (t : Terminal) : t.scrollUp.cy = t.cy - 1 := rfl

@[simp] theorem scrollUp_nparam (t : Terminal) : t.scrollUp.nparam = t.nparam := by
  simp only [scrollUp]

@[simp] theorem scrollUp_view (t : Terminal) : t.scrollUp.view = t.view := by
  simp only [scrollUp]

theorem length_scrollUp (t : Terminal) :
    t.scrollUp.scroll.length = if scrollbackMax ≤ t.scroll.length then t.scroll.length - 1 + 1 else
      t.scroll.length + 1 := by
  rw [scrollUp, List.length_append]
  split <;> simp

theorem safe_scrollUp (column : t.cx ≤ cols) (row : t.cy ≤ rows) (params : t.nparam < 8)
    (history : t.scroll.length ≤ scrollbackMax) (view : t.view ≤ t.scroll.length) : t.scrollUp.Safe := by
  have height : rows = 28 := rfl
  have limit : scrollbackMax = 200 := rfl
  have length := length_scrollUp t
  refine ⟨?_, ?_, ?_, ?_, ?_⟩
  · rw [scrollUp_cx]
    exact column
  · rw [scrollUp_cy]
    omega
  · rw [scrollUp_nparam]
    exact params
  · split at length <;> omega
  · rw [scrollUp_view]
    split at length <;> omega

theorem Safe.newline (safe : t.Safe) : t.newline.Safe := by
  unfold Terminal.newline
  dsimp only
  split
  next low => exact safe_scrollUp (Nat.zero_le _) safe.row safe.params safe.history safe.view
  next room => exact ⟨Nat.zero_le _, Nat.not_le.mp room, safe.params, safe.history, safe.view⟩

theorem newline_cx (t : Terminal) : t.newline.cx = 0 := by
  unfold Terminal.newline
  dsimp only
  split <;> rfl

theorem Safe.at (safe : t.Safe) {column row : Nat} (inCol : column ≤ cols) (inRow : row < rows) :
    { t with cx := column, cy := row }.Safe :=
  ⟨inCol, inRow, safe.params, safe.history, safe.view⟩

theorem Safe.put (safe : t.Safe) (c : Char) : Yields (t.put c) Safe := by
  have width : cols = 64 := rfl
  have row := safe.row
  have column := safe.column
  unfold Terminal.put
  split
  · exact .ok safe.newline
  split
  · exact .ok (safe.at (Nat.zero_le _) row)
  split
  · exact .ok (safe.at (by omega) row)
  split
  · split
    · exact .ok (safe.at (by omega) row)
    split
    · exact .ok (safe.at (by omega) (by omega))
    · exact .ok safe
  split
  · -- The cursor may stand behind the last column, and then goes to the next line first.
    let wrapped := if cols ≤ t.cx then t.newline else t
    have ready : wrapped.Safe ∧ wrapped.cx < cols := by
      by_cases full : cols ≤ t.cx
      · simp only [wrapped, if_pos full]
        exact ⟨safe.newline, by rw [newline_cx]; decide⟩
      · simp only [wrapped, if_neg full]
        exact ⟨safe, by omega⟩
    refine (yields_setCell _ ready.1.row ready.2).bind fun t' repainted => ?_
    obtain ⟨cells, rfl⟩ := repainted
    exact .ok ⟨ready.2, ready.1.row, ready.1.params, ready.1.history, ready.1.view⟩
  · exact .ok safe

theorem Safe.sgr (safe : t.Safe) (code : UInt16) : Yields (t.sgr code) Safe := by
  have recolored (fg : UInt32) : { t with curFg := fg }.Safe :=
    ⟨safe.column, safe.row, safe.params, safe.history, safe.view⟩
  unfold Terminal.sgr
  split
  · exact .ok (recolored _)
  split
  next range =>
    have low := UInt16.le_iff_toNat_le.mp range.1
    have high := UInt16.le_iff_toNat_le.mp range.2
    refine (yields_elemAt (by simp [ansi] at low high ⊢; omega)).bind fun fg _ => ?_
    exact .ok (recolored fg)
  split
  next range =>
    have low := UInt16.le_iff_toNat_le.mp range.1
    have high := UInt16.le_iff_toNat_le.mp range.2
    refine (yields_elemAt (by simp [ansiBright] at low high ⊢; omega)).bind fun fg _ => ?_
    exact .ok (recolored fg)
  · exact .ok safe

theorem Safe.eraseToEol (safe : t.Safe) : Yields t.eraseToEol fun t' => t'.Safe ∧ t'.cy = t.cy := by
  refine Yields.foldlM _ (fun t' col member kept => ?_) ⟨safe, rfl⟩
  have inside : col < cols := by
    have bounds := List.mem_range'_1.mp member
    have column := safe.column
    omega
  refine (yields_setCell _ kept.1.row inside).imp fun t'' repainted => ?_
  refine ⟨repainted.safe kept.1, ?_⟩
  obtain ⟨cells, rfl⟩ := repainted
  exact kept.2

theorem Safe.clearGrid (safe : t.Safe) : t.clearGrid.Safe :=
  ⟨Nat.zero_le _, show 0 < rows by decide, safe.params, safe.history, Nat.zero_le _⟩

theorem Safe.eraseDisplay (safe : t.Safe) (count : Nat) : Yields (t.eraseDisplay count) Safe := by
  refine (yields_getAt t.params (by decide : 0 < 8)).bind fun first _ => ?_
  dsimp only
  generalize (if 0 < count then first else 0) = mode
  split
  · exact .ok safe.clearGrid
  · refine safe.eraseToEol.bind fun t' erased => ?_
    refine Yields.foldlM _ (fun t'' row member kept => ?_) erased.1
    have inside : row < rows := by
      have bounds := List.mem_range'_1.mp member
      have height := erased.1.row
      omega
    refine (yields_setAt t''.cells blankRow inside).bind fun cells _ => ?_
    exact .ok (Repainted.safe kept ⟨cells, rfl⟩)

theorem Safe.cursorTo (safe : t.Safe) (count : Nat) : Yields (t.cursorTo count) Safe := by
  have width : cols = 64 := rfl
  have height : rows = 28 := rfl
  refine (yields_getAt t.params (by decide : 0 < 8)).bind fun first _ => ?_
  refine (yields_getAt t.params (by decide : 1 < 8)).bind fun second _ => ?_
  exact .ok (safe.at (by omega) (by omega))

theorem Safe.csiDispatch (safe : t.Safe) (finalByte : Char) {count : Nat} (bound : count ≤ 8) :
    Yields (t.csiDispatch finalByte count) Safe := by
  unfold Terminal.csiDispatch
  split
  · split
    · exact .ok ⟨safe.column, safe.row, safe.params, safe.history, safe.view⟩
    · refine Yields.foldlM _ (fun t' i member kept => ?_) safe
      have inside : i < 8 := Nat.lt_of_lt_of_le (List.mem_range.mp member) bound
      exact (yields_getAt t'.params inside).bind fun code _ => kept.sgr code
  split
  · exact safe.cursorTo count
  split
  · exact safe.eraseDisplay count
  split
  · exact safe.eraseToEol.imp fun _ erased => erased.1
  · exact .ok safe

theorem Safe.feed (safe : t.Safe) (c : Char) : Yields (t.feed c) Safe := by
  have params := safe.params
  unfold Terminal.feed
  cases t.esc with
  | seen =>
    dsimp only
    split
    · exact .ok ⟨safe.column, safe.row, show 0 < 8 by decide, safe.history, safe.view⟩
    · exact .ok ⟨safe.column, safe.row, params, safe.history, safe.view⟩
  | csi =>
    dsimp only
    split
    · refine (yields_getAt t.params params).bind fun slot _ => ?_
      refine (yields_setAt t.params _ params).bind fun params' _ => ?_
      exact .ok ⟨safe.column, safe.row, params, safe.history, safe.view⟩
    split
    · split
      next room => exact .ok ⟨safe.column, safe.row, room, safe.history, safe.view⟩
      · exact .ok safe
    · refine (safe.csiDispatch c (by split <;> omega)).bind fun t' kept => ?_
      exact .ok ⟨kept.column, kept.row, kept.params, kept.history, kept.view⟩
  | none =>
    dsimp only
    split
    · exact .ok ⟨safe.column, safe.row, params, safe.history, safe.view⟩
    · exact safe.put c

theorem safe_resetFull (t : Terminal) : t.resetFull.Safe :=
  ⟨Nat.zero_le _, show 0 < rows by decide, show 0 < 8 by decide, Nat.zero_le _, Nat.le_refl _⟩

theorem Safe.writeStr (safe : t.Safe) (s : String) : Yields (t.writeStr s) Safe :=
  Yields.foldlM _ (fun _ c _ kept => kept.feed c)
    ⟨safe.column, safe.row, safe.params, safe.history, Nat.zero_le _⟩

theorem Safe.scrolled (safe : t.Safe) (delta : Int32) :
    Yields (t.scrolled delta) fun v => v ≤ t.scroll.length := by
  have small : t.scroll.length ≤ 200 := safe.history
  have length : (Int32.ofNat t.scroll.length).toInt = t.scroll.length := Int32.toInt_ofNat_of_lt (by omega)
  have zero : (0 : Int32).toInt = 0 := rfl
  unfold Terminal.scrolled clamp
  generalize Int32.ofNat t.view + delta = sum
  have high : ¬Int32.ofNat t.scroll.length < 0 := by
    rw [Int32.lt_iff_toInt_lt, length, zero]
    omega
  dsimp only
  rw [if_neg high]
  refine .ok ?_
  have bounds (v : Int32) (low : 0 ≤ v.toInt) (top : v.toInt ≤ t.scroll.length) :
      v.toInt64.toUInt64.toNat ≤ t.scroll.length := by
    have positive : 0 ≤ v.toInt64 := by
      rw [Int64.le_iff_toInt_le, Int32.toInt_toInt64]
      exact low
    rw [Int64.toNat_toUInt64_of_le positive, Int64.toNatClampNeg, Int32.toInt_toInt64]
    omega
  refine bounds _ ?_ ?_
  · split
    · exact Int.le_refl _
    split <;> simp_all [Int32.lt_iff_toInt_lt]
  · split
    · simp
    split <;> simp_all [Int32.lt_iff_toInt_lt]

theorem yields_copyGrid (t : Terminal) : Yields t.copyGrid fun _ => True := by
  unfold Terminal.copyGrid
  split
  · exact .ok trivial
  · refine (Yields.mapM _ fun r member => ?_).bind fun out _ => .ok trivial
    have inside := List.mem_range.mp member
    split
    next old => exact yields_elemAt old
    next => exact (yields_getAt _ (by omega)).imp fun _ _ => trivial

end Terminal

/-! ### Every run -/

namespace Terms

def Safe (terms : Terms) : Prop := ∀ i (inside : i < maxTerms), terms.slots[i].Safe

variable {terms : Terms}

theorem Safe.changing (safe : terms.Safe) (id : Nat) {f : Terminal → Except Panic Terminal}
    (kept : ∀ inside : id < maxTerms, Yields (f terms.slots[id]) Terminal.Safe) :
      Yields (terms.changing id f) Safe := by
  unfold Terms.changing
  split
  · exact .ok safe
  next inside =>
    have inside := Nat.not_le.mp inside
    refine (yields_getAt terms.slots inside).bind ?_
    rintro _ rfl
    refine (kept inside).bind fun t' safe' => ?_
    refine (yields_setAt terms.slots t' inside).bind fun slots written => ?_
    refine (yields_getAt terms.seq inside).bind fun count _ => ?_
    refine (yields_setAt terms.seq (count + 1) inside).bind fun seq _ => .ok fun i within => ?_
    dsimp only
    rw [written i within]
    split
    · exact safe'
    · exact safe i within

theorem Safe.write (safe : terms.Safe) (id : Nat) (s : String) : Yields (terms.write id s) Safe :=
  safe.changing id fun inside => (safe id inside).writeStr s

theorem Safe.clear (safe : terms.Safe) (id : Nat) : Yields (terms.clear id) Safe :=
  safe.changing id fun inside => .ok (safe id inside).clearGrid

theorem Safe.setView (safe : terms.Safe) {id view : Nat}
    (bound : ∀ inside : id < maxTerms, view ≤ terms.slots[id].scroll.length) :
      Yields (terms.setView id view) Safe := by
  refine safe.changing id fun inside => ?_
  have old := safe id inside
  exact .ok ⟨old.column, old.row, old.params, old.history, bound inside⟩

theorem Safe.scrollView (safe : terms.Safe) (id : Nat) (delta : Int32) :
    Yields (terms.scrollView id delta) Safe := by
  unfold Terms.scrollView
  split
  · exact .ok safe
  next inside =>
    have inside := Nat.not_le.mp inside
    refine (yields_getAt terms.slots inside).bind ?_
    rintro _ rfl
    refine ((safe id inside).scrolled delta).bind fun v bound => ?_
    split
    · exact safe.setView fun _ => bound
    · exact .ok safe

theorem Safe.scrollToBottom (safe : terms.Safe) (id : Nat) : Yields (terms.scrollToBottom id) Safe := by
  unfold Terms.scrollToBottom
  split
  · exact .ok safe
  next inside =>
    refine (yields_getAt terms.slots (Nat.not_le.mp inside)).bind fun t _ => ?_
    split
    · exact safe.setView fun _ => Nat.zero_le _
    · exact .ok safe

theorem safe_reset (t : Terminal) (inUse : Bool) (owner : Nat) :
    { t.resetFull with inUse := inUse, owner := owner }.Safe := by
  have reset := t.safe_resetFull
  exact ⟨reset.column, reset.row, reset.params, reset.history, reset.view⟩

theorem Safe.allocTerminal (safe : terms.Safe) : Yields terms.allocTerminal fun result => result.2.Safe := by
  unfold Terms.allocTerminal
  split
  · exact .ok safe
  · refine Yields.bind (P := Safe) (safe.changing _ fun _ => ?_) fun terms' safe' => .ok safe'
    exact .ok (safe_reset _ true _)

theorem Safe.freeTerminal (safe : terms.Safe) (id : Nat) : Yields (terms.freeTerminal id) Safe :=
  safe.changing id fun _ => .ok (safe_reset _ false 0)

theorem yields_bind (terms : Terms) (id taskId : Nat) : Yields (terms.bind id taskId) fun terms' =>
    ∀ i (within : i < maxTerms), terms'.slots[i] = if i = id then
      { terms.slots[i] with owner := taskId } else terms.slots[i] := by
  unfold Terms.bind
  split
  next outside => exact .ok fun i within => by rw [if_neg (by omega)]
  next inside =>
    have inside := Nat.not_le.mp inside
    refine (yields_getAt terms.slots inside).bind ?_
    rintro _ rfl
    refine (yields_setAt terms.slots _ inside).bind fun slots written => .ok fun i within => ?_
    dsimp only
    rw [written i within]
    by_cases same : i = id
    · subst same
      rw [if_pos rfl]
    · rw [if_neg same, if_neg (Ne.symm same)]

theorem Safe.bind (safe : terms.Safe) (id taskId : Nat) : Yields (terms.bind id taskId) Safe := by
  refine (yields_bind terms id taskId).imp fun terms' after i within => ?_
  have old := safe i within
  rw [after i within]
  split
  · exact ⟨old.column, old.row, old.params, old.history, old.view⟩
  · exact old

theorem yields_copyGrid (terms : Terms) (id : Nat) : Yields (terms.copyGrid id) fun _ => True := by
  unfold Terms.copyGrid
  split
  · exact .ok trivial
  next inside => exact (yields_getAt terms.slots (Nat.not_le.mp inside)).bind fun t _ => t.yields_copyGrid

end Terms

inductive Action where
  | write (id : Nat) (s : String)
  | writeForCurrent (tid : Nat) (s : String)
  | clear (id : Nat)
  | clearForCurrent (tid : Nat)
  | scrollView (id : Nat) (delta : Int32)
  | scrollToBottom (id : Nat)
  | allocTerminal
  | freeTerminal (id : Nat)
  | bind (id taskId : Nat)

def Terms.act (terms : Terms) : Action → Except Panic Terms
  | .write id s => terms.write id s
  | .writeForCurrent tid s => terms.writeForCurrent tid s
  | .clear id => terms.clear id
  | .clearForCurrent tid => terms.clearForCurrent tid
  | .scrollView id delta => terms.scrollView id delta
  | .scrollToBottom id => terms.scrollToBottom id
  | .allocTerminal => terms.allocTerminal.map Prod.snd
  | .freeTerminal id => terms.freeTerminal id
  | .bind id taskId => terms.bind id taskId

theorem Terms.Safe.act {terms : Terms} (safe : terms.Safe) (action : Action) :
    Yields (terms.act action) Safe := by
  cases action with
  | write id s => exact safe.write id s
  | writeForCurrent tid s => exact safe.write _ s
  | clear id => exact safe.clear id
  | clearForCurrent tid => exact safe.clear _
  | scrollView id delta => exact safe.scrollView id delta
  | scrollToBottom id => exact safe.scrollToBottom id
  | allocTerminal => exact safe.allocTerminal.map
  | freeTerminal id => exact safe.freeTerminal id
  | bind id taskId => exact safe.bind id taskId

/-- Every slot after `reset_full`. -/
def Terms.resetAll (terms : Terms) : Terms := { terms with slots := terms.slots.map Terminal.resetFull }

/-- From terminals that were just reset no sequence of calls panics, and each terminal it leaves is in
bounds and can be shown. -/
theorem terminals_safe (terms : Terms) (actions : List Action) :
    Yields (actions.foldlM Terms.act terms.resetAll) fun last =>
      (∀ i (inside : i < maxTerms), last.slots[i].Safe) ∧ ∀ id, Yields (last.copyGrid id) fun _ => True := by
  have start : terms.resetAll.Safe := by
    intro i inside
    simp only [Terms.resetAll, Vector.getElem_map]
    exact Terminal.safe_resetFull _
  have run := Yields.foldlM actions (fun _ action _ safe => safe.act action) start
  exact run.imp fun last safe => ⟨safe, last.yields_copyGrid⟩

end PickleOS.Console
