import PickleOS.Fs.Counts

set_option autoImplicit false

namespace PickleOS.Fs

open Shared Shared.Outcome

/-- What the pipe table holds under an id to which `want` descriptors refer. A pipe that is not in the
table may still have read ends: `pipe` leaves one behind when it finds no second descriptor. -/
def Fits (want : Bool → Nat) : Option Pipe → Prop
  | some p => (∀ isWrite, p.ends isWrite = want isWrite) ∧ 0 < want false + want true
  | none => want true = 0

/-- Every entry of the pipe table fits, and no end was ever closed at a count of zero. -/
structure Balanced (want : PipeId → Bool → Nat) (s : Vfs) : Prop where
  fits : ∀ id, Fits (want id) (s.pipes.lookup id)
  calm : s.underflow = false

def openSlot (isWrite : Bool) (slot : Option Pipe) : Option Pipe := slot.map fun p => p.dupEnd isWrite

def closeSlot (isWrite : Bool) (slot : Option Pipe) : Option Pipe :=
  slot.bind fun p =>
    let p' := p.closeEnd isWrite
    if p'.readEnds = 0 ∧ p'.writeEnds = 0 then none else some p'

section Slots

variable {want want' : Bool → Nat} {slot : Option Pipe} {w : Bool}

theorem Pipe.ends_closeEnd (p : Pipe) (closed isWrite : Bool) :
    (p.closeEnd closed).ends isWrite = p.ends isWrite - if isWrite = closed then 1 else 0 := by
  cases closed <;> cases isWrite <;> rfl

theorem Pipe.ends_dupEnd (p : Pipe) (opened isWrite : Bool) :
    (p.dupEnd opened).ends isWrite = (if isWrite = opened then 1 else 0) + p.ends isWrite := by
  cases opened <;> cases isWrite <;> simp [Pipe.ends, Pipe.dupEnd, Nat.add_comm]

theorem Fits.opened (fits : Fits want slot) (more : ∀ w', want' w' = (if w' = w then 1 else 0) + want w')
    (known : 0 < want w) : Fits want' (openSlot w slot) := by
  cases slot with
  | none =>
    -- Only a read end can be open of a pipe that is not in the table.
    have reader : w = false := by
      by_contra writer
      simp only [Bool.not_eq_false] at writer
      subst writer
      exact known.ne' fits
    have writers := more true
    simp only [reader, Bool.true_eq_false, if_false] at writers
    exact writers.trans ((Nat.zero_add _).trans fits)
  | some p =>
    have positive := more w
    simp only [if_true] at positive
    constructor
    · intro w'
      rw [Pipe.ends_dupEnd, fits.1, more]
    · cases w <;> omega

theorem Fits.closed (fits : Fits want' slot) (more : ∀ w', want' w' = (if w' = w then 1 else 0) + want w') :
    Fits want (closeSlot w slot) ∧ ∀ p, slot = some p → p.ends w ≠ 0 := by
  cases slot with
  | none =>
    have writers := more true
    have none : want' true = 0 := fits
    refine ⟨?_, by simp⟩
    change want true = 0
    omega
  | some p =>
    obtain ⟨counts, _⟩ := fits
    have positive := more w
    have closed : ∀ w', (p.closeEnd w).ends w' = want w' := by
      intro w'
      rw [Pipe.ends_closeEnd, counts, more]
      omega
    have readers : (p.closeEnd w).readEnds = want false := closed false
    have writers : (p.closeEnd w).writeEnds = want true := closed true
    constructor
    · by_cases last : (p.closeEnd w).readEnds = 0 ∧ (p.closeEnd w).writeEnds = 0
      · simp only [closeSlot, Option.bind_some, last, and_self, if_true]
        exact writers.symm.trans last.2
      · simp only [closeSlot, Option.bind_some, last, if_false]
        refine ⟨closed, ?_⟩
        omega
    · intro p' same
      cases same
      have := counts w
      simp only [if_true] at positive
      omega

end Slots

section Operations

variable {s : Vfs} {want want' : PipeId → Bool → Nat} {id : PipeId} {w : Bool}

theorem lookup_pipeDupEnd (s : Vfs) (id : PipeId) (w : Bool) (id' : PipeId) :
    (s.pipeDupEnd id w).pipes.lookup id' =
      if id' = id then openSlot w (s.pipes.lookup id) else s.pipes.lookup id' := by
  unfold Vfs.pipeDupEnd openSlot
  cases present : s.pipes.lookup id with
  | none =>
    by_cases same : id' = id
    · subst same
      simp [present]
    · simp [same]
  | some p => simp only [Map.lookup_insert_eq, Option.map_some]

theorem lookup_pipeCloseEnd (s : Vfs) (id : PipeId) (w : Bool) (id' : PipeId) :
    (s.pipeCloseEnd id w).pipes.lookup id' =
      if id' = id then closeSlot w (s.pipes.lookup id) else s.pipes.lookup id' := by
  unfold Vfs.pipeCloseEnd closeSlot
  cases present : s.pipes.lookup id with
  | none =>
    by_cases same : id' = id
    · subst same
      simp [present]
    · simp [same]
  | some p =>
    simp only [Option.bind_some]
    split
    · exact Map.lookup_erase_eq ..
    · exact Map.lookup_insert_eq ..

theorem underflow_pipeDupEnd (s : Vfs) (id : PipeId) (w : Bool) :
    (s.pipeDupEnd id w).underflow = s.underflow := by
  unfold Vfs.pipeDupEnd
  split <;> rfl

theorem Balanced.pipeDupEnd (balanced : Balanced want s)
    (more : ∀ id' w', want' id' w' = (if id' = id ∧ w' = w then 1 else 0) + want id' w')
    (known : 0 < want id w) :
    Balanced want' (s.pipeDupEnd id w) := by
  constructor
  · intro id'
    rw [lookup_pipeDupEnd]
    by_cases same : id' = id
    · subst same
      simp only [if_true]
      exact (balanced.fits id').opened (by simpa using more id') known
    · have unchanged : want' id' = want id' := by
        funext w'
        simp [more, same]
      simpa [same, unchanged] using balanced.fits id'
  · rw [underflow_pipeDupEnd]
    exact balanced.calm

theorem Balanced.pipeCloseEnd (balanced : Balanced want' s)
    (more : ∀ id' w', want' id' w' = (if id' = id ∧ w' = w then 1 else 0) + want id' w') :
    Balanced want (s.pipeCloseEnd id w) := by
  have here := (balanced.fits id).closed (w := w) (by simpa using more id)
  constructor
  · intro id'
    rw [lookup_pipeCloseEnd]
    by_cases same : id' = id
    · subst same
      simp only [if_true]
      exact here.1
    · have unchanged : want' id' = want id' := by
        funext w'
        simp [more, same]
      simpa [same, ← unchanged] using balanced.fits id'
  · unfold Vfs.pipeCloseEnd
    cases present : s.pipes.lookup id with
    | none => exact balanced.calm
    | some p => simp [balanced.calm, here.2 p present]

/-- The number of descriptors among `files` that refer to an end of a pipe. -/
def wanted (files : List OpenFile) (id : PipeId) (w : Bool) : Nat := (files.map (refersTo (.pipe id w))).sum

theorem refersTo_pipe {file : OpenFile} (here : file.fileType = .pipe id w) (id' : PipeId) (w' : Bool) :
    refersTo (.pipe id' w') file = if id' = id ∧ w' = w then 1 else 0 := by
  simp only [refersTo, here, FileType.pipe.injEq, eq_comm]

theorem refersTo_other {file : OpenFile} (other : ∀ id w, file.fileType ≠ .pipe id w) (id : PipeId) (w : Bool) :
    refersTo (.pipe id w) file = 0 := by
  simp [refersTo, other]

theorem Balanced.congr (balanced : Balanced want s) (same : ∀ id w, want' id w = want id w) :
    Balanced want' s := by
  have : want' = want := by
    funext id w
    exact same id w
  rwa [this]

theorem Balanced.release {file : OpenFile}
    (balanced : Balanced (fun id w => refersTo (.pipe id w) file + want id w) s) :
    Balanced want (s.release file) := by
  unfold Vfs.release
  split
  next id w here => exact balanced.pipeCloseEnd fun id' w' => by simp [refersTo_pipe here]
  next id here =>
    have plain : Balanced want s := balanced.congr fun id w => by simp [refersTo, here]
    exact ⟨plain.fits, plain.calm⟩
  next noPipe _ => exact balanced.congr fun id w => by simp [refersTo_other noPipe]

theorem Balanced.releaseAll {files : List OpenFile}
    (balanced : Balanced (fun id w => wanted files id w + want id w) s) :
    Balanced want (files.foldl Vfs.release s) := by
  induction files generalizing s with
  | nil => exact balanced.congr fun id w => by simp [wanted]
  | cons file rest ih =>
    change Balanced want (rest.foldl Vfs.release (s.release file))
    refine ih (Balanced.release (balanced.congr fun id w => ?_))
    simp only [wanted, List.map_cons, List.sum_cons]
    omega

theorem Balanced.retain {file : OpenFile} (balanced : Balanced want s)
    (known : ∀ id w, file.fileType = .pipe id w → 0 < want id w) :
    Balanced (fun id w => refersTo (.pipe id w) file + want id w) (s.retain file) := by
  unfold Vfs.retain
  split
  next id w here => exact balanced.pipeDupEnd (fun id' w' => by simp [refersTo_pipe here]) (known id w here)
  next noPipe => exact balanced.congr fun id w => by simp [refersTo_other noPipe]

theorem Balanced.retainAll {files : List OpenFile} (balanced : Balanced want s)
    (known : ∀ file ∈ files, ∀ id w, file.fileType = .pipe id w → 0 < want id w) :
    Balanced (fun id w => wanted files id w + want id w) (files.foldl Vfs.retain s) := by
  induction files generalizing s want with
  | nil => exact balanced.congr fun id w => by simp [wanted]
  | cons file rest ih =>
    have first := balanced.retain (known file (by simp))
    refine (ih first ?_).congr fun id w => ?_
    · intro file' member id w here
      have := known file' (by simp [member]) id w here
      omega
    · simp only [wanted, List.map_cons, List.sum_cons]
      omega

end Operations

/-- The law of the reference counts: the counts are those of the descriptors, and ids to come are
unused. -/
structure Counted (s : Vfs) : Prop where
  balanced : Balanced (fun id w => s.count (.pipe id w)) s
  fresh : ∀ id, s.nextPipeId ≤ id → s.pipes.lookup id = none ∧ ∀ w, s.count (.pipe id w) = 0

namespace Counted

variable {s t : Vfs} {task : TaskId}

theorem initial : Counted .initial where
  balanced := ⟨fun _ => rfl, rfl⟩
  fresh _ _ := ⟨rfl, fun _ => rfl⟩

theorem otherFile (counted : Counted s) (same : ∀ id w, t.count (.pipe id w) = s.count (.pipe id w))
    (pipes : t.pipes = s.pipes) (next : t.nextPipeId = s.nextPipeId) (calm : t.underflow = s.underflow) :
    Counted t := by
  -- The table of a task changes in no descriptor for a pipe.
  obtain ⟨⟨fits, quiet⟩, fresh⟩ := counted
  constructor
  · constructor
    · intro id
      rw [pipes]
      simpa only [same] using fits id
    · rw [calm, quiet]
  · intro id later
    rw [next] at later
    rw [pipes]
    simpa only [same] using fresh id later

theorem allocOther {file : OpenFile} (counted : Counted s) (noPipe : ∀ id w, file.fileType ≠ .pipe id w)
    (done : Allocates file s t) : Counted t := by
  refine counted.otherFile (fun id w => ?_) done.pipes done.nextPipeId done.underflow
  rw [done.counts, refersTo_other noPipe, Nat.zero_add]

theorem initTaskFds (counted : Counted s) (absent : s.fdTables.lookup task = none) :
    Counted (s.initTaskFds task) := by
  refine counted.otherFile (fun id w => ?_) rfl rfl rfl
  unfold Vfs.initTaskFds
  rw [count_newTable _ absent, count_standard_pipe, Nat.zero_add]

theorem close {fd : Fd} {table : FdTable} {file : OpenFile} (counted : Counted s)
    (present : s.fdTables.lookup task = some table) (found : table.files.lookup fd = some file) :
    Counted (Vfs.release { s with fdTables := s.fdTables.insert task { table
      with files := table.files.erase fd } }
      file) := by
  let table' : FdTable := { table with files := table.files.erase fd }
  let closed : Vfs := { s with fdTables := s.fdTables.insert task table' }
  have counts : ∀ x, s.count x = refersTo x file + closed.count x := by
    intro x
    have replaced := count_setTable x present table'
    have removed : table.count x = refersTo x file + table'.count x := Map.total_remove (refersTo x) found
    change closed.count x + table.count x = table'.count x + s.count x at replaced
    omega
  have settled := settles_release closed file
  have balanced : Balanced (fun id w => closed.count (.pipe id w)) (closed.release file) := by
    refine Balanced.release ⟨fun id => ?_, counted.balanced.calm⟩
    simpa only [counts] using counted.balanced.fits id
  constructor
  · exact balanced.congr fun id w => settled.count _
  · intro id later
    rw [settled.nextPipeId] at later
    obtain ⟨absent, unused⟩ := counted.fresh id later
    refine ⟨settled.absent absent, fun w => ?_⟩
    have := unused w
    have := counts (.pipe id w)
    rw [settled.count]
    omega

theorem cleanup (counted : Counted s) (task : TaskId) : Counted (s.cleanupTaskFds task) := by
  have counts := count_cleanup s task
  unfold Vfs.cleanupTaskFds at counts ⊢
  unfold Vfs.countOf at counts
  cases present : s.fdTables.lookup task with
  | none =>
    refine counted.otherFile (fun id w => ?_) rfl rfl rfl
    rfl
  | some table =>
    simp only [present, Option.map_some, Option.getD_some] at counts
    have settled := Settles.foldl settles_release (Map.values table.files)
      { s with fdTables := s.fdTables.erase task }
    have balanced : Balanced (fun id w => Vfs.count { s with fdTables := s.fdTables.erase task } (.pipe id w))
        ((Map.values table.files).foldl Vfs.release { s with fdTables := s.fdTables.erase task }) := by
      refine Balanced.releaseAll ⟨fun id => ?_, counted.balanced.calm⟩
      have split : ∀ w, s.count (.pipe id w) = wanted (Map.values table.files) id w +
          Vfs.count { s with fdTables := s.fdTables.erase task } (.pipe id w) :=
        fun w => count_dropTable (.pipe id w) present
      simpa only [split] using counted.balanced.fits id
    have kept : Balanced (fun id w => Vfs.count ((Map.values table.files).foldl Vfs.release
        { s with fdTables := s.fdTables.erase task }) (.pipe id w)) _ := balanced.congr fun id w =>
          settled.count _
    constructor
    · exact ⟨kept.fits, kept.calm⟩
    · intro id later
      obtain ⟨absent, unused⟩ := counted.fresh id (by simpa only [settled.nextPipeId] using later)
      refine ⟨settled.absent absent, fun w => ?_⟩
      have none := unused w
      have sum := counts (.pipe id w)
      rw [none] at sum
      exact (Nat.add_eq_zero_iff.mp sum.symm).2

theorem clone {child : TaskId} (counted : Counted s) (parent : TaskId)
    (absent : s.fdTables.lookup child = none) :
    Counted (s.cloneTaskFds parent child) := by
  unfold Vfs.cloneTaskFds
  cases present : s.fdTables.lookup parent with
  | none =>
    refine counted.otherFile (fun id w => ?_) rfl rfl rfl
    exact (count_newTable (.pipe id w) absent .standard).trans (by rw [count_standard_pipe, Nat.zero_add])
  | some table =>
    have settled := Settles.foldl settles_retain (Map.values table.files) s
    have counts := settled.count_newTable absent table
    have known : ∀ file ∈ Map.values table.files, ∀ id w, file.fileType = .pipe id w →
      0 < s.count (.pipe id w) := by
      intro file member id w here
      obtain ⟨fd, found⟩ := Map.mem_values.mp member
      rw [← here]
      exact count_pos present found
    have balanced := counted.balanced.retainAll known
    constructor
    · have kept := balanced.congr fun id w => counts (.pipe id w)
      exact ⟨kept.fits, kept.calm⟩
    · intro id later
      obtain ⟨gone, unused⟩ := counted.fresh id (by simpa only [settled.nextPipeId] using later)
      refine ⟨settled.absent gone, fun w => ?_⟩
      have none := unused w
      have part : table.count (.pipe id w) ≤ s.count (.pipe id w) :=
        Map.le_total present
      exact (counts (.pipe id w)).trans (by omega)

theorem allocReadEnd {id : PipeId} (counted : Counted s) (past : id < s.nextPipeId)
    (absent : s.pipes.lookup id = none) (done : Allocates (.pipe id false) s t) : Counted t := by
  -- The read end of a pipe that is not registered.
  have counts : ∀ id' w, t.count (.pipe id' w) = (if id' = id ∧ w = false then 1 else 0) +
    s.count (.pipe id' w) := by
    intro id' w
    rw [done.counts, refersTo_pipe rfl]
  constructor
  · refine ⟨fun id' => ?_, done.underflow.trans counted.balanced.calm⟩
    have fits := counted.balanced.fits id'
    rw [done.pipes]
    by_cases same : id' = id
    · subst same
      rw [absent] at fits ⊢
      change s.count (.pipe id' true) = 0 at fits
      change t.count (.pipe id' true) = 0
      simp [counts, fits]
    · simpa [counts, same] using fits
  · intro id' later
    rw [done.nextPipeId] at later
    obtain ⟨gone, unused⟩ := counted.fresh id' later
    have other : id' ≠ id := by
      rintro rfl
      exact absurd past (Nat.not_lt.mpr later)
    rw [done.pipes]
    exact ⟨gone, fun w => by simp [counts, unused, other]⟩

theorem register {id : PipeId} (counted : Counted s) (past : id < s.nextPipeId)
    (absent : s.pipes.lookup id = none) (reader : s.count (.pipe id false) = 1)
    (done : Allocates (.pipe id true) s t) :
    Counted (t.register id) := by
  -- The write end, and the pipe itself.
  have writer : s.count (.pipe id true) = 0 := by
    have fits := counted.balanced.fits id
    rwa [absent] at fits
  have counts : ∀ id' w, (t.register id).count (.pipe id' w) = if id' = id then 1 else
    s.count (.pipe id' w) := by
    intro id' w
    refine (done.counts (.pipe id' w)).trans ?_
    rw [refersTo_pipe rfl]
    by_cases same : id' = id
    · subst same
      cases w <;> simp [reader, writer]
    · simp [same]
  have lookup : ∀ id', (t.register id).pipes.lookup id' =
      if id' = id then some { buf := [], readEnds := 1, writeEnds := 1 } else s.pipes.lookup id' := by
    intro id'
    rw [← done.pipes]
    exact Map.lookup_insert_eq ..
  constructor
  · refine ⟨fun id' => ?_, done.underflow.trans counted.balanced.calm⟩
    rw [lookup]
    by_cases same : id' = id
    · simp only [counts, same, if_true]
      exact ⟨fun w => by cases w <;> rfl, by decide⟩
    · simp only [counts, same, if_false]
      exact counted.balanced.fits id'
  · intro id' later
    change t.nextPipeId ≤ id' at later
    rw [done.nextPipeId] at later
    obtain ⟨gone, unused⟩ := counted.fresh id' later
    have other : id' ≠ id := by
      rintro rfl
      exact absurd past (Nat.not_lt.mpr later)
    simp only [counts, lookup, other, if_false]
    exact ⟨gone, unused⟩

theorem ends_pipe (counted : Counted s) :
    Ends (Fs.pipe task) s (fun _ t => Counted t) (fun _ t => Counted t) := by
  obtain ⟨absent, unused⟩ := counted.fresh s.nextPipeId le_rfl
  have past : s.nextPipeId < s.nextPipeId + 1 := Nat.lt_succ_self _
  have begun : Counted { s with nextPipeId := s.nextPipeId + 1 } :=
    ⟨⟨counted.balanced.fits, counted.balanced.calm⟩,
      fun id later => counted.fresh id ((Nat.le_succ s.nextPipeId).trans later)⟩
  refine ends_pipe_of counted begun (fun t first => begun.allocReadEnd past absent first) ?_
  intro t u first second
  have still : t.pipes.lookup s.nextPipeId = none := by
    rw [first.pipes]
    exact absent
  have reader : t.count (.pipe s.nextPipeId false) = 1 := by
    have none : Vfs.count { s with nextPipeId := s.nextPipeId + 1 } (.pipe s.nextPipeId false) = 0 :=
      unused false
    rw [first.counts, none]
    simp [refersTo, OpenFile.pipe]
  exact (begun.allocReadEnd past absent first).register (first.nextPipeId ▸ past) still reader second

theorem ends_sysSocket (counted : Counted s) :
    Ends (sysSocket task) s (fun _ t => Counted t) (fun _ t => Counted t) := by
  unfold Ends
  rw [sysSocket_eq]
  cases s.stack.bind NetworkStack.createTcpSocket with
  | none => exact counted
  | some created =>
    have begun : Counted { s with stack := some created.2 } :=
      ⟨⟨counted.balanced.fits, counted.balanced.calm⟩, counted.fresh⟩
    refine (ends_allocFd task { fileType := .socket created.1, flags := { read := true, write := true } }
      _).imp ?_ ?_
    · intro fd t done
      exact begun.allocOther (by simp) (allocates done)
    · rintro _ _ rfl
      exact begun

theorem ends_close {fd : Fd} (counted : Counted s) :
    Ends (Fs.close task fd) s (fun _ t => Counted t) (fun _ t => Counted t) := by
  refine (Fs.ends_close task fd s).imp ?_ ?_
  · rintro _ _ ⟨table, file, present, found, rfl⟩
    exact counted.close present found
  · rintro _ _ rfl
    exact counted

theorem buffer {id : PipeId} {p : Pipe} (counted : Counted s) (present : s.pipes.lookup id = some p)
    (buf : List UInt8) : Counted { s with pipes := s.pipes.insert id { p with buf } } := by
  -- The buffer of a pipe changes.
  have fits := counted.balanced.fits id
  rw [present] at fits
  constructor
  · refine ⟨fun id' => ?_, counted.balanced.calm⟩
    rw [Map.lookup_insert_eq]
    by_cases same : id' = id
    · simp only [same, if_true]
      exact fits
    · simp only [same, if_false]
      exact counted.balanced.fits id'
  · intro id' later
    obtain ⟨gone, unused⟩ := counted.fresh id' later
    have other : id' ≠ id := by
      rintro rfl
      simp [present] at gone
    rw [AList.lookup_insert_ne other]
    exact ⟨gone, unused⟩

theorem pipeRead (counted : Counted s) (id : PipeId) (len : Nat) : Counted (Fs.pipeRead id len s).2 := by
  unfold Fs.pipeRead
  cases present : s.pipes.lookup id with
  | none => exact counted
  | some p =>
    simp only
    split
    · exact counted.buffer present _
    · split <;> exact counted

theorem pipeWrite (counted : Counted s) (id : PipeId) (rest : List UInt8) :
    Counted (Fs.pipeWrite id rest s).2 := by
  unfold Fs.pipeWrite
  cases present : s.pipes.lookup id with
  | none => exact counted
  | some p =>
    simp only
    split
    · exact counted
    · split
      · exact counted
      · exact counted.buffer present _

theorem step {a : Action} (counted : Counted s) (taken : Fs.step s a = some t) : Counted t := by
  cases a with
  | init task =>
    simp only [Fs.step, Option.ite_none_right_eq_some, Option.isNone_iff_eq_none, Option.some.injEq] at taken
    obtain ⟨absent, rfl⟩ := taken
    exact counted.initTaskFds absent
  | opened task inode flags pos =>
    refine after_ends ((ends_allocFd ..).imp ?_ ?_) taken
    · intro fd t done
      exact counted.allocOther (by simp) (allocates done)
    · rintro _ _ rfl
      exact counted
  | pipe task => exact after_ends counted.ends_pipe taken
  | socket task => exact after_ends counted.ends_sysSocket taken
  | close task fd => exact after_ends counted.ends_close taken
  | clone parent child =>
    simp only [Fs.step, Option.ite_none_right_eq_some, Option.isNone_iff_eq_none, Option.some.injEq] at taken
    obtain ⟨absent, rfl⟩ := taken
    exact counted.clone parent absent
  | cleanup task =>
    cases taken
    exact counted.cleanup task
  | read id len =>
    cases taken
    exact counted.pipeRead id len
  | write id rest =>
    cases taken
    exact counted.pipeWrite id rest

theorem reachable (run : Reachable s) : Counted s :=
  run.invariant initial fun _ _ _ counted _ taken => counted.step taken

end Counted

theorem pipeRead_eof (id : PipeId) (len : Nat) (s : Vfs) :
    (pipeRead id len s).1 = .eof ↔ ∀ p, s.pipes.lookup id = some p → p.buf = [] ∧ p.writeEnds = 0 := by
  unfold pipeRead
  cases s.pipes.lookup id with
  | none => simp
  | some p =>
    by_cases empty : p.buf = [] <;> by_cases closed : p.writeEnds = 0 <;> simp [empty, closed]

structure EndsCounted (s : Vfs) : Prop where
  counts : ∀ {id p}, s.pipes.lookup id = some p →
    p.readEnds = s.count (.pipe id false) ∧ p.writeEnds = s.count (.pipe id true)
  live : ∀ {id p}, s.pipes.lookup id = some p → ¬(p.readEnds = 0 ∧ p.writeEnds = 0)
  absent : ∀ {id}, s.count (.pipe id false) = 0 → s.count (.pipe id true) = 0 → s.pipes.lookup id = none
  calm : s.underflow = false
  /-- A reader sees the end of the file once it has read everything and no descriptor for the write end is
  left. -/
  eof : ∀ id len, (pipeRead id len s).1 = .eof ↔
    (∀ p, s.pipes.lookup id = some p → p.buf = []) ∧ s.count (.pipe id true) = 0

theorem pipe_ends_counted {s : Vfs} (run : Reachable s) : EndsCounted s := by
  have balanced := (Counted.reachable run).balanced
  have fits : ∀ {id p}, s.pipes.lookup id = some p → (∀ w, p.ends w = s.count (.pipe id w)) ∧
      0 < s.count (.pipe id false) + s.count (.pipe id true) := by
    intro id p present
    have here := balanced.fits id
    rwa [present] at here
  constructor
  · intro id p present
    exact ⟨(fits present).1 false, (fits present).1 true⟩
  · rintro id p present ⟨readers, writers⟩
    obtain ⟨counts, live⟩ := fits present
    rw [← counts false, ← counts true] at live
    simp [Pipe.ends, readers, writers] at live
  · intro id readers writers
    cases present : s.pipes.lookup id with
    | none => rfl
    | some p =>
      have live := (fits present).2
      rw [readers, writers] at live
      exact absurd live (Nat.lt_irrefl 0)
  · exact balanced.calm
  · intro id len
    rw [pipeRead_eof]
    cases present : s.pipes.lookup id with
    | none =>
      have none : s.count (.pipe id true) = 0 := by
        have here := balanced.fits id
        rwa [present] at here
      simp [none]
    | some p =>
      have writers : p.writeEnds = s.count (.pipe id true) := (fits present).1 true
      simp [writers]

theorem pipe_ends_counted_forked :
    ∃ s, Machine.run step .initial [.init 1, .pipe 1, .clone 1 2, .close 1 4, .close 2 3, .write 1 [7]] =
      some s ∧
      EndsCounted s := by
  obtain ⟨s, done⟩ := Option.isSome_iff_exists.mp (show (Machine.run step .initial
    [.init 1, .pipe 1, .clone 1 2, .close 1 4, .close 2 3, .write 1 [7]]).isSome by decide)
  exact ⟨s, done, pipe_ends_counted (Machine.Reaches.start.of_run done)⟩

end PickleOS.Fs
