import PickleOS.Fs.Counts

set_option autoImplicit false

namespace PickleOS.Fs

open Shared Shared.Outcome

def FdTable.close (table : FdTable) (fd : Fd) : Except VfsError FdTable :=
  if (table.files.lookup fd).isSome then .ok { table with files := table.files.erase fd } else
    .error .badFileDescriptor

inductive TableOp where
  | alloc (file : OpenFile)
  | close (fd : Fd)

namespace FdTable

/-- The table after a call, whether it succeeds or not; a call that hangs leads nowhere. -/
def step (table : FdTable) : TableOp → Option FdTable
  | .alloc file =>
    match table.allocFd file with
    | .ok (_, table') => some table'
    | .error (.error _) => some table
    | .error .hang => none
  | .close fd =>
    match table.close fd with
    | .ok table' => some table'
    | .error _ => some table

/-- The counter has not used up the numbers of a table yet, or a further descriptor is refused anyway. -/
def spare (table : FdTable) : TableOp → Bool
  | .alloc _ => table.files.entries.length = maxFdsPerTask || table.nextFd < maxFdsPerTask
  | .close _ => true

/-- `alloc_fd` terminates; it fails if and only if the table is full, and otherwise opens a number of the
table that is not open. -/
def Serves (table : FdTable) (file : OpenFile) : Prop :=
  match table.allocFd file with
  | .error .hang => False
  | .error (.error error) => error = .tooManyFiles ∧ table.files.entries.length = maxFdsPerTask
  | .ok (fd, table') =>
    table.files.entries.length ≠ maxFdsPerTask ∧ table.files.lookup fd = none ∧
    table'.files.lookup fd = some file ∧
      (∀ other, other ≠ fd → table'.files.lookup other = table.files.lookup other) ∧ fd < maxFdsPerTask ∧
      table'.nextFd ≤ maxFdsPerTask

/-- The open descriptors lie below the counter, so that the search of `alloc_fd` has nothing to skip. -/
structure Counting (table : FdTable) : Prop where
  low : 3 ≤ table.nextFd
  high : table.nextFd ≤ maxFdsPerTask
  few : table.files.entries.length ≤ maxFdsPerTask
  below : ∀ fd, (table.files.lookup fd).isSome → fd < table.nextFd

end FdTable

section Runs

variable {table table' : FdTable}

theorem allocFd_full (full : table.files.entries.length = maxFdsPerTask) (file : OpenFile) :
    table.allocFd file = .error (.error .tooManyFiles) := by
  rw [FdTable.allocFd, if_pos full.ge]

namespace FdTable.Counting

theorem next_free (counting : Counting table) : table.files.lookup table.nextFd = none := by
  cases found : table.files.lookup table.nextFd with
  | none => rfl
  | some file => exact absurd (counting.below table.nextFd (by simp [found])) (Nat.lt_irrefl _)

/-- As long as nothing collides, `alloc_fd` just counts. -/
theorem allocFd_eq (counting : Counting table) (room : table.files.entries.length ≠ maxFdsPerTask)
    (file : OpenFile) :
    table.allocFd file = .ok (table.nextFd, { files := table.files.insert table.nextFd file, nextFd :=
      table.nextFd + 1 }) := by
  have space : ¬maxFdsPerTask ≤ table.files.entries.length := not_le.mpr (counting.few.lt_of_ne room)
  have counted : (table.nextFd + 1) % 2 ^ 32 = table.nextFd + 1 :=
    Nat.mod_eq_of_lt (Nat.lt_of_le_of_lt (Nat.succ_le_succ counting.high) (by decide))
  have found : search table.files 128 table.nextFd = some table.nextFd := by simp [search, counting.next_free]
  simp only [FdTable.allocFd, if_neg space, found, counted]

theorem start (fresh : table = .new ∨ table = .standard) : Counting table := by
  have opened : ∀ fd, (FdTable.standard.files.lookup fd).isSome → fd ∈ [stderr, stdout, stdin] := by
    intro fd isOpen
    rw [AList.lookup_isSome] at isOpen
    exact AList.mem_keys.mp isOpen
  rcases fresh with rfl | rfl
  · exact ⟨by decide, by decide, by decide, fun fd isOpen => by simp [FdTable.new] at isOpen⟩
  · exact ⟨by decide, by decide, by decide, fun fd isOpen =>
      (by decide : ∀ fd ∈ [stderr, stdout, stdin], fd < 3) fd (opened fd isOpen)⟩

theorem step (counting : Counting table) {op : TableOp} (fine : table.spare op)
    (taken : table.step op = some table') :
    Counting table' := by
  cases op with
  | alloc file =>
    by_cases full : table.files.entries.length = maxFdsPerTask
    · simp only [FdTable.step, allocFd_full full, Option.some.injEq] at taken
      exact taken ▸ counting
    · simp only [FdTable.step, counting.allocFd_eq full, Option.some.injEq] at taken
      subst taken
      simp only [spare, full, decide_false, Bool.false_or, decide_eq_true_eq] at fine
      refine ⟨counting.low.trans (Nat.le_succ _), fine, ?_, fun fd isOpen => ?_⟩
      · simp only [Map.length_insert_new counting.next_free]
        exact counting.few.lt_of_ne full
      · simp only [Map.lookup_insert_eq] at isOpen
        split at isOpen
        next here => exact here ▸ Nat.lt_succ_self _
        next => exact (counting.below fd isOpen).trans (Nat.lt_succ_self _)
  | close fd =>
    simp only [FdTable.step, FdTable.close] at taken
    split at taken
    next closed done =>
      split at done <;> cases done
      cases taken
      refine ⟨counting.low, counting.high, (Map.length_erase_le ..).trans counting.few, fun other isOpen => ?_⟩
      simp only [Map.lookup_erase_eq] at isOpen
      split at isOpen
      next => simp at isOpen
      next => exact counting.below other isOpen
    next =>
      cases taken
      exact counting

theorem serves_iff (counting : Counting table) (file : OpenFile) :
    Serves table file ↔ table.spare (.alloc file) := by
  by_cases full : table.files.entries.length = maxFdsPerTask
  · simp [Serves, allocFd_full full, spare, full]
  · simp only [Serves, counting.allocFd_eq full, spare, full, decide_false, Bool.false_or, decide_eq_true_eq]
    constructor
    · rintro ⟨_, _, _, _, inside, _⟩
      exact inside
    · intro inside
      refine ⟨full, counting.next_free, by simp, fun other different => ?_, inside, inside⟩
      rw [Map.lookup_insert_eq, if_neg different]

end FdTable.Counting

end Runs

/-- Wherever the calls on a table get as long as they are spare, the next `alloc_fd` does its duty if and
only if it is spare too. -/
theorem alloc_serves {start table : FdTable} (fresh : start = .new ∨ start = .standard)
    (run : Machine.Reaches FdTable.step (fun table op => table.spare op = true) start table) (file : OpenFile) :
    table.Serves file ↔ table.spare (.alloc file) = true := by
  have counting : table.Counting :=
    run.invariant (.start fresh) fun _ _ _ counting fine taken => counting.step fine taken
  exact counting.serves_iff file

theorem alloc_serves_fourth :
    ∃ table, Machine.replay FdTable.step (fun table op => table.spare op = true) .standard
        [.alloc .keyboard, .alloc .keyboard, .close 3, .alloc .keyboard] = some table ∧
          table.Serves .keyboard := by
  obtain ⟨table, facts⟩ :=
    Option.isSome_iff_exists.mp (show ((Machine.replay FdTable.step (fun table op => table.spare op = true)
    .standard [.alloc .keyboard, .alloc .keyboard, .close 3, .alloc .keyboard]).filter
      fun table => table.spare (.alloc .keyboard)).isSome by decide)
  obtain ⟨done, fine⟩ := Option.filter_eq_some_iff.mp facts
  exact ⟨table, done, (alloc_serves (.inr rfl) (.of_replay (fun _ _ => id) .start done) .keyboard).mpr fine⟩

/-- A table in which sixty-one descriptors have been opened and closed again gives out number 64. -/
theorem alloc_leaves_table :
    ∃ table, Machine.run FdTable.step .standard
        ((List.range 61).flatMap fun i => [.alloc .keyboard, .close (3 + i)]) = some table ∧
      table.files.entries.length = 3 ∧ (table.allocFd .keyboard).map Prod.fst = .ok 64 ∧
      ¬table.Serves .keyboard := by
  have facts : ((Machine.run FdTable.step .standard
      ((List.range 61).flatMap fun i => [.alloc .keyboard, .close (3 + i)])).map fun table =>
        (table.files.entries.length, (table.allocFd .keyboard).map Prod.fst)) = some (3, .ok 64) := by decide
  simp only [Option.map_eq_some_iff, Prod.mk.injEq] at facts
  obtain ⟨table, done, few, allocated⟩ := facts
  refine ⟨table, done, few, allocated, fun serves => ?_⟩
  unfold FdTable.Serves at serves
  split at serves <;> simp_all [Except.map, maxFdsPerTask]

section Tries

theorem nextTry_iterate_bounds {start : Nat} (inside : start < 64) (n : Nat) :
    nextTry^[n] start < 64 ∧ (3 ≤ nextTry^[n] start ∨ start ≤ nextTry^[n] start) := by
  induction n with
  | zero => exact ⟨inside, .inr le_rfl⟩
  | succ n ih =>
    rw [Function.iterate_succ_apply']
    generalize nextTry^[n] start = fd at ih
    unfold nextTry maxFdsPerTask
    split <;> omega

theorem tried_iff {start : Nat} (inside : start < 64) (fd : Nat) :
    (∃ n < 127, nextTry^[n] start = fd) ↔ fd < 64 ∧ (3 ≤ fd ∨ start ≤ fd) := by
  constructor
  · rintro ⟨n, _, rfl⟩
    exact nextTry_iterate_bounds inside n
  · rintro ⟨below, reached⟩
    by_cases low : 3 ≤ start
    · refine ⟨(fd + 61 - start) % 61, by omega, ?_⟩
      rw [nextTry_iterate low inside]
      omega
    · have first : ∀ start < 3, ∀ n ≤ 3 - start, nextTry^[n] start = start + n := by decide
      have begun := first start (by omega)
      by_cases early : fd < 3
      · refine ⟨fd - start, by omega, ?_⟩
        rw [begun _ (by omega)]
        omega
      · refine ⟨(fd - 3) + (3 - start), by omega, ?_⟩
        rw [Function.iterate_add_apply, begun _ le_rfl, show start + (3 - start) = 3 by omega,
          nextTry_iterate le_rfl (by decide)]
        omega

/-- There is a number to be had for the search of `alloc_fd`: the next one, or one that it comes to
after it. -/
def FdTable.Finds (table : FdTable) : Prop :=
  table.files.lookup table.nextFd = none ∨
    ∃ fd < maxFdsPerTask, (3 ≤ fd ∨ (table.nextFd + 1) % 2 ^ 32 ≤ fd) ∧ table.files.lookup fd = none

theorem finds_iff (table : FdTable) : table.Finds ↔ search table.files 128 table.nextFd ≠ none := by
  have second : ∀ fd : Nat, fd < 64 → ((3 ≤ fd ∨ nextTry table.nextFd ≤ fd) ↔
    (3 ≤ fd ∨ (table.nextFd + 1) % 2 ^ 32 ≤ fd)) := by
    intro fd below
    unfold nextTry maxFdsPerTask
    split <;> omega
  rw [Ne, search_eq_none]
  simp only [not_forall, Bool.not_eq_true, Option.isSome_eq_false_iff, Option.isNone_iff_eq_none, FdTable.Finds]
  constructor
  · rintro (free | ⟨fd, below, reached, free⟩)
    · exact ⟨0, by decide, free⟩
    · obtain ⟨n, few, rfl⟩ :=
        (tried_iff (nextTry_lt table.nextFd) fd).mpr ⟨below, (second fd below).mpr reached⟩
      exact ⟨n + 1, by omega, free⟩
  · rintro ⟨n, few, free⟩
    cases n with
    | zero => exact .inl free
    | succ n =>
      obtain ⟨below, reached⟩ := (tried_iff (nextTry_lt table.nextFd) _).mp ⟨n, by omega, rfl⟩
      exact .inr ⟨_, below, (second _ below).mp reached, free⟩

theorem ends_allocFd_finds (task : TaskId) (file : OpenFile) (s : Vfs) :
    Ends (allocFd task file) s (fun _ _ => ∀ table, s.fdTables.lookup task = some table → table.Finds)
      (fun stop _ => stop = .hang → ∃ table, s.fdTables.lookup task = some table ∧ ¬table.Finds) := by
  -- `alloc_fd` does not come back exactly if its search finds nothing.
  unfold Ends allocFd
  cases s.fdTables.lookup task with
  | none => simp
  | some table =>
    simp only [Option.some.injEq, forall_eq', exists_eq_left', finds_iff]
    unfold FdTable.allocFd
    by_cases full : maxFdsPerTask ≤ table.files.entries.length
    · rw [if_pos full]
      simp
    · rw [if_neg full]
      cases search table.files 128 table.nextFd <;> simp

end Tries

section Calls

variable {s t : Vfs} {task : TaskId}

theorem pipe_eq {table : FdTable} (present : s.fdTables.lookup task = some table) :
    pipe task s =
      match table.allocFd (.pipe s.nextPipeId false) with
      | .error stop => .error stop { s with nextPipeId := s.nextPipeId + 1 }
      | .ok (readFd, first) =>
        match first.allocFd (.pipe s.nextPipeId true) with
        | .error stop =>
          .error stop { s with nextPipeId := s.nextPipeId + 1, fdTables := s.fdTables.insert task first }
        | .ok (writeFd, second) =>
          .ok (readFd, writeFd) (Vfs.register s.nextPipeId
            { s with nextPipeId := s.nextPipeId + 1, fdTables := s.fdTables.insert task second }) := by
  simp only [pipe, bind, EStateM.bind, get_apply, present, Option.isNone_some, Bool.false_eq_true,
    if_false, freshPipeId,
    allocFd]
  cases table.allocFd (.pipe s.nextPipeId false) with
  | error stop => rfl
  | ok result =>
    obtain ⟨readFd, first⟩ := result
    simp only [AList.lookup_insert]
    cases first.allocFd (.pipe s.nextPipeId true) with
    | error stop => rfl
    | ok result =>
      simp only [AList.insert_insert]
      rfl

/-- The caller gets two descriptors, for the ends of one registered pipe, and nothing else changes. -/
def OpensPipe (s : Vfs) (task : TaskId) (readFd writeFd : Fd) (t : Vfs) : Prop :=
  ∃ table table' id, s.fdTables.lookup task = some table ∧ t.fdTables = s.fdTables.insert task table' ∧
    table.files.lookup readFd = none ∧ table.files.lookup writeFd = none ∧ readFd ≠ writeFd ∧
    table'.files = (table.files.insert readFd (.pipe id false)).insert writeFd (.pipe id true) ∧
    t.pipes = s.pipes.insert id { buf := [], readEnds := 1, writeEnds := 1 }

def Vfs.openIn (s : Vfs) (task : TaskId) : Option (Map Fd OpenFile) :=
  (s.fdTables.lookup task).map FdTable.files

/-- If `pipe` returns, it has opened a pipe, or it has left all descriptors and pipes as they were. -/
def PipeAtomic (s : Vfs) (task : TaskId) : Prop :=
  Ends (pipe task) s (fun fds t => OpensPipe s task fds.1 fds.2 t)
    fun stop t => stop = .hang ∨ (t.pipes = s.pipes ∧ ∀ other, t.openIn other = s.openIn other)

/-- One descriptor is left in the table of the task, and `alloc_fd` can find it. -/
def Vfs.LastLeft (s : Vfs) (task : TaskId) : Prop :=
  ∃ table, s.fdTables.lookup task = some table ∧ table.files.entries.length + 1 = maxFdsPerTask ∧ table.Finds

/-- `pipe` is atomic in exactly those states in which the table of the task has not just one
descriptor left. -/
theorem pipe_atomic_iff (s : Vfs) (task : TaskId) : PipeAtomic s task ↔ ¬s.LastLeft task := by
  unfold PipeAtomic Ends Vfs.LastLeft
  cases present : s.fdTables.lookup task with
  | none =>
    have refused : pipe task s = .error (.error .invalidOperation) s := by
      simp only [pipe, bind, EStateM.bind, get_apply, present]
      rfl
    simp [refused]
  | some table =>
    simp only [Option.some.injEq, exists_eq_left', finds_iff]
    rw [pipe_eq present]
    by_cases full : maxFdsPerTask ≤ table.files.entries.length
    · have refused : table.allocFd (.pipe s.nextPipeId false) = .error (.error .tooManyFiles) := if_pos full
      simp only [refused]
      exact iff_of_true (.inr ⟨trivial, fun _ => rfl⟩) fun last => by omega
    · cases found : search table.files 128 table.nextFd with
      | none => simp [FdTable.allocFd, full, found]
      | some readFd =>
        have free := search_some found
        have longer := Map.length_insert_new free (.pipe s.nextPipeId false)
        have opened : table.allocFd (.pipe s.nextPipeId false) =
            .ok (readFd, { files := table.files.insert readFd (.pipe s.nextPipeId false), nextFd :=
              (readFd + 1) % 2 ^ 32 }) := by
          simp only [FdTable.allocFd, full, if_false, found]
        simp only [opened]
        by_cases last : table.files.entries.length + 1 = maxFdsPerTask
        · -- The read end takes the last descriptor and stays when the write end gets none.
          simp only [FdTable.allocFd, longer, last, le_refl, if_true]
          refine iff_of_false ?_ (by simp)
          rintro (hangs | ⟨_, same⟩)
          · cases hangs
          · have kept := same task
            simp only [Vfs.openIn, AList.lookup_insert, present, Option.map_some, Option.some.injEq] at kept
            have taken := AList.lookup_insert (a := readFd) (b := OpenFile.pipe s.nextPipeId false) table.files
            rw [kept, free] at taken
            cases taken
        · have room : ¬maxFdsPerTask ≤ table.files.entries.length + 1 := by omega
          simp only [FdTable.allocFd, longer, room, if_false, last, false_and, not_false_iff, iff_true]
          cases found' : search (table.files.insert readFd (.pipe s.nextPipeId false))
            128 ((readFd + 1) % 2 ^ 32) with
          | none => exact .inl rfl
          | some writeFd =>
            have free' := search_some found'
            rw [Map.lookup_insert_eq] at free'
            split at free'
            next => cases free'
            next different =>
              exact ⟨table, _, s.nextPipeId, present, rfl, free, free', Ne.symm different, rfl, rfl⟩

end Calls

/-- With sixty-three descriptors open `pipe` fails, and sixty-four are open. -/
theorem pipe_leaves_end :
    ∃ s t, Machine.run step .initial (.init 1 :: List.replicate 60 (.opened 1 2 .rdonly 0)) = some s ∧
      pipe 1 s = .error (.error .tooManyFiles) t ∧
      (s.openIn 1).map (fun files => files.entries.length) = some 63 ∧
      (t.openIn 1).map (fun files => files.entries.length) = some 64 ∧ ¬PipeAtomic s 1 := by
  have facts : ((Machine.run step .initial (.init 1 :: List.replicate 60 (.opened 1 2 .rdonly 0))).map fun s =>
      (reason (pipe 1) s, (s.openIn 1).map fun files => files.entries.length,
        ((final (pipe 1) s).openIn 1).map fun files => files.entries.length)) =
      some (some (.error .tooManyFiles), some 63, some 64) := by decide
  simp only [Option.map_eq_some_iff, Prod.mk.injEq] at facts
  obtain ⟨s, done, failed, before, later⟩ := facts
  refine ⟨s, _, done, error_of_reason failed, by simpa using before, by simpa using later, fun atomic => ?_⟩
  rcases atomic.of_error (error_of_reason failed) with hangs | ⟨_, same⟩
  · cases hangs
  · rw [same 1] at later
    obtain ⟨files, isOpen, few⟩ := before
    obtain ⟨files', isOpen', many⟩ := later
    rw [isOpen] at isOpen'
    cases isOpen'
    omega

end PickleOS.Fs
