import PickleOS.Fs.Counts

set_option autoImplicit false

/-!
# The life of sockets

A socket has no reference count: whoever gives up a descriptor for it destroys it.
-/

namespace PickleOS.Fs

open Shared Shared.Outcome

def Vfs.socketOf (s : Vfs) (id : SocketId) : Option Nat := s.stack.bind fun stack => stack.socketMap.lookup id

/-- The last descriptors for sockets are given up in this step, and no id is given out twice. -/
def soleOwner (s : Vfs) : Action → Bool
  | .close task fd =>
    match (s.fdTables.lookup task).bind fun table => table.files.lookup fd with
    | some { fileType := .socket id, .. } => s.count (.socket id) = 1
    | _ => true
  | .cleanup task =>
    match s.fdTables.lookup task with
    | some table =>
      (Map.values table.files).all fun file =>
        match file.fileType with
        | .socket id => s.count (.socket id) = table.count (.socket id)
        | _ => true
    | none => true
  -- The 32-bit counter may have come round to a socket that is still there.
  | .socket _ => s.stack.all fun stack => (stack.socketMap.lookup stack.nextSocketId).isNone
  | _ => true

def SocketsLive (s : Vfs) : Prop := ∀ id, 0 < s.count (.socket id) → (s.socketOf id).isSome

/-- A socket that is referred to stays the same as long as it is, and goes with the last descriptor. -/
def SocketsFollow (s t : Vfs) : Prop :=
  ∀ id, 0 < s.count (.socket id) →
    (0 < t.count (.socket id) → t.socketOf id = s.socketOf id) ∧
      (t.count (.socket id) = 0 → t.socketOf id = none)

section Sockets

variable {s t : Vfs} {task : TaskId}

/-- The step leaves the sockets and the descriptors for them alone. -/
structure Untouched (s t : Vfs) : Prop where
  sockets : ∀ id, t.socketOf id = s.socketOf id
  counts : ∀ id, t.count (.socket id) = s.count (.socket id)

namespace Untouched

theorem refl (s : Vfs) : Untouched s s := ⟨fun _ => rfl, fun _ => rfl⟩

theorem trans {u : Vfs} (first : Untouched s t) (second : Untouched t u) : Untouched s u where
  sockets id := (second.sockets id).trans (first.sockets id)
  counts id := (second.counts id).trans (first.counts id)

theorem of_stack (stack : t.stack = s.stack) (counts : ∀ id, t.count (.socket id) = s.count (.socket id))
    : Untouched s t where
  sockets id := by simp only [Vfs.socketOf, stack]
  counts := counts

theorem of_allocates {file : OpenFile} (done : Allocates file s t)
    (noSocket : ∀ id, file.fileType ≠ .socket id) :
    Untouched s t := by
  refine of_stack done.stack fun id => ?_
  rw [done.counts]
  simp [refersTo, noSocket]

theorem pipe (task : TaskId) (s : Vfs) :
    Ends (Fs.pipe task) s (fun _ t => Untouched s t) (fun _ t => Untouched s t) := by
  have begun : Untouched s { s with nextPipeId := s.nextPipeId + 1 } := of_stack rfl fun _ => rfl
  have opened : ∀ t, Allocates (.pipe s.nextPipeId false) { s with nextPipeId := s.nextPipeId + 1 } t →
    Untouched s t :=
    fun t first => begun.trans (of_allocates first fun _ => nofun)
  refine ends_pipe_of (refl s) begun opened ?_
  intro t u first second
  exact ((opened t first).trans (of_allocates second fun _ => nofun)).trans (of_stack rfl fun _ => rfl)

end Untouched

def Action.socketsMove : Action → Bool
  | .socket _ | .close _ _ | .clone _ _ | .cleanup _ => true
  | _ => false

theorem step_untouched {a : Action} (other : a.socketsMove = false) (taken : step s a = some t) :
    Untouched s t := by
  cases a with
  | init task =>
    simp only [step, Option.ite_none_right_eq_some, Option.isNone_iff_eq_none, Option.some.injEq] at taken
    obtain ⟨absent, rfl⟩ := taken
    refine .of_stack rfl fun id => ?_
    exact (count_newTable (.socket id) absent .standard).trans (by rw [count_standard_socket, Nat.zero_add])
  | opened task inode flags pos =>
    refine after_ends ((ends_allocFd ..).imp ?_ ?_) taken
    · intro fd t done
      exact .of_allocates (allocates done) fun _ => nofun
    · rintro _ _ rfl
      exact .refl _
  | pipe task => exact after_ends (Untouched.pipe task s) taken
  | read id len =>
    cases taken
    unfold pipeRead
    split
    · exact .refl s
    · split
      · exact .of_stack rfl fun _ => rfl
      · split <;> exact .refl s
  | write id rest =>
    cases taken
    unfold pipeWrite
    split
    · exact .refl s
    · split
      · exact .refl s
      · dsimp only
        split
        · exact .refl s
        · exact .of_stack rfl fun _ => rfl
  | socket task => cases other
  | close task fd => cases other
  | clone parent child => cases other
  | cleanup task => cases other

/-- The step leaves the sockets alone, and takes no descriptor for one away. -/
structure Spares (s t : Vfs) : Prop where
  sockets : ∀ id, t.socketOf id = s.socketOf id
  counts : ∀ id, s.count (.socket id) ≤ t.count (.socket id) ∧
  (0 < t.count (.socket id) → 0 < s.count (.socket id))

theorem Untouched.spares (untouched : Untouched s t) : Spares s t where
  sockets := untouched.sockets
  counts id := by simp [untouched.counts]

namespace Spares

theorem refl (s : Vfs) : Spares s s := (Untouched.refl s).spares

theorem trans {u : Vfs} (first : Spares s t) (second : Spares t u) : Spares s u where
  sockets id := (second.sockets id).trans (first.sockets id)
  counts id := ⟨(first.counts id).1.trans (second.counts id).1,
    fun some => (first.counts id).2 ((second.counts id).2 some)⟩

theorem live (spares : Spares s t) (live : SocketsLive s) : SocketsLive t := by
  intro id some
  rw [spares.sockets]
  exact live id ((spares.counts id).2 some)

theorem follow (spares : Spares s t) : SocketsFollow s t := by
  intro id some
  have := (spares.counts id).1
  exact ⟨fun _ => spares.sockets id, by omega⟩

theorem retain (s : Vfs) (file : OpenFile) : Spares s (s.retain file) := by
  refine (Untouched.of_stack ?_ fun id => (settles_retain s file).count _).spares
  unfold Vfs.retain Vfs.pipeDupEnd
  split
  · split <;> rfl
  · rfl

theorem retainAll (files : List OpenFile) (s : Vfs) : Spares s (files.foldl Vfs.retain s) := by
  induction files generalizing s with
  | nil => exact refl s
  | cons file rest ih => exact (retain s file).trans (ih (s.retain file))

theorem clone {child : TaskId} (parent : TaskId) (absent : s.fdTables.lookup child = none) :
    Spares s (s.cloneTaskFds parent child) := by
  unfold Vfs.cloneTaskFds
  cases present : s.fdTables.lookup parent with
  | none =>
    refine Untouched.spares (.of_stack rfl fun id => ?_)
    exact (count_newTable (.socket id) absent .standard).trans (by rw [count_standard_socket, Nat.zero_add])
  | some table =>
    have retained := retainAll (Map.values table.files) s
    have settled := Settles.foldl settles_retain (Map.values table.files) s
    refine ⟨retained.sockets, fun id => ?_⟩
    have part : table.count (.socket id) ≤ s.count (.socket id) := Map.le_total present
    have sum := settled.count_newTable absent table (.socket id)
    change _ ≤ Vfs.count { (Map.values table.files).foldl Vfs.retain s with fdTables := _ } _ ∧
      (0 < Vfs.count { (Map.values table.files).foldl Vfs.retain s with fdTables := _ } _ → _)
    rw [sum]
    omega

end Spares

theorem socketOf_pipeCloseEnd (s : Vfs) (id : PipeId) (w : Bool) (id' : SocketId) :
    (s.pipeCloseEnd id w).socketOf id' = s.socketOf id' := by
  unfold Vfs.pipeCloseEnd
  split <;> rfl

theorem socketOf_release (s : Vfs) (file : OpenFile) (id : SocketId) :
    (s.release file).socketOf id = if file.fileType = .socket id then none else s.socketOf id := by
  unfold Vfs.release
  split
  next here => simp [here, socketOf_pipeCloseEnd]
  next id' here =>
    simp only [here, FileType.socket.injEq, eq_comm (a := id')]
    unfold Vfs.tcpDestroy Vfs.socketOf
    cases s.stack with
    | none => simp
    | some stack => exact Map.lookup_erase_eq ..
  next other =>
    rw [if_neg]
    exact other id

theorem socketOf_releaseAll (files : List OpenFile) (s : Vfs) (id : SocketId) :
    (files.foldl Vfs.release s).socketOf id =
      if ∃ file ∈ files, file.fileType = .socket id then none else s.socketOf id := by
  induction files generalizing s with
  | nil => simp
  | cons file rest ih =>
    simp only [List.foldl_cons, ih, socketOf_release, List.mem_cons, exists_eq_or_imp]
    by_cases first : file.fileType = .socket id <;> by_cases later : ∃ file ∈ rest,
      file.fileType = .socket id <;>
      simp [first, later]

theorem table_count_pos {table : FdTable} {x : FileType} :
    0 < table.count x ↔ ∃ file ∈ Map.values table.files, file.fileType = x := by
  rw [Nat.pos_iff_ne_zero, Ne, FdTable.count, Map.total_eq_zero]
  simp only [refersTo, Map.mem_values]
  constructor
  · intro some
    by_contra none
    refine some fun fd file found => ?_
    rw [if_neg]
    intro here
    exact none ⟨file, ⟨fd, found⟩, here⟩
  · rintro ⟨file, ⟨fd, found⟩, here⟩ zero
    have := zero fd file found
    simp [here] at this

/-- Descriptors are given up, and the sockets behind them destroyed. -/
structure Drops (s t : Vfs) (dropped : SocketId → Nat) : Prop where
  counts : ∀ id, s.count (.socket id) = dropped id + t.count (.socket id)
  sockets : ∀ id, t.socketOf id = if 0 < dropped id then none else s.socketOf id

theorem Drops.follow {dropped : SocketId → Nat} (drops : Drops s t dropped)
    (alone : ∀ id, 0 < dropped id → t.count (.socket id) = 0) (live : SocketsLive s) :
    SocketsLive t ∧ SocketsFollow s t := by
  constructor
  · intro id some
    have kept : ¬0 < dropped id := by
      intro gone
      have := alone id gone
      omega
    rw [drops.sockets, if_neg kept]
    have := drops.counts id
    exact live id (by omega)
  · intro id some
    rw [drops.sockets]
    constructor
    · intro still
      have kept : ¬0 < dropped id := by
        intro gone
        have := alone id gone
        omega
      rw [if_neg kept]
    · intro last
      have := drops.counts id
      rw [if_pos (by omega)]

theorem drops_close {fd : Fd} {table : FdTable}
    {file : OpenFile} (present : s.fdTables.lookup task = some table)
    (found : table.files.lookup fd = some file) :
    Drops s (Vfs.release { s with fdTables := s.fdTables.insert task { table
      with files := table.files.erase fd } } file)
      fun id => refersTo (.socket id) file := by
  let closed : Vfs := { s with fdTables := s.fdTables.insert task { table with files := table.files.erase fd } }
  constructor
  · intro id
    have replaced := count_setTable (.socket id) present { table with files := table.files.erase fd }
    have removed : table.count (.socket id) = refersTo (.socket id)
      file + Map.total (refersTo (.socket id)) (table.files.erase fd) :=
      Map.total_remove (refersTo (.socket id)) found
    rw [(settles_release closed file).count]
    change closed.count _ + table.count _ = Map.total (refersTo (.socket id))
      (table.files.erase fd) + s.count _ at replaced
    omega
  · intro id
    rw [socketOf_release]
    by_cases here : file.fileType = .socket id
    · simp [refersTo, here]
    · simp only [refersTo, here, if_false, Nat.lt_irrefl]
      rfl

theorem drops_cleanup (s : Vfs) (task : TaskId) :
    Drops s (s.cleanupTaskFds task) fun id => s.countOf task (.socket id) := by
  refine ⟨fun id => count_cleanup s task (.socket id), fun id => ?_⟩
  unfold Vfs.cleanupTaskFds Vfs.countOf
  cases present : s.fdTables.lookup task with
  | none => simp [Vfs.socketOf]
  | some table =>
    simp only [Option.map_some, Option.getD_some, table_count_pos]
    exact socketOf_releaseAll (Map.values table.files) { s with fdTables := s.fdTables.erase task } id

theorem close_sockets {fd : Fd} {table : FdTable} {file : OpenFile} (live : SocketsLive s)
    (present : s.fdTables.lookup task = some table) (found : table.files.lookup fd = some file)
    (alone : soleOwner s (.close task fd)) :
    let t := Vfs.release { s with fdTables := s.fdTables.insert task { table
      with files := table.files.erase fd } } file
    SocketsLive t ∧ SocketsFollow s t := by
  have drops := drops_close present found
  refine drops.follow (fun id gone => ?_) live
  have here : file.fileType = .socket id := by
    by_contra other
    simp [refersTo, other] at gone
  have one : s.count (.socket id) = 1 := by
    obtain ⟨fileType, flags, pos⟩ := file
    cases here
    simpa [soleOwner, present, found] using alone
  have := drops.counts id
  omega

theorem cleanup_sockets (live : SocketsLive s) (alone : soleOwner s (.cleanup task)) :
    SocketsLive (s.cleanupTaskFds task) ∧ SocketsFollow s (s.cleanupTaskFds task) := by
  refine (drops_cleanup s task).follow (fun id gone => ?_) live
  have sum := count_cleanup s task (.socket id)
  unfold Vfs.countOf at gone sum
  cases present : s.fdTables.lookup task with
  | none => simp [present] at gone
  | some table =>
    simp only [present, Option.map_some, Option.getD_some] at gone sum
    obtain ⟨file, member, here⟩ := table_count_pos.mp gone
    simp only [soleOwner, present, List.all_eq_true] at alone
    have all := alone file member
    simp only [here, decide_eq_true_eq] at all
    omega

/-- What `create_tcp_socket` leaves behind when it creates a socket. -/
def Vfs.withSocket (s : Vfs) (stack : NetworkStack) : Vfs :=
  { s with
    stack := some
      { stack with
        socketMap := stack.socketMap.insert stack.nextSocketId stack.nextHandle
        nextSocketId := (stack.nextSocketId + 1) % 2 ^ 32
        nextHandle := stack.nextHandle + 1 } }

section Creation

variable {stack : NetworkStack}

theorem sysSocket_full (initialized : s.stack = some stack)
    (full : maxSockets ≤ stack.socketMap.entries.length) :
    sysSocket task s = .error (.error .invalidOperation) s := by
  simp only [sysSocket_eq, initialized, Option.bind_some, NetworkStack.createTcpSocket, full, if_true]

theorem sysSocket_creates (initialized : s.stack = some stack)
    (room : ¬maxSockets ≤ stack.socketMap.entries.length) :
    sysSocket task s =
      allocFd task { fileType := .socket stack.nextSocketId, flags := { read := true, write := true } }
        (s.withSocket stack) := by
  simp only [sysSocket_eq, initialized, Option.bind_some, NetworkStack.createTcpSocket, room, if_false]
  rfl

theorem socketOf_withSocket (initialized : s.stack = some stack) (id : SocketId) :
    (s.withSocket stack).socketOf id = if id = stack.nextSocketId then some stack.nextHandle else
      s.socketOf id := by
  unfold Vfs.socketOf
  rw [initialized]
  exact Map.lookup_insert_eq ..

end Creation

theorem socket_sockets (live : SocketsLive s) (fresh : soleOwner s (.socket task)) :
    Ends (sysSocket task) s (fun _ t => SocketsLive t ∧ SocketsFollow s t)
      (fun _ t => SocketsLive t ∧ SocketsFollow s t) := by
  unfold Ends
  cases initialized : s.stack with
  | none =>
    simp only [sysSocket_eq, initialized]
    exact ⟨live, (Spares.refl s).follow⟩
  | some stack =>
    by_cases full : maxSockets ≤ stack.socketMap.entries.length
    · rw [sysSocket_full initialized full]
      exact ⟨live, (Spares.refl s).follow⟩
    · rw [sysSocket_creates initialized full]
      have absent : s.socketOf stack.nextSocketId = none := by
        simpa [soleOwner, initialized, Vfs.socketOf] using fresh
      have unused : s.count (.socket stack.nextSocketId) = 0 := by
        by_contra used
        have := live _ (Nat.pos_of_ne_zero used)
        simp [absent] at this
      -- Whether a descriptor is found or not, the new socket is there and the others are as before.
      have judge : ∀ t : Vfs, t.stack = (s.withSocket stack).stack →
          (∀ id, id ≠ stack.nextSocketId → t.count (.socket id) = s.count (.socket id)) →
          SocketsLive t ∧ SocketsFollow s t := by
        intro t same counts
        have sockets : ∀ id, t.socketOf id = if id = stack.nextSocketId then some stack.nextHandle else
          s.socketOf id := by
          intro id
          rw [← socketOf_withSocket initialized, Vfs.socketOf, same]
          rfl
        constructor
        · intro id some
          rw [sockets]
          by_cases new : id = stack.nextSocketId
          · simp [new]
          · simp only [new, if_false]
            rw [counts id new] at some
            exact live id some
        · intro id some
          have old : id ≠ stack.nextSocketId := by
            rintro rfl
            omega
          rw [sockets, if_neg old, counts id old]
          exact ⟨fun _ => rfl, by omega⟩
      refine (ends_allocFd task { fileType := .socket stack.nextSocketId, flags :=
        { read := true, write := true } } _).imp
        ?_ ?_
      · intro fd t done
        have done := allocates done
        refine judge t done.stack fun id other => ?_
        rw [done.counts]
        simp only [refersTo, FileType.socket.injEq, Ne.symm other, if_false, Nat.zero_add]
        rfl
      · rintro _ _ rfl
        exact judge _ rfl fun id _ => rfl

theorem step_sockets {a : Action} (live : SocketsLive s) (alone : soleOwner s a) (taken : step s a = some t) :
    SocketsLive t ∧ SocketsFollow s t := by
  have spared : ∀ {t}, Spares s t → SocketsLive t ∧ SocketsFollow s t := fun spares =>
    ⟨spares.live live, spares.follow⟩
  cases a with
  | init task => exact spared (step_untouched rfl taken).spares
  | opened task inode flags pos => exact spared (step_untouched rfl taken).spares
  | pipe task => exact spared (step_untouched rfl taken).spares
  | read id len => exact spared (step_untouched rfl taken).spares
  | write id rest => exact spared (step_untouched rfl taken).spares
  | socket task => exact after_ends (socket_sockets live alone) taken
  | close task fd =>
    have ends : Ends (close task fd) s (fun _ t => SocketsLive t ∧ SocketsFollow s t)
        (fun _ t => SocketsLive t ∧ SocketsFollow s t) := by
      refine (ends_close task fd s).imp ?_ ?_
      · rintro _ _ ⟨table, file, present, found, rfl⟩
        exact close_sockets live present found alone
      · rintro _ _ rfl
        exact spared (.refl _)
    exact after_ends ends taken
  | clone parent child =>
    simp only [step, Option.ite_none_right_eq_some, Option.isNone_iff_eq_none, Option.some.injEq] at taken
    obtain ⟨absent, rfl⟩ := taken
    exact spared (.clone parent absent)
  | cleanup task =>
    cases taken
    exact cleanup_sockets live alone

end Sockets

/-- Wherever such a run gets, the sockets of all descriptors are there, and every further step of it
destroys a socket if and only if it gives up the last descriptor for it. -/
theorem sockets_held {s : Vfs} (run : Machine.Reaches step (fun s a => soleOwner s a = true) .initial s) :
    SocketsLive s ∧ ∀ a t, soleOwner s a = true → step s a = some t → SocketsFollow s t := by
  have live : SocketsLive s := by
    refine run.invariant ?_ fun s a t live alone taken => (step_sockets live alone taken).1
    intro id some
    exact absurd some (Nat.lt_irrefl 0)
  exact ⟨live, fun a t alone taken => (step_sockets live alone taken).2⟩

theorem sockets_held_parent :
    ∃ s, Machine.replay step (fun s a => soleOwner s a = true) .initial
      [.init 1, .pipe 1, .clone 1 2, .close 2 4, .socket 1, .cleanup 2, .close 1 5] = some s ∧
        SocketsLive s := by
  obtain ⟨s, done⟩ := Option.isSome_iff_exists.mp
    (show (Machine.replay step (fun s a => soleOwner s a = true) .initial
    [.init 1, .pipe 1, .clone 1 2, .close 2 4, .socket 1, .cleanup 2, .close 1 5]).isSome by decide)
  exact ⟨s, done, (sockets_held (Machine.Reaches.of_replay (fun _ _ => id) .start done)).1⟩

/-- A task opens a socket and forks; the child closes its copy, and the parent's socket is gone. -/
theorem child_destroys_socket :
    ∃ s table file, Machine.run step .initial [.init 1, .socket 1, .clone 1 2, .close 2 3] = some s ∧
      s.fdTables.lookup 1 = some table ∧ table.files.lookup 3 = some file ∧ file.fileType = .socket 1 ∧
      s.socketOf 1 = none := by
  have result : ((Machine.run step .initial [.init 1, .socket 1, .clone 1 2, .close 2 3]).bind fun s =>
      (s.fdTables.lookup 1).bind fun table => (table.files.lookup 3).map fun file =>
        (file.fileType, s.socketOf 1)) = some (.socket 1, none) := by decide
  simp only [Option.bind_eq_some_iff, Option.map_eq_some_iff, Prod.mk.injEq] at result
  obtain ⟨s, done, table, present, file, found, here, gone⟩ := result
  exact ⟨s, table, file, done, present, found, here, gone⟩

end PickleOS.Fs
