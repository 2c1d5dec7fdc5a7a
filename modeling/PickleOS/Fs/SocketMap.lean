import PickleOS.Fs.Sockets

set_option autoImplicit false

namespace PickleOS.Fs

open Shared Shared.Outcome

def SocketsOwned (s : Vfs) : Prop := ∀ id, (s.socketOf id).isSome ↔ 0 < s.count (.socket id)

/-- There is no `fork`; a socket is created only under an unused id and for a task with a descriptor
left. -/
def placed (s : Vfs) : Action → Bool
  | .clone _ _ => false
  | .socket task =>
    s.stack.all fun stack =>
      maxSockets ≤ stack.socketMap.entries.length ||
        ((stack.socketMap.lookup stack.nextSocketId).isNone &&
          (s.fdTables.lookup task).any fun table => table.files.entries.length < maxFdsPerTask)
  | _ => true

/-- A `SYS_SOCKET` that fails has done nothing. -/
def FailsClean (s : Vfs) (task : TaskId) : Prop :=
  ∀ error t, sysSocket task s = .error (.error error) t → t.fdTables = s.fdTables ∧ ∀ id,
    t.socketOf id = s.socketOf id

section Step

variable {s t : Vfs} {task : TaskId}

theorem noRoom_iff : ¬s.NoRoom task ↔ (s.fdTables.lookup task).any fun table =>
    table.files.entries.length < maxFdsPerTask := by
  unfold Vfs.NoRoom
  cases s.fdTables.lookup task <;> simp

def SocketsCounted (s : Vfs) : Prop := ∀ id, s.count (.socket id) = if (s.socketOf id).isSome then 1 else 0

namespace SocketsCounted

theorem owned (counted : SocketsCounted s) : SocketsOwned s := by
  intro id
  rw [counted id]
  split <;> simp_all

theorem untouched (counted : SocketsCounted s) (untouched : Untouched s t) : SocketsCounted t := by
  intro id
  rw [untouched.counts, untouched.sockets]
  exact counted id

theorem drops {dropped : SocketId → Nat} (counted : SocketsCounted s) (drops : Drops s t dropped) :
    SocketsCounted t := by
  intro id
  have sum := drops.counts id
  have before := counted id
  rw [drops.sockets]
  by_cases gone : 0 < dropped id
  · rw [if_pos gone, if_neg (by simp)]
    split at before <;> omega
  · rw [if_neg gone, ← before]
    omega

theorem socket (counted : SocketsCounted s) (fine : placed s (.socket task)) :
    Ends (sysSocket task) s (fun _ t => SocketsCounted t) fun stop t => stop = .hang ∨ t = s := by
  unfold Ends
  cases initialized : s.stack with
  | none =>
    simp only [sysSocket_eq, initialized]
    exact .inr rfl
  | some stack =>
    by_cases full : maxSockets ≤ stack.socketMap.entries.length
    · rw [sysSocket_full initialized full]
      exact .inr rfl
    · rw [sysSocket_creates initialized full]
      simp only [placed, initialized, Option.all_some, full, decide_false, Bool.false_or, Bool.and_eq_true,
        Option.isNone_iff_eq_none, ← noRoom_iff] at fine
      obtain ⟨unused, room⟩ := fine
      refine ((ends_allocFd_room _ _ _).and (ends_allocFd _ _ _)).imp ?_ ?_
      · rintro fd t ⟨_, done⟩ id
        have done := allocates done
        have absent : s.socketOf stack.nextSocketId = none := by
          unfold Vfs.socketOf
          rw [initialized]
          exact unused
        rw [done.counts, Vfs.socketOf, done.stack]
        change _ + s.count _ = if ((s.withSocket stack).socketOf id).isSome then 1 else 0
        rw [socketOf_withSocket initialized, counted id]
        by_cases new : id = stack.nextSocketId
        · subst new
          simp [refersTo, absent]
        · simp [refersTo, new, Ne.symm new]
      · rintro stop t ⟨⟨_, refused⟩, _⟩
        cases stop with
        | hang => exact .inl rfl
        | error error => exact absurd (refused.mpr ⟨error, rfl⟩) room

theorem step (counted : SocketsCounted s) {a : Action} (fine : placed s a) (taken : step s a = some t) :
    SocketsCounted t := by
  cases a with
  | init task => exact counted.untouched (step_untouched rfl taken)
  | opened task inode flags pos => exact counted.untouched (step_untouched rfl taken)
  | pipe task => exact counted.untouched (step_untouched rfl taken)
  | read id len => exact counted.untouched (step_untouched rfl taken)
  | write id rest => exact counted.untouched (step_untouched rfl taken)
  | socket task =>
    have ends := counted.socket fine
    unfold Ends at ends
    simp only [Fs.step, after] at taken
    split at taken <;> cases taken
    next done =>
      rw [done] at ends
      exact ends
    next failed =>
      rw [failed] at ends
      rcases ends with hangs | rfl
      · cases hangs
      · exact counted
  | close task fd =>
    have ends : Ends (close task fd) s (fun _ t => SocketsCounted t) fun _ t => SocketsCounted t := by
      refine (ends_close task fd s).imp ?_ ?_
      · rintro _ _ ⟨table, file, present, found, rfl⟩
        exact counted.drops (drops_close present found)
      · rintro _ _ rfl
        exact counted
    exact after_ends ends taken
  | clone parent child => cases fine
  | cleanup task =>
    cases taken
    exact counted.drops (drops_cleanup s task)

end SocketsCounted

theorem failsClean_iff (unused : soleOwner s (.socket task)) : FailsClean s task ↔ placed s (.socket task) := by
  unfold FailsClean
  cases initialized : s.stack with
  | none =>
    refine iff_of_true (fun error t failed => ?_) (by simp [placed, initialized])
    simp only [sysSocket_eq, initialized, Option.bind_none, EStateM.Result.error.injEq] at failed
    simp [← failed.2]
  | some stack =>
    by_cases full : maxSockets ≤ stack.socketMap.entries.length
    · refine iff_of_true (fun error t failed => ?_) (by simp [placed, initialized, full])
      simp only [sysSocket_full initialized full, EStateM.Result.error.injEq] at failed
      simp [← failed.2]
    · have absent : s.socketOf stack.nextSocketId = none := by
        simpa [soleOwner, initialized, Vfs.socketOf] using unused
      have placed_iff : placed s (.socket task) ↔ ¬s.NoRoom task := by
        rw [noRoom_iff]
        have free : stack.socketMap.lookup stack.nextSocketId = none := by
          simpa [soleOwner, initialized] using unused
        simp [placed, initialized, full, free]
      have ends := ends_allocFd_room task
        { fileType := .socket stack.nextSocketId, flags := { read := true, write := true } }
        (s.withSocket stack)
      rw [placed_iff, sysSocket_creates initialized full]
      constructor
      · intro clean noRoom
        unfold Ends at ends
        split at ends
        next => exact ends noRoom
        next failed =>
          obtain ⟨rfl, refused⟩ := ends
          obtain ⟨error, rfl⟩ := refused.mp noRoom
          have kept := (clean error _ failed).2 stack.nextSocketId
          simp [socketOf_withSocket initialized, absent] at kept
      · intro room error t failed
        exact absurd ((ends.of_error failed).2.mpr ⟨error, rfl⟩) room

end Step

/-- Wherever a run of placed steps gets, the map and the descriptors agree, and as long as no id is
given out twice a failing `SYS_SOCKET` has done nothing if and only if it is placed too. -/
theorem sockets_owned {s : Vfs} (run : Machine.Reaches step (fun s a => placed s a = true) .initial s) :
    SocketsOwned s ∧ ∀ task, soleOwner s (.socket task) = true →
      (FailsClean s task ↔ placed s (.socket task) = true) := by
  have counted : SocketsCounted s :=
    run.invariant (fun _ => rfl) fun _ _ _ counted fine taken => counted.step fine taken
  exact ⟨counted.owned, fun _ unused => failsClean_iff unused⟩

theorem sockets_owned_exit :
    ∃ s, Machine.replay step (fun s a => placed s a = true) .initial
        [.init 1, .init 2, .socket 1, .socket 2, .socket 1, .close 1 3, .cleanup 2] = some s ∧
          SocketsOwned s ∧ FailsClean s 1 := by
  obtain ⟨s, facts⟩ := Option.isSome_iff_exists.mp
    (show ((Machine.replay step (fun s a => placed s a = true) .initial
    [.init 1, .init 2, .socket 1, .socket 2, .socket 1, .close 1 3, .cleanup 2]).filter
      fun s => soleOwner s (.socket 1) && placed s (.socket 1)).isSome by decide)
  obtain ⟨done, fine⟩ := Option.filter_eq_some_iff.mp facts
  rw [Bool.and_eq_true] at fine
  obtain ⟨owned, clean⟩ := sockets_owned (Machine.Reaches.of_replay (fun _ _ => id) .start done)
  exact ⟨s, done, owned, (clean 1 fine.1).mpr fine.2⟩

/-- A task whose table is full calls `SYS_SOCKET` 64 times, and no other task gets a socket any more. -/
theorem failed_sockets_stay :
    ∃ s, Machine.run step .initial
        (.init 1 :: .init 2 :: List.replicate 61 (.opened 1 2 .rdonly 0) ++ List.replicate 64 (.socket 1))
        = some s ∧
      (s.socketOf 1).isSome ∧ s.count (.socket 1) = 0 ∧ ¬SocketsOwned s ∧
      reason (sysSocket 2) s = some (.error .invalidOperation) := by
  have facts : ((Machine.run step .initial
      (.init 1 :: .init 2 :: List.replicate 61 (.opened 1 2 .rdonly 0) ++
        List.replicate 64 (.socket 1))).map fun s =>
        ((s.socketOf 1).isSome, s.count (.socket 1), reason (sysSocket 2) s)) =
      some (true, 0, some (.error .invalidOperation)) := by decide +kernel
  simp only [Option.map_eq_some_iff, Prod.mk.injEq] at facts
  obtain ⟨s, done, there, unreferred, refused⟩ := facts
  refine ⟨s, done, there, unreferred, fun owned => ?_, refused⟩
  have referred := (owned 1).mp there
  omega

end PickleOS.Fs
