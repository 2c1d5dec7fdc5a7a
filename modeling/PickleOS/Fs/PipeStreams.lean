import PickleOS.Fs.PipeCounts
import Mathlib.Logic.Function.Basic

set_option autoImplicit false

/-!
# The bytes of pipes

Reads and writes run beside the other operations, one locked section at a time.
-/

namespace PickleOS.Fs

open Shared

/-- A call that is inside its loop. A write carries a ghost serial number. -/
inductive Pending where
  | reading (id : PipeId) (len : Nat)
  | writing (id : PipeId) (serial : Nat) (data : List UInt8) (written : Nat)

structure Chunk where
  id : PipeId
  serial : Nat
  bytes : List UInt8

inductive Return where
  | read (id : PipeId) (len : Nat) (bytes : List UInt8)
  | write (id : PipeId) (serial : Nat) (data : List UInt8) (result : Except VfsError Nat)

def Return.bytesFrom (id : PipeId) : Return → List UInt8
  | .read id' _ bytes => if id' = id then bytes else []
  | .write .. => []

structure Streams where
  vfs : Vfs
  pending : TaskId → Option Pending
  -- The rest is history that nothing looks at. The serial number of a write is its place in `started`.
  started : List (PipeId × List UInt8)
  accepted : List Chunk
  returned : List Return

def Streams.initial : Streams where
  vfs := .initial
  pending _ := none
  started := []
  accepted := []
  returned := []

namespace Streams

variable (s : Streams)

/-- Everything the writers have put into a pipe, in the order of the sections. -/
def acceptedBytes (id : PipeId) : List UInt8 := (s.accepted.filter (·.id = id)).flatMap Chunk.bytes

def writtenBy (serial : Nat) (id : PipeId) : List UInt8 :=
  (s.accepted.filter fun chunk => chunk.serial = serial ∧ chunk.id = id).flatMap Chunk.bytes

/-- Everything the reads have returned from a pipe, in the order of the sections. -/
def deliveredBytes (id : PipeId) : List UInt8 := s.returned.flatMap (Return.bytesFrom id)

/-- The beginning of `read` and `write`: the descriptor is looked up once, before the loop. -/
def openedType (task : TaskId) (fd : Fd) (isWrite : Bool) : Except VfsError FileType :=
  match s.vfs.fdTables.lookup task with
  | none => .error .invalidOperation
  | some table =>
    match table.files.lookup fd with
    | none => .error .badFileDescriptor
    | some file =>
      if isWrite then if file.flags.write then .ok file.fileType else .error .readOnlyFile
      else if file.flags.read then .ok file.fileType
      else .error .writeOnlyFile

def finish (task : TaskId) (value : Return) : Streams :=
  { s with pending := Function.update s.pending task none, returned := s.returned ++ [value] }

/-- The end of `write`. -/
def writeResult (data : List UInt8) (written : Nat) : Except VfsError Nat :=
  if written = 0 ∧ data ≠ [] then .error .invalidOperation else .ok written

def finishWrite (task : TaskId) (id : PipeId) (serial : Nat) (data : List UInt8) (written : Nat) : Streams :=
  s.finish task (.write id serial data (writeResult data written))

def start (task : TaskId) (id : PipeId) (data : List UInt8) : Streams :=
  { s with
    pending := Function.update s.pending task (some (.writing id s.started.length data 0))
    started := s.started ++ [(id, data)] }

def goOn (task : TaskId) (id : PipeId) (serial : Nat) (data : List UInt8) (written : Nat) : Streams :=
  { s with pending := Function.update s.pending task (some (.writing id serial data written)) }

def put (id : PipeId) (serial : Nat) (bytes : List UInt8) (vfs : Vfs) : Streams :=
  { s with vfs, accepted := s.accepted ++ [Chunk.mk id serial bytes] }

/-- The next section of a call: it returns, or the loop goes round again. -/
def look (task : TaskId) : Pending → Streams
  | .reading id len =>
    match pipeRead id len s.vfs with
    | (.delivered bytes, vfs) => { s with vfs }.finish task (.read id len bytes)
    | (.eof, vfs) => { s with vfs }.finish task (.read id len [])
    | (.wait, vfs) => { s with vfs }
  | .writing id serial data written =>
    match pipeWrite id (data.drop written) s.vfs with
    | (.broken, vfs) => { s with vfs }.finishWrite task id serial data written
    | (.full, vfs) =>
      if data.length ≤ written then { s with vfs }.finishWrite task id serial data written else { s with vfs }
    | (.accepted bytes, vfs) =>
      let s := s.put id serial bytes vfs
      let written := written + bytes.length
      if data.length ≤ written then s.finishWrite task id serial data written
      else s.goOn task id serial data written

end Streams

inductive StreamAction where
  /-- Any other operation, by any task. -/
  | vfs (action : Action)
  | read (task : TaskId) (fd : Fd) (len : Nat)
  | write (task : TaskId) (fd : Fd) (data : List UInt8)
  | look (task : TaskId)
  /-- A task is killed inside a call. -/
  | abandon (task : TaskId)

def Action.isSection : Action → Bool
  | .read .. => true
  | .write .. => true
  | _ => false

namespace Streams

def step (s : Streams) : StreamAction → Option Streams
  | .vfs action => if action.isSection then none else (Fs.step s.vfs action).map fun vfs => { s with vfs }
  | .read task fd len =>
    if (s.pending task).isSome then none
    else
      match s.openedType task fd false with
      | .ok (.pipe id false) =>
        some { s with pending := Function.update s.pending task (some (.reading id len)) }
      -- An error, or no pipe at all.
      | _ => some s
  | .write task fd data =>
    if (s.pending task).isSome then none
    else
      match s.openedType task fd true with
      | .ok (.pipe id true) => some (s.start task id data)
      | _ => some s
  | .look task => (s.pending task).map (s.look task)
  | .abandon task => some { s with pending := Function.update s.pending task none }

abbrev Reachable (s : Streams) : Prop := Machine.Reaches step (fun _ _ => True) .initial s

end Streams

structure Buffers (s t : Vfs) : Prop where
  next : s.nextPipeId ≤ t.nextPipeId
  kept : ∀ {id p}, t.pipes.lookup id = some p →
    (∃ q, s.pipes.lookup id = some q ∧ q.buf = p.buf) ∨ (s.nextPipeId ≤ id ∧ p.buf = [])

namespace Buffers

variable {s t u : Vfs} {task : TaskId}

theorem of_eq (pipes : t.pipes = s.pipes) (next : t.nextPipeId = s.nextPipeId) : Buffers s t where
  next := next.ge
  kept found := Or.inl ⟨_, pipes ▸ found, rfl⟩

theorem refl (s : Vfs) : Buffers s s := of_eq rfl rfl

theorem trans (first : Buffers s t) (second : Buffers t u) : Buffers s u where
  next := first.next.trans second.next
  kept found := by
    rcases second.kept found with ⟨q, present, same⟩ | ⟨later, empty⟩
    · rcases first.kept present with ⟨r, before, same'⟩ | ⟨later, empty⟩
      · exact Or.inl ⟨r, before, same'.trans same⟩
      · exact Or.inr ⟨later, same ▸ empty⟩
    · exact Or.inr ⟨first.next.trans later, empty⟩

theorem of_settles (settles : Settles s t) : Buffers s t where
  next := settles.nextPipeId.ge
  kept found := Or.inl (settles.buffers found)

theorem of_allocates {file : OpenFile} (done : Allocates file s t) : Buffers s t :=
  of_eq done.pipes done.nextPipeId

theorem register {id : PipeId} (later : s.nextPipeId ≤ id) (pipes : t.pipes = s.pipes)
    (next : s.nextPipeId ≤ t.nextPipeId) : Buffers s (t.register id) where
  next := next
  kept {id' p} found := by
    change (t.pipes.insert id _).lookup id' = some p at found
    rw [Map.lookup_insert_eq, pipes] at found
    by_cases same : id' = id
    · subst same
      simp only [if_true, Option.some.injEq] at found
      subst found
      exact Or.inr ⟨later, rfl⟩
    · simp only [same, if_false] at found
      exact Or.inl ⟨p, found, rfl⟩

theorem ends_pipe (task : TaskId) (s : Vfs) :
    Outcome.Ends (Fs.pipe task) s (fun _ t => Buffers s t) (fun _ t => Buffers s t) := by
  have begun : Buffers s { s with nextPipeId := s.nextPipeId + 1 } :=
    ⟨Nat.le_succ _, fun found => Or.inl ⟨_, found, rfl⟩⟩
  refine ends_pipe_of (refl s) begun (fun t first => begun.trans (of_allocates first))
    fun t u first second => ?_
  refine register le_rfl (second.pipes.trans first.pipes) ?_
  rw [second.nextPipeId, first.nextPipeId]
  exact begun.next

theorem ends_sysSocket (task : TaskId) (s : Vfs) :
    Outcome.Ends (sysSocket task) s (fun _ t => Buffers s t) (fun _ t => Buffers s t) := by
  unfold Outcome.Ends
  rw [sysSocket_eq]
  cases s.stack.bind NetworkStack.createTcpSocket with
  | none => exact refl s
  | some created =>
    refine (ends_allocFd task { fileType := .socket created.1, flags := { read := true, write := true } }
      _).imp ?_ ?_
    · intro fd t done
      exact of_eq (allocates done).pipes (allocates done).nextPipeId
    · rintro _ _ rfl
      exact of_eq rfl rfl

theorem ends_close (task : TaskId) (fd : Fd) (s : Vfs) :
    Outcome.Ends (Fs.close task fd) s (fun _ t => Buffers s t) (fun _ t => Buffers s t) := by
  refine (Fs.ends_close task fd s).imp ?_ ?_
  · rintro _ _ ⟨table, file, _, _, rfl⟩
    have removed : Buffers s { s with fdTables := s.fdTables.insert task { table
      with files := table.files.erase fd } } :=
      of_eq rfl rfl
    exact removed.trans (of_settles (settles_release _ file))
  · rintro _ _ rfl
    exact refl _

theorem cleanup (task : TaskId) (s : Vfs) : Buffers s (s.cleanupTaskFds task) := by
  unfold Vfs.cleanupTaskFds
  cases s.fdTables.lookup task with
  | none => exact of_eq rfl rfl
  | some table =>
    have removed : Buffers s { s with fdTables := s.fdTables.erase task } := of_eq rfl rfl
    refine (removed.trans (of_settles (Settles.foldl settles_release (Map.values table.files) _))).trans ?_
    exact of_eq rfl rfl

theorem clone (parent child : TaskId) (s : Vfs) : Buffers s (s.cloneTaskFds parent child) := by
  unfold Vfs.cloneTaskFds
  cases s.fdTables.lookup parent with
  | none => exact of_eq rfl rfl
  | some table =>
    exact (of_settles (Settles.foldl settles_retain (Map.values table.files) s)).trans (of_eq rfl rfl)

theorem step {a : Action} (plain : a.isSection = false) (taken : Fs.step s a = some t) : Buffers s t := by
  cases a with
  | init task =>
    simp only [Fs.step, Option.ite_none_right_eq_some, Option.some.injEq] at taken
    obtain ⟨_, rfl⟩ := taken
    exact of_eq rfl rfl
  | opened task inode flags pos =>
    refine after_ends ((ends_allocFd ..).imp ?_ ?_) taken
    · intro fd t done
      exact of_allocates (allocates done)
    · rintro _ _ rfl
      exact refl _
  | pipe task => exact after_ends (ends_pipe task s) taken
  | socket task => exact after_ends (ends_sysSocket task s) taken
  | close task fd => exact after_ends (ends_close task fd s) taken
  | clone parent child =>
    simp only [Fs.step, Option.ite_none_right_eq_some, Option.some.injEq] at taken
    obtain ⟨_, rfl⟩ := taken
    exact clone parent child s
  | cleanup task =>
    cases taken
    exact cleanup task s
  | read => cases plain
  | write => cases plain

end Buffers

namespace Streams

variable {s t : Streams} {task : TaskId} {id : PipeId}

/-- What was put into a pipe is what was taken out of it, and then what is still there. -/
structure Flow (s : Streams) : Prop where
  counted : Counted s.vfs
  stream : ∀ id, ∃ rest, s.acceptedBytes id = s.deliveredBytes id ++ rest ∧
    ∀ p, s.vfs.pipes.lookup id = some p → p.buf = rest
  fresh : ∀ id, s.vfs.nextPipeId ≤ id → s.acceptedBytes id = []
  capacity : ∀ {id p}, s.vfs.pipes.lookup id = some p → p.buf.length ≤ pipeCapacity

namespace Flow

theorem initial : Flow .initial where
  counted := .initial
  stream _ := ⟨[], rfl, by simp [Streams.initial, Vfs.initial]⟩
  fresh _ _ := rfl
  capacity found := by simp [Streams.initial, Vfs.initial] at found

theorem congr (flow : Flow s) (vfs : t.vfs = s.vfs) (accepted : ∀ id, t.acceptedBytes id = s.acceptedBytes id)
    (delivered : ∀ id, t.deliveredBytes id = s.deliveredBytes id) : Flow t := by
  obtain ⟨counted, stream, fresh, capacity⟩ := flow
  refine ⟨vfs ▸ counted, ?_, ?_, ?_⟩
  · intro id
    rw [accepted, delivered, vfs]
    exact stream id
  · intro id
    rw [accepted, vfs]
    exact fresh id
  · intro id p
    rw [vfs]
    exact capacity

theorem other {vfs : Vfs} (flow : Flow s) (counted : Counted vfs) (buffers : Buffers s.vfs vfs) :
    Flow { s with vfs } where
  counted := counted
  stream id := by
    obtain ⟨rest, split, buffer⟩ := flow.stream id
    refine ⟨rest, split, fun p found => ?_⟩
    rcases buffers.kept found with ⟨q, present, same⟩ | ⟨later, empty⟩
    · rw [← same, buffer q present]
    · -- A new pipe: nothing was ever put into it.
      have nothing := flow.fresh id later
      rw [nothing] at split
      rw [empty, (List.append_eq_nil_iff.mp split.symm).2]
  fresh id later := flow.fresh id (buffers.next.trans later)
  capacity found := by
    rcases buffers.kept found with ⟨q, present, same⟩ | ⟨_, empty⟩
    · rw [← same]
      exact flow.capacity present
    · simp [empty]

theorem transfer {p : Pipe} {buf input output : List UInt8} (flow : Flow s)
    (present : s.vfs.pipes.lookup id = some p)
    (vfs : t.vfs = { s.vfs with pipes := s.vfs.pipes.insert id { p with buf } })
    (accepted : ∀ id', t.acceptedBytes id' = s.acceptedBytes id' ++ if id' = id then input else [])
    (delivered : ∀ id', t.deliveredBytes id' = s.deliveredBytes id' ++ if id' = id then output else [])
    (balance : p.buf ++ input = output ++ buf) (small : buf.length ≤ pipeCapacity) : Flow t := by
  -- A section puts bytes into a pipe, or takes some out.
  have lookup : ∀ id', t.vfs.pipes.lookup id' = if id' = id then some { p with buf } else
    s.vfs.pipes.lookup id' := by
    intro id'
    rw [vfs]
    exact Map.lookup_insert_eq ..
  have next : t.vfs.nextPipeId = s.vfs.nextPipeId := by rw [vfs]
  constructor
  · rw [vfs]
    exact flow.counted.buffer present buf
  · intro id'
    obtain ⟨rest, split, buffer⟩ := flow.stream id'
    rw [accepted, delivered, lookup]
    by_cases same : id' = id
    · subst same
      have before := buffer p present
      refine ⟨buf, ?_, ?_⟩
      · simp only [if_true]
        rw [split, ← before, List.append_assoc, List.append_assoc, balance]
      · simp only [if_true, Option.some.injEq]
        rintro q rfl
        rfl
    · refine ⟨rest, by simpa [same] using split, ?_⟩
      simpa only [same, if_false] using buffer
  · intro id' later
    rw [next] at later
    have other : id' ≠ id := by
      rintro rfl
      have gone := (flow.counted.fresh id' later).1
      simp [present] at gone
    rw [accepted, flow.fresh id' later]
    simp [other]
  · intro id' q found
    rw [lookup] at found
    by_cases same : id' = id
    · simp only [same, if_true, Option.some.injEq] at found
      subst found
      exact small
    · simp only [same, if_false] at found
      exact flow.capacity found

end Flow

theorem pipeRead_delivered {len : Nat} {bytes : List UInt8}
    {v w : Vfs} (done : pipeRead id len v = (.delivered bytes, w)) :
    ∃ p, v.pipes.lookup id = some p ∧ p.buf ≠ [] ∧ bytes = p.buf.take len ∧
      w = { v with pipes := v.pipes.insert id { p with buf := p.buf.drop len } } := by
  unfold pipeRead at done
  cases present : v.pipes.lookup id with
  | none => simp [present] at done
  | some p =>
    simp only [present] at done
    split at done
    next filled =>
      cases done
      exact ⟨p, rfl, filled, rfl, rfl⟩
    next => split at done <;> cases done

theorem pipeRead_same {len : Nat} {outcome : ReadOutcome} {v w : Vfs} (done : pipeRead id len v = (outcome, w))
    (nothing : ∀ bytes, outcome ≠ .delivered bytes) : w = v := by
  unfold pipeRead at done
  split at done
  · cases done
    rfl
  · split at done
    · cases done
      exact absurd rfl (nothing _)
    · split at done <;> cases done <;> rfl

theorem pipeWrite_accepted {rest bytes : List UInt8}
    {v w : Vfs} (done : pipeWrite id rest v = (.accepted bytes, w)) :
    ∃ p, v.pipes.lookup id = some p ∧ bytes = rest.take (pipeCapacity - p.buf.length) ∧
      w = { v with pipes := v.pipes.insert id { p with buf := p.buf ++ bytes } } := by
  unfold pipeWrite at done
  cases present : v.pipes.lookup id with
  | none => simp [present] at done
  | some p =>
    simp only [present] at done
    split at done
    · cases done
    · split at done <;> cases done
      exact ⟨p, rfl, rfl, rfl⟩

theorem pipeWrite_same {rest : List UInt8} {outcome : WriteOutcome} {v w : Vfs}
    (done : pipeWrite id rest v = (outcome, w)) (nothing : ∀ bytes, outcome ≠ .accepted bytes) : w = v := by
  unfold pipeWrite at done
  split at done
  · cases done
    rfl
  · split at done
    · cases done
      rfl
    · dsimp only at done
      split at done
      · cases done
        rfl
      · cases done
        exact absurd rfl (nothing _)

theorem acceptedBytes_append {chunk : Chunk} (added : t.accepted = s.accepted ++ [chunk]) (id : PipeId) :
    t.acceptedBytes id = s.acceptedBytes id ++ if id = chunk.id then chunk.bytes else [] := by
  unfold acceptedBytes
  rw [added, List.filter_append, List.flatMap_append]
  by_cases same : id = chunk.id
  · simp [same]
  · simp [same, Ne.symm same]

theorem writtenBy_append {chunk : Chunk} (added : t.accepted = s.accepted ++ [chunk]) (serial : Nat)
    (id : PipeId) :
    t.writtenBy serial id =
      s.writtenBy serial id ++ if serial = chunk.serial ∧ id = chunk.id then chunk.bytes else [] := by
  unfold writtenBy
  rw [added, List.filter_append, List.flatMap_append]
  by_cases same : serial = chunk.serial ∧ id = chunk.id
  · simp [same]
  · have different : ¬(chunk.serial = serial ∧ chunk.id = id) := fun ⟨left, right⟩ =>
      same ⟨left.symm, right.symm⟩
    simp [same, different]

theorem deliveredBytes_append {value : Return} (added : t.returned = s.returned ++ [value]) (id : PipeId) :
    t.deliveredBytes id = s.deliveredBytes id ++ value.bytesFrom id := by
  unfold deliveredBytes
  rw [added, List.flatMap_append]
  simp

theorem Flow.finish {vfs : Vfs} {value : Return} (flow : Flow { s with vfs })
    (nothing : ∀ id, value.bytesFrom id = []) :
    Flow ({ s with vfs }.finish task value) := by
  refine flow.congr rfl (fun id => rfl) fun id => ?_
  rw [deliveredBytes_append (s := { s with vfs }) rfl, nothing, List.append_nil]

theorem Flow.look (flow : Flow s) (task : TaskId) (call : Pending) : Flow (s.look task call) := by
  cases call with
  | reading id len =>
    cases done : pipeRead id len s.vfs with
    | mk outcome vfs =>
      simp only [Streams.look, done]
      cases outcome with
      | delivered bytes =>
        obtain ⟨p, present, _, taken, rest⟩ := pipeRead_delivered done
        refine @Flow.transfer _ _ _ p (p.buf.drop len) [] bytes flow present rest ?_ ?_ ?_ ?_
        · intro id'
          simp only [ite_self, List.append_nil]
          rfl
        · intro id'
          simp only [eq_comm (a := id')]
          exact @deliveredBytes_append { s with vfs } _ (.read id len bytes) rfl id'
        · rw [taken, List.append_nil, List.take_append_drop]
        · rw [List.length_drop]
          exact (Nat.sub_le ..).trans (flow.capacity present)
      | eof =>
        cases pipeRead_same done (by simp)
        exact Flow.finish flow fun id' => by simp [Return.bytesFrom]
      | wait =>
        cases pipeRead_same done (by simp)
        exact flow
  | writing id serial data written =>
    cases done : pipeWrite id (data.drop written) s.vfs with
    | mk outcome vfs =>
      simp only [Streams.look, done]
      cases outcome with
      | broken =>
        cases pipeWrite_same done (by simp)
        exact Flow.finish flow fun _ => rfl
      | full =>
        cases pipeWrite_same done (by simp)
        dsimp only
        split
        · exact Flow.finish flow fun _ => rfl
        · exact flow
      | accepted bytes =>
        obtain ⟨p, present, taken, rest⟩ := pipeWrite_accepted done
        have small : (p.buf ++ bytes).length ≤ pipeCapacity := by
          have := flow.capacity present
          rw [taken, List.length_append, List.length_take]
          omega
        have pushed : Flow (s.put id serial bytes vfs) := by
          refine @Flow.transfer s _ _ p (p.buf ++ bytes) bytes [] flow present rest ?_ ?_ rfl small
          · exact @acceptedBytes_append s _ ⟨id, serial, bytes⟩ rfl
          · intro id'
            simp only [ite_self, List.append_nil]
            rfl
        dsimp only
        split
        · exact @Flow.finish (s.put id serial bytes vfs) _ vfs _ pushed fun _ => rfl
        · exact pushed.congr rfl (fun _ => rfl) fun _ => rfl

structure Writes (s : Streams) : Prop where
  old : ∀ chunk ∈ s.accepted, chunk.serial < s.started.length
  begun : ∀ {serial id data}, s.started[serial]? = some (id, data) →
    s.writtenBy serial id <+: data ∧ ∀ id', id' ≠ id → s.writtenBy serial id' = []
  running : ∀ {task id serial data written}, s.pending task = some (.writing id serial data written) →
    s.started[serial]? = some (id, data) ∧ s.writtenBy serial id = data.take written ∧ written ≤ data.length
  apart : ∀ {task task' id id' serial data data' written written'},
    s.pending task = some (.writing id serial data written) →
    s.pending task' = some (.writing id' serial data' written') → task = task'
  finished : ∀ {id serial data result}, .write id serial data result ∈ s.returned →
    s.started[serial]? = some (id, data) ∧
      (∃ n, n ≤ data.length ∧ result = writeResult data n ∧ s.writtenBy serial id = data.take n) ∧
      ∀ task id' data' written, s.pending task ≠ some (.writing id' serial data' written)

namespace Writes

theorem initial : Writes .initial := by
  constructor <;> simp [Streams.initial]

theorem fewer (writes : Writes s) (accepted : t.accepted = s.accepted) (started : t.started = s.started)
    (pending : ∀ {task id serial data written}, t.pending task = some (.writing id serial data written) →
      s.pending task = some (.writing id serial data written))
    (returned : ∀ {id serial data result}, .write id serial data result ∈ t.returned →
      .write id serial data result ∈ s.returned) : Writes t := by
  -- Calls end, or reads are begun and return.
  have same : ∀ serial id, t.writtenBy serial id = s.writtenBy serial id := by
    intro serial id
    simp only [writtenBy, accepted]
  obtain ⟨old, begun, running, apart, finished⟩ := writes
  constructor
  · rw [accepted, started]
    exact old
  · simp only [same, started]
    exact begun
  · intro task id serial data written here
    simpa only [same, started] using running (pending here)
  · intro task task' id id' serial data data' written written' here there
    exact apart (pending here) (pending there)
  · intro id serial data result member
    obtain ⟨begin, result, past⟩ := finished (returned member)
    simp only [same, started]
    exact ⟨begin, result, fun task id' data' written here => past task id' data' written (pending here)⟩

theorem started_lt (writes : Writes s) {id : PipeId} {serial : Nat} {data : List UInt8} {written : Nat}
    (here : s.pending task = some (.writing id serial data written)) : serial < s.started.length := by
  have begin := (writes.running here).1
  by_contra late
  rw [List.getElem?_eq_none (Nat.not_lt.mp late)] at begin
  cases begin

theorem unwritten (writes : Writes s) (id : PipeId) : s.writtenBy s.started.length id = [] := by
  unfold writtenBy
  rw [List.flatMap_eq_nil_iff]
  intro chunk member
  rw [List.mem_filter] at member
  have := writes.old chunk member.1
  simp at member
  omega

theorem start (writes : Writes s) (task : TaskId) (id : PipeId) (data : List UInt8) :
    Writes (s.start task id data) := by
  have same : ∀ serial id', (s.start task id data).writtenBy serial id' = s.writtenBy serial id' :=
    fun _ _ => rfl
  have earlier : ∀ {serial : Nat} {call : PipeId × List UInt8}, s.started[serial]? = some call →
      (s.start task id data).started[serial]? = some call := by
    intro serial call found
    have short : serial < s.started.length := by
      by_contra late
      rw [List.getElem?_eq_none (Nat.not_lt.mp late)] at found
      cases found
    simp only [Streams.start, List.getElem?_append_left short, found]
  have pending : ∀ {task' id' serial data' written},
      (s.start task id data).pending task' = some (.writing id' serial data' written) →
        (task' = task ∧ id' = id ∧ serial = s.started.length ∧ data' = data ∧ written = 0) ∨
          s.pending task' = some (.writing id' serial data' written) := by
    intro task' id' serial data' written found
    simp only [Streams.start, Function.update_apply] at found
    split at found
    next here =>
      cases found
      exact Or.inl ⟨here, rfl, rfl, rfl, rfl⟩
    next => exact Or.inr found
  constructor
  · intro chunk member
    have := writes.old chunk member
    simp only [Streams.start, List.length_append, List.length_singleton]
    omega
  · intro serial id' data' found
    simp only [same]
    simp only [Streams.start] at found
    rcases Nat.lt_trichotomy serial s.started.length with short | last | late
    · rw [List.getElem?_append_left short] at found
      exact writes.begun found
    · subst last
      simp [writes.unwritten]
    · rw [List.getElem?_eq_none (by simp; omega)] at found
      cases found
  · intro task' id' serial data' written found
    simp only [same]
    rcases pending found with ⟨_, rfl, rfl, rfl, rfl⟩ | before
    · exact ⟨by simp [Streams.start], by simpa using writes.unwritten id', Nat.zero_le _⟩
    · obtain ⟨begin, taken, short⟩ := writes.running before
      exact ⟨earlier begin, taken, short⟩
  · intro task₁ task₂ id₁ id₂ serial data₁ data₂ written₁ written₂ first second
    rcases pending first with ⟨here, _, last, _⟩ | before <;> rcases pending second
      with ⟨there, _, last', _⟩ | before'
    · exact here.trans there.symm
    · exact absurd last (Nat.ne_of_lt (writes.started_lt before'))
    · exact absurd last' (Nat.ne_of_lt (writes.started_lt before))
    · exact writes.apart before before'
  · intro id' serial data' result member
    obtain ⟨begin, result, past⟩ := writes.finished member
    refine ⟨earlier begin, result, fun task' id'' data'' written found => ?_⟩
    rcases pending found with ⟨_, _, rfl, _⟩ | before
    · rw [List.getElem?_eq_none le_rfl] at begin
      cases begin
    · exact past task' id'' data'' written before

theorem accept {id : PipeId} {serial : Nat} {data bytes : List UInt8} {written space : Nat} (writes : Writes s)
    (here : s.pending task = some (.writing id serial data written))
    (next : bytes = (data.drop written).take space)
    (vfs : Vfs) : Writes ((s.put id serial bytes vfs).goOn task id serial data (written + bytes.length)) := by
  -- A write puts the next bytes of its data into its pipe.
  obtain ⟨begin, taken, short⟩ := writes.running here
  have appended : ∀ serial' id', ((s.put id serial bytes vfs).goOn
    task id serial data (written + bytes.length)).writtenBy
      serial' id' = s.writtenBy serial' id' ++ if serial' = serial ∧ id' = id then bytes else [] :=
    @writtenBy_append s _ ⟨id, serial, bytes⟩ rfl
  have now : data.take written ++ bytes = data.take (written + bytes.length) := by
    rw [List.take_add, next, List.length_take, ← List.take_take, List.take_length]
  have fits : written + bytes.length ≤ data.length := by
    rw [next, List.length_take, List.length_drop]
    omega
  have pending : ∀ {task' id' serial' data' written'},
      ((s.put id serial bytes vfs).goOn task id serial data (written + bytes.length)).pending task' =
          some (.writing id' serial' data' written') →
        (task' = task ∧ id' = id ∧ serial' = serial ∧ data' = data ∧ written' = written + bytes.length) ∨
          (task' ≠ task ∧ s.pending task' = some (.writing id' serial' data' written')) := by
    intro task' id' serial' data' written' found
    simp only [goOn, put, Function.update_apply] at found
    split at found
    next same =>
      cases found
      exact Or.inl ⟨same, rfl, rfl, rfl, rfl⟩
    next other => exact Or.inr ⟨other, found⟩
  constructor
  · intro chunk member
    rcases List.mem_append.mp member with before | added
    · exact writes.old chunk before
    · rw [List.mem_singleton.mp added]
      exact writes.started_lt here
  · intro serial' id' data' found
    obtain ⟨part, nowhere⟩ := writes.begun found
    by_cases same : serial' = serial
    · subst same
      have call : (id', data') = (id, data) := Option.some.inj (found.symm.trans begin)
      cases call
      refine ⟨?_, fun id'' other => ?_⟩
      · rw [appended]
        simp only [and_self, if_true]
        rw [taken, now]
        exact List.take_prefix ..
      · rw [appended, nowhere id'' other]
        simp [other]
    · simp only [appended, same, false_and, if_false, List.append_nil]
      exact ⟨part, nowhere⟩
  · intro task' id' serial' data' written' found
    rcases pending found with ⟨_, rfl, rfl, rfl, rfl⟩ | ⟨other, before⟩
    · refine ⟨begin, ?_, fits⟩
      rw [appended]
      simp only [and_self, if_true]
      rw [taken, now]
    · obtain ⟨begin', taken', short'⟩ := writes.running before
      have different : serial' ≠ serial := by
        rintro rfl
        exact other (writes.apart before here)
      refine ⟨begin', ?_, short'⟩
      rw [appended, taken']
      simp [different]
  · intro task₁ task₂ id₁ id₂ serial' data₁ data₂ written₁ written₂ first second
    rcases pending first with ⟨same, _, here₁, _⟩ | ⟨_, before⟩ <;>
      rcases pending second with ⟨same', _, here₂, _⟩ | ⟨_, before'⟩
    · exact same.trans same'.symm
    · subst here₁
      exact same.trans (writes.apart here before')
    · subst here₂
      exact (writes.apart before here).trans same'.symm
    · exact writes.apart before before'
  · intro id' serial' data' result member
    obtain ⟨begin', ⟨n, short', result', taken'⟩, past⟩ := writes.finished member
    have different : serial' ≠ serial := by
      rintro rfl
      exact past task id data written here
    refine ⟨begin', ⟨n, short', result', ?_⟩, fun task' id'' data'' written' found => ?_⟩
    · rw [appended, taken']
      simp [different]
    · rcases pending found with ⟨_, _, same, _⟩ | ⟨_, before⟩
      · exact different same
      · exact past task' id'' data'' written' before

theorem finishWrite {id : PipeId} {serial : Nat} {data : List UInt8} {written : Nat} (writes : Writes s)
    (here : s.pending task = some (.writing id serial data written)) :
    Writes (s.finishWrite task id serial data written) := by
  obtain ⟨begin, taken, short⟩ := writes.running here
  have left : ∀ {task' id' serial' data' written'},
      (s.finishWrite task id serial data written).pending task' = some (.writing id' serial' data' written') →
        task' ≠ task ∧ s.pending task' = some (.writing id' serial' data' written') := by
    intro task' id' serial' data' written' found
    simp only [Streams.finishWrite, finish, Function.update_apply] at found
    split at found
    next => cases found
    next other => exact ⟨other, found⟩
  constructor
  · exact writes.old
  · exact writes.begun
  · intro task' id' serial' data' written' found
    exact writes.running (left found).2
  · intro task₁ task₂ id₁ id₂ serial' data₁ data₂ written₁ written₂ first second
    exact writes.apart (left first).2 (left second).2
  · intro id' serial' data' result member
    rcases List.mem_append.mp member with before | added
    · obtain ⟨begin', result', past⟩ := writes.finished before
      exact ⟨begin', result', fun task' id'' data'' written' found =>
        past task' id'' data'' written' (left found).2⟩
    · cases List.mem_singleton.mp added
      refine ⟨begin, ⟨written, short, rfl, taken⟩, fun task' id'' data'' written' found => ?_⟩
      exact (left found).1 (writes.apart (left found).2 here)

theorem look {call : Pending} (writes : Writes s) (here : s.pending task = some call) :
    Writes (s.look task call) := by
  have other : ∀ vfs, Writes { s with vfs } := fun vfs => writes.fewer rfl rfl id id
  have returns : ∀ vfs id len bytes, Writes ({ s with vfs }.finish task (.read id len bytes)) := by
    intro vfs id len bytes
    refine writes.fewer rfl rfl ?_ ?_
    · intro task' id' serial data written found
      simp only [finish, Function.update_apply] at found
      split at found
      next => cases found
      next => exact found
    · intro id' serial data result member
      simpa [finish] using member
  cases call with
  | reading id len =>
    cases done : pipeRead id len s.vfs with
    | mk outcome vfs =>
      simp only [Streams.look, done]
      cases outcome with
      | delivered bytes => exact returns ..
      | eof => exact returns ..
      | wait => exact other vfs
  | writing id serial data written =>
    cases done : pipeWrite id (data.drop written) s.vfs with
    | mk outcome vfs =>
      simp only [Streams.look, done]
      cases outcome with
      | broken => exact (other vfs).finishWrite here
      | full =>
        dsimp only
        split
        · exact (other vfs).finishWrite here
        · exact other vfs
      | accepted bytes =>
        obtain ⟨p, _, taken, _⟩ := pipeWrite_accepted done
        have pushed := writes.accept here taken vfs
        dsimp only
        split
        · have past := pushed.finishWrite (Function.update_self ..)
          simpa only [Streams.finishWrite, finish, goOn, Function.update_idem] using past
        · exact pushed

end Writes

theorem Flow.step {a : StreamAction} (flow : Flow s) (taken : s.step a = some t) : Flow t := by
  cases a with
  | vfs action =>
    simp only [Streams.step, Option.ite_none_left_eq_some, Option.map_eq_some_iff, Bool.not_eq_true] at taken
    obtain ⟨plain, vfs, done, rfl⟩ := taken
    exact flow.other (flow.counted.step done) (.step plain done)
  | read task fd len =>
    simp only [Streams.step, Option.ite_none_left_eq_some] at taken
    obtain ⟨_, taken⟩ := taken
    split at taken <;> cases taken
    · exact flow.congr rfl (fun _ => rfl) fun _ => rfl
    · exact flow
  | write task fd data =>
    simp only [Streams.step, Option.ite_none_left_eq_some] at taken
    obtain ⟨_, taken⟩ := taken
    split at taken <;> cases taken
    · exact flow.congr rfl (fun _ => rfl) fun _ => rfl
    · exact flow
  | look task =>
    simp only [Streams.step, Option.map_eq_some_iff] at taken
    obtain ⟨call, _, rfl⟩ := taken
    exact flow.look task call
  | abandon task =>
    cases taken
    exact flow.congr rfl (fun _ => rfl) fun _ => rfl

theorem Writes.step {a : StreamAction} (writes : Writes s) (taken : s.step a = some t) : Writes t := by
  cases a with
  | vfs action =>
    simp only [Streams.step, Option.ite_none_left_eq_some, Option.map_eq_some_iff] at taken
    obtain ⟨_, vfs, _, rfl⟩ := taken
    exact writes.fewer rfl rfl id id
  | read task fd len =>
    simp only [Streams.step, Option.ite_none_left_eq_some] at taken
    obtain ⟨_, taken⟩ := taken
    split at taken <;> cases taken
    · refine writes.fewer rfl rfl ?_ id
      intro task' id' serial data written found
      simp only [Function.update_apply] at found
      split at found
      next => cases found
      next => exact found
    · exact writes
  | write task fd data =>
    simp only [Streams.step, Option.ite_none_left_eq_some] at taken
    obtain ⟨_, taken⟩ := taken
    split at taken <;> cases taken
    · exact writes.start ..
    · exact writes
  | look task =>
    simp only [Streams.step, Option.map_eq_some_iff] at taken
    obtain ⟨call, here, rfl⟩ := taken
    exact writes.look here
  | abandon task =>
    cases taken
    refine writes.fewer rfl rfl ?_ id
    intro task' id' serial data written found
    simp only [Function.update_apply] at found
    split at found
    next => cases found
    next => exact found

theorem Flow.reachable (run : Reachable s) : Flow s :=
  run.invariant initial fun _ _ _ flow _ taken => flow.step taken

theorem Writes.reachable (run : Reachable s) : Writes s :=
  run.invariant initial fun _ _ _ writes _ taken => writes.step taken

structure Streamed (s : Streams) : Prop where
  ordered : ∀ id, s.deliveredBytes id <+: s.acceptedBytes id
  capacity : ∀ {id p}, s.vfs.pipes.lookup id = some p → p.buf.length ≤ pipeCapacity
  /-- A write puts a first part of its data into its own pipe, whether it returns or not. -/
  inOrder : ∀ {serial id data}, s.started[serial]? = some (id, data) →
    s.writtenBy serial id <+: data ∧ ∀ id', id' ≠ id → s.writtenBy serial id' = []
  exactCount : ∀ {id serial data result}, .write id serial data result ∈ s.returned →
    (∀ n, result = .ok n → (s.writtenBy serial id).length = n) ∧
      ∀ error, result = .error error → s.writtenBy serial id = []
  /-- When the next look of a read returns 0 to a non-empty request, the pipe is empty and has no
  write end. -/
  eof : ∀ {task id len t}, s.pending task = some (.reading id len) → len ≠ 0 → s.step (.look task) = some t →
    t.returned = s.returned ++ [.read id len []] →
      (∀ p, s.vfs.pipes.lookup id = some p → p.buf = []) ∧ s.vfs.count (.pipe id true) = 0

theorem pipes_stream (run : Reachable s) : Streamed s := by
  have flow := Flow.reachable run
  have writes := Writes.reachable run
  constructor
  · intro id
    obtain ⟨rest, split, _⟩ := flow.stream id
    exact ⟨rest, split.symm⟩
  · exact flow.capacity
  · exact writes.begun
  · intro id serial data result member
    obtain ⟨_, ⟨n, short, result, taken⟩, _⟩ := writes.finished member
    subst result
    rw [taken, List.length_take, Nat.min_eq_left short]
    unfold writeResult
    split
    next nothing =>
      refine ⟨by simp, fun _ _ => ?_⟩
      rw [nothing.1, List.take_zero]
    next =>
      refine ⟨fun m same => ?_, by simp⟩
      cases same
      rfl
  · intro task id len t here positive looked returned
    simp only [Streams.step, here, Option.map_some, Option.some.injEq] at looked
    subst looked
    have closed : (pipeRead id len s.vfs).1 = .eof := by
      cases done : pipeRead id len s.vfs with
      | mk outcome vfs =>
        simp only [look, done] at returned ⊢
        cases outcome with
        | delivered bytes =>
          obtain ⟨p, _, filled, taken, _⟩ := pipeRead_delivered done
          simp only [finish, List.append_cancel_left_eq, List.cons.injEq, Return.read.injEq, true_and, and_true]
            at returned
          rw [taken, List.take_eq_nil_iff] at returned
          exact (returned.elim positive filled).elim
        | eof => rfl
        | wait => simp at returned
    have counts := flow.counted.balanced.fits id
    rw [pipeRead_eof] at closed
    refine ⟨fun p present => (closed p present).1, ?_⟩
    cases present : s.vfs.pipes.lookup id with
    | none => rwa [present] at counts
    | some p =>
      rw [present] at counts
      exact (counts.1 true).symm.trans (closed p present).2

theorem pipes_stream_loop :
    ∃ s, Machine.run Streams.step .initial
      [.vfs (.init 1), .vfs (.pipe 1), .write 1 4 [7, 8], .look 1, .read 1 3 1, .look 1] = some s ∧
        Streamed s := by
  obtain ⟨s, done⟩ := Option.isSome_iff_exists.mp (show (Machine.run Streams.step .initial
    [.vfs (.init 1), .vfs (.pipe 1), .write 1 4 [7, 8], .look 1, .read 1 3 1, .look 1]).isSome by decide)
  exact ⟨s, done, pipes_stream (Machine.Reaches.start.of_run done)⟩

end Streams

end PickleOS.Fs
