import PickleOS.Elf.Parse
import PickleOS.Fs.Allocation
import PickleOS.Fs.OrderlyRuns
import PickleOS.Fs.Seeking

set_option autoImplicit false

namespace PickleOS.Fs

open Shared Shared.Outcome NextFs

/-- `KERNEL_TASK`. -/
def kernelTask : TaskId := 0

abbrev LoadM := EStateM Elf.Fail Files

def Failure.mapErr (message : String) : Failure → Elf.Fail
  | .vfs (.error _) => .err message
  | .vfs .hang => .diverges
  | .panic => .panic

def mapErr {α : Type} (m : FilesM α) (message : String) : LoadM α := fun s =>
  match m s with
  | .ok value t => .ok value t
  | .error failure t => .error (failure.mapErr message) t

/-- `Vec::with_capacity` and `resize`, on a heap with or without room for so many bytes. -/
def zeroed (room : Nat → Bool) (size : Nat) : LoadM Elf.Slice :=
  if fits : size < 2 ^ 63 ∧ room size = true then
    pure { bytes := List.replicate size 0, short := by rw [List.length_replicate]; exact fits.1 }
  else throw .panic

/-- The buffer after a read into it. -/
def filled (buffer : Elf.Slice) (bytes : List UInt8) : Elf.Slice where
  bytes := bytes.take buffer.bytes.length ++ buffer.bytes.drop bytes.length
  short := by
    have short := buffer.short
    simp only [List.length_append, List.length_take, List.length_drop]
    omega

/-- A transfer of the device that a call needs may fail, and ends the call before it has changed
anything. -/
def failing {α : Type} (fault : Option String) (m : FilesM α) : FilesM α :=
  match fault with
  | none => m
  | some message => Fs.fail (.ofFs (.blockError (.deviceError message)))

/-- The `BlockError::DeviceError`s that the calls of `load_from_file` meet. -/
structure Faults where
  opening : Option String := none
  seekEnd : Option String := none
  seekStart : Option String := none
  reading : Option String := none

section Load

variable (room : Nat → Bool) (others : FileType → FilesM (List UInt8))
  (load : Elf.ElfBinary → Elf.Slice → List Name → List Name → Except Elf.Fail (UInt64 × UInt64))

/-- `load_from_file`. The type of a file that is not regular never comes up, and what `elf.load` does in
memory is left open. -/
def loadFromFile (now : UInt32) (faults : Faults) (path : Name)
    (args envs : List Name) : LoadM (UInt64 × UInt64) := do
  let fd ← mapErr (failing faults.opening (openFile now kernelTask path .rdonly)) "failed to open file"
  let fileSize ← mapErr (failing faults.seekEnd (seek kernelTask fd 0 .fileEnd)) "failed to seek to end"
  let _ ← mapErr (failing faults.seekStart (seek kernelTask fd 0 .set)) "failed to seek to start"
  let buffer ← zeroed room fileSize.toNat
  let bytes ← mapErr (failing faults.reading (read kernelTask fd others buffer.bytes.length))
    "failed to read file"
  mapErr (onVfs (close kernelTask fd)) "failed to close file"
  if bytes.length ≠ fileSize.toNat then throw (.err "incomplete read")
  else
    let fileData := filled buffer bytes
    observe fun _ =>
      match Elf.ElfBinary.parse fileData [] with
      | .ok elf _ => load elf fileData args envs
      | .error failure _ => .error failure

structure LoadCall where
  now : UInt32 := 0
  faults : Faults := {}
  path : Name
  args : List Name := []
  envs : List Name := []

def LoadCall.step (s : Files) (call : LoadCall) : Option Files :=
  match loadFromFile room others load call.now call.faults call.path call.args call.envs s with
  | .ok _ t => some t
  | .error (.err _) t => some t
  | .error _ _ => none

end Load

/-- `open` for reading opens the inode. -/
def Files.Opens (s : Files) (v : Volume) (task : TaskId) (path : Name) (inode : UInt32) : Prop :=
  resolvePath path s = .ok inode s ∧ ¬s.RefusesOpen v task .rdonly inode ∧
    ∀ table, s.vfs.fdTables.lookup task = some table → table.Finds

/-- A read of the whole file fails. -/
def Unreadable (v : Inode) : Prop := v.isFile = false ∨ maxFileSize < v.size.toNat ∧ v.indirect ≠ 0

/-- What can go wrong with the inode once it is open: the device fails, or the size is negative as
an `i64`, or the heap has room for the file and it cannot be read. -/
def LoadCall.Stops (call : LoadCall) (room : Nat → Bool) (v : Inode) : Prop :=
  call.faults.seekEnd ≠ none ∨ 2 ^ 63 ≤ v.size.toNat ∨ call.faults.seekStart ≠ none ∨
    room v.size.toNat = true ∧ (call.faults.reading ≠ none ∨ Unreadable v)

/-- The path can be opened, and the call stops before the descriptor is closed. -/
def Files.Leaks (s : Files) (room : Nat → Bool) (call : LoadCall) : Prop :=
  ∃ v inode, s.mounted = some v ∧ call.faults.opening = none ∧ s.Opens v kernelTask call.path inode ∧
    call.Stops room (v.inode inode.toNat)

/-- In the table of the task `fd` is open in addition. -/
structure Holds (s t : Files) (task : TaskId) (fd : Fd) (file : OpenFile) : Prop where
  mounted : t.mounted = s.mounted
  table : ∃ before after, s.vfs.fdTables.lookup task = some before ∧ t.vfs.fdTables.lookup task = some after ∧
    before.files.lookup fd = none ∧ after.files = before.files.insert fd file

theorem noRoom_congr {s t : Vfs} {task : TaskId} (same : t.openIn task = s.openIn task) :
    t.NoRoom task ↔ s.NoRoom task := by
  have room : ∀ u : Vfs, u.NoRoom task ↔ ∀ files, u.openIn task = some files →
    maxFdsPerTask ≤ files.entries.length := by
    intro u
    simp [Vfs.NoRoom, Vfs.openIn]
  rw [room, room, same]

section Rules

variable {α : Type} (s : Files) (returns : α → Files → Prop) (fails : Elf.Fail → Files → Prop)

theorem ends_mapErr (m : FilesM α) (message : String) :
    Ends (mapErr m message) s returns fails ↔ Ends m s returns fun failure t =>
      fails (failure.mapErr message) t := by
  simp only [Ends, mapErr]
  cases m s <;> rfl

theorem ends_failing {fault : Option String} {m : FilesM α} {fails : Failure → Files → Prop}
    (sound : fault = none → Ends m s returns fails)
    (faulty : fault ≠ none → ∀ error, fails (.vfs (.error error)) s) :
      Ends (failing fault m) s returns fails := by
  cases fault with
  | none => exact sound rfl
  | some message => exact faulty (by simp) _

theorem ends_zeroed (room : Nat → Bool) (size : Nat) (returns : Elf.Slice → Files → Prop)
    (fits : size < 2 ^ 63 → room size = true → ∀ buffer : Elf.Slice, buffer.bytes.length = size →
      returns buffer s)
    (full : room size = false ∨ 2 ^ 63 ≤ size → fails .panic s) : Ends (zeroed room size) s returns fails := by
  unfold zeroed
  split
  next space => exact fits space.1 space.2 _ List.length_replicate
  next none =>
    refine full ?_
    by_cases small : size < 2 ^ 63
    · have closed : ¬room size = true := fun spare => none ⟨small, spare⟩
      exact .inl (by simpa using closed)
    · exact .inr (not_lt.mp small)

end Rules

namespace Holds

variable {s t : Files} {task : TaskId} {fd : Fd} {file : OpenFile} (holds : Holds s t task fd file)

include holds

theorem getFile_eq : getFile task fd t = .ok file t := by
  obtain ⟨before, after, _, present, _, files⟩ := holds.table
  rw [Fs.getFile_eq, present]
  simp only [files, AList.lookup_insert]

theorem openIn_ne : t.vfs.openIn task ≠ s.vfs.openIn task := by
  intro same
  obtain ⟨before, after, old, new, free, files⟩ := holds.table
  rw [Vfs.openIn, Vfs.openIn, old, new, Option.map_some, Option.map_some, Option.some.injEq, files] at same
  have taken := AList.lookup_insert (a := fd) (b := file) before.files
  rw [same, free] at taken
  cases taken

theorem ends_setPos (pos : UInt64) :
    Ends (setPos task fd pos) t (fun _ u => Holds s u task fd { file with pos := pos }) (fun _ _ => False) := by
  have own := ends_getFile holds.getFile_eq
  obtain ⟨before, after, old, new, free, files⟩ := holds.table
  rw [setPos]
  refine own.bind ?_
  rintro _ _ ⟨rfl, rfl⟩
  rw [ends_modify, new]
  refine ⟨holds.mounted, before, _, old, AList.lookup_insert _, free, ?_⟩
  rw [files]
  exact AList.insert_insert _

theorem ends_close {inode : UInt32} (regular : file.fileType = .regular inode) :
    Ends (onVfs (close task fd)) t (fun _ u => u.mounted = s.mounted ∧ u.vfs.openIn task = s.vfs.openIn task)
      (fun _ _ => False) := by
  obtain ⟨before, after, old, new, free, files⟩ := holds.table
  have own : after.files.lookup fd = some file := by rw [files, AList.lookup_insert]
  rw [ends_onVfs_iff]
  simp only [Ends, close, new, own, Vfs.release, regular]
  refine ⟨holds.mounted, ?_⟩
  rw [Vfs.openIn, Vfs.openIn, AList.lookup_insert, old, Option.map_some, Option.map_some, files,
    Map.erase_insert_new free]

theorem ends_moveTo {newPos : Int64} {target : UInt64} (value : newPos.toUInt64 = target) :
    Ends (if newPos < 0 then fail .invalidOperation else do
        setPos task fd newPos.toUInt64
        pure newPos.toUInt64) t
      (fun n u => n = target ∧ n.toNat < 2 ^ 63 ∧ Holds s u task fd { file with pos := n })
      (fun failure u => u = t ∧ 2 ^ 63 ≤ target.toNat ∧ failure = .vfs (.error .invalidOperation)) := by
  subst value
  by_cases negative : newPos < 0
  · rw [if_pos negative]
    exact ⟨rfl, (negative_iff newPos).mp negative, rfl⟩
  · rw [if_neg negative, ends_bind]
    refine (holds.ends_setPos _).imp ?_ fun _ _ => False.elim
    intro _ u moved
    exact ⟨rfl, not_le.mp fun high => negative ((negative_iff newPos).mpr high), moved⟩

variable {volume : Volume} {inode : UInt32} {v : Inode}

theorem ends_seek (regular : file.fileType = .regular inode) (mounted : s.mounted = some volume)
    (known : volume.readInode inode = .ok v) (whence : SeekWhence) {target : UInt64}
    (goal : target.toNat = whence.base file.pos v.size) :
    Ends (seek task fd 0 whence) t
      (fun n u => n = target ∧ n.toNat < 2 ^ 63 ∧ Holds s u task fd { file with pos := n })
      (fun failure u => u = t ∧ 2 ^ 63 ≤ target.toNat ∧ failure = .vfs (.error .invalidOperation)) := by
  have moves := holds.ends_moveTo (UInt64.toUInt64_toInt64 target)
  unfold Ends at moves ⊢
  rw [seek_regular holds.getFile_eq regular (holds.mounted.trans mounted) known]
  cases whence with
  | set =>
    obtain rfl : target = 0 := UInt64.toNat_inj.mp goal
    exact moves
  | current =>
    obtain rfl : target = file.pos := UInt64.toNat_inj.mp goal
    simpa only [Int64.add_zero] using moves
  | fileEnd =>
    obtain rfl : target = v.size := UInt64.toNat_inj.mp goal
    simpa only [Int64.add_zero] using moves

theorem ends_read (regular : file.fileType = .regular inode) (readable : file.flags.read = true)
    (mounted : s.mounted = some volume) (others : FileType → FilesM (List UInt8)) (len : Nat) :
    Ends (read task fd others len) t
      (fun bytes u => volume.readInodeData inode file.pos.toNat len = .ok bytes ∧ ∃ pos,
      Holds s u task fd { file with pos := pos })
      (fun failure u => u = t ∧ ∃ reason, volume.readInodeData inode file.pos.toNat len = .error reason ∧
        failure = .ofFs reason) := by
  have own := ends_getFile holds.getFile_eq
  have begun : Ends (beginRead task fd) t (fun pair u => pair = (.regular inode, file.pos) ∧ u = t)
    fun _ _ => False := by
    rw [beginRead]
    refine own.bind ?_
    rintro _ _ ⟨rfl, rfl⟩
    rw [if_pos readable]
    exact ⟨by rw [regular], rfl⟩
  rw [read]
  refine begun.of_never.bind ?_
  rintro _ _ ⟨rfl, rfl⟩
  dsimp only
  rw [readRegular, ends_bind, ends_withFs_iff _ _ _ _ (holds.mounted.trans mounted)]
  cases data : volume.readInodeData inode file.pos.toNat len with
  | error reason => exact ⟨rfl, reason, rfl, rfl⟩
  | ok bytes =>
    dsimp only
    rw [ends_bind, advance, ends_bind]
    refine own.of_never.imp ?_ fun _ _ => id
    rintro _ _ ⟨rfl, rfl⟩
    refine (holds.ends_setPos _).of_never.imp ?_ fun _ _ => id
    intro _ u moved
    exact ⟨rfl, _, moved⟩

end Holds

section Loads

variable {live : Nat → Prop} {s : Files} {v : Volume}

theorem readInodeData_whole (standing : NextFs.Standing live v) {inode : UInt32} (here : live inode.toNat) :
    match v.readInodeData inode 0 (v.inode inode.toNat).size.toNat with
    | .ok _ => ¬Unreadable (v.inode inode.toNat)
    | .error reason => Unreadable (v.inode inode.toNat) ∧ reason ≠ .panic := by
  have working := standing.housed.working here
  simp only [Volume.readInodeData, readInode_ok standing.ok (standing.housed.inside here), bind,
    Except.bind, Nat.min_self,
    Nat.sub_zero, Unreadable]
  cases file : (v.inode inode.toNat).isFile with
  | false => simp
  | true =>
    simp only [Bool.not_true, Bool.false_eq_true, if_false, Bool.true_eq_false, false_or]
    by_cases past : maxFileSize < (v.inode inode.toNat).size.toNat ∧ (v.inode inode.toNat).indirect ≠ 0
    · have some : ¬0 ≥ (v.inode inode.toNat).size.toNat := not_le.mpr (Nat.zero_lt_of_lt past.1)
      rw [if_neg some, readChunks_past working.placed (by omega) (by simpa [maxFileSize] using past.1) past.2]
      exact ⟨past, by simp⟩
    · have reached : 0 + (v.inode inode.toNat).size.toNat ≤ 137 * 512 ∨ (v.inode inode.toNat).indirect = 0 := by
        rw [not_and_or, not_lt, not_not] at past
        simpa [maxFileSize] using past
      rw [readChunks_reached working.placed reached]
      split
      next => exact past
      next failed => split at failed <;> cases failed

theorem Files.Opens.leaks_iff {call : LoadCall} {inode : UInt32} (mounted : s.mounted = some v)
    (opens : s.Opens v kernelTask call.path inode) (sound : call.faults.opening = none) (room : Nat → Bool) :
    s.Leaks room call ↔ call.Stops room (v.inode inode.toNat) := by
  constructor
  · rintro ⟨w, i, found, _, ⟨same, _⟩, stops⟩
    cases mounted.symm.trans found
    cases opens.1.symm.trans same
    exact stops
  · intro stops
    exact ⟨v, inode, mounted, sound, opens, stops⟩

theorem ends_openFile_rdonly (mounted : s.mounted = some v) (standing : NextFs.Standing live v)
    (now : UInt32) (task : TaskId)
    (path : Name) :
    Ends (openFile now task path .rdonly) s
      (fun fd t => ∃ inode, live inode.toNat ∧ s.Opens v task path inode ∧
        Holds s t task fd { fileType := .regular inode, flags := .rdonly })
      (fun _ t => t = s ∧ ∀ inode, ¬s.Opens v task path inode) := by
  rw [openFile_eq, ends_bind, openedInode, if_neg (by simp [OpenFlags.rdonly])]
  refine ((ends_resolvePath mounted standing path).and (Ends.self _ s)).imp ?_ ?_
  · rintro inode t ⟨⟨unchanged, here⟩, found⟩
    obtain rfl : s = t := unchanged.symm
    have same : ∀ i, s.Opens v task path i → i = inode := by
      rintro i ⟨found', _⟩
      cases found.symm.trans found'
      rfl
    unfold finishOpen
    rw [ends_bind, ends_credentials, if_pos (by decide), ends_bind, ends_withFs_iff _ _ _ _ mounted]
    split
    next permitted =>
      change Ends (onVfs (allocFd task { fileType := .regular inode, flags := .rdonly })) s _ _
      rw [ends_onVfs_iff]
      have alloc := ((ends_allocFd task { fileType := .regular inode, flags := .rdonly } s.vfs).and
        (ends_allocFd_room task _ s.vfs)).and (ends_allocFd_finds task _ s.vfs)
      have refuses : s.RefusesOpen v task .rdonly inode ↔
        s.vfs.NoRoom task := by simp [Files.RefusesOpen, permitted]
      refine alloc.imp ?_ ?_
      · rintro fd _ ⟨⟨done, room⟩, finds⟩
        obtain ⟨before, after, old, free, files, rfl⟩ := allocFd_ok done
        exact ⟨inode, here, ⟨found, by rwa [refuses], finds⟩, rfl, before, after, old,
          AList.lookup_insert _, free, files⟩
      · rintro stop _ ⟨⟨rfl, _, room⟩, stuck⟩
        refine ⟨rfl, fun i opens => ?_⟩
        cases same i opens
        obtain ⟨_, open', finds⟩ := opens
        cases stop with
        | error error => exact open' (refuses.mpr (room.mpr ⟨error, rfl⟩))
        | hang =>
          obtain ⟨table, present, none⟩ := stuck rfl
          exact none (finds table present)
    next reason refused =>
      refine ⟨rfl, fun i opens => ?_⟩
      cases same i opens
      exact opens.2.1 (.inl ⟨by decide, by rw [refused]; simp⟩)
  · rintro failure _ ⟨⟨rfl, _⟩, missing⟩
    refine ⟨rfl, fun inode opens => ?_⟩
    cases opens.1.symm.trans missing

variable (room : Nat → Bool) (others : FileType → FilesM (List UInt8))
  (load : Elf.ElfBinary → Elf.Slice → List Name → List Name → Except Elf.Fail (UInt64 × UInt64))

/-- What `load_from_file` has left behind where it ends. -/
structure Left (s : Files) (call : LoadCall) (returned : Prop) (t : Files) : Prop where
  mounted : t.mounted = s.mounted
  returns : s.Leaks room call → returned
  same : returned → (t.vfs.openIn kernelTask = s.vfs.openIn kernelTask ↔ ¬s.Leaks room call)

theorem Left.closed {call : LoadCall} {returned : Prop} {t : Files} (mounted : t.mounted = s.mounted)
    (same : t.vfs.openIn kernelTask = s.vfs.openIn kernelTask) (kept : ¬s.Leaks room call) :
      Left room s call returned t :=
  ⟨mounted, fun leaks => (kept leaks).elim, fun _ => iff_of_true same kept⟩

theorem Left.leaking {call : LoadCall} {t : Files} {fd : Fd}
    {file : OpenFile} (holds : Holds s t kernelTask fd file)
    (leaks : s.Leaks room call) (message : String) :
      Left room s call (∃ message', Elf.Fail.err message = .err message') t :=
  ⟨holds.mounted, fun _ => ⟨_, rfl⟩, fun _ => iff_of_false holds.openIn_ne (not_not_intro leaks)⟩

theorem ends_loadFromFile (mounted : s.mounted = some v) (standing : NextFs.Standing live v) (call : LoadCall) :
    Ends (loadFromFile room others load call.now call.faults call.path call.args call.envs) s
      (fun _ t => Left room s call True t) (fun failure t =>
        Left room s call (∃ message, failure = .err message) t) := by
  rw [loadFromFile, ends_bind, ends_mapErr]
  refine ends_failing _ _ (fun sound => ?_) fun faulty _ =>
    .closed room rfl rfl fun ⟨_, _, _, sound, _⟩ => faulty sound
  refine (ends_openFile_rdonly mounted standing call.now kernelTask call.path).imp ?_ ?_
  · rintro fd t ⟨inode, here, opens, holds⟩
    have leaks := opens.leaks_iff mounted sound room
    have known := readInode_ok standing.ok (standing.housed.inside here)
    have whole := readInodeData_whole standing here
    generalize v.inode inode.toNat = x at leaks known whole
    rw [ends_bind, ends_mapErr]
    -- Until it is closed, whatever ends the call leaves the descriptor open.
    refine ends_failing _ _ (fun sought => ?_) fun faulty _ => .leaking room holds (leaks.mpr (.inl faulty)) _
    refine (holds.ends_seek rfl mounted known .fileEnd rfl).imp ?_ ?_
    · rintro _ t ⟨rfl, short, holds⟩
      rw [ends_bind, ends_mapErr]
      have start : (0 : UInt64).toNat = SeekWhence.set.base x.size x.size := rfl
      refine ends_failing _ _ (fun started => ?_) fun faulty _ =>
        .leaking room holds (leaks.mpr (.inr (.inr (.inl faulty)))) _
      refine (holds.ends_seek rfl mounted known .set start).imp ?_ ?_
      · rintro _ t ⟨rfl, _, holds⟩
        rw [ends_bind]
        refine ends_zeroed _ _ _ _ _ ?_ ?_
        · rintro _ spare buffer size
          have stops (failed : call.faults.reading ≠ none ∨ Unreadable x) : s.Leaks room call :=
            leaks.mpr (.inr (.inr (.inr ⟨spare, failed⟩)))
          rw [size, ends_bind, ends_mapErr]
          refine ends_failing _ _ (fun fetched => ?_) fun faulty _ =>
            .leaking room holds (stops (.inl faulty)) _
          refine (holds.ends_read rfl rfl mounted others x.size.toNat).imp ?_ ?_
          · rintro bytes t ⟨done, pos, holds⟩
            -- The descriptor is closed before the length and the contents are looked at.
            rw [show (0 : UInt64).toNat = 0 from rfl] at done
            rw [done] at whole
            rw [ends_bind, ends_mapErr]
            refine (holds.ends_close rfl).imp ?_ fun _ _ => False.elim
            rintro _ t ⟨same, table⟩
            have kept : ¬s.Leaks room call := by
              rw [leaks]
              rintro (faulty | high | faulty | ⟨_, faulty | unreadable⟩)
              · exact faulty sought
              · omega
              · exact faulty started
              · exact faulty fetched
              · exact whole unreadable
            split
            · exact .closed room same table kept
            · rw [ends_observe]
              split
              · exact .closed room same table kept
              · exact .closed room same table kept
          · rintro _ t ⟨rfl, reason, failed, rfl⟩
            rw [show (0 : UInt64).toNat = 0 from rfl] at failed
            rw [failed] at whole
            obtain ⟨error, message⟩ := Failure.ofFs_calm whole.2
            rw [message]
            exact .leaking room holds (stops (.inr whole.1)) _
        · -- Without room the call panics, and does not return.
          rintro (full | high)
          · refine ⟨holds.mounted, fun leaking => ?_, ?_⟩
            · rcases leaks.mp leaking with faulty | high | faulty | ⟨spare, _⟩
              · exact (faulty sought).elim
              · omega
              · exact (faulty started).elim
              · cases full.symm.trans spare
            · rintro ⟨_, panics⟩
              cases panics
          · omega
      · rintro _ _ ⟨_, high, _⟩
        exact absurd high (by decide)
    · -- A negative size ends the call with the descriptor open.
      rintro _ _ ⟨rfl, high, rfl⟩
      exact .leaking room holds (leaks.mpr (.inr (.inl high))) _
  · rintro failure _ ⟨rfl, closed⟩
    refine .closed room rfl rfl ?_
    rintro ⟨w, i, found, _, opens, _⟩
    cases mounted.symm.trans found
    exact closed i opens

variable {room others load} {t : Files} {call : LoadCall}

theorem LoadCall.step_left (mounted : s.mounted = some v) (standing : NextFs.Standing live v)
    (taken : call.step room others load s = some t) : Left room s call True t := by
  have ends := ends_loadFromFile room others load mounted standing call
  unfold LoadCall.step at taken
  split at taken
  next result =>
    cases taken
    exact ends.of_ok result
  next message _ result =>
    cases taken
    have left := ends.of_error result
    exact ⟨left.mounted, fun _ => trivial, fun _ => left.same ⟨message, rfl⟩⟩
  next => cases taken

variable (others load) in
theorem LoadCall.step_returns (mounted : s.mounted = some v) (standing : NextFs.Standing live v)
    (leaks : s.Leaks room call) : ∃ t, call.step room others load s = some t := by
  have ends := ends_loadFromFile room others load mounted standing call
  unfold LoadCall.step
  cases result : loadFromFile room others load call.now call.faults call.path call.args call.envs s with
  | ok value t => exact ⟨t, rfl⟩
  | error failure t =>
    obtain ⟨message, rfl⟩ := (ends.of_error result).returns leaks
    exact ⟨t, rfl⟩

theorem LoadCall.step_unmounted (mounted : s.mounted = none)
    (taken : call.step room others load s = some t) : t = s := by
  -- Without a volume nothing is opened.
  have opened : Ends (openFile call.now kernelTask call.path .rdonly) s (fun _ _ => False)
    (fun _ t => t = s) := by
    rw [openFile_eq, ends_bind, openedInode, if_neg (by simp [OpenFlags.rdonly])]
    unfold resolvePath
    split
    · rfl
    · simp only [Ends, withFs, mounted]
  have ends : Ends (loadFromFile room others load call.now call.faults call.path call.args call.envs)
    s (fun _ _ => False)
      (fun _ t => t = s) := by
    rw [loadFromFile, ends_bind, ends_mapErr]
    exact ends_failing _ _ (fun _ => opened.imp (fun _ _ => False.elim) fun _ _ => id) fun _ _ => rfl
  unfold LoadCall.step at taken
  split at taken
  next result => exact (ends.of_ok result).elim
  next result =>
    cases taken
    exact ends.of_error result
  next => cases taken

theorem LoadCall.keeps_iff (standing : ∀ v, s.mounted = some v → NextFs.Standing live v) :
    (∀ t, call.step room others load s = some t → t.vfs.openIn kernelTask = s.vfs.openIn kernelTask) ↔
      ¬s.Leaks room call := by
  constructor
  · intro keeps leaks
    have ⟨v, _, mounted, _⟩ := leaks
    obtain ⟨t, taken⟩ := LoadCall.step_returns others load mounted (standing v mounted) leaks
    exact ((LoadCall.step_left mounted (standing v mounted) taken).same trivial).mp (keeps t taken) leaks
  · intro fine t taken
    cases mounted : s.mounted with
    | none => rw [LoadCall.step_unmounted mounted taken]
    | some v => exact ((LoadCall.step_left mounted (standing v mounted) taken).same trivial).mpr fine

theorem LoadCall.step_mounted (standing : ∀ v, s.mounted = some v → NextFs.Standing live v)
    (taken : call.step room others load s = some t) : t.mounted = s.mounted := by
  cases mounted : s.mounted with
  | none => rw [LoadCall.step_unmounted mounted taken, mounted]
  | some v => exact (LoadCall.step_left mounted (standing v mounted) taken).mounted.trans mounted

end Loads

/-- In every state that orderly calls lead to, a call leaves the descriptors of task 0 as they were
if and only if it does not leak. So after any number of calls that do not, task 0 has as much room
for descriptors as before. -/
theorem load_keeps_descriptors {live : Nat → Prop} {start s : Files}
    (standing : ∀ v, start.mounted = some v → NextFs.Standing live v)
    (run : Relation.ReflTransGen OrderlyCall start s)
    (room : Nat → Bool) (others : FileType → FilesM (List UInt8))
    (load : Elf.ElfBinary → Elf.Slice → List Name → List Name → Except Elf.Fail (UInt64 × UInt64)) :
    (∀ call : LoadCall, (∀ t, call.step room others load s = some t →
      t.vfs.openIn kernelTask = s.vfs.openIn kernelTask) ↔
      ¬s.Leaks room call) ∧
    ∀ t, Machine.Reaches (LoadCall.step room others load) (fun s call => ¬s.Leaks room call) s t →
      t.vfs.openIn kernelTask = s.vfs.openIn kernelTask ∧
      (t.vfs.NoRoom kernelTask ↔ s.vfs.NoRoom kernelTask) := by
  obtain ⟨live', standing'⟩ := orderly_of_run standing run
  refine ⟨fun call => LoadCall.keeps_iff standing', fun t loads => ?_⟩
  have same : t.mounted = s.mounted ∧ t.vfs.openIn kernelTask = s.vfs.openIn kernelTask := by
    refine loads.invariant (motive :=
      fun t => t.mounted = s.mounted ∧ t.vfs.openIn kernelTask = s.vfs.openIn kernelTask)
      ⟨rfl, rfl⟩ ?_
    rintro u call w ⟨mounted, table⟩ fine taken
    have standing'' : ∀ v, u.mounted = some v → NextFs.Standing live' v := fun v found =>
      standing' v (mounted ▸ found)
    exact ⟨(LoadCall.step_mounted standing'' taken).trans mounted,
      ((LoadCall.keeps_iff standing'').mpr fine w taken).trans table⟩
  exact ⟨same.2, noRoom_congr same.2⟩

/-- The volume with the file `/a` of two bytes, and the tables of the kernel alone. -/
def booted : Files where
  mounted := some noteVolume
  vfs := Vfs.initial.initTaskFds kernelTask

theorem booted_standing : ∀ v, booted.mounted = some v → NextFs.Standing noteVolume.InUse v := by
  rintro v found
  cases found
  exact noteVolume_standing

abbrev LoadCall.roomy : Files → LoadCall → Option Files :=
  LoadCall.step (fun _ => true) (fun _ => fail .invalidOperation) fun elf _ _ _ => .ok (elf.entry, 0)

/-- The file `/a` is no program. -/
theorem load_keeps_short :
    ∃ t, LoadCall.roomy booted { path := [slash, 0x61] } = some t ∧
    t.vfs.openIn kernelTask = booted.vfs.openIn kernelTask := by
  have evaluated : (LoadCall.roomy booted { path := [slash, 0x61] }).isSome = true ∧
      (match resolvePath [slash, 0x61] booted with
        | .ok inode _ => some inode
        | .error _ _ => none) = some 2 ∧
      (noteVolume.inode 2).isFile = true ∧ (noteVolume.inode 2).size = 2 := by decide +kernel
  obtain ⟨returned, path, file, size⟩ := evaluated
  obtain ⟨t, taken⟩ := Option.isSome_iff_exists.mp returned
  refine ⟨t, taken, ((load_keeps_descriptors booted_standing .refl _ _ _).1 { path := [slash, 0x61] }).mpr
    ?_ t taken⟩
  rintro ⟨v, inode, mounted, _, ⟨found, _⟩, leaks⟩
  cases mounted
  rw [found] at path
  cases path
  rw [show (2 : UInt32).toNat = 2 from rfl, LoadCall.Stops, size] at leaks
  rcases leaks with faulty | high | faulty | ⟨_, faulty | directory | ⟨large, _⟩⟩
  · exact faulty rfl
  · exact absurd high (by decide)
  · exact faulty rfl
  · exact faulty rfl
  · rw [file] at directory
    cases directory
  · rw [size] at large
    exact absurd large (by decide)

/-- Loading the root directory leaves a descriptor open, and after sixty-one such calls the file `/a`
cannot be opened. -/
theorem loads_fill_table :
    ∃ t u, LoadCall.roomy booted { path := [slash] } = some t ∧
    t.vfs.openIn kernelTask ≠ booted.vfs.openIn kernelTask ∧
      Machine.run LoadCall.roomy booted (List.replicate 61 { path := [slash] }) = some u ∧
      reason (openFile 0 kernelTask [slash, 0x61] .rdonly) u = some (.vfs (.error .tooManyFiles)) := by
  have evaluated :
      ((LoadCall.roomy booted { path := [slash] }).map fun t => (t.vfs.openIn kernelTask).map fun files =>
        files.entries.length) =
        some (some 4) ∧
      ((booted.vfs.openIn kernelTask).map fun files => files.entries.length) = some 3 ∧
      ((Machine.run LoadCall.roomy booted (List.replicate 61 { path := [slash] })).map
        (reason (openFile 0 kernelTask [slash, 0x61] .rdonly))) =
          some (some (.vfs (.error .tooManyFiles))) := by decide +kernel
  obtain ⟨first, before, last⟩ := evaluated
  obtain ⟨t, taken, more⟩ := Option.map_eq_some_iff.mp first
  obtain ⟨u, done, full⟩ := Option.map_eq_some_iff.mp last
  refine ⟨t, u, taken, fun same => ?_, done, full⟩
  rw [same, before] at more
  cases more

end PickleOS.Fs
