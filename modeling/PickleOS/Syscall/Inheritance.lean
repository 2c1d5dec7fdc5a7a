import PickleOS.Syscall.Dispatch

set_option autoImplicit false

namespace PickleOS.Capabilities

/-- The child has each role of the parent, with the same rights at least. -/
def Tables.Inherits (t : Tables) (parent child : TaskId) : Prop :=
  ∀ slot role rights, t.lookupSlot parent slot = some ⟨.role role, rights⟩ →
    ∃ slot' rights', t.lookupSlot child slot' = some ⟨.role role, rights'⟩ ∧ rights'.contains rights

namespace Tables

variable {t : Tables}

theorem checkRole_iff {task : TaskId} {role : UInt64} {needed : Rights} :
    t.checkRole task role needed ↔
      ∃ slot rights, t.lookupSlot task slot = some ⟨.role role, rights⟩ ∧ rights.contains needed := by
  unfold checkRole
  rw [findObject_isSome]
  constructor
  · rintro ⟨slot, ⟨object, rights⟩, found, fine, named⟩
    have same : object = .role role := of_decide_eq_true named
    subst same
    exact ⟨slot, rights, found, fine⟩
  · rintro ⟨slot, rights, found, fine⟩
    exact ⟨slot, _, found, fine, by simp⟩

theorem inherits_iff {parent child : TaskId} :
    (∀ role needed, t.checkRole parent role needed → t.checkRole child role needed) ↔
      t.Inherits parent child := by
  constructor
  · intro passes slot role rights found
    -- Of all tests on the role, the one for the very rights is the hardest that the parent passes.
    have hardest := passes role rights (checkRole_iff.mpr ⟨slot, rights, found, Rights.contains_refl rights⟩)
    exact checkRole_iff.mp hardest
  · intro inherits role needed passed
    obtain ⟨slot, rights, found, fine⟩ := checkRole_iff.mp passed
    obtain ⟨slot', rights', found', more⟩ := inherits slot role rights found
    exact checkRole_iff.mpr ⟨slot', rights', found', Rights.contains_trans more fine⟩

end Tables

end PickleOS.Capabilities

namespace PickleOS.Syscall

open Shared Capabilities Fs

variable {env : Surroundings} {caller : Capabilities.TaskId} {f : SyscallFrame} {s : System}

theorem dispatch_fork (number : f.number = some .fork) (spawns : s.permits caller roleSpawn)
    (user : (env.tasks.me.bind (·.userCr3)).isSome) :
    dispatch env caller f s = (.returns (UInt64.ofNat env.tasks.nextId),
      s.withVfs (s.files.vfs.cloneTaskFds (taskKey caller) (taskKey env.tasks.nextId))) := by
  unfold dispatch
  simp only [number]
  unfold System.sysFork
  rw [if_neg (by simp [spawns]), if_neg (by simpa [Option.isNone_iff_eq_none, Option.isSome_iff_ne_none]
    using user)]

/-- The path of the call can be read, and is one. -/
def Surroundings.names (env : Surroundings) (f : SyscallFrame) : Prop :=
  env.refuses f.rdi f.rsi = false ∧ ∃ path, env.bytes f.rdi f.rsi = some path ∧ Utf8.valid path

/-- Whatever `do_exec` may answer, the call answers the same. -/
def Executes (env : Surroundings) (caller : Capabilities.TaskId) (f : SyscallFrame) (s : System) : Prop :=
  ∀ answer, (dispatch { env with answer } caller f s).1 = .returns answer

theorem executes_iff (number : f.number = some .exec) (names : env.names f) :
    Executes env caller f s ↔ s.permits caller roleFileSystem := by
  obtain ⟨accepted, path, read, valid⟩ := names
  have call : ∀ answer, dispatch { env with answer } caller f s =
      if !s.permits caller roleFileSystem then s.unchanged failure else s.unchanged answer := by
    intro answer
    have accepted' : Surroundings.refuses { env with answer } f.rdi f.rsi = false := accepted
    have read' : Surroundings.bytes { env with answer } f.rdi f.rsi = some path := read
    unfold dispatch
    simp only [number]
    unfold System.sysExec System.onPath
    simp only [accepted', read', valid, Bool.false_eq_true, if_false, if_true]
  unfold Executes
  cases permitted : s.permits caller roleFileSystem with
  | true => simp [call, permitted, System.unchanged]
  | false =>
    -- The call fails whatever the answer is.
    have refused := call 0
    simp only [permitted, System.unchanged] at refused
    simp only [iff_false, not_forall, Bool.false_eq_true]
    exact ⟨0, by simp [refused, failure]⟩

/-- After a fork the child passes the tests on roles that its parent passes, and gets to `do_exec`
with every path, if and only if the table that is kept under its id has the parent's roles already.
-/
theorem fork_inherits_iff (number : f.number = some .fork) (spawns : s.permits caller roleSpawn)
    (execs : s.permits caller roleFileSystem) (user : (env.tasks.me.bind (·.userCr3)).isSome) :
    let child := env.tasks.nextId
    let after := (dispatch env caller f s).2
    (dispatch env caller f s).1 = .returns (UInt64.ofNat child) ∧
      (((∀ role needed, s.caps.checkRole caller role needed → after.caps.checkRole child role needed) ∧
          ∀ env' f', f'.number = some .exec → env'.names f' → Executes env' child f' after) ↔
        s.caps.Inherits caller child) := by
  intro child after
  have forked := dispatch_fork number spawns user
  have caps : after.caps = s.caps := by
    dsimp only [after]
    rw [forked]
    rfl
  refine ⟨by rw [forked], ?_⟩
  rw [caps, Tables.inherits_iff]
  refine and_iff_left_of_imp fun inherits env' f' number' names => ?_
  rw [executes_iff number' names, System.permits, caps]
  exact Tables.inherits_iff.mpr inherits _ _ execs

/-- A shell, and a program that reads its path from memory. -/
def forkingTasks : Tasks.Scheduler :=
  { Tasks.Scheduler.initial with
    tasks := [{ id := 1, state := .running, ring := .user, userCr3 := some 7 }]
    nextId := 2 }

def forkingEnv : Surroundings where
  tasks := forkingTasks
  handlers _ _ := 0
  load _ := some 0x2F
  now := 0
  answer := 0

/-- What `create_table` and `mint` at boot leave the shell with. -/
def forkingSystem : System where
  files := { mounted := none, vfs := Vfs.initial.initTaskFds 1 }
  caps := ((Tables.mint ∅ 1 (.role roleSpawn) .all).2.mint 1 (.role roleFileSystem) .all).2

def forkCall : SyscallFrame := { rax := 28, rdi := 0, rsi := 0, rdx := 0 }

def execCall : SyscallFrame := { rax := 27, rdi := 0x1000, rsi := 4, rdx := 0 }

/-- Both roles have been granted to the next id in advance. -/
def preparedSystem : System :=
  { forkingSystem with
    caps := ((forkingSystem.caps.mint 2 (.role roleFileSystem) .all).2.mint 2 (.role roleSpawn) .all).2 }

theorem prepared_inherits : preparedSystem.caps.Inherits 1 2 := by
  intro slot role rights found
  match slot with
  | 0 =>
    cases found
    exact ⟨1, .all, by decide, by decide⟩
  | 1 =>
    cases found
    exact ⟨0, .all, by decide, by decide⟩
  | _ + 2 => cases found

theorem fork_inherits_iff_prepared : Executes forkingEnv 2 execCall
    (dispatch forkingEnv 1 forkCall preparedSystem).2 := by
  have spawns : preparedSystem.permits 1 roleSpawn := by decide
  have execs : preparedSystem.permits 1 roleFileSystem := by decide
  have user : (forkingEnv.tasks.me.bind (·.userCr3)).isSome := by decide
  have inherited := fork_inherits_iff (f := forkCall) rfl spawns execs user
  exact (inherited.2.mpr prepared_inherits).2 forkingEnv execCall rfl ⟨by decide, _, rfl, by decide⟩

/-- The child holds nothing, so `exec` fails. -/
theorem fork_powerless :
    forkingSystem.permits 1 roleSpawn ∧ forkingSystem.permits 1 roleFileSystem ∧
      (dispatch forkingEnv 1 forkCall forkingSystem).1 = .returns 2 ∧
      (dispatch forkingEnv 1 forkCall forkingSystem).2.permits 2 roleFileSystem = false ∧
      (dispatch forkingEnv 2 execCall (dispatch forkingEnv 1 forkCall forkingSystem).2).1 =
        .returns failure := by
  decide

end PickleOS.Syscall
