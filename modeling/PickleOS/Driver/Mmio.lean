import PickleOS.Capabilities.Model
import PickleOS.Shared.Machine

set_option autoImplicit false

/-!
# Accesses to memory-mapped devices

Tasks are preempted inside a `KernelIoGuard` scope, in particular while a disk is waited for.
-/

namespace PickleOS.Driver.Mmio

open Shared Shared.Machine Capabilities

structure State where
  tables : Tables
  /-- `KERNEL_IO_DEPTH`. There are never as many guards as a `usize` can count. -/
  kernelIoDepth : Nat
  /-- Ghost: the task of every guard that has not been dropped. -/
  inside : List TaskId

namespace State

variable (s : State)

def inKernelIo : Bool := 0 < s.kernelIoDepth

/-- The test of one object. `phys_base + len` wraps, `checked_add` does not. -/
def covers (physAddr : UInt64) (size : Nat) : Object → Bool
  | .mmio physBase len =>
    physBase ≤ physAddr && (physAddr.toNat + size < UInt64.size &&
      physAddr.toNat + size ≤ (physBase + len).toNat)
  | _ => false

def checkMmioCap (task : TaskId) (physAddr : UInt64) (size : Nat) (needed : Rights) : Bool :=
  if s.inKernelIo then true else (s.tables.findObject task needed (covers physAddr size)).isSome

/-- An accessor, for the task that runs. `mapped` is whether `ensure_mmio_mapped` finds or makes a
mapping. -/
def access (size : Nat) (needed : Rights) (refusal : String) (task : TaskId) (physAddr : UInt64)
    (mapped : Bool) :
    Except String Unit :=
  if !s.checkMmioCap task physAddr size needed then .error refusal
  else if !mapped then .error "failed to map MMIO"
  else .ok ()

def readU8 := s.access 1 .read "no MMIO read capability"
def readU16 := s.access 2 .read "no MMIO read capability"
def readU32 := s.access 4 .read "no MMIO read capability"
def readU64 := s.access 8 .read "no MMIO read capability"
def writeU8 := s.access 1 .write "no MMIO write capability"
def writeU16 := s.access 2 .write "no MMIO write capability"
def writeU32 := s.access 4 .write "no MMIO write capability"
def writeU64 := s.access 8 .write "no MMIO write capability"

end State

inductive Width where
  | u8
  | u16
  | u32
  | u64
  deriving DecidableEq

def Width.size : Width → Nat
  | .u8 => 1
  | .u16 => 2
  | .u32 => 4
  | .u64 => 8

inductive Direction where
  | read
  | write
  deriving DecidableEq

def Direction.needed : Direction → Rights
  | .read => .read
  | .write => .write

def State.run (s : State) : Direction → Width → TaskId → UInt64 → Bool → Except String Unit
  | .read, .u8 => s.readU8
  | .read, .u16 => s.readU16
  | .read, .u32 => s.readU32
  | .read, .u64 => s.readU64
  | .write, .u8 => s.writeU8
  | .write, .u16 => s.writeU16
  | .write, .u32 => s.writeU32
  | .write, .u64 => s.writeU64

inductive Action where
  /-- `KernelIoGuard::enter`. -/
  | enter (task : TaskId)
  /-- The guard is dropped. -/
  | leave (task : TaskId)
  | access (task : TaskId) (direction : Direction) (width : Width) (physAddr : UInt64) (mapped : Bool)
  | mint (task : TaskId) (object : Object) (rights : Rights)

def State.initial (tables : Tables) : State := { tables := tables, kernelIoDepth := 0, inside := [] }

def step (s : State) : Action → Option State
  | .enter task => some { s with kernelIoDepth := s.kernelIoDepth + 1, inside := task :: s.inside }
  | .leave task =>
    if task ∈ s.inside then
      some { s with kernelIoDepth := s.kernelIoDepth - 1, inside := s.inside.erase task }
    else none
  | .access .. => some s
  | .mint task object rights => some { s with tables := (s.tables.mint task object rights).2 }

/-- A capability of the task for all of `[physAddr, physAddr + size)`. -/
def Holds (s : State) (task : TaskId) (physAddr : UInt64) (size : Nat) (needed : Rights) : Prop :=
  ∃ slot rights physBase len, s.tables.lookupSlot task slot = some ⟨.mmio physBase len, rights⟩ ∧
  rights.contains needed ∧
    physBase.toNat ≤ physAddr.toNat ∧ physAddr.toNat + size ≤ physBase.toNat + len.toNat

/-- A task that is outside of every scope makes an access only when all are. -/
def undisturbed (s : State) : Action → Bool
  | .access task .. => task ∈ s.inside || s.inside.isEmpty
  | _ => true

theorem covers_mmio {physAddr physBase len : UInt64} {size : Nat}
    (covered : State.covers physAddr size (.mmio physBase len)) :
    physBase.toNat ≤ physAddr.toNat ∧ physAddr.toNat + size ≤ physBase.toNat + len.toNat := by
  -- The range that a capability covers ends where it says, also if `phys_base + len` wraps.
  simp only [State.covers, Bool.and_eq_true, decide_eq_true_eq, UInt64.le_iff_toNat_le, UInt64.toNat_add]
    at covered
  have := Nat.mod_le (physBase.toNat + len.toNat) (2 ^ 64)
  omega

theorem run_eq (s : State) (direction : Direction) (width : Width) :
    ∃ refusal, s.run direction width = s.access width.size direction.needed refusal := by
  cases direction <;> cases width <;> exact ⟨_, rfl⟩

theorem run_ok {s : State} {direction : Direction} {width : Width} {task : TaskId} {physAddr : UInt64}
    {mapped : Bool} :
    s.run direction width task physAddr mapped = .ok () ↔
      s.checkMmioCap task physAddr width.size direction.needed ∧ mapped := by
  obtain ⟨refusal, same⟩ := run_eq s direction width
  rw [same, State.access]
  cases s.checkMmioCap task physAddr width.size direction.needed <;> cases mapped <;> simp

theorem holds_of_found {s : State} {task : TaskId} {physAddr : UInt64} {size : Nat} {needed : Rights}
    (found : (s.tables.findObject task needed (State.covers physAddr size)).isSome) :
      Holds s task physAddr size needed := by
  obtain ⟨slot, ⟨object, rights⟩, here, contains, covered⟩ := Tables.findObject_isSome.mp found
  cases object with
  | mmio physBase len => exact ⟨slot, rights, physBase, len, here, contains, covers_mmio covered⟩
  | _ => cases covered

def Counted (s : State) : Prop := s.kernelIoDepth = s.inside.length

theorem counted_step {s t : State} {a : Action} (counted : Counted s) (taken : step s a = some t) :
    Counted t := by
  unfold Counted at *
  cases a with
  | enter task =>
    cases taken
    simp [counted]
  | leave task =>
    simp only [step, Option.ite_none_right_eq_some, Option.some.injEq] at taken
    obtain ⟨member, rfl⟩ := taken
    simp [counted, List.length_erase_of_mem member]
  | access =>
    cases taken
    exact counted
  | mint =>
    cases taken
    exact counted

/-- Whoever makes an access is inside a scope itself or holds a capability, as long as nobody else
is inside one. While somebody is, the access of any other task goes through whatever it holds. -/
theorem access_authorized {tables : Tables} {s : State}
    (reached : Reaches step (fun s a => undisturbed s a = true) (.initial tables) s) :
    (∀ task direction width physAddr mapped, undisturbed s (.access task direction width physAddr mapped) →
      s.run direction width task physAddr mapped = .ok () →
      task ∈ s.inside ∨ Holds s task physAddr width.size direction.needed) ∧
    ∀ task direction width physAddr, ¬undisturbed s (.access task direction width physAddr true) →
      s.run direction width task physAddr true = .ok () := by
  have counted : Counted s := by
    refine reached.invariant ?_ fun s a t counted _ taken => counted_step counted taken
    rfl
  unfold Counted at counted
  constructor
  · intro task direction width physAddr mapped alone passed
    by_cases own : task ∈ s.inside
    · exact .inl own
    · right
      have nobody : s.inside = [] := by simpa [undisturbed, own] using alone
      have checked := (run_ok.mp passed).1
      simp only [State.checkMmioCap, State.inKernelIo, counted, nobody, List.length_nil, Nat.lt_irrefl,
        decide_false,
        Bool.false_eq_true, if_false] at checked
      exact holds_of_found checked
  · intro task direction width physAddr disturbed
    have somebody : s.inside ≠ [] := by
      intro nobody
      simp [undisturbed, nobody] at disturbed
    have deep : s.inKernelIo := by simpa [State.inKernelIo, counted, List.length_pos_iff] using somebody
    exact run_ok.mpr ⟨by simp [State.checkMmioCap, deep], rfl⟩

theorem access_authorized_driver :
    ∃ s, replay step (fun s a => undisturbed s a = true) (.initial ∅)
        [.mint 2 (.mmio 0xFEB00000 0x1000) .read, .enter 1, .access 1 .write .u32 0xFEC00000 true,
        .leave 1] = some s ∧
      s.run .read .u32 2 0xFEB00FFC true = .ok () ∧ (2 ∈ s.inside ∨ Holds s 2 0xFEB00FFC 4 .read) := by
  have result : (replay step (fun s a => undisturbed s a = true) (.initial ∅)
      [.mint 2 (.mmio 0xFEB00000 0x1000) .read, .enter 1, .access 1 .write .u32 0xFEC00000 true, .leave 1]).map
        (fun s => (s.inside, s.checkMmioCap 2 0xFEB00FFC 4 .read)) = some ([], true) := by decide
  simp only [Option.map_eq_some_iff, Prod.mk.injEq] at result
  obtain ⟨s, done, nobody, checked⟩ := result
  have passed : s.run .read .u32 2 0xFEB00FFC true = .ok () := run_ok.mpr ⟨checked, rfl⟩
  exact ⟨s, done, passed, (access_authorized (.of_replay (fun _ _ => id) .start done)).1
    2 .read .u32 0xFEB00FFC true
    (by simp [undisturbed, nobody]) passed⟩

/-- While task 1 waits for the disk, task 2 writes to any device. -/
theorem guard_lends_authority :
    ∃ s, run step (.initial ∅) [.enter 1] = some s ∧ s.run .write .u32 2 0xFEC00000 true = .ok () ∧
    2 ∉ s.inside ∧
      ∀ slot, s.tables.lookupSlot 2 slot = none := by
  refine ⟨_, rfl, rfl, by decide, fun slot => rfl⟩

end PickleOS.Driver.Mmio
