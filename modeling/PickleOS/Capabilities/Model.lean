import PickleOS.Shared.Map
import PickleOS.Shared.Slots

set_option autoImplicit false

namespace PickleOS.Capabilities

open Shared

abbrev TaskId := Nat

inductive Object where
  | endpoint (id : UInt64)
  | memory (base len : UInt64)
  | irq (line : UInt8)
  | port (base count : UInt16)
  | mmio (physBase len : UInt64)
  | role (id : UInt64)
  deriving DecidableEq

structure Rights where
  bits : UInt32
  deriving DecidableEq

namespace Rights

def none : Rights := ⟨0⟩
def send : Rights := ⟨1⟩
def recv : Rights := ⟨2⟩
def read : Rights := ⟨4⟩
def write : Rights := ⟨8⟩
def grant : Rights := ⟨16⟩
def all : Rights := ⟨31⟩

def intersect (r s : Rights) : Rights := ⟨r.bits &&& s.bits⟩

def contains (r needed : Rights) : Bool := r.bits &&& needed.bits == needed.bits

theorem contains_intersect (r s : Rights) : r.contains (r.intersect s) := by
  simp only [contains, intersect, beq_iff_eq]
  rw [← UInt32.and_assoc, UInt32.and_self]

theorem contains_refl (r : Rights) : r.contains r := by
  simp [contains]

theorem contains_trans {r s t : Rights} (upper : r.contains s) (lower : s.contains t) : r.contains t := by
  simp only [contains, beq_iff_eq] at *
  calc r.bits &&& t.bits
      = r.bits &&& (s.bits &&& t.bits) := by rw [lower]
    _ = (r.bits &&& s.bits) &&& t.bits := by rw [UInt32.and_assoc]
    _ = t.bits := by rw [upper, lower]

end Rights

def roleSpawn : UInt64 := 1
def roleFileSystem : UInt64 := 2
def roleKill : UInt64 := 3
def roleNetwork : UInt64 := 4
def roleWindowServer : UInt64 := 5

structure Capability where
  object : Object
  rights : Rights
  deriving DecidableEq

abbrev CapTable := Slots Capability

abbrev Tables := Map TaskId CapTable

namespace Tables

variable (t : Tables)

/-- `t.entry(task_id).or_insert_with(CapTable::new)`. -/
def entry (task : TaskId) : CapTable := (t.lookup task).getD []

def createTable (task : TaskId) : Tables := AList.insert task (t.entry task) t

/-- `CapTable::insert` into the table of a task: the slot, and the new tables. -/
def insertCap (task : TaskId) (cap : Capability) : Nat × Tables :=
  let inserted := (t.entry task).insert cap
  (inserted.1, AList.insert task inserted.2 t)

def mint (task : TaskId) (object : Object) (rights : Rights) : Nat × Tables := t.insertCap task ⟨object, rights⟩

def findObject (task : TaskId) (needed : Rights) (pred : Object → Bool) : Option Capability :=
  (t.lookup task).bind fun table =>
    (table.filterMap id).find? fun cap => cap.rights.contains needed && pred cap.object

def lookupSlot (task : TaskId) (slot : Nat) : Option Capability :=
  (t.lookup task).bind fun table => table.look slot

def check (task : TaskId) (slot : Nat) (needed : Rights) : Bool :=
  match t.lookupSlot task slot with
  | some cap => cap.rights.contains needed
  | none => false

def checkRole (task : TaskId) (role : UInt64) (needed : Rights) : Bool :=
  (t.findObject task needed fun object => object = .role role).isSome

/-- The first section of `grant`: what is to be granted, if it is permitted. -/
def grantLookup (fromTask : TaskId) (fromSlot : Nat) (newRights : Rights) : Option Capability :=
  match t.lookupSlot fromTask fromSlot with
  | none => none
  | some source =>
    if !source.rights.contains .grant then none
    else some ⟨source.object, source.rights.intersect newRights⟩

def revoke (task : TaskId) (slot : Nat) : Option Capability × Tables :=
  match t.lookup task with
  | none => (none, t)
  | some table => (table.look slot, AList.insert task (table.remove slot) t)

section Lookup

variable {t}

theorem lookupSlot_insert (task : TaskId) (table : CapTable) :
    lookupSlot (AList.insert task table t) = Function.update t.lookupSlot task table.look := by
  funext task' slot
  unfold lookupSlot
  rw [Map.lookup_insert_eq]
  by_cases own : task' = task
  · subst own
    simp
  · simp [own]

theorem look_entry (task : TaskId) : (t.entry task).look = t.lookupSlot task := by
  funext slot
  unfold entry lookupSlot
  cases t.lookup task <;> rfl

def put (f : TaskId → Nat → Option Capability) (task : TaskId) (slot : Nat) (content : Option Capability) :
    TaskId → Nat → Option Capability :=
  Function.update f task (Function.update (f task) slot content)

@[simp] theorem lookupSlot_createTable (task : TaskId) : (t.createTable task).lookupSlot = t.lookupSlot := by
  rw [createTable, lookupSlot_insert, look_entry, Function.update_eq_self]

theorem lookupSlot_insertCap (task : TaskId) (cap : Capability) :
    (t.insertCap task cap).2.lookupSlot = put t.lookupSlot task (t.insertCap task cap).1 (some cap) := by
  simp only [insertCap, lookupSlot_insert, Slots.look_insert, look_entry, put]

theorem insertCap_free (task : TaskId) (cap : Capability) :
    t.lookupSlot task (t.insertCap task cap).1 = none := by
  rw [← look_entry]
  exact Slots.look_insert_free _ cap

theorem lookupSlot_revoke (task : TaskId) (slot : Nat) :
    (t.revoke task slot).2.lookupSlot = put t.lookupSlot task slot none := by
  unfold revoke
  cases present : t.lookup task with
  | none =>
    have empty : t.lookupSlot task slot = none := by simp [lookupSlot, present]
    simp [put, ← empty]
  | some table =>
    have same : t.lookupSlot task = table.look := by
      funext slot
      simp [lookupSlot, present]
    simp only [lookupSlot_insert, Slots.look_remove, put, same]

theorem findObject_isSome {task : TaskId} {needed : Rights} {pred : Object → Bool} :
    (t.findObject task needed pred).isSome ↔
      ∃ slot cap, t.lookupSlot task slot = some cap ∧ cap.rights.contains needed ∧ pred cap.object := by
  unfold findObject lookupSlot
  cases t.lookup task with
  | none => simp
  | some table =>
    simp only [Option.bind_some, List.find?_isSome, List.mem_filterMap, id, exists_eq_right, Bool.and_eq_true]
    constructor
    · rintro ⟨cap, member, fine⟩
      obtain ⟨slot, inside, here⟩ := List.mem_iff_getElem.mp member
      exact ⟨slot, cap, by simp [Slots.look, inside, here], fine⟩
    · rintro ⟨slot, cap, found, fine⟩
      have here : table[slot]? = some (some cap) := by simpa [Slots.look, Option.join_eq_some_iff] using found
      exact ⟨cap, List.mem_of_getElem? here, fine⟩

end Lookup

end Tables

end PickleOS.Capabilities
