import PickleOS.Memory.AddressSpace

set_option autoImplicit false

/-!
# Accesses of the kernel

The kernel dereferences addresses in ring 0, through the tables of the current address space. A
fault there is answered by a panic.
-/

namespace PickleOS.Memory

/-- Bits 47 to 63 are equal. -/
def Canonical (addr : Nat) : Prop := addr < 2 ^ 47 ∨ 2 ^ 64 - 2 ^ 47 ≤ addr

instance (addr : Nat) : Decidable (Canonical addr) := by unfold Canonical; infer_instance

def kernelRead (_ : Flags) : Bool := true

/-- Ring 0 ignores the WRITABLE bit unless CR0.WP is set. -/
def kernelWrite (writeProtect : Bool) (flags : Flags) : Bool := flags.writable || !writeProtect

structure Ring0 where
  writeProtect : Bool
  cr3 : Frame
  memory : MemoryManager
  writes : List Nat

namespace Ring0

variable {k k' : Ring0} {addr : Nat} {value : UInt8} {bytes : List UInt8}

def load (k : Ring0) (addr : Nat) : Option UInt8 :=
  if Canonical addr then
    (k.memory.access kernelRead k.cr3 (addr / 4096)).map fun f => k.memory.byte f (addr % 4096)
  else none

def store (k : Ring0) (addr : Nat) (value : UInt8) : Option Ring0 :=
  if Canonical addr then
    (k.memory.access (kernelWrite k.writeProtect) k.cr3 (addr / 4096)).map fun f =>
      { k with memory := k.memory.setByte f (addr % 4096) value, writes := k.writes ++ [addr] }
  else none

def storeBytes (k : Ring0) : Nat → List UInt8 → Option Ring0
  | _, [] => some k
  | addr, value :: rest => (k.store addr value).bind fun k => k.storeBytes ((addr + 1) % 2 ^ 64) rest

def Writable (k : Ring0) (addr : Nat) : Prop :=
  Canonical addr ∧ (k.memory.access (kernelWrite k.writeProtect) k.cr3 (addr / 4096)).isSome = true

def UserAddress (k : Ring0) (addr : Nat) : Prop :=
  addr < USER_SPACE_MAX ∧ (k.memory.access userRead k.cr3 (addr / 4096)).isSome = true

theorem store_isSome : (k.store addr value).isSome = true ↔ k.Writable addr := by
  unfold store Writable
  by_cases canonical : Canonical addr <;> simp [canonical]

theorem store_same (done : k.store addr value = some k') :
    k'.writes = k.writes ++ [addr] ∧ (∀ a, k'.Writable a ↔ k.Writable a) ∧ ∀ a, k'.UserAddress a ↔
      k.UserAddress a := by
  -- A store leaves the tables alone.
  unfold store at done
  split at done
  · simp only [Option.map_eq_some_iff] at done
    obtain ⟨f, _, rfl⟩ := done
    simp [Writable, UserAddress, access_setByte]
  · simp at done

theorem storeBytes_isSome (bound : addr < 2 ^ 64) :
    (k.storeBytes addr bytes).isSome = true ↔ ∀ i, i < bytes.length → k.Writable ((addr + i) % 2 ^ 64) := by
  induction bytes generalizing addr k with
  | nil => simp [storeBytes]
  | cons value rest ih =>
    have first : (addr + 0) % 2 ^ 64 = addr := by omega
    have later (i : Nat) : ((addr + 1) % 2 ^ 64 + i) % 2 ^ 64 = (addr + (i + 1)) % 2 ^ 64 := by omega
    cases done : k.store addr value with
    | none =>
      have off : ¬k.Writable addr := by
        rw [← @store_isSome k addr value, done]
        simp
      simp only [storeBytes, done, Option.bind_none, Option.isSome_none, Bool.false_eq_true, false_iff,
        not_forall]
      exact ⟨0, by simp, by rwa [first]⟩
    | some k₁ =>
      have on : k.Writable addr := by
        rw [← @store_isSome k addr value, done]
        rfl
      have same := (store_same done).2.1
      simp only [storeBytes, done, Option.bind_some, ih (Nat.mod_lt _ (by decide)), later, same,
        List.length_cons]
      constructor
      · intro rest_on i small
        cases i with
        | zero => rwa [first]
        | succ i => exact rest_on i (by omega)
      · exact fun all i small => all (i + 1) (by omega)

theorem storeBytes_same (bound : addr < 2 ^ 64) (done : k.storeBytes addr bytes = some k') :
    k'.writes = k.writes ++ (List.range bytes.length).map (fun i => (addr + i) % 2 ^ 64) ∧
      ∀ a, k'.UserAddress a ↔ k.UserAddress a := by
  induction bytes generalizing addr k with
  | nil =>
    cases done
    simp
  | cons value rest ih =>
    simp only [storeBytes, Option.bind_eq_some_iff] at done
    obtain ⟨k₁, first, done⟩ := done
    have same := store_same first
    have next := ih (Nat.mod_lt _ (by decide)) done
    refine ⟨?_, fun a => (next.2 a).trans (same.2.2 a)⟩
    have here : addr % 2 ^ 64 = addr := Nat.mod_eq_of_lt bound
    have later (i : Nat) : ((addr + 1) % 2 ^ 64 + i) % 2 ^ 64 = (addr + (i + 1)) % 2 ^ 64 := by omega
    simp only [next.1, same.1, later, List.length_cons, List.range_succ_eq_map, List.map_cons,
      List.map_map, Function.comp_def,
      Nat.add_zero, here, List.append_assoc, List.singleton_append, Nat.succ_eq_add_one]

end Ring0

end PickleOS.Memory
