import Mathlib.Logic.Function.Basic
import Mathlib.Algebra.Group.Nat.Defs
import Mathlib.Data.List.Nodup

set_option autoImplicit false

/-!
# Physical frames and page tables

A frame is named by its number, a physical address divided by 4096. The physical-memory window,
through which the kernel reaches every frame, is the state itself: frames that hold page tables are
read through `table`, frames that hold data through `byte`.
-/

namespace PickleOS.Memory

abbrev Frame := Nat

/-- `PageTableFlags`, of which the kernel and the CPU look at these. -/
structure Flags where
  present : Bool := false
  writable : Bool := false
  user : Bool := false
  huge : Bool := false
  /-- `COW_FLAG`, bit 9, which the CPU ignores. -/
  cow : Bool := false
  noExecute : Bool := false
  deriving DecidableEq

namespace Flags

def union (a b : Flags) : Flags where
  present := a.present || b.present
  writable := a.writable || b.writable
  user := a.user || b.user
  huge := a.huge || b.huge
  cow := a.cow || b.cow
  noExecute := a.noExecute || b.noExecute

/-- The flags that a mapper passes on to the tables above a page. -/
def parent (flags : Flags) : Flags :=
  { present := flags.present, writable := flags.writable, user := flags.user }

/-- `(flags & !WRITABLE) | COW_FLAG`. -/
def shared (flags : Flags) : Flags := { flags with writable := false, cow := true }

/-- `new_flags.insert(WRITABLE); new_flags.remove(COW_FLAG)`. -/
def resolved (flags : Flags) : Flags := { flags with writable := true, cow := false }

end Flags

/-- `PageTableEntry`. -/
structure Entry where
  frame : Frame
  flags : Flags
  deriving DecidableEq

def Entry.unused : Entry := ⟨0, {}⟩

def Entry.IsUnused (e : Entry) : Prop := e = .unused

instance (e : Entry) : Decidable e.IsUnused := by unfold Entry.IsUnused; infer_instance

inductive MemoryRegionKind where
  | usable
  | bootloader
  | other
  deriving DecidableEq

/-- A region of physical memory, by its first address and the address after its last one. -/
structure MemoryRegion where
  start : Nat
  stop : Nat
  kind : MemoryRegionKind

def DMA_POOL_PHYS_BASE : Nat := 64 * 1024 * 1024
def DMA_POOL_SIZE : Nat := 8 * 1024 * 1024

structure BootInfoFrameAllocator where
  memoryMap : List MemoryRegion
  /-- A `usize`, which stays below 2^64 as long as fewer calls have been made. -/
  next : Nat

namespace BootInfoFrameAllocator

/-- `(r.start..r.end).step_by(4096)`. -/
def addresses (r : MemoryRegion) : List Nat :=
  (List.range ((r.stop - r.start + 4095) / 4096)).map fun i => r.start + i * 4096

def usableFrames (a : BootInfoFrameAllocator) : List Frame :=
  let regions := a.memoryMap.filter fun r => r.kind = .usable
  let frameAddresses := regions.flatMap addresses
  (frameAddresses.filter fun addr =>
    addr < DMA_POOL_PHYS_BASE ∨ DMA_POOL_PHYS_BASE + DMA_POOL_SIZE ≤ addr).map fun addr => addr / 4096

end BootInfoFrameAllocator

structure MemoryManager where
  table : Frame → Nat → Entry
  byte : Frame → Nat → UInt8
  frameAllocator : BootInfoFrameAllocator
  userPageTables : List Frame
  /-- `scheduler::kernel_cr3()`. -/
  kernelCr3 : Frame

namespace MemoryManager

variable (m : MemoryManager)

def allocateFrame : Option Frame × MemoryManager :=
  (m.frameAllocator.usableFrames[m.frameAllocator.next]?,
    { m with frameAllocator := { m.frameAllocator with next := m.frameAllocator.next + 1 } })

def setEntry (t : Frame) (slot : Nat) (e : Entry) : MemoryManager :=
  { m with table := Function.update m.table t (Function.update (m.table t) slot e) }

/-- `write_bytes(ptr, 0, 1)` on a page table. -/
def zeroTable (t : Frame) : MemoryManager := { m with table := Function.update m.table t fun _ => .unused }

def setPage (f : Frame) (contents : Nat → UInt8) : MemoryManager :=
  { m with byte := Function.update m.byte f contents }

def setByte (f : Frame) (offset : Nat) (value : UInt8) : MemoryManager :=
  m.setPage f (Function.update (m.byte f) offset value)

/-- `write_bytes(ptr, 0, 4096)` on a data frame. -/
def zeroPage (f : Frame) : MemoryManager := m.setPage f fun _ => 0

/-- `copy_nonoverlapping(src, dst, 4096)`. -/
def copyPage (src dst : Frame) : MemoryManager := m.setPage dst (m.byte src)

end MemoryManager

/-- The slot of a page in its table at a depth: 0 for level 4 down to 3 for level 1. -/
def slot (depth page : Nat) : Nat := page / 512 ^ (3 - depth) % 512

end PickleOS.Memory
