import Mathlib.Order.CompletePartialOrder
import Mathlib.Order.Interval.Set.Disjoint
import PickleOS.Memory.Frames
import PickleOS.Shared.Dealing

set_option autoImplicit false

namespace PickleOS.Memory

open Shared.Dealing

/-- `PhysAddr::new` and `PhysFrame::containing_address` of the `x86_64` crate, one after the other. The
panic, on an address of more than 52 bits, is `none`. -/
structure PhysFrames where
  containingAddress : Nat → Option Frame
  containingAddress_documented (addr : Nat) :
    containingAddress addr = if addr < 2 ^ 52 then some (addr / 4096) else none

theorem mem_addresses {r : MemoryRegion} {addr : Nat} (aligned : 4096 ∣ r.start)
    (member : addr ∈ BootInfoFrameAllocator.addresses r) : 4096 ∣ addr ∧ r.start ≤ addr ∧ addr < r.stop := by
  simp only [BootInfoFrameAllocator.addresses, List.mem_map, List.mem_range] at member
  obtain ⟨i, bound, rfl⟩ := member
  omega

namespace BootInfoFrameAllocator

/-- The addresses that `usable_frames` makes frames of. -/
def frameAddresses (a : BootInfoFrameAllocator) : List Nat :=
  ((a.memoryMap.filter fun r => r.kind = .usable).flatMap addresses).filter fun addr =>
    addr < DMA_POOL_PHYS_BASE ∨ DMA_POOL_PHYS_BASE + DMA_POOL_SIZE ≤ addr

def init (memoryMap : List MemoryRegion) : BootInfoFrameAllocator := ⟨memoryMap, 0⟩

/-- `nth` also makes the frames that it passes. `none` is a panic. -/
def allocateFrame (a : BootInfoFrameAllocator) (x : PhysFrames) :
    Option (Option Frame × BootInfoFrameAllocator) := do
  let frames ← (a.frameAddresses.take (a.next + 1)).mapM x.containingAddress
  some (frames[a.next]?, { a with next := a.next + 1 })

/-- What `n` calls return, one after the other. -/
def calls (a : BootInfoFrameAllocator) (x : PhysFrames) :
    Nat → Option (List (Option Frame) × BootInfoFrameAllocator)
  | 0 => some ([], a)
  | n + 1 => do
    let (frames, a) ← a.calls x n
    let (frame, a) ← a.allocateFrame x
    some (frames ++ [frame], a)

def startAddress (f : Frame) : Nat := f * 4096

theorem startAddress_div {addr : Nat} (whole : 4096 ∣ addr) : startAddress (addr / 4096) = addr :=
  Nat.div_mul_cancel whole

theorem dvd_startAddress (f : Frame) : 4096 ∣ startAddress f := Nat.dvd_mul_left 4096 f

structure Usable (memoryMap : List MemoryRegion) (f : Frame) : Prop where
  region : ∃ r ∈ memoryMap, r.kind = .usable ∧ r.start ≤ startAddress f ∧ startAddress f + 4096 ≤ r.stop
  carved : startAddress f + 4096 ≤ DMA_POOL_PHYS_BASE ∨ DMA_POOL_PHYS_BASE + DMA_POOL_SIZE ≤ startAddress f

structure HandedOut (memoryMap : List MemoryRegion) (frames : List (Option Frame)) : Prop where
  once : ∀ (i j : Nat) (f : Frame), frames[i]? = some (some f) → frames[j]? = some (some f) → i = j
  usable : ∀ f, some f ∈ frames → Usable memoryMap f
  /-- `None` comes only after all the others. -/
  complete : ∀ i : Nat, frames[i]? = some none → ∀ f, Usable memoryMap f → some f ∈ frames.take i

section Calls

variable (a : BootInfoFrameAllocator) (x : PhysFrames)

theorem mapM_containingAddress (addrs : List Nat) :
    addrs.mapM x.containingAddress = if ∀ addr ∈ addrs,
      addr < 2 ^ 52 then some (addrs.map fun addr => addr / 4096) else none := by
  induction addrs with
  | nil => rfl
  | cons addr rest ih =>
    rw [List.mapM_cons, ih, x.containingAddress_documented]
    simp only [List.forall_mem_cons]
    by_cases low : addr < 2 ^ 52
    · by_cases others : ∀ addr ∈ rest, addr < 2 ^ 52
      · rw [if_pos low, if_pos others, if_pos ⟨low, others⟩]
        rfl
      · rw [if_pos low, if_neg others, if_neg fun all => others all.2]
        rfl
    · have high : ¬(addr < 2 ^ 52 ∧ ∀ addr ∈ rest, addr < 2 ^ 52) := fun all => low all.1
      rw [if_neg low, if_neg high]
      rfl

def Addressable (frames : List Frame) : Prop := ∀ f ∈ frames, f < 2 ^ 40

instance (frames : List Frame) : Decidable (Addressable frames) :=
  inferInstanceAs (Decidable (∀ f ∈ frames, f < 2 ^ 40))

theorem addressable_map (addrs : List Nat) :
    Addressable (addrs.map fun addr => addr / 4096) ↔ ∀ addr ∈ addrs, addr < 2 ^ 52 := by
  have bits : ∀ addr : Nat, addr / 4096 < 2 ^ 40 ↔ addr < 2 ^ 52 := fun addr => by omega
  simp only [Addressable, List.forall_mem_map, bits]

theorem allocateFrame_eq :
    a.allocateFrame x =
      if Addressable (a.usableFrames.take (a.next + 1)) then
        some (a.usableFrames[a.next]?, { a with next := a.next + 1 })
      else none := by
  have frames : a.usableFrames.take (a.next + 1) = (a.frameAddresses.take (a.next + 1)).map fun addr =>
    addr / 4096 :=
    List.map_take.symm
  have passed := addressable_map (a.frameAddresses.take (a.next + 1))
  rw [← frames] at passed
  rw [allocateFrame, mapM_containingAddress, ← frames]
  simp only [passed]
  split
  next =>
    change some ((a.usableFrames.take (a.next + 1))[a.next]?, _) = _
    rw [List.getElem?_take_of_lt (Nat.lt_succ_self _)]
  next => rfl

theorem calls_eq (memoryMap : List MemoryRegion) (n : Nat) :
    (init memoryMap).calls x n =
      if Addressable ((init memoryMap).usableFrames.take n) then
        some (dealt (init memoryMap).usableFrames n, ⟨memoryMap, n⟩)
      else none := by
  induction n with
  | zero => rfl
  | succ n ih =>
    have step := allocateFrame_eq ⟨memoryMap, n⟩ x
    rw [show (⟨memoryMap, n⟩ : BootInfoFrameAllocator).usableFrames = (init memoryMap).usableFrames
      from rfl] at step
    rw [calls, ih, dealt_succ]
    by_cases before : Addressable ((init memoryMap).usableFrames.take n)
    · simp only [if_pos before, Option.bind_eq_bind, Option.bind_some, step]
      split <;> rfl
    · have low : ¬Addressable ((init memoryMap).usableFrames.take (n + 1)) := fun all =>
        before fun f member => all f (List.take_subset_take_left _ (Nat.le_succ n) member)
      rw [if_neg before, if_neg low]
      rfl

end Calls

theorem allocateFrame_manager {x : PhysFrames} {m : MemoryManager} {frame : Option Frame} {a : BootInfoFrameAllocator}
    (done : m.frameAllocator.allocateFrame x = some (frame, a)) :
      m.allocateFrame = (frame, { m with frameAllocator := a }) := by
  rw [allocateFrame_eq] at done
  split at done
  next =>
    cases done
    rfl
  next => cases done

section Map

variable {a : BootInfoFrameAllocator} (aligned : ∀ r ∈ a.memoryMap, 4096 ∣ r.start)

include aligned

theorem of_mem_frameAddresses {addr : Nat} (member : addr ∈ a.frameAddresses) :
    (∃ r ∈ a.memoryMap, r.kind = .usable ∧ 4096 ∣ addr ∧ r.start ≤ addr ∧ addr < r.stop) ∧
      (addr < DMA_POOL_PHYS_BASE ∨ DMA_POOL_PHYS_BASE + DMA_POOL_SIZE ≤ addr) := by
  simp only [frameAddresses, List.mem_filter, List.mem_flatMap, decide_eq_true_eq] at member
  obtain ⟨⟨r, ⟨of_map, kind⟩, inside⟩, carved⟩ := member
  exact ⟨⟨r, of_map, kind, mem_addresses (aligned r of_map) inside⟩, carved⟩

theorem frames_nodup
    (disjoint : a.memoryMap.Pairwise fun r r' => Disjoint (Set.Ico r.start r.stop) (Set.Ico r'.start r'.stop)) :
    a.usableFrames.Nodup := by
  -- No frame is handed out twice.
  refine List.Nodup.map_on (fun addr member addr' member' same => ?_)
    (List.Nodup.filter _ (List.nodup_flatMap.mpr ⟨?_, ?_⟩))
  · obtain ⟨⟨_, _, _, first, _⟩, _⟩ := of_mem_frameAddresses aligned member
    obtain ⟨⟨_, _, _, second, _⟩, _⟩ := of_mem_frameAddresses aligned member'
    exact (Nat.div_left_inj first second).mp same
  · intro r _
    refine List.Nodup.map (fun i j same => ?_) List.nodup_range
    have same : r.start + i * 4096 = r.start + j * 4096 := same
    omega
  · refine (disjoint.sublist List.filter_sublist).imp_of_mem (fun {r r'} of_r of_r' apart => ?_)
    intro addr member member'
    have first := mem_addresses (aligned r (List.mem_of_mem_filter of_r)) member
    have second := mem_addresses (aligned r' (List.mem_of_mem_filter of_r')) member'
    exact Set.disjoint_left.mp apart first.2 second.2

theorem mem_usableFrames (ends : ∀ r ∈ a.memoryMap, 4096 ∣ r.stop) (f : Frame) :
    f ∈ a.usableFrames ↔ Usable a.memoryMap f := by
  have pool : 4096 ∣ DMA_POOL_PHYS_BASE ∧ 4096 ∣ DMA_POOL_SIZE := by decide
  constructor
  · intro member
    obtain ⟨addr, walked, rfl⟩ := List.mem_map.mp member
    obtain ⟨⟨r, of_map, kind, whole, low, high⟩, carved⟩ := of_mem_frameAddresses aligned walked
    have stop := ends r of_map
    have address := startAddress_div whole
    refine ⟨⟨r, of_map, kind, ?_, ?_⟩, ?_⟩ <;> rw [address] <;> omega
  · rintro ⟨⟨r, of_map, kind, low, high⟩, carved⟩
    have whole := dvd_startAddress f
    have start := aligned r of_map
    refine List.mem_map.mpr ⟨startAddress f, ?_, Nat.mul_div_cancel f (by decide)⟩
    have offset : r.start + (startAddress f - r.start) / 4096 * 4096 = startAddress f := by omega
    simp only [List.mem_filter, List.mem_flatMap, decide_eq_true_eq]
    refine ⟨⟨r, ⟨of_map, kind⟩, ?_⟩, by omega⟩
    exact List.mem_map.mpr ⟨(startAddress f - r.start) / 4096, List.mem_range.mpr (by omega), offset⟩

end Map

/-- However often the allocator is called, it hands out usable frames only, each of them once, and
it stops handing out only when all of them have been. It does not panic unless a usable frame has an
address of more than 52 bits. -/
theorem frames_handed_out (x : PhysFrames) {memoryMap : List MemoryRegion}
    (aligned : ∀ r ∈ memoryMap, 4096 ∣ r.start ∧ 4096 ∣ r.stop)
    (disjoint : memoryMap.Pairwise fun r r' => Disjoint (Set.Ico r.start r.stop)
    (Set.Ico r'.start r'.stop)) (n : Nat) :
    (∀ frames a, (init memoryMap).calls x n = some (frames, a) →
        frames.length = n ∧ a = ⟨memoryMap, n⟩ ∧ HandedOut memoryMap frames) ∧
      ((∀ f, Usable memoryMap f → f < 2 ^ 40) → ∃ frames a, (init memoryMap).calls x n = some (frames, a)) := by
  have starts : ∀ r ∈ (init memoryMap).memoryMap, 4096 ∣ r.start := fun r member => (aligned r member).1
  have members : ∀ f, f ∈ (init memoryMap).usableFrames ↔ Usable memoryMap f :=
    mem_usableFrames starts fun r member => (aligned r member).2
  rw [calls_eq]
  constructor
  · intro frames a done
    split at done
    next =>
      cases done
      refine ⟨length_dealt _ n, rfl, fun i j f => dealt_once (frames_nodup starts disjoint), ?_, ?_⟩
      · exact fun f member => (members f).mp (mem_of_dealt member)
      · exact fun i out f usable => dealt_before out ((members f).mpr usable)
    next => cases done
  · intro low
    exact ⟨_, _, if_pos fun f member => low f ((members f).mp (List.mem_of_mem_take member))⟩

/-- A usable region, one of the bootloader, and one in the DMA pool. -/
def smallMap : List MemoryRegion :=
  [⟨4096, 12288, .usable⟩, ⟨12288, 16384, .bootloader⟩,
  ⟨DMA_POOL_PHYS_BASE, DMA_POOL_PHYS_BASE + 8192, .usable⟩]

def physFrames : PhysFrames := ⟨fun addr => if addr < 2 ^ 52 then some (addr / 4096) else none, fun _ => rfl⟩

/-- The third call returns `None`. -/
theorem frames_handed_out_small :
    (init smallMap).calls physFrames 3 = some ([some 1, some 2, none], ⟨smallMap, 3⟩) ∧
      HandedOut smallMap [some 1, some 2, none] := by
  have run : (init smallMap).calls physFrames 3 = some ([some 1, some 2, none], ⟨smallMap, 3⟩) := by rfl
  have aligned : ∀ r ∈ smallMap, 4096 ∣ r.start ∧ 4096 ∣ r.stop := by decide
  have disjoint : smallMap.Pairwise fun r r' =>
    Disjoint (Set.Ico r.start r.stop) (Set.Ico r'.start r'.stop) := by
    simp only [Set.Ico_disjoint_Ico]
    decide
  exact ⟨run, ((frames_handed_out physFrames aligned disjoint 3).1 _ _ run).2.2⟩

end BootInfoFrameAllocator

end PickleOS.Memory
