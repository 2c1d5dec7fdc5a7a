import PickleOS.Elf.Parse
import PickleOS.Elf.StartupStack
import PickleOS.Memory.Heaps

set_option autoImplicit false

namespace PickleOS.Elf

open Memory Shared.Bytes

def pfX : UInt32 := 1
def pfW : UInt32 := 2

/-- What a load does to physical memory is not undone when it fails. -/
abbrev LoadM := EStateM Fail MemoryManager

namespace LoadM

def createUserMapper : LoadM Frame := fun m =>
  match m.createUserMapper with
  | some (cr3, m) => .ok cr3 m
  | none => .error .panic m

/-- `mem.allocate_frame()`, with the error for when there is none. -/
def allocateFrame (message : String) : LoadM Frame := fun m =>
  match m.allocateFrame with
  | (some f, m) => .ok f m
  | (none, m) => .error (.err message) m

def mapTo (x : Mapper) (cr3 : Frame) (page : Nat) (frame : Frame) (flags : Flags)
    (message : String) : LoadM Unit := fun m =>
  match x.mapTo m cr3 page frame flags with
  | (.ok (), m) => .ok () m
  | (.error _, m) => .error (.err message) m

/-- `VirtAddr::new`. -/
def virtAddr (x : Mapper) (addr : Nat) : LoadM Nat :=
  match x.virtAddr addr with
  | some addr => pure addr
  | none => throw .panic

end LoadM

def Segment.pageFlags (seg : Segment) : Flags where
  present := true
  user := true
  writable := seg.flags &&& pfW ≠ 0
  noExecute := seg.flags &&& pfX = 0

/-- `dest_off` and `data[file_start..file_end]` for a page of the segment; nothing where the ranges do not
meet. -/
def Segment.fileBytes (data : Slice) (seg : Segment) (loadVaddr page : Nat) : Except Fail (Nat × List UInt8) :=
  if 0 < seg.filesz.toNat then
    let pageStart := page * 4096
    let segFileStart := loadVaddr
    let segFileEnd := (loadVaddr + seg.filesz.toNat) % 2 ^ 64
    let copyStart := max pageStart segFileStart
    let copyEnd := min ((pageStart + 4096) % 2 ^ 64) segFileEnd
    if copyStart < copyEnd then
      let destOff := copyStart - pageStart
      let fileStart := (seg.offset.toNat + (copyStart - segFileStart)) % 2 ^ 64
      let bytesToCopy := copyEnd - copyStart
      let fileEnd := (fileStart + bytesToCopy) % 2 ^ 64
      if data.bytes.length < fileEnd then .error (.err "segment data out of bounds")
      -- A slice whose start lies behind its end.
      else if fileEnd < fileStart then .error .panic
      else .ok (destOff, slice data.bytes fileStart bytesToCopy)
    else .ok (0, [])
  else .ok (0, [])

/-- One round of the loop over the pages of a segment. -/
def loadPage (x : Mapper) (cr3 : Frame) (data : Slice) (seg : Segment) (loadVaddr page : Nat) : LoadM Unit := do
  let frame ← LoadM.allocateFrame "out of physical memory"
  LoadM.mapTo x cr3 page frame seg.pageFlags "failed to map page"
  modify fun m => m.zeroPage frame
  match seg.fileBytes data loadVaddr page with
  | .error fail => throw fail
  | .ok (destOff, bytes) => modify fun m => m.setPage frame (overlay (m.byte frame) destOff bytes)

def loadPages (x : Mapper) (cr3 : Frame) (data : Slice) (seg : Segment) (loadVaddr : Nat) :
    List Nat → LoadM Unit
  | [] => pure ()
  | page :: rest => do
    loadPage x cr3 data seg loadVaddr page
    loadPages x cr3 data seg loadVaddr rest

def loadSegments (x : Mapper) (cr3 : Frame) (data : Slice) (baseAddr : Nat) : List Segment → LoadM Unit
  | [] => pure ()
  | seg :: rest => do
    let loadVaddr := (baseAddr + seg.vaddr.toNat) % 2 ^ 64
    let first ← LoadM.virtAddr x loadVaddr
    let endAddr := (loadVaddr + seg.memsz.toNat) % 2 ^ 64
    let last ← LoadM.virtAddr x ((endAddr + (2 ^ 64 - 1)) % 2 ^ 64)
    loadPages x cr3 data seg loadVaddr (x.rangeInclusive (first / 4096) (last / 4096))
    loadSegments x cr3 data baseAddr rest

def stackFlags : Flags := { present := true, writable := true, user := true, noExecute := true }

/-- The loop over the stack pages, which comes back with the frame of the top one. -/
def mapStack (x : Mapper) (cr3 : Frame) : List Nat → Option Frame → LoadM (Option Frame)
  | [], topFrame => pure topFrame
  | i :: rest, topFrame => do
    let stackBottom := USER_STACK_TOP - STACK_PAGES * 4096
    let pageAddr := stackBottom + i * 4096
    let addr ← LoadM.virtAddr x pageAddr
    let frame ← LoadM.allocateFrame "out of memory for stack"
    LoadM.mapTo x cr3 (addr / 4096) frame stackFlags "failed to map stack page"
    modify fun m => m.zeroPage frame
    mapStack x cr3 rest (if pageAddr = topPageUserBase then some frame else topFrame)

/-- `setup_user_stack`, which writes into the frame of the top page. -/
def seedStack (topFrame : Option Frame) (args envs : List (List UInt8)) : LoadM Nat := do
  let seeded := setupUserStack topFrame.isNone topPageUserBase 4096 args envs
  match topFrame with
  | none => pure ()
  | some frame =>
    modify fun m => m.setPage frame (seeded.2.foldr (fun w byte => overlay byte w.1 w.2) (m.byte frame))
  match seeded.1 with
  | .error e => throw (.err e)
  | .ok userSp => pure userSp

def DYNAMIC_LOAD_BASE : Nat := 0x40000000

/-- `ElfBinary::load`, over what `apply_relocations` does to a dynamic binary; a static one has none. -/
def ElfBinary.load (x : Mapper) (applyRelocations : Slice → Nat → Frame → LoadM Unit) (bin : ElfBinary)
    (data : Slice)
    (args envs : List (List UInt8)) : LoadM (Nat × Nat) := do
  let cr3 ← LoadM.createUserMapper
  let baseAddr := if bin.isDynamic then DYNAMIC_LOAD_BASE else 0
  loadSegments x cr3 data baseAddr bin.segments
  if bin.isDynamic then applyRelocations data baseAddr cr3
  let topFrame ← mapStack x cr3 (List.range STACK_PAGES) none
  let userSp ← seedStack topFrame args envs
  modify fun m => m.storeUserMapper cr3
  let finalEntry := (baseAddr + bin.entry.toNat) % 2 ^ 64
  let entry ← LoadM.virtAddr x finalEntry
  let sp ← LoadM.virtAddr x userSp
  pure (entry, sp)

end PickleOS.Elf
