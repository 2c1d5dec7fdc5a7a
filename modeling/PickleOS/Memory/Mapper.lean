import PickleOS.Memory.Frames

set_option autoImplicit false

/-!
# The mapper of the `x86_64` crate

The crate is not part of the repository. What the kernel relies on is what its documentation says.
-/

namespace PickleOS.Memory

inductive MapToError where
  | frameAllocationFailed
  | parentEntryHugePage
  | pageAlreadyMapped
  deriving DecidableEq

/-- The next table below an entry, which is created if it is missing. Its entry gets the parent flags. -/
inductive Descends (m : MemoryManager) (t : Frame) (i : Nat) (flags : Flags) : MemoryManager → Frame → Prop
  | created {f : Frame} {m' : MemoryManager} (vacant : (m.table t i).IsUnused)
      (fresh : m.allocateFrame = (some f, m')) :
      Descends m t i flags ((m'.zeroTable f).setEntry t i ⟨f, flags⟩) f
  | existing (used : ¬(m.table t i).IsUnused) (small : (m.table t i).flags.huge = false) :
      Descends m t i flags (m.setEntry t i ⟨(m.table t i).frame, (m.table t i).flags.union flags⟩)
        (m.table t i).frame

inductive Descent (m : MemoryManager) (cr3 : Frame) (page : Nat) (flags : Flags) :
    Nat → MemoryManager → Frame → Prop
  | root : Descent m cr3 page flags 0 m cr3
  | next {depth : Nat} {m₁ m₂ : MemoryManager} {t t' : Frame} (above : Descent m cr3 page flags depth m₁ t)
      (step : Descends m₁ t (slot depth page) flags m₂ t') : Descent m cr3 page flags (depth + 1) m₂ t'

/-- `Mapper::map_to`. The tables above the page are created, or get the PRESENT, WRITABLE and
USER_ACCESSIBLE bits of the page. Whether a huge page in the way gets them before the call fails is
not said. -/
inductive MapsTo (m : MemoryManager) (cr3 : Frame) (page : Nat) (frame : Frame) (flags : Flags) :
    Except MapToError Unit → MemoryManager → Prop
  | mapped {m' : MemoryManager} {t : Frame} (down : Descent m cr3 page flags.parent 3 m' t)
      (vacant : (m'.table t (slot 3 page)).IsUnused) :
      MapsTo m cr3 page frame flags (.ok ()) (m'.setEntry t (slot 3 page) ⟨frame, flags⟩)
  | alreadyMapped {m' : MemoryManager} {t : Frame} (down : Descent m cr3 page flags.parent 3 m' t)
      (used : ¬(m'.table t (slot 3 page)).IsUnused) :
      MapsTo m cr3 page frame flags (.error .pageAlreadyMapped) m'
  | hugeParent {m' m'' : MemoryManager} {t : Frame} {depth : Nat} (upper : depth < 3)
      (down : Descent m cr3 page flags.parent depth m' t) (used : ¬(m'.table t (slot depth page)).IsUnused)
      (huge : (m'.table t (slot depth page)).flags.huge = true)
      (after : m'' = m' ∨ m'' = m'.setEntry t (slot depth page)
        ⟨(m'.table t (slot depth page)).frame, (m'.table t (slot depth page)).flags.union flags.parent⟩) :
      MapsTo m cr3 page frame flags (.error .parentEntryHugePage) m''
  | noFrame {m' m'' : MemoryManager} {t : Frame} {depth : Nat} (upper : depth < 3)
      (down : Descent m cr3 page flags.parent depth m' t) (vacant : (m'.table t (slot depth page)).IsUnused)
      (exhausted : m'.allocateFrame = (none, m'')) :
      MapsTo m cr3 page frame flags (.error .frameAllocationFailed) m''

/-- The table for a page at a depth, if the tables above it exist and map no huge page. -/
def MemoryManager.tableAt (m : MemoryManager) (cr3 : Frame) : Nat → Nat → Option Frame
  | 0, _ => some cr3
  | depth + 1, page =>
    (m.tableAt cr3 depth page).bind fun t =>
      let e := m.table t (slot depth page)
      if e.IsUnused ∨ e.flags.huge then none else some e.frame

/-- The entry for a page at a depth, unused where there is no table for it. -/
def MemoryManager.lookup (m : MemoryManager) (cr3 : Frame) (depth page : Nat) : Entry :=
  match m.tableAt cr3 depth page with
  | some t => m.table t (slot depth page)
  | none => .unused

/-- `Mapper::unmap` of a 4 KiB page. -/
inductive Unmaps (m : MemoryManager) (cr3 : Frame) (page : Nat) : Option Frame → MemoryManager → Prop
  | unmapped {t : Frame} (found : m.tableAt cr3 3 page = some t) (used : ¬(m.table t (slot 3 page)).IsUnused) :
      Unmaps m cr3 page (some (m.table t (slot 3 page)).frame) (m.setEntry t (slot 3 page) .unused)
  | failed (missing : (m.lookup cr3 3 page).IsUnused) : Unmaps m cr3 page none m

/-- `Translate::translate`: the frame and the flags of the page that an address lies in. -/
inductive Translates (m : MemoryManager) (cr3 : Frame) (page : Nat) : Option (Frame × Flags) → Prop
  | small (used : ¬(m.lookup cr3 3 page).IsUnused) :
      Translates m cr3 page (some ((m.lookup cr3 3 page).frame, (m.lookup cr3 3 page).flags))
  | huge {depth : Nat} (upper : depth < 3) (used : ¬(m.lookup cr3 depth page).IsUnused)
      (huge : (m.lookup cr3 depth page).flags.huge = true) :
      Translates m cr3 page
        (some ((m.lookup cr3 depth page).frame + page % 512 ^ (3 - depth), (m.lookup cr3 depth page).flags))
  | notMapped (unused : (m.lookup cr3 3 page).IsUnused)
      (small : ∀ depth, depth < 3 → (m.lookup cr3 depth page).flags.huge = false) : Translates m cr3 page none

/-- `VirtAddr::new`, whose panic is `none`. Where only bit 47 is set above the lower ones, it is
extended. -/
inductive NewAddr (addr : Nat) : Option Nat → Prop
  | canonical (canonical : addr < 2 ^ 47 ∨ 2 ^ 64 - 2 ^ 47 ≤ addr) : NewAddr addr (some addr)
  | extended (high : 2 ^ 47 ≤ addr) (bit : addr < 2 ^ 48) : NewAddr addr (some (addr + (2 ^ 64 - 2 ^ 48)))
  | panics (high : 2 ^ 48 ≤ addr) (gap : addr < 2 ^ 64 - 2 ^ 47) : NewAddr addr none

/-- `Page::range_inclusive`, by the numbers of the pages. A page is one of canonical addresses; what
comes between the halves of these is not said. -/
structure Ranges (first last : Nat) (pages : List Nat) : Prop where
  half : first ≤ last → (last < 2 ^ 35 ∨ 2 ^ 52 - 2 ^ 35 ≤ first ∧ last < 2 ^ 52) →
    pages = List.range' first (last + 1 - first)
  canonical : ∀ page ∈ pages, page < 2 ^ 35 ∨ 2 ^ 52 - 2 ^ 35 ≤ page

/-- `OffsetPageTable` over a level-4 table, and the addresses and pages that go with it. -/
structure Mapper where
  virtAddr : Nat → Option Nat
  rangeInclusive : Nat → Nat → List Nat
  mapTo : MemoryManager → Frame → Nat → Frame → Flags → Except MapToError Unit × MemoryManager
  unmap : MemoryManager → Frame → Nat → Option Frame × MemoryManager
  translate : MemoryManager → Frame → Nat → Option (Frame × Flags)
  mapTo_documented (m : MemoryManager) (cr3 : Frame) (page : Nat) (frame : Frame) (flags : Flags) :
    MapsTo m cr3 page frame flags (mapTo m cr3 page frame flags).1 (mapTo m cr3 page frame flags).2
  unmap_documented (m : MemoryManager) (cr3 : Frame) (page : Nat) :
    Unmaps m cr3 page (unmap m cr3 page).1 (unmap m cr3 page).2
  translate_documented (m : MemoryManager) (cr3 : Frame) (page : Nat) :
    Translates m cr3 page (translate m cr3 page)
  virtAddr_documented (addr : Nat) : NewAddr addr (virtAddr addr)
  rangeInclusive_documented (first last : Nat) : Ranges first last (rangeInclusive first last)

namespace Mapper

variable (x : Mapper) {addr : Nat}

theorem virtAddr_same (canonical : addr < 2 ^ 47 ∨ 2 ^ 64 - 2 ^ 47 ≤ addr) : x.virtAddr addr = some addr := by
  have documented := x.virtAddr_documented addr
  generalize x.virtAddr addr = result at documented ⊢
  cases documented with
  | canonical => rfl
  | extended => omega
  | panics => omega

theorem virtAddr_gap (high : 2 ^ 48 ≤ addr) (gap : addr < 2 ^ 64 - 2 ^ 47) : x.virtAddr addr = none := by
  have documented := x.virtAddr_documented addr
  generalize x.virtAddr addr = result at documented ⊢
  cases documented with
  | canonical => omega
  | extended => omega
  | panics => rfl

theorem virtAddr_some {first : Nat} (fine : x.virtAddr addr = some first) :
    first = addr ∨ 2 ^ 47 ≤ addr ∧ first = addr + (2 ^ 64 - 2 ^ 48) := by
  have documented := x.virtAddr_documented addr
  rw [fine] at documented
  cases documented with
  | canonical => exact Or.inl rfl
  | extended high => exact Or.inr ⟨high, rfl⟩

end Mapper

/-- The walk of the CPU from a table down the remaining levels. An access needs its right at every
level. -/
def MemoryManager.walk (m : MemoryManager) (right : Flags → Bool) (page : Nat) : Nat → Frame → Option Frame
  | 0, t =>
    let e := m.table t (slot 3 page)
    if e.flags.present && right e.flags then some e.frame else none
  | levels + 1, t =>
    let e := m.table t (slot (2 - levels) page)
    if e.flags.present && right e.flags then
      if e.flags.huge then some (e.frame + page % 512 ^ (levels + 1)) else m.walk right page levels e.frame
    else none

/-- The frame that an access with this right to a page reaches in an address space. -/
def MemoryManager.access (m : MemoryManager) (right : Flags → Bool) (cr3 : Frame) (page : Nat) : Option Frame :=
  m.walk right page 3 cr3

def userRead (flags : Flags) : Bool := flags.user

def userWrite (flags : Flags) : Bool := flags.user && flags.writable

theorem access_setByte {m : MemoryManager} {right : Flags → Bool} {r f : Frame} {page offset : Nat}
    {value : UInt8} :
    (m.setByte f offset value).access right r page = m.access right r page := by
  -- Tables are not looked for in data frames.
  have walk (levels : Nat) (t : Frame) : (m.setByte f offset value).walk
    right page levels t = m.walk right page levels t := by
    induction levels generalizing t with
    | zero => rfl
    | succ levels ih =>
      simp only [MemoryManager.walk, ih]
      rfl
  exact walk 3 r

end PickleOS.Memory
