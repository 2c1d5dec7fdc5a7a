import PickleOS.Memory.Mapper

set_option autoImplicit false

/-!
# Address spaces

`none` is a panic of the kernel.
-/

namespace PickleOS.Memory

def USER_HEAP_START : Nat := 0x0000_0001_0000_0000
def USER_SPACE_MAX : Nat := 0x0000_8000_0000_0000

/-- A page that `ElfBinary::load` maps for a segment or for the stack, with what it copies there. -/
structure UserPage where
  page : Nat
  writable : Bool
  noExecute : Bool
  contents : Nat → UInt8

def UserPage.flags (p : UserPage) : Flags :=
  { present := true, user := true, writable := p.writable, noExecute := p.noExecute }

namespace MemoryManager

/-- `fa.allocate_frame().expect(..)`. -/
def expectFrame (m : MemoryManager) : Option (Frame × MemoryManager) :=
  match m.allocateFrame with
  | (some f, m') => some (f, m')
  | (none, _) => none

/-- `deep_copy_table` of a table at `level`, 4 for a level-4 table down to 1. -/
def deepCopyTable : Nat → Frame → MemoryManager → Option (Frame × MemoryManager)
  | 0, _, _ => none
  | level + 1, src, m =>
    (m.expectFrame).bind fun (new, m) =>
      ((List.range 512).foldlM (fun (m : MemoryManager) i =>
        let e := m.table src i
        if e.IsUnused then some m
        else if level + 1 = 1 ∨ e.flags.huge then some (m.setEntry new i e)
        else (deepCopyTable level e.frame m).map fun (child, m) => m.setEntry new i ⟨child, e.flags⟩)
        (m.zeroTable new)).map fun m => (new, m)

def createUserMapper (m : MemoryManager) : Option (Frame × MemoryManager) :=
  m.expectFrame.bind fun (new, m) =>
    let m := (List.range 512).foldl (fun (m : MemoryManager) i =>
      m.setEntry new i (m.table m.kernelCr3 i)) (m.zeroTable new)
    let k0 := m.table m.kernelCr3 0
    if ¬k0.IsUnused ∧ k0.flags.huge = false then
      (deepCopyTable 3 k0.frame m).map fun (l3, m) => (new, m.setEntry new 0 ⟨l3, k0.flags⟩)
    else some (new, m)

def storeUserMapper (m : MemoryManager) (cr3 : Frame) : MemoryManager :=
  { m with userPageTables := m.userPageTables ++ [cr3] }

/-- The nested loops of a fork over the entries of level 1, from a table with so many levels below
it. The page number of an entry is made of the indices on the way to it. -/
def forLeaves {σ : Type} (memory : σ → MemoryManager) (visit : σ → Frame → Nat → Nat → σ) :
    Nat → Nat → Frame → Nat → σ → σ
  | 0, bound, t, page, s => (List.range bound).foldl (fun s i => visit s t i (page * 512 + i)) s
  | levels + 1, bound, t, page, s =>
    (List.range bound).foldl (fun s i =>
      let e := (memory s).table t i
      if e.IsUnused ∨ e.flags.huge then s else forLeaves memory visit levels 512 e.frame (page * 512 + i) s) s

abbrev Leaf := Nat × Entry

/-- Step 1 of `cow_fork_address_space` for one entry. -/
def shareLeaf (s : MemoryManager × List Leaf) (t : Frame) (i page : Nat) : MemoryManager × List Leaf :=
  let e := s.1.table t i
  if e.IsUnused ∨ e.flags.user = false then s
  else if e.flags.writable then
    let cow : Entry := ⟨e.frame, e.flags.shared⟩
    (s.1.setEntry t i cow, s.2 ++ [(page, cow)])
  else (s.1, s.2 ++ [(page, e)])

/-- The table that the raw pointers of step 3 lead to. -/
def followTable (m : MemoryManager) (cr3 : Frame) (page : Nat) : Frame :=
  let l3 := (m.table cr3 (slot 0 page)).frame
  let l2 := (m.table l3 (slot 1 page)).frame
  (m.table l2 (slot 2 page)).frame

/-- Step 3 of `cow_fork_address_space` for one recorded leaf. -/
def replicateLeaf (x : Mapper) (child : Frame) (m : MemoryManager) (leaf : Leaf) : MemoryManager :=
  match x.mapTo m child leaf.1 leaf.2.frame { present := true, user := true } with
  | (.ok (), m) => m.setEntry (m.followTable child leaf.1) (slot 3 leaf.1) leaf.2
  | (.error _, m) => m

def cowForkAddressSpace (x : Mapper) (m : MemoryManager) (parentCr3 : Frame) : Option (Frame × MemoryManager) :=
  let (m, userLeaves) := forLeaves Prod.fst shareLeaf 3 256 parentCr3 0 (m, [])
  m.createUserMapper.map fun (child, m) => (child,
    (userLeaves.foldl (replicateLeaf x child) m).storeUserMapper child)

/-- `map_user_region` from a page on. The flag says whether all pages were mapped. -/
def mapUserRegion (x : Mapper) (userCr3 : Frame) (writable : Bool) :
    Nat → Nat → MemoryManager → Bool × MemoryManager
  | _, 0, m => (true, m)
  | page, count + 1, m =>
    match m.allocateFrame with
    | (none, m) => (false, m)
    | (some f, m) =>
      match x.mapTo (m.zeroPage f) userCr3 page f { present := true, user := true, writable := writable } with
      | (.error _, m) => (false, m)
      | (.ok (), m) => mapUserRegion x userCr3 writable (page + 1) count m

/-- The loop of `sys_munmap_impl` that unmaps. -/
def unmapPages (x : Mapper) (userCr3 : Frame) : Nat → Nat → MemoryManager → Bool × MemoryManager
  | _, 0, m => (true, m)
  | page, count + 1, m =>
    match x.unmap m userCr3 page with
    | (none, m) => (false, m)
    | (some _, m) => unmapPages x userCr3 (page + 1) count m

/-- `sys_munmap_impl`: all pages must be mapped for the user, then all are unmapped. -/
def sysMunmap (x : Mapper) (userCr3 : Frame) (addr len : Nat) (m : MemoryManager) : Bool × MemoryManager :=
  if len = 0 then (true, m)
  else if addr < USER_HEAP_START ∨ USER_SPACE_MAX ≤ addr then (false, m)
  else
    let pageCount := (len + 4095) % 2 ^ 64 / 4096
    if ∀ i, i < pageCount → (x.translate m userCr3 (addr / 4096 + i)).any (·.2.user) then
      unmapPages x userCr3 (addr / 4096) pageCount m
    else (false, m)

/-- The loops of `ElfBinary::load` over the pages of an address space. -/
def loadPages (x : Mapper) (cr3 : Frame) : List UserPage → MemoryManager → Bool × MemoryManager
  | [], m => (true, m)
  | p :: rest, m =>
    match m.allocateFrame with
    | (none, m) => (false, m)
    | (some f, m) =>
      match x.mapTo m cr3 p.page f p.flags with
      | (.error _, m) => (false, m)
      | (.ok (), m) => loadPages x cr3 rest (m.setPage f p.contents)

/-- The part of `page_fault_handler` that services a user's write to a present page; `none` kills
the task. -/
def resolveCow (m : MemoryManager) (cr3 : Frame) (page : Nat) : Option MemoryManager :=
  (m.tableAt cr3 3 page).bind fun l1 =>
    let e := m.table l1 (slot 3 page)
    if ¬e.flags.present ∨ ¬e.flags.user ∨ e.flags.writable ∨ ¬e.flags.cow ∨ e.flags.huge then none
    else m.expectFrame.map fun (new, m) =>
      (m.copyPage e.frame new).setEntry l1 (slot 3 page) ⟨new, e.flags.resolved⟩

end MemoryManager

end PickleOS.Memory
