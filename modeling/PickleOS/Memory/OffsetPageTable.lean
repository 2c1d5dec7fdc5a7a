import PickleOS.Memory.Mapper

set_option autoImplicit false

/-!
# An implementation of the mapper

It does what the documentation of the crate says.
-/

namespace PickleOS.Memory

variable {depth : Nat}

namespace MemoryManager

/-- `PageTableWalker::create_next_table`. -/
def createNextTable (m : MemoryManager) (t : Frame) (i : Nat) (flags : Flags) :
    Except MapToError Frame × MemoryManager :=
  let e := m.table t i
  if e.IsUnused then
    match m.allocateFrame with
    | (none, m) => (.error .frameAllocationFailed, m)
    | (some f, m) => (.ok f, (m.zeroTable f).setEntry t i ⟨f, flags⟩)
  else
    let m := m.setEntry t i ⟨e.frame, e.flags.union flags⟩
    if e.flags.huge then (.error .parentEntryHugePage, m) else (.ok e.frame, m)

def createTables (m : MemoryManager) (cr3 : Frame) (page : Nat) (flags : Flags) :
    Nat → Except MapToError Frame × MemoryManager
  | 0 => (.ok cr3, m)
  | depth + 1 =>
    match m.createTables cr3 page flags depth with
    | (.ok t, m) => m.createNextTable t (slot depth page) flags
    | (.error e, m) => (.error e, m)

def mapTo (m : MemoryManager) (cr3 : Frame) (page : Nat) (frame : Frame) (flags : Flags) :
    Except MapToError Unit × MemoryManager :=
  match m.createTables cr3 page flags.parent 3 with
  | (.error e, m) => (.error e, m)
  | (.ok t, m) =>
    if (m.table t (slot 3 page)).IsUnused then (.ok (), m.setEntry t (slot 3 page) ⟨frame, flags⟩)
    else (.error .pageAlreadyMapped, m)

def unmap (m : MemoryManager) (cr3 : Frame) (page : Nat) : Option Frame × MemoryManager :=
  match m.tableAt cr3 3 page with
  | none => (none, m)
  | some t =>
    let e := m.table t (slot 3 page)
    if e.IsUnused then (none, m) else (some e.frame, m.setEntry t (slot 3 page) .unused)

def translate (m : MemoryManager) (cr3 : Frame) (page : Nat) : Option (Frame × Flags) :=
  match (List.range 3).find? fun depth => (m.lookup cr3 depth page).flags.huge with
  | some depth =>
    let e := m.lookup cr3 depth page
    some (e.frame + page % 512 ^ (3 - depth), e.flags)
  | none =>
    let e := m.lookup cr3 3 page
    if e.IsUnused then none else some (e.frame, e.flags)

theorem createTables_documented (m : MemoryManager) (cr3 : Frame) (page : Nat) (frame : Frame) (flags : Flags)
    (upper : depth ≤ 3) :
    match m.createTables cr3 page flags.parent depth with
    | (.ok t, m') => Descent m cr3 page flags.parent depth m' t
    | (.error e, m') => MapsTo m cr3 page frame flags (.error e) m' := by
  induction depth with
  | zero => exact .root
  | succ depth ih =>
    have above := ih (by omega)
    simp only [createTables]
    rcases created : m.createTables cr3 page flags.parent depth with ⟨e | t, m₁⟩
    all_goals
      rw [created] at above
      simp only at above ⊢
    · exact above
    · simp only [createNextTable]
      by_cases vacant : (m₁.table t (slot depth page)).IsUnused
      · simp only [vacant, if_true]
        rcases fresh : m₁.allocateFrame with ⟨_ | f, m₂⟩
        · exact .noFrame (by omega) above vacant fresh
        · exact .next above (.created vacant fresh)
      · simp only [vacant, if_false]
        by_cases huge : (m₁.table t (slot depth page)).flags.huge = true
        · simp only [huge, if_true]
          exact .hugeParent (by omega) above vacant huge (Or.inr rfl)
        · simp only [huge]
          exact .next above (.existing vacant (by simpa using huge))

theorem mapTo_documented (m : MemoryManager) (cr3 : Frame) (page : Nat) (frame : Frame) (flags : Flags) :
    MapsTo m cr3 page frame flags (m.mapTo cr3 page frame flags).1 (m.mapTo cr3 page frame flags).2 := by
  have down := m.createTables_documented cr3 page frame flags (Nat.le_refl 3)
  rw [mapTo]
  rcases created : m.createTables cr3 page flags.parent 3 with ⟨e | t, m₁⟩
  all_goals
    rw [created] at down
    simp only at down ⊢
  · exact down
  · by_cases vacant : (m₁.table t (slot 3 page)).IsUnused
    · simp only [vacant, if_true]
      exact .mapped down vacant
    · simp only [vacant, if_false]
      exact .alreadyMapped down vacant

theorem unmap_documented (m : MemoryManager) (cr3 : Frame) (page : Nat) :
    Unmaps m cr3 page (m.unmap cr3 page).1 (m.unmap cr3 page).2 := by
  rw [unmap]
  cases found : m.tableAt cr3 3 page with
  | none => exact .failed (by simp [lookup, found, Entry.IsUnused])
  | some t =>
    simp only
    by_cases used : (m.table t (slot 3 page)).IsUnused
    · simp only [used, if_true]
      exact .failed (by simpa [lookup, found] using used)
    · simp only [used, if_false]
      exact .unmapped found used

theorem translate_documented (m : MemoryManager) (cr3 : Frame) (page : Nat) :
    Translates m cr3 page (m.translate cr3 page) := by
  rw [translate]
  cases found : (List.range 3).find? fun depth => (m.lookup cr3 depth page).flags.huge with
  | some depth =>
    have huge : (m.lookup cr3 depth page).flags.huge = true := by simpa using List.find?_some found
    have upper : depth < 3 := List.mem_range.mp (List.mem_of_find?_eq_some found)
    refine .huge upper (fun unused => ?_) huge
    rw [unused] at huge
    simp [Entry.unused] at huge
  | none =>
    have small (depth : Nat) (upper : depth < 3) : (m.lookup cr3 depth page).flags.huge = false := by
      simpa using List.find?_eq_none.mp found depth (List.mem_range.mpr upper)
    simp only
    by_cases used : (m.lookup cr3 3 page).IsUnused
    · simp only [used, if_true]
      exact .notMapped used small
    · simp only [used, if_false]
      exact .small used

end MemoryManager

def signExtended (addr : Nat) : Option Nat :=
  if addr < 2 ^ 47 ∨ 2 ^ 64 - 2 ^ 47 ≤ addr then some addr
  else if addr < 2 ^ 48 then some (addr + (2 ^ 64 - 2 ^ 48))
  else none

theorem signExtended_documented (addr : Nat) : NewAddr addr (signExtended addr) := by
  unfold signExtended
  split
  next canonical => exact .canonical canonical
  next other =>
    split
    next bit => exact .extended (by omega) bit
    next => exact .panics (by omega) (by omega)

/-- The pages in their order. `Page + 1` passes over the gap between the halves of the address space. -/
def pageAt (place : Nat) : Nat := if place < 2 ^ 35 then place else place + (2 ^ 52 - 2 ^ 36)

def pagesBetween (first last : Nat) : List Nat :=
  (List.range' (first % 2 ^ 36) (last % 2 ^ 36 + 1 - first % 2 ^ 36)).map pageAt

theorem pagesBetween_documented (first last : Nat) : Ranges first last (pagesBetween first last) where
  half ordered half := by
    have length : last % 2 ^ 36 + 1 - first % 2 ^ 36 = last + 1 - first := by omega
    rw [pagesBetween, length]
    apply List.ext_getElem (by simp)
    intro i inside _
    simp only [List.length_map, List.length_range'] at inside
    simp only [List.getElem_map, List.getElem_range', Nat.one_mul, pageAt]
    split <;> omega
  canonical page member := by
    obtain ⟨place, listed, rfl⟩ := List.mem_map.mp member
    rw [List.mem_range'_1] at listed
    unfold pageAt
    split <;> omega

def Mapper.offsetPageTable : Mapper where
  virtAddr := signExtended
  rangeInclusive := pagesBetween
  mapTo := MemoryManager.mapTo
  unmap := MemoryManager.unmap
  translate := MemoryManager.translate
  mapTo_documented := MemoryManager.mapTo_documented
  unmap_documented := MemoryManager.unmap_documented
  translate_documented := MemoryManager.translate_documented
  virtAddr_documented := signExtended_documented
  rangeInclusive_documented := pagesBetween_documented

end PickleOS.Memory
