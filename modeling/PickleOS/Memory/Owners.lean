import PickleOS.Memory.AddressSpace

set_option autoImplicit false

/-!
# Who owns a frame

Every frame has one owner, so that page tables are trees and no data frame holds a page table.
-/

namespace PickleOS.Memory

/-- The tables of an address space are named by the slots on the way to them. -/
inductive Owner where
  | free
  | data
  | table (root : Frame) (path : List Nat)
  /-- A table of the kernel's at a depth, and whether it lies below the first entry of its level-4
  table. -/
  | kernel (depth : Nat) (low : Bool)
  deriving DecidableEq

def pathTo (depth page : Nat) : List Nat := (List.range depth).map fun d => slot d page

theorem pathTo_succ (depth page : Nat) : pathTo (depth + 1) page = pathTo depth page ++ [slot depth page] := by
  simp [pathTo, List.range_succ]

theorem pathTo_length (depth page : Nat) : (pathTo depth page).length = depth := by simp [pathTo]

theorem slot_lt (depth page : Nat) : slot depth page < 512 := Nat.mod_lt _ (by decide)

def Fits (owner : Frame → Owner) (table : Owner) (i : Nat) (e : Entry) : Prop :=
  e.IsUnused ∨
    match table with
    | .table r path =>
      if path.length < 3 then
        e.flags.present = true ∧ e.flags.huge = false ∧ (owner e.frame = .table r (path ++ [i]) ∨
          path = [] ∧ owner e.frame = .kernel 1 (i = 0))
      else e.flags.user = true → owner e.frame = .data ∧ e.flags.huge = false
    | .kernel depth low =>
      if depth < 3 then
        e.flags.present = true ∧ (e.flags.huge = true ∧ e.flags.user = false ∧ low = false ∧ 0 < depth ∨
          e.flags.huge = false ∧ owner e.frame = .kernel (depth + 1) (if depth = 0 then i = 0 else low))
      else e.flags.user = false
    | _ => True

/-- A slot through which an address space may map pages of its own. -/
def MemoryManager.PrivateSlot (m : MemoryManager) (i : Nat) : Prop := i = 0 ∨ (m.table m.kernelCr3 i).IsUnused

/-- A slot that is not shared with the kernel leads to a table of the address space itself. -/
def PrivateAt (owner : Frame → Owner) (m : MemoryManager) (r : Frame) (i : Nat) : Prop :=
  owner r = .table r [] ∧ (m.PrivateSlot i → ¬(m.table r i).IsUnused → owner (m.table r i).frame = .table r [i])

def Private (owner : Frame → Owner) (m : MemoryManager) (r : Frame) : Prop :=
  ∀ i, i < 512 → PrivateAt owner m r i

structure Owned (owner : Frame → Owner) (m : MemoryManager) : Prop where
  distinct : m.frameAllocator.usableFrames.Nodup
  fresh : ∀ f, f ∈ m.frameAllocator.usableFrames.drop m.frameAllocator.next → owner f = .free
  kernel : owner m.kernelCr3 = .kernel 0 false
  entries : ∀ f i, i < 512 → Fits owner (owner f) i (m.table f i)
  roots : ∀ r, r ∈ m.userPageTables → Private owner m r
  slots : ∀ f r i rest, owner f = .table r (i :: rest) → m.PrivateSlot i
  shared : ∀ r i, i < 512 → owner r = .table r [] → ¬m.PrivateSlot i → m.table r i = m.table m.kernelCr3 i

/-- Frames that are handed out get an owner, others keep theirs. -/
def Extends (owner owner' : Frame → Owner) : Prop := ∀ f, owner f ≠ .free → owner' f = owner f

theorem Extends.refl (owner : Frame → Owner) : Extends owner owner := fun _ _ => rfl

theorem Extends.trans {owner owner' owner'' : Frame → Owner} (first : Extends owner owner')
    (second : Extends owner' owner'') : Extends owner owner'' := by
  intro f taken
  rw [second f (by rwa [first f taken]), first f taken]

theorem Extends.of_fresh {owner : Frame → Owner} {f : Frame} (free : owner f = .free) (label : Owner) :
    Extends owner (Function.update owner f label) := by
  intro g taken
  have other : g ≠ f := fun same => taken (by rw [same, free])
  simp [other]

theorem Fits.extends {owner owner' : Frame → Owner} {label : Owner} {i : Nat}
    {e : Entry} (grows : Extends owner owner')
    (fits : Fits owner label i e) : Fits owner' label i e := by
  have keeps {x : Owner} (known : owner e.frame = x) (taken : x ≠ .free) : owner' e.frame = x := by
    rw [grows e.frame (by rwa [known]), known]
  cases fits with
  | inl unused => exact Or.inl unused
  | inr fits =>
    right
    cases label with
    | free | data => trivial
    | table r path =>
      simp only at fits ⊢
      split at fits <;> rename_i upper
      · rw [if_pos upper]
        exact ⟨fits.1, fits.2.1, fits.2.2.imp (fun own => keeps own (by simp))
          (fun shared => ⟨shared.1, keeps shared.2 (by simp)⟩)⟩
      · rw [if_neg upper]
        exact fun user => ⟨keeps (fits user).1 (by simp), (fits user).2⟩
    | kernel depth low =>
      simp only at fits ⊢
      split at fits <;> rename_i upper
      · rw [if_pos upper]
        exact ⟨fits.1, fits.2.imp_right fun small => ⟨small.1, keeps small.2 (by simp)⟩⟩
      · rw [if_neg upper]
        exact fits

def UserAt (owner : Frame → Owner) (m : MemoryManager) (f : Frame) (i : Nat) : Prop :=
  (∃ r path, owner f = .table r path ∧ path.length = 3) ∧ i < 512 ∧ (m.table f i).flags.user = true

theorem Entry.unused_flags {e : Entry} (unused : e.IsUnused) : e.flags = {} := by
  rw [unused]
  rfl

theorem UserAt.fits {owner : Frame → Owner} {m : MemoryManager} {f : Frame} {i : Nat} (owned : Owned owner m)
    (at_leaf : UserAt owner m f i) : owner (m.table f i).frame = .data ∧ (m.table f i).flags.huge = false := by
  obtain ⟨⟨r, path, label, length⟩, bound, user⟩ := at_leaf
  cases owned.entries f i bound with
  | inl unused => simp [Entry.unused_flags unused] at user
  | inr fits => simp only [label, length] at fits; exact fits user

theorem UserAt.data {owner : Frame → Owner} {m : MemoryManager} {f : Frame} {i : Nat} (owned : Owned owner m)
    (at_leaf : UserAt owner m f i) : owner (m.table f i).frame = .data := (at_leaf.fits owned).1

/-- An address space gets tables, and all user pages stay as they are. -/
structure Builds (r : Frame) (owner : Frame → Owner) (m : MemoryManager) (owner' : Frame → Owner)
    (m' : MemoryManager) :
    Prop where
  grows : Extends owner owner'
  owned : Owned owner' m'
  spaces : m'.userPageTables = m.userPageTables
  memoryMap : m'.frameAllocator.memoryMap = m.frameAllocator.memoryMap
  next : m.frameAllocator.next ≤ m'.frameAllocator.next
  kernelCr3 : m'.kernelCr3 = m.kernelCr3
  spared : ∀ f, owner f ≠ .free → (∀ path, owner f ≠ .table r path) → m'.table f = m.table f
  kept : ∀ f i, UserAt owner m f i → m'.table f i = m.table f i
  nothing : ∀ f i, UserAt owner' m' f i → UserAt owner m f i
  privates : ∀ r i, i < 512 → PrivateAt owner m r i → PrivateAt owner' m' r i
  byte : ∀ f, owner f ≠ .free → m'.byte f = m.byte f

variable {r : Frame} {owner owner' owner'' : Frame → Owner} {m m' m'' : MemoryManager}

theorem Builds.refl (owned : Owned owner m) : Builds r owner m owner m :=
  ⟨.refl owner, owned, rfl, rfl, Nat.le_refl _, rfl, fun _ _ _ => rfl, fun _ _ _ => rfl,
    fun _ _ at_leaf => at_leaf, fun _ _ _ own => own,
    fun _ _ => rfl⟩

theorem UserAt.builds (builds : Builds r owner m owner' m')
    {f : Frame} {i : Nat} (at_leaf : UserAt owner m f i) :
    UserAt owner' m' f i := by
  have same := builds.kept f i at_leaf
  obtain ⟨⟨r, path, label, length⟩, bound, user⟩ := at_leaf
  refine ⟨⟨r, path, ?_, length⟩, bound, by rwa [same]⟩
  rw [builds.grows f (by simp [label]), label]

theorem Builds.trans (first : Builds r owner m owner' m') (second : Builds r owner' m' owner'' m'') :
    Builds r owner m owner'' m'' where
  grows := first.grows.trans second.grows
  owned := second.owned
  spaces := second.spaces.trans first.spaces
  memoryMap := second.memoryMap.trans first.memoryMap
  next := Nat.le_trans first.next second.next
  kernelCr3 := second.kernelCr3.trans first.kernelCr3
  spared f taken other := by
    have same := first.grows f taken
    rw [second.spared f (by rwa [same]) (fun path => by rw [same]; exact other path),
      first.spared f taken other]
  kept f i at_leaf := (second.kept f i (at_leaf.builds first)).trans (first.kept f i at_leaf)
  nothing f i at_leaf := first.nothing f i (second.nothing f i at_leaf)
  privates r i bound own := second.privates r i bound (first.privates r i bound own)
  byte f taken := (second.byte f (by rwa [first.grows f taken])).trans (first.byte f taken)

theorem Private.root {owner : Frame → Owner} {m : MemoryManager} {r : Frame} (own : Private owner m r) :
    owner r = .table r [] := (own 0 (by decide)).1

theorem Private.builds {r' : Frame} (builds : Builds r owner m owner' m') (own : Private owner m r') :
    Private owner' m' r' := fun i bound => builds.privates r' i bound (own i bound)

theorem Builds.slots (builds : Builds r owner m owner' m') (owned : Owned owner m) (i : Nat) :
    m'.PrivateSlot i ↔ m.PrivateSlot i := by
  have same := builds.spared m.kernelCr3 (by simp [owned.kernel]) (by simp [owned.kernel])
  simp [MemoryManager.PrivateSlot, builds.kernelCr3, same]

end PickleOS.Memory
