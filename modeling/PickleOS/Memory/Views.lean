import PickleOS.Memory.Mapping

set_option autoImplicit false

namespace PickleOS.Memory

variable {owner owner' : Frame → Owner} {m m' : MemoryManager} {f t r new : Frame} {i k q page : Nat}

theorem kernel_tableAt (owned : Owned owner m) (upper : k ≤ 3) (found : m.tableAt m.kernelCr3 k page = some t) :
    owner t = .kernel k (0 < k ∧ slot 0 page = 0) := by
  -- The tables below the kernel's level-4 table are the kernel's, and below its first slot they are low ones.
  induction k generalizing t with
  | zero =>
    cases found
    simp [owned.kernel]
  | succ k ih =>
    obtain ⟨t', above, used, small, rfl⟩ := tableAt_above found
    have label := ih (by omega) above
    have fits := (owned.entries t' (slot k page) (slot_lt _ _)).resolve_left used
    rw [label] at fits
    simp only [show k < 3 by omega, if_true] at fits
    cases fits.2 with
    | inl huge => simp [huge.1] at small
    | inr next =>
      rw [next.2]
      by_cases root : k = 0
      · simp [root]
      · simp [root, Nat.pos_of_ne_zero root]

theorem Owned.kernel_plain (owned : Owned owner m) : (m.lookup m.kernelCr3 3 q).flags.user = false := by
  unfold MemoryManager.lookup
  cases found : m.tableAt m.kernelCr3 3 q with
  | none => rfl
  | some t =>
    have fits := owned.entries t (slot 3 q) (slot_lt _ _)
    rw [kernel_tableAt owned (Nat.le_refl 3) found] at fits
    cases fits with
    | inl unused => simp [Entry.unused_flags unused]
    | inr plain => simpa using plain

theorem lookup_kernel (owned : Owned owner m) (root : m'.kernelCr3 = m.kernelCr3)
    (same : ∀ g depth low, owner g = .kernel depth low → m'.table g = m.table g) (upper : k ≤ 3) :
    m'.lookup m'.kernelCr3 k q = m.lookup m.kernelCr3 k q := by
  -- The kernel's own view does not change while its tables stay.
  have above (k : Nat) (upper : k ≤ 3) : m'.tableAt m'.kernelCr3 k q = m.tableAt m.kernelCr3 k q := by
    induction k with
    | zero => simp [MemoryManager.tableAt, root]
    | succ k ih =>
      simp only [MemoryManager.tableAt, ih (by omega)]
      cases found : m.tableAt m.kernelCr3 k q with
      | none => rfl
      | some t => simp [same t _ _ (kernel_tableAt owned (by omega) found)]
  simp only [MemoryManager.lookup, above k upper]
  cases found : m.tableAt m.kernelCr3 k q with
  | none => rfl
  | some t => simp [same t _ _ (kernel_tableAt owned upper found)]

theorem tableAt_next (found : m.tableAt r k q = some t) : m.tableAt r (k + 1) q =
    if (m.table t (slot k q)).IsUnused ∨ (m.table t (slot k q)).flags.huge then none else
      some (m.table t (slot k q)).frame := by
  simp [MemoryManager.tableAt, found]

theorem CopyOf.next {levels : Nat} {below : Frame → Frame → Prop}
    {e e' : Entry} (copy : CopyOf levels below e e')
    (upper : levels ≠ 0) : (e.IsUnused ∨ e.flags.huge) ∧ (e'.IsUnused ∨ e'.flags.huge) ∨
      ¬(e.IsUnused ∨ e.flags.huge) ∧ ¬(e'.IsUnused ∨ e'.flags.huge) ∧ below e.frame e'.frame := by
  obtain ⟨flags, unused, next⟩ := copy
  rw [if_neg upper] at next
  rw [flags, unused]
  by_cases ends : e'.IsUnused ∨ e'.flags.huge = true
  · exact Or.inl ⟨ends, ends⟩
  · exact Or.inr ⟨ends, ends, next (fun unused => ends (Or.inl unused))⟩

theorem Created.tables (created : Created owner m new) (low : slot 0 q = 0) (upper : k < 3) :
    m.tableAt new (k + 1) q = none ∧ m.tableAt m.kernelCr3 (k + 1) q = none ∨
      ∃ f g, m.tableAt new (k + 1) q = some f ∧ m.tableAt m.kernelCr3 (k + 1) q = some g ∧
        Mirrors owner m new (3 - k) (pathTo (k + 1) q) f g := by
  -- Below its first slot a new address space goes through copies of the kernel's tables.
  induction k with
  | zero =>
    have path : pathTo 1 q = [0] := by rw [pathTo_succ, low]; rfl
    cases created.first.next (by decide) with
    | inl ends =>
      left
      simp [MemoryManager.tableAt, low, ends.1, ends.2]
    | inr goes =>
      obtain ⟨here, there, mirrors⟩ := goes
      right
      rw [path]
      exact ⟨_, _, by simp [MemoryManager.tableAt, low, here],
        by simp [MemoryManager.tableAt, low, there], mirrors⟩
  | succ k ih =>
    cases ih (by omega) with
    | inl ends => exact Or.inl ⟨tableAt_none ends.1 (Nat.le_succ _), tableAt_none ends.2 (Nat.le_succ _)⟩
    | inr goes =>
      obtain ⟨f, g, here, there, mirrors⟩ := goes
      rw [show 3 - k = 3 - (k + 1) + 1 by omega] at mirrors
      have copy := mirrors.2.2 (slot (k + 1) q) (slot_lt _ _)
      rw [← pathTo_succ] at copy
      rw [tableAt_next here, tableAt_next there]
      cases copy.next (by omega) with
      | inl ends => exact Or.inl ⟨if_pos ends.1, if_pos ends.2⟩
      | inr goes => exact Or.inr ⟨_, _, if_neg goes.1, if_neg goes.2.1, goes.2.2⟩

theorem Created.lookup (created : Created owner m new) : m.lookup new 3 q = m.lookup m.kernelCr3 3 q := by
  -- A new address space shows what the kernel's shows.
  by_cases low : slot 0 q = 0
  · simp only [MemoryManager.lookup]
    cases created.tables low (k := 2) (by decide) with
    | inl ends => rw [ends.1, ends.2]
    | inr goes =>
      obtain ⟨f, g, here, there, mirrors⟩ := goes
      rw [here, there]
      have copy := (mirrors.2.2 (slot 3 q) (slot_lt _ _)).2.2
      rwa [if_pos rfl] at copy
  · -- Other slots lead to the kernel's own tables.
    have shared : m.table new (slot 0 q) = m.table m.kernelCr3 (slot 0 q) := created.shared _ (slot_lt _ _) low
    have tables (k : Nat) : m.tableAt new (k + 1) q = m.tableAt m.kernelCr3 (k + 1) q := by
      induction k with
      | zero => simp [MemoryManager.tableAt, shared]
      | succ k ih =>
        cases found : m.tableAt m.kernelCr3 (k + 1) q with
        | none => rw [tableAt_none (ih.trans found) (Nat.le_succ _), tableAt_none found (Nat.le_succ _)]
        | some t => rw [tableAt_next (ih.trans found), tableAt_next found]
    simp only [MemoryManager.lookup, tables 2]

def MemoryManager.framesLeft (m : MemoryManager) : Nat :=
  m.frameAllocator.usableFrames.length - m.frameAllocator.next

theorem framesLeft_allocated (fresh : m.allocateFrame = (some f, m')) : m'.framesLeft + 1 = m.framesLeft := by
  simp only [MemoryManager.allocateFrame, Prod.mk.injEq] at fresh
  obtain ⟨found, rfl⟩ := fresh
  have bound := (List.getElem?_eq_some_iff.mp found).1
  simp only [MemoryManager.framesLeft, show ∀ a : BootInfoFrameAllocator, ({ a with next := a.next + 1 } :
    BootInfoFrameAllocator).usableFrames = a.usableFrames from fun _ => rfl]
  omega

structure Spares (owner : Frame → Owner) (m : MemoryManager) (owner' : Frame → Owner) (m' : MemoryManager)
    (changes : Frame → Nat → Prop) : Prop where
  grows : Extends owner owner'
  kernelCr3 : m'.kernelCr3 = m.kernelCr3
  kernel : ∀ g depth low, owner g = .kernel depth low → m'.table g = m.table g
  frames : m'.frameAllocator.usableFrames = m.frameAllocator.usableFrames
  next : m.frameAllocator.next ≤ m'.frameAllocator.next
  spaces : m.userPageTables ⊆ m'.userPageTables
  lookup : ∀ r q, owner r = .table r [] → ¬changes r q → m'.lookup r 3 q = m.lookup r 3 q

namespace Spares

variable {owner'' : Frame → Owner} {m'' : MemoryManager} {changes changes' : Frame → Nat → Prop}

theorem refl (owner : Frame → Owner) (m : MemoryManager) (changes : Frame → Nat → Prop) :
    Spares owner m owner m changes where
  grows := .refl owner
  kernelCr3 := rfl
  kernel _ _ _ _ := rfl
  frames := rfl
  next := Nat.le_refl _
  spaces := fun _ member => member
  lookup _ _ _ _ := rfl

theorem trans (first : Spares owner m owner' m' changes) (second : Spares owner' m' owner'' m'' changes') :
    Spares owner m owner'' m'' fun r q => changes r q ∨ changes' r q where
  grows := first.grows.trans second.grows
  kernelCr3 := second.kernelCr3.trans first.kernelCr3
  kernel g depth low label := by
    have label' : owner' g = .kernel depth low := by rw [first.grows g (by simp [label]), label]
    rw [second.kernel g depth low label', first.kernel g depth low label]
  frames := second.frames.trans first.frames
  next := Nat.le_trans first.next second.next
  spaces := List.Subset.trans first.spaces second.spaces
  lookup r q root same := by
    have root' : owner' r = .table r [] := by rw [first.grows r (by simp [root]), root]
    rw [second.lookup r q root' fun changed => same (.inr changed), first.lookup r q root fun changed =>
      same (.inl changed)]

theorem mono (spares : Spares owner m owner' m' changes)
    (more : ∀ r q, owner r = .table r [] → changes r q → changes' r q) :
    Spares owner m owner' m' changes' :=
  { spares with lookup :=
    fun r q root same => spares.lookup r q root fun changed => same (more r q root changed) }

theorem slots (spares : Spares owner m owner' m' changes) (owned : Owned owner m) (i : Nat) :
    m'.PrivateSlot i ↔ m.PrivateSlot i := by
  rw [MemoryManager.PrivateSlot, MemoryManager.PrivateSlot, spares.kernelCr3, spares.kernel _ _ _ owned.kernel]

theorem framesLeft (spares : Spares owner m owner' m' changes) : m'.framesLeft ≤ m.framesLeft := by
  unfold MemoryManager.framesLeft
  rw [spares.frames]
  exact Nat.sub_le_sub_left spares.next _

theorem outOfFrames (spares : Spares owner m owner' m' changes) (exhausted : m.OutOfFrames) :
    m'.OutOfFrames := by
  unfold MemoryManager.OutOfFrames at *
  rw [spares.frames]
  exact Nat.lt_of_lt_of_le exhausted spares.next

theorem lookup_kernel (spares : Spares owner m owner' m' changes) (owned : Owned owner m) :
    m'.lookup m'.kernelCr3 3 q = m.lookup m.kernelCr3 3 q :=
  Memory.lookup_kernel owned spares.kernelCr3 spares.kernel (Nat.le_refl 3)

end Spares

theorem Builds.usableFrames (builds : Builds r owner m owner' m') :
    m'.frameAllocator.usableFrames = m.frameAllocator.usableFrames := by
  unfold BootInfoFrameAllocator.usableFrames
  rw [builds.memoryMap]

theorem Builds.kernel (builds : Builds r owner m owner' m')
    {g : Frame} {depth : Nat} {low : Bool} (label : owner g = .kernel depth low) :
    m'.table g = m.table g :=
  builds.spared g (by simp [label]) (by simp [label])

theorem Builds.spares_of (builds : Builds r owner m owner' m')
    (lookup : ∀ r' q, owner r' = .table r' [] → m'.lookup r' 3 q = m.lookup r' 3 q) :
      Spares owner m owner' m' fun _ _ => False where
  grows := builds.grows
  kernelCr3 := builds.kernelCr3
  kernel _ _ _ label := builds.kernel label
  frames := builds.usableFrames
  next := builds.next
  spaces := by
    rw [builds.spaces]
    exact fun _ member => member
  lookup r' q root _ := lookup r' q root

theorem Builds.spares_new (builds : Builds r owner m owner' m') (owned : Owned owner m)
    (fresh : owner r = .free) :
    Spares owner m owner' m' fun _ _ => False := by
  -- A new address space is built.
  refine builds.spares_of fun r' q root => builds.lookup_other owned root (fun same => ?_) (Nat.le_refl 3)
  rw [same, fresh] at root
  cases root

theorem Builds.spares (builds : Builds r owner m owner' m') (owned : Owned owner m)
    (own : ∀ q, m'.lookup r 3 q = m.lookup r 3 q) : Spares owner m owner' m' fun _ _ => False := by
  -- Other address spaces are left alone.
  refine builds.spares_of fun r' q root => ?_
  by_cases same : r' = r
  · rw [same, own]
  · exact builds.lookup_other owned root same (Nat.le_refl 3)

theorem Spares.store (owner : Frame → Owner) (m : MemoryManager) (cr3 : Frame) :
    Spares owner m owner (m.storeUserMapper cr3) fun _ _ => False where
  grows := .refl owner
  kernelCr3 := rfl
  kernel _ _ _ _ := rfl
  frames := rfl
  next := Nat.le_refl _
  spaces := fun _ member => List.mem_append_left _ member
  lookup r q _ _ := lookup_table rfl r 3 q

theorem Spares.setPage (owner : Frame → Owner) (m : MemoryManager) (f : Frame) (contents : Nat → UInt8) :
    Spares owner m owner (m.setPage f contents) fun _ _ => False where
  grows := .refl owner
  kernelCr3 := rfl
  kernel _ _ _ _ := rfl
  frames := rfl
  next := Nat.le_refl _
  spaces := fun _ member => member
  lookup r q _ _ := lookup_table rfl r 3 q

theorem Owned.spares_setLeaf {e : Entry} (owned : Owned owner m) (label : owner t = .table r (pathTo 3 page))
    (found : m.tableAt r 3 page = some t) :
    Spares owner m owner (m.setEntry t (slot 3 page) e) fun r' q => r' = r ∧ pathTo 4 q = pathTo 4 page where
  -- A leaf is set.
  grows := .refl owner
  kernelCr3 := rfl
  kernel g depth low kernel := by
    have other : g ≠ t := fun same => by
      rw [same, label] at kernel
      cases kernel
    funext j
    simp [setEntry_table, other]
  frames := rfl
  next := Nat.le_refl _
  spaces := fun _ member => member
  lookup r' q root same := by
    by_cases own : r' = r
    · subst own
      rw [lookup_setLeaf owned root label found (Nat.le_refl 3), if_neg fun here => same ⟨rfl, here.2⟩]
    · exact lookup_setLeaf_other owned root own label (Nat.le_refl 3)

end PickleOS.Memory
