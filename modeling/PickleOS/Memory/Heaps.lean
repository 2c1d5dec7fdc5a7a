import PickleOS.Memory.Programs
import Mathlib.Data.List.Perm.Subperm

set_option autoImplicit false

/-!
# Heaps

Every task has an address from which its next `mmap` takes pages. A system call runs with interrupts
off, so that calls come one after the other.
-/

namespace PickleOS.Memory

open Shared.Machine

/-- The fields of a task that `mmap` goes by. -/
structure Task where
  userCr3 : Option Frame
  mmapNext : Nat
  deriving DecidableEq

/-- `map_user_region` from an address on; `none` is a panic of the kernel. -/
def MemoryManager.mapUserRegionAt (x : Mapper) (userCr3 : Frame) (writable : Bool) (start count : Nat)
    (m : MemoryManager) :
    Option (Bool × MemoryManager) :=
  (x.virtAddr start).bind fun first =>
    -- `start_page + i` is a new address for each page that the loop comes to.
    if ∃ i, i < count ∧ x.virtAddr ((first / 4096 + i) * 4096 % 2 ^ 64) = none ∧
        (m.mapUserRegion x userCr3 writable (first / 4096) i).1 then none
    else some (m.mapUserRegion x userCr3 writable (first / 4096) count)

def pageCount (len : Nat) : Nat := (len + 4095) % 2 ^ 64 / 4096

/-- `sys_mmap_impl`, in which `addr` and `prot` have no part; `none` is a panic of the kernel. -/
def Task.sysMmap (t : Task) (x : Mapper) (len : Nat) (m : MemoryManager) :
    Option (Except Unit Nat × Task × MemoryManager) :=
  if len = 0 then some (.error (), t, m)
  else
    match t.userCr3 with
    | none => some (.error (), t, m)
    | some cr3 =>
      (m.mapUserRegionAt x cr3 true t.mmapNext (pageCount len)).map fun r =>
        (if r.1 then .ok t.mmapNext else .error (),
        { t with mmapNext := (t.mmapNext + pageCount len * 4096) % 2 ^ 64 }, r.2)

structure Heaps where
  memory : MemoryManager
  tasks : TaskId → Option Task
  nextId : TaskId

namespace Heaps

variable (s : Heaps)

def set (id : TaskId) (t : Task) (m : MemoryManager) : Heaps :=
  { s with memory := m, tasks := Function.update s.tasks id (some t) }

def add (t : Task) (m : MemoryManager) : Heaps := { s.set s.nextId t m with nextId := s.nextId + 1 }

end Heaps

inductive HeapCall where
  | spawnKernelTask
  | spawnUserTask (pages : List UserPage)
  | fork (id : TaskId)
  | mmap (id : TaskId) (len : Nat)
  | munmap (id : TaskId) (addr len : Nat)
  | fault (id : TaskId) (page : Nat)

def serve (x : Mapper) (s : Heaps) : HeapCall → Option Heaps
  | .spawnKernelTask => some (s.add ⟨none, USER_HEAP_START⟩ s.memory)
  | .spawnUserTask pages =>
    s.memory.createUserMapper.map fun (new, m) =>
      match m.loadPages x new pages with
      | (true, m) => s.add ⟨some new, USER_HEAP_START⟩ (m.storeUserMapper new)
      | (false, m) => { s with memory := m }
  | .fork id =>
    (s.tasks id).bind fun t =>
      match t.userCr3 with
      | none => some s
      | some cr3 =>
        (s.memory.cowForkAddressSpace x cr3).map fun (child, m) => s.add ⟨some child, USER_HEAP_START⟩ m
  | .mmap id len => (s.tasks id).bind fun t => (t.sysMmap x len s.memory).map fun (_, t, m) => s.set id t m
  | .munmap id addr len =>
    (s.tasks id).bind fun t =>
      match t.userCr3 with
      | none => some s
      | some cr3 => some { s with memory := (s.memory.sysMunmap x cr3 addr len).2 }
  | .fault id page =>
    (s.tasks id).bind fun t => t.userCr3.bind fun cr3 => (s.memory.resolveCow cr3 page).map fun m =>
      { s with memory := m }

def USER_STACK_TOP : Nat := 0x7FFF_FFFF_F000
def STACK_PAGES : Nat := 8

/-- The pages from the start of the heap up to the stack. -/
def HeapWindow (page : Nat) : Prop :=
  USER_HEAP_START ≤ page * 4096 ∧ page * 4096 < USER_STACK_TOP - STACK_PAGES * 4096

/-- No page from an address of the heap window on is mapped for the user. -/
def Clear (m : MemoryManager) (cr3 : Frame) (start : Nat) : Prop :=
  ∀ page f flags, HeapWindow page → start ≤ page * 4096 → Translates m cr3 page (some (f, flags)) →
    flags.user = false

/-- The pages for which an `mmap` finds frames lie under slots that are private to the process. -/
def PrivateRegion (t : Task) (m : MemoryManager) (len : Nat) : Prop :=
  ∀ i, i < pageCount len → i < m.framesLeft → m.PrivateSlot (slot 0 (t.mmapNext / 4096 + i))

/-- An `mmap` that fits the window does not fail before memory has run out. -/
def Served (x : Mapper) (t : Task) (m : MemoryManager) : Prop :=
  ∀ len, 0 < len → t.userCr3.isSome → PrivateRegion t m len →
    t.mmapNext + pageCount len * 4096 ≤ USER_STACK_TOP - STACK_PAGES * 4096 →
    ∃ result t' m', t.sysMmap x len m = some (result, t', m') ∧ (result = .ok t.mmapNext ∨ m'.OutOfFrames)

/-- No task forks while it has a user page in the heap window, no `mmap` carries the pointer past 64
bits, and user pages lie under private slots, those of a program outside the heap window. -/
def Orderly (s : Heaps) : HeapCall → Prop
  | .spawnUserTask pages =>
    ∀ p, p ∈ pages → ¬HeapWindow (p.page % 512 ^ 4) ∧ s.memory.PrivateSlot (slot 0 p.page)
  | .fork id => ∀ t cr3, s.tasks id = some t → t.userCr3 = some cr3 → Clear s.memory cr3 USER_HEAP_START
  | .mmap id len =>
    ∀ t, s.tasks id = some t → t.mmapNext + pageCount len * 4096 < 2 ^ 64 ∧ PrivateRegion t s.memory len
  | .spawnKernelTask | .munmap .. | .fault .. => True

variable {owner owner' : Frame → Owner} {m m' : MemoryManager} {s s' : Heaps} {t : Task} {cr3 : Frame}
    {id : TaskId}

/-- The pages that the next `mmap` of a task may take are not mapped. -/
structure Settled (m : MemoryManager) (t : Task) (cr3 : Frame) : Prop where
  space : cr3 ∈ m.userPageTables
  aligned : 4096 ∣ t.mmapNext
  above : USER_HEAP_START ≤ t.mmapNext
  vacant : ∀ q, HeapWindow q → t.mmapNext ≤ q * 4096 → m.PrivateSlot (slot 0 q) → (m.lookup cr3 3 q).IsUnused

structure Tidy (owner : Frame → Owner) (s : Heaps) : Prop where
  sound : Sound owner s.memory
  kernel : ∀ q, HeapWindow q → s.memory.PrivateSlot (slot 0 q) →
    (s.memory.lookup s.memory.kernelCr3 3 q).IsUnused
  tasks : ∀ id t cr3, s.tasks id = some t → t.userCr3 = some cr3 → Settled s.memory t cr3
  apart : ∀ id id' t t' cr3, s.tasks id = some t → s.tasks id' = some t' → t.userCr3 = some cr3 →
    t'.userCr3 = some cr3 → id = id'
  ids : ∀ id t, s.tasks id = some t → id < s.nextId

theorem Mapper.virtAddr_low (x : Mapper) {addr : Nat} (low : addr < USER_STACK_TOP) :
    x.virtAddr addr = some addr := by
  -- A page of the heap window has an address of its own.
  simp only [USER_STACK_TOP] at low
  exact x.virtAddr_same (Or.inl (by omega))

theorem HeapWindow.low {q : Nat} (window : HeapWindow q) : q % 512 ^ 4 = q := by
  obtain ⟨_, below⟩ := window
  simp only [USER_STACK_TOP, STACK_PAGES] at below
  exact Nat.mod_eq_of_lt (by omega)

theorem Settled.spares {changes : Frame → Nat → Prop} (settled : Settled m t cr3) (owned : Owned owner m)
    (spares : Spares owner m owner' m' changes)
    (off : ∀ q, HeapWindow q → t.mmapNext ≤ q * 4096 → (m.lookup cr3 3 q).IsUnused → ¬changes cr3 q) :
      Settled m' t cr3 := by
  refine ⟨spares.spaces settled.space, settled.aligned, settled.above, fun q window later slots => ?_⟩
  have vacant := settled.vacant q window later ((spares.slots owned _).mp slots)
  rw [spares.lookup cr3 q (owned.roots cr3 settled.space).root (off q window later vacant)]
  exact vacant

theorem Settled.clear (settled : Settled m t cr3) (owned : Owned owner m) : Clear m cr3 t.mmapNext := by
  -- Nothing that a settled task has at or above its pointer is mapped for its user.
  intro q f flags window later translates
  by_contra user
  have root := (owned.roots cr3 settled.space).root
  have leaf := translates.leaf owned root (by simpa using user)
  have user' : (m.lookup cr3 3 q).flags.user = true := by
    rw [leaf]
    simpa using user
  obtain ⟨g, _, label, _⟩ := lookup_user owned root user'
  have slots : m.PrivateSlot (slot 0 q) := owned.slots g cr3 (slot 0 q) _ label
  simp [Entry.unused_flags (settled.vacant q window later slots)] at user'

namespace Tidy

theorem keep {changes : Frame → Nat → Prop} (tidy : Tidy owner s) (sound : Sound owner' m')
    (spares : Spares owner s.memory owner' m' changes)
    (off : ∀ id t cr3, s.tasks id = some t → t.userCr3 = some cr3 → ∀ q, HeapWindow q →
      t.mmapNext ≤ q * 4096 →
      (s.memory.lookup cr3 3 q).IsUnused → ¬changes cr3 q) : Tidy owner' { s with memory := m' } where
  -- Memory changes, but nothing that a task may still take.
  sound := sound
  kernel q window slots := by
    rw [spares.lookup_kernel tidy.sound.1]
    exact tidy.kernel q window ((spares.slots tidy.sound.1 _).mp slots)
  tasks id t cr3 task space :=
    (tidy.tasks id t cr3 task space).spares tidy.sound.1 spares (off id t cr3 task space)
  apart := tidy.apart
  ids := tidy.ids

theorem put (tidy : Tidy owner s) (id : TaskId) (t : Task)
    {next : TaskId} (settled : ∀ cr3, t.userCr3 = some cr3 → Settled s.memory t cr3)
    (apart : ∀ id' t' cr3, s.tasks id' = some t' → t'.userCr3 = some cr3 → t.userCr3 = some cr3 → id' = id)
    (later : s.nextId ≤ next) (known : id < next) :
    Tidy owner { s with tasks := Function.update s.tasks id (some t), nextId := next } where
  -- A task is added, or takes over an entry whose address space it keeps.
  sound := tidy.sound
  kernel := tidy.kernel
  tasks id' t' cr3 task space := by
    simp only [Function.update_apply] at task
    split at task
    · cases task
      exact settled cr3 space
    · exact tidy.tasks id' t' cr3 task space
  apart id₁ id₂ t₁ t₂ cr3 task₁ task₂ space₁ space₂ := by
    simp only [Function.update_apply] at task₁ task₂
    split at task₁ <;> rename_i first <;> split at task₂ <;> rename_i second
    · rw [first, second]
    · cases task₁
      exact first.trans (apart id₂ t₂ cr3 task₂ space₂ space₁).symm
    · cases task₂
      exact (apart id₁ t₁ cr3 task₁ space₁ space₂).trans second.symm
    · exact tidy.apart id₁ id₂ t₁ t₂ cr3 task₁ task₂ space₁ space₂
  ids id' t' task := by
    simp only [Function.update_apply] at task
    split at task <;> rename_i here
    · rw [here]
      exact known
    · exact Nat.lt_of_lt_of_le (tidy.ids id' t' task) later

end Tidy

theorem pathTo_virtAddr {x : Mapper} {addr first : Nat} (i : Nat) (fine : x.virtAddr addr = some first) :
    pathTo 4 (first / 4096 + i) = pathTo 4 (addr / 4096 + i) ∧
    slot 0 (first / 4096 + i) = slot 0 (addr / 4096 + i) := by
  -- The bits above the 48 are no part of a slot.
  rcases x.virtAddr_some fine with rfl | ⟨_, rfl⟩
  · exact ⟨rfl, rfl⟩
  · simp only [pathTo_eq, slot, Nat.reducePow, Nat.reduceSub]
    omega

theorem sysMmap_low {x : Mapper} {len : Nat} (space : t.userCr3 = some cr3) (positive : 0 < len)
    (low : t.mmapNext < USER_STACK_TOP)
    (reached : ∀ i, i < pageCount len → (m.mapUserRegion x cr3 true (t.mmapNext / 4096) i).1 = true →
      (t.mmapNext / 4096 + i) * 4096 < USER_STACK_TOP) :
    t.sysMmap x len m = some
      (if (m.mapUserRegion x cr3 true (t.mmapNext / 4096) (pageCount len)).1 then .ok t.mmapNext else .error (),
        { t with mmapNext := (t.mmapNext + pageCount len * 4096) % 2 ^ 64 },
        (m.mapUserRegion x cr3 true (t.mmapNext / 4096) (pageCount len)).2) := by
  -- An `mmap` that comes to no page above the stack does not panic.
  have canonical : ¬∃ i, i < pageCount len ∧ x.virtAddr ((t.mmapNext / 4096 + i) * 4096 % 2 ^ 64) = none ∧
      (m.mapUserRegion x cr3 true (t.mmapNext / 4096) i).1 := by
    rintro ⟨i, before, refused, mapped⟩
    have below := reached i before mapped
    rw [Nat.mod_eq_of_lt (Nat.lt_trans below (by simp [USER_STACK_TOP])), x.virtAddr_low below] at refused
    cases refused
  simp only [Task.sysMmap, Nat.ne_of_gt positive, if_false, space, MemoryManager.mapUserRegionAt,
    x.virtAddr_low low,
    Option.bind_some, canonical, Option.map_some]

theorem Settled.served (x : Mapper) (sound : Sound owner m)
    (settled : ∀ cr3, t.userCr3 = some cr3 → Settled m t cr3) :
    Served x t m := by
  intro len positive user region fits
  obtain ⟨cr3, space⟩ := Option.isSome_iff_exists.mp user
  obtain ⟨space', aligned, above, vacant⟩ := settled cr3 space
  have bound : t.mmapNext + pageCount len * 4096 < USER_STACK_TOP := Nat.lt_of_le_of_lt fits (by decide)
  have page (i : Nat) : (t.mmapNext / 4096 + i) * 4096 = t.mmapNext + i * 4096 := by omega
  obtain ⟨owner', _, _, done⟩ := sound.mapUserRegion x true (sound.1.roots cr3 space') region
  refine ⟨_, _, _, sysMmap_low space positive (Nat.lt_of_le_of_lt (Nat.le_add_right _ _) bound)
    fun i before _ => ?_, ?_⟩
  · rw [page]
    exact Nat.lt_of_le_of_lt (Nat.add_le_add_left (Nat.mul_le_mul_right 4096 (Nat.le_of_lt before)) _) bound
  · have room : t.mmapNext / 4096 + pageCount len ≤ 512 ^ 4 := by
      simp only [USER_STACK_TOP] at bound
      omega
    refine (done room fun i before room => ?_).imp_left (if_pos ·)
    have window : HeapWindow (t.mmapNext / 4096 + i) := by
      refine ⟨?_, ?_⟩ <;> rw [page]
      · exact Nat.le_trans above (Nat.le_add_right _ _)
      · exact Nat.lt_of_lt_of_le (Nat.add_lt_add_left (Nat.mul_lt_mul_of_pos_right before (by decide)) _) fits
    exact vacant _ window (by rw [page]; exact Nat.le_add_right _ _) (region i before room)

theorem Sound.sysMmap {x : Mapper} {len : Nat} {result : Except Unit Nat} {t' : Task} (sound : Sound owner m)
    (spaces : ∀ cr3, t.userCr3 = some cr3 → cr3 ∈ m.userPageTables) (region : PrivateRegion t m len)
    (done : t.sysMmap x len m = some (result, t', m')) :
    ∃ owner', Sound owner' m' ∧
      (Spares owner m owner' m' fun r q =>
        t.userCr3 = some r ∧ ∃ i, i < pageCount len ∧ pathTo 4 q = pathTo 4 (t.mmapNext / 4096 + i)) ∧
      (t' = t ∧ m' = m ∨ t' = { t with mmapNext := (t.mmapNext + pageCount len * 4096) % 2 ^ 64 }) := by
  -- An `mmap` is refused at once, or it moves the pointer whether or not it succeeds.
  unfold Task.sysMmap at done
  split at done
  · cases done
    exact ⟨owner, sound, .refl owner m _, Or.inl ⟨rfl, rfl⟩⟩
  · split at done <;> rename_i space
    · cases done
      exact ⟨owner, sound, .refl owner m _, Or.inl ⟨rfl, rfl⟩⟩
    · simp only [MemoryManager.mapUserRegionAt, Option.map_eq_some_iff, Option.bind_eq_some_iff] at done
      obtain ⟨r, ⟨first, fine, mapped⟩, same⟩ := done
      split at mapped
      · cases mapped
      · cases mapped
        cases same
        obtain ⟨owner', sound', spares, _⟩ :=
          sound.mapUserRegion x true (sound.1.roots _ (spaces _ space)) fun i bound room => by
          rw [(pathTo_virtAddr i fine).2]
          exact region i bound room
        refine ⟨owner', sound', spares.mono fun r q _ changed => ?_, Or.inr rfl⟩
        obtain ⟨rfl, i, bound, _, same⟩ := changed
        exact ⟨space, i, bound, same.trans (pathTo_virtAddr i fine).1⟩

theorem Settled.bump {count : Nat} (settled : Settled m t cr3) (fits : t.mmapNext + count * 4096 < 2 ^ 64) :
    Settled m { t with mmapNext := (t.mmapNext + count * 4096) % 2 ^ 64 } cr3 := by
  -- The pointer of a task only moves up.
  obtain ⟨space, aligned, above, vacant⟩ := settled
  rw [Nat.mod_eq_of_lt fits]
  exact ⟨space, Nat.dvd_add aligned (Nat.dvd_mul_left _ _), Nat.le_trans above (Nat.le_add_right _ _),
    fun q window later slots => vacant q window (Nat.le_trans (Nat.le_add_right _ _) later) slots⟩

namespace Tidy

theorem mmap {x : Mapper} {len : Nat} {result : Except Unit Nat} {t' : Task} (tidy : Tidy owner s)
    (task : s.tasks id = some t)
    (fits : t.mmapNext + pageCount len * 4096 < 2 ^ 64) (region : PrivateRegion t s.memory len)
    (done : t.sysMmap x len s.memory = some (result, t', m')) : ∃ owner', Tidy owner' (s.set id t' m') := by
  obtain ⟨owner', sound', spares, moved⟩ :=
    tidy.sound.sysMmap (fun cr3 space => (tidy.tasks id t cr3 task space).space) region done
  rcases moved with ⟨rfl, rfl⟩ | rfl
  · refine ⟨owner, ?_⟩
    rw [Heaps.set, Function.update_eq_self_iff.mpr task.symm]
    exact tidy
  · have bumped := tidy.put id { t with mmapNext := (t.mmapNext + pageCount len * 4096) % 2 ^ 64 }
      (fun cr3' space' => (tidy.tasks id t cr3' task space').bump fits)
      (fun id' t' cr3' task' space' here => (tidy.apart id id' t t' cr3' task task' here space').symm)
      (Nat.le_refl _) (tidy.ids id t task)
    refine ⟨owner', bumped.keep sound' spares fun id' t' cr3' task' space' q window later _ changed => ?_⟩
    obtain ⟨space, i, bound, same⟩ := changed
    simp only [Function.update_apply] at task'
    split at task' <;> rename_i here
    · cases task'
      -- The pages end below the new pointer.
      simp only [Nat.mod_eq_of_lt fits] at later
      have aligned := (tidy.tasks id t cr3' task space).aligned
      have below := window.2
      simp only [USER_STACK_TOP, STACK_PAGES] at below
      rw [pathTo_eq, window.low, Nat.mod_eq_of_lt (by omega)] at same
      omega
    · exact here (tidy.apart id' id t' t cr3' task' task space' space)

theorem add {child : Frame} (tidy : Tidy owner { s with memory := m' }) (space : child ∈ m'.userPageTables)
    (fresh : ∀ id t, s.tasks id = some t → t.userCr3 ≠ some child)
    (vacant : ∀ q, HeapWindow q → m'.PrivateSlot (slot 0 q) → (m'.lookup child 3 q).IsUnused) :
    Tidy owner (s.add ⟨some child, USER_HEAP_START⟩ m') := by
  -- A task with an address space of its own, of which the heap window shows nothing.
  refine tidy.put s.nextId ⟨some child, USER_HEAP_START⟩ (fun cr3 here => ?_)
    (fun id t cr3 task space here => ?_)
    (Nat.le_succ _) (Nat.lt_succ_self _)
  · cases here
    exact ⟨space, show 4096 ∣ USER_HEAP_START by decide, Nat.le_refl _,
      fun q window _ slots => vacant q window slots⟩
  · cases here
    exact absurd space (fresh id t task)

theorem fresh {child : Frame} (tidy : Tidy owner s) (free : owner child = .free)
    {id : TaskId} (task : s.tasks id = some t) :
    t.userCr3 ≠ some child := by
  intro space
  have root := (tidy.sound.1.roots child (tidy.tasks id t child task space).space).root
  rw [free] at root
  cases root

theorem spawn {x : Mapper} {pages : List UserPage} (tidy : Tidy owner s)
    (orderly : Orderly s (.spawnUserTask pages))
    (taken : serve x s (.spawnUserTask pages) = some s') : ∃ owner', Tidy owner' s' := by
  simp only [serve, Option.map_eq_some_iff] at taken
  obtain ⟨⟨new, m₁⟩, created, rfl⟩ := taken
  obtain ⟨owner', sound', private', free, spares, view⟩ :=
    tidy.sound.load x created (fun p member => (orderly p member).2)
  rcases loaded : m₁.loadPages x new pages with ⟨_ | _, m₂⟩
  · rw [loaded] at sound' spares
    exact ⟨owner', tidy.keep sound' spares fun _ _ _ _ _ _ _ _ _ => id⟩
  · rw [loaded] at sound' private' spares view
    have stored := spares.trans (Spares.store owner' m₂ new)
    have kept := tidy.keep (sound'.store private') stored fun _ _ _ _ _ _ _ _ _ never => never.elim id id
    refine ⟨owner', kept.add (by simp [MemoryManager.storeUserMapper])
      (fun id t task => tidy.fresh free task) fun q window slots => ?_⟩
    have slots' : s.memory.PrivateSlot (slot 0 q) := (stored.slots tidy.sound.1 _).mp slots
    rw [(Spares.store owner' m₂ new).lookup new q private'.root id, view q]
    · exact tidy.kernel q window slots'
    · intro p member same
      rw [pathTo_eq, window.low] at same
      exact (orderly p member).1 (by rwa [← same])

theorem fork {child : Frame} (tidy : Tidy owner s)
    (clear : Clear s.memory cr3 USER_HEAP_START) (forked : Forked owner s.memory cr3 owner' m' child) :
    Tidy owner' (s.add ⟨some child, USER_HEAP_START⟩ m') := by
  -- What is not mapped for users in the parent is not mapped in the child, and nothing else is in a clear
  -- window.
  have kept := tidy.keep forked.sound forked.spares
    fun id' t' cr3' task' space' q window later unused changed => by
    rw [← changed.1] at changed
    simp [Entry.unused_flags unused] at changed
  refine kept.add forked.space (fun id t task => tidy.fresh forked.fresh task) fun q window slots => ?_
  have slots' : s.memory.PrivateSlot (slot 0 q) := (forked.spares.slots tidy.sound.1 _).mp slots
  refine forked.blank q (tidy.kernel q window slots') ?_
  by_cases unused : (s.memory.lookup cr3 3 q).IsUnused
  · rw [Entry.unused_flags unused]
  · exact clear q _ _ window window.1 (.small unused)

theorem fork_clear {child : Frame} (tidy : Tidy owner s) (space : cr3 ∈ s.memory.userPageTables)
    (forked : Forked owner s.memory cr3 owner' m' child) (enough : ¬m'.OutOfFrames) :
    Clear m' child USER_HEAP_START ↔ Clear s.memory cr3 USER_HEAP_START := by
  -- A user page in the window comes back in the child.
  have root := (tidy.sound.1.roots cr3 space).root
  refine ⟨fun clear q f flags window above translates => ?_, fun clear => ?_⟩
  · by_contra user
    have leaf := translates.leaf tidy.sound.1 root (by simpa using user)
    have user' : (s.memory.lookup cr3 3 q).flags.user = true := by
      rw [leaf]
      simpa using user
    obtain ⟨g, _, label, _⟩ := lookup_user tidy.sound.1 root user'
    have slots : s.memory.PrivateSlot (slot 0 q) := tidy.sound.1.slots g cr3 (slot 0 q) _ label
    have low : q < 256 * 512 ^ 3 := by
      have below := window.2
      simp only [USER_STACK_TOP, STACK_PAGES] at below
      omega
    have copied := (forked.copied q low (tidy.kernel q window slots) user').resolve_left enough
    have child_user : (m'.lookup child 3 q).flags.user = true := by rw [copied, cowed_user, user']
    have used : ¬(m'.lookup child 3 q).IsUnused :=
      fun unused => by simp [Entry.unused_flags unused] at child_user
    have reached := clear q _ _ window above (.small used)
    rw [child_user] at reached
    cases reached
  · have tidy' := tidy.fork clear forked
    exact (tidy'.tasks s.nextId ⟨some child, USER_HEAP_START⟩ child (by simp [Heaps.add, Heaps.set])
      rfl).clear tidy'.sound.1

theorem step {x : Mapper} {c : HeapCall} (tidy : Tidy owner s) (orderly : Orderly s c)
    (taken : serve x s c = some s') :
    ∃ owner', Tidy owner' s' := by
  cases c with
  | spawnKernelTask =>
    cases taken
    exact ⟨owner, tidy.put s.nextId ⟨none, USER_HEAP_START⟩ (fun _ none => by cases none)
      (fun _ _ _ _ _ none => by cases none)
      (Nat.le_succ _) (Nat.lt_succ_self _)⟩
  | spawnUserTask pages => exact tidy.spawn orderly taken
  | fork id =>
    simp only [serve, Option.bind_eq_some_iff] at taken
    obtain ⟨t, task, taken⟩ := taken
    split at taken <;> rename_i space
    · cases taken
      exact ⟨owner, tidy⟩
    · simp only [Option.map_eq_some_iff] at taken
      obtain ⟨⟨child, m₁⟩, forked, rfl⟩ := taken
      have settled := tidy.tasks id t _ task space
      obtain ⟨owner', forked⟩ := tidy.sound.fork x (tidy.sound.1.roots _ settled.space).root forked
      exact ⟨owner', tidy.fork (orderly t _ task space) forked⟩
  | mmap id len =>
    simp only [serve, Option.bind_eq_some_iff, Option.map_eq_some_iff] at taken
    obtain ⟨t, task, ⟨result, t', m₁⟩, done, rfl⟩ := taken
    obtain ⟨fits, region⟩ := orderly t task
    exact tidy.mmap task fits region done
  | munmap id addr len =>
    simp only [serve, Option.bind_eq_some_iff] at taken
    obtain ⟨t, task, taken⟩ := taken
    split at taken <;> rename_i space
    · cases taken
      exact ⟨owner, tidy⟩
    · cases taken
      have settled := tidy.tasks id t _ task space
      obtain ⟨sound', spares⟩ := tidy.sound.munmap x addr len (tidy.sound.1.roots _ settled.space).root
      refine ⟨owner, tidy.keep sound' spares fun id' t' cr3' task' space' q window later unused changed => ?_⟩
      rw [← changed.1] at changed
      exact changed.2 unused
  | fault id page =>
    simp only [serve, Option.bind_eq_some_iff, Option.map_eq_some_iff] at taken
    obtain ⟨t, task, cr3, space, m₁, done, rfl⟩ := taken
    have settled := tidy.tasks id t _ task space
    obtain ⟨owner', sound', spares⟩ := tidy.sound.resolveCow (tidy.sound.1.roots _ settled.space).root done
    refine ⟨owner', tidy.keep sound' spares fun id' t' cr3' task' space' q window later unused changed => ?_⟩
    rw [← changed.1] at changed
    simp [Entry.unused_flags unused] at changed

end Tidy

/-- The kernel maps nothing in the part of the heap window below its first slot. -/
def ClearKernel (m : MemoryManager) : Prop :=
  ∀ q, HeapWindow q → slot 0 q = 0 → (m.lookup m.kernelCr3 3 q).IsUnused

theorem Tidy.boot {boot : Frame → Owner} (booted : Booted boot m) (kernel : ClearKernel m) (next : TaskId) :
    Tidy boot ⟨m, fun _ => none, next⟩ where
  sound := booted.sound
  kernel q window slots := by
    rcases slots with low | vacant
    · exact kernel q window low
    · have none : m.tableAt m.kernelCr3 1 q = none := by simp [MemoryManager.tableAt, vacant]
      simp [MemoryManager.lookup, tableAt_none none (show 1 ≤ 3 by decide), Entry.IsUnused]
  tasks _ _ _ none := by cases none
  apart _ _ _ _ _ none := by cases none
  ids _ _ none := by cases none

theorem Tidy.reached {x : Mapper} {boot : Frame → Owner} {start : MemoryManager}
    {next : TaskId} (booted : Booted boot start)
    (kernel : ClearKernel start) (run : Reaches (serve x) Orderly ⟨start, fun _ => none, next⟩ s) :
      ∃ owner, Tidy owner s := by
  refine run.invariant (motive := fun s => ∃ owner, Tidy owner s) ⟨boot, .boot booted kernel next⟩
    fun s c s' before orderly taken => ?_
  obtain ⟨owner, tidy⟩ := before
  exact tidy.step orderly taken

/-- In a run of orderly calls no task has a user page from its pointer on in the heap window, and an
`mmap` that fits fails for want of memory only. A fork of a task with a user page in the window
always ends this. -/
theorem heaps_disjoint (x : Mapper) {boot : Frame → Owner} {start : MemoryManager}
    {next : TaskId} (booted : Booted boot start)
    (kernel : ClearKernel start) (run : Reaches (serve x) Orderly ⟨start, fun _ => none, next⟩ s)
    (task : s.tasks id = some t) :
    (∀ cr3, t.userCr3 = some cr3 → Clear s.memory cr3 t.mmapNext) ∧ Served x t s.memory ∧
      ∀ cr3 child m', t.userCr3 = some cr3 → s.memory.cowForkAddressSpace x cr3 = some (child, m') →
        ¬m'.OutOfFrames →
        (Clear m' child USER_HEAP_START ↔ Clear s.memory cr3 USER_HEAP_START) := by
  obtain ⟨owner, tidy⟩ := Tidy.reached booted kernel run
  have settled (cr3 : Frame) (space : t.userCr3 = some cr3) := tidy.tasks id t cr3 task space
  refine ⟨fun cr3 space => (settled cr3 space).clear tidy.sound.1, Settled.served x tidy.sound settled,
    fun cr3 child m' space forked enough => ?_⟩
  have member := (settled cr3 space).space
  obtain ⟨owner', forked⟩ := tidy.sound.fork x (tidy.sound.1.roots cr3 member).root forked
  exact tidy.fork_clear member forked enough

def Takes (n : Nat) (m m' : MemoryManager) : Prop :=
  m'.frameAllocator.next ≤ m.frameAllocator.next + n ∧
  m'.frameAllocator.usableFrames = m.frameAllocator.usableFrames

namespace Takes

variable {n k : Nat} {m'' : MemoryManager} {t f r : Frame} {flags : Flags} {page : Nat}

theorem trans (first : Takes n m m') (second : Takes k m' m'') : Takes (n + k) m m'' :=
  ⟨Nat.le_trans second.1 (Nat.add_assoc _ _ _ ▸ Nat.add_le_add_right first.1 k), second.2.trans first.2⟩

theorem more (takes : Takes n m m') (fewer : n ≤ k) : Takes k m m' :=
  ⟨Nat.le_trans takes.1 (Nat.add_le_add_left fewer _), takes.2⟩

theorem same (allocator : m'.frameAllocator = m.frameAllocator) : Takes 0 m m' := by
  rw [Takes, allocator]
  exact ⟨Nat.le_refl _, rfl⟩

theorem allocateFrame {f : Option Frame} (taken : m.allocateFrame = (f, m')) : Takes 1 m m' := by
  cases taken
  exact ⟨Nat.le_refl _, rfl⟩

theorem descends {i : Nat} (down : Descends m t i flags m' f) : Takes 1 m m' := by
  cases down with
  | created _ fresh => exact ((allocateFrame fresh).trans (same rfl)).more (Nat.le_refl _)
  | existing => exact (same rfl).more (Nat.zero_le _)

theorem descent {depth : Nat} (down : Descent m r page flags depth m' t) : Takes depth m m' := by
  induction down with
  | root => exact same rfl
  | next _ last ih => exact ih.trans (descends last)

theorem mapsTo {result : Except MapToError Unit} (maps : MapsTo m r page f flags result m') : Takes 3 m m' := by
  cases maps with
  | mapped down => exact (descent down).trans (same rfl)
  | alreadyMapped down => exact descent down
  | hugeParent upper down _ _ after =>
    rcases after with rfl | rfl
    · exact (descent down).more (Nat.le_of_lt upper)
    · exact ((descent down).trans (same rfl)).more (Nat.le_of_lt upper)
  | noFrame upper down _ exhausted => exact ((descent down).trans (allocateFrame exhausted)).more upper

theorem mapUserRegion (x : Mapper) (writable : Bool) (r page count : Nat) (m : MemoryManager) :
    Takes (4 * count) m (m.mapUserRegion x r writable page count).2 := by
  induction count generalizing page m with
  | zero => exact same rfl
  | succ count ih =>
    have four : 4 * (count + 1) = 1 + 3 + 4 * count := by omega
    unfold MemoryManager.mapUserRegion
    split
    next taken => exact (allocateFrame taken).more (by omega)
    next f m₁ taken =>
      have maps := mapsTo (x.mapTo_documented (m₁.zeroPage f) r page f
        { present := true, user := true, writable := writable })
      have zeroed : Takes 1 m (m₁.zeroPage f) := (allocateFrame taken).trans (same rfl)
      split
      next failed =>
        rw [failed] at maps
        exact (zeroed.trans maps).more (by omega)
      next mapped =>
        rw [mapped] at maps
        rw [four]
        exact (zeroed.trans maps).trans (ih (page + 1) _)

theorem replicateLeaf (x : Mapper) (child : Frame) (m : MemoryManager) (leaf : MemoryManager.Leaf) :
    Takes 3 m (m.replicateLeaf x child leaf) := by
  have maps := mapsTo (x.mapTo_documented m child leaf.1 leaf.2.frame { present := true, user := true })
  unfold MemoryManager.replicateLeaf
  split
  next mapped =>
    rw [mapped] at maps
    exact maps.trans (same rfl)
  next failed =>
    rw [failed] at maps
    exact maps

theorem foldl {α : Type} {f : MemoryManager → α → MemoryManager} (takes : ∀ m a, Takes n m (f m a))
    (items : List α) :
    Takes (n * items.length) m (items.foldl f m) := by
  induction items generalizing m with
  | nil => exact same rfl
  | cons a rest ih =>
    exact ((takes m a).trans ih).more (Nat.le_of_eq (by rw [List.length_cons, Nat.mul_succ, Nat.add_comm]))

theorem createUserMapper (owned : Owned owner m) (bare : (m.table m.kernelCr3 0).IsUnused)
    (fresh : m.allocateFrame = (some f, m')) : ∃ m'', m.createUserMapper = some (f, m'') ∧ Takes 1 m m'' := by
  -- Where the kernel has nothing below its first slot, a new address space is one table.
  have expected : m.expectFrame = some (f, m') := by simp [MemoryManager.expectFrame, fresh]
  have kernel : m'.kernelCr3 ≠ f := fun here => by
    have known := owned.kernel
    rw [(allocated fresh).1] at here
    rw [show m.kernelCr3 = f from here, owned.free_frame fresh] at known
    cases known
  have unused : m'.table m'.kernelCr3 0 = .unused := by
    rw [(allocated fresh).1]
    exact bare
  have created : m.createUserMapper = some (f, { m' with
      table := Function.update m'.table f fun i => if i < 512 then m'.table m'.kernelCr3 i else .unused }) := by
    simp only [MemoryManager.createUserMapper, expected, Option.bind_some, zeroTable_setEntry m' f 512 kernel,
      Function.update_of_ne kernel, unused]
    rfl
  exact ⟨_, created, ((allocateFrame fresh).trans (same rfl)).more (Nat.le_refl _)⟩

theorem cowFork (x : Mapper) (sound : Sound owner m) (root : owner cr3 = .table cr3 [])
    (bare : (m.table m.kernelCr3 0).IsUnused)
    (room : m.frameAllocator.next < m.frameAllocator.usableFrames.length)
    (pages : List Nat) (covers : ∀ q, q < 256 * 512 ^ 3 → (m.lookup cr3 3 q).flags.user = true → q ∈ pages) :
    ∃ child m', m.cowForkAddressSpace x cr3 = some (child, m') ∧ Takes (1 + 3 * pages.length) m m' := by
  -- A fork takes frames for the tables above each user page.
  have visited := forLeaves_visited sound.1 root
  have sharing := sound.share root
  have kernel := visited.table_other sound.1 root (g := m.kernelCr3) fun q own => by
    rw [sound.1.kernel] at own
    cases own
  have rest := visited.rest
  rcases forked : MemoryManager.forLeaves Prod.fst MemoryManager.shareLeaf 3 256 cr3 0 (m, []) with ⟨m₁, leaves⟩
  simp only [forked] at visited sharing kernel rest
  have few : leaves.length ≤ pages.length := by
    have distinct : (leaves.map Prod.fst).Nodup :=
      List.pairwise_map.mpr (visited.leaves_sorted.imp fun less => Nat.ne_of_lt less)
    have inside : leaves.map Prod.fst ⊆ pages := by
      intro q member
      obtain ⟨leaf, recorded, rfl⟩ := List.mem_map.mp member
      obtain ⟨low, user, _⟩ := (visited.mem_leaves leaf).mp recorded
      exact covers leaf.1 low user
    simpa using (List.subperm_of_subset distinct inside).length_le
  have allocator : m₁.frameAllocator = m.frameAllocator := by rw [rest]
  have kernelCr3 : m₁.kernelCr3 = m.kernelCr3 := by rw [rest]
  have bare₁ : (m₁.table m₁.kernelCr3 0).IsUnused := by
    rw [kernelCr3, kernel]
    exact bare
  rcases fresh : m₁.allocateFrame with ⟨_ | f, m₂⟩
  · -- There are frames left.
    simp only [MemoryManager.allocateFrame, Prod.mk.injEq, allocator, List.getElem?_eq_none_iff] at fresh
    exact absurd room (Nat.not_lt.mpr fresh.1)
  · obtain ⟨m₃, created, takes⟩ := createUserMapper sharing.sound.1 bare₁ fresh
    refine ⟨f, (leaves.foldl (MemoryManager.replicateLeaf x f) m₃).storeUserMapper f, ?_, ?_⟩
    · simp [MemoryManager.cowForkAddressSpace, forked, created]
    · have copied : Takes (3 * leaves.length) m₃ (leaves.foldl (MemoryManager.replicateLeaf x f) m₃) :=
        foldl (replicateLeaf x f) leaves
      exact ((((same allocator).trans takes).trans copied).trans (same rfl)).more (by omega)

end Takes

theorem sysMmap_used (x : Mapper) (len : Nat) (sound : Sound owner m) (space : t.userCr3 = some cr3)
    (root : Private owner m cr3)
    (low : t.mmapNext < USER_STACK_TOP) (slots : m.PrivateSlot (slot 0 (t.mmapNext / 4096)))
    (used : ¬(m.lookup cr3 3 (t.mmapNext / 4096)).IsUnused) (pages : 0 < pageCount len) :
    ∃ t', t.sysMmap x len m = some (.error (), t',
      (m.mapUserRegion x cr3 true (t.mmapNext / 4096) (pageCount len)).2) := by
  -- An `mmap` of a task whose pointer is at a mapped page.
  have fails (count : Nat) (some : 0 < count) :
    (m.mapUserRegion x cr3 true (t.mmapNext / 4096) count).1 = false := by
    cases count with
    | zero => cases some
    | succ count => exact sound.mapUserRegion_used x true count root slots used
  have positive : 0 < len := by
    rcases Nat.eq_zero_or_pos len with rfl | positive
    · cases pages
    · exact positive
  -- The loop does not get past the first page.
  have reached (i : Nat) (before : i < pageCount len)
    (mapped : (m.mapUserRegion x cr3 true (t.mmapNext / 4096) i).1 = true) :
      (t.mmapNext / 4096 + i) * 4096 < USER_STACK_TOP := by
    rcases Nat.eq_zero_or_pos i with rfl | later
    · exact Nat.lt_of_le_of_lt (Nat.div_mul_le_self _ _) low
    · rw [fails i later] at mapped
      cases mapped
  have refused := sysMmap_low space positive low reached
  simp only [fails _ pages, Bool.false_eq_true, if_false] at refused
  exact ⟨_, refused⟩

def onePage : List UserPage := [⟨1024, true, false, fun _ => 0⟩]

theorem bare_clear : ClearKernel bare :=
  fun _ _ _ => by simp [MemoryManager.lookup, MemoryManager.tableAt, bare, Entry.IsUnused]

theorem onePage_orderly (next : TaskId) : Orderly ⟨bare, fun _ => none, next⟩ (.spawnUserTask onePage) := by
  intro p member
  obtain rfl := List.mem_singleton.mp member
  exact ⟨fun window => absurd window.1 (by decide), Or.inl (by decide)⟩

theorem onePage_spawned : ∃ s owner, serve .offsetPageTable ⟨bare, fun _ => none, 1⟩
    (.spawnUserTask onePage) = some s ∧
    Tidy owner s ∧ s.tasks 1 = some ⟨some 256, USER_HEAP_START⟩ ∧
    ∀ q, (s.memory.lookup 256 3 q).flags.user = true → pathTo 4 q = pathTo 4 1024 := by
  -- The program is started, and the pages that its user sees are its own.
  have ran : (serve .offsetPageTable ⟨bare, fun _ => none, 1⟩ (.spawnUserTask onePage)).map
    (fun s => s.tasks 1) =
      some (some ⟨some 256, USER_HEAP_START⟩) := by decide +kernel
  obtain ⟨s, taken, task⟩ := Option.map_eq_some_iff.mp ran
  obtain ⟨owner, tidy⟩ := (Tidy.boot bare_booted bare_clear 1).spawn (onePage_orderly 1) taken
  refine ⟨s, owner, taken, tidy, task, fun q user => ?_⟩
  simp only [serve, Option.map_eq_some_iff] at taken
  obtain ⟨⟨new, m₁⟩, created, rfl⟩ := taken
  obtain ⟨_, _, _, _, _, view⟩ := bare_booted.sound.load .offsetPageTable created fun p member =>
    (onePage_orderly 1 p member).2
  rcases loaded : m₁.loadPages .offsetPageTable new onePage with ⟨_ | _, m₂⟩
  · simp [loaded] at task
  · have root : new = 256 := by simpa [loaded, Heaps.add, Heaps.set] using task
    subst root
    rw [loaded] at view
    by_contra other
    have blank : (m₂.lookup 256 3 q).flags.user = false := by
      rw [view q (by simpa [onePage] using other)]
      rfl
    have stored : (m₂.storeUserMapper 256).lookup 256 3 q = m₂.lookup 256 3 q := lookup_table rfl 256 3 q
    simp only [loaded, Heaps.add, Heaps.set, stored, blank] at user
    cases user

structure Grown (owner : Frame → Owner) (s : Heaps) : Prop where
  run : Reaches (serve .offsetPageTable) Orderly ⟨bare, fun _ => none, 1⟩ s
  tidy : Tidy owner s
  task : s.tasks 1 = some ⟨some 256, USER_HEAP_START + 4096⟩
  nextId : s.nextId = 2
  taken : s.memory.frameAllocator.next = 8 ∧ s.memory.frameAllocator.usableFrames.length = 256
  kernel : (s.memory.table s.memory.kernelCr3 0).IsUnused
  user : (s.memory.lookup 256 3 (USER_HEAP_START / 4096)).flags.user = true
  pages : ∀ q, q < 256 * 512 ^ 3 → (s.memory.lookup 256 3 q).flags.user = true →
    q ∈ [1024, USER_HEAP_START / 4096]

theorem onePage_grown : ∃ s owner, Grown owner s := by
  have ran : (run (serve .offsetPageTable) ⟨bare, fun _ => none, 1⟩
    [.spawnUserTask onePage, .mmap 1 4096]).map (fun s =>
      ((s.tasks 1, s.nextId), (s.memory.frameAllocator.next, s.memory.frameAllocator.usableFrames.length),
        s.memory.table s.memory.kernelCr3 0, (s.memory.lookup 256 3 (USER_HEAP_START / 4096)).flags.user)) =
      some ((some ⟨some 256, USER_HEAP_START + 4096⟩, 2), (8, 256), .unused, true) := by decide +kernel
  obtain ⟨s₁, owner₁, spawned, tidy₁, task₁, pages₁⟩ := onePage_spawned
  obtain ⟨s, ran, view⟩ := Option.map_eq_some_iff.mp ran
  simp only [run, spawned, Option.bind_some, Option.bind_eq_some_iff] at ran
  obtain ⟨_, mapped, same⟩ := ran
  cases same
  simp only [Prod.mk.injEq] at view
  obtain ⟨⟨task, nextId⟩, taken, kernel, user⟩ := view
  have region : Orderly s₁ (.mmap 1 4096) := by
    intro t here
    rw [task₁] at here
    cases here
    refine ⟨by decide, fun i bound _ => Or.inl ?_⟩
    obtain rfl : i = 0 := Nat.lt_one_iff.mp bound
    decide
  obtain ⟨owner, tidy⟩ := tidy₁.step region mapped
  refine ⟨s, owner, (Reaches.start.step (onePage_orderly 1) spawned).step region mapped, tidy, task,
    nextId, taken, kernel, user,
    fun q low user => ?_⟩
  simp only [serve, task₁, Option.bind_some, Option.map_eq_some_iff] at mapped
  obtain ⟨⟨result, t', m'⟩, done, rfl⟩ := mapped
  obtain ⟨_, _, spares, _⟩ :=
    tidy₁.sound.sysMmap (fun cr3 space => (tidy₁.tasks 1 _ cr3 task₁ space).space) (region _ task₁).2 done
  have root := (tidy₁.sound.1.roots 256 (tidy₁.tasks 1 _ 256 task₁ rfl).space).root
  have page : pathTo 4 q = pathTo 4 1024 ∨ pathTo 4 q = pathTo 4 (USER_HEAP_START / 4096) := by
    by_cases new : pathTo 4 q = pathTo 4 (USER_HEAP_START / 4096)
    · exact Or.inr new
    · refine Or.inl (pages₁ q ?_)
      rw [← spares.lookup 256 q root]
      · exact user
      · rintro ⟨_, i, bound, same⟩
        obtain rfl : i = 0 := Nat.lt_one_iff.mp bound
        exact new same
  simp only [pathTo_eq, USER_HEAP_START, Nat.reducePow, Nat.reduceDiv, Nat.reduceMod] at page low
  rw [Nat.mod_eq_of_lt (by omega)] at page
  simpa [USER_HEAP_START] using page

theorem heaps_disjoint_grown : ∃ (s : Heaps) (t : Task), s.tasks 1 = some t ∧
    t.mmapNext = USER_HEAP_START + 4096 ∧
    (∀ cr3, t.userCr3 = some cr3 → Clear s.memory cr3 t.mmapNext) ∧ Served .offsetPageTable t s.memory := by
  obtain ⟨s, owner, grown⟩ := onePage_grown
  obtain ⟨clear, served, _⟩ := heaps_disjoint .offsetPageTable bare_booted bare_clear grown.run grown.task
  exact ⟨s, _, grown.task, rfl, clear, served⟩

/-- The child of a fork has a page where its first `mmap` looks for one, which fails. -/
theorem forked_mmap_collides : ∃ s t cr3, Reaches (serve .offsetPageTable)
    (fun _ _ => True) ⟨bare, fun _ => none, 1⟩ s ∧
    s.tasks 2 = some t ∧ t.userCr3 = some cr3 ∧ ¬Clear s.memory cr3 t.mmapNext ∧
    ¬Served .offsetPageTable t s.memory := by
  obtain ⟨s, owner, grown⟩ := onePage_grown
  have tidy := grown.tidy
  have root := (tidy.sound.1.roots 256 (tidy.tasks 1 _ 256 grown.task rfl).space).root
  obtain ⟨child, m, forked, takes⟩ := Takes.cowFork .offsetPageTable tidy.sound root grown.kernel
    (by rw [grown.taken.1, grown.taken.2]; decide) _ grown.pages
  obtain ⟨owner', spec⟩ := tidy.sound.fork .offsetPageTable root forked
  have taken : serve .offsetPageTable s (.fork 1) = some (s.add ⟨some child, USER_HEAP_START⟩ m) := by
    simp [serve, grown.task, forked]
  have enough {n : Nat} {m' : MemoryManager} (more : Takes n m m') (few : n ≤ 4) : ¬m'.OutOfFrames := by
    have next := more.1
    have next' := takes.1
    rw [grown.taken.1] at next'
    simp only [MemoryManager.OutOfFrames, more.2, takes.2, grown.taken.2, List.length_cons,
      List.length_nil] at next' ⊢
    omega
  -- The parent's heap page is copied, but not its pointer.
  have window : HeapWindow (USER_HEAP_START / 4096) := ⟨by decide, by decide⟩
  have low : slot 0 (USER_HEAP_START / 4096) = 0 := by decide
  have copied := (spec.copied (USER_HEAP_START / 4096) (by decide) (tidy.kernel _ window (Or.inl low))
    grown.user).resolve_left
    (enough (.same rfl) (Nat.zero_le _))
  have user : (m.lookup child 3 (USER_HEAP_START / 4096)).flags.user = true := by
    rw [copied, cowed_user, grown.user]
  have used : ¬(m.lookup child 3 (USER_HEAP_START / 4096)).IsUnused :=
    fun unused => by simp [Entry.unused_flags unused] at user
  refine ⟨_, ⟨some child, USER_HEAP_START⟩, child,
    (grown.run.mono fun _ _ _ => trivial).step trivial taken, ?_, rfl, fun clear => ?_,
    fun served => ?_⟩
  · simp [Heaps.add, Heaps.set, grown.nextId]
  · have reached : (m.lookup child 3 (USER_HEAP_START / 4096)).flags.user = false :=
      clear _ _ _ window window.1 (.small used)
    rw [user] at reached
    cases reached
  · have region : PrivateRegion ⟨some child, USER_HEAP_START⟩ m 4096 := fun i bound _ => by
      obtain rfl : i = 0 := Nat.lt_one_iff.mp bound
      exact Or.inl low
    have fits : USER_HEAP_START + pageCount 4096 * 4096 ≤ USER_STACK_TOP - STACK_PAGES * 4096 := by decide
    have below : USER_HEAP_START < USER_STACK_TOP := by decide
    obtain ⟨result, t', m', done, fine⟩ := served 4096 (by decide) rfl region fits
    obtain ⟨t'', refused⟩ :=
      sysMmap_used (t := ⟨some child, USER_HEAP_START⟩) .offsetPageTable 4096 spec.sound rfl
      (spec.sound.1.roots child spec.space) below (Or.inl low) used (by decide)
    have same := Option.some.inj (done.symm.trans refused)
    simp only [Prod.mk.injEq] at same
    obtain ⟨rfl, _, rfl⟩ := same
    rcases fine with never | exhausted
    · cases never
    · exact enough (Takes.mapUserRegion .offsetPageTable true child _ (pageCount 4096) m) (by decide) exhausted

end PickleOS.Memory
