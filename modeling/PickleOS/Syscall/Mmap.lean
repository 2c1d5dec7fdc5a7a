import PickleOS.Memory.Levels
import PickleOS.Syscall.Munmap

set_option autoImplicit false

/-!
# `SYS_MMAP`

A call moves the pointer of its task first, and maps the pages one by one then.
-/

namespace PickleOS.Syscall

open Shared.Machine Memory

variable {x : Mapper} {owner boot : Frame → Owner} {m start : MemoryManager} {s s' : Heaps}
    {t : Memory.Task} {id next : Memory.TaskId}
  {cr3 : Frame} {len : Nat}

def PrivateCalls (s : Heaps) : HeapCall → Prop
  | .spawnUserTask pages => ∀ p, p ∈ pages → s.memory.PrivateSlot (slot 0 p.page)
  | .mmap id len => ∀ t, s.tasks id = some t → PrivateRegion t s.memory len
  | .spawnKernelTask | .fork _ | .munmap .. | .fault .. => True

structure Pointed (m : MemoryManager) (t : Memory.Task) : Prop where
  space : ∀ cr3, t.userCr3 = some cr3 → cr3 ∈ m.userPageTables
  aligned : 4096 ∣ t.mmapNext
  bound : t.mmapNext < 2 ^ 64

/-- What a run keeps, whatever the calls come to. -/
structure Held (owner : Frame → Owner) (s : Heaps) : Prop where
  sound : Sound owner s.memory
  tasks : ∀ id t, s.tasks id = some t → Pointed s.memory t

namespace Held

theorem put {owner' : Frame → Owner} {m' : MemoryManager} (held : Held owner s) (sound : Sound owner' m')
    (spaces : s.memory.userPageTables ⊆ m'.userPageTables) (id : Memory.TaskId) (pointed : Pointed m' t)
    (next : Memory.TaskId) :
    Held owner' { memory := m', tasks := Function.update s.tasks id (some t), nextId := next } where
  sound := sound
  tasks id' t' task := by
    simp only [Function.update_apply] at task
    split at task
    next =>
      cases task
      exact pointed
    next =>
      obtain ⟨space, aligned, bound⟩ := held.tasks id' t' task
      exact ⟨fun cr3 here => spaces (space cr3 here), aligned, bound⟩

theorem keep {owner' : Frame → Owner} {m' : MemoryManager} (held : Held owner s) (sound : Sound owner' m')
    (spaces : s.memory.userPageTables ⊆ m'.userPageTables) : Held owner' { s with memory := m' } where
  sound := sound
  tasks id t task := by
    obtain ⟨space, aligned, bound⟩ := held.tasks id t task
    exact ⟨fun cr3 here => spaces (space cr3 here), aligned, bound⟩

theorem pointed_start {new : Option Frame} {m : MemoryManager}
    (space : ∀ cr3, new = some cr3 → cr3 ∈ m.userPageTables) :
    Pointed m ⟨new, USER_HEAP_START⟩ :=
  ⟨space, show 4096 ∣ USER_HEAP_START by decide, show USER_HEAP_START < 2 ^ 64 by decide⟩

theorem step {c : HeapCall} (held : Held owner s) (fine : PrivateCalls s c) (taken : serve x s c = some s') :
    ∃ owner', Held owner' s' := by
  cases c with
  | spawnKernelTask =>
    cases taken
    have pointed : Pointed s.memory ⟨none, USER_HEAP_START⟩ := pointed_start nofun
    exact ⟨owner, held.put held.sound (List.Subset.refl _) _ pointed _⟩
  | spawnUserTask pages =>
    simp only [serve, Option.map_eq_some_iff] at taken
    obtain ⟨⟨new, m₁⟩, created, rfl⟩ := taken
    obtain ⟨owner', sound', private', _, spares, _⟩ := held.sound.load x created fine
    rcases loaded : m₁.loadPages x new pages with ⟨_ | _, m₂⟩
    all_goals
      rw [loaded] at sound' spares private'
    · exact ⟨owner', held.keep sound' spares.spaces⟩
    · have stored := spares.trans (Spares.store owner' m₂ new)
      refine ⟨owner', held.put (sound'.store private') stored.spaces _ (pointed_start fun cr3 same => ?_) _⟩
      cases same
      simp [MemoryManager.storeUserMapper]
  | fork id =>
    simp only [serve, Option.bind_eq_some_iff] at taken
    obtain ⟨t, task, taken⟩ := taken
    split at taken
    next =>
      cases taken
      exact ⟨owner, held⟩
    next cr3 space =>
      obtain ⟨⟨child, m₁⟩, forked, rfl⟩ := Option.map_eq_some_iff.mp taken
      have root := (held.sound.1.roots cr3 ((held.tasks id t task).space cr3 space)).root
      obtain ⟨owner', forked⟩ := held.sound.fork x root forked
      refine ⟨owner', held.put forked.sound forked.spares.spaces _ (pointed_start fun cr3 same => ?_) _⟩
      cases same
      exact forked.space
  | mmap id len =>
    simp only [serve, Option.bind_eq_some_iff, Option.map_eq_some_iff] at taken
    obtain ⟨t, task, ⟨result, t', m₁⟩, done, rfl⟩ := taken
    obtain ⟨space, aligned, bound⟩ := held.tasks id t task
    obtain ⟨owner', sound', spares, moved⟩ := held.sound.sysMmap space (fine t task) done
    refine ⟨owner', held.put sound' spares.spaces _ ?_ _⟩
    rcases moved with ⟨rfl, _⟩ | rfl
    · exact ⟨fun cr3 here => spares.spaces (space cr3 here), aligned, bound⟩
    · refine ⟨fun cr3 here => spares.spaces (space cr3 here), ?_, Nat.mod_lt _ (by decide)⟩
      exact (Nat.dvd_mod_iff (by decide)).mpr (Nat.dvd_add aligned (Nat.dvd_mul_left _ _))
  | munmap id addr len =>
    simp only [serve, Option.bind_eq_some_iff] at taken
    obtain ⟨t, task, taken⟩ := taken
    split at taken
    next =>
      cases taken
      exact ⟨owner, held⟩
    next cr3 space =>
      cases taken
      have root := (held.sound.1.roots cr3 ((held.tasks id t task).space cr3 space)).root
      obtain ⟨sound', spares⟩ := held.sound.munmap x addr len root
      exact ⟨owner, held.keep sound' spares.spaces⟩
  | fault id page =>
    simp only [serve, Option.bind_eq_some_iff, Option.map_eq_some_iff] at taken
    obtain ⟨t, task, cr3, space, m₁, done, rfl⟩ := taken
    have root := (held.sound.1.roots cr3 ((held.tasks id t task).space cr3 space)).root
    obtain ⟨owner', sound', spares⟩ := held.sound.resolveCow root done
    exact ⟨owner', held.keep sound' spares.spaces⟩

theorem reached (booted : Booted boot start) (run :
    Reaches (serve x) PrivateCalls ⟨start, fun _ => none, next⟩ s) :
    ∃ owner, Held owner s := by
  refine run.invariant (motive := fun s => ∃ owner, Held owner s)
    ⟨boot, booted.sound, fun _ _ none => by cases none⟩
    fun s c s' before fine taken => ?_
  obtain ⟨owner, held⟩ := before
  exact held.step fine taken

end Held

/-- A failure leaves the task as it is, and `u64::MAX` is the result. -/
def sysMmap (x : Mapper) (ring : Ring) (t : Memory.Task) (len : Nat) (m : MemoryManager) :
    Option (Except Unit Nat × Memory.Task × MemoryManager) :=
  if ring = .user then t.sysMmap x len m else some (.error (), t, m)

/-- The range is the user's, in fresh frames of zeros, and no other mapping has changed. -/
structure Gained (m m' : MemoryManager) (cr3 : Frame) (addr len : Nat) : Prop where
  pages : ∀ page, Intersects addr len page → page < 2 ^ 52 ∧ Canonical (page * 4096) ∧
    ∃ f, f ∈ m.frameAllocator.usableFrames.drop m.frameAllocator.next ∧ m'.access userWrite cr3 page = some f ∧
      m'.lookup cr3 3 page = ⟨f, userRw⟩ ∧ m'.byte f = fun _ => 0
  distinct : ∀ page page', Intersects addr len page → Intersects addr len page' →
    m'.lookup cr3 3 page = m'.lookup cr3 3 page' → page = page'
  others : ∀ page, page < 2 ^ 52 → Canonical (page * 4096) → ¬Intersects addr len page →
    m'.lookup cr3 3 page = m.lookup cr3 3 page
  spaces : ∀ r ∈ m.userPageTables, r ≠ cr3 → ∀ page, m'.lookup r 3 page = m.lookup r 3 page
  kernel : ∀ page, m'.lookup m.kernelCr3 3 page = m.lookup m.kernelCr3 3 page

/-- The call returns, and does what it says. -/
def MmapMeets (x : Mapper) (ring : Ring) (t : Memory.Task) (len : Nat) (m : MemoryManager) : Prop :=
  match sysMmap x ring t len m with
  | none => False
  | some (.ok addr, _, m') => ∃ cr3, t.userCr3 = some cr3 ∧ Gained m m' cr3 addr len
  | some (.error _, t', m') =>
    t'.mmapNext = t.mmapNext ∧ ∀ cr3 page, t.userCr3 = some cr3 → m'.lookup cr3 3 page = m.lookup cr3 3 page

/-- There is room from the pointer on for all pages, under slots of the caller's own, and there are
frames for them and for the tables that are missing. -/
structure Room (m : MemoryManager) (cr3 : Frame) (start len : Nat) : Prop where
  rounds : len + 4095 < 2 ^ 64
  addresses : ∀ i, i < pageCount len → start / 4096 + i < 2 ^ 52 ∧ Canonical ((start / 4096 + i) * 4096)
  slots : ∀ i, i < pageCount len → m.PrivateSlot (slot 0 (start / 4096 + i))
  vacant : ∀ i, i < pageCount len → (m.lookup cr3 3 (start / 4096 + i)).IsUnused
  frames : pageCount len + (missingAll m cr3 (start / 4096) (pageCount len)).card ≤ m.framesLeft

/-- The call is refused at once, or it finds room. -/
def Works (ring : Ring) (t : Memory.Task) (len : Nat) (m : MemoryManager) : Prop :=
  ring ≠ .user ∨ len = 0 ∨ t.userCr3 = none ∨ ∃ cr3, t.userCr3 = some cr3 ∧ Room m cr3 t.mmapNext len

theorem range_iff (aligned : 4096 ∣ t.mmapNext) (rounds : len + 4095 < 2 ^ 64) (positive : 0 < len)
    (page : Nat) :
    Intersects t.mmapNext len page ↔ ∃ i, i < pageCount len ∧ page = t.mmapNext / 4096 + i := by
  rw [intersects_iff positive, pageCount, Nat.mod_eq_of_lt rounds, Nat.dvd_iff_mod_eq_zero.mp aligned,
    Nat.zero_add]

theorem canonical_path {page page' : Nat} (valid : page < 2 ^ 52) (canonical : Canonical (page * 4096))
    (valid' : page' < 2 ^ 52)
    (canonical' : Canonical (page' * 4096)) : pathTo 4 page = pathTo 4 page' ↔ page = page' := by
  rw [pathTo_eq]
  rcases canonical with low | high <;> rcases canonical' with low' | high' <;> omega

theorem few_pages {first count : Nat} (addresses : ∀ i, i < count → first + i < 2 ^ 52 ∧
    Canonical ((first + i) * 4096)) :
    count ≤ 512 ^ 4 := by
  -- Between the two halves of the addresses there are none.
  by_contra many
  obtain ⟨below, canonical⟩ := addresses 0 (by omega)
  rcases canonical with low | high
  · obtain ⟨_, low' | high'⟩ := addresses (2 ^ 35 - first) (by omega)
    · omega
    · omega
  · obtain ⟨below', _⟩ := addresses (2 ^ 36) (by omega)
    omega

theorem Room.region (room : Room m cr3 t.mmapNext len) : PrivateRegion t m len :=
  fun i small _ => room.slots i small

theorem Room.mapped {x : Mapper} (room : Room m cr3 t.mmapNext len) (pointed : Pointed m t)
    (sound : Sound owner m)
    (space : t.userCr3 = some cr3) (positive : 0 < len) :
    (m.mapUserRegion x cr3 true (t.mmapNext / 4096) (pageCount len)).1 = true ∧
      t.sysMmap x len m = some (.ok t.mmapNext,
        { t with mmapNext := (t.mmapNext + pageCount len * 4096) % 2 ^ 64 },
        (m.mapUserRegion x cr3 true (t.mmapNext / 4096) (pageCount len)).2) := by
  have root := sound.1.roots cr3 (pointed.space cr3 space)
  have done := (sound.mapRegion_iff x root (few_pages room.addresses) room.region).mpr
    ⟨room.vacant, room.frames⟩
  have some : 0 < pageCount len := by
    have rounds := room.rounds
    rw [pageCount, Nat.mod_eq_of_lt rounds]
    omega
  have first := (room.addresses 0 some).2
  rw [Nat.add_zero, Nat.div_mul_cancel pointed.aligned] at first
  refine ⟨done, ?_⟩
  simp only [Memory.Task.sysMmap, Nat.ne_of_gt positive, if_false, space, MemoryManager.mapUserRegionAt,
    x.virtAddr_same first,
    Option.bind_some]
  rw [if_neg]
  · simp only [Option.map_some, done, if_true]
  · rintro ⟨i, small, none, _⟩
    obtain ⟨valid, canonical⟩ := room.addresses i small
    rw [Nat.mod_eq_of_lt (by omega), x.virtAddr_same canonical] at none
    cases none

theorem writable_alone {page page' : Nat} (sound : Sound owner m) (root : owner cr3 = .table cr3 [])
    (writable : (m.lookup cr3 3 page).flags = userRw) (same : m.lookup cr3 3 page = m.lookup cr3 3 page') :
    pathTo 4 page = pathTo 4 page' := by
  have user : (m.lookup cr3 3 page).flags.user = true := by
    rw [writable]
    rfl
  obtain ⟨f, _, label, at_leaf, leaf⟩ := lookup_user sound.1 root user
  obtain ⟨f', _, label', at_leaf', leaf'⟩ := lookup_user sound.1 root (by rwa [← same])
  rw [leaf] at writable same
  rw [leaf'] at same
  obtain ⟨here, slots⟩ :=
    sound.2 _ _ _ _ at_leaf at_leaf' (by rw [writable]; rfl) (congrArg Entry.frame same.symm)
  rw [here, label] at label'
  rw [pathTo_succ 3 page, (Owner.table.inj label').2, ← slots, ← pathTo_succ]

theorem Room.gained {x : Mapper} (room : Room m cr3 t.mmapNext len) (pointed : Pointed m t)
    (sound : Sound owner m)
    (space : t.userCr3 = some cr3) (positive : 0 < len) :
    Gained m (m.mapUserRegion x cr3 true (t.mmapNext / 4096) (pageCount len)).2 cr3 t.mmapNext len := by
  have range := range_iff pointed.aligned room.rounds positive
  have root := sound.1.roots cr3 (pointed.space cr3 space)
  obtain ⟨done, _⟩ := room.mapped (x := x) pointed sound space positive
  obtain ⟨owner', sound', spares, _⟩ := sound.mapUserRegion x true root room.region
  have held {page : Nat} (here : Intersects t.mmapNext len page) : page < 2 ^ 52 ∧ Canonical (page * 4096) ∧
      ∃ f, f ∈ m.frameAllocator.usableFrames.drop m.frameAllocator.next ∧
        Holds (m.mapUserRegion x cr3 true (t.mmapNext / 4096) (pageCount len)).2 cr3 page f userRw := by
    obtain ⟨i, small, rfl⟩ := (range page).mp here
    obtain ⟨valid, canonical⟩ := room.addresses i small
    exact ⟨valid, canonical, sound.mapRegion_pages x root (few_pages room.addresses) room.region done small⟩
  constructor
  case pages =>
    intro page here
    obtain ⟨valid, canonical, f, member, holds⟩ := held here
    exact ⟨valid, canonical, f, member, holds.access, holds.leaf, holds.zero⟩
  case distinct =>
    intro page page' here here' same
    obtain ⟨valid, canonical, f, _, holds⟩ := held here
    obtain ⟨valid', canonical', _⟩ := held here'
    have root' : owner' cr3 = .table cr3 [] := by rw [spares.grows cr3 (by simp [root.root]), root.root]
    exact (canonical_path valid canonical valid' canonical').mp
      (writable_alone sound' root' (by rw [holds.leaf]) same)
  case others =>
    intro page valid canonical off
    refine spares.lookup cr3 page root.root ?_
    rintro ⟨_, i, small, _, same⟩
    obtain ⟨valid', canonical'⟩ := room.addresses i small
    exact off ((range page).mpr ⟨i, small, (canonical_path valid canonical valid' canonical').mp same⟩)
  case spaces =>
    intro r space' other page
    exact spares.lookup r page (sound.1.roots r space').root fun both => other both.1
  case kernel =>
    intro page
    rw [← spares.lookup_kernel sound.1, spares.kernelCr3]

theorem lookup_busy {page : Nat} {f : Frame} (owned : Owned owner m) (root : owner cr3 = .table cr3 [])
    (leaf : m.lookup cr3 3 page = ⟨f, userRw⟩) :
      f ∉ m.frameAllocator.usableFrames.drop m.frameAllocator.next := by
  intro member
  obtain ⟨g, _, _, at_leaf, same⟩ := lookup_user owned root (by rw [leaf]; rfl)
  have data := (at_leaf.fits owned).1
  rw [← same, leaf, owned.fresh f member] at data
  cases data

theorem pageCount_lt (len : Nat) : pageCount len * 4096 < 2 ^ 64 := by
  rw [pageCount]
  omega

theorem sysMmap_returned {x : Mapper} (space : t.userCr3 = some cr3) (positive : 0 < len) :
    t.sysMmap x len m = none ∨ ∃ first, x.virtAddr t.mmapNext = some first ∧
      t.sysMmap x len m = some (if (m.mapUserRegion x cr3 true (first / 4096) (pageCount len)).1 then
        .ok t.mmapNext else .error (),
        { t with mmapNext := (t.mmapNext + pageCount len * 4096) % 2 ^ 64 },
        (m.mapUserRegion x cr3 true (first / 4096) (pageCount len)).2) := by
  simp only [Memory.Task.sysMmap, Nat.ne_of_gt positive, if_false, space, MemoryManager.mapUserRegionAt]
  cases x.virtAddr t.mmapNext with
  | none => exact .inl rfl
  | some first =>
    simp only [Option.bind_some]
    split
    next => exact .inl rfl
    next => exact .inr ⟨first, rfl, rfl⟩

theorem Gained.own {x : Mapper} {first count addr page : Nat} (sound : Sound owner m)
    (root : owner cr3 = .table cr3 [])
    (gained : Gained m (m.mapUserRegion x cr3 true first count).2 cr3 addr len)
    (here : Intersects addr len page) :
    m.PrivateSlot (slot 0 page) := by
  -- Below a slot that it shares, the kernel would show the page as well.
  by_contra taken
  have used : ¬(m.table m.kernelCr3 (slot 0 page)).IsUnused := fun unused => taken (.inr unused)
  have small : (m.table m.kernelCr3 (slot 0 page)).flags.huge = false := by
    have fits := (sound.1.entries m.kernelCr3 _ (slot_lt 0 page)).resolve_left used
    simp only [sound.1.kernel, Nat.lt_irrefl, and_false, false_or, Nat.zero_lt_succ, if_true] at fits
    exact fits.2.1
  have leveled := sound.1.leveled
  have label : (owner cr3).depth = some 0 := by
    rw [root]
    rfl
  obtain ⟨_, deepens⟩ := Deepens.mapUserRegion x leveled label true first count
  have shown := deepens.lookup_shared label leveled.kernel
    (sound.1.shared cr3 _ (slot_lt 0 page) root taken) used small
  obtain ⟨_, _, f, _, _, leaf, _⟩ := gained.pages page here
  have plain := sound.1.kernel_plain (q := page)
  rw [← gained.kernel, ← shown, leaf] at plain
  cases plain

theorem MmapMeets.room {x : Mapper} (meets : MmapMeets x .user t len m) (pointed : Pointed m t)
    (sound : Sound owner m)
    (space : t.userCr3 = some cr3) (positive : 0 < len) (word : len < 2 ^ 64) :
    Room m cr3 t.mmapNext len := by
  have root := sound.1.roots cr3 (pointed.space cr3 space)
  rw [MmapMeets, sysMmap, if_pos rfl] at meets
  obtain panicked | ⟨first, start, returned⟩ := sysMmap_returned (x := x) (m := m) space positive
  · rw [panicked] at meets
    exact meets.elim
  rw [returned] at meets
  cases done : (m.mapUserRegion x cr3 true (first / 4096) (pageCount len)).1 with
  | false =>
    -- A region of no pages does not fail, and another one has moved the pointer.
    rw [done] at meets
    have some : pageCount len ≠ 0 := fun none => by
      rw [none] at done
      cases done
    have short := pageCount_lt len
    have bound := pointed.bound
    have moved : (t.mmapNext + pageCount len * 4096) % 2 ^ 64 = t.mmapNext := meets.1
    omega
  | true =>
    rw [done] at meets
    obtain ⟨_, same, gained⟩ := meets
    obtain rfl := Option.some.inj (space.symm.trans same)
    have aligned := Nat.dvd_iff_mod_eq_zero.mp pointed.aligned
    have rounds : len + 4095 < 2 ^ 64 := by
      by_contra wraps
      have none : pageCount len = 0 := by
        rw [pageCount]
        omega
      obtain ⟨_, _, f, member, _, leaf, _⟩ := gained.pages (t.mmapNext / 4096) ⟨by omega, by omega⟩
      rw [none] at leaf
      exact lookup_busy sound.1 root.root leaf member
    have addresses (i : Nat) (small : i < pageCount len) :
        t.mmapNext / 4096 + i < 2 ^ 52 ∧ Canonical ((t.mmapNext / 4096 + i) * 4096) := by
      obtain ⟨valid, canonical, _⟩ :=
        gained.pages _ ((range_iff pointed.aligned rounds positive _).mpr ⟨i, small, rfl⟩)
      exact ⟨valid, canonical⟩
    have some : 0 < pageCount len := by
      rw [pageCount]
      omega
    have canonical := (addresses 0 some).2
    rw [Nat.add_zero, Nat.div_mul_cancel pointed.aligned] at canonical
    obtain rfl := Option.some.inj ((x.virtAddr_same canonical).symm.trans start)
    have slots (i : Nat) (small : i < pageCount len) : m.PrivateSlot (slot 0 (t.mmapNext / 4096 + i)) :=
      gained.own sound root.root ((range_iff pointed.aligned rounds positive _).mpr ⟨i, small, rfl⟩)
    obtain ⟨vacant, frames⟩ :=
      (sound.mapRegion_iff x root (few_pages addresses) fun i small _ => slots i small).mp done
    exact ⟨rounds, addresses, slots, vacant, frames⟩

theorem mmapMeets_refused {x : Mapper} {ring : Ring}
    (refused : sysMmap x ring t len m = some (.error (), t, m)) :
    MmapMeets x ring t len m := by
  rw [MmapMeets, refused]
  exact ⟨rfl, fun _ _ _ => rfl⟩

/-- `SYS_MMAP` does what it says if and only if it is refused at once or finds room. -/
theorem mmap_complete_iff {ring : Ring} (booted : Booted boot start)
    (run : Reaches (serve x) PrivateCalls ⟨start, fun _ => none, next⟩ s) (task : s.tasks id = some t)
    (word : len < 2 ^ 64) :
    MmapMeets x ring t len s.memory ↔ Works ring t len s.memory := by
  obtain ⟨owner, held⟩ := Held.reached booted run
  have pointed := held.tasks id t task
  by_cases user : ring = .user
  case neg =>
    exact iff_of_true (mmapMeets_refused (by rw [sysMmap, if_neg user])) (.inl user)
  subst user
  by_cases positive : len = 0
  case pos =>
    exact iff_of_true (mmapMeets_refused (by rw [sysMmap, if_pos rfl, Memory.Task.sysMmap,
      if_pos positive])) (.inr (.inl positive))
  have length : 0 < len := Nat.pos_of_ne_zero positive
  cases space : t.userCr3 with
  | none =>
    refine iff_of_true (mmapMeets_refused ?_) (.inr (.inr (.inl space)))
    rw [sysMmap, if_pos rfl, Memory.Task.sysMmap, if_neg positive, space]
  | some cr3 =>
    constructor
    · intro meets
      exact .inr (.inr (.inr ⟨cr3, space, meets.room pointed held.sound space length word⟩))
    · rintro (other | none | kernel | ⟨_, same, room⟩)
      · exact absurd rfl other
      · exact absurd none positive
      · rw [space] at kernel
        cases kernel
      · obtain rfl := Option.some.inj (space.symm.trans same)
        rw [MmapMeets, sysMmap, if_pos rfl, (room.mapped pointed held.sound space length).2]
        exact ⟨cr3, space, room.gained pointed held.sound space length⟩

theorem mmap_complete_page : ∃ s, serve .offsetPageTable ⟨bare, fun _ => none, 1⟩
    (.spawnUserTask onePage) = some s ∧
    (∃ t' m', sysMmap .offsetPageTable .user ⟨some 256, USER_HEAP_START⟩
    4096 s.memory = some (.ok USER_HEAP_START, t', m')) ∧
    MmapMeets .offsetPageTable .user ⟨some 256, USER_HEAP_START⟩ 4096 s.memory := by
  have ran : (serve .offsetPageTable ⟨bare, fun _ => none, 1⟩ (.spawnUserTask onePage)).map (fun s =>
      ((s.tasks 1, s.memory.framesLeft, decide (s.memory.lookup 256 3 (USER_HEAP_START / 4096)).IsUnused),
        (sysMmap .offsetPageTable .user ⟨some 256, USER_HEAP_START⟩ 4096 s.memory).map (·.1.toOption))) =
      some ((some ⟨some 256, USER_HEAP_START⟩, 251, true), some (some USER_HEAP_START)) := by decide +kernel
  obtain ⟨s, taken, view⟩ := Option.map_eq_some_iff.mp ran
  simp only [Prod.mk.injEq, Option.map_eq_some_iff, decide_eq_true_eq] at view
  obtain ⟨⟨task, left, vacant⟩, ⟨result, t', m'⟩, returned, ok⟩ := view
  have fine : PrivateCalls ⟨bare, fun _ => none, 1⟩ (.spawnUserTask onePage) := fun p member =>
    (onePage_orderly 1 p member).2
  have pages : pageCount 4096 = 1 := by decide
  have only {i : Nat} (small : i < pageCount 4096) : i = 0 := by omega
  refine ⟨s, taken, ⟨t', m', ?_⟩, (mmap_complete_iff bare_booted (Reaches.start.step fine taken)
    task (by decide)).mpr
    (.inr (.inr (.inr ⟨256, rfl, by decide, ?_, ?_, ?_, ?_⟩)))⟩
  · cases result with
    | error => cases ok
    | ok addr =>
      cases ok
      exact returned
  · intro i small
    rw [only small]
    exact ⟨by decide, .inl (by decide)⟩
  · intro i small
    rw [only small]
    exact .inl (by decide)
  · intro i small
    rw [only small]
    exact vacant
  · have most := missingAll_le s.memory 256 (USER_HEAP_START / 4096) 1
    rw [pages, left]
    exact Nat.le_trans (Nat.add_le_add_left most 1) (by decide)

def heapPage : List UserPage := [⟨USER_HEAP_START / 4096, true, false, fun _ => 0⟩]

/-- A length that wraps is answered with an address at which there is nothing, and a call that fails has
moved the pointer. -/
theorem mmap_wraps_and_moves :
    (∃ s, serve .offsetPageTable ⟨bare, fun _ => none, 1⟩ (.spawnUserTask onePage) = some s ∧
      (∃ t', sysMmap .offsetPageTable .user ⟨some 256, USER_HEAP_START⟩ (2 ^ 64 - 1)
      s.memory = some (.ok USER_HEAP_START, t', s.memory)) ∧
      s.tasks 1 = some ⟨some 256, USER_HEAP_START⟩ ∧ (s.memory.lookup 256 3 (USER_HEAP_START / 4096)).IsUnused ∧
      ¬MmapMeets .offsetPageTable .user ⟨some 256, USER_HEAP_START⟩ (2 ^ 64 - 1) s.memory) ∧
    ∃ s, serve .offsetPageTable ⟨bare, fun _ => none, 1⟩ (.spawnUserTask heapPage) = some s ∧
      s.tasks 1 = some ⟨some 256, USER_HEAP_START⟩ ∧
      (∃ m', sysMmap .offsetPageTable .user ⟨some 256, USER_HEAP_START⟩ 4096 s.memory =
        some (.error (), ⟨some 256, USER_HEAP_START + 4096⟩, m')) ∧
      ¬MmapMeets .offsetPageTable .user ⟨some 256, USER_HEAP_START⟩ 4096 s.memory := by
  constructor
  · have ran : (serve .offsetPageTable ⟨bare, fun _ => none, 1⟩ (.spawnUserTask onePage)).map (fun s =>
        (s.tasks 1, decide (s.memory.lookup 256 3 (USER_HEAP_START / 4096)).IsUnused)) =
        some (some ⟨some 256, USER_HEAP_START⟩, true) := by decide +kernel
    obtain ⟨s, taken, view⟩ := Option.map_eq_some_iff.mp ran
    simp only [Prod.mk.injEq, decide_eq_true_eq] at view
    obtain ⟨task, vacant⟩ := view
    have returned : sysMmap .offsetPageTable .user ⟨some 256, USER_HEAP_START⟩ (2 ^ 64 - 1) s.memory =
        some (.ok USER_HEAP_START, ⟨some 256, USER_HEAP_START⟩, s.memory) := by rfl
    refine ⟨s, taken, ⟨_, returned⟩, task, vacant, fun meets => ?_⟩
    rw [MmapMeets, returned] at meets
    obtain ⟨cr3, same, gained⟩ := meets
    cases same
    obtain ⟨_, _, f, _, _, leaf, _⟩ := gained.pages (USER_HEAP_START / 4096) ⟨by decide, by decide⟩
    rw [vacant] at leaf
    cases leaf
  · have ran : (serve .offsetPageTable ⟨bare, fun _ => none, 1⟩ (.spawnUserTask heapPage)).map
      (fun s => (s.tasks 1,
        (sysMmap .offsetPageTable .user ⟨some 256, USER_HEAP_START⟩ 4096 s.memory).map fun r =>
          (r.1.toOption, r.2.1))) =
        some (some ⟨some 256, USER_HEAP_START⟩, some (none, ⟨some 256, USER_HEAP_START + 4096⟩)) := by
          decide +kernel
    obtain ⟨s, taken, view⟩ := Option.map_eq_some_iff.mp ran
    simp only [Prod.mk.injEq, Option.map_eq_some_iff] at view
    obtain ⟨task, ⟨result, _, m'⟩, returned, failed, rfl⟩ := view
    cases result with
    | ok => cases failed
    | error =>
      refine ⟨s, taken, task, ⟨m', returned⟩, fun meets => ?_⟩
      rw [MmapMeets, returned] at meets
      have moved : USER_HEAP_START + 4096 = USER_HEAP_START := meets.1
      cases moved

end PickleOS.Syscall
