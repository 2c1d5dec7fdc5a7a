import PickleOS.Memory.FrameRuns
import PickleOS.Memory.Isolation
import PickleOS.Memory.OffsetPageTable

set_option autoImplicit false

/-!
# Processes and their memory

The processes are their address spaces. They fork, fault, map, unmap and write in any order.
-/

namespace PickleOS.Memory

open Shared.Machine

variable {owner owner' boot : Frame → Owner} {m m' start : MemoryManager} {r r' : Frame} {page page' : Nat}

/-- The memory at the first load, as the bootloader promises it: the free frames are in regions of
their own, and the kernel's tables let no user in and map no huge page in the low half. -/
structure Booted (owner : Frame → Owner) (m : MemoryManager) : Prop where
  aligned : ∀ r, r ∈ m.frameAllocator.memoryMap → 4096 ∣ r.start
  disjoint : m.frameAllocator.memoryMap.Pairwise fun r r' => r.stop ≤ r'.start ∨ r'.stop ≤ r.start
  fresh : ∀ f, f ∈ m.frameAllocator.usableFrames.drop m.frameAllocator.next → owner f = .free
  kernel : owner m.kernelCr3 = .kernel 0 false
  tables : ∀ f i, i < 512 → Fits owner (owner f) i (m.table f i)
  nobody : ∀ f r path, owner f ≠ .table r path
  spaces : m.userPageTables = []

theorem usableFrames_nodup {a : BootInfoFrameAllocator} (aligned : ∀ r, r ∈ a.memoryMap → 4096 ∣ r.start)
    (disjoint : a.memoryMap.Pairwise fun r r' => r.stop ≤ r'.start ∨ r'.stop ≤ r.start) :
      a.usableFrames.Nodup := by
  refine a.frames_nodup aligned (disjoint.imp fun apart => ?_)
  rw [Set.Ico_disjoint_Ico]
  omega

theorem Booted.sound (booted : Booted owner m) : Sound owner m := by
  refine ⟨⟨usableFrames_nodup booted.aligned booted.disjoint, booted.fresh, booted.kernel, booted.tables,
    ?_, ?_, ?_⟩, ?_⟩
  · simp [booted.spaces]
  · exact fun f r i rest label => absurd label (booted.nobody f r _)
  · exact fun r i _ root => absurd root (booted.nobody r r _)
  · intro f i _ _ at_f
    obtain ⟨⟨r, path, label, _⟩, _⟩ := at_f
    exact absurd label (booted.nobody f r path)

inductive Action where
  | load (pages : List UserPage)
  | fork (cr3 : Frame)
  | fault (cr3 : Frame) (page : Nat)
  | mmap (cr3 : Frame) (page count : Nat) (writable : Bool)
  | munmap (cr3 : Frame) (addr len : Nat)
  | write (cr3 : Frame) (page offset : Nat) (value : UInt8)

def step (x : Mapper) (m : MemoryManager) : Action → Option MemoryManager
  | .load pages =>
    m.createUserMapper.map fun (cr3, m) =>
      match m.loadPages x cr3 pages with
      | (true, m) => m.storeUserMapper cr3
      | (false, m) => m
  | .fork cr3 => if cr3 ∈ m.userPageTables then (m.cowForkAddressSpace x cr3).map (·.2) else none
  | .fault cr3 page => if cr3 ∈ m.userPageTables then m.resolveCow cr3 page else none
  | .mmap cr3 page count writable =>
    if cr3 ∈ m.userPageTables then some (m.mapUserRegion x cr3 writable page count).2 else none
  | .munmap cr3 addr len => if cr3 ∈ m.userPageTables then some (m.sysMunmap x cr3 addr len).2 else none
  | .write cr3 page offset value =>
    if cr3 ∈ m.userPageTables then (m.access userWrite cr3 page).map fun f => m.setByte f offset value else none

def PrivatePages (m : MemoryManager) : Action → Prop
  | .load pages => ∀ p, p ∈ pages → m.PrivateSlot (slot 0 p.page)
  | .mmap _ page count _ => ∀ i, i < count → m.PrivateSlot (slot 0 (page + i))
  | _ => True

instance (m : MemoryManager) (i : Nat) : Decidable (m.PrivateSlot i) := by
  unfold MemoryManager.PrivateSlot
  infer_instance

instance (m : MemoryManager) (a : Action) : Decidable (PrivatePages m a) :=
  match a with
  | .load pages => inferInstanceAs (Decidable (∀ p, p ∈ pages → m.PrivateSlot (slot 0 p.page)))
  | .mmap _ page count _ => inferInstanceAs (Decidable (∀ i, i < count → m.PrivateSlot (slot 0 (page + i))))
  | .fork _ | .fault .. | .munmap .. | .write .. => isTrue trivial

theorem step_sound (x : Mapper) {a : Action} (sound : Sound owner m) (fine : PrivatePages m a)
    (taken : step x m a = some m') : ∃ owner', Sound owner' m' := by
  have root {cr3 : Frame} (member : cr3 ∈ m.userPageTables) := (sound.1.roots cr3 member).root
  cases a with
  | load pages =>
    simp only [step, Option.map_eq_some_iff] at taken
    obtain ⟨⟨cr3, m₁⟩, created, rfl⟩ := taken
    obtain ⟨owner₂, sound₂, private₂, _⟩ := sound.load x created fine
    rcases loaded : m₁.loadPages x cr3 pages with ⟨_ | _, m₂⟩
    all_goals
      rw [loaded] at sound₂ private₂
    · exact ⟨owner₂, sound₂⟩
    · exact ⟨owner₂, sound₂.store private₂⟩
  | fork cr3 =>
    simp only [step] at taken
    split at taken <;> rename_i member
    · simp only [Option.map_eq_some_iff] at taken
      obtain ⟨⟨child, m₁⟩, forked, rfl⟩ := taken
      obtain ⟨owner', forked⟩ := sound.fork x (root member) forked
      exact ⟨owner', forked.sound⟩
    · simp at taken
  | fault cr3 page =>
    simp only [step] at taken
    split at taken <;> rename_i member
    · obtain ⟨owner', sound', _⟩ := sound.resolveCow (root member) taken
      exact ⟨owner', sound'⟩
    · simp at taken
  | mmap cr3 page count writable =>
    simp only [step] at taken
    split at taken <;> rename_i member
    · cases taken
      obtain ⟨owner', sound', _⟩ := sound.mapUserRegion x writable (sound.1.roots cr3 member)
        fun i bound _ => fine i bound
      exact ⟨owner', sound'⟩
    · simp at taken
  | munmap cr3 addr len =>
    simp only [step] at taken
    split at taken <;> rename_i member
    · cases taken
      exact ⟨owner, (sound.munmap x addr len (root member)).1⟩
    · simp at taken
  | write cr3 page offset value =>
    simp only [step] at taken
    split at taken
    · simp only [Option.map_eq_some_iff] at taken
      obtain ⟨f, _, rfl⟩ := taken
      exact ⟨owner, sound.setPage _⟩
    · simp at taken

theorem run_sound (x : Mapper) (booted : Booted boot start) (run : Reaches (step x) PrivatePages start m) :
    ∃ owner, Sound owner m := by
  refine run.invariant (motive := fun m => ∃ owner, Sound owner m) ⟨boot, booted.sound⟩
    fun m a m' before fine taken => ?_
  obtain ⟨owner, sound⟩ := before
  exact step_sound x sound fine taken

theorem Sound.apart (sound : Sound owner m) (root : owner r = .table r [])
    (root' : owner r' = .table r' []) (other : r' ≠ r)
    (user : (m.lookup r 3 page).flags.user = true) (writable : (m.lookup r 3 page).flags.writable = true)
    (user' : (m.lookup r' 3 page').flags.user = true) :
      (m.lookup r' 3 page').frame ≠ (m.lookup r 3 page).frame := by
  -- In different address spaces, what one can write the other cannot read.
  intro same
  obtain ⟨t, _, label, at_leaf, leaf⟩ := lookup_user sound.1 root user
  obtain ⟨t', _, label', at_leaf', leaf'⟩ := lookup_user sound.1 root' user'
  rw [leaf] at writable same
  rw [leaf'] at same
  have here := (sound.2 _ _ _ _ at_leaf at_leaf' writable same).1
  rw [here, label] at label'
  exact other (Owner.table.inj label').1.symm

/-- No frame that one address space maps writable for its user is mapped for the user of another
one, and no write by a user changes what another process reads. -/
theorem spaces_isolated (x : Mapper) (booted : Booted boot start) (run : Reaches (step x) PrivatePages start m)
    (space : r ∈ m.userPageTables) (space' : r' ∈ m.userPageTables) (other : r' ≠ r) :
    (∀ page page' f f' flags flags', Translates m r page (some (f, flags)) → flags.user = true →
      flags.writable = true →
      Translates m r' page' (some (f', flags')) → flags'.user = true → f' ≠ f) ∧
    ∀ page offset value after page' f, step x m (.write r page offset value) = some after →
      m.access userRead r' page' = some f → after.access userRead r' page' = some f ∧
      after.byte f = m.byte f := by
  obtain ⟨owner, sound⟩ := run_sound x booted run
  have root := (sound.1.roots r space).root
  have root' := (sound.1.roots r' space').root
  refine ⟨fun page page' f f' flags flags' maps user writable maps' user' => ?_,
    fun page offset value after page' f written reads => ?_⟩
  · have leaf := maps.leaf sound.1 root user
    have leaf' := maps'.leaf sound.1 root' user'
    have user_here : (m.lookup r 3 page).flags.user = true := by rwa [leaf]
    have writable_here : (m.lookup r 3 page).flags.writable = true := by rwa [leaf]
    have user_there : (m.lookup r' 3 page').flags.user = true := by rwa [leaf']
    have apart := sound.apart root root' other user_here writable_here user_there
    rwa [leaf, leaf'] at apart
  · simp only [step, space, if_true, Option.map_eq_some_iff] at written
    obtain ⟨g, writes, rfl⟩ := written
    obtain ⟨frame, right⟩ := access_leaf sound.1 root (by simp +contextual [userWrite]) writes
    obtain ⟨frame', user'⟩ := access_leaf sound.1 root' (by simp [userRead]) reads
    simp only [userWrite, Bool.and_eq_true] at right
    have apart := sound.apart root root' other right.1 right.2 user'
    rw [frame, frame'] at apart
    rw [access_setByte]
    exact ⟨reads, by simp [MemoryManager.setByte, MemoryManager.setPage, apart]⟩

/-- A machine whose kernel has mapped nothing. -/
def bare : MemoryManager where
  table _ _ := .unused
  byte _ _ := 0
  frameAllocator := ⟨[⟨0x100000, 0x200000, .usable⟩], 0⟩
  userPageTables := []
  kernelCr3 := 1

theorem bare_booted : Booted (fun f => if f = 1 then .kernel 0 false else .free) bare := by
  refine ⟨by simp [bare], by simp [bare], fun f member => ?_, rfl, fun _ _ _ => Or.inl rfl,
    fun f r path => ?_, rfl⟩
  · have usable : f ∈ bare.frameAllocator.usableFrames := List.mem_of_mem_drop member
    have other : f ≠ 1 := by
      simp only [bare, BootInfoFrameAllocator.usableFrames, BootInfoFrameAllocator.addresses,
        List.mem_map, List.mem_filter,
        List.mem_flatMap] at usable
      obtain ⟨addr, ⟨⟨r, one, i, _, rfl⟩, _⟩, rfl⟩ := usable
      obtain rfl := List.mem_singleton.mp one.1
      show (1048576 + i * 4096) / 4096 ≠ 1
      omega
    simp [other]
  · by_cases first : f = 1 <;> simp [first]

theorem spaces_isolated_twice : ∃ m, replay (step .offsetPageTable) PrivatePages bare
      [.load [⟨1024, true, false, fun _ => 0⟩], .load [⟨1024, true, false, fun _ => 0⟩]] = some m ∧
    m.userPageTables = [256, 261] ∧
    (∀ page page' f f' flags flags', Translates m 256 page (some (f, flags)) → flags.user = true →
      flags.writable = true →
      Translates m 261 page' (some (f', flags')) → flags'.user = true → f' ≠ f) := by
  have ran : (replay (step .offsetPageTable) PrivatePages bare [.load [⟨1024, true, false, fun _ => 0⟩],
      .load [⟨1024, true, false, fun _ => 0⟩]]).map MemoryManager.userPageTables = some [256, 261] := by
        decide +kernel
  obtain ⟨m, ran, spaces⟩ := Option.map_eq_some_iff.mp ran
  exact ⟨m, ran, spaces, (spaces_isolated .offsetPageTable bare_booted
    (.of_replay (fun _ _ fine => fine) .start ran)
    (by simp [spaces]) (by simp [spaces]) (by decide)).1⟩

end PickleOS.Memory
