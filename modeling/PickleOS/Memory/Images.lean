import PickleOS.Memory.Raises

set_option autoImplicit false

/-!
# Memories of programs

A program sees pages of its own and nothing of frames or tables. The memory operations,
copy-on-write included, do to these private memories what they would do if every program had a
machine to itself.
-/

namespace PickleOS.Memory



/-- What a program sees of one of its pages. -/
structure Image where
  contents : Nat → UInt8
  writable : Bool

/-- The pages of a program, by page number. -/
abbrev PrivateMemory := Nat → Option Image

namespace PrivateMemory

variable (kernel : Nat → Bool)

def place (p : PrivateMemory) (page : Nat) (i : Image) : PrivateMemory := Function.update p page (some i)

/-- A program is not loaded where the kernel has pages, nor on top of itself. -/
def load : List UserPage → PrivateMemory → Option PrivateMemory
  | [], p => some p
  | u :: rest, p =>
    if kernel u.page ∨ (p u.page).isSome then none else load rest (p.place u.page ⟨u.contents, u.writable⟩)

/-- Pages of zeros, up to the first one that is taken. -/
def map (writable : Bool) : Nat → Nat → PrivateMemory → PrivateMemory
  | _, 0, p => p
  | page, count + 1, p =>
    if kernel page ∨ (p page).isSome then p else map writable (page + 1)
      count (p.place page ⟨fun _ => 0, writable⟩)

/-- Either all pages of a range go, or none does. -/
def unmap (addr len : Nat) (p : PrivateMemory) : PrivateMemory :=
  let first := addr / 4096
  let count := (len + 4095) % 2 ^ 64 / 4096
  if len = 0 ∨ addr < USER_HEAP_START ∨ USER_SPACE_MAX ≤ addr ∨ ¬∀ i, i < count →
    (p (first + i)).isSome then p
  else fun q => if first ≤ q ∧ q < first + count then none else p q

def write (page offset : Nat) (value : UInt8) (i : Image) (p : PrivateMemory) : PrivateMemory :=
  p.place page { i with contents := Function.update i.contents offset value }

end PrivateMemory

abbrev Memories := Frame → Option PrivateMemory

/-- What an action does to the memories of programs. -/
inductive Behaves (kernel : Nat → Bool) (s : Memories) : Action → Memories → Prop
  | refused {pages : List UserPage} (clash : PrivateMemory.load kernel pages (fun _ => none) = none) :
    Behaves kernel s (.load pages) s
  | loaded {pages : List UserPage} {p : PrivateMemory} (new : Frame)
    (fits : PrivateMemory.load kernel pages (fun _ => none) = some p)
      (unused : s new = none) : Behaves kernel s (.load pages) (Function.update s new (some p))
  | forked {parent : Frame} {p : PrivateMemory} (child : Frame) (owns : s parent = some p)
    (unused : s child = none) :
      Behaves kernel s (.fork parent) (Function.update s child (some p))
  | faulted {r : Frame} {page : Nat} {p : PrivateMemory} {i : Image} (owns : s r = some p)
    (mapped : p page = some i)
      (writable : i.writable = true) : Behaves kernel s (.fault r page) s
  | mapped {r : Frame} {page count : Nat} {writable : Bool} {p : PrivateMemory} (owns : s r = some p) :
      Behaves kernel s (.mmap r page count writable)
        (Function.update s r (some (p.map kernel writable page count)))
  | unmapped {r : Frame} {addr len : Nat} {p : PrivateMemory} (owns : s r = some p) :
      Behaves kernel s (.munmap r addr len) (Function.update s r (some (p.unmap addr len)))
  | wrote {r : Frame} {page offset : Nat} {value : UInt8} {p : PrivateMemory} {i : Image} (owns : s r = some p)
      (mapped : p page = some i) (writable : i.writable = true) :
      Behaves kernel s (.write r page offset value) (Function.update s r (some (p.write page offset value i)))

/-- The pages of the lower half are the users'. -/
def USER_PAGES : Nat := 2 ^ 35

def Entry.image (m : MemoryManager) (e : Entry) : Option Image :=
  if e.flags.user then some ⟨m.byte e.frame, e.flags.writable || e.flags.cow⟩ else none

namespace MemoryManager

variable (m : MemoryManager)

/-- What a program sees in an address space. A page that waits for its copy counts as writable. -/
def memory (r : Frame) : PrivateMemory := fun q => if q < USER_PAGES then (m.lookup r 3 q).image m else none

def memories : Memories := fun r => if r ∈ m.userPageTables then some (m.memory r) else none

def kernelPage (q : Nat) : Bool := !decide (m.lookup m.kernelCr3 3 q).IsUnused

end MemoryManager

/-- The pages of users lie in the lower half, and under level-4 slots that are private. -/
def UserPages (m : MemoryManager) (a : Action) : Prop :=
  PrivatePages m a ∧
    match a with
    | .load pages => ∀ p, p ∈ pages → p.page < USER_PAGES
    | .mmap _ page count _ => page + count ≤ USER_PAGES
    | .fault _ page => page < USER_PAGES
    | .write _ page _ _ => page < USER_PAGES
    | .fork _ | .munmap .. => True

instance (m : MemoryManager) (a : Action) : Decidable (UserPages m a) :=
  match a with
  | .load _ | .mmap .. | .fault .. | .write .. | .fork _ | .munmap .. => by
    unfold UserPages
    infer_instance

variable {owner owner' owner'' : Frame → Owner} {level level' level'' : Frame → Option Nat}
    {m m' m'' : MemoryManager}
  {f t r cr3 frame : Frame} {page q : Nat} {e : Entry} {flags : Flags}

/-- An address space is divided between the kernel, whose pages it shows, and its user. -/
structure Divided (m : MemoryManager) (r : Frame) : Prop where
  kernel : ∀ q, (m.lookup r 3 q).flags.user = false → m.lookup r 3 q = m.lookup m.kernelCr3 3 q
  vacant : ∀ q, (m.lookup r 3 q).flags.user = true → (m.lookup m.kernelCr3 3 q).IsUnused
  low : ∀ q, (m.lookup r 3 q).flags.user = true → q % 512 ^ 4 < USER_PAGES
  mapped : ∀ q, (m.lookup r 3 q).flags.user = true → (m.lookup r 3 q).flags.present = true ∧
  Mapped m r q (m.lookup r 3 q)

/-- What may become of a page of a divided address space. -/
inductive Turns (m m' : MemoryManager) (r : Frame) (q : Nat) : Prop
  | same (kept : m'.lookup r 3 q = m.lookup r 3 q)
  | gone (unused : (m'.lookup r 3 q).IsUnused) (vacant : (m.lookup m.kernelCr3 3 q).IsUnused)
  | user (user : (m'.lookup r 3 q).flags.user = true) (vacant : (m.lookup m.kernelCr3 3 q).IsUnused)
      (low : q % 512 ^ 4 < USER_PAGES) (present : (m'.lookup r 3 q).flags.present = true)
      (way : ∀ k, k < 3 → Open m' r q k)

/-- What an operation changes of address spaces. -/
structure Affects (owner : Frame → Owner) (level : Frame → Option Nat) (m : MemoryManager)
    (owner' : Frame → Owner)
    (level' : Frame → Option Nat) (m' : MemoryManager) (changes : Frame → Nat → Prop) : Prop where
  sound : Sound owner' m'
  spares : Spares owner m owner' m' changes
  raises : Raises level m level' m'

namespace Affects

variable {changes changes' : Frame → Nat → Prop}

theorem trans (first : Affects owner level m owner' level' m' changes)
    (second : Affects owner' level' m' owner'' level'' m'' changes') :
    Affects owner level m owner'' level'' m'' fun r q => changes r q ∨ changes' r q :=
  ⟨second.sound, first.spares.trans second.spares, first.raises.trans second.raises⟩

theorem mono (affects : Affects owner level m owner' level' m' changes)
    (more : ∀ r q, owner r = .table r [] → changes r q → changes' r q) :
      Affects owner level m owner' level' m' changes' :=
  ⟨affects.sound, affects.spares.mono more, affects.raises⟩

end Affects

theorem Sound.old (sound : Sound owner m) (busy : owner f ≠ .free) : ¬m.Fresh f :=
  fun fresh => busy (sound.1.fresh f fresh)

theorem Sound.leaf_data (sound : Sound owner m) (root : owner r = .table r [])
    (user : (m.lookup r 3 q).flags.user = true) :
    owner (m.lookup r 3 q).frame = .data := by
  obtain ⟨t, _, _, at_leaf, leaf⟩ := lookup_user sound.1 root user
  rw [leaf]
  exact at_leaf.data sound.1

theorem Entry.image_same (user : e.flags.user = true → m'.byte e.frame = m.byte e.frame) :
    e.image m' = e.image m := by
  unfold Entry.image
  split
  next yours => rw [user yours]
  next => rfl

namespace Affects

variable {changes : Frame → Nat → Prop} (affects : Affects owner level m owner' level' m' changes)
    (sound : Sound owner m)
  (leveled : Leveled level m) (root : owner r = .table r []) (root' : level r = some 0)
include affects sound root

theorem image (same : m'.lookup r 3 q = m.lookup r 3 q) :
    (m'.lookup r 3 q).image m' = (m.lookup r 3 q).image m := by
  rw [same]
  refine Entry.image_same fun user => affects.raises.bytes _ (sound.old ?_)
  rw [sound.leaf_data root user]
  exact Owner.noConfusion

theorem memory_same (same : ∀ q, m'.lookup r 3 q = m.lookup r 3 q) : m'.memory r = m.memory r := by
  funext q
  simp only [MemoryManager.memory, affects.image sound root (same q)]

include leveled root'

theorem divided (divided : Divided m r) (changed : ∀ q, changes r q → Turns m m' r q) : Divided m' r := by
  have kernel (q : Nat) := affects.spares.lookup_kernel (q := q) sound.1
  have turns (q : Nat) : Turns m m' r q := by
    by_cases off : changes r q
    · exact changed q off
    · exact .same (affects.spares.lookup r q root off)
  constructor
  · intro q plain
    rw [kernel]
    cases turns q with
    | same kept =>
      rw [kept] at plain ⊢
      exact divided.kernel q plain
    | gone unused vacant => rw [unused, vacant]
    | user user =>
      rw [user] at plain
      cases plain
  all_goals
    intro q user
  · rw [kernel]
    cases turns q with
    | same kept => exact divided.vacant q (kept ▸ user)
    | gone _ vacant => exact vacant
    | user _ vacant => exact vacant
  · cases turns q with
    | same kept => exact divided.low q (kept ▸ user)
    | gone unused =>
      rw [Entry.unused_flags unused] at user
      cases user
    | user _ _ low => exact low
  · cases turns q with
    | same kept =>
      obtain ⟨present, mapped⟩ := divided.mapped q (kept ▸ user)
      refine ⟨by rwa [kept], rfl, fun k upper => ?_⟩
      exact affects.raises.keeps_open leveled root' upper (mapped.way k upper)
    | gone unused =>
      rw [Entry.unused_flags unused] at user
      cases user
    | user _ _ _ present way => exact ⟨present, rfl, way⟩

end Affects

theorem pathTo_shorter {k n q' : Nat} (same : pathTo n q = pathTo n q') (shorter : k ≤ n) :
    pathTo k q = pathTo k q' := by
  induction n with
  | zero =>
    obtain rfl : k = 0 := by omega
    rfl
  | succ n ih =>
    by_cases last : k = n + 1
    · rwa [last]
    · exact ih (pathTo_take same).1 (by omega)

theorem pathTo_user {q' : Nat} (low : q < USER_PAGES) (low' : q' < USER_PAGES) :
    pathTo 4 q = pathTo 4 q' ↔ q = q' := by
  unfold USER_PAGES at low low'
  rw [pathTo_eq, Nat.mod_eq_of_lt (by omega), Nat.mod_eq_of_lt (by omega)]

theorem Open.same_way {k q' : Nat} (open_here : Open m r q k) (upper : k < 3)
    (same : pathTo 4 q' = pathTo 4 q) : Open m r q' k := by
  have way := lookup_path (m := m) (r := r) (pathTo_shorter same (show k + 1 ≤ 4 by omega))
  constructor <;> rw [way]
  · exact open_here.present
  · exact open_here.user
  · exact open_here.small

theorem Divided.unused_iff (divided : Divided m r) (low : q < USER_PAGES) :
    (m.lookup r 3 q).IsUnused ↔ ¬(m.kernelPage q = true ∨ (m.memory r q).isSome = true) := by
  simp only [MemoryManager.kernelPage, MemoryManager.memory, low, if_true, Entry.image, Bool.not_eq_true',
    decide_eq_false_iff_not]
  cases user : (m.lookup r 3 q).flags.user with
  | false => simp [divided.kernel q user]
  | true =>
    refine iff_of_false (fun unused => ?_) (by simp)
    rw [Entry.unused_flags unused] at user
    cases user

theorem Divided.free (divided : Divided m r) (low : q < USER_PAGES) (unused : (m.lookup r 3 q).IsUnused) :
    m.kernelPage q = false ∧ m.memory r q = none := by
  have free := (divided.unused_iff low).mp unused
  simpa using free

section Operations

variable (sound : Sound owner m) (leveled : Leveled level m) (private_root : Private owner m cr3)
    (root' : level cr3 = some 0)
  (divided : Divided m cr3)
include sound leveled private_root root' divided

theorem Affects.place (affects : Affects owner level m owner' level' m' fun r q => r = cr3 ∧
    pathTo 4 q = pathTo 4 page)
    (vacant : m.kernelPage page = false) (low : page < USER_PAGES) (mapped : Mapped m' cr3 page e)
    (present : e.flags.present = true)
    (user : e.flags.user = true) :
    Divided m' cr3 ∧ m'.memory cr3 = (m.memory cr3).place
      page ⟨m'.byte e.frame, e.flags.writable || e.flags.cow⟩ := by
  have kernel : (m.lookup m.kernelCr3 3 page).IsUnused := by simpa [MemoryManager.kernelPage] using vacant
  refine ⟨affects.divided sound leveled private_root.root root' divided fun q changed => ?_, funext fun q => ?_⟩
  · have leaf : m'.lookup cr3 3 q = e := (lookup_path changed.2).trans mapped.leaf
    refine .user (by rwa [leaf]) ?_ ?_ (by rwa [leaf]) fun k upper =>
      (mapped.way k upper).same_way upper changed.2
    · rwa [lookup_path changed.2]
    · rw [pathTo_eq.mp changed.2]
      exact Nat.lt_of_le_of_lt (Nat.mod_le _ _) low
  · simp only [MemoryManager.memory, PrivateMemory.place, Function.update_apply]
    by_cases here : q = page
    · subst here
      simp [low, mapped.leaf, Entry.image, user]
    · rw [if_neg here]
      by_cases fits : q < USER_PAGES
      · rw [if_pos fits, if_pos fits]
        refine affects.image sound private_root.root
          (affects.spares.lookup cr3 q private_root.root fun changed => here ?_)
        exact (pathTo_user fits low).mp changed.2
      · rw [if_neg fits, if_neg fits]

/-- What becomes of a page for which a frame has been taken and filled. -/
structure Grants (owner : Frame → Owner) (level : Frame → Option Nat) (m : MemoryManager) (cr3 : Frame)
    (page : Nat) (f : Frame)
    (contents : Nat → UInt8) (flags : Flags) (owner' : Frame → Owner) (level' : Frame → Option Nat)
    (result : Except MapToError Unit × MemoryManager) : Prop where
  affects : Affects owner level m owner' level' result.2 fun r q => r = cr3 ∧ pathTo 4 q = pathTo 4 page
  root : Private owner' result.2 cr3
  failed : result.1 ≠ .ok () → ¬(m.lookup cr3 3 page).IsUnused ∨ result.2.OutOfFrames
  kept : result.1 ≠ .ok () → ∀ q, result.2.lookup cr3 3 q = m.lookup cr3 3 q
  unused : result.1 = .ok () → (m.lookup cr3 3 page).IsUnused
  mapped : result.1 = .ok () → Mapped result.2 cr3 page ⟨f, flags⟩
  filled : result.2.byte f = contents

omit divided in
theorem Sound.grants (x : Mapper) (page : Nat) (flags : Flags)
    {m₁ : MemoryManager} (slots : m.PrivateSlot (slot 0 page)) (present : flags.present = true)
    (user : flags.user = true) (small : flags.huge = false) (fresh : m.allocateFrame = (some f, m₁))
    (contents : Nat → UInt8) :
    ∃ owner' level', Grants owner level m cr3 page f contents flags owner' level'
      (x.mapTo (m₁.setPage f contents) cr3 page f flags) := by
  obtain ⟨owner₁, sound₁, builds, data, unmapped, spares₁⟩ := sound.takeData (r := cr3) fresh contents
  have private₁ := private_root.builds builds
  have slots₁ := (builds.slots sound.1 _).mpr slots
  have raises₁ : Raises level m level (m₁.setPage f contents) :=
    (Deepens.allocate leveled fresh).raises.setPage (fresh_allocated fresh) contents
  obtain ⟨owner₂, sound₂, private₂, _, spares₂⟩ :=
    sound₁.mapFresh x page flags private₁ slots₁ present small data unmapped
  obtain ⟨level₂, deepens, mapped⟩ :=
    (x.mapTo_documented (m₁.setPage f contents) cr3 page f flags).deepens raises₁.leveled root'
  have same : (m₁.setPage f contents).lookup cr3 3 page = m.lookup cr3 3 page :=
    spares₁.lookup cr3 page private_root.root id
  refine ⟨owner₂, level₂, ⟨sound₂, (spares₁.trans spares₂).mono fun _ _ _ changed =>
    changed.resolve_left id, raises₁.trans deepens.raises⟩,
    private₂, fun failed => ?_, fun failed q => ?_, fun ok => ?_, fun ok => mapped ok present user, ?_⟩
  · by_cases unused : (m.lookup cr3 3 page).IsUnused
    · exact Or.inr ((sound₁.1.mapTo_vacant x page f flags private₁ slots₁ present
        (by rwa [same])).resolve_left failed)
    · exact Or.inl unused
  · obtain ⟨_, m₂, _, own, result⟩ :=
      (x.mapTo_documented (m₁.setPage f contents) cr3 page f flags).builds sound₁.1 private₁ slots₁ present
    rcases result with ⟨_, _, after, _⟩ | ⟨ok, _⟩
    · rw [after, own q]
      exact spares₁.lookup cr3 q private_root.root id
    · exact absurd ok failed
  · by_contra used
    obtain ⟨error, failed⟩ := sound₁.1.mapTo_used x page f flags private₁ slots₁ present (by rwa [same])
    rw [failed] at ok
    cases ok
  · rw [deepens.bytes f (show ¬m₁.Fresh f from leveled.taken fresh), setPage_byte]

end Operations

/-- The pages of a program are mapped one after the other, or something is in the way. -/
structure Loads (owner : Frame → Owner) (level : Frame → Option Nat) (m : MemoryManager) (cr3 : Frame)
    (loaded : Option PrivateMemory)
    (owner' : Frame → Owner) (level' : Frame → Option Nat) (result : Bool × MemoryManager) : Prop where
  affects : Affects owner level m owner' level' result.2 fun r _ => r = cr3
  root : Private owner' result.2 cr3
  ok : result.1 = true → Divided result.2 cr3 ∧ loaded = some (result.2.memory cr3)
  failed : result.1 = false → result.2.OutOfFrames ∨ loaded = none

theorem Sound.loads (x : Mapper) {pages : List UserPage} (sound : Sound owner m) (leveled : Leveled level m)
    (private_root : Private owner m cr3) (root' : level cr3 = some 0) (divided : Divided m cr3)
    (slots : ∀ p, p ∈ pages → m.PrivateSlot (slot 0 p.page)) (low : ∀ p, p ∈ pages → p.page < USER_PAGES) :
    ∃ owner' level', Loads owner level m cr3 (PrivateMemory.load m.kernelPage pages (m.memory cr3))
      owner' level' (m.loadPages x cr3 pages) := by
  induction pages generalizing owner level m with
  | nil =>
    refine ⟨owner, level, ⟨sound, .refl owner m _, .refl leveled⟩, private_root, fun _ => ⟨divided, rfl⟩,
      fun failed => ?_⟩
    cases failed
  | cons p rest ih =>
    have here := low p List.mem_cons_self
    simp only [MemoryManager.loadPages, PrivateMemory.load]
    rcases fresh : m.allocateFrame with ⟨_ | f, m₁⟩
    · obtain ⟨sound', spares⟩ := sound.exhausted fresh
      have raises : Raises level m level m₁ := (Deepens.allocate leveled fresh).raises
      have builds := Builds.exhausted (r := cr3) sound.1 fresh
      refine ⟨owner, level, ⟨sound', spares.mono fun _ _ _ never => never.elim, raises⟩,
        private_root.builds builds, fun ok => ?_,
        fun _ => Or.inl (outOfFrames fresh)⟩
      cases ok
    · have same : m₁.setPage f (m₁.byte f) = m₁ := by rw [MemoryManager.setPage, Function.update_eq_self]
      have granted := sound.grants leveled private_root root' x p.page p.flags
        (slots p List.mem_cons_self) rfl rfl rfl fresh (m₁.byte f)
      rw [same] at granted
      obtain ⟨owner₂, level₂, grants⟩ := granted
      rcases mapped : x.mapTo m₁ cr3 p.page f p.flags with ⟨error | _, m₂⟩
      all_goals
        rw [mapped] at grants
        simp only [mapped]
      · refine ⟨owner₂, level₂, grants.affects.mono fun _ _ _ changed => changed.1, grants.root,
          fun ok => ?_, fun _ => ?_⟩
        · cases ok
        · rcases grants.failed (by simp) with used | exhausted
          · rw [divided.unused_iff here, not_not] at used
            exact Or.inr (if_pos used)
          · exact Or.inl exhausted
      · obtain ⟨vacant, free⟩ := divided.free here (grants.unused rfl)
        -- The page is filled only now.
        have affects : Affects owner level m owner₂ level₂ (m₂.setPage f p.contents) fun r q =>
          r = cr3 ∧ pathTo 4 q = pathTo 4 p.page :=
          ⟨grants.affects.sound.setPage p.contents,
            (grants.affects.spares.trans (Spares.setPage owner₂ m₂ f p.contents)).mono
              fun _ _ _ changed => changed.resolve_right id,
            grants.affects.raises.setPage (fresh_allocated fresh) p.contents⟩
        obtain ⟨divided₂, memory₂⟩ := Affects.place sound leveled private_root root' divided affects vacant here
          ((grants.mapped rfl).of_table rfl) rfl rfl
        have kernel : (m₂.setPage f p.contents).kernelPage = m.kernelPage := funext fun q => by
          simp only [MemoryManager.kernelPage, affects.spares.lookup_kernel sound.1]
        have slots₂ (i : Nat) := affects.spares.slots sound.1 i
        obtain ⟨owner', level', loads⟩ :=
          ih affects.sound affects.raises.leveled grants.root (affects.raises.serves _ _ root') divided₂
          (fun p' member => (slots₂ _).mpr (slots p' (List.mem_cons_of_mem _ member))) fun p' member =>
            low p' (List.mem_cons_of_mem _ member)
        have placed : (m.memory cr3).place p.page ⟨p.contents, p.writable⟩ =
          (m₂.setPage f p.contents).memory cr3 := by
          rw [memory₂, setPage_byte]
          simp [UserPage.flags]
        rw [if_neg (by simp [vacant, free]), placed, ← kernel]
        exact ⟨owner', level', (affects.trans loads.affects).mono fun _ _ _ changed => changed.elim (·.1)
          id, loads.root, loads.ok, loads.failed⟩

theorem Affects.kernelPage {changes : Frame → Nat → Prop}
    (affects : Affects owner level m owner' level' m' changes) (sound : Sound owner m) :
    m'.kernelPage = m.kernelPage := by
  funext q
  simp only [MemoryManager.kernelPage, affects.spares.lookup_kernel sound.1]

theorem Sound.maps_region (x : Mapper) (writable : Bool) {count : Nat} (sound : Sound owner m)
    (leveled : Leveled level m)
    (private_root : Private owner m cr3) (root' : level cr3 = some 0) (divided : Divided m cr3)
    (slots : ∀ i, i < count → m.PrivateSlot (slot 0 (page + i))) (low : page + count ≤ USER_PAGES) :
    ∃ owner' level', (Affects owner level m owner' level' (m.mapUserRegion x cr3 writable page count).2
      fun r _ => r = cr3) ∧
      ((m.mapUserRegion x cr3 writable page count).2.OutOfFrames ∨
        Divided (m.mapUserRegion x cr3 writable page count).2 cr3 ∧
        (m.mapUserRegion x cr3 writable page count).2.memory
          cr3 = PrivateMemory.map m.kernelPage writable page count (m.memory cr3)) := by
  induction count generalizing owner level m page with
  | zero => exact ⟨owner, level, ⟨sound, .refl owner m _, .refl leveled⟩, Or.inr ⟨divided, rfl⟩⟩
  | succ count ih =>
    have here : page < USER_PAGES := by omega
    simp only [MemoryManager.mapUserRegion, PrivateMemory.map]
    rcases fresh : m.allocateFrame with ⟨_ | f, m₁⟩
    · obtain ⟨sound', spares⟩ := sound.exhausted fresh
      have raises : Raises level m level m₁ := (Deepens.allocate leveled fresh).raises
      exact ⟨owner, level, ⟨sound', spares.mono fun _ _ _ never => never.elim, raises⟩,
        Or.inl (outOfFrames fresh)⟩
    · obtain ⟨owner₂, level₂, grants⟩ := sound.grants leveled private_root root' x page
        { present := true, user := true, writable := writable } (slots 0 (Nat.succ_pos count))
        rfl rfl rfl fresh fun _ => 0
      simp only [MemoryManager.zeroPage]
      rcases mapped : x.mapTo (m₁.setPage f fun _ => 0) cr3 page f
        { present := true, user := true, writable := writable }
        with ⟨error | _, m₂⟩
      all_goals
        rw [mapped] at grants
        simp only
      · refine ⟨owner₂, level₂, grants.affects.mono fun _ _ _ changed => changed.1, ?_⟩
        rcases grants.failed (by simp) with used | exhausted
        · have kept := grants.kept (by simp)
          rw [divided.unused_iff here, not_not] at used
          rw [if_pos used]
          exact Or.inr ⟨grants.affects.divided sound leveled private_root.root root' divided fun q _ =>
            .same (kept q),
            grants.affects.memory_same sound private_root.root kept⟩
        · exact Or.inl exhausted
      · obtain ⟨vacant, free⟩ := divided.free here (grants.unused rfl)
        obtain ⟨divided₂, memory₂⟩ :=
          Affects.place sound leveled private_root root' divided grants.affects vacant here
            (grants.mapped rfl) rfl rfl
        have kernel := grants.affects.kernelPage sound
        have next (i : Nat) : page + 1 + i = page + (i + 1) := by omega
        obtain ⟨owner', level', affects, done⟩ :=
          ih grants.affects.sound grants.affects.raises.leveled grants.root
          (grants.affects.raises.serves _ _ root') divided₂
          (fun i bound => by
            rw [grants.affects.spares.slots sound.1, next]
            exact slots (i + 1) (by omega)) (by omega)
        have placed : (m.memory cr3).place page ⟨fun _ => 0, writable⟩ = m₂.memory cr3 := by
          rw [memory₂, grants.filled]
          simp
        rw [if_neg (by simp [vacant, free]), placed, ← kernel]
        exact ⟨owner', level', (grants.affects.trans affects).mono fun _ _ _ changed => changed.elim (·.1)
          id, done⟩

theorem Sound.unmaps (x : Mapper) (sound : Sound owner m) (leveled : Leveled level m)
    (private_root : Private owner m cr3)
    (root' : level cr3 = some 0) (divided : Divided m cr3) (low : page < USER_PAGES)
    (user : (m.lookup cr3 3 page).flags.user = true) :
    (x.unmap m cr3 page).1.isSome = true ∧
      (Affects owner level m owner level (x.unmap m cr3 page).2 fun r q => r = cr3 ∧
        pathTo 4 q = pathTo 4 page) ∧
      Private owner (x.unmap m cr3 page).2 cr3 ∧ Divided (x.unmap m cr3 page).2 cr3 ∧
      (x.unmap m cr3 page).2.memory cr3 = Function.update (m.memory cr3) page none := by
  obtain ⟨t, found, label, at_leaf, leaf⟩ := lookup_user sound.1 private_root.root user
  have used : ¬(m.table t (slot 3 page)).IsUnused := fun unused => by
    rw [leaf, Entry.unused_flags unused] at user
    cases user
  have unmaps := x.unmap_documented m cr3 page
  rcases unmapped : x.unmap m cr3 page with ⟨_ | f, m₁⟩
  all_goals rw [unmapped] at unmaps
  · cases unmaps with
    | failed missing =>
      rw [leaf] at missing
      exact absurd missing used
  · have after : m₁ = m.setEntry t (slot 3 page) .unused := by
      cases unmaps with
      | @unmapped t' found' =>
        rw [Option.some.inj (found.symm.trans found')]
        rfl
    subst after
    have kept := sound.1.setLeaf (i := slot 3 page) (e := .unused) label (pathTo_length 3 page)
      (by simp [Entry.unused])
    have affects : Affects owner level m owner level (m.setEntry t (slot 3 page) .unused) fun r q =>
      r = cr3 ∧ pathTo 4 q = pathTo 4 page :=
      ⟨⟨kept.1, sound.2.setLeaf (by simp [Entry.unused])⟩, sound.1.spares_setLeaf label found,
        (Raises.refl leveled).setLeaf (leveled.tableAt root' (Nat.le_refl 3) found) _ _⟩
    have gone {q : Nat} (same : pathTo 4 q = pathTo 4 page) :
      (m.setEntry t (slot 3 page) .unused).lookup cr3 3 q = .unused := by
      rw [lookup_setLeaf sound.1 private_root.root label found (Nat.le_refl 3), if_pos ⟨rfl, same⟩]
    refine ⟨rfl, affects, fun i bound => kept.2.1 cr3 i (private_root i bound),
      affects.divided sound leveled private_root.root root' divided fun q changed =>
        .gone (gone changed.2) ?_, funext fun q => ?_⟩
    · rw [lookup_path changed.2]
      exact divided.vacant page user
    · rw [Function.update_apply]
      by_cases here : q = page
      · have none : Entry.unused.image (m.setEntry t (slot 3 page) .unused) = none := rfl
        simp only [MemoryManager.memory, here, low, if_true, gone rfl, none]
      · rw [if_neg here]
        by_cases fits : q < USER_PAGES
        · simp only [MemoryManager.memory, if_pos fits]
          exact affects.image sound private_root.root
            (affects.spares.lookup cr3 q private_root.root fun changed =>
              here ((pathTo_user fits low).mp changed.2))
        · simp only [MemoryManager.memory, if_neg fits]

theorem Sound.unmaps_region (x : Mapper) {count : Nat} (sound : Sound owner m) (leveled : Leveled level m)
    (private_root : Private owner m cr3) (root' : level cr3 = some 0) (divided : Divided m cr3)
    (low : page + count ≤ USER_PAGES)
    (users : ∀ i, i < count → (m.lookup cr3 3 (page + i)).flags.user = true) :
    (Affects owner level m owner level (m.unmapPages x cr3 page count).2 fun r _ => r = cr3) ∧
      Divided (m.unmapPages x cr3 page count).2 cr3 ∧
      (m.unmapPages x cr3 page count).2.memory cr3 = fun q =>
        if page ≤ q ∧ q < page + count then none else m.memory cr3 q := by
  induction count generalizing page m with
  | zero =>
    refine ⟨⟨sound, .refl owner m _, .refl leveled⟩, divided, funext fun q => ?_⟩
    rw [if_neg (by omega)]
    rfl
  | succ count ih =>
    have here : page < USER_PAGES := by omega
    obtain ⟨done, affects, private₁, divided₁, memory₁⟩ :=
      sound.unmaps x leveled private_root root' divided here (users 0 (Nat.succ_pos count))
    simp only [MemoryManager.unmapPages]
    rcases unmapped : x.unmap m cr3 page with ⟨_ | f, m₁⟩
    all_goals rw [unmapped] at done affects private₁ divided₁ memory₁
    · cases done
    · have next (i : Nat) : page + 1 + i = page + (i + 1) := by omega
      obtain ⟨affects', divided', memory'⟩ := ih affects.sound affects.raises.leveled private₁ divided₁
          (show page + 1 + count ≤ USER_PAGES by omega) fun i bound => by
        have other : ¬(cr3 = cr3 ∧ pathTo 4 (page + 1 + i) = pathTo 4 page) := by
          rintro ⟨_, same⟩
          have inside : page + 1 + i < USER_PAGES := by omega
          have pages := (pathTo_user inside here).mp same
          omega
        rw [affects.spares.lookup cr3 _ private_root.root other, next]
        exact users (i + 1) (by omega)
      refine ⟨(affects.trans affects').mono fun _ _ _ changed => changed.elim (·.1) id, divided',
        funext fun q => ?_⟩
      rw [memory', memory₁]
      dsimp only
      rw [Function.update_apply]
      by_cases first : q = page
      · rw [if_neg (by omega), if_pos first, if_pos (by omega)]
      · rw [if_neg first]
        exact if_congr (by omega) rfl rfl

theorem Divided.memory_isSome (divided : Divided m r) (low : q % 512 ^ 4 = q) :
    (m.memory r q).isSome = true ↔ (m.lookup r 3 q).flags.user = true := by
  simp only [MemoryManager.memory, Entry.image]
  constructor
  · intro mapped
    split at mapped
    next =>
      split at mapped
      next user => exact user
      next => cases mapped
    next => cases mapped
  · intro user
    have fits := divided.low q user
    rw [low] at fits
    rw [if_pos fits, if_pos user]
    rfl

theorem Sound.translate_user (x : Mapper) (sound : Sound owner m) (root : owner cr3 = .table cr3 []) :
    (x.translate m cr3 page).any (·.2.user) = true ↔ (m.lookup cr3 3 page).flags.user = true := by
  have translates := x.translate_documented m cr3 page
  generalize x.translate m cr3 page = result at translates
  constructor
  · intro user
    obtain ⟨⟨f, flags⟩, rfl, user⟩ := (Option.any_eq_true _ _).mp user
    rw [translates.leaf sound.1 root user]
    exact user
  · intro user
    obtain ⟨t, found, _, _, _⟩ := lookup_user sound.1 root user
    cases translates with
    | small => simpa using user
    | huge upper _ huge =>
      rw [tableAt_small found upper] at huge
      cases huge
    | notMapped unused =>
      rw [Entry.unused_flags unused] at user
      cases user

theorem Sound.munmaps (x : Mapper) (addr len : Nat) (sound : Sound owner m) (leveled : Leveled level m)
    (private_root : Private owner m cr3)
    (root' : level cr3 = some 0) (divided : Divided m cr3) :
    (Affects owner level m owner level (m.sysMunmap x cr3 addr len).2 fun r _ => r = cr3) ∧
      Divided (m.sysMunmap x cr3 addr len).2 cr3 ∧
      (m.sysMunmap x cr3 addr len).2.memory cr3 = (m.memory cr3).unmap addr len := by
  have quiet : Affects owner level m owner level m fun r _ => r = cr3 := ⟨sound, .refl owner m _, .refl leveled⟩
  simp only [MemoryManager.sysMunmap, PrivateMemory.unmap]
  by_cases empty : len = 0
  · rw [if_pos empty, if_pos (Or.inl empty)]
    exact ⟨quiet, divided, rfl⟩
  by_cases outside : addr < USER_HEAP_START ∨ USER_SPACE_MAX ≤ addr
  · rw [if_neg empty, if_pos outside, if_pos (Or.inr (outside.imp_right Or.inl))]
    exact ⟨quiet, divided, rfl⟩
  rw [if_neg empty, if_neg outside]
  simp only [sound.translate_user x private_root.root]
  generalize (len + 4095) % 2 ^ 64 / 4096 = count
  have first : addr / 4096 < USER_PAGES := by
    simp only [USER_SPACE_MAX, USER_PAGES] at outside ⊢
    omega
  -- A region that runs through the users' pages to their end finds a page there that is no user's.
  have inside (users : ∀ i, i < count → (m.lookup cr3 3 (addr / 4096 + i)).flags.user = true) :
    addr / 4096 + count ≤ USER_PAGES := by
    by_contra beyond
    have low := divided.low _ (users (USER_PAGES - addr / 4096) (by omega))
    rw [show addr / 4096 + (USER_PAGES - addr / 4096) = USER_PAGES by omega] at low
    exact absurd low (by decide)
  have small (i : Nat) (fits : addr / 4096 + i < USER_PAGES) :
    (addr / 4096 + i) % 512 ^ 4 = addr / 4096 + i := by
    unfold USER_PAGES at fits
    exact Nat.mod_eq_of_lt (by omega)
  by_cases users : ∀ i, i < count → (m.lookup cr3 3 (addr / 4096 + i)).flags.user = true
  · have fits := inside users
    have mapped : ∀ i, i < count → (m.memory cr3 (addr / 4096 + i)).isSome = true := fun i bound =>
      (divided.memory_isSome (small i (by omega))).mpr (users i bound)
    obtain ⟨affects, divided', memory'⟩ := sound.unmaps_region x leveled private_root root' divided fits users
    rw [if_pos users, if_neg (by simp only [not_or, not_not]; exact ⟨empty, by omega, by omega, mapped⟩)]
    exact ⟨affects, divided', memory'⟩
  · have missing : ¬∀ i, i < count → (m.memory cr3 (addr / 4096 + i)).isSome = true := fun mapped =>
      users fun i bound => by
      have fits : addr / 4096 + i < USER_PAGES := by
        by_contra beyond
        have some := mapped i bound
        simp [MemoryManager.memory, beyond] at some
      exact (divided.memory_isSome (small i fits)).mp (mapped i bound)
    rw [if_neg users, if_pos (Or.inr (Or.inr (Or.inr missing)))]
    exact ⟨quiet, divided, rfl⟩

theorem Entry.image_resolved {m m' : MemoryManager} (user : e.flags.user = true) (cow : e.flags.cow = true)
    (copied : m'.byte f = m.byte e.frame) : Entry.image m' ⟨f, e.flags.resolved⟩ = e.image m := by
  simp [Entry.image, Flags.resolved, user, cow, copied]

theorem Sound.resolves (sound : Sound owner m) (leveled : Leveled level m) (private_root : Private owner m cr3)
    (root' : level cr3 = some 0) (divided : Divided m cr3) (done : m.resolveCow cr3 page = some m')
    (low : page < USER_PAGES) :
    ∃ owner', (Affects owner level m owner' level m' fun r _ => r = cr3) ∧ Divided m' cr3 ∧
    m'.memory cr3 = m.memory cr3 ∧
      ∃ i, m.memory cr3 page = some i ∧ i.writable = true := by
  simp only [MemoryManager.resolveCow, Option.bind_eq_some_iff] at done
  obtain ⟨t, found, done⟩ := done
  split at done
  next => cases done
  next waits =>
    simp only [not_or, Bool.not_eq_true, Bool.not_eq_false] at waits
    obtain ⟨present, user, _, cow, small⟩ := waits
    obtain ⟨⟨new, m₁⟩, fresh, rfl⟩ := Option.map_eq_some_iff.mp done
    have fresh := expectFrame_some fresh
    have entry : m.lookup cr3 3 page = m.table t (slot 3 page) := lookup_found found
    rw [← entry] at present user cow small
    have label := ((tableAt_onWay sound.1 private_root.root (Nat.le_refl 3) found).user
      sound.1 (by rwa [← entry])).1
    have bytes : m₁.byte = m.byte := by rw [(allocated fresh).1]
    obtain ⟨owner', sound', builds, data, unmapped, spares⟩ :=
      sound.takeData (r := cr3) fresh (m.byte (m.lookup cr3 3 page).frame)
    have label' : owner' t = .table cr3 (pathTo 3 page) := by rw [builds.grows t (by simp [label]), label]
    have table : (m₁.setPage new (m.byte (m.lookup cr3 3 page).frame)).table = m.table := by
      rw [(allocated fresh).1]; rfl
    have found' := (tableAt_table table cr3 3 page).trans found
    have root := (private_root.builds builds).root
    have copied : m₁.copyPage (m.table t (slot 3 page)).frame
      new = m₁.setPage new (m.byte (m.lookup cr3 3 page).frame) := by
      rw [MemoryManager.copyPage, bytes, entry]
    dsimp only
    rw [copied, ← entry]
    have leaf (q : Nat) : ((m₁.setPage new (m.byte (m.lookup cr3 3 page).frame)).setEntry t (slot 3 page)
        ⟨new, (m.lookup cr3 3 page).flags.resolved⟩).lookup cr3 3 q =
        if pathTo 4 q = pathTo 4 page then ⟨new, (m.lookup cr3 3 page).flags.resolved⟩ else
          m.lookup cr3 3 q := by
      rw [lookup_setLeaf sound'.1 root label' found' (Nat.le_refl 3), lookup_table table]
      simp only [true_and]
    have affects : Affects owner level m owner' level
      ((m₁.setPage new (m.byte (m.lookup cr3 3 page).frame)).setEntry t (slot 3 page)
        ⟨new, (m.lookup cr3 3 page).flags.resolved⟩) fun r q => r = cr3 ∧ pathTo 4 q = pathTo 4 page := by
      have owned := sound'.1.setLeaf (i := slot 3 page) (e := ⟨new, (m.lookup cr3 3 page).flags.resolved⟩)
        label' (pathTo_length 3 page)
        fun _ => ⟨data, small⟩
      refine ⟨⟨owned.1, sound'.2.setLeaf fun _ g j _ at_g same => ?_⟩,
        (spares.trans (sound'.1.spares_setLeaf label' found')).mono fun _ _ _ changed =>
          changed.resolve_left id,
        ((Deepens.allocate leveled fresh).raises.setPage (fresh_allocated fresh) _).setLeaf
          (leveled.tableAt root' (Nat.le_refl 3) found) _ _⟩
      exact absurd same (unmapped g j at_g)
    have yours {q : Nat} (same : pathTo 4 q = pathTo 4 page) :
      (m.lookup cr3 3 q).flags.user = true := by rwa [lookup_path same]
    refine ⟨owner', affects.mono fun _ _ _ changed => changed.1,
      affects.divided sound leveled private_root.root root' divided fun q changed => ?_, funext fun q => ?_, ?_⟩
    · obtain ⟨_, mapped⟩ := divided.mapped q (yours changed.2)
      refine .user ?_ (divided.vacant q (yours changed.2)) (divided.low q (yours changed.2)) ?_ fun k upper =>
        affects.raises.keeps_open leveled root' upper (mapped.way k upper)
      · rw [leaf, if_pos changed.2]
        exact user
      · rw [leaf, if_pos changed.2]
        exact present
    · by_cases fits : q < USER_PAGES
      · simp only [MemoryManager.memory, if_pos fits]
        by_cases here : q = page
        · subst here
          rw [leaf, if_pos rfl]
          exact Entry.image_resolved user cow (setPage_byte ..)
        · exact affects.image sound private_root.root
            (affects.spares.lookup cr3 q private_root.root fun changed =>
              here ((pathTo_user fits low).mp changed.2))
      · simp only [MemoryManager.memory, if_neg fits]
    · refine ⟨⟨m.byte (m.lookup cr3 3 page).frame,
        (m.lookup cr3 3 page).flags.writable || (m.lookup cr3 3 page).flags.cow⟩, ?_, ?_⟩
      · simp only [MemoryManager.memory, if_pos low, Entry.image, user, if_true]
      · simp [cow]

theorem Sound.writes (sound : Sound owner m) (root : owner cr3 = .table cr3 [])
    (reached : m.access userWrite cr3 page = some f) (low : page < USER_PAGES) (offset : Nat) (value : UInt8) :
    ∃ i, m.memory cr3 page = some i ∧ i.writable = true ∧
      (m.setByte f offset value).memory cr3 = (m.memory cr3).write page offset value i ∧
      ∀ r, owner r = .table r [] → r ≠ cr3 → (m.setByte f offset value).memory r = m.memory r := by
  obtain ⟨frame, right⟩ := access_leaf sound.1 root (by simp +contextual [userWrite]) reached
  simp only [userWrite, Bool.and_eq_true] at right
  obtain ⟨user, writable⟩ := right
  have table (r q : Nat) : (m.setByte f offset value).lookup r 3 q = m.lookup r 3 q := lookup_table rfl r 3 q
  have apart {e : Entry} (other : e.flags.user = true → e.frame ≠ f) :
    e.image (m.setByte f offset value) = e.image m :=
    Entry.image_same fun user => Function.update_of_ne (other user) ..
  have here : (m.lookup cr3 3 page).image m = some ⟨m.byte f, true⟩ := by
    simp [Entry.image, user, writable, frame]
  refine ⟨⟨m.byte f, true⟩, ?_, rfl, funext fun q => ?_, fun r root' other => funext fun q => ?_⟩
  · rw [MemoryManager.memory, if_pos low, here]
  · simp only [MemoryManager.memory, PrivateMemory.write, PrivateMemory.place, Function.update_apply, table]
    by_cases same : q = page
    · subst same
      rw [if_pos low, if_pos rfl]
      simp [Entry.image, user, writable, frame, MemoryManager.setByte, setPage_byte]
    · rw [if_neg same]
      by_cases fits : q < USER_PAGES
      · rw [if_pos fits, if_pos fits]
        refine apart fun user' shared => same ?_
        obtain ⟨t, _, label, at_leaf, leaf⟩ := lookup_user sound.1 root user
        obtain ⟨t', _, label', at_leaf', leaf'⟩ := lookup_user sound.1 root user'
        rw [leaf] at writable frame
        rw [leaf', ← frame] at shared
        obtain ⟨rfl, slots⟩ := sound.2 _ _ _ _ at_leaf at_leaf' writable shared
        rw [label', Owner.table.injEq] at label
        have path : pathTo 4 q = pathTo 4 page := by rw [pathTo_succ 3 q, pathTo_succ 3 page, label.2, slots]
        exact (pathTo_user fits low).mp path
      · rw [if_neg fits, if_neg fits]
  · simp only [MemoryManager.memory, table]
    split
    next =>
      refine apart fun user' => ?_
      rw [← frame]
      exact sound.apart root root' other user writable user'
    next => rfl

theorem Divided.of_table (divided : Divided m r) (same : m'.table = m.table)
    (kernel : m'.kernelCr3 = m.kernelCr3) : Divided m' r := by
  have view (r k q : Nat) := lookup_table same r k q
  constructor
  · intro q
    rw [view, view, kernel]
    exact divided.kernel q
  · intro q
    rw [view, view, kernel]
    exact divided.vacant q
  · intro q
    rw [view]
    exact divided.low q
  · intro q
    rw [view]
    exact fun user => ⟨(divided.mapped q user).1, (divided.mapped q user).2.of_table same⟩

end PickleOS.Memory
