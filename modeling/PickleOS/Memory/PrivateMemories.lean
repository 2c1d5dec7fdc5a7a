import PickleOS.Memory.Heaps
import PickleOS.Memory.Images
import PickleOS.Shared.Refinement

set_option autoImplicit false

/-!
# Runs of private memories

The memory operations refine private memories: a fork gives the child what the parent has, and from
then on nobody sees what the other writes.
-/

namespace PickleOS.Memory

open Shared.Machine

variable {owner owner' owner'' : Frame → Owner} {level level' level'' : Frame → Option Nat}
    {m m' m'' : MemoryManager}
  {f t r cr3 frame : Frame} {page q : Nat} {e : Entry} {flags : Flags}

theorem Entry.image_cowed (same : m'.byte e.frame = m.byte e.frame) : (cowed e).image m' = e.image m := by
  unfold cowed
  split
  next writable => simp [Entry.image, Flags.shared, writable, same]
  next => exact Entry.image_same fun _ => same

section Fork

variable {s : MemoryManager × List MemoryManager.Leaf} (visited : Visited m (m.leafSlots 3 256 cr3 0) s)
include visited

theorem Visited.raises (leveled : Leveled level m) (root' : level cr3 = some 0) : Raises level m level s.1 := by
  -- A fork visits tables at the end of the way to a page.
  have upper {f : Frame} {d : Nat} (i : Nat) (label : level f = some d) (lower : d < 3) :
    s.1.table f i = m.table f i := by
    rcases visited.entry f i with same | ⟨_, _, q, member⟩
    · exact same
    · have last := leveled.tableAt root' (Nat.le_refl 3) (mem_rootSlots.mp member).2.1
      rw [label] at last
      cases last
      omega
  have rest := visited.rest
  have old (f : Frame) : s.1.Fresh f ↔ m.Fresh f := by rw [rest]; exact Iff.rfl
  have frames : s.1.frameAllocator = m.frameAllocator := by rw [rest]
  refine ⟨⟨by rw [frames]; exact leveled.distinct,
    fun f fresh => leveled.fresh f ((old f).mp fresh), by rw [rest]; exact leveled.kernel,
    by rw [rest]; exact leveled.roots, fun f d i bound label lower => ?_⟩,
      .refl level, by rw [frames], by rw [frames],
    fun f d i label lower used => ⟨{}, rfl, ?_⟩, fun f _ => by rw [rest]⟩
  · rw [upper i label lower]
    exact leveled.entries f d i bound label lower
  · rw [upper i label lower, Flags.union_empty]

theorem Visited.lookup (owned : Owned owner m) (root : owner cr3 = .table cr3 []) :
    s.1.lookup cr3 3 q = m.lookup cr3 3 q ∨ s.1.lookup cr3 3 q = Memory.cowed (m.lookup cr3 3 q) := by
  have upper : s.1.tableAt cr3 3 q = m.tableAt cr3 3 q := by
    refine tableAt_same owned root (Nat.le_refl 3) fun k g lower way => ?_
    rw [visited.table_other owned root fun p own => ?_]
    have depths := congrArg List.length (way.path own).2
    simp only [pathTo_length] at depths
    omega
  simp only [MemoryManager.lookup, upper]
  cases found : m.tableAt cr3 3 q with
  | none => exact Or.inl rfl
  | some t => exact (visited.entry t (slot 3 q)).imp id (·.1)

theorem Visited.shares (shared : Sound owner s.1) (sound : Sound owner m) (leveled : Leveled level m)
    (private_root : Private owner m cr3)
    (root' : level cr3 = some 0) (divided : Divided m cr3) :
    (Affects owner level m owner level s.1 fun r _ => r = cr3) ∧ Divided s.1 cr3 ∧
      s.1.memory cr3 = m.memory cr3 := by
  have affects : Affects owner level m owner level s.1 fun r q =>
    r = cr3 ∧ (m.lookup cr3 3 q).flags.user = true :=
    ⟨shared, visited.spares sound.1 private_root.root, visited.raises leveled root'⟩
  have bytes : s.1.byte = m.byte := by rw [visited.rest]
  refine ⟨affects.mono fun _ _ _ changed => changed.1,
    affects.divided sound leveled private_root.root root' divided fun q changed => ?_,
    funext fun q => ?_⟩
  · obtain ⟨present, mapped⟩ := divided.mapped q changed.2
    have way (k : Nat) (upper : k < 3) := affects.raises.keeps_open leveled root' upper (mapped.way k upper)
    rcases visited.lookup sound.1 private_root.root with same | shared
    · exact .same same
    · refine .user ?_ (divided.vacant q changed.2) (divided.low q changed.2) ?_ way
      · rw [shared, cowed_user]
        exact changed.2
      · rw [shared]
        unfold Memory.cowed
        split
        · exact present
        · exact present
  · simp only [MemoryManager.memory]
    split
    next =>
      rcases visited.lookup sound.1 private_root.root with same | shared
      · rw [same]
        exact Entry.image_same fun _ => congrFun bytes _
      · rw [shared]
        exact Entry.image_cowed (congrFun bytes _)
    next => rfl

end Fork

/-- A new address space has no page of a user's. -/
structure Creates (owner : Frame → Owner) (level : Frame → Option Nat) (m : MemoryManager) (new : Frame)
    (owner' : Frame → Owner)
    (level' : Frame → Option Nat) (m' : MemoryManager) : Prop where
  affects : Affects owner level m owner' level' m' fun _ _ => False
  builds : Builds new owner m owner' m'
  root : Private owner' m' new
  top : level' new = some 0
  fresh : owner new = .free
  divided : Divided m' new
  blank : m'.memory new = fun _ => none

theorem Sound.creates {new : Frame} (sound : Sound owner m) (leveled : Leveled level m)
    (done : m.createUserMapper = some (new, m')) :
    ∃ owner' level', Creates owner level m new owner' level' m' := by
  obtain ⟨owner', builds, private_root, free, view⟩ := createUserMapper_builds sound.1 done
  obtain ⟨level', raises, root'⟩ := Raises.createUserMapper leveled done
  have plain (q : Nat) : (m'.lookup new 3 q).flags.user = false := by
    rw [view.lookup]
    exact builds.owned.kernel_plain
  refine ⟨owner', level', ⟨sound.builds builds, builds.spares_new sound.1 free, raises⟩, builds,
    private_root, root', free, ?_,
    funext fun q => ?_⟩
  · refine ⟨fun q _ => view.lookup, fun q user => ?_, fun q user => ?_, fun q user => ?_⟩
    all_goals
      rw [plain] at user
      cases user
  · simp [MemoryManager.memory, Entry.image, plain]

theorem replicateLeaf_raises (x : Mapper) (leveled : Leveled level m) (root' : level cr3 = some 0)
    (leaf : MemoryManager.Leaf) :
    ∃ level', Raises level m level' (MemoryManager.replicateLeaf x cr3 m leaf) ∧
      ((x.mapTo m cr3 leaf.1 leaf.2.frame { present := true, user := true }).1 = .ok () →
        ∀ k, k < 3 → Open (MemoryManager.replicateLeaf x cr3 m leaf) cr3 leaf.1 k) := by
  obtain ⟨level', deepens, mapped⟩ :=
    (x.mapTo_documented m cr3 leaf.1 leaf.2.frame { present := true, user := true }).deepens leveled root'
  have root := deepens.serves _ _ root'
  unfold MemoryManager.replicateLeaf
  split
  next ok =>
    rw [ok] at deepens mapped
    obtain ⟨leaf', way⟩ := mapped rfl rfl rfl
    obtain ⟨t, found, label, _⟩ := deepens.leveled.lookup_used root (Nat.le_refl 3)
      (by rw [leaf']; exact fun unused => by simpa using Entry.unused_flags unused)
    rw [followTable_eq found]
    have last : Raises level' _ level' _ := (Raises.refl deepens.leveled).setLeaf label (slot 3 leaf.1) leaf.2
    exact ⟨level', deepens.raises.setLeaf label _ _,
      fun _ k upper => last.keeps_open deepens.leveled root upper (way k upper)⟩
  next failed =>
    rw [failed] at deepens ⊢
    refine ⟨level', deepens.raises, fun ok => ?_⟩
    cases ok

theorem replicateLeaves_raises (x : Mapper) (leveled : Leveled level m) (root' : level cr3 = some 0)
    (leaves : List MemoryManager.Leaf) :
    ∃ level', Raises level m level' (leaves.foldl (MemoryManager.replicateLeaf x cr3) m) := by
  induction leaves generalizing level m with
  | nil => exact ⟨level, .refl leveled⟩
  | cons leaf rest ih =>
    obtain ⟨level₁, raises, _⟩ := replicateLeaf_raises x leveled root' leaf
    obtain ⟨level₂, raises'⟩ := ih raises.leveled (raises.serves _ _ root')
    exact ⟨level₂, raises.trans raises'⟩

/-- A leaf that a fork has recorded, at a page where the child shows nothing yet. -/
structure Awaits (m : MemoryManager) (child : Frame) (leaf : MemoryManager.Leaf) : Prop where
  present : leaf.2.flags.present = true
  low : leaf.1 < USER_PAGES
  vacant : m.kernelPage leaf.1 = false
  unseen : m.memory child leaf.1 = none

/-- The leaves so far are in the child's memory, and nothing else has come to it. -/
structure Copies (m : MemoryManager) (child : Frame) (part : List MemoryManager.Leaf)
    (m' : MemoryManager) : Prop where
  divided : Divided m' child
  copied : ∀ leaf ∈ part, m'.memory child leaf.1 = leaf.2.image m
  others : ∀ q, (∀ leaf ∈ part, leaf.1 ≠ q) → m'.memory child q = m.memory child q

theorem Replicating.copies (x : Mapper) {child : Frame} {leaves part : List MemoryManager.Leaf}
    (replicating : Replicating child leaves owner m) (leveled : Leveled level m)
    (root' : level child = some 0) (divided : Divided m child)
    (members : part ⊆ leaves) (distinct : part.Pairwise fun a b => pathTo 4 a.1 ≠ pathTo 4 b.1)
    (awaits : ∀ leaf ∈ part, Awaits m child leaf) :
    ∃ owner' level', (Affects owner level m owner' level'
      (part.foldl (MemoryManager.replicateLeaf x child) m) fun r _ => r = child) ∧
      Private owner' (part.foldl (MemoryManager.replicateLeaf x child) m) child ∧
      ((part.foldl (MemoryManager.replicateLeaf x child) m).OutOfFrames ∨
        Copies m child part (part.foldl (MemoryManager.replicateLeaf x child) m)) := by
  induction part generalizing owner level m with
  | nil => exact ⟨owner, level, ⟨replicating.sound, .refl owner m _, .refl leveled⟩, replicating.child,
      Or.inr ⟨divided, fun _ member => absurd member List.not_mem_nil, fun _ _ => rfl⟩⟩
  | cons first rest ih =>
    obtain ⟨apart, distinct⟩ := List.pairwise_cons.mp distinct
    have here := awaits first List.mem_cons_self
    have member := members List.mem_cons_self
    have shareable := replicating.leaves first member
    have unused := (divided.unused_iff here.low).mpr (by simp [here.vacant, here.unseen])
    obtain ⟨owner₁, replicating₁, spares, done⟩ := replicating.replicateLeaf x member
    obtain ⟨level₁, raises, way⟩ := replicateLeaf_raises x leveled root' first
    have affects : Affects owner level m owner₁ level₁ (MemoryManager.replicateLeaf x child m first) fun r q =>
        r = child ∧ pathTo 4 q = pathTo 4 first.1 := ⟨replicating₁.sound, spares, raises⟩
    have placed : (MemoryManager.replicateLeaf x child m first).OutOfFrames ∨
        Divided (MemoryManager.replicateLeaf x child m first) child ∧
        (MemoryManager.replicateLeaf x child m first).memory child =
          (m.memory child).place first.1 ⟨m.byte first.2.frame,
          first.2.flags.writable || first.2.flags.cow⟩ := by
      rcases done unused with exhausted | leaf
      · exact Or.inl exhausted
      rcases replicating.sound.1.mapTo_vacant x first.1 first.2.frame { present := true, user := true }
        replicating.child shareable.slots rfl
        unused with ok | exhausted
      · have bytes := raises.bytes first.2.frame
          (replicating.sound.old (by rw [shareable.data.1]; exact Owner.noConfusion))
        have place := Affects.place replicating.sound leveled replicating.child root' divided affects
          here.vacant here.low ⟨leaf, way ok⟩
          here.present shareable.user
        rw [bytes] at place
        exact Or.inr place
      · refine Or.inl ?_
        unfold MemoryManager.replicateLeaf
        rcases mapped : x.mapTo m child first.1 first.2.frame { present := true, user := true } with ⟨_ | _, m₁⟩
        all_goals rw [mapped] at exhausted
        · exact exhausted
        · exact exhausted
    rw [List.foldl_cons]
    rcases placed with exhausted | ⟨divided₁, memory₁⟩
    · obtain ⟨owner', replicating', spares', _⟩ :=
        replicating₁.foldl x (fun _ later => members (List.mem_cons_of_mem _ later)) distinct
      obtain ⟨level', raises'⟩ := replicateLeaves_raises x raises.leveled (raises.serves _ _ root') rest
      refine ⟨owner', level', ?_, replicating'.child, Or.inl (spares'.outOfFrames exhausted)⟩
      exact ⟨replicating'.sound, (spares.trans spares').mono fun _ _ _ changed => changed.elim (·.1)
        (·.1), raises.trans raises'⟩
    · have memory_other {q : Nat} (other : q ≠ first.1) :
        (MemoryManager.replicateLeaf x child m first).memory child q = m.memory child q := by
        rw [memory₁, PrivateMemory.place, Function.update_of_ne other]
      have later (leaf : MemoryManager.Leaf) (member : leaf ∈ rest) : leaf.1 ≠ first.1 := fun same =>
        apart leaf member (by rw [same])
      obtain ⟨owner', level', affects', private', copied⟩ :=
        ih replicating₁ raises.leveled (raises.serves _ _ root') divided₁
        (fun _ member => members (List.mem_cons_of_mem _ member)) distinct fun leaf member => by
          obtain ⟨present, low, vacant, unseen⟩ := awaits leaf (List.mem_cons_of_mem _ member)
          refine ⟨present, low, ?_, ?_⟩
          · rwa [affects.kernelPage replicating.sound]
          · rwa [memory_other (later leaf member)]
      refine ⟨owner', level', (affects.trans affects').mono fun _ _ _ changed => changed.elim (·.1) id,
        private', copied.imp id fun copies => ?_⟩
      refine ⟨copies.divided, fun leaf member => ?_, fun q none => ?_⟩
      · rcases List.mem_cons.mp member with rfl | member
        · rw [copies.others _ later, memory₁, PrivateMemory.place, Function.update_self]
          simp [Entry.image, shareable.user]
        · rw [copies.copied leaf member]
          have data := (replicating.leaves leaf (members (List.mem_cons_of_mem _ member))).data.1
          exact Entry.image_same fun _ => raises.bytes _
            (replicating.sound.old (by rw [data]; exact Owner.noConfusion))
      · rw [copies.others q fun leaf member => none leaf (List.mem_cons_of_mem _ member)]
        exact memory_other (none first List.mem_cons_self).symm

theorem Affects.store (owner : Frame → Owner) (sound : Sound owner m) (leveled : Leveled level m)
    (private_root : Private owner m r)
    (root' : level r = some 0) : Affects owner level m owner level (m.storeUserMapper r) fun _ _ => False :=
  ⟨sound.store private_root, Spares.store owner m r, (Raises.refl leveled).store root'⟩

theorem memory_table (tables : m'.table = m.table) (bytes : m'.byte = m.byte) (r : Frame) :
    m'.memory r = m.memory r := by
  funext q
  simp only [MemoryManager.memory, lookup_table tables, Entry.image, bytes]

theorem memory_storeUserMapper (m : MemoryManager) (new r : Frame) :
    (m.storeUserMapper new).memory r = m.memory r :=
  memory_table rfl rfl r

structure Forks (owner : Frame → Owner) (level : Frame → Option Nat) (m : MemoryManager) (parent child : Frame)
    (owner' : Frame → Owner) (level' : Frame → Option Nat) (m' : MemoryManager) : Prop where
  affects : Affects owner level m owner' level' m' fun r _ => r = parent
  fresh : owner child = .free
  divided : Divided m' parent
  kept : m'.memory parent = m.memory parent
  copied : m'.OutOfFrames ∨ Divided m' child ∧ m'.memory child = m.memory parent

theorem Sound.forks (x : Mapper) {child : Frame} (sound : Sound owner m) (leveled : Leveled level m)
    (private_root : Private owner m cr3)
    (root' : level cr3 = some 0) (divided : Divided m cr3)
    (done : m.cowForkAddressSpace x cr3 = some (child, m')) :
    ∃ owner' level', Forks owner level m cr3 child owner' level' m' := by
  have sharing := sound.share private_root.root
  have visited := forLeaves_visited sound.1 private_root.root
  unfold MemoryManager.cowForkAddressSpace at done
  rcases forked : MemoryManager.forLeaves Prod.fst MemoryManager.shareLeaf 3 256 cr3 0 (m, []) with ⟨m₁, leaves⟩
  rw [forked] at sharing visited
  simp only [forked, Option.map_eq_some_iff, Prod.mk.injEq] at done
  obtain ⟨⟨new, m₂⟩, created, rfl, rfl⟩ := done
  obtain ⟨shared, divided₁, memory₁⟩ := visited.shares sharing.sound sound leveled private_root root' divided
  obtain ⟨owner₂, level₂, creates⟩ := sharing.sound.creates shared.raises.leveled created
  have begun : Replicating new leaves owner₂ m₂ :=
    ⟨creates.affects.sound, creates.root, fun leaf member => (sharing.leaves leaf member).builds
      sharing.sound.1 creates.builds⟩
  have distinct : leaves.Pairwise fun a b => pathTo 4 a.1 ≠ pathTo 4 b.1 := by
    refine visited.leaves_sorted.imp_of_mem fun {a b} first second less same => ?_
    have low := ((visited.mem_leaves a).mp first).1
    have low' := ((visited.mem_leaves b).mp second).1
    rw [pathTo_eq] at same
    simp only [Nat.reducePow] at low low' same
    omega
  have awaits (leaf : MemoryManager.Leaf) (member : leaf ∈ leaves) : Awaits m₂ new leaf := by
    obtain ⟨low, user, same⟩ := (visited.mem_leaves leaf).mp member
    refine ⟨?_, low, ?_, by rw [creates.blank]⟩
    · rw [same]
      have present := (divided.mapped leaf.1 user).1
      unfold cowed
      split
      · exact present
      · exact present
    · rw [creates.affects.kernelPage sharing.sound, shared.kernelPage sound]
      simpa [MemoryManager.kernelPage] using divided.vacant leaf.1 user
  obtain ⟨owner', level', copying, private', copied⟩ :=
    begun.copies x creates.affects.raises.leveled creates.top creates.divided
    (List.Subset.refl leaves) distinct awaits
  have stored := Affects.store owner' copying.sound copying.raises.leveled private'
    (copying.raises.serves _ _ creates.top)
  have rest := (creates.affects.trans copying).trans stored
  have apart : cr3 ≠ new := by
    rintro rfl
    have root := private_root.root
    rw [creates.fresh] at root
    cases root
  have untouched (q : Nat) : ¬((False ∨ cr3 = new) ∨ False) := by simp [apart]
  refine ⟨owner', level', (shared.trans rest).mono fun r q own changed => ?_, creates.fresh, ?_, ?_, ?_⟩
  · rcases changed with parent | (never | child) | never
    · exact parent
    · exact never.elim
    · rw [child, creates.fresh] at own
      cases own
    · exact never.elim
  · exact rest.divided sharing.sound shared.raises.leveled private_root.root
      (shared.raises.serves _ _ root') divided₁ fun q changed =>
      absurd changed (untouched q)
  · rw [rest.memory_same sharing.sound private_root.root fun q =>
      rest.spares.lookup cr3 q private_root.root (untouched q), memory₁]
  · refine copied.imp id fun copies => ⟨copies.divided.of_table rfl rfl, ?_⟩
    rw [memory_storeUserMapper]
    funext q
    by_cases page : q < USER_PAGES ∧ (m.lookup cr3 3 q).flags.user = true
    · have member : (q, cowed (m.lookup cr3 3 q)) ∈ leaves := (visited.mem_leaves _).mpr ⟨page.1, page.2, rfl⟩
      rw [copies.copied _ member]
      simp only [MemoryManager.memory, if_pos page.1]
      have data := sound.leaf_data private_root.root page.2
      have old := sound.old (by rw [data]; exact Owner.noConfusion)
      exact Entry.image_cowed ((shared.raises.trans creates.affects.raises).bytes _ old)
    · rw [copies.others q, creates.blank]
      · simp only [MemoryManager.memory, Entry.image]
        rw [not_and, Bool.not_eq_true] at page
        split
        next low => rw [page low]; rfl
        next => rfl
      · rintro leaf member rfl
        obtain ⟨low, user, _⟩ := (visited.mem_leaves leaf).mp member
        exact page ⟨low, user⟩

section Spaces

variable (x : Mapper)

theorem mapUserRegion_spaces (writable : Bool) (page count : Nat) (m : MemoryManager) :
    (m.mapUserRegion x cr3 writable page count).2.userPageTables = m.userPageTables := by
  induction count generalizing page m with
  | zero => rfl
  | succ count ih =>
    unfold MemoryManager.mapUserRegion
    split
    next taken => exact (Grows.allocateFrame taken).spaces
    next f m₁ taken =>
      have maps := Grows.mapTo x (m₁.zeroPage f) cr3 page f
        { present := true, user := true, writable := writable }
      split
      next failed =>
        rw [failed] at maps
        exact maps.spaces.trans (Grows.allocateFrame taken).spaces
      next mapped =>
        rw [mapped] at maps
        exact (ih (page + 1) _).trans (maps.spaces.trans (Grows.allocateFrame taken).spaces)

theorem unmapPages_spaces (page count : Nat) (m : MemoryManager) :
    (m.unmapPages x cr3 page count).2.userPageTables = m.userPageTables := by
  induction count generalizing page m with
  | zero => rfl
  | succ count ih =>
    have unmaps := x.unmap_documented m cr3 page
    unfold MemoryManager.unmapPages
    split
    next failed =>
      rw [failed] at unmaps
      cases unmaps
      rfl
    next unmapped =>
      rw [unmapped] at unmaps
      cases unmaps
      exact ih (page + 1) _

theorem sysMunmap_spaces (addr len : Nat) (m : MemoryManager) :
    (m.sysMunmap x cr3 addr len).2.userPageTables = m.userPageTables := by
  unfold MemoryManager.sysMunmap
  dsimp only
  split
  · rfl
  · split
    · rfl
    · split
      · exact unmapPages_spaces x _ _ m
      · rfl

end Spaces

theorem resolveCow_spaces (done : m.resolveCow cr3 page = some m') : m'.userPageTables = m.userPageTables := by
  simp only [MemoryManager.resolveCow, Option.bind_eq_some_iff] at done
  obtain ⟨t, _, done⟩ := done
  split at done
  next => cases done
  next =>
    obtain ⟨⟨new, m₁⟩, fresh, rfl⟩ := Option.map_eq_some_iff.mp done
    exact (Grows.expectFrame fresh).spaces

/-- What holds between two steps of programs with memories of their own. -/
def Separate (kernel : Nat → Bool) (m : MemoryManager) : Prop :=
  ∃ owner level, Sound owner m ∧ Leveled level m ∧ m.kernelPage = kernel ∧ ∀ r, r ∈ m.userPageTables →
    Divided m r

section Step

variable {kernel : Nat → Bool} (sound : Sound owner m) (leveled : Leveled level m)
    (kernels : m.kernelPage = kernel)
  (divided : ∀ r, r ∈ m.userPageTables → Divided m r)
include sound leveled kernels divided

omit kernels in
theorem Affects.keeps {changes : Frame → Nat → Prop}
    (affects : Affects owner level m owner' level' m' changes) (member : r ∈ m.userPageTables)
    (apart : ∀ q, ¬changes r q) : Divided m' r ∧ m'.memory r = m.memory r := by
  have root := (sound.1.roots r member).root
  exact ⟨affects.divided sound leveled root (leveled.roots r member) (divided r member) fun q changed =>
    absurd changed (apart q),
    affects.memory_same sound root fun q => affects.spares.lookup r q root (apart q)⟩

theorem Affects.others {p : PrivateMemory} (affects : Affects owner level m owner' level' m' fun r _ => r = cr3)
    (spaces : m'.userPageTables = m.userPageTables) (member : cr3 ∈ m.userPageTables)
    (divided' : Divided m' cr3) (memory : m'.memory cr3 = p) :
    Separate kernel m' ∧ m'.memories = Function.update m.memories cr3 (some p) := by
  refine ⟨⟨owner', level', affects.sound, affects.raises.leveled,
    (affects.kernelPage sound).trans kernels, fun r space => ?_⟩,
    funext fun r => ?_⟩
  · rw [spaces] at space
    by_cases own : r = cr3
    · rwa [own]
    · exact (affects.keeps sound leveled divided space fun _ => own).1
  · rw [Function.update_apply]
    simp only [MemoryManager.memories, spaces]
    by_cases own : r = cr3
    · rw [if_pos own, own, if_pos member, memory]
    · rw [if_neg own]
      split
      next space => rw [(affects.keeps sound leveled divided space fun _ => own).2]
      next => rfl

omit leveled divided in
theorem Affects.joins {changes : Frame → Nat → Prop} {p : PrivateMemory}
    {new : Frame} (affects : Affects owner level m owner' level' m' changes)
    (spaces : m'.userPageTables = m.userPageTables ++ [new]) (fresh : owner new = .free)
    (divided' : Divided m' new) (memory : m'.memory new = p)
    (kept : ∀ r, r ∈ m.userPageTables → Divided m' r ∧ m'.memory r = m.memory r) :
    Separate kernel m' ∧ m'.memories = Function.update m.memories new (some p) ∧ m.memories new = none := by
  have unused : new ∉ m.userPageTables := fun member => by
    have taken := (sound.1.roots new member).root
    rw [fresh] at taken
    cases taken
  have either (r : Frame) : r ∈ m'.userPageTables ↔ r ∈ m.userPageTables ∨ r = new := by rw [spaces]; simp
  refine ⟨⟨owner', level', affects.sound, affects.raises.leveled,
    (affects.kernelPage sound).trans kernels, fun r space => ?_⟩,
    funext fun r => ?_, if_neg unused⟩
  · rcases (either r).mp space with old | rfl
    · exact (kept r old).1
    · exact divided'
  · rw [Function.update_apply]
    simp only [MemoryManager.memories, either]
    by_cases own : r = new
    · rw [if_pos own, if_pos (Or.inr own), own, memory]
    · rw [if_neg own]
      by_cases space : r ∈ m.userPageTables
      · rw [if_pos (Or.inl space), if_pos space, (kept r space).2]
      · rw [if_neg (by simp [space, own]), if_neg space]

end Step

theorem step_behaves (x : Mapper) {kernel : Nat → Bool} {a : Action} (separate : Separate kernel m)
    (fine : UserPages m a)
    (taken : step x m a = some m') (frames : ¬m'.OutOfFrames) : Separate kernel m' ∧
      Behaves kernel m.memories a m'.memories := by
  obtain ⟨owner, level, sound, leveled, rfl, divided⟩ := separate
  obtain ⟨slots, low⟩ := fine
  have owns {r : Frame} (member : r ∈ m.userPageTables) : m.memories r = some (m.memory r) := if_pos member
  cases a with
  | load pages =>
    simp only [step, Option.map_eq_some_iff] at taken
    obtain ⟨⟨new, m₁⟩, created, rfl⟩ := taken
    obtain ⟨owner₁, level₁, creates⟩ := sound.creates leveled created
    obtain ⟨owner₂, level₂, loads⟩ :=
      creates.affects.sound.loads x creates.affects.raises.leveled creates.root creates.top creates.divided
      (fun p member => (creates.affects.spares.slots sound.1 _).mpr (slots p member)) low
    rw [creates.affects.kernelPage sound, creates.blank] at loads
    have grows := (createUserMapper_fresh created).1
    have grown := Grows.loadPages x new pages m₁
    have affects : Affects owner level m owner₂ level₂ (m₁.loadPages x new pages).2 fun _ _ => False :=
      (creates.affects.trans loads.affects).mono fun r _ own changed => by
        rcases changed with never | rfl
        · exact never
        · rw [creates.fresh] at own
          cases own
    rcases loaded : m₁.loadPages x new pages with ⟨_ | _, m₂⟩
    all_goals
      rw [loaded] at loads grown affects
      simp only [loaded] at frames ⊢
    · have spaces : m₂.userPageTables = m.userPageTables := grown.spaces.trans grows.spaces
      have same : m₂.memories = m.memories := funext fun r => by
        simp only [MemoryManager.memories, spaces]
        split
        next space => rw [(affects.keeps sound leveled divided space fun _ => id).2]
        next => rfl
      refine ⟨⟨owner₂, level₂, affects.sound, affects.raises.leveled, affects.kernelPage sound,
        fun r space => ?_⟩, ?_⟩
      · exact (affects.keeps sound leveled divided (spaces ▸ space) fun _ => id).1
      · rw [same]
        exact .refused ((loads.failed rfl).resolve_left frames)
    · obtain ⟨divided₂, fits⟩ := loads.ok rfl
      have stored := affects.trans (Affects.store
        owner₂ loads.affects.sound loads.affects.raises.leveled loads.root
        (loads.affects.raises.serves _ _ creates.top))
      have spaces : (m₂.storeUserMapper new).userPageTables = m.userPageTables ++ [new] := by
        rw [MemoryManager.storeUserMapper, grown.spaces, grows.spaces]
      obtain ⟨after, view, unused⟩ := stored.joins sound rfl spaces creates.fresh (divided₂.of_table rfl rfl)
        (memory_storeUserMapper m₂ new new) fun r space =>
          stored.keeps sound leveled divided space fun _ => by simp
      rw [view]
      exact ⟨after, .loaded new fits unused⟩
  | fork parent =>
    simp only [step] at taken
    split at taken
    next member =>
      obtain ⟨⟨child, m₁⟩, forked, rfl⟩ := Option.map_eq_some_iff.mp taken
      obtain ⟨owner', level', forks⟩ :=
        sound.forks x leveled (sound.1.roots parent member) (leveled.roots parent member)
          (divided parent member) forked
      obtain ⟨divided', memory'⟩ := forks.copied.resolve_left frames
      obtain ⟨after, view, unused⟩ :=
        forks.affects.joins sound rfl (cowFork_registers forked).spaces forks.fresh divided' memory'
        fun r space => by
          by_cases own : r = parent
          · rw [own]
            exact ⟨forks.divided, forks.kept⟩
          · exact forks.affects.keeps sound leveled divided space fun _ => own
      rw [view]
      exact ⟨after, .forked child (owns member) unused⟩
    next => cases taken
  | fault cr3 page =>
    simp only [step] at taken
    split at taken
    next member =>
      obtain ⟨owner', affects, divided', same, i, mapped, writable⟩ :=
        sound.resolves leveled (sound.1.roots cr3 member) (leveled.roots cr3 member) (divided cr3 member)
          taken low
      obtain ⟨after, view⟩ :=
        affects.others sound leveled rfl divided (resolveCow_spaces taken) member divided' same
      rw [view, Function.update_eq_self_iff.mpr (owns member).symm]
      exact ⟨after, .faulted (owns member) mapped writable⟩
    next => cases taken
  | mmap cr3 page count writable =>
    simp only [step] at taken
    split at taken
    next member =>
      cases taken
      obtain ⟨owner', level', affects, done⟩ :=
        sound.maps_region x writable leveled (sound.1.roots cr3 member) (leveled.roots cr3 member)
          (divided cr3 member) slots low
      obtain ⟨divided', memory'⟩ := done.resolve_left frames
      obtain ⟨after, view⟩ :=
        affects.others sound leveled rfl divided (mapUserRegion_spaces x writable page count m)
          member divided' memory'
      rw [view]
      exact ⟨after, .mapped (owns member)⟩
    next => cases taken
  | munmap cr3 addr len =>
    simp only [step] at taken
    split at taken
    next member =>
      cases taken
      obtain ⟨affects, divided', memory'⟩ :=
        sound.munmaps x addr len leveled (sound.1.roots cr3 member) (leveled.roots cr3 member)
          (divided cr3 member)
      obtain ⟨after, view⟩ := affects.others sound leveled rfl divided (sysMunmap_spaces x addr len m)
        member divided' memory'
      rw [view]
      exact ⟨after, .unmapped (owns member)⟩
    next => cases taken
  | write cr3 page offset value =>
    simp only [step] at taken
    split at taken
    next member =>
      obtain ⟨f, reached, rfl⟩ := Option.map_eq_some_iff.mp taken
      have root := (sound.1.roots cr3 member).root
      obtain ⟨i, mapped, writable, memory', others⟩ := sound.writes root reached low offset value
      have view : (m.setByte f offset value).memories = Function.update m.memories cr3
        (some ((m.memory cr3).write page offset value i)) := by
        funext r
        rw [Function.update_apply]
        by_cases own : r = cr3
        · rw [if_pos own, own, ← memory']
          exact if_pos member
        · rw [if_neg own]
          have spaces : (m.setByte f offset value).userPageTables = m.userPageTables := rfl
          simp only [MemoryManager.memories, spaces]
          split
          next space => rw [others r (sound.1.roots r space).root own]
          next => rfl
      rw [view]
      refine ⟨⟨owner, level, sound.setPage _, leveled.setPage _ _, ?_,
        fun r space => (divided r space).of_table rfl rfl⟩,
        .wrote (owns member) mapped writable⟩
      funext q
      simp only [MemoryManager.kernelPage]
      have tables : (m.setByte f offset value).table = m.table := rfl
      rw [lookup_table tables]
      rfl
    next => cases taken

/-- Users' pages are their own, and the kernel does not run out of frames. -/
def Roomy (x : Mapper) (m : MemoryManager) (a : Action) : Prop :=
  UserPages m a ∧
    match step x m a with
    | some m' => ¬m'.OutOfFrames
    | none => True

instance (m : MemoryManager) : Decidable m.OutOfFrames := by
  unfold MemoryManager.OutOfFrames
  infer_instance

instance (x : Mapper) (m : MemoryManager) (a : Action) : Decidable (Roomy x m a) := by
  unfold Roomy
  cases step x m a <;> infer_instance

theorem Booted.separate {boot : Frame → Owner} (booted : Booted boot m) : Separate m.kernelPage m := by
  obtain ⟨level, leveled⟩ := booted.leveled
  refine ⟨boot, level, booted.sound, leveled, rfl, fun r member => ?_⟩
  rw [booted.spaces] at member
  cases member

theorem Divided.reads (sound : Sound owner m) (root : owner r = .table r []) (divided : Divided m r)
    (low : q < USER_PAGES) :
    (m.access userRead r q).map m.byte = (m.memory r q).map Image.contents := by
  rw [MemoryManager.memory, if_pos low]
  cases user : (m.lookup r 3 q).flags.user with
  | true =>
    obtain ⟨present, mapped⟩ := divided.mapped q user
    rw [mapped.reads present user]
    simp [Entry.image, user]
  | false =>
    have missed : m.access userRead r q = none := by
      rw [Option.eq_none_iff_forall_not_mem]
      intro f reached
      have right := (access_leaf sound.1 root (by simp [userRead]) reached).2
      rw [userRead, user] at right
      cases right
    simp [missed, Entry.image, user]

theorem Separate.run (x : Mapper) {kernel : Nat → Bool} {actions : List Action} (separate : Separate kernel m)
    (done : replay (step x) (Roomy x) m actions = some m') :
    Separate kernel m' ∧ Follows (Behaves kernel) m.memories actions m'.memories := by
  refine follows_of_replay MemoryManager.memories (Separate kernel) (fun m a m' separate fine taken => ?_)
    separate done
  obtain ⟨users, frames⟩ := fine
  rw [taken] at frames
  exact step_behaves x separate users taken frames

theorem memories_private (x : Mapper) {boot : Frame → Owner} {start : MemoryManager}
    (booted : Booted boot start) {actions : List Action}
    (done : replay (step x) (Roomy x) start actions = some m) :
    Follows (Behaves start.kernelPage) (fun _ => none) actions m.memories ∧
      ∀ r, r ∈ m.userPageTables → ∀ q, q < USER_PAGES →
        (m.access userRead r q).map m.byte = (m.memory r q).map Image.contents := by
  obtain ⟨⟨owner, level, sound, leveled, _, divided⟩, follows⟩ := booted.separate.run x done
  have nobody : start.memories = fun _ => none := funext fun r =>
    if_neg (by rw [booted.spaces]; exact List.not_mem_nil)
  rw [nobody] at follows
  exact ⟨follows, fun r member q low => (divided r member).reads sound (sound.1.roots r member).root low⟩

/-- The action may change what a program sees. A fork changes nothing for the parent. -/
def Action.Alters (r : Frame) : Action → Prop
  | .mmap r' .. | .munmap r' .. | .write r' .. => r' = r
  | .load _ | .fork _ | .fault .. => False

theorem Behaves.other {kernel : Nat → Bool} {s s' : Memories} {a : Action}
    {p : PrivateMemory} (behaves : Behaves kernel s a s')
    (apart : ¬a.Alters r) (owns : s r = some p) : s' r = some p := by
  have new {child : Frame} {p' : PrivateMemory} (unused : s child = none) :
    Function.update s child (some p') r = some p := by
    have other : r ≠ child := by
      rintro rfl
      rw [unused] at owns
      cases owns
    rw [Function.update_of_ne other, owns]
  have elsewhere {r' : Frame} {p' : PrivateMemory} (other : r' ≠ r) :
    Function.update s r' (some p') r = some p := by
    rw [Function.update_of_ne (Ne.symm other), owns]
  cases behaves with
  | refused => exact owns
  | loaded _ _ unused => exact new unused
  | forked _ _ unused => exact new unused
  | faulted => exact owns
  | mapped => exact elsewhere apart
  | unmapped => exact elsewhere apart
  | wrote => exact elsewhere apart

theorem Behaves.stays {kernel : Nat → Bool} {s s' : Memories}
    {a : Action} (behaves : Behaves kernel s a s') (there : (s r).isSome = true) :
    (s' r).isSome = true := by
  have set (r' : Frame) (p : PrivateMemory) : (Function.update s r' (some p) r).isSome = true := by
    rw [Function.update_apply]
    split
    · rfl
    · exact there
  cases behaves with
  | refused => exact there
  | loaded => exact set ..
  | forked => exact set ..
  | faulted => exact there
  | mapped => exact set ..
  | unmapped => exact set ..
  | wrote => exact set ..

def MemoryManager.reads (m : MemoryManager) (r : Frame) (q : Nat) : Option (Nat → UInt8) :=
  (m.access userRead r q).map m.byte

theorem Separate.reads {kernel : Nat → Bool} {p : PrivateMemory} (separate : Separate kernel m)
    (owns : m.memories r = some p) (low : q < USER_PAGES) :
    m.reads r q = (p q).map Image.contents := by
  obtain ⟨owner, level, sound, _, _, divided⟩ := separate
  simp only [MemoryManager.memories, Option.ite_none_right_eq_some, Option.some.injEq] at owns
  obtain ⟨member, rfl⟩ := owns
  exact (divided r member).reads sound (sound.1.roots r member).root low

theorem fork_takes_snapshot (x : Mapper) {boot : Frame → Owner} {start : MemoryManager}
    (booted : Booted boot start) {before later : List Action}
    {parent : Frame} (done : replay (step x) (Roomy x) start before = some m)
    (forked : replay (step x) (Roomy x) m (.fork parent :: later) = some m') :
    ∃ child, child ∉ m.userPageTables ∧ child ∈ m'.userPageTables ∧
      ∀ r, r = child ∨ r = parent → (∀ a ∈ later, ¬a.Alters r) → ∀ q, q < USER_PAGES →
        m'.reads r q = m.reads parent q := by
  obtain ⟨separate, _⟩ := booted.separate.run x done
  obtain ⟨separate', run⟩ := separate.run x forked
  generalize seen : m'.memories = last at run
  cases run with
  | cons first after =>
    cases first with
    | @forked _ p child owns unused =>
      have apart : parent ≠ child := by
        rintro rfl
        rw [unused] at owns
        cases owns
      have stays {r : Frame} (quiet : ∀ a ∈ later, ¬a.Alters r)
        (has : Function.update m.memories child (some p) r = some p) :
          m'.memories r = some p := by
        rw [seen]
        exact after.keeps (motive := fun s => s r = some p)
          (fun _ a _ member behaves has => behaves.other (quiet a member) has) has
      refine ⟨child, fun member => ?_, ?_, fun r family quiet q low => ?_⟩
      · simp [MemoryManager.memories, member] at unused
      · have there : (m'.memories child).isSome = true := by
          rw [seen]
          refine after.keeps (motive := fun s => (s child).isSome = true)
            (fun _ _ _ _ behaves there => behaves.stays there) ?_
          simp
        simp only [MemoryManager.memories, Option.isSome_ite] at there
        exact there
      · have has : Function.update m.memories child (some p) r = some p := by
          rcases family with rfl | rfl
          · exact Function.update_self ..
          · rw [Function.update_of_ne apart, owns]
        rw [separate'.reads (stays quiet has) low, separate.reads owns low]

section Witness

def onePageLoad : Action := .load [⟨1024, true, false, fun _ => 1⟩]

theorem onePageLoad_forked : ∃ m m', replay (step .offsetPageTable) (Roomy .offsetPageTable) bare
    [onePageLoad] = some m ∧
    m.userPageTables = [256] ∧ replay (step .offsetPageTable) (Roomy .offsetPageTable) m
      [.fork 256] = some m' := by
  have ran : (replay (step .offsetPageTable) (Roomy .offsetPageTable) bare [onePageLoad]).map (fun m =>
      (m.userPageTables, m.frameAllocator.next, m.frameAllocator.usableFrames.length, m.table m.kernelCr3 0)) =
      some ([256], 5, 256, .unused) := by decide +kernel
  obtain ⟨m, ran, view⟩ := Option.map_eq_some_iff.mp ran
  simp only [Prod.mk.injEq] at view
  obtain ⟨spaces, next, frames, kernel⟩ := view
  obtain ⟨separate, follows⟩ := bare_booted.separate.run .offsetPageTable ran
  have member : 256 ∈ m.userPageTables := by simp [spaces]
  have one : ∀ q, (m.memory 256 q).isSome = true → q = 1024 := by
    have nobody : bare.memories = fun _ => none := rfl
    rw [nobody] at follows
    generalize seen : m.memories = last at follows
    have owns : last 256 = some (m.memory 256) := by
      rw [← seen]
      exact if_pos member
    intro q mapped
    cases follows with
    | cons first after =>
      cases after
      cases first with
      | refused => cases owns
      | loaded new fits =>
        rw [Function.update_apply] at owns
        split at owns
        next =>
          simp only [PrivateMemory.load] at fits
          split at fits
          next => cases fits
          next =>
            rw [← Option.some.inj owns, ← Option.some.inj fits, PrivateMemory.place,
              Function.update_apply] at mapped
            by_contra other
            rw [if_neg other] at mapped
            cases mapped
        next => cases owns
  obtain ⟨owner, level, sound, _, _, divided⟩ := separate
  have root := (sound.1.roots 256 member).root
  have covers : ∀ q, q < 256 * 512 ^ 3 → (m.lookup 256 3 q).flags.user = true → q ∈ [1024] :=
    fun q low user => by
    have small : q % 512 ^ 4 = q := Nat.mod_eq_of_lt (by simp only [Nat.reducePow] at low ⊢; omega)
    exact List.mem_singleton.mpr (one q (((divided 256 member).memory_isSome small).mpr user))
  obtain ⟨child, m', forked, takes⟩ := Takes.cowFork .offsetPageTable sound root kernel (by omega) [1024] covers
  have taken : step .offsetPageTable m (.fork 256) = some m' := by simp [step, member, forked]
  have enough : ¬m'.OutOfFrames := by
    have more := takes.1
    simp only [List.length_singleton] at more
    simp only [MemoryManager.OutOfFrames, takes.2, frames]
    omega
  have fine : Roomy .offsetPageTable m (.fork 256) := by
    unfold Roomy
    rw [taken]
    exact ⟨⟨trivial, trivial⟩, enough⟩
  exact ⟨m, m', ran, spaces, by simp only [replay, fine, taken, if_true, Option.bind_some]⟩

theorem memories_private_forked : ∃ m m' : MemoryManager, m.userPageTables = [256] ∧
    step .offsetPageTable m (.fork 256) = some m' ∧
    Follows (Behaves bare.kernelPage) (fun _ => none) [onePageLoad, .fork 256] m'.memories := by
  obtain ⟨m, m', ran, spaces, forked⟩ := onePageLoad_forked
  have both : replay (step .offsetPageTable) (Roomy .offsetPageTable) bare [onePageLoad, .fork 256] = some m' :=
    (replay_append ran [.fork 256]).trans forked
  have taken : step .offsetPageTable m (.fork 256) = some m' := by
    simp only [replay] at forked
    split at forked
    · simpa using forked
    · cases forked
  exact ⟨m, m', spaces, taken, (memories_private .offsetPageTable bare_booted both).1⟩

theorem fork_takes_snapshot_once : ∃ (m m' : MemoryManager) (child : Frame), child ∈ m'.userPageTables ∧
    child ∉ m.userPageTables ∧ m.userPageTables = [256] ∧
    ∀ q, q < USER_PAGES → m'.reads child q = m.reads 256 q := by
  obtain ⟨m, m', ran, spaces, forked⟩ := onePageLoad_forked
  obtain ⟨child, fresh, member, same⟩ := fork_takes_snapshot .offsetPageTable bare_booted ran forked
  exact ⟨m, m', child, member, fresh, spaces, same child (Or.inl rfl) fun _ later =>
    absurd later List.not_mem_nil⟩

end Witness

end PickleOS.Memory
