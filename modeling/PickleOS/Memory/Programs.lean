import PickleOS.Memory.Processes

set_option autoImplicit false

/-!
# Whose address space a program runs in

`ElfBinary::load` returns the entry point and the stack, and its caller looks the address space up
as the last of `user_page_tables`. Tasks are switched at any time in between.
-/

namespace PickleOS.Memory

open Shared.Machine

abbrev TaskId := Nat

inductive Loader where
  | exec
  | spawn
  deriving DecidableEq

inductive Phase where
  | outside
  /-- In `load_from_file`, before `ElfBinary::load`. -/
  | reading (loader : Loader)
  | loaded (loader : Loader) (own : Frame)
  deriving DecidableEq

structure Programs where
  memory : MemoryManager
  phase : TaskId → Phase
  /-- `user_cr3` of the tasks. -/
  cr3 : TaskId → Option Frame
  nextId : TaskId
  -- History that nobody looks at: what a call has taken, and what its own load has registered.
  taken : List (Frame × Frame)

namespace Programs

variable (s : Programs)

def enter (task : TaskId) (phase : Phase) : Programs := { s with phase := Function.update s.phase task phase }

def give (task : TaskId) (cr3 : Frame) : Programs := { s with cr3 := Function.update s.cr3 task (some cr3) }

/-- The critical section of `ElfBinary::load`. -/
def load (x : Mapper) (caller : TaskId) (loader : Loader) (pages : List UserPage) : Option Programs :=
  s.memory.createUserMapper.map fun (new, m) =>
    match m.loadPages x new pages with
    | (true, m) => { s.enter caller (.loaded loader new) with memory := m.storeUserMapper new }
    | (false, m) => { s.enter caller .outside with memory := m }

/-- From the lookup on, in `do_exec` and `spawn_user_from_entry`. -/
def install (caller : TaskId) (loader : Loader) (own : Frame) : Programs :=
  match s.memory.userPageTables.getLast? with
  | none => s.enter caller .outside
  | some cr3 =>
    match loader with
    | .exec => { (s.enter caller .outside).give caller cr3 with taken := (cr3, own) :: s.taken }
    | .spawn =>
      { (s.enter caller .outside).give s.nextId cr3 with nextId := s.nextId + 1, taken :=
        (cr3, own) :: s.taken }

/-- `do_fork`, which uses what `cow_fork_address_space` returns. -/
def fork (x : Mapper) (parentCr3 : Frame) : Option Programs :=
  (s.memory.cowForkAddressSpace x parentCr3).map fun (child, m) =>
    { s.give s.nextId child with memory := m, nextId := s.nextId + 1 }

end Programs

inductive Call where
  | start (caller : TaskId) (loader : Loader)
  /-- The file cannot be read, or is no program. -/
  | abandon (caller : TaskId)
  | load (caller : TaskId) (pages : List UserPage)
  | install (caller : TaskId)
  | fork (caller : TaskId)

def proceed (x : Mapper) (s : Programs) : Call → Option Programs
  | .start caller loader =>
    -- Only a user task calls `do_exec`.
    if s.phase caller = .outside ∧ (loader = .exec → (s.cr3 caller).isSome) then
      some (s.enter caller (.reading loader)) else none
  | .abandon caller =>
    match s.phase caller with
    | .reading _ => some (s.enter caller .outside)
    | _ => none
  | .load caller pages =>
    match s.phase caller with
    | .reading loader => s.load x caller loader pages
    | _ => none
  | .install caller =>
    match s.phase caller with
    | .loaded loader own => some (s.install caller loader own)
    | _ => none
  | .fork caller => if s.phase caller = .outside then (s.cr3 caller).bind (s.fork x) else none

/-- Does the step add to `user_page_tables`, if it is taken? -/
def Registers (x : Mapper) (s : Programs) : Call → Prop
  | .load _ pages => (s.memory.createUserMapper.map fun (new, m) => (m.loadPages x new pages).1) = some true
  | .fork _ => True
  | .start .. | .abandon _ | .install _ => False

/-- No call is between its load and its lookup while an address space is registered. -/
def Undisturbed (x : Mapper) (s : Programs) (c : Call) : Prop :=
  Registers x s c → ∀ task loader own, s.phase task ≠ .loaded loader own

variable {m m' m'' : MemoryManager} {f t r : Frame}

/-- Frames are handed out in turn, and nothing is registered. -/
structure Grows (m m' : MemoryManager) : Prop where
  spaces : m'.userPageTables = m.userPageTables
  frames : m'.frameAllocator.usableFrames = m.frameAllocator.usableFrames
  next : m.frameAllocator.next ≤ m'.frameAllocator.next

namespace Grows

theorem refl (m : MemoryManager) : Grows m m := ⟨rfl, rfl, Nat.le_refl _⟩

theorem trans (first : Grows m m') (second : Grows m' m'') : Grows m m'' where
  spaces := second.spaces.trans first.spaces
  frames := second.frames.trans first.frames
  next := Nat.le_trans first.next second.next

theorem setEntry (m : MemoryManager) (t : Frame) (i : Nat) (e : Entry) : Grows m (m.setEntry t i e) :=
  ⟨rfl, rfl, Nat.le_refl _⟩

theorem setPage (m : MemoryManager) (f : Frame) (contents : Nat → UInt8) : Grows m (m.setPage f contents) :=
  ⟨rfl, rfl, Nat.le_refl _⟩

theorem zeroTable (m : MemoryManager) (t : Frame) : Grows m (m.zeroTable t) := ⟨rfl, rfl, Nat.le_refl _⟩

theorem allocateFrame {f : Option Frame} (taken : m.allocateFrame = (f, m')) : Grows m m' := by
  cases taken
  exact ⟨rfl, rfl, Nat.le_succ _⟩

theorem descends {i : Nat} {flags : Flags} (down : Descends m t i flags m' f) : Grows m m' := by
  cases down with
  | created _ fresh => exact ((allocateFrame fresh).trans (zeroTable ..)).trans (setEntry ..)
  | existing => exact setEntry ..

theorem descent {page depth : Nat} {flags : Flags} (down : Descent m r page flags depth m' t) : Grows m m' := by
  induction down with
  | root => exact refl m
  | next _ last ih => exact ih.trans (descends last)

theorem mapsTo {page : Nat} {flags : Flags} {result : Except MapToError Unit}
    (maps : MapsTo m r page f flags result m') :
    Grows m m' := by
  cases maps with
  | mapped down => exact (descent down).trans (setEntry ..)
  | alreadyMapped down => exact descent down
  | hugeParent _ down _ _ after =>
    rcases after with rfl | rfl
    · exact descent down
    · exact (descent down).trans (setEntry ..)
  | noFrame _ down _ exhausted => exact (descent down).trans (allocateFrame exhausted)

theorem expectFrame (taken : m.expectFrame = some (f, m')) : Grows m m' :=
  allocateFrame (expectFrame_some taken)

theorem deepCopyTable {level : Nat} {src new : Frame} (done : m.deepCopyTable level src = some (new, m'))
    : Grows m m' := by
  induction level generalizing m m' src new with
  | zero => cases done
  | succ level ih =>
    simp only [MemoryManager.deepCopyTable, Option.bind_eq_some_iff, Option.map_eq_some_iff, Prod.exists]
      at done
    obtain ⟨new', m₁, taken, m₂, copied, same⟩ := done
    cases same
    refine ((expectFrame taken).trans (zeroTable m₁ new)).trans ?_
    refine foldlM_range_keeps (fun _ m => Grows (m₁.zeroTable new) m) (fun i s s' _ before round => ?_)
      (refl _) copied
    split at round
    · cases round
      exact before
    · split at round
      · cases round
        exact before.trans (setEntry ..)
      · obtain ⟨⟨child, m₃⟩, below, rfl⟩ := Option.map_eq_some_iff.mp round
        exact (before.trans (ih below)).trans (setEntry ..)

theorem foldl {α : Type} {f : MemoryManager → α → MemoryManager} (grows : ∀ m a, Grows m (f m a))
    (items : List α)
    (m : MemoryManager) : Grows m (items.foldl f m) := by
  induction items generalizing m with
  | nil => exact refl m
  | cons a rest ih => exact (grows m a).trans (ih (f m a))

theorem mapTo (x : Mapper) (m : MemoryManager) (r : Frame) (page : Nat) (f : Frame) (flags : Flags) :
    Grows m (x.mapTo m r page f flags).2 :=
  mapsTo (x.mapTo_documented m r page f flags)

theorem loadPages (x : Mapper) (r : Frame) (pages : List UserPage) (m : MemoryManager) :
    Grows m (m.loadPages x r pages).2 := by
  induction pages generalizing m with
  | nil => exact refl m
  | cons p rest ih =>
    unfold MemoryManager.loadPages
    split
    next taken => exact allocateFrame taken
    next f m₁ taken =>
      have maps := mapTo x m₁ r p.page f p.flags
      split
      next failed =>
        rw [failed] at maps
        exact (allocateFrame taken).trans maps
      next mapped =>
        rw [mapped] at maps
        exact (((allocateFrame taken).trans maps).trans (setPage ..)).trans (ih _)

theorem shareLeaves {levels bound : Nat} {page : Nat} (s : MemoryManager × List MemoryManager.Leaf)
    (t : Frame) :
    Grows s.1 (MemoryManager.forLeaves Prod.fst MemoryManager.shareLeaf levels bound t page s).1 := by
  induction levels generalizing t page bound s with
  | zero =>
    unfold MemoryManager.forLeaves
    refine List.foldlRecOn (motive :=
      fun (s' : MemoryManager × List MemoryManager.Leaf) => Grows s.1 s'.1)
        (List.range bound) _ (refl s.1) fun s' before i _ => ?_
    unfold MemoryManager.shareLeaf
    dsimp only
    split
    · exact before
    · split
      · exact before.trans (setEntry ..)
      · exact before
  | succ levels ih =>
    unfold MemoryManager.forLeaves
    refine List.foldlRecOn (motive :=
      fun (s' : MemoryManager × List MemoryManager.Leaf) => Grows s.1 s'.1)
        (List.range bound) _ (refl s.1) fun s' before i _ => ?_
    dsimp only
    split
    · exact before
    · exact before.trans (ih s' _)

end Grows

theorem createUserMapper_fresh {new : Frame} (done : m.createUserMapper = some (new, m')) :
    Grows m m' ∧ m.frameAllocator.usableFrames[m.frameAllocator.next]? = some new ∧
      m.frameAllocator.next < m'.frameAllocator.next := by
  -- A new level-4 table is the frame that was next in turn.
  simp only [MemoryManager.createUserMapper, Option.bind_eq_some_iff, Prod.exists] at done
  obtain ⟨new', m₁, taken, rest⟩ := done
  have fresh : m.frameAllocator.usableFrames[m.frameAllocator.next]? = some new' ∧
      m₁.frameAllocator.next = m.frameAllocator.next + 1 := by
    have allocated := expectFrame_some taken
    simp only [MemoryManager.allocateFrame, Prod.mk.injEq] at allocated
    exact ⟨allocated.1, by rw [← allocated.2]⟩
  have shared : ∀ m₂, Grows m₂ ((List.range 512).foldl
      (fun (m : MemoryManager) i => m.setEntry new' i (m.table m.kernelCr3 i)) m₂) := fun m₂ =>
    Grows.foldl (fun m i => Grows.setEntry ..) _ m₂
  have grown : new = new' ∧ Grows m₁ m' := by
    split at rest
    · obtain ⟨⟨l3, m₂⟩, copied, same⟩ := Option.map_eq_some_iff.mp rest
      cases same
      exact ⟨rfl, (((Grows.zeroTable m₁ new).trans (shared _)).trans (Grows.deepCopyTable copied)).trans
        (Grows.setEntry ..)⟩
    · cases rest
      exact ⟨rfl, (Grows.zeroTable m₁ new).trans (shared _)⟩
  obtain ⟨rfl, grows⟩ := grown
  refine ⟨(Grows.expectFrame taken).trans grows, fresh.1, ?_⟩
  have later := grows.next
  rw [fresh.2] at later
  exact later

structure Registered (m m' : MemoryManager) (new : Frame) : Prop where
  spaces : m'.userPageTables = m.userPageTables ++ [new]
  frames : m'.frameAllocator.usableFrames = m.frameAllocator.usableFrames
  fresh : ∃ i, m.frameAllocator.next ≤ i ∧ i < m'.frameAllocator.next ∧
  m.frameAllocator.usableFrames[i]? = some new

theorem Registered.of_grows {m₁ m₂ : MemoryManager} {new : Frame} (before : Grows m m₁)
    (made : m₁.createUserMapper = some (new, m₂)) (after : Grows m₂ m') :
      Registered m (m'.storeUserMapper new) new := by
  obtain ⟨grown, fresh, next⟩ := createUserMapper_fresh made
  have all := (before.trans grown).trans after
  refine ⟨?_, all.frames, m₁.frameAllocator.next, before.next, Nat.lt_of_lt_of_le next after.next, ?_⟩
  · rw [MemoryManager.storeUserMapper, all.spaces]
  · rw [← before.frames]
    exact fresh

theorem cowFork_registers {x : Mapper} {parentCr3 child : Frame}
    (forked : m.cowForkAddressSpace x parentCr3 = some (child, m')) :
    Registered m m' child := by
  have shared : Grows m (MemoryManager.forLeaves
    Prod.fst MemoryManager.shareLeaf 3 256 parentCr3 0 (m, [])).1 :=
    Grows.shareLeaves (m, []) parentCr3
  simp only [MemoryManager.cowForkAddressSpace] at forked
  obtain ⟨⟨new, m₁⟩, made, same⟩ := Option.map_eq_some_iff.mp forked
  simp only [Prod.mk.injEq] at same
  obtain ⟨rfl, rfl⟩ := same
  refine .of_grows shared made (Grows.foldl (fun m leaf => ?_) _ m₁)
  have maps := Grows.mapTo x m new leaf.1 leaf.2.frame { present := true, user := true }
  unfold MemoryManager.replicateLeaf
  split
  next mapped =>
    rw [mapped] at maps
    exact maps.trans (.setEntry ..)
  next failed =>
    rw [failed] at maps
    exact maps

namespace Programs

variable {x : Mapper} {s s' : Programs} {c : Call}

inductive Effect (x : Mapper) (s : Programs) (c : Call) : Programs → Prop
  /-- Somebody goes on, or gives up. -/
  | quiet (task : TaskId) {phase : Phase} {m : MemoryManager} (idle : ¬Registers x s c)
    (grows : Grows s.memory m)
      (unloaded : ∀ loader own, phase ≠ .loaded loader own) :
        Effect x s c { s.enter task phase with memory := m }
  | loaded (task : TaskId) {loader : Loader} {m : MemoryManager} {new : Frame} (registers : Registers x s c)
      (reading : s.phase task = .reading loader) (registered : Registered s.memory m new) :
        Effect x s c { s.enter task (.loaded loader new) with memory := m }
  | installed (task target next : TaskId) {loader : Loader} {own cr3 : Frame} (idle : ¬Registers x s c)
    (before : s.phase task = .loaded loader own)
      (last : s.memory.userPageTables.getLast? = some cr3) :
      Effect x s c { (s.enter task .outside).give target cr3 with nextId := next, taken :=
        (cr3, own) :: s.taken }
  | forked {m : MemoryManager} {child : Frame} (target next : TaskId) (registers : Registers x s c)
      (registered : Registered s.memory m child) :
        Effect x s c { s.give target child with memory := m, nextId := next }

theorem proceed_effect (taken : proceed x s c = some s') : Effect x s c s' := by
  cases c with
  | start caller loader =>
    simp only [proceed, Option.ite_none_right_eq_some, Option.some.injEq] at taken
    obtain ⟨_, rfl⟩ := taken
    exact .quiet caller id (Grows.refl s.memory) nofun
  | abandon caller =>
    simp only [proceed] at taken
    split at taken
    · cases taken
      exact .quiet caller id (Grows.refl s.memory) nofun
    · cases taken
  | load caller pages =>
    simp only [proceed] at taken
    split at taken
    next loader reading =>
      obtain ⟨⟨new, m⟩, made, rest⟩ := Option.map_eq_some_iff.mp taken
      have grows := Grows.loadPages x new pages m
      dsimp only at rest
      split at rest
      next m' done =>
        cases rest
        rw [done] at grows
        refine .loaded caller ?_ reading (.of_grows (.refl _) made grows)
        simp [Registers, made, done]
      next m' failed =>
        cases rest
        rw [failed] at grows
        refine .quiet caller ?_ ((createUserMapper_fresh made).1.trans grows) nofun
        simp [Registers, made, failed]
    next => cases taken
  | install caller =>
    simp only [proceed] at taken
    split at taken
    next loader own before =>
      cases taken
      unfold install
      split
      next => exact .quiet caller id (Grows.refl s.memory) nofun
      next cr3 last =>
        cases loader with
        | exec => exact .installed caller caller s.nextId id before last
        | spawn => exact .installed caller s.nextId (s.nextId + 1) id before last
    next => cases taken
  | fork caller =>
    simp only [proceed, Option.ite_none_right_eq_some, Option.bind_eq_some_iff] at taken
    obtain ⟨_, parent, _, done⟩ := taken
    obtain ⟨⟨child, m⟩, forked, rfl⟩ := Option.map_eq_some_iff.mp done
    exact .forked s.nextId (s.nextId + 1) trivial (cowFork_registers forked)

/-- Address spaces are in frames that were handed out, and nobody has one that was not registered. -/
structure Sane (s : Programs) : Prop where
  distinct : s.memory.frameAllocator.usableFrames.Nodup
  given : ∀ r ∈ s.memory.userPageTables, ∃ i, i < s.memory.frameAllocator.next ∧
  s.memory.frameAllocator.usableFrames[i]? = some r
  held : ∀ task r, s.cr3 task = some r → r ∈ s.memory.userPageTables
  loaded : ∀ task loader own, s.phase task = .loaded loader own → own ∈ s.memory.userPageTables

namespace Sane

theorem fresh (sane : Sane s) {new : Frame} (registered : Registered s.memory m' new) :
    new ∉ s.memory.userPageTables := by
  intro member
  obtain ⟨i, old, here⟩ := sane.given new member
  obtain ⟨j, late, _, there⟩ := registered.fresh
  have bound := (List.getElem?_eq_some_iff.mp here).1
  have same := (List.getElem?_inj bound sane.distinct).mp (here.trans there.symm)
  omega

theorem memory_grows (sane : Sane s) (grows : Grows s.memory m') : Sane { s with memory := m' } where
  distinct := by
    rw [grows.frames]
    exact sane.distinct
  given r member := by
    rw [grows.spaces] at member
    obtain ⟨i, old, here⟩ := sane.given r member
    exact ⟨i, Nat.lt_of_lt_of_le old grows.next, by rw [grows.frames, here]⟩
  held task r here := by
    rw [grows.spaces]
    exact sane.held task r here
  loaded task loader own here := by
    rw [grows.spaces]
    exact sane.loaded task loader own here

theorem memory_registered (sane : Sane s) {new : Frame} (registered : Registered s.memory m' new) :
    Sane { s with memory := m' } where
  distinct := by
    rw [registered.frames]
    exact sane.distinct
  given r member := by
    rw [registered.spaces, List.mem_append, List.mem_singleton] at member
    obtain ⟨j, late, bound, there⟩ := registered.fresh
    rw [registered.frames]
    rcases member with old | rfl
    · obtain ⟨i, before, here⟩ := sane.given r old
      exact ⟨i, Nat.lt_of_lt_of_le before (Nat.le_trans late (Nat.le_of_lt bound)), here⟩
    · exact ⟨j, bound, there⟩
  held task r here := by
    rw [registered.spaces]
    exact List.mem_append_left _ (sane.held task r here)
  loaded task loader own here := by
    rw [registered.spaces]
    exact List.mem_append_left _ (sane.loaded task loader own here)

theorem enter (sane : Sane s) (task : TaskId) {phase : Phase}
    (known : ∀ loader own, phase = .loaded loader own → own ∈ s.memory.userPageTables) :
      Sane (s.enter task phase) where
  distinct := sane.distinct
  given := sane.given
  held := sane.held
  loaded other loader own here := by
    simp only [Programs.enter, Function.update_apply] at here
    split at here
    · exact known loader own here
    · exact sane.loaded other loader own here

theorem give (sane : Sane s) (target : TaskId) {cr3 : Frame} (known : cr3 ∈ s.memory.userPageTables) :
    Sane (s.give target cr3) where
  distinct := sane.distinct
  given := sane.given
  held task r here := by
    simp only [Programs.give, Function.update_apply] at here
    split at here
    · cases here
      exact known
    · exact sane.held task r here
  loaded := sane.loaded

theorem effect (sane : Sane s) (effect : Effect x s c s') : Sane s' := by
  cases effect with
  | quiet task _ grows unloaded =>
    exact (sane.memory_grows grows).enter task fun loader own same => absurd same (unloaded loader own)
  | loaded task _ _ registered =>
    refine (sane.memory_registered registered).enter task fun loader own same => ?_
    cases same
    rw [registered.spaces]
    exact List.mem_append_right _ (List.mem_singleton.mpr rfl)
  | installed task target next _ _ last =>
    have outside : Sane (s.enter task .outside) := sane.enter task nofun
    have left := outside.give target (List.mem_of_getLast? last)
    exact ⟨left.distinct, left.given, left.held, left.loaded⟩
  | forked target next _ registered =>
    have grown := sane.memory_registered registered
    have given := grown.give target (registered.spaces ▸ List.mem_append_right _ (List.mem_singleton.mpr rfl))
    exact ⟨given.distinct, given.given, given.held, given.loaded⟩

end Sane

/-- While nobody comes between a load and its lookup. -/
structure Orderly (s : Programs) : Prop where
  own : ∀ p ∈ s.taken, p.1 = p.2
  last : ∀ task loader own, s.phase task = .loaded loader own → s.memory.userPageTables.getLast? = some own
  alone : ∀ task task' loader loader' own own', s.phase task = .loaded loader own →
    s.phase task' = .loaded loader' own' → task' = task
  unused : ∀ task loader own, s.phase task = .loaded loader own → ∀ other, s.cr3 other ≠ some own
  apart : ∀ task task' r, s.cr3 task = some r → s.cr3 task' = some r → task' = task

theorem Orderly.effect (orderly : Orderly s) (sane : Sane s) (fine : Undisturbed x s c)
    (effect : Effect x s c s') : Orderly s' := by
  cases effect with
  | @quiet task phase m _ grows unloaded =>
    have before : ∀ other loader own, Function.update s.phase task phase other = .loaded loader own →
      s.phase other = .loaded loader own := by
      intro other loader own here
      rw [Function.update_apply] at here
      split at here
      · exact absurd here (unloaded loader own)
      · exact here
    refine ⟨orderly.own, fun t l own here => ?_, fun t t' l l' own own' here here' => ?_,
      fun t l own here => ?_, orderly.apart⟩
    · exact grows.spaces ▸ orderly.last t l own (before t l own here)
    · exact orderly.alone t t' l l' own own' (before t l own here) (before t' l' own' here')
    · exact orderly.unused t l own (before t l own here)
  | @loaded task loader m new registers _ registered =>
    have only : ∀ other l own, Function.update s.phase task (.loaded loader new) other = .loaded l own →
      other = task ∧ own = new := by
      intro other l own here
      rw [Function.update_apply] at here
      split at here
      next same =>
        cases here
        exact ⟨same, rfl⟩
      next => exact absurd here (fine registers other l own)
    refine ⟨orderly.own, fun t l own here => ?_, fun t t' l l' own own' here here' => ?_,
      fun t l own here other holds => ?_,
      orderly.apart⟩
    · rw [(only t l own here).2, registered.spaces, List.getLast?_concat]
    · rw [(only t l own here).1, (only t' l' own' here').1]
    · rw [(only t l own here).2] at holds
      exact sane.fresh registered (sane.held other new holds)
  | @installed task target next loader own cr3 _ before last =>
    have same : cr3 = own := Option.some.inj (last.symm.trans (orderly.last task loader own before))
    subst same
    have none : ∀ other l own, Function.update s.phase task .outside other ≠ .loaded l own := by
      intro other l own here
      rw [Function.update_apply] at here
      split at here
      next => cases here
      next elsewhere => exact elsewhere (orderly.alone task other loader l cr3 own before here)
    refine ⟨fun p member => ?_, fun t l own here => absurd here (none t l own),
      fun t _ l _ own _ here => absurd here (none t l own),
      fun t l own here => absurd here (none t l own), fun t t' r here here' => ?_⟩
    · rcases List.mem_cons.mp member with rfl | old
      · rfl
      · exact orderly.own p old
    · simp only [give, enter, Function.update_apply] at here here'
      split at here <;> split at here'
      next first second => rw [first, second]
      next =>
        cases here
        exact absurd here' (orderly.unused task loader cr3 before t')
      next =>
        cases here'
        exact absurd here (orderly.unused task loader cr3 before t)
      next => exact orderly.apart t t' r here here'
  | @forked m child target next registers registered =>
    have nobody : ∀ other, s.cr3 other ≠ some child := fun other holds =>
      sane.fresh registered (sane.held other child holds)
    have none := fine registers
    refine ⟨orderly.own, fun t l own here => absurd here (none t l own),
      fun t _ l _ own _ here => absurd here (none t l own),
      fun t l own here => absurd here (none t l own), fun t t' r here here' => ?_⟩
    simp only [give, Function.update_apply] at here here'
    split at here <;> split at here'
    next first second => rw [first, second]
    next =>
      cases here
      exact absurd here' (nobody t')
    next =>
      cases here'
      exact absurd here (nobody t)
    next => exact orderly.apart t t' r here here'

theorem Effect.overtakes (effect : Effect x s c s') (sane : Sane s) (registers : Registers x s c)
    {task : TaskId} {loader : Loader}
    {own : Frame} (before : s.phase task = .loaded loader own) :
    s'.phase task = .loaded loader own ∧ ∃ new, s'.memory.userPageTables.getLast? = some new ∧ new ≠ own := by
  -- Whoever was between its load and its lookup finds another address space than its own.
  have member := sane.loaded task loader own before
  cases effect with
  | quiet _ idle => exact absurd registers idle
  | @loaded other loader' m new _ reading registered =>
    have away : task ≠ other := by
      rintro rfl
      rw [before] at reading
      cases reading
    refine ⟨(Function.update_of_ne away ..).trans before,
      new, by rw [registered.spaces, List.getLast?_concat], ?_⟩
    rintro rfl
    exact sane.fresh registered member
  | installed _ _ _ idle => exact absurd registers idle
  | @forked m child _ _ _ registered =>
    refine ⟨before, child, by rw [registered.spaces, List.getLast?_concat], ?_⟩
    rintro rfl
    exact sane.fresh registered member

def booted (m : MemoryManager) : Programs where
  memory := m
  phase _ := .outside
  cr3 _ := none
  nextId := 0
  taken := []

theorem Sane.booted {owner : Frame → Owner} (booted : Booted owner m) : Sane (.booted m) where
  distinct := usableFrames_nodup booted.aligned booted.disjoint
  given r member := by
    rw [show (Programs.booted m).memory.userPageTables = [] from booted.spaces] at member
    cases member
  held := nofun
  loaded := nofun

theorem Orderly.booted (m : MemoryManager) : Orderly (.booted m) := ⟨nofun, nofun, nofun, nofun, nofun⟩

end Programs

/-- While no address space is registered between a load and the lookup after it, every program gets
what its own load has built, and no two tasks have the same. Where one is, the lookup finds it. -/
theorem programs_separate (x : Mapper) {owner : Frame → Owner} (start : Booted owner m) (s : Programs) :
    (Reaches (proceed x) (Undisturbed x) (.booted m) s →
      (∀ p ∈ s.taken, p.1 = p.2) ∧ ∀ task task' r, s.cr3 task = some r → s.cr3 task' = some r →
        task' = task) ∧
    (Reaches (proceed x) (fun _ _ => True) (.booted m) s → ∀ c t task loader own, Registers x s c →
      proceed x s c = some t →
      s.phase task = .loaded loader own →
      ∃ u got, proceed x t (.install task) = some u ∧ u.taken.head? = some (got, own) ∧ got ≠ own) := by
  constructor
  · intro run
    have both : s.Sane ∧ s.Orderly := by
      induction run with
      | start => exact ⟨.booted start, .booted m⟩
      | step _ fine taken ih =>
        have effect := Programs.proceed_effect taken
        exact ⟨ih.1.effect effect, ih.2.effect ih.1 fine effect⟩
    exact ⟨both.2.own, both.2.apart⟩
  · intro run c t task loader own registers taken before
    have sane : s.Sane := run.invariant (Programs.Sane.booted start) fun _ _ _ sane _ taken =>
      sane.effect (Programs.proceed_effect taken)
    obtain ⟨still, got, last, other⟩ := (Programs.proceed_effect taken).overtakes sane registers before
    refine ⟨t.install task loader own, got, by simp only [proceed, still], ?_, other⟩
    unfold Programs.install
    rw [last]
    cases loader <;> rfl

theorem programs_separate_one :
    ∃ s, Reaches (proceed .offsetPageTable) (Undisturbed .offsetPageTable) (.booted bare) s ∧
    s.taken = [(256, 256)] ∧
      ∀ p ∈ s.taken, p.1 = p.2 := by
  have ran : (run (proceed .offsetPageTable) (.booted bare)
    [.start 9 .spawn, .load 9 [⟨1024, true, false, fun _ => 0⟩],
      .install 9]).map (·.taken) = some [(256, 256)] := by decide +kernel
  obtain ⟨s, done, taken⟩ := Option.map_eq_some_iff.mp ran
  simp only [run, Option.bind_eq_some_iff] at done
  obtain ⟨s₁, started, s₂, loaded, s₃, installed, same⟩ := done
  cases same
  have quiet : ∀ task loader own, s₁.phase task ≠ .loaded loader own := by
    cases started
    intro task loader own
    simp only [Programs.enter, Programs.booted, Function.update_apply]
    intro same
    split at same <;> cases same
  have first : Reaches (proceed .offsetPageTable) (Undisturbed .offsetPageTable) (.booted bare) s₁ :=
    .step (a := .start 9 .spawn) .start (fun registers => False.elim registers) started
  have reached : Reaches (proceed .offsetPageTable) (Undisturbed .offsetPageTable) (.booted bare) s :=
    .step (a := .install 9) (.step first (fun _ => quiet) loaded) (fun registers => False.elim registers)
      installed
  exact ⟨s, reached, taken, ((programs_separate .offsetPageTable bare_booted s).1 reached).1⟩

/-- While a task replaces its program, another is started. -/
theorem program_in_other_space :
    ∃ s, run (proceed .offsetPageTable) (.booted bare)
        [.start 9 .spawn, .load 9 [⟨1024, true, false, fun _ => 0⟩], .install 9, .start 0 .exec,
        .start 9 .spawn,
          .load 0 [⟨1024, true, false, fun _ => 1⟩], .load 9 [⟨1024, true, false, fun _ => 2⟩],
            .install 0, .install 9] = some s ∧
      s.taken = [(266, 266), (266, 261), (256, 256)] ∧ s.cr3 0 = some 266 ∧ s.cr3 1 = some 266 := by
  have ran : (run (proceed .offsetPageTable) (.booted bare)
      [.start 9 .spawn, .load 9 [⟨1024, true, false, fun _ => 0⟩], .install 9, .start 0 .exec, .start 9 .spawn,
        .load 0 [⟨1024, true, false, fun _ => 1⟩], .load 9 [⟨1024, true, false, fun _ => 2⟩], .install 0,
          .install 9]).map
      (fun s => (s.taken, s.cr3 0, s.cr3 1)) =
        some ([(266, 266), (266, 261), (256, 256)], some 266, some 266) := by
    decide +kernel
  obtain ⟨s, done, same⟩ := Option.map_eq_some_iff.mp ran
  simp only [Prod.mk.injEq] at same
  exact ⟨s, done, same⟩

end PickleOS.Memory
