import PickleOS.Memory.Visits
import PickleOS.Shared.Machine

set_option autoImplicit false

namespace PickleOS.Memory

open Shared.Machine

variable {owner owner' : Frame → Owner} {m m' : MemoryManager} {f t r cr3 : Frame} {i page : Nat}

/-- What a user can write is mapped for users nowhere else. -/
def Exclusive (owner : Frame → Owner) (m : MemoryManager) : Prop :=
  ∀ f i g j, UserAt owner m f i → UserAt owner m g j → (m.table f i).flags.writable = true →
    (m.table g j).frame = (m.table f i).frame → g = f ∧ j = i

def Frozen (owner : Frame → Owner) (m : MemoryManager) (frame : Frame) : Prop :=
  ∀ f i, UserAt owner m f i → (m.table f i).frame = frame → (m.table f i).flags.writable = false

def Unmapped (owner : Frame → Owner) (m : MemoryManager) (frame : Frame) : Prop :=
  ∀ f i, UserAt owner m f i → (m.table f i).frame ≠ frame

theorem Exclusive.builds (exclusive : Exclusive owner m) (builds : Builds r owner m owner' m') :
    Exclusive owner' m' := by
  intro f i g j at_f at_g writable same
  have before_f := builds.nothing f i at_f
  have before_g := builds.nothing g j at_g
  rw [builds.kept f i before_f] at writable same
  rw [builds.kept g j before_g] at same
  exact exclusive f i g j before_f before_g writable same

theorem Frozen.builds {frame : Frame} (frozen : Frozen owner m frame) (builds : Builds r owner m owner' m') :
    Frozen owner' m' frame := by
  intro f i at_f same
  have before := builds.nothing f i at_f
  rw [builds.kept f i before] at same ⊢
  exact frozen f i before same

theorem Unmapped.builds {frame : Frame} (unmapped : Unmapped owner m frame)
    (builds : Builds r owner m owner' m') :
    Unmapped owner' m' frame := by
  intro f i at_f
  have before := builds.nothing f i at_f
  rw [builds.kept f i before]
  exact unmapped f i before

theorem Owned.unmapped (owned : Owned owner m) (fresh : m.allocateFrame = (some f, m')) :
    Unmapped owner m f := by
  -- A fresh frame is mapped nowhere.
  intro g i at_g same
  have data := at_g.data owned
  rw [same, owned.free_frame fresh] at data
  simp at data

theorem userAt_setEntry {e : Entry} {g : Frame} {j : Nat} (at_leaf : UserAt owner (m.setEntry t i e) g j) :
    g = t ∧ j = i ∧ e.flags.user = true ∨ ¬(g = t ∧ j = i) ∧ UserAt owner m g j := by
  obtain ⟨label, bound, user⟩ := at_leaf
  rw [setEntry_table] at user
  by_cases here : g = t ∧ j = i
  · rw [if_pos here] at user
    exact Or.inl ⟨here.1, here.2, user⟩
  · rw [if_neg here] at user
    exact Or.inr ⟨here, label, bound, user⟩

theorem Exclusive.setLeaf {e : Entry} (exclusive : Exclusive owner m)
    (alone : e.flags.user = true → ∀ g j, ¬(g = t ∧ j = i) → UserAt owner m g j →
      (m.table g j).frame = e.frame →
      e.flags.writable = false ∧ (m.table g j).flags.writable = false) :
        Exclusive owner (m.setEntry t i e) := by
  -- Setting a leaf keeps exclusive what was, if no other user page shares a frame with it that either can
  -- write.
  intro f k g j at_f at_g writable same
  have here : (m.setEntry t i e).table t i = e := by simp [setEntry_table]
  have there {g : Frame} {j : Nat} (off : ¬(g = t ∧ j = i)) : (m.setEntry t i e).table g j = m.table g j := by
    rw [setEntry_table, if_neg off]
  cases userAt_setEntry at_f with
  | inl new =>
    obtain ⟨rfl, rfl, user⟩ := new
    cases userAt_setEntry at_g with
    | inl new => exact ⟨new.1, new.2.1⟩
    | inr old =>
      rw [here] at writable same
      rw [there old.1] at same
      have shared := (alone user g j old.1 old.2 same).1
      simp [writable] at shared
  | inr old =>
    rw [there old.1] at writable same
    cases userAt_setEntry at_g with
    | inl new =>
      obtain ⟨rfl, rfl, user⟩ := new
      rw [here] at same
      have shared := (alone user f k old.1 old.2 same.symm).2
      simp [writable] at shared
    | inr old' =>
      rw [there old'.1] at same
      exact exclusive f k g j old.2 old'.2 writable same

theorem Frozen.setLeaf {e : Entry} {frame : Frame} (frozen : Frozen owner m frame)
    (reads : e.flags.user = true → e.frame = frame → e.flags.writable = false) :
      Frozen owner (m.setEntry t i e) frame := by
  intro f k at_f same
  rw [setEntry_table] at same ⊢
  cases userAt_setEntry at_f with
  | inl here =>
    obtain ⟨rfl, rfl, user⟩ := here
    rw [if_pos ⟨rfl, rfl⟩] at same ⊢
    exact reads user same
  | inr there =>
    rw [if_neg there.1] at same ⊢
    exact frozen f k there.2 same

/-- The state of memory between two steps: page tables are trees, and what a user can write is its own. -/
def Sound (owner : Frame → Owner) (m : MemoryManager) : Prop := Owned owner m ∧ Exclusive owner m

theorem Sound.builds (sound : Sound owner m) (builds : Builds r owner m owner' m') : Sound owner' m' :=
  ⟨builds.owned, sound.2.builds builds⟩

theorem Sound.mapFresh (x : Mapper) {frame : Frame} (page : Nat) (flags : Flags) (sound : Sound owner m)
    (private_root : Private owner m cr3) (slots : m.PrivateSlot (slot 0 page)) (present : flags.present = true)
    (small : flags.huge = false) (data : owner frame = .data) (unmapped : Unmapped owner m frame) :
    ∃ owner', Sound owner' (x.mapTo m cr3 page frame flags).2 ∧
    Private owner' (x.mapTo m cr3 page frame flags).2 cr3 ∧
      (x.mapTo m cr3 page frame flags).2.userPageTables = m.userPageTables ∧
      Spares owner m owner' (x.mapTo m cr3 page frame flags).2 fun r q =>
        r = cr3 ∧ pathTo 4 q = pathTo 4 page := by
  -- A fresh frame is mapped.
  obtain ⟨owner', m₁, builds, own, result⟩ :=
    (x.mapTo_documented m cr3 page frame flags).builds sound.1 private_root slots present
  have spares := builds.spares sound.1 own
  cases result with
  | inl failed =>
    obtain ⟨error, _, same, _⟩ := failed
    rw [same]
    exact ⟨owner', sound.builds builds, private_root.builds builds, builds.spaces,
      spares.mono fun _ _ _ never => never.elim⟩
  | inr mapped =>
    obtain ⟨_, t, label, found, vacant, same⟩ := mapped
    rw [same]
    have data' : owner' frame = .data := by rw [builds.grows frame (by simp [data]), data]
    obtain ⟨owned, privates, _⟩ :=
      builds.owned.setLeaf (i := slot 3 page) (e := ⟨frame, flags⟩) label (pathTo_length 3 page)
        (fun _ => ⟨data', small⟩)
    refine ⟨owner', ⟨owned, (sound.2.builds builds).setLeaf (fun _ g j _ at_g shared => ?_)⟩,
      fun i bound => privates cr3 i ((private_root.builds builds) i bound), builds.spaces,
      (spares.trans (builds.owned.spares_setLeaf label found)).mono fun _ _ _ changed =>
        changed.resolve_left id⟩
    exact absurd shared (unmapped.builds builds g j at_g)

theorem Owned.mapTo_vacant (x : Mapper) (page : Nat) (frame : Frame) (flags : Flags) (owned : Owned owner m)
    (private_root : Private owner m cr3) (slots : m.PrivateSlot (slot 0 page)) (present : flags.present = true)
    (vacant : (m.lookup cr3 3 page).IsUnused) :
    (x.mapTo m cr3 page frame flags).1 = .ok () ∨ (x.mapTo m cr3 page frame flags).2.OutOfFrames := by
  -- Only a lack of frames keeps an unused page from being mapped.
  obtain ⟨owner', m₁, _, own, result⟩ :=
    (x.mapTo_documented m cr3 page frame flags).builds owned private_root slots present
  cases result with
  | inl failed =>
    obtain ⟨error, _, same, why⟩ := failed
    rcases why with ⟨_, used⟩ | ⟨_, exhausted⟩
    · rw [own] at used
      exact absurd vacant used
    · rw [same]
      exact Or.inr exhausted
  | inr mapped => exact Or.inl mapped.1

theorem Owned.mapTo_used (x : Mapper) (page : Nat) (frame : Frame) (flags : Flags) (owned : Owned owner m)
    (private_root : Private owner m cr3) (slots : m.PrivateSlot (slot 0 page)) (present : flags.present = true)
    (used : ¬(m.lookup cr3 3 page).IsUnused) : ∃ error, (x.mapTo m cr3 page frame flags).1 = .error error := by
  obtain ⟨owner', m₁, _, own, result⟩ :=
    (x.mapTo_documented m cr3 page frame flags).builds owned private_root slots present
  cases result with
  | inl failed =>
    obtain ⟨error, failed, _⟩ := failed
    exact ⟨error, failed⟩
  | inr mapped =>
    obtain ⟨_, t, _, found, vacant, _⟩ := mapped
    rw [← own] at used
    exact absurd (by simpa [MemoryManager.lookup, found] using vacant) used

theorem Sound.takeData (sound : Sound owner m) (fresh : m.allocateFrame = (some f, m'))
    (contents : Nat → UInt8) :
    ∃ owner', Sound owner' (m'.setPage f contents) ∧ Builds r owner m owner' (m'.setPage f contents) ∧
      owner' f = .data ∧ Unmapped owner' (m'.setPage f contents) f ∧
      Spares owner m owner' (m'.setPage f contents) fun _ _ => False := by
  -- Data is written to a fresh frame.
  have builds := Builds.take_data (r := r) sound.1 fresh contents
  have table : (m'.setPage f contents).table = m.table := by rw [(allocated fresh).1]; rfl
  exact ⟨_, sound.builds builds, builds, by simp, (sound.1.unmapped fresh).builds builds,
    builds.spares sound.1 fun q => lookup_table table r 3 q⟩

theorem Sound.takeFrame (sound : Sound owner m) (fresh : m.allocateFrame = (some f, m')) :
    ∃ owner', Sound owner' m' ∧ Builds r owner m owner' m' ∧ owner' f = .data ∧ Unmapped owner' m' f ∧
      Spares owner m owner' m' fun _ _ => False := by
  have taken := sound.takeData (r := r) fresh (m'.byte f)
  rwa [MemoryManager.setPage, Function.update_eq_self] at taken

theorem Sound.exhausted (sound : Sound owner m) (none : m.allocateFrame = (none, m')) :
    Sound owner m' ∧ Spares owner m owner m' fun _ _ => False := by
  have builds := Builds.exhausted (r := 0) sound.1 none
  have table : m'.table = m.table := (congrArg (·.2.table) none).symm
  exact ⟨sound.builds builds, builds.spares sound.1 fun q => lookup_table table 0 3 q⟩

theorem Sound.setPage (sound : Sound owner m) (contents : Nat → UInt8) : Sound owner (m.setPage f contents) :=
  -- Contents of frames do not matter.
  ⟨⟨sound.1.distinct, sound.1.fresh, sound.1.kernel, sound.1.entries, sound.1.roots, sound.1.slots,
    sound.1.shared⟩, sound.2⟩

theorem Sound.mapUserRegion (x : Mapper) (writable : Bool) {count : Nat} (sound : Sound owner m)
    (private_root : Private owner m cr3) (slots : ∀ i, i < count → i < m.framesLeft →
      m.PrivateSlot (slot 0 (page + i))) :
    ∃ owner', Sound owner' (m.mapUserRegion x cr3 writable page count).2 ∧
      (Spares owner m owner' (m.mapUserRegion x cr3 writable page count).2 fun r q =>
        r = cr3 ∧ ∃ i, i < count ∧ i < m.framesLeft ∧ pathTo 4 q = pathTo 4 (page + i)) ∧
      (page + count ≤ 512 ^ 4 → (∀ i, i < count → i < m.framesLeft → (m.lookup cr3 3 (page + i)).IsUnused) →
        (m.mapUserRegion x cr3 writable page count).1 = true ∨
          (m.mapUserRegion x cr3 writable page count).2.OutOfFrames) := by
  induction count generalizing page m owner with
  | zero => exact ⟨owner, sound, .refl owner m _, fun _ _ => Or.inl rfl⟩
  | succ count ih =>
    simp only [MemoryManager.mapUserRegion]
    rcases fresh : m.allocateFrame with ⟨_ | f, m₁⟩
    · obtain ⟨sound', spares⟩ := sound.exhausted fresh
      exact ⟨owner, sound', spares.mono fun _ _ _ never => never.elim, fun _ _ => Or.inr (outOfFrames fresh)⟩
    · obtain ⟨owner₁, sound₁, builds, data, unmapped, spares₁⟩ := sound.takeData (r := cr3) fresh fun _ => 0
      have left := framesLeft_allocated fresh
      have slots₁ : (m₁.setPage f fun _ => 0).PrivateSlot (slot 0 page) :=
        (builds.slots sound.1 _).mpr (slots 0 (by omega) (by omega))
      have private₁ := private_root.builds builds
      obtain ⟨owner₂, sound₂, private₂, _, spares₂⟩ :=
        sound₁.mapFresh x page { present := true, user := true, writable := writable }
          private₁ slots₁ rfl rfl data unmapped
      have vacant₂ := sound₁.1.mapTo_vacant x page f
        { present := true, user := true, writable := writable } private₁ slots₁ rfl
      have both : Spares owner m owner₂ _ fun r q =>
          r = cr3 ∧ ∃ i, i < count + 1 ∧ i < m.framesLeft ∧ pathTo 4 q = pathTo 4 (page + i) :=
        (spares₁.trans spares₂).mono fun r q _ changed =>
          ⟨(changed.resolve_left id).1, 0, by omega, by omega, (changed.resolve_left id).2⟩
      simp only [MemoryManager.zeroPage]
      rcases mapped : x.mapTo (m₁.setPage f fun _ => 0) cr3 page f
        { present := true, user := true, writable := writable }
        with ⟨_ | _, m₂⟩
      · simp only [mapped] at sound₂ both vacant₂
        refine ⟨owner₂, sound₂, both, fun _ vacant => Or.inr ((vacant₂ ?_).resolve_left (by simp))⟩
        rw [spares₁.lookup cr3 page private_root.root id]
        exact vacant 0 (Nat.succ_pos count) (by omega)
      · simp only [mapped] at sound₂ private₂ spares₂ both
        have fewer : m₂.framesLeft ≤ m₁.framesLeft := spares₂.framesLeft
        have next (i : Nat) : page + 1 + i = page + (i + 1) := by omega
        obtain ⟨owner₃, sound₃, spares₃, done⟩ := ih sound₂ private₂ (fun i bound room => by
          rw [both.slots sound.1, next]
          exact slots (i + 1) (by omega) (by omega))
        refine ⟨owner₃, sound₃, (both.trans spares₃).mono fun r q _ changed => ?_, fun fits vacant =>
          done (by omega) fun i bound room => ?_⟩
        · rcases changed with first | ⟨own, i, bound, room, same⟩
          · exact first
          · exact ⟨own, i + 1, by omega, by omega, by rw [same, next]⟩
        · -- The page just mapped is another one.
          have other : ¬(cr3 = cr3 ∧ pathTo 4 (page + 1 + i) = pathTo 4 page) := by
            rintro ⟨_, same⟩
            rw [pathTo_eq, Nat.mod_eq_of_lt (by omega), Nat.mod_eq_of_lt (by omega)] at same
            omega
          rw [spares₂.lookup cr3 _ private₁.root other, spares₁.lookup cr3 _ private_root.root id, next]
          exact vacant (i + 1) (by omega) (by omega)

theorem Sound.mapUserRegion_used (x : Mapper) (writable : Bool) (count : Nat) (sound : Sound owner m)
    (private_root : Private owner m cr3) (slots : m.PrivateSlot (slot 0 page))
    (used : ¬(m.lookup cr3 3 page).IsUnused) :
    (m.mapUserRegion x cr3 writable page (count + 1)).1 = false := by
  -- A region does not begin with a page that is mapped.
  simp only [MemoryManager.mapUserRegion]
  rcases fresh : m.allocateFrame with ⟨_ | f, m₁⟩
  · rfl
  · obtain ⟨owner₁, sound₁, builds, _, _, spares⟩ := sound.takeData (r := cr3) fresh fun _ => 0
    rw [← spares.lookup cr3 page private_root.root id] at used
    obtain ⟨error, failed⟩ :=
      sound₁.1.mapTo_used x page f { present := true, user := true, writable := writable }
      (private_root.builds builds) ((builds.slots sound.1 _).mpr slots) rfl used
    simp only [MemoryManager.zeroPage]
    rcases mapped : x.mapTo (m₁.setPage f fun _ => 0) cr3 page f
      { present := true, user := true, writable := writable }
      with ⟨_ | _, m₂⟩
    · rfl
    · simp [mapped] at failed

theorem Sound.loadPages (x : Mapper) {pages : List UserPage} (sound : Sound owner m)
    (private_root : Private owner m cr3)
    (slots : ∀ p, p ∈ pages → m.PrivateSlot (slot 0 p.page)) :
    ∃ owner', Sound owner' (MemoryManager.loadPages x cr3 pages m).2 ∧
      Private owner' (MemoryManager.loadPages x cr3 pages m).2 cr3 ∧
      Spares owner m owner' (MemoryManager.loadPages x cr3 pages m).2 fun r q =>
        r = cr3 ∧ ∃ p ∈ pages, pathTo 4 q = pathTo 4 p.page := by
  induction pages generalizing m owner with
  | nil => exact ⟨owner, sound, private_root, .refl owner m _⟩
  | cons p rest ih =>
    simp only [MemoryManager.loadPages]
    rcases fresh : m.allocateFrame with ⟨_ | f, m₁⟩
    · have builds := Builds.exhausted (r := cr3) sound.1 fresh
      obtain ⟨sound', spares⟩ := sound.exhausted fresh
      exact ⟨owner, sound', private_root.builds builds, spares.mono fun _ _ _ never => never.elim⟩
    · obtain ⟨owner₁, sound₁, builds, data, unmapped, spares₁⟩ := sound.takeFrame (r := cr3) fresh
      have slots₁ (i : Nat) := builds.slots sound.1 i
      obtain ⟨owner₂, sound₂, private₂, _, spares₂⟩ :=
        sound₁.mapFresh x p.page p.flags (private_root.builds builds)
          ((slots₁ _).mpr (slots p List.mem_cons_self)) rfl rfl data unmapped
      have both : Spares owner m owner₂ _ fun r q =>
        r = cr3 ∧ ∃ p' ∈ p :: rest, pathTo 4 q = pathTo 4 p'.page :=
        (spares₁.trans spares₂).mono fun r q _ changed =>
          ⟨(changed.resolve_left id).1, p, List.mem_cons_self, (changed.resolve_left id).2⟩
      rcases mapped : x.mapTo m₁ cr3 p.page f p.flags with ⟨_ | _, m₂⟩
      · simp only [mapped] at sound₂ private₂ both ⊢
        exact ⟨owner₂, sound₂, private₂, both⟩
      · simp only [mapped] at sound₂ private₂ both ⊢
        have same := Spares.setPage owner₂ m₂ f p.contents
        obtain ⟨owner₃, sound₃, private₃, spares₃⟩ :=
          ih (sound₂.setPage p.contents) private₂ (fun q member =>
          (both.slots sound.1 _).mpr (slots q (List.mem_cons_of_mem _ member)))
        refine ⟨owner₃, sound₃, private₃, ((both.trans same).trans spares₃).mono fun r q _ changed => ?_⟩
        rcases changed with (first | never) | ⟨own, p', member, path⟩
        · exact first
        · exact never.elim
        · exact ⟨own, p', List.mem_cons_of_mem _ member, path⟩

theorem Sound.load (x : Mapper) {new : Frame} {m₁ : MemoryManager} {pages : List UserPage}
    (sound : Sound owner m)
    (created : m.createUserMapper = some (new, m₁)) (slots : ∀ p, p ∈ pages → m.PrivateSlot (slot 0 p.page)) :
    ∃ owner', Sound owner' (m₁.loadPages x new pages).2 ∧
    Private owner' (m₁.loadPages x new pages).2 new ∧ owner new = .free ∧
      (Spares owner m owner' (m₁.loadPages x new pages).2 fun _ _ => False) ∧
      ∀ q, (∀ p ∈ pages, pathTo 4 q ≠ pathTo 4 p.page) →
        (m₁.loadPages x new pages).2.lookup new 3 q = m.lookup m.kernelCr3 3 q := by
  -- A program is loaded into an address space of its own.
  obtain ⟨owner₁, builds, private_root, free, view⟩ := createUserMapper_builds sound.1 created
  have built := builds.spares_new sound.1 free
  obtain ⟨owner', sound', private', spares⟩ := (sound.builds builds).loadPages x private_root
    (fun p member => (builds.slots sound.1 _).mpr (slots p member))
  refine ⟨owner', sound', private', free, (built.trans spares).mono fun r q own changed => ?_, fun q off => ?_⟩
  · rcases changed with never | ⟨here, _⟩
    · exact never
    · rw [here, free] at own
      cases own
  · rw [spares.lookup new q private_root.root, view.lookup, built.lookup_kernel sound.1]
    rintro ⟨_, p, member, same⟩
    exact off p member same

theorem Sound.store (sound : Sound owner m) (private_root : Private owner m cr3) :
    Sound owner (m.storeUserMapper cr3) := by
  refine ⟨⟨sound.1.distinct, sound.1.fresh, sound.1.kernel, sound.1.entries, fun r root => ?_,
    sound.1.slots, sound.1.shared⟩, sound.2⟩
  have either : r ∈ m.userPageTables ∨ r = cr3 := by simpa [MemoryManager.storeUserMapper] using root
  cases either with
  | inl old => exact sound.1.roots r old
  | inr new => rw [new]; exact private_root

theorem Unmaps.effect {result : Option Frame} (unmaps : Unmaps m cr3 page result m') :
    m' = m ∨ ∃ t, m.tableAt cr3 3 page = some t ∧ ¬(m.lookup cr3 3 page).IsUnused ∧
      m' = m.setEntry t (slot 3 page) .unused := by
  cases unmaps with
  | @unmapped t found used => exact Or.inr ⟨t, found, by simpa [MemoryManager.lookup, found] using used, rfl⟩
  | failed missing => exact Or.inl rfl

theorem Sound.unmapPages (x : Mapper) {count : Nat} (sound : Sound owner m) (root : owner cr3 = .table cr3 [])
    (users : ∀ i, i < count → ¬(m.lookup cr3 3 (page + i)).IsUnused →
      (m.lookup cr3 3 (page + i)).flags.user = true) :
    Sound owner (MemoryManager.unmapPages x cr3 page count m).2 ∧
      Spares owner m owner (MemoryManager.unmapPages x cr3 page count m).2 fun r q =>
        r = cr3 ∧ ¬(m.lookup cr3 3 q).IsUnused := by
  induction count generalizing page m with
  | zero => exact ⟨sound, .refl owner m _⟩
  | succ count ih =>
    simp only [MemoryManager.unmapPages]
    have does := (x.unmap_documented m cr3 page).effect
    have later (i : Nat) (bound : i < count) : ¬(m.lookup cr3 3 (page + 1 + i)).IsUnused →
        (m.lookup cr3 3 (page + 1 + i)).flags.user = true := by
      have next : page + 1 + i = page + (i + 1) := by omega
      rw [next]
      exact users (i + 1) (by omega)
    have step : Sound owner (x.unmap m cr3 page).2 ∧
        Spares owner m owner (x.unmap m cr3 page).2 (fun r q => r = cr3 ∧ ¬(m.lookup cr3 3 q).IsUnused) ∧
        ∀ q, (x.unmap m cr3 page).2.lookup cr3 3 q = m.lookup cr3 3 q ∨
        ((x.unmap m cr3 page).2.lookup cr3 3 q).IsUnused := by
      cases does with
      | inl same =>
        rw [same]
        exact ⟨sound, .refl owner m _, fun _ => Or.inl rfl⟩
      | inr unmapped =>
        obtain ⟨t, found, used, same⟩ := unmapped
        have user : (m.lookup cr3 3 page).flags.user = true := users 0 (by omega) used
        obtain ⟨t', found', label, _⟩ := lookup_user sound.1 root user
        obtain rfl := Option.some.inj (found.symm.trans found')
        rw [same]
        refine ⟨⟨(sound.1.setLeaf label (pathTo_length 3 page) (by simp [Entry.unused])).1,
          sound.2.setLeaf (by simp [Entry.unused])⟩,
          (sound.1.spares_setLeaf label found).mono fun r q _ changed => ⟨changed.1, ?_⟩, fun q => ?_⟩
        · rw [lookup_path changed.2]
          exact used
        · rw [lookup_setLeaf sound.1 root label found (Nat.le_refl 3)]
          -- A page that takes the same slots as the one just unmapped is unused now.
          split
          · exact Or.inr rfl
          · exact Or.inl rfl
    obtain ⟨sound₁, spares₁, left⟩ := step
    rcases unmapped : x.unmap m cr3 page with ⟨_ | f, m₁⟩
    all_goals
      rw [unmapped] at sound₁ spares₁ left
    · exact ⟨sound₁, spares₁⟩
    · obtain ⟨sound₂, spares₂⟩ := ih sound₁ fun i bound used => by
        rcases left (page + 1 + i) with same | unused
        · rw [same] at used ⊢
          exact later i bound used
        · exact absurd unused used
      refine ⟨sound₂, (spares₁.trans spares₂).mono fun r q _ changed => ?_⟩
      rcases changed with first | ⟨own, used⟩
      · exact first
      · rcases left q with same | unused
        · exact ⟨own, same ▸ used⟩
        · exact absurd unused used

theorem Translates.leaf {flags : Flags} (owned : Owned owner m) (root : owner cr3 = .table cr3 [])
    (translates : Translates m cr3 page (some (f, flags))) (user : flags.user = true) :
    m.lookup cr3 3 page = ⟨f, flags⟩ := by
  -- What the mapper translates for a user is a leaf for users: huge pages are the kernel's.
  cases translates with
  | small used => rfl
  | @huge depth upper used huge =>
    cases found : m.tableAt cr3 depth page with
    | none => simp [MemoryManager.lookup, found, Entry.IsUnused] at used
    | some t =>
      simp only [MemoryManager.lookup, found] at used huge user
      cases (tableAt_onWay owned root (by omega) found).next owned upper used with
      | inl kernel => simp [kernel.2.1] at user
      | inr small => simp [small.1] at huge

theorem Sound.munmap (x : Mapper) (addr len : Nat) (sound : Sound owner m) (root : owner cr3 = .table cr3 []) :
    Sound owner (m.sysMunmap x cr3 addr len).2 ∧
      Spares owner m owner (m.sysMunmap x cr3 addr len).2 fun r q =>
        r = cr3 ∧ ¬(m.lookup cr3 3 q).IsUnused := by
  unfold MemoryManager.sysMunmap
  split
  · exact ⟨sound, .refl owner m _⟩
  split
  · exact ⟨sound, .refl owner m _⟩
  simp only
  split <;> rename_i users
  · refine sound.unmapPages x root (fun i bound _ => ?_)
    have translates := x.translate_documented m cr3 (addr / 4096 + i)
    obtain ⟨⟨f, flags⟩, translated, user⟩ := (Option.any_eq_true _ _).mp (users i bound)
    rw [translated] at translates
    rw [translates.leaf sound.1 root user]
    exact user
  · exact ⟨sound, .refl owner m _⟩

theorem Sound.resolveCow (sound : Sound owner m) (root : owner cr3 = .table cr3 [])
    (done : m.resolveCow cr3 page = some m') :
    ∃ owner', Sound owner' m' ∧ Spares owner m owner' m' fun r q =>
      r = cr3 ∧ (m.lookup cr3 3 q).flags.user = true := by
  simp only [MemoryManager.resolveCow, Option.bind_eq_some_iff] at done
  obtain ⟨t, found, done⟩ := done
  split at done <;> rename_i cow
  · simp at done
  · simp only [Option.map_eq_some_iff] at done
    obtain ⟨⟨new, m₁⟩, fresh, rfl⟩ := done
    have user : (m.table t (slot 3 page)).flags.user = true := by simp at cow; exact cow.2.1
    have small : (m.table t (slot 3 page)).flags.resolved.huge = false := by simp at cow; exact cow.2.2.2.2
    have label := ((tableAt_onWay sound.1 root (Nat.le_refl 3) found).user sound.1 user).1
    have fresh := expectFrame_some fresh
    obtain ⟨owner', sound', builds, data, unmapped, spares⟩ :=
      sound.takeData (r := cr3) fresh (m₁.byte (m.table t (slot 3 page)).frame)
    have label' : owner' t = .table cr3 (pathTo 3 page) := by rw [builds.grows t (by simp [label]), label]
    have table : (m₁.setPage new (m₁.byte (m.table t (slot 3 page)).frame)).table = m.table := by
      rw [(allocated fresh).1]; rfl
    refine ⟨owner', ⟨(sound'.1.setLeaf (e := ⟨new, _⟩) label' (pathTo_length 3 page)
      (fun _ => ⟨data, small⟩)).1,
      sound'.2.setLeaf (fun _ g j _ at_g same => ?_)⟩,
      (spares.trans (sound'.1.spares_setLeaf label' ((tableAt_table table cr3 3 page).trans found))).mono
        fun r q _ changed =>
        ⟨(changed.resolve_left id).1, ?_⟩⟩
    · exact absurd same (unmapped g j at_g)
    · rw [lookup_path (changed.resolve_left id).2]
      simpa [MemoryManager.lookup, found] using user

/-- A leaf that a fork has recorded: nobody writes its frame. -/
structure Shareable (owner : Frame → Owner) (m : MemoryManager) (leaf : MemoryManager.Leaf) : Prop where
  user : leaf.2.flags.user = true
  reads : leaf.2.flags.writable = false
  data : owner leaf.2.frame = .data ∧ leaf.2.flags.huge = false
  frozen : Frozen owner m leaf.2.frame
  slots : m.PrivateSlot (slot 0 leaf.1)

theorem Shareable.builds {leaf : MemoryManager.Leaf} (shareable : Shareable owner m leaf)
    (owned : Owned owner m)
    (builds : Builds r owner m owner' m') : Shareable owner' m' leaf :=
  ⟨shareable.user, shareable.reads,
    ⟨by rw [builds.grows _ (by simp [shareable.data.1]), shareable.data.1], shareable.data.2⟩,
      shareable.frozen.builds builds, (builds.slots owned _).mpr shareable.slots⟩

/-- What step 1 of a fork keeps, from the state `m` before it. -/
structure Sharing (owner : Frame → Owner) (m : MemoryManager)
    (s : MemoryManager × List MemoryManager.Leaf) : Prop where
  sound : Sound owner s.1
  slots : ∀ i, s.1.PrivateSlot i ↔ m.PrivateSlot i
  leaves : ∀ leaf, leaf ∈ s.2 → Shareable owner s.1 leaf

theorem Sharing.shareLeaf {s : MemoryManager × List MemoryManager.Leaf} (sharing : Sharing owner m s)
    (way : OnWay owner r 3 page t) : Sharing owner m (MemoryManager.shareLeaf s t (slot 3 page) page) := by
  obtain ⟨sound, slots, leaves⟩ := sharing
  simp only [MemoryManager.shareLeaf]
  split <;> rename_i entry
  · exact ⟨sound, slots, leaves⟩
  · have user : (s.1.table t (slot 3 page)).flags.user = true := by simpa using (not_or.mp entry).2
    obtain ⟨label, at_leaf⟩ := way.user sound.1 user
    obtain ⟨data, small⟩ := at_leaf.fits sound.1
    have private_slot : s.1.PrivateSlot (slot 0 page) := sound.1.slots t r (slot 0 page) _ label
    split <;> rename_i writable
    · have reads : (s.1.table t (slot 3 page)).flags.shared.writable = false := rfl
      obtain ⟨owned, _, slots'⟩ := sound.1.setLeaf (i := slot 3 page)
        (e := ⟨(s.1.table t (slot 3 page)).frame, (s.1.table t (slot 3 page)).flags.shared⟩)
        label (pathTo_length 3 page)
        (fun _ => ⟨data, small⟩)
      refine ⟨⟨owned, sound.2.setLeaf (fun _ g j off at_g same => ?_)⟩,
        fun i => (slots' i).trans (slots i), fun leaf member => ?_⟩
      · exact absurd (sound.2 t (slot 3 page) g j at_leaf at_g writable same) off
      · rw [List.mem_append, List.mem_singleton] at member
        cases member with
        | inl old =>
          obtain ⟨user', reads', data', frozen, slot'⟩ := leaves leaf old
          exact ⟨user', reads', data', frozen.setLeaf (fun _ _ => reads), (slots' _).mpr slot'⟩
        | inr new =>
          rw [new]
          refine ⟨user, reads, ⟨data, small⟩, fun g j at_g same => ?_, (slots' _).mpr private_slot⟩
          rw [setEntry_table] at same ⊢
          cases userAt_setEntry at_g with
          | inl here =>
            rw [if_pos ⟨here.1, here.2.1⟩]
            exact reads
          | inr old =>
            rw [if_neg old.1] at same
            exact absurd (sound.2 t (slot 3 page) g j at_leaf old.2 writable same) old.1
    · refine ⟨sound, slots, fun leaf member => ?_⟩
      rw [List.mem_append, List.mem_singleton] at member
      cases member with
      | inl old => exact leaves leaf old
      | inr new =>
        rw [new]
        have reads : (s.1.table t (slot 3 page)).flags.writable = false := by simpa using writable
        refine ⟨user, reads, ⟨data, small⟩, fun g j at_g same => ?_, private_slot⟩
        by_cases other : (s.1.table g j).flags.writable = true
        · have here := sound.2 g j t (slot 3 page) at_g at_leaf other same.symm
          rw [← here.1, ← here.2] at other
          exact absurd other writable
        · simpa using other

theorem Sound.share (sound : Sound owner m) (root : owner cr3 = .table cr3 []) :
    Sharing owner m (MemoryManager.forLeaves Prod.fst MemoryManager.shareLeaf 3 256 cr3 0 (m, [])) :=
  forLeaves_keeps (fun _ sharing => sharing.sound.1) (fun _ _ _ sharing way => sharing.shareLeaf way)
    (Nat.le_refl 3) (by omega)
    (fun q _ => Or.inl root) ⟨sound, fun _ => Iff.rfl, fun _ member => absurd member List.not_mem_nil⟩

theorem followTable_eq (found : m.tableAt cr3 3 page = some t) : m.followTable cr3 page = t := by
  obtain ⟨l1, found, _, _, third⟩ := tableAt_above found
  obtain ⟨l2, found, _, _, second⟩ := tableAt_above found
  obtain ⟨l3, same, _, _, first⟩ := tableAt_above found
  cases same
  rw [MemoryManager.followTable, first, second, third]

/-- What step 3 of a fork keeps: the recorded leaves stay shareable. -/
structure Replicating (child : Frame) (leaves : List MemoryManager.Leaf) (owner : Frame → Owner)
    (m : MemoryManager) :
    Prop where
  sound : Sound owner m
  child : Private owner m child
  leaves : ∀ leaf, leaf ∈ leaves → Shareable owner m leaf

theorem Replicating.replicateLeaf (x : Mapper) {child : Frame} {leaves : List MemoryManager.Leaf}
    (replicating : Replicating child leaves owner m) {leaf : MemoryManager.Leaf} (member : leaf ∈ leaves) :
    ∃ owner', Replicating child leaves owner' (MemoryManager.replicateLeaf x child m leaf) ∧
      (Spares owner m owner' (MemoryManager.replicateLeaf x child m leaf) fun r q => r = child ∧
        pathTo 4 q = pathTo 4 leaf.1) ∧
      ((m.lookup child 3 leaf.1).IsUnused → (MemoryManager.replicateLeaf x child m leaf).OutOfFrames ∨
        (MemoryManager.replicateLeaf x child m leaf).lookup child 3 leaf.1 = leaf.2) := by
  obtain ⟨sound, private_child, shareables⟩ := replicating
  have shareable := shareables leaf member
  obtain ⟨owner', m₁, builds, own, result⟩ :=
    (x.mapTo_documented m child leaf.1 leaf.2.frame { present := true, user := true }).builds
      sound.1 private_child
      shareable.slots rfl
  have spares := builds.spares sound.1 own
  have sound₁ := sound.builds builds
  have shareables₁ (leaf : MemoryManager.Leaf) (member : leaf ∈ leaves) :=
    (shareables leaf member).builds sound.1 builds
  simp only [MemoryManager.replicateLeaf]
  cases result with
  | inl failed =>
    obtain ⟨error, failed, same, why⟩ := failed
    rcases mapped : x.mapTo m child leaf.1 leaf.2.frame { present := true, user := true } with ⟨result, m₂⟩
    simp only [mapped] at failed same
    subst failed same
    refine ⟨owner', ⟨sound₁, private_child.builds builds, shareables₁⟩,
      spares.mono fun _ _ _ never => never.elim, fun unused => ?_⟩
    rcases why with ⟨_, used⟩ | ⟨_, exhausted⟩
    · rw [own] at used
      exact absurd unused used
    · exact Or.inl exhausted
  | inr mapped =>
    obtain ⟨done, t, label, found, vacant, same⟩ := mapped
    rcases mapped : x.mapTo m child leaf.1 leaf.2.frame { present := true, user := true } with ⟨result, m₂⟩
    simp only [mapped] at done same
    subst done
    have private₁ := private_child.builds builds
    have data₁ := (shareables₁ leaf member).data
    have shared {e : Entry} {m₃ : MemoryManager} (sound : Sound owner' m₃) (privates : Private owner' m₃ child)
        (shareables : ∀ leaf, leaf ∈ leaves → Shareable owner' m₃ leaf) (reads : e.flags.writable = false)
        (small : e.flags.huge = false) (frame : e.frame = leaf.2.frame) :
          Replicating child leaves owner' (m₃.setEntry t (slot 3 leaf.1) e) := by
      obtain ⟨owned, privates', slots⟩ :=
        sound.1.setLeaf (i := slot 3 leaf.1) (e := e) label (pathTo_length 3 leaf.1)
        (fun _ => ⟨by rw [frame]; exact data₁.1, small⟩)
      refine ⟨⟨owned, sound.2.setLeaf (fun _ g j _ at_g same => ⟨reads, ?_⟩)⟩,
        fun i bound => privates' child i (privates i bound),
        fun leaf' member' => ?_⟩
      · exact (shareables leaf member).frozen g j at_g (by rw [same, frame])
      · obtain ⟨user', reads', data', frozen, slot'⟩ := shareables leaf' member'
        exact ⟨user', reads', data', frozen.setLeaf (fun _ _ => reads), (slots _).mpr slot'⟩
    have temp : Replicating child leaves owner' m₂ := by
      rw [same]
      exact shared sound₁ private₁ shareables₁ rfl rfl rfl
    have found₂ : m₂.tableAt child 3 leaf.1 = some t := by
      rw [same, tableAt_setLeaf builds.owned private₁.root label (Nat.le_refl 3), found]
    have spares₂ : Spares owner m owner' m₂ fun r q => r = child ∧ pathTo 4 q = pathTo 4 leaf.1 := by
      rw [same]
      exact (spares.trans (builds.owned.spares_setLeaf label found)).mono fun _ _ _ changed =>
        changed.resolve_left id
    simp only [followTable_eq found₂]
    refine ⟨owner', shared temp.sound temp.child temp.leaves shareable.reads data₁.2 rfl,
      (spares₂.trans (temp.sound.1.spares_setLeaf label found₂)).mono fun _ _ _ changed =>
        changed.elim id id, fun _ => Or.inr ?_⟩
    rw [lookup_setLeaf temp.sound.1 temp.child.root label found₂ (Nat.le_refl 3), if_pos ⟨rfl, rfl⟩]

theorem Replicating.foldl (x : Mapper) {child : Frame} {leaves part : List MemoryManager.Leaf}
    (replicating : Replicating child leaves owner m) (members : part ⊆ leaves)
    (distinct : part.Pairwise fun a b => pathTo 4 a.1 ≠ pathTo 4 b.1) :
    ∃ owner', Replicating child leaves owner' (part.foldl (MemoryManager.replicateLeaf x child) m) ∧
      (Spares owner m owner' (part.foldl (MemoryManager.replicateLeaf x child) m) fun r q =>
        r = child ∧ ∃ leaf ∈ part, pathTo 4 q = pathTo 4 leaf.1) ∧
      ∀ leaf ∈ part, (m.lookup child 3 leaf.1).IsUnused →
        (part.foldl (MemoryManager.replicateLeaf x child) m).OutOfFrames ∨
        (part.foldl (MemoryManager.replicateLeaf x child) m).lookup child 3 leaf.1 = leaf.2 := by
  -- All recorded leaves, which are for different pages.
  induction part generalizing m owner with
  | nil => exact ⟨owner, replicating, .refl owner m _, fun _ member => absurd member List.not_mem_nil⟩
  | cons first rest ih =>
    obtain ⟨others, distinct⟩ := List.pairwise_cons.mp distinct
    obtain ⟨owner₁, replicating₁, spares₁, here⟩ := replicating.replicateLeaf x (members List.mem_cons_self)
    obtain ⟨owner', replicating', spares', there⟩ :=
      ih replicating₁ (fun _ member => members (List.mem_cons_of_mem _ member)) distinct
    refine ⟨owner', replicating', (spares₁.trans spares').mono fun r q _ changed => ?_,
      fun leaf member unused => ?_⟩
    · rcases changed with ⟨own, same⟩ | ⟨own, leaf, member, same⟩
      · exact ⟨own, first, List.mem_cons_self, same⟩
      · exact ⟨own, leaf, List.mem_cons_of_mem _ member, same⟩
    · rcases List.mem_cons.mp member with rfl | later
      · -- The later ones are for other pages.
        rcases here unused with exhausted | copied
        · exact Or.inl (spares'.outOfFrames exhausted)
        · refine Or.inr ?_
          rw [List.foldl_cons, spares'.lookup child leaf.1 replicating₁.child.root, copied]
          rintro ⟨_, other, member, same⟩
          exact others other member same
      · refine there leaf later ?_
        rw [spares₁.lookup child leaf.1 replicating.child.root fun changed => others leaf later changed.2.symm]
        exact unused

structure Forked (owner : Frame → Owner) (m : MemoryManager) (parent : Frame) (owner' : Frame → Owner)
    (m' : MemoryManager)
    (child : Frame) : Prop where
  sound : Sound owner' m'
  fresh : owner child = .free
  space : child ∈ m'.userPageTables
  spares : Spares owner m owner' m' fun r q => r = parent ∧ (m.lookup parent 3 q).flags.user = true
  blank : ∀ q, (m.lookup m.kernelCr3 3 q).IsUnused → (m.lookup parent 3 q).flags.user = false →
    (m'.lookup child 3 q).IsUnused
  copied : ∀ q, q < 256 * 512 ^ 3 → (m.lookup m.kernelCr3 3 q).IsUnused →
    (m.lookup parent 3 q).flags.user = true →
    m'.OutOfFrames ∨ m'.lookup child 3 q = cowed (m.lookup parent 3 q)

theorem Sound.fork (x : Mapper) {child : Frame} (sound : Sound owner m) (root : owner cr3 = .table cr3 [])
    (done : m.cowForkAddressSpace x cr3 = some (child, m')) : ∃ owner', Forked owner m cr3 owner' m' child := by
  have sharing := sound.share root
  have visited := forLeaves_visited sound.1 root
  unfold MemoryManager.cowForkAddressSpace at done
  rcases forked : MemoryManager.forLeaves Prod.fst MemoryManager.shareLeaf 3 256 cr3 0 (m, []) with ⟨m₁, leaves⟩
  rw [forked] at sharing visited
  simp only [forked, Option.map_eq_some_iff, Prod.mk.injEq] at done
  obtain ⟨⟨new, m₂⟩, created, rfl, rfl⟩ := done
  have shared : Spares owner m owner m₁ _ := visited.spares sound.1 root
  obtain ⟨owner₂, builds, private_child, free, view⟩ := createUserMapper_builds sharing.sound.1 created
  have built := builds.spares_new sharing.sound.1 free
  have begun : Replicating new leaves owner₂ m₂ :=
    ⟨sharing.sound.builds builds, private_child,
      fun leaf member => (sharing.leaves leaf member).builds sharing.sound.1 builds⟩
  have distinct : leaves.Pairwise fun a b => pathTo 4 a.1 ≠ pathTo 4 b.1 := by
    refine visited.leaves_sorted.imp_of_mem fun {a b} first second less same => ?_
    have low := ((visited.mem_leaves a).mp first).1
    have low' := ((visited.mem_leaves b).mp second).1
    rw [pathTo_eq] at same
    simp only [Nat.reducePow] at low low' same
    omega
  obtain ⟨owner', replicating, copies, copied⟩ := begun.foldl x (List.Subset.refl leaves) distinct
  -- Before the leaves are replicated the child shows what the kernel shows.
  have before (q : Nat) : m₂.lookup new 3 q = m.lookup m.kernelCr3 3 q := by
    rw [view.lookup, built.lookup_kernel sharing.sound.1, shared.lookup_kernel sound.1]
  have stored : Spares owner' _ owner' ((leaves.foldl (MemoryManager.replicateLeaf x new)
    m₂).storeUserMapper new) fun _ _ => False :=
    Spares.store owner' _ new
  have after (q : Nat) : ((leaves.foldl (MemoryManager.replicateLeaf x new) m₂).storeUserMapper
    new).lookup new 3 q =
      (leaves.foldl (MemoryManager.replicateLeaf x new) m₂).lookup new 3 q :=
        stored.lookup new q replicating.child.root id
  refine ⟨owner', replicating.sound.store replicating.child, free, ?_, ?_, fun q vacant kernel => ?_,
    fun q bound vacant user => ?_⟩
  · simp [MemoryManager.storeUserMapper]
  · refine (((shared.trans built).trans copies).trans stored).mono fun r q own changed => ?_
    rcases changed with ((parent | never) | child) | never
    · exact parent
    · exact never.elim
    · rw [child.1, free] at own
      cases own
    · exact never.elim
  · rw [after, copies.lookup new q private_child.root, before]
    · exact vacant
    · rintro ⟨_, leaf, member, same⟩
      have user := ((visited.mem_leaves leaf).mp member).2.1
      rw [← lookup_path same, kernel] at user
      cases user
  · have member : (q, cowed (m.lookup cr3 3 q)) ∈ leaves := (visited.mem_leaves _).mpr ⟨bound, user, rfl⟩
    rw [after]
    exact copied _ member (by rw [before]; exact vacant)

end PickleOS.Memory
