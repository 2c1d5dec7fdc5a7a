import PickleOS.Memory.Isolation
import Mathlib.Algebra.Order.BigOperators.Group.Finset
import Mathlib.Data.Finset.Card
import Mathlib.Data.Finset.Union
import Mathlib.Order.Interval.Finset.Nat

set_option autoImplicit false

/-!
# What it takes to map a region

A page takes a frame, and one more for each table above it that is missing.
-/

namespace PickleOS.Memory

variable {owner owner' : Frame → Owner} {m m' : MemoryManager} {f t r cr3 frame : Frame} {page : Nat}
    {flags : Flags}

def missing (m : MemoryManager) (cr3 : Frame) (depth page : Nat) : Finset (List Nat) :=
  {k ∈ Finset.range depth | m.tableAt cr3 (k + 1) page = none}.image fun k => pathTo (k + 1) page

theorem mem_missing {depth : Nat} {path : List Nat} :
    path ∈ missing m cr3 depth page ↔ ∃ k, k < depth ∧ m.tableAt cr3 (k + 1) page = none ∧
    pathTo (k + 1) page = path := by
  simp only [missing, Finset.mem_image, Finset.mem_filter, Finset.mem_range, and_assoc]

theorem missing_succ (m : MemoryManager) (cr3 : Frame) (depth page : Nat) :
    (missing m cr3 (depth + 1) page).card =
      (missing m cr3 depth page).card + if m.tableAt cr3 (depth + 1) page = none then 1 else 0 := by
  have new : pathTo (depth + 1) page ∉ missing m cr3 depth page := by
    rw [mem_missing]
    rintro ⟨k, shallow, _, same⟩
    have lengths := congrArg List.length same
    rw [pathTo_length, pathTo_length] at lengths
    omega
  split
  next none =>
    rw [← Finset.card_insert_of_notMem new, missing, Finset.range_add_one, Finset.filter_insert,
      if_pos none, Finset.image_insert]
    rfl
  next found => rw [missing, Finset.range_add_one, Finset.filter_insert, if_neg found, Nat.add_zero, missing]

theorem missing_mono (m : MemoryManager) (cr3 : Frame) (page : Nat)
    {depth depth' : Nat} (deeper : depth ≤ depth') :
    (missing m cr3 depth page).card ≤ (missing m cr3 depth' page).card := by
  refine Finset.card_le_card fun path member => ?_
  rw [mem_missing] at member ⊢
  obtain ⟨k, shallow, rest⟩ := member
  exact ⟨k, by omega, rest⟩

theorem framesLeft_exhausted (none : m.allocateFrame = (none, m')) : m.framesLeft = 0 := by
  have beyond := List.getElem?_eq_none_iff.mp (congrArg Prod.fst none)
  rw [MemoryManager.framesLeft]
  omega

theorem lookup_found (found : m.tableAt cr3 3 page = some t) :
    m.lookup cr3 3 page = m.table t (slot 3 page) := by
  simp only [MemoryManager.lookup, found]

theorem Descent.counts {depth : Nat} (owned : Owned owner m) (private_root : Private owner m cr3)
    (slots : m.PrivateSlot (slot 0 page)) (present : flags.present = true) (small : flags.huge = false)
    (upper : depth ≤ 3)
    (down : Descent m cr3 page flags depth m' t) :
    m'.framesLeft + (missing m cr3 depth page).card = m.framesLeft ∧ m'.byte = m.byte := by
  induction down with
  | root => exact ⟨rfl, rfl⟩
  | @next depth m₁ m₂ t t' above step ih =>
    obtain ⟨count, bytes⟩ := ih (by omega)
    obtain ⟨_, _, _, found, deepened⟩ := above.builds owned private_root slots present small (by omega)
    have entry : m.lookup cr3 depth page = m₁.table t (slot depth page) := by
      rw [← deepened.rest depth page (by omega) (by omega)]
      simp only [MemoryManager.lookup, found]
    rw [missing_succ, tableAt_succ, entry]
    cases step with
    | @created _ m₂ vacant fresh =>
      have taken := framesLeft_allocated fresh
      have same : ((m₂.zeroTable t').setEntry t (slot depth page) ⟨t', flags⟩).framesLeft = m₂.framesLeft := rfl
      rw [if_pos (if_pos (.inl vacant)), same]
      refine ⟨by omega, ?_⟩
      rw [← bytes, (allocated fresh).1]
      rfl
    | existing used small' =>
      rw [if_neg (by simp [used, small']), Nat.add_zero]
      exact ⟨count, bytes⟩

theorem tableAt_small {depth k : Nat} (found : m.tableAt cr3 depth page = some t) (upper : k < depth) :
    (m.lookup cr3 k page).flags.huge = false := by
  by_contra huge
  have none : m.tableAt cr3 (k + 1) page = none := by
    rw [tableAt_succ, if_pos (.inr (by simpa using huge))]
  rw [tableAt_none none upper] at found
  cases found

theorem Deepened.tableAt {depth k q : Nat} (deepened : Deepened cr3 page flags depth m m')
    (present : flags.present = true)
    (found : m'.tableAt cr3 depth page = some t) (bound : k < 3) : m'.tableAt cr3 (k + 1) q = none ↔
      m.tableAt cr3 (k + 1) q = none ∧ ¬(k < depth ∧ pathTo (k + 1) q = pathTo (k + 1) page) := by
  by_cases way : k < depth ∧ pathTo (k + 1) q = pathTo (k + 1) page
  · have grown := deepened.upper k q way.1 way.2
    have used : ¬(m'.lookup cr3 k q).IsUnused := fun unused => by
      simp [Entry.unused_flags unused, Flags.union, present] at grown
    have small : (m'.lookup cr3 k q).flags.huge = false := by
      rw [lookup_path way.2]
      exact tableAt_small found way.1
    simp [tableAt_succ, used, small, way]
  · simp [tableAt_succ, deepened.rest k q (by omega) way, way]

/-- A page has been mapped. -/
structure Placed (m : MemoryManager) (cr3 : Frame) (page : Nat) (frame : Frame) (flags : Flags)
    (m' : MemoryManager) : Prop where
  framesLeft : m'.framesLeft + (missing m cr3 3 page).card = m.framesLeft
  bytes : m'.byte = m.byte
  tables : ∀ k q, k < 3 → (m'.tableAt cr3 (k + 1) q = none ↔
    m.tableAt cr3 (k + 1) q = none ∧ pathTo (k + 1) q ≠ pathTo (k + 1) page)
  upper : ∀ k q, k < 3 → (m'.lookup cr3 k q).flags =
    if pathTo (k + 1) q = pathTo (k + 1) page then (m.lookup cr3 k q).flags.union flags.parent else
      (m.lookup cr3 k q).flags
  small : ∀ k, k < 3 → (m.lookup cr3 k page).flags.huge = false
  leaf : ∀ q, m'.lookup cr3 3 q = if pathTo 4 q = pathTo 4 page then ⟨frame, flags⟩ else m.lookup cr3 3 q

theorem MapsTo.ok_iff {result : Except MapToError Unit} (owned : Owned owner m)
    (private_root : Private owner m cr3)
    (slots : m.PrivateSlot (slot 0 page)) (present : flags.present = true)
    (maps : MapsTo m cr3 page frame flags result m') :
    (result = .ok () ↔ (m.lookup cr3 3 page).IsUnused ∧ (missing m cr3 3 page).card ≤ m.framesLeft) ∧
      (result = .ok () → Placed m cr3 page frame flags m') := by
  have parent_present : flags.parent.present = true := present
  have parent_small : flags.parent.huge = false := rfl
  have descends {depth : Nat} {m₁ : MemoryManager} {t : Frame} (upper : depth ≤ 3)
      (down : Descent m cr3 page flags.parent depth m₁ t) :=
    down.builds owned private_root slots parent_present parent_small upper
  have counts {depth : Nat} {m₁ : MemoryManager} {t : Frame} (upper : depth ≤ 3)
      (down : Descent m cr3 page flags.parent depth m₁ t) :=
    down.counts owned private_root slots parent_present parent_small upper
  cases maps with
  | @mapped m₁ t down vacant =>
    obtain ⟨owner', builds, label, found, deepened⟩ := descends (Nat.le_refl 3) down
    obtain ⟨count, bytes⟩ := counts (Nat.le_refl 3) down
    have root := (private_root.builds builds).root
    have view (k q : Nat) (bound : k ≤ 3) :=
      lookup_setLeaf (e := ⟨frame, flags⟩) (k := k) (q := q) builds.owned root label found bound
    refine ⟨iff_of_true rfl ⟨?_, by omega⟩, fun _ =>
      ⟨count, bytes, fun k q bound => ?_, fun k q bound => ?_, fun k bound => ?_, fun q => ?_⟩⟩
    · rw [← deepened.leaf (Nat.le_refl 3) page, lookup_found found]
      exact vacant
    · rw [tableAt_setLeaf builds.owned root label (by omega), deepened.tableAt present found bound]
      simp [bound]
    · rw [view k q (by omega), if_neg (by omega)]
      split
      next way => exact deepened.upper k q bound way
      next way => rw [deepened.rest k q (by omega) fun both => way both.2]
    · have grown := congrArg Flags.huge (deepened.upper k page bound rfl)
      rw [tableAt_small found bound] at grown
      simpa [Flags.union, Flags.parent] using grown.symm
    · rw [view 3 q (Nat.le_refl 3), deepened.leaf (Nat.le_refl 3) q]
      simp only [true_and]
  | alreadyMapped down used =>
    obtain ⟨_, _, _, found, deepened⟩ := descends (Nat.le_refl 3) down
    refine ⟨iff_of_false (by simp) fun both => used ?_, fun mapped => by cases mapped⟩
    rw [← lookup_found found, deepened.leaf (Nat.le_refl 3)]
    exact both.1
  | @hugeParent m₁ _ t depth upper down used huge after =>
    obtain ⟨owner', builds, label, _⟩ := descends (Nat.le_of_lt upper) down
    have fits := (builds.owned.entries t (slot depth page) (slot_lt _ _)).resolve_left used
    rw [label] at fits
    simp only [pathTo_length, upper, if_true] at fits
    rw [fits.2.1] at huge
    cases huge
  | @noFrame m₁ _ t depth upper down vacant exhausted =>
    obtain ⟨_, _, _, found, deepened⟩ := descends (Nat.le_of_lt upper) down
    obtain ⟨count, _⟩ := counts (Nat.le_of_lt upper) down
    refine ⟨iff_of_false (by simp) fun both => ?_, fun mapped => by cases mapped⟩
    have unused : (m.lookup cr3 depth page).IsUnused := by
      rw [← deepened.rest depth page (by omega) (by omega)]
      simpa only [MemoryManager.lookup, found] using vacant
    have none : m.tableAt cr3 (depth + 1) page = none := by rw [tableAt_succ, if_pos (.inl unused)]
    have more := missing_mono m cr3 page (show depth + 1 ≤ 3 from upper)
    rw [missing_succ, if_pos none] at more
    rw [framesLeft_exhausted exhausted] at count
    omega

theorem walk_small {right : Flags → Bool} {levels : Nat} (upper : levels ≤ 3)
    (found : m.tableAt cr3 (3 - levels) page = some t)
    (small : ∀ k, k < 3 → (m.lookup cr3 k page).flags.present = true ∧
      (m.lookup cr3 k page).flags.huge = false) :
    m.walk right page levels t = some f ↔ (∀ k, 3 - levels ≤ k → k ≤ 3 →
      right (m.lookup cr3 k page).flags = true) ∧
      (m.lookup cr3 3 page).flags.present = true ∧ (m.lookup cr3 3 page).frame = f := by
  induction levels generalizing t with
  | zero =>
    have last (k : Nat) (low : 3 - 0 ≤ k) (high : k ≤ 3) : k = 3 := by omega
    rw [MemoryManager.walk, lookup_found found]
    constructor
    · intro reached
      split at reached
      next allowed =>
        rw [Bool.and_eq_true] at allowed
        refine ⟨fun k low high => ?_, allowed.1, Option.some.inj reached⟩
        rw [last k low high, lookup_found found]
        exact allowed.2
      next => cases reached
    · rintro ⟨allowed, present, rfl⟩
      have right_here := allowed 3 (Nat.le_refl 3) (Nat.le_refl 3)
      rw [lookup_found found] at right_here
      simp [present, right_here]
  | succ levels ih =>
    have depth : 3 - (levels + 1) = 2 - levels := by omega
    have way := small (2 - levels) (by omega)
    rw [depth] at found
    simp only [MemoryManager.lookup, found] at way
    have used : ¬(m.table t (slot (2 - levels) page)).IsUnused := fun unused => by
      simp [Entry.unused_flags unused] at way
    have next : m.tableAt cr3 (3 - levels) page = some (m.table t (slot (2 - levels) page)).frame := by
      rw [show 3 - levels = 2 - levels + 1 by omega, tableAt_next found, if_neg (by simp [used, way.2])]
    have here : (m.lookup cr3 (2 - levels) page).flags = (m.table t (slot (2 - levels) page)).flags := by
      simp only [MemoryManager.lookup, found]
    simp only [MemoryManager.walk, way.1, way.2, Bool.true_and, Bool.false_eq_true, if_false]
    split
    next allowed =>
      rw [ih (by omega) next, depth]
      refine and_congr_left fun _ => ⟨fun below k low high => ?_, fun all k low high => all k (by omega) high⟩
      by_cases first : k = 2 - levels
      · rwa [first, here]
      · exact below k (by omega) high
    next refused =>
      refine iff_of_false (by simp) fun all => refused ?_
      rw [← here]
      exact all.1 (2 - levels) (by omega) (by omega)

theorem access_small {right : Flags → Bool}
    (small : ∀ k, k < 3 → (m.lookup cr3 k page).flags.present = true ∧
      (m.lookup cr3 k page).flags.huge = false) :
    m.access right cr3 page = some f ↔ (∀ k, k ≤ 3 → right (m.lookup cr3 k page).flags = true) ∧
      (m.lookup cr3 3 page).flags.present = true ∧ (m.lookup cr3 3 page).frame = f := by
  rw [MemoryManager.access, walk_small (Nat.le_refl 3) rfl small]
  simp

/-- The entry leads on, for a user who writes as well. -/
def Flags.Open (flags : Flags) : Prop :=
  flags.present = true ∧ flags.writable = true ∧ flags.user = true ∧ flags.huge = false

/-- A page that a user may write, in a frame of zeros. -/
structure Holds (m : MemoryManager) (cr3 : Frame) (page : Nat) (frame : Frame) (flags : Flags) : Prop where
  leaf : m.lookup cr3 3 page = ⟨frame, flags⟩
  zero : m.byte frame = fun _ => 0
  way : ∀ k, k < 3 → (m.lookup cr3 k page).flags.Open

def userRw : Flags := { present := true, user := true, writable := true }

namespace Holds

theorem access (holds : Holds m cr3 page frame userRw) : m.access userWrite cr3 page = some frame := by
  refine (access_small fun k bound => ⟨(holds.way k bound).1, (holds.way k bound).2.2.2⟩).mpr
    ⟨fun k upper => ?_, ?_, ?_⟩
  · by_cases last : k = 3
    · rw [last, holds.leaf]
      rfl
    · obtain ⟨_, writable, user, _⟩ := holds.way k (by omega)
      simp [userWrite, writable, user]
  all_goals rw [holds.leaf]
  rfl

theorem of_placed (placed : Placed m cr3 page frame userRw m') (zero : m.byte frame = fun _ => 0) :
    Holds m' cr3 page frame userRw where
  leaf := by rw [placed.leaf, if_pos rfl]
  zero := by rw [placed.bytes, zero]
  way k bound := by
    simp [placed.upper k page bound, Flags.Open, Flags.union, Flags.parent, userRw, placed.small k bound]

theorem placed {q : Nat} {f : Frame} (holds : Holds m cr3 q f userRw)
    (placed : Placed m cr3 page frame userRw m')
    (other : pathTo 4 q ≠ pathTo 4 page) : Holds m' cr3 q f userRw where
  leaf := by rw [placed.leaf, if_neg other, holds.leaf]
  zero := by rw [placed.bytes, holds.zero]
  way k bound := by
    obtain ⟨present, writable, user, small⟩ := holds.way k bound
    rw [placed.upper k q bound]
    split
    next => simp [Flags.Open, Flags.union, Flags.parent, userRw, small]
    next => exact ⟨present, writable, user, small⟩

theorem takeData {q : Nat} {f g : Frame} (holds : Holds m cr3 q f userRw) (owned : Owned owner m)
    (busy : owner f ≠ .free)
    (fresh : m.allocateFrame = (some g, m')) (contents : Nat → UInt8) :
      Holds (m'.setPage g contents) cr3 q f userRw where
  leaf := by
    rw [lookup_table (m := m) (by rw [(allocated fresh).1]; rfl), holds.leaf]
  zero := by
    have other : f ≠ g := fun same => busy (same ▸ owned.free_frame fresh)
    exact (Function.update_of_ne other ..).trans
      ((congrFun (congrArg MemoryManager.byte (allocated fresh).1) f).trans holds.zero)
  way k bound := by
    rw [lookup_table (m := m) (by rw [(allocated fresh).1]; rfl)]
    exact holds.way k bound

end Holds

theorem missing_table (same : m'.table = m.table) (cr3 : Frame) (depth page : Nat) :
    missing m' cr3 depth page = missing m cr3 depth page := by
  simp only [missing, tableAt_table same]

/-- What becomes of the next page of a region, for which there is a frame. -/
structure Advances (owner : Frame → Owner) (m : MemoryManager) (cr3 : Frame) (page : Nat) (f : Frame)
    (result : Except MapToError Unit) (owner' : Frame → Owner) (m' : MemoryManager) : Prop where
  sound : Sound owner' m'
  root : Private owner' m' cr3
  spares : Spares owner m owner' m' fun r q => r = cr3 ∧ pathTo 4 q = pathTo 4 page
  busy : owner' f = .data
  fits : result = .ok () ↔ (m.lookup cr3 3 page).IsUnused ∧ (missing m cr3 3 page).card + 1 ≤ m.framesLeft
  placed : result = .ok () → ∃ m₁, m₁.table = m.table ∧ m₁.framesLeft + 1 = m.framesLeft ∧
  m₁.byte f = (fun _ => 0) ∧
    Placed m₁ cr3 page f userRw m' ∧ ∀ q g, owner g ≠ .free → Holds m cr3 q g userRw →
      Holds m₁ cr3 q g userRw

theorem Sound.advances (x : Mapper) (sound : Sound owner m) (private_root : Private owner m cr3)
    (slots : m.PrivateSlot (slot 0 page))
    (fresh : m.allocateFrame = (some f, m')) : ∃ owner', Advances owner m cr3 page f
      (x.mapTo (m'.zeroPage f) cr3 page f userRw).1 owner' (x.mapTo (m'.zeroPage f) cr3 page f userRw).2 := by
  obtain ⟨owner₁, sound₁, builds, data, unmapped, spares₁⟩ := sound.takeData (r := cr3) fresh fun _ => 0
  have root₁ := private_root.builds builds
  have slots₁ := (builds.slots sound.1 (slot 0 page)).mpr slots
  obtain ⟨owner₂, sound₂, root₂, _, spares₂⟩ :=
    sound₁.mapFresh x page userRw root₁ slots₁ rfl rfl data unmapped
  obtain ⟨fits, placed⟩ :=
    (x.mapTo_documented (m'.zeroPage f) cr3 page f userRw).ok_iff sound₁.1 root₁ slots₁ rfl
  have table : (m'.setPage f fun _ => 0).table = m.table := by
    rw [(allocated fresh).1]
    rfl
  have left : m'.framesLeft + 1 = m.framesLeft := framesLeft_allocated fresh
  refine ⟨owner₂, sound₂, root₂, ?_, ?_, ?_, fun done =>
    ⟨_, table, left, ?_, placed done, fun q g busy holds => ?_⟩⟩
  · exact (spares₁.trans spares₂).mono fun _ _ _ changed => changed.resolve_left id
  · rw [spares₂.grows f (by simp [data]), data]
  · rw [fits, lookup_table table, missing_table table]
    have same : (m'.setPage f fun _ => 0).framesLeft = m'.framesLeft := rfl
    exact and_congr_right fun _ => by omega
  · exact Function.update_self ..
  · exact holds.takeData sound.1 busy fresh _

section Loop

variable (x : Mapper) {count : Nat}

theorem mapUserRegion_exhausted (none : m.allocateFrame = (none, m')) :
    (m.mapUserRegion x cr3 true page (count + 1)).1 = false := by
  simp only [MemoryManager.mapUserRegion, none]

theorem mapUserRegion_failed {e : MapToError} (fresh : m.allocateFrame = (some f, m'))
    (failed : (x.mapTo (m'.zeroPage f) cr3 page f userRw).1 = .error e) :
    (m.mapUserRegion x cr3 true page (count + 1)).1 = false := by
  rw [userRw] at failed
  simp only [MemoryManager.mapUserRegion, fresh]
  split
  next => rfl
  next ok =>
    rw [ok] at failed
    cases failed

theorem mapUserRegion_next (fresh : m.allocateFrame = (some f, m'))
    (ok : (x.mapTo (m'.zeroPage f) cr3 page f userRw).1 = .ok ()) :
    m.mapUserRegion x cr3 true page (count + 1) =
      (x.mapTo (m'.zeroPage f) cr3 page f userRw).2.mapUserRegion x cr3 true (page + 1) count := by
  rw [userRw] at ok ⊢
  simp only [MemoryManager.mapUserRegion, fresh]
  split
  next failed =>
    rw [failed] at ok
    cases ok
  next same => rw [same]

theorem mapUserRegion_ok (done : (m.mapUserRegion x cr3 true page (count + 1)).1 = true) :
    ∃ f m', m.allocateFrame = (some f, m') ∧ (x.mapTo (m'.zeroPage f) cr3 page f userRw).1 = .ok () := by
  rcases fresh : m.allocateFrame with ⟨_ | f, m'⟩
  · rw [mapUserRegion_exhausted x fresh] at done
    cases done
  · refine ⟨f, m', rfl, ?_⟩
    cases result : (x.mapTo (m'.zeroPage f) cr3 page f userRw).1 with
    | ok => rfl
    | error e =>
      rw [mapUserRegion_failed x fresh result] at done
      cases done

end Loop

theorem Advances.slots {result : Except MapToError Unit}
    (advances : Advances owner m cr3 page f result owner' m') (owned : Owned owner m)
    {count : Nat} (left : m'.framesLeft + 1 ≤ m.framesLeft)
    (slots : ∀ i, i < count + 1 → i < m.framesLeft → m.PrivateSlot (slot 0 (page + i))) :
    ∀ i, i < count → i < m'.framesLeft → m'.PrivateSlot (slot 0 (page + 1 + i)) := by
  intro i small room
  rw [advances.spares.slots owned, Nat.add_assoc, Nat.add_comm 1 i]
  exact slots (i + 1) (by omega) (by omega)

theorem Advances.left (advances : Advances owner m cr3 page f (.ok ()) owner' m') :
    m'.framesLeft + 1 + (missing m cr3 3 page).card = m.framesLeft := by
  obtain ⟨m₁, table, left, _, placed, _⟩ := advances.placed rfl
  have count := placed.framesLeft
  rw [missing_table table] at count
  omega

theorem mem_fresh (fresh : m.allocateFrame = (some f, m')) :
    f ∈ m.frameAllocator.usableFrames.drop m.frameAllocator.next := by
  have found := congrArg Prod.fst fresh
  exact List.mem_of_getElem? (i := 0) (by rw [List.getElem?_drop, Nat.add_zero]; exact found)

theorem Sound.mapRegion_first (x : Mapper) {count : Nat} (sound : Sound owner m)
    (private_root : Private owner m cr3)
    (slots : ∀ i, i < count + 1 → i < m.framesLeft → m.PrivateSlot (slot 0 (page + i)))
    (done : (m.mapUserRegion x cr3 true page (count + 1)).1 = true) :
    ∃ f owner' m', f ∈ m.frameAllocator.usableFrames.drop m.frameAllocator.next ∧
    Advances owner m cr3 page f (.ok ()) owner' m' ∧
      (∀ i, i < count → i < m'.framesLeft → m'.PrivateSlot (slot 0 (page + 1 + i))) ∧
      m.mapUserRegion x cr3 true page (count + 1) = m'.mapUserRegion x cr3 true (page + 1) count := by
  obtain ⟨f, m₁, fresh, ok⟩ := mapUserRegion_ok x done
  have some := framesLeft_allocated fresh
  have first : m.PrivateSlot (slot 0 page) := slots 0 (by omega) (by omega)
  obtain ⟨owner', advances⟩ := sound.advances x private_root first fresh
  rw [ok] at advances
  have left := advances.left
  exact ⟨f, owner', _, mem_fresh fresh, advances, advances.slots sound.1 (by omega) slots,
    mapUserRegion_next x fresh ok⟩

theorem Sound.mapRegion_holds (x : Mapper) {count q : Nat} {g : Frame} (sound : Sound owner m)
    (private_root : Private owner m cr3)
    (slots : ∀ i, i < count → i < m.framesLeft → m.PrivateSlot (slot 0 (page + i))) (busy : owner g ≠ .free)
    (holds : Holds m cr3 q g userRw) (apart : ∀ i, i < count → pathTo 4 q ≠ pathTo 4 (page + i))
    (done : (m.mapUserRegion x cr3 true page count).1 = true) :
      Holds (m.mapUserRegion x cr3 true page count).2 cr3 q g userRw := by
  induction count generalizing page m owner with
  | zero => exact holds
  | succ count ih =>
    obtain ⟨f, owner₂, m₁, _, advances, slots', rest⟩ := sound.mapRegion_first x private_root slots done
    rw [rest] at done ⊢
    obtain ⟨m₂, _, _, _, placed, keeps⟩ := advances.placed rfl
    refine ih advances.sound advances.root slots' ?_ ?_ (fun i small => ?_) done
    · rwa [advances.spares.grows g busy]
    · exact (keeps q g busy holds).placed placed (apart 0 (by omega))
    · rw [Nat.add_assoc, Nat.add_comm 1 i]
      exact apart (i + 1) (by omega)

def missingAll (m : MemoryManager) (cr3 : Frame) (page count : Nat) : Finset (List Nat) :=
  (Finset.range count).biUnion fun i => missing m cr3 3 (page + i)

theorem mem_missingAll {count : Nat} {path : List Nat} :
    path ∈ missingAll m cr3 page count ↔ ∃ i, i < count ∧ path ∈ missing m cr3 3 (page + i) := by
  simp only [missingAll, Finset.mem_biUnion, Finset.mem_range]

theorem missingAll_le (m : MemoryManager) (cr3 : Frame) (page count : Nat) :
    (missingAll m cr3 page count).card ≤ count * 3 := by
  have each (i : Nat) (_ : i ∈ Finset.range count) : (missing m cr3 3 (page + i)).card ≤ 3 :=
    Finset.card_image_le.trans ((Finset.card_filter_le _ _).trans (Finset.card_range 3).le)
  exact (Finset.card_biUnion_le_card_mul _ _ 3 each).trans (by rw [Finset.card_range])

theorem Placed.mem_missing {q : Nat} {path : List Nat} (placed : Placed m cr3 page frame flags m') :
    path ∈ missing m' cr3 3 q ↔ ∃ k, k < 3 ∧ (m.tableAt cr3 (k + 1) q = none ∧
    pathTo (k + 1) q ≠ pathTo (k + 1) page) ∧
      pathTo (k + 1) q = path := by
  rw [Memory.mem_missing]
  exact exists_congr fun k => and_congr_right fun bound => and_congr_left fun _ => placed.tables k q bound

theorem Placed.missingAll (placed : Placed m cr3 page frame flags m') (count : Nat) :
    (missingAll m cr3 page (count + 1)).card = (missing m cr3 3 page).card +
      (missingAll m' cr3 (page + 1) count).card := by
  have next (i : Nat) : page + 1 + i = page + (i + 1) := by omega
  rw [← Finset.card_union_of_disjoint]
  · congr 1
    ext path
    rw [Finset.mem_union, mem_missingAll, mem_missingAll]
    constructor
    · rintro ⟨i, small, member⟩
      by_cases first : path ∈ missing m cr3 3 page
      · exact .inl first
      · obtain ⟨k, bound, none, rfl⟩ := Memory.mem_missing.mp member
        cases i with
        | zero => exact absurd member first
        | succ i =>
          refine .inr ⟨i, by omega, placed.mem_missing.mpr
            ⟨k, bound, ⟨by rwa [next], fun same => first ?_⟩, by rw [next]⟩⟩
          rw [next] at same
          rw [same]
          exact Memory.mem_missing.mpr ⟨k, bound, by rwa [← tableAt_path same], rfl⟩
    · rintro (first | ⟨i, small, member⟩)
      · exact ⟨0, by omega, first⟩
      · obtain ⟨k, bound, ⟨none, _⟩, rfl⟩ := placed.mem_missing.mp member
        rw [next] at none ⊢
        exact ⟨i + 1, by omega, Memory.mem_missing.mpr ⟨k, bound, none, rfl⟩⟩
  · rw [Finset.disjoint_left]
    intro path first later
    obtain ⟨i, _, member⟩ := mem_missingAll.mp later
    obtain ⟨k, _, ⟨_, off⟩, rfl⟩ := placed.mem_missing.mp member
    obtain ⟨k', _, _, same⟩ := Memory.mem_missing.mp first
    have lengths := congrArg List.length same
    rw [pathTo_length, pathTo_length, Nat.add_right_cancel_iff] at lengths
    subst lengths
    exact off same.symm

theorem missing_le (m : MemoryManager) (cr3 : Frame) (page count : Nat) :
    (missing m cr3 3 page).card ≤ (missingAll m cr3 page (count + 1)).card :=
  Finset.card_le_card fun _ member => mem_missingAll.mpr ⟨0, by omega, member⟩

theorem missingAll_table (same : m'.table = m.table) (cr3 : Frame) (page count : Nat) :
    missingAll m' cr3 page count = missingAll m cr3 page count := by
  simp only [missingAll, missing_table same]

theorem pathTo_apart {count i : Nat} (few : count ≤ 512 ^ 4) (small : i + 1 < count) :
    pathTo 4 page ≠ pathTo 4 (page + 1 + i) := by
  rw [Ne, pathTo_eq]
  omega

theorem Sound.mapRegion_iff (x : Mapper) {count : Nat} (sound : Sound owner m)
    (private_root : Private owner m cr3)
    (few : count ≤ 512 ^ 4) (slots : ∀ i, i < count → i < m.framesLeft → m.PrivateSlot (slot 0 (page + i))) :
    (m.mapUserRegion x cr3 true page count).1 = true ↔
      (∀ i, i < count → (m.lookup cr3 3 (page + i)).IsUnused) ∧
        count + (missingAll m cr3 page count).card ≤ m.framesLeft := by
  induction count generalizing page m owner with
  | zero => simp [MemoryManager.mapUserRegion, missingAll]
  | succ count ih =>
    rcases fresh : m.allocateFrame with ⟨_ | f, m₁⟩
    · rw [mapUserRegion_exhausted x fresh, framesLeft_exhausted fresh]
      exact iff_of_false Bool.false_ne_true fun both => by omega
    · have some := framesLeft_allocated fresh
      have first : m.PrivateSlot (slot 0 page) := slots 0 (by omega) (by omega)
      obtain ⟨owner₂, advances⟩ := sound.advances x private_root first fresh
      have fits := advances.fits
      have least := missing_le m cr3 page count
      cases result : (x.mapTo (m₁.zeroPage f) cr3 page f userRw).1 with
      | error e =>
        rw [mapUserRegion_failed x fresh result]
        rw [result] at fits
        refine iff_of_false Bool.false_ne_true fun both => ?_
        have mapped := fits.mpr ⟨both.1 0 (by omega), by omega⟩
        cases mapped
      | ok =>
        rw [mapUserRegion_next x fresh result]
        rw [result] at advances fits
        have left := advances.left
        obtain ⟨m₂, table, _, _, placed, _⟩ := advances.placed rfl
        have more := placed.missingAll count
        rw [missing_table table, missingAll_table table] at more
        rw [ih advances.sound advances.root (by omega) (advances.slots sound.1 (by omega) slots), more]
        refine and_congr ⟨fun vacant i small => ?_, fun vacant i small => ?_⟩ (by omega)
        · cases i with
          | zero => exact (fits.mp rfl).1
          | succ i =>
            have here := vacant i (by omega)
            rw [advances.spares.lookup cr3 _ private_root.root fun both => pathTo_apart few (by omega)
              both.2.symm] at here
            rwa [Nat.add_comm i 1, ← Nat.add_assoc]
        · rw [advances.spares.lookup cr3 _ private_root.root fun both => pathTo_apart few (by omega)
            both.2.symm, Nat.add_assoc,
            Nat.add_comm 1 i]
          exact vacant (i + 1) (by omega)

theorem Sound.mapRegion_pages (x : Mapper) {count : Nat} (sound : Sound owner m)
    (private_root : Private owner m cr3)
    (few : count ≤ 512 ^ 4) (slots : ∀ i, i < count → i < m.framesLeft → m.PrivateSlot (slot 0 (page + i)))
    (done : (m.mapUserRegion x cr3 true page count).1 = true) {i : Nat} (small : i < count) :
    ∃ f, f ∈ m.frameAllocator.usableFrames.drop m.frameAllocator.next ∧
      Holds (m.mapUserRegion x cr3 true page count).2 cr3 (page + i) f userRw := by
  induction count generalizing page m owner i with
  | zero => exact absurd small (Nat.not_lt_zero i)
  | succ count ih =>
    obtain ⟨f, owner₂, m₁, fresh, advances, slots', rest⟩ := sound.mapRegion_first x private_root slots done
    rw [rest] at done ⊢
    obtain ⟨m₂, _, _, zero, placed, _⟩ := advances.placed rfl
    cases i with
    | zero =>
      refine ⟨f, fresh, ?_⟩
      exact advances.sound.mapRegion_holds x advances.root slots' (by simp [advances.busy])
        (.of_placed placed zero)
        (fun j before => pathTo_apart few (by omega)) done
    | succ i =>
      obtain ⟨g, member, holds⟩ :=
        ih advances.sound advances.root (by omega) slots' done (show i < count by omega)
      refine ⟨g, ?_, by rwa [Nat.add_comm i 1, ← Nat.add_assoc]⟩
      rw [advances.spares.frames] at member
      exact (List.drop_sublist_drop_left _ advances.spares.next).subset member

end PickleOS.Memory
