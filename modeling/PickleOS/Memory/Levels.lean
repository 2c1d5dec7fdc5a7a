import PickleOS.Memory.Regions
import PickleOS.Memory.Programs

set_option autoImplicit false

/-!
# The levels of page tables

Whatever a process maps, also where the kernel has tables of its own, no frame is a table at two depths.
-/

namespace PickleOS.Memory

open Shared.Machine

variable {level level' level'' : Frame → Option Nat} {m m' m'' : MemoryManager} {f t t' cr3 frame : Frame}
    {d i page : Nat}
  {flags : Flags} {e : Entry}

def MemoryManager.Fresh (m : MemoryManager) (f : Frame) : Prop :=
  f ∈ m.frameAllocator.usableFrames.drop m.frameAllocator.next

/-- The depths at which frames are tables. No fresh frame is one. -/
structure Leveled (level : Frame → Option Nat) (m : MemoryManager) : Prop where
  distinct : m.frameAllocator.usableFrames.Nodup
  fresh : ∀ f, m.Fresh f → level f = none
  kernel : level m.kernelCr3 = some 0
  roots : ∀ r, r ∈ m.userPageTables → level r = some 0
  entries : ∀ f d i, i < 512 → level f = some d → d < 3 → ¬(m.table f i).IsUnused →
    (m.table f i).flags.huge = false →
    level (m.table f i).frame = some (d + 1)

/-- Tables stay tables at their depth. -/
def Serves (level level' : Frame → Option Nat) : Prop := ∀ f d, level f = some d → level' f = some d

theorem Serves.refl (level : Frame → Option Nat) : Serves level level := fun _ _ label => label

theorem Serves.trans (first : Serves level level') (second : Serves level' level'') : Serves level level'' :=
  fun f d label => second f d (first f d label)

theorem setPage_byte (m : MemoryManager) (f : Frame) (contents : Nat → UInt8) :
    (m.setPage f contents).byte f = contents :=
  Function.update_self ..

theorem zeroTable_other {g : Frame} (other : g ≠ f) : (m.zeroTable f).table g = m.table g :=
  Function.update_of_ne other ..

theorem fresh_allocated (fresh : m.allocateFrame = (some f, m')) : m.Fresh f := mem_fresh fresh

theorem MemoryManager.Fresh.before {g : Option Frame} (fresh : m'.Fresh f)
    (taken : m.allocateFrame = (g, m')) : m.Fresh f := by
  cases taken
  exact (List.drop_sublist_drop_left _ (Nat.le_succ _)).subset fresh

theorem MemoryManager.Fresh.grows (fresh : m'.Fresh f) (grows : Grows m m') : m.Fresh f := by
  rw [MemoryManager.Fresh, grows.frames] at fresh
  exact (List.drop_sublist_drop_left _ grows.next).subset fresh

namespace Leveled

theorem allocate {f : Option Frame} (leveled : Leveled level m) (taken : m.allocateFrame = (f, m')) :
    Leveled level m' := by
  have before (g : Frame) (fresh : m'.Fresh g) := MemoryManager.Fresh.before fresh taken
  cases taken
  exact ⟨leveled.distinct, fun g fresh => leveled.fresh g (before g fresh), leveled.kernel, leveled.roots,
    leveled.entries⟩

theorem setPage (leveled : Leveled level m) (f : Frame) (contents : Nat → UInt8) :
    Leveled level (m.setPage f contents) :=
  ⟨leveled.distinct, leveled.fresh, leveled.kernel, leveled.roots, leveled.entries⟩

theorem setEntry (leveled : Leveled level m) (label : level t = some d)
    (leads : d < 3 → ¬e.IsUnused → e.flags.huge = false → level e.frame = some (d + 1)) :
      Leveled level (m.setEntry t i e) := by
  refine ⟨leveled.distinct, leveled.fresh, leveled.kernel, leveled.roots,
    fun g d' j bound known upper used small => ?_⟩
  rw [setEntry_table] at used small ⊢
  split at used
  next here =>
    rw [if_pos here] at small ⊢
    obtain rfl : d = d' := Option.some.inj (label.symm.trans (here.1 ▸ known))
    exact leads upper used small
  next off =>
    rw [if_neg off] at small ⊢
    exact leveled.entries g d' j bound known upper used small

theorem other (leveled : Leveled level m) (fresh : m.allocateFrame = (some f, m'))
    (label : level t = some d) : t ≠ f := by
  rintro rfl
  rw [leveled.fresh t (fresh_allocated fresh)] at label
  cases label

theorem take_serves (leveled : Leveled level m) (fresh : m.allocateFrame = (some f, m')) (d : Nat) :
    Serves level (Function.update level f (some d)) := by
  intro g d' label
  rwa [Function.update_of_ne (leveled.other fresh label)]

theorem taken (leveled : Leveled level m) (fresh : m.allocateFrame = (some f, m')) : ¬m'.Fresh f := by
  have distinct := leveled.distinct.sublist (List.drop_sublist m.frameAllocator.next _)
  obtain ⟨rfl, rest⟩ := allocated fresh
  rw [rest] at distinct
  exact (List.nodup_cons.mp distinct).1

theorem take (leveled : Leveled level m) (fresh : m.allocateFrame = (some f, m')) (d : Nat) :
    Leveled (Function.update level f (some d)) (m'.zeroTable f) := by
  have serves := leveled.take_serves fresh d
  have taken := leveled.taken fresh
  obtain ⟨rfl, rest⟩ := allocated fresh
  refine ⟨leveled.distinct, fun g later => ?_, serves _ _ leveled.kernel,
    fun r root => serves _ _ (leveled.roots r root),
    fun g d' j bound label upper used small => ?_⟩
  · have other : g ≠ f := by
      rintro rfl
      exact taken later
    rw [Function.update_of_ne other]
    exact leveled.fresh g (by rw [MemoryManager.Fresh, rest]; exact List.mem_cons_of_mem f later)
  · by_cases new : g = f
    · subst new
      simp [MemoryManager.zeroTable] at used
      exact absurd rfl used
    · simp only [MemoryManager.zeroTable, Function.update_of_ne new] at label used small ⊢
      exact serves _ _ (leveled.entries g d' j bound label upper used small)

theorem store (leveled : Leveled level m) (root : level cr3 = some 0) :
    Leveled level (m.storeUserMapper cr3) := by
  refine ⟨leveled.distinct, leveled.fresh, leveled.kernel, fun r member => ?_, leveled.entries⟩
  cases List.mem_append.mp member with
  | inl before => exact leveled.roots r before
  | inr new => rwa [List.mem_singleton.mp new]

theorem tableAt (leveled : Leveled level m) (root : level cr3 = some 0) {depth : Nat} (upper : depth ≤ 3)
    (found : m.tableAt cr3 depth page = some t) : level t = some depth := by
  induction depth generalizing t with
  | zero =>
    cases found
    exact root
  | succ depth ih =>
    obtain ⟨t', above, used, small, rfl⟩ := tableAt_above found
    exact leveled.entries t' depth _ (slot_lt _ _) (ih (by omega) above) (by omega) used small

end Leveled

def Owner.depth : Owner → Option Nat
  | .table _ path => some path.length
  | .kernel depth _ => some depth
  | .free | .data => none

theorem Owned.leveled {owner : Frame → Owner} (owned : Owned owner m) :
    Leveled (fun f => (owner f).depth) m := by
  refine ⟨owned.distinct, fun f fresh => by rw [owned.fresh f fresh]; rfl, by rw [owned.kernel]; rfl,
    fun r member => by rw [(owned.roots r member).root]; rfl, fun f d i bound label upper used small => ?_⟩
  have fits := (owned.entries f i bound).resolve_left used
  cases known : owner f with
  | free | data => simp [known, Owner.depth] at label
  | table r path =>
    simp only [known, Owner.depth, Option.some.injEq] at label
    subst label
    simp only [known, upper, if_true] at fits
    rcases fits.2.2 with own | ⟨rfl, shared⟩
    · simp [own, Owner.depth]
    · simp [shared, Owner.depth]
  | kernel depth low =>
    simp only [known, Owner.depth, Option.some.injEq] at label
    subst label
    simp only [known, upper, if_true, small] at fits
    rcases fits.2 with huge | plain
    · cases huge.1
    · simp [plain.2, Owner.depth]

/-- What a mapper does to memory: it fills vacant entries, takes fresh frames, and adds rights above the
pages. -/
structure Deepens (level : Frame → Option Nat) (m : MemoryManager) (level' : Frame → Option Nat)
    (m' : MemoryManager) : Prop where
  leveled : Leveled level' m'
  serves : Serves level level'
  grows : Grows m m'
  leaf : ∀ f i, level f = some 3 → ¬(m.table f i).IsUnused → m'.table f i = m.table f i
  upper : ∀ f d i, level f = some d → d < 3 → ¬(m.table f i).IsUnused →
    ∃ more : Flags, more.huge = false ∧ m'.table f i = ⟨(m.table f i).frame, (m.table f i).flags.union more⟩
  bytes : ∀ f, ¬m.Fresh f → m'.byte f = m.byte f

theorem Flags.union_empty (flags : Flags) : flags.union {} = flags := by simp [Flags.union]

theorem Flags.union_union (a b c : Flags) : (a.union b).union c = a.union (b.union c) :=
  by simp [Flags.union, Bool.or_assoc]

theorem Entry.union_used {more : Flags} (used : ¬e.IsUnused) :
    ¬Entry.IsUnused ⟨e.frame, e.flags.union more⟩ := by
  intro unused
  apply used
  obtain ⟨frame, present, writable, user, huge, cow, noExecute⟩ := e
  simp only [Entry.IsUnused, Entry.unused, Flags.union, Entry.mk.injEq, Flags.mk.injEq,
    Bool.or_eq_false_iff] at unused ⊢
  simp [unused]

namespace Deepens

theorem refl (leveled : Leveled level m) : Deepens level m level m :=
  ⟨leveled, .refl level, .refl m, fun _ _ _ _ => rfl,
    fun _ _ _ _ _ _ => ⟨{}, rfl, by rw [Flags.union_empty]⟩, fun _ _ => rfl⟩

theorem trans (first : Deepens level m level' m') (second : Deepens level' m' level'' m'') :
    Deepens level m level'' m'' where
  leveled := second.leveled
  serves := first.serves.trans second.serves
  grows := first.grows.trans second.grows
  leaf f i label used := by
    have same := first.leaf f i label used
    rw [second.leaf f i (first.serves f 3 label) (by rwa [same]), same]
  upper f d i label upper used := by
    obtain ⟨more, small, entry⟩ := first.upper f d i label upper used
    obtain ⟨more', small', entry'⟩ :=
      second.upper f d i (first.serves f d label) upper (by rw [entry]; exact Entry.union_used used)
    refine ⟨more.union more', by simp [Flags.union, small, small'], ?_⟩
    rw [entry', entry, Flags.union_union]
  bytes f old := (second.bytes f fun later => old (later.grows first.grows)).trans (first.bytes f old)

theorem allocate {f : Option Frame} (leveled : Leveled level m) (taken : m.allocateFrame = (f, m')) :
    Deepens level m level m' := by
  have after := leveled.allocate taken
  have grows := Grows.allocateFrame taken
  cases taken
  exact ⟨after, .refl level, grows, fun _ _ _ _ => rfl,
    fun _ _ _ _ _ _ => ⟨{}, rfl, by rw [Flags.union_empty]⟩, fun _ _ => rfl⟩

theorem setEntry (leveled : Leveled level m) (label : level t = some d)
    (leads : d < 3 → ¬e.IsUnused → e.flags.huge = false → level e.frame = some (d + 1))
    (kept : ¬(m.table t i).IsUnused → d < 3 ∧ ∃ more : Flags, more.huge = false ∧
      e = ⟨(m.table t i).frame, (m.table t i).flags.union more⟩) :
        Deepens level m level (m.setEntry t i e) where
  leveled := leveled.setEntry label leads
  serves := .refl level
  grows := .setEntry m t i e
  leaf f j lowest used := by
    rw [setEntry_table, if_neg]
    rintro ⟨rfl, rfl⟩
    have above := (kept used).1
    rw [label] at lowest
    cases lowest
    omega
  upper f d' j known upper used := by
    rw [setEntry_table]
    split
    next here =>
      obtain ⟨rfl, rfl⟩ := here
      exact (kept used).2
    next => exact ⟨{}, rfl, by rw [Flags.union_empty]⟩
  bytes _ _ := rfl

theorem take (leveled : Leveled level m) (fresh : m.allocateFrame = (some f, m')) (d : Nat) :
    Deepens level m (Function.update level f (some d)) (m'.zeroTable f) := by
  have table : m'.table = m.table := by rw [(allocated fresh).1]
  have same (g : Frame) (d' i : Nat) (label : level g = some d') :
    (m'.zeroTable f).table g i = m.table g i := by
    rw [zeroTable_other (leveled.other fresh label), table]
  refine ⟨leveled.take fresh d, leveled.take_serves fresh d,
    (Grows.allocateFrame fresh).trans (.zeroTable m' f),
    fun g i label _ => same g 3 i label, fun g d' i label _ _ => ⟨{}, rfl, ?_⟩, fun g _ => ?_⟩
  · rw [same g d' i label, Flags.union_empty]
  · rw [(allocated fresh).1]
    rfl

theorem setPage (deepens : Deepens level m level' m') (fresh : m.Fresh f) (contents : Nat → UInt8) :
    Deepens level m level' (m'.setPage f contents) where
  leveled := deepens.leveled.setPage f contents
  serves := deepens.serves
  grows := deepens.grows.trans (.setPage m' f contents)
  leaf := deepens.leaf
  upper := deepens.upper
  bytes g old := by
    have other : g ≠ f := fun same => old (same ▸ fresh)
    exact (Function.update_of_ne other ..).trans (deepens.bytes g old)

theorem descends (leveled : Leveled level m) (label : level t = some d) (upper : d < 3) (bound : i < 512)
    (small : flags.huge = false) (next : Descends m t i flags m' t') :
    ∃ level', Deepens level m level' m' ∧ level' t' = some (d + 1) ∧
      m'.table t i = ⟨t', (m.table t i).flags.union flags⟩ ∧ (m.table t i).flags.huge = false := by
  cases next with
  | @created _ m₁ vacant fresh =>
    have taken : Function.update level t' (some (d + 1)) t' = some (d + 1) := Function.update_self ..
    have first := take leveled fresh (d + 1)
    have unused : ((m₁.zeroTable t').table t i).IsUnused := by
      rw [zeroTable_other (leveled.other fresh label), (allocated fresh).1]
      exact vacant
    have second := setEntry (e := ⟨t', flags⟩) first.leveled (first.serves t d label) (fun _ _ _ => taken)
      (fun used => absurd unused used)
    refine ⟨_, first.trans second, taken, ?_, by simp [Entry.unused_flags vacant]⟩
    simp [setEntry_table, Entry.unused_flags vacant, Flags.empty_union]
  | existing used small' =>
    have leads := leveled.entries t d i bound label upper used small'
    refine ⟨level, setEntry leveled label (fun _ _ _ => leads) fun _ => ⟨upper, flags, small, rfl⟩, leads,
      ?_, small'⟩
    simp [setEntry_table]

end Deepens

/-- The entries above a page let the user through. -/
structure Open (m : MemoryManager) (cr3 : Frame) (page k : Nat) : Prop where
  present : (m.lookup cr3 k page).flags.present = true
  user : (m.lookup cr3 k page).flags.user = true
  small : (m.lookup cr3 k page).flags.huge = false

/-- The entry of a page, to which a user gets if it is one of his. -/
structure Mapped (m : MemoryManager) (cr3 : Frame) (page : Nat) (e : Entry) : Prop where
  leaf : m.lookup cr3 3 page = e
  way : ∀ k, k < 3 → Open m cr3 page k

theorem Leveled.lookup_used {k : Nat} (leveled : Leveled level m) (root : level cr3 = some 0) (upper : k ≤ 3)
    (used : ¬(m.lookup cr3 k page).IsUnused) :
    ∃ t, m.tableAt cr3 k page = some t ∧ level t = some k ∧ m.lookup cr3 k page = m.table t (slot k page) := by
  unfold MemoryManager.lookup at used ⊢
  cases found : m.tableAt cr3 k page with
  | none => exact absurd (by simp [found, Entry.IsUnused]) used
  | some t => exact ⟨t, rfl, leveled.tableAt root upper found, rfl⟩

theorem tableAt_open {k : Nat} (found : m.tableAt cr3 k page = some t) (open_here : Open m cr3 page k) :
    m.tableAt cr3 (k + 1) page = some (m.table t (slot k page)).frame := by
  have present := open_here.present
  have small := open_here.small
  simp only [MemoryManager.lookup, found] at present small
  have used : ¬(m.table t (slot k page)).IsUnused :=
    fun unused => by simp [Entry.unused_flags unused] at present
  rw [tableAt_next found, if_neg (by simp [used, small])]

theorem Deepens.tableAt {depth : Nat} (deepens : Deepens level m level' m') (leveled : Leveled level m)
    (root : level cr3 = some 0)
    (upper : depth ≤ 3) (found : m.tableAt cr3 depth page = some t) : m'.tableAt cr3 depth page = some t := by
  induction depth generalizing t with
  | zero => exact found
  | succ depth ih =>
    obtain ⟨t', above, used, small, rfl⟩ := tableAt_above found
    obtain ⟨more, modest, kept⟩ :=
      deepens.upper t' depth _ (leveled.tableAt root (by omega) above) (by omega) used
    rw [tableAt_next (ih (by omega) above), kept, if_neg]
    rintro (unused | huge)
    · exact Entry.union_used used unused
    · simp [Flags.union, small, modest] at huge

theorem Open.kept {k : Nat} (open_here : Open m cr3 page k) (leveled : Leveled level m)
    (root : level cr3 = some 0)
    (deepens : Deepens level m level' m') (upper : k < 3) : Open m' cr3 page k := by
  have used : ¬(m.lookup cr3 k page).IsUnused := fun unused => by
    have present := open_here.present
    simp [Entry.unused_flags unused] at present
  obtain ⟨t, found, label, entry⟩ := leveled.lookup_used root (by omega) used
  obtain ⟨more, small, kept⟩ := deepens.upper t k (slot k page) label upper (by rwa [← entry])
  have after : m'.lookup cr3 k page = ⟨(m.lookup cr3 k page).frame,
    (m.lookup cr3 k page).flags.union more⟩ := by
    simp only [MemoryManager.lookup, deepens.tableAt leveled root (by omega) found, kept, found]
  constructor <;> simp [after, Flags.union, open_here.present, open_here.user, open_here.small, small]

theorem Mapped.kept (mapped : Mapped m cr3 page e) (used : ¬e.IsUnused) (leveled : Leveled level m)
    (root : level cr3 = some 0)
    (deepens : Deepens level m level' m') : Mapped m' cr3 page e where
  leaf := by
    obtain ⟨t, found, label, entry⟩ := leveled.lookup_used root (Nat.le_refl 3) (by rwa [mapped.leaf])
    rw [lookup_found (deepens.tableAt leveled root (Nat.le_refl 3) found),
      deepens.leaf t _ label (by rwa [← entry, mapped.leaf]),
      ← entry, mapped.leaf]
  way k upper := (mapped.way k upper).kept leveled root deepens upper

theorem Descent.deepens {depth : Nat} (down : Descent m cr3 page flags depth m' t) (leveled : Leveled level m)
    (root : level cr3 = some 0) (small : flags.huge = false) (upper : depth ≤ 3) :
    ∃ level', Deepens level m level' m' ∧ level' t = some depth ∧
      (flags.present = true → flags.user = true → m'.tableAt cr3 depth page = some t ∧ ∀ k, k < depth →
        Open m' cr3 page k) := by
  induction down with
  | root =>
    exact ⟨level, .refl leveled, root, fun _ _ => ⟨rfl, fun _ lower => absurd lower (Nat.not_lt_zero _)⟩⟩
  | @next depth m₁ m₂ t t' above step ih =>
    obtain ⟨level₁, first, label, way⟩ := ih (by omega)
    have root₁ := first.serves _ _ root
    obtain ⟨level₂, second, label', entry, small'⟩ :=
      Deepens.descends first.leveled label (by omega) (slot_lt _ _) small step
    refine ⟨level₂, first.trans second, label', fun present user => ?_⟩
    obtain ⟨found, opened⟩ := way present user
    have kept := second.tableAt first.leveled root₁ (by omega) found
    have here : Open m₂ cr3 page depth := by
      constructor <;> simp [MemoryManager.lookup, kept, entry, Flags.union, present, user, small, small']
    refine ⟨by rw [tableAt_open kept here, entry], fun k lower => ?_⟩
    by_cases last : k = depth
    · rwa [last]
    · exact (opened k (by omega)).kept first.leveled root₁ second (by omega)

theorem MapsTo.deepens {result : Except MapToError Unit} (maps : MapsTo m cr3 page frame flags result m')
    (leveled : Leveled level m)
    (root : level cr3 = some 0) : ∃ level', Deepens level m level' m' ∧
      (result = .ok () → flags.present = true → flags.user = true → Mapped m' cr3 page ⟨frame, flags⟩) := by
  have descends {depth : Nat} {m₁ : MemoryManager} {t : Frame} (upper : depth ≤ 3)
      (down : Descent m cr3 page flags.parent depth m₁ t) := down.deepens leveled root rfl upper
  cases maps with
  | @mapped m₁ t down vacant =>
    obtain ⟨level₁, deepens, label, way⟩ := descends (Nat.le_refl 3) down
    have last := Deepens.setEntry (e := ⟨frame, flags⟩)
      deepens.leveled label (fun lower => absurd lower (Nat.lt_irrefl 3))
      (fun used => absurd vacant used)
    refine ⟨level₁, deepens.trans last, fun _ present user => ?_⟩
    obtain ⟨found, opened⟩ := way present user
    have root₁ := deepens.serves _ _ root
    refine ⟨?_, fun k upper => (opened k upper).kept deepens.leveled root₁ last upper⟩
    rw [lookup_found (last.tableAt deepens.leveled root₁ (Nat.le_refl 3) found), setEntry_table,
      if_pos ⟨rfl, rfl⟩]
  | alreadyMapped down _ =>
    obtain ⟨level₁, deepens, _, _⟩ := descends (Nat.le_refl 3) down
    exact ⟨level₁, deepens, fun mapped => by cases mapped⟩
  | @hugeParent m₁ _ t depth upper down used huge after =>
    obtain ⟨level₁, deepens, label, _⟩ := descends (Nat.le_of_lt upper) down
    refine ⟨level₁, ?_, fun mapped => by cases mapped⟩
    rcases after with rfl | rfl
    · exact deepens
    · refine deepens.trans (.setEntry deepens.leveled label (fun _ _ small => ?_) fun _ =>
        ⟨upper, flags.parent, rfl, rfl⟩)
      simp [Flags.union, huge] at small
  | noFrame upper down _ exhausted =>
    obtain ⟨level₁, deepens, _, _⟩ := descends (Nat.le_of_lt upper) down
    exact ⟨level₁, deepens.trans (.allocate deepens.leveled exhausted), fun mapped => by cases mapped⟩

theorem Deepens.mapUserRegion (x : Mapper) (leveled : Leveled level m) (root : level cr3 = some 0)
    (writable : Bool) (page count : Nat) :
    ∃ level', Deepens level m level' (m.mapUserRegion x cr3 writable page count).2 := by
  induction count generalizing level m page with
  | zero => exact ⟨level, .refl leveled⟩
  | succ count ih =>
    unfold MemoryManager.mapUserRegion
    split
    next taken => exact ⟨level, .allocate leveled taken⟩
    next f m₁ taken =>
      have zeroed := (Deepens.allocate leveled taken).setPage (fresh_allocated taken) fun _ => 0
      obtain ⟨level₁, maps, _⟩ :=
        (x.mapTo_documented (m₁.zeroPage f) cr3 page f
          { present := true, user := true, writable := writable }).deepens zeroed.leveled root
      have first := zeroed.trans maps
      split
      next failed =>
        rw [failed] at first
        exact ⟨level₁, first⟩
      next ok =>
        rw [ok] at first
        obtain ⟨level₂, rest⟩ := ih first.leveled (first.serves _ _ root) (page + 1)
        exact ⟨level₂, first.trans rest⟩

theorem Deepens.lookup_shared {r : Frame} (deepens : Deepens level m level' m')
    (root : level cr3 = some 0) (root' : level r = some 0)
    (shared : m.table cr3 (slot 0 page) = m.table r (slot 0 page)) (used : ¬(m.table r (slot 0 page)).IsUnused)
    (small : (m.table r (slot 0 page)).flags.huge = false) : m'.lookup cr3 3 page = m'.lookup r 3 page := by
  have below {t : Frame} (label : level t = some 0) (same : m.table t (slot 0 page) = m.table r (slot 0 page)) :
      m'.tableAt t 1 page = some (m.table r (slot 0 page)).frame := by
    obtain ⟨more, modest, kept⟩ := deepens.upper t 0 (slot 0 page) label (by omega) (by rwa [same])
    rw [same] at kept
    rw [tableAt_next (t := t) rfl, kept, if_neg]
    rintro (unused | huge)
    · exact Entry.union_used used unused
    · simp [Flags.union, small, modest] at huge
  have tables (k : Nat) : m'.tableAt cr3 (k + 1) page = m'.tableAt r (k + 1) page := by
    induction k with
    | zero => rw [below root shared, below root' rfl]
    | succ k ih => rw [MemoryManager.tableAt, ih, ← MemoryManager.tableAt]
  simp only [MemoryManager.lookup, tables 2]

theorem Mapped.of_table (mapped : Mapped m cr3 page e) (same : m'.table = m.table) : Mapped m' cr3 page e := by
  refine ⟨(lookup_table same cr3 3 page).trans mapped.leaf, fun k upper => ?_⟩
  obtain ⟨present, user, small⟩ := mapped.way k upper
  constructor <;> rwa [lookup_table same]

theorem Mapped.reads (mapped : Mapped m cr3 page e) (present : e.flags.present = true)
    (user : e.flags.user = true) :
    m.access userRead cr3 page = some e.frame := by
  refine (access_small fun k upper => ⟨(mapped.way k upper).present, (mapped.way k upper).small⟩).mpr
    ⟨fun k upper => ?_, ?_, ?_⟩
  · by_cases last : k = 3
    · rwa [last, mapped.leaf]
    · exact (mapped.way k (by omega)).user
  all_goals rw [mapped.leaf]
  exact present

theorem Mapped.right {right : Flags → Bool} (mapped : Mapped m cr3 page e)
    (reached : m.access right cr3 page = some f) :
    right e.flags = true := by
  rw [access_small fun k upper => ⟨(mapped.way k upper).present, (mapped.way k upper).small⟩] at reached
  rw [← mapped.leaf]
  exact reached.1 3 (Nat.le_refl 3)

/-- Memory after more tables were made. -/
def Relevels (level : Frame → Option Nat) (m' : MemoryManager) : Prop :=
  ∃ level', Leveled level' m' ∧ Serves level level'

namespace Leveled

theorem mapTo (leveled : Leveled level m) (root : level cr3 = some 0) (x : Mapper) (page : Nat)
    (frame : Frame) (flags : Flags) :
    Relevels level (x.mapTo m cr3 page frame flags).2 := by
  obtain ⟨level', deepens, _⟩ := (x.mapTo_documented m cr3 page frame flags).deepens leveled root
  exact ⟨level', deepens.leveled, deepens.serves⟩

theorem deepCopyTable {levels : Nat} {src new : Frame} (leveled : Leveled level m)
    (label : level src = some d) (depth : levels + d = 4)
    (done : m.deepCopyTable levels src = some (new, m')) : ∃ level', Leveled level' m' ∧
      Serves level level' ∧ level' new = some d := by
  induction levels generalizing level m m' src new d with
  | zero => cases done
  | succ levels ih =>
    simp only [MemoryManager.deepCopyTable, Option.bind_eq_some_iff, Option.map_eq_some_iff, Prod.exists]
      at done
    obtain ⟨new', m₁, taken, m₂, copied, same⟩ := done
    cases same
    have fresh := expectFrame_some taken
    have serves := leveled.take_serves fresh d
    have round_kept := foldlM_range_keeps
      (fun _ s => ∃ level', Leveled level' s ∧ Serves (Function.update level new (some d)) level')
      (fun i s s' bound before round => ?_)
      ⟨_, leveled.take fresh d, .refl _⟩ copied
    · obtain ⟨level', leveled', serves'⟩ := round_kept
      exact ⟨level', leveled', serves.trans serves', serves' _ _ (Function.update_self ..)⟩
    · obtain ⟨level₁, leveled₁, serves₁⟩ := before
      have label₁ : level₁ new = some d := serves₁ _ _ (Function.update_self ..)
      have source : level₁ src = some d := serves₁ _ _ (serves _ _ label)
      split at round
      next =>
        cases round
        exact ⟨level₁, leveled₁, serves₁⟩
      next used =>
        split at round
        next copies =>
          cases round
          refine ⟨level₁, leveled₁.setEntry label₁ fun upper _ small => ?_, serves₁⟩
          rcases copies with last | huge
          · omega
          · rw [small] at huge
            cases huge
        next deeper =>
          simp only [not_or, Bool.not_eq_true] at deeper
          obtain ⟨⟨child, m₃⟩, below, rfl⟩ := Option.map_eq_some_iff.mp round
          have leads := leveled₁.entries src d i bound source (by omega) used deeper.2
          obtain ⟨level₂, leveled₂, serves₂, label₂⟩ := ih leveled₁ leads (by omega) below
          exact ⟨level₂, leveled₂.setEntry (serves₂ _ _ label₁) fun _ _ _ => label₂,
            serves₁.trans serves₂⟩

theorem createUserMapper {new : Frame} (leveled : Leveled level m)
    (done : m.createUserMapper = some (new, m')) :
    ∃ level', Leveled level' m' ∧ Serves level level' ∧ level' new = some 0 := by
  simp only [MemoryManager.createUserMapper, Option.bind_eq_some_iff] at done
  obtain ⟨⟨f, m₁⟩, taken, done⟩ := done
  have fresh := expectFrame_some taken
  have serves := leveled.take_serves fresh 0
  have label : Function.update level f (some 0) f = some 0 := Function.update_self ..
  have copied : Leveled (Function.update level f (some 0))
      ((List.range 512).foldl (fun (m : MemoryManager) i => m.setEntry f i (m.table m.kernelCr3 i))
      (m₁.zeroTable f)) := by
    refine List.foldlRecOn (List.range 512) _ (leveled.take fresh 0) (fun s before i member => ?_)
    exact before.setEntry label fun upper used small =>
      before.entries s.kernelCr3 0 i (List.mem_range.mp member) before.kernel upper used small
  dsimp only at done
  generalize (List.range 512).foldl (fun (m : MemoryManager) i => m.setEntry f i (m.table m.kernelCr3 i))
    (m₁.zeroTable f) = s at done copied
  split at done
  next first =>
    simp only [Option.map_eq_some_iff, Prod.mk.injEq] at done
    obtain ⟨⟨l3, m₂⟩, below, rfl, rfl⟩ := done
    have leads := copied.entries s.kernelCr3 0 0 (by decide) copied.kernel (by decide) first.1 first.2
    obtain ⟨level₂, leveled₂, serves₂, label₂⟩ := copied.deepCopyTable leads rfl below
    have label₃ := serves₂ _ _ label
    exact ⟨level₂, leveled₂.setEntry label₃ fun _ _ _ => label₂, serves.trans serves₂, label₃⟩
  next =>
    simp only [Option.some.injEq, Prod.mk.injEq] at done
    obtain ⟨rfl, rfl⟩ := done
    exact ⟨_, copied, serves, label⟩

theorem forLeaves {σ : Type} {memory : σ → MemoryManager} {visit : σ → Frame → Nat → Nat → σ}
    (kept : ∀ s t i page, Leveled level (memory s) → level t = some 3 →
      Leveled level (memory (visit s t i page)))
    {levels bound : Nat} {s : σ} (leveled : Leveled level (memory s))
    (label : level t = some (3 - levels)) (upper : levels ≤ 3)
    (fits : bound ≤ 512) : Leveled level (memory
      (MemoryManager.forLeaves memory visit levels bound t page s)) := by
  induction levels generalizing t page bound s with
  | zero =>
    simp only [MemoryManager.forLeaves]
    exact List.foldlRecOn (motive := fun s => Leveled level (memory s)) (List.range bound) _ leveled
      fun s before i _ =>
      kept s t i _ before label
  | succ levels ih =>
    simp only [MemoryManager.forLeaves]
    refine List.foldlRecOn (motive := fun s => Leveled level (memory s)) (List.range bound) _ leveled
      fun s before i member => ?_
    have small := List.mem_range.mp member
    split
    next => exact before
    next entry =>
      simp only [not_or, Bool.not_eq_true] at entry
      have leads := before.entries t _ i (by omega) label (by omega) entry.1 entry.2
      exact ih before (by rw [leads]; congr 1; omega) (by omega) (Nat.le_refl 512)

theorem setLeaf (leveled : Leveled level m) (label : level t = some 3) (i : Nat) (e : Entry) :
    Leveled level (m.setEntry t i e) :=
  leveled.setEntry label fun lower => absurd lower (Nat.lt_irrefl 3)

end Leveled

namespace Relevels

theorem refl (leveled : Leveled level m) : Relevels level m := ⟨level, leveled, .refl level⟩

theorem trans (first : Relevels level m') (next : ∀ level', Leveled level' m' → Serves level level' →
    Relevels level' m'') :
    Relevels level m'' := by
  obtain ⟨level', leveled, serves⟩ := first
  obtain ⟨level'', leveled', serves'⟩ := next level' leveled serves
  exact ⟨level'', leveled', serves.trans serves'⟩

theorem replicateLeaf (x : Mapper) (leveled : Leveled level m) (root : level cr3 = some 0)
    (leaf : MemoryManager.Leaf) :
    Relevels level (MemoryManager.replicateLeaf x cr3 m leaf) := by
  obtain ⟨level', deepens, mapped⟩ :=
    (x.mapTo_documented m cr3 leaf.1 leaf.2.frame { present := true, user := true }).deepens leveled root
  unfold MemoryManager.replicateLeaf
  split
  next ok =>
    rw [ok] at deepens mapped
    have leaf' := (mapped rfl rfl rfl).leaf
    obtain ⟨t, found, label, _⟩ := deepens.leveled.lookup_used (deepens.serves _ _ root) (Nat.le_refl 3)
      (by rw [leaf']; exact fun unused => by simpa using Entry.unused_flags unused)
    rw [followTable_eq found]
    exact ⟨level', deepens.leveled.setLeaf label _ _, deepens.serves⟩
  next failed =>
    rw [failed] at deepens
    exact ⟨level', deepens.leveled, deepens.serves⟩

theorem foldl {α : Type} {f : MemoryManager → α → MemoryManager} (items : List α)
    (leveled : Leveled level m) (root : level cr3 = some 0)
    (each : ∀ level m a, Leveled level m → level cr3 = some 0 → Relevels level (f m a)) :
      Relevels level (items.foldl f m) := by
  induction items generalizing level m with
  | nil => exact refl leveled
  | cons a rest ih =>
    exact (each level m a leveled root).trans fun level' leveled' serves => ih leveled' (serves _ _ root)

theorem cowFork (x : Mapper) (leveled : Leveled level m) (root : level cr3 = some 0) {child : Frame}
    (forked : m.cowForkAddressSpace x cr3 = some (child, m')) : Relevels level m' := by
  have shared : Leveled level (MemoryManager.forLeaves
    Prod.fst MemoryManager.shareLeaf 3 256 cr3 0 (m, [])).1 := by
    refine Leveled.forLeaves (fun s t i page before label => ?_) leveled root (Nat.le_refl 3) (by omega)
    unfold MemoryManager.shareLeaf
    dsimp only
    split
    · exact before
    · split
      · exact before.setLeaf label _ _
      · exact before
  simp only [MemoryManager.cowForkAddressSpace] at forked
  obtain ⟨⟨new, m₁⟩, made, same⟩ := Option.map_eq_some_iff.mp forked
  simp only [Prod.mk.injEq] at same
  obtain ⟨rfl, rfl⟩ := same
  obtain ⟨level₁, leveled₁, serves₁, root₁⟩ := shared.createUserMapper made
  obtain ⟨level₂, leveled₂, serves₂⟩ := foldl _ leveled₁ root₁ fun level m leaf leveled root =>
    replicateLeaf x leveled root leaf
  exact ⟨level₂, leveled₂.store (serves₂ _ _ root₁), serves₁.trans serves₂⟩

theorem mapUserRegion (x : Mapper) (leveled : Leveled level m) (root : level cr3 = some 0)
    (writable : Bool) (page count : Nat) :
    Relevels level (m.mapUserRegion x cr3 writable page count).2 := by
  obtain ⟨level', deepens⟩ := Deepens.mapUserRegion x leveled root writable page count
  exact ⟨level', deepens.leveled, deepens.serves⟩

theorem loadPages (x : Mapper) (leveled : Leveled level m) (root : level cr3 = some 0) (pages : List UserPage) :
    Relevels level (m.loadPages x cr3 pages).2 := by
  induction pages generalizing level m with
  | nil => exact refl leveled
  | cons p rest ih =>
    unfold MemoryManager.loadPages
    split
    next taken => exact refl (leveled.allocate taken)
    next f m₁ taken =>
      have maps := (leveled.allocate taken).mapTo root x p.page f p.flags
      split
      next failed =>
        rw [failed] at maps
        exact maps
      next ok =>
        rw [ok] at maps
        exact maps.trans fun level' leveled' serves => ih (leveled'.setPage f p.contents) (serves _ _ root)

theorem unmapPages (x : Mapper) (leveled : Leveled level m) (root : level cr3 = some 0) (page count : Nat) :
    Relevels level (m.unmapPages x cr3 page count).2 := by
  induction count generalizing m page with
  | zero => exact refl leveled
  | succ count ih =>
    unfold MemoryManager.unmapPages
    have unmaps := x.unmap_documented m cr3 page
    split
    next failed =>
      rw [failed] at unmaps
      cases unmaps
      exact refl leveled
    next ok =>
      rw [ok] at unmaps
      cases unmaps with
      | unmapped found => exact ih (leveled.setLeaf (leveled.tableAt root (Nat.le_refl 3) found) _ _) (page + 1)

end Relevels

theorem Booted.leveled {owner : Frame → Owner} (booted : Booted owner m) : ∃ level, Leveled level m :=
  ⟨_, booted.sound.1.leveled⟩

theorem run_leveled (x : Mapper) {boot : Frame → Owner} {start : MemoryManager} (booted : Booted boot start)
    (run : Reaches (step x) (fun _ _ => True) start m) : ∃ level, Leveled level m := by
  refine run.invariant (motive := fun m => ∃ level, Leveled level m) booted.leveled
    fun m a m' before _ taken => ?_
  obtain ⟨level, leveled⟩ := before
  suffices after : Relevels level m' by
    obtain ⟨level', leveled', _⟩ := after
    exact ⟨level', leveled'⟩
  cases a with
  | load pages =>
    simp only [step, Option.map_eq_some_iff] at taken
    obtain ⟨⟨cr3, m₁⟩, created, rfl⟩ := taken
    obtain ⟨level₁, leveled₁, serves₁, root₁⟩ := leveled.createUserMapper created
    have after := Relevels.loadPages x leveled₁ root₁ pages
    obtain ⟨level₂, leveled₂, serves₂⟩ := after
    dsimp only
    split
    next done =>
      rw [done] at leveled₂
      exact ⟨level₂, leveled₂.store (serves₂ _ _ root₁), serves₁.trans serves₂⟩
    next failed =>
      rw [failed] at leveled₂
      exact ⟨level₂, leveled₂, serves₁.trans serves₂⟩
  | fork cr3 =>
    simp only [step] at taken
    split at taken
    next member =>
      obtain ⟨⟨child, m₁⟩, forked, rfl⟩ := Option.map_eq_some_iff.mp taken
      exact .cowFork x leveled (leveled.roots cr3 member) forked
    next => cases taken
  | fault cr3 page =>
    simp only [step] at taken
    split at taken
    next member =>
      simp only [MemoryManager.resolveCow, Option.bind_eq_some_iff] at taken
      obtain ⟨l1, found, resolved⟩ := taken
      have label := leveled.tableAt (leveled.roots cr3 member) (Nat.le_refl 3) found
      split at resolved
      next => cases resolved
      next =>
        obtain ⟨⟨new, m₁⟩, fresh, rfl⟩ := Option.map_eq_some_iff.mp resolved
        exact .refl (((leveled.allocate (expectFrame_some fresh)).setPage new _).setLeaf label _ _)
    next => cases taken
  | mmap cr3 page count writable =>
    simp only [step] at taken
    split at taken
    next member =>
      cases taken
      exact .mapUserRegion x leveled (leveled.roots cr3 member) writable page count
    next => cases taken
  | munmap cr3 addr len =>
    simp only [step] at taken
    split at taken
    next member =>
      cases taken
      unfold MemoryManager.sysMunmap
      dsimp only
      split
      · exact .refl leveled
      · split
        · exact .refl leveled
        · split
          · exact .unmapPages x leveled (leveled.roots cr3 member) _ _
          · exact .refl leveled
    next => cases taken
  | write cr3 page offset value =>
    simp only [step] at taken
    split at taken
    next =>
      obtain ⟨f, _, rfl⟩ := Option.map_eq_some_iff.mp taken
      exact .refl (leveled.setPage f _)
    next => cases taken

end PickleOS.Memory
