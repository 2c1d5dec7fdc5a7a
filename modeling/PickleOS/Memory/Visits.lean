import PickleOS.Memory.Views

set_option autoImplicit false

namespace PickleOS.Memory

variable {owner owner' : Frame → Owner} {m m' : MemoryManager} {f t r : Frame} {i k q page : Nat}

/-- The entries of level 1 that the loops of a fork come to, with their page numbers. -/
def MemoryManager.leafSlots (m : MemoryManager) : Nat → Nat → Frame → Nat → List (Frame × Nat × Nat)
  | 0, bound, t, page => (List.range bound).map fun i => (t, i, page * 512 + i)
  | levels + 1, bound, t, page =>
    (List.range bound).flatMap fun i =>
      let e := m.table t i
      if e.IsUnused ∨ e.flags.huge then [] else m.leafSlots levels 512 e.frame (page * 512 + i)

theorem page_index {levels : Nat} (upper : levels < 3) (here : q / 512 ^ (levels + 1) = page * 512 + i)
    (small : i < 512) :
    q / 512 ^ (levels + 1 + 1) = page ∧ slot (3 - (levels + 1)) q = i := by
  -- A page number below an index is split in the index and the rest.
  have same : 3 - (3 - (levels + 1)) = levels + 1 := by omega
  rw [Nat.pow_succ 512 (levels + 1), ← Nat.div_div_eq_div_mul, slot, same, here]
  omega

theorem page_split {levels : Nat} (here : q / 512 ^ (levels + 1 + 1) = page) :
    q / 512 ^ (levels + 1) = page * 512 + q / 512 ^ (levels + 1) % 512 := by
  rw [← here, Nat.pow_succ 512 (levels + 1), ← Nat.div_div_eq_div_mul]
  omega

theorem mem_leafSlots {levels bound : Nat} (upper : levels ≤ 3) (fits : bound ≤ 512)
    (way : ∀ q, q / 512 ^ (levels + 1) = page → m.tableAt r (3 - levels) q = some t) :
    (f, i, q) ∈ m.leafSlots levels bound t page ↔
      q / 512 ^ (levels + 1) = page ∧ q / 512 ^ levels % 512 < bound ∧ m.tableAt r 3 q = some f ∧
      i = slot 3 q := by
  -- The loops come to the entries of the tables for the pages in range.
  induction levels generalizing t page bound with
  | zero =>
    simp only [MemoryManager.leafSlots, List.mem_map, List.mem_range, Prod.mk.injEq]
    have last : slot 3 q = q % 512 := by simp [slot]
    rw [last]
    constructor
    · rintro ⟨j, small, rfl, rfl, rfl⟩
      have here : (page * 512 + j) / 512 ^ (0 + 1) = page := by simp; omega
      exact ⟨here, by simp; omega, way _ here, by omega⟩
    · rintro ⟨here, small, found, rfl⟩
      have same := Option.some.inj ((way q here).symm.trans found)
      exact ⟨q % 512, by simpa using small, same, rfl, by simp at here; omega⟩
  | succ levels ih =>
    simp only [MemoryManager.leafSlots, List.mem_flatMap, List.mem_range]
    have deeper : 3 - levels = 3 - (levels + 1) + 1 := by omega
    have below (i : Nat) (small : i < 512) (goes :
      ¬((m.table t i).IsUnused ∨ (m.table t i).flags.huge = true)) (q : Nat)
        (here : q / 512 ^ (levels + 1) = page * 512 + i) :
          m.tableAt r (3 - levels) q = some (m.table t i).frame := by
      obtain ⟨parent, index⟩ := page_index (by omega) here small
      rw [deeper, tableAt_next (way q parent), index, if_neg goes]
    constructor
    · rintro ⟨j, small, member⟩
      split at member <;> rename_i goes
      · simp at member
      · obtain ⟨here, _, found, rfl⟩ := (ih (by omega) (Nat.le_refl 512) (below j (by omega) goes)).mp member
        obtain ⟨parent, index⟩ := page_index (by omega) here (by omega)
        exact ⟨parent, by rw [here]; omega, found, rfl⟩
    · rintro ⟨parent, small, found, rfl⟩
      have here := page_split parent
      have index : slot (3 - (levels + 1)) q = q / 512 ^ (levels + 1) % 512 := by
        rw [slot, show 3 - (3 - (levels + 1)) = levels + 1 by omega]
      have goes : ¬((m.table t (q / 512 ^ (levels + 1) % 512)).IsUnused ∨
          (m.table t (q / 512 ^ (levels + 1) % 512)).flags.huge = true) := by
        intro ends
        have none : m.tableAt r (3 - levels) q = none := by
          rw [deeper, tableAt_next (way q parent), index, if_pos ends]
        rw [tableAt_none none (by omega)] at found
        simp at found
      refine ⟨q / 512 ^ (levels + 1) % 512, small, ?_⟩
      rw [if_neg goes]
      exact (ih (by omega) (Nat.le_refl 512) (below _ (Nat.mod_lt _ (by decide)) goes)).mpr
        ⟨here, Nat.mod_lt _ (by decide), found, rfl⟩

theorem leafSlots_page {levels bound : Nat} (fits : bound ≤ 512) {x : Frame × Nat × Nat}
    (member : x ∈ m.leafSlots levels bound t page) : x.2.2 / 512 ^ (levels + 1) = page := by
  induction levels generalizing t page bound with
  | zero =>
    simp only [MemoryManager.leafSlots, List.mem_map, List.mem_range] at member
    obtain ⟨i, small, rfl⟩ := member
    simp only [Nat.zero_add, Nat.pow_one]
    omega
  | succ levels ih =>
    simp only [MemoryManager.leafSlots, List.mem_flatMap, List.mem_range] at member
    obtain ⟨i, small, member⟩ := member
    split at member
    · cases member
    · rw [Nat.pow_succ, ← Nat.div_div_eq_div_mul, ih (Nat.le_refl 512) member]
      omega

theorem leafSlots_sorted {levels bound : Nat} (fits : bound ≤ 512) :
    (m.leafSlots levels bound t page).Pairwise fun x y => x.2.2 < y.2.2 := by
  -- The loops come to one page after the other.
  induction levels generalizing t page bound with
  | zero =>
    rw [MemoryManager.leafSlots, List.pairwise_map]
    exact List.pairwise_lt_range.imp fun less => Nat.add_lt_add_left less _
  | succ levels ih =>
    rw [MemoryManager.leafSlots, List.pairwise_flatMap]
    refine ⟨fun i member => ?_, List.pairwise_lt_range.imp fun {i j} less x first y second => ?_⟩
    · dsimp only
      split
      · exact List.Pairwise.nil
      · exact ih (Nat.le_refl 512)
    · dsimp only at first second
      split at first
      · cases first
      · split at second
        · cases second
        · by_contra later
          have ordered := Nat.div_le_div_right (c := 512 ^ (levels + 1)) (Nat.not_lt.mp later)
          rw [leafSlots_page (Nat.le_refl 512) first, leafSlots_page (Nat.le_refl 512) second] at ordered
          omega

theorem foldl_same {σ α : Type} {f g : σ → α → σ} (holds : σ → Prop) {l : List α} {s : σ}
    (same : ∀ s a, a ∈ l → holds s → f s a = g s a ∧ holds (f s a)) (initial : holds s) :
    l.foldl f s = l.foldl g s ∧ holds (l.foldl f s) := by
  induction l generalizing s with
  | nil => exact ⟨rfl, initial⟩
  | cons a rest ih =>
    have first := same s a List.mem_cons_self initial
    rw [List.foldl_cons, List.foldl_cons, ← first.1]
    exact ih (fun s b member => same s b (List.mem_cons_of_mem _ member)) first.2

theorem forLeaves_eq {σ : Type} {memory : σ → MemoryManager} {visit : σ → Frame → Nat → Nat → σ}
    (holds : σ → Prop)
    (owned : Owned owner m)
    (upper_same : ∀ s k t q, holds s → k < 3 → OnWay owner r k q t → (memory s).table t = m.table t)
    (kept : ∀ s t page, holds s → OnWay owner r 3 page t → holds (visit s t (slot 3 page) page))
    {levels bound : Nat}
    {s : σ} (upper : levels ≤ 3) (fits : bound ≤ 512)
    (way : ∀ q, q / 512 ^ (levels + 1) = page → OnWay owner r (3 - levels) q t) (initial : holds s) :
    MemoryManager.forLeaves memory visit levels bound t page s =
        (m.leafSlots levels bound t page).foldl (fun s x => visit s x.1 x.2.1 x.2.2) s ∧
      holds (MemoryManager.forLeaves memory visit levels bound t page s) := by
  -- If the visits leave the upper tables alone, the loops visit the entries one after the other.
  induction levels generalizing t page bound s with
  | zero =>
    simp only [MemoryManager.forLeaves, MemoryManager.leafSlots, List.foldl_map]
    refine ⟨trivial, List.foldlRecOn (List.range bound) _ initial (fun s before i member => ?_)⟩
    have small : i < bound := List.mem_range.mp member
    have last : slot 3 (page * 512 + i) = i := by simp [slot]; omega
    have visited := kept s t (page * 512 + i) before (way _ (by simp; omega))
    rwa [last] at visited
  | succ levels ih =>
    simp only [MemoryManager.forLeaves, MemoryManager.leafSlots, List.foldl_flatMap]
    refine foldl_same holds (fun s i member before => ?_) initial
    have small : i < bound := List.mem_range.mp member
    -- Any page below the table leads to it.
    have index := page_index (i := i) (q := (page * 512 + i) * 512 ^ (levels + 1)) (by omega)
      (Nat.mul_div_cancel _ (Nat.pow_pos (by decide))) (by omega)
    rw [upper_same s _ t _ before (by omega) (way _ index.1)]
    split <;> rename_i goes
    · exact ⟨rfl, before⟩
    · refine ih (by omega) (Nat.le_refl 512) (fun q here => ?_) before
      obtain ⟨parent, here'⟩ := page_index (by omega) here (by omega)
      have next := (way q parent).next owned (by omega)
        (by rw [here']; exact fun unused => goes (Or.inl unused))
      rw [here'] at next
      cases next with
      | inl huge => exact absurd (Or.inr huge.1) goes
      | inr small' => rw [show 3 - levels = 3 - (levels + 1) + 1 by omega]; exact small'.2

/-- What `shareLeaf` makes of an entry. -/
def cowed (e : Entry) : Entry := if e.flags.writable then ⟨e.frame, e.flags.shared⟩ else e

theorem cowed_user (e : Entry) : (cowed e).flags.user = e.flags.user := by
  unfold cowed
  split <;> rfl

theorem cowed_again (e : Entry) : cowed (cowed e) = cowed e := by
  by_cases writable : e.flags.writable = true <;> simp [cowed, writable, Flags.shared]

theorem setEntry_self (m : MemoryManager) (t : Frame) (i : Nat) : m.setEntry t i (m.table t i) = m := by
  simp [MemoryManager.setEntry]

theorem shareLeaf_eq (s : MemoryManager × List MemoryManager.Leaf) (t : Frame) (i page : Nat) :
    MemoryManager.shareLeaf s t i page =
      if (s.1.table t i).flags.user then (s.1.setEntry t i (cowed (s.1.table t i)),
        s.2 ++ [(page, cowed (s.1.table t i))]) else s := by
  simp only [MemoryManager.shareLeaf, cowed]
  by_cases user : (s.1.table t i).flags.user = true
  · have used : ¬(s.1.table t i).IsUnused := fun unused => by simp [Entry.unused_flags unused] at user
    by_cases writable : (s.1.table t i).flags.writable = true <;> simp [user, used, writable, setEntry_self]
  · simp [user]

def MemoryManager.leafOf (m : MemoryManager) (x : Frame × Nat × Nat) : Option MemoryManager.Leaf :=
  if (m.table x.1 x.2.1).flags.user then some (x.2.2, cowed (m.table x.1 x.2.1)) else none

structure Visited (m : MemoryManager) (slots : List (Frame × Nat × Nat))
    (s : MemoryManager × List MemoryManager.Leaf) : Prop where
  entry : ∀ f i, s.1.table f i = m.table f i ∨
    s.1.table f i = cowed (m.table f i) ∧ (m.table f i).flags.user = true ∧ ∃ q, (f, i, q) ∈ slots
  rest : s.1 = { m with table := s.1.table }
  leaves : s.2 = slots.filterMap m.leafOf

variable {slots : List (Frame × Nat × Nat)} {s : MemoryManager × List MemoryManager.Leaf}

namespace Visited

theorem user (visited : Visited m slots s) (f : Frame) (i : Nat) :
    (s.1.table f i).flags.user = (m.table f i).flags.user := by
  rcases visited.entry f i with same | ⟨changed, _⟩
  · rw [same]
  · rw [changed, cowed_user]

theorem cowed (visited : Visited m slots s) (f : Frame) (i : Nat) :
    Memory.cowed (s.1.table f i) = Memory.cowed (m.table f i) := by
  rcases visited.entry f i with same | ⟨changed, _⟩
  · rw [same]
  · rw [changed, cowed_again]

theorem next (visited : Visited m slots s) (t : Frame) (i q : Nat) :
    Visited m (slots ++ [(t, i, q)]) (MemoryManager.shareLeaf s t i q) := by
  rw [shareLeaf_eq, visited.user, visited.cowed]
  have longer : ∀ f j, s.1.table f j = m.table f j ∨
      s.1.table f j = Memory.cowed (m.table f j) ∧ (m.table f j).flags.user = true ∧ ∃ p,
        (f, j, p) ∈ slots ++ [(t, i, q)] :=
    fun f j => (visited.entry f j).imp_right fun ⟨changed, user, p, member⟩ =>
      ⟨changed, user, p, List.mem_append_left _ member⟩
  by_cases user : (m.table t i).flags.user = true
  · rw [if_pos user]
    refine ⟨fun f j => ?_, ?_, ?_⟩
    · rw [setEntry_table]
      by_cases here : f = t ∧ j = i
      · rw [if_pos here, here.1, here.2]
        exact Or.inr ⟨rfl, user, q, List.mem_append_right _ List.mem_cons_self⟩
      · rw [if_neg here]
        exact longer f j
    · rw [visited.rest]
      rfl
    · simp [visited.leaves, List.filterMap_append, MemoryManager.leafOf, user]
  · rw [if_neg user]
    exact ⟨longer, visited.rest, by simp [visited.leaves, List.filterMap_append, MemoryManager.leafOf, user]⟩

theorem foldl (visited : Visited m slots s) (more : List (Frame × Nat × Nat)) :
    Visited m (slots ++ more) (more.foldl (fun s x => MemoryManager.shareLeaf s x.1 x.2.1 x.2.2) s) := by
  induction more generalizing slots s with
  | nil => simpa using visited
  | cons x rest ih =>
    have next := ih (visited.next x.1 x.2.1 x.2.2)
    rwa [List.append_assoc, List.singleton_append] at next

end Visited

theorem shareLeaf_upper (upper : k < 3) (way : OnWay owner r k q f) (leaf : OnWay owner r 3 page t) :
    (MemoryManager.shareLeaf s t i page).1.table f = s.1.table f := by
  -- A visit to an entry of level 1 leaves the tables above alone.
  have other : f ≠ t := by
    rintro rfl
    rcases way with own | ⟨low, kernel⟩ <;> rcases leaf with own' | ⟨low', kernel'⟩
    · rw [own, Owner.table.injEq] at own'
      have depths := congrArg List.length own'.2
      simp only [pathTo_length] at depths
      omega
    · simp [own] at kernel'
    · simp [kernel] at own'
    · rw [kernel, Owner.kernel.injEq] at kernel'
      omega
  rw [shareLeaf_eq]
  split
  · funext j
    simp [setEntry_table, other]
  · rfl

theorem forLeaves_visited (owned : Owned owner m) (root : owner r = .table r []) :
    Visited m (m.leafSlots 3 256 r 0) (MemoryManager.forLeaves
      Prod.fst MemoryManager.shareLeaf 3 256 r 0 (m, [])) := by
  -- The loops of a fork record the parent's user pages in the low half.
  have loops : MemoryManager.forLeaves Prod.fst MemoryManager.shareLeaf 3 256 r 0 (m, []) = _ ∧ _ :=
    forLeaves_eq (fun s => ∀ k t q, k < 3 → OnWay owner r k q t → s.1.table t = m.table t) owned
      (fun s k t q before upper way => before k t q upper way)
      (fun s t page before leaf k f q upper way => (shareLeaf_upper upper way leaf).trans
        (before k f q upper way))
      (Nat.le_refl 3) (by decide) (fun q _ => Or.inl root) (fun _ _ _ _ _ => rfl)
  have none : Visited m [] (m, []) := ⟨fun _ _ => Or.inl rfl, rfl, rfl⟩
  have visited := none.foldl (m.leafSlots 3 256 r 0)
  rw [List.nil_append] at visited
  rw [loops.1]
  exact visited

theorem mem_rootSlots : (f, i, q) ∈ m.leafSlots 3 256 r 0 ↔
    q < 256 * 512 ^ 3 ∧ m.tableAt r 3 q = some f ∧ i = slot 3 q := by
  rw [mem_leafSlots (r := r) (Nat.le_refl 3) (by decide) (fun q _ => rfl), ← and_assoc]
  refine and_congr_left fun _ => ?_
  simp only [Nat.reducePow]
  omega

namespace Visited

variable (visited : Visited m (m.leafSlots 3 256 r 0) s)
include visited

theorem mem_leaves (leaf : MemoryManager.Leaf) :
    leaf ∈ s.2 ↔ leaf.1 < 256 * 512 ^ 3 ∧ (m.lookup r 3 leaf.1).flags.user = true ∧
    leaf.2 = Memory.cowed (m.lookup r 3 leaf.1) := by
  rw [visited.leaves, List.mem_filterMap]
  constructor
  · rintro ⟨⟨f, i, q⟩, member, same⟩
    obtain ⟨bound, found, rfl⟩ := mem_rootSlots.mp member
    have entry : m.lookup r 3 q = m.table f (slot 3 q) := by simp [MemoryManager.lookup, found]
    simp only [MemoryManager.leafOf, Option.ite_none_right_eq_some, Option.some.injEq] at same
    obtain ⟨user, rfl⟩ := same
    rw [entry]
    exact ⟨bound, user, rfl⟩
  · rintro ⟨bound, user, same⟩
    cases found : m.tableAt r 3 leaf.1 with
    | none => simp [MemoryManager.lookup, found, Entry.unused] at user
    | some f =>
      have entry : m.lookup r 3 leaf.1 = m.table f (slot 3 leaf.1) := by simp [MemoryManager.lookup, found]
      rw [entry] at user same
      refine ⟨(f, slot 3 leaf.1, leaf.1), mem_rootSlots.mpr ⟨bound, found, rfl⟩, ?_⟩
      simp only [MemoryManager.leafOf, user, if_true, ← same]

theorem leaves_sorted : s.2.Pairwise fun a b => a.1 < b.1 := by
  rw [visited.leaves]
  refine List.Pairwise.filterMap m.leafOf (fun x y less a first b second => ?_) (leafSlots_sorted (by decide))
  simp only [MemoryManager.leafOf, Option.ite_none_right_eq_some, Option.some.injEq] at first second
  rw [← first.2, ← second.2]
  exact less

theorem table_other (owned : Owned owner m) (root : owner r = .table r []) {g : Frame}
    (off : ∀ q, owner g ≠ .table r (pathTo 3 q)) : s.1.table g = m.table g := by
  -- A table that a visit has changed is the parent's own, at level 1.
  funext j
  rcases visited.entry g j with same | ⟨_, user, q, member⟩
  · exact same
  · obtain ⟨_, found, rfl⟩ := mem_rootSlots.mp member
    exact absurd ((tableAt_onWay owned root (Nat.le_refl 3) found).user owned user).1 (off q)

theorem spares (owned : Owned owner m) (root : owner r = .table r []) :
    Spares owner m owner s.1 fun r' q => r' = r ∧ (m.lookup r 3 q).flags.user = true where
  -- All but the parent's user pages stays.
  grows := .refl owner
  kernelCr3 := by rw [visited.rest]
  kernel g depth low label := visited.table_other owned root fun q own => by
    rw [label] at own
    cases own
  frames := by rw [visited.rest]
  next := Nat.le_of_eq (by rw [visited.rest])
  spaces := by
    rw [visited.rest]
    exact fun _ member => member
  lookup r' q root' same := by
    have upper : s.1.tableAt r' 3 q = m.tableAt r' 3 q := by
      refine tableAt_same owned root' (Nat.le_refl 3) fun k g lower way => ?_
      rw [visited.table_other owned root fun p own => ?_]
      have depths := congrArg List.length (way.path own).2
      simp only [pathTo_length] at depths
      omega
    simp only [MemoryManager.lookup, upper]
    cases found : m.tableAt r' 3 q with
    | none => rfl
    | some t =>
      dsimp only
      rcases visited.entry t (slot 3 q) with kept | ⟨_, user, _⟩
      · exact kept
      · -- A user page of another address space is not in the parent's tables.
        have own := (tableAt_onWay owned root' (Nat.le_refl 3) found).user owned user
        by_cases here : r' = r
        · subst here
          exact absurd ⟨rfl, by simpa [MemoryManager.lookup, found] using user⟩ same
        · rw [visited.table_other owned root fun p other => ?_]
          rw [own.1, Owner.table.injEq] at other
          exact here other.1

end Visited

end PickleOS.Memory
