import PickleOS.Memory.Leaves

set_option autoImplicit false

namespace PickleOS.Memory

variable {owner owner' : Frame → Owner} {m m' : MemoryManager} {f t t' r cr3 : Frame} {i page : Nat}

theorem pathTo_take {depth : Nat} {q q' : Nat} (same : pathTo (depth + 1) q = pathTo (depth + 1) q') :
    pathTo depth q = pathTo depth q' ∧ slot depth q = slot depth q' := by
  rw [pathTo_succ, pathTo_succ] at same
  have both := List.append_inj same (by simp [pathTo_length])
  exact ⟨both.1, by simpa using both.2⟩

theorem pathTo_eq {q q' : Nat} : pathTo 4 q = pathTo 4 q' ↔ q % 512 ^ 4 = q' % 512 ^ 4 := by
  -- Four levels look at 36 bits of a page number.
  simp only [pathTo, slot, show List.range 4 = [0, 1, 2, 3] from rfl, List.map_cons, List.map_nil,
    List.cons.injEq,
    Nat.reduceSub, Nat.reducePow, Nat.pow_zero, Nat.div_one, and_true]
  omega

theorem tableAt_path {depth : Nat} {q q' : Nat} (same : pathTo depth q = pathTo depth q') :
    m.tableAt r depth q = m.tableAt r depth q' := by
  -- Pages that take the same slots go through the same tables.
  induction depth with
  | zero => rfl
  | succ depth ih =>
    have both := pathTo_take same
    simp only [MemoryManager.tableAt, ih both.1, both.2]

theorem lookup_path {depth : Nat} {q q' : Nat} (same : pathTo (depth + 1) q = pathTo (depth + 1) q') :
    m.lookup r depth q = m.lookup r depth q' := by
  have both := pathTo_take same
  simp only [MemoryManager.lookup, tableAt_path both.1, both.2]

theorem tableAt_table (same : m'.table = m.table) (r : Frame) (k q : Nat) :
    m'.tableAt r k q = m.tableAt r k q := by
  -- Only the tables matter.
  induction k with
  | zero => rfl
  | succ k ih => simp only [MemoryManager.tableAt, ih, same]

theorem lookup_table (same : m'.table = m.table) (r : Frame) (k q : Nat) :
    m'.lookup r k q = m.lookup r k q := by
  simp only [MemoryManager.lookup, tableAt_table same, same]

theorem tableAt_succ {depth q : Nat} :
    m.tableAt r (depth + 1) q =
      if (m.lookup r depth q).IsUnused ∨ (m.lookup r depth q).flags.huge then none else
        some (m.lookup r depth q).frame := by
  cases found : m.tableAt r depth q with
  | none => simp [MemoryManager.tableAt, MemoryManager.lookup, found, Entry.IsUnused]
  | some t => simp [MemoryManager.tableAt, MemoryManager.lookup, found]

theorem tableAt_none {depth k q : Nat} (none : m.tableAt r depth q = none) (deeper : depth ≤ k) :
    m.tableAt r k q = Option.none := by
  induction k with
  | zero =>
    obtain rfl : depth = 0 := by omega
    exact none
  | succ k ih =>
    by_cases same : depth = k + 1
    · rw [← same, none]
    · simp [MemoryManager.tableAt, ih (by omega)]

theorem tableAt_same {depth q : Nat} (owned : Owned owner m) (root : owner r = .table r []) (upper : depth ≤ 3)
    (same : ∀ k g, k < depth → OnWay owner r k q g → m'.table g (slot k q) = m.table g (slot k q)) :
    m'.tableAt r depth q = m.tableAt r depth q := by
  -- The tables above an entry do not depend on what lies below them.
  induction depth with
  | zero => rfl
  | succ depth ih =>
    have above := ih (by omega) (fun k g lower => same k g (by omega))
    simp only [MemoryManager.tableAt, above]
    cases found : m.tableAt r depth q with
    | none => rfl
    | some g =>
      have entry := same depth g (by omega) (tableAt_onWay owned root (by omega) found)
      simp [entry]

theorem lookup_same {depth q : Nat} (owned : Owned owner m) (root : owner r = .table r []) (upper : depth ≤ 3)
    (same : ∀ k g, k ≤ depth → OnWay owner r k q g → m'.table g (slot k q) = m.table g (slot k q)) :
    m'.lookup r depth q = m.lookup r depth q := by
  have above : m'.tableAt r depth q = m.tableAt r depth q :=
    tableAt_same owned root upper (fun k g lower => same k g (by omega))
  simp only [MemoryManager.lookup, above]
  cases found : m.tableAt r depth q with
  | none => rfl
  | some g => exact same depth g (Nat.le_refl depth) (tableAt_onWay owned root upper found)

theorem Builds.lookup_other {r' : Frame} {depth q : Nat} (builds : Builds r owner m owner' m')
    (owned : Owned owner m)
    (root : owner r' = .table r' []) (other : r' ≠ r) (upper : depth ≤ 3) :
    m'.lookup r' depth q = m.lookup r' depth q := by
  -- Other address spaces look as before.
  refine lookup_same owned root upper (fun k g _ way => ?_)
  cases way with
  | inl own => rw [builds.spared g (by simp [own]) (by simp [own, other])]
  | inr kernel =>
    obtain ⟨low, kernel⟩ := kernel
    rw [builds.spared g (by simp [kernel]) (by simp [kernel])]

/-- What becomes of the entry through which a mapper goes down, and of the table below it. -/
structure Entered (owner : Frame → Owner) (m : MemoryManager) (t : Frame) (i : Nat) (flags : Flags)
    (m' : MemoryManager) (t' : Frame) : Prop where
  entry : m'.table t i = ⟨t', (m.table t i).flags.union flags⟩
  others : ∀ g j, owner g ≠ .free → ¬(g = t ∧ j = i) → m'.table g j = m.table g j
  below : (m.table t i).IsUnused → ∀ j, m'.table t' j = .unused
  same : ¬(m.table t i).IsUnused → t' = (m.table t i).frame
  small : (m.table t i).flags.huge = false

theorem Flags.empty_union (flags : Flags) : Flags.union {} flags = flags := by simp [Flags.union]

theorem Descends.builds {flags : Flags} {path : List Nat} (owned : Owned owner m)
    (label : owner t = .table r path)
    (upper : path.length < 3) (bound : i < 512) (own : path = [] → t = r ∧ Private owner m r ∧ m.PrivateSlot i)
    (present : flags.present = true) (small : flags.huge = false) (next : Descends m t i flags m' t') :
    ∃ owner', Builds r owner m owner' m' ∧ owner' t' = .table r (path ++ [i]) ∧
    Entered owner m t i flags m' t' := by
  cases next with
  | @created _ m₁ vacant fresh =>
    have slots (j : Nat) (rest : List Nat) (known : path ++ [i] = j :: rest) : m.PrivateSlot j := by
      cases path with
      | nil =>
        obtain ⟨rfl, _⟩ := List.cons.inj known
        exact (own rfl).2.2
      | cons k path =>
        obtain ⟨rfl, _⟩ := List.cons.inj known
        exact owned.slots t r k path label
    have first := Builds.take_table (r := r) owned fresh (path ++ [i]) slots (by simp)
    have free := owned.free_frame fresh
    have different : t ≠ t' := fun same => by rw [same, free] at label; simp at label
    have table : m₁.table = m.table := by rw [(allocated fresh).1]
    have taken : (Function.update owner t' (.table r (path ++ [i]))) t' = .table r (path ++ [i]) := by simp
    have label' : (Function.update owner t' (.table r (path ++ [i]))) t = .table r path := by
      rw [first.grows t (by simp [label]), label]
    refine ⟨_, first.trans (Builds.setEntry first.owned label' (Or.inr ?_) (by omega) ?_ ?_), taken, ?_⟩
    · simp [upper, small, present]
    · intro root _ _
      simp [root]
    · exact fun root => (first.slots owned i).mpr (own root).2.2
    · refine ⟨by simp [setEntry_table, Entry.unused_flags vacant, Flags.empty_union],
        fun g j busy elsewhere => ?_,
        fun _ j => ?_, fun used => absurd vacant used, by simp [Entry.unused_flags vacant]⟩
      · have other : g ≠ t' := fun same => busy (by rw [same, free])
        simp only [setEntry_table, elsewhere, if_false]
        simp [MemoryManager.zeroTable, other, table]
      · have other : ¬(t' = t ∧ j = i) := fun here => different here.1.symm
        simp only [setEntry_table, other, if_false]
        simp [MemoryManager.zeroTable]
  | existing used small' =>
    have fits := owned.entries t i bound
    rw [label] at fits
    have leads : owner (m.table t i).frame = .table r (path ++ [i]) := by
      cases fits with
      | inl unused => exact absurd unused used
      | inr fits =>
        simp only [upper, if_true] at fits
        cases fits.2.2 with
        | inl table => exact table
        | inr shared =>
          obtain ⟨here, private_root, slot⟩ := own shared.1
          have table := (private_root i bound).2 slot (by rwa [← here])
          rw [here, shared.1]
          exact table
    refine ⟨owner, Builds.setEntry owned label (Or.inr ?_) (by omega) ?_ fun root => (own root).2.2, leads, ?_⟩
    · simp [upper, Flags.union, small, small', leads, present]
    · intro root _ _
      simpa [root] using leads
    · exact ⟨by simp [setEntry_table], fun g j _ elsewhere =>
        by simp only [setEntry_table, elsewhere, if_false],
        fun unused => absurd unused used, fun _ => rfl, small'⟩

/-- The view of an address space after its tables above a page were entered down to a depth. -/
structure Deepened (r page : Nat) (flags : Flags) (depth : Nat) (m m' : MemoryManager) : Prop where
  upper : ∀ k q, k < depth → pathTo (k + 1) q = pathTo (k + 1) page →
    (m'.lookup r k q).flags = (m.lookup r k q).flags.union flags
  rest : ∀ k q, k ≤ 3 → ¬(k < depth ∧ pathTo (k + 1) q = pathTo (k + 1) page) →
    m'.lookup r k q = m.lookup r k q

theorem Deepened.leaf {flags : Flags} {depth : Nat} (deepened : Deepened r page flags depth m m')
    (upper : depth ≤ 3) (q : Nat) :
    m'.lookup r 3 q = m.lookup r 3 q :=
  deepened.rest 3 q (Nat.le_refl 3) fun here => Nat.not_lt.mpr upper here.1

theorem Entered.lookup {depth k q : Nat} {flags : Flags} (owned : Owned owner m) (root : owner r = .table r [])
    (upper : depth < 3) (found : m.tableAt r depth page = some t)
    (label : owner t = .table r (pathTo depth page))
    (entered : Entered owner m t (slot depth page) flags m' t') (present : flags.present = true)
    (small : flags.huge = false) (bound : k ≤ 3) :
    m'.lookup r k q = if k = depth ∧ pathTo (depth + 1) q = pathTo (depth + 1) page then
      ⟨t', (m.lookup r depth page).flags.union flags⟩ else m.lookup r k q := by
  have entry : m.lookup r depth page = m.table t (slot depth page) := by simp [MemoryManager.lookup, found]
  -- Off the page's way nothing changes.
  have elsewhere {k' : Nat} {g : Frame} (way : OnWay owner r k' q g)
      (off : k' ≠ depth ∨ pathTo (depth + 1) q ≠ pathTo (depth + 1) page) :
      m'.table g (slot k' q) = m.table g (slot k' q) := by
    refine entered.others g _ way.busy (fun here => ?_)
    have same := (way.path (by rw [here.1]; exact label)).2
    have depths : depth = k' := by rw [← pathTo_length depth page, same, pathTo_length]
    subst depths
    cases off with
    | inl off => exact off rfl
    | inr off => exact off (by rw [pathTo_succ, pathTo_succ, same, here.2])
  by_cases on_way : pathTo (depth + 1) q = pathTo (depth + 1) page
  · have both := pathTo_take on_way
    have above : m'.tableAt r depth q = some t := by
      rw [tableAt_same owned root (by omega) (fun k' g lower way => elsewhere way (Or.inl (by omega))),
        tableAt_path both.1, found]
    have at_depth : m'.lookup r depth q = ⟨t', (m.table t (slot depth page)).flags.union flags⟩ := by
      simp only [MemoryManager.lookup, above, both.2, entered.entry]
    have below (deeper : depth < k) : m'.lookup r k q = m.lookup r k q := by
      have lower : m'.tableAt r (depth + 1) q = some t' := by
        simp [tableAt_succ, at_depth, Entry.IsUnused, Entry.unused, Flags.union, present, small, entered.small]
      have entry_q : m.lookup r depth q = m.table t (slot depth page) := by rw [lookup_path on_way, entry]
      by_cases used : (m.table t (slot depth page)).IsUnused
      · have missing : m.tableAt r (depth + 1) q = none := by simp [tableAt_succ, entry_q, used]
        have before : m.lookup r k q = .unused := by
          simp [MemoryManager.lookup, tableAt_none missing (show depth + 1 ≤ k by omega)]
        rw [before]
        have empty : m'.lookup r (depth + 1) q = .unused := by
          simp [MemoryManager.lookup, lower, entered.below used]
        by_cases next : k = depth + 1
        · rw [next, empty]
        · have missing' : m'.tableAt r (depth + 2) q = none := by simp [tableAt_succ, empty, Entry.IsUnused]
          simp [MemoryManager.lookup, tableAt_none missing' (show depth + 2 ≤ k by omega)]
      · have lower_before : m.tableAt r (depth + 1) q = some t' := by
          simp [tableAt_succ, entry_q, used, entered.small, entered.same used]
        have tables (k' : Nat) (deep : depth < k') (upper : k' ≤ 3) : m'.tableAt r k' q = m.tableAt r k' q := by
          induction k' with
          | zero => omega
          | succ k' ih =>
            by_cases first : k' = depth
            · rw [first, lower, lower_before]
            · have same := ih (by omega) (by omega)
              simp only [MemoryManager.tableAt, same]
              cases found' : m.tableAt r k' q with
              | none => rfl
              | some g =>
                have way := tableAt_onWay owned root (by omega) found'
                simp [elsewhere way (Or.inl first)]
        simp only [MemoryManager.lookup, tables k deeper bound]
        cases found' : m.tableAt r k q with
        | none => rfl
        | some g => exact elsewhere (tableAt_onWay owned root bound found') (Or.inl (by omega))
    by_cases here : k = depth
    · subst here
      simp [on_way, at_depth, entry]
    · simp only [here, false_and, if_false]
      by_cases deeper : depth < k
      · exact below deeper
      · exact lookup_same owned root bound (fun k' g lower way => elsewhere way (Or.inl (by omega)))
  · simp only [on_way, and_false, if_false]
    exact lookup_same owned root bound (fun k' g _ way => elsewhere way (Or.inr on_way))

theorem Descent.builds {flags : Flags} {depth : Nat} (owned : Owned owner m)
    (private_root : Private owner m cr3)
    (slots : m.PrivateSlot (slot 0 page)) (present : flags.present = true) (small : flags.huge = false)
    (upper : depth ≤ 3)
    (down : Descent m cr3 page flags depth m' t) :
    ∃ owner', Builds cr3 owner m owner' m' ∧ owner' t = .table cr3 (pathTo depth page) ∧
      m'.tableAt cr3 depth page = some t ∧ Deepened cr3 page flags depth m m' := by
  -- Within private slots the tables above a page are the address space's own, and only they are entered.
  induction down with
  | root =>
    exact ⟨owner, .refl owned, private_root.root, rfl,
      ⟨fun _ _ lower => absurd lower (Nat.not_lt_zero _), fun _ _ _ _ => rfl⟩⟩
  | @next depth m₁ m₂ t t' above step ih =>
    obtain ⟨owner₁, builds, label, found, deepened⟩ := ih (by omega)
    have slots' := (builds.slots owned (slot 0 page)).mpr slots
    have private_root' := private_root.builds builds
    have own (empty : pathTo depth page = []) : t = cr3 ∧ Private owner₁ m₁ cr3 ∧
      m₁.PrivateSlot (slot depth page) := by
      have zero : depth = 0 := by rw [← pathTo_length depth page, empty]; rfl
      subst zero
      cases found
      exact ⟨rfl, private_root', slots'⟩
    obtain ⟨owner₂, more, label', entered⟩ :=
      step.builds builds.owned label (by rw [pathTo_length]; omega) (slot_lt _ _) own present small
    have view (k q : Nat) (bound : k ≤ 3) :=
      entered.lookup (k := k) (q := q) builds.owned private_root'.root (by omega)
        found label present small bound
    have here : m₂.lookup cr3 depth page = ⟨t', (m₁.lookup cr3 depth page).flags.union flags⟩ := by
      simpa using view depth page (by omega)
    have small' : (m₁.lookup cr3 depth page).flags.huge = false := by
      simpa [MemoryManager.lookup, found] using entered.small
    refine ⟨owner₂, builds.trans more, by rw [pathTo_succ]; exact label', ?_,
      ⟨fun k q lower same => ?_, fun k q bound off => ?_⟩⟩
    · simp [tableAt_succ, here, Entry.IsUnused, Entry.unused, Flags.union, present, small, small']
    · by_cases last : k = depth
      · subst last
        rw [view k q (by omega), if_pos ⟨rfl, same⟩, lookup_path same]
        rw [deepened.rest k page (by omega) (by omega)]
      · rw [view k q (by omega), if_neg (by omega)]
        exact deepened.upper k q (by omega) same
    · rw [view k q bound, if_neg (fun here => off ⟨by omega, by rw [here.1]; exact here.2⟩)]
      exact deepened.rest k q bound (fun here => off ⟨by omega, here.2⟩)

theorem tableAt_setLeaf {e : Entry} {k q : Nat} (owned : Owned owner m) (root : owner r = .table r [])
    (label : owner t = .table r (pathTo 3 page)) (bound : k ≤ 3) :
    (m.setEntry t (slot 3 page) e).tableAt r k q = m.tableAt r k q := by
  refine tableAt_same owned root bound (fun k' g lower way => ?_)
  rw [setEntry_table, if_neg]
  intro here
  have same := (way.path (by rw [here.1]; exact label)).2
  have depths : 3 = k' := by rw [← pathTo_length 3 page, same, pathTo_length]
  omega

theorem lookup_setLeaf {e : Entry} {k q : Nat} (owned : Owned owner m) (root : owner r = .table r [])
    (label : owner t = .table r (pathTo 3 page)) (found : m.tableAt r 3 page = some t) (bound : k ≤ 3) :
    (m.setEntry t (slot 3 page) e).lookup r k q = if k = 3 ∧
      pathTo 4 q = pathTo 4 page then e else m.lookup r k q := by
  -- The view of an address space after a leaf was set.
  have elsewhere {k' : Nat} {g : Frame} (way : OnWay owner r k' q g)
    (off : k' ≠ 3 ∨ pathTo 4 q ≠ pathTo 4 page) :
      (m.setEntry t (slot 3 page) e).table g (slot k' q) = m.table g (slot k' q) := by
    rw [setEntry_table, if_neg]
    intro here
    have same := (way.path (by rw [here.1]; exact label)).2
    have depths : 3 = k' := by rw [← pathTo_length 3 page, same, pathTo_length]
    subst depths
    cases off with
    | inl off => exact off rfl
    | inr off => exact off (by rw [pathTo_succ 3 q, pathTo_succ 3 page, same, here.2])
  by_cases here : k = 3 ∧ pathTo 4 q = pathTo 4 page
  · obtain ⟨rfl, same⟩ := here
    have both := pathTo_take same
    have above : (m.setEntry t (slot 3 page) e).tableAt r 3 q = some t := by
      rw [tableAt_setLeaf owned root label (Nat.le_refl 3), tableAt_path both.1, found]
    simp [MemoryManager.lookup, above, both.2, setEntry_table, same]
  · rw [if_neg here]
    refine lookup_same owned root bound (fun k' g lower way => elsewhere way ?_)
    by_cases last : k' = 3
    · exact Or.inr (fun same => here ⟨by omega, same⟩)
    · exact Or.inl last

theorem lookup_setLeaf_other {r' : Frame} {e : Entry} {k q : Nat} (owned : Owned owner m)
    (root : owner r' = .table r' [])
    (other : r' ≠ r) (label : owner t = .table r (pathTo 3 page)) (bound : k ≤ 3) :
    (m.setEntry t (slot 3 page) e).lookup r' k q = m.lookup r' k q := by
  -- Setting a leaf changes no other address space.
  refine lookup_same owned root bound (fun k' g _ way => ?_)
  rw [setEntry_table, if_neg]
  intro here
  exact other (way.path (by rw [here.1]; exact label)).1.symm

def MemoryManager.OutOfFrames (m : MemoryManager) : Prop :=
  m.frameAllocator.usableFrames.length < m.frameAllocator.next

theorem outOfFrames (none : m.allocateFrame = (none, m')) : m'.OutOfFrames := by
  simp only [MemoryManager.allocateFrame, Prod.mk.injEq] at none
  obtain ⟨out, rfl⟩ := none
  exact Nat.lt_succ_of_le (List.getElem?_eq_none_iff.mp out)

theorem MapsTo.builds {frame : Frame} {flags : Flags} {result : Except MapToError Unit} (owned : Owned owner m)
    (private_root : Private owner m cr3) (slots : m.PrivateSlot (slot 0 page)) (present : flags.present = true)
    (maps : MapsTo m cr3 page frame flags result m') :
    ∃ owner' m₁, Builds cr3 owner m owner' m₁ ∧ (∀ q, m₁.lookup cr3 3 q = m.lookup cr3 3 q) ∧
      ((∃ error, result = .error error ∧ m' = m₁ ∧
          (error = .pageAlreadyMapped ∧ ¬(m₁.lookup cr3 3 page).IsUnused ∨
            error = .frameAllocationFailed ∧ m₁.OutOfFrames)) ∨
        result = .ok () ∧ ∃ t, owner' t = .table cr3 (pathTo 3 page) ∧ m₁.tableAt cr3 3 page = some t ∧
          (m₁.table t (slot 3 page)).IsUnused ∧ m' = m₁.setEntry t (slot 3 page) ⟨frame, flags⟩) := by
  -- A page is mapped at the end of a chain of the address space's own tables, or nothing is.
  have parent_present : flags.parent.present = true := present
  have parent_small : flags.parent.huge = false := rfl
  have descends {depth : Nat} {m₁ : MemoryManager} {t : Frame} (upper : depth ≤ 3)
      (down : Descent m cr3 page flags.parent depth m₁ t) :=
    down.builds owned private_root slots parent_present parent_small upper
  cases maps with
  | mapped down vacant =>
    obtain ⟨owner', builds, label, found, deepened⟩ := descends (Nat.le_refl 3) down
    exact ⟨owner', _, builds, deepened.leaf (Nat.le_refl 3), Or.inr ⟨rfl, _, label, found, vacant, rfl⟩⟩
  | alreadyMapped down used =>
    obtain ⟨owner', builds, _, found, deepened⟩ := descends (Nat.le_refl 3) down
    refine ⟨owner', _, builds, deepened.leaf (Nat.le_refl 3), Or.inl ⟨_, rfl, rfl, Or.inl ⟨rfl, ?_⟩⟩⟩
    simpa [MemoryManager.lookup, found] using used
  | @hugeParent m₁ _ t depth upper down used huge after =>
    obtain ⟨owner', builds, label, _⟩ := descends (Nat.le_of_lt upper) down
    have fits := builds.owned.entries t (slot depth page) (slot_lt _ _)
    rw [label] at fits
    cases fits with
    | inl unused => exact absurd unused used
    | inr fits =>
      simp only [pathTo_length, upper, if_true] at fits
      simp [fits.2.1] at huge
  | noFrame upper down vacant exhausted =>
    obtain ⟨owner', builds, _, _, deepened⟩ := descends (Nat.le_of_lt upper) down
    have more := Builds.exhausted (r := cr3) builds.owned exhausted
    have same (q : Nat) := lookup_table (congrArg (·.2.table) exhausted.symm) cr3 3 q
    exact ⟨owner', _, builds.trans more, fun q => (same q).trans (deepened.leaf (Nat.le_of_lt upper) q),
      Or.inl ⟨_, rfl, rfl, Or.inr ⟨rfl, outOfFrames exhausted⟩⟩⟩

end PickleOS.Memory
