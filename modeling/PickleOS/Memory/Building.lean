import PickleOS.Memory.Owners

set_option autoImplicit false

namespace PickleOS.Memory

variable {owner owner' : Frame → Owner} {m m' : MemoryManager} {f t r : Frame} {i : Nat}

theorem allocated (fresh : m.allocateFrame = (some f, m')) :
    m' = { m with frameAllocator := { m.frameAllocator with next := m.frameAllocator.next + 1 } } ∧
      m.frameAllocator.usableFrames.drop m.frameAllocator.next =
        f :: m.frameAllocator.usableFrames.drop (m.frameAllocator.next + 1) := by
  simp only [MemoryManager.allocateFrame, Prod.mk.injEq] at fresh
  refine ⟨fresh.2.symm, ?_⟩
  obtain ⟨bound, found⟩ := List.getElem?_eq_some_iff.mp fresh.1
  rw [← found]
  exact List.drop_eq_getElem_cons bound

theorem Owned.free_frame (owned : Owned owner m) (fresh : m.allocateFrame = (some f, m')) :
    owner f = .free := by
  apply owned.fresh
  rw [(allocated fresh).2]
  exact List.mem_cons_self

theorem Builds.take (owned : Owned owner m) (fresh : m.allocateFrame = (some f, m')) (label : Owner)
    (entries : Nat → Entry) (contents : Nat → UInt8)
    (fits : ∀ i, i < 512 → Fits (Function.update owner f label) label i (entries i))
    (slots : ∀ r i rest, label = .table r (i :: rest) → m.PrivateSlot i)
    (shared : label = .table f [] → ∀ i, i < 512 → ¬m.PrivateSlot i → entries i = m.table m.kernelCr3 i)
    (plain : ∀ i, (∃ r path, label = .table r path ∧ path.length = 3) → (entries i).flags.user = false) :
    Builds r owner m (Function.update owner f label)
      { m' with table := Function.update m.table f entries, byte := Function.update m.byte f contents } := by
  -- A fresh frame becomes somebody's: a table whose entries fit, or data.
  have free := owned.free_frame fresh
  have grows := Extends.of_fresh free label
  obtain ⟨rfl, rest⟩ := allocated fresh
  have taken {g : Frame} {x : Owner} (known : owner g = x) (busy : x ≠ .free) : g ≠ f := by
    intro same
    rw [same, free] at known
    exact busy known.symm
  have leaf {g : Frame} {i : Nat} (at_leaf : UserAt owner m g i) : g ≠ f := by
    obtain ⟨⟨r, path, known, _⟩, _⟩ := at_leaf
    exact taken known (by simp)
  have privates (r : Frame) (i : Nat) (own : PrivateAt owner m r i) : PrivateAt (Function.update owner f label)
      { m with frameAllocator := { m.frameAllocator with next := m.frameAllocator.next + 1 },
               table := Function.update m.table f entries, byte := Function.update m.byte f contents } r i := by
    have other := taken own.1 (by simp)
    have kernel := taken owned.kernel (by simp)
    refine ⟨by simp [other, own.1], fun shared used => ?_⟩
    simp only [MemoryManager.PrivateSlot, Function.update_of_ne other, Function.update_of_ne kernel]
      at shared used ⊢
    have next := own.2 shared used
    rw [grows _ (by simp [next]), next]
  refine ⟨grows, ⟨owned.distinct, fun g member => ?_, ?_, fun g i bound => ?_, fun r root => ?_,
    fun g r i path known => ?_, fun g i bound root own => ?_⟩, rfl, rfl, Nat.le_succ _, rfl,
      fun g busy _ => ?_, fun g i at_leaf => ?_, fun g i at_leaf => ?_, fun r i _ => privates r i,
    fun g busy => ?_⟩
  · have distinct := owned.distinct.sublist (List.drop_sublist m.frameAllocator.next _)
    rw [rest, List.nodup_cons] at distinct
    have other : g ≠ f := fun same => distinct.1 (by rw [← same]; exact member)
    rw [Function.update_of_ne other]
    apply owned.fresh
    rw [rest]
    exact List.mem_cons_of_mem _ member
  · rw [Function.update_of_ne (taken owned.kernel (by simp))]
    exact owned.kernel
  · by_cases same : g = f
    · subst same
      simp only [Function.update_self]
      exact fits i bound
    · simp only [Function.update_of_ne same]
      exact (owned.entries g i bound).extends grows
  · exact fun i bound => privates r i (owned.roots r root i bound)
  · have kernel := taken owned.kernel (by simp)
    simp only [MemoryManager.PrivateSlot, Function.update_of_ne kernel]
    by_cases same : g = f
    · rw [same, Function.update_self] at known
      exact slots r i path known
    · rw [Function.update_of_ne same] at known
      exact owned.slots g r i path known
  · have kernel := taken owned.kernel (by simp)
    simp only [MemoryManager.PrivateSlot, Function.update_of_ne kernel] at own ⊢
    by_cases same : g = f
    · subst same
      rw [Function.update_self] at root ⊢
      exact shared root i bound own
    · rw [Function.update_of_ne same] at root ⊢
      exact owned.shared g i bound root own
  · simp [taken rfl busy]
  · simp [leaf at_leaf]
  · obtain ⟨⟨r, path, known, length⟩, bound, user⟩ := at_leaf
    by_cases same : g = f
    · subst same
      simp only [Function.update_self] at known user
      simp [plain i ⟨r, path, known, length⟩] at user
    · simp only [Function.update_of_ne same] at known user
      exact ⟨⟨r, path, known, length⟩, bound, user⟩
  · simp [taken rfl busy]

theorem Builds.take_table (owned : Owned owner m) (fresh : m.allocateFrame = (some f, m')) (path : List Nat)
    (slots : ∀ i rest, path = i :: rest → m.PrivateSlot i) (lower : path ≠ []) :
    Builds r owner m (Function.update owner f (.table r path)) (m'.zeroTable f) := by
  have builds := Builds.take (r := r) owned fresh (.table r path) (fun _ => .unused) (m.byte f)
    (fun _ _ => Or.inl rfl)
    (fun _ i rest known => slots i rest (Owner.table.inj known).2)
    (fun root => absurd (Owner.table.inj root).2 lower) (fun _ _ => rfl)
  obtain ⟨rfl, _⟩ := allocated fresh
  simpa [MemoryManager.zeroTable] using builds

theorem Builds.take_data (owned : Owned owner m) (fresh : m.allocateFrame = (some f, m'))
    (contents : Nat → UInt8) :
    Builds r owner m (Function.update owner f .data) (m'.setPage f contents) := by
  have builds := Builds.take (r := r) owned fresh .data (m.table f) contents (fun _ _ => Or.inr trivial)
    (by simp) (by simp) (by simp)
  obtain ⟨rfl, _⟩ := allocated fresh
  simpa [MemoryManager.setPage] using builds

theorem Builds.exhausted (owned : Owned owner m) (none : m.allocateFrame = (none, m')) :
    Builds r owner m owner m' := by
  simp only [MemoryManager.allocateFrame, Prod.mk.injEq] at none
  obtain ⟨out, rfl⟩ := none
  have bound := List.getElem?_eq_none_iff.mp out
  refine ⟨.refl owner, ⟨owned.distinct, fun g member => ?_, owned.kernel, owned.entries, owned.roots,
    owned.slots, owned.shared⟩, rfl, rfl,
    Nat.le_succ _, rfl,
    fun _ _ _ => rfl, fun _ _ _ => rfl, fun _ _ at_leaf => at_leaf, fun _ _ _ own => own,
    fun _ _ => rfl⟩
  have member : g ∈ m.frameAllocator.usableFrames.drop (m.frameAllocator.next + 1) := member
  simp [List.drop_eq_nil_of_le (Nat.le_succ_of_le bound)] at member

theorem setEntry_table (m : MemoryManager) (t : Frame) (i : Nat) (e : Entry) (g : Frame) (j : Nat) :
    (m.setEntry t i e).table g j = if g = t ∧ j = i then e else m.table g j := by
  simp only [MemoryManager.setEntry]
  by_cases frame : g = t
  · subst frame
    by_cases entry : j = i <;> simp [entry]
  · simp [frame]

theorem Builds.setEntry (owned : Owned owner m) {path : List Nat} (label : owner t = .table r path) {e : Entry}
    (fits : Fits owner (.table r path) i e)
    (plain : path.length = 3 → (m.table t i).flags.user = false ∧ e.flags.user = false)
    (leads : path = [] → m.PrivateSlot i → ¬e.IsUnused → owner e.frame = .table r [i])
    (private_slot : path = [] → m.PrivateSlot i) :
    Builds r owner m owner (m.setEntry t i e) := by
  -- An entry of an address space that is no user page is replaced by another one.
  have kernel : m.kernelCr3 ≠ t := fun same => by
    have known := owned.kernel
    rw [same, label] at known
    simp at known
  have lowest {g : Frame} (deep : ∃ r path, owner g = .table r path ∧ path.length = 3) (here : g = t) :
    path.length = 3 := by
    obtain ⟨r', path', known, length⟩ := deep
    rw [here, label, Owner.table.injEq] at known
    rwa [known.2]
  have privates (r' : Frame) (j : Nat) (own : PrivateAt owner m r' j) :
    PrivateAt owner (m.setEntry t i e) r' j := by
    refine ⟨own.1, fun shared used => ?_⟩
    rw [setEntry_table] at used ⊢
    have shared' : m.PrivateSlot j := by
      simpa [MemoryManager.PrivateSlot, setEntry_table, kernel,
        show (m.setEntry t i e).kernelCr3 = m.kernelCr3 from rfl]
        using shared
    split at used <;> rename_i here
    · obtain ⟨rfl, rfl⟩ := here
      obtain ⟨rfl, rfl⟩ := Owner.table.inj (own.1.symm.trans label)
      rw [if_pos ⟨rfl, rfl⟩]
      exact leads rfl shared' used
    · rw [if_neg here]
      exact own.2 shared' used
  refine ⟨.refl owner, ⟨owned.distinct, owned.fresh, owned.kernel, fun g j bound => ?_,
    fun r' root j bound => privates r' j (owned.roots r' root j bound), fun g r' j rest known =>
      ?_, fun g j bound root own => ?_⟩, rfl,
    rfl, Nat.le_refl _, rfl, fun g _ other => ?_,
    fun g j at_leaf => ?_, fun g j at_leaf => ?_, fun r' j _ => privates r' j, fun _ _ => rfl⟩
  · rw [setEntry_table]
    split <;> rename_i here
    · rw [here.1, here.2, label]
      exact fits
    · exact owned.entries g j bound
  · simpa [MemoryManager.PrivateSlot, setEntry_table, kernel,
      show (m.setEntry t i e).kernelCr3 = m.kernelCr3 from rfl]
      using owned.slots g r' j rest known
  · have own' : ¬m.PrivateSlot j := by
      simpa [MemoryManager.PrivateSlot, setEntry_table, kernel,
        show (m.setEntry t i e).kernelCr3 = m.kernelCr3 from rfl]
        using own
    have elsewhere : ¬(g = t ∧ j = i) := by
      rintro ⟨rfl, rfl⟩
      exact own' (private_slot (Owner.table.inj (label.symm.trans root)).2)
    rw [setEntry_table, if_neg elsewhere, setEntry_table, if_neg fun here => kernel here.1]
    exact owned.shared g j bound root own'
  · have different : g ≠ t := fun same => other path (by rw [same, label])
    funext j
    simp [setEntry_table, different]
  · have elsewhere : ¬(g = t ∧ j = i) := by
      intro here
      have user := at_leaf.2.2
      rw [here.1, here.2, (plain (lowest at_leaf.1 here.1)).1] at user
      simp at user
    rw [setEntry_table, if_neg elsewhere]
  · have user := at_leaf.2.2
    rw [setEntry_table] at user
    split at user <;> rename_i here
    · rw [(plain (lowest at_leaf.1 here.1)).2] at user
      simp at user
    · exact ⟨at_leaf.1, at_leaf.2.1, user⟩

theorem expectFrame_some (fresh : m.expectFrame = some (f, m')) : m.allocateFrame = (some f, m') := by
  unfold MemoryManager.expectFrame at fresh
  split at fresh
  · rename_i found
    cases fresh
    exact found
  · simp at fresh

theorem foldlM_range_keeps {σ : Type} {f : σ → Nat → Option σ} (holds : Nat → σ → Prop) {n : Nat} {s s' : σ}
    (kept : ∀ i s s', i < n → holds i s → f s i = some s' → holds (i + 1) s') (initial : holds 0 s)
    (done : (List.range n).foldlM f s = some s') : holds n s' := by
  -- What each round of a loop brings about holds after the loop.
  induction n generalizing s' with
  | zero =>
    cases done
    exact initial
  | succ n ih =>
    simp only [List.range_succ, List.foldlM_append, List.foldlM_cons, List.foldlM_nil, Option.bind_eq_bind,
      Option.bind_eq_some_iff, Option.pure_def, Option.some.injEq] at done
    obtain ⟨s₁, before, s₂, last, rfl⟩ := done
    exact kept n s₁ s₂ (Nat.lt_succ_self n) (ih (fun i s s' bound => kept i s s' (by omega)) before) last

/-- A copied entry has the flags of the original and leads to a copy. On the last level it is the
original. -/
def CopyOf (levels : Nat) (below : Frame → Frame → Prop) (e e' : Entry) : Prop :=
  e.flags = e'.flags ∧ (e.IsUnused ↔ e'.IsUnused) ∧ if levels = 0 then e = e' else ¬e'.IsUnused →
    below e.frame e'.frame

def Mirrors (owner : Frame → Owner) (m : MemoryManager) (r : Frame) : Nat → List Nat → Frame → Frame → Prop
  | 0, _, _, _ => True
  | levels + 1, path, f, g =>
    owner f = .table r path ∧ owner g = .kernel path.length true ∧
      ∀ i, i < 512 → CopyOf levels (Mirrors owner m r levels (path ++ [i])) (m.table f i) (m.table g i)

theorem CopyOf.imp {levels : Nat} {below below' : Frame → Frame → Prop}
    {e e' : Entry} (copy : CopyOf levels below e e')
    (kept : below e.frame e'.frame → below' e.frame e'.frame) : CopyOf levels below' e e' := by
  obtain ⟨flags, unused, next⟩ := copy
  refine ⟨flags, unused, ?_⟩
  split <;> rename_i last
  · simpa only [last, if_true] using next
  · simp only [last, if_false] at next
    exact fun used => kept (next used)

theorem Mirrors.keeps {levels : Nat} {path : List Nat}
    {f g : Frame} (mirrors : Mirrors owner m r levels path f g)
    (grows : Extends owner owner') (kernel : ∀ g depth low, owner g = .kernel depth low →
      m'.table g = m.table g)
    (own : ∀ f p, owner f = .table r p → path.length ≤ p.length → m'.table f = m.table f) :
    Mirrors owner' m' r levels path f g := by
  induction levels generalizing path f g with
  | zero => trivial
  | succ levels ih =>
    obtain ⟨label, source, entries⟩ := mirrors
    refine ⟨by rw [grows f (by simp [label]), label], by rw [grows g (by simp [source]), source],
      fun i bound => ?_⟩
    rw [own f path label (Nat.le_refl _), kernel g _ _ source]
    refine (entries i bound).imp (fun next => ih next (fun f p label longer => own f p label ?_))
    rw [List.length_append] at longer
    omega

/-- What holds while a kernel table is copied to a new one, after so many entries. -/
structure Copying (r : Frame) (owner : Frame → Owner) (m : MemoryManager) (level : Nat) (path : List Nat)
    (src f : Frame)
    (entries : Nat) (owner' : Frame → Owner) (m' : MemoryManager) : Prop where
  builds : Builds r owner m owner' m'
  untouched : ∀ g, owner g ≠ .free → m'.table g = m.table g
  label : owner' f = .table r path
  blank : ∀ i, entries ≤ i → m'.table f i = .unused
  copied : ∀ i, i < entries → CopyOf level (Mirrors owner' m' r level (path ++ [i])) (m'.table f i)
    (m'.table src i)

theorem Copying.skip {level i : Nat} {path : List Nat}
    {src f : Frame} (copying : Copying r owner m level path src f i owner' m')
    (unused : (m'.table src i).IsUnused) : Copying r owner m level path src f (i + 1) owner' m' := by
  refine ⟨copying.builds, copying.untouched, copying.label, fun j later => copying.blank j (by omega),
    fun j before => ?_⟩
  by_cases last : j = i
  · rw [last, copying.blank i (Nat.le_refl i), unused]
    exact ⟨rfl, Iff.rfl, by split <;> simp [Entry.IsUnused]⟩
  · exact copying.copied j (by omega)

theorem Copying.next {level i : Nat} {path : List Nat} {src f : Frame} {e : Entry}
    {owner₁ owner₂ : Frame → Owner}
    {m₁ m₂ : MemoryManager} (copying : Copying r owner m level path src f i owner₁ m₁) (fresh : owner f = .free)
    (source : owner src = .kernel path.length true) (more : Builds r owner₁ m₁ owner₂ m₂)
    (untouched : ∀ g, owner₁ g ≠ .free → m₂.table g = m₁.table g)
    (set : Builds r owner₂ m₂ owner₂ (m₂.setEntry f i e))
    (copy : CopyOf level (Mirrors owner₂ m₂ r level (path ++ [i])) e (m₂.table src i)) :
    Copying r owner m level path src f (i + 1) owner₂ (m₂.setEntry f i e) := by
  -- One more entry is set, after the table that it leads to was built.
  have label : owner₂ f = .table r path := by rw [more.grows f (by simp [copying.label]), copying.label]
  have table (g : Frame) (other : g ≠ f) : (m₂.setEntry f i e).table g = m₂.table g := by
    funext j
    simp [setEntry_table, other]
  have old : m₂.table f = m₁.table f := untouched f (by simp [copying.label])
  have apart : src ≠ f := fun same => by rw [same, fresh] at source; simp at source
  have mirrors {j : Nat} {g g' : Frame} (next : Mirrors owner₂ m₂ r level (path ++ [j]) g g') :
      Mirrors owner₂ (m₂.setEntry f i e) r level (path ++ [j]) g g' := by
    refine next.keeps (.refl _) (fun g _ _ kernel => table g ?_) (fun g p known longer => table g ?_)
    · intro same
      rw [same, label] at kernel
      simp at kernel
    · intro same
      rw [same, label, Owner.table.injEq] at known
      rw [← known.2, List.length_append, List.length_singleton] at longer
      omega
  refine ⟨(copying.builds.trans more).trans set, fun g taken => ?_, label, fun j later => ?_,
    fun j before => ?_⟩
  · have other : g ≠ f := fun same => taken (by rw [same, fresh])
    rw [table g other, untouched g (by rwa [copying.builds.grows g taken]), copying.untouched g taken]
  · rw [setEntry_table, if_neg (by omega), old, copying.blank j (by omega)]
  · rw [table src apart]
    by_cases last : j = i
    · rw [last, setEntry_table, if_pos ⟨rfl, rfl⟩]
      exact copy.imp mirrors
    · rw [setEntry_table, if_neg (by omega), old, untouched src]
      · refine (copying.copied j (by omega)).imp (fun next => mirrors (next.keeps more.grows ?_ ?_))
        · exact fun g _ _ kernel => untouched g (by simp [kernel])
        · exact fun g _ known _ => untouched g (by simp [known])
      · rw [copying.builds.grows src (by simp [source]), source]
        simp

theorem deepCopyTable_builds {level : Nat} {src new : Frame} (path : List Nat) (owned : Owned owner m)
    (label : owner src = .kernel path.length true) (depth : path.length + level = 4)
    (first : path.head? = some 0)
    (done : MemoryManager.deepCopyTable level src m = some (new, m')) :
    ∃ owner', Builds r owner m owner' m' ∧ (∀ g, owner g ≠ .free → m'.table g = m.table g) ∧
    owner' new = .table r path ∧
      Mirrors owner' m' r level path new src := by
  -- A table of the kernel's first entry is copied into an address space.
  have lower : 0 < path.length := by cases path <;> simp at first ⊢
  induction level generalizing src new path owner m m' with
  | zero => simp [MemoryManager.deepCopyTable] at done
  | succ level ih =>
    simp only [MemoryManager.deepCopyTable, Option.bind_eq_some_iff, Option.map_eq_some_iff,
      Prod.mk.injEq] at done
    obtain ⟨⟨f, m₁⟩, fresh, m₂, done, rfl, rfl⟩ := done
    have fresh := expectFrame_some fresh
    have free := owned.free_frame fresh
    have slots (i : Nat) (rest : List Nat) (known : path = i :: rest) : m.PrivateSlot i := by
      simp only [known, List.head?_cons, Option.some.injEq] at first
      exact Or.inl first
    have rounds : ∃ owner', Copying r owner m level path src f 512 owner' m₂ := by
      refine foldlM_range_keeps (fun j s => ∃ owner', Copying r owner m level path src f j owner' s)
        (fun i s s' bound before step => ?_) ?_ done
      · obtain ⟨owner₁, copying⟩ := before
        have source : owner₁ src = .kernel path.length true := by
          rw [copying.builds.grows src (by simp [label]), label]
        have fits := copying.builds.owned.entries src i bound
        rw [source] at fits
        split at step <;> rename_i used
        · cases step
          exact ⟨owner₁, copying.skip used⟩
        have fits := fits.resolve_left used
        simp only at fits
        have blank := copying.blank i (Nat.le_refl i)
        split at step <;> rename_i leaf
        · cases step
          have lowest : ¬path.length < 3 := by
            intro upper
            simp only [upper, if_true] at fits
            cases fits.2 with
            | inl huge => simp at huge
            | inr small => simp [small.1] at leaf; omega
          simp only [lowest, if_false] at fits
          have zero : level = 0 := by omega
          refine ⟨owner₁, copying.next free label (.refl copying.builds.owned) (fun _ _ => rfl)
            (.setEntry copying.builds.owned copying.label (Or.inr (by simp [lowest, fits]))
            (fun _ => ⟨?_, fits⟩)
              (by intro root; simp [root] at lower) (by intro root; simp [root] at lower))
              ⟨rfl, Iff.rfl, by simp [zero]⟩⟩
          rw [blank]
          rfl
        · have upper : path.length < 3 := by omega
          simp only [upper, if_true] at fits
          have small := fits.2.resolve_left (by simp)
          simp only [Option.map_eq_some_iff] at step
          obtain ⟨⟨child, s₁⟩, copy, rfl⟩ := step
          obtain ⟨owner₂, more, untouched, theirs, mirrors⟩ := ih (path ++ [i]) copying.builds.owned
            (by rw [List.length_append]; simpa [Nat.ne_of_gt lower] using small.2) (by simp; omega)
            (by simp [first]) copy (by simp)
          have mine : owner₂ f = .table r path := by rw [more.grows f (by simp [copying.label]), copying.label]
          have same : s₁.table src = s.table src := untouched src (by simp [source])
          have present : (⟨child, (s.table src i).flags⟩ : Entry).IsUnused ↔ (s.table src i).IsUnused :=
            iff_of_false (fun unused => by simpa [fits.1] using congrArg Flags.present (Entry.unused_flags unused)) used
          refine ⟨owner₂, copying.next free label more untouched
            (.setEntry more.owned mine (Or.inr (by simp [upper, theirs, small.1, fits.1])) (by omega)
              (by intro root; simp [root] at lower) (by intro root; simp [root] at lower)) ?_⟩
          rw [same]
          exact ⟨rfl, present, by rw [if_neg (by omega)]; exact fun _ => mirrors⟩
      · have table : m₁.table = m.table := by rw [(allocated fresh).1]
        refine ⟨_, .take_table owned fresh path slots (List.ne_nil_of_length_pos lower),
          fun g taken => ?_, by simp, fun i _ => ?_, fun i none => ?_⟩
        · have other : g ≠ f := fun same => taken (by rw [same, free])
          simp [MemoryManager.zeroTable, other, table]
        · simp [MemoryManager.zeroTable]
        · omega
    obtain ⟨owner', copying⟩ := rounds
    have source : owner' src = .kernel path.length true := by
      rw [copying.builds.grows src (by simp [label]), label]
    exact ⟨owner', copying.builds, copying.untouched, copying.label, copying.label, source, copying.copied⟩

theorem zeroTable_setEntry (m : MemoryManager) (t : Frame) (n : Nat) (other : m.kernelCr3 ≠ t) :
    (List.range n).foldl (fun (m : MemoryManager) i => m.setEntry t i (m.table m.kernelCr3 i)) (m.zeroTable t) =
      { m with table := Function.update m.table t fun i => if i < n then m.table m.kernelCr3 i else
        .unused } := by
  induction n with
  | zero => simp [MemoryManager.zeroTable]
  | succ n ih =>
    rw [List.range_succ, List.foldl_append, ih]
    simp only [List.foldl_cons, List.foldl_nil, MemoryManager.setEntry, Function.update_self,
      Function.update_of_ne other,
      Function.update_idem]
    congr 2
    funext i
    by_cases last : i = n
    · simp [last]
    · have before : i < n + 1 ↔ i < n := by omega
      simp [last, before]

/-- The level-4 table of a new address space: slots of the kernel's are shared, except for the first
one. -/
structure Created (owner : Frame → Owner) (m : MemoryManager) (new : Frame) : Prop where
  first : CopyOf 3 (Mirrors owner m new 3 [0]) (m.table new 0) (m.table m.kernelCr3 0)
  shared : ∀ i, i < 512 → i ≠ 0 → m.table new i = m.table m.kernelCr3 i

theorem createUserMapper_builds {new : Frame} (owned : Owned owner m)
    (done : m.createUserMapper = some (new, m')) :
    ∃ owner', Builds new owner m owner' m' ∧ Private owner' m' new ∧ owner new = .free ∧
    Created owner' m' new := by
  simp only [MemoryManager.createUserMapper, Option.bind_eq_some_iff] at done
  obtain ⟨⟨f, m₁⟩, fresh, done⟩ := done
  have fresh := expectFrame_some fresh
  have free := owned.free_frame fresh
  have kernel : m.kernelCr3 ≠ f := fun same => by
    have known := owned.kernel
    rw [same, free] at known
    simp at known
  have kernel_fits (i : Nat) (bound : i < 512) := owned.entries m.kernelCr3 i bound
  simp only [owned.kernel] at kernel_fits
  have begun : Builds f owner m (Function.update owner f (.table f [])) _ :=
    .take owned fresh (.table f []) (fun i => if i < 512 then m.table m.kernelCr3 i else .unused) (m.byte f)
      (fun i bound => by
        simp only [bound, if_true]
        cases kernel_fits i bound with
        | inl unused => exact Or.inl unused
        | inr fits =>
          have small := fits.2.resolve_left (by simp)
          have known : owner (m.table m.kernelCr3 i).frame ≠ .free := by simp [small.2]
          have other : (m.table m.kernelCr3 i).frame ≠ f := fun same => known (by rw [same, free])
          exact Or.inr (by simpa [other, small.1, fits.1] using Or.inr small.2))
      (by simp) (fun _ i bound _ => if_pos bound) (by simp)
  have same := (allocated fresh).1
  have table : m₁.table = m.table := by rw [same]
  have byte : m₁.byte = m.byte := by rw [same]
  have kernelCr3 : m₁.kernelCr3 = m.kernelCr3 := by rw [same]
  simp only [zeroTable_setEntry m₁ f 512 (by rwa [kernelCr3])] at done
  rw [Function.update_eq_self, ← byte, ← table, ← kernelCr3] at begun
  have label : (Function.update owner f (.table f [])) f = .table f [] := by simp
  have kernel_table : (Function.update m₁.table f fun i => if i < 512 then m₁.table m₁.kernelCr3 i else
    .unused) m₁.kernelCr3 =
      m₁.table m₁.kernelCr3 := by simp [kernelCr3, kernel]
  -- Slots other than the first are shared unless they are unused, so they lead nowhere yet.
  have others (i : Nat) (bound : i < 512) (later : i ≠ 0) : PrivateAt (Function.update owner f (.table f []))
      { m₁ with table := Function.update m₁.table f fun i => if i < 512 then m₁.table m₁.kernelCr3 i else
        .unused } f i := by
    refine ⟨label, fun slot used => ?_⟩
    simp only [MemoryManager.PrivateSlot, later, kernel_table, false_or] at slot
    simp [bound, slot] at used
  simp only [kernel_table] at done
  split at done <;> rename_i first
  · simp only [Option.map_eq_some_iff, Prod.mk.injEq] at done
    obtain ⟨⟨l3, m₂⟩, copied, rfl, rfl⟩ := done
    have source : owner (m₁.table m₁.kernelCr3 0).frame = .kernel 1 true := by
      have fits := (kernel_fits 0 (by decide)).resolve_left (by simpa [table, kernelCr3] using first.1)
      have small := fits.2.resolve_left (by simp)
      simpa [table, kernelCr3] using small.2
    obtain ⟨owner₂, more, untouched, leads, mirrors⟩ := deepCopyTable_builds (r := f) [0] begun.owned
      (by rw [begun.grows _ (by simp [source]), source]; rfl) rfl (by simp) copied
    have label₂ : owner₂ f = .table f [] := by rw [more.grows f (by simp), label]
    have used : (m.table m.kernelCr3 0).flags.present = true :=
      ((kernel_fits 0 (by decide)).resolve_left (by simpa [table, kernelCr3] using first.1)).1
    have present : (m₁.table m₁.kernelCr3 0).flags.present = true := by rwa [table, kernelCr3]
    have last : Builds f owner₂ m₂ owner₂ (m₂.setEntry f 0 ⟨l3, (m₁.table m₁.kernelCr3 0).flags⟩) :=
      .setEntry more.owned label₂ (Or.inr (by simp [first.2, leads, present])) (by simp)
        (fun _ _ _ => leads) (fun _ => Or.inl rfl)
    have kernel_same : (m₂.setEntry f 0 ⟨l3, (m₁.table m₁.kernelCr3 0).flags⟩).table
      m₁.kernelCr3 = m₁.table m₁.kernelCr3 := by
      funext i
      rw [setEntry_table, if_neg (fun here => kernel (by rw [← kernelCr3, here.1]))]
      rw [untouched m₁.kernelCr3 (by rw [kernelCr3]; simp [kernel, owned.kernel])]
      simp [kernelCr3, kernel]
    have kernel_root : (m₂.setEntry f 0 ⟨l3, (m₁.table m₁.kernelCr3 0).flags⟩).kernelCr3 = m₁.kernelCr3 :=
      more.kernelCr3
    refine ⟨owner₂, (begun.trans more).trans last, fun i bound => ?_, free, ⟨?_, fun i bound later => ?_⟩⟩
    · by_cases zero : i = 0
      · subst zero
        exact ⟨label₂, fun _ _ => by simp [setEntry_table, leads]⟩
      · exact (more.trans last).privates f i bound (others i bound zero)
    · rw [kernel_root, kernel_same, setEntry_table, if_pos ⟨rfl, rfl⟩]
      refine ⟨rfl, iff_of_false (fun unused => ?_) first.1, ?_⟩
      · simpa [present] using congrArg Flags.present (Entry.unused_flags unused)
      · rw [if_neg (by decide)]
        refine fun _ => mirrors.keeps (.refl _) (fun g _ _ known => ?_) (fun g p known longer => ?_)
        all_goals
          funext j
          rw [setEntry_table, if_neg]
          rintro ⟨rfl, _⟩
          simp [label₂] at known
        subst known
        simp at longer
    · rw [kernel_root, kernel_same, setEntry_table, if_neg (by simp [later]), untouched f (by simp)]
      simp [bound]
  · simp only [Option.some.injEq, Prod.mk.injEq] at done
    obtain ⟨rfl, rfl⟩ := done
    -- The kernel's own first entry is unused here: it is never a huge page.
    have unused : (m₁.table m₁.kernelCr3 0).IsUnused := by
      by_contra used
      have fits := (kernel_fits 0 (by decide)).resolve_left (by simpa [table, kernelCr3] using used)
      have small := fits.2.resolve_left (by simp)
      exact first ⟨used, by simpa [table, kernelCr3] using small.1⟩
    refine ⟨_, begun, fun i bound => ?_, free, ⟨?_, fun i bound _ => by simp [bound, kernel_table]⟩⟩
    · by_cases zero : i = 0
      · subst zero
        exact ⟨label, fun _ used => absurd unused (by simpa using used)⟩
      · exact others i bound zero
    · simp only [kernel_table]
      simp [CopyOf, unused]

end PickleOS.Memory
