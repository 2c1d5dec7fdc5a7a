import PickleOS.Memory.Building

set_option autoImplicit false

namespace PickleOS.Memory

variable {owner : Frame → Owner} {m : MemoryManager} {f t r : Frame} {i page : Nat}

/-- A table that the address space reaches on the way to a page: its own, or one of the kernel's. -/
def OnWay (owner : Frame → Owner) (r : Frame) (depth page : Nat) (t : Frame) : Prop :=
  owner t = .table r (pathTo depth page) ∨ ∃ low, owner t = .kernel depth low

theorem OnWay.busy {depth : Nat} (way : OnWay owner r depth page t) : owner t ≠ .free := by
  cases way with
  | inl own => simp [own]
  | inr kernel =>
    obtain ⟨low, kernel⟩ := kernel
    simp [kernel]

theorem OnWay.path {r' : Frame} {depth : Nat} {path : List Nat} (way : OnWay owner r depth page t)
    (label : owner t = .table r' path) : r' = r ∧ path = pathTo depth page := by
  cases way with
  | inl own =>
    rw [label, Owner.table.injEq] at own
    exact own
  | inr kernel =>
    obtain ⟨low, kernel⟩ := kernel
    simp [label] at kernel

theorem OnWay.next {depth : Nat} (owned : Owned owner m) (way : OnWay owner r depth page t) (upper : depth < 3)
    (used : ¬(m.table t (slot depth page)).IsUnused) :
    (m.table t (slot depth page)).flags.huge = true ∧ (m.table t (slot depth page)).flags.user = false ∧
      0 < depth ∨
      (m.table t (slot depth page)).flags.huge = false ∧
        OnWay owner r (depth + 1) page (m.table t (slot depth page)).frame := by
  have fits := (owned.entries t (slot depth page) (slot_lt _ _)).resolve_left
  cases way with
  | inl own =>
    rw [own] at fits
    have fits := fits used
    simp only [pathTo_length, upper, if_true] at fits
    refine Or.inr ⟨fits.2.1, ?_⟩
    cases fits.2.2 with
    | inl table => exact Or.inl (by rw [pathTo_succ]; exact table)
    | inr shared =>
      have zero : depth = 0 := by rw [← pathTo_length depth page, shared.1]; rfl
      subst zero
      exact Or.inr ⟨_, shared.2⟩
  | inr kernel =>
    obtain ⟨low, kernel⟩ := kernel
    rw [kernel] at fits
    have fits := fits used
    simp only [upper, if_true] at fits
    cases fits.2 with
    | inl huge => exact Or.inl ⟨huge.1, huge.2.1, huge.2.2.2⟩
    | inr small => exact Or.inr ⟨small.1, Or.inr ⟨_, small.2⟩⟩

theorem tableAt_above {depth : Nat} (found : m.tableAt r (depth + 1) page = some t) :
    ∃ t', m.tableAt r depth page = some t' ∧ ¬(m.table t' (slot depth page)).IsUnused ∧
      (m.table t' (slot depth page)).flags.huge = false ∧ (m.table t' (slot depth page)).frame = t := by
  simp only [MemoryManager.tableAt, Option.bind_eq_some_iff] at found
  obtain ⟨t', above, next⟩ := found
  split at next
  next => cases next
  next entry =>
    simp only [not_or, Bool.not_eq_true] at entry
    exact ⟨t', above, entry.1, entry.2, Option.some.inj next⟩

theorem tableAt_onWay {depth : Nat} (owned : Owned owner m) (root : owner r = .table r []) (upper : depth ≤ 3)
    (found : m.tableAt r depth page = some t) : OnWay owner r depth page t := by
  induction depth generalizing t with
  | zero =>
    cases found
    exact Or.inl root
  | succ depth ih =>
    obtain ⟨t', above, used, small, rfl⟩ := tableAt_above found
    have way := ih (by omega) above
    cases way.next owned (by omega) used with
    | inl huge => simp [huge.1] at small
    | inr next => exact next.2

theorem OnWay.user (owned : Owned owner m) (way : OnWay owner r 3 page t)
    (user : (m.table t (slot 3 page)).flags.user = true) :
    owner t = .table r (pathTo 3 page) ∧ UserAt owner m t (slot 3 page) := by
  -- A user's leaf is an entry of the address space's own.
  cases way with
  | inl own => exact ⟨own, ⟨r, _, own, pathTo_length 3 page⟩, slot_lt _ _, user⟩
  | inr kernel =>
    obtain ⟨low, kernel⟩ := kernel
    have fits := owned.entries t (slot 3 page) (slot_lt _ _)
    rw [kernel] at fits
    cases fits with
    | inl unused => simp [Entry.unused_flags unused] at user
    | inr plain =>
      simp only [Nat.lt_irrefl, if_false] at plain
      simp [plain] at user

theorem lookup_user (owned : Owned owner m) (root : owner r = .table r [])
    (user : (m.lookup r 3 page).flags.user = true) :
    ∃ t, m.tableAt r 3 page = some t ∧ owner t = .table r (pathTo 3 page) ∧ UserAt owner m t (slot 3 page) ∧
      m.lookup r 3 page = m.table t (slot 3 page) := by
  unfold MemoryManager.lookup at user ⊢
  cases found : m.tableAt r 3 page with
  | none => simp [found, Entry.unused] at user
  | some t =>
    simp only [found] at user
    have leaf := (tableAt_onWay owned root (Nat.le_refl 3) found).user owned user
    exact ⟨t, rfl, leaf.1, leaf.2, rfl⟩

theorem access_leaf {right : Flags → Bool} (owned : Owned owner m) (root : owner r = .table r [])
    (users : ∀ flags, right flags = true → flags.user = true) (reached : m.access right r page = some f) :
    (m.lookup r 3 page).frame = f ∧ right (m.lookup r 3 page).flags = true := by
  -- What a user's access reaches is a leaf that allows it.
  have walk (levels : Nat) (upper : levels ≤ 3) (t : Frame) (found : m.tableAt r (3 - levels) page = some t)
      (reached : m.walk right page levels t = some f) :
      (m.lookup r 3 page).frame = f ∧ right (m.lookup r 3 page).flags = true := by
    induction levels generalizing t with
    | zero =>
      simp only [MemoryManager.walk] at reached
      simp only [MemoryManager.lookup, found]
      split at reached <;> rename_i allowed
      · simp only [Bool.and_eq_true] at allowed
        exact ⟨Option.some.inj reached, allowed.2⟩
      · simp at reached
    | succ levels ih =>
      have depth : 3 - (levels + 1) = 2 - levels := by omega
      have deeper : 3 - levels = 2 - levels + 1 := by omega
      simp only [MemoryManager.walk] at reached
      split at reached <;> rename_i allowed
      · simp only [Bool.and_eq_true] at allowed
        have user := users _ allowed.2
        have used : ¬(m.table t (slot (2 - levels) page)).IsUnused := fun unused => by
          simp [Entry.unused_flags unused] at user
        rw [depth] at found
        have way := tableAt_onWay owned root (by omega) found
        cases way.next owned (by omega) used with
        | inl huge => simp [huge.2.1] at user
        | inr small =>
          simp only [small.1] at reached
          refine ih (by omega) _ ?_ (by simpa using reached)
          rw [deeper]
          simp [MemoryManager.tableAt, found, used, small.1]
      · simp at reached
  exact walk 3 (Nat.le_refl 3) r rfl reached

theorem Owned.setLeaf (owned : Owned owner m) {path : List Nat} (label : owner t = .table r path)
    (lowest : path.length = 3) {e : Entry} (data : e.flags.user = true → owner e.frame = .data ∧
      e.flags.huge = false) :
    Owned owner (m.setEntry t i e) ∧ (∀ r' j, PrivateAt owner m r' j →
      PrivateAt owner (m.setEntry t i e) r' j) ∧
      ∀ j, (m.setEntry t i e).PrivateSlot j ↔ m.PrivateSlot j := by
  -- A leaf of an address space is set. Its frame holds data if it is a user's.
  have kernel : m.kernelCr3 ≠ t := fun same => by
    have known := owned.kernel
    rw [same, label] at known
    simp at known
  have kernel_table : (m.setEntry t i e).table m.kernelCr3 = m.table m.kernelCr3 := by
    funext j
    simp [setEntry_table, kernel]
  have slots (j : Nat) : (m.setEntry t i e).PrivateSlot j ↔ m.PrivateSlot j := by
    rw [MemoryManager.PrivateSlot, MemoryManager.PrivateSlot, ← kernel_table]
    rfl
  have privates (r' : Frame) (j : Nat) (own : PrivateAt owner m r' j) :
    PrivateAt owner (m.setEntry t i e) r' j := by
    have other : r' ≠ t := by
      intro same
      have root := own.1
      rw [same, label, Owner.table.injEq] at root
      simp [root.2] at lowest
    refine ⟨own.1, fun shared used => ?_⟩
    simp only [setEntry_table, other, false_and, if_false] at used ⊢
    exact own.2 ((slots j).mp shared) used
  refine ⟨⟨owned.distinct, owned.fresh, owned.kernel, fun g j bound => ?_,
    fun r' root j bound => privates r' j (owned.roots r' root j bound), fun g r' j rest known =>
      (slots j).mpr (owned.slots g r' j rest known), fun r' j bound root own => ?_⟩, privates, slots⟩
  · rw [setEntry_table]
    split <;> rename_i here
    · rw [here.1, label]
      exact Or.inr (by simpa [lowest] using data)
    · exact owned.entries g j bound
  · have other : r' ≠ t := by
      rintro rfl
      rw [label, Owner.table.injEq] at root
      simp [root.2] at lowest
    rw [show (m.setEntry t i e).kernelCr3 = m.kernelCr3 from rfl, kernel_table, setEntry_table,
      if_neg fun here => other here.1]
    exact owned.shared r' j bound root fun slot => own ((slots j).mpr slot)

theorem forLeaves_keeps {σ : Type} {memory : σ → MemoryManager} {visit : σ → Frame → Nat → Nat → σ}
    {holds : σ → Prop}
    (owned : ∀ s, holds s → Owned owner (memory s))
    (kept : ∀ s t page, holds s → OnWay owner r 3 page t → holds (visit s t (slot 3 page) page))
    {levels bound : Nat}
    {s : σ} (upper : levels ≤ 3) (fits : bound ≤ 512)
    (way : ∀ q, q / 512 ^ (levels + 1) = page → OnWay owner r (3 - levels) q t) (initial : holds s) :
    holds (MemoryManager.forLeaves memory visit levels bound t page s) := by
  -- What a fork's visit to each entry keeps is kept by the nested loops.
  induction levels generalizing t page bound s with
  | zero =>
    simp only [MemoryManager.forLeaves]
    refine List.foldlRecOn (List.range bound) _ initial (fun s before i member => ?_)
    have small : i < bound := List.mem_range.mp member
    have last : slot 3 (page * 512 + i) = i := by simp [slot]; omega
    have visited := kept s t (page * 512 + i) before (way _ (by simp; omega))
    rwa [last] at visited
  | succ levels ih =>
    simp only [MemoryManager.forLeaves]
    refine List.foldlRecOn (List.range bound) _ initial (fun s before i member => ?_)
    have small : i < bound := List.mem_range.mp member
    split <;> rename_i entry
    · exact before
    · refine ih (by omega) (Nat.le_refl 512) (fun q here => ?_) before
      have deeper : 3 - levels = 3 - (levels + 1) + 1 := by omega
      have power : 512 ^ (levels + 2) = 512 ^ (levels + 1) * 512 := Nat.pow_succ ..
      have parent : q / 512 ^ (levels + 1 + 1) = page := by
        rw [power, ← Nat.div_div_eq_div_mul, here]
        omega
      have here' : slot (3 - (levels + 1)) q = i := by
        have same : 3 - (3 - (levels + 1)) = levels + 1 := by omega
        rw [slot, same, here]
        omega
      have next := (way q parent).next (owned s before) (by omega)
        (by rw [here']; exact fun unused => entry (Or.inl unused))
      rw [here'] at next
      cases next with
      | inl huge => exact absurd (Or.inr huge.1) entry
      | inr small' => rw [deeper]; exact small'.2

end PickleOS.Memory
