import PickleOS.Memory.Levels

set_option autoImplicit false

/-!
# What the memory operations leave alone

Whatever is done to an address space, the tables above all pages only get more rights, and frames
that somebody has keep their contents.
-/

namespace PickleOS.Memory

variable {level level' level'' : Frame → Option Nat} {m m' m'' : MemoryManager} {f t r cr3 frame : Frame}
    {d i page q : Nat}
  {flags : Flags} {e : Entry}

/-- What any operation does to memory, apart from the leaves. -/
structure Raises (level : Frame → Option Nat) (m : MemoryManager) (level' : Frame → Option Nat)
    (m' : MemoryManager) : Prop where
  leveled : Leveled level' m'
  serves : Serves level level'
  frames : m'.frameAllocator.usableFrames = m.frameAllocator.usableFrames
  next : m.frameAllocator.next ≤ m'.frameAllocator.next
  upper : ∀ f d i, level f = some d → d < 3 → ¬(m.table f i).IsUnused →
    ∃ more : Flags, more.huge = false ∧ m'.table f i = ⟨(m.table f i).frame, (m.table f i).flags.union more⟩
  bytes : ∀ f, ¬m.Fresh f → m'.byte f = m.byte f

theorem Deepens.raises (deepens : Deepens level m level' m') : Raises level m level' m' :=
  ⟨deepens.leveled, deepens.serves, deepens.grows.frames, deepens.grows.next, deepens.upper, deepens.bytes⟩

namespace Raises

theorem refl (leveled : Leveled level m) : Raises level m level m := (Deepens.refl leveled).raises

theorem fresh (raises : Raises level m level' m') (later : m'.Fresh f) : m.Fresh f := by
  rw [MemoryManager.Fresh, raises.frames] at later
  exact (List.drop_sublist_drop_left _ raises.next).subset later

theorem trans (first : Raises level m level' m') (second : Raises level' m' level'' m'') :
    Raises level m level'' m'' where
  leveled := second.leveled
  serves := first.serves.trans second.serves
  frames := second.frames.trans first.frames
  next := Nat.le_trans first.next second.next
  upper f d i label lower used := by
    obtain ⟨more, small, entry⟩ := first.upper f d i label lower used
    obtain ⟨more', small', entry'⟩ :=
      second.upper f d i (first.serves f d label) lower (by rw [entry]; exact Entry.union_used used)
    refine ⟨more.union more', by simp [Flags.union, small, small'], ?_⟩
    rw [entry', entry, Flags.union_union]
  bytes f old := (second.bytes f fun later => old (first.fresh later)).trans (first.bytes f old)

theorem setPage (raises : Raises level m level' m') (fresh : m.Fresh f) (contents : Nat → UInt8) :
    Raises level m level' (m'.setPage f contents) where
  leveled := raises.leveled.setPage f contents
  serves := raises.serves
  frames := raises.frames
  next := raises.next
  upper := raises.upper
  bytes g old := by
    have other : g ≠ f := fun same => old (same ▸ fresh)
    exact (Function.update_of_ne other ..).trans (raises.bytes g old)

theorem store (raises : Raises level m level' m') (root : level' cr3 = some 0) :
    Raises level m level' (m'.storeUserMapper cr3) :=
  ⟨raises.leveled.store root, raises.serves, raises.frames, raises.next, raises.upper, raises.bytes⟩

theorem setEntry (raises : Raises level m level' m') (label : level' t = some d)
    (leads : d < 3 → ¬e.IsUnused → e.flags.huge = false → level' e.frame = some (d + 1))
    (apart : level t = none ∨ d = 3) :
    Raises level m level' (m'.setEntry t i e) where
  leveled := raises.leveled.setEntry label leads
  serves := raises.serves
  frames := raises.frames
  next := raises.next
  upper g d' j known lower used := by
    have other : g ≠ t := by
      rintro rfl
      rcases apart with new | last
      · rw [new] at known
        cases known
      · have same := Option.some.inj (label.symm.trans (raises.serves g d' known))
        omega
    obtain ⟨more, small, entry⟩ := raises.upper g d' j known lower used
    refine ⟨more, small, ?_⟩
    rw [setEntry_table, if_neg fun here => other here.1, entry]
  bytes := raises.bytes

theorem setLeaf (raises : Raises level m level' m') (label : level' t = some 3) (i : Nat) (e : Entry) :
    Raises level m level' (m'.setEntry t i e) :=
  raises.setEntry label (fun lower => absurd lower (Nat.lt_irrefl 3)) (Or.inr rfl)

theorem deepCopyTable {levels : Nat} {src new : Frame} (leveled : Leveled level m)
    (label : level src = some d) (depth : levels + d = 4)
    (done : m.deepCopyTable levels src = some (new, m')) : ∃ level', Raises level m level' m' ∧
      level' new = some d := by
  induction levels generalizing level m m' src new d with
  | zero => cases done
  | succ levels ih =>
    simp only [MemoryManager.deepCopyTable, Option.bind_eq_some_iff, Option.map_eq_some_iff, Prod.exists]
      at done
    obtain ⟨new', m₁, taken, m₂, copied, same⟩ := done
    cases same
    have fresh := expectFrame_some taken
    have none := leveled.fresh new (fresh_allocated fresh)
    have begun : Raises level m _ (m₁.zeroTable new) := (Deepens.take leveled fresh d).raises
    refine foldlM_range_keeps (fun _ s => ∃ level', Raises level m level' s ∧ level' new = some d)
      (fun i s s' bound before round => ?_)
      ⟨_, begun, Function.update_self ..⟩ copied
    obtain ⟨level₁, raises, label₁⟩ := before
    have source : level₁ src = some d := raises.serves _ _ label
    split at round
    next =>
      cases round
      exact ⟨level₁, raises, label₁⟩
    next used =>
      split at round
      next copies =>
        cases round
        refine ⟨level₁, raises.setEntry label₁ (fun lower _ small => ?_) (Or.inl none), label₁⟩
        rcases copies with last | huge
        · omega
        · rw [small] at huge
          cases huge
      next deeper =>
        simp only [not_or, Bool.not_eq_true] at deeper
        obtain ⟨⟨child, m₃⟩, below, rfl⟩ := Option.map_eq_some_iff.mp round
        have leads := raises.leveled.entries src d i bound source (by omega) used deeper.2
        obtain ⟨level₂, more, label₂⟩ := ih raises.leveled leads (by omega) below
        have label₃ := more.serves _ _ label₁
        exact ⟨level₂, (raises.trans more).setEntry label₃ (fun _ _ _ => label₂) (Or.inl none), label₃⟩

theorem createUserMapper {new : Frame} (leveled : Leveled level m)
    (done : m.createUserMapper = some (new, m')) :
    ∃ level', Raises level m level' m' ∧ level' new = some 0 := by
  simp only [MemoryManager.createUserMapper, Option.bind_eq_some_iff] at done
  obtain ⟨⟨f, m₁⟩, taken, done⟩ := done
  have fresh := expectFrame_some taken
  have none := leveled.fresh f (fresh_allocated fresh)
  have label : Function.update level f (some 0) f = some 0 := Function.update_self ..
  have copied : Raises level m (Function.update level f (some 0))
      ((List.range 512).foldl (fun (m : MemoryManager) i => m.setEntry f i (m.table m.kernelCr3 i))
      (m₁.zeroTable f)) := by
    refine List.foldlRecOn (List.range 512) _ (Deepens.take leveled fresh 0).raises
      (fun s before i member => ?_)
    exact before.setEntry label (fun upper used small =>
      before.leveled.entries s.kernelCr3 0 i (List.mem_range.mp member)
        before.leveled.kernel upper used small) (Or.inl none)
  dsimp only at done
  generalize (List.range 512).foldl (fun (m : MemoryManager) i => m.setEntry f i (m.table m.kernelCr3 i))
    (m₁.zeroTable f) = s at done copied
  split at done
  next first =>
    simp only [Option.map_eq_some_iff, Prod.mk.injEq] at done
    obtain ⟨⟨l3, m₂⟩, below, rfl, rfl⟩ := done
    have leads := copied.leveled.entries s.kernelCr3 0 0 (by decide) copied.leveled.kernel (by decide)
      first.1 first.2
    obtain ⟨level₂, more, label₂⟩ := deepCopyTable copied.leveled leads rfl below
    have label₃ := more.serves _ _ label
    exact ⟨level₂, (copied.trans more).setEntry label₃ (fun _ _ _ => label₂) (Or.inl none), label₃⟩
  next =>
    simp only [Option.some.injEq, Prod.mk.injEq] at done
    obtain ⟨rfl, rfl⟩ := done
    exact ⟨_, copied, label⟩

end Raises

theorem Raises.tableAt {depth : Nat} (raises : Raises level m level' m') (leveled : Leveled level m)
    (root : level cr3 = some 0)
    (upper : depth ≤ 3) (found : m.tableAt cr3 depth page = some t) : m'.tableAt cr3 depth page = some t := by
  induction depth generalizing t with
  | zero => exact found
  | succ depth ih =>
    obtain ⟨t', above, used, small, rfl⟩ := tableAt_above found
    obtain ⟨more, modest, kept⟩ :=
      raises.upper t' depth _ (leveled.tableAt root (by omega) above) (by omega) used
    rw [tableAt_next (ih (by omega) above), kept, if_neg]
    rintro (unused | huge)
    · exact Entry.union_used used unused
    · simp [Flags.union, small, modest] at huge

theorem Raises.keeps_open {k : Nat} (raises : Raises level m level' m') (leveled : Leveled level m)
    (root : level cr3 = some 0)
    (upper : k < 3) (open_here : Open m cr3 page k) : Open m' cr3 page k := by
  have used : ¬(m.lookup cr3 k page).IsUnused := fun unused => by
    have present := open_here.present
    simp [Entry.unused_flags unused] at present
  obtain ⟨t, found, label, entry⟩ := leveled.lookup_used root (by omega) used
  obtain ⟨more, small, kept⟩ := raises.upper t k (slot k page) label upper (by rwa [← entry])
  have after : m'.lookup cr3 k page = ⟨(m.lookup cr3 k page).frame,
    (m.lookup cr3 k page).flags.union more⟩ := by
    simp only [MemoryManager.lookup, raises.tableAt leveled root (by omega) found, kept, found]
  constructor <;> simp [after, Flags.union, open_here.present, open_here.user, open_here.small, small]

end PickleOS.Memory
