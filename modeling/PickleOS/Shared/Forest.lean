import Mathlib.Data.List.Basic
import Mathlib.Data.List.Nodup
import Mathlib.Logic.Function.Basic

set_option autoImplicit false

/-!
# Forests with links both ways

Every node names its parent and lists its children.
-/

namespace Shared

structure Node (ι : Type) where
  parent : Option ι
  children : List ι

abbrev Forest (ι : Type) := ι → Option (Node ι)

namespace Forest

variable {ι : Type}

/-- A node is listed by another one if and only if it names it as its parent, and once. -/
structure Linked (f : Forest ι) : Prop where
  listed : ∀ p node, f p = some node → ∀ c, c ∈ node.children ↔ ∃ child, f c = some child ∧
  child.parent = some p
  nodup : ∀ p node, f p = some node → node.children.Nodup

/-- Nothing is there, and nothing names it. -/
structure Fresh (f : Forest ι) (i : ι) : Prop where
  absent : f i = none
  unnamed : ∀ c child, f c = some child → child.parent ≠ some i

namespace Linked

variable {f : Forest ι}

theorem empty : Linked (fun _ : ι => none) where
  listed := by simp
  nodup := by simp

theorem parent_unique (linked : Linked f) {p q : ι} {node node' : Node ι} {c : ι} (here : f p = some node)
    (there : f q = some node') (left : c ∈ node.children) (right : c ∈ node'.children) : p = q := by
  obtain ⟨child, found, parent⟩ := (linked.listed p node here c).mp left
  obtain ⟨child', found', parent'⟩ := (linked.listed q node' there c).mp right
  rw [found] at found'
  cases found'
  rw [parent] at parent'
  exact Option.some.inj parent'

theorem unlisted (linked : Linked f) {i : ι} {node : Node ι} (present : f i = some node)
    (root : node.parent = none) {p : ι}
    {node' : Node ι} (here : f p = some node') : i ∉ node'.children := by
  intro member
  obtain ⟨child, found, parent⟩ := (linked.listed p node' here i).mp member
  rw [present] at found
  cases found
  simp [root] at parent

end Linked

variable [DecidableEq ι]

/-- A new root. -/
def plant (f : Forest ι) (i : ι) : Forest ι := Function.update f i (some ⟨none, []⟩)

/-- A new child of `p`. -/
def fork (f : Forest ι) (p c : ι) : Forest ι := fun i =>
  if i = c then some ⟨some p, []⟩
  else if i = p then (f p).map fun node => { node with children := node.children ++ [c] }
  else f i

/-- The children of `e` go to `heir`, or become roots. -/
def bequeath (f : Forest ι) (e : ι) (children : List ι) (heir : Option ι) : Forest ι := fun i =>
  (f i).map fun node =>
    { parent := if i ∈ children then heir else node.parent
      children := (if i = e then [] else node.children) ++ if heir = some i then children else [] }

/-- A node goes, and its parent drops it. -/
def prune (f : Forest ι) (p c : ι) : Forest ι := fun i =>
  if i = c then none
  else if i = p then (f p).map fun node => { node with children := node.children.filter (· ≠ c) }
  else f i

namespace Linked

variable {f : Forest ι}

theorem plant (linked : Linked f) {i : ι} (fresh : Fresh f i) : Linked (f.plant i) where
  listed p node here c := by
    unfold Forest.plant at *
    by_cases new : p = i
    · subst new
      simp only [Function.update_self, Option.some.injEq] at here
      subst here
      simp only [List.not_mem_nil, false_iff]
      rintro ⟨child, found, parent⟩
      by_cases own : c = p
      · subst own
        simp only [Function.update_self, Option.some.injEq] at found
        subst found
        cases parent
      · rw [Function.update_of_ne own] at found
        exact fresh.unnamed c child found parent
    · rw [Function.update_of_ne new] at here
      rw [linked.listed p node here c]
      by_cases own : c = i
      · subst own
        simp [fresh.absent]
      · rw [Function.update_of_ne own]
  nodup p node here := by
    unfold Forest.plant at here
    by_cases new : p = i
    · subst new
      simp only [Function.update_self, Option.some.injEq] at here
      subst here
      exact List.nodup_nil
    · rw [Function.update_of_ne new] at here
      exact linked.nodup p node here

theorem fork (linked : Linked f) {p c : ι} {node : Node ι} (present : f p = some node) (fresh : Fresh f c) :
    Linked (f.fork p c) := by
  have other : p ≠ c := by
    rintro rfl
    simp [fresh.absent] at present
  -- The child is in no list yet.
  have unlisted : ∀ q node', f q = some node' → c ∉ node'.children := by
    intro q node' here member
    obtain ⟨child, found, _⟩ := (linked.listed q node' here c).mp member
    simp [fresh.absent] at found
  constructor
  · intro q node' here d
    have parents : (∃ child, f.fork p c d = some child ∧ child.parent = some q) ↔
        (d = c ∧ q = p) ∨ ∃ child, f d = some child ∧ child.parent = some q := by
      unfold Forest.fork
      by_cases new : d = c
      · subst new
        simp [fresh.absent, eq_comm]
      · by_cases parent : d = p
        · subst parent
          simp [new, present]
        · simp [new, parent]
    rw [parents]
    unfold Forest.fork at here
    by_cases new : q = c
    · subst new
      simp only [if_true, Option.some.injEq] at here
      subst here
      simp only [List.not_mem_nil, Ne.symm other, and_false, false_or, false_iff]
      rintro ⟨child, found, parent⟩
      exact fresh.unnamed d child found parent
    · by_cases parent : q = p
      · subst parent
        simp only [new, if_false, if_true, present, Option.map_some, Option.some.injEq] at here
        subst here
        rw [List.mem_append, List.mem_singleton, linked.listed q node present d]
        simp [or_comm]
      · simp only [new, parent, if_false] at here
        rw [linked.listed q node' here d]
        simp [parent]
  · intro q node' here
    unfold Forest.fork at here
    by_cases new : q = c
    · subst new
      simp only [if_true, Option.some.injEq] at here
      subst here
      exact List.nodup_nil
    · by_cases parent : q = p
      · subst parent
        simp only [new, if_false, if_true, present, Option.map_some, Option.some.injEq] at here
        subst here
        simpa using (linked.nodup q node present).concat (unlisted q node present)
      · simp only [new, parent, if_false] at here
        exact linked.nodup q node' here

theorem bequeath (linked : Linked f) {e : ι} {node : Node ι} (heir : Option ι) (present : f e = some node) :
    Linked (f.bequeath e node.children heir) := by
  constructor
  · intro p node' here c
    simp only [Forest.bequeath, Option.map_eq_some_iff] at here
    obtain ⟨before, found, rfl⟩ := here
    have parents : (∃ child, f.bequeath e node.children heir c = some child ∧ child.parent = some p) ↔
        if c ∈ node.children then heir = some p else c ∈ before.children := by
      rw [linked.listed p before found c]
      by_cases moved : c ∈ node.children
      · obtain ⟨child, there, _⟩ := (linked.listed e node present c).mp moved
        simp [Forest.bequeath, there, moved]
      · simp [Forest.bequeath, moved]
    rw [parents]
    by_cases moved : c ∈ node.children
    · -- Nobody but `e` had it in the list.
      have left : c ∉ (if p = e then [] else before.children) := by
        split
        · simp
        next other => exact fun member => other (linked.parent_unique found present member moved)
      simp only [moved, if_true, List.mem_append, left, false_or]
      split <;> simp [*]
    · by_cases own : p = e
      · subst own
        rw [present] at found
        cases found
        by_cases takes : heir = some p <;> simp [moved, takes]
      · by_cases takes : heir = some p <;> simp [moved, takes, own]
  · intro p node' here
    simp only [Forest.bequeath, Option.map_eq_some_iff] at here
    obtain ⟨before, found, rfl⟩ := here
    by_cases own : p = e
    · simp only [own, if_true, List.nil_append]
      split
      · exact linked.nodup e node present
      · exact List.nodup_nil
    · simp only [own, if_false]
      refine List.Nodup.append (linked.nodup p before found) ?_ ?_
      · split
        · exact linked.nodup e node present
        · exact List.nodup_nil
      · intro c member
        split
        · exact fun moved => own (linked.parent_unique found present member moved)
        · exact List.not_mem_nil

theorem prune (linked : Linked f) {p c : ι} {node : Node ι} (present : f p = some node)
    (member : c ∈ node.children) :
    Linked (f.prune p c) := by
  constructor
  · intro q node' here d
    have gone : q ≠ c := by
      rintro rfl
      simp [Forest.prune] at here
    have parents : (∃ child, f.prune p c d = some child ∧ child.parent = some q) ↔
        d ≠ c ∧ ∃ child, f d = some child ∧ child.parent = some q := by
      unfold Forest.prune
      by_cases pruned : d = c
      · simp [pruned]
      · by_cases parent : d = p
        · subst parent
          simp [pruned, present]
        · simp [pruned, parent]
    rw [parents]
    unfold Forest.prune at here
    by_cases parent : q = p
    · subst parent
      simp only [gone, if_false, if_true, present, Option.map_some, Option.some.injEq] at here
      subst here
      simp [linked.listed q node present d, and_comm]
    · simp only [gone, parent, if_false] at here
      rw [← linked.listed q node' here d]
      -- Only `p` lists what is pruned.
      constructor
      · rintro listed
        refine ⟨?_, listed⟩
        rintro rfl
        exact parent (linked.parent_unique here present listed member)
      · exact fun kept => kept.2
  · intro q node' here
    unfold Forest.prune at here
    split at here
    · cases here
    · split at here
      · simp only [present, Option.map_some, Option.some.injEq] at here
        subst here
        exact (linked.nodup p node present).filter _
      · exact linked.nodup q node' here

theorem prune_absent (linked : Linked f) (p : ι) {c : ι} (absent : f c = none) : f.prune p c = f := by
  funext i
  unfold Forest.prune
  by_cases gone : i = c
  · simp [gone, absent]
  · by_cases parent : i = p
    · subst parent
      cases present : f i with
      | none => simp [gone]
      | some node =>
        have kept : node.children.filter (· ≠ c) = node.children := by
          rw [List.filter_eq_self]
          intro d member
          obtain ⟨child, found, _⟩ := (linked.listed i node present d).mp member
          simpa using fun same : d = c => by simp [same, absent] at found
        simp only [gone, if_false, if_true, Option.map_some, kept]
    · simp [gone, parent]

end Linked

end Forest

end Shared
