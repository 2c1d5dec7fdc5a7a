import Mathlib.Data.Multiset.Basic
import Mathlib.Data.Multiset.UnionInter
import Mathlib.Data.Multiset.Bind

set_option autoImplicit false

/-!
# Directory trees

Nodes `α` with entries under names `ν`. Two names are set apart: under `dot` a directory names
itself, under `dotdot` its parent. A shape is a tree if every node is named once under another name,
and reached from the root.
-/

namespace Shared.Tree

variable {ν α : Type}

structure Shape (ν α : Type) where
  live : α → Prop
  dir : α → Prop
  entries : α → Multiset (ν × α)

def Shape.Folder (shape : Shape ν α) (d : α) : Prop := shape.live d ∧ shape.dir d

section Statement

variable (dot dotdot : ν) (root : α)

def Proper (n : ν) : Prop := n ≠ dot ∧ n ≠ dotdot

inductive Reaches (shape : Shape ν α) : α → Prop
  | root : Reaches shape root
  | entry {d c : α} {n : ν} : Reaches shape d → shape.Folder d → (n, c) ∈ shape.entries d →
    Proper dot dotdot n →
      Reaches shape c

structure IsTree (shape : Shape ν α) : Prop where
  apex : shape.Folder root
  names : ∀ {d}, shape.Folder d → ((shape.entries d).map Prod.fst).Nodup
  self : ∀ {d}, shape.Folder d → (dot, d) ∈ shape.entries d
  parent : ∀ {d}, shape.Folder d → ∃ p, (dotdot, p) ∈ shape.entries d ∧
    (d = root ∧ p = root ∨ shape.Folder p ∧ ∃ n, Proper dot dotdot n ∧ (n, d) ∈ shape.entries p)
  child : ∀ {d n c}, shape.Folder d → (n, c) ∈ shape.entries d → shape.live c
  unique : ∀ {d d' n n' c}, shape.Folder d → shape.Folder d' → (n, c) ∈ shape.entries d →
    (n', c) ∈ shape.entries d' →
    Proper dot dotdot n → Proper dot dotdot n' → d = d' ∧ n = n'
  unnamed : ∀ {d n}, shape.Folder d → (n, root) ∈ shape.entries d → ¬Proper dot dotdot n
  reach : ∀ {c}, shape.live c → Reaches dot dotdot root shape c

end Statement

/-- The directory `d` gets an entry `n` for the new node `c`. -/
structure Linked (dot dotdot : ν) (shape : Shape ν α) (d : α) (n : ν) (c : α) (shape' : Shape ν α) : Prop where
  here : shape.Folder d
  fresh : ¬shape.live c
  absent : ∀ x, (n, x) ∉ shape.entries d
  live : ∀ x, shape'.live x ↔ shape.live x ∨ x = c
  dir : ∀ x, shape.live x → (shape'.dir x ↔ shape.dir x)
  entries : shape'.entries d = (n, c) ::ₘ shape.entries d
  others : ∀ x, shape.Folder x → x ≠ d → shape'.entries x = shape.entries x
  new : shape'.dir c → shape'.entries c = {(dot, c), (dotdot, d)}

/-- The directory `d` loses its entry `n`, and the node `c` it named is gone. -/
structure Unlinked (dot dotdot : ν) (shape : Shape ν α) (d : α) (n : ν) (c : α) (shape' : Shape ν α) :
    Prop where
  here : shape.Folder d
  proper : Proper dot dotdot n
  leaf : shape.dir c → ∀ m x, (m, x) ∈ shape.entries c → ¬Proper dot dotdot m
  live : ∀ x, shape'.live x ↔ shape.live x ∧ x ≠ c
  dir : ∀ x, shape'.live x → (shape'.dir x ↔ shape.dir x)
  entries : shape.entries d = (n, c) ::ₘ shape'.entries d
  others : ∀ x, shape'.Folder x → x ≠ d → shape'.entries x = shape.entries x

section

variable {dot dotdot : ν} {root : α} {shape shape' : Shape ν α} {d c : α} {n : ν}

theorem IsTree.same_target (tree : IsTree dot dotdot root shape) {x y : α} {m : ν} (folder : shape.Folder d)
    (first : (m, x) ∈ shape.entries d) (second : (m, y) ∈ shape.entries d) : x = y := by
  have same := Multiset.inj_on_of_nodup_map (tree.names folder) (m, x) first (m, y) second rfl
  exact (Prod.mk.inj same).2

theorem IsTree.single (different : dot ≠ dotdot) (only : ∀ x, shape.live x ↔ x = root) (dir : shape.dir root)
    (entries : shape.entries root = {(dot, root), (dotdot, root)}) : IsTree dot dotdot root shape := by
  have folder : ∀ {x}, shape.Folder x → x = root := fun here => (only _).mp here.1
  have member : ∀ {x m y}, shape.Folder x → (m, y) ∈ shape.entries x → y = root ∧ ¬Proper dot dotdot m := by
    intro x m y here inside
    rw [folder here, entries] at inside
    simp only [Multiset.insert_eq_cons, Multiset.mem_cons, Multiset.mem_singleton, Prod.mk.injEq] at inside
    rcases inside with ⟨rfl, rfl⟩ | ⟨rfl, rfl⟩
    · exact ⟨rfl, fun proper => proper.1 rfl⟩
    · exact ⟨rfl, fun proper => proper.2 rfl⟩
  refine ⟨⟨(only root).mpr rfl, dir⟩, ?_, ?_, ?_, ?_, ?_, ?_, ?_⟩
  · intro x here
    rw [folder here, entries]
    simp [different]
  · intro x here
    rw [folder here, entries]
    simp
  · intro x here
    refine ⟨root, ?_, Or.inl ⟨folder here, rfl⟩⟩
    rw [folder here, entries]
    simp
  · intro x m y here inside
    exact (only y).mpr (member here inside).1
  · intro x x' m m' y here _ inside _ proper
    exact ((member here inside).2 proper).elim
  · intro x m here inside
    exact (member here inside).2
  · intro x present
    rw [(only x).mp present]
    exact .root

theorem IsTree.named_once (tree : IsTree dot dotdot root shape) (present : shape.live c) (other : c ≠ root) :
    ∃! e : α × ν, shape.Folder e.1 ∧ Proper dot dotdot e.2 ∧ (e.2, c) ∈ shape.entries e.1 := by
  cases tree.reach present with
  | root => exact (other rfl).elim
  | @entry d _ n _ folder member named =>
    refine ⟨(d, n), ⟨folder, named, member⟩, ?_⟩
    rintro ⟨d', n'⟩ ⟨folder', named', member'⟩
    obtain ⟨rfl, rfl⟩ := tree.unique folder' folder member' member named' named
    rfl

theorem IsTree.leaf (tree : IsTree dot dotdot root shape) (different : dot ≠ dotdot) (folder : shape.Folder d)
    (few : (shape.entries d).card ≤ 2) {m : ν} {x : α} (member : (m, x) ∈ shape.entries d) :
      ¬Proper dot dotdot m := by
  rintro ⟨notDot, notDotdot⟩
  obtain ⟨p, up, _⟩ := tree.parent folder
  have named : ∀ {k y}, (k, y) ∈ shape.entries d → k ∈ (shape.entries d).map Prod.fst :=
    fun inside => Multiset.mem_map.mpr ⟨_, inside, rfl⟩
  have three : ({dot, dotdot, m} : Multiset ν).Nodup := by
    simp [different, Ne.symm notDot, Ne.symm notDotdot]
  have below : ({dot, dotdot, m} : Multiset ν) ≤ (shape.entries d).map Prod.fst := by
    rw [Multiset.le_iff_subset three]
    intro k inside
    rcases Multiset.mem_cons.mp inside with rfl | inside
    · exact named (tree.self folder)
    rcases Multiset.mem_cons.mp inside with rfl | inside
    · exact named up
    · rw [Multiset.mem_singleton.mp inside]
      exact named member
  have count := Multiset.card_le_card below
  rw [Multiset.card_map] at count
  have size : ({dot, dotdot, m} : Multiset ν).card = 3 := rfl
  omega

theorem IsTree.congr (tree : IsTree dot dotdot root shape) (live : ∀ x, shape'.live x ↔ shape.live x)
    (dir : ∀ x, shape.live x → (shape'.dir x ↔ shape.dir x))
    (entries : ∀ x, shape.Folder x → shape'.entries x = shape.entries x) : IsTree dot dotdot root shape' := by
  have folder : ∀ {x}, shape'.Folder x ↔ shape.Folder x := by
    intro x
    simp only [Shape.Folder, live]
    exact and_congr_right (dir x)
  have member : ∀ {x y m}, shape'.Folder x → ((m, y) ∈ shape'.entries x ↔ (m, y) ∈ shape.entries x) := by
    intro x y m here
    rw [entries x (folder.mp here)]
  refine ⟨folder.mpr tree.apex, ?_, ?_, ?_, ?_, ?_, ?_, ?_⟩
  · intro x here
    rw [entries x (folder.mp here)]
    exact tree.names (folder.mp here)
  · intro x here
    exact (member here).mpr (tree.self (folder.mp here))
  · intro x here
    obtain ⟨p, up, top | ⟨above, m, named, down⟩⟩ := tree.parent (folder.mp here)
    · exact ⟨p, (member here).mpr up, Or.inl top⟩
    · exact ⟨p, (member here).mpr up, Or.inr ⟨folder.mpr above, m, named, (member (folder.mpr above)).mpr down⟩⟩
  · intro x m y here inside
    exact (live y).mpr (tree.child (folder.mp here) ((member here).mp inside))
  · intro x x' m m' y here here' inside inside'
    exact tree.unique (folder.mp here) (folder.mp here') ((member here).mp inside) ((member here').mp inside')
  · intro x m here inside
    exact tree.unnamed (folder.mp here) ((member here).mp inside)
  · intro x present
    have path := tree.reach ((live x).mp present)
    clear present
    induction path with
    | root => exact .root
    | entry _ here inside named ih =>
      exact .entry ih (folder.mpr here) ((member (folder.mpr here)).mpr inside) named

section Link

variable (tree : IsTree dot dotdot root shape) (linked : Linked dot dotdot shape d n c shape')

include tree linked

theorem Linked.proper : Proper dot dotdot n := by
  obtain ⟨p, up, _⟩ := tree.parent linked.here
  constructor
  · rintro rfl
    exact linked.absent d (tree.self linked.here)
  · rintro rfl
    exact linked.absent p up

omit tree in
theorem Linked.folder_old {x : α} (folder : shape.Folder x) : shape'.Folder x :=
  ⟨(linked.live x).mpr (Or.inl folder.1), (linked.dir x folder.1).mpr folder.2⟩

omit tree in
theorem Linked.mem_old {x y : α} {m : ν} (folder : shape.Folder x) (member : (m, y) ∈ shape.entries x) :
    (m, y) ∈ shape'.entries x := by
  by_cases same : x = d
  · rw [same, linked.entries]
    exact Multiset.mem_cons_of_mem (same ▸ member)
  · rwa [linked.others x folder same]

omit tree in
theorem Linked.mem_new {x y : α} {m : ν} (folder : shape'.Folder x) (member : (m, y) ∈ shape'.entries x) :
    (shape.Folder x ∧ (m, y) ∈ shape.entries x) ∨ (x = d ∧ m = n ∧ y = c) ∨
      (x = c ∧ ((m, y) = (dot, c) ∨ (m, y) = (dotdot, d))) := by
  rcases (linked.live x).mp folder.1 with old | rfl
  · have before : shape.Folder x := ⟨old, (linked.dir x old).mp folder.2⟩
    by_cases same : x = d
    · subst same
      rw [linked.entries, Multiset.mem_cons] at member
      rcases member with new | member
      · cases new
        exact Or.inr (Or.inl ⟨rfl, rfl, rfl⟩)
      · exact Or.inl ⟨before, member⟩
    · rw [linked.others x before same] at member
      exact Or.inl ⟨before, member⟩
  · rw [linked.new folder.2] at member
    refine Or.inr (Or.inr ⟨rfl, ?_⟩)
    simpa using member

theorem IsTree.link (different : dot ≠ dotdot) : IsTree dot dotdot root shape' := by
  have proper := linked.proper tree
  have notDot : ¬Proper dot dotdot dot := fun other => other.1 rfl
  have notDotdot : ¬Proper dot dotdot dotdot := fun other => other.2 rfl
  have links : ∀ {m y}, (m, y) = (dot, c) ∨ (m, y) = (dotdot, d) → ¬Proper dot dotdot m := by
    rintro m y (same | same) <;> cases same <;> assumption
  have alive : ∀ {x}, shape.live x → shape'.live x := fun old => (linked.live _).mpr (Or.inl old)
  refine ⟨linked.folder_old tree.apex, ?_, ?_, ?_, ?_, ?_, ?_, ?_⟩
  · intro x folder
    rcases (linked.live x).mp folder.1 with old | rfl
    · have before : shape.Folder x := ⟨old, (linked.dir x old).mp folder.2⟩
      by_cases same : x = d
      · subst same
        rw [linked.entries, Multiset.map_cons, Multiset.nodup_cons]
        refine ⟨?_, tree.names before⟩
        intro member
        obtain ⟨⟨m, y⟩, inside, rfl⟩ := Multiset.mem_map.mp member
        exact linked.absent y inside
      · rw [linked.others x before same]
        exact tree.names before
    · rw [linked.new folder.2]
      simp [different]
  · intro x folder
    rcases (linked.live x).mp folder.1 with old | rfl
    · have before : shape.Folder x := ⟨old, (linked.dir x old).mp folder.2⟩
      exact linked.mem_old before (tree.self before)
    · rw [linked.new folder.2]
      simp
  · intro x folder
    rcases (linked.live x).mp folder.1 with old | rfl
    · have before : shape.Folder x := ⟨old, (linked.dir x old).mp folder.2⟩
      obtain ⟨p, up, top | ⟨above, m, named, down⟩⟩ := tree.parent before
      · exact ⟨p, linked.mem_old before up, Or.inl top⟩
      · exact ⟨p, linked.mem_old before up, Or.inr
          ⟨linked.folder_old above, m, named, linked.mem_old above down⟩⟩
    · refine ⟨d, ?_, Or.inr ⟨linked.folder_old linked.here, n, proper, ?_⟩⟩
      · rw [linked.new folder.2]
        simp
      · rw [linked.entries]
        exact Multiset.mem_cons_self _ _
  · intro x m y folder member
    rcases linked.mem_new folder member with ⟨before, old⟩ | ⟨_, _, rfl⟩ | ⟨_, link | link⟩
    · exact alive (tree.child before old)
    · exact (linked.live _).mpr (Or.inr rfl)
    · cases link
      exact (linked.live _).mpr (Or.inr rfl)
    · cases link
      exact alive linked.here.1
  · intro x x' m m' y folder folder' member member' named named'
    rcases linked.mem_new folder member with ⟨before, old⟩ | ⟨rfl, rfl, rfl⟩ | ⟨_, link⟩
    · rcases linked.mem_new folder' member' with ⟨before', old'⟩ | ⟨_, _, rfl⟩ | ⟨_, link⟩
      · exact tree.unique before before' old old' named named'
      · exact (linked.fresh (tree.child before old)).elim
      · exact (links link named').elim
    · rcases linked.mem_new folder' member' with ⟨before', old'⟩ | ⟨rfl, rfl, _⟩ | ⟨_, link⟩
      · exact (linked.fresh (tree.child before' old')).elim
      · exact ⟨rfl, rfl⟩
      · exact (links link named').elim
    · exact (links link named).elim
  · intro x m folder member
    rcases linked.mem_new folder member with ⟨before, old⟩ | ⟨_, _, rfl⟩ | ⟨_, link⟩
    · exact tree.unnamed before old
    · exact (linked.fresh tree.apex.1).elim
    · exact links link
  · have keeps : ∀ {x}, Reaches dot dotdot root shape x → Reaches dot dotdot root shape' x := by
      intro x path
      induction path with
      | root => exact .root
      | entry _ folder member named ih =>
        exact .entry ih (linked.folder_old folder) (linked.mem_old folder member) named
    intro x present
    rcases (linked.live x).mp present with old | rfl
    · exact keeps (tree.reach old)
    · refine .entry (keeps (tree.reach linked.here.1)) (linked.folder_old linked.here) ?_ proper
      rw [linked.entries]
      exact Multiset.mem_cons_self _ _

end Link

section Unlink

variable (tree : IsTree dot dotdot root shape) (unlinked : Unlinked dot dotdot shape d n c shape')

include unlinked

theorem Unlinked.entry : (n, c) ∈ shape.entries d := by
  rw [unlinked.entries]
  exact Multiset.mem_cons_self _ _

theorem Unlinked.folder {x : α} (folder : shape'.Folder x) : shape.Folder x ∧ x ≠ c :=
  ⟨⟨((unlinked.live x).mp folder.1).1, (unlinked.dir x folder.1).mp folder.2⟩,
    ((unlinked.live x).mp folder.1).2⟩

theorem Unlinked.folder_left {x : α} (folder : shape.Folder x) (other : x ≠ c) : shape'.Folder x := by
  have present := (unlinked.live x).mpr ⟨folder.1, other⟩
  exact ⟨present, (unlinked.dir x present).mpr folder.2⟩

theorem Unlinked.mem_old {x y : α} {m : ν} (folder : shape'.Folder x) (member : (m, y) ∈ shape'.entries x) :
    (m, y) ∈ shape.entries x := by
  by_cases same : x = d
  · rw [same, unlinked.entries]
    exact Multiset.mem_cons_of_mem (same ▸ member)
  · rwa [unlinked.others x folder same] at member

theorem Unlinked.mem_left {x y : α} {m : ν} (folder : shape'.Folder x) (member : (m, y) ∈ shape.entries x) :
    (m, y) ∈ shape'.entries x ∨ x = d ∧ m = n ∧ y = c := by
  by_cases same : x = d
  · subst same
    rw [unlinked.entries, Multiset.mem_cons] at member
    rcases member with removed | member
    · cases removed
      exact Or.inr ⟨rfl, rfl, rfl⟩
    · exact Or.inl member
  · rw [unlinked.others x folder same]
    exact Or.inl member

theorem Unlinked.directory_ne : d ≠ c := by
  rintro rfl
  exact unlinked.leaf unlinked.here.2 n d unlinked.entry unlinked.proper

include tree

theorem IsTree.unlink : IsTree dot dotdot root shape' := by
  have proper := unlinked.proper
  have apart := unlinked.directory_ne
  have rootLeft : root ≠ c := by
    rintro rfl
    exact tree.unnamed unlinked.here unlinked.entry proper
  have childless : ∀ {m y}, shape.Folder c → (m, y) ∈ shape.entries c → ¬Proper dot dotdot m :=
    fun folder => unlinked.leaf folder.2 _ _
  refine ⟨unlinked.folder_left tree.apex rootLeft, ?_, ?_, ?_, ?_, ?_, ?_, ?_⟩
  · intro x folder
    have names := tree.names (unlinked.folder folder).1
    by_cases same : x = d
    · subst same
      rw [unlinked.entries, Multiset.map_cons, Multiset.nodup_cons] at names
      exact names.2
    · rwa [unlinked.others x folder same]
  · intro x folder
    rcases unlinked.mem_left folder (tree.self (unlinked.folder folder).1) with left | ⟨_, same, _⟩
    · exact left
    · exact (proper.1 same.symm).elim
  · intro x folder
    obtain ⟨before, other⟩ := unlinked.folder folder
    obtain ⟨p, up, top⟩ := tree.parent before
    refine ⟨p, ?_, ?_⟩
    · rcases unlinked.mem_left folder up with left | ⟨_, same, _⟩
      · exact left
      · exact (proper.2 same.symm).elim
    · rcases top with top | ⟨above, m, named, down⟩
      · exact Or.inl top
      · have differs : p ≠ c := by
          rintro rfl
          exact childless above down named
        have above' := unlinked.folder_left above differs
        refine Or.inr ⟨above', m, named, ?_⟩
        rcases unlinked.mem_left above' down with left | ⟨_, _, same⟩
        · exact left
        · exact (other same).elim
  · intro x m y folder member
    obtain ⟨before, other⟩ := unlinked.folder folder
    have old := unlinked.mem_old folder member
    refine (unlinked.live y).mpr ⟨tree.child before old, ?_⟩
    rintro rfl
    by_cases named : Proper dot dotdot m
    · obtain ⟨rfl, rfl⟩ := tree.unique before unlinked.here old unlinked.entry named proper
      have names := tree.names before
      rw [unlinked.entries, Multiset.map_cons, Multiset.nodup_cons] at names
      exact names.1 (Multiset.mem_map.mpr ⟨_, member, rfl⟩)
    · -- A link to the removed node would make it the directory itself or its parent.
      have link : m = dot ∨ m = dotdot := by
        by_contra neither
        rw [not_or] at neither
        exact named neither
      rcases link with rfl | rfl
      · exact other (tree.same_target before (tree.self before) old)
      · obtain ⟨p, up, top⟩ := tree.parent before
        obtain rfl := tree.same_target before up old
        rcases top with ⟨_, same⟩ | ⟨above, k, named', down⟩
        · exact rootLeft same.symm
        · exact childless above down named'
  · intro x x' m m' y folder folder' member member'
    exact tree.unique (unlinked.folder folder).1 (unlinked.folder folder').1 (unlinked.mem_old folder member)
      (unlinked.mem_old folder' member')
  · intro x m folder member
    exact tree.unnamed (unlinked.folder folder).1 (unlinked.mem_old folder member)
  · have keeps : ∀ {x}, Reaches dot dotdot root shape x → x ≠ c → Reaches dot dotdot root shape' x := by
      intro x path
      induction path with
      | root => exact fun _ => .root
      | @entry e y m _ folder member named ih =>
        intro other
        have differs : e ≠ c := by
          rintro rfl
          exact childless folder member named
        have folder' := unlinked.folder_left folder differs
        refine .entry (ih differs) folder' ?_ named
        rcases unlinked.mem_left folder' member with left | ⟨_, _, same⟩
        · exact left
        · exact (other same).elim
    intro x present
    obtain ⟨old, other⟩ := (unlinked.live x).mp present
    exact keeps (tree.reach old) other

end Unlink

end

end Shared.Tree
