import PickleOS.Shared.Tree
import Mathlib.Data.List.Basic
import Mathlib.Logic.Function.Basic

set_option autoImplicit false

/-!
# A tree as a map of paths

Seen from outside, a tree of directories and files says what there is at every path. A link adds one
path to this map, an unlink takes one away, and a change of a file is a change at its path.
-/

namespace Shared.Tree

variable {ν α β : Type}

inductive Node (β : Type) where
  | dir
  | file (content : β)
  deriving DecidableEq

abbrev Paths (ν β : Type) := List ν → Option (Node β)

namespace Paths

variable [DecidableEq ν] (dot dotdot : ν) (m : Paths ν β)

/-- One name further on the way, which is a way through directories. -/
def enter (p : List ν) (n : ν) : Option (List ν) :=
  match m p with
  | some .dir =>
    if n = dot then some p
    else if n = dotdot then some p.dropLast
    else if (m (p ++ [n])).isSome then some (p ++ [n])
    else none
  | _ => none

/-- The path to which names lead from the root. -/
def locate (names : List ν) : Option (List ν) := names.foldlM (m.enter dot dotdot) []

end Paths

/-- The path to a node, through proper names only. -/
inductive At (dot dotdot : ν) (root : α) (shape : Shape ν α) : List ν → α → Prop
  | root : At dot dotdot root shape [] root
  | entry {p : List ν} {d c : α} {n : ν} : At dot dotdot root shape p d → shape.Folder d →
    (n, c) ∈ shape.entries d →
      Proper dot dotdot n → At dot dotdot root shape (p ++ [n]) c

/-- Names that lead from one node to another, also back to a parent. -/
inductive Walks (shape : Shape ν α) : α → List ν → α → Prop
  | nil (d : α) : Walks shape d [] d
  | cons {d e c : α} {n : ν} {rest : List ν} : shape.Folder d → (n, e) ∈ shape.entries d →
    Walks shape e rest c →
      Walks shape d (n :: rest) c

section

variable {dot dotdot : ν} {root : α} {shape shape' : Shape ν α} {d c i j : α} {n : ν} {p q : List ν}

theorem at_nil (here : At dot dotdot root shape p i) (empty : p = []) : i = root := by
  cases here with
  | root => rfl
  | entry => simp at empty

theorem at_snoc : At dot dotdot root shape (p ++ [n]) c ↔
    ∃ d, At dot dotdot root shape p d ∧ shape.Folder d ∧ (n, c) ∈ shape.entries d ∧ Proper dot dotdot n := by
  constructor
  · intro here
    generalize whole : p ++ [n] = q at here
    cases here with
    | root => simp at whole
    | @entry p' d _ n' above folder member proper =>
      obtain ⟨rfl, same⟩ := List.append_inj' whole rfl
      cases same
      exact ⟨d, above, folder, member, proper⟩
  · rintro ⟨d, above, folder, member, proper⟩
    exact .entry above folder member proper

section Trees

variable (tree : IsTree dot dotdot root shape)

include tree

theorem At.live (here : At dot dotdot root shape p i) : shape.live i := by
  cases here with
  | root => exact tree.apex.1
  | entry _ folder member _ => exact tree.child folder member

theorem At.node (first : At dot dotdot root shape p i) (second : At dot dotdot root shape p j) : i = j := by
  induction first generalizing j with
  | root => exact (at_nil second rfl).symm
  | entry _ folder member _ ih =>
    obtain ⟨e, above, _, member', _⟩ := at_snoc.mp second
    obtain rfl := ih above
    exact tree.same_target folder member member'

theorem At.path (first : At dot dotdot root shape p i) (second : At dot dotdot root shape q i) : p = q := by
  induction first generalizing q with
  | root =>
    cases second with
    | root => rfl
    | entry _ folder member proper => exact (tree.unnamed folder member proper).elim
  | entry _ folder member proper ih =>
    cases second with
    | root => exact (tree.unnamed folder member proper).elim
    | entry above folder' member' proper' =>
      obtain ⟨rfl, rfl⟩ := tree.unique folder folder' member member' proper proper'
      rw [ih above]

theorem At.reached (present : shape.live c) : ∃ p, At dot dotdot root shape p c := by
  have path := tree.reach present
  clear present
  induction path with
  | root => exact ⟨[], .root⟩
  | entry _ folder member proper ih =>
    obtain ⟨p, above⟩ := ih
    exact ⟨_, .entry above folder member proper⟩

theorem Walks.live {names : List ν} (here : shape.live d) (walk : Walks shape d names c) : shape.live c := by
  induction walk with
  | nil => exact here
  | cons folder member _ ih => exact ih (tree.child folder member)

theorem At.above (here : At dot dotdot root shape p d) (folder : shape.Folder d)
    (up : (dotdot, c) ∈ shape.entries d) :
    At dot dotdot root shape p.dropLast c := by
  obtain ⟨e, up', top⟩ := tree.parent folder
  obtain rfl := tree.same_target folder up up'
  rcases top with ⟨rfl, rfl⟩ | ⟨above, n, proper, down⟩
  · rw [here.path tree .root]
    exact .root
  · obtain ⟨q, there⟩ := At.reached tree above.1
    rw [here.path tree (.entry there above down proper), List.dropLast_concat]
    exact there

end Trees

namespace Shape

/-- What a node is, with what its file contains. -/
def Is (shape : Shape ν α) (content : α → β) (c : α) : Node β → Prop
  | .dir => shape.dir c
  | .file b => ¬shape.dir c ∧ content c = b

theorem Is.unique {content : α → β} {node node' : Node β} (first : shape.Is content c node)
    (second : shape.Is content c node') :
    node = node' := by
  cases node with
  | dir =>
    cases node' with
    | dir => rfl
    | file => exact (second.1 first).elim
  | file =>
    cases node' with
    | dir => exact (first.1 second).elim
    | file => rw [← first.2, ← second.2]

theorem Is.total (shape : Shape ν α) (content : α → β) (c : α) : ∃ node, shape.Is content c node := by
  by_cases dir : shape.dir c
  · exact ⟨.dir, dir⟩
  · exact ⟨.file (content c), dir, rfl⟩

variable (dot dotdot root) in
open Classical in
noncomputable def paths (shape : Shape ν α) (content : α → β) : Paths ν β := fun p =>
  if there : ∃ node c, At dot dotdot root shape p c ∧ shape.Is content c node then some there.choose else none

end Shape

variable {content content' : α → β} {node : Node β}

theorem paths_iff (tree : IsTree dot dotdot root shape) :
    shape.paths dot dotdot root content p = some node ↔ ∃ c, At dot dotdot root shape p c ∧
    shape.Is content c node := by
  unfold Shape.paths
  split
  next there =>
    obtain ⟨c, here, is⟩ := there.choose_spec
    rw [Option.some.injEq]
    constructor
    · rintro rfl
      exact ⟨c, here, is⟩
    · rintro ⟨c', here', is'⟩
      obtain rfl := here.node tree here'
      exact is.unique is'
  next nothing => exact iff_of_false (by simp) fun there => nothing ⟨node, there⟩

theorem paths_dir (tree : IsTree dot dotdot root shape) (here : At dot dotdot root shape p c) :
    shape.paths dot dotdot root content p = some .dir ↔ shape.dir c := by
  rw [paths_iff tree]
  constructor
  · rintro ⟨e, there, dir⟩
    obtain rfl := here.node tree there
    exact dir
  · exact fun dir => ⟨c, here, dir⟩

theorem paths_isSome (tree : IsTree dot dotdot root shape) :
    (shape.paths dot dotdot root content p).isSome = true ↔ ∃ c, At dot dotdot root shape p c := by
  rw [Option.isSome_iff_exists]
  constructor
  · rintro ⟨node, there⟩
    obtain ⟨c, here, _⟩ := (paths_iff tree).mp there
    exact ⟨c, here⟩
  · rintro ⟨c, here⟩
    obtain ⟨node, is⟩ := Shape.Is.total shape content c
    exact ⟨node, (paths_iff tree).mpr ⟨c, here, is⟩⟩

theorem paths_congr (tree : IsTree dot dotdot root shape) (tree' : IsTree dot dotdot root shape')
    (same : ∀ c, At dot dotdot root shape' p c ↔ At dot dotdot root shape p c)
    (is : ∀ c node, At dot dotdot root shape p c → (shape'.Is content' c node ↔ shape.Is content c node)) :
    shape'.paths dot dotdot root content' p = shape.paths dot dotdot root content p := by
  refine Option.ext fun node => ?_
  rw [paths_iff tree', paths_iff tree]
  refine exists_congr fun c => ?_
  rw [same]
  exact and_congr_right fun here => is c node here

section Children

variable (tree : IsTree dot dotdot root shape) (here : At dot dotdot root shape p d)

include tree here

theorem child_iff (folder : shape.Folder d) (proper : Proper dot dotdot n) :
    (shape.paths dot dotdot root content (p ++ [n])).isSome = true ↔ ∃ x, (n, x) ∈ shape.entries d := by
  rw [paths_isSome tree]
  refine exists_congr fun x => ⟨fun there => ?_, fun member => .entry here folder member proper⟩
  obtain ⟨e, above, _, member, _⟩ := at_snoc.mp there
  rwa [here.node tree above]

theorem card_of_childless (folder : shape.Folder d)
    (childless : ∀ m, shape.paths dot dotdot root content (p ++ [m]) = none) : (shape.entries d).card ≤ 2 := by
  have only : (shape.entries d).map Prod.fst ⊆ {dot, dotdot} := by
    intro m listed
    obtain ⟨⟨_, x⟩, member, rfl⟩ := Multiset.mem_map.mp listed
    rw [Multiset.insert_eq_cons, Multiset.mem_cons, Multiset.mem_singleton]
    by_contra other
    obtain ⟨notDot, notDotdot⟩ := not_or.mp other
    have there : (shape.paths dot dotdot root content (p ++ [_])).isSome = true :=
      (child_iff tree here folder ⟨notDot, notDotdot⟩).mpr ⟨x, member⟩
    rw [childless] at there
    cases there
  have count := Multiset.card_le_card ((Multiset.le_iff_subset (tree.names folder)).mpr only)
  rwa [Multiset.card_map] at count

omit here in
theorem Unlinked.childless (unlinked : Unlinked dot dotdot shape d n c shape') (dir : shape.dir c)
    (there : At dot dotdot root shape q c) (m : ν) : shape.paths dot dotdot root content (q ++ [m]) = none := by
  rw [← Option.not_isSome_iff_eq_none, paths_isSome tree]
  rintro ⟨x, below⟩
  obtain ⟨e, above, _, member, proper⟩ := at_snoc.mp below
  obtain rfl := there.node tree above
  exact unlinked.leaf dir m x member proper

end Children

section Locate

variable [DecidableEq ν] (tree : IsTree dot dotdot root shape) (different : dot ≠ dotdot)

include tree different

theorem enter_iff (here : At dot dotdot root shape p d) :
    (shape.paths dot dotdot root content).enter dot dotdot p n = some q ↔
      shape.Folder d ∧ ∃ c, (n, c) ∈ shape.entries d ∧ At dot dotdot root shape q c := by
  unfold Paths.enter
  by_cases dir : shape.dir d
  · have found : shape.paths dot dotdot root content p = some .dir := (paths_dir tree here).mpr dir
    rw [found]
    have folder : shape.Folder d := ⟨here.live tree, dir⟩
    dsimp only
    rw [and_iff_right folder]
    split
    next same =>
      subst same
      have self := tree.self folder
      constructor
      · intro stays
        obtain rfl := Option.some.inj stays
        exact ⟨d, self, here⟩
      · rintro ⟨c, member, there⟩
        obtain rfl := tree.same_target folder self member
        rw [here.path tree there]
    next notDot =>
      split
      next same =>
        subst same
        obtain ⟨e, up, _⟩ := tree.parent folder
        have above := here.above tree folder up
        constructor
        · intro goes
          obtain rfl := Option.some.inj goes
          exact ⟨e, up, above⟩
        · rintro ⟨c, member, there⟩
          obtain rfl := tree.same_target folder up member
          rw [above.path tree there]
      next notDotdot =>
        have child (c : α) : At dot dotdot root shape (p ++ [n]) c ↔ (n, c) ∈ shape.entries d := by
          rw [at_snoc]
          constructor
          · rintro ⟨e, above, _, member, _⟩
            rwa [here.node tree above]
          · exact fun member => ⟨d, here, folder, member, notDot, notDotdot⟩
        have there_iff : (∃ c, (n, c) ∈ shape.entries d ∧ At dot dotdot root shape q c) ↔
            (shape.paths dot dotdot root content (p ++ [n])).isSome = true ∧ p ++ [n] = q := by
          rw [paths_isSome tree]
          constructor
          · rintro ⟨c, member, there⟩
            exact ⟨⟨c, (child c).mpr member⟩, ((child c).mpr member).path tree there⟩
          · rintro ⟨⟨c, there⟩, rfl⟩
            exact ⟨c, (child c).mp there, there⟩
        rw [there_iff]
        split
        next some => simp [some]
        next none => simp [none]
  · have other : shape.paths dot dotdot root content p ≠ some .dir := fun same =>
      dir ((paths_dir tree here).mp same)
    refine iff_of_false ?_ fun walks => dir walks.1.2
    split
    next same => exact absurd same other
    next => simp

theorem locate_iff (names : List ν) (here : At dot dotdot root shape p d) :
    names.foldlM ((shape.paths dot dotdot root content).enter dot dotdot) p = some q ↔
      ∃ c, Walks shape d names c ∧ At dot dotdot root shape q c := by
  induction names generalizing p d with
  | nil =>
    rw [List.foldlM_nil]
    constructor
    · intro same
      cases same
      exact ⟨d, .nil d, here⟩
    · rintro ⟨c, walk, there⟩
      cases walk
      exact congrArg some (here.path tree there)
  | cons n rest ih =>
    rw [List.foldlM_cons, Option.bind_eq_bind, Option.bind_eq_some_iff]
    constructor
    · rintro ⟨r, first, after⟩
      obtain ⟨folder, e, member, there⟩ := (enter_iff tree different here).mp first
      obtain ⟨c, walk, last⟩ := (ih there).mp after
      exact ⟨c, .cons folder member walk, last⟩
    · rintro ⟨c, walk, last⟩
      cases walk with
      | @cons _ e _ _ _ folder member walk =>
        obtain ⟨r, there⟩ := At.reached tree (tree.child folder member)
        exact ⟨r, (enter_iff tree different here).mpr ⟨folder, e, member, there⟩,
          (ih there).mpr ⟨c, walk, last⟩⟩

end Locate

theorem Linked.at_iff (tree : IsTree dot dotdot root shape) (linked : Linked dot dotdot shape d n c shape') :
    At dot dotdot root shape' q i ↔
      At dot dotdot root shape q i ∨ ∃ p, At dot dotdot root shape p d ∧ q = p ++ [n] ∧ i = c := by
  constructor
  · intro here
    induction here with
    | root => exact .inl .root
    | @entry q e x m _ folder member proper ih =>
      have above : shape.Folder e → At dot dotdot root shape q e := fun old => ih.resolve_right (by
        rintro ⟨p, _, _, rfl⟩
        exact linked.fresh old.1)
      rcases linked.mem_new folder member with ⟨before, old⟩ | ⟨rfl, rfl, rfl⟩ | ⟨_, link | link⟩
      · exact .inl (.entry (above before) before old proper)
      · exact .inr ⟨q, above linked.here, rfl, rfl⟩
      · cases link
        exact (proper.1 rfl).elim
      · cases link
        exact (proper.2 rfl).elim
  · have old {p : List ν} {x : α} (here : At dot dotdot root shape p x) : At dot dotdot root shape' p x := by
      induction here with
      | root => exact .root
      | entry _ folder member proper ih =>
        exact .entry ih (linked.folder_old folder) (linked.mem_old folder member) proper
    rintro (here | ⟨p, here, rfl, rfl⟩)
    · exact old here
    · refine .entry (old here) (linked.folder_old linked.here) ?_ (linked.proper tree)
      rw [linked.entries]
      exact Multiset.mem_cons_self _ _

theorem Unlinked.at_iff (tree : IsTree dot dotdot root shape)
    (unlinked : Unlinked dot dotdot shape d n c shape') :
    At dot dotdot root shape' q i ↔ At dot dotdot root shape q i ∧ i ≠ c := by
  constructor
  · intro here
    induction here with
    | root =>
      refine ⟨.root, ?_⟩
      rintro rfl
      exact tree.unnamed unlinked.here unlinked.entry unlinked.proper
    | @entry q e x m _ folder member proper ih =>
      have before := (unlinked.folder folder).1
      have old := unlinked.mem_old folder member
      refine ⟨.entry ih.1 before old proper, ?_⟩
      rintro rfl
      obtain ⟨rfl, rfl⟩ := tree.unique before unlinked.here old unlinked.entry proper unlinked.proper
      have names := tree.names before
      rw [unlinked.entries, Multiset.map_cons, Multiset.nodup_cons] at names
      exact names.1 (Multiset.mem_map.mpr ⟨_, member, rfl⟩)
  · rintro ⟨here, other⟩
    induction here with
    | root => exact .root
    | @entry q e x m _ folder member proper ih =>
      have parent : e ≠ c := by
        rintro rfl
        exact unlinked.leaf folder.2 m x member proper
      have folder' := unlinked.folder_left folder parent
      rcases unlinked.mem_left folder' member with left | ⟨_, _, same⟩
      · exact .entry (ih parent) folder' left proper
      · exact (other same).elim

/-- The same nodes with the same entries. -/
structure Alike (shape shape' : Shape ν α) : Prop where
  live : ∀ x, shape'.live x ↔ shape.live x
  dir : ∀ x, shape.live x → (shape'.dir x ↔ shape.dir x)
  entries : ∀ x, shape.Folder x → shape'.entries x = shape.entries x

theorem Alike.folder (alike : Alike shape shape') {x : α} : shape'.Folder x ↔ shape.Folder x := by
  simp only [Shape.Folder, alike.live]
  exact and_congr_right (alike.dir x)

theorem Alike.at_iff (alike : Alike shape shape') :
    At dot dotdot root shape' q i ↔ At dot dotdot root shape q i := by
  constructor
  · intro here
    induction here with
    | root => exact .root
    | entry _ folder member proper ih =>
      have old := alike.folder.mp folder
      exact .entry ih old (by rwa [alike.entries _ old] at member) proper
  · intro here
    induction here with
    | root => exact .root
    | entry _ folder member proper ih =>
      exact .entry ih (alike.folder.mpr folder) (by rwa [alike.entries _ folder]) proper

section Maps

variable [DecidableEq ν] (tree : IsTree dot dotdot root shape) (tree' : IsTree dot dotdot root shape')

include tree tree'

theorem Linked.paths (linked : Linked dot dotdot shape d n c shape') (here : At dot dotdot root shape p d)
    (same : ∀ x, shape.live x → ¬shape.dir x → content' x = content x) (new : shape'.Is content' c node) :
    shape'.paths dot dotdot root content' = Function.update (shape.paths dot dotdot root content)
      (p ++ [n]) (some node) := by
  funext q
  by_cases last : q = p ++ [n]
  · subst last
    rw [Function.update_self, paths_iff tree']
    exact ⟨c, (linked.at_iff tree).mpr (.inr ⟨p, here, rfl, rfl⟩), new⟩
  · rw [Function.update_of_ne last]
    refine paths_congr tree tree' (fun x => ?_) fun x node there => ?_
    · rw [linked.at_iff tree]
      refine or_iff_left ?_
      rintro ⟨p', here', rfl, rfl⟩
      exact last (by rw [here.path tree here'])
    · have live := there.live tree
      cases node with
      | dir => exact linked.dir x live
      | file b =>
        simp only [Shape.Is, linked.dir x live]
        exact and_congr_right fun plain => by rw [same x live plain]

theorem Unlinked.paths (unlinked : Unlinked dot dotdot shape d n c shape') (here : At dot dotdot root shape p d)
    (same : ∀ x, shape'.live x → ¬shape.dir x → content' x = content x) :
    shape'.paths dot dotdot root content' = Function.update (shape.paths dot dotdot root content)
      (p ++ [n]) none := by
  have gone : At dot dotdot root shape (p ++ [n]) c := .entry here unlinked.here unlinked.entry unlinked.proper
  funext q
  by_cases last : q = p ++ [n]
  · subst last
    rw [Function.update_self, ← Option.not_isSome_iff_eq_none, paths_isSome tree']
    rintro ⟨x, there⟩
    obtain ⟨old, other⟩ := (unlinked.at_iff tree).mp there
    exact other (old.node tree gone)
  · rw [Function.update_of_ne last]
    have left {x : α} (there : At dot dotdot root shape q x) : x ≠ c := by
      rintro rfl
      exact last (there.path tree gone)
    refine paths_congr tree tree' (fun x => ?_) fun x node there => ?_
    · rw [unlinked.at_iff tree]
      exact and_iff_left_of_imp left
    · have live := (unlinked.live x).mpr ⟨there.live tree, left there⟩
      cases node with
      | dir => exact unlinked.dir x live
      | file b =>
        simp only [Shape.Is, unlinked.dir x live]
        exact and_congr_right fun plain => by rw [same x live plain]

omit [DecidableEq ν] in
theorem Alike.paths_same (alike : Alike shape shape')
    (same : ∀ x, shape.live x → ¬shape.dir x → content' x = content x) :
    shape'.paths dot dotdot root content' = shape.paths dot dotdot root content := by
  funext q
  refine paths_congr tree tree' (fun x => alike.at_iff) fun x node there => ?_
  have live := there.live tree
  cases node with
  | dir => exact alike.dir x live
  | file b =>
    simp only [Shape.Is, alike.dir x live]
    exact and_congr_right fun plain => by rw [same x live plain]

theorem Alike.paths (alike : Alike shape shape') (here : At dot dotdot root shape p c) (file : ¬shape.dir c)
    (same : ∀ x, x ≠ c → shape.live x → ¬shape.dir x → content' x = content x) :
    shape'.paths dot dotdot root content' =
      Function.update (shape.paths dot dotdot root content) p (some (.file (content' c))) := by
  funext q
  by_cases there : q = p
  · subst there
    rw [Function.update_self, paths_iff tree']
    exact ⟨c, alike.at_iff.mpr here, fun dir => file ((alike.dir c (here.live tree)).mp dir), rfl⟩
  · rw [Function.update_of_ne there]
    refine paths_congr tree tree' (fun x => alike.at_iff) fun x node elsewhere => ?_
    have live := elsewhere.live tree
    cases node with
    | dir => exact alike.dir x live
    | file b =>
      simp only [Shape.Is, alike.dir x live]
      refine and_congr_right fun plain => ?_
      rw [same x (fun same => there (elsewhere.path tree (same ▸ here))) live plain]

end Maps

end

end Shared.Tree
