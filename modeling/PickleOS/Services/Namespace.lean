import PickleOS.Services.Memfs
import PickleOS.Shared.Checked
import PickleOS.Shared.Machine

set_option autoImplicit false

namespace PickleOS.Services

open Shared

/-! ### Paths -/

theorem name_kept {name : Path} (flat : '/' ∉ name) : ∀ ch ∈ name.reverse, decide (ch ≠ '/') = true := by
  intro ch member
  exact decide_eq_true fun same => flat (same ▸ List.mem_reverse.mp member)

theorem upToSlash_append (above name : Path) (flat : '/' ∉ name) :
    upToSlash (above ++ '/' :: name) = above ++ ['/'] := by
  rw [upToSlash, List.rdropWhile, List.reverse_append, List.reverse_cons, List.append_assoc,
    List.dropWhile_append_of_pos (name_kept flat)]
  simp

theorem lastComponent_append (above name : Path) (flat : '/' ∉ name) :
    lastComponent (above ++ '/' :: name) = name := by
  rw [lastComponent, List.rtakeWhile, List.reverse_append, List.reverse_cons, List.append_assoc,
    List.takeWhile_append_of_pos (name_kept flat)]
  simp

theorem parentOf_append (above name : Path) (flat : '/' ∉ name) :
    parentOf (above ++ '/' :: name) = if above = [] then root else above := by
  rw [parentOf, upToSlash_append above name flat]
  cases above with
  | nil => rfl
  | cons ch rest =>
    cases rest with
    | nil => rfl
    | cons ch' rest => simp [List.dropLast]

theorem exists_append {path : Path} (slash : '/' ∈ path) :
    ∃ above name, path = above ++ '/' :: name ∧ '/' ∉ name := by
  obtain ⟨name, above, shape, flat⟩ := List.eq_append_cons_of_mem (List.mem_reverse.mpr slash)
  refine ⟨above.reverse, name.reverse, ?_, by simpa using flat⟩
  rw [← List.reverse_reverse path, shape]
  simp

/-- `readdir` of `dir` lists `key` as `name`. -/
def ChildOf (dir name key : Path) : Prop := key = Memfs.childPrefix dir ++ name ∧ name ≠ [] ∧ '/' ∉ name

instance (dir name key : Path) : Decidable (ChildOf dir name key) := inferInstanceAs (Decidable (_ ∧ _ ∧ _))

theorem listed_eq_some {dir name key : Path} : Memfs.listed dir key = some name ↔ ChildOf dir name key := by
  unfold Memfs.listed ChildOf
  constructor
  · intro found
    split at found
    · cases found
    · split at found
      next fits =>
        obtain ⟨rest, rfl⟩ := fits
        simp only [List.drop_left] at found
        split at found
        next good =>
          cases found
          exact ⟨rfl, good.1, good.2⟩
        next => cases found
      next => cases found
  · rintro ⟨rfl, filled, flat⟩
    have longer : Memfs.childPrefix dir ++ name ≠ dir := by
      intro same
      have lengths := congrArg List.length same
      unfold Memfs.childPrefix at lengths
      split at lengths
      next top => exact filled (by simpa [top, root] using lengths)
      next => simp at lengths
    rw [if_neg longer, if_pos (List.prefix_append ..)]
    simp [filled, flat]

theorem ChildOf.parent {dir name key : Path} (child : ChildOf dir name key) (filled : dir ≠ []) :
    parentOf key = dir ∧ lastComponent key = name := by
  obtain ⟨rfl, -, flat⟩ := child
  by_cases top : dir = root
  · have shape : Memfs.childPrefix dir ++ name = [] ++ '/' :: name := by simp [Memfs.childPrefix, top, root]
    rw [shape, parentOf_append _ _ flat, lastComponent_append _ _ flat, if_pos rfl, top]
    exact ⟨rfl, rfl⟩
  · have shape : Memfs.childPrefix dir ++ name = dir ++ '/' :: name := by simp [Memfs.childPrefix, top]
    rw [shape, parentOf_append _ _ flat, lastComponent_append _ _ flat, if_neg filled]
    exact ⟨rfl, rfl⟩

/-- A key that `readdir` of its parent cannot list: nothing at all, or a name behind two slashes. -/
def Orphan (key : Path) : Prop := key = [] ∨ ['/', '/'] <+: key ∧ '/' ∉ key.drop 2

instance (key : Path) : Decidable (Orphan key) := inferInstanceAs (Decidable (_ ∨ _ ∧ _))

theorem normalize_ok {path key : Path} (normal : normalize path = .ok key) :
    key = root ∨ key = [] ∨ key.head? = some '/' ∧ key.getLast? ≠ some '/' := by
  unfold normalize at normal
  split at normal
  · cases normal
  next absolute =>
    split at normal
    · cases normal
      exact .inl rfl
    · cases normal
      by_cases empty : path.rdropWhile (· = '/') = []
      · exact .inr (.inl empty)
      · refine .inr (.inr ⟨?_, ?_⟩)
        · obtain ⟨rest, whole⟩ := List.rdropWhile_prefix (p := fun ch => decide (ch = '/')) path
          rw [not_not, ← whole, List.head?_append_of_ne_nil _ empty] at absolute
          exact absolute
        · intro last
          have kept := List.rdropWhile_last_not (fun ch => decide (ch = '/')) path empty
          rw [List.getLast?_eq_some_getLast empty] at last
          simp only [Option.some.injEq] at last
          simp [last] at kept

theorem child_of_normal {key : Path} (absolute : key.head? = some '/') (bare : key.getLast? ≠ some '/')
    (housed : ¬Orphan key) :
    ChildOf (parentOf key) (lastComponent key) key := by
  have slash : '/' ∈ key := List.mem_of_mem_head? absolute
  obtain ⟨above, name, rfl, flat⟩ := exists_append slash
  have filled : name ≠ [] := by
    rintro rfl
    simp at bare
  rw [parentOf_append _ _ flat, lastComponent_append _ _ flat]
  refine ⟨?_, filled, flat⟩
  by_cases top : above = []
  · simp [top, Memfs.childPrefix, root]
  · have below : above ≠ root := by
      rintro rfl
      exact housed (.inr ⟨⟨name, rfl⟩, by simpa [root] using flat⟩)
    simp [Memfs.childPrefix, top, below]

/-! ### The tree -/

/-- Every key but the root stands in a directory that is there. -/
structure Tree (m : Map Path Node) : Prop where
  rooted : m.lookup root = some .dir
  absolute : ∀ key, (m.lookup key).isSome → key.head? = some '/'
  housed : ∀ key, (m.lookup key).isSome → key ≠ root → ∃ dir name, ChildOf dir name key ∧
  m.lookup dir = some .dir

namespace Tree

variable {m : Map Path Node} {key dir name : Path} {node : Node}

theorem filled (tree : Tree m) (here : m.lookup dir = some .dir) : dir ≠ [] := by
  rintro rfl
  have absolute := tree.absolute [] (by rw [here]; rfl)
  cases absolute

theorem parent (tree : Tree m) (here : (m.lookup key).isSome) (below : key ≠ root) :
    ChildOf (parentOf key) (lastComponent key) key ∧ m.lookup (parentOf key) = some .dir := by
  obtain ⟨dir, name, child, there⟩ := tree.housed key here below
  obtain ⟨parent, last⟩ := child.parent (tree.filled there)
  rw [parent, last]
  exact ⟨child, there⟩

theorem insert (tree : Tree m) (absolute : key.head? = some '/') (child : ChildOf dir name key)
    (there : m.lookup dir = some .dir) (plain : m.lookup key ≠ some .dir) : Tree (m.insert key node) := by
  have dirs (other : Path) (found : m.lookup other = some .dir) :
    (m.insert key node).lookup other = some .dir := by
    rw [Map.lookup_insert_eq, if_neg fun same : other = key => plain (same ▸ found), found]
  refine ⟨dirs root tree.rooted, ?_, ?_⟩
  · intro other here
    by_cases same : other = key
    · exact same ▸ absolute
    · rw [Map.lookup_insert_eq, if_neg same] at here
      exact tree.absolute other here
  · intro other here below
    by_cases same : other = key
    · exact ⟨dir, name, same ▸ child, dirs dir there⟩
    · rw [Map.lookup_insert_eq, if_neg same] at here
      obtain ⟨dir', name', child', there'⟩ := tree.housed other here below
      exact ⟨dir', name', child', dirs dir' there'⟩

theorem erase (tree : Tree m) (below : key ≠ root)
    (clear : m.lookup key = some .dir → ∀ other, (m.lookup other).isSome → ¬key ++ ['/'] <+: other) :
      Tree (m.erase key) := by
  refine ⟨by rw [Map.lookup_erase_eq, if_neg below.symm, tree.rooted], ?_, ?_⟩
  · intro other here
    rw [Map.lookup_erase_eq] at here
    split at here
    · cases here
    · exact tree.absolute other here
  · intro other here notRoot
    rw [Map.lookup_erase_eq] at here
    split at here
    · cases here
    · obtain ⟨dir, name, child, there⟩ := tree.housed other here notRoot
      -- A directory that is removed has no child.
      have kept : dir ≠ key := by
        rintro rfl
        refine clear there other here ⟨name, ?_⟩
        rw [child.1, Memfs.childPrefix, if_neg below]
      exact ⟨dir, name, child, by rw [Map.lookup_erase_eq, if_neg kept, there]⟩

end Tree

/-! ### What the listings say -/

/-- `key` is in the listing of its parent, once and as itself. -/
def Memfs.Visible (fs : Memfs) (key : Path) : Prop :=
  ∃ names, fs.readdir (parentOf key) = .ok names ∧ names.count (lastComponent key) = 1 ∧
    Memfs.childPrefix (parentOf key) ++ lastComponent key = key

/-- No directory but its parent lists `key`. -/
def Memfs.ListedOnlyThere (fs : Memfs) (key : Path) : Prop :=
  ∀ path dir names name, normalize path = .ok dir → fs.readdir path = .ok names → name ∈ names →
    Memfs.childPrefix dir ++ name = key → dir = parentOf key ∧ name = lastComponent key

def Memfs.Has (fs : Memfs) (key : Path) (node : Node) : Prop := ∃ m, fs = some m ∧ m.lookup key = some node

structure Namespace (fs : Memfs) : Prop where
  absolute : ∀ key node, fs.Has key node → key ≠ root → key.head? = some '/' ∧ key.getLast? ≠ some '/'
  parent : ∀ key node, fs.Has key node → key ≠ root → fs.Has (parentOf key) .dir
  visible : ∀ key node, fs.Has key node → key ≠ root → fs.Visible key
  once : ∀ key node, fs.Has key node → key ≠ root → fs.ListedOnlyThere key

theorem readdir_ok {fs : Memfs} {path : Path} {names : List Path} :
    fs.readdir path = .ok names ↔ ∃ dir m, normalize path = .ok dir ∧ fs = some m ∧ m.lookup dir = some .dir ∧
      names = (m.keys.filterMap (Memfs.listed dir)).insertionSort (· ≤ ·) := by
  unfold Memfs.readdir Memfs.opened Memfs.checkDir
  cases normalize path with
  | error => simp [bind, Except.bind]
  | ok dir =>
    cases fs with
    | none => simp [bind, Except.bind]
    | some m =>
      cases here : m.lookup dir with
      | none => simp [bind, Except.bind, here]
      | some node => cases node <;> simp [bind, Except.bind, pure, Except.pure, here, eq_comm]

theorem mem_listing {m : Map Path Node} {dir name : Path} :
    name ∈ (m.keys.filterMap (Memfs.listed dir)).insertionSort (· ≤ ·) ↔ ∃ key, (m.lookup key).isSome ∧
    ChildOf dir name key := by
  simp only [List.mem_insertionSort, List.mem_filterMap, listed_eq_some]
  constructor
  · rintro ⟨key, member, child⟩
    exact ⟨key, AList.lookup_isSome.mpr (AList.mem_keys.mpr member), child⟩
  · rintro ⟨key, here, child⟩
    exact ⟨key, AList.mem_keys.mp (AList.lookup_isSome.mp here), child⟩

theorem listing_nodup (m : Map Path Node) (dir : Path) :
    ((m.keys.filterMap (Memfs.listed dir)).insertionSort (· ≤ ·)).Nodup := by
  rw [(List.perm_insertionSort _ _).nodup_iff]
  refine List.Nodup.filterMap ?_ m.nodupKeys
  intro first second name one other
  rw [(listed_eq_some.mp one).1, (listed_eq_some.mp other).1]

theorem normalize_bare {key : Path} (absolute : key.head? = some '/') (bare : key.getLast? ≠ some '/') :
    normalize key = .ok key := by
  have notRoot : key ≠ root := by
    rintro rfl
    exact bare rfl
  have whole : key.rdropWhile (· = '/') = key := by
    rw [List.rdropWhile_eq_self_iff]
    intro filled last
    exact bare (by rw [List.getLast?_eq_some_getLast filled, of_decide_eq_true last])
  simp [normalize, absolute, notRoot, whole]

theorem ChildOf.bare {dir name key : Path} (child : ChildOf dir name key) : key.getLast? ≠ some '/' := by
  obtain ⟨rfl, filled, flat⟩ := child
  rw [List.getLast?_append_of_ne_nil _ filled]
  exact fun last => flat (List.mem_of_getLast? last)

theorem Tree.normal {m : Map Path Node} (tree : Tree m) {key : Path} (here : (m.lookup key).isSome) :
    normalize key = .ok key := by
  by_cases top : key = root
  · rw [top]
    rfl
  · exact normalize_bare (tree.absolute key here) (tree.parent here top).1.bare

theorem Tree.namespace {m : Map Path Node} (tree : Tree m) : Namespace (some m) := by
  have known {key : Path} {node : Node} (has : Memfs.Has (some m) key node) : (m.lookup key).isSome := by
    obtain ⟨_, same, found⟩ := has
    cases same
    rw [found]
    rfl
  refine ⟨?_, ?_, ?_, ?_⟩
  · intro key node has below
    exact ⟨tree.absolute key (known has), (tree.parent (known has) below).1.bare⟩
  · intro key node has below
    exact ⟨m, rfl, (tree.parent (known has) below).2⟩
  · intro key node has below
    obtain ⟨child, there⟩ := tree.parent (known has) below
    have normal := tree.normal (by rw [there]; rfl : (m.lookup (parentOf key)).isSome)
    refine ⟨_, readdir_ok.mpr ⟨parentOf key, m, normal, rfl, there, rfl⟩, ?_, child.1.symm⟩
    exact List.count_eq_one_of_mem (listing_nodup m _) (mem_listing.mpr ⟨key, known has, child⟩)
  · intro key node has below path dir names name normal listing member same
    obtain ⟨_, _, normal', eq, there, rfl⟩ := readdir_ok.mp listing
    cases eq
    rw [normal] at normal'
    cases normal'
    obtain ⟨key', -, child⟩ := mem_listing.mp member
    have child : ChildOf dir name key := by
      rw [← same, ← child.1]
      exact child
    obtain ⟨parent, last⟩ := child.parent (tree.filled there)
    exact ⟨parent.symm, last.symm⟩

/-! ### Calls -/

def Call.target : Call → Option Path
  | .create path => some path
  | .mkdir path => some path
  | .write path _ => some path
  | .remove _ => none

/-- The path of a call does not come out of `normalize` as one that its parent cannot list. -/
def Call.Housed (call : Call) : Prop :=
  ∀ path key, call.target = some path → normalize path = .ok key → ¬Orphan key

theorem checkDir_ok {m : Map Path Node} {path : Path} :
    Memfs.checkDir m path = .ok () ↔ m.lookup path = some .dir := by
  unfold Memfs.checkDir
  cases m.lookup path with
  | none => simp
  | some node => cases node <;> simp

theorem opened_ok {fs : Memfs} {m : Map Path Node} : fs.opened = .ok m ↔ fs = some m := by
  unfold Memfs.opened
  cases fs <;> simp

theorem add_ok {fs fs' : Memfs} {node : Node} {path : Path} (done : fs.add node path = .ok fs') :
    ∃ key m, normalize path = .ok key ∧ fs = some m ∧ m.lookup key = none ∧
    m.lookup (parentOf key) = some .dir ∧
      fs' = some (m.insert key node) := by
  unfold Memfs.add at done
  obtain ⟨key, normal, done⟩ := Checked.bind_ok done
  obtain ⟨m, opened, done⟩ := Checked.bind_ok done
  split at done
  · cases done
  next absent =>
    obtain ⟨_, checked, done⟩ := Checked.bind_ok done
    cases done
    exact ⟨key, m, normal, opened_ok.mp opened, by simpa using absent, checkDir_ok.mp checked, rfl⟩

theorem write_ok {fs fs' : Memfs} {path : Path} {data : List UInt8}
    {n : Nat} (done : fs.write path data = .ok (n, fs')) :
    ∃ key m, normalize path = .ok key ∧ fs = some m ∧ m.lookup key ≠ some .dir ∧
      (m.lookup key = none → m.lookup (parentOf key) = some .dir) ∧ fs' = some (m.insert key (.file data)) := by
  unfold Memfs.write at done
  obtain ⟨key, normal, done⟩ := Checked.bind_ok done
  obtain ⟨m, opened, done⟩ := Checked.bind_ok done
  split at done
  · cases done
  next old here =>
    cases done
    exact ⟨key, m, normal, opened_ok.mp opened, by simp [here], by simp [here], rfl⟩
  next absent =>
    obtain ⟨_, checked, done⟩ := Checked.bind_ok done
    cases done
    exact ⟨key, m, normal, opened_ok.mp opened, by simp [absent], fun _ => checkDir_ok.mp checked, rfl⟩

theorem remove_ok {fs fs' : Memfs} {path : Path} (done : fs.remove path = .ok fs') :
    ∃ key m, normalize path = .ok key ∧ fs = some m ∧ key ≠ root ∧
      (m.lookup key = some .dir → ∀ other, (m.lookup other).isSome → ¬key ++ ['/'] <+: other) ∧
      fs' = some (m.erase key) := by
  unfold Memfs.remove at done
  obtain ⟨key, normal, done⟩ := Checked.bind_ok done
  split at done
  · cases done
  next below =>
    obtain ⟨m, opened, done⟩ := Checked.bind_ok done
    split at done
    · cases done
    · split at done
      · cases done
      next empty =>
        cases done
        refine ⟨key, m, normal, opened_ok.mp opened, below, fun _ other here under => empty ?_, rfl⟩
        rw [List.any_eq_true]
        exact ⟨other, AList.mem_keys.mp (AList.lookup_isSome.mp here), List.isPrefixOf_iff_prefix.mpr under⟩
    next data here =>
      cases done
      exact ⟨key, m, normal, opened_ok.mp opened, below, by simp [here], rfl⟩

theorem call_ok {fs fs' : Memfs} {call : Call} {path : Path} (done : fs.call call = .ok fs')
    (target : call.target = some path) :
    ∃ key m node, normalize path = .ok key ∧ fs = some m ∧ m.lookup key ≠ some .dir ∧
      (m.lookup key = none → m.lookup (parentOf key) = some .dir) ∧ fs' = some (m.insert key node) := by
  cases call with
  | create given | mkdir given =>
    cases target
    obtain ⟨key, m, normal, open', absent, there, rfl⟩ := add_ok done
    exact ⟨key, m, _, normal, open', by simp [absent], fun _ => there, rfl⟩
  | write given data =>
    cases target
    cases result : fs.write path data with
    | error reason => simp [Memfs.call, result, Except.map] at done
    | ok value =>
      simp only [Memfs.call, result, Except.map, Except.ok.injEq] at done
      obtain ⟨key, m, normal, open', plain, there, last⟩ := write_ok (n := value.1) result
      exact ⟨key, m, _, normal, open', plain, there, done ▸ last⟩
  | remove given => cases target

theorem Tree.call {m : Map Path Node} {fs' : Memfs} {call : Call} (tree : Tree m)
    (done : Memfs.call (some m) call = .ok fs')
    (housed : call.Housed) : ∃ m', fs' = some m' ∧ Tree m' := by
  cases target : call.target with
  | some path =>
    obtain ⟨key, m₀, node, normal, same, plain, there, rfl⟩ := call_ok done target
    cases same
    refine ⟨_, rfl, ?_⟩
    cases here : m.lookup key with
    | some old =>
      have known : (m.lookup key).isSome := by rw [here]; rfl
      have below : key ≠ root := by
        rintro rfl
        exact plain tree.rooted
      obtain ⟨child, there⟩ := tree.parent known below
      exact tree.insert (tree.absolute key known) child there plain
    | none =>
      have single := housed path key target normal
      have below : key ≠ root := by
        rintro rfl
        exact plain tree.rooted
      rcases normalize_ok normal with top | empty | ⟨absolute, bare⟩
      · exact absurd top below
      · exact absurd (.inl empty) single
      · exact tree.insert absolute (child_of_normal absolute bare single) (there here) plain
  | none =>
    cases call with
    | remove path =>
      obtain ⟨key, m₀, -, same, below, clear, rfl⟩ := remove_ok done
      cases same
      exact ⟨_, rfl, tree.erase below clear⟩
    | _ => cases target

theorem tree_init : ∃ m, init = some m ∧ Tree m := by
  have base : Tree ((∅ : Map Path Node).insert root .dir) := by
    have only {key : Path} (here : (((∅ : Map Path Node).insert root .dir).lookup key).isSome) :
      key = root := by
      by_contra other
      rw [Map.lookup_insert_eq, if_neg other] at here
      cases here
    exact ⟨by decide, fun key here => only here ▸ rfl, fun key here below => absurd (only here) below⟩
  have inRoot : ChildOf root "etc".toList "/etc".toList ∧
    ChildOf root "welcome.txt".toList "/welcome.txt".toList ∧
      ChildOf "/etc".toList "motd".toList "/etc/motd".toList := by decide
  have etc : Tree (((∅ : Map Path Node).insert root .dir).insert "/etc".toList .dir) :=
    base.insert rfl inRoot.1 base.rooted (by decide)
  have welcome := @etc.insert _ _ _ _
    (.file (ascii "Welcome to PICKLE OS Phase 2!\nFiles are served over IPC by the VFS server.\n"))
    rfl inRoot.2.1
    etc.rooted (by decide)
  have motd := @welcome.insert _ _ _ _ (.file (ascii "PICKLE OS :: capability-secured microkernel\n"))
    rfl inRoot.2.2
    (by decide) (by decide)
  exact ⟨_, rfl, motd⟩

theorem not_namespace {m : Map Path Node} {key : Path} {node : Node} (here : m.lookup key = some node)
    (below : key ≠ root)
    (orphan : Orphan key) : ¬Namespace (some m) := by
  intro tree
  have has : Memfs.Has (some m) key node := ⟨m, rfl, here⟩
  rcases orphan with rfl | ⟨⟨name, rfl⟩, flat⟩
  · have absolute := (tree.absolute [] node has below).1
    cases absolute
  · obtain ⟨names, -, -, same⟩ := tree.visible _ node has below
    have shape : ['/', '/'] ++ name = root ++ '/' :: name := rfl
    have flat : '/' ∉ name := flat
    rw [shape, parentOf_append _ _ flat, lastComponent_append _ _ flat, if_neg (by decide)] at same
    have lengths := congrArg List.length same
    simp [Memfs.childPrefix, root] at lengths

theorem Tree.call_puts {m : Map Path Node} {fs' : Memfs} {call : Call} {path key : Path} (tree : Tree m)
    (done : Memfs.call (some m) call = .ok fs') (target : call.target = some path)
    (normal : normalize path = .ok key) :
    key ≠ root ∧ ∃ node, fs' = some (m.insert key node) := by
  obtain ⟨key', m₀, node, normal', same, plain, -, rfl⟩ := call_ok done target
  cases same
  rw [normal] at normal'
  cases normal'
  refine ⟨?_, node, rfl⟩
  rintro rfl
  exact plain tree.rooted

theorem Tree.call_iff {m : Map Path Node} {fs' : Memfs} {call : Call} (tree : Tree m)
    (done : Memfs.call (some m) call = .ok fs') : Namespace fs' ↔ call.Housed := by
  constructor
  · intro holds path key target normal orphan
    obtain ⟨below, node, rfl⟩ := tree.call_puts done target normal
    exact not_namespace (AList.lookup_insert m) below orphan holds
  · intro housed
    obtain ⟨m', rfl, tree'⟩ := tree.call done housed
    exact tree'.namespace

theorem remove_listed {fs : Memfs} {path : Path}
    {names : List Path} (listing : fs.readdir path = .ok names) (some : names ≠ []) :
    ∀ fs', fs.remove path ≠ .ok fs' := by
  intro fs' done
  obtain ⟨dir, m, normal, rfl, there, rfl⟩ := readdir_ok.mp listing
  obtain ⟨dir', m', normal', same, below, empty, -⟩ := remove_ok done
  cases same
  rw [normal] at normal'
  cases normal'
  obtain ⟨name, member⟩ := List.exists_mem_of_ne_nil _ some
  obtain ⟨key, here, child, -, -⟩ := mem_listing.mp member
  refine empty there key here ⟨name, ?_⟩
  rw [child, Memfs.childPrefix, if_neg below]

theorem tree_of_run {fs : Memfs} (run : Machine.Reaches Memfs.step (fun _ call => call.Housed) init fs) :
    ∃ m, fs = some m ∧ Tree m := by
  refine run.invariant (motive := fun fs => ∃ m, fs = some m ∧ Tree m) tree_init ?_
  rintro _ call fs' ⟨m, rfl, tree⟩ housed taken
  cases taken
  cases result : Memfs.call (some m) call with
  | error reason => exact ⟨m, rfl, tree⟩
  | ok fs' => exact tree.call result housed

/-- As long as no node is put at a path that its parent cannot list, the keys form a tree that
`readdir` shows, and a call that breaks it is one that puts a node at such a path. -/
theorem memfs_namespace {fs : Memfs} (run : Machine.Reaches Memfs.step (fun _ call => call.Housed) init fs) :
    Namespace fs ∧
      (∀ call fs', fs.call call = .ok fs' → (Namespace fs' ↔ call.Housed)) ∧
      (∀ call path key fs', call.target = some path → fs.call call = .ok fs' → normalize path = .ok key →
        call.Housed →
        fs'.Visible key) ∧
      ∀ path names, fs.readdir path = .ok names → names ≠ [] → ∀ fs', fs.remove path ≠ .ok fs' := by
  obtain ⟨m, rfl, tree⟩ := tree_of_run run
  refine ⟨tree.namespace, fun call fs' done => tree.call_iff done, ?_,
    fun path names listing some => remove_listed listing some⟩
  intro call path key fs' target done normal housed
  have ⟨below, node, puts⟩ := tree.call_puts done target normal
  subst puts
  exact ((tree.call_iff done).mpr housed).visible key node ⟨_, rfl, AList.lookup_insert m⟩ below

/-- `mkdir("/a/")`, then `create("/a/b")`. -/
theorem memfs_namespace_nested : ∃ fs, Namespace fs ∧ fs.readdir "/a".toList = .ok ["b".toList] := by
  have housed : ∀ call ∈ [Call.mkdir "/a/".toList, .create "/a/b".toList], call.Housed := by
    intro call member path key target normal
    simp only [List.mem_cons, List.not_mem_nil, or_false] at member
    rcases member with rfl | rfl
    all_goals
      cases target
      cases normal
      decide
  obtain ⟨first, made⟩ : ∃ fs, Memfs.step init (.mkdir "/a/".toList) = some fs := ⟨_, rfl⟩
  obtain ⟨second, created⟩ : ∃ fs, Memfs.step first (.create "/a/b".toList) = some fs := ⟨_, rfl⟩
  have run : Machine.Reaches Memfs.step (fun _ call => call.Housed) init second :=
    (Machine.Reaches.start.step (housed (.mkdir "/a/".toList) (.head _)) made).step
      (housed (.create "/a/b".toList) (.tail _ (.head _))) created
  refine ⟨second, (memfs_namespace run).1, ?_⟩
  cases made
  cases created
  decide

/-- `mkdir("//a")` succeeds, and no listing shows the directory. -/
theorem mkdir_hidden : ∃ fs, Memfs.mkdir init "//a".toList = .ok fs ∧ ¬Namespace fs := by
  obtain ⟨m, same, tree⟩ := tree_init
  cases result : Memfs.mkdir init "//a".toList with
  | error reason =>
    have worked : (Memfs.mkdir init "//a".toList).toOption.isSome := by decide
    rw [result] at worked
    cases worked
  | ok fs =>
    refine ⟨fs, rfl, fun holds => ?_⟩
    have made : Memfs.call (some m) (.mkdir "//a".toList) = .ok fs := same ▸ result
    have housed := (tree.call_iff made).mp holds
    exact housed "//a".toList "//a".toList rfl rfl (by decide)

end PickleOS.Services
