import PickleOS.Fs.Calls

set_option autoImplicit false

namespace PickleOS.Fs

open Shared Shared.Outcome NextFs

/-- The names between the slashes of a path. -/
def parts (path : Name) : List Name := ((path.dropWhile (· = slash)).splitOn slash).filter (· ≠ [])

def walk (v : Volume) (names : List Name) : Except Fail UInt32 :=
  names.foldlM (fun current part => v.dirLookup current part) rootInode

section Parts

variable {path front name : Name}

theorem parts_eq (path : Name) : parts path = (path.splitOn slash).filter (· ≠ []) := by
  -- Slashes at the front only make empty components.
  induction path with
  | nil => rfl
  | cons byte rest ih =>
    by_cases same : byte = slash
    · rw [List.splitOn_cons_eq_if_modifyHead]
      simpa [parts, same] using ih
    · simp [parts, same]

theorem parts_append (front back : Name) : parts (front ++ slash :: back) = parts front ++ parts back := by
  simp only [parts_eq, List.splitOn_append_cons_self, List.filter_append]

theorem parts_plain (plain : slash ∉ name) : parts name = if name = [] then [] else [name] := by
  rw [parts_eq, List.splitOn_eq_singleton plain]
  by_cases empty : name = [] <;> simp [empty]

theorem last_slash (path : Name) : slash ∉ path ∨ ∃ front name, path = front ++ slash :: name ∧
    slash ∉ name := by
  by_cases has : slash ∈ path
  · obtain ⟨back, front, split, plain⟩ := List.eq_append_cons_of_mem (List.mem_reverse.mpr has)
    refine Or.inr ⟨front.reverse, back.reverse, ?_, by simpa using plain⟩
    rw [← List.reverse_reverse path, split]
    simp
  · exact Or.inl has

theorem splitPath_plain (plain : slash ∉ path) : splitPath path = ([slash], path) := if_neg plain

theorem splitPath_append (front : Name) (plain : slash ∉ name) :
    splitPath (front ++ slash :: name) = (if front = [] then [slash] else front, name) := by
  have last : ((front ++ slash :: name).reverse.takeWhile (· ≠ slash)).reverse = name := by
    have all : ∀ byte ∈ name.reverse, decide (byte ≠ slash) = true := by
      intro byte member
      simp only [decide_eq_true_eq]
      rintro rfl
      exact plain (List.mem_reverse.mp member)
    rw [List.reverse_append, List.reverse_cons, List.append_assoc, List.takeWhile_append_of_pos all]
    simp
  have pos : (front ++ slash :: name).length - name.length - 1 = front.length := by
    simp only [List.length_append, List.length_cons]
    omega
  rw [splitPath, if_pos (by simp)]
  dsimp only
  rw [last, pos]
  by_cases empty : front = []
  · simp [empty]
  · simp [empty]

theorem parts_splitPath (path : Name) :
    parts path = parts (splitPath path).1 ++ if (splitPath path).2 = [] then [] else [(splitPath path).2] := by
  rcases last_slash path with plain | ⟨front, name, rfl, plain⟩
  · rw [splitPath_plain plain, parts_plain plain]
    rfl
  · rw [splitPath_append front plain, parts_append, parts_plain plain]
    by_cases empty : front = []
    · rw [empty]
      rfl
    · rw [if_neg empty]

theorem parent_ne_nil (path : Name) : (splitPath path).1 ≠ [] := by
  rcases last_slash path with plain | ⟨front, name, rfl, plain⟩
  · rw [splitPath_plain plain]
    simp
  · rw [splitPath_append front plain]
    by_cases empty : front = [] <;> simp [empty]

theorem valid_last (text : Utf8.valid path = true) : Utf8.valid (splitPath path).2 = true := by
  rcases last_slash path with plain | ⟨front, name, rfl, plain⟩
  · rw [splitPath_plain plain]
    exact text
  · rw [splitPath_append front plain]
    exact Utf8.valid_after_ascii (by decide) front text

end Parts

theorem resolvePath_eq {path : Name} (some : path ≠ []) :
    resolvePath path = withFs fun v => walk v (parts path) := by
  rw [resolvePath, if_neg some]
  congr 1
  funext v
  split
  next root =>
    rw [root]
    rfl
  next => rfl

theorem resolvePath_ok_iff {s t : Files} {v : Volume} (mounted : s.mounted = some v)
    {path : Name} {i : UInt32} :
    resolvePath path s = .ok i t ↔ t = s ∧ path ≠ [] ∧ walk v (parts path) = .ok i := by
  by_cases empty : path = []
  · subst empty
    simp [resolvePath, fail, throw_apply]
  · rw [resolvePath_eq empty, withFs, mounted]
    dsimp only
    cases result : walk v (parts path) with
    | ok value => simp [empty, eq_comm, and_comm]
    | error reason => simp

theorem walk_append (v : Volume) (front back : List Name) :
    walk v (front ++ back) = (walk v front).bind fun d =>
      back.foldlM (fun current part => v.dirLookup current part) d :=
  List.foldlM_append

theorem walk_last {v : Volume} {path : Name} {d : UInt32} (some : (splitPath path).2 ≠ [])
    (parent : walk v (parts (splitPath path).1) = .ok d) :
      walk v (parts path) = v.dirLookup d (splitPath path).2 := by
  rw [parts_splitPath, if_neg some, walk_append, parent, Except.bind, List.foldlM_cons]
  exact bind_pure _

theorem walk_parent {v : Volume} {path : Name} (none : (splitPath path).2 = []) :
    walk v (parts path) = walk v (parts (splitPath path).1) := by
  rw [parts_splitPath, if_pos none, List.append_nil]

end PickleOS.Fs
