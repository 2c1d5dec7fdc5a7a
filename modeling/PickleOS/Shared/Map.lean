import Mathlib.Data.List.AList
import Mathlib.Algebra.BigOperators.Group.List.Basic
import Mathlib.Algebra.GroupWithZero.Nat

set_option autoImplicit false

namespace Shared

/-- A finite map, as a `BTreeMap` whose order is never looked at. -/
abbrev Map (κ β : Type) := AList fun _ : κ => β

namespace Map

variable {κ β : Type} [DecidableEq κ] {m : Map κ β} {k k' : κ} {v v' : β}

theorem lookup_insert_eq (m : Map κ β) (k k' : κ) (v : β) :
    (m.insert k v).lookup k' = if k' = k then some v else m.lookup k' := by
  by_cases same : k' = k
  · subst same
    simp
  · simp [same, AList.lookup_insert_ne]

theorem lookup_erase_eq (m : Map κ β) (k k' : κ) :
    (m.erase k).lookup k' = if k' = k then none else m.lookup k' := by
  by_cases same : k' = k
  · subst same
    simp
  · simp [same, AList.lookup_erase_ne]

theorem erase_eq_self : m.erase k = m ↔ m.lookup k = none := by
  constructor
  · intro same
    rw [← same]
    exact AList.lookup_erase k m
  · intro absent
    have missing : k ∉ m.keys :=
      fun member => by simpa [absent] using AList.lookup_isSome.mpr (AList.mem_keys.mpr member)
    exact AList.ext (List.kerase_of_notMem_keys missing)

theorem erase_insert_new (free : m.lookup k = none) (v : β) : (m.insert k v).erase k = m := by
  refine Eq.trans (AList.ext ?_) (erase_eq_self.mpr free)
  change (m.insert k v).entries.kerase k = m.entries.kerase k
  rw [AList.entries_insert]
  exact List.kerase_cons_eq rfl

theorem length_insert_new (free : m.lookup k = none) (v : β) :
    (m.insert k v).entries.length = m.entries.length + 1 := by
  rw [AList.entries_insert, List.length_cons]
  change (m.erase k).entries.length + 1 = _
  rw [erase_eq_self.mpr free]

theorem length_erase_le (m : Map κ β) (k : κ) : (m.erase k).entries.length ≤ m.entries.length :=
  (List.kerase_sublist k m.entries).length_le

theorem mem_entries : (⟨k, v⟩ : Sigma fun _ : κ => β) ∈ m.entries ↔ m.lookup k = some v :=
  (List.mem_dlookup_iff m.nodupKeys).symm

/-- `BTreeMap::values`. -/
def values (m : Map κ β) : List β := m.entries.map Sigma.snd

omit [DecidableEq κ] in
@[simp] theorem values_empty : values (∅ : Map κ β) = [] := rfl

theorem mem_values : v ∈ values m ↔ ∃ k, m.lookup k = some v := by
  simp only [values, List.mem_map]
  constructor
  · rintro ⟨⟨k, v⟩, member, rfl⟩
    exact ⟨k, mem_entries.mp member⟩
  · rintro ⟨k, found⟩
    exact ⟨⟨k, v⟩, mem_entries.mpr found, rfl⟩

def total (weight : β → Nat) (m : Map κ β) : Nat := ((values m).map weight).sum

variable (weight : β → Nat)

omit [DecidableEq κ] in
@[simp] theorem total_empty : total weight (∅ : Map κ β) = 0 := rfl

theorem total_erase (m : Map κ β) (k : κ) :
    total weight m = ((m.lookup k).map weight).getD 0 + total weight (m.erase k) := by
  by_cases member : k ∈ m
  · obtain ⟨v, first, rest, _, split, erased⟩ := List.exists_of_kerase (AList.mem_keys.mp member)
    have found : m.lookup k = some v := by
      rw [← mem_entries, split]
      simp
    rw [found]
    change ((m.entries.map Sigma.snd).map weight).sum = _ +
      (((m.entries.kerase k).map Sigma.snd).map weight).sum
    rw [split] at erased ⊢
    rw [erased]
    simp only [List.map_append, List.map_cons, List.sum_append, List.sum_cons, Option.map_some,
      Option.getD_some]
    omega
  · have absent : m.lookup k = none := AList.lookup_eq_none.mpr member
    rw [absent, erase_eq_self.mpr absent]
    simp

theorem total_insert (m : Map κ β) (k : κ) (v : β) :
    total weight (m.insert k v) = weight v + total weight (m.erase k) := by
  simp only [total, values, AList.entries_insert, List.map_cons, List.sum_cons]
  rfl

theorem total_insert_new (absent : m.lookup k = none) :
    total weight (m.insert k v) = weight v + total weight m := by
  rw [total_insert, total_erase weight m k, absent]
  simp

theorem total_replace (present : m.lookup k = some v) :
    total weight (m.insert k v') + weight v = weight v' + total weight m := by
  rw [total_insert, total_erase weight m k, present, Option.map_some, Option.getD_some]
  omega

theorem total_remove (present : m.lookup k = some v) :
    total weight m = weight v + total weight (m.erase k) := by
  rw [total_erase weight m k, present, Option.map_some, Option.getD_some]

variable {weight}

theorem total_eq_zero : total weight m = 0 ↔ ∀ k v, m.lookup k = some v → weight v = 0 := by
  simp only [total, List.sum_eq_zero_iff_forall_eq_nat, List.mem_map, mem_values]
  constructor
  · intro zero k v found
    exact zero _ ⟨v, ⟨k, found⟩, rfl⟩
  · rintro zero _ ⟨v, ⟨k, found⟩, rfl⟩
    exact zero k v found

theorem le_total (present : m.lookup k = some v) : weight v ≤ total weight m := by
  rw [total_remove weight present]
  exact Nat.le_add_right ..

end Map

end Shared
