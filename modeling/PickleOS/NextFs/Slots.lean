import PickleOS.NextFs.Remount
import Mathlib.Data.Multiset.Range
import Mathlib.Data.Multiset.Filter

set_option autoImplicit false

namespace PickleOS.NextFs

open Shared Shared.Outcome

def DirEntry.listed (e : DirEntry) : Option (Name × Nat) :=
  if e.isUsed then some (e.nameStr, e.inode.toNat) else none

namespace Volume

/-- Number of the block with the entry at index `j`. -/
def slotBlock (s : Volume) (v : Inode) (j : Nat) : Nat := (v.pointer s.device.data (j / 8)).toNat

/-- The entry at index `j` of a directory. -/
def slot (s : Volume) (v : Inode) (j : Nat) : DirEntry := (s.device.data (s.slotBlock v j)).entry (j % 8)

def contents (s : Volume) (v : Inode) : Multiset (Name × Nat) :=
  (Multiset.range (totalEntries v)).filterMap fun j => (s.slot v j).listed

/-- A directory whose blocks are those that its size covers. Beyond its size no entry is used. -/
structure Formed (s : Volume) (v : Inode) : Prop where
  isDir : v.isDir = true
  aligned : v.size.toNat % 128 = 0
  small : 128 ≤ v.size.toNat
  large : v.size.toNat ≤ 137 * 512
  blocks : ∀ k, k < 137 → (v.pointer s.device.data k ≠ 0 ↔ k * 512 < v.size.toNat)
  clear : ∀ j, j / 8 * 512 < v.size.toNat → v.size.toNat ≤ j * 64 → (s.slot v j).isUsed = false

end Volume

section Scan

variable {s t : Volume} {v : Inode}

theorem Volume.Formed.total (formed : s.Formed v) : totalEntries v * 64 = v.size.toNat := by
  have := formed.aligned
  simp only [totalEntries, recordSize]
  omega

theorem Volume.Formed.inside (formed : s.Formed v) {j : Nat} (below : j < totalEntries v) :
    j / 8 < 137 ∧ v.pointer s.device.data (j / 8) ≠ 0 := by
  -- An index below the number of entries is in a block of the directory.
  have total := formed.total
  have large := formed.large
  have low : j / 8 < 137 := by omega
  exact ⟨low, (formed.blocks _ low).mpr (by omega)⟩

theorem slotBlock_held {j : Nat} (low : j / 8 < 137) (filled : v.pointer s.device.data (j / 8) ≠ 0) :
    v.holds s.device.data (.data ⟨j / 8, low⟩) = some (s.slotBlock v j) :=
  Inode.holds_data_some.mpr ⟨filled, rfl⟩

theorem readSlot (working : Working s v) {i : Nat} (low : i / 8 < 137)
    (filled : v.pointer s.device.data (i / 8) ≠ 0) :
    s.getInodeBlock v (i / entriesPerBlock % 2 ^ 32) = .ok (v.pointer s.device.data (i / 8)) ∧
      s.device.read (s.slotBlock v i) = .ok (s.device.data (s.slotBlock v i)) := by
  have index : i / entriesPerBlock % 2 ^ 32 = i / 8 := Nat.mod_eq_of_lt (low.trans (by decide))
  have device : s.slotBlock v i < s.device.blockCount :=
    working.layout.inData_device (working.backed (slotBlock_held low filled)).1
  constructor
  · rw [index]
    exact getInodeBlock_eq working.placed low
  · exact Device.read_ok device

theorem scanEntries_eq {β : Type} (working : Working s v) (pick : Nat → Nat → Block → DirEntry → Option β)
    {i n : Nat}
    (filled : ∀ j, i ≤ j → j < i + n → j / 8 < 137 ∧ v.pointer s.device.data (j / 8) ≠ 0) :
    s.scanEntries v pick i n = .ok ((List.range' i n).findSome? fun j =>
      pick (s.slotBlock v j) (j % 8) (s.device.data (s.slotBlock v j)) (s.slot v j)) := by
  induction n generalizing i with
  | zero => rfl
  | succ n ih =>
    obtain ⟨low, pointer⟩ := filled i le_rfl (by omega)
    obtain ⟨block, read⟩ := readSlot working low pointer
    rw [Volume.scanEntries, block, List.range'_succ, List.findSome?_cons,
      ih fun j above below => filled j (by omega) (by omega)]
    simp only [bind, Except.bind, if_neg pointer]
    rw [← Volume.slotBlock, read]
    dsimp only
    rw [← Volume.slot]
    cases pick (s.slotBlock v i) (i % 8) (s.device.data (s.slotBlock v i)) (s.slot v i) <;> rfl

theorem listEntries_eq (working : Working s v) {i n : Nat}
    (filled : ∀ j, i ≤ j → j < i + n → j / 8 < 137 ∧ v.pointer s.device.data (j / 8) ≠ 0) :
    s.listEntries v i n = .ok ((List.range' i n).filterMap fun j =>
      if (s.slot v j).isUsed then some ((s.slot v j).nameStr, (s.slot v j).inode) else none) := by
  induction n generalizing i with
  | zero => rfl
  | succ n ih =>
    obtain ⟨low, pointer⟩ := filled i le_rfl (by omega)
    obtain ⟨block, read⟩ := readSlot working low pointer
    rw [Volume.listEntries, block, List.range'_succ, List.filterMap_cons,
      ih fun j above below => filled j (by omega) (by omega)]
    simp only [bind, Except.bind, if_neg pointer]
    rw [← Volume.slotBlock, read]
    dsimp only
    rw [← Volume.slot]
    cases (s.slot v i).isUsed <;> rfl

theorem dirList_contents (ok : s.layout.Ok) {d : UInt32} (inside : s.layout.InTable d.toNat)
    (working : Working s (s.inode d.toNat)) (formed : s.Formed (s.inode d.toNat)) :
    ∃ l, s.dirList d = .ok l ∧
      (l.map fun e => (e.1, e.2.toNat) : Multiset (Name × Nat)) = s.contents (s.inode d.toNat) := by
  -- A directory listing is what the directory contains, in some order.
  have list := listEntries_eq working (i := 0) (n := totalEntries (s.inode d.toNat)) fun j _ below =>
    formed.inside (by omega)
  have listing : s.dirList d = s.listEntries (s.inode d.toNat) 0 (totalEntries (s.inode d.toNat)) := by
    rw [Volume.dirList, readInode_ok ok inside]
    simp only [bind, Except.bind, formed.isDir, Bool.not_true, Bool.false_eq_true, if_false]
  refine ⟨_, listing.trans list, ?_⟩
  rw [Volume.contents, List.map_filterMap, ← Multiset.coe_range, Multiset.filterMap_coe, List.range_eq_range']
  congr 1
  refine List.filterMap_congr fun j _ => ?_
  rw [DirEntry.listed]
  split <;> rfl

theorem mem_contents {n : Name} {c : Nat} :
    (n, c) ∈ s.contents v ↔ ∃ j, j < totalEntries v ∧ (s.slot v j).isUsed = true ∧ (s.slot v j).nameStr = n ∧
      (s.slot v j).inode.toNat = c := by
  simp only [Volume.contents, Multiset.mem_filterMap, Multiset.mem_range, DirEntry.listed]
  refine exists_congr fun j => and_congr_right fun _ => ?_
  split
  next used => simp [used]
  next unused => simp [unused]

theorem unusedEntry_eq (working : Working s v) (formed : s.Formed v) :
    s.unusedEntry v = .ok ((List.range' 0 (totalEntries v)).findSome? fun j =>
      if (s.slot v j).isUsed then none else some (s.slotBlock v j, j % 8, s.device.data (s.slotBlock v j))) :=
  -- What `dir_add_entry` finds: the first unused entry.
  scanEntries_eq working _ fun j _ below => formed.inside (by omega)

theorem namedEntry_eq (working : Working s v) (formed : s.Formed v) (name : Name) :
    s.namedEntry v name = .ok ((List.range' 0 (totalEntries v)).findSome? fun j =>
      if (s.slot v j).isUsed && (s.slot v j).nameMatches name then
        some (s.slotBlock v j, j % 8, s.device.data (s.slotBlock v j), (s.slot v j).inode)
      else none) :=
  scanEntries_eq working _ fun j _ below => formed.inside (by omega)

theorem unusedEntry_slot (working : Working s v) (formed : s.Formed v) {b slot : Nat} {buf : Block}
    (found : s.unusedEntry v = .ok (some (b, slot, buf))) :
    ∃ j, j < totalEntries v ∧ (s.slot v j).isUsed = false ∧ b = s.slotBlock v j ∧ slot = j % 8 ∧
      buf = s.device.data b := by
  rw [unusedEntry_eq working formed] at found
  obtain ⟨j, member, picked⟩ := List.exists_of_findSome?_eq_some (Except.ok.inj found)
  split at picked
  next => cases picked
  next unused =>
    cases picked
    rw [List.mem_range'_1] at member
    exact ⟨j, by omega, by simpa using unused, rfl, rfl, rfl⟩

theorem unusedEntry_none (working : Working s v) (formed : s.Formed v) (none : s.unusedEntry v = .ok none)
    {j : Nat}
    (below : j < totalEntries v) : (s.slot v j).isUsed = true := by
  rw [unusedEntry_eq working formed] at none
  have all := List.findSome?_eq_none_iff.mp (Except.ok.inj none) j (List.mem_range'_1.mpr ⟨by omega, by omega⟩)
  by_contra unused
  simp [unused] at all

theorem namedEntry_slot (working : Working s v) (formed : s.Formed v) {name : Name} {b slot : Nat} {buf : Block}
    {r : UInt32} (found : s.namedEntry v name = .ok (some (b, slot, buf, r))) :
    ∃ j, j < totalEntries v ∧ (s.slot v j).isUsed = true ∧ (s.slot v j).nameStr = name ∧
    (s.slot v j).inode = r ∧
      b = s.slotBlock v j ∧ slot = j % 8 ∧ buf = s.device.data b := by
  rw [namedEntry_eq working formed] at found
  obtain ⟨j, member, picked⟩ := List.exists_of_findSome?_eq_some (Except.ok.inj found)
  split at picked
  next used =>
    cases picked
    rw [List.mem_range'_1] at member
    simp only [DirEntry.nameMatches, Bool.and_eq_true, decide_eq_true_eq] at used
    exact ⟨j, by omega, used.1, used.2, rfl, rfl, rfl, rfl⟩
  next => cases picked

theorem namedEntry_none (working : Working s v) (formed : s.Formed v) {name : Name} :
    s.namedEntry v name = .ok none ↔ ∀ c, (name, c) ∉ s.contents v := by
  rw [namedEntry_eq working formed, Except.ok.injEq, List.findSome?_eq_none_iff]
  constructor
  · intro none c member
    obtain ⟨j, below, used, named, _⟩ := mem_contents.mp member
    have missed := none j (List.mem_range'_1.mpr ⟨by omega, by omega⟩)
    simp [used, DirEntry.nameMatches, named] at missed
  · intro absent j member
    rw [List.mem_range'_1] at member
    split
    next found =>
      simp only [DirEntry.nameMatches, Bool.and_eq_true, decide_eq_true_eq] at found
      exact (absent _ (mem_contents.mpr ⟨j, by omega, found.1, found.2, rfl⟩)).elim
    next => rfl

theorem dirLookup_formed (ok : s.layout.Ok) {d : UInt32} (inside : s.layout.InTable d.toNat)
    (working : Working s (s.inode d.toNat)) (formed : s.Formed (s.inode d.toNat)) (name : Name) :
    (∃ r, s.dirLookup d name = .ok r ∧ (name, r.toNat) ∈ s.contents (s.inode d.toNat)) ∨
      s.dirLookup d name = .error (.fs .notFound) ∧ ∀ c, (name, c) ∉ s.contents (s.inode d.toNat) := by
  -- Looking a name up in a directory.
  classical
  rw [dirLookup_eq ok, if_pos inside, if_pos formed.isDir]
  have scan := namedEntry_eq working formed name
  cases found : (List.range' 0 (totalEntries (s.inode d.toNat))).findSome? fun j =>
      if (s.slot (s.inode d.toNat) j).isUsed && (s.slot (s.inode d.toNat) j).nameMatches name then
        some (s.slotBlock (s.inode d.toNat) j, j % 8, s.device.data (s.slotBlock (s.inode d.toNat) j),
          (s.slot (s.inode d.toNat) j).inode)
      else none with
  | none =>
    rw [found] at scan
    rw [scan]
    exact Or.inr ⟨rfl, (namedEntry_none working formed).mp scan⟩
  | some hit =>
    obtain ⟨b, slot, buf, r⟩ := hit
    rw [found] at scan
    obtain ⟨j, below, used, named, number, _⟩ := namedEntry_slot working formed scan
    rw [scan]
    exact Or.inl ⟨r, rfl, mem_contents.mpr ⟨j, below, used, named, by rw [number]⟩⟩

end Scan

end PickleOS.NextFs
