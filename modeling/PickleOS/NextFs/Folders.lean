import PickleOS.NextFs.Slots

set_option autoImplicit false

namespace PickleOS.NextFs

open Shared Shared.Outcome

theorem filterMap_same {α β : Type} {f g : α → Option β} {m : Multiset α} (same : ∀ x ∈ m, f x = g x) :
    m.filterMap f = m.filterMap g := by
  induction m using Quotient.inductionOn with
  | _ l => exact congrArg _ (List.filterMap_congr same)

theorem filterMap_range_update {β : Type} {f g : Nat → Option β} {n k : Nat} {x : β} (below : k < n)
    (was : f k = none)
    (now : g k = some x) (others : ∀ j, j < n → j ≠ k → g j = f j) :
    (Multiset.range n).filterMap g = x ::ₘ (Multiset.range n).filterMap f := by
  -- One index of a range starts to count.
  obtain ⟨rest, split⟩ := Multiset.exists_cons_of_mem (Multiset.mem_range.mpr below)
  have distinct := Multiset.nodup_range n
  rw [split, Multiset.nodup_cons] at distinct
  rw [split, Multiset.filterMap_cons_some _ _ _ now, Multiset.filterMap_cons_none _ _ was]
  congr 1
  refine filterMap_same fun j member => others j ?_ ?_
  · rw [← Multiset.mem_range, split]
    exact Multiset.mem_cons_of_mem member
  · rintro rfl
    exact distinct.1 member

theorem Inode.pointer_congr (v : Inode) {data data' : Nat → Block}
    (same : ∀ b, v.holds data .indirect = some b → data' b = data b) (k : Nat) :
    v.pointer data' k = v.pointer data k := by
  simp only [pointer]
  split
  · rfl
  · split
    · rfl
    next indirect => rw [same v.indirect.toNat (target_eq_some.mpr ⟨indirect, rfl⟩)]

section Agreement

variable {s t : Volume} {v : Inode}

theorem Agree.pointer (agree : Agree s t v) (k : Nat) : v.pointer t.device.data k = v.pointer s.device.data k :=
  v.pointer_congr (fun b held => agree.data .indirect b held) k

theorem Agree.slot (agree : Agree s t v) {j : Nat} (low : j / 8 < 137)
    (filled : v.pointer s.device.data (j / 8) ≠ 0) :
    t.slot v j = s.slot v j := by
  rw [Volume.slot, Volume.slot, Volume.slotBlock, agree.pointer, ← Volume.slotBlock,
    agree.data _ _ (slotBlock_held low filled)]

theorem Agree.formed (agree : Agree s t v) (formed : s.Formed v) : t.Formed v where
  isDir := formed.isDir
  aligned := formed.aligned
  small := formed.small
  large := formed.large
  blocks k low := by rw [agree.pointer, formed.blocks k low]
  clear j inside past := by
    have low : j / 8 < 137 := by
      have := formed.large
      omega
    rw [agree.slot low ((formed.blocks _ low).mpr inside), formed.clear j inside past]

theorem Agree.contents (agree : Agree s t v) (formed : s.Formed v) : t.contents v = s.contents v := by
  refine filterMap_same fun j member => ?_
  obtain ⟨low, filled⟩ := formed.inside (Multiset.mem_range.mp member)
  rw [agree.slot low filled]

end Agreement

section Patch

variable {s : Volume} {v : Inode} (working : Working s v) (formed : s.Formed v)
    {i : Nat} (below : i < totalEntries v)
  (e : DirEntry)

/-- Entry `i` of a directory is replaced. -/
def Volume.patch (s : Volume) (v : Inode) (i : Nat) (e : DirEntry) : Volume :=
  s.setBlock (s.slotBlock v i) ((s.device.data (s.slotBlock v i)).setEntry (i % 8) e)

include working formed below

theorem pointer_patch (k : Nat) : v.pointer (s.patch v i e).device.data k = v.pointer s.device.data k := by
  obtain ⟨low, filled⟩ := formed.inside below
  refine v.pointer_congr (fun b held => Function.update_of_ne ?_ _ _) k
  rintro rfl
  have place := working.exclusive held (slotBlock_held low filled)
  cases place

theorem slot_patch {j : Nat} (low : j / 8 < 137) (filled : v.pointer s.device.data (j / 8) ≠ 0) :
    (s.patch v i e).slot v j = if j = i then e else s.slot v j := by
  obtain ⟨low', filled'⟩ := formed.inside below
  have block : (s.patch v i e).slotBlock v j = s.slotBlock v j := by
    rw [Volume.slotBlock, pointer_patch working formed below, ← Volume.slotBlock]
  rw [Volume.slot, block]
  by_cases same : j / 8 = i / 8
  · have number : s.slotBlock v j = s.slotBlock v i := by rw [Volume.slotBlock, same, Volume.slotBlock]
    have index : j = i ↔ j % 8 = i % 8 := by omega
    rw [number, Volume.patch, Volume.data_setBlock, Function.update_self,
      Block.entry_setEntry _ _ _ _ (Nat.mod_lt _ (by decide)), Volume.slot, number]
    simp only [index]
  · have different : s.slotBlock v j ≠ s.slotBlock v i := by
      intro equal
      have place := working.exclusive (slotBlock_held low filled) (equal ▸ slotBlock_held low' filled')
      exact same (by simpa using place)
    rw [Volume.patch, Volume.data_setBlock, Function.update_of_ne different,
      if_neg (by rintro rfl; exact same rfl),
      Volume.slot]

theorem formed_patch : (s.patch v i e).Formed v where
  isDir := formed.isDir
  aligned := formed.aligned
  small := formed.small
  large := formed.large
  blocks k low := by rw [pointer_patch working formed below, formed.blocks k low]
  clear j inside past := by
    have low : j / 8 < 137 := by
      have := formed.large
      omega
    have total := formed.total
    rw [slot_patch working formed below e low ((formed.blocks _ low).mpr inside), if_neg (by omega),
      formed.clear j inside past]

theorem contents_patch_fill (was : (s.slot v i).isUsed = false) (used : e.isUsed = true) :
    (s.patch v i e).contents v = (e.nameStr, e.inode.toNat) ::ₘ s.contents v := by
  -- An unused entry is filled.
  refine filterMap_range_update below ?_ ?_ ?_
  · simp [DirEntry.listed, was]
  · obtain ⟨low, filled⟩ := formed.inside below
    rw [slot_patch working formed below e low filled, if_pos rfl, DirEntry.listed, if_pos used]
  · intro j inside different
    obtain ⟨low, filled⟩ := formed.inside inside
    rw [slot_patch working formed below e low filled, if_neg different]

theorem contents_patch_clear (was : (s.slot v i).isUsed = true) (unused : e.isUsed = false) :
    s.contents v = ((s.slot v i).nameStr, (s.slot v i).inode.toNat) ::ₘ (s.patch v i e).contents v := by
  -- A used entry is cleared.
  refine filterMap_range_update below ?_ ?_ ?_
  · obtain ⟨low, filled⟩ := formed.inside below
    rw [slot_patch working formed below e low filled, if_pos rfl]
    simp [DirEntry.listed, unused]
  · rw [DirEntry.listed, if_pos was]
  · intro j inside different
    obtain ⟨low, filled⟩ := formed.inside inside
    rw [slot_patch working formed below e low filled, if_neg different]

end Patch

section Append

variable {s u : Volume} {v w x : Inode} {e : DirEntry} (working : Working s v) (formed : s.Formed v)
  (wrote : Wrote (v.size.toNat / 512) (v.size.toNat % 512) e.toBytes s v u w)

include formed in
theorem Volume.Formed.append_room (inside : v.size.toNat / 512 < 137) : v.size.toNat + 128 ≤ 137 * 512 := by
  have := formed.aligned
  omega

include wrote

theorem pointer_append_old {k : Nat} (low : k < 137) (filled : v.pointer s.device.data k ≠ 0) :
    w.pointer u.device.data k = v.pointer s.device.data k := by
  have held : v.holds s.device.data (.data ⟨k, low⟩) = some (v.pointer s.device.data k).toNat :=
    Inode.holds_data_some.mpr ⟨filled, rfl⟩
  exact UInt32.toNat_inj.mp (Inode.holds_data_some.mp (wrote.grown.keeps _ _ held)).2

theorem pointer_append_new {k : Nat} (low : k < 137) :
    w.pointer u.device.data k ≠ 0 ↔ v.pointer s.device.data k ≠ 0 ∨ k = v.size.toNat / 512 := by
  constructor
  · intro filled
    by_contra neither
    rw [not_or, not_not] at neither
    have held : w.holds u.device.data (.data ⟨k, low⟩) = some (w.pointer u.device.data k).toNat :=
      Inode.holds_data_some.mpr ⟨filled, rfl⟩
    exact neither.2 (wrote.grown.within _ _ (Inode.holds_data_none.mpr neither.1) held)
  · rintro (filled | rfl)
    · rwa [pointer_append_old wrote low filled]
    · obtain ⟨b, held, _⟩ := wrote.content
      exact (Inode.holds_data_some.mp held).1

include working formed

theorem slot_append {j : Nat} (covered : j / 8 * 512 < v.size.toNat + 128) :
    (u.device.data (w.pointer u.device.data (j / 8)).toNat).entry (j % 8) =
      if j = v.size.toNat / 64 then e
      else if j / 8 * 512 < v.size.toNat then s.slot v j else Block.zero.entry (j % 8) := by
  -- The entries of a directory after one was appended; the block it is in may be a new one.
  have aligned := formed.aligned
  have room := formed.append_room wrote.inside
  have low : j / 8 < 137 := by omega
  by_cases last : j / 8 = v.size.toNat / 512
  · obtain ⟨b, held, content⟩ := wrote.content
    have number : (w.pointer u.device.data (j / 8)).toNat = b := by
      rw [last]
      exact (Inode.holds_data_some.mp held).2
    have offset : v.size.toNat % 512 = v.size.toNat / 64 % 8 * 64 := by omega
    have index : j = v.size.toNat / 64 ↔ j % 8 = v.size.toNat / 64 % 8 := by omega
    have base : (if v.pointer s.device.data (v.size.toNat / 512) = 0 then Block.zero else
      s.device.data b).entry (j % 8) =
        if j / 8 * 512 < v.size.toNat then s.slot v j else Block.zero.entry (j % 8) := by
      rw [← last]
      by_cases old : j / 8 * 512 < v.size.toNat
      · have filled := (formed.blocks _ low).mpr old
        rw [if_neg filled, if_pos old, Volume.slot, Volume.slotBlock,
          ← pointer_append_old wrote low filled, number]
      · have hole : v.pointer s.device.data (j / 8) = 0 := by
          by_contra filled
          exact old ((formed.blocks _ low).mp filled)
        rw [if_pos hole, if_neg old]
    rw [number, content, offset, ← Block.setEntry,
      Block.entry_setEntry _ _ _ _ (Nat.mod_lt _ (by decide)), base]
    simp only [index]
  · have old : j / 8 * 512 < v.size.toNat := by omega
    have filled := (formed.blocks _ low).mpr old
    have held := slotBlock_held low filled
    have unchanged : u.device.data (s.slotBlock v j) = s.device.data (s.slotBlock v j) := by
      refine wrote.grown.frame _ (working.backed held).2 ?_ ?_
      · intro indirect
        cases working.exclusive indirect held
      · intro k other here
        have place := working.exclusive other held
        rw [Place.data.injEq] at place
        exact last ((congrArg Fin.val place).symm.trans here)
    rw [pointer_append_old wrote low filled, ← Volume.slotBlock, unchanged, if_neg (by omega), if_pos old,
      Volume.slot]

variable (direct : x.direct = w.direct) (indirect : x.indirect = w.indirect)
  (size : x.size.toNat = v.size.toNat + 128) (dir : x.isDir = true)

include direct indirect size dir

theorem formed_append : u.Formed x := by
  have aligned := formed.aligned
  have small := formed.small
  have room := formed.append_room wrote.inside
  have pointers : ∀ k, x.pointer u.device.data k = w.pointer u.device.data k := by
    intro k
    simp only [Inode.pointer, direct, indirect]
  refine ⟨dir, by omega, by omega, by omega, ?_, ?_⟩
  · intro k low
    rw [pointers, pointer_append_new wrote low, formed.blocks k low, size]
    omega
  · intro j inside past
    rw [size] at inside past
    rw [Volume.slot, Volume.slotBlock, pointers, slot_append working formed wrote inside, if_neg (by omega)]
    split
    next old => exact formed.clear j old (by omega)
    next => exact Block.entry_zero _ (Nat.mod_lt _ (by decide))

omit dir in
theorem contents_append (used : e.isUsed = true) :
    u.contents x = (e.nameStr, e.inode.toNat) ::ₘ s.contents v := by
  have aligned := formed.aligned
  have total := formed.total
  have pointers : ∀ k, x.pointer u.device.data k = w.pointer u.device.data k := by
    intro k
    simp only [Inode.pointer, direct, indirect]
  have longer : totalEntries x = totalEntries v + 1 + 1 := by
    simp only [totalEntries, recordSize] at total ⊢
    omega
  have slots : ∀ j, j < totalEntries v + 1 + 1 → u.slot x j =
      if j = v.size.toNat / 64 then e
      else if j / 8 * 512 < v.size.toNat then s.slot v j else Block.zero.entry (j % 8) := by
    intro j below
    rw [Volume.slot, Volume.slotBlock, pointers, slot_append working formed wrote (by omega)]
  have gap : (u.slot x (totalEntries v + 1)).isUsed = false := by
    rw [slots _ (by omega), if_neg (by omega)]
    split
    next old => exact formed.clear _ old (by omega)
    next => exact Block.entry_zero _ (Nat.mod_lt _ (by decide))
  rw [Volume.contents, longer, Multiset.range_succ, Multiset.range_succ,
    Multiset.filterMap_cons_none _ _ (by simp [DirEntry.listed, gap])]
  have new : (fun j => (u.slot x j).listed) (totalEntries v) = some (e.nameStr, e.inode.toNat) := by
    dsimp only
    rw [slots _ (by omega), if_pos (by omega), DirEntry.listed, if_pos used]
  rw [Multiset.filterMap_cons_some (fun j => (u.slot x j).listed) _ _ new]
  congr 1
  refine filterMap_same fun j member => ?_
  have below := Multiset.mem_range.mp member
  rw [slots j (by omega), if_neg (by omega), if_pos (by omega)]

end Append

end PickleOS.NextFs
