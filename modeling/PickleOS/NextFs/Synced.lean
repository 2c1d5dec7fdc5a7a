import PickleOS.NextFs.Formatting

set_option autoImplicit false

namespace PickleOS.NextFs

open Shared Shared.Outcome

/-- A consistent volume whose inode bitmap agrees with the inode types on disk. -/
structure Synced (s : Volume) : Prop where
  consistent : s.Consistent
  marked : ∀ i, s.marked i = true ↔ s.Occupied i
  reserved : (s.inode 0).inodeType = 0
  small : s.layout.inodeCount + 7 < 2 ^ 32

theorem occupied_congr {s t : Volume} (layout : t.layout = s.layout)
    (types : ∀ i, s.layout.InTable i → (t.inode i).inodeType = (s.inode i).inodeType) :
      t.Occupied = s.Occupied := by
  funext i
  apply propext
  simp only [Volume.Occupied, layout]
  exact and_congr_right fun inside => by rw [types i inside]

theorem Volume.Owned.consistent {s : Volume} (owned : s.Owned s.Occupied) : s.Consistent :=
  ⟨owned.layout, owned.sound⟩

section Stage

variable {s : Volume} {i : Nat}

theorem occupied_stageFile (ok : s.layout.Ok) (next : s.nextInode = some i) (now : UInt32) :
    (s.stageFile now i).Occupied = fun j => j = i ∨ s.Occupied j := by
  obtain ⟨positive, inside, _⟩ := Volume.nextInode_some ok next
  funext j
  apply propext
  simp only [Volume.Occupied, Volume.stageFile, Volume.layout_setInode, Volume.layout_takeInode,
    Volume.inode_setInode,
    Volume.inode_takeInode]
  by_cases same : j = i
  · subst same
    simp only [true_or, iff_true]
    exact ⟨⟨positive, inside⟩, by simp [Inode.newFile]⟩
  · simp [same]

theorem inode_stageDir (ok : s.layout.Ok) {b : Nat} (found : s.nextFree = some b) (now parent : UInt32)
    {j : Nat}
    (inside : j < s.layout.inodeCount) :
    (s.stageDir now i b parent).inode j = if j = i then Volume.newDirInode now b else s.inode j := by
  obtain ⟨data, _⟩ := Volume.nextFree_some ok found
  rw [Volume.stageDir, Volume.inode_setInode, Volume.inode_setBlock (by simpa using ok)
    (by simpa using data.1) (by simpa using inside), Volume.inode_takeBlock, Volume.inode_takeInode]

theorem layout_stageDir (s : Volume) (now : UInt32) (i b : Nat) (parent : UInt32) :
    (s.stageDir now i b parent).layout = s.layout := by
  simp [Volume.stageDir]

theorem occupied_stageDir (ok : s.layout.Ok) (next : s.nextInode = some i)
    {b : Nat} (found : s.nextFree = some b)
    (now parent : UInt32) : (s.stageDir now i b parent).Occupied = fun j => j = i ∨ s.Occupied j := by
  obtain ⟨positive, inside, _⟩ := Volume.nextInode_some ok next
  funext j
  apply propext
  rw [Volume.Occupied, layout_stageDir]
  by_cases same : j = i
  · subst same
    simp only [true_or, iff_true]
    refine ⟨⟨positive, inside⟩, ?_⟩
    rw [inode_stageDir ok found now parent inside, if_pos rfl]
    simp [Volume.newDirInode, Inode.newDir]
  · simp only [same, false_or, Volume.Occupied]
    exact and_congr_right fun table => by rw [inode_stageDir ok found now parent table.2, if_neg same]

end Stage

namespace Synced

variable {s t u : Volume} {i : Nat} {touched : Nat → Prop} {w x : Inode}

theorem owned (synced : Synced s) : s.Owned s.Occupied := synced.consistent.owned

theorem layout (synced : Synced s) : s.layout.Ok := synced.consistent.layout

theorem inode_zero_lt (synced : Synced s) : 0 < s.layout.inodeCount := by
  have := synced.layout.root
  omega

theorem grown (synced : Synced s) (here : s.Occupied i) (grown : Grown touched s (s.inode i) t w) :
    Synced t := by
  -- An inode has grown in memory.
  have records : ∀ j, j < s.layout.inodeCount → t.inode j = s.inode j := fun j => grown.inode synced.layout
  have occupied := occupied_congr grown.layout fun j inside => by rw [records j inside.2]
  have owned := synced.owned.grown here grown
  refine ⟨⟨owned.layout, ?_⟩, ?_, ?_, grown.layout ▸ synced.small⟩
  · rw [occupied]
    exact owned.sound
  · intro j
    rw [occupied, ← synced.marked, Volume.marked, Volume.marked, grown.inodes]
  · rw [records 0 synced.inode_zero_lt]
    exact synced.reserved

theorem store (synced : Synced s) (here : s.Occupied i) (grown : Grown touched s (s.inode i) u w)
    (direct : x.direct = w.direct) (indirect : x.indirect = w.indirect)
    (type : x.inodeType = (s.inode i).inodeType) : Synced (u.setInode i x) := by
  -- The grown inode is written back.
  have layout : (u.setInode i x).layout = s.layout := grown.layout
  have records : ∀ j, j < s.layout.inodeCount →
      ((u.setInode i x).inode j).inodeType = (s.inode j).inodeType := by
    intro j inside
    rw [Volume.inode_setInode]
    split
    next same => rw [type, same]
    next => rw [grown.inode synced.layout inside]
  have occupied := occupied_congr layout fun j inside => records j inside.2
  have owned := owned_store synced.owned here grown direct indirect
  refine ⟨⟨owned.layout, ?_⟩, ?_, ?_, layout ▸ synced.small⟩
  · rw [occupied]
    exact owned.sound
  · intro j
    rw [occupied, ← synced.marked, Volume.marked_setInode, Volume.marked, Volume.marked, grown.inodes]
  · rw [records 0 synced.inode_zero_lt]
    exact synced.reserved

theorem next_free (synced : Synced s) (next : s.nextInode = some i) : ¬s.Occupied i := by
  -- The inode that `alloc_inode` hands out is free on disk.
  rw [← synced.marked, (Volume.nextInode_some synced.layout next).2.2.1]
  simp

theorem stageFile (synced : Synced s) (next : s.nextInode = some i) (now : UInt32) :
    Synced (s.stageFile now i) := by
  obtain ⟨positive, inside, _⟩ := Volume.nextInode_some synced.layout next
  have occupied := occupied_stageFile synced.layout next now
  have owned := owned_stageFile synced.owned next now
  have layout : (s.stageFile now i).layout = s.layout := by simp [Volume.stageFile]
  refine ⟨⟨owned.layout, ?_⟩, ?_, ?_, layout ▸ synced.small⟩
  · rw [occupied]
    exact owned.sound
  · intro j
    rw [occupied, Volume.stageFile, Volume.marked_setInode, Volume.marked_takeInode synced.layout inside]
    by_cases same : j = i
    · simp [same]
    · simp [same, synced.marked]
  · rw [Volume.stageFile, Volume.inode_setInode, if_neg (by omega), Volume.inode_takeInode]
    exact synced.reserved

theorem stageDir (synced : Synced s) (next : s.nextInode = some i) {b : Nat} (found : s.nextFree = some b)
    (now parent : UInt32) : Synced (s.stageDir now i b parent) := by
  obtain ⟨positive, inside, _⟩ := Volume.nextInode_some synced.layout next
  have occupied := occupied_stageDir synced.layout next found now parent
  have owned := owned_stageDir synced.owned next found now parent
  refine ⟨⟨owned.layout, ?_⟩, ?_, ?_, layout_stageDir s now i b parent ▸ synced.small⟩
  · rw [occupied]
    exact owned.sound
  · intro j
    rw [occupied, Volume.stageDir, Volume.marked_setInode, Volume.marked_setBlock, Volume.marked_takeBlock,
      Volume.marked_takeInode synced.layout inside]
    by_cases same : j = i
    · simp [same]
    · simp [same, synced.marked]
  · rw [inode_stageDir synced.layout found now parent synced.inode_zero_lt, if_neg (by omega)]
    exact synced.reserved

theorem occupied_erase (synced : Synced s) (here : s.Occupied i) :
    (s.erase i).Occupied = fun j => j ≠ i ∧ s.Occupied j := by
  have layout := (apart_erase synced.owned here).layout
  funext j
  apply propext
  rw [Volume.Occupied, layout, inode_erase]
  by_cases same : j = i
  · simp [same]
  · simp [same, Volume.Occupied]

theorem erase (synced : Synced s) (here : s.Occupied i) : Synced (s.erase i) := by
  have layout := (apart_erase synced.owned here).layout
  have occupied := synced.occupied_erase here
  have owned := owned_erase synced.owned here
  have small : (s.erase i).layout.inodeCount + 7 < 2 ^ 32 := by
    rw [layout]
    exact synced.small
  refine ⟨⟨owned.layout, ?_⟩, ?_, ?_, small⟩
  · rw [occupied]
    exact owned.sound
  · intro j
    have bound : i < ((s.release ((s.inode i).blocks s.device.data)).setInode i
        { (s.inode i).clear 0 9 with indirect := 0, inodeType := 0, size := 0 }).layout.inodeCount := by
      simpa using here.1.2
    have marks : ((s.release ((s.inode i).blocks s.device.data)).setInode i
        { (s.inode i).clear 0 9 with indirect := 0, inodeType := 0, size := 0 }).marked j = s.marked j := by
      rw [Volume.marked_setInode, Volume.marked, Volume.inodeBitmap_release, Volume.marked]
    rw [occupied, Volume.erase, Volume.marked_dropInode (by simpa using synced.layout) bound, marks]
    by_cases same : j = i
    · simp [same]
    · simp [same, synced.marked]
  · rw [inode_erase]
    split
    · rfl
    · exact synced.reserved

end Synced

/-- The volume on which `write_file` starts writing: the file is truncated to zero, in memory and on
disk. -/
def Volume.emptied (s : Volume) (i : Nat) : Volume :=
  (s.release ((s.inode i).freedBy s.device.data 0)).setInode i ((s.inode i).cut 0)

theorem Volume.inode_emptied (s : Volume) (i j : Nat) :
    (s.emptied i).inode j = if j = i then (s.inode i).cut 0 else s.inode j := by
  rw [Volume.emptied, Volume.inode_setInode, Volume.inode_release]

namespace Synced

variable {s t : Volume} {i : Nat} (synced : Synced s) (here : s.Occupied i)

include synced here

theorem apart_emptied : Apart s.Occupied i s (s.emptied i) :=
  (Apart.release synced.layout synced.owned.sound here fun _ => Inode.freedBy_own).setInode synced.layout
    synced.owned.sound here.1.2 ((s.inode i).cut 0)

theorem holds_emptied :
    ((s.emptied i).inode i).holds (s.emptied i).device.data = ((s.inode i).cut 0).holds s.device.data := by
  rw [Volume.emptied, holds_setInode_same (by simpa using synced.layout) (by simpa using here.1.2),
    Volume.device_release]
  intro b held
  rw [Volume.device_release] at held
  rw [Volume.layout_release]
  exact (synced.owned.sound.backed here (Inode.holds_of_cut held)).1.1

theorem occupied_emptied : (s.emptied i).Occupied = s.Occupied := by
  refine occupied_congr (synced.apart_emptied here).layout fun j _ => ?_
  rw [Volume.inode_emptied]
  split
  next same => rw [Inode.inodeType_cut, same]
  next => rfl

theorem emptied : Synced (s.emptied i) := by
  have apart := synced.apart_emptied here
  have sound := (sound_cut_iff synced.layout synced.owned.sound here.1.2 here 0).mpr (clean_zero _ _)
  have occupied := synced.occupied_emptied here
  refine ⟨⟨apart.layout ▸ synced.layout, ?_⟩, ?_, ?_, apart.layout ▸ synced.small⟩
  · rw [occupied]
    exact sound
  · intro j
    rw [occupied, ← synced.marked, Volume.emptied, Volume.marked_setInode, Volume.marked,
      Volume.inodeBitmap_release,
      Volume.marked]
  · rw [Volume.inode_emptied]
    split
    next same => exact absurd here.1.1 (by omega)
    next => exact synced.reserved

omit here in
theorem writeFile_ok {now inodeNum : UInt32} {data : List UInt8}
    (done : writeFile now inodeNum data s = .ok () t) :
    s.Occupied inodeNum.toNat ∧ (s.inode inodeNum.toNat).isFile = true ∧
      ∃ u w, Written 0 data.length (s.emptied inodeNum.toNat)
        ((s.emptied inodeNum.toNat).inode inodeNum.toNat) u w ∧
        t = u.setInode inodeNum.toNat (w.extended now (0 + data.length) data.length) := by
  -- A `write_file` that went through wrote to the emptied file.
  have occupied : s.layout.InTable inodeNum.toNat → (s.inode inodeNum.toNat).isFile = true →
      s.Occupied inodeNum.toNat := by
    intro inside file
    refine ⟨inside, fun free => ?_⟩
    simp [Inode.isFile, free] at file
  obtain ⟨inside, file, u, w, written, rfl⟩ :=
    (ends_writeFile synced.layout now inodeNum data fun inside file =>
    synced.owned.working (occupied inside file)).of_ok done
  have working := working_cut synced.layout (synced.owned.working (occupied inside file))
    (clean_zero (s.inode inodeNum.toNat) s.device.data)
  have grown := written.grown.setInode working (show inodeNum.toNat < _ by simpa using inside.2)
    ((s.inode inodeNum.toNat).cut 0)
  refine ⟨occupied inside file, file, u.setInode inodeNum.toNat ((s.inode inodeNum.toNat).cut 0), w, ?_, ?_⟩
  · rw [Volume.inode_emptied, if_pos rfl]
    exact ⟨grown, written.inside⟩
  · rw [Volume.setInode_setInode]

end Synced

end PickleOS.NextFs
