import PickleOS.NextFs.Runs

set_option autoImplicit false

namespace PickleOS.NextFs

open Shared Shared.Outcome

section Truncate

variable {s t : Volume}

theorem consistent_cut_iff (consistent : s.Consistent) {inodeNum : UInt32} {newSize : Nat}
    (done : truncate inodeNum newSize s = .ok () t) :
    t.Consistent ↔ ¬(s.inode inodeNum.toNat).LeavesEntries s.device.data newSize := by
  obtain ⟨inside, file, rfl⟩ := truncate_ok consistent.layout
    (fun busy => (consistent.sound.working consistent.layout busy).placed) done
  have here := Synced.fileOccupied inside file
  have cut := sound_cut_iff consistent.layout consistent.sound inside.2 here newSize
  have layout : ((s.release ((s.inode inodeNum.toNat).freedBy s.device.data newSize)).setInode inodeNum.toNat
      ((s.inode inodeNum.toNat).cut newSize)).layout = s.layout := by simp
  have occupied := occupied_congr layout fun j _ => by
    rw [Volume.inode_setInode, Volume.inode_release]
    split
    next same => rw [Inode.inodeType_cut, same]
    next => rfl
  rw [← cut]
  constructor
  · intro after
    rw [← occupied]
    exact after.sound
  · intro sound
    refine ⟨layout ▸ consistent.layout, ?_⟩
    rw [occupied]
    exact sound

/-- Truncating a file leaves a consistent state, unless it shrinks the file inside the range of the
indirect block and a block past the new end is allocated. -/
theorem truncate_consistent_iff (consistent : s.Consistent) (inodeNum : UInt32) (newSize : UInt64)
    (done : truncate inodeNum newSize.toNat s = .ok () t) :
    t.Consistent ↔ ¬(s.inode inodeNum.toNat).LeavesEntries s.device.data newSize.toNat :=
  consistent_cut_iff consistent done

end Truncate

theorem usedVolume_truncates :
    succeeds (truncate 2 0) usedVolume = true ∧ succeeds (truncate 2 5120) usedVolume = true := by
  decide +kernel

theorem truncate_consistent_empty :
    ∃ t, truncate 2 (0 : UInt64).toNat usedVolume = .ok () t ∧ t.Consistent := by
  have done := ok_of_succeeds usedVolume_truncates.1
  refine ⟨_, done, (truncate_consistent_iff usedVolume_exact.synced.consistent 2 0 done).mpr ?_⟩
  rintro ⟨_, long, _⟩
  simp [lastBlock] at long

/-- Shrinking a file of eleven blocks to ten. -/
theorem truncate_leaves_entry :
    ∃ (s t : Volume) (inodeNum : UInt32) (newSize : UInt64), s.Consistent ∧
      (s.inode inodeNum.toNat).isFile = true ∧ truncate inodeNum newSize.toNat s = .ok () t ∧
        ¬t.Consistent := by
  obtain ⟨_, file, size, _, filled, _⟩ := usedVolume_inodes
  have consistent := usedVolume_exact.synced.consistent
  have done := ok_of_succeeds usedVolume_truncates.2
  refine ⟨usedVolume, _, 2, 5120, consistent, file, done, ?_⟩
  rw [consistent_cut_iff consistent done, not_not]
  refine ⟨?_, by decide, 10, by decide, ?_, filled⟩
  · rw [show (2 : UInt32).toNat = 2 from rfl, size]
    decide
  · rw [show (2 : UInt32).toNat = 2 from rfl, size]
    decide

/-- A consistent state in which no block is lost either. -/
structure Volume.Balanced (s : Volume) : Prop extends s.Consistent where
  covered : s.Covered s.Occupied

/-- A write of `n` bytes at `pos` gets a block for a pointer that the inode record lacks. -/
def Volume.Extends (s : Volume) (v : Inode) (pos n : Nat) : Prop :=
  s.nextFree.isSome = true ∧ ∃ k, Touches pos n k ∧ k < 137 ∧ v.Lacks k

/-- Calls that, if they fail, leave an inode on disk and the bitmap at odds. -/
def Op.Strands (s : Volume) : Op → Prop
  | createFile dirInode name => ∃ i, s.nextInode = some i ∧
      ((s.Occupied i ∧ ∃ p b, (s.inode i).holds s.device.data p = some b) ∨
        dirInode.toNat ≠ i ∧ s.Appends dirInode name ∧
          s.Extends (s.inode dirInode.toNat) (s.inode dirInode.toNat).size.toNat 64)
  | createDir _ _ => s.nextInode.isSome = true ∧ s.nextFree.isSome = true
  | write inodeNum offset data => s.Extends (s.inode inodeNum.toNat) offset.toNat data.length
  | writeFile inodeNum data => s.layout.InTable inodeNum.toNat ∧ (s.inode inodeNum.toNat).isFile = true ∧
      ((s.inode inodeNum.toNat).freedBy s.device.data 0 ≠ [] ∨ s.Extends (s.inode inodeNum.toNat) 0 data.length)
  | _ => False

/-- The calls that take blocks; a `write` is to a regular file. -/
def Op.Fills (s : Volume) : Op → Prop
  | createFile .. | createDir .. | writeFile .. => True
  | write inodeNum _ _ => s.layout.InTable inodeNum.toNat ∧ (s.inode inodeNum.toNat).isFile = true
  | _ => False

/-- A `write_file` whose truncation frees blocks. -/
def Op.Frees (s : Volume) : Op → Prop
  | writeFile inodeNum _ => (s.inode inodeNum.toNat).freedBy s.device.data 0 ≠ []
  | _ => False

section Failing

variable {s t : Volume}

theorem Volume.Owned.balanced_iff {owner : Nat → Prop} (owned : t.Owned owner) (occupied : t.Occupied = owner) :
    t.Balanced ↔ t.Covered owner := by
  subst occupied
  exact ⟨fun balanced => balanced.covered, fun covered => ⟨owned.consistent, covered⟩⟩

theorem balanced_stuck_iff {owner : Nat → Prop} {i : Nat} {pos n : Nat} {fail : Fail} (owned : s.Owned owner)
    (occupied : s.Occupied = owner) (here : owner i) (stuck : Stuck (Touches pos n) s (s.inode i) fail t) :
    t.Balanced ↔ s.Covered owner ∧ ¬s.Extends (s.inode i) pos n := by
  -- Growing an inode in memory and stopping.
  obtain ⟨_, w, grown, record⟩ := stuck
  have occupied' : t.Occupied = owner := by
    rw [← occupied]
    exact occupied_congr grown.layout fun j inside => by rw [grown.inode owned.layout inside.2]
  rw [(owned.grown here grown).balanced_iff occupied', Volume.Extends, ← record]
  constructor
  · intro after
    have before := Volume.Covered.of_grown owned here grown after
    exact ⟨before, (Volume.Covered.grown_iff owned before here grown).mp after⟩
  · rintro ⟨before, same⟩
    exact (Volume.Covered.grown_iff owned before here grown).mpr same

theorem balanced_dropInode_iff (i : Nat) : (t.dropInode i).Balanced ↔ t.Balanced := by
  have occupied : (t.dropInode i).Occupied = t.Occupied :=
    occupied_congr (Volume.layout_dropInode t i) fun j _ => by rw [Volume.inode_dropInode]
  constructor
  · rintro ⟨⟨ok, sound⟩, covered⟩
    rw [occupied] at sound covered
    exact ⟨⟨by simpa using ok, by simpa [Volume.Sound] using sound⟩, by simpa [Volume.Covered] using covered⟩
  · rintro ⟨⟨ok, sound⟩, covered⟩
    refine ⟨⟨by simpa using ok, ?_⟩, ?_⟩
    · rw [occupied]
      simpa [Volume.Sound] using sound
    · rw [occupied]
      simpa [Volume.Covered] using covered

theorem failed_write_iff (balanced : s.Balanced) {now inodeNum : UInt32} {offset : Nat} {data : List UInt8}
    {fail : Fail} (inside : s.layout.InTable inodeNum.toNat) (file : (s.inode inodeNum.toNat).isFile = true)
    (failed : writeAt now inodeNum offset data s = .error fail t) :
    t.Balanced ↔ ¬s.Extends (s.inode inodeNum.toNat) offset data.length := by
  have owned := balanced.toConsistent.owned
  have here := Synced.fileOccupied inside file
  obtain ⟨_, ⟨refused, _⟩ | ⟨_, _, stuck⟩⟩ :=
    (ends_writeAt balanced.layout now inodeNum offset data fun _ _ =>
    owned.working here).of_error failed
  · exact (refused ⟨inside, Or.inl file⟩).elim
  · rw [balanced_stuck_iff owned rfl here stuck]
    exact and_iff_right balanced.covered

theorem dirWorking_of_owned (owned : s.Owned s.Occupied) (dirInode : UInt32) : s.DirWorking dirInode :=
  fun inside isDir => owned.working (Synced.dirOccupied inside isDir)

theorem appends_stageFile {i : Nat} (owned : s.Owned s.Occupied) (next : s.nextInode = some i) (now : UInt32)
    {dirInode : UInt32} (different : dirInode.toNat ≠ i) (name : Name) :
    (s.stageFile now i).Appends dirInode name ↔ s.Appends dirInode name := by
  -- A new inode does not change how a directory takes an entry.
  have inside := (Volume.nextInode_some owned.layout next).2.1
  have record : (s.stageFile now i).inode dirInode.toNat = s.inode dirInode.toNat := by
    rw [Volume.stageFile, Volume.inode_setInode, if_neg different, Volume.inode_takeInode]
  by_cases isDir : s.layout.InTable dirInode.toNat ∧ (s.inode dirInode.toNat).isDir = true
  · have agree : Agree s (s.stageFile now i) (s.inode dirInode.toNat) := by
      refine ⟨rfl, fun p b held => ?_⟩
      have data := (owned.sound.backed (Synced.dirOccupied isDir.1 isDir.2) held).1.1
      rw [Volume.stageFile, Volume.data_setInode (by simpa using owned.layout) (by simpa using data)
        (by simpa using inside)]
      rfl
    exact agree.appends_iff owned.layout (by simp [Volume.stageFile])
      record (dirWorking_of_owned owned dirInode) name
  · constructor
    · intro appends
      refine (isDir ⟨?_, record ▸ appends.1.isDir⟩).elim
      simpa [Volume.stageFile] using appends.1.inside
    · exact fun appends => (isDir ⟨appends.1.inside, appends.1.isDir⟩).elim

theorem failed_createFile_iff (balanced : s.Balanced) {now dirInode : UInt32} {name : Name} {fail : Fail}
    (failed : createFile now dirInode name s = .error fail t) :
    t.Balanced ↔ ¬(Op.createFile dirInode name).Strands s := by
  have owned := balanced.toConsistent.owned
  have staged := fun i next => owned_stageFile owned (i := i) next now
  have occupied := fun i next => occupied_stageFile owned.layout (i := i) next now
  have working : ∀ i, s.nextInode = some i → (s.stageFile now i).DirWorking dirInode := fun i next =>
    dirWorking_of_owned (occupied i next ▸ staged i next) dirInode
  obtain ⟨_, ⟨next, _, rfl⟩ | ⟨i, u, next, rfl, refused⟩⟩ :=
    (ends_createFile owned.layout now dirInode name working).of_error failed
  · simp [Op.Strands, next, balanced]
  · have bare : (s.stageFile now i).Covered (fun j => j = i ∨ s.Occupied j) ↔
        ¬(s.Occupied i ∧ ∃ p b, (s.inode i).holds s.device.data p = some b) := by
      constructor
      · rintro after ⟨mine, p, b, held⟩
        simp [bare_of_covered_stageFile owned next now after mine p] at held
      · intro lost
        refine covered_stageFile owned next balanced.covered now fun mine p => ?_
        cases held : (s.inode i).holds s.device.data p with
        | none => rfl
        | some b => exact (lost ⟨mine, p, b, held⟩).elim
    have strands : (Op.createFile dirInode name).Strands s ↔
        (s.Occupied i ∧ ∃ p b, (s.inode i).holds s.device.data p = some b) ∨
          dirInode.toNat ≠ i ∧ s.Appends dirInode name ∧
            s.Extends (s.inode dirInode.toNat) (s.inode dirInode.toNat).size.toNat 64 := by
      simp [Op.Strands, next]
    -- The new inode is a file, so the directory is another one.
    have different : (s.stageFile now i).Appends dirInode name → dirInode.toNat ≠ i := by
      intro appends same
      have isDir := appends.1.isDir
      rw [same, Volume.stageFile, Volume.inode_setInode, if_pos rfl] at isDir
      simp [Inode.isDir, Inode.newFile] at isDir
    rw [balanced_dropInode_iff, strands, not_or]
    obtain ⟨_, ⟨fits, rfl⟩ | ⟨appends, stuck⟩⟩ :=
      dirAddEntry_error (staged i next).layout (working i next) refused
    · rw [(staged i next).balanced_iff (occupied i next), bare]
      refine (and_iff_left ?_).symm
      rintro ⟨other, appends, _⟩
      exact fits ((appends_stageFile owned next now other name).mpr appends)
    · have other := different appends
      have record : (s.stageFile now i).inode dirInode.toNat = s.inode dirInode.toNat := by
        rw [Volume.stageFile, Volume.inode_setInode, if_neg other, Volume.inode_takeInode]
      have here : s.Occupied dirInode.toNat :=
        Synced.dirOccupied (by simpa [Volume.stageFile] using appends.1.inside) (record ▸ appends.1.isDir)
      rw [balanced_stuck_iff (staged i next) (occupied i next) (Or.inr here) stuck, bare, record]
      refine and_congr_right fun _ => not_congr ?_
      have free : (s.stageFile now i).nextFree = s.nextFree := by
        simp only [Volume.stageFile, Volume.nextFree, Volume.layout_setInode, Volume.layout_takeInode]
        rfl
      rw [Volume.Extends, free, Volume.Extends]
      exact ⟨fun extends' => ⟨other, (appends_stageFile owned next now other name).mp appends, extends'⟩,
        fun both => both.2.2⟩

theorem balanced_takeInode (balanced : s.Balanced) (i : Nat) : (s.takeInode i).Balanced := by
  have occupied : (s.takeInode i).Occupied = s.Occupied :=
    occupied_congr (Volume.layout_takeInode s i) fun j _ => by rw [Volume.inode_takeInode]
  refine ⟨⟨by simpa using balanced.layout, ?_⟩, ?_⟩
  · rw [occupied]
    simpa [Volume.Sound] using balanced.sound
  · rw [occupied]
    simpa [Volume.Covered] using balanced.covered

theorem failed_createDir_iff (balanced : s.Balanced) {now parentInode : UInt32} {name : Name} {fail : Fail}
    (failed : createDir now parentInode name s = .error fail t) :
    t.Balanced ↔ ¬(Op.createDir parentInode name).Strands s := by
  have owned := balanced.toConsistent.owned
  have ok := owned.layout
  have staged := fun i b next found => owned_stageDir owned (i := i) next (b := b) found now parentInode
  have occupied := fun i b next found => occupied_stageDir ok (i := i) next (b := b) found now parentInode
  have working : ∀ i b, s.nextInode = some i → s.nextFree = some b →
      (s.stageDir now i b parentInode).DirWorking parentInode := fun i b next found =>
    dirWorking_of_owned (occupied i b next found ▸ staged i b next found) parentInode
  obtain ⟨_, ⟨next, _, rfl⟩ | ⟨i, next, full, _, rfl⟩ | ⟨i, b, u, next, found, rfl, refused⟩⟩ :=
    (ends_createDir ok now parentInode name working).of_error failed
  · simp [Op.Strands, next, balanced]
  · simp [Op.Strands, full, balanced_takeInode balanced]
  · have strands : (Op.createDir parentInode name).Strands s := by simp [Op.Strands, next, found]
    refine iff_of_false ?_ (not_not_intro strands)
    obtain ⟨positive, inside, _⟩ := Volume.nextInode_some ok next
    obtain ⟨data, _⟩ := Volume.nextFree_some ok found
    have layout : u.layout = s.layout ∧ u.inode i = Volume.newDirInode now b := by
      have record := inode_stageDir ok found now parentInode inside (i := i)
      rw [if_pos rfl] at record
      obtain ⟨_, ⟨_, rfl⟩ | ⟨_, _, w, grown, _⟩⟩ :=
        dirAddEntry_error (staged i b next found).layout (working i b next found) refused
      · exact ⟨layout_stageDir .., record⟩
      · have same := grown.inode (staged i b next found).layout
          (show i < _ by rw [layout_stageDir]; exact inside)
        exact ⟨grown.layout.trans (layout_stageDir ..), same.trans record⟩
    -- The record of the new directory stays on disk and refers to the block that was freed.
    rw [balanced_dropInode_iff]
    intro after
    have record : (u.dropBlock b).inode i = Volume.newDirInode now b := layout.2
    have busy : (u.dropBlock b).Occupied i := by
      refine ⟨?_, ?_⟩
      · rw [Volume.layout_dropBlock, layout.1]
        exact ⟨positive, inside⟩
      · rw [record]
        simp [Volume.newDirInode, Inode.newDir]
    have held : ((u.dropBlock b).inode i).holds (u.dropBlock b).device.data (.data 0) = some b := by
      rw [record, holds_newDir owned found, Function.update_self]
    have used := (after.sound.backed busy held).2
    rw [Volume.used_dropBlock (layout.1 ▸ ok) (layout.1 ▸ data.2), if_pos rfl] at used
    cases used

theorem pointers_of_freedBy_nil {v : Inode} {data : Nat → Block} (none : v.freedBy data 0 = []) :
    (v.cut 0).direct = v.direct ∧ (v.cut 0).indirect = v.indirect := by
  by_cases positive : 0 < v.size.toNat
  · rw [Exact.freedBy_zero data positive, List.append_eq_nil_iff] at none
    have hole : v.indirect = 0 := by
      by_contra filled
      simp [filled] at none
    rw [Inode.cut, if_neg (by omega)]
    constructor
    · funext k
      by_cases pointer : v.direct k = 0
      · simp [Inode.clear, pointer]
      · have kept : ¬(1 ≤ k.val ∧ k.val < 1 + (min 9 ((lastBlock v.size.toNat + 1) % 2 ^ 32) - 1)) := by
          rintro ⟨low, high⟩
          have freed : (v.direct k).toNat ∈
              targets (v.pointer data) 1 (min 9 ((lastBlock v.size.toNat + 1) % 2 ^ 32) - 1) := by
            refine mem_targets.mpr ⟨k, low, high, ?_⟩
            rw [Inode.pointer_direct _ _ k.isLt, target_eq_some]
            exact ⟨pointer, rfl⟩
          rw [none.1] at freed
          cases freed
        simp only [Inode.clear]
        rw [if_neg (by simpa [lastBlock] using kept)]
    · simp [hole]
  · rw [Inode.cut, if_pos (by omega)]
    exact ⟨rfl, rfl⟩

theorem failed_writeFile_iff (balanced : s.Balanced) {now inodeNum : UInt32} {data : List UInt8} {fail : Fail}
    (failed : writeFile now inodeNum data s = .error fail t)
    (none : s.layout.InTable inodeNum.toNat → (s.inode inodeNum.toNat).isFile = true →
      (s.inode inodeNum.toNat).freedBy s.device.data 0 = []) :
    t.Balanced ↔ ¬(Op.writeFile inodeNum data).Strands s := by
  -- If nothing is freed first, `write_file` fails like a write at offset 0.
  have owned := balanced.toConsistent.owned
  obtain ⟨_, ⟨refused, rfl⟩ | ⟨inside, file, stuck⟩⟩ := (ends_writeFile balanced.layout now inodeNum data
    fun inside file => owned.working (Synced.fileOccupied inside file)).of_error failed
  · exact iff_of_true balanced fun strands => refused ⟨strands.1, strands.2.1⟩
  · have here := Synced.fileOccupied inside file
    have empty := none inside file
    obtain ⟨direct, indirect⟩ := pointers_of_freedBy_nil empty
    rw [empty, Volume.release_nil] at stuck
    obtain ⟨noSpace, w, grown, record⟩ := stuck
    have lacks : ∀ k, ((s.inode inodeNum.toNat).cut 0).Lacks k ↔ (s.inode inodeNum.toNat).Lacks k := by
      intro k
      simp only [Inode.Lacks, direct, indirect]
    have same : ({ s.inode inodeNum.toNat with direct := w.direct, indirect := w.indirect } : Inode) =
        s.inode inodeNum.toNat ↔ w = (s.inode inodeNum.toNat).cut 0 := by
      constructor
      · intro unchanged
        have directs := congrArg Inode.direct unchanged
        have indirects := congrArg Inode.indirect unchanged
        dsimp only at directs indirects
        rw [grown.rest, directs, indirects, ← direct, ← indirect]
      · rintro rfl
        rw [direct, indirect]
    have stuck' : Stuck (Touches 0 data.length) s (s.inode inodeNum.toNat) fail t := by
      refine ⟨noSpace, _, grown.of_pointers direct indirect, ?_⟩
      rw [same, record]
      simp only [lacks]
    rw [balanced_stuck_iff owned rfl here stuck']
    simp [Op.Strands, inside, file, empty, balanced.covered]

/-- A failed call leaves a balanced state unless it strands blocks. The converse holds too, unless
`write_file` has freed blocks: the write may then happen to take the very blocks that were freed. -/
theorem failed_call_balanced (balanced : s.Balanced) (op : Op) (now : UInt32) {fail : Fail} (fills : op.Fills s)
    (failed : op.run now s = .error fail t) :
    (¬op.Strands s → t.Balanced) ∧ (¬op.Frees s → t.Balanced → ¬op.Strands s) := by
  cases op with
  | createFile dirInode name =>
    have exact := failed_createFile_iff balanced (error_of_dropped failed)
    exact ⟨exact.mpr, fun _ => exact.mp⟩
  | createDir parentInode name =>
    have exact := failed_createDir_iff balanced (error_of_dropped failed)
    exact ⟨exact.mpr, fun _ => exact.mp⟩
  | write inodeNum offset data =>
    have exact := failed_write_iff balanced fills.1 fills.2 (error_of_dropped failed)
    exact ⟨exact.mpr, fun _ => exact.mp⟩
  | writeFile inodeNum data =>
    constructor
    · intro clean
      refine (failed_writeFile_iff balanced failed fun inside file => ?_).mpr clean
      by_contra freed
      exact clean ⟨inside, file, Or.inl freed⟩
    · intro unfreed
      exact (failed_writeFile_iff balanced failed fun _ _ => not_not.mp unfreed).mp
  | unlink => exact fills.elim
  | rmdir => exact fills.elim
  | chmod => exact fills.elim
  | chown => exact fills.elim

end Failing

theorem usedVolume_balanced : usedVolume.Balanced :=
  ⟨usedVolume_exact.synced.consistent, usedVolume_exact.covered⟩

theorem failed_call_balanced_past :
    ∃ fail t, (Op.write 2 70144 [1]).run 0 usedVolume = .error fail t ∧ t.Balanced := by
  obtain ⟨inside, file, _⟩ := usedVolume_inodes
  have fails : succeeds ((Op.write 2 70144 [1]).run 0) usedVolume = false := by decide +kernel
  obtain ⟨fail, failed⟩ := error_of_fails fails
  refine ⟨fail, _, failed, (failed_call_balanced usedVolume_balanced _ 0 ?_ failed).1 ?_⟩
  · exact ⟨inside, file⟩
  · rintro ⟨_, k, ⟨_, low, _⟩, high, _⟩
    simp at low
    omega

/-- Two bytes at the very end of the range of block pointers. The first one needs an indirect block
and a data block, the second one finds no pointer: both blocks stay marked and belong to no inode.
-/
theorem failed_write_strands :
    ∃ (s t : Volume) (op : Op) (fail : Fail), s.Balanced ∧ op.Fills s ∧ op.run 0 s = .error fail t ∧
    ¬t.Balanced := by
  have facts : succeeds ((Op.write 2 70143 [1, 2]).run 0) noteVolume = false ∧
    2 < noteVolume.sb.inodeCount.toNat ∧
      (noteVolume.inode 2).isFile = true ∧ noteVolume.nextFree.isSome = true ∧
        (noteVolume.inode 2).indirect = 0 := by
    decide +kernel
  obtain ⟨fails, inside, file, space, hole⟩ := facts
  have balanced : noteVolume.Balanced := ⟨noteVolume_exact.synced.consistent, noteVolume_exact.covered⟩
  obtain ⟨fail, failed⟩ := error_of_fails fails
  have table : noteVolume.layout.InTable (2 : UInt32).toNat := ⟨by decide, inside⟩
  refine ⟨noteVolume, _, .write 2 70143 [1, 2], fail, balanced, ⟨table, file⟩, failed, ?_⟩
  rw [failed_write_iff balanced table file (error_of_dropped failed), not_not]
  refine ⟨space, 136, ⟨by decide, by decide, by decide⟩, by decide, ?_⟩
  rw [Inode.lacks_indirect (by decide)]
  exact hole

end PickleOS.NextFs
