import PickleOS.NextFs.Synced

set_option autoImplicit false

namespace PickleOS.NextFs

open Shared Shared.Outcome

/-- A property of volumes that survives the effects successful operations are made of. -/
structure Kept (P : Volume → Prop) : Prop where
  synced : ∀ {s}, P s → Synced s
  patch : ∀ {s i k b}, P s → s.Occupied i → (s.inode i).isDir = true →
    (s.inode i).holds s.device.data (.data k) = some b → ∀ block, P (s.setBlock b block)
  append : ∀ {s u i touched w x}, P s → s.Occupied i → (s.inode i).isDir = true →
    Grown touched s (s.inode i) u w → x.direct = w.direct → x.indirect = w.indirect →
    x.inodeType = (s.inode i).inodeType → P (u.setInode i x)
  stageFile : ∀ {s i}, P s → s.nextInode = some i → ∀ now, P (s.stageFile now i)
  stageDir : ∀ {s i b}, P s → s.nextInode = some i → s.nextFree = some b → ∀ now parent,
    P (s.stageDir now i b parent)
  erase : ∀ {s i}, P s → s.Occupied i → P (s.erase i)

/-- A property of volumes that survives what creating a file or a directory is made of. -/
structure Adds (P : Volume → Prop) : Prop where
  synced : ∀ {s}, P s → Synced s
  patch : ∀ {s i k b}, P s → s.Occupied i → (s.inode i).isDir = true →
    (s.inode i).holds s.device.data (.data k) = some b → ∀ block, P (s.setBlock b block)
  append : ∀ {s u i touched w x}, P s → s.Occupied i → (s.inode i).isDir = true →
    Grown touched s (s.inode i) u w → x.direct = w.direct → x.indirect = w.indirect →
    x.inodeType = (s.inode i).inodeType → P (u.setInode i x)
  stageFile : ∀ {s i}, P s → s.nextInode = some i → ∀ now, P (s.stageFile now i)
  stageDir : ∀ {s i b}, P s → s.nextInode = some i → s.nextFree = some b → ∀ now parent,
    P (s.stageDir now i b parent)

theorem Kept.adds {P : Volume → Prop} (kept : Kept P) : Adds P :=
  ⟨kept.synced, kept.patch, kept.append, kept.stageFile, kept.stageDir⟩

theorem Synced.dirOccupied {s : Volume} {dirInode : UInt32} (inside : s.layout.InTable dirInode.toNat)
    (isDir : (s.inode dirInode.toNat).isDir = true) : s.Occupied dirInode.toNat := by
  refine ⟨inside, ?_⟩
  intro free
  simp [Inode.isDir, free] at isDir

theorem Synced.fileOccupied {s : Volume} {i : Nat} (inside : s.layout.InTable i)
    (file : (s.inode i).isFile = true) : s.Occupied i := by
  refine ⟨inside, ?_⟩
  intro free
  simp [Inode.isFile, free] at file

theorem Synced.dirWorking {s : Volume} (synced : Synced s) (dirInode : UInt32) : s.DirWorking dirInode :=
  fun inside isDir => synced.owned.working (Synced.dirOccupied inside isDir)

namespace Adds

variable {P : Volume → Prop} (adds : Adds P) {s t : Volume}

include adds

theorem dirAddEntry {now dirInode : UInt32} {name : Name} {targetInode : UInt32} (holds : P s)
    (done : NextFs.dirAddEntry now dirInode name targetInode s = .ok () t) : P t := by
  have synced := adds.synced holds
  have working := synced.dirWorking dirInode
  obtain ⟨admits, outcome⟩ := dirAddEntry_ok synced.layout working done
  have here := Synced.dirOccupied admits.inside admits.isDir
  rcases outcome with ⟨b, slot, buf, found, rfl⟩ | ⟨_, w, u, written, rfl⟩
  · obtain ⟨k, held, _⟩ := unusedEntry_some (working admits.inside admits.isDir) found
    exact adds.patch holds here admits.isDir held _
  · refine adds.append holds here admits.isDir written.grown rfl rfl ?_
    rw [written.grown.rest]
    rfl

theorem createFile {now dirInode : UInt32} {name : Name} {r : UInt32} (holds : P s)
    (done : NextFs.createFile now dirInode name s = .ok r t) : P t := by
  have synced := adds.synced holds
  obtain ⟨i, next, _, added⟩ := (ends_createFile synced.layout now dirInode name fun i next =>
    (synced.stageFile next now).dirWorking dirInode).of_ok done
  exact adds.dirAddEntry (adds.stageFile holds next now) added

theorem createDir {now parentInode : UInt32} {name : Name} {r : UInt32} (holds : P s)
    (done : NextFs.createDir now parentInode name s = .ok r t) : P t := by
  have synced := adds.synced holds
  obtain ⟨i, b, next, found, _, added⟩ :=
    (ends_createDir synced.layout now parentInode name fun i b next found =>
    (synced.stageDir next found now parentInode).dirWorking parentInode).of_ok done
  exact adds.dirAddEntry (adds.stageDir holds next found now parentInode) added

theorem blank {dirInode : UInt32} {name : Name} {b slot : Nat} {r : UInt32} (holds : P s)
    (inside : s.layout.InTable dirInode.toNat) (isDir : (s.inode dirInode.toNat).isDir = true)
    (found : s.namedEntry (s.inode dirInode.toNat) name = .ok (some (b, slot, s.device.data b, r))) :
    P (s.blank b slot) ∧ ∀ j, j < s.layout.inodeCount → (s.blank b slot).inode j = s.inode j := by
  -- A directory's slot is cleared: nothing but one data block of the directory changes.
  have synced := adds.synced holds
  obtain ⟨k, held, _⟩ := namedEntry_some (synced.dirWorking dirInode inside isDir) found
  refine ⟨adds.patch holds (Synced.dirOccupied inside isDir) isDir held _, ?_⟩
  intro j small
  exact Volume.inode_setBlock synced.layout
    (synced.owned.sound.backed (Synced.dirOccupied inside isDir) held).1.1 small _

theorem ends_unlink (holds : P s) (now dirInode : UInt32) (name : Name) :
    Ends (NextFs.unlink now dirInode name) s
      (fun _ t => ∃ b slot r, P (s.blank b slot) ∧ (s.blank b slot).Occupied r ∧ t = (s.blank b slot).erase r)
      (fun fail t => fail ≠ .panic ∧ (t = s ∨ ∃ u, P u ∧
        (t = u ∨ ∃ r, NextFs.dirAddEntry now dirInode name r u = .ok () t ∨
          ∃ reason, NextFs.dirAddEntry now dirInode name r u = .error reason t))) := by
  -- `unlink` clears an entry and frees its inode. When it fails, it has done nothing, or it has removed an
  -- entry and perhaps tried to add it again.
  have synced := adds.synced holds
  refine (NextFs.ends_unlink synced.layout now dirInode name (synced.dirWorking dirInode) ?_).imp ?_ ?_
  · intro b slot r inside isDir found
    obtain ⟨kept, records⟩ := adds.blank holds inside isDir found
    have synced' := adds.synced kept
    refine ⟨synced'.dirWorking dirInode, fun table => ⟨records _ table.2, fun file => ?_⟩⟩
    rw [← records _ table.2] at file ⊢
    exact synced'.owned.working (Synced.fileOccupied (s := s.blank b slot) table file)
  · rintro _ t ⟨_, _, inside, isDir, b, slot, r, found, table, file, rfl⟩
    obtain ⟨kept, records⟩ := adds.blank holds inside isDir found
    rw [← records _ table.2] at file
    exact ⟨b, slot, r.toNat, kept, Synced.fileOccupied (s := s.blank b slot) table file, rfl⟩
  · rintro fail t ⟨calm, rfl | ⟨inside, isDir, b, slot, r, found, outcome⟩⟩
    · exact ⟨calm, Or.inl rfl⟩
    · obtain ⟨kept, _⟩ := adds.blank holds inside isDir found
      refine ⟨calm, Or.inr ⟨_, kept, ?_⟩⟩
      rcases outcome with ⟨_, rfl⟩ | ⟨_, _, outcome⟩
      · exact Or.inl rfl
      · exact Or.inr ⟨r, outcome⟩

theorem ends_rmdir (holds : P s) (parentInode : UInt32) (name : Name) :
    Ends (NextFs.rmdir parentInode name) s
      (fun _ t => ∃ b slot r, P (s.blank b slot) ∧ (s.blank b slot).Occupied r ∧ t = (s.blank b slot).erase r)
      (fun fail t => fail ≠ .panic ∧ t = s) := by
  have synced := adds.synced holds
  refine (NextFs.ends_rmdir synced.layout parentInode name (synced.dirWorking parentInode)
    (fun r _ => synced.dirWorking r) ?_).imp ?_ fun _ _ outcome => outcome
  · intro b slot r inside isDir found table dir
    obtain ⟨kept, records⟩ := adds.blank holds inside isDir found
    refine ⟨records _ table.2, ?_⟩
    rw [← records _ table.2] at dir ⊢
    exact (adds.synced kept).owned.working (Synced.dirOccupied (s := s.blank b slot) table dir)
  · rintro _ t ⟨_, _, inside, isDir, b, slot, r, _, found, table, dir, _, _, rfl⟩
    obtain ⟨kept, records⟩ := adds.blank holds inside isDir found
    rw [← records _ table.2] at dir
    exact ⟨b, slot, r.toNat, kept, Synced.dirOccupied (s := s.blank b slot) table dir, rfl⟩

end Adds

namespace Kept

variable {P : Volume → Prop} (kept : Kept P) {s : Volume}

include kept

theorem ends_unlink (holds : P s) (now dirInode : UInt32) (name : Name) :
    Ends (NextFs.unlink now dirInode name) s (fun _ t => P t)
      (fun fail t => fail ≠ .panic ∧ (t = s ∨ ∃ u, P u ∧
        (t = u ∨ ∃ r, NextFs.dirAddEntry now dirInode name r u = .ok () t ∨
          ∃ reason, NextFs.dirAddEntry now dirInode name r u = .error reason t))) := by
  refine (kept.adds.ends_unlink holds now dirInode name).imp ?_ fun _ _ outcome => outcome
  rintro _ _ ⟨b, slot, r, holds', here, rfl⟩
  exact kept.erase holds' here

theorem ends_rmdir (holds : P s) (parentInode : UInt32) (name : Name) :
    Ends (NextFs.rmdir parentInode name) s (fun _ t => P t) (fun fail t => fail ≠ .panic ∧ t = s) := by
  refine (kept.adds.ends_rmdir holds parentInode name).imp ?_ fun _ _ outcome => outcome
  rintro _ _ ⟨b, slot, r, holds', here, rfl⟩
  exact kept.erase holds' here

end Kept

theorem Volume.layout_erase (s : Volume) (i : Nat) : (s.erase i).layout = s.layout := by
  simp [Volume.erase]

theorem Kept.within {P : Volume → Prop} (kept : Kept P) (l : Layout) : Kept fun t => P t ∧ t.layout = l where
  -- The layout of a volume never changes.
  synced holds := kept.synced holds.1
  patch holds here dir held block := ⟨kept.patch holds.1 here dir held block, holds.2⟩
  append holds here dir grown direct indirect type :=
    ⟨kept.append holds.1 here dir grown direct indirect type, grown.layout.trans holds.2⟩
  stageFile holds next now := ⟨kept.stageFile holds.1 next now, (Volume.layout_takeInode _ _).trans holds.2⟩
  stageDir holds next found now parent :=
    ⟨kept.stageDir holds.1 next found now parent, (layout_stageDir ..).trans holds.2⟩
  erase holds here := ⟨kept.erase holds.1 here, (Volume.layout_erase ..).trans holds.2⟩

section Layout

variable {s t : Volume} {now inodeNum : UInt32} {data : List UInt8}

theorem layout_writeAt {offset n : Nat} (synced : Synced s) (file : (s.inode inodeNum.toNat).isFile = true)
    (done : writeAt now inodeNum offset data s = .ok n t) : t.layout = s.layout := by
  obtain ⟨_, _, _, u, w, written, rfl⟩ := (ends_writeAt synced.layout now inodeNum offset data fun inside _ =>
    synced.owned.working (Synced.fileOccupied inside file)).of_ok done
  exact written.grown.layout

theorem layout_writeFile (synced : Synced s) (done : writeFile now inodeNum data s = .ok () t) :
    t.layout = s.layout := by
  obtain ⟨here, _, u, w, written, rfl⟩ := synced.writeFile_ok done
  exact written.grown.layout.trans (synced.apart_emptied here).layout

end Layout

theorem Synced.kept : Kept Synced where
  synced := id
  patch synced here _ held block := synced.grown here (Grown.write (synced.owned.working here) held block)
  append synced here _ grown direct indirect type := synced.store here grown direct indirect type
  stageFile synced next now := synced.stageFile next now
  stageDir synced next found now parent := synced.stageDir next found now parent
  erase synced here := synced.erase here

end PickleOS.NextFs
