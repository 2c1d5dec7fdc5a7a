import PickleOS.NextFs.FileBytes
import PickleOS.NextFs.Remount

set_option autoImplicit false

namespace PickleOS.NextFs

open Shared Shared.Outcome

/-- The file `r` holds the bytes of `a`. -/
structure Contents (s : Volume) (r : Nat) (a : Sparse) : Prop where
  occupied : s.Occupied r
  file : (s.inode r).isFile = true
  size : (s.inode r).size.toNat = a.size
  bytes : s.byteAt (s.inode r) = a.byte

section Keeping

variable {s t u : Volume} {r : Nat} {a : Sparse}

theorem Undisturbed.byteAt {kept : Nat → Prop} (same : Undisturbed kept s t) {i : Nat} (here : kept i) :
    t.byteAt (t.inode i) = s.byteAt (s.inode i) := by
  rw [same.inode here]
  exact byteAt_congr fun _ _ held => same.data here held

theorem Contents.undisturbed (contents : Contents s r a) (same : Undisturbed (· = r) s t) : Contents t r a := by
  have record := same.inode (rfl : r = r)
  refine ⟨⟨same.layout ▸ contents.occupied.1, ?_⟩, ?_, ?_, ?_⟩
  · rw [record]
    exact contents.occupied.2
  · rw [record]
    exact contents.file
  · rw [record]
    exact contents.size
  · rw [same.byteAt rfl]
    exact contents.bytes

/-- The volume `t` is in order, and the file `r` on it is the one of `s`. -/
structure Intact (r : Nat) (s t : Volume) : Prop where
  synced : Synced t
  occupied : t.Occupied r
  file : (t.inode r).isFile = true
  same : Undisturbed (· = r) s t

namespace Intact

theorem refl (synced : Synced s) (occupied : s.Occupied r) (file : (s.inode r).isFile = true) : Intact r s s :=
  ⟨synced, occupied, file, Undisturbed.refl _ s⟩

theorem step (intact : Intact r s t) (synced : Synced u) (same : Undisturbed (· = r) t u) : Intact r s u := by
  have record := same.inode (rfl : r = r)
  have occupied : u.Occupied r := by
    refine ⟨same.layout ▸ intact.occupied.1, ?_⟩
    rw [record]
    exact intact.occupied.2
  exact ⟨synced, occupied, record ▸ intact.file, intact.same.trans same⟩

theorem other (intact : Intact r s t) {i : Nat} (dir : (t.inode i).isDir = true) : i ≠ r := by
  rintro rfl
  have file := intact.file
  simp only [Inode.isDir, Inode.isFile, decide_eq_true_eq] at dir file
  simp [dir] at file

theorem apart (intact : Intact r s t) {i : Nat} (different : i ≠ r) (apart : Apart t.Occupied i t u)
    (synced : Synced u) :
    Intact r s u := by
  refine intact.step synced (apart.undisturbed.mono ?_)
  rintro j rfl
  exact ⟨intact.occupied, different.symm⟩

theorem adds : Adds (Intact r s) where
  synced := Intact.synced
  patch intact here dir held block := by
    have grown := Grown.write (intact.synced.owned.working here) held block
    exact intact.apart (intact.other dir) (intact.synced.owned.apart here grown)
      (intact.synced.grown here grown)
  append intact here dir grown direct indirect type :=
    intact.apart (intact.other dir) (apart_store intact.synced.owned here grown _)
      (intact.synced.store here grown direct indirect type)
  stageFile {t i} intact next now := by
    have free := intact.synced.next_free next
    have layout : (t.stageFile now i).layout = t.layout := by simp [Volume.stageFile]
    refine intact.step (intact.synced.stageFile next now) ⟨layout, ?_, ?_⟩
    · rintro j rfl
      rw [Volume.stageFile, Volume.inode_setInode, if_neg (by rintro rfl; exact free intact.occupied),
        Volume.inode_takeInode]
    · rintro j p b rfl held
      have inside := (Volume.nextInode_some intact.synced.layout next).2.1
      have data := (intact.synced.owned.sound.backed intact.occupied held).1.1
      exact Volume.data_setInode (by simpa using intact.synced.layout) (by simpa using data)
        (by simpa using inside) _
  stageDir {t i b} intact next found now parent := by
    refine intact.apart ?_ (apart_stageDir intact.synced.owned next found now parent)
      (intact.synced.stageDir next found now parent)
    rintro rfl
    exact intact.synced.next_free next intact.occupied

theorem erase (intact : Intact r s t) {i : Nat} (here : t.Occupied i) (different : i ≠ r) :
    Intact r s (t.erase i) :=
  intact.apart different (apart_erase intact.synced.owned here) (intact.synced.erase here)

end Intact

end Keeping

/-- Operations that are neither a write to the file `r` nor a replacement of its contents. -/
def Op.Spares (r : UInt32) : Op → Prop
  | write inodeNum .. | writeFile inodeNum _ => inodeNum ≠ r
  | _ => True

section Others

variable {s t : Volume} {r : UInt32} {a : Sparse}

theorem Contents.updateInode (contents : Contents s r.toNat a) (synced : Synced s)
    {c : UInt32} {change : Inode → Inode}
    (direct : ∀ v, (change v).direct = v.direct) (indirect : ∀ v, (change v).indirect = v.indirect)
    (type : ∀ v, (change v).inodeType = v.inodeType) (size : ∀ v, (change v).size = v.size) :
    Ends (NextFs.updateInode c change) s (fun _ t => Contents t r.toNat a) fun _ _ => True := by
  classical
  have working := synced.owned.working contents.occupied
  rw [NextFs.updateInode, ends_bind, ends_observe, readInode_eq synced.layout]
  by_cases inside : s.layout.InTable c.toNat
  · rw [if_pos inside]
    dsimp only
    split
    · trivial
    · rw [ends_writeInode synced.layout inside]
      by_cases same : r.toNat = c.toNat
      · have record : (s.setInode c.toNat (change (s.inode c.toNat))).inode
          r.toNat = change (s.inode r.toNat) := by
          rw [Volume.inode_setInode, if_pos same, same]
        refine ⟨⟨contents.occupied.1, ?_⟩, ?_, ?_, ?_⟩
        · rw [record, type]
          exact contents.occupied.2
        · rw [record, Inode.isFile, type]
          exact contents.file
        · rw [record, size]
          exact contents.size
        · rw [record, byteAt_of_pointers (direct _) (indirect _), byteAt_setInode working.placed inside.2]
          exact contents.bytes
      · refine contents.undisturbed ⟨rfl, ?_, ?_⟩
        · rintro j rfl
          rw [Volume.inode_setInode, if_neg same]
        · rintro j p b rfl held
          exact Volume.data_setInode synced.layout (working.backed held).1.1 inside.2 _
  · rw [if_neg inside]
    trivial

theorem Contents.op (contents : Contents s r.toNat a) (synced : Synced s)
    {op : Op} {now : UInt32} (spares : op.Spares r)
    (done : op.run now s = .ok () t) (still : t.Occupied r.toNat) : Contents t r.toNat a := by
  have start := Intact.refl synced contents.occupied contents.file
  have different {i : UInt32} (other : i ≠ r) : i.toNat ≠ r.toNat := fun same =>
    other (UInt32.toNat_inj.mp same)
  have erased {u : Volume} {i : Nat} (intact : Intact r.toNat s u) (here : u.Occupied i)
    (last : t = u.erase i) :
      Contents t r.toNat a := by
    subst last
    refine contents.undisturbed (intact.erase here ?_).same
    rintro rfl
    rw [intact.synced.occupied_erase here] at still
    exact still.1 rfl
  cases op with
  | createFile dirInode name =>
    obtain ⟨c, done⟩ := ok_of_dropped done
    exact contents.undisturbed (Intact.adds.createFile start done).same
  | createDir parentInode name =>
    obtain ⟨c, done⟩ := ok_of_dropped done
    exact contents.undisturbed (Intact.adds.createDir start done).same
  | write inodeNum offset data =>
    obtain ⟨n, done⟩ := ok_of_dropped done
    have synced' := (synced.ends_writeAt now inodeNum offset.toNat data).of_ok done
    have occupied : s.layout.InTable inodeNum.toNat → (s.inode inodeNum.toNat).isFile = true ∨
        (s.inode inodeNum.toNat).isDir = true → s.Occupied inodeNum.toNat := fun inside writable =>
      writable.elim (Synced.fileOccupied inside) (Synced.dirOccupied inside)
    obtain ⟨inside, writable, _, u, w, written, rfl⟩ :=
      (NextFs.ends_writeAt synced.layout now inodeNum offset.toNat data
      fun inside writable => synced.owned.working (occupied inside writable)).of_ok done
    exact contents.undisturbed (start.apart (different spares)
      (apart_store synced.owned (occupied inside writable) written.grown _) synced').same
  | writeFile inodeNum data =>
    obtain ⟨here, _, u, w, written, last⟩ := synced.writeFile_ok done
    have emptied := start.apart (different spares) (synced.apart_emptied here) (synced.emptied here)
    have here' : (s.emptied inodeNum.toNat).Occupied inodeNum.toNat := by rwa [synced.occupied_emptied here]
    have stored := apart_store emptied.synced.owned here' written.grown
      (w.extended now (0 + data.length) data.length)
    rw [← last] at stored
    exact contents.undisturbed (emptied.apart (different spares) stored (synced.writeFile done)).same
  | unlink dirInode name =>
    obtain ⟨b, slot, c, intact, here, last⟩ := (Intact.adds.ends_unlink start now dirInode name).of_ok done
    exact erased intact here last
  | rmdir parentInode name =>
    obtain ⟨b, slot, c, intact, here, last⟩ := (Intact.adds.ends_rmdir start parentInode name).of_ok done
    exact erased intact here last
  | chmod inodeNum mode =>
    have kept : Ends (NextFs.chmod now inodeNum mode) s (fun _ t => Contents t r.toNat a) fun _ _ => True :=
      contents.updateInode synced (fun _ => rfl) (fun _ => rfl) (fun _ => rfl) fun _ => rfl
    exact kept.of_ok done
  | chown inodeNum uid gid =>
    have kept : Ends (NextFs.chown now inodeNum uid gid) s (fun _ t => Contents t r.toNat a) fun _ _ => True :=
      contents.updateInode synced (fun _ => rfl) (fun _ => rfl) (fun _ => rfl) fun _ => rfl
    exact kept.of_ok done

end Others

section Writes

variable {s t : Volume} {r now : UInt32} {a : Sparse} {offset n : Nat} {data : List UInt8}

theorem Contents.write (contents : Contents s r.toNat a) (synced : Synced s)
    (fits : offset + data.length ≤ (9 + 128) * 512)
    (done : writeAt now r offset data s = .ok n t) : Contents t r.toNat (a.write offset data) := by
  have inside := contents.occupied.1
  have working := synced.owned.working contents.occupied
  obtain ⟨_, u, w, stored, rfl⟩ :=
    (ends_storeAt synced.layout now offset data inside contents.file working).of_ok done
  have grown := stored.written.grown
  have record : (u.setInode r.toNat (w.extended now (offset + data.length) data.length)).inode r.toNat =
      w.extended now (offset + data.length) data.length := by rw [Volume.inode_setInode, if_pos rfl]
  have type : w.inodeType = (s.inode r.toNat).inodeType := by rw [grown.rest]
  have before : w.size.toNat = a.size := by rw [grown.rest, contents.size]
  refine ⟨⟨grown.layout ▸ inside, ?_⟩, ?_, ?_, ?_⟩
  · rw [record]
    exact type ▸ contents.occupied.2
  · rw [record, Inode.isFile]
    exact type ▸ contents.file
  · have stop : (offset + data.length) % 2 ^ 64 = offset + data.length := by omega
    have number : (UInt64.ofNat (offset + data.length)).toNat = offset + data.length := by
      rw [UInt64.toNat_ofNat', stop]
    rw [record]
    simp only [Inode.extended, stop, before, Sparse.write]
    split
    · rw [number]
      omega
    · rw [before]
      omega
  · have place : offset % 2 ^ 41 = offset := by omega
    rw [record, stored.byteAt working inside.2, contents.bytes, place]
    rfl

theorem Contents.read (contents : Contents s r.toNat a) (synced : Synced s)
    (small : a.size ≤ (9 + 128) * 512) (offset len : Nat) :
    s.readInodeData r offset len = .ok (a.read offset len) := by
  have working := synced.owned.working contents.occupied
  rw [Volume.readInodeData, readInode_ok synced.layout contents.occupied.1]
  simp only [bind, Except.bind, contents.file, contents.size, Bool.not_true, if_false, Bool.false_eq_true]
  split
  next past => rw [Sparse.read, show a.size - offset = 0 by omega, Nat.min_zero, List.range'_zero, List.map_nil]
  next inside =>
    rw [readChunks_total working.placed (by omega), Volume.bytesFrom, contents.bytes, Sparse.read]
    congr 1
    refine List.map_congr_left fun p member => ?_
    rw [List.mem_range'_1] at member
    rw [Nat.mod_eq_of_lt (by omega)]

/-- Every object but `r` reads as before. -/
structure SameOthers (s t : Volume) (r : UInt32) : Prop where
  record : ∀ j, j ≠ r → t.readInode j = s.readInode j
  bytes : ∀ j, j ≠ r → ∀ offset len, t.readInodeData j offset len = s.readInodeData j offset len
  list : ∀ j, j ≠ r → t.dirList j = s.dirList j
  lookup : ∀ j, j ≠ r → ∀ name, t.dirLookup j name = s.dirLookup j name

theorem Contents.write_others (contents : Contents s r.toNat a) (synced : Synced s)
    (done : writeAt now r offset data s = .ok n t) : SameOthers s t r := by
  classical
  have inside := contents.occupied.1
  have ok := synced.layout
  obtain ⟨_, u, w, stored, rfl⟩ := (ends_storeAt ok now offset data inside contents.file
    (synced.owned.working contents.occupied)).of_ok done
  have grown := stored.written.grown
  have same := (apart_store synced.owned contents.occupied grown
    (w.extended now (offset + data.length) data.length)).undisturbed
  have ok' := same.layout ▸ ok
  have different {j : UInt32} (other : j ≠ r) : j.toNat ≠ r.toNat := fun equal =>
    other (UInt32.toNat_inj.mp equal)
  have records (j : UInt32) (other : j ≠ r) (table : s.layout.InTable j.toNat) :
      (u.setInode r.toNat (w.extended now (offset + data.length) data.length)).inode
        j.toNat = s.inode j.toNat := by
    rw [Volume.inode_setInode, if_neg (different other), grown.inode ok table.2]
  have record (j : UInt32) (other : j ≠ r) :
      (u.setInode r.toNat (w.extended now (offset + data.length) data.length)).readInode j = s.readInode j := by
    rw [readInode_eq ok, readInode_eq ok', same.layout]
    split
    next table => rw [records j other table]
    next => rfl
  have agree (j : UInt32) (other : j ≠ r) (here : s.Occupied j.toNat) := same.agree ⟨here, different other⟩
  refine ⟨record, ?_, ?_, ?_⟩
  · intro j other offset len
    rw [Volume.readInodeData, Volume.readInodeData, record j other, readInode_eq ok]
    by_cases table : s.layout.InTable j.toNat
    · rw [if_pos table]
      cases file : (s.inode j.toNat).isFile with
      | false => simp [bind, Except.bind, file]
      | true =>
        have here := Synced.fileOccupied table file
        simp only [bind, Except.bind, (agree j other here).readChunks (synced.owned.working here)]
    · rw [if_neg table]
      rfl
  · intro j other
    rw [Volume.dirList, Volume.dirList, record j other, readInode_eq ok]
    by_cases table : s.layout.InTable j.toNat
    · rw [if_pos table]
      cases dir : (s.inode j.toNat).isDir with
      | false => simp [bind, Except.bind, dir]
      | true =>
        have here := Synced.dirOccupied table dir
        simp only [bind, Except.bind, (agree j other here).listEntries (synced.owned.working here)]
    · rw [if_neg table]
      rfl
  · intro j other name
    rw [dirLookup_eq ok, dirLookup_eq ok', same.layout]
    by_cases table : s.layout.InTable j.toNat
    · rw [if_pos table, if_pos table, records j other table]
      cases dir : (s.inode j.toNat).isDir with
      | false => rfl
      | true =>
        have here := Synced.dirOccupied table dir
        simp only [Volume.namedEntry, (agree j other here).scanEntries (synced.owned.working here)]
    · rw [if_neg table, if_neg table]

end Writes

theorem Contents.created {s t : Volume} {now dirInode r : UInt32} {name : Name} (synced : Synced s)
    (done : createFile now dirInode name s = .ok r t) : Synced t ∧ Contents t r.toNat Sparse.empty := by
  obtain ⟨i, next, rfl, added⟩ := (ends_createFile synced.layout now dirInode name fun i next =>
    (synced.stageFile next now).dirWorking dirInode).of_ok done
  have record : (s.stageFile now i).inode i = { Inode.newFile with mtime := now } := by
    rw [Volume.stageFile, Volume.inode_setInode, if_pos rfl]
  have file : ((s.stageFile now i).inode i).isFile = true := by
    rw [record]
    rfl
  have staged : Contents (s.stageFile now i) i Sparse.empty := by
    refine ⟨?_, file, ?_, ?_⟩
    · rw [occupied_stageFile synced.layout next now]
      exact Or.inl rfl
    · rw [record]
      rfl
    · funext p
      by_cases inside : p / 512 < 137
      · have empty : ((s.stageFile now i).inode i).holds (s.stageFile now i).device.data
          (.data ⟨p / 512, inside⟩) = none := by
          rw [record]
          exact Inode.holds_of_empty (fun _ => rfl) rfl _ _
        exact byteAt_hole (Inode.holds_data_none.mp empty)
      · exact byteAt_past (by omega)
  have intact := Intact.adds.dirAddEntry (Intact.refl (synced.stageFile next now) staged.occupied file) added
  rw [(Volume.nextInode_number synced.layout next).1]
  exact ⟨intact.synced, staged.undisturbed intact.same⟩

/-- The file `r` is written to, the last write first, while other operations go on and leave it in
place. -/
inductive Filling (r : UInt32) (start : Volume) : Volume → List (Nat × List UInt8) → Prop
  | start : Filling r start start []
  | write {s t : Volume} {ws : List (Nat × List UInt8)} {now : UInt32} {offset n : Nat} {data : List UInt8}
      (before : Filling r start s ws) (fits : offset + data.length ≤ (9 + 128) * 512)
      (done : writeAt now r offset data s = .ok n t) : Filling r start t ((offset, data) :: ws)
  | other {s t : Volume} {ws : List (Nat × List UInt8)} {now : UInt32} {op : Op} (before : Filling r start s ws)
      (spares : op.Spares r) (done : op.run now s = .ok () t) (still : t.Occupied r.toNat) :
        Filling r start t ws

theorem Filling.contents {r : UInt32} {start s : Volume} {ws : List (Nat × List UInt8)}
    (filling : Filling r start s ws)
    (synced : Synced start) (empty : Contents start r.toNat Sparse.empty) :
    Synced s ∧ Contents s r.toNat (Sparse.ofWrites ws) ∧ (Sparse.ofWrites ws).size ≤ (9 + 128) * 512 := by
  induction filling with
  | start => exact ⟨synced, empty, by decide⟩
  | @write s t ws now offset n data before fits done ih =>
    obtain ⟨synced, contents, small⟩ := ih
    refine ⟨(synced.ends_writeAt now r offset data).of_ok done, contents.write synced fits done, ?_⟩
    exact max_le small fits
  | @other s t ws now op before spares done still ih =>
    obtain ⟨synced, contents, small⟩ := ih
    exact ⟨synced.proceeds (.done op now done), contents.op synced spares done still, small⟩

def Succeeds (s t : Volume) : Prop := ∃ (op : Op) (now : UInt32), op.run now s = .ok () t

/-- A new file reads as a sparse byte array of the writes to it, and a write to it changes nothing
else. -/
theorem file_sparse {device formatted : Device} {fs : NextFS} {s start t : Volume}
    {now dirInode r : UInt32} {name : Name}
    {ws : List (Nat × List UInt8)} (done : format device = .ok () formatted)
    (mounted : formatted.mount = .ok fs)
    (run : Relation.ReflTransGen Succeeds { fs with device := formatted } s)
    (created : createFile now dirInode name s = .ok r start) (filling : Filling r start t ws) :
    (∀ offset len, t.readInodeData r offset len = .ok ((Sparse.ofWrites ws).read offset len)) ∧
      (Sparse.ofWrites ws).size = (ws.map fun w => w.1 + w.2.length).foldr max 0 ∧
      ∀ now offset data n u, writeAt now r offset data t = .ok n u → SameOthers t u r := by
  have synced : Synced s := by
    clear created
    induction run with
    | refl => exact (fresh_of_mount done mounted).synced
    | tail _ step ih =>
      obtain ⟨op, now, done⟩ := step
      exact ih.proceeds (.done op now done)
  obtain ⟨synced, empty⟩ := Contents.created synced created
  obtain ⟨synced, contents, small⟩ := filling.contents synced empty
  exact ⟨fun offset len => contents.read synced small offset len, Sparse.size_ofWrites ws,
    fun now offset data n u written => contents.write_others synced written⟩

theorem file_sparse_small :
    ∃ (device formatted : Device) (fs : NextFS) (r : UInt32) (start t : Volume),
      format device = .ok () formatted ∧
      formatted.mount = .ok fs ∧ Filling r start t [(5119, [1, 2])] ∧
      ∀ offset len, t.readInodeData r offset len =
        .ok ((Sparse.ofWrites [(5119, [1, 2])]).read offset len) := by
  obtain ⟨formatted, fs, done, mounted, made⟩ := freshVolume_some smallVolume_made
  have facts : (match createFile 0 1 [0x61] smallVolume with
    | .ok r start => succeeds (writeAt 0 r 5119 [1, 2]) start
    | .error _ _ => false) = true := by decide +kernel
  cases created : createFile 0 1 [0x61] smallVolume with
  | error fail t => simp [created] at facts
  | ok r start =>
    simp only [created] at facts
    obtain ⟨n, written⟩ := exists_ok_of_succeeds facts
    have filling : Filling r start _ [(5119, [1, 2])] := .write .start (by decide) written
    rw [made] at created
    exact ⟨_, formatted, fs, r, start, _, done, mounted, filling,
      (file_sparse done mounted .refl created filling).1⟩

end PickleOS.NextFs
