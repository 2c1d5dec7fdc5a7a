import PickleOS.NextFs.Entries

set_option autoImplicit false

namespace PickleOS.NextFs

open Shared Shared.Outcome

/-- All blocks of an inode, in the order in which `free_inode_blocks` frees them. -/
def Inode.blocks (v : Inode) (data : Nat → Block) : List Nat :=
  targets (v.pointer data) 0 9 ++ if v.indirect = 0 then [] else targets (v.pointer data)
    9 128 ++ [v.indirect.toNat]

namespace Volume

/-- A new file inode, not yet named by any directory. -/
def stageFile (s : Volume) (now : UInt32) (i : Nat) : Volume :=
  (s.takeInode i).setInode i { Inode.newFile with mtime := now }

def newDirInode (now : UInt32) (b : Nat) : Inode :=
  { Inode.newDir with mtime := now, direct := Function.update (fun _ => 0) 0 (UInt32.ofNat b), size := 128 }

/-- A new directory inode with its first block, not yet named by its parent. -/
def stageDir (s : Volume) (now : UInt32) (i b : Nat) (parent : UInt32) : Volume :=
  (((s.takeInode i).takeBlock b).setBlock b (dotBlock (UInt32.ofNat i) parent)).setInode i (newDirInode now b)

def blank (s : Volume) (b slot : Nat) : Volume :=
  s.setBlock b ((s.device.data b).setEntry slot (DirEntry.new 0 []))

def erase (s : Volume) (i : Nat) : Volume :=
  ((s.release ((s.inode i).blocks s.device.data)).setInode i
    { (s.inode i).clear 0 9 with indirect := 0, inodeType := 0, size := 0 }).dropInode i

end Volume

theorem unusedEntry_some {s : Volume} {v : Inode} (working : Working s v) {b slot : Nat} {buf : Block}
    (found : s.unusedEntry v = .ok (some (b, slot, buf))) :
    ∃ k : Fin 137, v.holds s.device.data (.data k) = some b ∧ slot < 8 ∧ buf = s.device.data b ∧
      ((s.device.data b).entry slot).isUsed = false := by
  obtain ⟨k, c, j, held, low, picked⟩ := scanEntries_some working found
  split at picked
  next => simp at picked
  next unused =>
    obtain ⟨rfl, rfl, rfl⟩ : c = b ∧ j = slot ∧ s.device.data c = buf := by simpa using picked
    exact ⟨k, held, low, rfl, by simpa using unused⟩

theorem namedEntry_some {s : Volume} {v : Inode} (working : Working s v)
    {name : Name} {b slot : Nat} {buf : Block}
    {r : UInt32} (found : s.namedEntry v name = .ok (some (b, slot, buf, r))) :
    ∃ k : Fin 137, v.holds s.device.data (.data k) = some b ∧ slot < 8 ∧ buf = s.device.data b ∧ r ≠ 0 ∧
      ((s.device.data b).entry slot).nameStr = name ∧ ((s.device.data b).entry slot).inode = r := by
  obtain ⟨k, c, j, held, low, picked⟩ := scanEntries_some working found
  split at picked
  next used =>
    obtain ⟨rfl, rfl, rfl, rfl⟩ : c = b ∧ j = slot ∧ s.device.data c = buf ∧
      ((s.device.data c).entry j).inode = r := by
      simpa using picked
    simp only [DirEntry.isUsed, DirEntry.nameMatches, Bool.and_eq_true, decide_eq_true_eq] at used
    exact ⟨k, held, low, rfl, used.1, used.2, rfl⟩
  next => simp at picked

section

variable {s : Volume} (ok : s.layout.Ok)

include ok

theorem ends_dirRemoveEntry (dirInode : UInt32) (name : Name) (working : s.DirWorking dirInode) :
    Ends (dirRemoveEntry dirInode name) s
      (fun r t => s.layout.InTable dirInode.toNat ∧ (s.inode dirInode.toNat).isDir = true ∧
        ∃ b slot, s.namedEntry (s.inode dirInode.toNat) name = .ok (some (b, slot, s.device.data b, r)) ∧
          t = s.blank b slot)
      (fun fail t => fail ≠ .panic ∧ t = s) := by
  classical
  rw [dirRemoveEntry, ends_bind, ends_observe, readInode_eq ok]
  by_cases inside : s.layout.InTable dirInode.toNat
  · rw [if_pos inside]
    dsimp only
    split
    next => exact ⟨by simp, rfl⟩
    next dir =>
      have isDir : (s.inode dirInode.toNat).isDir = true := by simpa using dir
      have works := working inside isDir
      rw [ends_bind, ends_observe, ← Volume.namedEntry]
      cases scan : s.namedEntry (s.inode dirInode.toNat) name with
      | error fail =>
        rw [scanEntries_error works scan]
        exact ⟨by simp, rfl⟩
      | ok found =>
        rcases found with _ | ⟨b, slot, buf, r⟩
        · exact ⟨by simp, rfl⟩
        · obtain ⟨k, held, _, rfl, _⟩ := namedEntry_some works scan
          dsimp only
          rw [ends_bind, ends_writeBlock (ok.inData_device (works.backed held).1), ends_pure]
          exact ⟨inside, isDir, b, slot, rfl, rfl⟩
  · rw [if_neg inside]
    exact ⟨by simp, rfl⟩

theorem ends_createFile (now dirInode : UInt32) (name : Name)
    (working : ∀ i, s.nextInode = some i → (s.stageFile now i).DirWorking dirInode) :
    Ends (createFile now dirInode name) s
      (fun r t => ∃ i, s.nextInode = some i ∧ r = UInt32.ofNat i ∧
        dirAddEntry now dirInode name (UInt32.ofNat i) (s.stageFile now i) = .ok () t)
      (fun fail t => fail ≠ .panic ∧
        (s.nextInode = none ∧ fail = .fs .noSpace ∧ t = s ∨
          ∃ i u, s.nextInode = some i ∧ t = u.dropInode i ∧
            dirAddEntry now dirInode name (UInt32.ofNat i) (s.stageFile now i) = .error fail u)) := by
  -- `create_file`: the inode is staged, then named; a refused entry only clears the inode's bit again.
  rw [createFile, ends_bind, ends_allocInode ok]
  cases next : s.nextInode with
  | none => exact ⟨by simp, Or.inl ⟨rfl, rfl, rfl⟩⟩
  | some i =>
    obtain ⟨positive, inside, _⟩ := Volume.nextInode_some ok next
    have number : (UInt32.ofNat i).toNat = i := UInt32.toNat_ofNat_of_lt' (inside.trans s.layout.inodeCount_lt)
    have table : (s.takeInode i).layout.InTable (UInt32.ofNat i).toNat := by
      rw [number, Volume.layout_takeInode]
      exact ⟨positive, inside⟩
    dsimp only
    rw [ends_bind, ends_writeInode (by simpa using ok) table, ends_bind, number, ← Volume.stageFile, catchError,
      ends_attempt]
    have staged : (s.stageFile now i).layout.Ok := by simpa [Volume.stageFile] using ok
    cases result : dirAddEntry now dirInode name (UInt32.ofNat i) (s.stageFile now i) with
    | ok value t =>
      simp only [Ends, result]
      exact ⟨i, rfl, rfl, result⟩
    | error fail u =>
      obtain ⟨calm, outcome⟩ := dirAddEntry_error staged (working i next) result
      have layout : u.layout = s.layout := by
        rcases outcome with ⟨_, rfl⟩ | ⟨_, _, w, grown, _⟩
        · simp [Volume.stageFile]
        · rw [grown.layout]
          simp [Volume.stageFile]
      cases fail with
      | panic => exact (calm rfl).elim
      | fs error =>
        simp only [Ends, result]
        have inside' : (UInt32.ofNat i).toNat < u.layout.inodeCount := by
          rw [number, layout]
          exact inside
        have free := ends_freeInode (layout ▸ ok) inside'
        change Ends (do freeInode (UInt32.ofNat i); throw (Fail.fs error)) u _ _
        rw [ends_bind, free, ends_throw, number]
        exact ⟨by simp, Or.inr ⟨i, u, rfl, rfl, result⟩⟩

theorem ends_createDir (now parentInode : UInt32) (name : Name)
    (working : ∀ i b, s.nextInode = some i → s.nextFree = some b →
      (s.stageDir now i b parentInode).DirWorking parentInode) :
    Ends (createDir now parentInode name) s
      (fun r t => ∃ i b, s.nextInode = some i ∧ s.nextFree = some b ∧ r = UInt32.ofNat i ∧
        dirAddEntry now parentInode name (UInt32.ofNat i) (s.stageDir now i b parentInode) = .ok () t)
      (fun fail t => fail ≠ .panic ∧
        (s.nextInode = none ∧ fail = .fs .noSpace ∧ t = s ∨
          (∃ i, s.nextInode = some i ∧ s.nextFree = none ∧ fail = .fs .noSpace ∧ t = s.takeInode i) ∨
          ∃ i b u, s.nextInode = some i ∧ s.nextFree = some b ∧ t = (u.dropBlock b).dropInode i ∧
            dirAddEntry now parentInode name (UInt32.ofNat i)
              (s.stageDir now i b parentInode) = .error fail u)) := by
  -- `create_dir`: a refused entry frees the block again and clears the inode's bit, but the inode record stays.
  rw [createDir, ends_bind, ends_allocInode ok]
  cases next : s.nextInode with
  | none => exact ⟨by simp, Or.inl ⟨rfl, rfl, rfl⟩⟩
  | some i =>
    obtain ⟨positive, inside, _⟩ := Volume.nextInode_some ok next
    have number : (UInt32.ofNat i).toNat = i := UInt32.toNat_ofNat_of_lt' (inside.trans s.layout.inodeCount_lt)
    have free : (s.takeInode i).nextFree = s.nextFree := by
      simp only [Volume.nextFree, Volume.layout_takeInode]
      rfl
    dsimp only
    rw [ends_bind, ends_allocBlock (by simpa using ok), free]
    cases found : s.nextFree with
    | none => exact ⟨by simp, Or.inr (Or.inl ⟨i, rfl, rfl, rfl, rfl⟩)⟩
    | some b =>
      dsimp only
      have data := (Volume.nextFree_some ok found).1
      have block : (UInt32.ofNat b).toNat = b := UInt32.toNat_ofNat_of_lt' (data.2.trans s.layout.total_lt)
      have device : (UInt32.ofNat b).toNat < ((s.takeInode i).takeBlock b).layout.blockCount := by
        rw [block, Volume.layout_takeBlock, Volume.layout_takeInode]
        exact ok.inData_device data
      have table : (((s.takeInode i).takeBlock b).setBlock (UInt32.ofNat b).toNat
          (dotBlock (UInt32.ofNat i) parentInode)).layout.InTable (UInt32.ofNat i).toNat := by
        rw [number, Volume.layout_setBlock, Volume.layout_takeBlock, Volume.layout_takeInode]
        exact ⟨positive, inside⟩
      rw [ends_bind, ends_writeBlock device, ends_bind, ends_writeInode (by simpa using ok) table,
        ends_bind, number,
        block, ← Volume.newDirInode, ← Volume.stageDir, catchError, ends_attempt]
      have staged : (s.stageDir now i b parentInode).layout.Ok := by simpa [Volume.stageDir] using ok
      cases result : dirAddEntry now parentInode name (UInt32.ofNat i) (s.stageDir now i b parentInode) with
      | ok value t =>
        simp only [Ends, result]
        exact ⟨i, b, rfl, rfl, rfl, result⟩
      | error fail u =>
        obtain ⟨calm, outcome⟩ := dirAddEntry_error staged (working i b next found) result
        have layout : u.layout = s.layout := by
          rcases outcome with ⟨_, rfl⟩ | ⟨_, _, w, grown, _⟩
          · simp [Volume.stageDir]
          · rw [grown.layout]
            simp [Volume.stageDir]
        cases fail with
        | panic => exact (calm rfl).elim
        | fs error =>
          simp only [Ends, result]
          have bound : (UInt32.ofNat b).toNat < u.layout.total := by
            rw [block, layout]
            exact data.2
          have inside' : (UInt32.ofNat i).toNat < (u.dropBlock (UInt32.ofNat b).toNat).layout.inodeCount := by
            rw [number, Volume.layout_dropBlock, layout]
            exact inside
          change Ends (do freeBlock (UInt32.ofNat b); freeInode (UInt32.ofNat i); throw (Fail.fs error)) u _ _
          rw [ends_bind, ends_freeBlock (layout ▸ ok) bound, ends_bind,
            ends_freeInode (by simpa using layout ▸ ok) inside', ends_throw, number, block]
          exact ⟨by simp, Or.inr (Or.inr ⟨i, b, u, rfl, rfl, rfl, result⟩)⟩

theorem ends_erase {i : UInt32} (inside : s.layout.InTable i.toNat) (working : Working s (s.inode i.toNat))
    (returns : Unit → Volume → Prop) (fails : Fail → Volume → Prop) :
    Ends (do
        let v ← freeInodeBlocks (s.inode i.toNat)
        writeInode i { v with inodeType := 0, size := 0 }
        freeInode i) s returns fails ↔ returns () (s.erase i.toNat) := by
  -- Freeing an inode once its last name is gone.
  have inside' : i.toNat < ((s.release ((s.inode i.toNat).blocks s.device.data)).setInode i.toNat
      { (s.inode i.toNat).clear 0 9 with indirect := 0, inodeType := 0, size := 0 }).layout.inodeCount := by
    simpa using inside.2
  rw [ends_bind, ends_freeInodeBlocks working.placed, ← Inode.blocks, ends_bind,
    ends_writeInode (by simpa using ok) (by simpa using inside), ends_freeInode (by simpa using ok) inside']
  rfl

theorem ends_unlink (now dirInode : UInt32) (name : Name) (working : s.DirWorking dirInode)
    (blanked : ∀ b slot r, s.layout.InTable dirInode.toNat → (s.inode dirInode.toNat).isDir = true →
      s.namedEntry (s.inode dirInode.toNat) name = .ok (some (b, slot, s.device.data b, r)) →
      (s.blank b slot).DirWorking dirInode ∧ (s.layout.InTable r.toNat →
        (s.blank b slot).inode r.toNat = s.inode r.toNat ∧
          ((s.inode r.toNat).isFile = true → Working (s.blank b slot) (s.inode r.toNat)))) :
    Ends (unlink now dirInode name) s
      (fun _ t => name ≠ dot ∧ name ≠ dotdot ∧ s.layout.InTable dirInode.toNat ∧
        (s.inode dirInode.toNat).isDir = true ∧
        ∃ b slot r, s.namedEntry (s.inode dirInode.toNat) name = .ok (some (b, slot, s.device.data b, r)) ∧
          s.layout.InTable r.toNat ∧ (s.inode r.toNat).isFile = true ∧ t = (s.blank b slot).erase r.toNat)
      (fun fail t => fail ≠ .panic ∧
        (t = s ∨ s.layout.InTable dirInode.toNat ∧ (s.inode dirInode.toNat).isDir = true ∧
          ∃ b slot r, s.namedEntry (s.inode dirInode.toNat) name = .ok (some (b, slot, s.device.data b, r)) ∧
            (¬s.layout.InTable r.toNat ∧ t = s.blank b slot ∨
              (s.inode r.toNat).isFile = false ∧ s.layout.InTable r.toNat ∧
                ((dirAddEntry now dirInode name r (s.blank b slot) = .ok () t) ∨
                  ∃ reason, dirAddEntry now dirInode name r (s.blank b slot) = .error reason t)))) := by
  classical
  rw [unlink]
  split
  next => exact ⟨by simp, Or.inl rfl⟩
  next plain =>
    rw [not_or] at plain
    rw [ends_bind]
    refine (ends_dirRemoveEntry ok dirInode name working).imp ?_ fun fail t outcome =>
      ⟨outcome.1, Or.inl outcome.2⟩
    rintro r t ⟨inside, isDir, b, slot, found, rfl⟩
    obtain ⟨dirWorking, targetWorking⟩ := blanked b slot r inside isDir found
    have ok' : (s.blank b slot).layout.Ok := ok
    rw [ends_bind, ends_observe, readInode_eq ok']
    by_cases table : s.layout.InTable r.toNat
    · obtain ⟨record, fileWorking⟩ := targetWorking table
      rw [if_pos (show (s.blank b slot).layout.InTable r.toNat from table), record]
      dsimp only
      cases file : (s.inode r.toNat).isFile with
      | true =>
        rw [Bool.not_true, if_neg (by simp), ← record, ends_erase ok' table (record ▸ fileWorking file)]
        exact ⟨plain.1, plain.2, inside, isDir, b, slot, r, found, table, file, rfl⟩
      | false =>
        rw [Bool.not_false, if_pos rfl, ends_bind, catchError, ends_attempt]
        cases result : dirAddEntry now dirInode name r (s.blank b slot) with
        | ok value t =>
          simp only [Ends, result]
          exact ⟨by simp, Or.inr ⟨inside, isDir, b, slot, r, found, Or.inr ⟨file, table, Or.inl result⟩⟩⟩
        | error fail t =>
          obtain ⟨calm, _⟩ := dirAddEntry_error ok' dirWorking result
          cases fail with
          | panic => exact (calm rfl).elim
          | fs error =>
            simp only [Ends, result]
            exact ⟨by simp, Or.inr ⟨inside, isDir, b, slot, r, found,
              Or.inr ⟨file, table, Or.inr ⟨_, result⟩⟩⟩⟩
    · rw [if_neg (show ¬(s.blank b slot).layout.InTable r.toNat from table)]
      exact ⟨by simp, Or.inr ⟨inside, isDir, b, slot, r, found, Or.inl ⟨table, rfl⟩⟩⟩

theorem ends_rmdir (parentInode : UInt32) (name : Name) (working : s.DirWorking parentInode)
    (targets : ∀ r, s.dirLookup parentInode name = .ok r → s.DirWorking r)
    (blanked : ∀ b slot r, s.layout.InTable parentInode.toNat → (s.inode parentInode.toNat).isDir = true →
      s.namedEntry (s.inode parentInode.toNat) name = .ok (some (b, slot, s.device.data b, r)) →
      s.layout.InTable r.toNat → (s.inode r.toNat).isDir = true →
      (s.blank b slot).inode r.toNat = s.inode r.toNat ∧ Working (s.blank b slot) (s.inode r.toNat)) :
    Ends (rmdir parentInode name) s
      (fun _ t => name ≠ dot ∧ name ≠ dotdot ∧ s.layout.InTable parentInode.toNat ∧
        (s.inode parentInode.toNat).isDir = true ∧
        ∃ b slot r entries,
          s.namedEntry (s.inode parentInode.toNat) name = .ok (some (b, slot, s.device.data b, r)) ∧
          s.layout.InTable r.toNat ∧ (s.inode r.toNat).isDir = true ∧
          s.listEntries (s.inode r.toNat) 0 (totalEntries (s.inode r.toNat)) = .ok entries ∧
          entries.length ≤ 2 ∧
          t = (s.blank b slot).erase r.toNat)
      (fun fail t => fail ≠ .panic ∧ t = s) := by
  classical
  rw [rmdir]
  split
  next => exact ⟨by simp, rfl⟩
  next plain =>
    rw [not_or] at plain
    rw [ends_bind, ends_observe]
    cases look : s.dirLookup parentInode name with
    | error fail => exact ⟨dirLookup_error ok working look, rfl⟩
    | ok r =>
      obtain ⟨inside, isDir, b, slot, buf, found⟩ := dirLookup_ok ok look
      obtain ⟨_, _, _, rfl, _⟩ := namedEntry_some (working inside isDir) found
      dsimp only
      rw [ends_bind, ends_observe, readInode_eq ok]
      by_cases table : s.layout.InTable r.toNat
      · rw [if_pos table]
        dsimp only
        cases dir : (s.inode r.toNat).isDir with
        | false => exact ⟨by simp, rfl⟩
        | true =>
          rw [Bool.not_true, if_neg (by simp), ends_bind, ends_observe]
          have list : s.dirList r = s.listEntries (s.inode r.toNat) 0 (totalEntries (s.inode r.toNat)) := by
            rw [Volume.dirList, readInode_ok ok table]
            simp [bind, Except.bind, dir]
          rw [list]
          cases entries : s.listEntries (s.inode r.toNat) 0 (totalEntries (s.inode r.toNat)) with
          | error fail =>
            rw [listEntries_error (targets r look table dir) entries]
            exact ⟨by simp, rfl⟩
          | ok listed =>
            dsimp only
            split
            next => exact ⟨by simp, rfl⟩
            next few =>
              rw [ends_bind]
              refine (ends_dirRemoveEntry ok parentInode name working).imp ?_ fun fail t outcome => outcome
              rintro r' t ⟨_, _, b', slot', found', rfl⟩
              rw [found] at found'
              obtain ⟨rfl, rfl, _, rfl⟩ : b = b' ∧ slot = slot' ∧ s.device.data b = s.device.data b' ∧
                r = r' := by
                simpa using found'
              obtain ⟨record, target⟩ := blanked b slot r inside isDir found table dir
              rw [← record, ends_erase (show (s.blank b slot).layout.Ok from ok) table (record ▸ target)]
              exact ⟨plain.1, plain.2, inside, isDir, b, slot, r, listed, found, table, record ▸ dir,
                record ▸ entries,
                by omega, rfl⟩
      · rw [if_neg table]
        exact ⟨by simp, rfl⟩

theorem ends_writeAt (now inodeNum : UInt32) (offset : Nat) (data : List UInt8)
    (working : s.layout.InTable inodeNum.toNat → (s.inode inodeNum.toNat).isFile = true ∨
      (s.inode inodeNum.toNat).isDir = true → Working s (s.inode inodeNum.toNat)) :
    Ends (writeAt now inodeNum offset data) s
      (fun r t => s.layout.InTable inodeNum.toNat ∧
        ((s.inode inodeNum.toNat).isFile = true ∨ (s.inode inodeNum.toNat).isDir = true) ∧ r = data.length ∧
        ∃ u w, Written offset data.length s (s.inode inodeNum.toNat) u w ∧
          t = u.setInode inodeNum.toNat (w.extended now (offset + data.length) data.length))
      (fun fail t => fail ≠ .panic ∧ (¬(s.layout.InTable inodeNum.toNat ∧
          ((s.inode inodeNum.toNat).isFile = true ∨ (s.inode inodeNum.toNat).isDir = true)) ∧ t = s ∨
        s.layout.InTable inodeNum.toNat ∧
        ((s.inode inodeNum.toNat).isFile = true ∨ (s.inode inodeNum.toNat).isDir = true) ∧
        Stuck (Touches offset data.length) s (s.inode inodeNum.toNat) fail t)) := by
  classical
  rw [writeAt, ends_bind, ends_observe, readInode_eq ok]
  by_cases inside : s.layout.InTable inodeNum.toNat
  · rw [if_pos inside]
    dsimp only
    rw [ends_bind]
    by_cases writable : (s.inode inodeNum.toNat).isFile = true ∨ (s.inode inodeNum.toNat).isDir = true
    · refine (ends_writeInodeData (working inside writable) now offset data).imp ?_ ?_
      · rintro pair u ⟨w, written, rfl⟩
        have layout := written.grown.layout
        dsimp only
        rw [ends_bind, ends_writeInode (layout ▸ ok) (layout ▸ inside), ends_pure]
        exact ⟨inside, writable, rfl, u, w, written, rfl⟩
      · rintro fail t (⟨_, _, notFile, notDir⟩ | stuck)
        · simp [notFile, notDir] at writable
        · refine ⟨?_, Or.inr ⟨inside, writable, stuck⟩⟩
          rw [stuck.1]
          simp
    · have refused : ¬(s.layout.InTable inodeNum.toNat ∧
          ((s.inode inodeNum.toNat).isFile = true ∨ (s.inode inodeNum.toNat).isDir = true)) := fun both =>
            writable both.2
      rw [not_or, Bool.not_eq_true, Bool.not_eq_true] at writable
      rw [writeInodeData, writable.1, writable.2]
      rw [writable.1, writable.2] at refused
      exact ⟨by simp, Or.inl ⟨refused, rfl⟩⟩
  · rw [if_neg inside]
    exact ⟨by simp, Or.inl ⟨fun both => inside both.1, rfl⟩⟩

theorem working_cut {v : Inode} (working : Working s v)
    {newSize : Nat} (clean : ¬v.LeavesEntries s.device.data newSize) :
    Working (s.release (v.freedBy s.device.data newSize)) (v.cut newSize) := by
  -- The in-memory inode that `write_file` starts from, on the volume with the old blocks freed.
  have total : ∀ b ∈ v.freedBy s.device.data newSize, b < s.layout.total := by
    intro b freed
    obtain ⟨p, held⟩ := Inode.freedBy_own freed
    exact (working.backed held).1.2
  refine ⟨by simpa using ok, ?_, ?_⟩
  · intro p b held
    rw [Volume.device_release] at held
    have before := working.backed (Inode.holds_of_cut held)
    rw [Volume.layout_release, Volume.used_release ok total]
    exact ⟨before.1, before.2, Inode.cut_gone (fun p q b => working.exclusive) clean held⟩
  · intro p q b first second
    rw [Volume.device_release] at first second
    exact working.exclusive (Inode.holds_of_cut first) (Inode.holds_of_cut second)

omit ok in
theorem clean_zero (v : Inode) (data : Nat → Block) : ¬v.LeavesEntries data 0 := by
  rintro ⟨_, long, _⟩
  simp [lastBlock] at long

theorem ends_writeFile (now inodeNum : UInt32) (data : List UInt8)
    (working : s.layout.InTable inodeNum.toNat → (s.inode inodeNum.toNat).isFile = true →
      Working s (s.inode inodeNum.toNat)) :
    Ends (writeFile now inodeNum data) s
      (fun _ t => s.layout.InTable inodeNum.toNat ∧ (s.inode inodeNum.toNat).isFile = true ∧
        ∃ u w, Written 0 data.length (s.release ((s.inode inodeNum.toNat).freedBy s.device.data 0))
            ((s.inode inodeNum.toNat).cut 0) u w ∧
          t = u.setInode inodeNum.toNat (w.extended now (0 + data.length) data.length))
      (fun fail t => fail ≠ .panic ∧
        (¬(s.layout.InTable inodeNum.toNat ∧ (s.inode inodeNum.toNat).isFile = true) ∧ t = s ∨
        s.layout.InTable inodeNum.toNat ∧ (s.inode inodeNum.toNat).isFile = true ∧
        Stuck (Touches 0 data.length) (s.release ((s.inode inodeNum.toNat).freedBy s.device.data 0))
          ((s.inode inodeNum.toNat).cut 0) fail t)) := by
  classical
  rw [writeFile, ends_bind, ends_observe, readInode_eq ok]
  by_cases inside : s.layout.InTable inodeNum.toNat
  · rw [if_pos inside]
    dsimp only
    cases file : (s.inode inodeNum.toNat).isFile with
    | false => exact ⟨by simp, Or.inl ⟨by simp, rfl⟩⟩
    | true =>
      have works := working inside file
      have works' := working_cut ok works (clean_zero (s.inode inodeNum.toNat) s.device.data)
      rw [Bool.not_true, if_neg (by simp), ends_bind]
      refine (ends_truncateInode works.placed 0).imp ?_ ?_
      · rintro v u ⟨rfl, rfl⟩
        rw [ends_bind]
        refine (ends_writeInodeData works' now 0 data).imp ?_ ?_
        · rintro pair u ⟨w, written, rfl⟩
          have layout := written.grown.layout
          rw [Volume.layout_release] at layout
          dsimp only
          rw [ends_writeInode (layout ▸ ok) (layout ▸ inside)]
          exact ⟨inside, rfl, u, w, written, rfl⟩
        · rintro fail t (⟨_, _, notFile, _⟩ | stuck)
          · rw [Inode.isFile, Inode.inodeType_cut, ← Inode.isFile, file] at notFile
            simp at notFile
          · refine ⟨?_, Or.inr ⟨inside, rfl, stuck⟩⟩
            rw [stuck.1]
            simp
      · rintro fail t ⟨_, long⟩
        simp [lastBlock] at long
  · rw [if_neg inside]
    exact ⟨by simp, Or.inl ⟨fun both => inside both.1, rfl⟩⟩

end

end PickleOS.NextFs
