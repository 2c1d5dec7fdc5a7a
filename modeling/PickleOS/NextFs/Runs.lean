import PickleOS.NextFs.Accounting
import Mathlib.Logic.Relation

set_option autoImplicit false

namespace PickleOS.NextFs

open Shared Shared.Outcome

namespace Fresh

variable {s : Volume}

theorem holds_root (fresh : Fresh s) (data : Nat → Block) :
    (s.inode 1).holds data = Function.update (fun _ => none) (.data 0) (some s.layout.dataStart) := by
  have nonzero : s.sb.dataStart ≠ 0 := by
    intro zero
    have positive := fresh.layout.data_pos
    simp [Layout.dataStart, Volume.layout, zero] at positive
  have value : target s.sb.dataStart = some s.layout.dataStart := target_eq_some.mpr ⟨nonzero, rfl⟩
  have bare : Inode.newDir.holds data = fun _ => none := by
    funext p
    exact Inode.holds_of_empty (fun _ => rfl) rfl data p
  have first := Inode.newDir.holds_direct data (show 0 < 9 by decide) s.sb.dataStart value
  rw [bare] at first
  rw [fresh.root, ← show (⟨0, by decide⟩ : Fin 137) = 0 from rfl, ← first]
  exact Inode.holds_of_pointers rfl rfl data

theorem occupied_iff (fresh : Fresh s) {i : Nat} : s.Occupied i ↔ i = 1 := by
  have root := fresh.layout.root
  constructor
  · rintro ⟨inside, busy⟩
    by_contra other
    rw [fresh.others i inside.2 other] at busy
    exact busy rfl
  · rintro rfl
    refine ⟨⟨by omega, by omega⟩, ?_⟩
    rw [fresh.root]
    simp [rootRecord, Inode.newDir]

theorem inData_start (fresh : Fresh s) : s.layout.InData s.layout.dataStart := ⟨le_rfl, fresh.layout.room⟩

theorem consistent (fresh : Fresh s) : s.Consistent := by
  have only : ∀ {i p b}, s.Occupied i → (s.inode i).holds s.device.data p = some b →
      i = 1 ∧ p = .data 0 ∧ b = s.layout.dataStart := by
    intro i p b busy held
    obtain rfl := fresh.occupied_iff.mp busy
    rw [fresh.holds_root] at held
    by_cases first : p = .data 0
    · rw [first, Function.update_self] at held
      exact ⟨rfl, first, (Option.some.inj held).symm⟩
    · rw [Function.update_of_ne first] at held
      simp at held
  refine ⟨fresh.layout, ?_, ?_⟩
  · intro i p b busy held
    obtain ⟨_, _, rfl⟩ := only busy held
    exact ⟨fresh.inData_start, (fresh.used _ fresh.inData_start).mpr rfl⟩
  · intro i j p q b busyI busyJ heldI heldJ
    obtain ⟨rfl, rfl, _⟩ := only busyI heldI
    obtain ⟨rfl, rfl, _⟩ := only busyJ heldJ
    exact ⟨rfl, rfl⟩

theorem synced (fresh : Fresh s) : Synced s := by
  have root := fresh.layout.root
  refine ⟨fresh.consistent, fun i => (fresh.marked i).trans fresh.occupied_iff.symm, ?_, fresh.small⟩
  rw [fresh.others 0 (by omega) (by omega)]
  rfl

theorem counted (fresh : Fresh s) : s.Counted := by
  have room := fresh.layout.room
  obtain ⟨n, size⟩ : ∃ n, s.layout.total - s.layout.dataStart = n + 1 :=
    ⟨s.layout.total - s.layout.dataStart - 1, by omega⟩
  have bit : ∀ b, s.layout.InData b → Bitmap.test s.blockBitmap b = decide (b ≠ s.layout.dataStart) := by
    intro b data
    have used := fresh.used b data
    simp only [Volume.used, Bool.not_eq_true'] at used
    by_cases start : b = s.layout.dataStart
    · rw [used.mpr start, decide_eq_false (not_not_intro start)]
    · simpa [start] using used
  have rest : (List.range' (s.layout.dataStart + 1) n).countP
    (fun k => Bitmap.test s.blockBitmap k == true) = n := by
    have all : ∀ k ∈ List.range' (s.layout.dataStart + 1) n, (Bitmap.test s.blockBitmap k == true) = true := by
      intro k member
      rw [List.mem_range'_1] at member
      rw [bit k ⟨by omega, by omega⟩]
      simp
      omega
    rw [List.countP_eq_length.mpr all, List.length_range']
  rw [Volume.Counted, fresh.freeBlocks, size, Bitmap.count, List.range'_succ, List.countP_cons, rest,
    bit _ fresh.inData_start]
  simp

theorem census (fresh : Fresh s) : s.Census := by
  have root := fresh.layout.root
  have length : s.inodeBitmap.length = (s.layout.inodeCount + 7) / 8 := fresh.layout.inodeBitmapLength
  have one : s.inodesInUse = 1 := by
    have same : (fun k => Bitmap.test s.inodeBitmap k == true) = fun k => k == 1 := by
      funext k
      have marked := fresh.marked k
      rw [Volume.marked] at marked
      by_cases first : k = 1 <;> simp_all
    rw [Volume.inodesInUse, Bitmap.count, same]
    exact List.count_eq_one_of_mem List.nodup_range' (List.mem_range'_1.mpr ⟨by omega, by omega⟩)
  rw [Volume.Census, fresh.freeInodes, one]
  omega

theorem exact (fresh : Fresh s) : Exact s where
  synced := fresh.synced
  covered b inUse := by
    refine ⟨1, .data 0, fresh.occupied_iff.mpr rfl, ?_⟩
    dsimp only
    rw [fresh.holds_root, Function.update_self, (fresh.used b inUse.1).mp inUse.2]
  counted := fresh.counted
  census := fresh.census
  shaped i busy file := by
    rw [fresh.occupied_iff.mp busy, fresh.root] at file
    simp [rootRecord, Inode.newDir, Inode.isFile] at file

end Fresh

/-- The operations of a mounted instance that change it, with their arguments. -/
inductive Op where
  | createFile (dirInode : UInt32) (name : Name)
  | createDir (parentInode : UInt32) (name : Name)
  | write (inodeNum : UInt32) (offset : UInt64) (data : List UInt8)
  | writeFile (inodeNum : UInt32) (data : List UInt8)
  | unlink (dirInode : UInt32) (name : Name)
  | rmdir (parentInode : UInt32) (name : Name)
  | chmod (inodeNum : UInt32) (mode : UInt16)
  | chown (inodeNum : UInt32) (uid gid : UInt16)

def Op.run (now : UInt32) : Op → FsM Unit
  | createFile dirInode name => do let _ ← NextFs.createFile now dirInode name
  | createDir parentInode name => do let _ ← NextFs.createDir now parentInode name
  | write inodeNum offset data => do let _ ← writeAt now inodeNum offset.toNat data
  | writeFile inodeNum data => NextFs.writeFile now inodeNum data
  | unlink dirInode name => NextFs.unlink now dirInode name
  | rmdir parentInode name => NextFs.rmdir parentInode name
  | chmod inodeNum mode => NextFs.chmod now inodeNum mode
  | chown inodeNum uid gid => NextFs.chown now inodeNum uid gid

theorem ok_of_dropped {α : Type} {m : FsM α} {s t : Volume} (done : (do let _ ← m) s = .ok () t) :
    ∃ value, m s = .ok value t := by
  -- The result of an operation whose value is dropped.
  simp only [bind, EStateM.bind] at done
  split at done
  next value u result =>
    cases done
    exact ⟨value, result⟩
  next => simp at done

theorem error_of_dropped {α : Type} {m : FsM α} {s t : Volume} {fail : Fail}
    (failed : (do let _ ← m) s = .error fail t) : m s = .error fail t := by
  simp only [bind, EStateM.bind] at failed
  split at failed
  next => cases failed
  next reason u result =>
    cases failed
    exact result

/-- Operations that create, fill and remove files and directories; a write is to a file and stays within
the range of its block pointers. -/
def Op.Plain (s : Volume) : Op → Prop
  | write inodeNum offset data =>
    (s.inode inodeNum.toNat).isFile = true ∧ offset.toNat + data.length ≤ (9 + 128) * 512
  | chmod .. | chown .. => False
  | _ => True

instance (s : Volume) : (op : Op) → Decidable (op.Plain s)
  | .write .. => inferInstanceAs (Decidable (_ ∧ _))
  | .chmod .. | .chown .. => .isFalse id
  | .createFile .. | .createDir .. | .writeFile .. | .unlink .. | .rmdir .. => .isTrue trivial

def Advances (s t : Volume) : Prop := ∃ (op : Op) (now : UInt32), op.Plain s ∧ op.run now s = .ok () t

theorem Exact.advances {s t : Volume} (exact : Exact s) (step : Advances s t) :
    Exact t ∧ t.layout = s.layout := by
  obtain ⟨op, now, plain, done⟩ := step
  have kept := Exact.kept.within s.layout
  cases op with
  | createFile dirInode name =>
    obtain ⟨r, done⟩ := ok_of_dropped done
    exact kept.adds.createFile ⟨exact, rfl⟩ done
  | createDir parentInode name =>
    obtain ⟨r, done⟩ := ok_of_dropped done
    exact kept.adds.createDir ⟨exact, rfl⟩ done
  | write inodeNum offset data =>
    obtain ⟨n, done⟩ := ok_of_dropped done
    exact ⟨exact.writeAt plain.1 plain.2 done, layout_writeAt exact.synced plain.1 done⟩
  | writeFile inodeNum data => exact ⟨exact.writeFile done, layout_writeFile exact.synced done⟩
  | unlink dirInode name => exact (kept.ends_unlink ⟨exact, rfl⟩ now dirInode name).of_ok done
  | rmdir parentInode name => exact (kept.ends_rmdir ⟨exact, rfl⟩ parentInode name).of_ok done
  | chmod => exact plain.elim
  | chown => exact plain.elim

theorem Exact.run {s t : Volume} (exact : Exact s) (run : Relation.ReflTransGen Advances s t) :
    Exact t ∧ t.layout = s.layout := by
  induction run with
  | refl => exact ⟨exact, rfl⟩
  | tail _ step ih =>
    obtain ⟨next, layout⟩ := ih.1.advances step
    exact ⟨next, layout.trans ih.2⟩

/-- A device of `n` blank sectors. -/
def Device.blank (n : Nat) : Device where
  blockCount := n
  blockSize := 512
  data _ := Block.zero

/-- The volume that `format` and `mount` make of a blank device. -/
def freshVolume (n : Nat) : Option Volume :=
  match format (Device.blank n) with
  | .ok () device =>
    match device.mount with
    | .ok fs => some { fs with device := device }
    | .error _ => none
  | .error _ _ => none

theorem freshVolume_some {n : Nat} {s : Volume} (made : freshVolume n = some s) :
    ∃ formatted fs, format (Device.blank n) = .ok () formatted ∧ formatted.mount = .ok fs ∧
      s = { fs with device := formatted } := by
  unfold freshVolume at made
  split at made
  next formatted done =>
    split at made
    next fs mounted => exact ⟨formatted, fs, done, mounted, (Option.some.inj made).symm⟩
    next => simp at made
  next => simp at made

/-- Run operations one after the other, as long as they are plain and succeed. -/
def replay : Volume → List Op → Option Volume
  | s, [] => some s
  | s, op :: rest =>
    if op.Plain s then
      match op.run 0 s with
      | .ok () t => replay t rest
      | .error _ _ => none
    else none

theorem run_of_replay {s t : Volume} {ops : List Op} (played : replay s ops = some t) :
    Relation.ReflTransGen Advances s t := by
  induction ops generalizing s with
  | nil =>
    cases played
    exact .refl
  | cons op rest ih =>
    rw [replay] at played
    split at played
    next plain =>
      split at played
      next u done => exact .head ⟨op, 0, plain, done⟩ (ih played)
      next => simp at played
    next => simp at played

theorem exact_of_replay {n : Nat} {s t : Volume} {ops : List Op} (made : freshVolume n = some s)
    (played : replay s ops = some t) : Exact t := by
  obtain ⟨formatted, fs, done, mounted, rfl⟩ := freshVolume_some made
  exact ((fresh_of_mount done mounted).exact.run (run_of_replay played)).1

/-- In every run of successful operations on a fresh volume, a data block is marked used if and only
if one inode in use refers to it, in one place, and the counters agree with the bitmaps. -/
theorem blocks_accounted {device formatted : Device} {fs : NextFS} {s : Volume}
    (done : format device = .ok () formatted) (mounted : formatted.mount = .ok fs)
    (run : Relation.ReflTransGen Advances { fs with device := formatted } s) :
    (∀ i, s.marked i = true ↔ s.Occupied i) ∧
    (∀ b, s.layout.InData b → (s.used b = true ↔
      ∃! r : Nat × Place, s.marked r.1 = true ∧ (s.inode r.1).holds s.device.data r.2 = some b)) ∧
    s.sb.freeBlocks.toNat =
      Bitmap.count s.blockBitmap true s.layout.dataStart (s.layout.total - s.layout.dataStart) ∧
    s.sb.freeInodes.toNat + s.inodesInUse =
      fs.sb.freeInodes.toNat + Volume.inodesInUse { fs with device := formatted } := by
  have fresh := fresh_of_mount done mounted
  obtain ⟨exact, layout⟩ := fresh.exact.run run
  refine ⟨exact.synced.marked, ?_, exact.counted, ?_⟩
  · intro b data
    constructor
    · intro used
      obtain ⟨i, p, busy, held⟩ := exact.covered b ⟨data, used⟩
      refine ⟨(i, p), ⟨(exact.synced.marked i).mpr busy, held⟩, ?_⟩
      rintro ⟨j, q⟩ ⟨marked, held'⟩
      obtain ⟨rfl, rfl⟩ := exact.owned.sound.exclusive ((exact.synced.marked j).mp marked) busy held' held
      rfl
    · rintro ⟨⟨i, p⟩, ⟨marked, held⟩, _⟩
      exact (exact.owned.sound.backed ((exact.synced.marked i).mp marked) held).2
  · rw [exact.census, fresh.census, layout]

/-- The volume of 40 blocks with these bitmaps and these blocks, elsewhere as a run left it. -/
def drawnVolume (played : Option Volume) (sb : Superblock) (blockBitmap inodeBitmap : List UInt8)
    (blocks : List (Nat × Block)) : Volume where
  sb := { sb with reserved := played.elim (fun _ => 0) (·.sb.reserved) }
  blockBitmap := blockBitmap
  inodeBitmap := inodeBitmap
  device :=
    { blockCount := 40
      blockSize := 512
      data := fun lba =>
        match blocks.find? fun drawn => drawn.1 == lba with
        | some (_, block) => block
        | none => played.elim Block.zero (·.device.data lba) }

theorem Volume.eq_of_parts {v w : Volume} (record :
    (Superblock.fields v.sb).take 9 = (Superblock.fields w.sb).take 9)
    (reserved : v.sb.reserved = w.sb.reserved) (blockBitmap : v.blockBitmap = w.blockBitmap)
    (inodeBitmap : v.inodeBitmap = w.inodeBitmap)
    (blockCount : v.device.blockCount = w.device.blockCount)
    (blockSize : v.device.blockSize = w.device.blockSize)
    (data : ∀ lba, v.device.data lba = w.device.data lba) : v = w := by
  obtain ⟨⟨sb, _, _⟩, _, _, _⟩ := v
  obtain ⟨⟨sb', _, _⟩, _, _, _⟩ := w
  cases sb
  cases sb'
  simp only [Superblock.fields, List.cons_append, List.take_succ_cons, List.take_zero, List.cons.injEq,
    Prod.mk.injEq, true_and,
    and_true, UInt32.toNat_inj] at record
  obtain ⟨rfl, rfl, rfl, rfl, rfl, rfl, rfl, rfl, rfl⟩ := record
  cases reserved
  cases blockBitmap
  cases inodeBitmap
  cases blockCount
  cases blockSize
  cases funext data
  rfl

theorem eq_drawnVolume {played : Option Volume} {sb : Superblock} {blockBitmap inodeBitmap : List UInt8}
    {blocks : List (Nat × Block)}
    (same : (played.map fun v => ((Superblock.fields v.sb).take 9, v.blockBitmap, v.inodeBitmap,
    v.device.blockCount,
        v.device.blockSize)) = some ((Superblock.fields sb).take 9, blockBitmap, inodeBitmap, 40, 512) ∧
      ∀ drawn ∈ blocks, (played.map fun v => v.device.data drawn.1) = some drawn.2) :
    played = some (drawnVolume played sb blockBitmap inodeBitmap blocks) := by
  obtain ⟨v, rfl, parts⟩ := Option.map_eq_some_iff.mp same.1
  simp only [Prod.mk.injEq] at parts
  obtain ⟨record, bitmap, inodes, count, size⟩ := parts
  refine congrArg some (Volume.eq_of_parts ?_ ?_ bitmap inodes count size fun lba => ?_)
  · simpa only [drawnVolume, Superblock.fields, List.cons_append, List.take_succ_cons, List.take_zero]
      using record
  · simp [drawnVolume]
  · simp only [drawnVolume]
    split
    next drawn block found =>
      have block' := same.2 _ (List.mem_of_find?_eq_some found)
      have here := List.find?_some found
      simp only [beq_iff_eq] at here
      simpa [here] using block'
    next => rfl

def superblockOf (freeBlocks freeInodes : UInt32) : Superblock where
  magic := magicNumber
  blockSize := 512
  totalBlocks := 40
  inodeCount := 64
  freeBlocks := freeBlocks
  freeInodes := freeInodes
  bitmapStart := 1
  inodeTableStart := 2
  dataStart := 10
  reserved _ := 0

/-- A block that begins with this data. -/
def paddedBlock (data : List UInt8) : Block := ⟨(data ++ List.replicate blockSize 0).take blockSize, by simp⟩

/-- These pieces of data behind each other, 64 bytes apart. -/
def records (pieces : List (List UInt8)) : List UInt8 :=
  pieces.flatMap fun data => data ++ List.replicate (64 - data.length) 0

/-- A blank device of 40 sectors after `format` and `mount`. -/
def smallVolume : Volume :=
  drawnVolume (freshVolume 40) (superblockOf 29 63) [255, 251, 255, 255, 255] [2, 0, 0, 0, 0, 0, 0, 0]
    [(2, paddedBlock (records [[], Inode.toBytes
      { Inode.newDir with size := 128, direct := fun k => if k = 0 then 10 else 0 }])),
      (10, paddedBlock (records [(DirEntry.new 1 dot).toBytes, (DirEntry.new 1 dotdot).toBytes]))]

theorem smallVolume_made : freshVolume 40 = some smallVolume := eq_drawnVolume (by decide +kernel)

def usedOps : List Op := [.createFile 1 [0x61], .write 2 5119 [1, 2], .createDir 1 [0x62]]

/-- The volume after a file `a` with two blocks beyond the direct range and a directory `b` were
made: the inodes of the root directory, of the file and of the directory, what the directories
contain, and the bytes of `a` at the end of one block and the start of the next. -/
def usedVolume : Volume :=
  drawnVolume (replay smallVolume usedOps) (superblockOf 25 61) [255, 131, 255, 255, 255]
    [14, 0, 0, 0, 0, 0, 0, 0]
    [(2, paddedBlock (records [[], Inode.toBytes
      { Inode.newDir with size := 256, direct := fun k => if k = 0 then 10 else 0 },
        Inode.toBytes { Inode.newFile with size := 5121, indirect := 11 },
        Inode.toBytes { Inode.newDir with size := 128, direct := fun k => if k = 0 then 14 else 0 }])),
      (10, paddedBlock (records [(DirEntry.new 1 dot).toBytes, (DirEntry.new 1 dotdot).toBytes,
      (DirEntry.new 2 [0x61]).toBytes,
        (DirEntry.new 3 [0x62]).toBytes])),
      (11, paddedBlock [12, 0, 0, 0, 13]), (12, Block.zero.splice 511 [1]), (13, paddedBlock [2]),
      (14, paddedBlock (records [(DirEntry.new 3 dot).toBytes, (DirEntry.new 1 dotdot).toBytes]))]

theorem usedVolume_played : replay smallVolume usedOps = some usedVolume := eq_drawnVolume (by decide +kernel)

def noteOps : List Op := [.createFile 1 [0x61], .write 2 0 [1, 2]]

/-- The volume after root has written two bytes to a file `a`. -/
def noteVolume : Volume :=
  drawnVolume (replay smallVolume noteOps) (superblockOf 28 62) [255, 243, 255, 255, 255]
    [6, 0, 0, 0, 0, 0, 0, 0]
    [(2, paddedBlock (records [[], Inode.toBytes
      { Inode.newDir with size := 256, direct := fun k => if k = 0 then 10 else 0 },
        Inode.toBytes { Inode.newFile with size := 2, direct := fun k => if k = 0 then 11 else 0 }])),
      (10, paddedBlock (records [(DirEntry.new 1 dot).toBytes, (DirEntry.new 1 dotdot).toBytes,
      (DirEntry.new 2 [0x61]).toBytes])),
      (11, paddedBlock [1, 2])]

theorem noteVolume_played : replay smallVolume noteOps = some noteVolume := eq_drawnVolume (by decide +kernel)

attribute [irreducible] smallVolume usedVolume noteVolume

theorem usedVolume_exact : Exact usedVolume := exact_of_replay smallVolume_made usedVolume_played

theorem noteVolume_exact : Exact noteVolume := exact_of_replay smallVolume_made noteVolume_played

theorem usedVolume_inodes :
    usedVolume.layout.InTable 2 ∧ (usedVolume.inode 2).isFile = true ∧ (usedVolume.inode 2).size = 5121 ∧
      (usedVolume.inode 2).direct 0 = 0 ∧ (usedVolume.inode 2).pointer usedVolume.device.data 10 ≠ 0 ∧
      usedVolume.marked 3 = true := by
  have facts : 2 < usedVolume.layout.inodeCount ∧ (usedVolume.inode 2).isFile = true ∧
    (usedVolume.inode 2).size = 5121 ∧
      (usedVolume.inode 2).direct 0 = 0 ∧ (usedVolume.inode 2).pointer usedVolume.device.data 10 ≠ 0 ∧
      usedVolume.marked 3 = true := by
    decide +kernel
  exact ⟨⟨by decide, facts.1⟩, facts.2⟩

theorem blocks_accounted_small :
    ∃ (device formatted : Device) (fs : NextFS) (s : Volume), format device = .ok () formatted ∧
      formatted.mount = .ok fs ∧ Relation.ReflTransGen Advances { fs with device := formatted } s ∧
      s.marked 3 = true ∧ ∀ i, s.marked i = true ↔ s.Occupied i := by
  obtain ⟨formatted, fs, done, mounted, made⟩ := freshVolume_some smallVolume_made
  have run := run_of_replay usedVolume_played
  rw [made] at run
  obtain ⟨_, _, _, _, _, used⟩ := usedVolume_inodes
  exact ⟨_, formatted, fs, _, done, mounted, run, used, (blocks_accounted done mounted run).1⟩

end PickleOS.NextFs
