import PickleOS.NextFs.Mount

set_option autoImplicit false

namespace PickleOS.NextFs

open Shared Shared.Outcome

/-- What no operation on a mounted volume changes: the superblock without its two counters, and the
sizes of the bitmaps and of the device. -/
structure Layout where
  sb : Superblock
  bitmapLength : Nat
  inodeBitmapLength : Nat
  blockCount : Nat
  blockSize : Nat

namespace Layout

def total (l : Layout) : Nat := l.sb.totalBlocks.toNat

def inodeCount (l : Layout) : Nat := l.sb.inodeCount.toNat

def bitmapStart (l : Layout) : Nat := l.sb.bitmapStart.toNat

def tableStart (l : Layout) : Nat := l.sb.inodeTableStart.toNat

def dataStart (l : Layout) : Nat := l.sb.dataStart.toNat

/-- Superblock, bitmap, inode table and data area follow each other inside the device, and the
in-memory bitmaps have a bit for every block and every inode. -/
structure Ok (l : Layout) : Prop where
  valid : l.sb.isValid = true
  sectors : l.blockSize = 512
  bitmap : 1 ≤ l.bitmapStart
  table : l.bitmapStart + bitmapBlocks l.total ≤ l.tableStart
  data : l.tableStart + (l.inodeCount + 7) / 8 ≤ l.dataStart
  room : l.dataStart < l.total
  device : l.total ≤ l.blockCount
  root : 2 ≤ l.inodeCount
  bitmapLength : l.bitmapLength = (l.total + 7) / 8
  inodeBitmapLength : l.inodeBitmapLength = (l.inodeCount + 7) / 8

def InData (l : Layout) (b : Nat) : Prop := l.dataStart ≤ b ∧ b < l.total

theorem inodeCount_lt (l : Layout) : l.inodeCount < 2 ^ 32 := l.sb.inodeCount.toNat_lt

theorem total_lt (l : Layout) : l.total < 2 ^ 32 := l.sb.totalBlocks.toNat_lt

theorem Ok.data_pos {l : Layout} (ok : l.Ok) : 0 < l.dataStart := by
  have := ok.bitmap
  have := ok.table
  have := ok.data
  omega

theorem Ok.table_block {l : Layout} (ok : l.Ok) {i : Nat} (inside : i < l.inodeCount) :
    l.tableStart + i / 8 < l.dataStart := by
  have := ok.data
  omega

theorem Ok.inData_device {l : Layout} (ok : l.Ok) {b : Nat} (inside : l.InData b) : b < l.blockCount :=
  lt_of_lt_of_le inside.2 ok.device

theorem Ok.inData_bit {l : Layout} (ok : l.Ok) {b : Nat} (inside : b < l.total) :
    b / 8 < l.bitmapLength := by
  rw [ok.bitmapLength]
  omega

theorem Ok.inode_bit {l : Layout} (ok : l.Ok) {i : Nat} (inside : i < l.inodeCount) :
    i / 8 < l.inodeBitmapLength := by
  rw [ok.inodeBitmapLength]
  omega

theorem InData.pos {l : Layout} (ok : l.Ok) {b : Nat} (inside : l.InData b) : b ≠ 0 := by
  have := ok.data_pos
  have := inside.1
  omega

end Layout

namespace Volume

def layout (s : Volume) : Layout :=
  { sb := { s.sb with freeBlocks := 0, freeInodes := 0 }
    bitmapLength := s.blockBitmap.length
    inodeBitmapLength := s.inodeBitmap.length
    blockCount := s.device.blockCount
    blockSize := s.device.blockSize }

/-- A block marked used; a set bit means free. -/
def used (s : Volume) (b : Nat) : Bool := !Bitmap.test s.blockBitmap b

def marked (s : Volume) (i : Nat) : Bool := Bitmap.test s.inodeBitmap i

def inode (s : Volume) (i : Nat) : Inode := (s.device.data (s.layout.tableStart + i / 8)).inode (i % 8)

/-! The state changes the operations are made of. -/

def setBlock (s : Volume) (b : Nat) (block : Block) : Volume :=
  { s with device := { s.device with data := Function.update s.device.data b block } }

def setInode (s : Volume) (i : Nat) (v : Inode) : Volume :=
  s.setBlock (s.layout.tableStart + i / 8)
    ((s.device.data (s.layout.tableStart + i / 8)).setInode (i % 8) v)

def takeBlock (s : Volume) (b : Nat) : Volume :=
  { s with
    blockBitmap := Bitmap.put s.blockBitmap b false
    sb := { s.sb with freeBlocks := s.sb.freeBlocks - 1 } }

def dropBlock (s : Volume) (b : Nat) : Volume :=
  { s with
    blockBitmap := Bitmap.put s.blockBitmap b true
    sb := { s.sb with freeBlocks := s.sb.freeBlocks + 1 } }

def takeInode (s : Volume) (i : Nat) : Volume :=
  { s with
    inodeBitmap := Bitmap.put s.inodeBitmap i true
    sb := { s.sb with freeInodes := s.sb.freeInodes - 1 } }

def dropInode (s : Volume) (i : Nat) : Volume :=
  { s with
    inodeBitmap := Bitmap.put s.inodeBitmap i false
    sb := { s.sb with freeInodes := s.sb.freeInodes + 1 } }

section Frames

variable (s : Volume) (b i j : Nat) (block : Block) (v : Inode)

@[simp] theorem layout_setBlock : (s.setBlock b block).layout = s.layout := rfl

@[simp] theorem layout_setInode : (s.setInode i v).layout = s.layout := rfl

@[simp] theorem layout_takeBlock : (s.takeBlock b).layout = s.layout := by
  simp [layout, takeBlock]

@[simp] theorem layout_dropBlock : (s.dropBlock b).layout = s.layout := by
  simp [layout, dropBlock]

@[simp] theorem layout_takeInode : (s.takeInode i).layout = s.layout := by
  simp [layout, takeInode]

@[simp] theorem layout_dropInode : (s.dropInode i).layout = s.layout := by
  simp [layout, dropInode]

@[simp] theorem used_setBlock : (s.setBlock b block).used = s.used := rfl

@[simp] theorem used_setInode : (s.setInode i v).used = s.used := rfl

@[simp] theorem used_takeInode : (s.takeInode i).used = s.used := rfl

@[simp] theorem used_dropInode : (s.dropInode i).used = s.used := rfl

@[simp] theorem marked_setBlock : (s.setBlock b block).marked = s.marked := rfl

@[simp] theorem marked_setInode : (s.setInode i v).marked = s.marked := rfl

@[simp] theorem marked_takeBlock : (s.takeBlock b).marked = s.marked := rfl

@[simp] theorem marked_dropBlock : (s.dropBlock b).marked = s.marked := rfl

@[simp] theorem device_takeBlock : (s.takeBlock b).device = s.device := rfl

@[simp] theorem device_dropBlock : (s.dropBlock b).device = s.device := rfl

@[simp] theorem device_takeInode : (s.takeInode i).device = s.device := rfl

@[simp] theorem device_dropInode : (s.dropInode i).device = s.device := rfl

@[simp] theorem inode_takeBlock : (s.takeBlock b).inode = s.inode := by
  funext j
  simp [inode]

@[simp] theorem inode_dropBlock : (s.dropBlock b).inode = s.inode := by
  funext j
  simp [inode]

@[simp] theorem inode_takeInode : (s.takeInode i).inode = s.inode := by
  funext j
  simp [inode]

@[simp] theorem inode_dropInode : (s.dropInode i).inode = s.inode := by
  funext j
  simp [inode]

@[simp] theorem data_setBlock : (s.setBlock b block).device.data = Function.update s.device.data b block := rfl

end Frames

theorem used_takeBlock {s : Volume} {b : Nat} (ok : s.layout.Ok) (inside : b < s.layout.total) (c : Nat) :
    (s.takeBlock b).used c = if c = b then true else s.used c := by
  have bound : b / 8 < s.blockBitmap.length := ok.inData_bit inside
  simp only [used, takeBlock, Bitmap.test_put _ _ _ _ bound]
  split <;> simp_all

theorem used_dropBlock {s : Volume} {b : Nat} (ok : s.layout.Ok) (inside : b < s.layout.total) (c : Nat) :
    (s.dropBlock b).used c = if c = b then false else s.used c := by
  have bound : b / 8 < s.blockBitmap.length := ok.inData_bit inside
  simp only [used, dropBlock, Bitmap.test_put _ _ _ _ bound]
  split <;> simp_all

theorem marked_takeInode {s : Volume} {i : Nat} (ok : s.layout.Ok) (inside : i < s.layout.inodeCount)
    (j : Nat) :
    (s.takeInode i).marked j = if j = i then true else s.marked j :=
  Bitmap.test_put _ _ _ _ (ok.inode_bit inside)

theorem marked_dropInode {s : Volume} {i : Nat} (ok : s.layout.Ok) (inside : i < s.layout.inodeCount)
    (j : Nat) :
    (s.dropInode i).marked j = if j = i then false else s.marked j :=
  Bitmap.test_put _ _ _ _ (ok.inode_bit inside)

theorem inode_setBlock {s : Volume} {b i : Nat} (ok : s.layout.Ok) (data : s.layout.dataStart ≤ b)
    (inside : i < s.layout.inodeCount) (block : Block) : (s.setBlock b block).inode i = s.inode i := by
  have table := ok.table_block inside
  have different : s.layout.tableStart + i / 8 ≠ b := by omega
  simp [inode, different]

theorem inode_setInode (s : Volume) (i j : Nat) (v : Inode) :
    (s.setInode i v).inode j = if j = i then v else s.inode j := by
  by_cases same : j / 8 = i / 8
  · have index : j = i ↔ j % 8 = i % 8 := by omega
    simp [inode, setInode, same, Block.inode_setInode _ _ _ _ (Nat.mod_lt i (by decide)), index]
  · have different : j ≠ i := by rintro rfl; exact same rfl
    simp [inode, setInode, same, different]

theorem setInode_setInode (s : Volume) (i : Nat) (v w : Inode) :
    (s.setInode i v).setInode i w = s.setInode i w := by
  simp only [setInode, setBlock, layout, Layout.tableStart, Function.update_self, Function.update_idem,
    Block.setInode_setInode _ v w (Nat.mod_lt i (by decide))]

theorem data_setInode {s : Volume} {b i : Nat} (ok : s.layout.Ok) (data : s.layout.dataStart ≤ b)
    (inside : i < s.layout.inodeCount) (v : Inode) : (s.setInode i v).device.data b = s.device.data b := by
  have table := ok.table_block inside
  have different : b ≠ s.layout.tableStart + i / 8 := by omega
  simp [setInode, different]

end Volume

end PickleOS.NextFs
