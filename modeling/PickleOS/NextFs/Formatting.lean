import PickleOS.NextFs.Effects
import PickleOS.NextFs.Mounting

set_option autoImplicit false

namespace PickleOS.NextFs

open Shared Shared.Outcome

def rootRecord (dataStart : UInt32) : Inode :=
  { Inode.newDir with size := 128, direct := Function.update (fun _ => 0) 0 dataStart }

/-- What `format` writes. -/
def Device.formatted (device : Device) (total : Nat) : Device :=
  let sb := formatSuperblock total
  let tableStart := sb.inodeTableStart.toNat
  let dataStart := sb.dataStart.toNat
  let bitmap := Bitmap.put (List.replicate (bitmapBlocks total * NextFs.blockSize) 0xFF) dataStart false
  let blank :=
    ((device.overwrite 0 [sb.toBytes]).overwrite sb.bitmapStart.toNat
      ((List.range (bitmapBlocks total)).map (blockOf bitmap))).overwrite tableStart
        (List.replicate (dataStart - tableStart) emptyInodeBlock)
  (blank.overwrite tableStart [(blank.data tableStart).setInode 1 (rootRecord sb.dataStart)]).overwrite
    dataStart
    [dotBlock rootInode rootInode]

section Geometry

variable {total : Nat}

theorem bitmapBlocks_le (total : Nat) : bitmapBlocks total ≤ total / 4096 + 1 := by
  simp only [bitmapBlocks, blockSize]
  omega

theorem le_bitmapBlocks (total : Nat) : (total + 7) / 8 ≤ bitmapBlocks total * 512 := by
  simp only [bitmapBlocks, blockSize]
  omega

theorem formatSuperblock_fields (bound : total < 2 ^ 32) :
    (formatSuperblock total).totalBlocks.toNat = total ∧
      (formatSuperblock total).inodeCount.toNat = max 64 (total / 100) ∧
      (formatSuperblock total).bitmapStart.toNat = 1 ∧
      (formatSuperblock total).inodeTableStart.toNat = 1 + bitmapBlocks total ∧
      (formatSuperblock total).dataStart.toNat = 1 + bitmapBlocks total + (max 64 (total / 100) + 7) / 8 := by
  have blocks := bitmapBlocks_le total
  simp only [formatSuperblock, UInt32.toNat_ofNat', inodesPerBlock]
  refine ⟨Nat.mod_eq_of_lt bound, Nat.mod_eq_of_lt (by omega), rfl, Nat.mod_eq_of_lt (by omega), ?_⟩
  rw [Nat.mod_eq_of_lt (by omega)]
  rfl

theorem formatSuperblock_free (bound : total < 2 ^ 32) :
    (formatSuperblock total).freeBlocks.toNat = total - (formatSuperblock total).dataStart.toNat - 1 ∧
      (formatSuperblock total).freeInodes.toNat = (formatSuperblock total).inodeCount.toNat - 1 := by
  obtain ⟨_, count, _, _, dataStart⟩ := formatSuperblock_fields bound
  rw [count, dataStart]
  simp only [formatSuperblock, UInt32.toNat_ofNat', inodesPerBlock]
  constructor
  · rw [Nat.mod_eq_of_lt (by omega)]
    rfl
  · rw [Nat.mod_eq_of_lt (by omega)]

end Geometry

theorem format_eq {device : Device} {total : Nat} (count : device.blockCount % 2 ^ 32 = total)
    (sectors : device.blockSize = 512) (large : 10 ≤ total)
    (room : (formatSuperblock total).dataStart.toNat < total) :
    format device = .ok () (device.formatted total) := by
  have ends : Ends format device (fun _ t => t = device.formatted total) (fun _ _ => False) := by
    have bound : total < 2 ^ 32 := count ▸ Nat.mod_lt _ (by decide)
    have fits : total ≤ device.blockCount := count ▸ Nat.mod_le _ _
    obtain ⟨_, _, bitmapStart, tableStart, dataStart⟩ := formatSuperblock_fields bound
    have lengths : ((List.range (bitmapBlocks total)).map (blockOf (Bitmap.put
        (List.replicate (bitmapBlocks total * blockSize) 0xFF) (formatSuperblock total).dataStart.toNat
          false))).length =
        bitmapBlocks total := by simp
    rw [format, ends_bind, ends_get, count]
    dsimp only
    rw [if_neg (not_not_intro sectors), if_neg (by omega), if_neg (by omega), ends_bind,
      ends_writeRun (by simp; omega),
      ends_bind, ends_writeRun (by rw [lengths]; simp; omega), ends_bind, ends_writeRun (by simp; omega),
        ends_bind,
      ends_get, ends_bind, ends_observe, Device.read_ok (by simp; omega)]
    dsimp only
    rw [ends_bind, ends_writeRun (by simp; omega), ends_writeRun (by simp; omega)]
    rfl
  obtain ⟨value, last, result, rfl⟩ := ends.ok_of_never
  exact result

theorem format_ok {device formatted : Device} (done : format device = .ok () formatted) :
    device.blockSize = 512 ∧ (formatSuperblock (device.blockCount % 2 ^ 32)).dataStart.toNat <
      device.blockCount % 2 ^ 32 ∧
      formatted = device.formatted (device.blockCount % 2 ^ 32) := by
  -- A device that `format` accepts, and what it leaves there.
  have checks : Ends format device (fun _ _ => device.blockSize = 512 ∧ 10 ≤ device.blockCount % 2 ^ 32 ∧
      (formatSuperblock (device.blockCount % 2 ^ 32)).dataStart.toNat < device.blockCount % 2 ^ 32)
      (fun _ _ => True) := by
    rw [format, ends_bind, ends_get]
    dsimp only
    split
    next => trivial
    next sectors =>
      split
      next => trivial
      next large =>
        split
        next => trivial
        next room =>
          unfold Ends
          split
          · exact ⟨by simpa using sectors, by omega, by omega⟩
          · trivial
  obtain ⟨sectors, large, room⟩ := checks.of_ok done
  rw [format_eq rfl sectors large room] at done
  cases done
  exact ⟨sectors, room, rfl⟩

theorem inode_emptyInodeBlock {slot : Nat} (inside : slot < 8) : emptyInodeBlock.inode slot = Inode.empty := by
  have folded : ∀ n ≤ 8, ((List.range n).foldl (fun block k => block.setInode k Inode.empty)
    Block.zero).inode slot =
      Inode.empty := by
    intro n
    induction n with
    | zero => exact fun _ => Block.inode_zero slot inside
    | succ n ih =>
      intro room
      rw [List.range_succ, List.foldl_append]
      simp only [List.foldl_cons, List.foldl_nil, Block.inode_setInode _ _ _ _ (show n < 8 by omega)]
      split
      · rfl
      · exact ih (by omega)
  exact folded 8 le_rfl

section Contents

variable {device : Device} {total : Nat} (bound : total < 2 ^ 32)
  (room : (formatSuperblock total).dataStart.toNat < total)

include bound

theorem formatted_first : (device.formatted total).data 0 = (formatSuperblock total).toBytes := by
  obtain ⟨_, _, bitmapStart, tableStart, dataStart⟩ := formatSuperblock_fields bound
  rw [Device.formatted, Device.data_overwrite_outside _ (by omega), Device.data_overwrite_outside _ (by omega),
    Device.data_overwrite_outside _ (by omega), Device.data_overwrite_outside _ (by omega),
    Device.data_overwrite_inside _ (Nat.zero_le _) (by simp)]
  rfl

theorem formatted_bitmap {i : Nat} (inside : i < bitmapBlocks total) :
    (device.formatted total).data (1 + i) = blockOf
      (Bitmap.put (List.replicate (bitmapBlocks total * blockSize) 0xFF)
      (formatSuperblock total).dataStart.toNat false) i := by
  obtain ⟨_, _, bitmapStart, tableStart, dataStart⟩ := formatSuperblock_fields bound
  rw [Device.formatted, Device.data_overwrite_outside _ (by omega), Device.data_overwrite_outside _ (by omega),
    Device.data_overwrite_outside _ (by omega), bitmapStart,
      Device.data_overwrite_inside _ (by omega) (by simp; omega),
    Nat.add_sub_cancel_left]
  simp [inside]

theorem formatted_inode {k : Nat} (inside : k < max 64 (total / 100)) :
    ((device.formatted total).data ((formatSuperblock total).inodeTableStart.toNat + k / 8)).inode (k % 8) =
      if k = 1 then rootRecord (formatSuperblock total).dataStart else Inode.empty := by
  obtain ⟨_, _, bitmapStart, tableStart, dataStart⟩ := formatSuperblock_fields bound
  have slot : k % 8 < 8 := Nat.mod_lt _ (by decide)
  have blank : ∀ (d : Device) (j : Nat), j < (max 64 (total / 100) + 7) / 8 →
      (d.overwrite (formatSuperblock total).inodeTableStart.toNat (List.replicate
        ((formatSuperblock total).dataStart.toNat - (formatSuperblock total).inodeTableStart.toNat)
        emptyInodeBlock)).data
          ((formatSuperblock total).inodeTableStart.toNat + j) = emptyInodeBlock := by
    intro d j small
    rw [Device.data_overwrite_inside _ (by omega) (by simp; omega), Nat.add_sub_cancel_left]
    simp only [List.getD_eq_getElem?_getD, List.getElem?_replicate,
      show j < (formatSuperblock total).dataStart.toNat -
      (formatSuperblock total).inodeTableStart.toNat by omega, if_true, Option.getD_some]
  rw [Device.formatted, Device.data_overwrite_outside _ (by omega)]
  by_cases first : k / 8 = 0
  · rw [first, Nat.add_zero, Device.data_overwrite_inside _ le_rfl (by simp)]
    have zero := blank ((device.overwrite 0 [(formatSuperblock total).toBytes]).overwrite
      (formatSuperblock total).bitmapStart.toNat ((List.range (bitmapBlocks total)).map (blockOf (Bitmap.put
        (List.replicate (bitmapBlocks total * blockSize) 0xFF) (formatSuperblock total).dataStart.toNat
          false))))
      0 (by omega)
    rw [Nat.add_zero] at zero
    have one : k = 1 ↔ k % 8 = 1 := by omega
    simp only [Nat.sub_self, List.getD_cons_zero, zero,
      Block.inode_setInode _ _ _ _ (show 1 < 8 by decide), one,
      inode_emptyInodeBlock slot]
  · rw [Device.data_overwrite_outside _ (by simp; omega), blank _ _ (by omega), if_neg (by omega),
      inode_emptyInodeBlock slot]

omit bound in
theorem formatted_dots :
    (device.formatted total).data (formatSuperblock total).dataStart.toNat = dotBlock rootInode rootInode := by
  rw [Device.formatted, Device.data_overwrite_inside _ le_rfl (by simp), Nat.sub_self]
  rfl

end Contents

structure Fresh (s : Volume) : Prop where
  layout : s.layout.Ok
  small : s.layout.inodeCount + 7 < 2 ^ 32
  root : s.inode 1 = rootRecord s.sb.dataStart
  others : ∀ i, i < s.layout.inodeCount → i ≠ 1 → s.inode i = Inode.empty
  used : ∀ b, s.layout.InData b → (s.used b = true ↔ b = s.layout.dataStart)
  dots : s.device.data s.layout.dataStart = dotBlock rootInode rootInode
  marked : ∀ i, s.marked i = true ↔ i = 1
  freeBlocks : s.sb.freeBlocks.toNat = s.layout.total - s.layout.dataStart - 1
  freeInodes : s.sb.freeInodes.toNat = s.layout.inodeCount - 1

theorem test_full {n k : Nat} (inside : k / 8 < n) : Bitmap.test (List.replicate n 0xFF) k = true := by
  have ones : ∀ j < 8, (0xFF : UInt8).toBitVec.getLsbD j = true := by decide
  rw [Bitmap.test_eq, List.getD_eq_getElem?_getD, List.getElem?_replicate, if_pos inside, Option.getD_some]
  exact ones _ (Nat.mod_lt _ (by decide))

/-- The bitmap of a fresh volume: all blocks free but the one of the root directory. -/
def freshBitmap (total : Nat) : List UInt8 :=
  (Bitmap.put (List.replicate (bitmapBlocks total * blockSize) 0xFF) (formatSuperblock total).dataStart.toNat
    false).take ((total + 7) / 8)

theorem mount_formatted {device : Device} {total : Nat} (sectors : device.blockSize = 512)
    (bound : total < 2 ^ 32)
    (fits : total ≤ device.blockCount) (room : (formatSuperblock total).dataStart.toNat < total) :
    ∃ marks, (device.formatted total).mount =
        .ok { sb := formatSuperblock total, blockBitmap := freshBitmap total, inodeBitmap := marks } ∧
      marks.length = (max 64 (total / 100) + 7) / 8 ∧ ∀ k, Bitmap.test marks k = true ↔ k = 1 := by
  obtain ⟨totalBlocks, count, bitmapStart, tableStart, dataStart⟩ := formatSuperblock_fields bound
  have counts : (device.formatted total).blockCount = device.blockCount := rfl
  have valid : (formatSuperblock total).isValid = true := by
    simp [Superblock.isValid, formatSuperblock]
  obtain ⟨marks, result, length, tests⟩ := mount_eq (device.formatted total) sectors
    ((congrArg _ (formatted_first bound)).trans (Superblock.fromBytes_toBytes _)) valid
    (by rw [bitmapStart, totalBlocks, counts]; omega) (by rw [tableStart, count, counts]; omega) (by omega)
    (by rw [count]; omega)
  have whole : (List.range' (formatSuperblock total).bitmapStart.toNat
      (bitmapBlocks (formatSuperblock total).totalBlocks.toNat)).flatMap
        (fun b => ((device.formatted total).data b).bytes) =
      Bitmap.put (List.replicate (bitmapBlocks total * blockSize) 0xFF)
        (formatSuperblock total).dataStart.toNat false := by
    rw [bitmapStart, totalBlocks, List.range'_eq_map_range, List.flatMap_map]
    have blocks : ∀ i ∈ List.range (bitmapBlocks total), ((device.formatted total).data (1 + i)).bytes =
        (blockOf (Bitmap.put (List.replicate (bitmapBlocks total * blockSize) 0xFF)
          (formatSuperblock total).dataStart.toNat false) i).bytes := by
      intro i member
      rw [formatted_bitmap bound (List.mem_range.mp member)]
    rw [List.flatMap_congr blocks, flatMap_blockOf _ _ (by simp)]
    simp
  refine ⟨marks, ?_, count ▸ length, ?_⟩
  · rw [result, whole, totalBlocks]
    rfl
  · intro k
    rw [tests, count, Bool.and_eq_true, decide_eq_true_eq]
    constructor
    · rintro ⟨inside, busy⟩
      rw [formatted_inode bound inside] at busy
      by_contra other
      simp [other, Inode.isFree, Inode.empty] at busy
    · rintro rfl
      refine ⟨by omega, ?_⟩
      rw [formatted_inode bound (by omega)]
      simp [rootRecord, Inode.isFree, Inode.newDir]

theorem fresh_of_mount {device formatted : Device} {fs : NextFS} (done : format device = .ok () formatted)
    (mounted : formatted.mount = .ok fs) : Fresh { fs with device := formatted } := by
  obtain ⟨sectors, room, rfl⟩ := format_ok done
  have bound : device.blockCount % 2 ^ 32 < 2 ^ 32 := Nat.mod_lt _ (by decide)
  have fits : device.blockCount % 2 ^ 32 ≤ device.blockCount := Nat.mod_le _ _
  have counts : (device.formatted (device.blockCount % 2 ^ 32)).blockCount = device.blockCount := rfl
  generalize device.blockCount % 2 ^ 32 = total at *
  obtain ⟨totalBlocks, count, bitmapStart, tableStart, dataStart⟩ := formatSuperblock_fields bound
  obtain ⟨marks, result, length, tests⟩ := mount_formatted sectors bound fits room
  rw [mounted] at result
  cases Except.ok.inj result
  have bitmapLength := le_bitmapBlocks total
  constructor
  case layout =>
    constructor
    case valid => simp [Volume.layout, Superblock.isValid, formatSuperblock]
    case sectors => exact sectors
    all_goals
      simp only [Layout.bitmapStart, Layout.tableStart, Layout.dataStart, Layout.total, Layout.inodeCount,
        Volume.layout,
        bitmapStart, tableStart, dataStart, totalBlocks, count, counts, freshBitmap, List.length_take,
          Bitmap.put_length,
        List.length_replicate, length, blockSize]
    all_goals omega
  case small =>
    simp only [Layout.inodeCount, Volume.layout, count]
    omega
  case root => exact (formatted_inode bound (by omega)).trans (if_pos rfl)
  case others =>
    intro i inside other
    simp only [Layout.inodeCount, Volume.layout, count] at inside
    exact (formatted_inode bound inside).trans (if_neg other)
  case used =>
    rintro b ⟨low, high⟩
    simp only [Layout.dataStart, Layout.total, Volume.layout] at low high ⊢
    rw [totalBlocks] at high
    have full : b / 8 < bitmapBlocks total * blockSize := by
      simp only [blockSize]
      omega
    have start : (formatSuperblock total).dataStart.toNat / 8 <
        (List.replicate (bitmapBlocks total * blockSize) (0xFF : UInt8)).length := by
      rw [List.length_replicate]
      simp only [blockSize]
      omega
    simp only [Volume.used, freshBitmap]
    rw [test_take _ (by omega), Bitmap.test_put _ _ _ _ start, test_full full]
    split <;> simp_all
  case dots => exact formatted_dots
  case marked => exact tests
  case freeBlocks =>
    simp only [Layout.dataStart, Layout.total, Volume.layout, totalBlocks]
    exact (formatSuperblock_free bound).1
  case freeInodes =>
    simp only [Layout.inodeCount, Volume.layout]
    exact (formatSuperblock_free bound).2

end PickleOS.NextFs
