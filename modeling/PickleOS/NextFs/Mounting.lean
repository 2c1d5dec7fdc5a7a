import PickleOS.NextFs.Mount
import PickleOS.NextFs.Views

set_option autoImplicit false

namespace PickleOS.NextFs

open Shared Shared.Outcome

namespace Device

/-- Consecutive blocks from `lba` on replaced. -/
def overwrite (device : Device) (lba : Nat) (blocks : List Block) : Device :=
  { device with
    data := fun b => if lba ≤ b ∧ b < lba + blocks.length then blocks.getD (b - lba) Block.zero else
      device.data b }

theorem overwrite_nil (device : Device) (lba : Nat) : device.overwrite lba [] = device := by
  have none : ∀ b, ¬(lba ≤ b ∧ b < lba + ([] : List Block).length) := fun b => by
    simp only [List.length_nil]
    omega
  simp only [overwrite, if_neg (none _)]

theorem overwrite_cons (device : Device) (lba : Nat) (block : Block) (rest : List Block) :
    ({ device with data := Function.update device.data lba block } : Device).overwrite (lba + 1) rest =
      device.overwrite lba (block :: rest) := by
  simp only [overwrite, Device.mk.injEq, true_and]
  funext b
  simp only [List.length_cons]
  by_cases first : b = lba
  · subst first
    simp
  · by_cases inside : lba + 1 ≤ b ∧ b < lba + 1 + rest.length
    · obtain ⟨n, rfl⟩ : ∃ n, b = lba + 1 + n := ⟨b - (lba + 1), by omega⟩
      have index : lba + 1 + n - lba = n + 1 := by omega
      rw [if_pos inside, if_pos (by omega), index, List.getD_cons_succ]
      congr 1
      omega
    · rw [if_neg inside, if_neg (by omega), Function.update_of_ne first]

theorem data_overwrite_outside (device : Device) {lba b : Nat} {blocks : List Block}
    (outside : b < lba ∨ lba + blocks.length ≤ b) : (device.overwrite lba blocks).data b = device.data b :=
  if_neg (by omega)

theorem data_overwrite_inside (device : Device) {lba b : Nat} {blocks : List Block} (low : lba ≤ b)
    (high : b < lba + blocks.length) : (device.overwrite lba blocks).data b = blocks.getD (b - lba)
    Block.zero :=
  if_pos ⟨low, high⟩

@[simp] theorem blockCount_overwrite (device : Device) (lba : Nat) (blocks : List Block) :
    (device.overwrite lba blocks).blockCount = device.blockCount := rfl

@[simp] theorem blockSize_overwrite (device : Device) (lba : Nat) (blocks : List Block) :
    (device.overwrite lba blocks).blockSize = device.blockSize := rfl

end Device

theorem writeRun_eq {device : Device} {lba : Nat} {blocks : List Block}
    (room : lba + blocks.length ≤ device.blockCount) :
    writeRun lba blocks device = .ok () (device.overwrite lba blocks) := by
  induction blocks generalizing device lba with
  | nil => rw [Device.overwrite_nil, writeRun]; rfl
  | cons block rest ih =>
    rw [List.length_cons] at room
    have here : lba < device.blockCount := by omega
    have tail : writeRun (lba + 1) rest { device with data := Function.update device.data lba block } = _ :=
      ih (by simp only; omega)
    rw [Device.overwrite_cons] at tail
    simp only [writeRun, bind, EStateM.bind, get_apply, observe, Device.write_ok block here, set_apply]
    exact tail

theorem ends_writeRun {device : Device} {lba : Nat} {blocks : List Block}
    (room : lba + blocks.length ≤ device.blockCount) (returns : Unit → Device → Prop)
    (fails : Fail → Device → Prop) :
    Ends (writeRun lba blocks) device returns fails ↔ returns () (device.overwrite lba blocks) := by
  rw [Ends, writeRun_eq room]

theorem readRun_eq {device : Device} {lba n : Nat} (room : lba + n ≤ device.blockCount) :
    device.readRun lba n = .ok ((List.range' lba n).flatMap fun b => (device.data b).bytes) := by
  induction n generalizing lba with
  | zero => rfl
  | succ n ih =>
    have here : lba < device.blockCount := by omega
    rw [Device.readRun, Device.read_ok here, List.range'_succ, List.flatMap_cons]
    simp only [bind, Except.bind, ih (show lba + 1 + n ≤ device.blockCount by omega)]

theorem flatMap_blockOf (bytes : List UInt8) (n : Nat) (room : bytes.length ≤ n * 512) :
    (List.range n).flatMap (fun i => (blockOf bytes i).bytes) =
      bytes ++ List.replicate (n * 512 - bytes.length) 0 := by
  -- The blocks of a byte vector, one after the other, are the vector padded with zeros.
  induction n generalizing bytes with
  | zero =>
    have empty : bytes = [] := List.eq_nil_of_length_eq_zero (by omega)
    simp [empty]
  | succ n ih =>
    have shift : ∀ i, blockOf bytes (i + 1) = blockOf (bytes.drop 512) i := by
      intro i
      have index : (i + 1) * blockSize = 512 + i * blockSize := by
        simp only [blockSize]
        omega
      rw [blockOf, blockOf, Bytes.slice, Bytes.slice, List.drop_drop, index]
    have first : (blockOf bytes 0).bytes = bytes.take 512 ++ List.replicate (512 - bytes.length) 0 := by
      have short : (bytes.take 512).length ≤ 512 := by simp
      simp only [blockOf, Block.ofBytes, Block.splice, Bytes.splice, Block.zero, Bytes.slice, blockSize,
        Nat.zero_mul,
        List.drop_zero, List.take_zero, List.nil_append, List.length_replicate, Nat.zero_add,
          List.drop_replicate]
      rw [List.take_of_length_le (by simp), List.length_take]
      congr 2
      omega
    rw [List.range_succ_eq_map, List.flatMap_cons, List.flatMap_map]
    simp only [shift]
    rw [ih (bytes.drop 512) (by simp; omega), first]
    by_cases long : 512 ≤ bytes.length
    · have none : 512 - bytes.length = 0 := by omega
      have rest : n * 512 - (bytes.drop 512).length = (n + 1) * 512 - bytes.length := by
        rw [List.length_drop]
        omega
      rw [none, rest, List.replicate_zero, List.append_nil, ← List.append_assoc, List.take_append_drop]
    · have all : bytes.take 512 = bytes := List.take_of_length_le (by omega)
      have empty : bytes.drop 512 = [] := List.drop_eq_nil_of_le (by omega)
      have pad : 512 - bytes.length + (n * 512 - 0) = (n + 1) * 512 - bytes.length := by omega
      rw [all, empty, List.nil_append, List.length_nil, List.append_assoc, ← List.replicate_add, pad]

theorem test_append_zeros (bytes : List UInt8) (n k : Nat) :
    Bitmap.test (bytes ++ List.replicate n 0) k = Bitmap.test bytes k := by
  rw [Bitmap.test_eq, Bitmap.test_eq]
  congr 2
  by_cases inside : k / 8 < bytes.length
  · simp [List.getElem?_append_left inside]
  · rw [List.getD_eq_getElem?_getD, List.getD_eq_getElem?_getD, List.getElem?_append_right (by omega),
      List.getElem?_eq_none (l := bytes) (by omega), List.getElem?_replicate]
    split <;> rfl

theorem test_take (bytes : List UInt8) {m k : Nat} (inside : k / 8 < m) :
    Bitmap.test (bytes.take m) k = Bitmap.test bytes k := by
  rw [Bitmap.test_eq, Bitmap.test_eq, List.getD_eq_getElem?_getD, List.getD_eq_getElem?_getD,
    List.getElem?_take,
    if_pos inside]

section Mark

theorem markSlots_length (buf : Block) (inodeCount first n : Nat) (bits : List UInt8) :
    (markSlots buf inodeCount first n bits).length = bits.length := by
  induction n generalizing first bits with
  | zero => rfl
  | succ n ih =>
    rw [markSlots]
    split
    · rfl
    · rw [ih]
      split
      · exact Bitmap.put_length _ _ _
      · rfl

theorem test_markSlots (buf : Block) {inodeCount : Nat} (first n : Nat) {bits : List UInt8}
    (room : inodeCount ≤ bits.length * 8) (k : Nat) :
    Bitmap.test (markSlots buf inodeCount first n bits) k =
      (Bitmap.test bits k ||
        decide (first ≤ k ∧ k < first + n ∧ k < inodeCount) && !(buf.inode (k % 8)).isFree) := by
  induction n generalizing first bits with
  | zero =>
    have none : ¬(first ≤ k ∧ k < first + 0 ∧ k < inodeCount) := by omega
    simp only [markSlots, none, decide_false, Bool.false_and, Bool.or_false]
  | succ n ih =>
    rw [markSlots]
    split
    next past =>
      have none : ¬(first ≤ k ∧ k < first + (n + 1) ∧ k < inodeCount) := by omega
      simp only [none, decide_false, Bool.false_and, Bool.or_false]
    next inside =>
      have length : (if (!(buf.inode (first % inodesPerBlock)).isFree) = true then Bitmap.put bits first true
          else bits).length = bits.length := by
        split
        · exact Bitmap.put_length _ _ _
        · rfl
      rw [ih _ (by rw [length]; exact room)]
      by_cases here : k = first
      · subst here
        have range : k ≤ k ∧ k < k + (n + 1) ∧ k < inodeCount := by omega
        have past : ¬(k + 1 ≤ k ∧ k < k + 1 + n ∧ k < inodeCount) := by omega
        have bound : k / 8 < bits.length := by omega
        rw [decide_eq_false past, decide_eq_true range, Bool.false_and, Bool.or_false, Bool.true_and]
        cases (buf.inode (k % 8)).isFree with
        | true => simp
        | false => simp [Bitmap.test_put _ _ _ _ bound]
      · have range : (first + 1 ≤ k ∧ k < first + 1 + n ∧ k < inodeCount) ↔
            first ≤ k ∧ k < first + (n + 1) ∧ k < inodeCount := by omega
        have bound : first / 8 < bits.length := by omega
        have same : Bitmap.test (if (!(buf.inode (first % inodesPerBlock)).isFree) = true then
            Bitmap.put bits first true else bits) k = Bitmap.test bits k := by
          split
          · rw [Bitmap.test_put _ _ _ _ bound, if_neg here]
          · rfl
        simp only [range, same]

theorem markTable_eq (device : Device) (tableStart inodeCount blockI n : Nat) (bits : List UInt8)
    (device_room : tableStart + blockI + n ≤ device.blockCount) (room : inodeCount ≤ bits.length * 8) :
    ∃ marks, device.markTable tableStart inodeCount blockI n bits = .ok marks ∧ marks.length = bits.length ∧
      ∀ k, Bitmap.test marks k = (Bitmap.test bits k ||
        decide (blockI * 8 ≤ k ∧ k < (blockI + n) * 8 ∧ k < inodeCount) &&
          !((device.data (tableStart + k / 8)).inode (k % 8)).isFree) := by
  -- The derived inode bitmap has the bits of the inodes whose type is not free.
  induction n generalizing blockI bits with
  | zero =>
    refine ⟨bits, rfl, rfl, ?_⟩
    intro k
    have none : ¬(blockI * 8 ≤ k ∧ k < (blockI + 0) * 8 ∧ k < inodeCount) := by omega
    rw [decide_eq_false none, Bool.false_and, Bool.or_false]
  | succ n ih =>
    have here : tableStart + blockI < device.blockCount := by omega
    have length := markSlots_length (device.data (tableStart + blockI)) inodeCount (blockI * inodesPerBlock)
      inodesPerBlock bits
    obtain ⟨marks, done, same, tests⟩ := ih (blockI + 1)
      (markSlots (device.data (tableStart + blockI)) inodeCount (blockI * inodesPerBlock) inodesPerBlock bits)
      (by omega) (by rw [length]; exact room)
    refine ⟨marks, ?_, same.trans length, ?_⟩
    · rw [Device.markTable, Device.read_ok here]
      exact done
    · intro k
      rw [tests, test_markSlots _ _ _ room]
      simp only [inodesPerBlock]
      by_cases first : k / 8 = blockI
      · have now : (blockI * 8 ≤ k ∧ k < blockI * 8 + 8 ∧ k < inodeCount) ↔ k < inodeCount := by omega
        have later : ¬((blockI + 1) * 8 ≤ k ∧ k < (blockI + 1 + n) * 8 ∧ k < inodeCount) := by omega
        have all : (blockI * 8 ≤ k ∧ k < (blockI + (n + 1)) * 8 ∧ k < inodeCount) ↔ k < inodeCount := by omega
        simp only [now, later, all, first, decide_false, Bool.false_and, Bool.or_false]
      · have now : ¬(blockI * 8 ≤ k ∧ k < blockI * 8 + 8 ∧ k < inodeCount) := by omega
        have later : ((blockI + 1) * 8 ≤ k ∧ k < (blockI + 1 + n) * 8 ∧ k < inodeCount) ↔
            blockI * 8 ≤ k ∧ k < (blockI + (n + 1)) * 8 ∧ k < inodeCount := by omega
        simp only [now, later, decide_false, Bool.false_and, Bool.or_false]

end Mark

theorem mount_scanned {device : Device} {sb : Superblock}
    {marks : List UInt8} (sectors : device.blockSize = 512)
    (first : Superblock.fromBytes (device.data 0) = sb) (valid : sb.isValid = true)
    (bitmap : sb.bitmapStart.toNat + bitmapBlocks sb.totalBlocks.toNat ≤ device.blockCount)
    (positive : 0 < device.blockCount)
    (scanned : device.markTable sb.inodeTableStart.toNat sb.inodeCount.toNat 0 ((sb.inodeCount + 7) / 8).toNat
      (List.replicate ((sb.inodeCount.toNat + 7) / 8) 0) = .ok marks) :
    device.mount = .ok
      { sb := sb
        blockBitmap := ((List.range' sb.bitmapStart.toNat (bitmapBlocks sb.totalBlocks.toNat)).flatMap
          fun b => (device.data b).bytes).take ((sb.totalBlocks.toNat + 7) / 8)
        inodeBitmap := marks } := by
  rw [Device.mount, if_neg (not_not_intro sectors), Device.read_ok positive]
  simp only [bind, Except.bind, first, valid, Bool.not_true, Bool.false_eq_true, if_false,
    readRun_eq bitmap, scanned]

theorem mount_eq (device : Device) {sb : Superblock} (sectors : device.blockSize = 512)
    (first : Superblock.fromBytes (device.data 0) = sb) (valid : sb.isValid = true)
    (bitmap : sb.bitmapStart.toNat + bitmapBlocks sb.totalBlocks.toNat ≤ device.blockCount)
    (table : sb.inodeTableStart.toNat + (sb.inodeCount.toNat + 7) / 8 ≤ device.blockCount)
    (positive : 0 < device.blockCount) (small : sb.inodeCount.toNat + 7 < 2 ^ 32) :
    ∃ marks, device.mount = .ok
        { sb := sb
          blockBitmap := ((List.range' sb.bitmapStart.toNat (bitmapBlocks sb.totalBlocks.toNat)).flatMap
            fun b => (device.data b).bytes).take ((sb.totalBlocks.toNat + 7) / 8)
          inodeBitmap := marks } ∧
      marks.length = (sb.inodeCount.toNat + 7) / 8 ∧
      ∀ k, Bitmap.test marks k = (decide (k < sb.inodeCount.toNat) &&
        !((device.data (sb.inodeTableStart.toNat + k / 8)).inode (k % 8)).isFree) := by
  have blocks : ((sb.inodeCount + 7) / 8).toNat = (sb.inodeCount.toNat + 7) / 8 := by
    rw [UInt32.toNat_div, UInt32.toNat_add]
    change (sb.inodeCount.toNat + 7) % 2 ^ 32 / 8 = _
    rw [Nat.mod_eq_of_lt small]
  obtain ⟨marks, done, length, tests⟩ := markTable_eq device sb.inodeTableStart.toNat
    sb.inodeCount.toNat 0 ((sb.inodeCount.toNat + 7) / 8)
      (List.replicate ((sb.inodeCount.toNat + 7) / 8) 0) (by omega) (by rw [List.length_replicate]; omega)
  refine ⟨marks, ?_, by simpa using length, ?_⟩
  · exact mount_scanned sectors first valid bitmap positive (by rw [blocks, done])
  · intro k
    have clear : Bitmap.test (List.replicate ((sb.inodeCount.toNat + 7) / 8) 0) k = false := by
      have empty := test_append_zeros [] ((sb.inodeCount.toNat + 7) / 8) k
      rw [List.nil_append] at empty
      rw [empty]
      exact Bitmap.test_of_length_le [] k (Nat.zero_le _)
    have range : (0 * 8 ≤ k ∧ k < (0 + (sb.inodeCount.toNat + 7) / 8) * 8 ∧ k < sb.inodeCount.toNat) ↔
        k < sb.inodeCount.toNat := by omega
    rw [tests, clear, Bool.false_or]
    simp only [range]

end PickleOS.NextFs
