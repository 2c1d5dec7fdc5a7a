import PickleOS.NextFs.Views

set_option autoImplicit false

namespace PickleOS.NextFs

open Shared Shared.Outcome

theorem scanBits_eq (bits : List UInt8) (want : Bool) (lo n : Nat) (inside : (lo + n + 7) / 8 ≤ bits.length) :
    scanBits bits want lo n = .ok (Bitmap.first bits want lo n) := by
  induction n generalizing lo with
  | zero => rfl
  | succ n ih =>
    have here : lo / 8 < bits.length := by omega
    rw [scanBits, if_pos here]
    by_cases hit : Bitmap.test bits lo = want
    · simp [Bitmap.first, List.range'_succ, hit]
    · rw [if_neg hit, ih (lo + 1) (by omega)]
      simp [Bitmap.first, List.range'_succ, hit]

namespace Volume

/-- The block `alloc_block` would hand out. -/
def nextFree (s : Volume) : Option Nat :=
  if s.sb.freeBlocks = 0 then none
  else Bitmap.first s.blockBitmap true s.layout.dataStart (s.layout.total - s.layout.dataStart)

/-- The inode number `alloc_inode` would hand out. -/
def nextInode (s : Volume) : Option Nat :=
  if s.sb.freeInodes = 0 then none
  else Bitmap.first s.inodeBitmap false 1 (s.layout.inodeCount - 1)

theorem nextFree_some {s : Volume} {b : Nat} (ok : s.layout.Ok) (found : s.nextFree = some b) :
    s.layout.InData b ∧ s.used b = false ∧ s.sb.freeBlocks ≠ 0 := by
  unfold nextFree at found
  split at found
  next => simp at found
  next available =>
    obtain ⟨low, high, free⟩ := Bitmap.first_some found
    have := ok.room
    exact ⟨⟨low, by omega⟩, by simp [used, free], available⟩

theorem nextInode_some {s : Volume} {i : Nat} (ok : s.layout.Ok) (found : s.nextInode = some i) :
    0 < i ∧ i < s.layout.inodeCount ∧ s.marked i = false ∧ s.sb.freeInodes ≠ 0 := by
  unfold nextInode at found
  split at found
  next => simp at found
  next available =>
    obtain ⟨low, high, free⟩ := Bitmap.first_some found
    have := ok.root
    exact ⟨low, by omega, free, available⟩

end Volume

section Rules

variable {s : Volume} (ok : s.layout.Ok)

include ok

theorem allocBlock_eq :
    allocBlock s =
      match s.nextFree with
      | some b => .ok (UInt32.ofNat b) (s.takeBlock b)
      | none => .error (.fs .noSpace) s := by
  have inside : (s.layout.dataStart + (s.layout.total - s.layout.dataStart) + 7) /
    8 ≤ s.blockBitmap.length := by
    have length : s.blockBitmap.length = (s.layout.total + 7) / 8 := ok.bitmapLength
    have := ok.room
    omega
  have scan := scanBits_eq s.blockBitmap true s.layout.dataStart _ inside
  simp only [Layout.dataStart, Layout.total, Volume.layout] at scan
  by_cases full : s.sb.freeBlocks = 0
  · simp [allocBlock, Volume.nextFree, full, bind, EStateM.bind, get_apply, throw_apply]
  · simp only [allocBlock, Volume.nextFree, full, bind, EStateM.bind, get_apply, if_false, observe, scan,
      Layout.dataStart, Layout.total, Volume.layout]
    cases Bitmap.first s.blockBitmap true s.sb.dataStart.toNat
      (s.sb.totalBlocks.toNat - s.sb.dataStart.toNat) <;> rfl

theorem ends_allocBlock (returns : UInt32 → Volume → Prop) (fails : Fail → Volume → Prop) :
    Ends allocBlock s returns fails ↔
      match s.nextFree with
      | some b => returns (UInt32.ofNat b) (s.takeBlock b)
      | none => fails (.fs .noSpace) s := by
  rw [Ends, allocBlock_eq ok]
  cases s.nextFree <;> rfl

theorem allocInode_eq :
    allocInode s =
      match s.nextInode with
      | some i => .ok (UInt32.ofNat i) (s.takeInode i)
      | none => .error (.fs .noSpace) s := by
  have inside : (1 + (s.layout.inodeCount - 1) + 7) / 8 ≤ s.inodeBitmap.length := by
    have length : s.inodeBitmap.length = (s.layout.inodeCount + 7) / 8 := ok.inodeBitmapLength
    have := ok.root
    omega
  have scan := scanBits_eq s.inodeBitmap false 1 _ inside
  simp only [Layout.inodeCount, Volume.layout] at scan
  by_cases full : s.sb.freeInodes = 0
  · simp [allocInode, Volume.nextInode, full, bind, EStateM.bind, get_apply, throw_apply]
  · simp only [allocInode, Volume.nextInode, full, bind, EStateM.bind, get_apply, if_false, observe, scan,
      Layout.inodeCount, Volume.layout]
    cases Bitmap.first s.inodeBitmap false 1 (s.sb.inodeCount.toNat - 1) <;> rfl

theorem ends_allocInode (returns : UInt32 → Volume → Prop) (fails : Fail → Volume → Prop) :
    Ends allocInode s returns fails ↔
      match s.nextInode with
      | some i => returns (UInt32.ofNat i) (s.takeInode i)
      | none => fails (.fs .noSpace) s := by
  rw [Ends, allocInode_eq ok]
  cases s.nextInode <;> rfl

theorem ends_freeBlock {b : UInt32} (inside : b.toNat < s.layout.total)
    (returns : Unit → Volume → Prop) (fails : Fail → Volume → Prop) :
    Ends (freeBlock b) s returns fails ↔ returns () (s.dropBlock b.toNat) := by
  have bound : b.toNat / 8 < s.blockBitmap.length := ok.inData_bit inside
  simp only [freeBlock, ends_bind, ends_get, bound, if_true, ends_modify]
  rfl

theorem ends_freeInode {i : UInt32} (inside : i.toNat < s.layout.inodeCount)
    (returns : Unit → Volume → Prop) (fails : Fail → Volume → Prop) :
    Ends (freeInode i) s returns fails ↔ returns () (s.dropInode i.toNat) := by
  have bound : i.toNat / 8 < s.inodeBitmap.length := ok.inode_bit inside
  simp only [freeInode, ends_bind, ends_get, bound, if_true, ends_modify]
  rfl

omit ok in
theorem ends_readBlock {b : Nat} (inside : b < s.layout.blockCount)
    (returns : Block → Volume → Prop) (fails : Fail → Volume → Prop) :
    Ends (readBlock b) s returns fails ↔ returns (s.device.data b) s := by
  simp only [readBlock, ends_observe, Device.read_ok (show b < s.device.blockCount from inside)]

omit ok in
theorem ends_writeBlock {b : Nat} (inside : b < s.layout.blockCount) (block : Block)
    (returns : Unit → Volume → Prop) (fails : Fail → Volume → Prop) :
    Ends (writeBlock b block) s returns fails ↔ returns () (s.setBlock b block) := by
  simp only [Ends, writeBlock, Device.write_ok block (show b < s.device.blockCount from inside)]
  rfl

/-- Inode numbers that `read_inode` and `write_inode` accept. -/
def Layout.InTable (l : Layout) (i : Nat) : Prop := 0 < i ∧ i < l.inodeCount

omit ok in
private theorem invalid_iff (i : UInt32) :
    (i = 0 ∨ i ≥ s.sb.inodeCount) ↔ ¬s.layout.InTable i.toNat := by
  have zero : i = 0 ↔ i.toNat = 0 := by rw [← UInt32.toNat_inj]; rfl
  have bound : i ≥ s.sb.inodeCount ↔ s.layout.inodeCount ≤ i.toNat := Iff.rfl
  rw [zero, bound, Layout.InTable]
  omega

private theorem table_address {i : UInt32} (inside : s.layout.InTable i.toNat) :
    (s.sb.inodeTableStart + i / 8).toNat = s.layout.tableStart + i.toNat / 8 ∧
      s.layout.tableStart + i.toNat / 8 < s.layout.blockCount := by
  have table := ok.table_block inside.2
  have := ok.room
  have := ok.device
  have := s.layout.total_lt
  have sum : (s.sb.inodeTableStart + i / 8).toNat = (s.layout.tableStart + i.toNat / 8) % 2 ^ 32 := by
    rw [UInt32.toNat_add, UInt32.toNat_div]
    rfl
  exact ⟨by rw [sum, Nat.mod_eq_of_lt (by omega)], by omega⟩

theorem readInode_eq (i : UInt32) [Decidable (s.layout.InTable i.toNat)] :
    s.readInode i = if s.layout.InTable i.toNat then .ok (s.inode i.toNat) else .error (.fs .invalidInode) := by
  rw [Volume.readInode]
  by_cases inside : s.layout.InTable i.toNat
  · rw [if_neg (by rw [invalid_iff]; exact not_not_intro inside), if_pos inside]
    obtain ⟨address, device⟩ := table_address ok inside
    simp only [address, Device.read_ok (show _ < s.device.blockCount from device), bind, Except.bind,
      UInt32.toNat_mod]
    rfl
  · rw [if_pos (invalid_iff i |>.mpr inside), if_neg inside]

theorem readInode_ok {i : UInt32} (inside : s.layout.InTable i.toNat) :
    s.readInode i = .ok (s.inode i.toNat) := by
  classical rw [readInode_eq ok, if_pos inside]

theorem ends_writeInode {i : UInt32} (inside : s.layout.InTable i.toNat) (v : Inode)
    (returns : Unit → Volume → Prop) (fails : Fail → Volume → Prop) :
    Ends (writeInode i v) s returns fails ↔ returns () (s.setInode i.toNat v) := by
  obtain ⟨address, device⟩ := table_address ok inside
  have accepted : ¬(i = 0 ∨ i ≥ s.sb.inodeCount) := by rw [invalid_iff]; exact not_not_intro inside
  simp only [writeInode, ends_bind, ends_get, if_neg accepted, writeInodeRaw, address,
    ends_readBlock device, ends_writeBlock device, UInt32.toNat_mod]
  rfl

end Rules

end PickleOS.NextFs
