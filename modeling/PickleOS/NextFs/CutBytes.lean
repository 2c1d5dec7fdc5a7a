import PickleOS.NextFs.FileBytes
import PickleOS.NextFs.Reclaim

set_option autoImplicit false

namespace PickleOS.NextFs

open Shared Shared.Outcome

def Volume.fileSize (s : Volume) (r : UInt32) : Nat := (s.inode r.toNat).size.toNat

/-- What a read gets at a position of the file, were it long enough. -/
def Volume.fileByte (s : Volume) (r : UInt32) (p : Nat) : Except Fail UInt8 := s.stored (s.inode r.toNat) p

/-- `truncate` to `n` went from `s` to `t`: what lies below both sizes reads as before, what was
added reads as zeros, and what it has cut off does not come back with a truncation to a larger size.
-/
structure Truncates (s t : Volume) (r : UInt32) (n : Nat) : Prop where
  keeps : ∀ offset len, offset + len ≤ n → offset + len ≤ s.fileSize r →
    t.readInodeData r offset len = s.readInodeData r offset len
  zeros : ∀ offset len, s.fileSize r ≤ offset → offset + len ≤ n →
    t.readInodeData r offset len = .ok (List.replicate len 0)
  regrown : n < s.fileSize r → ∀ (m : UInt64) u, n < m.toNat → truncate r m.toNat t = .ok () u →
    ∀ offset len bytes, n ≤ offset → offset + len ≤ m.toNat → u.readInodeData r offset len = .ok bytes →
      ∀ b ∈ bytes, b = 0

/-- A write of `len` bytes at `offset` puts one of them where position `p` is read. Block indices are
computed modulo `2 ^ 32`. -/
def Lands (offset len p : Nat) : Prop := offset % 2 ^ 41 ≤ p % 2 ^ 41 ∧ p % 2 ^ 41 < offset % 2 ^ 41 + len

/-- What a truncation from `s` to `n` has cut off does not come back with a write beyond the end. -/
def WrittenPast (s t : Volume) (r : UInt32) (n : Nat) : Prop :=
  n < s.fileSize r → ∀ now (offset : UInt64) data k u, writeAt now r offset.toNat data t = .ok k u →
    ∀ start len bytes, n ≤ start → start + len ≤ offset.toNat →
      (∀ p, start ≤ p → p < start + len → ¬Lands offset.toNat data.length p) →
      u.readInodeData r start len = .ok bytes → ∀ b ∈ bytes, b = 0

/-- A truncation to `n` clears the way to the block of position `p`. -/
def Volume.Drops (s : Volume) (r : UInt32) (n p : Nat) : Prop :=
  n < s.fileSize r ∧ (s.inode r.toNat).Cleared n (p % 2 ^ 41 / 512)

/-- No byte is stored past the end where it would come back, and none is lost. -/
structure Clean (s : Volume) (r : UInt32) (n : Nat) : Prop where
  lost : ∀ p, p < n → s.Drops r n p → s.fileByte r p = .ok 0
  left : n < s.fileSize r → ∀ p b, n ≤ p → p < 2 ^ 64 - 1 → ¬s.Drops r n p → s.fileByte r p = .ok b → b = 0
  past : ∀ p, s.fileSize r ≤ p → p < n → s.fileByte r p = .ok 0

section

variable {s t : Volume} {r : UInt32} {n : UInt64}

theorem readInodeData_stored (placed : Placed s (s.inode r.toNat)) (inside : s.layout.InTable r.toNat)
    (file : (s.inode r.toNat).isFile = true) (offset len : Nat) :
    s.readInodeData r offset len = (List.range' offset (min len (s.fileSize r - offset))).mapM
      (s.fileByte r) := by
  simp only [Volume.readInodeData, readInode_ok placed.layout inside, bind, Except.bind, file,
    Bool.not_true, Bool.false_eq_true,
    if_false]
  split
  next past =>
    rw [Volume.fileSize, Nat.sub_eq_zero_of_le past, Nat.min_zero]
    rfl
  next => exact readChunks_stored placed offset _

theorem size_cut (v : Inode) (n : UInt64) : (v.cut n.toNat).size = n := by
  have number : UInt64.ofNat n.toNat = n := UInt64.ofNat_toNat
  rw [Inode.cut]
  split <;> exact number

theorem Placed.setInode {v w : Inode} (placed : Placed s v) (inside : s.layout.InTable r.toNat)
    (direct : w.direct = v.direct)
    (indirect : w.indirect = v.indirect) : Placed (s.setInode r.toNat w)
    ((s.setInode r.toNat w).inode r.toNat) := by
  have same := Inode.holds_of_pointers direct indirect s.device.data
  have holds := holds_setInode_same (s := s) (w := w) placed.layout inside.2 fun b held =>
    (placed.inData (same ▸ held)).1
  refine ⟨by simpa using placed.layout, fun held => ?_⟩
  rw [holds, same] at held
  simpa using placed.inData held

structure Truncated (s t : Volume) (r : UInt32) (n : UInt64) : Prop where
  layout : t.layout = s.layout
  inside : s.layout.InTable r.toNat
  record : t.inode r.toNat = (s.inode r.toNat).cut n.toNat
  file : (s.inode r.toNat).isFile = true
  before : Placed s (s.inode r.toNat)
  placed : Placed t (t.inode r.toNat)
  dropped : ∀ p, s.Drops r n.toNat p → t.fileByte r p = .ok 0
  others : ∀ p, ¬s.Drops r n.toNat p → t.fileByte r p = s.fileByte r p

theorem stored_cut {v : Inode} (shorter : n.toNat < v.size.toNat) (p : Nat)
    [Decidable (v.Cleared n.toNat (p % 2 ^ 41 / 512))] :
    s.stored (v.cut n.toNat) p = if v.Cleared n.toNat (p % 2 ^ 41 / 512) then .ok 0 else s.stored v p := by
  have pointer : (v.cut n.toNat).pointer s.device.data (p % 2 ^ 41 / 512) =
      if v.Cleared n.toNat (p % 2 ^ 41 / 512) then 0 else v.pointer s.device.data (p % 2 ^ 41 / 512) :=
    Inode.pointer_cut shorter _
  split
  next cleared =>
    rw [if_pos cleared] at pointer
    have reached : p % 2 ^ 41 / 512 < 137 ∨ (v.cut n.toNat).indirect = 0 := by
      by_cases low : p % 2 ^ 41 / 512 < 9
      · exact .inl (by omega)
      · rw [Inode.Cleared, if_neg low] at cleared
        exact .inr (by rw [Inode.indirect_cut shorter, if_pos cleared])
    rw [Volume.stored, if_pos reached, byteAt_hole pointer]
  next kept =>
    rw [if_neg kept] at pointer
    have reached : p % 2 ^ 41 / 512 < 137 ∨ (v.cut n.toNat).indirect = 0 ↔ p % 2 ^ 41 / 512 < 137 ∨
      v.indirect = 0 := by
      by_cases low : p % 2 ^ 41 / 512 < 9
      · exact iff_of_true (.inl (by omega)) (.inl (by omega))
      · rw [Inode.Cleared, if_neg low] at kept
        rw [Inode.indirect_cut shorter, if_neg kept]
    simp only [Volume.stored, reached, Volume.byteAt, pointer]

theorem truncated (placed : Placed s (s.inode r.toNat)) (done : truncate r n.toNat s = .ok () t) :
    Truncated s t r n := by
  classical
  obtain ⟨inside, file, rfl⟩ := truncate_ok placed.layout (fun _ => placed) done
  obtain ⟨freed, freedSet⟩ : ∃ freed, freed = (s.inode r.toNat).freedBy s.device.data n.toNat := ⟨_, rfl⟩
  rw [← freedSet]
  have released : Placed (s.release freed) ((s.inode r.toNat).cut n.toNat) := by
    refine ⟨by simpa using placed.layout, fun held => ?_⟩
    rw [Volume.device_release] at held
    rw [Volume.layout_release]
    exact placed.inData (Inode.holds_of_cut held)
  have table : (s.release freed).layout.InTable r.toNat := by rwa [Volume.layout_release]
  have record : ((s.release freed).setInode r.toNat ((s.inode r.toNat).cut n.toNat)).inode r.toNat =
      (s.inode r.toNat).cut n.toNat := by rw [Volume.inode_setInode, if_pos rfl]
  have bytes (p : Nat) : ((s.release freed).setInode r.toNat ((s.inode r.toNat).cut n.toNat)).fileByte r p =
      s.stored ((s.inode r.toNat).cut n.toNat) p := by
    rw [Volume.fileByte, record, Volume.stored, byteAt_setInode released table.2]
    simp only [Volume.stored, Volume.byteAt, Volume.device_release]
  refine ⟨by simp, inside, record, file, placed, released.setInode table rfl rfl, ?_, ?_⟩
  · rintro p ⟨shorter, cleared⟩
    rw [bytes, stored_cut shorter, if_pos cleared]
  · intro p kept
    rw [bytes]
    by_cases shorter : n.toNat < s.fileSize r
    · rw [stored_cut shorter, if_neg fun cleared => kept ⟨shorter, cleared⟩, Volume.fileByte]
    · rw [Inode.cut_longer (by simpa only [Volume.fileSize, not_lt] using shorter)]
      have same := byteAt_of_pointers (s := s) (v := s.inode r.toNat)
        (w := { s.inode r.toNat with size := UInt64.ofNat n.toNat }) rfl rfl
      simp only [Volume.fileByte, Volume.stored, same]

namespace Truncated

variable (cut : Truncated s t r n)

include cut

theorem size : t.fileSize r = n.toNat := by
  rw [Volume.fileSize, cut.record, size_cut]

theorem table : t.layout.InTable r.toNat := cut.layout ▸ cut.inside

theorem isFile : (t.inode r.toNat).isFile = true := by
  rw [cut.record, Inode.isFile, Inode.inodeType_cut]
  exact cut.file

theorem read_before (offset len : Nat) :
    s.readInodeData r offset len = (List.range' offset (min len (s.fileSize r - offset))).mapM (s.fileByte r) :=
  readInodeData_stored cut.before cut.inside cut.file offset len

theorem read (offset len : Nat) :
    t.readInodeData r offset len = (List.range' offset (min len (n.toNat - offset))).mapM (t.fileByte r) := by
  rw [readInodeData_stored cut.placed cut.table cut.isFile, cut.size]

theorem grows {m : UInt64} (longer : n.toNat < m.toNat) : ∃ u, truncate r m.toNat t = .ok () u := by
  -- A truncation to a larger size only sets the size.
  have more : m.toNat ≥ (t.inode r.toNat).size.toNat := by
    have size := cut.size
    rw [Volume.fileSize] at size
    omega
  have ends : Ends (truncate r m.toNat) t (fun _ _ => True) fun _ _ => False := by
    rw [truncate, ends_bind, ends_observe, readInode_ok cut.placed.layout cut.table]
    simp only [cut.isFile, Bool.not_true, Bool.false_eq_true, if_false]
    rw [ends_bind, truncateInode, if_pos more, ends_pure, ends_writeInode cut.placed.layout cut.table]
    trivial
  obtain ⟨_, u, done, _⟩ := ends.ok_of_never
  exact ⟨u, done⟩

theorem regrown {m : UInt64} {u : Volume} (longer : n.toNat < m.toNat) (done : truncate r m.toNat t = .ok () u)
    (offset len : Nat) :
    u.readInodeData r offset len = (List.range' offset (min len (m.toNat - offset))).mapM (t.fileByte r) := by
  have again := truncated cut.placed done
  rw [again.read]
  refine Checked.mapM_congr _ fun p _ => again.others p ?_
  rintro ⟨shorter, _⟩
  rw [cut.size] at shorter
  omega

theorem blank (clean : Clean s r n.toNat) (shorter : n.toNat < s.fileSize r) {p : Nat} (low : n.toNat ≤ p)
    (high : p < 2 ^ 64 - 1) {b : UInt8} (found : t.fileByte r p = .ok b) : b = 0 := by
  by_cases drops : s.Drops r n.toNat p
  · rw [cut.dropped p drops] at found
    cases found
    rfl
  · rw [cut.others p drops] at found
    exact clean.left shorter p b low high drops found

theorem clean_of_truncates (exact : Truncates s t r n.toNat) : Clean s r n.toNat := by
  -- A read of one byte at each position.
  have one (f : Nat → Except Fail UInt8) (p : Nat) : (List.range' p 1).mapM f = (f p).map fun b => [b] := by
    rw [List.range'_one, List.mapM_cons, List.mapM_nil]
    cases f p <;> rfl
  have single {x y : Except Fail UInt8} (same : x.map (fun b => [b]) = y.map fun b => [b]) : x = y := by
    cases x <;> cases y <;> simp_all [Except.map]
  refine ⟨?_, ?_, ?_⟩
  · intro p below drops
    have inside : p < s.fileSize r := by
      have shorter := drops.1
      omega
    have same := exact.keeps p 1 below inside
    rw [cut.read, cut.read_before, Nat.min_eq_left (by omega), Nat.min_eq_left (by omega), one, one] at same
    rw [← single same, cut.dropped p drops]
  · intro shorter p b low high kept found
    have number : (UInt64.ofNat (p + 1)).toNat = p + 1 := UInt64.toNat_ofNat_of_lt' (by
      have : UInt64.size = 2 ^ 64 := rfl
      omega)
    obtain ⟨u, done⟩ := cut.grows (m := UInt64.ofNat (p + 1)) (by omega)
    refine exact.regrown shorter _ u (by omega) done p 1 [b] low (by omega) ?_ b (.head _)
    rw [cut.regrown (by omega) done, Nat.min_eq_left (by omega), one, cut.others p kept, found]
    rfl
  · intro p low high
    have zero := exact.zeros p 1 low high
    rw [cut.read, Nat.min_eq_left (by omega), one, cut.others p fun drops => absurd drops.1 (by omega)] at zero
    exact single zero

theorem truncates_of_clean (clean : Clean s r n.toNat) : Truncates s t r n.toNat := by
  refine ⟨?_, ?_, ?_⟩
  · intro offset len below inside
    rw [cut.read, cut.read_before, Nat.min_eq_left (by omega), Nat.min_eq_left (by omega)]
    refine Checked.mapM_congr _ fun p member => ?_
    rw [List.mem_range'_1] at member
    by_cases drops : s.Drops r n.toNat p
    · rw [cut.dropped p drops, clean.lost p (by omega) drops]
    · exact cut.others p drops
  · intro offset len low high
    have zeros : ∀ p, p ∈ List.range' offset len → t.fileByte r p = .ok 0 := by
      intro p member
      rw [List.mem_range'_1] at member
      rw [cut.others p fun drops => absurd drops.1 (by omega)]
      exact clean.past p (by omega) (by omega)
    rw [cut.read, Nat.min_eq_left (by omega), Checked.mapM_ok _ zeros, List.map_const', List.length_range']
  · intro shorter m u longer done offset len bytes low high found b member
    rw [cut.regrown longer done] at found
    obtain ⟨p, listed, here⟩ := Checked.mem_of_mapM found member
    rw [List.mem_range'_1] at listed
    have bound := m.toNat_lt
    exact cut.blank clean shorter (by omega) (by omega) here

theorem writtenPast (working : Working t (t.inode r.toNat)) (clean : Clean s r n.toNat) :
    WrittenPast s t r n.toNat := by
  intro shorter now offset data k u done start len bytes low high apart found b member
  obtain ⟨_, x, w, stored, rfl⟩ :=
    (ends_storeAt cut.placed.layout now offset.toNat data cut.table cut.isFile working).of_ok done
  obtain ⟨y, final⟩ : ∃ y, y = w.extended now (offset.toNat + data.length) data.length := ⟨_, rfl⟩
  have content := stored.byteAt working cut.table.2 now (offset.toNat + data.length) data.length
  have grown := stored.written.grown
  have table : x.layout.InTable r.toNat := grown.layout ▸ cut.table
  have record : (x.setInode r.toNat y).inode r.toNat = y := by rw [Volume.inode_setInode, if_pos rfl]
  have same : y.inodeType = (t.inode r.toNat).inodeType ∧ y.direct = w.direct ∧ y.indirect = w.indirect := by
    rw [final, grown.rest]
    exact ⟨rfl, rfl, rfl⟩
  rw [← final] at content found
  have placed := (grown.working working).placed.setInode table same.2.1 same.2.2
  have file : ((x.setInode r.toNat y).inode r.toNat).isFile = true := by
    rw [record, Inode.isFile, same.1]
    exact cut.isFile
  rw [readInodeData_stored placed (by simpa using table) file] at found
  obtain ⟨p, listed, here⟩ := Checked.mem_of_mapM found member
  rw [List.mem_range'_1] at listed
  rw [Volume.fileByte, record] at here
  refine stored_hole ?_ here
  have elsewhere : ¬(offset.toNat % 2 ^ 41 ≤ p % 2 ^ 41 ∧ p % 2 ^ 41 < offset.toNat % 2 ^ 41 + data.length) :=
    apart p (by omega) (by omega)
  rw [content, Bytes.overlay, if_neg elsewhere]
  -- The byte is stored as it was before the write.
  by_cases reached : p % 2 ^ 41 / 512 < 137
  · have bound := offset.toNat_lt
    exact cut.blank clean shorter (p := p) (by omega) (by omega) (if_pos (.inl reached))
  · exact byteAt_past (by omega)

end Truncated

/-- A truncation does what it should, and what it cuts off stays cut off when the file grows again,
if and only if no byte is stored past the end in a block that stays, and no byte below the end in
one that goes. A later write needs blocks that are the file's own. -/
theorem truncate_exposes_iff (placed : Placed s (s.inode r.toNat))
    (done : truncate r n.toNat s = .ok () t) :
    (Truncates s t r n.toNat ↔ Clean s r n.toNat) ∧
      (Working t (t.inode r.toNat) → (Truncates s t r n.toNat ∧ WrittenPast s t r n.toNat ↔
        Clean s r n.toNat)) := by
  have cut := truncated placed done
  have truncates_iff : Truncates s t r n.toNat ↔ Clean s r n.toNat :=
    ⟨cut.clean_of_truncates, cut.truncates_of_clean⟩
  refine ⟨truncates_iff, fun working => ?_⟩
  constructor
  · rintro ⟨truncates, _⟩
    exact truncates_iff.mp truncates
  · intro clean
    exact ⟨truncates_iff.mpr clean, cut.writtenPast working clean⟩

end

theorem truncate_exposes_empty :
    ∃ t, truncate 2 (0 : UInt64).toNat usedVolume = .ok () t ∧ Truncates usedVolume t 2 (0 : UInt64).toNat := by
  obtain ⟨inside, file, size, hole, _⟩ := usedVolume_inodes
  have done : truncate 2 (0 : UInt64).toNat usedVolume = _ := ok_of_succeeds usedVolume_truncates.1
  have here : usedVolume.Occupied (2 : UInt32).toNat := Synced.fileOccupied inside file
  have number : (usedVolume.inode (2 : UInt32).toNat).size.toNat = 5121 := by
    change (usedVolume.inode 2).size.toNat = 5121
    rw [size]
    rfl
  refine ⟨_, done, (truncate_exposes_iff (usedVolume_exact.owned.working here).placed done).1.mpr ⟨?_, ?_, ?_⟩⟩
  · intro p below
    exact absurd below (Nat.not_lt_zero p)
  · intro shorter p b _ _ kept found
    by_cases first : p % 2 ^ 41 / 512 = 0
    · refine stored_hole (byteAt_hole ?_) found
      rw [first, Inode.pointer_direct _ _ (by decide)]
      exact hole
    · refine absurd ⟨shorter, ?_⟩ kept
      have last : lastBlock 0 = 0 ∧ lastBlock 5121 = 10 := by decide
      change (usedVolume.inode (2 : UInt32).toNat).Cleared 0 (p % 2 ^ 41 / 512)
      simp only [Inode.Cleared, number, last]
      split <;> omega
  · intro p _ below
    exact absurd below (Nat.not_lt_zero p)

/-- The file is cut to 5119 bytes and grown to its old size again: the byte at 5119 is back. -/
theorem truncate_exposed :
    ∃ t u, truncate 2 (5119 : UInt64).toNat usedVolume = .ok () t ∧
    truncate 2 (5121 : UInt64).toNat t = .ok () u ∧
      usedVolume.fileSize 2 = 5121 ∧ u.readInodeData 2 5119 1 = .ok [1] ∧
      ¬Truncates usedVolume t 2 (5119 : UInt64).toNat := by
  have facts : succeeds (truncate 2 (5119 : UInt64).toNat) usedVolume = true ∧
      succeeds (truncate 2 (5121 : UInt64).toNat) (final (truncate 2 (5119 : UInt64).toNat) usedVolume) = true ∧
      usedVolume.fileSize 2 = 5121 ∧
      (final (truncate 2 (5121 : UInt64).toNat)
      (final (truncate 2 (5119 : UInt64).toNat) usedVolume)).readInodeData 2 5119 1 =
        .ok [1] := by
    decide +kernel
  obtain ⟨first, second, size, byte⟩ := facts
  refine ⟨_, _, ok_of_succeeds first, ok_of_succeeds second, size, byte, fun truncates => ?_⟩
  have zero := truncates.regrown (by rw [size]; decide) 5121 _ (by decide) (ok_of_succeeds second) 5119 1
    [1] le_rfl (by decide)
    byte 1 (.head _)
  cases zero

end PickleOS.NextFs
