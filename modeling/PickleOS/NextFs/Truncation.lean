import PickleOS.NextFs.Consistency

set_option autoImplicit false

namespace PickleOS.NextFs

open Shared Shared.Outcome

theorem lastBlock_lt (size : Nat) : lastBlock size < 2 ^ 32 := by
  unfold lastBlock
  split <;> omega

theorem Block.pointer_past (block : Block) {k : Nat} (past : 128 ≤ k) : block.pointer k = 0 := by
  have empty : block.slice (k * 4) 4 = [] := by
    simp only [Block.slice, Bytes.slice]
    rw [List.drop_eq_nil_of_le (by rw [block.length_eq]; simp only [blockSize]; omega), List.take_nil]
  rw [Block.pointer, empty]
  rfl

namespace Inode

variable {v : Inode} {data : Nat → Block} {newSize : Nat}

theorem pointer_past (v : Inode) (data : Nat → Block) {k : Nat} (past : 137 ≤ k) : v.pointer data k = 0 := by
  by_cases indirect : v.indirect = 0
  · rw [pointer_hole _ _ (by omega) indirect]
  · rw [pointer_entry _ _ (by omega) indirect, Block.pointer_past _ (by omega)]

/-- The indices whose pointers `truncate` to a smaller size clears in the inode record. -/
def Cleared (v : Inode) (newSize k : Nat) : Prop :=
  if k < 9 then
    (lastBlock newSize + 1) % 2 ^ 32 ≤ k ∧ k < min 9 ((lastBlock v.size.toNat + 1) % 2 ^ 32)
  else lastBlock newSize < 9

theorem cut_longer (longer : v.size.toNat ≤ newSize) :
    v.cut newSize = { v with size := UInt64.ofNat newSize } :=
  if_pos longer

theorem pointer_cut (shorter : newSize < v.size.toNat) (k : Nat) [Decidable (v.Cleared newSize k)] :
    (v.cut newSize).pointer data k = if v.Cleared newSize k then 0 else v.pointer data k := by
  rw [cut, if_neg (by omega)]
  by_cases low : k < 9
  · rw [pointer_direct _ _ low, pointer_direct _ _ low]
    simp only [clear, Cleared, low, if_true]
    congr 1
    apply propext
    omega
  · by_cases short : lastBlock newSize < 9
    · rw [pointer_hole _ _ low (by simp [short]), if_pos (by simpa only [Cleared, low, if_false])]
    · have kept : ¬v.Cleared newSize k := by simpa only [Cleared, low, if_false] using short
      simp only [pointer, dif_neg low, if_neg short, if_neg kept]

theorem indirect_cut (shorter : newSize < v.size.toNat) :
    (v.cut newSize).indirect = if lastBlock newSize < 9 then 0 else v.indirect := by
  rw [cut, if_neg (by omega)]

theorem inodeType_cut (v : Inode) (newSize : Nat) : (v.cut newSize).inodeType = v.inodeType := by
  rw [cut]
  split <;> rfl

theorem holds_longer (longer : v.size.toNat ≤ newSize) : (v.cut newSize).holds data = v.holds data := by
  rw [cut_longer longer]
  exact holds_of_pointers rfl rfl data

theorem holds_of_cut {p : Place} {b : Nat} (held : (v.cut newSize).holds data p = some b) :
    v.holds data p = some b := by
  -- Truncating only takes references away.
  classical
  by_cases longer : v.size.toNat ≤ newSize
  · rwa [holds_longer longer] at held
  have shorter : newSize < v.size.toNat := by omega
  cases p with
  | data k =>
    simp only [holds, pointer_cut shorter] at held ⊢
    split at held
    · simp at held
    · exact held
  | indirect =>
    simp only [holds, indirect_cut shorter] at held ⊢
    split at held
    · simp at held
    · exact held

/-- Shrinking inside the range of the indirect block, with a block beyond the new end. Its entry is
freed but stays in the indirect block on disk. -/
def LeavesEntries (v : Inode) (data : Nat → Block) (newSize : Nat) : Prop :=
  newSize < v.size.toNat ∧ 9 ≤ lastBlock newSize ∧
    ∃ k, lastBlock newSize < k ∧ k ≤ lastBlock v.size.toNat ∧ v.pointer data k ≠ 0

theorem mem_freedBy {b : Nat} (freed : b ∈ v.freedBy data newSize) :
    newSize < v.size.toNat ∧
      ((∃ k : Fin 137, v.holds data (.data k) = some b ∧
        (v.Cleared newSize k ∨ 9 ≤ lastBlock newSize ∧ lastBlock newSize < k.val ∧
          k.val ≤ lastBlock v.size.toNat)) ∨
        v.holds data .indirect = some b ∧ lastBlock newSize < 9) := by
  -- Where a freed block was held.
  rw [freedBy] at freed
  split at freed
  next => simp at freed
  next longer =>
    have small := lastBlock_lt newSize
    refine ⟨by omega, ?_⟩
    rcases List.mem_append.mp freed with direct | rest
    · obtain ⟨k, low, high, found⟩ := mem_targets.mp direct
      refine Or.inl ⟨⟨k, by omega⟩, found, Or.inl ?_⟩
      have below : k < 9 := by omega
      simp only [Cleared, below, if_true]
      omega
    · split at rest
      next => simp at rest
      next indirect =>
        split at rest
        next short =>
          rcases List.mem_append.mp rest with entry | last
          · obtain ⟨k, low, high, found⟩ := mem_targets.mp entry
            refine Or.inl ⟨⟨k, by omega⟩, found, Or.inl ?_⟩
            simpa only [Cleared, not_lt.mpr low, if_false] using short
          · rw [List.mem_singleton] at last
            exact Or.inr ⟨target_eq_some.mpr ⟨indirect, last.symm⟩, short⟩
        next long =>
          obtain ⟨k, low, high, found⟩ := mem_targets.mp rest
          have inside : k < 137 := by
            by_contra past
            rw [pointer_past v data (by omega)] at found
            simp at found
          refine Or.inl ⟨⟨k, inside⟩, found, Or.inr ⟨by omega, ?_⟩⟩
          constructor <;> dsimp only <;> omega

theorem freedBy_own {b : Nat} (freed : b ∈ v.freedBy data newSize) : ∃ p, v.holds data p = some b := by
  rcases (mem_freedBy freed).2 with ⟨k, held, _⟩ | ⟨held, _⟩
  · exact ⟨_, held⟩
  · exact ⟨_, held⟩

theorem cut_gone (exclusive : ∀ p q b, v.holds data p = some b → v.holds data q = some b → p = q)
    (clean : ¬v.LeavesEntries data newSize) {p : Place} {b : Nat}
    (held : (v.cut newSize).holds data p = some b) :
    b ∉ v.freedBy data newSize := by
  -- Unless entries are left behind, the truncated inode holds no block that was freed.
  classical
  intro freed
  obtain ⟨shorter, place⟩ := mem_freedBy freed
  have before := holds_of_cut held
  rcases place with ⟨k, held', cleared | ⟨long, low, high⟩⟩ | ⟨held', short⟩
  · obtain rfl := exclusive _ _ b before held'
    simp [holds, pointer_cut shorter, cleared] at held
  · exact clean ⟨shorter, long, k, low, high, (holds_data_some.mp held').1⟩
  · obtain rfl := exclusive _ _ b before held'
    simp [holds, indirect_cut shorter, short] at held

theorem cut_left (left : v.LeavesEntries data newSize) :
    ∃ p b, (v.cut newSize).holds data p = some b ∧ b ∈ v.freedBy data newSize := by
  -- Entries left behind name freed blocks.
  classical
  obtain ⟨shorter, long, k, low, high, filled⟩ := left
  have inside : k < 137 := by
    by_contra past
    exact filled (pointer_past v data (by omega))
  have indirect : v.indirect ≠ 0 := by
    intro hole
    exact filled (pointer_hole _ _ (by omega) hole)
  have found : target (v.pointer data k) = some (v.pointer data k).toNat := target_eq_some.mpr ⟨filled, rfl⟩
  refine ⟨.data ⟨k, inside⟩, (v.pointer data k).toNat, ?_, ?_⟩
  · have kept : ¬v.Cleared newSize k := by
      simp only [Cleared, show ¬k < 9 by omega, if_false]
      omega
    rw [holds, pointer_cut shorter, if_neg kept, found]
  · rw [freedBy, if_neg (by omega)]
    apply List.mem_append_right
    rw [if_neg indirect, if_neg (by omega)]
    exact mem_targets.mpr ⟨k, by omega, by omega, found⟩

end Inode

section

variable {s t : Volume}

theorem sound_cut_iff {owner : Nat → Prop} (ok : s.layout.Ok) (sound : s.Sound owner) {i : Nat}
    (inside : i < s.layout.inodeCount) (owned : owner i) (newSize : Nat) :
    ((s.release ((s.inode i).freedBy s.device.data newSize)).setInode i ((s.inode i).cut newSize)).Sound owner ↔
      ¬(s.inode i).LeavesEntries s.device.data newSize := by
  -- Storing a truncated inode.
  have working := sound.working ok owned
  have own : ∀ b ∈ (s.inode i).freedBy s.device.data newSize, ∃ p, (s.inode i).holds s.device.data p = some b :=
    fun b => Inode.freedBy_own
  have released := Apart.release ok sound owned own
  have total : ∀ b ∈ (s.inode i).freedBy s.device.data newSize, b < s.layout.total := by
    intro b freed
    obtain ⟨p, held⟩ := own b freed
    exact (sound.backed owned held).1.2
  have data : ∀ b, ((s.inode i).cut newSize).holds s.device.data .indirect = some b → s.layout.dataStart ≤ b :=
    fun b held => (sound.backed owned (Inode.holds_of_cut held)).1.1
  have holds := holds_setInode_same (s := s.release ((s.inode i).freedBy s.device.data newSize)) (i := i)
    (w := (s.inode i).cut newSize) (by simpa using ok) (by simpa using inside) (by simpa using data)
  rw [Volume.device_release] at holds
  constructor
  · intro after left
    obtain ⟨p, b, held, freed⟩ := Inode.cut_left left
    have used := (after.backed owned ((congrFun holds p).trans held)).2
    rw [Volume.used_setInode, Volume.used_release ok total] at used
    exact used.2 freed
  · intro clean
    refine Volume.Sound.change sound (released.setInode ok sound inside _) (fun _ _ => id) ?_ ?_ ?_
    · intro _ p b held
      rw [holds] at held
      have before := sound.backed owned (Inode.holds_of_cut held)
      rw [Volume.used_setInode, Volume.used_release ok total]
      exact ⟨before.1, before.2, Inode.cut_gone (fun p q b => working.exclusive) clean held⟩
    · intro _ p q b first second
      rw [holds] at first second
      exact working.exclusive (Inode.holds_of_cut first) (Inode.holds_of_cut second)
    · intro _ p b held
      rw [holds] at held
      exact Or.inl ⟨owned, p, Inode.holds_of_cut held⟩

theorem truncate_ok (ok : s.layout.Ok) {inodeNum : UInt32} {newSize : Nat}
    (placed : s.Occupied inodeNum.toNat → Placed s (s.inode inodeNum.toNat))
    (done : truncate inodeNum newSize s = .ok () t) :
    s.layout.InTable inodeNum.toNat ∧ (s.inode inodeNum.toNat).isFile = true ∧
      t = (s.release ((s.inode inodeNum.toNat).freedBy s.device.data newSize)).setInode inodeNum.toNat
        ((s.inode inodeNum.toNat).cut newSize) := by
  have ends : Ends (truncate inodeNum newSize) s
      (fun _ t => s.layout.InTable inodeNum.toNat ∧ (s.inode inodeNum.toNat).isFile = true ∧
        t = (s.release ((s.inode inodeNum.toNat).freedBy s.device.data newSize)).setInode inodeNum.toNat
          ((s.inode inodeNum.toNat).cut newSize)) (fun _ _ => True) := by
    classical
    rw [truncate, ends_bind, ends_observe, readInode_eq ok]
    by_cases inside : s.layout.InTable inodeNum.toNat
    · rw [if_pos inside]
      dsimp only
      split
      · trivial
      next file =>
        have isFile : (s.inode inodeNum.toNat).isFile = true := by simpa using file
        have occupied : s.Occupied inodeNum.toNat := by
          refine ⟨inside, ?_⟩
          intro free
          simp [Inode.isFile, free] at isFile
        rw [ends_bind]
        refine (ends_truncateInode (placed occupied) newSize).imp ?_ fun _ _ _ => trivial
        rintro w u ⟨rfl, rfl⟩
        rw [ends_writeInode (by simpa using ok) (by simpa using inside)]
        exact ⟨inside, isFile, rfl⟩
    · rw [if_neg inside]
      trivial
  exact ends.of_ok done

end

end PickleOS.NextFs
