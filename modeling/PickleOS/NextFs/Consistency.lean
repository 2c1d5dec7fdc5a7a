import PickleOS.NextFs.Freeing

set_option autoImplicit false

namespace PickleOS.NextFs

open Shared Shared.Outcome

namespace Volume

/-- Every block held by an inode of `owner` is a data block marked used, and is held once. -/
def Sound (owner : Nat → Prop) (s : Volume) : Prop :=
  Ledger.Sound owner (fun i => (s.inode i).holds s.device.data) fun b => s.layout.InData b ∧ s.used b = true

/-- Every data block marked used is held by an inode of `owner`. -/
def Covered (owner : Nat → Prop) (s : Volume) : Prop :=
  Ledger.Covered owner (fun i => (s.inode i).holds s.device.data) fun b => s.layout.InData b ∧ s.used b = true

def Occupied (s : Volume) (i : Nat) : Prop := s.layout.InTable i ∧ (s.inode i).inodeType ≠ 0

/-- Nothing dangles and nothing is shared. -/
structure Consistent (s : Volume) : Prop where
  layout : s.layout.Ok
  sound : s.Sound s.Occupied

end Volume

theorem Inode.holds_of_pointers {v w : Inode} (direct : w.direct = v.direct)
    (indirect : w.indirect = v.indirect)
    (data : Nat → Block) : w.holds data = v.holds data := by
  have pointer : ∀ k, w.pointer data k = v.pointer data k := by
    intro k
    simp only [Inode.pointer, direct, indirect]
  funext p
  cases p with
  | data k => simp only [Inode.holds, pointer]
  | indirect => simp only [Inode.holds, indirect]

theorem Inode.holds_of_empty {v : Inode} (direct : ∀ k, v.direct k = 0) (indirect : v.indirect = 0)
    (data : Nat → Block) (p : Place) : v.holds data p = none := by
  cases p with
  | indirect => exact target_eq_none.mpr indirect
  | data k =>
    rw [Inode.holds_data_none]
    by_cases low : k.val < 9
    · rw [Inode.pointer_direct _ _ low, direct]
    · rw [Inode.pointer_hole _ _ low indirect]

section

variable {s t : Volume} {v w : Inode} {owner owner' : Nat → Prop} {i : Nat} {touched : Nat → Prop}

theorem Volume.Sound.working (ok : s.layout.Ok) (sound : s.Sound owner) (owned : owner i) :
    Working s (s.inode i) where
  layout := ok
  backed held := sound.backed owned held
  exclusive first second := (sound.exclusive owned owned first second).2

theorem holds_unchanged {j : Nat} (record : t.inode j = s.inode j)
    (data : ∀ b, (s.inode j).holds s.device.data .indirect = some b → t.device.data b = s.device.data b) :
    (t.inode j).holds t.device.data = (s.inode j).holds s.device.data := by
  -- Holds of an inode on a volume whose table and whose blocks of that inode are untouched.
  rw [record]
  exact Inode.holds_congr _ data

theorem holds_setInode_same (ok : s.layout.Ok) (inside : i < s.layout.inodeCount)
    (data : ∀ b, w.holds s.device.data .indirect = some b → s.layout.dataStart ≤ b) :
    ((s.setInode i w).inode i).holds (s.setInode i w).device.data = w.holds s.device.data := by
  rw [Volume.inode_setInode, if_pos rfl]
  apply Inode.holds_congr
  intro b held
  exact Volume.data_setInode ok (data b held) inside w

theorem holds_setInode_other (ok : s.layout.Ok) (inside : i < s.layout.inodeCount) {j : Nat} (different : j ≠ i)
    (data : ∀ b, (s.inode j).holds s.device.data .indirect = some b → s.layout.dataStart ≤ b) :
    ((s.setInode i w).inode j).holds (s.setInode i w).device.data = (s.inode j).holds s.device.data := by
  apply holds_unchanged
  · rw [Volume.inode_setInode, if_neg different]
  · intro b held
    exact Volume.data_setInode ok (data b held) inside w

/-- What a change of the volume has to leave alone for the inodes other than `i`. -/
structure Apart (owner : Nat → Prop) (i : Nat) (s t : Volume) : Prop where
  layout : t.layout = s.layout
  inode : ∀ j, j ≠ i → owner j → t.inode j = s.inode j
  data : ∀ j p b, j ≠ i → owner j → (s.inode j).holds s.device.data p = some b →
    t.device.data b = s.device.data b
  used : ∀ j p b, j ≠ i → owner j → (s.inode j).holds s.device.data p = some b → t.used b = true

theorem Apart.holds (apart : Apart owner i s t) {j : Nat} (different : j ≠ i) (owned : owner j) :
    (t.inode j).holds t.device.data = (s.inode j).holds s.device.data :=
  holds_unchanged (apart.inode j different owned) fun b => apart.data j .indirect b different owned

theorem Apart.release (ok : s.layout.Ok) (sound : s.Sound owner) (owned : owner i) {bs : List Nat}
    (own : ∀ b ∈ bs, ∃ p, (s.inode i).holds s.device.data p = some b) : Apart owner i s (s.release bs) where
  layout := Volume.layout_release s bs
  inode _ _ _ := by rw [Volume.inode_release]
  data _ _ _ _ _ _ := by rw [Volume.device_release]
  used j p b different other held := by
    have total : ∀ c ∈ bs, c < s.layout.total := by
      intro c member
      obtain ⟨q, held'⟩ := own c member
      exact (sound.backed owned held').1.2
    rw [Volume.used_release ok total]
    refine ⟨(sound.backed other held).2, ?_⟩
    intro member
    obtain ⟨q, held'⟩ := own b member
    exact different (sound.exclusive other owned held held').1

theorem Apart.grown (ok : s.layout.Ok) (table : ∀ j, owner j → s.layout.InTable j) (sound : s.Sound owner)
    (owned : owner i) (grown : Grown touched s (s.inode i) t w) : Apart owner i s t where
  layout := grown.layout
  inode j _ other := grown.inode ok (table j other).2
  data j p b different other held := by
    apply grown.frame b (sound.backed other held).2
    · intro held'
      exact different (sound.exclusive other owned held held').1
    · intro k held'
      exact (different (sound.exclusive other owned held held').1).elim
  used j p b _ other held := grown.mono b (sound.backed other held).2

theorem Apart.setInode (ok : s.layout.Ok) (sound : s.Sound owner) (inside : i < s.layout.inodeCount)
    (apart : Apart owner i s t) (w : Inode) : Apart owner i s (t.setInode i w) where
  layout := apart.layout
  inode j different owned := by
    rw [Volume.inode_setInode, if_neg different, apart.inode j different owned]
  data j p b different owned held := by
    have data := (sound.backed owned held).1.1
    rw [Volume.data_setInode (apart.layout ▸ ok) (apart.layout ▸ data) (apart.layout ▸ inside),
      apart.data j p b different owned held]
  used := apart.used

theorem Volume.Sound.change (sound : s.Sound owner) (apart : Apart owner i s t)
    (owners : ∀ j, j ≠ i → owner' j → owner j)
    (backed : owner' i → ∀ p b, (t.inode i).holds t.device.data p = some b → s.layout.InData b ∧
      t.used b = true)
    (distinct : owner' i → ∀ p q b, (t.inode i).holds t.device.data p = some b →
      (t.inode i).holds t.device.data q = some b → p = q)
    (origin : owner' i → ∀ p b, (t.inode i).holds t.device.data p = some b →
      (owner i ∧ ∃ q, (s.inode i).holds s.device.data q = some b) ∨ s.used b = false) : t.Sound owner' := by
  -- A change of one inode keeps the volume sound, if what it holds now is its own or was unused.
  refine Ledger.Sound.replace (i := i) sound owners
    (fun j different owned => apart.holds different (owners j different owned)) ?_ ?_ distinct ?_
  · intro j p b different owned held
    rw [apart.layout]
    exact ⟨(sound.backed (owners j different owned) held).1,
      apart.used j p b different (owners j different owned) held⟩
  · intro owned p b held
    rw [apart.layout]
    exact backed owned p b held
  · intro owned p b held
    rcases origin owned p b held with own | unused
    · exact Or.inl own
    · exact Or.inr fun used => by simp [unused] at used

theorem Volume.Covered.change (covered : s.Covered owner) (apart : Apart owner i s t)
    (owners : ∀ j, j ≠ i → (owner j ↔ owner' j))
    (cover : ∀ b, s.layout.InData b → t.used b = true →
      (s.used b = true ∧ (owner i → ∀ p, (s.inode i).holds s.device.data p ≠ some b)) ∨
        ∃ p, owner' i ∧ (t.inode i).holds t.device.data p = some b) : t.Covered owner' := by
  refine Ledger.Covered.replace (i := i) covered (fun j different => (owners j different).mp)
    (fun j different owned => apart.holds different ((owners j different).mpr owned)) ?_
  rintro b ⟨data, used⟩
  rw [apart.layout] at data
  rcases cover b data used with ⟨before, free⟩ | held
  · exact Or.inl ⟨⟨data, before⟩, fun p owned => free owned p⟩
  · exact Or.inr held

end

end PickleOS.NextFs
