import PickleOS.NextFs.Trees

set_option autoImplicit false

namespace PickleOS.NextFs

open Shared Shared.Outcome

/-- First block and length of the superblock, the bitmap, the inode table and the data area. -/
def Layout.regions (l : Layout) : List (Nat × Nat) :=
  [(0, 1), (l.bitmapStart, bitmapBlocks l.total), (l.tableStart, (l.inodeCount + 7) / 8),
    (l.dataStart, l.total - l.dataStart)]

theorem Layout.Ok.ordered {l : Layout} (ok : l.Ok) : l.regions.Pairwise fun a b => a.1 + a.2 ≤ b.1 := by
  have bitmap := ok.bitmap
  have table := ok.table
  have data := ok.data
  simp only [Layout.regions, List.pairwise_cons, List.mem_cons, List.not_mem_nil, or_false,
    forall_eq_or_imp, forall_eq,
    IsEmpty.forall_iff, implies_true, List.Pairwise.nil, and_true, Nat.zero_add]
  omega

namespace Fresh

variable {s : Volume}

theorem formed (fresh : Fresh s) : s.Formed (s.inode 1) :=
  fresh.standing.housed.formed ((fresh.marked 1).mpr rfl) (by rw [fresh.root]; rfl)

theorem working (fresh : Fresh s) : Working s (s.inode 1) :=
  fresh.standing.housed.working ((fresh.marked 1).mpr rfl)

theorem listing (fresh : Fresh s) : s.dirList rootInode = .ok [(dot, rootInode), (dotdot, rootInode)] := by
  -- The two entries, in the order in which `format` wrote them.
  have inside : s.layout.InTable rootInode.toNat := ⟨by decide, fresh.layout.root⟩
  have record := fresh.root
  have direct : (s.inode 1).direct = Function.update (fun _ => 0) 0 s.sb.dataStart := by rw [record]; rfl
  have two : totalEntries (s.inode 1) = 2 := by
    rw [totalEntries, record, show (rootRecord s.sb.dataStart).size = 128 from rfl]
    rfl
  have shown : ∀ {n : Name}, (0 : UInt8) ∉ n → Utf8.valid n = true → n.length < 60 →
      (DirEntry.new rootInode n).isUsed = true ∧ (DirEntry.new rootInode n).nameStr = n :=
    fun plain text short => ⟨rfl, DirEntry.nameStr_new _ short plain text⟩
  have first := shown (show (0 : UInt8) ∉ dot by decide) (by decide) (by decide)
  have second := shown (show (0 : UInt8) ∉ dotdot by decide) (by decide) (by decide)
  have slots : s.slot (s.inode 1) 0 = DirEntry.new rootInode dot ∧
    s.slot (s.inode 1) 1 = DirEntry.new rootInode dotdot :=
    ⟨slot_dots direct fresh.dots (by decide), slot_dots direct fresh.dots (by decide)⟩
  have list := listEntries_eq fresh.working (i := 0) (n := 2) fun j _ below => fresh.formed.inside (by omega)
  rw [Volume.dirList, readInode_ok fresh.layout inside]
  simp only [bind, Except.bind]
  rw [show s.inode rootInode.toNat = s.inode 1 from rfl, fresh.formed.isDir, two, list]
  simp only [List.range'_succ, List.range'_zero, List.filterMap_cons, List.filterMap_nil, Nat.zero_add,
    slots.1, slots.2,
    first.1, first.2, second.1, second.2]
  rfl

end Fresh

end PickleOS.NextFs
