import PickleOS.NextFs.Folders

set_option autoImplicit false

namespace PickleOS.NextFs

open Shared Shared.Outcome

namespace Volume

/-- The inodes whose blocks are their own: the live ones, and every file on disk. -/
def owners (live : Nat → Prop) (s : Volume) (i : Nat) : Prop :=
  live i ∨ s.layout.InTable i ∧ (s.inode i).isFile = true

/-- The entries of inode `i` as a directory. -/
def entries (s : Volume) (i : Nat) : Multiset (Name × Nat) := s.contents (s.inode i)

end Volume

/-- The live inodes are in order: marked, files or directories, and the directories well formed. -/
structure Housed (live : Nat → Prop) (s : Volume) : Prop where
  owned : s.Owned (s.owners live)
  marked : ∀ {i}, live i → s.marked i = true
  kinds : ∀ {i}, live i → (s.inode i).isFile = true ∨ (s.inode i).isDir = true
  formed : ∀ {i}, live i → (s.inode i).isDir = true → s.Formed (s.inode i)

/-- A name that is stored as it is: UTF-8 without NUL. -/
def Storable (name : Name) : Prop := (0 : UInt8) ∉ name ∧ Utf8.valid name = true

theorem Volume.owners_congr {live : Nat → Prop} {s t : Volume} (layout : t.layout = s.layout)
    (types : ∀ i, s.layout.InTable i → (t.inode i).inodeType = (s.inode i).inodeType) :
    t.owners live = s.owners live := by
  funext i
  simp only [Volume.owners, layout, Inode.isFile]
  exact propext (or_congr_right (and_congr_right fun inside => by rw [types i inside]))

/-- A change of the entries of the directory `d` alone. -/
structure Becomes (live : Nat → Prop) (s t : Volume) (d : Nat) (listed : Multiset (Name × Nat)) : Prop where
  housed : Housed live t
  layout : t.layout = s.layout
  marks : t.inodeBitmap = s.inodeBitmap
  types : ∀ i, s.layout.InTable i → (t.inode i).inodeType = (s.inode i).inodeType
  entries : t.entries d = listed
  others : ∀ i, live i → (s.inode i).isDir = true → i ≠ d → t.entries i = s.entries i

namespace Housed

variable {live : Nat → Prop} {s t u : Volume} {d : Nat}

theorem ok (housed : Housed live s) : s.layout.Ok := housed.owned.layout

theorem owner (here : live d) : s.owners live d := Or.inl here

theorem inside (housed : Housed live s) (here : live d) : s.layout.InTable d := housed.owned.table (owner here)

theorem working (housed : Housed live s) (here : live d) : Working s (s.inode d) :=
  housed.owned.working (owner here)

theorem agree_of_apart (apart : Apart (s.owners live) d s t) {i : Nat} (there : live i) (different : i ≠ d) :
    Agree s t (s.inode i) := by
  -- Another inode of the owners reads the same after a change of one.
  refine ⟨?_, fun p b held => apart.data i p b different (owner there) held⟩
  change t.layout.blockCount = s.layout.blockCount
  rw [apart.layout]

theorem entries_of_apart (housed : Housed live s) (apart : Apart (s.owners live) d s t)
    {i : Nat} (there : live i)
    (dir : (s.inode i).isDir = true) (different : i ≠ d) : t.entries i = s.entries i := by
  rw [Volume.entries, apart.inode i different (owner there),
    (agree_of_apart apart there different).contents (housed.formed there dir), Volume.entries]

theorem change (housed : Housed live s) (apart : Apart (s.owners live) d s t) (owned : t.Owned (t.owners live))
    (marks : ∀ {i}, live i → t.marked i = true)
    (kind : live d → (t.inode d).isFile = true ∨ (t.inode d).isDir = true)
    (formed : live d → (t.inode d).isDir = true → t.Formed (t.inode d)) : Housed live t := by
  -- The live inodes stay in order if one of them changes and is still in order.
  refine ⟨owned, marks, ?_, ?_⟩
  · intro i there
    by_cases same : i = d
    · exact same ▸ kind (same ▸ there)
    · rw [apart.inode i same (owner there)]
      exact housed.kinds there
  · intro i there dir
    by_cases same : i = d
    · subst same
      exact formed there dir
    · rw [apart.inode i same (owner there)] at dir ⊢
      exact (agree_of_apart apart there same).formed (housed.formed there dir)

section Directory

variable (housed : Housed live s) (here : live d)

include housed here

theorem becomes {x : Inode} (apart : Apart (s.owners live) d s t) (owned : t.Owned (t.owners live))
    (layout : t.layout = s.layout) (marks : t.inodeBitmap = s.inodeBitmap)
    (types : ∀ i, s.layout.InTable i → (t.inode i).inodeType = (s.inode i).inodeType) (record : t.inode d = x)
    (formed : x.isDir = true → t.Formed x) : Becomes live s t d (t.contents x) := by
  refine ⟨housed.change apart owned ?_ ?_ ?_, layout, marks, types, ?_, ?_⟩
  · intro i there
    rw [Volume.marked, marks]
    exact housed.marked there
  · intro _
    rw [Inode.isFile, Inode.isDir, types d (housed.inside here), ← Inode.isFile, ← Inode.isDir]
    exact housed.kinds here
  · intro _ dir
    rw [record] at dir ⊢
    exact formed dir
  · rw [Volume.entries, record]
  · intro i there dir different
    exact housed.entries_of_apart apart there dir different

theorem grown {touched : Nat → Prop} {w : Inode} (grown : Grown touched s (s.inode d) t w)
    (formed : (s.inode d).isDir = true → t.Formed (s.inode d)) :
      Becomes live s t d (t.contents (s.inode d)) := by
  -- The blocks of a live inode are written, and its record stays as it is.
  have apart := housed.owned.apart (owner here) grown
  have records : ∀ i, s.layout.InTable i → t.inode i = s.inode i := fun i inside =>
    grown.inode housed.ok inside.2
  have types : ∀ i, s.layout.InTable i → (t.inode i).inodeType = (s.inode i).inodeType := fun i inside => by
    rw [records i inside]
  have record := records d (housed.inside here)
  have owned := housed.owned.grown (owner here) grown
  rw [← Volume.owners_congr grown.layout types] at owned
  exact housed.becomes here apart owned grown.layout grown.inodes types record formed

theorem stored {touched : Nat → Prop} {w x : Inode} (grown : Grown touched s (s.inode d) u w)
    (direct : x.direct = w.direct) (indirect : x.indirect = w.indirect)
    (type : x.inodeType = (s.inode d).inodeType)
    (formed : x.isDir = true → (u.setInode d x).Formed x) :
    Becomes live s (u.setInode d x) d ((u.setInode d x).contents x) := by
  -- A live inode has grown and is written back.
  have apart := apart_store housed.owned (owner here) grown x
  have layout : (u.setInode d x).layout = s.layout := grown.layout
  have record : (u.setInode d x).inode d = x := by rw [Volume.inode_setInode, if_pos rfl]
  have types : ∀ i, s.layout.InTable i → ((u.setInode d x).inode i).inodeType = (s.inode i).inodeType := by
    intro i inside
    rw [Volume.inode_setInode]
    split
    next same => rw [type, same]
    next => rw [grown.inode housed.ok inside.2]
  have owned := owned_store housed.owned (owner here) grown direct indirect
  rw [← Volume.owners_congr layout types] at owned
  exact housed.becomes here apart owned layout grown.inodes types record formed

variable (dir : (s.inode d).isDir = true)

include dir

theorem patched {j : Nat} (below : j < totalEntries (s.inode d)) (e : DirEntry) :
    Becomes live s (s.patch (s.inode d) j e) d ((s.patch (s.inode d) j e).contents (s.inode d)) := by
  have formed := housed.formed here dir
  have working := housed.working here
  obtain ⟨low, filled⟩ := formed.inside below
  refine housed.grown here (Grown.write working (slotBlock_held low filled) _) fun _ => ?_
  exact formed_patch working formed below e

theorem filled {j : Nat} (below : j < totalEntries (s.inode d)) (unused : (s.slot (s.inode d) j).isUsed = false)
    {name : Name} (storable : Storable name) (short : name.length < 60) {r : UInt32} (target : r ≠ 0) :
    Becomes live s (s.patch (s.inode d) j (DirEntry.new r name)) d ((name, r.toNat) ::ₘ s.entries d) := by
  -- An entry is put into an unused slot.
  have used : (DirEntry.new r name).isUsed = true := by simpa [DirEntry.isUsed, DirEntry.new] using target
  have becomes := housed.patched here dir below (DirEntry.new r name)
  rw [contents_patch_fill (housed.working here) (housed.formed here dir) below _ unused used,
    DirEntry.nameStr_new r short storable.1 storable.2] at becomes
  exact becomes

theorem cleared {j : Nat} (below : j < totalEntries (s.inode d)) (used : (s.slot (s.inode d) j).isUsed = true) :
    ∃ rest, s.entries d = ((s.slot (s.inode d) j).nameStr, (s.slot (s.inode d) j).inode.toNat) ::ₘ rest ∧
      Becomes live s (s.patch (s.inode d) j (DirEntry.new 0 [])) d rest := by
  -- A used entry is taken out.
  have removed := contents_patch_clear (housed.working here) (housed.formed here dir)
    below (DirEntry.new 0 []) used
    (by decide)
  exact ⟨_, removed, housed.patched here dir below _⟩

theorem appended {name : Name} (storable : Storable name) (short : name.length < 60)
    {r : UInt32} (target : r ≠ 0)
    {w x : Inode}
    (wrote : Wrote ((s.inode d).size.toNat / 512) ((s.inode d).size.toNat % 512) (DirEntry.new r name).toBytes s
      (s.inode d) u w) (direct : x.direct = w.direct) (indirect : x.indirect = w.indirect)
    (type : x.inodeType = (s.inode d).inodeType) (size : x.size.toNat = (s.inode d).size.toNat + 128) :
    Becomes live s (u.setInode d x) d ((name, r.toNat) ::ₘ s.entries d) := by
  -- An entry is appended.
  have formed := housed.formed here dir
  have working := housed.working here
  have used : (DirEntry.new r name).isUsed = true := by simpa [DirEntry.isUsed, DirEntry.new] using target
  have isDir : x.isDir = true := by rw [Inode.isDir, type]; exact dir
  have formed' := formed_append working formed wrote direct indirect size isDir
  have agree : Agree u (u.setInode d x) x := by
    refine ⟨rfl, fun p b held => ?_⟩
    rw [Inode.holds_of_pointers direct indirect] at held
    have working' := wrote.grown.working working
    exact Volume.data_setInode working'.layout (working'.backed held).1.1
      (by rw [wrote.grown.layout]; exact (housed.inside here).2) x
  have becomes := housed.stored here wrote.grown direct indirect type fun _ => agree.formed formed'
  rw [agree.contents formed', contents_append working formed wrote direct indirect size used,
    DirEntry.nameStr_new r short storable.1 storable.2] at becomes
  exact becomes

theorem stuck {fail : Fail} {k : Nat} (stuck : StuckAt k s (s.inode d) fail t) :
    Becomes live s t d (s.entries d) := by
  -- Growing the directory failed.
  obtain ⟨⟨_, w, grown, _⟩, _, data⟩ := stuck
  have agree : Agree s t (s.inode d) := by
    refine ⟨?_, data⟩
    change t.layout.blockCount = s.layout.blockCount
    rw [grown.layout]
  have becomes := housed.grown here grown fun _ => agree.formed (housed.formed here dir)
  rwa [agree.contents (housed.formed here dir)] at becomes

omit dir here in
theorem same (d : Nat) : Becomes live s s d (s.entries d) :=
  ⟨housed, rfl, rfl, fun _ _ => rfl, rfl, fun _ _ _ _ => rfl⟩

omit housed here dir in
theorem size_appended {v w : Inode} {now : UInt32}
    (rest : w = { v with direct := w.direct, indirect := w.indirect })
    (large : v.size.toNat ≤ 137 * 512) :
    ((w.extended now (v.size.toNat + 64) 64).size + 64).toNat = v.size.toNat + 128 := by
  have same : w.size = v.size := by rw [rest]
  have stop : (v.size.toNat + 64) % 2 ^ 64 = v.size.toNat + 64 := Nat.mod_eq_of_lt (by omega)
  simp only [Inode.extended, same, stop, if_pos (show v.size.toNat + 64 > v.size.toNat by omega)]
  rw [UInt64.toNat_add, UInt64.toNat_ofNat_of_lt' (show v.size.toNat + 64 < 2 ^ 64 by omega)]
  change (v.size.toNat + 64 + 64) % 2 ^ 64 = _
  omega

omit here dir in
theorem ends_dirAddEntry {dirInode : UInt32} (here : live dirInode.toNat)
    (dir : (s.inode dirInode.toNat).isDir = true) {name : Name} (storable : Storable name) {r : UInt32}
    (target : r ≠ 0)
    (now : UInt32) :
    Ends (dirAddEntry now dirInode name r) s
      (fun _ t => name.length < 60 ∧ (∀ c, (name, c) ∉ s.entries dirInode.toNat) ∧
        Becomes live s t dirInode.toNat ((name, r.toNat) ::ₘ s.entries dirInode.toNat))
      (fun fail t => fail ≠ .panic ∧ (60 ≤ name.length ∨ (∃ c, (name, c) ∈ s.entries dirInode.toNat) ∨
          fail = .fs .noSpace ∧ ∀ j, j < totalEntries (s.inode dirInode.toNat) →
            (s.slot (s.inode dirInode.toNat) j).isUsed = true) ∧
        Becomes live s t dirInode.toNat (s.entries dirInode.toNat)) := by
  -- Adding an entry to a directory. It fails without a change of any directory.
  have formed := housed.formed here dir
  have working := housed.working here
  have large := formed.large
  have aligned := formed.aligned
  have index : (s.inode dirInode.toNat).size.toNat / 512 % 2 ^ 32 = (s.inode dirInode.toNat).size.toNat / 512 :=
    Nat.mod_eq_of_lt (by omega)
  have within := @ends_writeWithin _ _ working now (s.inode dirInode.toNat).size.toNat
    (DirEntry.new r name).toBytes dir
    (by intro empty; have := (DirEntry.new r name).toBytes_length; simp [empty] at this)
    (by rw [DirEntry.toBytes_length]; omega)
  rw [index, DirEntry.toBytes_length] at within
  have lookup := dirLookup_formed housed.ok (housed.inside here) working formed name
  have present : ¬s.Admits dirInode name → 60 ≤ name.length ∨ ∃ c, (name, c) ∈ s.entries dirInode.toNat := by
    intro refused
    by_contra neither
    rw [not_or, not_le, not_exists] at neither
    refine refused ⟨neither.1, housed.inside here, dir, ?_⟩
    rcases lookup with ⟨c, _, member⟩ | ⟨missing, _⟩
    · exact (neither.2 _ member).elim
    · rw [missing]
      rfl
  refine (NextFs.ends_dirAddEntry housed.ok now dirInode name r fun _ _ => working).imp ?_ ?_
  · rintro _ t ⟨admits, outcome⟩
    have absent : ∀ c, (name, c) ∉ s.entries dirInode.toNat := by
      rcases lookup with ⟨c, found, _⟩ | ⟨_, absent⟩
      · have refused := admits.absent
        rw [found] at refused
        cases refused
      · exact absent
    refine ⟨admits.short, absent, ?_⟩
    rcases outcome with ⟨b, slot, buf, found, rfl⟩ | ⟨_, x, u, grew, rfl⟩
    · obtain ⟨j, below, unused, rfl, rfl, rfl⟩ := unusedEntry_slot working formed found
      exact housed.filled here dir below unused storable admits.short target
    · obtain ⟨w, wrote, pair⟩ := within.of_ok grew
      cases pair
      refine housed.appended here dir storable admits.short target wrote rfl rfl ?_
        (size_appended wrote.grown.rest large)
      simp only [Inode.extended]
      rw [wrote.grown.rest]
  · rintro fail t ⟨calm, ⟨refused | ⟨reason, scan⟩, rfl⟩ | ⟨appends, grew⟩⟩
    · exact ⟨calm, (present refused).imp_right Or.inl, housed.same _⟩
    · rw [unusedEntry_eq working formed] at scan
      cases scan
    · have stuck := within.of_error grew
      exact ⟨calm, Or.inr (Or.inr ⟨stuck.stuck.1, fun j => unusedEntry_none working formed appends.2⟩),
        housed.stuck here dir stuck⟩

end Directory

end Housed

end PickleOS.NextFs
