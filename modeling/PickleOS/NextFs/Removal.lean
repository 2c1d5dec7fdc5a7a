import PickleOS.NextFs.Trees

set_option autoImplicit false

namespace PickleOS.NextFs

open Shared Shared.Outcome

/-- The entry `name` of the directory `d` is gone, and with it the inode `c` that it named. -/
structure Detached (live : Nat → Prop) (s t : Volume) (d : UInt32) (name : Name) (c : UInt32) : Prop where
  here : live c.toNat
  entry : ∃ before after, s.dirList d = .ok before ∧ t.dirList d = .ok after ∧ before.Perm ((name, c) :: after)
  blocks : ∀ b, t.used b = true ↔ s.used b = true ∧ ∀ p, (s.inode c.toNat).holds s.device.data p ≠ some b
  inodes : ∀ i, t.marked i = true ↔ i ≠ c.toNat ∧ s.marked i = true
  metadata : ∀ i : UInt32, live i.toNat → i ≠ c → t.readInode i = s.readInode i
  contents : ∀ i : UInt32, live i.toNat → (s.inode i.toNat).isFile = true → i ≠ c →
    ∀ offset len, t.readInodeData i offset len = s.readInodeData i offset len
  directories : ∀ i : UInt32, live i.toNat → i ≠ c → i ≠ d → t.dirList i = s.dirList i

/-- The files are as they were, and the directories list the same entries, in some order. -/
structure Unaltered (live : Nat → Prop) (s t : Volume) : Prop where
  metadata : ∀ i : UInt32, live i.toNat → (s.inode i.toNat).isFile = true → t.readInode i = s.readInode i
  contents : ∀ i : UInt32, live i.toNat → (s.inode i.toNat).isFile = true →
    ∀ offset len, t.readInodeData i offset len = s.readInodeData i offset len
  directories : ∀ i : UInt32, live i.toNat → (s.inode i.toNat).isDir = true →
    ∃ before after, s.dirList i = .ok before ∧ t.dirList i = .ok after ∧ before.Perm after

section

variable {live : Nat → Prop} {s t : Volume} {d : UInt32} {name : Name}

theorem perm_of_numbers {l m : List (Name × UInt32)}
    (same : (l.map fun e => (e.1, e.2.toNat) : Multiset (Name × Nat)) =
      (m.map fun e => (e.1, e.2.toNat) : List _)) :
    l.Perm m := by
  have injective : Function.Injective fun e : Name × UInt32 => (e.1, e.2.toNat) := by
    rintro ⟨n, r⟩ ⟨n', r'⟩ equal
    simp only [Prod.mk.injEq, UInt32.toNat_inj] at equal
    simp [equal]
  exact (List.map_perm_map_iff injective).mp (Multiset.coe_eq_coe.mp same)

theorem Standing.listing (standing : Standing live s) (here : live d.toNat)
    (dir : (s.inode d.toNat).isDir = true) :
    ∃ l, s.dirList d = .ok l ∧ (l.map fun e => (e.1, e.2.toNat) : Multiset (Name × Nat)) = s.entries d.toNat :=
  dirList_contents standing.ok (standing.housed.inside here) (standing.housed.working here)
    (standing.formed here dir)

theorem Standing.perm (before : Standing live s) (after : Standing live t) (here : live d.toNat)
    (dir : (s.inode d.toNat).isDir = true) (dir' : (t.inode d.toNat).isDir = true)
    (entries : t.entries d.toNat = s.entries d.toNat) :
    ∃ l m, s.dirList d = .ok l ∧ t.dirList d = .ok m ∧ l.Perm m := by
  obtain ⟨l, list, numbers⟩ := before.listing here dir
  obtain ⟨m, list', numbers'⟩ := after.listing here dir'
  exact ⟨l, m, list, list', perm_of_numbers (numbers.trans (entries.symm.trans numbers'.symm))⟩

theorem Unaltered.refl (standing : Standing live s) : Unaltered live s s where
  metadata _ _ _ := rfl
  contents _ _ _ _ _ := rfl
  directories _ here dir := standing.perm standing here dir dir rfl

theorem Removed.detached (standing : Standing live s) (here : live d.toNat) {c : Nat}
    (removed : Removed live s t d.toNat name c) (frees : Frees s t c) :
    ∃ r : UInt32, r.toNat = c ∧ Detached live s t d name r := by
  have inside := standing.housed.inside removed.here
  obtain ⟨r, rfl⟩ : ∃ r : UInt32, r.toNat = c :=
    ⟨.ofNat c, UInt32.toNat_ofNat_of_lt' (inside.2.trans s.layout.inodeCount_lt)⟩
  have number : ∀ {i j : UInt32}, i ≠ j → i.toNat ≠ j.toNat := fun other same =>
    other (UInt32.toNat_inj.mp same)
  have dir : (t.inode d.toNat).isDir = true := by
    rw [Inode.isDir, removed.type, ← Inode.isDir]
    exact removed.dir
  obtain ⟨before, list, numbers⟩ := standing.listing here removed.dir
  obtain ⟨after, list', numbers'⟩ := removed.standing.listing ⟨removed.other, here⟩ dir
  refine ⟨r, rfl, removed.here, ⟨before, after, list, list', perm_of_numbers ?_⟩, frees.used,
    removed.marked, ?_, ?_, ?_⟩
  · rw [numbers, removed.entries, ← numbers', Multiset.cons_coe, List.map_cons]
  · intro i there other
    classical
    rw [readInode_eq standing.ok, readInode_eq removed.standing.ok, removed.others.layout]
    split
    next table => rw [frees.records _ table.2 (number other)]
    next => rfl
  · intro i there file other
    have different : i.toNat ≠ d.toNat := by
      intro same
      rw [same] at file
      cases (Standing.not_dir_of_file file).symm.trans removed.dir
    exact removed.others.readInodeData ⟨there, different, number other⟩ (standing.housed.working there)
  · intro i there other different
    exact removed.others.dirList ⟨there, number different, number other⟩ (standing.housed.working there)

theorem Refused.unaltered (standing : Standing live s) (here : live d.toNat) {fail : Fail}
    (refused : Refused live s t d.toNat fail) (same : (s.inode d.toNat).isDir = false → t = s) :
      Unaltered live s t := by
  -- Something that is no directory is refused before anything is written.
  cases dir : (s.inode d.toNat).isDir with
  | false =>
    rw [same dir]
    exact Unaltered.refl standing
  | true =>
    have kept : ∀ i : UInt32, live i.toNat → (s.inode i.toNat).isFile = true → live i.toNat ∧
      i.toNat ≠ d.toNat := by
      refine fun i there file => ⟨there, fun equal => ?_⟩
      rw [equal] at file
      cases (Standing.not_dir_of_file file).symm.trans dir
    refine ⟨fun i there file => refused.others.readInode standing.ok (kept i there file),
      fun i there file => refused.others.readInodeData (kept i there file) (standing.housed.working there), ?_⟩
    intro i there isDir
    by_cases equal : i = d
    · subst equal
      refine standing.perm refused.standing there isDir ?_ (refused.entries isDir)
      rw [Inode.isDir, refused.type, ← Inode.isDir]
      exact isDir
    · have other : live i.toNat ∧ i.toNat ≠ d.toNat := ⟨there, fun number => equal (UInt32.toNat_inj.mp number)⟩
      refine standing.perm refused.standing there isDir ?_
        (refused.others.entries other (standing.formed there isDir))
      rw [refused.others.inode other]
      exact isDir

/-- Removing a name takes away what it names and nothing else, and a refusal leaves everything as it
was. -/
theorem removal_frame (standing : Standing live s)
    (known : s.layout.InTable d.toNat → (s.inode d.toNat).isDir = true → live d.toNat) (now : UInt32)
    (name : Name) :
    Ends (unlink now d name) s
        (fun _ t => ∃ c, (s.inode c.toNat).isFile = true ∧ Detached live s t d name c)
        (fun fail t => fail ≠ .panic ∧ Unaltered live s t) ∧
      Ends (rmdir d name) s
        (fun _ t => ∃ c, (s.inode c.toNat).isDir = true ∧ Detached live s t d name c)
        (fun fail t => fail ≠ .panic ∧ Unaltered live s t) := by
  by_cases here : live d.toNat
  · constructor
    · refine (standing.ends_unlink here now).imp ?_ ?_
      · rintro _ t ⟨c, removed, file, frees⟩
        obtain ⟨r, rfl, detached⟩ := removed.detached standing here frees
        exact ⟨r, file, detached⟩
      · rintro fail t ⟨refused, same⟩
        exact ⟨refused.calm, refused.unaltered standing here same⟩
    · refine (standing.ends_rmdir here).imp ?_ ?_
      · rintro _ t ⟨c, removed, dir, frees⟩
        obtain ⟨r, rfl, detached⟩ := removed.detached standing here frees
        exact ⟨r, dir, detached⟩
      · rintro fail t ⟨refused, same⟩
        exact ⟨refused.calm, refused.unaltered standing here fun _ => same⟩
  · -- No directory has this number: both calls stop when they look it up.
    have none : s.layout.InTable d.toNat → (s.inode d.toNat).isDir = true → False := fun inside dir =>
      here (known inside dir)
    constructor
    · refine (NextFs.ends_unlink standing.ok now d name (fun inside dir => (none inside dir).elim)
        fun _ _ _ inside dir => (none inside dir).elim).imp ?_ ?_
      · rintro _ t ⟨_, _, inside, dir, _⟩
        exact (none inside dir).elim
      · rintro fail t ⟨calm, rfl | ⟨inside, dir, _⟩⟩
        · exact ⟨calm, Unaltered.refl standing⟩
        · exact (none inside dir).elim
    · refine (NextFs.ends_rmdir standing.ok d name (fun inside dir => (none inside dir).elim) (fun r look => ?_)
        fun _ _ _ inside dir => (none inside dir).elim).imp ?_ ?_
      · obtain ⟨inside, dir, _⟩ := dirLookup_ok standing.ok look
        exact (none inside dir).elim
      · rintro _ t ⟨_, _, inside, dir, _⟩
        exact (none inside dir).elim
      · rintro fail t ⟨calm, rfl⟩
        exact ⟨calm, Unaltered.refl standing⟩

end

/-- The file `a` and the directory `b` are removed, each by the call for it. -/
theorem removal_frame_used :
    ∃ t u c e, unlink 0 rootInode [0x61] usedVolume = .ok () t ∧
    Detached usedVolume.InUse usedVolume t rootInode [0x61] c ∧
      rmdir rootInode [0x62] usedVolume = .ok () u ∧ Detached usedVolume.InUse usedVolume u rootInode
        [0x62] e := by
  have frame := fun name => removal_frame usedVolume_standing (d := rootInode)
    (fun _ _ => usedVolume_standing.root) 0 name
  have success : succeeds (unlink 0 rootInode [0x61]) usedVolume = true ∧
      succeeds (rmdir rootInode [0x62]) usedVolume = true := by decide +kernel
  obtain ⟨c, _, file⟩ := (frame [0x61]).1.of_ok (ok_of_succeeds success.1)
  obtain ⟨e, _, folder⟩ := (frame [0x62]).2.of_ok (ok_of_succeeds success.2)
  exact ⟨_, _, c, e, ok_of_succeeds success.1, file, ok_of_succeeds success.2, folder⟩

end PickleOS.NextFs
