import PickleOS.NextFs.Altering

set_option autoImplicit false

namespace PickleOS.NextFs

open Shared Shared.Outcome

/-- The directories of `s` are in `t`, with all their entries. -/
structure Widens (live live' : Nat → Prop) (s t : Volume) : Prop where
  standing : Standing live' t
  more : ∀ {i}, live i → live' i
  types : ∀ {i}, live i → (t.inode i).inodeType = (s.inode i).inodeType
  entries : ∀ {i}, live i → (s.inode i).isDir = true → s.entries i ≤ t.entries i

/-- The directory `d` has the new entry `name` for the new inode `c`, which may have got an owner
since. -/
structure Enlisted (live : Nat → Prop) (s t : Volume) (d : UInt32) (name : Name) (c : UInt32) : Prop where
  wider : Widens live (fun i => i = c.toNat ∨ live i) s t
  dir : (s.inode d.toNat).isDir = true
  fresh : ¬live c.toNat
  unmarked : s.marked c.toNat = false
  entries : t.entries d.toNat = (name, c.toNat) ::ₘ s.entries d.toNat
  permission : ∀ uid gid want, t.checkPermission d uid gid want = s.checkPermission d uid gid want

section

variable {live live' : Nat → Prop} {s t u : Volume} {d c r : UInt32} {name n : Name}

theorem Standing.lookup_iff (standing : Standing live s) (here : live d.toNat)
    (dir : (s.inode d.toNat).isDir = true) :
    s.dirLookup d n = .ok r ↔ (n, r.toNat) ∈ s.entries d.toNat := by
  rcases dirLookup_formed standing.ok (standing.housed.inside here) (standing.housed.working here)
    (standing.formed here dir) n with ⟨i, found, member⟩ | ⟨missing, absent⟩
  · rw [found, Except.ok.injEq]
    constructor
    · rintro rfl
      exact member
    · exact fun other => UInt32.toNat_inj.mp (standing.tree.same_target (Standing.folder here dir) member other)
  · rw [missing]
    exact iff_of_false (by simp) (absent r.toNat)

theorem Widens.lookup (wider : Widens live live' s t) (standing : Standing live s) (here : live d.toNat)
    (found : s.dirLookup d n = .ok r) : t.dirLookup d n = .ok r := by
  have dir := (dirLookup_ok standing.ok found).2.1
  have dir' : (t.inode d.toNat).isDir = true := by
    rw [Inode.isDir, wider.types here, ← Inode.isDir]
    exact dir
  rw [standing.lookup_iff here dir] at found
  exact (wider.standing.lookup_iff (wider.more here) dir').mpr
    (Multiset.mem_of_le (wider.entries here dir) found)

theorem Standing.named (standing : Standing live s) (here : live d.toNat) (dir : (s.inode d.toNat).isDir = true)
    (member : (n, r.toNat) ∈ s.entries d.toNat) :
    ∃ b slot, b < s.device.blockCount ∧ s.namedEntry (s.inode d.toNat)
      n = .ok (some (b, slot, s.device.data b, r)) := by
  have working := standing.housed.working here
  obtain ⟨_, _, b, slot, buf, found⟩ := dirLookup_ok standing.ok ((standing.lookup_iff here dir).mpr member)
  obtain ⟨k, held, _, rfl, _⟩ := namedEntry_some working found
  exact ⟨b, slot, standing.ok.inData_device (working.backed held).1, found⟩

theorem ends_dirRemoveEntry_named (ok : s.layout.Ok) (inside : s.layout.InTable d.toNat)
    (dir : (s.inode d.toNat).isDir = true) {b slot : Nat} (device : b < s.device.blockCount)
    (found : s.namedEntry (s.inode d.toNat) n = .ok (some (b, slot, s.device.data b, r)))
    (returns : UInt32 → Volume → Prop) (fails : Fail → Volume → Prop) :
    Ends (dirRemoveEntry d n) s returns fails ↔ returns r (s.blank b slot) := by
  rw [dirRemoveEntry, ends_bind, ends_observe, readInode_ok ok inside]
  dsimp only
  rw [dir, Bool.not_true, if_neg (by simp), ends_bind, ends_observe, ← Volume.namedEntry, found]
  dsimp only
  rw [ends_bind, ends_writeBlock device, ends_pure]
  rfl

theorem Standing.unlink_named (standing : Standing live s) (here : live d.toNat)
    (dir : (s.inode d.toNat).isDir = true)
    (proper : Tree.Proper dot dotdot n) (member : (n, r.toNat) ∈ s.entries d.toNat)
    (file : (s.inode r.toNat).isFile = true) (now : UInt32) : ∃ t, unlink now d n s = .ok () t := by
  have ok := standing.ok
  obtain ⟨b, slot, device, found⟩ := standing.named here dir member
  have blanked := standing.blank here dir found
  have ok' : (s.blank b slot).layout.Ok := blanked.housed.ok
  have inside : (s.blank b slot).layout.InTable r.toNat := blanked.housed.inside blanked.child
  have record := blanked.records _ (standing.housed.inside blanked.child).2
  have ends : Ends (unlink now d n) s (fun _ _ => True) fun _ _ => False := by
    rw [unlink, if_neg (not_or_intro proper.1 proper.2), ends_bind,
      ends_dirRemoveEntry_named ok (standing.housed.inside here) dir device found, ends_bind, ends_observe,
      readInode_ok ok' inside]
    dsimp only
    rw [record, file, Bool.not_true, if_neg (by simp), ← record,
      ends_erase ok' inside (blanked.housed.working blanked.child)]
    trivial
  obtain ⟨_, t, done, _⟩ := ends.ok_of_never
  exact ⟨t, done⟩

theorem Standing.rmdir_named (standing : Standing live s) (here : live d.toNat)
    (dir : (s.inode d.toNat).isDir = true)
    (proper : Tree.Proper dot dotdot n) (member : (n, r.toNat) ∈ s.entries d.toNat)
    (isDir : (s.inode r.toNat).isDir = true) (few : (s.entries r.toNat).card ≤ 2) :
      ∃ t, rmdir d n s = .ok () t := by
  have ok := standing.ok
  obtain ⟨b, slot, device, found⟩ := standing.named here dir member
  have blanked := standing.blank here dir found
  have ok' : (s.blank b slot).layout.Ok := blanked.housed.ok
  have inside := standing.housed.inside blanked.child
  have record := blanked.records _ inside.2
  obtain ⟨l, list, numbers⟩ := dirList_contents ok inside (standing.housed.working blanked.child)
    (standing.formed blanked.child isDir)
  have short : l.length ≤ 2 := by
    rw [Volume.entries, ← numbers, Multiset.coe_card, List.length_map] at few
    exact few
  have ends : Ends (rmdir d n) s (fun _ _ => True) fun _ _ => False := by
    rw [rmdir, if_neg (not_or_intro proper.1 proper.2), ends_bind, ends_observe,
      (standing.lookup_iff here dir).mpr member]
    dsimp only
    rw [ends_bind, ends_observe, readInode_ok ok inside]
    dsimp only
    rw [isDir, Bool.not_true, if_neg (by simp), ends_bind, ends_observe, list]
    dsimp only
    rw [if_neg (by omega), ends_bind, ends_dirRemoveEntry_named ok (standing.housed.inside here)
      dir device found, ← record,
      ends_erase ok' (show (s.blank b slot).layout.InTable r.toNat from inside)
        (blanked.housed.working blanked.child)]
    trivial
  obtain ⟨_, t, done, _⟩ := ends.ok_of_never
  exact ⟨t, done⟩

/-! ### Creation -/

theorem Created.proper (standing : Standing live s) (here : live d.toNat) {c : Nat}
    (created : Created live s t d.toNat n c) : Tree.Proper dot dotdot n := by
  -- `.` and `..` name other inodes already.
  have folder : (s.shape live).Folder d.toNat := ⟨here, created.dir⟩
  have folder' : (t.shape fun i => i = c ∨ live i).Folder d.toNat := by
    refine ⟨Or.inr here, ?_⟩
    change (t.inode d.toNat).isDir = true
    rw [Inode.isDir, created.type, ← Inode.isDir]
    exact created.dir
  have new : ∀ {m x}, (m, x) ∈ s.entries d.toNat → m ≠ n := by
    rintro m x member rfl
    have old : (m, x) ∈ t.entries d.toNat := created.entries ▸ Multiset.mem_cons_of_mem member
    have added : (m, c) ∈ t.entries d.toNat := created.entries ▸ Multiset.mem_cons_self _ _
    have same : x = c := created.standing.tree.same_target folder' old added
    exact created.fresh (same ▸ standing.child here created.dir member)
  obtain ⟨p, parent, _⟩ := standing.tree.parent folder
  exact ⟨(new (standing.tree.self folder)).symm, (new parent).symm⟩

theorem Created.enlisted (standing : Standing live s) (here : live d.toNat)
    (created : Created live s u d.toNat n c.toNat) (made : Made s u d.toNat c.toNat)
    (altered : Altered (fun i => i = c.toNat ∨ live i) u t c.toNat) : Enlisted live s t d n c := by
  have different : d.toNat ≠ c.toNat := fun same => created.fresh (same ▸ here)
  have old : ∀ {i}, live i → u.layout.InTable i := fun there => created.standing.housed.inside (Or.inr there)
  have types : ∀ {i}, live i → (t.inode i).inodeType = (s.inode i).inodeType := by
    intro i there
    rw [altered.types i (old there)]
    by_cases same : i = d.toNat
    · rw [same, created.type]
    · rw [created.others.inode ⟨there, same⟩]
  have dirs : ∀ {i}, live i → (s.inode i).isDir = true → (u.inode i).isDir = true := by
    intro i there dir
    rw [Inode.isDir, ← altered.types i (old there), types there, ← Inode.isDir]
    exact dir
  have entries : t.entries d.toNat = (n, c.toNat) ::ₘ s.entries d.toNat :=
    (altered.entries _ (Or.inr here) (dirs here created.dir)).trans created.entries
  refine ⟨⟨altered.standing, Or.inr, types, fun {i} there dir => ?_⟩, created.dir, created.fresh,
    made.unmarked, entries, ?_⟩
  · by_cases same : i = d.toNat
    · rw [same, entries]
      exact Multiset.le_cons_self _ _
    · rw [altered.entries i (Or.inr there) (dirs there dir),
        created.others.entries ⟨there, same⟩ (standing.formed there dir)]
  · intro uid gid want
    have record : t.inode d.toNat = u.inode d.toNat := altered.others.inode ⟨Or.inr here, different⟩
    have free : (t.inode d.toNat).isFree = (s.inode d.toNat).isFree := by
      rw [Inode.isFree, types here, ← Inode.isFree]
    rw [Volume.checkPermission, Volume.checkPermission, readInode_ok standing.ok (standing.housed.inside here),
      readInode_ok altered.standing.ok (altered.standing.housed.inside (Or.inr here))]
    simp only [bind, Except.bind, free]
    rw [record, made.permits]

/-! ### Removal -/

/-- The directory `d` has no entry `name`, and the inode `c` is free. -/
structure Delisted (live : Nat → Prop) (s t : Volume) (d : UInt32) (name : Name) (c : UInt32) : Prop where
  wider : Widens live (fun i => i ≠ c.toNat ∧ (i = c.toNat ∨ live i)) s t
  unmarked : t.marked c.toNat = false
  gone : ∀ i, t.dirLookup d name ≠ .ok i

theorem Enlisted.isDir (enlisted : Enlisted live s t d n c) (here : live d.toNat) :
    (t.inode d.toNat).isDir = true := by
  rw [Inode.isDir, enlisted.wider.types here, ← Inode.isDir]
  exact enlisted.dir

theorem Enlisted.member (enlisted : Enlisted live s t d n c) : (n, c.toNat) ∈ t.entries d.toNat :=
  enlisted.entries ▸ Multiset.mem_cons_self _ _

theorem Removed.delisted (here : live d.toNat) (enlisted : Enlisted live s t d n c) {e : Nat}
    (removed : Removed (fun i => i = c.toNat ∨ live i) t u d.toNat n e) : Delisted live s u d n c := by
  have dir := enlisted.isDir here
  have folder : (t.shape fun i => i = c.toNat ∨ live i).Folder d.toNat := ⟨Or.inr here, dir⟩
  have wider := enlisted.wider
  have again : (n, e) ∈ t.entries d.toNat := removed.entries ▸ Multiset.mem_cons_self _ _
  obtain rfl : e = c.toNat := wider.standing.tree.same_target folder again enlisted.member
  have entries : u.entries d.toNat = s.entries d.toNat :=
    (Multiset.cons_inj_right _).mp (removed.entries.symm.trans enlisted.entries)
  have other : ∀ {i}, live i → i ≠ c.toNat := fun there same => enlisted.fresh (same ▸ there)
  have types : ∀ {i}, live i → (u.inode i).inodeType = (s.inode i).inodeType := by
    intro i there
    by_cases same : i = d.toNat
    · rw [same, removed.type, wider.types here]
    · rw [removed.others.inode ⟨Or.inr there, same, other there⟩, wider.types there]
  have wider' : Widens live (fun i => i ≠ c.toNat ∧ (i = c.toNat ∨ live i)) s u := by
    refine ⟨removed.standing, fun there => ⟨other there, Or.inr there⟩, types, fun {i} there isDir => ?_⟩
    by_cases same : i = d.toNat
    · rw [same, entries]
    · have dir' : (t.inode i).isDir = true := by
        rw [Inode.isDir, wider.types there, ← Inode.isDir]
        exact isDir
      rw [removed.others.entries ⟨Or.inr there, same, other there⟩ (wider.standing.formed (Or.inr there) dir')]
      exact wider.entries there isDir
  refine ⟨wider', ?_, fun i found => ?_⟩
  · by_contra marked
    rw [Bool.not_eq_false, removed.marked] at marked
    exact marked.1 rfl
  · have dir' : (u.inode d.toNat).isDir = true := by
      rw [Inode.isDir, types here, ← Inode.isDir]
      exact enlisted.dir
    have there : (n, i.toNat) ∈ u.entries d.toNat :=
      (removed.standing.lookup_iff ⟨other here, Or.inr here⟩ dir').mp found
    have names := wider.standing.tree.names folder
    change ((t.entries d.toNat).map Prod.fst).Nodup at names
    rw [removed.entries, Multiset.map_cons, Multiset.nodup_cons] at names
    exact names.1 (Multiset.mem_map.mpr ⟨_, there, rfl⟩)

theorem Enlisted.unlink (here : live d.toNat) (enlisted : Enlisted live s t d n c)
    (proper : Tree.Proper dot dotdot n) (file : (t.inode c.toNat).isFile = true) (now : UInt32) :
    ∃ u, unlink now d n t = .ok () u ∧ Delisted live s u d n c := by
  obtain ⟨u, done⟩ := enlisted.wider.standing.unlink_named (Or.inr here) (enlisted.isDir here)
    proper enlisted.member file now
  obtain ⟨e, removed, _⟩ := (enlisted.wider.standing.ends_unlink (Or.inr here) now).of_ok done
  exact ⟨u, done, removed.delisted here enlisted⟩

theorem Enlisted.rmdir (here : live d.toNat) (enlisted : Enlisted live s t d n c)
    (proper : Tree.Proper dot dotdot n) (isDir : (t.inode c.toNat).isDir = true)
    (few : (t.entries c.toNat).card ≤ 2) :
    ∃ u, rmdir d n t = .ok () u ∧ Delisted live s u d n c := by
  obtain ⟨u, done⟩ := enlisted.wider.standing.rmdir_named (Or.inr here) (enlisted.isDir here)
    proper enlisted.member isDir few
  obtain ⟨e, removed, _⟩ := (enlisted.wider.standing.ends_rmdir (Or.inr here)).of_ok done
  exact ⟨u, done, removed.delisted here enlisted⟩

end

end PickleOS.NextFs
