import PickleOS.Fs.Components
import PickleOS.Fs.Opening
import PickleOS.NextFs.Naming

set_option autoImplicit false

namespace PickleOS.Fs

open Shared Shared.Outcome NextFs

def Nameable (path : Name) : Prop := (splitPath path).2 ≠ [] ∧ (0 : UInt8) ∉ (splitPath path).2

/-- The path leads to an inode that is in use since the step from `s` to `t`, and `remove` frees it and
its name. -/
def Files.Creates (s t : Files) (path : Name) (remove : FilesM Unit) : Prop :=
  ∃ v w c, s.mounted = some v ∧ t.mounted = some w ∧ v.marked c.toNat = false ∧ w.marked c.toNat = true ∧
    resolvePath path t = .ok c t ∧
    ∃ u x, remove t = .ok () u ∧ u.mounted = some x ∧ x.marked c.toNat = false ∧ ∀ i z,
      resolvePath path u ≠ .ok i z

/-- The task may write the directory. -/
def Files.Permitted (s : Files) (v : Volume) (task : TaskId) (d : UInt32) : Prop :=
  let creds := (s.vfs.credentials.lookup task).getD .root
  v.checkPermission d creds.uid creds.gid mayWrite = .ok ()

theorem parentOf_ok_iff {s t : Files} {v : Volume} (mounted : s.mounted = some v)
    {task : TaskId} {path name : Name} {d : UInt32} :
    parentOf task path s = .ok (d, name) t ↔
      t = s ∧ name = (splitPath path).2 ∧ walk v (parts (splitPath path).1) = .ok d ∧ s.Permitted v task d := by
  cases walked : walk v (parts (splitPath path).1) with
  | error failure =>
    have failed : parentOf task path s = .error (.ofFs failure) s := by
      rw [parentOf]
      simp only [bind, EStateM.bind, resolvePath_eq (parent_ne_nil path), withFs, mounted, walked]
    simp [failed]
  | ok e =>
    have run : parentOf task path s = (requireDirWrite task e >>= fun _ => pure (e, (splitPath path).2)) s := by
      rw [parentOf]
      simp only [bind, EStateM.bind, resolvePath_eq (parent_ne_nil path), withFs, mounted, walked]
    rw [run]
    cases allowed : v.checkPermission e ((s.vfs.credentials.lookup task).getD .root).uid
        ((s.vfs.credentials.lookup task).getD .root).gid mayWrite with
    | ok _ =>
      have done : requireDirWrite task e s = .ok () s := by
        simp only [requireDirWrite, bind, EStateM.bind, credentials, get_apply, pure, EStateM.pure,
          withFs, mounted, allowed]
      simp only [bind, EStateM.bind, done, pure, EStateM.pure, EStateM.Result.ok.injEq, Prod.mk.injEq,
        Except.ok.injEq,
        Files.Permitted]
      constructor
      · rintro ⟨⟨rfl, rfl⟩, rfl⟩
        exact ⟨rfl, rfl, rfl, allowed⟩
      · rintro ⟨rfl, rfl, rfl, _⟩
        exact ⟨⟨rfl, rfl⟩, rfl⟩
    | error failure =>
      have refused : requireDirWrite task e s = .error (.ofFs failure) s := by
        simp only [requireDirWrite, bind, EStateM.bind, credentials, get_apply, pure, EStateM.pure,
          withFs, mounted, allowed]
      simp only [bind, EStateM.bind, refused, reduceCtorEq, Except.ok.injEq, Files.Permitted, false_iff,
        not_and]
      rintro _ _ rfl
      rw [allowed]
      simp

/-- After a call that made `c`: the directory `d` of the path, and what it has got. -/
structure Makes (live : Nat → Prop) (s t : Files) (v w : Volume) (task : TaskId) (path : Name) (kind : UInt8)
    (d c : UInt32) : Prop where
  mounted : t.mounted = some w
  credentials : t.vfs.credentials = s.vfs.credentials
  here : live d.toNat
  parent : walk v (parts (splitPath path).1) = .ok d
  permitted : s.Permitted v task d
  enlisted : Storable (splitPath path).2 → Enlisted live v w d (splitPath path).2 c ∧
    Tree.Proper dot dotdot (splitPath path).2 ∧ (w.inode c.toNat).inodeType = kind ∧
    ((w.inode c.toNat).isDir = true → (w.entries c.toNat).card ≤ 2)

section

variable {live : Nat → Prop} {s t : Files} {v w : Volume} (mounted : s.mounted = some v)
  (standing : NextFs.Standing live v) {task : TaskId} {path : Name} {kind : UInt8} {d c : UInt32}

include standing

theorem ends_owned {create : FsM UInt32} {name : Name} (here : live d.toNat)
    (made : Ends create v (fun r u => Created live v u d.toNat name r.toNat ∧
      (u.inode r.toNat).inodeType = kind ∧
      Made v u d.toNat r.toNat) fun _ _ => True) (now : UInt32) (creds : Credentials) :
    Ends (owned now creds create) v
      (fun r w => Enlisted live v w d name r ∧ Tree.Proper dot dotdot name ∧
        (w.inode r.toNat).inodeType = kind ∧
        ((w.inode r.toNat).isDir = true → (w.entries r.toNat).card ≤ 2)) (fun _ _ => True) := by
  rw [owned, ends_bind]
  refine made.imp ?_ fun _ _ _ => trivial
  rintro r u ⟨created, type, made⟩
  have chowned : Ends (NextFs.chown now r creds.uid creds.gid) u
      (fun _ w => w.inode r.toNat = { u.inode r.toNat with uid := creds.uid, gid := creds.gid, mtime := now } ∧
        Altered (fun i => i = r.toNat ∨ live i) u w r.toNat) fun _ _ => False :=
    created.standing.ends_updateInode (Or.inl rfl) (fun _ => rfl) (fun _ => rfl) (fun _ => rfl) fun _ => rfl
  rw [ends_bind, catchError, ends_attempt]
  refine chowned.imp ?_ fun _ _ => False.elim
  rintro _ w ⟨record, altered⟩
  refine ⟨created.enlisted standing here made altered, created.proper standing here, ?_, fun dir => ?_⟩
  · rw [record]
    exact type
  · have dir' : (u.inode r.toNat).isDir = true := by
      rw [record] at dir
      exact dir
    rw [altered.entries _ (Or.inl rfl) dir', made.bare dir']
    rfl

include mounted

theorem ends_making {create : UInt32 → Name → FsM UInt32}
    (made : ∀ d : UInt32, live d.toNat → Storable (splitPath path).2 → Ends (create d (splitPath path).2) v
      (fun r u => Created live v u d.toNat (splitPath path).2 r.toNat ∧ (u.inode r.toNat).inodeType = kind ∧
        Made v u d.toNat r.toNat) fun _ _ => True) (now : UInt32) :
    Ends (do
        let (parentInode, name) ← parentOf task path
        let creds ← credentials task
        withFsMut (owned now creds (create parentInode name))) s
      (fun c t => ∃ d w, Makes live s t v w task path kind d c) (fun _ _ => True) := by
  rw [ends_bind]
  refine ((ends_parentOf mounted standing task path).and (Ends.self _ s)).imp ?_ fun _ _ _ => trivial
  rintro ⟨d, name⟩ _ ⟨⟨rfl, here, _⟩, found⟩
  obtain ⟨_, rfl, parent, permitted⟩ := (parentOf_ok_iff mounted).mp found
  dsimp only at here ⊢
  rw [ends_bind, ends_credentials, ends_withFsMut_iff _ _ _ _ mounted]
  by_cases storable : Storable (splitPath path).2
  · refine (ends_owned standing here (made d here storable) now _).imp ?_ fun _ _ _ => trivial
    intro c w enlisted
    exact ⟨d, w, rfl, rfl, here, parent, permitted, fun _ => enlisted⟩
  · unfold Ends
    split
    next c w _ => exact ⟨d, w, rfl, rfl, here, parent, permitted, fun plain => (storable plain).elim⟩
    next => trivial

end

theorem walk_widens {live live' : Nat → Prop} {v w : Volume} (standing : NextFs.Standing live v)
    (wider : Widens live live' v w) {names : List Name} {d : UInt32} (found : walk v names = .ok d) :
      walk w names = .ok d := by
  -- Where names led before they lead to still, if no entry is lost.
  have steps : ∀ {e : UInt32}, live e.toNat → names.foldlM (fun current part => v.dirLookup current part)
    e = .ok d →
      names.foldlM (fun current part => w.dirLookup current part) e = .ok d := by
    clear found
    induction names with
    | nil => exact fun _ found => found
    | cons part rest ih =>
      intro e here found
      rw [List.foldlM_cons] at found ⊢
      have next := lookup_live standing here part
      cases look : v.dirLookup e part with
      | error fail =>
        rw [look] at found
        cases found
      | ok r =>
        rw [look] at next found
        rw [wider.lookup standing here look]
        exact ih next found
  exact steps standing.root found

section

variable {live : Nat → Prop} {s t : Files} {v w : Volume} {task : TaskId} {path : Name} {kind : UInt8}
    {d c : UInt32}
  (mounted : s.mounted = some v) (standing : NextFs.Standing live v)
  (makes : Makes live s t v w task path kind d c)

include mounted standing makes

theorem Makes.nameable {remove : FilesM Unit} (creates : s.Creates t path remove)
    (text : Utf8.valid path = true) :
    Nameable path := by
  obtain ⟨v', w', i, before, after, unmarked, _, resolved, _⟩ := creates
  cases mounted.symm.trans before
  cases makes.mounted.symm.trans after
  obtain ⟨_, _, found⟩ := (resolvePath_ok_iff makes.mounted).mp resolved
  have plain : (splitPath path).2 ≠ [] → (0 : UInt8) ∉ (splitPath path).2 := by
    intro some
    rw [parts_splitPath, if_neg some, walk_append] at found
    cases front : walk w (parts (splitPath path).1) with
    | error fail =>
      rw [front] at found
      cases found
    | ok e =>
      rw [front, Except.bind, List.foldlM_cons] at found
      exact (dirLookup_representable ((bind_pure (w.dirLookup e (splitPath path).2)).symm.trans found)).1
  have some : (splitPath path).2 ≠ [] := by
    -- An empty last name leads to the parent, which was there before.
    intro none
    have storable : Storable (splitPath path).2 := ⟨by simp [none], valid_last text⟩
    have parent := walk_widens standing (makes.enlisted storable).1.wider makes.parent
    rw [walk_parent none, parent] at found
    cases found
    have marked := standing.housed.marked makes.here
    rw [unmarked] at marked
    cases marked
  exact ⟨some, plain some⟩

theorem Makes.creates (nameable : Nameable path) (text : Utf8.valid path = true)
    {remove : FilesM Unit} (removal : FsM Unit)
    (calls : ∀ u : Files, parentOf task path u = .ok (d, (splitPath path).2) u → remove u = withFsMut removal u)
    (removes : Enlisted live v w d (splitPath path).2 c → Tree.Proper dot dotdot (splitPath path).2 →
      (w.inode c.toNat).inodeType = kind → ((w.inode c.toNat).isDir = true → (w.entries c.toNat).card ≤ 2) →
      ∃ x, removal w = .ok () x ∧ Delisted live v x d (splitPath path).2 c) : s.Creates t path remove := by
  have storable : Storable (splitPath path).2 := ⟨nameable.2, valid_last text⟩
  obtain ⟨enlisted, proper, type, few⟩ := makes.enlisted storable
  have wider := enlisted.wider
  have some : path ≠ [] := by
    rintro rfl
    exact nameable.1 rfl
  have parent := walk_widens standing wider makes.parent
  have resolved : walk w (parts path) = .ok c := by
    rw [walk_last nameable.1 parent]
    exact (wider.standing.lookup_iff (Or.inr makes.here) (enlisted.isDir makes.here)).mpr enlisted.member
  obtain ⟨x, removed, delisted⟩ := removes enlisted proper type few
  have permitted : t.Permitted w task d := by
    rw [Files.Permitted, makes.credentials, enlisted.permission]
    exact makes.permitted
  have found := (parentOf_ok_iff makes.mounted).mpr ⟨rfl, rfl, parent, permitted⟩
  refine ⟨v, w, c, mounted, makes.mounted, enlisted.unmarked, wider.standing.housed.marked (Or.inl rfl),
    (resolvePath_ok_iff makes.mounted).mpr ⟨rfl, some, resolved⟩, { t with mounted := x }, x, ?_, rfl,
    delisted.unmarked, ?_⟩
  · rw [calls t found, withFsMut, makes.mounted]
    dsimp only
    rw [removed]
  · intro i z again
    obtain ⟨_, _, again⟩ := (resolvePath_ok_iff (s := { t with mounted := x }) rfl).mp again
    rw [walk_last nameable.1 (walk_widens standing delisted.wider makes.parent)] at again
    exact delisted.gone i again

end

section Calls

variable {live : Nat → Prop} {s : Files} {v : Volume} (mounted : s.mounted = some v)
    (standing : NextFs.Standing live v)

include mounted standing

theorem ends_mkdir_makes (now : UInt32) (task : TaskId) (path : Name) :
    Ends (mkdir now task path) s (fun _ t => ∃ d c w, Makes live s t v w task path 2 d c)
      (fun _ _ => True) := by
  have making := @ends_making live s v mounted standing task path 2 (createDir now)
    (fun d here storable => ?_) now
  · unfold mkdir
    rw [ends_bind] at making ⊢
    refine making.imp ?_ fun _ _ => id
    rintro ⟨d, name⟩ u next
    rw [ends_bind] at next ⊢
    refine next.imp (fun creds u next => ?_) fun _ _ => id
    rw [ends_bind]
    refine next.imp ?_ fun _ _ => id
    rintro c t ⟨e, w, makes⟩
    exact ⟨e, c, w, makes⟩
  · refine (standing.ends_createDir here storable now).imp ?_ fun _ _ _ => trivial
    rintro r u ⟨created, dir, made⟩
    exact ⟨created, by simpa [Inode.isDir] using dir, made⟩

theorem ends_createNew_makes (now : UInt32) (task : TaskId) (path : Name) :
    Ends (createNew now task path) s (fun c t => ∃ d w, Makes live s t v w task path 1 d c)
      (fun _ _ => True) := by
  refine ends_making mounted standing (fun d here storable => ?_) now
  refine (standing.ends_createFile here storable now).imp ?_ fun _ _ _ => trivial
  rintro r u ⟨created, file, made⟩
  exact ⟨created, by simpa [Inode.isFile] using file, made⟩

theorem ends_openFile_makes (now : UInt32) (task : TaskId)
    {path : Name} {flags : OpenFlags} (create : flags.create = true)
    (unresolved : ∀ i z, resolvePath path s ≠ .ok i z) :
    Ends (openFile now task path flags) s (fun _ t => ∃ d c w, Makes live s t v w task path 1 d c)
      (fun _ _ => True) := by
  rw [openFile_eq, openedInode, if_pos create, ends_bind, ends_bind, ends_attempt]
  refine ((ends_resolvePath mounted standing path).and (Ends.self _ s)).imp ?_ ?_
  · rintro i u ⟨_, found⟩
    exact (unresolved i u found).elim
  · rintro fail _ ⟨⟨rfl, error, rfl⟩, _⟩
    dsimp only
    split
    · refine (ends_createNew_makes mounted standing now task path).imp ?_ fun _ _ => id
      rintro c u ⟨d, w, makes⟩
      refine (same_finishOpen task flags c u).imp ?_ fun _ _ _ => trivial
      rintro _ t ⟨same, creds⟩
      exact ⟨d, c, w,
        { makes with mounted := same.trans makes.mounted, credentials := creds.trans makes.credentials }⟩
    · trivial

end Calls

theorem made_found_iff {live : Nat → Prop} {s : Files} {v : Volume} (mounted : s.mounted = some v)
    (standing : NextFs.Standing live v) (now : UInt32) (task : TaskId) {path : Name}
    (text : Utf8.valid path = true) :
    (∀ t, mkdir now task path s = .ok () t → (s.Creates t path (rmdir task path) ↔ Nameable path)) ∧
    ∀ flags fd t, flags.create = true → (∀ i z, resolvePath path s ≠ .ok i z) →
      openFile now task path flags s = .ok fd t →
      ∀ later, s.Creates t path (unlink later task path) ↔ Nameable path := by
  constructor
  · intro t done
    obtain ⟨d, c, w, makes⟩ := (ends_mkdir_makes mounted standing now task path).of_ok done
    refine ⟨fun creates => makes.nameable mounted standing creates text, fun nameable => ?_⟩
    refine makes.creates mounted standing nameable text (NextFs.rmdir d (splitPath path).2) ?_ ?_
    · intro u found
      simp only [rmdir, bind, EStateM.bind, found]
    · intro enlisted proper type few
      have dir : (w.inode c.toNat).isDir = true := by simpa [Inode.isDir] using type
      exact enlisted.rmdir makes.here proper dir (few dir)
  · intro flags fd t create unresolved done later
    obtain ⟨d, c, w, makes⟩ := (ends_openFile_makes mounted standing now task create unresolved).of_ok done
    refine ⟨fun creates => makes.nameable mounted standing creates text, fun nameable => ?_⟩
    refine makes.creates mounted standing nameable text (NextFs.unlink later d (splitPath path).2) ?_ ?_
    · intro u found
      simp only [unlink, bind, EStateM.bind, found]
    · intro enlisted proper type _
      exact enlisted.unlink makes.here proper (by simpa [Inode.isFile] using type) later

end PickleOS.Fs
