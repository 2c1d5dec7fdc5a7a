import PickleOS.Fs.Creation
import PickleOS.Fs.Offsets
import PickleOS.NextFs.Removal

set_option autoImplicit false

namespace PickleOS.Fs

open Shared Shared.Outcome NextFs

/-- The calls of a task. What is left open changes nothing but the tables: reads and writes of other
kinds of files, and calls such as `close`, `pipe` and `set_credentials`. -/
inductive VfsCall where
  | openFile (path : Name) (flags : OpenFlags)
  | read (fd : Fd) (others : FileType → VfsM (List UInt8)) (len : Nat)
  | write (fd : Fd) (others : FileType → VfsM Nat) (data : List UInt8)
  | seek (fd : Fd) (offset : Int64) (whence : SeekWhence)
  | mkdir (path : Name)
  | unlink (path : Name)
  | rmdir (path : Name)
  | truncate (path : Name) (size : UInt64)
  | chmod (path : Name) (mode : UInt16)
  | chown (path : Name) (uid gid : UInt16)
  | onTables (act : VfsM Unit)

namespace VfsCall

def run (now : UInt32) (task : TaskId) : VfsCall → FilesM Unit
  | openFile path flags => do let _ ← Fs.openFile now task path flags
  | read fd others len => do let _ ← Fs.read task fd (fun type => onVfs (others type)) len
  | write fd others data => do let _ ← Fs.write (fun type => onVfs (others type)) now task fd data
  | seek fd offset whence => do let _ ← Fs.seek task fd offset whence
  | mkdir path => Fs.mkdir now task path
  | unlink path => Fs.unlink now task path
  | rmdir path => Fs.rmdir task path
  | truncate path size => Fs.truncate task path size
  | chmod path mode => Fs.chmod now task path mode
  | chown path uid gid => Fs.chown now task path uid gid
  | onTables act => onVfs act

def creates : VfsCall → Option Name
  | openFile path flags => if flags.create then some path else none
  | mkdir path => some path
  | _ => none

def removes : VfsCall → Option Name
  | unlink path | rmdir path => some path
  | _ => none

/-- A call comes back, with or without an error. There is no state after a panic. -/
def Steps (call : VfsCall) (now : UInt32) (task : TaskId) (s t : Files) : Prop :=
  call.run now task s = .ok () t ∨ ∃ error, call.run now task s = .error (.vfs (.error error)) t

/-- No write is to a directory, what is created has a name that a directory can show, and a
truncation leaves no pointers to blocks that it frees. -/
def Orderly (task : TaskId) (s : Files) (v : Volume) : VfsCall → Prop
  | openFile path flags => flags.create = true → ∀ error, resolvePath path s = .error (.vfs (.error error)) s →
      error = .notFound ∨ error = .fsError .notFound → Storable (splitPath path).2
  | write fd _ _ => ∀ file inode, getFile task fd s = .ok file s → file.fileType = .regular inode →
      (v.inode inode.toNat).isDir = false
  | mkdir path => Storable (splitPath path).2
  | truncate path size => ∀ i, resolvePath path s = .ok i s → (v.inode i.toNat).isFile = true →
      ¬(v.inode i.toNat).LeavesEntries v.device.data size.toNat
  | _ => True

/-- Where `open` has to create the file, there is room for its descriptor. -/
def Roomy (task : TaskId) (s : Files) : VfsCall → Prop
  | openFile path flags => flags.create = true → (∀ i u, resolvePath path s ≠ .ok i u) → ¬s.vfs.NoRoom task
  | _ => True

/-- `open`, `seek`, `write` and `truncate`, on one path. -/
def OnPath (path : Name) : VfsCall → Prop
  | openFile own _ | truncate own _ => own = path
  | seek .. | write .. => True
  | _ => False

end VfsCall

/-- What becomes of the entries `l` of the directory `e` when a call leaves the volume `w`. -/
inductive EntriesStep (call : VfsCall) (now : UInt32) (task : TaskId) (s t : Files) (w : Volume) (e : UInt32)
    (l : List (Name × UInt32)) : Prop where
  | kept {m : List (Name × UInt32)} (list : w.dirList e = .ok m) (same : l.Perm m)
  | made {path : Name} {c : UInt32} {m : List (Name × UInt32)} (done : call.run now task s = .ok () t)
      (creates : call.creates = some path) (new : call = .mkdir path ∨ ∀ i u, resolvePath path s ≠ .ok i u)
      (parent : parentOf task path s = .ok (e, (splitPath path).2) s) (list : w.dirList e = .ok m)
      (more : m.Perm (((splitPath path).2, c) :: l))
  | lost {path : Name} {c : UInt32} {m : List (Name × UInt32)} (done : call.run now task s = .ok () t)
      (removes : call.removes = some path) (parent : parentOf task path s = .ok (e, (splitPath path).2) s)
      (list : w.dirList e = .ok m) (less : l.Perm (((splitPath path).2, c) :: m))
  -- The directory itself was removed.
  | gone {path : Name} {d : UInt32} {v : Volume} (done : call.run now task s = .ok () t)
    (removes : call = .rmdir path)
      (parent : parentOf task path s = .ok (d, (splitPath path).2) s) (mounted : s.mounted = some v)
      (named : v.dirLookup d (splitPath path).2 = .ok e)

/-! ### The lists of two volumes -/

/-- The directories among the live inodes list what they listed, in some order. -/
structure KeepsLists (live : Nat → Prop) (v w : Volume) : Prop where
  standing : NextFs.Standing live w
  lists : ∀ (e : UInt32) l, live e.toNat → v.dirList e = .ok l → ∃ m, w.dirList e = .ok m ∧ l.Perm m

/-- The directory `d` lists one name more. -/
structure AddsEntry (live : Nat → Prop) (v w : Volume) (d : UInt32) (name : Name) (c : UInt32) : Prop where
  standing : NextFs.Standing (fun i => i = c.toNat ∨ live i) w
  lists : ∀ (e : UInt32) l, live e.toNat → v.dirList e = .ok l →
    ∃ m, w.dirList e = .ok m ∧ (e ≠ d ∧ l.Perm m ∨ e = d ∧ m.Perm ((name, c) :: l))

/-- The directory `d` lists one name less, and what it named is gone. -/
structure LosesEntry (live : Nat → Prop) (v w : Volume) (d : UInt32) (name : Name) (c : UInt32) : Prop where
  standing : NextFs.Standing (fun i => i ≠ c.toNat ∧ live i) w
  named : v.dirLookup d name = .ok c
  lists : ∀ (e : UInt32) l, live e.toNat → e ≠ c → v.dirList e = .ok l →
    ∃ m, w.dirList e = .ok m ∧ (e ≠ d ∧ l.Perm m ∨ e = d ∧ l.Perm ((name, c) :: m))

section Lists

variable {live live' : Nat → Prop} {v u w : Volume} {d e c : UInt32} {name : Name} {l : List (Name × UInt32)}

theorem isDir_of_list (standing : NextFs.Standing live v) (here : live e.toNat) (list : v.dirList e = .ok l) :
    (v.inode e.toNat).isDir = true := by
  rw [Volume.dirList, readInode_ok standing.ok (standing.housed.inside here)] at list
  by_contra other
  rw [Bool.not_eq_true] at other
  simp [bind, Except.bind, other] at list

theorem KeepsLists.refl (standing : NextFs.Standing live v) : KeepsLists live v v :=
  ⟨standing, fun _ l _ list => ⟨l, list, .refl l⟩⟩

theorem KeepsLists.trans (first : KeepsLists live v u) (second : KeepsLists live u w) :
    KeepsLists live v w where
  standing := second.standing
  lists e l here list := by
    obtain ⟨m, list', same⟩ := first.lists e l here list
    obtain ⟨k, list'', same'⟩ := second.lists e m here list'
    exact ⟨k, list'', same.trans same'⟩

theorem perm_same (before : NextFs.Standing live v) (after : NextFs.Standing live' w) (here : live e.toNat)
    (here' : live' e.toNat) (list : v.dirList e = .ok l)
    (type : (w.inode e.toNat).inodeType = (v.inode e.toNat).inodeType)
    (entries : w.entries e.toNat = v.entries e.toNat) : ∃ m, w.dirList e = .ok m ∧ l.Perm m := by
  have dir := isDir_of_list before here list
  obtain ⟨k, list', numbers⟩ := before.listing here dir
  cases list.symm.trans list'
  obtain ⟨m, list', numbers'⟩ := after.listing here' (by rw [Inode.isDir, type, ← Inode.isDir]; exact dir)
  exact ⟨m, list', perm_of_numbers (numbers.trans (entries.symm.trans numbers'.symm))⟩

theorem perm_cons (before : NextFs.Standing live v) (after : NextFs.Standing live' w) (here : live e.toNat)
    (here' : live' e.toNat) (list : v.dirList e = .ok l) (dir' : (w.inode e.toNat).isDir = true)
    (entries : w.entries e.toNat = (name, c.toNat) ::ₘ v.entries e.toNat) :
    ∃ m, w.dirList e = .ok m ∧ m.Perm ((name, c) :: l) := by
  obtain ⟨k, list', numbers⟩ := before.listing here (isDir_of_list before here list)
  cases list.symm.trans list'
  obtain ⟨m, list', numbers'⟩ := after.listing here' dir'
  refine ⟨m, list', perm_of_numbers ?_⟩
  rw [numbers', entries, ← numbers, Multiset.cons_coe, List.map_cons]

theorem KeepsLists.of_altered (standing : NextFs.Standing live v) {i : Nat} (altered : Altered live v w i) :
    KeepsLists live v w where
  standing := altered.standing
  lists _ _ here list :=
    perm_same standing altered.standing here here list (altered.types _ (standing.housed.inside here))
      (altered.entries _ here (isDir_of_list standing here list))

theorem KeepsLists.of_refused (standing : NextFs.Standing live v)
    {fail : Fail} (refused : Refused live v w d.toNat fail) :
    KeepsLists live v w where
  standing := refused.standing
  lists e l here list := by
    have dir := isDir_of_list standing here list
    by_cases same : e = d
    · subst same
      exact perm_same standing refused.standing here here list refused.type (refused.entries dir)
    · have other : live e.toNat ∧ e.toNat ≠ d.toNat := ⟨here, fun number => same (UInt32.toNat_inj.mp number)⟩
      exact perm_same standing refused.standing here here list (by rw [refused.others.inode other])
        (refused.others.entries other (standing.formed here dir))

theorem AddsEntry.of_created (standing : NextFs.Standing live v) (here : live d.toNat)
    (created : Created live v u d.toNat name c.toNat) {i : Nat}
    (altered : Altered (fun i => i = c.toNat ∨ live i) u w i) :
    AddsEntry live v w d name c where
  standing := altered.standing
  lists e l old list := by
    have types : ∀ {i : Nat}, live i → (w.inode i).inodeType = (u.inode i).inodeType := fun there =>
      altered.types _ (created.standing.housed.inside (Or.inr there))
    have dir := isDir_of_list standing old list
    by_cases same : e = d
    · subst same
      have dirU : (u.inode e.toNat).isDir = true := by
        rw [Inode.isDir, created.type, ← Inode.isDir]
        exact dir
      have dirW : (w.inode e.toNat).isDir = true := by
        rw [Inode.isDir, types here, ← Inode.isDir]
        exact dirU
      obtain ⟨m, list', more⟩ := perm_cons standing altered.standing old (Or.inr old) list dirW
        ((altered.entries _ (Or.inr old) dirU).trans created.entries)
      exact ⟨m, list', Or.inr ⟨rfl, more⟩⟩
    · have other : live e.toNat ∧ e.toNat ≠ d.toNat := ⟨old, fun number => same (UInt32.toNat_inj.mp number)⟩
      have record := created.others.inode other
      obtain ⟨m, list', kept⟩ :=
        perm_same standing altered.standing old (Or.inr old) list (by rw [types old, record])
        ((altered.entries _ (Or.inr old) (by rw [record]; exact dir)).trans
          (created.others.entries other (standing.formed old dir)))
      exact ⟨m, list', Or.inl ⟨same, kept⟩⟩

theorem LosesEntry.of_removed (standing : NextFs.Standing live v) (here : live d.toNat)
    (removed : Removed live v w d.toNat name c.toNat) :
    LosesEntry live v w d name c where
  standing := removed.standing
  named := (standing.lookup_iff here removed.dir).mpr (removed.entries ▸ Multiset.mem_cons_self _ _)
  lists e l old other list := by
    have stays : e.toNat ≠ c.toNat := fun number => other (UInt32.toNat_inj.mp number)
    have dir := isDir_of_list standing old list
    by_cases same : e = d
    · subst same
      have dirW : (w.inode e.toNat).isDir = true := by
        rw [Inode.isDir, removed.type, ← Inode.isDir]
        exact dir
      obtain ⟨m, list', _⟩ := removed.standing.listing ⟨stays, old⟩ dirW
      obtain ⟨k, list'', less⟩ := perm_cons removed.standing standing ⟨stays, old⟩ old list' dir removed.entries
      cases list.symm.trans list''
      exact ⟨m, list', Or.inr ⟨rfl, less⟩⟩
    · have apart : live e.toNat ∧ e.toNat ≠ d.toNat ∧ e.toNat ≠ c.toNat :=
        ⟨old, fun number => same (UInt32.toNat_inj.mp number), stays⟩
      obtain ⟨m, list', kept⟩ := perm_same standing removed.standing old ⟨stays, old⟩ list
        (by rw [removed.others.inode apart]) (removed.others.entries apart (standing.formed old dir))
      exact ⟨m, list', Or.inl ⟨same, kept⟩⟩

end Lists

/-! ### What changes no volume -/

section Same

variable {α : Type} (task : TaskId) (fd : Fd) (s : Files)

theorem same_onVfs (m : VfsM α) :
    Ends (onVfs m) s (fun _ t => t.mounted = s.mounted) (fun _ t => t.mounted = s.mounted) := by
  rw [ends_onVfs_iff]
  unfold Ends
  split <;> rfl

theorem same_withFs (f : Volume → Except Fail α) :
    Ends (withFs f) s (fun _ t => t = s) (fun _ t => t.mounted = s.mounted) :=
  (ends_withFs_same s f).imp (fun _ _ => id) fun _ _ same => by rw [same]

theorem same_getFile : Ends (getFile task fd) s (fun _ t => t = s) (fun _ t => t.mounted = s.mounted) := by
  simp only [Ends, getFile_eq]
  cases s.vfs.fdTables.lookup task with
  | none => rfl
  | some table => cases lookup : table.files.lookup fd <;> simp [lookup]

theorem same_setPos (pos : UInt64) :
    Ends (setPos task fd pos) s (fun _ t => t.mounted = s.mounted) (fun _ t => t.mounted = s.mounted) := by
  rw [setPos]
  refine (same_getFile task fd s).bind ?_
  rintro file _ rfl
  rw [ends_modify]
  split <;> rfl

theorem same_advance (n : Nat) :
    Ends (advance task fd n) s (fun _ t => t.mounted = s.mounted) (fun _ t => t.mounted = s.mounted) := by
  rw [advance]
  refine (same_getFile task fd s).bind ?_
  rintro file _ rfl
  exact same_setPos task fd _ _

theorem same_seek (offset : Int64) (whence : SeekWhence) :
    Ends (seek task fd offset whence) s (fun _ t => t.mounted = s.mounted)
      (fun _ t => t.mounted = s.mounted) := by
  have move (newPos : Int64) :
      Ends (if newPos < 0 then fail .invalidOperation else do
          setPos task fd newPos.toUInt64
          pure newPos.toUInt64) s (fun _ t => t.mounted = s.mounted) (fun _ t => t.mounted = s.mounted) := by
    split
    · exact (rfl : s.mounted = s.mounted)
    · exact (same_setPos task fd s _).bind fun _ _ same => same
  rw [seek]
  refine (same_getFile task fd s).bind ?_
  rintro file _ rfl
  split
  · refine (same_withFs _ _).bind ?_
    rintro size _ rfl
    cases whence
    · exact move offset
    · exact move _
    · exact move _
  · exact (rfl : _ = _)

theorem same_read (others : FileType → VfsM (List UInt8)) (len : Nat) :
    Ends (read task fd (fun type => onVfs (others type)) len) s (fun _ t => t.mounted = s.mounted)
      (fun _ t => t.mounted = s.mounted) := by
  rw [read, ends_bind, beginRead]
  refine (same_getFile task fd s).bind ?_
  rintro file _ rfl
  split
  · rw [ends_pure]
    dsimp only
    split
    · rw [readRegular]
      refine (same_withFs _ _).bind ?_
      rintro bytes _ rfl
      exact (same_advance task fd _ _).bind fun _ _ same => same
    · exact same_onVfs _ _
  · rfl

end Same

/-! ### What one call does -/

section Calls

variable {live : Nat → Prop} {s : Files} {v : Volume}

/-- The mounted volume lists what `v` lists. -/
def Files.Keeps (live : Nat → Prop) (v : Volume) (t : Files) : Prop :=
  ∃ w, t.mounted = some w ∧ KeepsLists live v w

theorem newFile_permits (creds : Credentials) (flags : OpenFlags) (now : UInt32) :
    Inode.permits { Inode.newFile with uid := creds.uid, gid := creds.gid, mtime := now }
      creds.uid creds.gid flags.want = true := by
  have granted : ∀ read write : Bool, (Inode.newFile.mode >>> 6) &&& 0o7 &&& OpenFlags.want
    { read := read, write := write } =
      OpenFlags.want { read := read, write := write } := by
    intro read write
    cases read <;> cases write <;> rfl
  unfold Inode.permits
  split
  · rfl
  · rw [if_pos rfl]
    exact decide_eq_true (granted flags.read flags.write)

variable (mounted : s.mounted = some v) (standing : NextFs.Standing live v)

include standing

theorem keeps_same {t : Files} (same : t.mounted = some v) : t.Keeps live v := ⟨v, same, .refl standing⟩

theorem ends_truncate_keeps {i : UInt32} {newSize : Nat}
    (clean : (v.inode i.toNat).isFile = true → ¬(v.inode i.toNat).LeavesEntries v.device.data newSize) :
    Ends (NextFs.truncate i newSize) v (fun _ w => KeepsLists live v w)
      (fun fail w => fail = .panic ∨ KeepsLists live v w) := by
  by_cases file : (v.inode i.toNat).isFile = true
  · refine (standing.ends_truncate (clean file)).imp ?_ ?_
    · rintro _ w ⟨_, _, _, altered⟩
      exact .of_altered standing altered
    · rintro fail w (⟨stop, _⟩ | ⟨_, rfl, _⟩)
      · exact Or.inl stop
      · exact Or.inr (.refl standing)
  · classical
    rw [Bool.not_eq_true] at file
    rw [NextFs.truncate, ends_bind, ends_observe, readInode_eq standing.ok]
    by_cases inside : v.layout.InTable i.toNat
    · rw [if_pos inside]
      dsimp only
      rw [file]
      exact Or.inr (.refl standing)
    · rw [if_neg inside]
      exact Or.inr (.refl standing)

theorem ends_changed_keeps {i : UInt32} (here : live i.toNat) {change : Inode → Inode}
    (direct : ∀ v, (change v).direct = v.direct) (indirect : ∀ v, (change v).indirect = v.indirect)
    (size : ∀ v, (change v).size = v.size) (type : ∀ v, (change v).inodeType = v.inodeType) :
    Ends (updateInode i change) v (fun _ w => KeepsLists live v w) (fun _ w => KeepsLists live v w) :=
  (standing.ends_updateInode here direct indirect size type).imp
    (fun _ _ changed => .of_altered standing changed.2)
    fun _ _ => False.elim

theorem record_createFile {d : UInt32} (here : live d.toNat) (name : Name) (now : UInt32) :
    Ends (createFile now d name) v (fun r w => w.inode r.toNat = { Inode.newFile with mtime := now })
      (fun _ _ => True) := by
  have housed := standing.housed
  refine (NextFs.ends_createFile standing.ok now d name fun i next =>
    fun _ _ => (housed.stageFile next now).working (Or.inr here)).imp ?_ fun _ _ _ => trivial
  rintro r w ⟨c, next, rfl, added⟩
  obtain ⟨number, _⟩ := Volume.nextInode_number standing.ok next
  have fresh := housed.next_fresh next
  have different : c ≠ d.toNat := by
    rintro rfl
    exact fresh here
  have apart := (((housed.stageFile next now).apart_addEntry (Or.inr here) name _ now).of_ok added).2
  rw [number, apart.inode c different (Housed.owner (Or.inl rfl)), Volume.stageFile,
    Volume.inode_setInode, if_pos rfl]

include mounted

theorem ends_makes (R : Inode → Prop) {create : UInt32 → Name → FsM UInt32} {task : TaskId}
    {path : Name} (now : UInt32)
    (made : ∀ d : UInt32, live d.toNat → Ends (create d (splitPath path).2) v
      (fun r u => Created live v u d.toNat (splitPath path).2 r.toNat ∧ R (u.inode r.toNat))
      fun fail u => Refused live v u d.toNat fail) :
    Ends (do
        let (parentInode, name) ← parentOf task path
        let creds ← credentials task
        withFsMut (owned now creds (create parentInode name))) s
      (fun r t => ∃ d w x, t = { s with mounted := some w } ∧
        parentOf task path s = .ok (d, (splitPath path).2) s ∧
        AddsEntry live v w d (splitPath path).2 r ∧ R x ∧
        w.inode r.toNat = { x with
          uid := ((s.vfs.credentials.lookup task).getD .root).uid
          gid := ((s.vfs.credentials.lookup task).getD .root).gid
          mtime := now })
      (fun _ t => t.Keeps live v) := by
  rw [ends_bind]
  refine ((ends_parentOf mounted standing task path).and (Ends.self _ s)).imp ?_ ?_
  · rintro ⟨d, name⟩ _ ⟨⟨rfl, here, rfl⟩, found⟩
    dsimp only at here found ⊢
    rw [ends_bind, ends_credentials, ends_withFsMut_iff _ _ _ _ mounted, owned, ends_bind]
    refine (made d here).imp ?_ fun fail w refused => ⟨w, rfl, .of_refused standing refused⟩
    rintro r u ⟨created, new⟩
    have chowned : ∀ creds : Credentials, Ends (NextFs.chown now r creds.uid creds.gid) u
        (fun _ w => w.inode r.toNat = { u.inode r.toNat with uid := creds.uid, gid := creds.gid, mtime :=
          now } ∧
          Altered (fun i => i = r.toNat ∨ live i) u w r.toNat) fun _ _ => False := fun creds =>
      created.standing.ends_updateInode (Or.inl rfl) (fun _ => rfl) (fun _ => rfl) (fun _ => rfl) fun _ => rfl
    rw [ends_bind, catchError, ends_attempt]
    refine (chowned _).imp ?_ fun _ _ => False.elim
    rintro _ w ⟨record, altered⟩
    exact ⟨d, w, u.inode r.toNat, rfl, found, .of_created standing here created altered, new, record⟩
  · rintro fail _ ⟨⟨rfl, _⟩, _⟩
    exact keeps_same standing mounted

theorem ends_removes {folder : Bool} {remove : UInt32 → Name → FsM Unit} {task : TaskId} {path : Name}
    (removed : ∀ d : UInt32, live d.toNat → Ends (remove d (splitPath path).2) v
      (fun _ w => ∃ c, Removed live v w d.toNat (splitPath path).2 c ∧ (v.inode c).isDir = folder)
      fun fail w => Refused live v w d.toNat fail) :
    Ends (do
        let (parentInode, name) ← parentOf task path
        withFsMut (remove parentInode name)) s
      (fun _ t => ∃ d w c, t.mounted = some w ∧ parentOf task path s = .ok (d, (splitPath path).2) s ∧
        LosesEntry live v w d (splitPath path).2 c ∧ (v.inode c.toNat).isDir = folder)
      (fun _ t => t.Keeps live v) := by
  rw [ends_bind]
  refine ((ends_parentOf mounted standing task path).and (Ends.self _ s)).imp ?_ ?_
  · rintro ⟨d, name⟩ _ ⟨⟨rfl, here, rfl⟩, found⟩
    dsimp only at here found ⊢
    rw [ends_withFsMut_iff _ _ _ _ mounted]
    refine (removed d here).imp ?_ fun fail w refused => ⟨w, rfl, .of_refused standing refused⟩
    rintro _ w ⟨c, gone, kind⟩
    have inside := standing.housed.inside gone.here
    obtain ⟨r, rfl⟩ : ∃ r : UInt32, r.toNat = c :=
      ⟨.ofNat c, UInt32.toNat_ofNat_of_lt' (inside.2.trans v.layout.inodeCount_lt)⟩
    exact ⟨d, w, r, rfl, found, .of_removed standing here gone, kind⟩
  · rintro fail _ ⟨⟨rfl, _⟩, _⟩
    exact keeps_same standing mounted

omit standing mounted

/-- A call that succeeded has left all lists alone, or has made or removed what its path names. -/
def Files.After (live : Nat → Prop) (v : Volume) (call : VfsCall) (task : TaskId) (s t : Files) : Prop :=
  t.Keeps live v ∨
  (∃ path d c w, call.creates = some path ∧ t.mounted = some w ∧
    parentOf task path s = .ok (d, (splitPath path).2) s ∧
    AddsEntry live v w d (splitPath path).2 c ∧ (call = .mkdir path ∨ ∀ i u, resolvePath path s ≠ .ok i u)) ∨
  ∃ path d c w, call.removes = some path ∧ t.mounted = some w ∧
  parentOf task path s = .ok (d, (splitPath path).2) s ∧
    LosesEntry live v w d (splitPath path).2 c ∧ (call = .rmdir path ∨ (v.inode c.toNat).isDir = false)

/-- A call that came back with an error may have made a file without a descriptor, if there was no room
for one. -/
def Files.Stopped (live : Nat → Prop) (v : Volume) (call : VfsCall) (task : TaskId) (s : Files)
    (fail : Failure) (t : Files) : Prop :=
  ∀ error, fail = .vfs (.error error) → s.After live v call task t ∧ (call.Roomy task s → t.Keeps live v)

omit mounted standing in
theorem Files.Keeps.stopped {t : Files} (keeps : t.Keeps live v) (call : VfsCall) (task : TaskId)
    (fail : Failure) :
    s.Stopped live v call task fail t := fun _ _ => ⟨Or.inl keeps, fun _ => keeps⟩

variable {task : TaskId} (now : UInt32)

include mounted standing

theorem ends_openedInode_entries {path : Name} {flags : OpenFlags}
    (orderly : (VfsCall.openFile path flags).Orderly task s v) :
    Ends (openedInode now task path flags) s
      (fun i t => t.Keeps live v ∧ live i.toNat ∨ ∃ d w, flags.create = true ∧
        (∀ j u, resolvePath path s ≠ .ok j u) ∧
        t = { s with mounted := some w } ∧ parentOf task path s = .ok (d, (splitPath path).2) s ∧
        AddsEntry live v w d (splitPath path).2 i ∧ w.inode i.toNat = { Inode.newFile with
          uid := ((s.vfs.credentials.lookup task).getD .root).uid
          gid := ((s.vfs.credentials.lookup task).getD .root).gid
          mtime := now })
      (fun fail t => ∀ error, fail = .vfs (.error error) → t.Keeps live v) := by
  have unchanged := keeps_same standing mounted
  rw [openedInode]
  by_cases create : flags.create = true
  · rw [if_pos create, ends_bind, ends_attempt]
    refine ((ends_resolvePath mounted standing path).and (Ends.self _ s)).imp ?_ ?_
    · rintro i t ⟨⟨rfl, here⟩, found⟩
      dsimp only
      by_cases cut : flags.truncate = true
      · rw [if_pos cut, ends_bind, ends_withFsMut_iff _ _ _ _ mounted]
        refine (ends_truncate_keeps standing fun _ => clean_zero _ _).imp ?_ ?_
        · rintro _ w keeps
          exact Or.inl ⟨⟨w, rfl, keeps⟩, here⟩
        · rintro fail w (rfl | keeps) error same
          · cases same
          · exact ⟨w, rfl, keeps⟩
      · rw [if_neg cut]
        exact Or.inl ⟨unchanged, here⟩
    · rintro fail t ⟨⟨rfl, error, rfl⟩, missing⟩
      dsimp only
      split
      next absent =>
        have storable := orderly create error missing absent
        unfold createNew
        refine (ends_makes mounted standing (· = { Inode.newFile with mtime := now }) now fun d here =>
          ((standing.ends_createFile here storable now).and (record_createFile standing here _ now)).imp
            (fun r u both => ⟨both.1.1, both.2⟩) fun _ _ both => both.1).imp ?_ fun _ _ keeps _ _ => keeps
        rintro r _ ⟨d, w, x, rfl, found, adds, rfl, record⟩
        refine Or.inr ⟨d, w, create, ?_, rfl, found, adds, record⟩
        intro j u resolved
        cases missing.symm.trans resolved
      next => exact fun _ _ => unchanged
  · rw [if_neg create]
    refine (ends_resolvePath mounted standing path).imp ?_ ?_
    · rintro i _ ⟨rfl, here⟩
      exact Or.inl ⟨unchanged, here⟩
    · rintro fail _ ⟨rfl, _⟩ _ _
      exact unchanged

theorem ends_openFile_entries {path : Name} {flags : OpenFlags}
    (orderly : (VfsCall.openFile path flags).Orderly task s v) :
    Ends (openFile now task path flags) s (fun _ t => s.After live v (.openFile path flags) task t)
      (fun fail t => s.Stopped live v (.openFile path flags) task fail t) := by
  rw [openFile_eq]
  refine Ends.bind ((ends_openedInode_entries mounted standing now orderly).imp (fun _ _ => id)
    fun _ _ keeps error value =>
    (keeps error value).stopped _ _ _ error value) ?_
  rintro i t (⟨⟨w, after, keeps⟩, _⟩ | ⟨d, w, create, missing, rfl, found, adds, record⟩)
  · exact (same_finishOpen task flags i t).imp (fun _ u same => Or.inl ⟨w, same.1.trans after, keeps⟩)
      fun _ u same => Files.Keeps.stopped ⟨w, same.1.trans after, keeps⟩ _ _ _
  · have made : ∀ u : Files, u.mounted = some w → s.After live v (.openFile path flags) task u := fun u same =>
      Or.inr (Or.inl ⟨path, d, i, w, if_pos create, same, found, adds, Or.inr missing⟩)
    have permitted := newFile_permits ((s.vfs.credentials.lookup task).getD .root) flags now
    refine (ends_finishOpen rfl adds.standing task flags (Or.inl rfl)).imp (fun _ u same => made u same.1) ?_
    rintro fail u ⟨rfl, refused⟩ error same
    refine ⟨made _ rfl, fun roomy => ?_⟩
    rcases refused.mpr ⟨error, same⟩ with ⟨_, denied⟩ | full
    · refine absurd ?_ denied
      rw [Volume.checkPermission, readInode_ok adds.standing.ok
        (adds.standing.housed.inside (Or.inl rfl)), record]
      dsimp only [bind, Except.bind]
      rw [if_neg (by simp [Inode.isFree, Inode.newFile]), if_pos permitted]
    · exact absurd full (roomy create missing)

theorem ends_writeRegular {fd : Fd} {inode : UInt32} (plain : (v.inode inode.toNat).isDir = false)
    (pos : UInt64)
    (data : List UInt8) :
    Ends (writeRegular now task fd inode pos data)
      s (fun _ t => ∃ w, t.mounted = some w ∧ Altered live v w inode.toNat)
      (fun _ t => ∃ w, t.mounted = some w ∧ Altered live v w inode.toNat) := by
  change Ends (withFsMut (writeAt now inode pos.toNat data) >>= _) _ _ _
  rw [ends_bind, ends_withFsMut_iff _ _ _ _ mounted]
  refine (standing.ends_writeAt plain now pos.toNat data).imp ?_ fun _ w ⟨_, altered⟩ => ⟨w, rfl, altered⟩
  rintro n w ⟨_, _, altered⟩
  exact ((same_advance task fd _ n).imp (fun _ _ same => ⟨w, same, altered⟩) fun _ _ same =>
    ⟨w, same, altered⟩).bind
    fun _ _ => id

theorem ends_write_entries {fd : Fd} {others : FileType → VfsM Nat} {data : List UInt8}
    (orderly : (VfsCall.write fd others data).Orderly task s v) :
    Ends (write (fun type => onVfs (others type)) now task fd data) s (fun _ t => t.Keeps live v)
      (fun _ t => t.Keeps live v) := by
  have unchanged := keeps_same standing mounted
  rw [write, ends_bind, beginWrite, ends_bind]
  refine ((same_getFile task fd s).and (Ends.self _ s)).imp ?_ ?_
  · rintro file _ ⟨rfl, found⟩
    split
    · rw [ends_pure]
      dsimp only
      split
      next inode regular =>
        have keeps : ∀ t : Files, (∃ w, t.mounted = some w ∧ Altered live v w inode.toNat) →
          t.Keeps live v := by
          rintro t ⟨w, after, altered⟩
          exact ⟨w, after, .of_altered standing altered⟩
        exact (ends_writeRegular mounted standing now (orderly file inode found regular)
          file.pos data).imp (fun _ => keeps)
          fun _ => keeps
      next =>
        exact (same_onVfs _ _).imp (fun _ t same => keeps_same standing (same.trans mounted))
          fun _ t same => keeps_same standing (same.trans mounted)
    · exact unchanged
  · rintro fail t ⟨same, _⟩
    exact keeps_same standing (same.trans mounted)

theorem ends_mkdir_entries {path : Name} (storable : Storable (splitPath path).2) :
    Ends (mkdir now task path) s (fun _ t => s.After live v (.mkdir path) task t)
      (fun _ t => t.Keeps live v) := by
  have making := @ends_makes live s v mounted standing (fun _ => True) (createDir now) task path now
    fun d here =>
    (standing.ends_createDir here storable now).imp (fun _ _ both => ⟨both.1, trivial⟩) fun _ _ => id
  unfold mkdir
  rw [ends_bind] at making ⊢
  refine making.imp ?_ fun _ _ => id
  rintro ⟨d, name⟩ u next
  rw [ends_bind] at next ⊢
  refine next.imp (fun creds u next => ?_) fun _ _ => id
  refine Ends.bind next ?_
  rintro r _ ⟨e, w, x, rfl, found, adds, _⟩
  exact Or.inr (Or.inl ⟨path, e, r, w, rfl, rfl, found, adds, Or.inl rfl⟩)

theorem ends_atPath_keeps {path : Name} {act : UInt32 → Credentials → FilesM Unit}
    (each : ∀ i creds, resolvePath path s = .ok i s → live i.toNat →
      Ends (act i creds) s (fun _ t => t.Keeps live v)
      (fun fail t => fail = .panic ∨ t.Keeps live v)) :
    Ends (do
        let inode ← resolvePath path
        let creds ← credentials task
        act inode creds) s
      (fun _ t => t.Keeps live v) (fun fail t => fail = .panic ∨ t.Keeps live v) := by
  rw [ends_bind]
  refine ((ends_resolvePath mounted standing path).and (Ends.self _ s)).imp ?_ ?_
  · rintro i _ ⟨⟨rfl, here⟩, found⟩
    rw [ends_bind, ends_credentials]
    exact each i _ found here
  · rintro fail _ ⟨⟨rfl, _⟩, _⟩
    exact Or.inr (keeps_same standing mounted)

theorem ends_truncate_entries {path : Name} {size : UInt64}
    (orderly : (VfsCall.truncate path size).Orderly task s v) :
    Ends (truncate task path size) s (fun _ t => t.Keeps live v)
      (fun fail t => fail = .panic ∨ t.Keeps live v) := by
  refine ends_atPath_keeps mounted standing fun i creds found here => ?_
  rw [ends_withFsMut_iff _ _ _ _ mounted, ends_bind, ends_observe]
  split
  · refine (ends_truncate_keeps standing (orderly i found)).imp (fun _ w keeps => ⟨w, rfl, keeps⟩) ?_
    rintro fail w (rfl | keeps)
    · exact Or.inl rfl
    · exact Or.inr ⟨w, rfl, keeps⟩
  · exact Or.inr ⟨v, rfl, .refl standing⟩

theorem ends_chmod_entries {path : Name} {mode : UInt16} :
    Ends (chmod now task path mode) s (fun _ t => t.Keeps live v)
      (fun fail t => fail = .panic ∨ t.Keeps live v) := by
  refine ends_atPath_keeps mounted standing fun i creds _ here => ?_
  rw [ends_withFsMut_iff _ _ _ _ mounted, ends_bind, ends_observe]
  split
  · split
    · exact Or.inr ⟨v, rfl, .refl standing⟩
    · have changed : Ends (NextFs.chmod now i mode) v (fun _ w => KeepsLists live v w)
        (fun _ w => KeepsLists live v w) :=
        ends_changed_keeps standing here (fun _ => rfl) (fun _ => rfl) (fun _ => rfl) fun _ => rfl
      exact changed.imp (fun _ w keeps => ⟨w, rfl, keeps⟩) fun _ w keeps => Or.inr ⟨w, rfl, keeps⟩
  · exact Or.inr ⟨v, rfl, .refl standing⟩

theorem ends_chown_entries {path : Name} {uid gid : UInt16} :
    Ends (chown now task path uid gid) s (fun _ t => t.Keeps live v)
      (fun fail t => fail = .panic ∨ t.Keeps live v) := by
  refine ends_atPath_keeps mounted standing fun i creds _ here => ?_
  split
  · exact Or.inr (keeps_same standing mounted)
  · rw [ends_withFsMut_iff _ _ _ _ mounted]
    have changed : Ends (NextFs.chown now i uid gid) v (fun _ w => KeepsLists live v w)
      (fun _ w => KeepsLists live v w) :=
      ends_changed_keeps standing here (fun _ => rfl) (fun _ => rfl) (fun _ => rfl) fun _ => rfl
    exact changed.imp (fun _ w keeps => ⟨w, rfl, keeps⟩) fun _ w keeps => Or.inr ⟨w, rfl, keeps⟩

theorem ends_call {call : VfsCall} (orderly : call.Orderly task s v) :
    Ends (call.run now task) s (fun _ t => s.After live v call task t)
      (fun fail t => s.Stopped live v call task fail t) := by
  have keeps : ∀ {α : Type} {m : FilesM α},
      Ends m s (fun _ t => t.Keeps live v) (fun fail t => fail = .panic ∨ t.Keeps live v) →
      Ends m s (fun _ t => s.After live v call task t) (fun fail t => s.Stopped live v call task fail t) := by
    refine fun ends => ends.imp (fun _ _ => Or.inl) ?_
    rintro fail t (rfl | keeps)
    · intro error value
      cases value
    · exact keeps.stopped _ _ _
  have same : ∀ {α : Type} {m : FilesM α},
      Ends m s (fun _ t => t.mounted = s.mounted) (fun _ t => t.mounted = s.mounted) →
      Ends m s (fun _ t => s.After live v call task t) (fun fail t => s.Stopped live v call task fail t) :=
    fun ends => keeps (ends.imp (fun _ _ same => keeps_same standing (same.trans mounted))
      fun _ _ same => Or.inr (keeps_same standing (same.trans mounted)))
  cases call with
  | openFile path flags => exact (ends_openFile_entries mounted standing now orderly).bind fun _ _ done => done
  | read fd others len => exact (same (same_read task fd s others len)).bind fun _ _ done => done
  | write fd others data =>
    exact (keeps ((ends_write_entries mounted standing now orderly).imp (fun _ _ => id) fun _ _ => Or.inr)).bind
      fun _ _ done => done
  | seek fd offset whence => exact (same (same_seek task fd s offset whence)).bind fun _ _ done => done
  | mkdir path =>
    exact (ends_mkdir_entries mounted standing now orderly).imp (fun _ _ => id)
      fun _ _ keeps => keeps.stopped _ _ _
  | unlink path =>
    refine (ends_removes mounted standing fun d here => (standing.ends_unlink here now).imp
      (fun _ w ⟨c, removed, file, _⟩ => ⟨c, removed, NextFs.Standing.not_dir_of_file file⟩)
      fun _ _ refused => refused.1).imp ?_
      fun _ _ keeps => keeps.stopped _ _ _
    rintro _ t ⟨d, w, c, after, found, loses, kind⟩
    exact Or.inr (Or.inr ⟨path, d, c, w, rfl, after, found, loses, Or.inr kind⟩)
  | rmdir path =>
    refine (ends_removes mounted standing fun d here => (standing.ends_rmdir here).imp
      (fun _ w ⟨c, removed, dir, _⟩ => ⟨c, removed, dir⟩) fun _ _ refused => refused.1).imp ?_
      fun _ _ keeps => keeps.stopped _ _ _
    rintro _ t ⟨d, w, c, after, found, loses, _⟩
    exact Or.inr (Or.inr ⟨path, d, c, w, rfl, after, found, loses, Or.inl rfl⟩)
  | truncate path size => exact keeps (ends_truncate_entries mounted standing orderly)
  | chmod path mode => exact keeps (ends_chmod_entries mounted standing now)
  | chown path uid gid => exact keeps (ends_chown_entries mounted standing now)
  | onTables act => exact same (same_onVfs s act)

theorem steps_after {call : VfsCall} {t : Files} (orderly : call.Orderly task s v)
    (steps : call.Steps now task s t) :
    s.After live v call task t := by
  have ends := ends_call mounted standing now orderly
  rcases steps with done | ⟨error, failed⟩
  · exact ends.of_ok done
  · exact (ends.of_error failed error rfl).1

theorem step_standing {call : VfsCall} {t : Files} (orderly : call.Orderly task s v)
    (steps : call.Steps now task s t) :
    ∃ live' w, t.mounted = some w ∧ NextFs.Standing live' w := by
  rcases steps_after mounted standing now orderly steps
    with ⟨w, after, keeps⟩ | ⟨_, _, _, w, _, after, _, adds, _⟩ |
    ⟨_, _, _, w, _, after, _, loses, _⟩
  · exact ⟨_, w, after, keeps.standing⟩
  · exact ⟨_, w, after, adds.standing⟩
  · exact ⟨_, w, after, loses.standing⟩

theorem step_entries {call : VfsCall} {t : Files} (orderly : call.Orderly task s v) (roomy : call.Roomy task s)
    (steps : call.Steps now task s t) :
    ∃ w, t.mounted = some w ∧
      ∀ (e : UInt32) l, live e.toNat → v.dirList e = .ok l → EntriesStep call now task s t w e l := by
  have ends := ends_call mounted standing now orderly
  have kept : t.Keeps live v → ∃ w, t.mounted = some w ∧
      ∀ (e : UInt32) l, live e.toNat → v.dirList e = .ok l → EntriesStep call now task s t w e l := by
    rintro ⟨w, after, keeps⟩
    refine ⟨w, after, fun e l here list => ?_⟩
    obtain ⟨m, list', same⟩ := keeps.lists e l here list
    exact .kept list' same
  rcases steps with done | ⟨error, failed⟩
  · rcases ends.of_ok done with keeps | ⟨path, d, c, w, creates, after, found, adds, new⟩ |
      ⟨path, d, c, w, removes, after, found, loses, kind⟩
    · exact kept keeps
    · refine ⟨w, after, fun e l here list => ?_⟩
      obtain ⟨m, list', ⟨_, same⟩ | ⟨rfl, more⟩⟩ := adds.lists e l here list
      · exact .kept list' same
      · exact .made done creates new found list' more
    · refine ⟨w, after, fun e l here list => ?_⟩
      by_cases gone : e = c
      · subst gone
        refine .gone done (kind.resolve_right ?_) found mounted loses.named
        rw [isDir_of_list standing here list]
        simp
      · obtain ⟨m, list', ⟨_, same⟩ | ⟨rfl, less⟩⟩ := loses.lists e l here gone list
        · exact .kept list' same
        · exact .lost done removes found list' less
  · exact kept ((ends.of_error failed error rfl).2 roomy)

theorem own_keeps {call : VfsCall} {t : Files} {path : Name} {e : UInt32} (orderly : call.Orderly task s v)
    (steps : call.Steps now task s t) (own : call.OnPath path) (found : resolvePath path s = .ok e s) :
      t.Keeps live v := by
  rcases steps_after mounted standing now orderly steps with keeps | ⟨path', _, _, _, creates, _, _, _, new⟩ |
    ⟨path', _, _, _, removes, _⟩
  · exact keeps
  · cases call <;> simp only [VfsCall.creates, VfsCall.OnPath, reduceCtorEq] at creates own
    subst own
    split at creates
    · cases creates
      exact (new.resolve_left (by simp) e s found).elim
    · cases creates
  · cases call <;> simp only [VfsCall.removes, VfsCall.OnPath, reduceCtorEq] at removes own

end Calls

/-- One call on the path of the directory `e`. -/
def OwnCall (path : Name) (e : UInt32) (s t : Files) : Prop :=
  ∃ (call : VfsCall) (now : UInt32) (task : TaskId) (v : Volume), s.mounted = some v ∧ call.Orderly task s v ∧
    call.Steps now task s t ∧ call.OnPath path ∧ resolvePath path s = .ok e s

theorem keeps_of_own {live : Nat → Prop} {s t : Files} {v : Volume} {path : Name}
    {e : UInt32} (mounted : s.mounted = some v)
    (standing : NextFs.Standing live v) (run : Relation.ReflTransGen (OwnCall path e) s t) :
      t.Keeps live v := by
  induction run with
  | refl => exact keeps_same standing mounted
  | tail _ step ih =>
    obtain ⟨w, after, keeps⟩ := ih
    obtain ⟨call, now, task, w', after', orderly, steps, own, found⟩ := step
    cases after.symm.trans after'
    obtain ⟨x, next, keeps'⟩ := own_keeps after keeps.standing now orderly steps own found
    exact ⟨x, next, keeps.trans keeps'⟩

def OrderlyCall (s t : Files) : Prop :=
  ∃ (call : VfsCall) (now : UInt32) (task : TaskId) (v : Volume),
    s.mounted = some v ∧ call.Orderly task s v ∧ call.Steps now task s t

theorem standing_of_run {live : Nat → Prop} {s t : Files} {v : Volume} (mounted : s.mounted = some v)
    (standing : NextFs.Standing live v) (run : Relation.ReflTransGen OrderlyCall s t) :
    ∃ live' w, t.mounted = some w ∧ NextFs.Standing live' w := by
  induction run with
  | refl => exact ⟨live, v, mounted, standing⟩
  | tail _ step ih =>
    obtain ⟨live', w, after, standing'⟩ := ih
    obtain ⟨call, now, task, w', after', orderly, steps⟩ := step
    cases after.symm.trans after'
    exact step_standing after standing' now orderly steps

/-- In every run of orderly calls, the entries of a directory change by the calls that make or
remove one of its names, and by no other; calls on its own path leave them alone. -/
theorem entries_guarded {live : Nat → Prop} {s t : Files} {v : Volume} (mounted : s.mounted = some v)
    (standing : NextFs.Standing live v) (run : Relation.ReflTransGen OrderlyCall s t) :
    ∃ w, t.mounted = some w ∧ ∀ path e l, resolvePath path t = .ok e t → w.dirList e = .ok l →
      (∀ (call : VfsCall) now task u, call.Orderly task t w → call.Roomy task t → call.Steps now task t u →
        ∃ x, u.mounted = some x ∧ EntriesStep call now task t u x e l) ∧
      ∀ u, Relation.ReflTransGen (OwnCall path e) t u → ∃ x m, u.mounted = some x ∧ x.dirList e = .ok m ∧
      l.Perm m := by
  obtain ⟨live', w, after, standing'⟩ := standing_of_run mounted standing run
  refine ⟨w, after, fun path e l found list => ?_⟩
  have here := ((ends_resolvePath after standing' path).of_ok found).2
  constructor
  · intro call now task u orderly roomy steps
    obtain ⟨x, next, each⟩ := step_entries after standing' now orderly roomy steps
    exact ⟨x, next, each e l here list⟩
  · intro u own
    obtain ⟨x, next, keeps⟩ := keeps_of_own after standing' own
    obtain ⟨m, list', same⟩ := keeps.lists e l here list
    exact ⟨x, m, next, list', same⟩

/-- Root, on a volume with a file `a` and a directory `b`. -/
def superuser : Files where
  mounted := some usedVolume
  vfs := Vfs.initial.initTaskFds 1

theorem superuser_calls :
    succeeds (mkdir 0 1 [0x2F, 0x63]) superuser = true ∧
    succeeds (openFile 0 1 [0x2F, 0x61] .rdonly) superuser = true ∧
      usedVolume.dirList 1 = .ok [(dot, 1), (dotdot, 1), ([0x61], 2), ([0x62], 3)] := by
  decide +kernel

/-- Root makes the directory `/c`. -/
theorem entries_guarded_root :
    ∃ u x l, mkdir 0 1 [0x2F, 0x63] superuser = .ok () u ∧ resolvePath [0x2F] superuser = .ok 1 superuser ∧
      usedVolume.dirList 1 = .ok l ∧ u.mounted = some x ∧
      EntriesStep (.mkdir [0x2F, 0x63]) 0 1 superuser u x 1 l := by
  obtain ⟨made, _, list⟩ := superuser_calls
  have done := ok_of_succeeds made
  obtain ⟨w, after, each⟩ :=
    entries_guarded (show superuser.mounted = some usedVolume from rfl) usedVolume_standing .refl
  cases after
  obtain ⟨x, next, step⟩ :=
    (each [0x2F] 1 _ rfl list).1 (.mkdir [0x2F, 0x63]) 0 1 _ ⟨by decide, by decide⟩ trivial
    (Or.inl done)
  exact ⟨_, x, _, done, rfl, list, next, step⟩

/-- `open` of the directory `/b` for writing at its end. -/
def openFolder : VfsCall := .openFile [0x2F, 0x62] { write := true, append := true }

/-- A write to it of the entry `x`, for the inode of the file `/a`. -/
def forgeEntry : VfsCall := .write 3 (fun _ => throw (.error .invalidOperation)) (DirEntry.new 2 [0x78]).toBytes

/-- The write adds the entry to the directory. -/
theorem write_forges_entry :
    ∃ s t v w l, openFolder.Steps 0 1 superuser s ∧ forgeEntry.Steps 0 1 s t ∧ s.mounted = some v ∧
    t.mounted = some w ∧
      resolvePath [0x2F, 0x62] s = .ok 3 s ∧ v.dirList 3 = .ok l ∧ ¬EntriesStep forgeEntry 0 1 s t w 3 l := by
  let s := final (openFolder.run 0 1) superuser
  let t := final (forgeEntry.run 0 1) s
  have evaluated : succeeds (openFolder.run 0 1) superuser = true ∧ succeeds (forgeEntry.run 0 1) s = true ∧
      (s.mounted.map fun v => walk v (parts [0x2F, 0x62])) = some (.ok 3) ∧
      (s.mounted.map fun v => v.dirList 3) = some (.ok [(dot, 3), (dotdot, 1)]) ∧
      (t.mounted.map fun w => w.dirList 3) = some (.ok [(dot, 3), (dotdot, 1), ([0x78], 2)]) := by
        decide +kernel
  obtain ⟨opened, written, found, before, after⟩ := evaluated
  obtain ⟨v, mounted, before⟩ := Option.map_eq_some_iff.mp before
  obtain ⟨w, mounted', after⟩ := Option.map_eq_some_iff.mp after
  rw [mounted, Option.map_some, Option.some.injEq] at found
  refine ⟨s, t, v, w, _, Or.inl (ok_of_succeeds opened), Or.inl (ok_of_succeeds written), mounted, mounted',
    (resolvePath_ok_iff mounted).mpr ⟨rfl, by decide, found⟩, before, fun step => ?_⟩
  cases step with
  | kept list same =>
    cases after.symm.trans list
    exact absurd same.length_eq (by decide)
  | made _ creates => cases creates
  | lost _ removes => cases removes
  | gone _ removes => cases removes

end PickleOS.Fs
