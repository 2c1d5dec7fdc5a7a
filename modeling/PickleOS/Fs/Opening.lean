import PickleOS.Fs.Calls
import PickleOS.Fs.Counts
import PickleOS.NextFs.Trees

set_option autoImplicit false

namespace PickleOS.Fs

open Shared Shared.Outcome NextFs

/-- The access that `open` asks for. -/
def OpenFlags.want (flags : OpenFlags) : UInt16 :=
  (if flags.read then mayRead else 0) ||| (if flags.write then mayWrite else 0)

/-- `open` refuses an inode: no permission, or no room for a descriptor. -/
def Files.RefusesOpen (s : Files) (v : Volume) (task : TaskId) (flags : OpenFlags) (inode : UInt32) : Prop :=
  let creds := (s.vfs.credentials.lookup task).getD .root
  flags.want ≠ 0 ∧ v.checkPermission inode creds.uid creds.gid flags.want ≠ .ok () ∨ s.vfs.NoRoom task

/-- `open` for creation with truncation finds a file that is not empty, and then refuses it. -/
def Files.ClearsThenRefuses (s : Files) (task : TaskId) (path : Name) (flags : OpenFlags) : Prop :=
  flags.create = true ∧ flags.truncate = true ∧ ∃ v inode, s.mounted = some v ∧
  resolvePath path s = .ok inode s ∧
    (v.inode inode.toNat).isFile = true ∧ (v.inode inode.toNat).size ≠ 0 ∧ s.RefusesOpen v task flags inode

def Unharmed (live : Nat → Prop) (v w : Volume) : Prop :=
  ∀ i : UInt32, live i.toNat → (v.inode i.toNat).isFile = true →
    (w.inode i.toNat).size = (v.inode i.toNat).size ∧
    ∀ offset len, w.readInodeData i offset len = v.readInodeData i offset len

def Files.Unharmed (live : Nat → Prop) (s t : Files) : Prop :=
  ∀ v, s.mounted = some v → ∃ w, t.mounted = some w ∧ Fs.Unharmed live v w

/-- The end of `open`: a descriptor for the inode. -/
def openDescriptor (task : TaskId) (flags : OpenFlags) (inode : UInt32) : FilesM Fd := do
  let pos ← if flags.append then withFs fun fs => (fs.readInode inode).map (·.size) else pure 0
  onVfs (allocFd task { fileType := .regular inode, flags := flags, pos := pos })

/-- The rest of `open`, on the inode that was found or made. -/
def finishOpen (task : TaskId) (flags : OpenFlags) (inode : UInt32) : FilesM Fd := do
  let creds ← credentials task
  if flags.want ≠ 0 then withFs fun fs => fs.checkPermission inode creds.uid creds.gid flags.want
  openDescriptor task flags inode

theorem openFile_eq (now : UInt32) (task : TaskId) (path : Name) (flags : OpenFlags) :
    openFile now task path flags = openedInode now task path flags >>= finishOpen task flags := rfl

theorem Unharmed.refl (live : Nat → Prop) (v : Volume) : Unharmed live v v := fun _ _ _ => ⟨rfl, fun _ _ => rfl⟩

theorem unharmed_of_undisturbed {live kept : Nat → Prop} {v w : Volume} (standing : NextFs.Standing live v)
    (same : Undisturbed kept v w) (files : ∀ i, live i → (v.inode i).isFile = true → kept i) :
      Unharmed live v w := by
  intro i here file
  have kept := files _ here file
  exact ⟨by rw [same.inode kept], same.readInodeData kept (standing.housed.working here)⟩

section

variable {live : Nat → Prop} {s : Files} {v : Volume} (mounted : s.mounted = some v)
    (standing : NextFs.Standing live v)

include mounted standing

theorem ends_openDescriptor (task : TaskId) (flags : OpenFlags) {inode : UInt32} (here : live inode.toNat) :
    Ends (openDescriptor task flags inode) s
      (fun _ t => t.mounted = s.mounted ∧ ¬s.vfs.NoRoom task)
      (fun fail t => t = s ∧ (s.vfs.NoRoom task ↔ ∃ error, fail = .vfs (.error error))) := by
  have alloc : ∀ file, Ends (onVfs (allocFd task file))
    s (fun _ t => t.mounted = s.mounted ∧ ¬s.vfs.NoRoom task)
      (fun fail t => t = s ∧ (s.vfs.NoRoom task ↔ ∃ error, fail = .vfs (.error error))) := by
    intro file
    rw [ends_onVfs_iff]
    refine (ends_allocFd_room task file s.vfs).imp (fun _ _ room => ⟨rfl, room⟩) ?_
    rintro stop _ ⟨rfl, room⟩
    exact ⟨rfl, by simpa using room⟩
  unfold openDescriptor
  dsimp only
  split
  · rw [ends_bind, ends_withFs_iff _ _ _ _ mounted, readInode_ok standing.ok (standing.housed.inside here)]
    exact alloc _
  · exact alloc _

theorem ends_finishOpen (task : TaskId) (flags : OpenFlags) {inode : UInt32} (here : live inode.toNat) :
    Ends (finishOpen task flags inode) s (fun _ t => t.mounted = s.mounted ∧ ¬s.RefusesOpen v task flags inode)
      (fun fail t => t = s ∧ (s.RefusesOpen v task flags inode ↔ ∃ error, fail = .vfs (.error error))) := by
  have rest := ends_openDescriptor mounted standing task flags here
  unfold finishOpen
  rw [ends_bind, ends_credentials]
  by_cases want : flags.want = 0
  · have refuses : s.RefusesOpen v task flags inode ↔ s.vfs.NoRoom task := by simp [Files.RefusesOpen, want]
    rw [if_neg (not_not_intro want), refuses]
    exact rest
  · rw [if_pos want, ends_bind, ends_withFs_iff _ _ _ _ mounted]
    split
    next permitted =>
      have refuses : s.RefusesOpen v task flags inode ↔ s.vfs.NoRoom task := by
        simp [Files.RefusesOpen, permitted]
      rw [refuses]
      exact rest
    next reason refused =>
      refine ⟨rfl, iff_of_true (Or.inl ⟨want, by rw [refused]; simp⟩) ?_⟩
      exact Failure.ofFs_calm (checkPermission_calm standing.ok refused)

theorem ends_createNew_unharmed (now : UInt32) (task : TaskId) (path : Name) :
    Ends (createNew now task path) s (fun _ t => ∃ w, t = { s with mounted := some w } ∧ Unharmed live v w)
      (fun _ t => ∃ w, t = { s with mounted := some w } ∧ Unharmed live v w) := by
  -- Making a file harms no other, whatever its name is.
  have unchanged : ∃ w, s = { s with mounted := some w } ∧ Unharmed live v w :=
    ⟨v, by rw [← mounted], Unharmed.refl live v⟩
  unfold createNew
  rw [ends_bind]
  refine (ends_parentOf mounted standing task path).imp ?_ ?_
  · rintro ⟨d, name⟩ _ ⟨rfl, here, _⟩
    dsimp only at here ⊢
    rw [ends_bind, ends_credentials, ends_withFsMut_iff _ _ _ _ mounted, owned, ends_bind]
    have unharmed : ∀ {w}, Undisturbed (fun i => live i ∧ ((v.inode i).isDir = true → i ≠ d.toNat)) v w →
        Unharmed live v w := by
      refine fun same => unharmed_of_undisturbed standing same fun i old file => ⟨old, fun dir => ?_⟩
      rw [Standing.not_dir_of_file file] at dir
      cases dir
    refine (standing.others_createFile here name now).imp ?_ fun _ w ⟨_, same⟩ => ⟨w, rfl, unharmed same⟩
    rintro r u ⟨fresh, same⟩
    rw [ends_bind, catchError, ends_attempt]
    have chowned := same.updateInode standing.ok (fun old held =>
      (standing.housed.owned.sound.backed (Housed.owner old.1) held).1) (c := r)
      (fun i old => by rintro rfl; exact fresh old.1)
    refine (chowned _).imp (fun _ w changed => ⟨w, rfl, unharmed changed⟩) ?_
    rintro fail w ⟨calm, changed⟩
    cases fail with
    | panic => exact (calm rfl).elim
    | fs error => exact ⟨w, rfl, unharmed changed⟩
  · rintro _ _ ⟨rfl, _⟩
    exact unchanged

theorem ends_openedInode (now : UInt32) (task : TaskId) (path : Name) (flags : OpenFlags) :
    Ends (openedInode now task path flags) s
      (fun inode t => ∃ w, t = { s with mounted := some w } ∧
        (Unharmed live v w ∧ (¬(flags.create = true ∧ flags.truncate = true) ∨
          resolvePath path s ≠ .ok inode s) ∨
          (flags.create = true ∧ flags.truncate = true) ∧ resolvePath path s = .ok inode s ∧ live inode.toNat ∧
            (v.inode inode.toNat).isFile = true ∧ w.inode inode.toNat = (v.inode inode.toNat).cut 0 ∧
            Altered live v w inode.toNat))
      (fun _ t => ∃ w, t = { s with mounted := some w } ∧ Unharmed live v w) := by
  have whole : s = { s with mounted := some v } := by rw [← mounted]
  have unchanged : ∃ w, s = { s with mounted := some w } ∧ Unharmed live v w := ⟨v, whole, Unharmed.refl live v⟩
  have path' := ends_resolvePath mounted standing path
  unfold openedInode
  by_cases create : flags.create = true
  · rw [if_pos create, ends_bind, ends_attempt]
    refine (path'.and (Ends.self _ s)).imp ?_ ?_
    · rintro inode t ⟨⟨rfl, here⟩, found⟩
      dsimp only
      by_cases cut : flags.truncate = true
      · rw [if_pos cut, ends_bind, ends_withFsMut_iff _ _ _ _ mounted]
        refine (standing.ends_truncate (clean_zero _ _)).imp ?_ ?_
        · rintro _ w ⟨_, file, record, altered⟩
          exact ⟨w, rfl, Or.inr ⟨⟨create, cut⟩, found, here, file, record, altered⟩⟩
        · rintro fail w (⟨_, long⟩ | ⟨_, rfl, _⟩)
          · simp [lastBlock] at long
          · exact ⟨w, rfl, Unharmed.refl live w⟩
      · rw [if_neg cut]
        exact ⟨v, whole, Or.inl ⟨Unharmed.refl live v, Or.inl fun both => cut both.2⟩⟩
    · rintro fail t ⟨⟨rfl, error, rfl⟩, missing⟩
      dsimp only
      split
      · refine (ends_createNew_unharmed mounted standing now task path).imp ?_ fun _ _ => id
        rintro inode t ⟨w, rfl, unharmed⟩
        refine ⟨w, rfl, Or.inl ⟨unharmed, Or.inr ?_⟩⟩
        rw [missing]
        simp
      · exact unchanged
  · rw [if_neg create]
    refine path'.imp ?_ ?_
    · rintro inode t ⟨rfl, _⟩
      exact ⟨v, whole, Or.inl ⟨Unharmed.refl live v, Or.inl fun both => create both.1⟩⟩
    · rintro fail t ⟨rfl, _⟩
      exact unchanged

end

theorem ends_openedInode_emptied {live : Nat → Prop} {s : Files} {v : Volume} (mounted : s.mounted = some v)
    (standing : NextFs.Standing live v) (now : UInt32) (task : TaskId) {path : Name} {flags : OpenFlags}
    (create : flags.create = true) (cut : flags.truncate = true) {inode : UInt32}
    (found : resolvePath path s = .ok inode s) (here : live inode.toNat)
    (file : (v.inode inode.toNat).isFile = true) :
    Ends (openedInode now task path flags) s
      (fun i t => i = inode ∧ ∃ w, t = { s with mounted := some w } ∧
        w.inode inode.toNat = (v.inode inode.toNat).cut 0 ∧ Altered live v w inode.toNat)
          (fun _ _ => False) := by
  -- `open` for creation with truncation finds a file and empties it.
  unfold openedInode
  rw [if_pos create, ends_bind, ends_attempt]
  refine (Ends.self (resolvePath path) s).imp ?_ ?_
  · rintro i t result
    cases found.symm.trans result
    dsimp only
    rw [if_pos cut, ends_bind, ends_withFsMut_iff _ _ _ _ mounted]
    refine (standing.ends_truncate (clean_zero _ _)).imp ?_ ?_
    · rintro _ w ⟨_, _, record, altered⟩
      exact ⟨rfl, w, rfl, record, altered⟩
    · rintro fail w (⟨_, long⟩ | ⟨_, _, missed⟩)
      · simp [lastBlock] at long
      · exact missed ⟨standing.housed.inside here, file⟩
  · rintro fail t result
    cases found.symm.trans result

def Files.SameBut (s t : Files) : Prop := t.mounted = s.mounted ∧ t.vfs.credentials = s.vfs.credentials

theorem same_finishOpen (task : TaskId) (flags : OpenFlags) (inode : UInt32) (s : Files) :
    Ends (finishOpen task flags inode) s (fun _ t => s.SameBut t) (fun _ t => s.SameBut t) := by
  have alloc : ∀ file, Ends (onVfs (allocFd task file)) s (fun _ t => s.SameBut t)
    (fun _ t => s.SameBut t) := by
    intro file
    rw [ends_onVfs_iff]
    refine (ends_allocFd task file s.vfs).imp (fun _ _ done => ?_) ?_
    · exact ⟨rfl, (allocates done).credentials⟩
    · rintro _ _ rfl
      exact ⟨rfl, rfl⟩
  have last : Ends (openDescriptor task flags inode) s (fun _ t => s.SameBut t) (fun _ t => s.SameBut t) := by
    unfold openDescriptor
    dsimp only
    split
    · refine Ends.bind ((ends_withFs_same s _).imp (fun _ _ => id)
        fun _ _ same => by rw [same]; exact ⟨rfl, rfl⟩) ?_
      rintro pos _ rfl
      exact alloc _
    · exact alloc _
  unfold finishOpen
  rw [ends_bind, ends_credentials]
  split
  · refine Ends.bind ((ends_withFs_same s _).imp (fun _ _ => id)
      fun _ _ same => by rw [same]; exact ⟨rfl, rfl⟩) ?_
    rintro _ _ rfl
    exact last
  · exact last

theorem unharmed_emptied {live : Nat → Prop} {v w : Volume} (standing : NextFs.Standing live v) {inode : UInt32}
    (here : live inode.toNat) (empty : (v.inode inode.toNat).size = 0)
    (record : w.inode inode.toNat = (v.inode inode.toNat).cut 0) (altered : Altered live v w inode.toNat) :
    Unharmed live v w := by
  -- Emptying a file that is empty harms nothing.
  have size : (w.inode inode.toNat).size = 0 := by
    rw [record, Inode.cut]
    split <;> rfl
  intro i there file
  by_cases same : i = inode
  · subst same
    refine ⟨size.trans empty.symm, fun offset len => ?_⟩
    have before := standing.housed.inside here
    have after := altered.standing.housed.inside here
    have type : (w.inode i.toNat).isFile = true := by
      rw [Inode.isFile, altered.types _ before, ← Inode.isFile]; exact file
    rw [Volume.readInodeData, Volume.readInodeData, readInode_ok standing.ok before,
      readInode_ok altered.standing.ok after]
    simp [bind, Except.bind, file, type, size, empty]
  · have other : i.toNat ≠ inode.toNat := fun equal => same (UInt32.toNat_inj.mp equal)
    have kept := altered.others
    exact ⟨by rw [kept.inode ⟨there, other⟩],
      kept.readInodeData ⟨there, other⟩ (standing.housed.working there)⟩

theorem RefusesOpen.congr {live : Nat → Prop} {s : Files} {v w : Volume} (standing : NextFs.Standing live v)
    {inode : UInt32} (here : live inode.toNat) (record : w.inode inode.toNat = (v.inode inode.toNat).cut 0)
    (altered : Altered live v w inode.toNat) (task : TaskId) (flags : OpenFlags) :
    Files.RefusesOpen { s with mounted := some w } w task flags inode ↔ s.RefusesOpen v task flags inode := by
  have same : ∀ uid gid want, w.checkPermission inode uid gid want = v.checkPermission inode uid gid want := by
    intro uid gid want
    have mode : ((v.inode inode.toNat).cut 0).permits uid gid want = (v.inode inode.toNat).permits
      uid gid want := by
      rw [Inode.cut]
      split <;> rfl
    have free : ((v.inode inode.toNat).cut 0).isFree = (v.inode inode.toNat).isFree := by
      rw [Inode.isFree, Inode.inodeType_cut, ← Inode.isFree]
    rw [Volume.checkPermission, Volume.checkPermission, readInode_ok standing.ok (standing.housed.inside here),
      readInode_ok altered.standing.ok (altered.standing.housed.inside here), record]
    simp only [bind, Except.bind, free, mode]
  simp only [Files.RefusesOpen, same]

theorem openFile_harmless_iff {live : Nat → Prop} (s : Files)
    (standing : ∀ v, s.mounted = some v → NextFs.Standing live v) (now : UInt32) (task : TaskId) (path : Name)
    (flags : OpenFlags) :
    (∀ error t, openFile now task path flags s = .error (.vfs (.error error)) t → s.Unharmed live t) ↔
      ¬s.ClearsThenRefuses task path flags := by
  cases mounted : s.mounted with
  | none =>
    refine iff_of_true (fun _ _ _ v found => by simp [mounted] at found) ?_
    rintro ⟨_, _, v, _, found, _⟩
    simp [mounted] at found
  | some v =>
    have standing := standing v mounted
    rw [openFile_eq]
    have opened := ends_openedInode mounted standing now task path flags
    constructor
    · rintro harmless ⟨create, cut, v', inode, found, path', file, filled, refuses⟩
      cases mounted.symm.trans found
      have here := ((ends_resolvePath mounted standing path).of_ok path').2
      have emptied := ends_openedInode_emptied mounted standing now task create cut path' here file
      have ends : Ends (openedInode now task path flags >>= finishOpen task flags) s (fun _ _ => False)
          (fun fail t => ∃ error, fail = .vfs (.error error) ∧ ¬s.Unharmed live t) := by
        rw [ends_bind]
        refine emptied.imp ?_ fun _ _ => False.elim
        rintro _ _ ⟨rfl, w, rfl, record, altered⟩
        have refuses' := (RefusesOpen.congr standing here record altered task flags).mpr refuses
        refine (ends_finishOpen rfl altered.standing task flags here).imp (fun _ _ done => done.2 refuses') ?_
        rintro fail _ ⟨rfl, refused⟩
        obtain ⟨error, rfl⟩ := refused.mp refuses'
        refine ⟨error, rfl, fun unharmed => ?_⟩
        obtain ⟨w', same, unharmed⟩ := unharmed v mounted
        cases same
        have size := (unharmed _ here file).1
        rw [record, Inode.cut] at size
        split at size
        next small => exact filled (UInt64.toNat_inj.mp (Nat.le_zero.mp small))
        next => exact filled size.symm
      obtain ⟨fail, t, failed, error, rfl, harmed⟩ := ends.error_of_never
      exact harmed (harmless error t failed)
    · intro never error t failed u found
      cases mounted.symm.trans found
      have ends : Ends (openedInode now task path flags >>= finishOpen task flags) s (fun _ _ => True)
          (fun fail t => (∃ error, fail = .vfs (.error error)) → ∃ w, t.mounted = some w ∧
            Unharmed live v w) := by
        rw [ends_bind]
        refine opened.imp ?_ ?_
        · rintro inode _ ⟨w, rfl, ⟨unharmed, _⟩ | ⟨⟨create, cut⟩, path', here, file, record, altered⟩⟩
          · refine (same_finishOpen task flags inode _).imp (fun _ _ _ => trivial) ?_
            rintro fail t ⟨same, _⟩ _
            exact ⟨w, same, unharmed⟩
          · refine (ends_finishOpen rfl altered.standing task flags here).imp (fun _ _ _ => trivial) ?_
            rintro fail _ ⟨rfl, refused⟩ error
            have refuses := (RefusesOpen.congr standing here record altered task flags).mp (refused.mpr error)
            have empty : (v.inode inode.toNat).size = 0 := by
              by_contra filled
              exact never ⟨create, cut, v, inode, mounted, path', file, filled, refuses⟩
            exact ⟨w, rfl, unharmed_emptied standing here empty record altered⟩
        · rintro fail _ ⟨w, rfl, unharmed⟩ _
          exact ⟨w, rfl, unharmed⟩
      exact ends.of_error failed ⟨error, rfl⟩

def guest : Files where
  mounted := some noteVolume
  vfs := { Vfs.initial.initTaskFds 1 with credentials
    := (∅ : Map TaskId Credentials).insert 1 { uid := 1000, gid := 1000 } }

theorem guest_standing : ∀ v, guest.mounted = some v → NextFs.Standing noteVolume.InUse v := by
  rintro v found
  cases found
  exact noteVolume_standing

end PickleOS.Fs
