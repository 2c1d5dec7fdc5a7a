import PickleOS.NextFs.Altering
import PickleOS.NextFs.Runs

set_option autoImplicit false

namespace PickleOS.NextFs

open Shared Shared.Outcome

/-- What `dir_list` shows of the inodes in use. -/
def Volume.directories (s : Volume) : Tree.Shape Name Nat where
  live i := s.marked i = true
  dir i := (s.inode i).isDir = true
  entries d :=
    match s.dirList (UInt32.ofNat d) with
    | .ok l => (l.map fun e => (e.1, e.2.toNat) : List (Name × Nat))
    | .error _ => 0

def Op.directory : Op → Option (UInt32 × Name)
  | createFile dirInode name | unlink dirInode name => some (dirInode, name)
  | createDir parentInode name | rmdir parentInode name => some (parentInode, name)
  | _ => none

/-- Success, or an error that is neither want of space nor one of the device. -/
def Completes (op : Op) (now : UInt32) (s t : Volume) : Prop :=
  op.run now s = .ok () t ∨
    ∃ error, op.run now s = .error (.fs error) t ∧ error ≠ .noSpace ∧ ∀ reason, error ≠ .blockError reason

def DirectoryCall (s t : Volume) : Prop :=
  ∃ (op : Op) (now dirInode : UInt32) (name : Name), op.directory = some (dirInode, name) ∧ Storable name ∧
    s.marked dirInode.toNat = true ∧ (s.inode dirInode.toNat).isDir = true ∧ Completes op now s t

def Volume.InUse (s : Volume) (i : Nat) : Prop := s.marked i = true

theorem Volume.inUse_congr {s t : Volume} (same : ∀ i, t.marked i = true ↔ s.marked i = true) :
    t.InUse = s.InUse :=
  funext fun i => propext (same i)

theorem Fresh.standing {s : Volume} (fresh : Fresh s) : Standing s.InUse s := by
  have ok := fresh.layout
  have root := ok.root
  have data := fresh.inData_start
  have record := fresh.root
  have dir : (s.inode 1).isDir = true := by rw [record]; rfl
  have number : s.sb.dataStart.toNat = s.layout.dataStart := rfl
  have filled : s.sb.dataStart ≠ 0 := by
    intro zero
    have := ok.data_pos
    simp [← number, zero] at this
  obtain ⟨formed, contents⟩ :=
    formed_dots (s := s) (v := s.inode 1) dir (by rw [record]; rfl) (by rw [record]; rfl)
    (by rw [record]; rfl) filled (show rootInode ≠ 0 by decide) (show rootInode ≠ 0 by decide) fresh.dots
  have only : ∀ {i}, s.InUse i → i = 1 := fun here => (fresh.marked _).mp here
  have owners : s.owners s.InUse = s.Occupied := by
    funext i
    refine propext ?_
    rw [fresh.occupied_iff, Volume.owners, Volume.InUse, fresh.marked]
    refine ⟨?_, Or.inl⟩
    rintro (first | ⟨inside, file⟩)
    · exact first
    · by_contra other
      rw [fresh.others i inside.2 other] at file
      simp [Inode.isFile, Inode.empty] at file
  refine ⟨⟨?_, fun here => here, ?_, ?_⟩, ?_, ?_⟩
  · rw [owners]
    exact fresh.synced.owned
  · intro i here
    rw [only here]
    exact Or.inr dir
  · intro i here _
    rw [only here]
    exact formed
  · exact Tree.IsTree.single (by decide) (fun i => fresh.marked i) dir contents
  · intro d n c here _ member
    rw [only here, Volume.entries, contents] at member
    simp only [Multiset.insert_eq_cons, Multiset.mem_cons, Multiset.mem_singleton, Prod.mk.injEq] at member
    rcases member with ⟨rfl, _⟩ | ⟨rfl, _⟩ <;> exact ⟨⟨by decide, by decide⟩, by decide⟩

theorem Created.inUse {s t : Volume} {d c : Nat} {name : Name} (created : Created s.InUse s t d name c) :
    Standing t.InUse t := by
  have same : t.InUse = fun i => i = c ∨ s.InUse i := funext fun i => propext (created.marked i)
  rw [same]
  exact created.standing

theorem Removed.inUse {s t : Volume} {d c : Nat} {name : Name} (removed : Removed s.InUse s t d name c) :
    Standing t.InUse t := by
  have same : t.InUse = fun i => i ≠ c ∧ s.InUse i := funext fun i => propext (removed.marked i)
  rw [same]
  exact removed.standing

theorem Refused.inUse {s t : Volume} {d : Nat} {error : FsError} (refused : Refused s.InUse s t d (.fs error))
    (space : error ≠ .noSpace) : Standing t.InUse t := by
  rcases refused.marked with same | ⟨full, _⟩
  · rw [Volume.inUse_congr same]
    exact refused.standing
  · cases full
    exact (space rfl).elim

theorem Altered.inUse {s t : Volume} {i : Nat} (altered : Altered s.InUse s t i) : Standing t.InUse t := by
  have same : t.InUse = s.InUse := Volume.inUse_congr fun j => by simp only [Volume.marked, altered.marks]
  exact same ▸ altered.standing

theorem DirectoryCall.standing {s t : Volume} (call : DirectoryCall s t) (standing : Standing s.InUse s) :
    Standing t.InUse t := by
  obtain ⟨op, now, dirInode, name, about, storable, here, _, completes⟩ := call
  have ends : Ends (op.run now) s (fun _ t => Standing t.InUse t) fun fail t =>
    Refused s.InUse s t dirInode.toNat fail := by
    cases op with
    | createFile d n =>
      cases about
      exact Ends.bind ((standing.ends_createFile here storable now).imp
        (fun _ _ created => created.1.inUse) fun _ _ => id)
        fun _ _ next => next
    | createDir d n =>
      cases about
      exact Ends.bind ((standing.ends_createDir here storable now).imp
        (fun _ _ created => created.1.inUse) fun _ _ => id)
        fun _ _ next => next
    | unlink d n =>
      cases about
      exact (standing.ends_unlink here now).imp (fun _ _ ⟨_, removed, _⟩ => removed.inUse) fun _ _ => And.left
    | rmdir d n =>
      cases about
      exact (standing.ends_rmdir here).imp (fun _ _ ⟨_, removed, _⟩ => removed.inUse) fun _ _ => And.left
    | write | writeFile | chmod | chown => cases about
  rcases completes with done | ⟨error, failed, space, _⟩
  · exact ends.of_ok done
  · exact (ends.of_error failed).inUse space

/-- Every run of directory operations on a fresh volume keeps the directories a tree. -/
theorem directories_tree {device formatted : Device} {fs : NextFS}
    {s : Volume} (done : format device = .ok () formatted)
    (mounted : formatted.mount = .ok fs)
    (run : Relation.ReflTransGen DirectoryCall { fs with device := formatted } s) :
    (∀ d, s.directories.Folder d → ∃ l, s.dirList (UInt32.ofNat d) = .ok l) ∧
    (∀ d, s.directories.Folder d → ((s.directories.entries d).map Prod.fst).Nodup) ∧
    (∀ d n c, s.directories.Folder d → (n, c) ∈ s.directories.entries d → s.InUse c) ∧
    (∀ c, s.InUse c → c ≠ rootInode.toNat → ∃! e : Nat × Name, s.directories.Folder e.1 ∧
      Tree.Proper dot dotdot e.2 ∧ (e.2, c) ∈ s.directories.entries e.1) ∧
    (∀ d, s.directories.Folder d → (dot, d) ∈ s.directories.entries d ∧ ∃ p,
    (dotdot, p) ∈ s.directories.entries d ∧
      (d = rootInode.toNat ∧ p = rootInode.toNat ∨
        s.directories.Folder p ∧ ∃ n, Tree.Proper dot dotdot n ∧ (n, d) ∈ s.directories.entries p)) ∧
    ∀ c, s.InUse c → Tree.Reaches dot dotdot rootInode.toNat s.directories c := by
  have standing : Standing s.InUse s := by
    induction run with
    | refl => exact (fresh_of_mount done mounted).standing
    | tail _ call ih => exact call.standing ih
  have number : ∀ {d}, s.InUse d → (UInt32.ofNat d).toNat = d := fun here =>
    UInt32.toNat_ofNat_of_lt' ((standing.housed.inside here).2.trans s.layout.inodeCount_lt)
  have listing : ∀ d, s.directories.Folder d →
      ∃ l, s.dirList (UInt32.ofNat d) = .ok l ∧ s.directories.entries d = s.entries d := by
    rintro d ⟨here, dir⟩
    have inside := standing.housed.inside here
    have working := standing.housed.working here
    have formed := standing.formed here dir
    rw [← number here] at inside working formed
    obtain ⟨l, list, contents⟩ := dirList_contents standing.ok inside working formed
    refine ⟨l, list, ?_⟩
    simp only [Volume.directories, list]
    rw [Volume.entries, contents, number here]
  have tree : Tree.IsTree dot dotdot rootInode.toNat s.directories :=
    standing.tree.congr (fun _ => Iff.rfl) (fun _ _ => Iff.rfl) fun d folder => (listing d folder).choose_spec.2
  refine ⟨fun d folder => ⟨_, (listing d folder).choose_spec.1⟩, fun d folder => tree.names folder,
    fun d n c folder => tree.child folder, fun c present other => tree.named_once present other,
      fun d folder => ⟨tree.self folder, tree.parent folder⟩,
    fun c => tree.reach⟩

/-- A directory `b` is made on a fresh volume. -/
theorem directories_tree_small :
    ∃ (device formatted : Device) (fs : NextFS) (s : Volume), format device = .ok () formatted ∧
      formatted.mount = .ok fs ∧ Relation.ReflTransGen DirectoryCall { fs with device := formatted } s ∧
      s.InUse 2 ∧
      Tree.Reaches dot dotdot rootInode.toNat s.directories 2 := by
  obtain ⟨formatted, fs, done, mounted, made⟩ := freshVolume_some smallVolume_made
  have evaluated : succeeds ((Op.createDir 1 [0x62]).run 0) smallVolume = true ∧
      (final ((Op.createDir 1 [0x62]).run 0) smallVolume).marked 2 = true := by decide +kernel
  obtain ⟨success, used⟩ := evaluated
  have call : DirectoryCall smallVolume (final ((Op.createDir 1 [0x62]).run 0) smallVolume) :=
    ⟨_, 0, 1, [0x62], rfl, ⟨by decide, by decide⟩, by decide +kernel, by decide +kernel,
      Or.inl (ok_of_succeeds success)⟩
  have used : (final ((Op.createDir 1 [0x62]).run 0) smallVolume).InUse 2 := used
  have run := Relation.ReflTransGen.single call
  rw [made] at run used
  exact ⟨_, formatted, fs, _, done, mounted, run, used, (directories_tree done mounted run).2.2.2.2.2 2 used⟩

/-- An operation on the root directory with a name that is stored as it is, or a write. -/
def Op.InRoot : Op → Prop
  | createFile dirInode name | createDir dirInode name | unlink dirInode name | rmdir dirInode name =>
    dirInode = rootInode ∧ Storable name
  | write .. => True
  | _ => False

theorem Standing.inRoot {s t : Volume} (standing : Standing s.InUse s)
    {op : Op} {now : UInt32} (about : op.InRoot)
    (plain : op.Plain s) (done : op.run now s = .ok () t) : Standing t.InUse t := by
  cases op with
  | createFile d n =>
    obtain ⟨rfl, storable⟩ := about
    obtain ⟨_, done⟩ := ok_of_dropped done
    exact ((standing.ends_createFile standing.root storable now).of_ok done).1.inUse
  | createDir d n =>
    obtain ⟨rfl, storable⟩ := about
    obtain ⟨_, done⟩ := ok_of_dropped done
    exact ((standing.ends_createDir standing.root storable now).of_ok done).1.inUse
  | unlink d n =>
    obtain ⟨rfl, storable⟩ := about
    obtain ⟨_, removed, _⟩ := (standing.ends_unlink standing.root now).of_ok done
    exact removed.inUse
  | rmdir d n =>
    obtain ⟨rfl, storable⟩ := about
    obtain ⟨_, removed, _⟩ := (standing.ends_rmdir standing.root).of_ok done
    exact removed.inUse
  | write r offset data =>
    obtain ⟨_, done⟩ := ok_of_dropped done
    exact ((standing.ends_writeAt (Standing.not_dir_of_file plain.1) now offset.toNat data).of_ok
      done).2.2.inUse
  | writeFile | chmod | chown => exact about.elim

theorem Standing.replay {s t : Volume} {ops : List Op} (standing : Standing s.InUse s)
    (about : ∀ op ∈ ops, op.InRoot)
    (played : NextFs.replay s ops = some t) : Standing t.InUse t := by
  induction ops generalizing s with
  | nil =>
    cases played
    exact standing
  | cons op rest ih =>
    obtain ⟨first, later⟩ := List.forall_mem_cons.mp about
    rw [NextFs.replay] at played
    split at played
    next plain =>
      split at played
      next u done => exact ih (standing.inRoot first plain done) later played
      next => simp at played
    next => simp at played

theorem smallVolume_standing : Standing smallVolume.InUse smallVolume := by
  obtain ⟨formatted, fs, done, mounted, made⟩ := freshVolume_some smallVolume_made
  rw [made]
  exact (fresh_of_mount done mounted).standing

theorem usedVolume_standing : Standing usedVolume.InUse usedVolume := by
  refine smallVolume_standing.replay ?_ usedVolume_played
  have storable : Storable [0x61] ∧ Storable [0x62] := ⟨⟨by decide, by decide⟩, by decide, by decide⟩
  simp [usedOps, Op.InRoot, rootInode, storable]

theorem noteVolume_standing : Standing noteVolume.InUse noteVolume := by
  refine smallVolume_standing.replay ?_ noteVolume_played
  have storable : Storable [0x61] := ⟨by decide, by decide⟩
  simp [noteOps, Op.InRoot, rootInode, storable]

end PickleOS.NextFs
