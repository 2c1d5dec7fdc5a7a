import PickleOS.NextFs.Linking
import PickleOS.Shared.Tree

set_option autoImplicit false

namespace PickleOS.NextFs

open Shared Shared.Outcome

def Volume.shape (live : Nat → Prop) (s : Volume) : Tree.Shape Name Nat where
  live := live
  dir i := (s.inode i).isDir = true
  entries := s.entries

/-- The live inodes are in order and form a tree whose names can be looked up. -/
structure Standing (live : Nat → Prop) (s : Volume) : Prop where
  housed : Housed live s
  tree : Tree.IsTree dot dotdot rootInode.toNat (s.shape live)
  names : ∀ {d n c}, live d → (s.inode d).isDir = true → (n, c) ∈ s.entries d → Storable n ∧ n.length < 60

/-- The new inode `c` is named by the directory `d`. -/
structure Created (live : Nat → Prop) (s t : Volume) (d : Nat) (name : Name) (c : Nat) : Prop where
  standing : Standing (fun i => i = c ∨ live i) t
  fresh : ¬live c
  dir : (s.inode d).isDir = true
  type : (t.inode d).inodeType = (s.inode d).inodeType
  entries : t.entries d = (name, c) ::ₘ s.entries d
  others : Undisturbed (fun i => live i ∧ i ≠ d) s t
  marked : ∀ i, t.marked i = true ↔ i = c ∨ s.marked i = true

/-- The new inode `c` was free, and is empty if it is a directory. The directory `d` has kept its owner
and its mode. -/
structure Made (s t : Volume) (d c : Nat) : Prop where
  unmarked : s.marked c = false
  permits : ∀ uid gid want, (t.inode d).permits uid gid want = (s.inode d).permits uid gid want
  bare : (t.inode c).isDir = true → t.entries c = {(dot, c), (dotdot, d)}

/-- An operation on the directory `d` failed. -/
structure Refused (live : Nat → Prop) (s t : Volume) (d : Nat) (fail : Fail) : Prop where
  calm : fail ≠ .panic
  standing : Standing live t
  type : (t.inode d).inodeType = (s.inode d).inodeType
  entries : (s.inode d).isDir = true → t.entries d = s.entries d
  others : Undisturbed (fun i => live i ∧ i ≠ d) s t
  -- An inode number may be lost if there is no block for a new directory.
  marked : (∀ i, t.marked i = true ↔ s.marked i = true) ∨
    fail = .fs .noSpace ∧ ∃ i, s.nextInode = some i ∧ s.nextFree = none ∧ t = s.takeInode i

/-- The directory `d` lost its entry for the inode `c`, which is free now. -/
structure Removed (live : Nat → Prop) (s t : Volume) (d : Nat) (name : Name) (c : Nat) : Prop where
  standing : Standing (fun i => i ≠ c ∧ live i) t
  here : live c
  other : d ≠ c
  dir : (s.inode d).isDir = true
  type : (t.inode d).inodeType = (s.inode d).inodeType
  entries : s.entries d = (name, c) ::ₘ t.entries d
  others : Undisturbed (fun i => live i ∧ i ≠ d ∧ i ≠ c) s t
  marked : ∀ i, t.marked i = true ↔ i ≠ c ∧ s.marked i = true

/-- The inode `c` and its blocks are free, all other blocks and records are as they were. -/
structure Frees (s t : Volume) (c : Nat) : Prop where
  used : ∀ b, t.used b = true ↔ s.used b = true ∧ ∀ p, (s.inode c).holds s.device.data p ≠ some b
  records : ∀ i, i < s.layout.inodeCount → i ≠ c → t.inode i = s.inode i
  type : (t.inode c).inodeType = 0

namespace Standing

variable {live : Nat → Prop} {s t u : Volume} {d c : Nat} {name : Name}

theorem ok (standing : Standing live s) : s.layout.Ok := standing.housed.ok

theorem formed (standing : Standing live s) (here : live d) (dir : (s.inode d).isDir = true) :
    s.Formed (s.inode d) :=
  standing.housed.formed here dir

theorem folder (here : live d) (dir : (s.inode d).isDir = true) : (s.shape live).Folder d := ⟨here, dir⟩

theorem root (standing : Standing live s) : live rootInode.toNat := by
  have apex := standing.tree.apex
  exact apex.1

theorem child (standing : Standing live s) (here : live d) (dir : (s.inode d).isDir = true) {n : Name}
    (member : (n, c) ∈ s.entries d) : live c :=
  -- An entry of a directory names a live inode.
  standing.tree.child (folder here dir) member

theorem dirWorking (standing : Standing live s) {dirInode : UInt32} (here : live dirInode.toNat) :
    s.DirWorking dirInode := fun _ _ => standing.housed.working here

/-! ### Failures -/

theorem congr (standing : Standing live s) (housed : Housed live t)
    (types : ∀ i, live i → (t.inode i).inodeType = (s.inode i).inodeType)
    (entries : ∀ i, live i → (s.inode i).isDir = true → t.entries i = s.entries i) : Standing live t := by
  -- The same live inodes with the same entries.
  have dirs : ∀ {i}, live i → ((t.inode i).isDir = true ↔ (s.inode i).isDir = true) := by
    intro i here
    rw [Inode.isDir, types i here, ← Inode.isDir]
  refine ⟨housed, ?_, ?_⟩
  · exact standing.tree.congr (fun _ => Iff.rfl) (fun i here => dirs here) fun i here => entries i here.1 here.2
  · intro i n x here dir member
    rw [dirs here] at dir
    rw [entries i here dir] at member
    exact standing.names here dir member

theorem refuse (standing : Standing live s) {fail : Fail} (calm : fail ≠ .panic) (housed : Housed live t)
    (type : (t.inode d).inodeType = (s.inode d).inodeType)
    (entries : (s.inode d).isDir = true → t.entries d = s.entries d)
    (others : Undisturbed (fun i => live i ∧ i ≠ d) s t)
    (marked : (∀ i, t.marked i = true ↔ s.marked i = true) ∨
      fail = .fs .noSpace ∧ ∃ i, s.nextInode = some i ∧ s.nextFree = none ∧ t = s.takeInode i) :
    Refused live s t d fail := by
  refine ⟨calm, standing.congr housed ?_ ?_, type, entries, others, marked⟩
  · intro i here
    by_cases same : i = d
    · rw [same, type]
    · rw [others.inode ⟨here, same⟩]
  · intro i here dir
    by_cases same : i = d
    · rw [same] at dir ⊢
      exact entries dir
    · exact others.entries ⟨here, same⟩ (standing.formed here dir)

theorem refuse_same (standing : Standing live s) {fail : Fail} (calm : fail ≠ .panic) (d : Nat) :
    Refused live s s d fail :=
  standing.refuse calm standing.housed rfl (fun _ => rfl) (Undisturbed.refl _ s) (Or.inl fun _ => Iff.rfl)

/-! ### Creation -/

theorem staged_same (fresh : ¬live c) (first : Apart (s.owners live) c s t) : Undisturbed live s t :=
  first.undisturbed.mono fun i old => ⟨Housed.owner old, by rintro rfl; exact fresh old⟩

section Create

variable (standing : Standing live s) (here : live d)
  -- The volume `t` has the new inode `c`, not yet named.
  (staged : Housed (fun i => i = c ∨ live i) t) (fresh : ¬live c) (first : Apart (s.owners live) c s t)

include standing here staged fresh first

theorem create (becomes : Becomes (fun i => i = c ∨ live i) t u d ((name, c) ::ₘ t.entries d))
    (apart : Apart (t.owners fun i => i = c ∨ live i) d t u) (storable : Storable name)
    (short : name.length < 60)
    (absent : ∀ x, (name, x) ∉ t.entries d) (dir : (t.inode d).isDir = true)
    (dots : (t.inode c).isDir = true → t.entries c = {(dot, c), (dotdot, d)})
    (marked : ∀ i, u.marked i = true ↔ i = c ∨ s.marked i = true) : Created live s u d name c := by
  have same := staged_same fresh first
  have different : c ≠ d := by
    rintro rfl
    exact fresh here
  have isDir : (s.inode d).isDir = true := by rw [← same.inode here]; exact dir
  have before : t.entries d = s.entries d := same.entries here (standing.formed here isDir)
  have others : Undisturbed (fun i => live i ∧ i ≠ d) s u :=
    (same.mono fun i old => old.1).trans (apart.undisturbed.mono fun i old =>
      ⟨Housed.owner (Or.inr old.1), old.2⟩)
  have typed : ∀ i, live i → (u.inode i).inodeType = (s.inode i).inodeType := by
    intro i old
    rw [becomes.types i (staged.inside (Or.inr old)), same.inode old]
  have new : u.inode c = t.inode c := apart.inode c different (Housed.owner (Or.inl rfl))
  have linked : Tree.Linked dot dotdot (s.shape live) d name c (u.shape fun i => i = c ∨ live i) := by
    refine ⟨⟨here, isDir⟩, fresh, ?_, fun x => or_comm, ?_, ?_, ?_, ?_⟩
    · intro x member
      exact absent x (before ▸ member)
    · intro x old
      change (u.inode x).isDir = true ↔ (s.inode x).isDir = true
      rw [Inode.isDir, typed x old, ← Inode.isDir]
    · change u.entries d = (name, c) ::ₘ s.entries d
      rw [becomes.entries, before]
    · intro x folder other
      exact others.entries ⟨folder.1, other⟩ (standing.formed folder.1 folder.2)
    · intro dirC
      change (u.inode c).isDir = true at dirC
      rw [new] at dirC
      change u.entries c = _
      rw [becomes.others c (Or.inl rfl) dirC different]
      exact dots dirC
  refine ⟨⟨becomes.housed, standing.tree.link linked (by decide), ?_⟩, fresh, isDir, typed d here,
    linked.entries, others, marked⟩
  intro x n y liveX dirX member
  rcases linked.mem_new (folder liveX dirX) member with ⟨folder, old⟩ | ⟨_, rfl, _⟩ | ⟨_, link | link⟩
  · exact standing.names folder.1 folder.2 old
  · exact ⟨storable, short⟩
  · cases link
    exact ⟨⟨by decide, by decide⟩, by decide⟩
  · cases link
    exact ⟨⟨by decide, by decide⟩, by decide⟩

omit standing staged in
theorem make (becomes : Becomes (fun i => i = c ∨ live i) t u d ((name, c) ::ₘ t.entries d))
    (apart : Apart (t.owners fun i => i = c ∨ live i) d t u) (unmarked : s.marked c = false)
    (permits : ∀ uid gid want, (u.inode d).permits uid gid want = (t.inode d).permits uid gid want)
    (dots : (t.inode c).isDir = true → t.entries c = {(dot, c), (dotdot, d)}) : Made s u d c := by
  have different : c ≠ d := by
    rintro rfl
    exact fresh here
  refine ⟨unmarked, fun uid gid want => ?_, fun dirC => ?_⟩
  · rw [permits, (staged_same fresh first).inode here]
  · rw [apart.inode c different (Housed.owner (Or.inl rfl))] at dirC
    rw [becomes.others c (Or.inl rfl) dirC different]
    exact dots dirC

theorem undo (becomes : Becomes (fun i => i = c ∨ live i) t u d (t.entries d))
    (apart : Apart (t.owners fun i => i = c ∨ live i) d t u) {v : Volume} (layout : v.layout = u.layout)
    (device : v.device = u.device) (housed : Housed live v) {fail : Fail} (calm : fail ≠ .panic)
    (marked : ∀ i, v.marked i = true ↔ s.marked i = true) : Refused live s v d fail := by
  -- The entry was refused, and what was staged is undone.
  have same := staged_same fresh first
  have records : v.inode = u.inode := by
    funext i
    rw [Volume.inode, Volume.inode, layout, device]
  have last : Undisturbed (fun _ => True) u v := ⟨layout, fun _ => by rw [records], fun _ _ => by rw [device]⟩
  have typed : (u.inode d).inodeType = (s.inode d).inodeType := by
    rw [becomes.types d (staged.inside (Or.inr here)), same.inode here]
  have others : Undisturbed (fun i => live i ∧ i ≠ d) s v :=
    ((same.mono fun i old => old.1).trans
      (apart.undisturbed.mono fun i old => ⟨Housed.owner (Or.inr old.1), old.2⟩)).trans
        (last.mono fun _ _ => trivial)
  refine standing.refuse calm housed (by rw [records, typed]) (fun dir => ?_) others (Or.inl marked)
  have kept : (u.inode d).isDir = true := by rw [Inode.isDir, typed, ← Inode.isDir]; exact dir
  rw [last.entries trivial (becomes.housed.formed (Or.inr here) kept), becomes.entries]
  exact same.entries here (standing.formed here dir)

end Create

theorem ends_createFile (standing : Standing live s) {dirInode : UInt32} (here : live dirInode.toNat)
    (storable : Storable name) (now : UInt32) :
    Ends (createFile now dirInode name) s
      (fun r t => Created live s t dirInode.toNat name r.toNat ∧ (t.inode r.toNat).isFile = true ∧
        Made s t dirInode.toNat r.toNat)
      (fun fail t => Refused live s t dirInode.toNat fail) := by
  have housed := standing.housed
  have raw := NextFs.ends_createFile standing.ok now dirInode name fun i next =>
    fun _ _ => (housed.stageFile next now).working (Or.inr here)
  refine raw.imp ?_ ?_
  · rintro r t ⟨c, next, rfl, added⟩
    obtain ⟨_, inside, unmarked, _⟩ := Volume.nextInode_some standing.ok next
    obtain ⟨number, target⟩ := Volume.nextInode_number standing.ok next
    have staged := housed.stageFile next now
    have fresh := housed.next_fresh next
    obtain ⟨⟨dir, short, absent, becomes⟩, apart⟩ :=
      (staged.ends_addEntry (show _ ∨ live dirInode.toNat from Or.inr here) storable target now).of_ok added
    have different : c ≠ dirInode.toNat := by
      rintro rfl
      exact fresh here
    have file : ((s.stageFile now c).inode c).isFile = true := by
      rw [Volume.stageFile, Volume.inode_setInode, if_pos rfl]
      rfl
    have dots : ((s.stageFile now c).inode c).isDir = true →
        (s.stageFile now c).entries c = {(dot, c), (dotdot, dirInode.toNat)} := by
      intro isDir
      simp only [Inode.isDir, Inode.isFile, decide_eq_true_eq] at isDir file
      simp [isDir] at file
    have first := housed.apart_stageFile next now
    rw [number] at becomes ⊢
    refine ⟨standing.create here staged fresh first becomes apart storable short absent dir dots ?_, ?_,
      make here fresh first becomes apart unmarked
        (staged.permits_addEntry (show _ ∨ live dirInode.toNat from Or.inr here) added) dots⟩
    · intro i
      rw [Volume.marked, becomes.marks, ← Volume.marked, Volume.stageFile, Volume.marked_setInode,
        Volume.marked_takeInode standing.ok inside]
      by_cases same : i = c <;> simp [same]
    · rw [apart.inode c different (Housed.owner (Or.inl rfl))]
      exact file
  · rintro fail t ⟨calm, ⟨_, _, rfl⟩ | ⟨c, u, next, rfl, refused⟩⟩
    · exact standing.refuse_same calm _
    · have target := (Volume.nextInode_number standing.ok next).2
      obtain ⟨_, inside, unmarked, _⟩ := Volume.nextInode_some standing.ok next
      have staged := housed.stageFile next now
      have fresh := housed.next_fresh next
      obtain ⟨⟨_, _, becomes⟩, apart⟩ :=
        (staged.ends_addEntry (show _ ∨ live dirInode.toNat from Or.inr here)
        storable target now).of_error refused
      have different : c ≠ dirInode.toNat := by
        rintro rfl
        exact fresh here
      have file : (u.inode c).isFile = true := by
        rw [apart.inode c different (Housed.owner (Or.inl rfl)), Volume.stageFile, Volume.inode_setInode,
          if_pos rfl]
        rfl
      refine standing.undo here staged fresh (housed.apart_stageFile next now)
        becomes apart (Volume.layout_dropInode u c)
        rfl (becomes.housed.drop_file (fun _ => Iff.rfl) fresh file) calm ?_
      intro i
      rw [Volume.marked_dropInode becomes.housed.ok (becomes.housed.inside (Or.inl rfl)).2, Volume.marked,
        becomes.marks,
        ← Volume.marked, Volume.stageFile, Volume.marked_setInode, Volume.marked_takeInode standing.ok inside]
      by_cases same : i = c <;> simp [same, unmarked]

theorem others_createFile (standing : Standing live s) {dirInode : UInt32} (here : live dirInode.toNat)
    (name : Name)
    (now : UInt32) :
    Ends (createFile now dirInode name) s
      (fun r t => ¬live r.toNat ∧ Undisturbed
        (fun i => live i ∧ ((s.inode i).isDir = true → i ≠ dirInode.toNat)) s t)
      (fun fail t => fail ≠ .panic ∧
        Undisturbed (fun i => live i ∧ ((s.inode i).isDir = true → i ≠ dirInode.toNat)) s t) := by
  -- Whatever the name is, no live inode changes but the directory.
  have housed := standing.housed
  have both : ∀ {c u}, s.nextInode = some c →
      Apart ((s.stageFile now c).owners fun i => i = c ∨ live i) dirInode.toNat (s.stageFile now c) u →
      ((s.inode dirInode.toNat).isDir = false → u = s.stageFile now c) →
      Undisturbed (fun i => live i ∧ ((s.inode i).isDir = true → i ≠ dirInode.toNat)) s u := by
    intro c u next apart stays
    have same := staged_same (housed.next_fresh next) (housed.apart_stageFile next now)
    cases dir : (s.inode dirInode.toNat).isDir with
    | true =>
      refine (same.mono fun i old => old.1).trans
        (apart.undisturbed.mono fun i old => ⟨Housed.owner (Or.inr old.1), ?_⟩)
      rintro rfl
      exact old.2 dir rfl
    | false =>
      rw [stays dir]
      exact same.mono fun i old => old.1
  have record : ∀ {c}, s.nextInode = some c →
    (s.stageFile now c).inode dirInode.toNat = s.inode dirInode.toNat :=
    fun next => (staged_same (housed.next_fresh next) (housed.apart_stageFile next now)).inode here
  refine (NextFs.ends_createFile standing.ok now dirInode name fun i next =>
    fun _ _ => (housed.stageFile next now).working (Or.inr here)).imp ?_ ?_
  · rintro r t ⟨c, next, rfl, added⟩
    obtain ⟨dir, apart⟩ := ((housed.stageFile next now).apart_addEntry (Or.inr here) name _ now).of_ok added
    rw [(Volume.nextInode_number standing.ok next).1]
    refine ⟨housed.next_fresh next, both next apart fun notDir => ?_⟩
    rw [record next, notDir] at dir
    cases dir
  · rintro fail t ⟨calm, ⟨_, _, rfl⟩ | ⟨c, u, next, rfl, refused⟩⟩
    · exact ⟨calm, Undisturbed.refl _ _⟩
    · obtain ⟨apart, stays⟩ :=
        ((housed.stageFile next now).apart_addEntry (Or.inr here) name _ now).of_error refused
      rw [record next] at stays
      exact ⟨calm, (both next apart stays).trans (Undisturbed.of_device _ (Volume.layout_dropInode u c) rfl)⟩

theorem ends_createDir (standing : Standing live s) {parentInode : UInt32} (here : live parentInode.toNat)
    (storable : Storable name) (now : UInt32) :
    Ends (createDir now parentInode name) s
      (fun r t => Created live s t parentInode.toNat name r.toNat ∧ (t.inode r.toNat).isDir = true ∧
        Made s t parentInode.toNat r.toNat)
      (fun fail t => Refused live s t parentInode.toNat fail) := by
  have housed := standing.housed
  have up : parentInode ≠ 0 := by
    rintro rfl
    exact absurd (housed.inside here).1 (by decide)
  have raw := NextFs.ends_createDir standing.ok now parentInode name fun i b next found =>
    fun _ _ => (housed.stageDir next found now up).working (Or.inr here)
  refine raw.imp ?_ ?_
  · rintro r t ⟨c, b, next, found, rfl, added⟩
    obtain ⟨_, inside, unmarked, _⟩ := Volume.nextInode_some standing.ok next
    obtain ⟨number, target⟩ := Volume.nextInode_number standing.ok next
    have staged := housed.stageDir next found now up
    have fresh := housed.next_fresh next
    obtain ⟨⟨dir, short, absent, becomes⟩, apart⟩ :=
      (staged.ends_addEntry (show _ ∨ live parentInode.toNat from Or.inr here) storable target now).of_ok added
    have different : c ≠ parentInode.toNat := by
      rintro rfl
      exact fresh here
    have first := housed.apart_stageDir next found now parentInode
    have dots := (housed.dots_stageDir next found now up).2
    rw [number] at becomes ⊢
    refine ⟨standing.create here staged fresh first becomes apart storable short absent dir
      (fun _ => dots) ?_, ?_,
      make here fresh first becomes apart unmarked
        (staged.permits_addEntry (show _ ∨ live parentInode.toNat from Or.inr here) added) fun _ => dots⟩
    · intro i
      rw [Volume.marked, becomes.marks, ← Volume.marked, Volume.stageDir, Volume.marked_setInode,
        Volume.marked_setBlock,
        Volume.marked_takeBlock, Volume.marked_takeInode standing.ok inside]
      by_cases same : i = c <;> simp [same]
    · rw [apart.inode c different (Housed.owner (Or.inl rfl)), Housed.inode_stageDir]
      rfl
  · rintro fail t ⟨calm, ⟨_, _, rfl⟩ | ⟨i, next, none, full, rfl⟩ | ⟨c, b, u, next, found, rfl, refused⟩⟩
    · exact standing.refuse_same calm _
    · have inside := (Volume.nextInode_some standing.ok next).2.1
      have same := Undisturbed.of_device (t := s.takeInode i) (fun _ => True) (Volume.layout_takeInode s i) rfl
      have kept : Housed live (s.takeInode i) := by
        refine housed.forget (fun _ old => old) (Volume.layout_takeInode s i) rfl ?_ ?_
        · intro j old
          rw [Volume.marked_takeInode standing.ok inside]
          simp [housed.marked old]
        · have owners : (s.takeInode i).owners live = s.owners live :=
            Volume.owners_congr (Volume.layout_takeInode s i) fun _ _ => by rw [Volume.inode_takeInode]
          rw [owners]
          exact housed.owned.takeInode i
      refine standing.refuse calm kept (by rw [Volume.inode_takeInode]) ?_ (same.mono fun _ _ => trivial)
        (Or.inr ⟨full, i, next, none, rfl⟩)
      intro dir
      exact same.entries trivial (standing.formed here dir)
    · obtain ⟨_, inside, unmarked, _⟩ := Volume.nextInode_some standing.ok next
      have target := (Volume.nextInode_number standing.ok next).2
      have staged := housed.stageDir next found now up
      have fresh := housed.next_fresh next
      obtain ⟨⟨_, _, becomes⟩, apart⟩ :=
        (staged.ends_addEntry (show _ ∨ live parentInode.toNat from Or.inr here)
        storable target now).of_error refused
      have different : c ≠ parentInode.toNat := by
        rintro rfl
        exact fresh here
      have record : u.inode c = Volume.newDirInode now b := by
        rw [apart.inode c different (Housed.owner (Or.inl rfl)), Housed.inode_stageDir]
      have held : (u.inode c).holds u.device.data (.data 0) = some b := by
        rw [record, holds_newDir housed.owned found]
        exact Function.update_self ..
      refine standing.undo here staged fresh (housed.apart_stageDir next found now parentInode) becomes apart
        (v := (u.dropBlock b).dropInode c) (by simp)
        rfl (becomes.housed.drop_dir (fun _ => Iff.rfl) fresh (by rw [record]; rfl) held) calm ?_
      intro i
      rw [Volume.marked_dropInode (by simpa using becomes.housed.ok)
        (by simpa using (becomes.housed.inside (Or.inl rfl)).2),
        Volume.marked_dropBlock, Volume.marked, becomes.marks, ← Volume.marked, Volume.stageDir,
          Volume.marked_setInode,
        Volume.marked_setBlock, Volume.marked_takeBlock, Volume.marked_takeInode standing.ok inside]
      by_cases same : i = c <;> simp [same, unmarked]

/-! ### Removal -/

/-- The directory `d` has lost its entry for `c` in `t`. -/
structure Blanked (live : Nat → Prop) (s t : Volume) (d : Nat) (name : Name) (c : Nat) : Prop where
  housed : Housed live t
  child : live c
  layout : t.layout = s.layout
  records : ∀ i, i < s.layout.inodeCount → t.inode i = s.inode i
  marks : t.inodeBitmap = s.inodeBitmap
  entries : s.entries d = (name, c) ::ₘ t.entries d
  others : Undisturbed (fun i => live i ∧ i ≠ d) s t
  unused : ∃ j, j < totalEntries (t.inode d) ∧ (t.slot (t.inode d) j).isUsed = false

theorem blank (standing : Standing live s) (here : live d) (dir : (s.inode d).isDir = true)
    {b slot : Nat} {r : UInt32}
    (found : s.namedEntry (s.inode d) name = .ok (some (b, slot, s.device.data b, r))) :
    Blanked live s (s.blank b slot) d name r.toNat := by
  have housed := standing.housed
  have working := housed.working here
  have formed := standing.formed here dir
  obtain ⟨j, below, used, named, number, rfl, rfl, _⟩ := namedEntry_slot working formed found
  obtain ⟨low, filled⟩ := formed.inside below
  have held := slotBlock_held low filled
  have clear : (DirEntry.new 0 []).isUsed = false := by decide
  obtain ⟨rest, removed, becomes⟩ := housed.cleared here dir below used
  rw [named, number] at removed
  have grown := Grown.write working held ((s.device.data (s.slotBlock (s.inode d) j)).setEntry (j % 8)
    (DirEntry.new 0 []))
  have records : ∀ i, i < s.layout.inodeCount → (s.blank (s.slotBlock (s.inode d) j) (j % 8)).inode
    i = s.inode i :=
    fun i small => Volume.inode_setBlock housed.ok (working.backed held).1.1 small _
  have record := records d (housed.inside here).2
  refine ⟨becomes.housed, ?_, rfl, records, rfl, removed.trans (congrArg _ becomes.entries.symm),
    (housed.owned.apart (Housed.owner here) grown).undisturbed.mono fun i old =>
      ⟨Housed.owner old.1, old.2⟩, j, ?_, ?_⟩
  · refine standing.child here dir (n := name) ?_
    rw [removed]
    exact Multiset.mem_cons_self _ _
  · rw [record]
    exact below
  · rw [record]
    have cleared := slot_patch working formed below (DirEntry.new 0 []) low filled
    rw [if_pos rfl] at cleared
    exact (congrArg DirEntry.isUsed cleared).trans clear

theorem remove (standing : Standing live s) (here : live d) (dir : (s.inode d).isDir = true)
    (blanked : Blanked live s t d name c) (proper : Tree.Proper dot dotdot name)
    (leaf : (s.inode c).isDir = true → ∀ m x, (m, x) ∈ s.entries c → ¬Tree.Proper dot dotdot m) :
    Removed live s (t.erase c) d name c := by
  -- The inode whose entry is gone is freed.
  obtain ⟨housed, apart⟩ := blanked.housed.erase blanked.child
  have other : d ≠ c := by
    rintro rfl
    refine leaf dir name d ?_ proper
    rw [blanked.entries]
    exact Multiset.mem_cons_self _ _
  have record : ∀ {i}, live i → i ≠ c → (t.erase c).inode i = s.inode i := by
    intro i old different
    rw [inode_erase, if_neg different, blanked.records i (standing.housed.inside old).2]
  have last : Undisturbed (fun i => live i ∧ i ≠ c) t (t.erase c) :=
    apart.undisturbed.mono fun i old => ⟨Housed.owner old.1, old.2⟩
  have entries : (t.erase c).entries d = t.entries d :=
    last.entries ⟨here, other⟩ (blanked.housed.formed
      here (by rw [blanked.records d (standing.housed.inside here).2]; exact dir))
  have others : Undisturbed (fun i => live i ∧ i ≠ d ∧ i ≠ c) s (t.erase c) :=
    (blanked.others.mono fun i old => ⟨old.1, old.2.1⟩).trans (last.mono fun i old => ⟨old.1, old.2.2⟩)
  have unlinked : Tree.Unlinked dot dotdot (s.shape live)
    d name c ((t.erase c).shape fun i => i ≠ c ∧ live i) := by
    refine ⟨⟨here, dir⟩, proper, leaf, fun x => and_comm, ?_, ?_, ?_⟩
    · intro x old
      change ((t.erase c).inode x).isDir = true ↔ (s.inode x).isDir = true
      rw [record old.2 old.1]
    · change s.entries d = (name, c) ::ₘ (t.erase c).entries d
      rw [entries, blanked.entries]
    · intro x folder different
      obtain ⟨⟨gone, old⟩, isDir⟩ := folder
      change ((t.erase c).inode x).isDir = true at isDir
      rw [record old gone] at isDir
      exact others.entries ⟨old, different, gone⟩ (standing.formed old isDir)
  refine ⟨⟨housed, standing.tree.unlink unlinked, ?_⟩, blanked.child, other, dir, ?_, unlinked.entries,
    others, ?_⟩
  · intro x n y old isDir member
    have before := unlinked.folder (x := x) ⟨old, isDir⟩
    exact standing.names before.1.1 before.1.2 (unlinked.mem_old (x := x) ⟨old, isDir⟩ member)
  · rw [record here other]
  · intro i
    have bound := (blanked.housed.inside blanked.child).2
    rw [Volume.erase, Volume.marked_dropInode (by simpa using blanked.housed.ok) (by simpa using bound),
      Volume.marked_setInode, Volume.marked, Volume.inodeBitmap_release, blanked.marks, ← Volume.marked]
    by_cases same : i = c <;> simp [same]

theorem frees {b slot : Nat} (blanked : Blanked live s (s.blank b slot) d name c) (other : d ≠ c) :
    Frees s ((s.blank b slot).erase c) c := by
  refine ⟨fun a => ?_, fun i inside different => ?_, ?_⟩
  · rw [used_erase blanked.housed.owned (Housed.owner blanked.child),
      blanked.others.holds ⟨blanked.child, other.symm⟩]
    rfl
  · rw [inode_erase, if_neg different, blanked.records i inside]
  · rw [inode_erase, if_pos rfl]

theorem ends_unlink (standing : Standing live s) {dirInode : UInt32} (here : live dirInode.toNat)
    (now : UInt32) :
    Ends (unlink now dirInode name) s
      (fun _ t => ∃ c, Removed live s t dirInode.toNat name c ∧ (s.inode c).isFile = true ∧ Frees s t c)
      (fun fail t => Refused live s t dirInode.toNat fail ∧
        ((s.inode dirInode.toNat).isDir = false → t = s)) := by
  have housed := standing.housed
  have raw := NextFs.ends_unlink standing.ok now dirInode name (standing.dirWorking here) ?_
  · refine raw.imp ?_ ?_
    · rintro _ t ⟨plain, plain', _, dir, b, slot, r, found, _, file, rfl⟩
      have blanked := standing.blank here dir found
      have removed := standing.remove here dir blanked ⟨plain, plain'⟩ ?_
      · exact ⟨r.toNat, removed, file, frees blanked removed.other⟩
      intro isDir
      simp only [Inode.isDir, Inode.isFile, decide_eq_true_eq] at isDir file
      simp [isDir] at file
    · rintro fail t ⟨calm, rfl | ⟨_, dir, b, slot, r, found, ⟨outside, _⟩ | ⟨_, _, added⟩⟩⟩
      · exact ⟨standing.refuse_same calm _, fun _ => rfl⟩
      · exact (outside (housed.inside (standing.blank here dir found).child)).elim
      · -- The entry of a directory is added again, in a slot that may be another one.
        have blanked := standing.blank here dir found
        have record := blanked.records _ (housed.inside here).2
        have member : (name, r.toNat) ∈ s.entries dirInode.toNat := by
          rw [blanked.entries]
          exact Multiset.mem_cons_self _ _
        obtain ⟨storable, short⟩ := standing.names here dir member
        have target : r ≠ 0 := by
          rintro rfl
          exact absurd (housed.inside blanked.child).1 (by decide)
        have names := standing.tree.names (folder here dir)
        have absent : ∀ c, (name, c) ∉ (s.blank b slot).entries dirInode.toNat := by
          intro c inside
          change ((s.entries dirInode.toNat).map Prod.fst).Nodup at names
          rw [blanked.entries, Multiset.map_cons, Multiset.nodup_cons] at names
          exact names.1 (Multiset.mem_map.mpr ⟨_, inside, rfl⟩)
        have again := blanked.housed.ends_addEntry here storable target now
        rcases added with done | ⟨reason, failed⟩
        · obtain ⟨⟨_, _, _, becomes⟩, apart⟩ := again.of_ok done
          refine ⟨standing.refuse calm becomes.housed ?_ ?_ ?_ (Or.inl fun i => ?_),
            fun file => by simp [dir] at file⟩
          · rw [becomes.types _ (blanked.housed.inside here), record]
          · intro _
            rw [becomes.entries, ← blanked.entries]
          · exact blanked.others.trans (apart.undisturbed.mono fun i old => ⟨Housed.owner old.1, old.2⟩)
          · rw [Volume.marked, becomes.marks, blanked.marks, ← Volume.marked]
        · obtain ⟨⟨_, reasons, _⟩, _⟩ := again.of_error failed
          rcases reasons (record ▸ dir) with long | ⟨c, inside⟩ | ⟨_, filled⟩
          · omega
          · exact (absent c inside).elim
          · obtain ⟨j, below, unused⟩ := blanked.unused
            rw [filled j below] at unused
            cases unused
  · intro b slot r _ dir found
    have blanked := standing.blank here dir found
    have record := blanked.records _ (housed.inside blanked.child).2
    refine ⟨fun _ _ => blanked.housed.working here, fun _ => ⟨record, fun _ => ?_⟩⟩
    rw [← record]
    exact blanked.housed.working blanked.child

theorem ends_rmdir (standing : Standing live s) {parentInode : UInt32} (here : live parentInode.toNat) :
    Ends (rmdir parentInode name) s
      (fun _ t => ∃ c, Removed live s t parentInode.toNat name c ∧ (s.inode c).isDir = true ∧ Frees s t c)
      (fun fail t => Refused live s t parentInode.toNat fail ∧ t = s) := by
  have housed := standing.housed
  have raw := NextFs.ends_rmdir standing.ok parentInode name (standing.dirWorking here) ?_ ?_
  · refine raw.imp ?_ ?_
    · rintro _ t ⟨plain, plain', _, dir, b, slot, r, listed, found, _, isDir, list, few, rfl⟩
      have blanked := standing.blank here dir found
      have removed := standing.remove here dir blanked ⟨plain, plain'⟩ fun _ => ?_
      · exact ⟨r.toNat, removed, isDir, frees blanked removed.other⟩
      have inside := housed.inside blanked.child
      obtain ⟨l, whole, contents⟩ := dirList_contents standing.ok inside (housed.working blanked.child)
        (standing.formed blanked.child isDir)
      have same : s.dirList r = .ok listed := by
        rw [Volume.dirList, readInode_ok standing.ok inside]
        simp [bind, Except.bind, isDir, list]
      cases whole.symm.trans same
      have count : (s.entries r.toNat).card ≤ 2 := by
        rw [Volume.entries, ← contents, Multiset.coe_card, List.length_map]
        exact few
      intro m x member
      exact standing.tree.leaf (by decide) (folder blanked.child isDir) count member
    · rintro fail t ⟨calm, rfl⟩
      exact ⟨standing.refuse_same calm _, rfl⟩
  · intro r look
    obtain ⟨_, dir, b, slot, buf, found⟩ := dirLookup_ok standing.ok look
    obtain ⟨_, _, _, rfl, _⟩ := namedEntry_some (housed.working here) found
    exact standing.dirWorking (standing.blank here dir found).child
  · intro b slot r _ dir found _ _
    have blanked := standing.blank here dir found
    have record := blanked.records _ (housed.inside blanked.child).2
    refine ⟨record, ?_⟩
    rw [← record]
    exact blanked.housed.working blanked.child

end Standing

end PickleOS.NextFs
