import PickleOS.NextFs.Standing

set_option autoImplicit false

namespace PickleOS.NextFs

open Shared Shared.Outcome

section Read

variable {s t : Volume} {v : Inode}

theorem Agree.readChunks (agree : Agree s t v) (working : Working s v) (pos n : Nat) :
    t.readChunks v pos n = s.readChunks v pos n := by
  induction n using Nat.strong_induction_on generalizing pos with
  | _ n ih =>
    rw [Volume.readChunks, Volume.readChunks]
    split
    · rfl
    next some =>
      dsimp only
      rw [agree.getInodeBlock]
      cases block : s.getInodeBlock v (pos / blockSize % 2 ^ 32) with
      | error fail => rfl
      | ok number =>
        simp only [bind, Except.bind]
        have inside : pos % blockSize < blockSize := Nat.mod_lt _ (by decide)
        rw [ih (n - min n (blockSize - pos % blockSize)) (by omega)]
        by_cases hole : number = 0
        · rw [if_pos hole, if_pos hole]
        · obtain ⟨_, held⟩ := getInodeBlock_ok working.placed block hole
          rw [if_neg hole, if_neg hole, agree.read held]

theorem Undisturbed.readInode {kept : Nat → Prop} (same : Undisturbed kept s t) (ok : s.layout.Ok) {i : UInt32}
    (here : kept i.toNat) : t.readInode i = s.readInode i := by
  classical
  rw [readInode_eq ok, readInode_eq (same.layout ▸ ok), same.layout, same.inode here]

theorem readInode_calm (ok : s.layout.Ok) {i : UInt32}
    {fail : Fail} (failed : s.readInode i = .error fail) : fail ≠ .panic := by
  classical
  rw [readInode_eq ok] at failed
  split at failed <;> cases failed
  simp

theorem checkPermission_calm (ok : s.layout.Ok) {i : UInt32} {uid gid want : UInt16} {fail : Fail}
    (failed : s.checkPermission i uid gid want = .error fail) : fail ≠ .panic := by
  rw [Volume.checkPermission] at failed
  cases record : s.readInode i with
  | error reason =>
    rw [record] at failed
    cases failed
    exact readInode_calm ok record
  | ok w =>
    simp only [record, bind, Except.bind] at failed
    split at failed
    · cases failed
      simp
    · split at failed <;> cases failed
      simp

theorem Undisturbed.readInodeData {kept : Nat → Prop} (same : Undisturbed kept s t)
    {i : UInt32} (here : kept i.toNat)
    (working : Working s (s.inode i.toNat)) (offset len : Nat) :
      t.readInodeData i offset len = s.readInodeData i offset len := by
  -- Every read of an undisturbed file gives what it gave before.
  classical
  rw [Volume.readInodeData, Volume.readInodeData, same.readInode working.layout here,
    readInode_eq working.layout]
  by_cases inside : s.layout.InTable i.toNat
  · simp only [if_pos inside, bind, Except.bind, (same.agree here).readChunks working]
  · rw [if_neg inside]
    rfl

theorem Undisturbed.dirList {kept : Nat → Prop} (same : Undisturbed kept s t) {i : UInt32} (here : kept i.toNat)
    (working : Working s (s.inode i.toNat)) : t.dirList i = s.dirList i := by
  classical
  rw [Volume.dirList, Volume.dirList, same.readInode working.layout here, readInode_eq working.layout]
  by_cases inside : s.layout.InTable i.toNat
  · simp only [if_pos inside, bind, Except.bind, (same.agree here).listEntries working]
  · rw [if_neg inside]
    rfl

end Read

section Pointers

variable {s : Volume} {v w : Inode} (direct : w.direct = v.direct) (indirect : w.indirect = v.indirect)

include direct indirect

theorem slot_of_pointers (j : Nat) : s.slot w j = s.slot v j := by
  simp only [Volume.slot, Volume.slotBlock, Inode.pointer, direct, indirect]

variable (size : w.size = v.size)

include size

theorem Volume.Formed.of_pointers (formed : s.Formed v) (dir : w.isDir = true) : s.Formed w where
  isDir := dir
  aligned := size ▸ formed.aligned
  small := size ▸ formed.small
  large := size ▸ formed.large
  blocks k low := by
    rw [size, ← formed.blocks k low]
    simp only [Inode.pointer, direct, indirect]
  clear j inside past := by
    rw [slot_of_pointers direct indirect]
    rw [size] at inside past
    exact formed.clear j inside past

theorem contents_of_pointers : s.contents w = s.contents v := by
  simp only [Volume.contents, totalEntries, size, slot_of_pointers direct indirect]

end Pointers

theorem Undisturbed.updateInode {kept : Nat → Prop} {s t : Volume} (same : Undisturbed kept s t)
    (ok : s.layout.Ok)
    (backed : ∀ {i p b}, kept i → (s.inode i).holds s.device.data p = some b → s.layout.InData b) {c : UInt32}
    (other : ∀ i, kept i → i ≠ c.toNat) (change : Inode → Inode) :
    Ends (updateInode c change) t (fun _ u => Undisturbed kept s u)
      (fun fail u => fail ≠ .panic ∧ Undisturbed kept s u) := by
  -- New metadata of one inode disturbs no other.
  classical
  have ok' : t.layout.Ok := same.layout ▸ ok
  rw [NextFs.updateInode, ends_bind, ends_observe, readInode_eq ok']
  by_cases inside : t.layout.InTable c.toNat
  · rw [if_pos inside]
    dsimp only
    split
    · exact ⟨by simp, same⟩
    · rw [ends_writeInode ok' inside]
      refine same.trans ⟨rfl, fun here => ?_, fun here held => ?_⟩
      · rw [Volume.inode_setInode, if_neg (other _ here)]
      · rw [same.holds here] at held
        exact Volume.data_setInode ok' (same.layout ▸ (backed here held).1) inside.2 _
  · rw [if_neg inside]
    exact ⟨by simp, same⟩

/-- Nothing but the inode `i` has changed, and its type and the entries of directories are as before. -/
structure Altered (live : Nat → Prop) (s t : Volume) (i : Nat) : Prop where
  standing : Standing live t
  types : ∀ j, s.layout.InTable j → (t.inode j).inodeType = (s.inode j).inodeType
  others : Undisturbed (fun j => live j ∧ j ≠ i) s t
  entries : ∀ j, live j → (s.inode j).isDir = true → t.entries j = s.entries j
  marks : t.inodeBitmap = s.inodeBitmap

namespace Standing

variable {live : Nat → Prop} {s t u : Volume} {i : Nat}

theorem unaltered (standing : Standing live s) (i : Nat) : Altered live s s i :=
  ⟨standing, fun _ _ => rfl, Undisturbed.refl _ s, fun _ _ _ => rfl, rfl⟩

theorem alter (standing : Standing live s) (apart : Apart (s.owners live) i s t)
    (owned : t.Owned (s.owners live))
    (types : ∀ j, s.layout.InTable j → (t.inode j).inodeType = (s.inode j).inodeType)
    (marks : t.inodeBitmap = s.inodeBitmap)
    (own : live i → (s.inode i).isDir = true → t.Formed (t.inode i) ∧ t.entries i = s.entries i) :
      Altered live s t i := by
  have housed := standing.housed
  have others : Undisturbed (fun j => live j ∧ j ≠ i) s t :=
    apart.undisturbed.mono fun j here => ⟨Housed.owner here.1, here.2⟩
  have dirs : ∀ {j}, live j → ((t.inode j).isDir = true ↔ (s.inode j).isDir = true) := by
    intro j here
    rw [Inode.isDir, types j (housed.inside here), ← Inode.isDir]
  have kept : Housed live t := by
    refine housed.change apart ?_ ?_ ?_ ?_
    · rw [Volume.owners_congr apart.layout types]
      exact owned
    · intro j here
      rw [Volume.marked, marks]
      exact housed.marked here
    · intro here
      rw [dirs here, Inode.isFile, types i (housed.inside here), ← Inode.isFile]
      exact housed.kinds here
    · intro here dir
      exact (own here ((dirs here).mp dir)).1
  have entries : ∀ j, live j → (s.inode j).isDir = true → t.entries j = s.entries j := by
    intro j here dir
    by_cases same : j = i
    · subst same
      exact (own here dir).2
    · exact others.entries ⟨here, same⟩ (standing.formed here dir)
  exact ⟨standing.congr kept (fun j here => types j (housed.inside here)) entries, types, others, entries,
    marks⟩

theorem not_dir_of_file {v : Inode} (file : v.isFile = true) : v.isDir = false := by
  simp only [Inode.isDir, Inode.isFile, decide_eq_true_eq, decide_eq_false_iff_not] at file ⊢
  simp [file]

theorem alter_grown (standing : Standing live s) (inside : s.layout.InTable i)
    (file : (s.inode i).isFile = true)
    {touched : Nat → Prop} {w : Inode} (grown : Grown touched s (s.inode i) t w) : Altered live s t i := by
  -- A file grows in memory.
  have here : s.owners live i := Or.inr ⟨inside, file⟩
  refine standing.alter (standing.housed.owned.apart here grown) (standing.housed.owned.grown here grown)
    ?_ grown.inodes ?_
  · intro j table
    rw [grown.inode standing.ok table.2]
  · intro _ dir
    rw [not_dir_of_file file] at dir
    cases dir

theorem alter_stored (standing : Standing live s) (inside : s.layout.InTable i)
    (file : (s.inode i).isFile = true)
    {touched : Nat → Prop} {w x : Inode} (grown : Grown touched s (s.inode i) u w)
    (direct : x.direct = w.direct)
    (indirect : x.indirect = w.indirect) (type : x.inodeType = (s.inode i).inodeType) :
    Altered live s (u.setInode i x) i := by
  -- A file has grown and is written back.
  have here : s.owners live i := Or.inr ⟨inside, file⟩
  refine standing.alter (apart_store standing.housed.owned here grown x)
    (owned_store standing.housed.owned here grown direct indirect) ?_ grown.inodes ?_
  · intro j table
    rw [Volume.inode_setInode]
    split
    next same => rw [type, same]
    next => rw [grown.inode standing.ok table.2]
  · intro _ dir
    rw [not_dir_of_file file] at dir
    cases dir

theorem ends_updateInode (standing : Standing live s) {c : UInt32} (here : live c.toNat)
    {change : Inode → Inode}
    (direct : ∀ v, (change v).direct = v.direct) (indirect : ∀ v, (change v).indirect = v.indirect)
    (size : ∀ v, (change v).size = v.size) (type : ∀ v, (change v).inodeType = v.inodeType) :
    Ends (updateInode c change) s
      (fun _ t => t.inode c.toNat = change (s.inode c.toNat) ∧ Altered live s t c.toNat)
      (fun _ _ => False) := by
  -- New metadata of a live inode, with the pointers and the size that it has.
  have ok := standing.ok
  have inside := standing.housed.inside here
  have working := standing.housed.working here
  have owner : s.owners live c.toNat := Housed.owner here
  have busy : (s.inode c.toNat).isFree = false := by
    rcases standing.housed.kinds here with kind | kind <;>
      simp_all [Inode.isFile, Inode.isDir, Inode.isFree]
  rw [NextFs.updateInode, ends_bind, ends_observe, readInode_ok ok inside]
  dsimp only
  rw [busy, if_neg (by simp), ends_writeInode ok inside]
  have grown := Grown.refl (fun _ => False) s (s.inode c.toNat)
  have record : (s.setInode c.toNat (change (s.inode c.toNat))).inode c.toNat = change (s.inode c.toNat) := by
    rw [Volume.inode_setInode, if_pos rfl]
  refine ⟨record, standing.alter (apart_store standing.housed.owned owner grown _)
    (owned_store standing.housed.owned owner grown (direct _) (indirect _)) ?_ rfl ?_⟩
  · intro j _
    rw [Volume.inode_setInode]
    split
    next same => rw [type, same]
    next => rfl
  · intro _ dir
    have agree : Agree s (s.setInode c.toNat (change (s.inode c.toNat))) (s.inode c.toNat) :=
      ⟨rfl, fun p b held => Volume.data_setInode ok (working.backed held).1.1 inside.2 _⟩
    have formed := standing.formed here dir
    rw [record, Volume.entries, record]
    refine ⟨(agree.formed formed).of_pointers (direct _) (indirect _) (size _) ?_, ?_⟩
    · rw [Inode.isDir, type, ← Inode.isDir]
      exact dir
    · rw [contents_of_pointers (direct _) (indirect _) (size _), agree.contents formed, Volume.entries]

theorem ends_writeAt (standing : Standing live s)
    {inodeNum : UInt32} (plain : (s.inode inodeNum.toNat).isDir = false)
    (now : UInt32) (offset : Nat) (data : List UInt8) :
    Ends (writeAt now inodeNum offset data) s
      (fun _ t => s.layout.InTable inodeNum.toNat ∧ (s.inode inodeNum.toNat).isFile = true ∧
        Altered live s t inodeNum.toNat)
      (fun fail t => fail ≠ .panic ∧ Altered live s t inodeNum.toNat) := by
  -- A write changes the file it is to, if that is not a directory.
  have file : (s.inode inodeNum.toNat).isFile = true ∨ (s.inode inodeNum.toNat).isDir = true →
      (s.inode inodeNum.toNat).isFile = true := fun either => either.resolve_right (by simp [plain])
  refine (NextFs.ends_writeAt standing.ok now inodeNum offset data fun inside writable =>
    standing.housed.owned.working (Or.inr ⟨inside, file writable⟩)).imp ?_ ?_
  · rintro n t ⟨inside, writable, _, u, w, written, rfl⟩
    refine ⟨inside, file writable, standing.alter_stored inside (file writable) written.grown rfl rfl ?_⟩
    simp only [Inode.extended]
    rw [written.grown.rest]
  · rintro fail t ⟨calm, ⟨_, rfl⟩ | ⟨inside, writable, _, w, grown, _⟩⟩
    · exact ⟨calm, standing.unaltered _⟩
    · exact ⟨calm, standing.alter_grown inside (file writable) grown⟩

theorem ends_truncate (standing : Standing live s) {inodeNum : UInt32} {newSize : Nat}
    (clean : ¬(s.inode inodeNum.toNat).LeavesEntries s.device.data newSize) :
    Ends (truncate inodeNum newSize) s
      (fun _ t => s.layout.InTable inodeNum.toNat ∧ (s.inode inodeNum.toNat).isFile = true ∧
        t.inode inodeNum.toNat = (s.inode inodeNum.toNat).cut newSize ∧ Altered live s t inodeNum.toNat)
      (fun fail t => fail = .panic ∧ 9 ≤ lastBlock newSize ∨ fail ≠ .panic ∧ t = s ∧
        ¬(s.layout.InTable inodeNum.toNat ∧ (s.inode inodeNum.toNat).isFile = true)) := by
  -- Truncation of a file, unless it leaves entries of freed blocks behind.
  classical
  have owned := standing.housed.owned
  rw [truncate, ends_bind, ends_observe, readInode_eq standing.ok]
  by_cases inside : s.layout.InTable inodeNum.toNat
  · rw [if_pos inside]
    dsimp only
    cases file : (s.inode inodeNum.toNat).isFile with
    | false => exact Or.inr ⟨by simp, rfl, by simp⟩
    | true =>
      have here : s.owners live inodeNum.toNat := Or.inr ⟨inside, file⟩
      rw [Bool.not_true, if_neg (by simp), ends_bind]
      refine (ends_truncateInode (owned.working here).placed newSize).imp ?_ fun _ _ => Or.inl
      rintro v u ⟨rfl, rfl⟩
      rw [ends_writeInode (by simpa using standing.ok) (by simpa using inside)]
      refine ⟨inside, rfl, by rw [Volume.inode_setInode, if_pos rfl], ?_⟩
      have apart : Apart (s.owners live) inodeNum.toNat s
        ((s.release ((s.inode inodeNum.toNat).freedBy s.device.data newSize)).setInode
          inodeNum.toNat ((s.inode inodeNum.toNat).cut newSize)) :=
        (Apart.release standing.ok owned.sound here fun _ => Inode.freedBy_own).setInode
          standing.ok owned.sound inside.2 _
      have types : ∀ j, s.layout.InTable j → (((s.release
        ((s.inode inodeNum.toNat).freedBy s.device.data newSize)).setInode
          inodeNum.toNat ((s.inode inodeNum.toNat).cut newSize)).inode j).inodeType =
            (s.inode j).inodeType := by
        intro j _
        rw [Volume.inode_setInode]
        split
        next same => rw [Inode.inodeType_cut, same]
        next => rw [Volume.inode_release]
      refine standing.alter apart ⟨apart.layout ▸ standing.ok,
        fun other => apart.layout ▸ owned.table other, ?_, ?_⟩ types
        ?_ ?_
      · intro j table file'
        rw [apart.layout] at table
        rw [Inode.isFile, types j table, ← Inode.isFile] at file'
        exact owned.files table file'
      · exact (sound_cut_iff standing.ok owned.sound inside.2 here newSize).mpr clean
      · rw [inodeBitmap_setInode, Volume.inodeBitmap_release]
      · intro _ dir
        rw [not_dir_of_file file] at dir
        cases dir
  · rw [if_neg inside]
    exact Or.inr ⟨by simp, rfl, fun both => inside both.1⟩

end Standing

end PickleOS.NextFs
