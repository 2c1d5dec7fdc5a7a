import PickleOS.NextFs.Truncation
import PickleOS.Shared.Checked

set_option autoImplicit false

namespace PickleOS.NextFs

open Shared Shared.Outcome

section Scan

variable {s t : Volume} {v : Inode} {β : Type} {pick : Nat → Nat → Block → DirEntry → Option β}

theorem getInodeBlock_ok {k : Nat} {number : UInt32} (placed : Placed s v)
    (found : s.getInodeBlock v k = .ok number)
    (filled : number ≠ 0) : ∃ inside : k < 137,
    v.holds s.device.data (.data ⟨k, inside⟩) = some number.toNat := by
  by_cases inside : k < 137
  · rw [getInodeBlock_eq placed inside] at found
    refine ⟨inside, Inode.holds_data_some.mpr ?_⟩
    rw [Except.ok.inj found]
    exact ⟨filled, rfl⟩
  · rw [getInodeBlock_past placed (by omega)] at found
    split at found
    · exact (filled (Except.ok.inj found).symm).elim
    · simp at found

theorem getInodeBlock_device {k : Nat} {number : UInt32} (placed : Placed s v)
    (found : s.getInodeBlock v k = .ok number)
    (filled : ¬number = 0) : number.toNat < s.device.blockCount := by
  obtain ⟨_, held⟩ := getInodeBlock_ok placed found filled
  exact placed.layout.inData_device (placed.inData held)

theorem getInodeBlock_error {k : Nat} {fail : Fail} (working : Working s v)
    (failed : s.getInodeBlock v k = .error fail) : fail = .fs .noSpace := by
  by_cases inside : k < 137
  · rw [getInodeBlock_eq working.placed inside] at failed
    simp at failed
  · rw [getInodeBlock_past working.placed (by omega)] at failed
    split at failed <;> simp_all

theorem scanEntries_some (working : Working s v) {x : β} {i n : Nat}
    (found : s.scanEntries v pick i n = .ok (some x)) :
    ∃ (k : Fin 137) (b slot : Nat), v.holds s.device.data (.data k) = some b ∧ slot < 8 ∧
      pick b slot (s.device.data b) ((s.device.data b).entry slot) = some x := by
  -- What the entry loop found lies in a block of the directory.
  induction n generalizing i with
  | zero => simp [Volume.scanEntries] at found
  | succ n ih =>
    rw [Volume.scanEntries] at found
    obtain ⟨number, block, found⟩ := Checked.bind_ok found
    split at found
    next => simp at found
    next filled =>
      obtain ⟨inside, held⟩ := getInodeBlock_ok working.placed block filled
      rw [Device.read_ok (getInodeBlock_device working.placed block filled)] at found
      obtain ⟨buf, same, found⟩ := Checked.bind_ok found
      cases same
      dsimp only at found
      split at found
      next y picked =>
        have same : y = x := by simpa using found
        exact ⟨_, _, _, held, Nat.mod_lt _ (by decide), same ▸ picked⟩
      next => exact ih found

theorem scanEntries_entry {x : β} {i n : Nat}
    (found : s.scanEntries v pick i n = .ok (some x)) : ∃ b slot buf e, pick b slot buf e = some x := by
  induction n generalizing i with
  | zero => simp [Volume.scanEntries] at found
  | succ n ih =>
    rw [Volume.scanEntries] at found
    obtain ⟨number, _, found⟩ := Checked.bind_ok found
    split at found
    next => simp at found
    next =>
      obtain ⟨buf, _, found⟩ := Checked.bind_ok found
      dsimp only at found
      split at found
      next y picked =>
        cases found
        exact ⟨_, _, _, _, picked⟩
      next => exact ih found

theorem entryBlock_error {γ : Type} {k : Nat} {none : γ} {f : UInt32 → Block → Except Fail γ}
    (working : Working s v) {fail : Fail}
    (failed : (s.getInodeBlock v k >>= fun number =>
      if number = 0 then .ok none else s.device.read number.toNat >>= f number) = .error fail) :
    fail = .fs .noSpace ∨ ∃ number buf, f number buf = .error fail := by
  rcases Checked.bind_error failed with failed | ⟨number, block, failed⟩
  · exact .inl (getInodeBlock_error working failed)
  · split at failed
    next => cases failed
    next filled =>
      rw [Device.read_ok (getInodeBlock_device working.placed block filled)] at failed
      exact .inr ⟨number, _, failed⟩

theorem scanEntries_error (working : Working s v) {fail : Fail} {i n : Nat}
    (failed : s.scanEntries v pick i n = .error fail) : fail = .fs .noSpace := by
  induction n generalizing i with
  | zero => simp [Volume.scanEntries] at failed
  | succ n ih =>
    rw [Volume.scanEntries] at failed
    rcases entryBlock_error working failed with space | ⟨number, buf, failed⟩
    · exact space
    · dsimp only at failed
      split at failed
      next => cases failed
      next => exact ih failed

/-- Two volumes on which the blocks of `v` have the same contents. -/
structure Agree (s t : Volume) (v : Inode) : Prop where
  count : t.device.blockCount = s.device.blockCount
  data : ∀ p b, v.holds s.device.data p = some b → t.device.data b = s.device.data b

theorem Agree.read {lba : Nat} (agree : Agree s t v) {p : Place} (held : v.holds s.device.data p = some lba) :
    t.device.read lba = s.device.read lba := by
  simp only [Device.read, agree.count, agree.data p lba held]

theorem Agree.getInodeBlock (agree : Agree s t v) (k : Nat) : t.getInodeBlock v k = s.getInodeBlock v k := by
  simp only [Volume.getInodeBlock]
  split
  · rfl
  · split
    · rfl
    next indirect => rw [agree.read (p := .indirect) (target_eq_some.mpr ⟨indirect, rfl⟩)]

theorem Agree.scanEntries (agree : Agree s t v) (working : Working s v) (i n : Nat) :
    t.scanEntries v pick i n = s.scanEntries v pick i n := by
  induction n generalizing i with
  | zero => rfl
  | succ n ih =>
    rw [Volume.scanEntries, Volume.scanEntries, agree.getInodeBlock]
    cases block : s.getInodeBlock v (i / entriesPerBlock % 2 ^ 32) with
    | error fail => rfl
    | ok number =>
      simp only [bind, Except.bind]
      split
      next => rfl
      next filled =>
        obtain ⟨inside, held⟩ := getInodeBlock_ok working.placed block filled
        rw [agree.read held, ih]

theorem Agree.listEntries (agree : Agree s t v) (working : Working s v) (i n : Nat) :
    t.listEntries v i n = s.listEntries v i n := by
  induction n generalizing i with
  | zero => rfl
  | succ n ih =>
    rw [Volume.listEntries, Volume.listEntries, agree.getInodeBlock]
    cases block : s.getInodeBlock v (i / entriesPerBlock % 2 ^ 32) with
    | error fail => rfl
    | ok number =>
      simp only [bind, Except.bind]
      split
      next => rfl
      next filled =>
        obtain ⟨inside, held⟩ := getInodeBlock_ok working.placed block filled
        rw [agree.read held, ih]

theorem listEntries_error (working : Working s v) {fail : Fail} {i n : Nat}
    (failed : s.listEntries v i n = .error fail) : fail = .fs .noSpace := by
  induction n generalizing i with
  | zero => simp [Volume.listEntries] at failed
  | succ n ih =>
    rw [Volume.listEntries] at failed
    rcases entryBlock_error working failed with space | ⟨number, buf, failed⟩
    · exact space
    · rcases Checked.bind_error failed with failed | ⟨rest, _, failed⟩
      · exact ih failed
      · cases failed

end Scan

/-- The search of `dir_add_entry` for an unused entry: block number, slot and block contents. -/
def Volume.unusedEntry (s : Volume) (v : Inode) : Except Fail (Option (Nat × Nat × Block)) :=
  s.scanEntries v (fun blockNum slot buf entry => if entry.isUsed then none else some (blockNum, slot, buf))
    0 (totalEntries v)

/-- The search of `dir_remove_entry`. -/
def Volume.namedEntry (s : Volume) (v : Inode) (name : Name) :
    Except Fail (Option (Nat × Nat × Block × UInt32)) :=
  s.scanEntries v
    (fun blockNum slot buf entry =>
      if entry.isUsed && entry.nameMatches name then some (blockNum, slot, buf, entry.inode) else none)
    0 (totalEntries v)

theorem scanEntries_map {β γ : Type} (s : Volume) (v : Inode) (pick : Nat → Nat → Block → DirEntry → Option β)
    (f : β → γ) (i n : Nat) :
    s.scanEntries v (fun b slot buf entry => (pick b slot buf entry).map f) i n =
      (s.scanEntries v pick i n).map (Option.map f) := by
  induction n generalizing i with
  | zero => rfl
  | succ n ih =>
    rw [Volume.scanEntries, Volume.scanEntries]
    cases s.getInodeBlock v (i / entriesPerBlock % 2 ^ 32) with
    | error fail => rfl
    | ok number =>
      simp only [bind, Except.bind]
      split
      · rfl
      · cases s.device.read number.toNat with
        | error fail => rfl
        | ok buf =>
          dsimp only
          cases pick number.toNat (i % entriesPerBlock) buf (buf.entry (i % entriesPerBlock)) with
          | none => exact ih (i + 1)
          | some found => rfl

theorem dirLookup_eq {s : Volume} (ok : s.layout.Ok) (dirInode : UInt32) (name : Name)
    [Decidable (s.layout.InTable dirInode.toNat)] :
    s.dirLookup dirInode name =
      if s.layout.InTable dirInode.toNat then
        if (s.inode dirInode.toNat).isDir then
          match s.namedEntry (s.inode dirInode.toNat) name with
          | .ok (some (_, _, _, r)) => .ok r
          | .ok none => .error (.fs .notFound)
          | .error fail => .error fail
        else .error (.fs .notDirectory)
      else .error (.fs .invalidInode) := by
  -- `dir_lookup` and `dir_remove_entry` stop at the same entry.
  rw [Volume.dirLookup, readInode_eq ok]
  split
  next =>
    simp only [bind, Except.bind, Bool.not_eq_true']
    cases dir : (s.inode dirInode.toNat).isDir with
    | false => rfl
    | true =>
      have pick : (fun (_ _ : Nat) (_ : Block) (entry : DirEntry) =>
          if entry.isUsed && entry.nameStr = name then some entry.inode else none) =
          fun b slot buf entry => (if entry.isUsed && entry.nameMatches name then
            some (b, slot, buf, entry.inode) else none).map fun found => found.2.2.2 := by
        funext b slot buf entry
        simp only [DirEntry.nameMatches]
        split <;> simp_all
      rw [pick, scanEntries_map, ← Volume.namedEntry]
      rcases s.namedEntry (s.inode dirInode.toNat) name with fail | (_ | ⟨b, slot, buf, r⟩) <;> rfl
  next => rfl

theorem dirLookup_ok {s : Volume} (ok : s.layout.Ok) {dirInode r : UInt32} {name : Name}
    (found : s.dirLookup dirInode name = .ok r) :
    s.layout.InTable dirInode.toNat ∧ (s.inode dirInode.toNat).isDir = true ∧
      ∃ b slot buf, s.namedEntry (s.inode dirInode.toNat) name = .ok (some (b, slot, buf, r)) := by
  classical
  rw [dirLookup_eq ok] at found
  split at found
  next inside =>
    split at found
    next dir =>
      refine ⟨inside, dir, ?_⟩
      split at found <;> simp_all
    next => simp at found
  next => simp at found

theorem dirLookup_representable {s : Volume} {d r : UInt32}
    {name : Name} (found : s.dirLookup d name = .ok r) : (0 : UInt8) ∉ name ∧ r ≠ 0 := by
  -- What a lookup finds has a name without NUL and an inode number that is not zero.
  simp only [Volume.dirLookup, bind, Except.bind] at found
  split at found
  next => cases found
  next v _ =>
    split at found
    next => cases found
    next =>
      split at found
      next => cases found
      next hit scan =>
        split at found
        next i =>
          cases found
          obtain ⟨_, _, _, e, picked⟩ := scanEntries_entry scan
          split at picked
          next used =>
            cases picked
            simp only [DirEntry.isUsed, Bool.and_eq_true, decide_eq_true_eq] at used
            exact ⟨used.2 ▸ e.nameStr_plain, used.1⟩
          next => cases picked
        next => cases found

theorem dirLookup_error {s : Volume} (ok : s.layout.Ok) {dirInode : UInt32} {name : Name} {fail : Fail}
    (working : s.layout.InTable dirInode.toNat → (s.inode dirInode.toNat).isDir = true →
      Working s (s.inode dirInode.toNat))
    (failed : s.dirLookup dirInode name = .error fail) : fail ≠ .panic := by
  classical
  rw [dirLookup_eq ok] at failed
  split at failed
  next inside =>
    split at failed
    next dir =>
      split at failed
      next => simp at failed
      next =>
        cases failed
        simp
      next reason scan =>
        cases failed
        rw [scanEntries_error (working inside dir) scan]
        simp
    next =>
      cases failed
      simp
  next =>
    cases failed
    simp

/-- `dir_add_entry` gets past its checks: a directory, a short new name. -/
structure Volume.Admits (s : Volume) (dirInode : UInt32) (name : Name) : Prop where
  short : name.length < 60
  inside : s.layout.InTable dirInode.toNat
  isDir : (s.inode dirInode.toNat).isDir = true
  absent : (s.dirLookup dirInode name).isOk = false

def Volume.Appends (s : Volume) (dirInode : UInt32) (name : Name) : Prop :=
  s.Admits dirInode name ∧ s.unusedEntry (s.inode dirInode.toNat) = .ok none

def Volume.DirWorking (s : Volume) (dirInode : UInt32) : Prop :=
  s.layout.InTable dirInode.toNat → (s.inode dirInode.toNat).isDir = true → Working s (s.inode dirInode.toNat)

section Congruence

variable {s t : Volume} {d : UInt32} (ok : s.layout.Ok) (layout : t.layout = s.layout)
  (record : t.inode d.toNat = s.inode d.toNat) (agree : Agree s t (s.inode d.toNat)) (working : s.DirWorking d)

include ok layout record agree working

theorem Agree.dirLookup (name : Name) : t.dirLookup d name = s.dirLookup d name := by
  classical
  rw [dirLookup_eq ok, dirLookup_eq (layout ▸ ok)]
  by_cases inside : s.layout.InTable d.toNat
  · rw [if_pos inside, if_pos (layout ▸ inside), record]
    split
    next dir => rw [Volume.namedEntry, agree.scanEntries (working inside dir), ← Volume.namedEntry]
    next => rfl
  · rw [if_neg inside, if_neg (layout ▸ inside)]

theorem Agree.admits_iff (name : Name) : t.Admits d name ↔ s.Admits d name := by
  have lookup := agree.dirLookup ok layout record working name
  constructor
  · rintro ⟨short, inside, isDir, absent⟩
    exact ⟨short, layout ▸ inside, record ▸ isDir, lookup ▸ absent⟩
  · rintro ⟨short, inside, isDir, absent⟩
    exact ⟨short, layout ▸ inside, record ▸ isDir, lookup ▸ absent⟩

theorem Agree.appends_iff (name : Name) : t.Appends d name ↔ s.Appends d name := by
  rw [Volume.Appends, Volume.Appends, agree.admits_iff ok layout record working name, record]
  refine and_congr_right fun admits => ?_
  rw [Volume.unusedEntry, agree.scanEntries (working admits.inside admits.isDir), ← Volume.unusedEntry]

end Congruence

section Add

variable {s : Volume} (ok : s.layout.Ok)

include ok

theorem ends_dirAddEntry (now dirInode : UInt32) (name : Name) (targetInode : UInt32)
    (working : s.DirWorking dirInode) :
    Ends (dirAddEntry now dirInode name targetInode) s
      (fun _ t => s.Admits dirInode name ∧
        ((∃ b slot buf, s.unusedEntry (s.inode dirInode.toNat) = .ok (some (b, slot, buf)) ∧
            t = s.setBlock b (buf.setEntry slot (DirEntry.new targetInode name))) ∨
          s.unusedEntry (s.inode dirInode.toNat) = .ok none ∧
            ∃ w u, writeInodeData now (s.inode dirInode.toNat) (s.inode dirInode.toNat).size.toNat
                (DirEntry.new targetInode name).toBytes s = .ok (w, 64) u ∧
              t = u.setInode dirInode.toNat { w with size := w.size + 64 }))
      (fun fail t => fail ≠ .panic ∧
        ((¬s.Admits dirInode name ∨ ∃ reason, s.unusedEntry (s.inode dirInode.toNat) = .error reason) ∧ t = s ∨
          s.Appends dirInode name ∧ writeInodeData now (s.inode dirInode.toNat)
            (s.inode dirInode.toNat).size.toNat
            (DirEntry.new targetInode name).toBytes s = .error fail t)) := by
  classical
  rw [dirAddEntry]
  split
  next long =>
    refine ⟨by simp, Or.inl ⟨Or.inl fun admits => ?_, rfl⟩⟩
    exact absurd admits.short (by simpa only [maxNameLen, ge_iff_le, not_lt] using long)
  next short =>
    rw [ends_bind, ends_get]
    split
    next present => exact ⟨by simp, Or.inl ⟨Or.inl fun admits => by simp [admits.absent] at present, rfl⟩⟩
    next absent =>
      rw [ends_bind, ends_observe, readInode_eq ok]
      by_cases inside : s.layout.InTable dirInode.toNat
      · rw [if_pos inside]
        dsimp only
        split
        next other => exact ⟨by simp, Or.inl ⟨Or.inl fun admits => by simp [admits.isDir] at other, rfl⟩⟩
        next dir =>
          have isDir : (s.inode dirInode.toNat).isDir = true := by simpa using dir
          have admits : s.Admits dirInode name :=
            ⟨by simpa only [maxNameLen, ge_iff_le, not_le] using short, inside, isDir, by simpa using absent⟩
          have works := working inside isDir
          rw [ends_bind, ends_observe, ← Volume.unusedEntry]
          cases scan : s.unusedEntry (s.inode dirInode.toNat) with
          | error fail =>
            rw [scanEntries_error works scan]
            exact ⟨by simp, Or.inl ⟨Or.inr ⟨_, rfl⟩, rfl⟩⟩
          | ok found =>
            rcases found with _ | ⟨b, slot, buf⟩
            · dsimp only
              rw [ends_bind]
              have spec := ends_writeInodeData works now (s.inode dirInode.toNat).size.toNat
                (DirEntry.new targetInode name).toBytes
              rw [DirEntry.toBytes_length] at spec
              cases result : writeInodeData now (s.inode dirInode.toNat) (s.inode dirInode.toNat).size.toNat
                  (DirEntry.new targetInode name).toBytes s with
              | error fail t =>
                simp only [Ends, result] at spec ⊢
                refine ⟨?_, Or.inr ⟨⟨admits, scan⟩, trivial⟩⟩
                rcases spec with ⟨rfl, _⟩ | stuck
                · simp
                · rw [stuck.1]
                  simp
              | ok pair u =>
                simp only [Ends, result] at spec ⊢
                obtain ⟨w, written, rfl⟩ := spec
                have layout := written.grown.layout
                have store := ends_writeInode (s := u) (layout ▸ ok) (i := dirInode) (layout ▸ inside)
                simp only [Ends] at store
                dsimp only
                rw [store]
                exact ⟨admits, Or.inr ⟨trivial, _, u, rfl, rfl⟩⟩
            · obtain ⟨k, c, j, held, _, picked⟩ := scanEntries_some works scan
              dsimp only
              have address : c = b := by
                split at picked <;> simp_all
              rw [ends_writeBlock (address ▸ ok.inData_device (works.backed held).1)]
              exact ⟨admits, Or.inl ⟨b, slot, buf, rfl, rfl⟩⟩
      · rw [if_neg inside]
        exact ⟨by simp, Or.inl ⟨Or.inl fun admits => inside admits.inside, rfl⟩⟩

theorem dirAddEntry_error {now dirInode : UInt32} {name : Name} {targetInode : UInt32}
    (working : s.DirWorking dirInode) {fail : Fail} {t : Volume}
    (failed : dirAddEntry now dirInode name targetInode s = .error fail t) :
    fail ≠ .panic ∧
      (¬s.Appends dirInode name ∧ t = s ∨ s.Appends dirInode name ∧
        Stuck (Touches (s.inode dirInode.toNat).size.toNat 64) s (s.inode dirInode.toNat) fail t) := by
  -- A refused entry leaves the volume alone, unless the directory had to grow and ran out of space.
  obtain ⟨calm, outcome⟩ := (ends_dirAddEntry ok now dirInode name targetInode working).of_error failed
  refine ⟨calm, outcome.imp ?_ ?_⟩
  · rintro ⟨refused | ⟨reason, scan⟩, same⟩
    · exact ⟨fun appends => refused appends.1, same⟩
    · exact ⟨fun appends => by simp [appends.2] at scan, same⟩
  rintro ⟨appends, grew⟩
  refine ⟨appends, ?_⟩
  have spec := (ends_writeInodeData (working appends.1.inside appends.1.isDir) now _ _).of_error grew
  rw [DirEntry.toBytes_length] at spec
  rcases spec with ⟨_, _, _, other⟩ | stuck
  · simp [appends.1.isDir] at other
  · exact stuck

theorem dirAddEntry_ok {now dirInode : UInt32} {name : Name} {targetInode : UInt32}
    (working : s.DirWorking dirInode) {t : Volume}
    (done : dirAddEntry now dirInode name targetInode s = .ok () t) :
    s.Admits dirInode name ∧
      ((∃ b slot buf, s.unusedEntry (s.inode dirInode.toNat) = .ok (some (b, slot, buf)) ∧
          t = s.setBlock b (buf.setEntry slot (DirEntry.new targetInode name))) ∨
        s.unusedEntry (s.inode dirInode.toNat) = .ok none ∧
          ∃ w u, Written (s.inode dirInode.toNat).size.toNat 64 s (s.inode dirInode.toNat) u w ∧
            t = u.setInode dirInode.toNat
              { w.extended now ((s.inode dirInode.toNat).size.toNat + 64) 64 with
                size := (w.extended now ((s.inode dirInode.toNat).size.toNat + 64) 64).size + 64 }) := by
  obtain ⟨admits, outcome⟩ := (ends_dirAddEntry ok now dirInode name targetInode working).of_ok done
  refine ⟨admits, outcome.imp_right ?_⟩
  rintro ⟨full, x, u, grew, rfl⟩
  have spec := (ends_writeInodeData (working admits.inside admits.isDir) now _ _).of_ok grew
  rw [DirEntry.toBytes_length] at spec
  obtain ⟨w, written, pair⟩ := spec
  cases pair
  exact ⟨full, w, u, written, rfl⟩

end Add

end PickleOS.NextFs
