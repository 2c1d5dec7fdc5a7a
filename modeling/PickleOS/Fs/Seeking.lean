import PickleOS.Fs.Offsets

set_option autoImplicit false

namespace PickleOS.Fs

open Shared Shared.Outcome NextFs

/-- Where `seek` counts from, in a file of the given size. -/
def SeekWhence.base (pos size : UInt64) : SeekWhence → Nat
  | .set => 0
  | .current => pos.toNat
  | .fileEnd => size.toNat

section Wrapping

theorem toInt_eq_toUInt64 (x : Int64) :
    x.toInt = if x.toUInt64.toNat < 2 ^ 63 then (x.toUInt64.toNat : Int) else x.toUInt64.toNat - 2 ^ 64 := by
  have cond := BitVec.toInt_eq_toNat_cond x.toBitVec
  change x.toBitVec.toInt = if x.toBitVec.toNat < 2 ^ 63 then (x.toBitVec.toNat : Int) else
    x.toBitVec.toNat - 2 ^ 64
  rw [cond]
  split <;> split <;> omega

theorem negative_iff (x : Int64) : x < 0 ↔ 2 ^ 63 ≤ x.toUInt64.toNat := by
  have value := toInt_eq_toUInt64 x
  have bound := x.toUInt64.toNat_lt
  rw [Int64.lt_iff_toInt_lt, Int64.toInt_zero, value]
  split <;> omega

/-- A sum that the sign test lets through is the true one, unless it has passed `2 ^ 64`. -/
theorem wrapped_sum_iff (base : UInt64) (offset : Int64) :
    (¬base.toInt64 + offset < 0 → ((base.toInt64 + offset).toUInt64.toNat : Int) = base.toNat + offset.toInt) ↔
      base.toNat + offset.toInt < 2 ^ 64 := by
  have value := toInt_eq_toUInt64 offset
  have low := base.toNat_lt
  have high := offset.toUInt64.toNat_lt
  rw [negative_iff, Int64.toUInt64_add, UInt64.toUInt64_toInt64, UInt64.toNat_add, value]
  split <;> omega

end Wrapping

section Seek

variable {s : Files} {task : TaskId} {fd : Fd} {file : OpenFile} {inode : UInt32}

/-- `seek` goes to `base + offset`, or fails and moves nothing. -/
def Seeks (s : Files) (task : TaskId) (fd : Fd) (file : OpenFile) (offset : Int64) (whence : SeekWhence)
    (size : UInt64) : Prop :=
  Ends (seek task fd offset whence) s
    (fun pos t => (pos.toNat : Int) = whence.base file.pos size + offset.toInt ∧ t.mounted = s.mounted ∧
      getFile task fd t = .ok { file with pos := pos } t)
    (fun _ t => t = s)

theorem ends_moveTo (opened : getFile task fd s = .ok file s) (base : Nat) (offset newPos : Int64) :
    Ends (if newPos < 0 then fail .invalidOperation else do
        setPos task fd newPos.toUInt64
        pure newPos.toUInt64) s
      (fun pos t => (pos.toNat : Int) = base + offset.toInt ∧ t.mounted = s.mounted ∧
        getFile task fd t = .ok { file with pos := pos } t) (fun _ t => t = s) ↔
      (¬newPos < 0 → (newPos.toUInt64.toNat : Int) = base + offset.toInt) := by
  by_cases negative : newPos < 0
  · rw [if_pos negative]
    exact iff_of_true rfl fun accepted => absurd negative accepted
  · rw [if_neg negative, ends_bind]
    obtain ⟨_, t, moved, same, found⟩ := (ends_setPos opened newPos.toUInt64).ok_of_never
    simp only [Ends, moved, pure, EStateM.pure, negative, not_false_iff, true_imp_iff]
    exact ⟨And.left, fun sum => ⟨sum, same, found⟩⟩

variable {volume : Volume} {v : Inode}

theorem seek_regular (opened : getFile task fd s = .ok file s) (regular : file.fileType = .regular inode)
    (mounted : s.mounted = some volume) (known : volume.readInode inode = .ok v) (offset : Int64)
    (whence : SeekWhence) :
    seek task fd offset whence s =
      (let newPos := match whence with
        | .set => offset
        | .current => file.pos.toInt64 + offset
        | .fileEnd => v.size.toInt64 + offset
      if newPos < 0 then fail .invalidOperation else do
        setPos task fd newPos.toUInt64
        pure newPos.toUInt64) s := by
  cases whence <;> simp only [seek, bind, EStateM.bind, opened, regular, withFs, mounted, known, Except.map]

/-- `seek` on an open file does what it should if and only if `base + offset` is below `2 ^ 64`. -/
theorem seek_exact_iff (opened : getFile task fd s = .ok file s) (regular : file.fileType = .regular inode)
    (mounted : s.mounted = some volume) (known : volume.readInode inode = .ok v) (offset : Int64)
    (whence : SeekWhence) :
    Seeks s task fd file offset whence v.size ↔ whence.base file.pos v.size + offset.toInt < 2 ^ 64 := by
  unfold Seeks Ends
  rw [seek_regular opened regular mounted known]
  refine (ends_moveTo opened (whence.base file.pos v.size) offset _).trans ?_
  cases whence with
  | set =>
    have straight := wrapped_sum_iff 0 offset
    rw [show (0 : UInt64).toInt64 + offset = offset from Int64.zero_add offset] at straight
    exact straight
  | current => exact wrapped_sum_iff file.pos offset
  | fileEnd => exact wrapped_sum_iff v.size offset

end Seek

theorem seek_exact_on :
    ∃ v, usedVolume.readInode 2 = .ok v ∧
      Seeks openFiles 1 3 { fileType := .regular 2, flags := { read := true, write := true } }
        5 .current v.size := by
  obtain ⟨inside, _⟩ := usedVolume_inodes
  have known := readInode_ok (i := 2) usedVolume_exact.synced.consistent.layout inside
  exact ⟨_, known, (seek_exact_iff openFiles_opened rfl rfl known 5 .current).mpr (by decide)⟩

/-- The file `/a` gets the size `2 ^ 64 - 1`, and ten bytes behind its end is position 9. -/
theorem seek_wraps :
    ∃ t u, truncate 1 [slash, 0x61] 18446744073709551615 openFiles = .ok () t ∧
      (t.mounted.map fun volume => (volume.inode 2).size) = some 18446744073709551615 ∧
      seek 1 3 10 .fileEnd t = .ok 9 u ∧
      ¬Seeks t 1 3 { fileType := .regular 2, flags := { read := true, write := true } }
        10 .fileEnd 18446744073709551615 := by
  let cut := truncate 1 [slash, 0x61] 18446744073709551615
  have facts : succeeds cut openFiles = true ∧
      ((final cut openFiles).mounted.map fun volume => (volume.inode 2).size) = some 18446744073709551615 ∧
      (match seek 1 3 10 .fileEnd (final cut openFiles) with
        | .ok pos _ => some pos
        | .error _ _ => none) = some 9 := by decide +kernel
  obtain ⟨done, size, moved⟩ := facts
  split at moved
  next pos u sought =>
    cases moved
    refine ⟨_, u, ok_of_succeeds done, size, sought, fun seeks => ?_⟩
    have sum := (seeks.of_ok sought).1
    exact absurd sum (by decide)
  next => cases moved

end PickleOS.Fs
