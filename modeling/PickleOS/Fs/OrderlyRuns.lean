import PickleOS.Fs.DirectoryEntries

set_option autoImplicit false

namespace PickleOS.Fs

open Shared Shared.Outcome NextFs

section Runs

variable {live : Nat → Prop} {start s : Files}

theorem orderly_of_run (standing : ∀ v, start.mounted = some v → NextFs.Standing live v)
    (run : Relation.ReflTransGen OrderlyCall start s) :
    ∃ live', ∀ v, s.mounted = some v → NextFs.Standing live' v := by
  cases mounted : start.mounted with
  | some v =>
    obtain ⟨live', w, after, standing'⟩ := standing_of_run mounted (standing v mounted) run
    refine ⟨live', fun u found => ?_⟩
    cases after.symm.trans found
    exact standing'
  | none =>
    rcases run.cases_head with rfl | ⟨t, ⟨_, _, _, v, found, _⟩, _⟩
    · exact ⟨live, standing⟩
    · cases mounted.symm.trans found

/-- In every run of orderly calls, a failing `open` leaves every file alone, unless it is to
truncate a file that is not empty and it refuses that file afterwards, for want of permission or of
a descriptor. -/
theorem failed_open_harmless_iff (standing : ∀ v, start.mounted = some v → NextFs.Standing live v)
    (run : Relation.ReflTransGen OrderlyCall start s) (now : UInt32) (task : TaskId) (path : Name)
    (flags : OpenFlags) :
    (∃ live', ∀ v, s.mounted = some v → NextFs.Standing live' v) ∧
      ∀ live', (∀ v, s.mounted = some v → NextFs.Standing live' v) →
        ((∀ error t, openFile now task path flags s = .error (.vfs (.error error)) t → s.Unharmed live' t) ↔
          ¬s.ClearsThenRefuses task path flags) := by
  refine ⟨orderly_of_run standing run, fun live' standing' => ?_⟩
  exact openFile_harmless_iff s standing' now task path flags

/-- In every run of orderly calls, what `mkdir` makes, and `open` on a path that led nowhere, is
found under its path and removed by it, if and only if the last name of the path is not empty and
has no NUL byte. -/
theorem creation_found_iff {v : Volume} (mounted : start.mounted = some v) (standing : NextFs.Standing live v)
    (run : Relation.ReflTransGen OrderlyCall start s) (now : UInt32) (task : TaskId) {path : Name}
    (text : Utf8.valid path = true) :
    (∀ t, mkdir now task path s = .ok () t → (s.Creates t path (rmdir task path) ↔ Nameable path)) ∧
    ∀ flags fd t, flags.create = true → (∀ i z, resolvePath path s ≠ .ok i z) →
      openFile now task path flags s = .ok fd t →
      ∀ later, s.Creates t path (unlink later task path) ↔ Nameable path := by
  obtain ⟨live', w, after, standing'⟩ := standing_of_run mounted standing run
  exact made_found_iff after standing' now task text

end Runs

/-- Root has opened the file `/a`. -/
def reader : { s : Files // Relation.ReflTransGen OrderlyCall superuser s } where
  val := final (openFile 0 1 [0x2F, 0x61] .rdonly) superuser
  property := by
    have success : succeeds (openFile 0 1 [0x2F, 0x61] .rdonly) superuser = true := by decide +kernel
    obtain ⟨fd, opened⟩ := exists_ok_of_succeeds success
    have done : (VfsCall.openFile [0x2F, 0x61] .rdonly).run 0 1 superuser =
        .ok () (final (openFile 0 1 [0x2F, 0x61] .rdonly) superuser) := by
      simp only [VfsCall.run, Bind.bind, EStateM.bind, opened]
      rfl
    refine .single ⟨.openFile [0x2F, 0x61] .rdonly, 0, 1, usedVolume, rfl, ?_, Or.inl done⟩
    intro create
    cases create

theorem reader_calls :
    reason (resolvePath [0x2F, 0x64]) reader.val = some (.vfs (.error .notFound)) ∧
    reason (openFile 0 7 [0x2F, 0x64] { write := true, create := true })
      reader.val = some (.vfs (.error .invalidOperation)) ∧
    succeeds (resolvePath [0x2F, 0x64]) (final
      (openFile 0 7 [0x2F, 0x64] { write := true, create := true }) reader.val) = true ∧
    succeeds (mkdir 0 1 [0x2F, 0x63]) reader.val = true ∧
    succeeds (openFile 0 1 [0x2F, 0x64] { create := true, write := true }) reader.val = true := by
  decide +kernel

theorem superuser_standing : ∀ v, superuser.mounted = some v → NextFs.Standing usedVolume.InUse v := by
  rintro v found
  cases found
  exact usedVolume_standing

/-- Task 7 has no descriptor table. Its `open` makes the file `/d`, fails, and leaves the other
files alone. -/
theorem failed_open_harmless_created :
    ∃ s t live, Relation.ReflTransGen OrderlyCall superuser s ∧
    (∀ v, s.mounted = some v → NextFs.Standing live v) ∧
      reason (resolvePath [0x2F, 0x64]) s = some (.vfs (.error .notFound)) ∧
      openFile 0 7 [0x2F, 0x64] { write := true, create := true }
        s = .error (.vfs (.error .invalidOperation)) t ∧
      succeeds (resolvePath [0x2F, 0x64]) t = true ∧ s.Unharmed live t := by
  obtain ⟨missing, failed, made, _⟩ := reader_calls
  obtain ⟨⟨live, standing⟩, harmless⟩ := failed_open_harmless_iff superuser_standing reader.property 0 7
    [0x2F, 0x64] { write := true, create := true }
  refine ⟨_, _, live, reader.property, standing, missing, error_of_reason failed, made,
    (harmless live standing).mpr ?_ _ _ (error_of_reason failed)⟩
  rintro ⟨_, cut, _⟩
  cases cut

/-- The guest may not write the file of root, but empties it. -/
theorem refused_open_empties :
    ∃ (live : Nat → Prop) (flags : OpenFlags) (t : Files),
      (∀ v, guest.mounted = some v → NextFs.Standing live v) ∧
      noteVolume.checkPermission 2 1000 1000 mayWrite = .error (.fs .permissionDenied) ∧
      openFile 0 1 [0x61] flags guest = .error (.vfs (.error .permissionDenied)) t ∧
      ¬guest.Unharmed live t := by
  let flags : OpenFlags := { write := true, create := true, truncate := true }
  have evaluated : reason (openFile 0 1 [0x61] flags) guest = some (.vfs (.error .permissionDenied)) ∧
      ((final (openFile 0 1 [0x61] flags) guest).mounted.map fun w => (w.inode 2).size) = some 0 ∧
      noteVolume.checkPermission 2 1000 1000 mayWrite = .error (.fs .permissionDenied) ∧
      (noteVolume.inode 2).isFile = true ∧
      (noteVolume.inode 2).size = 2 ∧ noteVolume.marked 2 = true := by
    decide +kernel
  obtain ⟨failed, after, denied, file, before, here⟩ := evaluated
  refine ⟨noteVolume.InUse, flags, _, guest_standing, denied, error_of_reason failed, fun unharmed => ?_⟩
  obtain ⟨w, left, same⟩ := unharmed noteVolume rfl
  have size := (same 2 here file).1
  rw [left, Option.map_some, Option.some.injEq] at after
  cases (after.symm.trans size).trans before

/-- The directory `/c` and the file `/d`. -/
theorem creation_found_root :
    ∃ s t u fd, Relation.ReflTransGen OrderlyCall superuser s ∧ mkdir 0 1 [0x2F, 0x63] s = .ok () t ∧
      s.Creates t [0x2F, 0x63] (rmdir 1 [0x2F, 0x63]) ∧
      openFile 0 1 [0x2F, 0x64] { create := true, write := true } s = .ok fd u ∧
      s.Creates u [0x2F, 0x64] (unlink 0 1 [0x2F, 0x64]) := by
  obtain ⟨missing, _, _, made, opened⟩ := reader_calls
  have folder := creation_found_iff rfl usedVolume_standing reader.property 0 1
    (show Utf8.valid [0x2F, 0x63] = true by decide)
  have file := creation_found_iff rfl usedVolume_standing reader.property 0 1
    (show Utf8.valid [0x2F, 0x64] = true by decide)
  have unresolved : ∀ i z, resolvePath [0x2F, 0x64] reader.val ≠ .ok i z := by
    intro i z found
    cases found.symm.trans (error_of_reason missing)
  obtain ⟨fd, result⟩ := exists_ok_of_succeeds opened
  exact ⟨_, _, _, fd, reader.property, ok_of_succeeds made,
    (folder.1 _ (ok_of_succeeds made)).mpr ⟨by decide, by decide⟩, result,
    (file.2 _ fd _ rfl unresolved result 0).mpr ⟨by decide, by decide⟩⟩

/-- The directory `/b/` has an empty name in `/b`, where no path leads, and keeps `/b` from being
removed. -/
theorem empty_name_unreachable :
    ∃ t, mkdir 0 1 [0x2F, 0x62, 0x2F] superuser = .ok () t ∧
      ¬superuser.Creates t [0x2F, 0x62, 0x2F] (rmdir 1 [0x2F, 0x62, 0x2F]) ∧
      reason (rmdir 1 [0x2F, 0x62]) t = some (.vfs (.error (.fsError .directoryNotEmpty))) := by
  have evaluated : succeeds (mkdir 0 1 [0x2F, 0x62, 0x2F]) superuser = true ∧ usedVolume.marked 3 = true ∧
      ((final (mkdir 0 1 [0x2F, 0x62, 0x2F]) superuser).mounted.map fun w =>
        walk w (parts [0x2F, 0x62, 0x2F])) =
        some (.ok 3) ∧
      reason (rmdir 1 [0x2F, 0x62]) (final (mkdir 0 1 [0x2F, 0x62, 0x2F]) superuser) =
        some (.vfs (.error (.fsError .directoryNotEmpty))) := by decide +kernel
  obtain ⟨made, used, old, kept⟩ := evaluated
  refine ⟨_, ok_of_succeeds made, ?_, kept⟩
  rintro ⟨v, w, c, before, after, unmarked, _, resolved, _⟩
  obtain ⟨_, _, found⟩ := (resolvePath_ok_iff after).mp resolved
  rw [after, Option.map_some, found] at old
  cases before
  cases old
  rw [show (3 : UInt32).toNat = 3 from rfl, used] at unmarked
  cases unmarked

end PickleOS.Fs
