import PickleOS.Fs.Paths
import PickleOS.NextFs.Altering

set_option autoImplicit false

namespace PickleOS.Fs

open Shared Shared.Outcome NextFs

section Rules

variable {α : Type} (s : Files) (returns : α → Files → Prop) (fails : Failure → Files → Prop)

theorem ends_withFs_iff (f : Volume → Except Fail α) {v : Volume} (mounted : s.mounted = some v) :
    Ends (withFs f) s returns fails ↔
      match f v with
      | .ok value => returns value s
      | .error reason => fails (.ofFs reason) s := by
  simp only [Ends, withFs, mounted]
  cases f v <;> rfl

omit returns fails in
theorem ends_withFs_same (f : Volume → Except Fail α) :
    Ends (withFs f) s (fun _ t => t = s) (fun _ t => t = s) := by
  unfold Ends withFs
  cases mounted : s.mounted with
  | none => rfl
  | some v => cases result : f v <;> simp [result]

theorem ends_withFsMut_iff (m : FsM α) {v : Volume} (mounted : s.mounted = some v) :
    Ends (withFsMut m) s returns fails ↔
      Ends m v (fun value w => returns value { s with mounted := some w })
        (fun reason w => fails (.ofFs reason) { s with mounted := some w }) := by
  simp only [Ends, withFsMut, mounted]
  cases m v <;> rfl

theorem ends_onVfs_iff (m : VfsM α) :
    Ends (onVfs m) s returns fails ↔
      Ends m s.vfs (fun value u => returns value { s with vfs := u })
        (fun stop u => fails (.vfs stop) { s with vfs := u }) := by
  simp only [Ends, onVfs]
  cases m s.vfs <;> rfl

theorem ends_credentials (returns : Credentials → Files → Prop) (task : TaskId) :
    Ends (credentials task) s returns fails ↔ returns ((s.vfs.credentials.lookup task).getD .root) s := Iff.rfl

end Rules

theorem Failure.ofFs_calm {fail : Fail} (calm : fail ≠ .panic) :
    ∃ error, Failure.ofFs fail = .vfs (.error error) := by
  cases fail with
  | fs error => exact ⟨_, rfl⟩
  | panic => exact (calm rfl).elim

/-! ### Paths -/

section Lookup

variable {live : Nat → Prop} {v : Volume}

theorem lookup_live (standing : NextFs.Standing live v) {d : UInt32} (here : live d.toNat) (name : Name) :
    match v.dirLookup d name with
    | .ok r => live r.toNat
    | .error fail => fail ≠ .panic := by
  -- What a name leads to from a live inode is live.
  cases look : v.dirLookup d name with
  | error fail => exact dirLookup_error standing.ok (standing.dirWorking here) look
  | ok r =>
    obtain ⟨inside, dir, _⟩ := dirLookup_ok standing.ok look
    have formed := standing.formed here dir
    rcases dirLookup_formed standing.ok inside (standing.housed.working here) formed name
      with ⟨r', found, member⟩ | ⟨missing, _⟩
    · cases look.symm.trans found
      exact standing.child here dir member
    · cases look.symm.trans missing

theorem walk_live (standing : NextFs.Standing live v) (parts : List Name) {d : UInt32} (here : live d.toNat) :
    match parts.foldlM (fun current part => v.dirLookup current part) d with
    | .ok r => live r.toNat
    | .error fail => fail ≠ .panic := by
  induction parts generalizing d with
  | nil => exact here
  | cons part rest ih =>
    have first := lookup_live standing here part
    rw [List.foldlM_cons]
    cases look : v.dirLookup d part with
    | error fail =>
      rw [look] at first
      exact first
    | ok r =>
      rw [look] at first
      exact ih first

end Lookup

section Calls

variable {live : Nat → Prop} {s : Files} {v : Volume} (mounted : s.mounted = some v)
    (standing : NextFs.Standing live v)

include mounted standing

theorem ends_resolvePath (path : Name) :
    Ends (resolvePath path) s (fun i t => t = s ∧ live i.toNat)
      (fun fail t => t = s ∧ ∃ error, fail = .vfs (.error error)) := by
  unfold resolvePath
  split
  · exact ⟨rfl, _, rfl⟩
  · rw [ends_withFs_iff _ _ _ _ mounted]
    split
    next value found =>
      refine ⟨rfl, ?_⟩
      split at found
      · cases found
        exact standing.root
      · have walked := walk_live standing (((path.dropWhile (· = slash)).splitOn slash).filter (· ≠ []))
          standing.root
        rw [found] at walked
        exact walked
    next reason failed =>
      refine ⟨rfl, ?_⟩
      split at failed
      · cases failed
      · have walked := walk_live standing (((path.dropWhile (· = slash)).splitOn slash).filter (· ≠ []))
          standing.root
        rw [failed] at walked
        exact Failure.ofFs_calm walked

theorem ends_requireDirWrite (task : TaskId) (dirInode : UInt32) :
    Ends (requireDirWrite task dirInode) s (fun _ t => t = s)
      (fun fail t => t = s ∧ ∃ error, fail = .vfs (.error error)) := by
  unfold requireDirWrite
  rw [ends_bind, ends_credentials, ends_withFs_iff _ _ _ _ mounted]
  split
  · rfl
  next reason failed =>
    exact ⟨rfl, Failure.ofFs_calm (checkPermission_calm standing.ok failed)⟩

theorem ends_parentOf (task : TaskId) (path : Name) :
    Ends (parentOf task path) s (fun found t => t = s ∧ live found.1.toNat ∧ found.2 = (splitPath path).2)
      (fun fail t => t = s ∧ ∃ error, fail = .vfs (.error error)) := by
  unfold parentOf
  rw [ends_bind]
  refine (ends_resolvePath mounted standing _).imp ?_ fun _ _ => id
  rintro parentInode _ ⟨rfl, here⟩
  rw [ends_bind]
  refine (ends_requireDirWrite mounted standing task parentInode).imp ?_ fun _ _ => id
  rintro _ _ rfl
  exact ⟨rfl, here, rfl⟩

end Calls

end PickleOS.Fs
