import Mathlib.Logic.Function.Iterate
import PickleOS.Apps.TextEditor

set_option autoImplicit false

namespace PickleOS.Apps.TextEditor

open Shared

variable {disk : Disk} {file : Option (List UInt8)} {ed : Editor}

namespace Editor

/-- What a save is for: a document that is then clean is what `load` gives, and one that was not written
whole is not clean. -/
structure Persists (ed : Editor) (disk : Disk) (file : Option (List UInt8)) : Prop where
  loads : (ed.save disk file).1.dirty = false →
    ((ed.save disk file).1.load (ed.save disk file).2).lines = ed.lines
  partWay : disk.opens = true → disk.written ed.content.length < ed.content.length →
    (ed.save disk file).1.dirty = true

/-- `save` and then `load`. -/
def cycle (disk : Disk) (ed : Editor) : Editor := (ed.save disk none).1.load (ed.save disk none).2

theorem load_lines (data : List UInt8) : (ed.load (some data)).lines = (Utf8.lossy data).splitOn '\n' := by
  rw [load]
  dsimp only
  rw [if_neg (List.splitOn_ne_nil '\n' (Utf8.lossy data))]

theorem content_eq (filled : ed.lines ≠ []) : ed.content = Utf8.encode (Text.terminated ed.lines) := by
  rw [content, Text.terminated_eq_intercalate filled]

theorem loaded_content (ed : Editor) : ∃ more,
    ((Utf8.lossy ed.content).splitOn '\n').length = ed.lines.length + 1 + more := by
  rw [content, Utf8.lossy_encode]
  by_cases filled : ed.lines = []
  next =>
    rw [filled]
    exact ⟨1, rfl⟩
  next =>
    rw [Text.terminated_eq_intercalate filled]
    obtain ⟨more, length⟩ := Text.length_splitOn_terminated ed.lines
    exact ⟨more, length⟩

theorem save_opened (ed : Editor) (file : Option (List UInt8)) (opens : disk.opens = true) :
    (ed.save disk file).1.dirty = false ∧
    (ed.save disk file).2 = some (ed.content.take (disk.written ed.content.length)) := by
  rw [save, if_pos opens]
  exact ⟨rfl, rfl⟩

theorem save_refused (ed : Editor) (file : Option (List UInt8)) (refused : disk.opens = false) :
    (ed.save disk file).1.dirty = ed.dirty ∧ (ed.save disk file).1.lines = ed.lines ∧
      (ed.save disk file).2 = file := by
  rw [save, if_neg (by rw [refused]; decide)]
  exact ⟨rfl, rfl, rfl⟩

/-- A document is kept only where nothing is written: the file cannot be opened, and the document is
dirty, or is the file. -/
theorem persists_iff (ed : Editor) (disk : Disk) (file : Option (List UInt8)) : ed.Persists disk file ↔
    disk.opens = false ∧ (ed.dirty = true ∨ ∀ data, file = some data →
      (Utf8.lossy data).splitOn '\n' = ed.lines) := by
  cases opens : disk.opens with
  | true =>
    obtain ⟨clean, saved⟩ := save_opened ed file opens
    refine iff_of_false (fun persists => ?_) fun kept => by cases kept.1
    by_cases part : disk.written ed.content.length < ed.content.length
    next =>
      have dirty := persists.partWay opens part
      rw [clean] at dirty
      cases dirty
    next =>
      have loads := persists.loads clean
      rw [saved, List.take_of_length_le (Nat.not_lt.mp part), load_lines] at loads
      obtain ⟨more, length⟩ := loaded_content ed
      rw [loads] at length
      omega
  | false =>
    obtain ⟨same, lines, kept⟩ := save_refused ed file opens
    have loads : ((ed.save disk file).1.load (ed.save disk file).2).lines = ed.lines ↔
        ∀ data, file = some data → (Utf8.lossy data).splitOn '\n' = ed.lines := by
      rw [kept]
      cases file with
      | none => exact iff_of_true lines fun data absent => by cases absent
      | some data =>
        rw [load_lines]
        exact ⟨fun whole other same => by cases same; exact whole, fun whole => whole data rfl⟩
    constructor
    · intro persists
      refine ⟨rfl, ?_⟩
      cases dirty : ed.dirty with
      | true => exact .inl rfl
      | false => exact .inr (loads.mp (persists.loads (same.trans dirty)))
    · rintro ⟨_, kept⟩
      refine ⟨fun clean => loads.mpr ?_, fun written => (by rw [opens] at written; cases written)⟩
      rw [same] at clean
      exact kept.resolve_left (by rw [clean]; decide)

def letter : Editor := { Editor.new none with lines := [['a']], dirty := true }

/-- The letter comes back with an empty line, and a disk with room for one byte leaves it marked as
saved. -/
theorem letter_drifts :
    (¬letter.Persists { opens := true, accepts := fun _ => some 256 } none ∧
      (cycle { opens := true, accepts := fun _ => some 256 } letter).lines = [['a'], []]) ∧
    ¬letter.Persists { opens := true, accepts := fun n => some (1 - n) } none ∧
      (letter.save { opens := true, accepts := fun n => some (1 - n) } none).1.dirty = false ∧
      (letter.save { opens := true, accepts := fun n => some (1 - n) } none).2 = some [0x61] := by
  refine ⟨⟨fun persists => ?_, by decide⟩, fun persists => ?_, by decide, by decide⟩
  · exact absurd (persists.loads (by decide)) (by decide)
  · exact absurd (persists.partWay (by decide) (by decide)) (by decide)

/-! ### Again and again -/

theorem lines_cycle (opens : disk.opens = true) (whole : ∀ length, length ≤ disk.written length)
    (filled : ed.lines ≠ [])
    (clean : ∀ line ∈ ed.lines, '\n' ∉ line) : (cycle disk ed).lines = ed.lines ++ [[]] := by
  rw [cycle, (save_opened ed none opens).2, List.take_of_length_le (whole _), load_lines,
    content_eq filled, Utf8.lossy_encode,
    Text.splitOn_terminated clean]

theorem lines_cycles (opens : disk.opens = true) (whole : ∀ length, length ≤ disk.written length)
    (filled : ed.lines ≠ [])
    (clean : ∀ line ∈ ed.lines, '\n' ∉ line) (count : Nat) :
    ((cycle disk)^[count] ed).lines = ed.lines ++ List.replicate count [] := by
  induction count generalizing ed with
  | zero => exact (List.append_nil _).symm
  | succ count ih =>
    have once := lines_cycle opens whole filled clean
    have next := @ih (cycle disk ed) (by simp [once]) (fun line member => by
      rw [once, List.mem_append, List.mem_singleton] at member
      rcases member with old | rfl
      · exact clean line old
      · exact List.not_mem_nil)
    rw [Function.iterate_succ_apply, next, once, List.append_assoc, List.singleton_append, List.replicate_succ]

end Editor

end PickleOS.Apps.TextEditor
