import PickleOS.Console.ShellHistory
import PickleOS.Shared.Machine

set_option autoImplicit false

namespace PickleOS.Console

open Shared Shared.Recent

/-- The entries but for those that repeat the one before. -/
def unrepeated (entries : List (List Char)) : List (List Char) :=
  entries.foldl (fun kept entry => if kept.getLast? = some entry then kept else kept ++ [entry]) []

def recentEntries (entries : List (List Char)) : List (List Char) := (unrepeated entries).rtake historyLimit

structure Saved (entries : List (List Char)) : Prop where
  typed : ∀ entry ∈ entries, entry ≠ [] ∧ Text.trim entry = entry ∧ '\n' ∉ entry
  distinct : unrepeated entries = entries
  bounded : entries.length ≤ historyLimit

theorem getLast?_rtake {α : Type} {count : Nat} (positive : 0 < count) (xs : List α) :
    (xs.rtake count).getLast? = xs.getLast? := by
  rcases List.eq_nil_or_concat xs with rfl | ⟨front, last, rfl⟩
  · rw [List.rtake_nil]
  · obtain ⟨less, rfl⟩ := Nat.exists_eq_succ_of_ne_zero (Nat.pos_iff_ne_zero.mp positive)
    rw [List.concat_eq_append, List.rtake_concat_succ, List.getLast?_concat, List.getLast?_concat]

theorem unrepeated_append (entries : List (List Char)) (entry : List Char) : unrepeated (entries ++ [entry]) =
    if (unrepeated entries).getLast? = some entry then unrepeated entries else
      unrepeated entries ++ [entry] := by
  rw [unrepeated, List.foldl_append]
  rfl

theorem remember_eq_push {entries : List (List Char)}
    {entry : List Char} (new : entries.getLast? ≠ some entry) :
    remember entries entry = Lossy.push historyLimit entries entry := by
  rw [remember, if_neg new, Lossy.push]
  dsimp only
  rw [List.length_append, List.length_singleton]
  by_cases full : historyLimit ≤ entries.length
  next =>
    have filled : entries ≠ [] := by
      rintro rfl
      exact absurd full (by decide)
    rw [if_pos full, if_pos (by omega), List.tail_append_of_ne_nil filled]
  next => rw [if_neg full, if_neg (by omega)]

theorem remember_recent (entries : List (List Char)) (entry : List Char) :
    remember (recentEntries entries) entry = recentEntries (entries ++ [entry]) := by
  have last : (recentEntries entries).getLast? = (unrepeated entries).getLast? := getLast?_rtake (by decide) _
  rw [show recentEntries (entries ++ [entry]) = (unrepeated (entries ++ [entry])).rtake historyLimit
    from rfl, unrepeated_append]
  by_cases again : (unrepeated entries).getLast? = some entry
  next =>
    rw [if_pos again, remember, if_pos (last.trans again)]
    rfl
  next =>
    rw [if_neg again, remember_eq_push fun same => again (last.symm.trans same)]
    exact push_rtake (by decide) (unrepeated entries) entry

theorem foldl_remember (past entries : List (List Char)) :
    entries.foldl remember (recentEntries past) = recentEntries (past ++ entries) := by
  induction entries generalizing past with
  | nil => rw [List.append_nil, List.foldl_nil]
  | cons entry rest ih => rw [List.foldl_cons, remember_recent, ih, List.append_assoc, List.singleton_append]

theorem Saved.recent {entries : List (List Char)} (saved : Saved entries) :
    recentEntries entries = entries := by
  rw [recentEntries, saved.distinct, List.rtake, Nat.sub_eq_zero_of_le saved.bounded, List.drop_zero]

theorem Saved.load {entries : List (List Char)} (saved : Saved entries) :
    (Text.lines (Utf8.lossy (Utf8.encode (Text.terminated entries)))).foldl (fun entries line =>
      let t := Text.trim line
      if t = [] then entries else remember entries t) [] = entries := by
  have plain (entry : List Char) (member : entry ∈ entries) : entry.getLast? ≠ some '\r' := by
    intro last
    exact absurd (Text.getLast?_of_trim (saved.typed entry member).2.1 last) (by decide)
  rw [Utf8.lossy_encode, Text.lines_terminated (fun entry member => (saved.typed entry member).2.2) plain]
  have same : entries.foldl (fun entries line =>
      let t := Text.trim line
      if t = [] then entries else remember entries t) [] = entries.foldl remember [] := by
    refine List.foldl_ext _ _ [] fun kept entry member => ?_
    obtain ⟨filled, trimmed, _⟩ := saved.typed entry member
    dsimp only
    rw [trimmed, if_neg filled]
  rw [same]
  exact (foldl_remember [] entries).trans saved.recent

/-! ### A boot -/

def Shells.booted (saved : Option (List (List Char))) : Shells where
  memory := []
  loaded := false
  mounted := false
  file := saved.map fun entries => Utf8.encode (Text.terminated entries)

/-- The commands of the session. -/
def entered (events : List ShellEvent) : List (List Char) := events.filterMap fun event => match event with
  | .enter line _ => if Text.trim line = [] then none else some (Text.trim line)
  | _ => none

/-- No command is entered before the history is loaded, and those after that are stored. -/
def Shells.Loads (s : Shells) : ShellEvent → Prop
  | .enter line written => Text.trim line = [] ∨ (s.loaded = true ∧ written = .stored)
  | _ => True

def Shells.Steady : Shells → List ShellEvent → Prop
  | _, [] => True
  | s, event :: rest => s.Loads event ∧ ∀ next, s.step event = some next → next.Steady rest

/-- The file has these entries, or none of it was ever written. -/
def Shells.OnDisk (s : Shells) (entries : List (List Char)) : Prop :=
  s.file = some (Utf8.encode (Text.terminated entries)) ∨ (s.file = none ∧ entries = [])

/-- Memory and file have what was saved and what was entered since. -/
structure Shells.Remembers (s : Shells) (entries : List (List Char)) : Prop where
  memory : s.memory = recentEntries entries
  file : s.OnDisk (recentEntries entries)

namespace Shells

theorem loaded_historyLoad (s : Shells) : s.historyLoad.loaded = true := by
  rw [historyLoad]
  split
  next loaded => exact loaded
  next => cases s.file <;> rfl

/-- Before the load the history is where it was left, and after it in memory too. -/
structure Holds (saved : Option (List (List Char))) (past : List (List Char)) (s : Shells) : Prop where
  before : s.loaded = false → s.memory = [] ∧ s.file = (booted saved).file ∧ past = []
  after : s.loaded = true → s.mounted = true ∧ s.Remembers (saved.getD [] ++ past)

variable {saved : Option (List (List Char))} {past : List (List Char)} {s t : Shells}

theorem Holds.load (holds : Holds saved past s) (fine : ∀ entries, saved = some entries → Saved entries)
    (new : s.loaded = false)
    (mounted : s.mounted = true) : Holds saved past s.historyLoad := by
  obtain ⟨memory, file, rfl⟩ := holds.before new
  rw [historyLoad, new]
  refine ⟨fun old => ?_, fun _ => ?_⟩
  · cases saved <;> simp_all [booted]
  cases saved with
  | none =>
    rw [booted, Option.map_none] at file
    simp only [Bool.false_eq_true, if_false, file]
    exact ⟨mounted, memory, .inr ⟨rfl, rfl⟩⟩
  | some entries =>
    rw [booted, Option.map_some] at file
    have recalled := (fine entries rfl).load
    have whole : recentEntries entries = entries := (fine entries rfl).recent
    simp only [Bool.false_eq_true, if_false, file]
    refine ⟨mounted, ?_, .inl ?_⟩
    · dsimp only
      rw [memory, recalled, Option.getD_some, List.append_nil, whole]
    · rw [Option.getD_some, List.append_nil, whole]

theorem Holds.enter (holds : Holds saved past s)
    {line : List Char} {written : Written} (loads : s.Loads (.enter line written)) :
    Holds saved (past ++ entered [.enter line written]) (s.take line written) := by
  by_cases blank : Text.trim line = []
  next =>
    have nothing : entered [.enter line written] = [] := by simp [entered, blank]
    rwa [nothing, List.append_nil, take, if_pos blank]
  obtain ⟨loaded, rfl⟩ := loads.resolve_left blank
  have one : entered [.enter line .stored] = [Text.trim line] := by simp [entered, blank]
  obtain ⟨mounted, memory, file⟩ := holds.after loaded
  have next := remember_recent (saved.getD [] ++ past) (Text.trim line)
  rw [← memory, List.append_assoc] at next
  rw [one, take, if_neg blank, historyPush]
  split
  next again =>
    rw [remember, if_pos again] at next
    refine ⟨fun new => (by rw [loaded] at new; cases new), fun _ => ⟨mounted, next, ?_⟩⟩
    rwa [← next, memory]
  next =>
    rw [historySave, if_pos mounted]
    refine ⟨fun new => (by rw [show s.loaded = false from new] at loaded; cases loaded),
      fun _ => ⟨mounted, next, .inl ?_⟩⟩
    rw [← next]

theorem Holds.step (holds : Holds saved past s) (fine : ∀ entries, saved = some entries → Saved entries)
    {event : ShellEvent}
    (loads : s.Loads event) (taken : s.step event = some t) : Holds saved (past ++ entered [event]) t := by
  cases event with
  | mount =>
    have nothing : entered [.mount] = [] := rfl
    rw [nothing, List.append_nil]
    simp only [Shells.step] at taken
    split at taken
    next => cases taken
    next =>
      cases taken
      refine ⟨holds.before, fun loaded => ⟨rfl, ?_⟩⟩
      obtain ⟨_, memory, file⟩ := holds.after loaded
      exact ⟨memory, file⟩
  | enter line written =>
    cases taken
    exact holds.enter loads
  | load =>
    have nothing : entered [.load] = [] := rfl
    rw [nothing, List.append_nil]
    simp only [Shells.step] at taken
    split at taken
    next ready =>
      cases taken
      rw [Bool.and_eq_true, Bool.not_eq_true'] at ready
      exact holds.load fine ready.1 ready.2
    next => cases taken

theorem Holds.run (fine : ∀ entries, saved = some entries → Saved entries)
    {events : List ShellEvent} (holds : Holds saved past s)
    (steady : s.Steady events) (done : Machine.run Shells.step s events = some t) :
      Holds saved (past ++ entered events) t := by
  induction events generalizing s past with
  | nil =>
    cases done
    rwa [show entered [] = [] from rfl, List.append_nil]
  | cons event rest ih =>
    obtain ⟨u, taken, done⟩ := Option.bind_eq_some_iff.mp done
    have next := ih (holds.step fine steady.1 taken) (steady.2 u taken) done
    have joined : entered ([event] ++ rest) = entered [event] ++ entered rest := List.filterMap_append
    rwa [List.append_assoc, ← joined] at next

end Shells

/-- If no command is entered before the load, the history has what was saved and then what was entered, up
to the limit. -/
theorem history_kept {saved : Option (List (List Char))}
    (fine : ∀ entries, saved = some entries → Saved entries)
    {events : List ShellEvent} (steady : (Shells.booted saved).Steady events) {s : Shells}
    (done : Machine.run Shells.step (.booted saved) events = some s) (loaded : s.loaded = true) :
    s.Remembers (saved.getD [] ++ entered events) := by
  have start : Shells.Holds saved [] (.booted saved) :=
    ⟨fun _ => ⟨rfl, rfl, rfl⟩, fun loaded => by cases loaded⟩
  have last := start.run fine steady done
  exact (last.after loaded).2

theorem saved_pair : Saved ["ls".toList, "ps".toList] := by
  refine ⟨?_, by decide, by decide⟩
  decide

theorem history_kept_booted : ∃ s, Machine.run Shells.step (.booted (some ["ls".toList, "ps".toList]))
    [.mount, .load, .enter "cat a ".toList .stored] = some s ∧
      s.Remembers ["ls".toList, "ps".toList, "cat a".toList] := by
  have run : (Machine.run Shells.step (.booted (some ["ls".toList, "ps".toList]))
    [.mount, .load, .enter "cat a ".toList .stored]).map
      (fun s => s.loaded) = some true := by decide
  obtain ⟨s, done, loaded⟩ := Option.map_eq_some_iff.mp run
  have steady : (Shells.booted (some ["ls".toList, "ps".toList])).Steady
    [.mount, .load, .enter "cat a ".toList .stored] := by
    refine ⟨trivial, fun s mounted => ⟨trivial, fun t taken => ⟨.inr ⟨?_, rfl⟩, fun _ _ => trivial⟩⟩⟩
    cases mounted
    cases taken
    exact Shells.loaded_historyLoad _
  refine ⟨s, done, ?_⟩
  exact history_kept (fun entries same => by cases same; exact saved_pair) steady done loaded

/-- The command that is entered before the load takes the place of all that was saved. -/
theorem history_lost : Saved ["ls".toList, "ps".toList] ∧ ∃ s,
    Machine.run Shells.step (.booted (some ["ls".toList, "ps".toList]))
      [.mount, .enter ['a'] .stored, .load] = some s ∧
      s.loaded = true ∧ s.memory = [['a']] ∧ s.OnDisk [['a']] ∧
      ¬s.Remembers ["ls".toList, "ps".toList, ['a']] := by
  have run : (Machine.run Shells.step (.booted (some ["ls".toList, "ps".toList]))
    [.mount, .enter ['a'] .stored, .load]).map
      (fun s => (s.loaded, s.memory, s.file)) = some (true, [['a']], some [0x61, 0x0A]) := by decide
  obtain ⟨s, done, fields⟩ := Option.map_eq_some_iff.mp run
  obtain ⟨loaded, memory, file⟩ : s.loaded = true ∧ s.memory = [['a']] ∧
    s.file = some [0x61, 0x0A] := by simpa using fields
  refine ⟨saved_pair, s, done, loaded, memory, .inl file, fun remembers => ?_⟩
  have kept := remembers.memory
  rw [memory] at kept
  exact absurd kept (by decide)

end PickleOS.Console
