import PickleOS.Console.Input
import PickleOS.Shared.Ring

set_option autoImplicit false

/-!
# The standard input

`read` of a keyboard descriptor takes characters out of the ring one by one, each under the lock.
Characters arrive in between.
-/

namespace PickleOS.Fs.Keyboard

open Shared Shared.Machine Console.Input

abbrev encodeUtf8 : Char → List UInt8 := String.utf8EncodeChar

/-- A call of `read`, with the part of its buffer that is filled. -/
structure Reading where
  task : UInt32
  len : Nat
  got : List UInt8
  -- In `read_char_blocking`.
  first : Bool
  deriving DecidableEq

structure Return where
  len : Nat
  bytes : List UInt8
  deriving DecidableEq

structure State where
  input : ConsoleInput
  reading : Option Reading
  -- The rest is history that nothing looks at.
  entered : List Char
  returned : List Return

namespace State

def initial : State where
  input := .initial
  reading := none
  entered := []
  returned := []

variable (s : State)

def finish (r : Reading) : State :=
  { s with reading := none, returned := s.returned ++ [Return.mk r.len r.got] }

/-- `push_char` and `wake_waiters`. -/
def push (c : Char) : State :=
  { s with
    input := { s.input.pushChar c with waiters := [] }
    entered := if ConsoleInput.next s.input.head = s.input.tail then s.entered else s.entered ++ [c] }

def readCharBlocking (r : Reading) : State :=
  match s.input.pop with
  | (none, input) => { s with input := input.register r.task }
  | (some c, input) =>
    let encoded := encodeUtf8 c
    let got := if encoded.length ≤ r.len then r.got ++ encoded else r.got
    { s with input := input, reading := some { r with got := got, first := false } }

def drain (r : Reading) : State :=
  if r.got.length < r.len then
    match s.input.pop with
    | (none, _) => s.finish r
    | (some c, input) =>
      let encoded := encodeUtf8 c
      if r.len < r.got.length + encoded.length then { s with input := input }.finish r
      else { s with input := input, reading := some { r with got := r.got ++ encoded } }
  else s.finish r

end State

inductive Action where
  /-- A character arrives. -/
  | push (c : Char)
  | read (task : UInt32) (len : Nat)
  /-- The call of `read` goes on. -/
  | look

def step (s : State) : Action → Option State
  | .push c => some (s.push c)
  | .read task len =>
    match s.reading with
    | none => some { s with reading := some { task := task, len := len, got := [], first := decide (0 < len) } }
    | some _ => none
  | .look => s.reading.map fun r => if r.first then s.readCharBlocking r else s.drain r

def fits (s : State) : Action → Bool
  | .look =>
    match s.reading, s.input.pop.1 with
    | some r, some c => r.len ≤ r.got.length || r.got.length + (encodeUtf8 c).length ≤ r.len
    | _, _ => true
  | _ => true

namespace State

variable (s : State)

def chars : List Char := Ring.content s.input.buf s.input.head s.input.tail

def delivered : List UInt8 := s.returned.flatMap Return.bytes

/-- What is delivered, what a call has taken so far, and what the ring still keeps. -/
def held : List UInt8 := s.delivered ++ ((s.reading.map Reading.got).getD [] ++ s.chars.flatMap encodeUtf8)

def due : List UInt8 := s.entered.flatMap encodeUtf8

end State

structure Lossless (s : State) : Prop where
  order : s.delivered <+: s.due
  -- What is not delivered yet is still to come.
  kept : s.held = s.due
  positive : ∀ r ∈ s.returned, 0 < r.len → r.bytes ≠ []

def Tidy (s : State) : Prop := ∀ r, s.reading = some r → r.first = true → r.got = [] ∧ 0 < r.len

/-- No call that asks for something has got past its first character with nothing. -/
structure Prompt (s : State) : Prop where
  reading : ∀ r, s.reading = some r → r.first = false → 0 < r.len → r.got ≠ []
  returned : ∀ r ∈ s.returned, 0 < r.len → r.bytes ≠ []

variable {s t : State} {a : Action} {r : Reading}

theorem encodeUtf8_pos (c : Char) : 0 < (encodeUtf8 c).length :=
  List.length_pos_of_ne_nil String.utf8EncodeChar_ne_nil

theorem pop_none (empty : s.input.empty = true) : s.input.pop = (none, s.input) ∧ s.chars = [] := by
  refine ⟨by simp [ConsoleInput.pop, empty], ?_⟩
  exact (Ring.content_eq_nil _ _ _).mpr (by simpa [ConsoleInput.empty] using empty)

theorem pop_some (nonempty : s.input.empty = false) :
    ∃ c input, s.input.pop = (some c, input) ∧ s.chars = c :: Ring.content input.buf input.head input.tail := by
  refine ⟨s.input.buf[s.input.tail], { s.input with tail := ConsoleInput.next s.input.tail }, ?_, ?_⟩
  · simp [ConsoleInput.pop, nonempty]
  · exact Ring.content_pop _ _ _ (by simpa [ConsoleInput.empty] using nonempty)

theorem held_push (s : State) (c : Char) : ∃ bytes, (s.push c).held = s.held ++ bytes ∧
    (s.push c).due = s.due ++ bytes := by
  by_cases full : ConsoleInput.next s.input.head = s.input.tail
  · refine ⟨[], ?_, ?_⟩
    · simp [State.held, State.delivered, State.chars, State.push, ConsoleInput.pushChar, full]
    · simp [State.due, State.push, full]
  · refine ⟨encodeUtf8 c, ?_, ?_⟩
    · have pushed : (s.push c).chars = s.chars ++ [c] := by
        simp only [State.chars, State.push, ConsoleInput.pushChar, full, if_false]
        exact Ring.content_push _ _ _ c full
      simp only [State.held, pushed, List.flatMap_append, List.flatMap_cons, List.flatMap_nil, List.append_nil]
      simp [State.delivered, State.push]
    · simp [State.due, State.push, full]

theorem held_finish (reads : s.reading = some r) : (s.finish r).held = s.held := by
  simp [State.held, State.delivered, State.chars, State.finish, reads]

/-- What a call that goes on does. -/
inductive Looks (s : State) (r : Reading) : State → Prop
  | wait (first : r.first = true) (empty : s.input.pop.1 = none) :
    Looks s r { s with input := s.input.register r.task }
  | take {c : Char} {input : ConsoleInput} (popped : s.input.pop.1 = some c)
      (chars : s.chars = c :: Ring.content input.buf input.head input.tail)
      (room : r.got.length + (encodeUtf8 c).length ≤ r.len) :
      Looks s r { s with input := input, reading := some { r with got := r.got ++ encodeUtf8 c, first :=
        false } }
  | skip {c : Char} {input : ConsoleInput} (popped : s.input.pop.1 = some c)
      (chars : s.chars = c :: Ring.content input.buf input.head input.tail) (first : r.first = true)
      (short : r.len < r.got.length + (encodeUtf8 c).length) :
      Looks s r { s with input := input, reading := some { r with first := false } }
  | cut {c : Char} {input : ConsoleInput} (popped : s.input.pop.1 = some c)
      (chars : s.chars = c :: Ring.content input.buf input.head input.tail) (first : r.first = false)
      (more : r.got.length < r.len) (short : r.len < r.got.length + (encodeUtf8 c).length) :
      Looks s r ({ s with input := input }.finish r)
  | finish (first : r.first = false) (done : r.len ≤ r.got.length ∨ s.input.pop.1 = none) :
    Looks s r (s.finish r)

theorem look_cases (tidy : Tidy s) (reads : s.reading = some r) :
    Looks s r (if r.first then s.readCharBlocking r else s.drain r) := by
  cases first : r.first with
  | true =>
    simp only [if_true]
    have nothing := (tidy r reads first).1
    cases empty : s.input.empty with
    | true =>
      have none := (pop_none empty).1
      simp only [State.readCharBlocking, none]
      exact .wait first (by rw [none])
    | false =>
      obtain ⟨c, input, popped, chars⟩ := pop_some empty
      simp only [State.readCharBlocking, popped]
      by_cases room : (encodeUtf8 c).length ≤ r.len
      · simp only [room, if_true]
        exact .take (by rw [popped]) chars (by simpa [nothing] using room)
      · simp only [room, if_false]
        exact .skip (by rw [popped]) chars first (by simpa [nothing] using Nat.lt_of_not_le room)
  | false =>
    simp only [Bool.false_eq_true, if_false, State.drain]
    by_cases more : r.got.length < r.len
    · simp only [more, if_true]
      cases empty : s.input.empty with
      | true =>
        have none := (pop_none empty).1
        simp only [none]
        exact .finish first (.inr (by rw [none]))
      | false =>
        obtain ⟨c, input, popped, chars⟩ := pop_some empty
        simp only [popped]
        by_cases short : r.len < r.got.length + (encodeUtf8 c).length
        · simp only [short, if_true]
          exact .cut (by rw [popped]) chars first more short
        · simp only [short, if_false]
          simpa only [first] using Looks.take (r := r) (by rw [popped]) chars (Nat.le_of_not_lt short)
    · simp only [more, if_false]
      exact .finish first (.inl (Nat.le_of_not_lt more))

theorem held_take {c : Char} {input : ConsoleInput} (reads : s.reading = some r)
    (chars : s.chars = c :: Ring.content input.buf input.head input.tail) (first : Bool) :
    ({ s with input := input, reading := some { r with got := r.got ++ encodeUtf8 c, first := first } } :
      State).held = s.held := by
  simp [State.held, reads, chars]
  simp [State.delivered, State.chars]

theorem held_forget {c : Char} {input : ConsoleInput} (reads : s.reading = some r)
    (chars : s.chars = c :: Ring.content input.buf input.head input.tail) (first : Bool) :
    ({ s with input := input, reading := some { r with first := first } } : State).held.length +
      (encodeUtf8 c).length =
      s.held.length := by
  simp only [State.held, reads, chars, Option.map_some, Option.getD_some, List.flatMap_cons, List.length_append]
  simp only [State.delivered, State.chars]
  omega

theorem fits_some {c : Char} (reads : s.reading = some r) (popped : s.input.pop.1 = some c) :
    fits s .look = true ↔ r.len ≤ r.got.length ∨ r.got.length + (encodeUtf8 c).length ≤ r.len := by
  simp [fits, reads, popped]

theorem fits_none (popped : s.input.pop.1 = none) : fits s .look = true := by
  cases reads : s.reading <;> simp [fits, reads, popped]

theorem Looks.due (looked : Looks s r t) : t.due = s.due := by
  cases looked <;> rfl

theorem Looks.held_of_fits (looked : Looks s r t) (tidy : Tidy s) (reads : s.reading = some r)
    (fine : fits s .look = true) :
    t.held = s.held := by
  cases looked with
  | wait => simp [State.held, State.delivered, State.chars, ConsoleInput.register]
  | take _ chars => exact held_take reads chars false
  | skip popped _ first short =>
    obtain ⟨nothing, asks⟩ := tidy r reads first
    rw [fits_some reads popped, nothing] at fine
    simp only [nothing, List.length_nil] at short fine
    omega
  | cut popped _ _ more short =>
    rw [fits_some reads popped] at fine
    omega
  | finish => exact held_finish reads

theorem Looks.held_of_not_fits (looked : Looks s r t) (reads : s.reading = some r)
    (loses : ¬fits s .look = true) :
    t.held.length < s.held.length := by
  cases looked with
  | wait _ popped => exact absurd (fits_none popped) loses
  | take popped _ room => exact absurd ((fits_some reads popped).mpr (.inr room)) loses
  | @skip c _ _ chars =>
    have gone := held_forget reads chars false
    have size := encodeUtf8_pos c
    omega
  | @cut c input _ chars =>
    have gone : ({ s with input := input, reading := some r } : State).held.length + _ = _ :=
      held_forget reads chars r.first
    have size := encodeUtf8_pos c
    rw [← held_finish rfl] at gone
    change ({ s with input := input }.finish r).held.length + _ = _ at gone
    omega
  | finish _ done =>
    rcases done with full | popped
    · cases popped : s.input.pop.1 with
      | none => exact absurd (fits_none popped) loses
      | some c => exact absurd ((fits_some reads popped).mpr (.inl full)) loses
    · exact absurd (fits_none popped) loses

theorem Looks.tidy (looked : Looks s r t) (tidy : Tidy s) : Tidy t := by
  cases looked with
  | wait => exact tidy
  | take | skip =>
    intro r' reads first
    cases reads
    cases first
  | cut | finish =>
    intro r' reads
    cases reads

theorem step_tidy (tidy : Tidy s) (taken : step s a = some t) : Tidy t := by
  cases a with
  | push c =>
    cases taken
    exact tidy
  | read task len =>
    simp only [step] at taken
    split at taken
    next =>
      cases taken
      intro r reads first
      cases reads
      exact ⟨rfl, of_decide_eq_true first⟩
    next => cases taken
  | look =>
    obtain ⟨r, reads, rfl⟩ := Option.map_eq_some_iff.mp taken
    exact (look_cases tidy reads).tidy tidy

theorem step_held (tidy : Tidy s) (fine : fits s a = true) (taken : step s a = some t) :
    ∃ bytes, t.held = s.held ++ bytes ∧ t.due = s.due ++ bytes := by
  cases a with
  | push c =>
    cases taken
    exact held_push s c
  | read task len =>
    simp only [step] at taken
    split at taken
    next idle =>
      cases taken
      exact ⟨[], by simp [State.held, State.delivered, State.chars, idle], by simp [State.due]⟩
    next => cases taken
  | look =>
    obtain ⟨r, reads, rfl⟩ := Option.map_eq_some_iff.mp taken
    have looked := look_cases tidy reads
    exact ⟨[], by simp [looked.held_of_fits tidy reads fine], by simp [looked.due]⟩

theorem step_loses (tidy : Tidy s) (loses : ¬fits s a = true) (taken : step s a = some t) :
    t.held.length < s.held.length ∧ t.due = s.due := by
  cases a with
  | push c => exact absurd rfl loses
  | read task len => exact absurd rfl loses
  | look =>
    obtain ⟨r, reads, rfl⟩ := Option.map_eq_some_iff.mp taken
    have looked := look_cases tidy reads
    exact ⟨looked.held_of_not_fits reads loses, looked.due⟩

theorem Looks.prompt (looked : Looks s r t) (tidy : Tidy s) (prompt : Prompt s) (reads : s.reading = some r)
    (fine : fits s .look = true) : Prompt t := by
  cases looked with
  | wait => exact ⟨prompt.reading, prompt.returned⟩
  | @take c =>
    refine ⟨?_, prompt.returned⟩
    intro r' reads' _ _
    cases reads'
    simp
  | skip popped _ first short =>
    obtain ⟨nothing, asks⟩ := tidy r reads first
    rw [fits_some reads popped] at fine
    simp only [nothing, List.length_nil] at short fine
    omega
  | cut popped _ _ more short =>
    rw [fits_some reads popped] at fine
    omega
  | finish first =>
    refine ⟨fun _ reads' => (by cases reads'), ?_⟩
    intro r' member asks
    rcases List.mem_append.mp member with old | new
    · exact prompt.returned r' old asks
    · cases List.mem_singleton.mp new
      exact prompt.reading r reads first asks

theorem step_prompt (tidy : Tidy s) (prompt : Prompt s) (fine : fits s a = true)
    (taken : step s a = some t) : Prompt t := by
  cases a with
  | push c =>
    cases taken
    exact ⟨prompt.reading, prompt.returned⟩
  | read task len =>
    simp only [step] at taken
    split at taken
    next =>
      cases taken
      refine ⟨?_, prompt.returned⟩
      intro r reads first asks
      cases reads
      simp [asks] at first
    next => cases taken
  | look =>
    obtain ⟨r, reads, rfl⟩ := Option.map_eq_some_iff.mp taken
    exact (look_cases tidy reads).prompt tidy prompt reads fine

theorem run_short {schedule : List Action} (tidy : Tidy s) (short : s.held.length < s.due.length)
    (done : run step s schedule = some t) : t.held.length < t.due.length := by
  induction schedule generalizing s with
  | nil =>
    cases done
    exact short
  | cons a rest ih =>
    obtain ⟨u, taken, done⟩ := Option.bind_eq_some_iff.mp done
    refine ih (step_tidy tidy taken) ?_ done
    by_cases fine : fits s a = true
    · obtain ⟨bytes, held, due⟩ := step_held tidy fine taken
      simpa [held, due] using short
    · obtain ⟨less, due⟩ := step_loses tidy fine taken
      rw [due]
      exact Nat.lt_trans less short

theorem run_lossless {schedule : List Action} (tidy : Tidy s) (prompt : Prompt s) (kept : s.held = s.due)
    (done : run step s schedule = some t) :
    Lossless t ↔ replay step (fun s a => fits s a = true) s schedule = some t := by
  induction schedule generalizing s with
  | nil =>
    cases done
    simp only [replay, iff_true]
    refine ⟨?_, kept, prompt.returned⟩
    rw [← kept]
    exact List.prefix_append _ _
  | cons a rest ih =>
    obtain ⟨u, taken, done⟩ := Option.bind_eq_some_iff.mp done
    by_cases fine : fits s a = true
    · obtain ⟨bytes, held, due⟩ := step_held tidy fine taken
      simp only [replay, fine, if_true, taken, Option.bind_some]
      exact ih (step_tidy tidy taken) (step_prompt tidy prompt fine taken) (by rw [held, due, kept]) done
    · have never : replay step (fun s a => fits s a = true) s (a :: rest) = none := by simp [replay, fine]
      rw [never]
      obtain ⟨less, due⟩ := step_loses tidy fine taken
      have short := run_short (step_tidy tidy taken) (by rw [due, ← kept]; exact less) done
      constructor
      · intro lossless
        rw [lossless.kept] at short
        exact absurd short (Nat.lt_irrefl _)
      · intro reached
        cases reached

/-- Nothing is lost in exactly those runs in which every character that a call takes fits what is left of
its buffer. -/
theorem reads_lose_nothing {schedule : List Action} (done : run step .initial schedule = some s) :
    Lossless s ↔ replay step (fun s a => fits s a = true) .initial schedule = some s := by
  refine run_lossless ?_ ⟨?_, ?_⟩ ?_ done
  · intro r reads
    cases reads
  · intro r reads
    cases reads
  · intro r member
    cases member
  · rfl

theorem reads_in_two_parts : ∃ s,
    run step .initial [.push 'é', .read 7 2, .look, .push 'a', .look, .read 7 4, .look, .look] = some s ∧
      s.returned = [⟨2, [0xc3, 0xa9]⟩, ⟨4, [0x61]⟩] ∧ Lossless s := by
  have computed : (replay step (fun s a => fits s a = true) .initial
      [.push 'é', .read 7 2, .look, .push 'a', .look, .read 7 4, .look, .look]).map State.returned =
        some [⟨2, [0xc3, 0xa9]⟩, ⟨4, [0x61]⟩] := by decide
  obtain ⟨s, reached, bytes⟩ := Option.map_eq_some_iff.mp computed
  have done := run_of_replay reached
  exact ⟨s, done, bytes, (reads_lose_nothing done).mpr reached⟩

/-- Two bytes do not fit a buffer of one, and `a` comes after nothing. -/
theorem read_forgets : ∃ s,
    run step .initial [.push 'é', .read 7 1, .look, .look, .push 'a', .read 7 1, .look, .look] = some s ∧
      s.returned = [⟨1, []⟩, ⟨1, [0x61]⟩] ∧ ¬s.delivered <+: s.due ∧ ¬Lossless s := by
  refine ⟨_, rfl, by decide, by decide, ?_⟩
  intro lossless
  exact absurd lossless.order (by decide)

end PickleOS.Fs.Keyboard
