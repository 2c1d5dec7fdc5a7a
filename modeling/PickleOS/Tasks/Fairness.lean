import PickleOS.Shared.Rounds
import PickleOS.Tasks.Timeline

set_option autoImplicit false

namespace PickleOS.Tasks

open Shared Shared.Rounds

def Task.ready (t : Task) : Bool := t.state = .runnable ∨ t.state = .running

namespace Scheduler

variable (s : Scheduler)

def readySlots : List Nat := (List.range s.tasks.length).filter fun i => s.tasks[i]?.any Task.ready

theorem mem_readySlots {i : Nat} : i ∈ s.readySlots ↔ ∃ t, s.tasks[i]? = some t ∧ t.ready = true := by
  rw [readySlots, List.mem_filter, List.mem_range, Option.any_eq_true]
  constructor
  · exact fun both => both.2
  · rintro ⟨t, here, ready⟩
    exact ⟨(List.getElem?_eq_some_iff.mp here).1, t, here, ready⟩

/-- The current index is one of the table, and nobody else runs. -/
structure Coherent : Prop where
  inside : s.current < s.tasks.length
  alone : ∀ (i : Nat) (t : Task), s.tasks[i]? = some t → t.state = .running → i = s.current

/-- The slots in the order in which `schedule` looks at them. -/
def lookOrder : List Nat := (List.range s.tasks.length).map fun k => (s.current + 1 + k) % s.tasks.length

variable {s t : Scheduler}

theorem readySlots_sorted (s : Scheduler) : s.readySlots.Pairwise (· < ·) := List.pairwise_lt_range.filter _

theorem findRunnable_eq (s : Scheduler) (turns idx : Nat) : s.findRunnable turns idx =
    ((List.range turns).map fun k => (idx + 1 + k) % s.tasks.length).find? fun i =>
      s.tasks[i]?.any (·.state = .runnable) := by
  induction turns generalizing idx with
  | zero => rfl
  | succ turns ih =>
    rw [findRunnable, ih, List.range_succ_eq_map, List.map_cons, List.find?_cons, List.map_map, Nat.add_zero]
    have later : (fun k => (idx + 1 + k) % s.tasks.length) ∘ Nat.succ =
        fun k => ((idx + 1) % s.tasks.length + 1 + k) % s.tasks.length := by
      funext k
      rw [Function.comp_apply, Nat.add_assoc ((idx + 1) % _), Nat.mod_add_mod, Nat.succ_eq_add_one,
        Nat.add_comm 1 k]
    rw [later]
    cases s.tasks[(idx + 1) % s.tasks.length]?.any (·.state = .runnable) <;> rfl

theorem lookOrder_eq (inside : s.current < s.tasks.length) :
    s.lookOrder = List.range' (s.current + 1) (s.tasks.length - s.current - 1) ++ List.range s.current ++
      [s.current] := by
  apply List.ext_getElem
  · simp [lookOrder]
    omega
  · intro k first second
    simp only [lookOrder, List.length_map, List.length_range] at first
    simp only [lookOrder, List.getElem_map, List.getElem_range, List.append_assoc, List.getElem_append,
      List.length_range',
      List.getElem_range', List.length_range, List.getElem_singleton]
    split
    · rw [Nat.one_mul]
      exact Nat.mod_eq_of_lt (by omega)
    · rw [show s.current + 1 + k = (k - (s.tasks.length - s.current - 1)) + s.tasks.length by omega,
        Nat.add_mod_right,
        Nat.mod_eq_of_lt (by omega)]
      split <;> omega

theorem range_filter_le {c n : Nat} (inside : c < n) : (List.range n).filter (· ≤ c) = List.range c ++ [c] := by
  rw [show n = (c + 1) + (n - c - 1) by omega, List.range_add, List.filter_append, ← List.range_succ]
  rw [List.filter_eq_self.mpr fun i member => by simpa using Nat.le_of_lt_succ (List.mem_range.mp member)]
  rw [List.filter_eq_nil_iff.mpr, List.append_nil]
  intro i member
  obtain ⟨k, _, rfl⟩ := List.mem_map.mp member
  simp
  omega

theorem range_filter_lt {c n : Nat} (inside : c < n) :
    (List.range n).filter (c < ·) = List.range' (c + 1) (n - c - 1) := by
  rw [show n = (c + 1) + (n - c - 1) by omega, List.range_add, List.filter_append]
  rw [List.filter_eq_nil_iff.mpr fun i member => by simpa using Nat.le_of_lt_succ (List.mem_range.mp member)]
  rw [List.nil_append, List.filter_eq_self.mpr, List.range'_eq_map_range]
  · congr 2
    omega
  · intro i member
    obtain ⟨k, _, rfl⟩ := List.mem_map.mp member
    simp
    omega

theorem round_eq (inside : s.current < s.tasks.length) :
    roundAfter s.current s.readySlots = s.lookOrder.filter fun i => s.tasks[i]?.any Task.ready := by
  rw [lookOrder_eq inside, List.append_assoc, ← range_filter_le inside, ← range_filter_lt inside,
    List.filter_append]
  unfold roundAfter readySlots
  simp only [List.filter_filter, Bool.and_comm]

theorem me_switchTo {i : Nat} {x : Task} (here : s.tasks[i]? = some x) :
    ∃ y, (s.switchTo i).me = some y ∧ y.state = .running := by
  have inside := (List.getElem?_eq_some_iff.mp here).1
  unfold Scheduler.me switchTo modifyCurrent
  dsimp only
  rw [List.getElem?_modify_eq]
  have some : (s.tasks.modify s.current fun t => if t.state = .running then t.inState .runnable else
    t)[i]?.isSome := by
    simpa using inside
  obtain ⟨y, there⟩ := Option.isSome_iff_exists.mp some
  exact ⟨_, by rw [there]; rfl, rfl⟩

theorem schedule_first (coherent : Coherent s)
    {a : Nat} {rest : List Nat} (round : roundAfter s.current s.readySlots = a :: rest) :
    s.schedule.current = a ∧ ∃ x, s.schedule.me = some x ∧ x.state = .running := by
  have inside := coherent.inside
  have found : s.findRunnable s.tasks.length s.current = s.lookOrder.find? fun i =>
    s.tasks[i]?.any (·.state = .runnable) :=
    findRunnable_eq s s.tasks.length s.current
  rw [round_eq inside, lookOrder_eq inside, List.filter_append] at round
  rw [lookOrder_eq inside, List.find?_append] at found
  -- Of the others, exactly those that are runnable are ready.
  have others : ∀ i ∈ List.range' (s.current + 1)
    (s.tasks.length - s.current - 1) ++ List.range s.current, i ≠ s.current := by
    intro i member
    rcases List.mem_append.mp member with after | before
    · have bound := List.mem_range'_1.mp after
      omega
    · exact Nat.ne_of_lt (List.mem_range.mp before)
  generalize List.range' (s.current + 1) (s.tasks.length - s.current - 1) ++ List.range s.current = front
    at round found others
  have same : (front.filter fun i => s.tasks[i]?.any Task.ready) = front.filter fun i =>
    s.tasks[i]?.any (·.state = .runnable) := by
    apply List.filter_congr
    intro i member
    cases here : s.tasks[i]? with
    | none => rfl
    | some x =>
      have still : x.state ≠ .running := fun running => others i member (coherent.alone i x here running)
      simp [Task.ready, still]
  rw [same] at round
  rw [← List.head?_filter] at found
  cases first : front.filter fun i => s.tasks[i]?.any (·.state = .runnable) with
  | cons b more =>
    rw [first, List.cons_append, List.cons.injEq] at round
    obtain ⟨rfl, _⟩ := round
    rw [first, List.head?_cons, Option.some_or] at found
    have member : b ∈ front.filter fun i => s.tasks[i]?.any (·.state = .runnable) := by
      rw [first]; exact List.mem_cons_self ..
    obtain ⟨member, runnable⟩ := List.mem_filter.mp member
    obtain ⟨x, here, _⟩ := (Option.any_eq_true ..).mp runnable
    have switched : s.schedule = s.switchTo b := by
      unfold schedule
      rw [if_neg (by omega), found]
      exact if_neg (others b member)
    rw [switched]
    exact ⟨rfl, me_switchTo here⟩
  | nil =>
    -- Nobody but the current task can run.
    rw [first, List.nil_append] at round
    rw [first, List.head?_nil, Option.none_or] at found
    obtain ⟨own, ready⟩ :=
      List.mem_filter.mp (show a ∈ [s.current].filter _ by rw [round]; exact List.mem_cons_self ..)
    cases List.mem_singleton.mp own
    obtain ⟨x, here, able⟩ := (Option.any_eq_true ..).mp ready
    have stays : s.schedule = s.modifyCurrent (·.inState .running) := by
      unfold schedule Scheduler.me
      rw [if_neg (by omega), found]
      cases state : x.state <;> simp [Task.ready, state] at able <;> simp [here, state]
    rw [stays]
    refine ⟨rfl, x.inState .running, ?_, rfl⟩
    simp [Scheduler.me, modifyCurrent, here]

theorem schedule_slots (coherent : Coherent s) : s.schedule.tasks.length = s.tasks.length ∧
    ∀ (i : Nat) (y : Task), s.schedule.tasks[i]? = some y → ∃ x, s.tasks[i]? = some x ∧ y.ready = x.ready ∧
      (y.state = .running → i = s.schedule.current) := by
  have same : s.tasks.length = s.tasks.length ∧ ∀ (i : Nat) (y : Task), s.tasks[i]? = some y →
      ∃ x, s.tasks[i]? = some x ∧ y.ready = x.ready ∧ (y.state = .running → i = s.current) :=
    ⟨rfl, fun i y here => ⟨y, here, rfl, coherent.alone i y here⟩⟩
  have stays : (∀ e, s.me = some e → e.ready = true) →
    (s.modifyCurrent (·.inState .running)).tasks.length = s.tasks.length ∧
      ∀ (i : Nat) (y : Task), (s.modifyCurrent (·.inState .running)).tasks[i]? = some y →
        ∃ x, s.tasks[i]? = some x ∧ y.ready = x.ready ∧ (y.state = .running → i = s.current) := by
    intro able
    refine ⟨by simp [modifyCurrent], ?_⟩
    intro i y here
    by_cases own : s.current = i
    · subst own
      simp only [modifyCurrent, List.getElem?_modify_eq] at here
      obtain ⟨x, there, rfl⟩ := Option.map_eq_some_iff.mp here
      exact ⟨x, there, (able x there).symm, fun _ => rfl⟩
    · simp only [modifyCurrent, List.getElem?_modify_ne _ _ own] at here
      exact ⟨y, here, rfl, coherent.alone i y here⟩
  unfold schedule
  split
  · exact same
  split
  · split
    next able =>
      refine stays fun e me => ?_
      rw [me] at able
      simpa [Task.ready, or_comm] using able
    next => exact same
  next n found =>
    obtain ⟨z, there, runnable⟩ := findRunnable_some found
    split
    next own =>
      subst own
      split
      · refine stays fun e me => ?_
        cases me.symm.trans there
        simp [Task.ready, runnable]
      · exact same
    next other =>
      refine ⟨by simp [switchTo, modifyCurrent], ?_⟩
      intro i y here
      simp only [switchTo, modifyCurrent] at here ⊢
      by_cases own : n = i
      · subst own
        rw [List.getElem?_modify_eq, List.getElem?_modify_ne _ _ (Ne.symm other), there] at here
        cases here
        exact ⟨z, there, by simp [Task.ready, Task.inState, runnable], fun _ => rfl⟩
      · rw [List.getElem?_modify_ne _ _ own] at here
        by_cases before : s.current = i
        · subst before
          rw [List.getElem?_modify_eq] at here
          obtain ⟨x, there, rfl⟩ := Option.map_eq_some_iff.mp here
          refine ⟨x, there, ?_, ?_⟩
          · by_cases running : x.state = .running <;> simp [Task.ready, Task.inState, running]
          · by_cases running : x.state = .running <;> simp [Task.inState, running]
        · rw [List.getElem?_modify_ne _ _ before] at here
          exact ⟨y, here, rfl, fun running => absurd (coherent.alone i y here running).symm before⟩

theorem readySlots_schedule (coherent : Coherent s) : s.schedule.readySlots = s.readySlots := by
  obtain ⟨length, slots⟩ := schedule_slots coherent
  unfold readySlots
  rw [length]
  apply List.filter_congr
  intro i member
  have inside := List.mem_range.mp member
  rw [← length] at inside
  obtain ⟨x, here, ready, _⟩ := slots i _ (List.getElem?_eq_getElem inside)
  rw [List.getElem?_eq_getElem inside, here]
  exact ready

theorem Coherent.schedule (coherent : Coherent s) : Coherent s.schedule where
  inside := by
    rw [(schedule_slots coherent).1]
    by_cases same : s.schedule.current = s.current
    · rw [same]
      exact coherent.inside
    · obtain ⟨x, here, _⟩ := schedule_picks same
      exact (List.getElem?_eq_some_iff.mp here).1
  alone i y here running := by
    obtain ⟨_, _, _, own⟩ := (schedule_slots coherent).2 i y here
    exact own running

theorem coherent_of_run {l : Timeline} (run : Machine.Reaches transition (fun _ _ => True) .booted l) :
    Coherent l.table := by
  have sound := Sound.of_run run
  obtain ⟨e, me, _⟩ := sound.steady.running
  exact ⟨(List.getElem?_eq_some_iff.mp me).1, sound.steady.alone⟩

end Scheduler

/-- The tables before successive calls of `schedule`. In between the same slots stay ready. -/
structure Successive (calls : Nat) (tables : Nat → Scheduler) : Prop where
  coherent : ∀ k, k < calls → (tables k).Coherent
  ready : ∀ k, k < calls → (tables k).readySlots = (tables 0).readySlots
  current : ∀ k, k + 1 < calls → (tables (k + 1)).current = (tables k).schedule.current

theorem Scheduler.Coherent.iterate {s : Scheduler} (coherent : s.Coherent) (k : Nat) :
    (Scheduler.schedule^[k] s).Coherent ∧ (Scheduler.schedule^[k] s).readySlots = s.readySlots := by
  induction k with
  | zero => exact ⟨coherent, rfl⟩
  | succ k ih =>
    rw [Function.iterate_succ_apply']
    exact ⟨ih.1.schedule, (Scheduler.readySlots_schedule ih.1).trans ih.2⟩

theorem Scheduler.Coherent.successive {s : Scheduler} (coherent : s.Coherent) (calls : Nat) :
    Successive calls fun k => Scheduler.schedule^[k] s where
  coherent k _ := (coherent.iterate k).1
  ready k _ := (coherent.iterate k).2
  current k _ := by rw [Function.iterate_succ_apply']

def placeAfter (tables : Nat → Scheduler) : Nat → Nat
  | 0 => (tables 0).current
  | k + 1 => (tables k).schedule.current

theorem Successive.place {calls : Nat} {tables : Nat → Scheduler} (successive : Successive calls tables)
    {k : Nat}
    (inside : k < calls) : (tables k).current = placeAfter tables k := by
  cases k with
  | zero => rfl
  | succ k => exact successive.current k inside

theorem Successive.turn {tables : Nat → Scheduler}
    (successive : Successive (tables 0).readySlots.length tables) {k : Nat}
    (inside : k < (tables 0).readySlots.length) :
    (roundAfter (placeAfter tables k) (tables 0).readySlots).head? = some (placeAfter tables (k + 1)) ∧
      ∃ x, (tables k).schedule.me = some x ∧ x.state = .running := by
  cases round : roundAfter (placeAfter tables k) (tables 0).readySlots with
  | nil =>
    have size := (perm_roundAfter (placeAfter tables k) (tables 0).readySlots).length_eq
    rw [round, List.length_nil] at size
    omega
  | cons a rest =>
    rw [← successive.place inside, ← successive.ready k inside] at round
    obtain ⟨rfl, runs⟩ := Scheduler.schedule_first (successive.coherent k inside) round
    exact ⟨rfl, runs⟩

/-- As many calls of `schedule` as slots are ready run each of them once, in the order of the table after
the current slot. -/
theorem schedule_round_robin {tables : Nat → Scheduler}
    (successive : Successive (tables 0).readySlots.length tables) :
    let runs := (List.range (tables 0).readySlots.length).map fun k => (tables k).schedule.current
    runs = roundAfter (tables 0).current (tables 0).readySlots ∧ runs.Nodup ∧
      (∀ i, i ∈ runs ↔ ∃ t, (tables 0).tasks[i]? = some t ∧ (t.state = .runnable ∨ t.state = .running)) ∧
      ∀ k, k < (tables 0).readySlots.length → ∃ x, (tables k).schedule.me = some x ∧ x.state = .running := by
  intro runs
  have round : runs = roundAfter (tables 0).current (tables 0).readySlots :=
    round_of_steps (Scheduler.readySlots_sorted _) fun k inside => (successive.turn inside).1
  have perm := perm_roundAfter (tables 0).current (tables 0).readySlots
  refine ⟨round, ?_, ?_, fun k inside => (successive.turn inside).2⟩
  · rw [round, perm.nodup_iff]
    exact (Scheduler.readySlots_sorted _).imp Nat.ne_of_lt
  · intro i
    rw [round, perm.mem_iff, Scheduler.mem_readySlots]
    simp [Task.ready]

theorem schedule_round_robin_five :
    let s : Scheduler :=
      { tasks :=
          [{ id := 0, state := .runnable, ring := .kernel, userCr3 := none },
          { id := 1, state := .zombie, ring := .user, userCr3 := some 7 },
            { id := 2, state := .running, ring := .user, userCr3 := some 8 },
            { id := 3, state := .dead, ring := .user, userCr3 := some 9 },
            { id := 4, state := .runnable, ring := .user, userCr3 := some 5 },
            { id := 5, state := .blocked, ring := .kernel, userCr3 := none }]
        current := 2
        nextId := 6
        initTaskId := none
        reaping := .idle }
    ((List.range 3).map fun k => (Scheduler.schedule^[k] s).schedule.current) = [4, 0, 2] := by
  intro s
  have coherent : s.Coherent := by
    refine ⟨by decide, ?_⟩
    intro i t here running
    have only : ∀ i, i < 6 → s.tasks[i]?.any (·.state = .running) = true → i = 2 := by decide
    exact only i (List.getElem?_eq_some_iff.mp here).1 (by simp [here, running])
  have successive : Successive s.readySlots.length fun k => Scheduler.schedule^[k] s := coherent.successive _
  exact (schedule_round_robin successive).1.trans (by decide)

end PickleOS.Tasks
