import PickleOS.Ipc.Steps
import Mathlib.Data.List.Nodup

set_option autoImplicit false

namespace PickleOS.Ipc

open Shared.Machine

inductive Logged (s : State) (a : Action) (s' : State) : Prop
  | same (queue : s'.queue = s.queue) (pushed : s'.pushed = s.pushed) (removed : s'.removed = s.removed)
      (returned : s'.returned = s.returned) (serial : s.serial ≤ s'.serial)
  | push (ep : EndpointId) (x : Stamped) (fresh : x.serial = s.serial)
      (queue : s'.queue = Function.update s.queue ep (s.queue ep ++ [x]))
      (pushed : s'.pushed = Function.update s.pushed ep (s.pushed ep ++ [x])) (removed : s'.removed = s.removed)
      (returned : s'.returned = s.returned) (serial : s'.serial = s.serial + 1)
  | pop (t : TaskId) (ep : EndpointId) (x : Stamped) (rest : List Stamped) (front : s.queue ep = x :: rest)
      (queue : s'.queue = Function.update s.queue ep rest) (pushed : s'.pushed = s.pushed)
      (removed : s'.removed = Function.update s.removed ep (s.removed ep ++ [(t, x)]))
      (returned : s'.returned = Function.update s.returned ep (s.returned ep ++ [(t, x)]) ∨
        a = .advance t ∧ s.pc t = .receiveRegister ep ∧ s'.returned = s.returned)
          (serial : s'.serial = s.serial)

theorem State.queue_register (s : State) (t : TaskId) (ep : EndpointId) :
    (s.register t ep).queue = s.queue := by
  unfold State.register
  cases present : s.endpoints ep with
  | none => rfl
  | some endpoint =>
    rw [State.queue_setEndpoint]
    simp [← State.queue_some present]

theorem State.register_history (s : State) (t : TaskId) (ep : EndpointId) :
    (s.register t ep).pushed = s.pushed ∧ (s.register t ep).removed = s.removed ∧
      (s.register t ep).returned = s.returned ∧ (s.register t ep).serial = s.serial := by
  unfold State.register
  cases s.endpoints ep <;> exact ⟨rfl, rfl, rfl, rfl⟩

theorem State.queue_pushed (s : State) {ep : EndpointId} {endpoint : Endpoint} (x : Stamped)
    (present : s.endpoints ep = some endpoint) :
    (s.setEndpoint ep { queue := endpoint.queue ++ [x], waiters := endpoint.waiters.tail }).queue =
      Function.update s.queue ep (s.queue ep ++ [x]) := by
  rw [State.queue_setEndpoint, State.queue_some present]

theorem logged_send (s : State) (a : Action) (t : TaskId) (ep : EndpointId) (message : Message) :
    Logged s a (s.send t ep message) := by
  cases present : s.endpoints ep with
  | none =>
    simp only [State.send, s.push_none _ present]
    exact .same rfl rfl rfl rfl (by simp)
  | some endpoint =>
    simp only [State.send, s.push_some _ present]
    cases endpoint.waiters.head? <;>
      exact .push ep (s.stamp t message) rfl (s.queue_pushed _ present) rfl rfl rfl rfl

theorem logged_call (s : State) (a : Action) (t : TaskId) (ep : EndpointId) (message : Message) :
    Logged s a (s.call t ep message) := by
  cases present : s.endpoints ep with
  | none =>
    simp only [State.call, (s.setSlot t none).push_none _ present]
    exact .same rfl rfl rfl rfl (by simp [State.goto, State.setSlot])
  | some endpoint =>
    simp only [State.call, (s.setSlot t none).push_some _ present]
    cases endpoint.waiters.head? <;>
      exact .push ep (s.stamp t message) rfl ((s.setSlot t none).queue_pushed _ present) rfl rfl rfl rfl

/-- Endpoint ids are handed out in order. -/
def State.Numbered (s : State) : Prop := ∀ ep, s.nextEp ≤ ep → s.endpoints ep = none

theorem logged_create (s : State) (a : Action) (numbered : s.Numbered) :
    Logged s a { s.setEndpoint s.nextEp {} with nextEp := s.nextEp + 1 } := by
  have queue : s.queue s.nextEp = [] := by simp [State.queue, numbered s.nextEp (Nat.le_refl _)]
  have same : (s.setEndpoint s.nextEp {}).queue = s.queue := by
    rw [State.queue_setEndpoint]
    simp [← queue]
  exact .same same rfl rfl rfl (Nat.le_refl _)

theorem logged_advance {s s' : State} {t : TaskId} (moved : Advanced s t s') : Logged s (.advance t) s' := by
  cases moved with
  | received here present filled =>
    exact .pop t _ _ _ ((State.queue_some present).trans filled) (s.queue_setEndpoint _ _)
      rfl rfl (Or.inl rfl) rfl
  | parked here present filled =>
    exact .pop t _ _ _ ((State.queue_some present).trans filled) (s.queue_setEndpoint _ _) rfl rfl
      (Or.inr ⟨rfl, here, rfl⟩) rfl
  | @registered ep here empty =>
    obtain ⟨pushed, removed, returned, serial⟩ := s.register_history t ep
    exact .same (s.queue_register t ep) pushed removed returned (Nat.le_of_eq serial.symm)
  | _ => exact .same rfl rfl rfl rfl (Nat.le_refl _)

theorem logged_step {s s' : State} {a : Action} (numbered : s.Numbered) (taken : step s a = some s') :
    Logged s a s' := by
  cases stepped taken with
  | create free => exact logged_create s _ numbered
  | send free => exact logged_send s _ _ _ _
  | call free => exact logged_call s _ _ _ _
  | advance ready moved => exact logged_advance moved
  | _ => exact .same rfl rfl rfl rfl (Nat.le_refl _)

def Closed (s s' : State) : Prop := s'.nextEp = s.nextEp ∧ ∀ ep, s.endpoints ep = none → s'.endpoints ep = none

theorem Closed.of_endpoints {s s' : State} (next : s'.nextEp = s.nextEp) (same : s'.endpoints = s.endpoints) :
    Closed s s' := ⟨next, fun ep absent => by rw [same, absent]⟩

theorem Closed.of_update {s s' : State} {ep : EndpointId} {endpoint endpoint' : Endpoint}
    (present : s.endpoints ep = some endpoint) (next : s'.nextEp = s.nextEp)
    (endpoints : s'.endpoints = Function.update s.endpoints ep (some endpoint')) : Closed s s' := by
  refine ⟨next, fun ep' absent => ?_⟩
  have other : ep' ≠ ep := fun same => by rw [same, present] at absent; simp at absent
  simp [endpoints, other, absent]

theorem closed_send (s : State) (t : TaskId) (ep : EndpointId) (message : Message) :
    Closed s (s.send t ep message) := by
  cases present : s.endpoints ep with
  | none =>
    simp only [State.send, s.push_none _ present]
    exact .of_endpoints rfl rfl
  | some endpoint =>
    simp only [State.send, s.push_some _ present]
    cases endpoint.waiters.head? <;> exact .of_update present rfl rfl

theorem closed_call (s : State) (t : TaskId) (ep : EndpointId) (message : Message) :
    Closed s (s.call t ep message) := by
  cases present : s.endpoints ep with
  | none =>
    simp only [State.call, (s.setSlot t none).push_none _ present]
    exact .of_endpoints rfl rfl
  | some endpoint =>
    simp only [State.call, (s.setSlot t none).push_some _ present]
    cases endpoint.waiters.head? <;> exact .of_update present rfl rfl

theorem closed_advance {s s' : State} {t : TaskId} (moved : Advanced s t s') : Closed s s' := by
  cases moved with
  | received here present filled => exact .of_update present rfl rfl
  | parked here present filled => exact .of_update present rfl rfl
  | @registered ep here empty =>
    cases present : s.endpoints ep with
    | none =>
      simp only [State.register, present]
      exact .of_endpoints rfl rfl
    | some endpoint =>
      simp only [State.register, present]
      exact .of_update present rfl rfl
  | _ => exact .of_endpoints rfl rfl

theorem numbered_step {s s' : State} {a : Action} (numbered : s.Numbered) (taken : step s a = some s') :
    s'.Numbered := by
  have closed (quiet : Closed s s') : s'.Numbered := by
    intro ep high
    rw [quiet.1] at high
    exact quiet.2 ep (numbered ep high)
  cases stepped taken with
  | create free =>
    intro ep high
    have above : s.nextEp + 1 ≤ ep := high
    have other : ep ≠ s.nextEp := Nat.ne_of_gt above
    simp only [State.setEndpoint, Function.update_of_ne other]
    exact numbered ep (Nat.le_of_succ_le above)
  | send free => exact closed (closed_send s _ _ _)
  | call free => exact closed (closed_call s _ _ _)
  | advance ready moved => exact closed (closed_advance moved)
  | _ => exact closed (.of_endpoints rfl rfl)

/-- Every message has its place in the history, under its own serial number. -/
structure Recorded (s : State) : Prop where
  numbered : s.Numbered
  history : ∀ ep, s.pushed ep = (s.removed ep).map Prod.snd ++ s.queue ep
  early : ∀ ep x, x ∈ s.pushed ep → x.serial < s.serial
  distinct : ∀ ep, ((s.pushed ep).map Stamped.serial).Nodup

theorem recorded_initial : Recorded .initial where
  numbered _ _ := rfl
  history _ := rfl
  early _ _ member := absurd member (List.not_mem_nil)
  distinct _ := List.nodup_nil

theorem recorded_step {s s' : State} {a : Action} (recorded : Recorded s) (taken : step s a = some s') :
    Recorded s' := by
  have numbered := numbered_step recorded.numbered taken
  cases logged_step recorded.numbered taken with
  | same queue pushed removed returned serial =>
    refine ⟨numbered, fun ep => ?_, fun ep x member => ?_, fun ep => ?_⟩
    · rw [pushed, removed, queue, recorded.history]
    · rw [pushed] at member
      exact Nat.lt_of_lt_of_le (recorded.early ep x member) serial
    · rw [pushed]
      exact recorded.distinct ep
  | push ep x fresh queue pushed removed returned serial =>
    refine ⟨numbered, fun ep' => ?_, fun ep' y member => ?_, fun ep' => ?_⟩
    all_goals by_cases same : ep' = ep
    · subst same
      simp [pushed, removed, queue, recorded.history ep']
    · simp [pushed, removed, queue, same, recorded.history ep']
    · subst same
      simp only [pushed, Function.update_self, List.mem_append, List.mem_singleton] at member
      cases member with
      | inl before => have := recorded.early ep' y before; omega
      | inr last => rw [last]; omega
    · simp only [pushed, Function.update_of_ne same] at member
      have := recorded.early ep' y member
      omega
    · subst same
      simp only [pushed, Function.update_self, List.map_append, List.map_cons, List.map_nil]
      apply List.Nodup.append (recorded.distinct ep') (List.nodup_singleton _)
      intro n old new
      obtain ⟨y, member, rfl⟩ := List.mem_map.mp old
      have before := recorded.early ep' y member
      simp only [List.mem_singleton] at new
      omega
    · simp only [pushed, Function.update_of_ne same]
      exact recorded.distinct ep'
  | pop t ep x rest front queue pushed removed returned serial =>
    refine ⟨numbered, fun ep' => ?_, fun ep' y member => ?_, fun ep' => ?_⟩
    · by_cases same : ep' = ep
      · subst same
        simp [pushed, removed, queue, recorded.history ep', front]
      · simp [pushed, removed, queue, same, recorded.history ep']
    · rw [pushed] at member
      rw [serial]
      exact recorded.early ep' y member
    · rw [pushed]
      exact recorded.distinct ep'

/-- The task is between the re-check of `receive`, which took this message, and its return. -/
def State.Carries (s : State) (t : TaskId) (ep : EndpointId) (x : Stamped) : Prop :=
  s.pc t = .receiveBlock ep ∧ s.replies t = some (some (.parked x))

/-- On an endpoint, no message is returned twice, messages are returned in the order they were pushed,
and a message that left the queue is returned by the `receive` that removed it or still with it. -/
structure Delivered (s : State) (ep : EndpointId) : Prop where
  once : ((s.returned ep).map fun entry => entry.2.serial).Nodup
  ordered : ((s.returned ep).map Prod.snd).Sublist (s.pushed ep)
  kept : ∀ t x, (t, x) ∈ s.removed ep → (t, x) ∈ s.returned ep ∨ s.Carries t ep x

/-- No message has arrived when a `receive` that found the queue empty looks at it again. -/
def FindsNothing (s : State) : Action → Prop
  | .advance t =>
    match s.pc t with
    | .receiveRegister ep => s.queue ep = []
    | _ => True
  | _ => True

instance (s : State) (a : Action) : Decidable (FindsNothing s a) := by
  unfold FindsNothing
  split
  · split <;> infer_instance
  · infer_instance

/-- As long as no `receive` takes a message at its second look, every endpoint is a reliable queue. -/
theorem delivered_unless_parked {s : State} (run : Reaches step FindsNothing .initial s) (ep : EndpointId) :
    Delivered s ep := by
  have both : Recorded s ∧ s.returned = s.removed := by
    apply run.invariant
    · exact ⟨recorded_initial, rfl⟩
    · intro s a s' before fine taken
      refine ⟨recorded_step before.1 taken, ?_⟩
      cases logged_step before.1.numbered taken with
      | same queue pushed removed returned serial => rw [returned, removed, before.2]
      | push ep x fresh queue pushed removed returned serial => rw [returned, removed, before.2]
      | pop t ep x rest front queue pushed removed returned serial =>
        cases returned with
        | inl returned => rw [returned, removed, before.2]
        | inr parked =>
          obtain ⟨rfl, here, _⟩ := parked
          simp only [FindsNothing, here] at fine
          simp [fine] at front
  obtain ⟨recorded, same⟩ := both
  have history := recorded.history ep
  refine ⟨?_, ?_, ?_⟩
  · have distinct := recorded.distinct ep
    rw [history, List.map_append, List.map_map] at distinct
    rw [same]
    exact distinct.of_append_left
  · rw [same, history]
    exact List.sublist_append_left _ _
  · intro t x member
    rw [same]
    exact Or.inl member

/-- A message that a receiver finds at its second look, between its test of the queue and its sleep. -/
def parkedSchedule : List Action :=
  [.create 0, .receive 1 1, .advance 1, .send 2 1 (.new 7), .advance 1, .advance 1]

def sleepingSchedule : List Action :=
  [.create 0, .receive 1 1, .advance 1, .advance 1, .advance 1, .send 2 1 (.new 7), .advance 2, .advance 1]

theorem delivered_unless_parked_sleeping :
    ∃ s, s.returned 1 = [(1, ⟨0, { Message.new 7 with sender := 2 }⟩)] ∧ Delivered s 1 := by
  have played : (replay step FindsNothing .initial sleepingSchedule).isSome := by decide
  refine ⟨_, ?_, delivered_unless_parked (.of_replay (fun _ _ fine => fine)
    .start (Option.some_get played).symm) 1⟩
  rfl

theorem receive_loses_message : ¬∀ s, Reachable s → ∀ ep, Delivered s ep := by
  intro delivered
  have played : (run step .initial parkedSchedule).isSome := by decide
  have kept := (delivered _ (.of_run .start (Option.some_get played).symm) 1).kept
    1 ⟨0, { Message.new 7 with sender := 2 }⟩
  have removed : ((run step .initial parkedSchedule).get played).removed
    1 = [(1, ⟨0, { Message.new 7 with sender := 2 }⟩)] := rfl
  have returned : ((run step .initial parkedSchedule).get played).returned 1 = [] := rfl
  have again : ((run step .initial parkedSchedule).get played).pc 1 = .receivePop 1 := rfl
  rw [removed, returned] at kept
  cases kept (List.mem_singleton_self _) with
  | inl back => simp at back
  | inr carried => simp [State.Carries, again] at carried

end PickleOS.Ipc
