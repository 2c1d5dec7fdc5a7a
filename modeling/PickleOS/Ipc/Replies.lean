import PickleOS.Ipc.Delivery

set_option autoImplicit false

namespace PickleOS.Ipc

open Shared.Machine

def Pc.request : Pc → Option Request
  | .callWake request _ => some request
  | .callDeadline request => some request
  | .callPoll request _ => some request
  | .callTimeout request _ => some request
  | .callExpire request => some request
  | .callBlock request _ => some request
  | _ => none

@[simp] theorem State.goto_pc (s : State) (t u : TaskId) (pc : Pc) :
    (s.goto t pc).pc u = if u = t then pc else s.pc u := by
  simp [State.goto, Function.update_apply]

/-- No message, reply or request appears, except that a queued message may get into a task's hands. -/
structure Quiet (s s' : State) : Prop where
  requests : ∀ t r, (s'.pc t).request = some r → (s.pc t).request = some r
  queue : ∀ ep x, x ∈ s'.queue ep → x ∈ s.queue ep
  held : ∀ u x, s'.status u ≠ .dead → x ∈ s'.held u → (s.status u ≠ .dead ∧ x ∈ s.held u) ∨ ∃ ep,
    x ∈ s.queue ep
  slots : ∀ t r, (s'.pc t).request = some r → s'.replies t = s.replies t

theorem Quiet.of_same {s s' : State} {t : TaskId} (queue : s'.queue = s.queue) (held : s'.held = s.held)
    (status : ∀ u, s.status u = .dead → s'.status u = .dead) (others : ∀ u, u ≠ t → s'.pc u = s.pc u)
    (here : ∀ r, (s'.pc t).request = some r → (s.pc t).request = some r ∧ s'.replies t = s.replies t)
    (slots : ∀ u, u ≠ t → s'.replies u = s.replies u) : Quiet s s' where
  -- Frame: the parts of the state that a call depends on are the same, up to the acting task's position.
  requests u r inCall := by
    by_cases same : u = t
    · subst same
      exact (here r inCall).1
    · rwa [others u same] at inCall
  queue ep x member := by rwa [queue] at member
  held u x alive member := by
    rw [held] at member
    exact Or.inl ⟨fun dead => alive (status u dead), member⟩
  slots u r inCall := by
    by_cases same : u = t
    · subst same
      exact (here r inCall).2
    · exact slots u same

theorem unblock_dead (s : State) (t u : TaskId) (dead : s.status u = .dead) :
    (s.unblock t).status u = .dead := by
  simp only [State.unblock]
  split
  · rename_i blocked
    have other : u ≠ t := fun same => by rw [same, blocked] at dead; simp at dead
    simp [other, dead]
  · exact dead

theorem mem_popped {s : State} {ep ep' : EndpointId} {endpoint : Endpoint} {x y : Stamped} {rest : List Stamped}
    (front : s.queue ep = x :: rest) (member :
      y ∈ (s.setEndpoint ep { endpoint with queue := rest }).queue ep') :
    y ∈ s.queue ep' := by
  rw [State.queue_setEndpoint] at member
  by_cases same : ep' = ep
  · subst same
    rw [Function.update_self] at member
    rw [front]
    exact List.mem_cons_of_mem _ member
  · rw [Function.update_of_ne same] at member
    exact member

theorem quiet_advance {s s' : State} {t : TaskId} (ready : s.status t = .ready) (moved : Advanced s t s') :
    Quiet s s' := by
  have block_dead (s : State) (ready : s.status t = .ready) (u : TaskId) (dead : s.status u = .dead) :
      (s.block t).status u = .dead := by
    have other : u ≠ t := fun same => by rw [same, ready] at dead; simp at dead
    simp [State.block, other, dead]
  cases moved with
  | @received ep endpoint x rest here present filled =>
    have front : s.queue ep = x :: rest := (State.queue_some present).trans filled
    refine ⟨fun u r inCall => ?_, fun ep' y member => ?_, fun u y alive member => ?_, fun u r inCall => rfl⟩
    · simp only [State.receiveReturn, State.goto_pc] at inCall
      split at inCall
      · simp [Pc.request] at inCall
      · exact inCall
    · exact mem_popped front member
    · by_cases same : u = t
      · subst same
        simp only [State.receiveReturn, State.popped, State.goto, State.setEndpoint, Function.update_self,
          List.mem_cons] at member
        cases member with
        | inl new => exact Or.inr ⟨ep, by rw [front, new]; exact List.mem_cons_self⟩
        | inr old => exact Or.inl ⟨alive, old⟩
      · simp only [State.receiveReturn, State.popped, State.goto, State.setEndpoint,
          Function.update_of_ne same] at member
        exact Or.inl ⟨alive, member⟩
  | @parked ep endpoint x rest here present filled =>
    have front : s.queue ep = x :: rest := (State.queue_some present).trans filled
    refine ⟨fun u r inCall => ?_, fun ep' y member => ?_, fun u y alive member => Or.inl ⟨alive, member⟩,
      fun u r inCall => ?_⟩
    · simp only [State.goto_pc] at inCall
      split at inCall
      · simp [Pc.request] at inCall
      · exact inCall
    · exact mem_popped front member
    · have other : u ≠ t := fun same => by simp [State.goto_pc, same, Pc.request] at inCall
      simp [State.goto, State.setSlot, State.popped, State.setEndpoint, other]
  | @registered ep here empty =>
    have rest : (s.register t ep).held = s.held ∧ (s.register t ep).status = s.status ∧
        (s.register t ep).pc = s.pc ∧ (s.register t ep).replies = s.replies := by
      unfold State.register
      cases s.endpoints ep <;> exact ⟨rfl, rfl, rfl, rfl⟩
    exact .of_same (t := t) (s.queue_register t ep)
      rest.1 (fun u dead => by simpa [State.goto, rest.2.1] using dead)
      (fun u other => by simp [State.goto_pc, other, rest.2.2.1])
      (fun r inCall => by simp [Pc.request] at inCall)
      (fun u other => by simp [State.goto, rest.2.2.2])
  | slept here empty =>
    exact .of_same (t := t) rfl rfl (block_dead (s.removeSlot t) ready)
      (fun u other => by simp [State.goto_pc, other, State.block, State.removeSlot])
      (fun r inCall => by simp [Pc.request] at inCall)
      (fun u other => by simp [State.goto, State.block, State.removeSlot, other])
  | @waited request deadline here =>
    exact .of_same (t := t) rfl rfl (block_dead s ready)
      (fun u other => by simp [State.goto_pc, other, State.block])
      (fun r inCall => by simpa [State.goto_pc, Pc.request, here, State.goto, State.block] using inCall)
      (fun u other => rfl)
  | @sendWoke waiter here =>
    exact .of_same (t := t) rfl rfl (unblock_dead s waiter)
      (fun u other => by simp [State.goto_pc, other, State.unblock])
      (fun r inCall => by simp [Pc.request] at inCall) (fun u other => rfl)
  | @replyWoke caller here =>
    exact .of_same (t := t) rfl rfl (unblock_dead s caller)
      (fun u other => by simp [State.goto_pc, other, State.unblock])
      (fun r inCall => by simp [Pc.request] at inCall) (fun u other => rfl)
  | @callWoke request waiter here =>
    exact .of_same (t := t) rfl rfl (unblock_dead s waiter)
      (fun u other => by simp [State.goto_pc, other, State.unblock])
      (fun r inCall => by simpa [State.goto_pc, Pc.request, here, State.goto, State.unblock] using inCall)
      (fun u other => rfl)
  | dropped here _ | answered here _ | expired here =>
    exact .of_same (t := t) rfl rfl (fun u dead => dead)
      (fun u other => by simp [State.callReturn, State.goto_pc, other, State.removeSlot])
      (fun r inCall => by simp [State.callReturn, Pc.request] at inCall)
      (fun u other => by simp [State.callReturn, State.goto, State.removeSlot, other])
  | foundEmpty here _ | started here | unanswered here _ | late here | early here =>
    exact .of_same (t := t) rfl rfl (fun u dead => dead) (fun u other => by simp [State.goto_pc, other])
      (fun r inCall => by simp [Pc.request, here] at inCall ⊢; try exact ⟨inCall, rfl⟩) (fun u other => rfl)

theorem quiet_step {s s' : State} {a : Action} (numbered : s.Numbered) (taken : step s a = some s')
    (send : ∀ t ep message, a ≠ .send t ep message) (call : ∀ t ep message, a ≠ .call t ep message)
    (reply : ∀ t position message, a = .reply t position message → s' = s) : Quiet s s' := by
  cases stepped taken with
  | send => exact absurd rfl (send _ _ _)
  | call => exact absurd rfl (call _ _ _)
  | reply free found waiting =>
    rw [reply _ _ _ rfl]
    exact ⟨fun _ _ inCall => inCall, fun _ _ member => member, fun _ _ alive member => Or.inl ⟨alive, member⟩,
      fun _ _ _ => rfl⟩
  | tick | unheard =>
    exact ⟨fun _ _ inCall => inCall, fun _ _ member => member, fun _ _ alive member => Or.inl ⟨alive, member⟩,
      fun _ _ _ => rfl⟩
  | create free =>
    have empty : s.queue s.nextEp = [] := by simp [State.queue, numbered s.nextEp (Nat.le_refl _)]
    have queue : (s.setEndpoint s.nextEp {}).queue = s.queue := by
      rw [State.queue_setEndpoint]
      simp [← empty]
    exact .of_same (t := 0) queue rfl (fun _ dead => dead) (fun _ _ => rfl) (fun _ inCall => ⟨inCall, rfl⟩)
      (fun _ _ => rfl)
  | @receive t ep free =>
    exact .of_same (t := t) rfl rfl (fun _ dead => dead) (fun u other => by simp [State.goto_pc, other])
      (fun r inCall => by simp [Pc.request] at inCall) (fun _ _ => rfl)
  | @discard t position free =>
    refine ⟨fun _ _ inCall => inCall, fun _ _ member => member, fun u x alive member => Or.inl ⟨alive, ?_⟩,
      fun _ _ _ => rfl⟩
    by_cases same : u = t
    · subst same
      simp only [Function.update_self] at member
      exact List.mem_of_mem_eraseIdx member
    · simpa [same] using member
  | @exit t free =>
    refine .of_same (t := t) rfl rfl (fun u dead => ?_) (fun _ _ => rfl) (fun r inCall => ?_)
      (fun u other => ?_)
    · by_cases same : u = t <;> simp [same, dead]
    · have idle : (s.pc t).request = some r := inCall
      simp [free.2, Pc.request] at idle
    · simp [State.removeSlot, other]
  | @kill t victim free other =>
    refine .of_same (t := t) rfl rfl (fun u dead => ?_) (fun _ _ => rfl) (fun r inCall => ⟨inCall, rfl⟩)
      (fun _ _ => rfl)
    by_cases same : u = victim <;> simp [same, dead]
  | advance ready moved => exact quiet_advance ready moved

/-- A message put on an endpoint by a task that was in its own code. -/
structure Placed (s s' : State) (t : TaskId) (ep : EndpointId) (x : Stamped) : Prop where
  held : s'.held = s.held
  status : s'.status = s.status
  returned : s'.returned = s.returned
  results : s'.results = s.results
  others : ∀ u, u ≠ t → s'.pc u = s.pc u ∧ s'.replies u = s.replies u
  queue : s'.queue = if (s.endpoints ep).isSome then Function.update s.queue ep (s.queue ep ++ [x]) else s.queue
  pushed : ∀ ep' y, y ∈ s'.pushed ep' → y ∈ s.pushed ep' ∨ ep' = ep ∧ y = x
  serial : s'.serial = s.serial + 1

theorem Placed.mem_queue {s s' : State} {t : TaskId} {ep : EndpointId}
    {x : Stamped} (placed : Placed s s' t ep x)
    {ep' : EndpointId} {y : Stamped} (member : y ∈ s'.queue ep') : y ∈ s.queue ep' ∨ y = x := by
  rw [placed.queue] at member
  split at member
  · by_cases same : ep' = ep
    · subst same
      simpa using member
    · simp only [Function.update_of_ne same] at member
      exact Or.inl member
  · exact Or.inl member

theorem Placed.keeps_queue {s s' : State} {t : TaskId} {ep : EndpointId}
    {x : Stamped} (placed : Placed s s' t ep x)
    {ep' : EndpointId} {y : Stamped} (member : y ∈ s.queue ep') : y ∈ s'.queue ep' := by
  rw [placed.queue]
  split
  · by_cases same : ep' = ep
    · subst same
      simp [member]
    · simp [same, member]
  · exact member

theorem placed_push {s s' : State} {t : TaskId} {ep : EndpointId} {x : Stamped} {endpoint : Endpoint}
    (present : s.endpoints ep = some endpoint)
    (endpoints : s'.endpoints = (s.setEndpoint ep
      { queue := endpoint.queue ++ [x], waiters := endpoint.waiters.tail }).endpoints)
    (pushed : s'.pushed = Function.update s.pushed ep (s.pushed ep ++ [x])) (held : s'.held = s.held)
    (status : s'.status = s.status) (returned : s'.returned = s.returned) (results : s'.results = s.results)
    (serial : s'.serial = s.serial + 1) (others : ∀ u, u ≠ t → s'.pc u = s.pc u ∧ s'.replies u = s.replies u) :
    Placed s s' t ep x where
  serial := serial
  held := held
  status := status
  returned := returned
  results := results
  others := others
  queue := by
    simp only [present, Option.isSome_some, if_true, ← s.queue_pushed x present]
    unfold State.queue
    rw [endpoints]
  pushed ep' y member := by
    rw [pushed] at member
    by_cases same : ep' = ep
    · subst same
      simpa using member
    · simp only [Function.update_of_ne same] at member
      exact Or.inl member

theorem placed_send (s : State) (t : TaskId) (ep : EndpointId) (message : Message) :
    Placed s (s.send t ep message) t ep (s.stamp t message) := by
  cases present : s.endpoints ep with
  | none =>
    simp only [State.send, s.push_none _ present]
    exact ⟨rfl, rfl, rfl, rfl, fun _ _ => ⟨rfl, rfl⟩, by simp only [present]; rfl,
      fun _ _ member => Or.inl member,
      rfl⟩
  | some endpoint =>
    simp only [State.send, s.push_some _ present]
    cases endpoint.waiters.head? with
    | none => exact placed_push present rfl rfl rfl rfl rfl rfl rfl (fun u other => ⟨rfl, rfl⟩)
    | some waiter =>
      exact placed_push present rfl rfl rfl rfl rfl rfl rfl
        (fun u other => ⟨by simp [State.goto_pc, other, State.setEndpoint], rfl⟩)

theorem placed_call (s : State) (t : TaskId) (ep : EndpointId) (message : Message) :
    Placed s (s.call t ep message) t ep (s.stamp t message) := by
  have slots (u : TaskId) (other : u ≠ t) : (s.setSlot t none).replies u = s.replies u := by
    simp [State.setSlot, other]
  cases present : s.endpoints ep with
  | none =>
    simp only [State.call, (s.setSlot t none).push_none _ present]
    exact ⟨rfl, rfl, rfl, rfl, fun u other => ⟨by simp [State.goto_pc, other, State.setSlot], slots u other⟩,
      by simp only [present]; rfl, fun _ _ member => Or.inl member,
      rfl⟩
  | some endpoint =>
    simp only [State.call, (s.setSlot t none).push_some _ present]
    cases endpoint.waiters.head? <;>
      exact placed_push present rfl rfl rfl rfl rfl rfl rfl
        (fun u other => ⟨by simp [State.goto_pc, other, State.setEndpoint, State.setSlot], slots u other⟩)

theorem send_pc (s : State) (t : TaskId) (ep : EndpointId) (message : Message) (idle : s.pc t = .idle) :
    (s.send t ep message).pc t = .idle ∨ ∃ waiter, (s.send t ep message).pc t = .sendWake waiter := by
  cases present : s.endpoints ep with
  | none => simp [State.send, s.push_none _ present, idle]
  | some endpoint =>
    simp only [State.send, s.push_some _ present]
    cases endpoint.waiters.head? <;> simp [State.setEndpoint, idle]

theorem send_request (s : State) (t : TaskId) (ep : EndpointId) (message : Message) (idle : s.pc t = .idle) :
    ((s.send t ep message).pc t).request = none := by
  cases send_pc s t ep message idle with
  | inl idle => simp [idle, Pc.request]
  | inr wake =>
    obtain ⟨waiter, wake⟩ := wake
    simp [wake, Pc.request]

theorem call_request (s : State) (t : TaskId) (ep : EndpointId) (message : Message) :
    ((s.call t ep message).pc t).request = some ⟨ep, s.serial⟩ ∧
      (s.call t ep message).replies t = some none := by
  cases present : s.endpoints ep with
  | none =>
    simp only [State.call, (s.setSlot t none).push_none _ present]
    simp [Pc.request, State.goto, State.setSlot]
  | some endpoint =>
    simp only [State.call, (s.setSlot t none).push_some _ present]
    cases endpoint.waiters.head? <;> simp [State.setEndpoint, State.goto, State.setSlot, Pc.request]

/-- What tasks hold and return is traced back to an endpoint, and what is pushed to a call, if it is
one. -/
structure Traced (s : State) : Prop where
  held : ∀ u x, x ∈ s.held u → ∃ ep, (u, x) ∈ s.returned ep
  returned : ∀ ep u x, (u, x) ∈ s.returned ep → x ∈ s.pushed ep
  requests : ∀ t r, (s.pc t).request = some r →
    r.serial < s.serial ∧ ∀ ep x, x ∈ s.pushed ep → x.serial = r.serial → ep = r.ep

/-- What is still under way for a task that is in a call belongs to that call. -/
structure Matched (s : State) : Prop where
  queued : ∀ t r ep x, (s.pc t).request = some r → x ∈ s.queue ep → x.message.sender = t → x.serial = r.serial
  held : ∀ t r u x, (s.pc t).request = some r → s.status u ≠ .dead → x ∈ s.held u → x.message.sender = t →
    x.serial = r.serial
  slots : ∀ t r slot, (s.pc t).request = some r → s.replies t = some (some slot) →
    ∃ m x, slot = .reply r.serial m ∧ x.serial = r.serial ∧ x.message.sender = t ∧
    (m.sender, x) ∈ s.returned r.ep

/-- The replies that calls have returned Ok with were passed to `reply` for the very request of the
call, by a task that had received it. -/
def Answered (s : State) : Prop :=
  ∀ result, result ∈ s.results → ∀ slot, result.value = some slot →
    ∃ m x, slot = .reply result.request.serial m ∧ x.serial = result.request.serial ∧
      x.message.sender = result.caller ∧ (m.sender, x) ∈ s.returned result.request.ep

/-- When a task calls, no earlier message of it is still waiting to be received or to be replied to. -/
def Settled (s : State) : Action → Prop
  | .call t _ _ => (∀ ep x, x ∈ s.queue ep → x.message.sender ≠ t) ∧
      ∀ u x, s.status u ≠ .dead → x ∈ s.held u → x.message.sender ≠ t
  | _ => True

theorem returned_grows {s s' : State} {a : Action} (logged : Logged s a s') (ep : EndpointId) (u : TaskId)
    (x : Stamped)
    (member : (u, x) ∈ s.returned ep) : (u, x) ∈ s'.returned ep := by
  cases logged with
  | same queue pushed removed returned serial => rwa [returned]
  | push ep' y fresh queue pushed removed returned serial => rwa [returned]
  | pop t ep' y rest front queue pushed removed returned serial =>
    cases returned with
    | inl returned =>
      rw [returned]
      by_cases same : ep = ep'
      · subst same
        simp [member]
      · simpa [same] using member
    | inr parked => rwa [parked.2.2]

theorem request_step {s s' : State} {a : Action} (numbered : s.Numbered) (taken : step s a = some s')
    {t : TaskId}
    {r : Request} (inCall : (s'.pc t).request = some r) :
    (s.pc t).request = some r ∨ ∃ ep message, a = .call t ep message ∧ r = ⟨ep, s.serial⟩ := by
  have other := quiet_step numbered taken
  cases stepped taken with
  | @send u ep message free =>
    by_cases same : t = u
    · subst same
      simp [send_request s t ep message free.2] at inCall
    · rw [((placed_send s u ep message).others t same).1] at inCall
      exact Or.inl inCall
  | @call u ep message free =>
    by_cases same : t = u
    · subst same
      simp only [(call_request s t ep message).1, Option.some.injEq] at inCall
      exact Or.inr ⟨ep, message, rfl, inCall.symm⟩
    · rw [((placed_call s u ep message).others t same).1] at inCall
      exact Or.inl inCall
  | @reply u position message original free found waiting =>
    by_cases same : t = u
    · simp [same, Pc.request] at inCall
    · simp only [State.goto_pc, same, if_false] at inCall
      exact Or.inl inCall
  | unheard => exact Or.inl inCall
  | _ =>
    have quiet := other (by simp) (by simp) (by simp)
    exact Or.inl (quiet.requests t r inCall)

theorem held_step {s s' : State} {a : Action} (taken : step s a = some s') {u : TaskId}
    {x : Stamped} (member : x ∈ s'.held u) : x ∈ s.held u ∨ ∃ ep, (u, x) ∈ s'.returned ep := by
  cases stepped taken with
  | @send t ep message free =>
    rw [(placed_send s t ep message).held] at member
    exact Or.inl member
  | @call t ep message free =>
    rw [(placed_call s t ep message).held] at member
    exact Or.inl member
  | @discard t position free =>
    by_cases same : u = t
    · subst same
      simp only [Function.update_self] at member
      exact Or.inl (List.mem_of_mem_eraseIdx member)
    · simp only [Function.update_of_ne same] at member
      exact Or.inl member
  | @advance t s' ready moved =>
    cases moved with
    | @received ep endpoint y rest here present filled =>
      by_cases same : u = t
      · subst same
        simp only [State.receiveReturn, State.popped, State.goto, State.setEndpoint, Function.update_self,
          List.mem_cons] at member
        cases member with
        | inl new =>
          refine Or.inr ⟨ep, ?_⟩
          simp [State.receiveReturn, new]
        | inr old => exact Or.inl old
      · simp only [State.receiveReturn, Function.update_of_ne same] at member
        exact Or.inl member
    | @registered ep here empty =>
      have same : (s.register t ep).held = s.held := by
        unfold State.register
        cases s.endpoints ep <;> rfl
      simp only [State.goto, same] at member
      exact Or.inl member
    | _ => exact Or.inl member
  | _ => exact Or.inl member

theorem traced_step {s s' : State} {a : Action} (recorded : Recorded s) (traced : Traced s)
    (taken : step s a = some s') : Traced s' := by
  have logged := logged_step recorded.numbered taken
  refine ⟨fun u x member => ?_, fun ep u x member => ?_, fun t r inCall => ?_⟩
  · cases held_step taken member with
    | inl held =>
      obtain ⟨ep, member⟩ := traced.held u x held
      exact ⟨ep, returned_grows logged ep u x member⟩
    | inr new => exact new
  · cases logged with
    | same queue pushed removed returned serial =>
      rw [returned] at member
      rw [pushed]
      exact traced.returned ep u x member
    | push ep' y fresh queue pushed removed returned serial =>
      rw [returned] at member
      have before := traced.returned ep u x member
      rw [pushed]
      by_cases same : ep = ep'
      · subst same
        simp [before]
      · simpa [same] using before
    | pop t ep' y rest front queue pushed removed returned serial =>
      rw [pushed]
      cases returned with
      | inr parked =>
        rw [parked.2.2] at member
        exact traced.returned ep u x member
      | inl returned =>
        rw [returned] at member
        by_cases same : ep = ep'
        · subst same
          simp only [Function.update_self, List.mem_append, List.mem_singleton, Prod.mk.injEq] at member
          cases member with
          | inl old => exact traced.returned ep u x old
          | inr new =>
            have waiting : x ∈ s.queue ep := by simp [front, new.2]
            simp [recorded.history ep, waiting]
        · simp only [Function.update_of_ne same] at member
          exact traced.returned ep u x member
  · cases request_step recorded.numbered taken inCall with
    | inl before =>
      have early := traced.requests t r before
      cases logged with
      | same queue pushed removed returned serial =>
        rw [pushed]
        exact ⟨Nat.lt_of_lt_of_le early.1 serial, early.2⟩
      | push ep y fresh queue pushed removed returned serial =>
        refine ⟨by omega, fun ep' x member same => ?_⟩
        have other : x ≠ y := fun new => by rw [new] at same; omega
        rw [pushed] at member
        by_cases here : ep' = ep
        · subst here
          exact early.2 ep' x (by simpa [other] using member) same
        · exact early.2 ep' x (by simpa [here] using member) same
      | pop u ep y rest front queue pushed removed returned serial =>
        rw [pushed, serial]
        exact early
    | inr calls =>
      obtain ⟨ep, message, rfl, rfl⟩ := calls
      cases stepped taken with
      | call free =>
        have placed := placed_call s t ep message
        refine ⟨by rw [placed.serial]; exact Nat.lt_succ_self _, fun ep' x member same => ?_⟩
        cases placed.pushed ep' x member with
        | inl old => exact absurd same (Nat.ne_of_lt (recorded.early ep' x old))
        | inr new => exact new.1

theorem matched_quiet {s s' : State} {a : Action} (logged : Logged s a s') (quiet : Quiet s s')
    (matched : Matched s) :
    Matched s' where
  queued t r ep x inCall member sender := by
    exact matched.queued t r ep x (quiet.requests t r inCall) (quiet.queue ep x member) sender
  held t r u x inCall alive member sender := by
    have before := quiet.requests t r inCall
    cases quiet.held u x alive member with
    | inl held => exact matched.held t r u x before held.1 held.2 sender
    | inr queued =>
      obtain ⟨ep, member⟩ := queued
      exact matched.queued t r ep x before member sender
  slots t r slot inCall stored := by
    obtain ⟨m, x, same, own, sender, member⟩ :=
      matched.slots t r slot (quiet.requests t r inCall) (by rwa [← quiet.slots t r inCall])
    exact ⟨m, x, same, own, sender, returned_grows logged _ _ _ member⟩

theorem matched_placed {s s' : State} {t : TaskId} {ep : EndpointId} {x : Stamped} (placed : Placed s s' t ep x)
    (sender : x.message.sender = t) (matched : Matched s)
    (own : ∀ r, (s'.pc t).request = some r → x.serial = r.serial ∧ s'.replies t = some none ∧
      (∀ ep y, y ∈ s.queue ep → y.message.sender ≠ t) ∧
      ∀ u y, s.status u ≠ .dead → y ∈ s.held u → y.message.sender ≠ t) : Matched s' where
  queued u r ep' y inCall member owner := by
    by_cases same : u = t
    · subst same
      cases placed.mem_queue member with
      | inl old => exact absurd owner ((own r inCall).2.2.1 ep' y old)
      | inr new => rw [new]; exact (own r inCall).1
    · rw [(placed.others u same).1] at inCall
      cases placed.mem_queue member with
      | inl old => exact matched.queued u r ep' y inCall old owner
      | inr new => exact absurd (by rw [← owner, new, sender]) same
  held u r v y inCall alive member owner := by
    rw [placed.held] at member
    rw [placed.status] at alive
    by_cases same : u = t
    · subst same
      exact absurd owner ((own r inCall).2.2.2 v y alive member)
    · rw [(placed.others u same).1] at inCall
      exact matched.held u r v y inCall alive member owner
  slots u r slot inCall stored := by
    by_cases same : u = t
    · subst same
      simp [(own r inCall).2.1] at stored
    · rw [(placed.others u same).1] at inCall
      rw [(placed.others u same).2] at stored
      rw [placed.returned]
      exact matched.slots u r slot inCall stored

theorem matched_reply {s : State} {t : TaskId} {original : Stamped} {message : Message} (traced : Traced s)
    (matched : Matched s) (free : s.Free t) (member : original ∈ s.held t) :
    Matched ((s.setSlot original.message.sender
      (some (.reply original.serial { message with sender := t }))).goto t
      (.replyWake original.message.sender)) := by
  -- A reply goes to the call of the message it answers: that message is the caller's only one under way.
  have alive : s.status t ≠ .dead := by simp [free.1]
  have inCall_before (u : TaskId) (r : Request)
      (inCall : (((s.setSlot original.message.sender
        (some (.reply original.serial { message with sender := t }))).goto t
        (.replyWake original.message.sender)).pc u).request = some r) : (s.pc u).request = some r := by
    by_cases same : u = t
    · simp [same, Pc.request] at inCall
    · simpa [same, State.setSlot] using inCall
  refine ⟨fun u r ep y inCall => matched.queued u r ep y (inCall_before u r inCall),
    fun u r v y inCall => matched.held u r v y (inCall_before u r inCall), fun u r slot inCall stored => ?_⟩
  have before := inCall_before u r inCall
  by_cases same : u = original.message.sender
  · have serial := matched.held u r t original before alive member same.symm
    obtain ⟨ep, back⟩ := traced.held t original member
    have place := (traced.requests u r before).2 ep original (traced.returned ep t original back) serial
    simp only [State.goto, State.setSlot, same, Function.update_self, Option.some.injEq] at stored
    exact ⟨_, original, by rw [← stored, serial], serial, same.symm, by rw [← place]; exact back⟩
  · simp only [State.goto, State.setSlot, Function.update_of_ne same] at stored
    exact matched.slots u r slot before stored

theorem matched_step {s s' : State} {a : Action} (recorded : Recorded s) (traced : Traced s)
    (matched : Matched s)
    (settled : Settled s a) (taken : step s a = some s') : Matched s' := by
  have logged := logged_step recorded.numbered taken
  have other := quiet_step recorded.numbered taken
  cases stepped taken with
  | @send t ep message free =>
    refine matched_placed (placed_send s t ep message) rfl matched (fun r inCall => ?_)
    simp [send_request s t ep message free.2] at inCall
  | @call t ep message free =>
    refine matched_placed (placed_call s t ep message) rfl matched (fun r inCall => ?_)
    simp only [(call_request s t ep message).1, Option.some.injEq] at inCall
    exact ⟨by rw [← inCall]; rfl, (call_request s t ep message).2, settled⟩
  | reply free found waiting => exact matched_reply traced matched free (List.mem_of_getElem? found)
  | unheard => exact matched
  | _ =>
    have quiet := other (by simp) (by simp) (by simp)
    exact matched_quiet logged quiet matched

theorem answered_step {s s' : State} {a : Action} (recorded : Recorded s) (matched : Matched s)
    (answered : Answered s) (taken : step s a = some s') : Answered s' := by
  have grows := returned_grows (logged_step recorded.numbered taken)
  have before (old : s'.results = s.results) : Answered s' := by
    intro result member slot ok
    rw [old] at member
    obtain ⟨m, x, same, serial, sender, back⟩ := answered result member slot ok
    exact ⟨m, x, same, serial, sender, grows _ _ _ back⟩
  cases stepped taken with
  | @send t ep message free => exact before (placed_send s t ep message).results
  | @call t ep message free => exact before (placed_call s t ep message).results
  | @advance t s' ready moved =>
    cases moved with
    | @registered ep here empty =>
      refine before ?_
      simp only [State.goto, State.register]
      cases s.endpoints ep <;> rfl
    | @answered r deadline slot here filled =>
      intro result member slot' ok
      simp only [State.callReturn, List.mem_append, List.mem_singleton] at member
      cases member with
      | inl old => exact answered result old slot' ok
      | inr new =>
        subst new
        simp only [Option.some.injEq] at ok
        subst ok
        exact matched.slots t r slot (by simp [here, Pc.request]) filled
    | @expired r here =>
      intro result member slot ok
      simp only [State.callReturn, List.mem_append, List.mem_singleton] at member
      cases member with
      | inl old => exact answered result old slot ok
      | inr new => simp [new] at ok
    | _ => exact before rfl
  | _ => exact before rfl

/-- As long as every task has got rid of its old requests when it calls again, calls return their own
replies. -/
theorem answered_when_settled {s : State} (run : Reaches step Settled .initial s) : Answered s := by
  have all : Recorded s ∧ Traced s ∧ Matched s ∧ Answered s := by
    apply run.invariant
    · refine ⟨recorded_initial, ⟨?_, ?_, ?_⟩, ⟨?_, ?_, ?_⟩, ?_⟩ <;>
        simp [State.initial, Answered, Pc.request]
    · intro s a s' before settled taken
      obtain ⟨recorded, traced, matched, answered⟩ := before
      exact ⟨recorded_step recorded taken, traced_step recorded traced taken,
        matched_step recorded traced matched settled taken,
        answered_step recorded matched answered taken⟩
  exact all.2.2.2

def Action.isCall : Action → Bool
  | .call _ _ _ => true
  | _ => false

theorem settled_of_other (s : State) (a : Action) (other : a.isCall = false) : Settled s a := by
  cases a with
  | call => simp [Action.isCall] at other
  | _ => trivial

def answeredSchedule : List Action :=
  [.advance 2, .receive 1 1, .advance 1, .reply 1 0 (.new 9), .advance 1, .advance 2]

theorem answered_when_settled_once :
    ∃ s, s.results = [⟨2, ⟨1, 0⟩, some (.reply 0 { Message.new 9 with sender := 1 })⟩] ∧ Answered s := by
  let created : State := { State.initial.setEndpoint 1 {} with nextEp := 2 }
  have begun : Reaches step Settled .initial created := .step .start (a := .create 0) trivial rfl
  have settled : Settled created (.call 2 1 (.new 7)) := by
    refine ⟨fun ep x member => ?_, fun u x _ member =>
      by simp [created, State.setEndpoint, State.initial] at member⟩
    have none : x ∈ (State.initial.setEndpoint 1 {}).queue ep := member
    rw [State.queue_setEndpoint] at none
    by_cases same : ep = 1 <;> simp [same, State.queue, State.initial] at none
  have called : Reaches step Settled .initial (created.call 2 1 (.new 7)) := begun.step settled rfl
  have played : replay step (fun _ a => a.isCall = false) (created.call 2 1 (.new 7))
    answeredSchedule = some _ := rfl
  exact ⟨_, rfl, answered_when_settled (.of_replay settled_of_other called played)⟩

theorem run_ticks (s : State) (n : Nat) :
    run step s (List.replicate n .tick) = some { s with ticks := s.ticks + n } := by
  induction n generalizing s with
  | zero => rfl
  | succ n ih =>
    simp only [List.replicate_succ, run, step, Option.bind_some, ih]
    simp [Nat.add_assoc, Nat.add_comm 1 n]

/-- A client's call to endpoint 1 times out, and it calls endpoint 2 before its first request is
replied to. -/
def lateSchedule : List Action :=
  [.create 0, .create 0, .call 2 1 (.new 7), .advance 2] ++ (List.replicate 500 .tick ++
    [.advance 2, .advance 2, .advance 2, .call 2 2 (.new 8), .advance 2, .receive 1 1, .advance 1,
      .reply 1 0 (.new 9), .advance 1, .advance 2])

theorem call_returns_old_reply : ¬∀ s, Reachable s → Answered s := by
  intro answered
  have played : ∃ s, run step .initial lateSchedule = some s ∧ s.results =
      [⟨2, ⟨1, 0⟩, none⟩, ⟨2, ⟨2, 1⟩, some (.reply 0 { Message.new 9 with sender := 1 })⟩] := by
    unfold lateSchedule
    rw [run_append]
    have called : run step .initial [.create 0, .create 0, .call 2 1 (.new 7), .advance 2] = some _ := rfl
    rw [called, Option.bind_some, run_append, run_ticks, Option.bind_some]
    exact ⟨_, rfl, rfl⟩
  obtain ⟨s, played, results⟩ := played
  obtain ⟨m, x, same, _⟩ := answered s (.of_run .start played) ⟨2, ⟨2, 1⟩, _⟩ (by rw [results]; simp; rfl)
    _ rfl
  simp at same

end PickleOS.Ipc
