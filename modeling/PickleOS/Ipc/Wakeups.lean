import PickleOS.Ipc.Replies

set_option autoImplicit false

namespace PickleOS.Ipc

open Shared.Machine

/-- The task that a sender has popped from the waiters and not yet unblocked. -/
def Pc.sends : Pc → Option TaskId
  | .sendWake waiter => some waiter
  | .callWake _ waiter => some waiter
  | _ => none

/-- The caller whose slot a replier has filled and that it has not yet unblocked. -/
def Pc.replies : Pc → Option TaskId
  | .replyWake caller => some caller
  | _ => none

namespace State

variable (s : State)

def Filled (t : TaskId) : Prop := ∃ slot, s.replies t = some (some slot)

/-- An unblock of the task is still to come from a task that is alive. -/
def WakeComing (wakes : Pc → Option TaskId) (t : TaskId) : Prop :=
  ∃ u, s.status u ≠ .dead ∧ wakes (s.pc u) = some t

/-- Asleep in `receive`, or past its last look at the queue. -/
def Waiting (ep : EndpointId) (t : TaskId) : Prop :=
  s.status t = .blocked ∧ s.pc t = .receivePop ep ∨ s.status t ≠ .dead ∧ s.pc t = .receiveBlock ep ∧
  ¬s.Filled t

/-- Asleep in `call`, or past its last look at the slot. -/
def Polled (t : TaskId) : Prop :=
  s.status t = .blocked ∧ (∃ request deadline, s.pc t = .callPoll request deadline) ∨
    s.status t ≠ .dead ∧
      ((∃ request deadline, s.pc t = .callTimeout request deadline) ∨ ∃ request deadline,
      s.pc t = .callBlock request deadline)

/-- The request is in its queue or in the hands of a live receiver. -/
def Outstanding (t : TaskId) (r : Request) : Prop :=
  (∃ x, x ∈ s.queue r.ep ∧ x.serial = r.serial ∧ x.message.sender = t) ∨
    ∃ u x, s.status u ≠ .dead ∧ x ∈ s.held u ∧ x.serial = r.serial ∧ x.message.sender = t

/-- The message is the request of a call that has no reply yet. -/
def Awaited (x : Stamped) : Prop :=
  ∃ r, s.status x.message.sender ≠ .dead ∧ (s.pc x.message.sender).request = some r ∧ r.serial = x.serial ∧
    ¬s.Filled x.message.sender

/-- Waiting for time to pass makes the task runnable. -/
def DeadlineWakes (t : TaskId) : Prop :=
  ∃ n s', run step s (List.replicate n .tick) = some s' ∧ s'.status t = .ready

end State

/-- A task asleep in `receive` has an empty queue or a sender about to wake it; a task asleep in
`call` has no reply and an outstanding request, or a replier about to wake it. -/
structure NoLostWakeup (s : State) : Prop where
  receiving : ∀ t ep, s.status t = .blocked → s.pc t = .receivePop ep → s.queue ep = [] ∨
  s.WakeComing Pc.sends t
  calling : ∀ t r deadline, s.status t = .blocked → s.pc t = .callPoll r deadline →
    ¬s.Filled t ∧ (s.Outstanding t r ∨ s.DeadlineWakes t) ∨ s.WakeComing Pc.replies t

/-- Whoever waits on the endpoint is woken next, or about to be woken. -/
def State.WakesAll (s : State) (ep : EndpointId) : Prop :=
  ∀ t, s.Waiting ep t → (s.waiters ep).head? = some t ∨ s.WakeComing Pc.sends t

def Wakeful (s : State) : Action → Prop
  | .send _ ep _ => (s.endpoints ep).isSome → s.WakesAll ep
  | .call _ ep _ => (s.endpoints ep).isSome ∧ s.WakesAll ep
  | .discard t position => ∀ x, (s.held t)[position]? = some x → ¬s.Awaited x
  | .exit t => ∀ x, x ∈ s.held t → ¬s.Awaited x
  | .kill _ victim => (∀ x, x ∈ s.held victim → ¬s.Awaited x) ∧
      (∀ t, (s.pc victim).sends = some t → ∀ ep, ¬s.Waiting ep t) ∧
      ∀ t, (s.pc victim).replies = some t → ¬s.Polled t
  | .advance t =>
    match s.pc t with
    | .receiveRegister ep => ∀ x, (s.queue ep).head? = some x → ¬s.Awaited x
    | .sendWake waiter | .callWake _ waiter => ∀ ep, s.Waiting ep waiter → s.pc waiter = .receivePop ep
    | .replyWake caller => s.Polled caller → ∃ request deadline, s.pc caller = .callPoll request deadline
    | _ => True
  | _ => True

def Action.subject : Action → TaskId
  | .tick => 0
  | .create t => t
  | .send t _ _ => t
  | .receive t _ => t
  | .call t _ _ => t
  | .reply t _ _ => t
  | .discard t _ => t
  | .exit t => t
  | .kill _ victim => victim
  | .advance t => t

/-- Only one task is moved; others are at most unblocked, or sent a reply. -/
structure Steady (s s' : State) (t : TaskId) : Prop where
  pc : ∀ u, u ≠ t → s'.pc u = s.pc u
  dead : ∀ u, u ≠ t → (s'.status u = .dead ↔ s.status u = .dead)
  blocked : ∀ u, u ≠ t → s'.status u = .blocked → s.status u = .blocked
  filled : ∀ u, u ≠ t → s.Filled u → s'.Filled u

theorem Steady.of_same {s s' : State} {t : TaskId} (pc : ∀ u, u ≠ t → s'.pc u = s.pc u)
    (status : ∀ u, u ≠ t → s'.status u = s.status u) (replies : ∀ u, u ≠ t → s'.replies u = s.replies u) :
    Steady s s' t where
  pc := pc
  dead u other := by rw [status u other]
  blocked u other := by rw [status u other]; exact id
  filled u other := by simp [State.Filled, replies u other]

theorem Steady.of_unblock (s : State) (t w : TaskId) (pc : Pc) : Steady s ((s.unblock w).goto t pc) t where
  pc u other := by simp [other, State.unblock]
  dead u other := by
    simp only [State.goto, State.unblock]
    split
    · rename_i blocked
      by_cases same : u = w <;> simp [same, blocked]
    · exact Iff.rfl
  blocked u other := by
    simp only [State.goto, State.unblock]
    split
    · by_cases same : u = w <;> simp [same]
    · exact id
  filled u other := id

theorem steady_advance {s s' : State} {t : TaskId} (moved : Advanced s t s') : Steady s s' t := by
  cases moved with
  | sendWoke here | replyWoke here | callWoke here => exact .of_unblock s t _ _
  | @registered ep here empty =>
    have rest : (s.register t ep).pc = s.pc ∧ (s.register t ep).status = s.status ∧
        (s.register t ep).replies = s.replies := by
      unfold State.register
      cases s.endpoints ep <;> exact ⟨rfl, rfl, rfl⟩
    exact .of_same (fun u other => by simp [other, rest.1]) (fun u other => by simp [State.goto, rest.2.1])
      (fun u other => by simp [State.goto, rest.2.2])
  | _ =>
    exact .of_same
      (fun u other => by
        simp [other, State.receiveReturn, State.callReturn, State.popped, State.setEndpoint, State.setSlot,
          State.removeSlot, State.block])
      (fun u other => by
        simp [other, State.goto, State.receiveReturn, State.callReturn, State.popped, State.setEndpoint,
          State.setSlot,
          State.removeSlot, State.block])
      (fun u other => by
        simp [other, State.goto, State.receiveReturn, State.callReturn, State.popped, State.setEndpoint,
          State.setSlot,
          State.removeSlot, State.block])

theorem steady_step {s s' : State} {a : Action} (taken : step s a = some s') : Steady s s' a.subject := by
  cases stepped taken with
  | advance ready moved => exact steady_advance moved
  | @send t ep message free =>
    have placed := placed_send s t ep message
    exact .of_same (fun u other => (placed.others u other).1) (fun u other => by rw [placed.status])
      (fun u other => (placed.others u other).2)
  | @call t ep message free =>
    have placed := placed_call s t ep message
    exact .of_same (fun u other => (placed.others u other).1) (fun u other => by rw [placed.status])
      (fun u other => (placed.others u other).2)
  | @reply t position message original free found waiting =>
    refine ⟨fun u other => by
      simp [Action.subject] at other; simp [other, State.setSlot], fun u other => Iff.rfl,
      fun u other => id, fun u other filled => ?_⟩
    by_cases same : u = original.message.sender
    · simp [State.Filled, State.goto, State.setSlot, same]
    · simpa [State.Filled, State.goto, State.setSlot, same] using filled
  | _ =>
    exact .of_same (fun u other => by
      simp [Action.subject] at other; simp [other, State.setEndpoint, State.removeSlot])
      (fun u other => by simp [Action.subject] at other; simp [other, State.setEndpoint, State.goto])
      (fun u other => by
        simp [Action.subject] at other; simp [other, State.setEndpoint, State.removeSlot, State.goto])

theorem Steady.waiting {s s' : State} {t u : TaskId} {ep : EndpointId} (steady : Steady s s' t) (other : u ≠ t)
    (waiting : s'.Waiting ep u) : s.Waiting ep u := by
  simp only [State.Waiting, steady.pc u other, ne_eq, steady.dead u other] at waiting
  cases waiting with
  | inl asleep => exact Or.inl ⟨steady.blocked u other asleep.1, asleep.2⟩
  | inr dozing => exact Or.inr ⟨dozing.1, dozing.2.1, fun filled => dozing.2.2 (steady.filled u other filled)⟩

theorem Steady.polled {s s' : State} {t u : TaskId} (steady : Steady s s' t) (other : u ≠ t)
    (polled : s'.Polled u) :
    s.Polled u := by
  simp only [State.Polled, steady.pc u other, ne_eq, steady.dead u other] at polled
  cases polled with
  | inl asleep => exact Or.inl ⟨steady.blocked u other asleep.1, asleep.2⟩
  | inr dozing => exact Or.inr dozing

theorem Steady.coming {s s' : State} {t u : TaskId} {wakes : Pc → Option TaskId} (steady : Steady s s' t)
    (coming : s.WakeComing wakes u) : s'.WakeComing wakes u ∨ wakes (s.pc t) = some u := by
  -- A wake-up stays to come, unless it is the step's own.
  obtain ⟨v, alive, wake⟩ := coming
  by_cases same : v = t
  · subst same
    exact Or.inr wake
  · exact Or.inl ⟨v, by rwa [ne_eq, steady.dead v same], by rwa [steady.pc v same]⟩

/-- Whoever waits on an endpoint with messages is about to be woken. -/
def Rested (s : State) : Prop := ∀ ep t, s.Waiting ep t → s.queue ep = [] ∨ s.WakeComing Pc.sends t

theorem Rested.steady {s s' : State} {t : TaskId} (rested : Rested s) (steady : Steady s s' t)
    (queue : ∀ ep, s.queue ep = [] → s'.queue ep = [])
    (spent : ∀ u ep, u ≠ t → (s.pc t).sends = some u → ¬s'.Waiting ep u)
    (own : ∀ ep, s'.Waiting ep t → s'.queue ep = [] ∨ s'.WakeComing Pc.sends t) : Rested s' := by
  intro ep u waiting
  by_cases same : u = t
  · subst same
    exact own ep waiting
  · cases rested ep u (steady.waiting same waiting) with
    | inl empty => exact Or.inl (queue ep empty)
    | inr coming =>
      cases steady.coming coming with
      | inl still => exact Or.inr still
      | inr mine => exact absurd waiting (spent u ep same mine)

theorem send_wakes (s : State) {t w : TaskId} {ep : EndpointId} (message : Message)
    (first : (s.waiters ep).head? = some w) : ((s.send t ep message).pc t).sends = some w := by
  -- A message goes to whoever is first among the waiters.
  cases present : s.endpoints ep with
  | none => simp [State.waiters, present] at first
  | some endpoint =>
    have head : endpoint.waiters.head? = some w := by simpa [State.waiters, present] using first
    simp only [State.send, s.push_some _ present, head]
    simp [Pc.sends]

theorem call_wakes (s : State) {t w : TaskId} {ep : EndpointId} (message : Message)
    (first : (s.waiters ep).head? = some w) : ((s.call t ep message).pc t).sends = some w := by
  cases present : s.endpoints ep with
  | none => simp [State.waiters, present] at first
  | some endpoint =>
    have head : endpoint.waiters.head? = some w := by simpa [State.waiters, present] using first
    simp only [State.call, (s.setSlot t none).push_some _ present, head]
    simp [Pc.sends]

theorem Rested.placed {s s' : State} {t : TaskId} {ep : EndpointId} {x : Stamped} (rested : Rested s)
    (steady : Steady s s' t) (placed : Placed s s' t ep x) (free : s.Free t)
    (here : ∀ ep, s'.pc t ≠ .receivePop ep)
    (here' : ∀ ep, s'.pc t ≠ .receiveBlock ep) (fine : (s.endpoints ep).isSome → s.WakesAll ep)
    (wakes : ∀ w, (s.waiters ep).head? = some w → (s'.pc t).sends = some w) : Rested s' := by
  -- A message on an endpoint wakes all that wait there.
  have keeps {u : TaskId} (coming : s.WakeComing Pc.sends u) : s'.WakeComing Pc.sends u := by
    cases steady.coming coming with
    | inl still => exact still
    | inr mine => simp [free.2, Pc.sends] at mine
  intro ep' u waiting
  have other : u ≠ t := fun same => by simp [State.Waiting, same, here, here'] at waiting
  have before := steady.waiting other waiting
  rw [placed.queue]
  by_cases pushed : (s.endpoints ep).isSome ∧ ep' = ep
  · obtain ⟨present, rfl⟩ := pushed
    cases fine present u before with
    | inl first => exact Or.inr ⟨t, by simp [placed.status, free.1], wakes u first⟩
    | inr coming => exact Or.inr (keeps coming)
  · have same : (if (s.endpoints ep).isSome then Function.update s.queue ep (s.queue ep ++ [x]) else
      s.queue) ep' =
        s.queue ep' := by
      split
      · rename_i present
        exact Function.update_of_ne (fun same => pushed ⟨present, same⟩) _ _
      · rfl
    rw [same]
    exact (rested ep' u before).imp_right keeps

theorem Quiet.empty {s s' : State} (quiet : Quiet s s') (ep : EndpointId) (none : s.queue ep = []) :
    s'.queue ep = [] := by
  cases filled : s'.queue ep with
  | nil => rfl
  | cons x rest =>
    have member := quiet.queue ep x (by simp [filled])
    simp [none] at member

theorem rested_advance {s s' : State} {t : TaskId} (ready : s.status t = .ready) (moved : Advanced s t s')
    (wakeful : Wakeful s (.advance t)) (rested : Rested s) : Rested s' := by
  have steady := steady_advance moved
  have quiet := quiet_advance ready moved
  cases moved with
  | @registered ep here empty =>
    refine rested.steady steady quiet.empty (by simp [here, Pc.sends]) (fun ep' waiting => Or.inl ?_)
    have same : ep = ep' := by
      simp [State.Waiting] at waiting
      exact waiting.2.1
    subst same
    have queue : ((s.register t ep).goto t (.receiveBlock ep)).queue = s.queue := s.queue_register t ep
    rw [queue]
    exact empty
  | @slept ep here unfilled =>
    refine rested.steady steady quiet.empty (by simp [here, Pc.sends]) (fun ep' waiting => ?_)
    have same : ep = ep' := by
      simp [State.Waiting] at waiting
      exact waiting.2
    subst same
    have before : s.Waiting ep t :=
      Or.inr ⟨by simp [ready], here, fun filled => filled.elim unfilled⟩
    cases rested ep t before with
    | inl none => exact Or.inl (quiet.empty ep none)
    | inr coming =>
      cases steady.coming coming with
      | inl still => exact Or.inr still
      | inr mine => simp [here, Pc.sends] at mine
  | @sendWoke waiter here | @callWoke request waiter here =>
    refine rested.steady steady quiet.empty (fun u ep other wakes waiting => ?_) (by simp [State.Waiting])
    obtain rfl : waiter = u := by simpa [here, Pc.sends] using wakes
    have before := steady.waiting other waiting
    simp only [Wakeful, here] at wakeful
    have asleep := wakeful ep before
    simp only [State.Waiting, steady.pc waiter other, asleep] at waiting
    simp only [State.goto, State.unblock] at waiting
    split at waiting <;> simp_all
  | received here _ _ | foundEmpty here _ | parked here _ _ | dropped here _ | replyWoke here
  | started here | answered here _
  | unanswered here _ | late here | early here | expired here | waited here =>
    refine rested.steady steady quiet.empty (by simp [here, Pc.sends]) (fun ep' waiting => ?_)
    simp [State.Waiting, State.receiveReturn, State.callReturn, State.Filled, State.goto, State.setSlot,
      State.removeSlot,
      ready] at waiting

theorem rested_step {s s' : State} {a : Action} (recorded : Recorded s) (rested : Rested s)
    (wakeful : Wakeful s a)
    (taken : step s a = some s') : Rested s' := by
  have steady := steady_step taken
  have quiet := quiet_step recorded.numbered taken
  cases stepped taken with
  | @send t ep message free =>
    have steady : Steady s (s.send t ep message) t := steady
    have after := send_pc s t ep message free.2
    exact rested.placed steady (placed_send s t ep message) free (fun ep => by grind) (fun ep => by grind)
      wakeful
      (fun w first => send_wakes s message first)
  | @call t ep message free =>
    have steady : Steady s (s.call t ep message) t := steady
    have after := (call_request s t ep message).1
    exact rested.placed steady (placed_call s t ep message)
      free (fun ep same => by simp [same, Pc.request] at after)
      (fun ep same => by simp [same, Pc.request] at after) (fun _ => wakeful.2)
      (fun w first => call_wakes s message first)
  | reply free found waiting =>
    refine rested.steady steady (fun ep empty => empty) (by simp [Action.subject, free.2, Pc.sends])
      (fun ep asleep => ?_)
    simp [State.Waiting, Action.subject] at asleep
  | tick => exact fun ep t => rested ep t
  | unheard => exact rested
  | @kill t victim free other =>
    refine rested.steady steady (quiet (by simp) (by simp) (by simp)).empty
      (fun u ep _ wakes asleep => ?_) (by simp [State.Waiting, Action.subject])
    exact wakeful.2.1 u wakes ep (steady.waiting (by assumption) asleep)
  | advance ready moved => exact rested_advance ready moved wakeful rested
  | create free | receive free | discard free | exit free =>
    refine rested.steady steady (quiet (by simp) (by simp) (by simp)).empty
      (by simp [Action.subject, free.2, Pc.sends])
      (fun ep asleep => ?_)
    simp [State.Waiting, Action.subject, free.2, State.setEndpoint, State.removeSlot, State.goto, free.1]
      at asleep

/-- A caller past its last look at a slot that has been filled is about to be woken. -/
def Heard (s : State) : Prop := ∀ t, s.Polled t → s.Filled t → s.WakeComing Pc.replies t

theorem Heard.steady {s s' : State} {t : TaskId} (heard : Heard s) (steady : Steady s s' t)
    (filled : ∀ u, u ≠ t → s'.Filled u → s.Filled u ∨ s'.WakeComing Pc.replies u)
    (spent : ∀ u, u ≠ t → (s.pc t).replies = some u → ¬s'.Polled u)
    (own : s'.Polled t → s'.Filled t → s'.WakeComing Pc.replies t) : Heard s' := by
  intro u polled reply
  by_cases same : u = t
  · subst same
    exact own polled reply
  · cases filled u same reply with
    | inr new => exact new
    | inl old =>
      cases steady.coming (heard u (steady.polled same polled) old) with
      | inl still => exact still
      | inr mine => exact absurd polled (spent u same mine)

theorem heard_advance {s s' : State} {t : TaskId} (ready : s.status t = .ready) (moved : Advanced s t s')
    (wakeful : Wakeful s (.advance t)) (heard : Heard s) : Heard s' := by
  have steady := steady_advance moved
  have filled (u : TaskId) (other : u ≠ t) (reply : s'.Filled u) : s.Filled u := by
    have same : s'.replies u = s.replies u := by
      cases moved with
      | @registered ep here empty =>
        simp only [State.goto, State.register]
        cases s.endpoints ep <;> rfl
      | _ =>
        simp [other, State.goto, State.receiveReturn, State.callReturn, State.popped, State.setEndpoint,
          State.setSlot,
          State.removeSlot, State.block, State.unblock]
    simpa [State.Filled, same] using reply
  have keeps (wakes : (s.pc t).replies = none) (polled : s.Polled t) (reply : s.Filled t) :
    s'.WakeComing Pc.replies t := by
    cases steady.coming (heard t polled reply) with
    | inl still => exact still
    | inr mine => simp [wakes] at mine
  refine heard.steady steady (fun u other reply => Or.inl (filled u other reply))
    (fun u other wakes polled => ?_)
    (fun polled reply => ?_)
  · cases moved with
    | @replyWoke caller here =>
      obtain rfl : caller = u := by simpa [here, Pc.replies] using wakes
      simp only [Wakeful, here] at wakeful
      obtain ⟨request, deadline, at_poll⟩ := wakeful (steady.polled other polled)
      simp only [State.Polled, steady.pc caller other, at_poll] at polled
      simp only [State.goto, State.unblock] at polled
      split at polled <;> simp_all
    | received here _ _ | foundEmpty here _ | parked here _ _ | registered here _ | dropped here _
    | slept here _ | sendWoke here
    | callWoke here | started here | answered here _ | unanswered here _ | late here | early here
    | expired here | waited here =>
      simp [here, Pc.replies] at wakes
  · cases moved with
    | unanswered here unfilled =>
      obtain ⟨slot, stored⟩ := reply
      exact absurd stored (unfilled slot)
    | early here =>
      exact keeps (by simp [here, Pc.replies]) (Or.inr ⟨by simp [ready], Or.inl ⟨_, _, here⟩⟩) reply
    | waited here =>
      exact keeps (by simp [here, Pc.replies]) (Or.inr ⟨by simp [ready], Or.inr ⟨_, _, here⟩⟩) reply
    | registered here _ => simp [State.Polled] at polled
    | _ =>
      simp [State.Polled, State.receiveReturn, State.callReturn, State.goto, State.popped,
        State.setEndpoint, State.removeSlot,
        State.setSlot, State.unblock, State.block, ready] at polled

theorem heard_step {s s' : State} {a : Action} (heard : Heard s) (wakeful : Wakeful s a)
    (taken : step s a = some s') :
    Heard s' := by
  have steady := steady_step taken
  cases stepped taken with
  | @send t ep message free =>
    have steady : Steady s (s.send t ep message) t := steady
    have after := send_pc s t ep message free.2
    have placed := placed_send s t ep message
    refine heard.steady steady (fun u other reply => Or.inl ?_) (by simp [free.2, Pc.replies])
      (fun polled => ?_)
    · simpa [State.Filled, (placed.others u other).2] using reply
    · cases after with
      | inl idle => simp [State.Polled, idle] at polled
      | inr wake =>
        obtain ⟨waiter, wake⟩ := wake
        simp [State.Polled, wake] at polled
  | @call t ep message free =>
    have steady : Steady s (s.call t ep message) t := steady
    have placed := placed_call s t ep message
    refine heard.steady steady (fun u other reply => Or.inl ?_) (by simp [free.2, Pc.replies])
      (fun _ reply => ?_)
    · simpa [State.Filled, (placed.others u other).2] using reply
    · simp [State.Filled, (call_request s t ep message).2] at reply
  | @reply t position message original free found waiting =>
    refine heard.steady steady (fun u other reply => ?_) (by simp [Action.subject, free.2, Pc.replies])
      (by simp [State.Polled, Action.subject])
    by_cases caller : u = original.message.sender
    · exact Or.inr ⟨t, by simp [State.goto, State.setSlot, free.1], by simp [Pc.replies, caller]⟩
    · simp only [State.Filled, State.goto, State.setSlot, Function.update_of_ne caller] at reply
      exact Or.inl reply
  | tick => exact fun t => heard t
  | unheard => exact heard
  | @kill t victim free other =>
    refine heard.steady steady (fun u _ reply => Or.inl reply) (fun u _ wakes asleep => ?_)
      (by simp [State.Polled, Action.subject])
    exact wakeful.2.2 u wakes (steady.polled (by assumption) asleep)
  | advance ready moved => exact heard_advance ready moved wakeful heard
  | create free | receive free | discard free | exit free =>
    refine heard.steady steady (fun u other reply => Or.inl ?_)
      (by simp [Action.subject, free.2, Pc.replies]) (fun polled => ?_)
    · simp [Action.subject] at other
      simpa [State.Filled, State.setEndpoint, State.removeSlot, State.goto, other] using reply
    · simp [State.Polled, Action.subject, free.2, State.setEndpoint, State.removeSlot] at polled

/-- The request of a caller without a reply is outstanding. -/
def Asked (s : State) : Prop :=
  ∀ t r, s.status t ≠ .dead → (s.pc t).request = some r → ¬s.Filled t → s.Outstanding t r

theorem Asked.steady {s s' : State} {t : TaskId} (asked : Asked s) (steady : Steady s s' t)
    (own : ∀ r, s'.status t ≠ .dead → (s'.pc t).request = some r → ¬s'.Filled t →
      s'.Outstanding t r ∨ s.status t ≠ .dead ∧ (s.pc t).request = some r ∧ ¬s.Filled t)
    (queue : ∀ ep x, s.Awaited x → x ∈ s.queue ep → x ∈ s'.queue ep ∨ ∃ u, s'.status u ≠ .dead ∧
      x ∈ s'.held u)
    (held : ∀ u x, s.Awaited x → s.status u ≠ .dead → x ∈ s.held u → s'.status u ≠ .dead ∧ x ∈ s'.held u)
    :
    Asked s' := by
  have kept (u : TaskId) (r : Request) (alive : s.status u ≠ .dead) (inCall : (s.pc u).request = some r)
      (open' : ¬s.Filled u) : s'.Outstanding u r := by
    cases asked u r alive inCall open' with
    | inl queued =>
      obtain ⟨x, member, serial, rfl⟩ := queued
      cases queue r.ep x ⟨r, alive, inCall, serial.symm, open'⟩ member with
      | inl still => exact Or.inl ⟨x, still, serial, rfl⟩
      | inr taken =>
        obtain ⟨v, alive', member'⟩ := taken
        exact Or.inr ⟨v, x, alive', member', serial, rfl⟩
    | inr taken =>
      obtain ⟨v, x, receiver, member, serial, rfl⟩ := taken
      have still := held v x ⟨r, alive, inCall, serial.symm, open'⟩ receiver member
      exact Or.inr ⟨v, x, still.1, still.2, serial, rfl⟩
  intro u r alive inCall open'
  by_cases same : u = t
  · subst same
    cases own r alive inCall open' with
    | inl outstanding => exact outstanding
    | inr before => exact kept u r before.1 before.2.1 before.2.2
  · rw [ne_eq, steady.dead u same] at alive
    rw [steady.pc u same] at inCall
    exact kept u r alive inCall (fun filled => open' (steady.filled u same filled))

theorem asked_advance {s s' : State} {t : TaskId} (ready : s.status t = .ready) (moved : Advanced s t s')
    (wakeful : Wakeful s (.advance t)) (asked : Asked s) : Asked s' := by
  have steady := steady_advance moved
  have quiet := quiet_advance ready moved
  have own (r : Request) (inCall : (s'.pc t).request = some r) (open' : ¬s'.Filled t) :
      s.status t ≠ .dead ∧ (s.pc t).request = some r ∧ ¬s.Filled t :=
    ⟨by simp [ready], quiet.requests t r inCall, by rwa [State.Filled, ← quiet.slots t r inCall]⟩
  have mine : s'.status t ≠ .dead := by
    cases moved with
    | @registered ep here empty =>
      simp only [State.goto, State.register]
      cases s.endpoints ep <;> simp [State.setEndpoint, ready]
    | sendWoke here | replyWoke here | callWoke here =>
      simp only [State.goto, State.unblock]
      split <;> simp [Function.update_apply, ready]
    | _ =>
      simp [State.goto, State.receiveReturn, State.callReturn, State.popped, State.setEndpoint, State.setSlot,
        State.removeSlot, State.block, ready]
  have alive (u : TaskId) (before : s.status u ≠ .dead) : s'.status u ≠ .dead := by
    by_cases same : u = t
    · rwa [same]
    · rwa [ne_eq, steady.dead u same]
  have queue_popped {ep endpoint y rest} (present : s.endpoints ep = some endpoint)
    (filled : endpoint.queue = y :: rest)
      {ep' : EndpointId} {x : Stamped} (member : x ∈ s.queue ep') :
      x ∈ (s.popped t ep endpoint y rest).queue ep' ∨ ep' = ep ∧ x = y := by
    have queue : (s.popped t ep endpoint y rest).queue = Function.update s.queue ep rest :=
      s.queue_setEndpoint _ _
    rw [queue]
    by_cases same : ep' = ep
    · subst same
      rw [State.queue_some present, filled, List.mem_cons] at member
      simpa [or_comm] using member
    · simp [same, member]
  refine asked.steady steady (fun r _ inCall open' => Or.inr (own r inCall open'))
    (fun ep x awaited member => ?_)
    (fun u x awaited receiver member => ⟨alive u receiver, ?_⟩)
  · cases moved with
    | @received ep' endpoint y rest here present filled =>
      cases queue_popped present filled member with
      | inl still => exact Or.inl still
      | inr taken => exact Or.inr ⟨t, mine, by simp [State.receiveReturn, taken.2]⟩
    | @parked ep' endpoint y rest here present filled =>
      cases queue_popped present filled member with
      | inl still => exact Or.inl still
      | inr taken =>
        simp only [Wakeful, here] at wakeful
        exact absurd awaited (wakeful x (by simp [State.queue_some present, filled, taken.2]))
    | @registered ep' here empty =>
      have same : ((s.register t ep').goto t (.receiveBlock ep')).queue = s.queue := s.queue_register t ep'
      rw [same]
      exact Or.inl member
    | _ => exact Or.inl member
  · cases moved with
    | @received ep endpoint y rest here present filled =>
      by_cases same : u = t
      · subst same
        simp only [State.receiveReturn, Function.update_self, List.mem_cons]
        exact Or.inr member
      · simpa [State.receiveReturn, State.popped, State.setEndpoint, same] using member
    | @registered ep here empty =>
      simp only [State.goto, State.register]
      cases s.endpoints ep <;> exact member
    | _ => exact member

theorem asked_step {s s' : State} {a : Action} (recorded : Recorded s) (asked : Asked s) (wakeful : Wakeful s a)
    (taken : step s a = some s') : Asked s' := by
  have steady := steady_step taken
  cases stepped taken with
  | @send t ep message free =>
    have placed := placed_send s t ep message
    refine asked.steady steady (fun r _ inCall => ?_) (fun ep' x _ member => Or.inl ?_)
      (fun u x _ alive member => ?_)
    · simp [Action.subject, send_request s t ep message free.2] at inCall
    · exact placed.keeps_queue member
    · rw [placed.status, placed.held]
      exact ⟨alive, member⟩
  | @call t ep message free =>
    have placed := placed_call s t ep message
    refine asked.steady steady (fun r _ inCall _ => Or.inl (Or.inl ?_)) (fun ep' x _ member => Or.inl ?_)
      (fun u x _ alive member => ?_)
    · simp only [Action.subject, (call_request s t ep message).1, Option.some.injEq] at inCall
      subst inCall
      refine ⟨s.stamp t message, ?_, rfl, rfl⟩
      simp [placed.queue, wakeful.1]
    · exact placed.keeps_queue member
    · rw [placed.status, placed.held]
      exact ⟨alive, member⟩
  | @reply t position message original free found waiting =>
    refine asked.steady steady (fun r _ inCall => ?_) (fun ep x _ member => Or.inl member)
      (fun u x _ alive member => ⟨alive, member⟩)
    simp [Action.subject, Pc.request] at inCall
  | tick => exact fun t => asked t
  | unheard => exact asked
  | @kill t victim free other =>
    refine asked.steady steady (fun r alive => ?_) (fun ep x _ member => Or.inl member)
      (fun u x awaited alive member => ?_)
    · simp [Action.subject] at alive
    · have same : u ≠ victim := fun same => wakeful.1 x (by rwa [← same]) awaited
      simp [same, alive, member]
  | advance ready moved => exact asked_advance ready moved wakeful asked
  | @discard t position free =>
    refine asked.steady steady (fun r alive inCall open' => Or.inr ⟨alive, inCall, open'⟩)
      (fun ep x _ member => Or.inl member)
      (fun u x awaited alive member => ⟨alive, ?_⟩)
    by_cases same : u = t
    · subst same
      obtain ⟨i, found⟩ := List.mem_iff_getElem?.mp member
      have other : i ≠ position := fun at_position => wakeful x (by rwa [← at_position]) awaited
      simpa [List.mem_eraseIdx_iff_getElem?] using ⟨i, other, found⟩
    · simpa [same] using member
  | @exit t free =>
    refine asked.steady steady (fun r alive => ?_) (fun ep x _ member => Or.inl member)
      (fun u x awaited alive member => ?_)
    · simp [Action.subject] at alive
    · have same : u ≠ t := fun same => wakeful x (by rwa [← same]) awaited
      simp [State.removeSlot, same, alive, member]
  | @create t free =>
    have queue : (s.setEndpoint s.nextEp {}).queue = s.queue := by
      rw [State.queue_setEndpoint]
      have none : s.queue s.nextEp = [] := by simp [State.queue, recorded.numbered s.nextEp (Nat.le_refl _)]
      simp [← none]
    refine asked.steady steady (fun r alive inCall open' => Or.inr ⟨alive, inCall, open'⟩)
      (fun ep x _ member => Or.inl ?_)
      (fun u x _ alive member => ⟨alive, member⟩)
    have same : x ∈ (s.setEndpoint s.nextEp {}).queue ep := by rwa [queue]
    exact same
  | @receive t ep free =>
    refine asked.steady steady (fun r _ inCall => ?_) (fun ep x _ member => Or.inl member)
      (fun u x _ alive member => ⟨alive, member⟩)
    simp [Action.subject, Pc.request] at inCall

theorem deadline_never_wakes {s : State} {t : TaskId} (blocked : s.status t = .blocked) :
    ¬s.DeadlineWakes t := by
  -- The deadline of a sleeping caller does not wake it: only the caller itself looks at the time.
  intro wakes
  obtain ⟨n, s', passed, ready⟩ := wakes
  rw [run_ticks, Option.some.injEq] at passed
  rw [← passed] at ready
  simp [blocked] at ready

/-- In a run of wakeful steps no wake-up is lost. -/
theorem no_lost_wakeup {s : State} (run : Reaches step Wakeful .initial s) : NoLostWakeup s := by
  have all : Recorded s ∧ Rested s ∧ Heard s ∧ Asked s := by
    apply run.invariant
    · refine ⟨recorded_initial, ?_, ?_, ?_⟩
      · intro ep t waiting
        simp [State.Waiting, State.initial] at waiting
      · intro t polled
        simp [State.Polled, State.initial] at polled
      · intro t r alive inCall
        simp [State.initial, Pc.request] at inCall
    · intro s a s' before wakeful taken
      obtain ⟨recorded, rested, heard, asked⟩ := before
      exact ⟨recorded_step recorded taken, rested_step recorded rested wakeful taken,
        heard_step heard wakeful taken,
        asked_step recorded asked wakeful taken⟩
  obtain ⟨recorded, rested, heard, asked⟩ := all
  refine ⟨fun t ep blocked here => rested ep t (Or.inl ⟨blocked, here⟩), fun t r deadline blocked here => ?_⟩
  by_cases filled : s.Filled t
  · exact Or.inr (heard t (Or.inl ⟨blocked, r, deadline, here⟩) filled)
  · exact Or.inl ⟨filled, Or.inl (asked t r (by simp [blocked]) (by simp [here, Pc.request]) filled)⟩

theorem run_elsewhere {s s' : State} {schedule : List Action}
    {u : TaskId} (done : run step s schedule = some s')
    (other : ∀ a, a ∈ schedule → u ≠ a.subject) : s'.pc u = s.pc u := by
  induction schedule generalizing s with
  | nil =>
    cases done
    rfl
  | cons a rest ih =>
    simp only [run, Option.bind_eq_some_iff] at done
    obtain ⟨s₁, taken, done⟩ := done
    rw [ih done (fun b member => other b (List.mem_cons_of_mem _ member))]
    exact (steady_step taken).pc u (other a List.mem_cons_self)

/-- A receiver goes to sleep on an empty endpoint. -/
def restSchedule : List Action := [.create 2, .receive 1 1, .advance 1, .advance 1, .advance 1]

theorem no_lost_wakeup_sleeping :
    ∃ s, s.status 1 = .blocked ∧ s.queue 1 = [⟨0, { Message.new 7 with sender := 2 }⟩] ∧ NoLostWakeup s := by
  have rested : Reaches step Wakeful .initial _ :=
    .step (a := .advance 1) (.step (a := .advance 1) (.step (a := .advance 1) (.step (a := .receive 1 1)
      (.step (a := .create 2) .start trivial rfl) trivial rfl) trivial rfl)
      (fun x first => nomatch first) rfl) trivial rfl
  have asleep : ∃ s, run step .initial restSchedule = some s ∧ Reaches step Wakeful .initial s ∧ s.Free 2 ∧
      s.waiters 1 = [1] ∧ s.status 1 = .blocked ∧ (s.endpoints 1).isSome ∧ s.queue 1 = [] ∧ s.serial = 0 :=
    ⟨_, rfl, rested, ⟨rfl, rfl⟩, rfl, rfl, rfl, rfl, rfl⟩
  obtain ⟨s, played, rested, free, waiters, blocked, present, queue, serial⟩ := asleep
  have wakeful : Wakeful s (.send 2 1 (.new 7)) := by
    intro _ t waiting
    by_cases receiver : t = 1
    · exact Or.inl (by simp [waiters, receiver])
    by_cases sender : t = 2
    · simp [State.Waiting, sender, free.2] at waiting
    have idle := run_elsewhere played (u := t) (by simp [restSchedule, Action.subject, receiver, sender])
    simp [State.Waiting, idle, State.initial] at waiting
  have placed := placed_send s 2 1 (.new 7)
  refine ⟨s.send 2 1 (.new 7), by rw [placed.status, blocked], ?_,
    no_lost_wakeup (rested.step wakeful (by simp [step, free]))⟩
  simp [placed.queue, present, queue, State.stamp, serial]

/-- The sender's unblock falls between the receiver's registration and its sleep. -/
def lostSchedule : List Action :=
  [.create 2, .receive 1 1, .advance 1, .advance 1, .send 2 1 (.new 7), .advance 2, .advance 1]

theorem receiver_sleeps_on : ¬∀ s, Reachable s → NoLostWakeup s := by
  intro woken
  have played : ∃ s, run step .initial lostSchedule = some s ∧ s.status 1 = .blocked ∧ s.pc 1 = .receivePop 1 ∧
      s.pc 2 = .idle ∧ s.queue 1 = [⟨0, { Message.new 7 with sender := 2 }⟩] := ⟨_, rfl, rfl, rfl, rfl, rfl⟩
  obtain ⟨s, played, blocked, here, done, queue⟩ := played
  cases (woken s (.of_run .start played)).receiving 1 1 blocked here with
  | inl empty => simp [queue] at empty
  | inr coming =>
    obtain ⟨u, alive, wakes⟩ := coming
    by_cases receiver : u = 1
    · simp [receiver, here, Pc.sends] at wakes
    by_cases sender : u = 2
    · simp [sender, done, Pc.sends] at wakes
    have idle := run_elsewhere played (u := u) (by simp [lostSchedule, Action.subject, receiver, sender])
    simp [idle, State.initial, Pc.sends] at wakes

end PickleOS.Ipc
