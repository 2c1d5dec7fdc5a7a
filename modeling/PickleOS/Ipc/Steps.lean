import PickleOS.Ipc.Model

set_option autoImplicit false

namespace PickleOS.Ipc

theorem State.queue_setEndpoint (s : State) (ep : EndpointId) (endpoint : Endpoint) :
    (s.setEndpoint ep endpoint).queue = Function.update s.queue ep endpoint.queue := by
  funext ep'
  by_cases same : ep' = ep
  · subst same
    simp [State.queue, State.setEndpoint]
  · simp [State.queue, State.setEndpoint, same]

theorem State.queue_some {s : State} {ep : EndpointId}
    {endpoint : Endpoint} (present : s.endpoints ep = some endpoint) :
    s.queue ep = endpoint.queue := by
  simp [State.queue, present]

theorem State.push_some (s : State) {ep : EndpointId} {endpoint : Endpoint} (x : Stamped)
    (present : s.endpoints ep = some endpoint) :
    s.push ep x =
      ({ s.setEndpoint ep { queue := endpoint.queue ++ [x], waiters := endpoint.waiters.tail } with
          serial := s.serial + 1
          pushed := Function.update s.pushed ep (s.pushed ep ++ [x]) },
        endpoint.waiters.head?) := by
  simp only [State.push, present]

theorem State.push_none (s : State) {ep : EndpointId} (x : Stamped) (absent : s.endpoints ep = none) :
    s.push ep x = ({ s with serial := s.serial + 1 }, none) := by
  simp only [State.push, absent]

theorem State.pop_some (s : State) {t : TaskId} {ep : EndpointId} {x : Stamped} {s' : State}
    (popped : s.pop t ep = some (x, s')) :
    ∃ endpoint rest, s.endpoints ep = some endpoint ∧ endpoint.queue = x :: rest ∧
      s' = { s.setEndpoint ep { endpoint with queue := rest } with
        removed := Function.update s.removed ep (s.removed ep ++ [(t, x)]) } := by
  unfold State.pop at popped
  cases present : s.endpoints ep with
  | none => simp [present] at popped
  | some endpoint =>
    cases filled : endpoint.queue with
    | nil => simp [present, filled] at popped
    | cons y rest =>
      simp only [present, filled, Option.some.injEq, Prod.mk.injEq] at popped
      obtain ⟨rfl, rfl⟩ := popped
      exact ⟨endpoint, rest, rfl, filled, rfl⟩

theorem State.pop_none (s : State) {t : TaskId} {ep : EndpointId} (empty : s.pop t ep = none) :
    s.queue ep = [] := by
  unfold State.pop at empty
  cases present : s.endpoints ep with
  | none => simp [State.queue, present]
  | some endpoint =>
    cases filled : endpoint.queue with
    | nil => simp [State.queue, present, filled]
    | cons y rest => simp [present, filled] at empty

/-- The endpoint without its first message, which `t` takes. -/
def State.popped (s : State) (t : TaskId) (ep : EndpointId) (endpoint : Endpoint) (x : Stamped)
    (rest : List Stamped) :
    State :=
  { s.setEndpoint ep { endpoint with queue := rest } with
    removed := Function.update s.removed ep (s.removed ep ++ [(t, x)]) }

inductive Advanced (s : State) (t : TaskId) : State → Prop
  | received {ep endpoint x rest} (here : s.pc t = .receivePop ep) (present : s.endpoints ep = some endpoint)
      (filled : endpoint.queue = x :: rest) :
        Advanced s t ((s.popped t ep endpoint x rest).receiveReturn t ep x)
  | foundEmpty {ep} (here : s.pc t = .receivePop ep) (empty : s.queue ep = []) :
      Advanced s t (s.goto t (.receiveRegister ep))
  | parked {ep endpoint x rest} (here : s.pc t = .receiveRegister ep) (present : s.endpoints ep = some endpoint)
      (filled : endpoint.queue = x :: rest) :
      Advanced s t (((s.popped t ep endpoint x rest).setSlot t (some (.parked x))).goto t (.receiveBlock ep))
  | registered {ep} (here : s.pc t = .receiveRegister ep) (empty : s.queue ep = []) :
      Advanced s t ((s.register t ep).goto t (.receiveBlock ep))
  | dropped {ep slot} (here : s.pc t = .receiveBlock ep) (filled : s.replies t = some (some slot)) :
      Advanced s t ((s.removeSlot t).goto t (.receivePop ep))
  | slept {ep} (here : s.pc t = .receiveBlock ep) (empty : ∀ slot, s.replies t ≠ some (some slot)) :
      Advanced s t (((s.removeSlot t).block t).goto t (.receivePop ep))
  | sendWoke {waiter} (here : s.pc t = .sendWake waiter) : Advanced s t ((s.unblock waiter).goto t .idle)
  | replyWoke {caller} (here : s.pc t = .replyWake caller) : Advanced s t ((s.unblock caller).goto t .idle)
  | callWoke {request waiter} (here : s.pc t = .callWake request waiter) :
      Advanced s t ((s.unblock waiter).goto t (.callDeadline request))
  | started {request} (here : s.pc t = .callDeadline request) :
      Advanced s t (s.goto t (.callPoll request (s.ticks + 500)))
  | answered {request deadline slot} (here : s.pc t = .callPoll request deadline)
      (filled : s.replies t = some (some slot)) : Advanced s t (s.callReturn t request (some slot))
  | unanswered {request deadline} (here : s.pc t = .callPoll request deadline)
      (empty : ∀ slot, s.replies t ≠ some (some slot)) : Advanced s t (s.goto t (.callTimeout request deadline))
  | late {request deadline} (here : s.pc t = .callTimeout request deadline) :
      Advanced s t (s.goto t (.callExpire request))
  | early {request deadline} (here : s.pc t = .callTimeout request deadline) :
      Advanced s t (s.goto t (.callBlock request deadline))
  | expired {request} (here : s.pc t = .callExpire request) : Advanced s t (s.callReturn t request none)
  | waited {request deadline} (here : s.pc t = .callBlock request deadline) :
      Advanced s t ((s.block t).goto t (.callPoll request deadline))

theorem advanced {s s' : State} {t : TaskId} (taken : s.advance t (s.pc t) = some s') : Advanced s t s' := by
  cases here : s.pc t <;> simp only [here, State.advance, Option.some.injEq, reduceCtorEq] at taken
  case receivePop ep =>
    split at taken <;> rename_i result
    · obtain ⟨endpoint, rest, present, filled, rfl⟩ := s.pop_some result
      cases taken
      exact .received here present filled
    · cases taken
      exact .foundEmpty here (s.pop_none result)
  case receiveRegister ep =>
    split at taken <;> rename_i result
    · obtain ⟨endpoint, rest, present, filled, rfl⟩ := s.pop_some result
      cases taken
      exact .parked here present filled
    · cases taken
      exact .registered here (s.pop_none result)
  case receiveBlock ep =>
    split at taken <;> cases taken
    · exact .dropped here (by assumption)
    · exact .slept here (by assumption)
  case callPoll request deadline =>
    split at taken <;> cases taken
    · exact .answered here (by assumption)
    · exact .unanswered here (by assumption)
  case callTimeout request deadline =>
    split at taken <;> cases taken
    · exact .late here
    · exact .early here
  all_goals subst taken
  case sendWake => exact .sendWoke here
  case replyWake => exact .replyWoke here
  case callWake => exact .callWoke here
  case callDeadline => exact .started here
  case callExpire => exact .expired here
  case callBlock => exact .waited here

inductive Stepped (s : State) : Action → State → Prop
  | tick : Stepped s .tick { s with ticks := s.ticks + 1 }
  | create {t} (free : s.Free t) : Stepped s (.create t)
    { s.setEndpoint s.nextEp {} with nextEp := s.nextEp + 1 }
  | send {t ep message} (free : s.Free t) : Stepped s (.send t ep message) (s.send t ep message)
  | receive {t ep} (free : s.Free t) : Stepped s (.receive t ep) (s.goto t (.receivePop ep))
  | call {t ep message} (free : s.Free t) : Stepped s (.call t ep message) (s.call t ep message)
  | reply {t position message original} (free : s.Free t) (found : (s.held t)[position]? = some original)
      (waiting : (s.replies original.message.sender).isSome) :
      Stepped s (.reply t position message)
        ((s.setSlot original.message.sender (some (.reply original.serial { message with sender := t }))).goto t
          (.replyWake original.message.sender))
  | unheard {t position message} (free : s.Free t) : Stepped s (.reply t position message) s
  | discard {t position} (free : s.Free t) :
      Stepped s (.discard t position) { s with held := Function.update s.held t ((s.held t).eraseIdx position) }
  | exit {t} (free : s.Free t) :
      Stepped s (.exit t) { s.removeSlot t with status := Function.update s.status t .dead }
  | kill {t victim} (free : s.Free t) (other : victim ≠ t) :
      Stepped s (.kill t victim) { s with status := Function.update s.status victim .dead }
  | advance {t s'} (ready : s.status t = .ready) (moved : Advanced s t s') : Stepped s (.advance t) s'

theorem stepped {s s' : State} {a : Action} (taken : step s a = some s') : Stepped s a s' := by
  cases a <;> simp only [step, Option.some.injEq, Option.ite_none_right_eq_some, Option.map_eq_some_iff]
    at taken
  case tick =>
    subst taken
    exact .tick
  case reply t position message =>
    obtain ⟨free, original, found, rfl⟩ := taken
    by_cases waiting : (s.replies original.message.sender).isSome
    · simp only [State.reply, waiting, if_true]
      exact .reply free found waiting
    · simp only [State.reply, waiting]
      exact .unheard free
  case kill =>
    obtain ⟨⟨free, other, _⟩, rfl⟩ := taken
    exact .kill free other
  case advance => exact .advance taken.1 (advanced taken.2)
  all_goals obtain ⟨free, rfl⟩ := taken
  case create => exact .create free
  case send => exact .send free
  case receive => exact .receive free
  case call => exact .call free
  case discard => exact .discard free
  case exit => exact .exit free

end PickleOS.Ipc
