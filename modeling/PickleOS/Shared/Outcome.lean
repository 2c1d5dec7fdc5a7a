import Mathlib.Logic.Basic

set_option autoImplicit false

namespace Shared.Outcome

variable {ε ε' σ α β : Type}

/-- Where a computation ends: `returns` for a value, `fails` for an exception. Both see the state
that is left behind, since an exception does not undo what was done before it. -/
def Ends (m : EStateM ε σ α) (start : σ) (returns : α → σ → Prop) (fails : ε → σ → Prop) : Prop :=
  match m start with
  | .ok value last => returns value last
  | .error reason last => fails reason last

theorem Ends.of_ok {m : EStateM ε σ α} {start last : σ} {value : α} {returns : α → σ → Prop}
    {fails : ε → σ → Prop} (ends : Ends m start returns fails) (result : m start = .ok value last) :
    returns value last := by
  simpa only [Ends, result] using ends

theorem Ends.of_error {m : EStateM ε σ α} {start last : σ} {reason : ε} {returns : α → σ → Prop}
    {fails : ε → σ → Prop} (ends : Ends m start returns fails) (result : m start = .error reason last) :
    fails reason last := by
  simpa only [Ends, result] using ends

theorem Ends.imp {m : EStateM ε σ α} {start : σ} {returns returns' : α → σ → Prop}
    {fails fails' : ε → σ → Prop} (ends : Ends m start returns fails)
    (ok : ∀ value last, returns value last → returns' value last)
    (error : ∀ reason last, fails reason last → fails' reason last) :
    Ends m start returns' fails' := by
  unfold Ends at *
  split <;> simp_all

theorem Ends.ok_of_never {m : EStateM ε σ α} {start : σ} {returns : α → σ → Prop}
    (ends : Ends m start returns fun _ _ => False) : ∃ value last, m start = .ok value last ∧
      returns value last := by
  unfold Ends at ends
  split at ends
  next value last result => exact ⟨value, last, result, ends⟩
  next => exact ends.elim

theorem Ends.error_of_never {m : EStateM ε σ α} {start : σ} {fails : ε → σ → Prop}
    (ends : Ends m start (fun _ _ => False) fails) : ∃ reason last, m start = .error reason last ∧
      fails reason last := by
  unfold Ends at ends
  split at ends
  next => exact ends.elim
  next reason last result => exact ⟨reason, last, result, ends⟩

theorem Ends.self (m : EStateM ε σ α) (start : σ) :
    Ends m start (fun value last => m start = .ok value last) fun reason last =>
      m start = .error reason last := by
  unfold Ends
  cases m start <;> rfl

def final (m : EStateM ε σ α) (start : σ) : σ :=
  match m start with
  | .ok _ last => last
  | .error _ last => last

theorem Ends.final {m : EStateM ε σ α} {start : σ} {P : σ → Prop}
    (ends : Ends m start (fun _ last => P last) fun _ last => P last) : P (final m start) := by
  unfold Ends at ends
  unfold Outcome.final
  split at ends <;> simp_all

def succeeds (m : EStateM ε σ α) (start : σ) : Bool :=
  match m start with
  | .ok _ _ => true
  | .error _ _ => false

theorem exists_ok_of_succeeds {m : EStateM ε σ α} {start : σ} (success : succeeds m start = true) :
    ∃ value, m start = .ok value (final m start) := by
  unfold succeeds at success
  unfold final
  split at success
  next value last result => exact ⟨value, by rw [result]⟩
  next => simp at success

theorem ok_of_succeeds {m : EStateM ε σ Unit} {start : σ} (success : succeeds m start = true) :
    m start = .ok () (final m start) := by
  obtain ⟨_, result⟩ := exists_ok_of_succeeds success
  exact result

theorem error_of_fails {m : EStateM ε σ α} {start : σ} (failure : succeeds m start = false) :
    ∃ reason, m start = .error reason (final m start) := by
  unfold succeeds at failure
  unfold final
  split at failure
  next => simp at failure
  next reason last result => exact ⟨reason, by rw [result]⟩

def reason (m : EStateM ε σ α) (start : σ) : Option ε :=
  match m start with
  | .ok _ _ => none
  | .error reason _ => some reason

theorem error_of_reason {m : EStateM ε σ α} {start : σ} {failure : ε} (failed : reason m start = some failure) :
    m start = .error failure (final m start) := by
  unfold reason at failed
  unfold final
  split at failed
  next => cases failed
  next reason last result =>
    cases failed
    rw [result]

def returned (m : EStateM ε σ α) (start : σ) : Option α :=
  match m start with
  | .ok value _ => some value
  | .error .. => none

theorem ok_of_returned {m : EStateM ε σ α} {start : σ} {value : α} (done : returned m start = some value) :
    m start = .ok value (final m start) := by
  unfold returned at done
  unfold final
  split at done
  next result =>
    cases done
    rw [result]
  next => cases done

theorem Ends.and {m : EStateM ε σ α} {start : σ} {returns returns' : α → σ → Prop}
    {fails fails' : ε → σ → Prop} (left : Ends m start returns fails)
    (right : Ends m start returns' fails') :
    Ends m start (fun value last => returns value last ∧ returns' value last)
      (fun reason last => fails reason last ∧ fails' reason last) := by
  unfold Ends at *
  split <;> simp_all

section Rules

variable (start : σ) (returns : β → σ → Prop) (fails : ε → σ → Prop)

@[simp] theorem ends_bind (m : EStateM ε σ α) (f : α → EStateM ε σ β) :
    Ends (m >>= f) start returns fails ↔
      Ends m start (fun value last => Ends (f value) last returns fails) fails := by
  simp only [Ends, bind, EStateM.bind]
  cases m start <;> rfl

@[simp] theorem ends_pure (value : β) :
    Ends (pure value) start returns fails ↔ returns value start := Iff.rfl

@[simp] theorem ends_throw (reason : ε) :
    Ends (throw reason) start returns fails ↔ fails reason start := Iff.rfl

@[simp] theorem ends_get (returns : σ → σ → Prop) :
    Ends get start returns fails ↔ returns start start := Iff.rfl

@[simp] theorem ends_modify (f : σ → σ) (returns : PUnit → σ → Prop) :
    Ends (modify f) start returns fails ↔ returns ⟨⟩ (f start) := Iff.rfl

end Rules

theorem bind_returned {m : EStateM ε σ α} {f : α → EStateM ε σ β} {start last : σ} {value : β}
    (done : (m >>= f) start = .ok value last) : ∃ between middle, m start = .ok between middle ∧
      f between middle = .ok value last := by
  simp only [Bind.bind, EStateM.bind] at done
  split at done
  next between middle first => exact ⟨between, middle, first, done⟩
  next => cases done

theorem get_apply (start : σ) : (get : EStateM ε σ σ) start = .ok start start := rfl

theorem set_apply (state start : σ) : (set state : EStateM ε σ PUnit) start = .ok ⟨⟩ state := rfl

theorem throw_apply (reason : ε) (start : σ) : (throw reason : EStateM ε σ α) start = .error reason start := rfl

theorem Ends.bind {m : EStateM ε σ α} {f : α → EStateM ε σ β} {start : σ} {between : α → σ → Prop}
    {returns : β → σ → Prop} {fails : ε → σ → Prop} (first : Ends m start between fails)
    (next : ∀ value middle, between value middle → Ends (f value) middle returns fails) :
    Ends (m >>= f) start returns fails :=
  (ends_bind start returns fails m f).mpr (first.imp next fun _ _ failed => failed)

theorem Ends.of_never {m : EStateM ε σ α} {start : σ} {returns : α → σ → Prop} {fails : ε → σ → Prop}
    (ends : Ends m start returns fun _ _ => False) : Ends m start returns fails :=
  ends.imp (fun _ _ returned => returned) fun _ _ never => never.elim

/-- A reader of the state, run as a computation that leaves the state alone. -/
def observe (f : σ → Except ε α) : EStateM ε σ α := fun start =>
  match f start with
  | .ok value => .ok value start
  | .error reason => .error reason start

@[simp] theorem ends_observe (f : σ → Except ε α) (start : σ) (returns : α → σ → Prop)
    (fails : ε → σ → Prop) :
    Ends (observe f) start returns fails ↔
      match f start with
      | .ok value => returns value start
      | .error reason => fails reason start := by
  simp only [Ends, observe]
  cases f start <;> rfl

/-- Run `m` and hand its exception, if `handles` accepts it, to the caller as a value. -/
def attempt (handles : ε → Option ε') (m : EStateM ε σ α) : EStateM ε σ (Except ε' α) := fun start =>
  match m start with
  | .ok value last => .ok (.ok value) last
  | .error reason last =>
    match handles reason with
    | some handled => .ok (.error handled) last
    | none => .error reason last

@[simp] theorem ends_attempt (handles : ε → Option ε') (m : EStateM ε σ α) (start : σ)
    (returns : Except ε' α → σ → Prop) (fails : ε → σ → Prop) :
    Ends (attempt handles m) start returns fails ↔
      Ends m start (fun value last => returns (.ok value) last)
        (fun reason last =>
          match handles reason with
          | some handled => returns (.error handled) last
          | none => fails reason last) := by
  simp only [Ends, attempt]
  cases m start with
  | ok value last => rfl
  | error reason last =>
    dsimp only
    cases handles reason <;> rfl

end Shared.Outcome
