import Mathlib.Data.List.Basic

set_option autoImplicit false

namespace Shared.Checked

variable {ε σ α β : Type} {P Q : α → Prop}

/-- The computation gets to its end, with a value of which `P` holds. -/
def Yields (m : Except ε α) (P : α → Prop) : Prop := ∃ value, m = .ok value ∧ P value

theorem Yields.ok {value : α} (holds : P value) : Yields (.ok value : Except ε α) P := ⟨value, rfl, holds⟩

theorem Yields.imp {m : Except ε α} (yields : Yields m P) (weaker : ∀ value, P value → Q value) :
    Yields m Q := by
  obtain ⟨value, result, holds⟩ := yields
  exact ⟨value, result, weaker value holds⟩

theorem Yields.bind {m : Except ε α} {f : α → Except ε β} {R : β → Prop} (first : Yields m P)
    (next : ∀ value, P value → Yields (f value) R) : Yields (m >>= f) R := by
  obtain ⟨value, rfl, holds⟩ := first
  exact next value holds

theorem Yields.map {m : Except ε α} {f : α → β} {R : β → Prop} (yields : Yields m fun value => R (f value)) :
    Yields (m.map f) R := by
  obtain ⟨value, rfl, holds⟩ := yields
  exact .ok holds

theorem bind_ok {m : Except ε α} {f : α → Except ε β} {result : β} (done : m >>= f = .ok result) :
    ∃ value, m = .ok value ∧ f value = .ok result := by
  cases m with
  | error => cases done
  | ok value => exact ⟨value, rfl, done⟩

theorem bind_error {m : Except ε α} {f : α → Except ε β} {stop : ε} (failed : m >>= f = .error stop) :
    m = .error stop ∨ ∃ value, m = .ok value ∧ f value = .error stop := by
  cases m with
  | error =>
    cases failed
    exact .inl rfl
  | ok value => exact .inr ⟨value, rfl, failed⟩

theorem bind_ne_error {m : Except ε α} {f : α → Except ε β} {stop : ε} (first : m ≠ .error stop)
    (next : ∀ value, m = .ok value → f value ≠ .error stop) : m >>= f ≠ .error stop := by
  cases m with
  | error other => exact fun failed => first (by cases failed; rfl)
  | ok value => exact next value rfl

theorem Yields.foldlM {f : σ → α → Except ε σ} {Inv : σ → Prop} (xs : List α)
    (body : ∀ s a, a ∈ xs → Inv s → Yields (f s a) Inv) {start : σ} (initial : Inv start) :
    Yields (xs.foldlM f start) Inv := by
  induction xs generalizing start with
  | nil => exact .ok initial
  | cons a rest ih =>
    rw [List.foldlM_cons]
    refine (body start a (.head _) initial).bind fun next kept => ?_
    exact ih (fun s b member => body s b (.tail _ member)) kept

theorem Yields.foldlM_foldl {τ : Type} {f : σ → α → Except ε σ} {g : τ → α → τ}
    {R : τ → σ → Prop} (xs : List α)
    (body : ∀ r s a, a ∈ xs → R r s → Yields (f s a) (R (g r a))) {r : τ} {s : σ} (initial : R r s) :
    Yields (xs.foldlM f s) (R (xs.foldl g r)) := by
  induction xs generalizing r s with
  | nil => exact .ok initial
  | cons a rest ih =>
    rw [List.foldlM_cons]
    refine (body r s a (.head _) initial).bind fun next kept => ?_
    exact ih (fun r s b member => body r s b (.tail _ member)) kept

theorem Yields.and {m : Except ε α} (first : Yields m P) (second : Yields m Q) :
    Yields m fun value => P value ∧ Q value := by
  obtain ⟨value, rfl, holds⟩ := first
  obtain ⟨_, same, also⟩ := second
  cases same
  exact .ok ⟨holds, also⟩

theorem Yields.mapM {f : α → Except ε β} (xs : List α) (each : ∀ a, a ∈ xs → Yields (f a) fun _ => True) :
    Yields (xs.mapM f) fun _ => True := by
  induction xs with
  | nil => exact .ok trivial
  | cons a rest ih =>
    rw [List.mapM_cons]
    refine (each a (.head _)).bind fun _ _ => ?_
    refine (ih fun b member => each b (.tail _ member)).bind fun _ _ => ?_
    exact .ok trivial

theorem mapM_ok {f : α → Except ε β} {g : α → β} (xs : List α) (each : ∀ a, a ∈ xs → f a = .ok (g a)) :
    xs.mapM f = .ok (xs.map g) := by
  induction xs with
  | nil => rfl
  | cons a rest ih =>
    rw [List.mapM_cons, each a (.head _), ih fun b member => each b (.tail _ member)]
    rfl

theorem mapM_congr {f g : α → Except ε β} (xs : List α) (same : ∀ a, a ∈ xs → f a = g a) :
    xs.mapM f = xs.mapM g := by
  induction xs with
  | nil => rfl
  | cons a rest ih =>
    rw [List.mapM_cons, List.mapM_cons, same a (.head _), ih fun b member => same b (.tail _ member)]

theorem mem_of_mapM {f : α → Except ε β} {xs : List α} {ys : List β} (done : xs.mapM f = .ok ys)
    {y : β} (member : y ∈ ys) :
    ∃ a ∈ xs, f a = .ok y := by
  induction xs generalizing ys with
  | nil =>
    cases done
    cases member
  | cons a rest ih =>
    rw [List.mapM_cons] at done
    obtain ⟨first, here, done⟩ := bind_ok done
    obtain ⟨others, there, done⟩ := bind_ok done
    cases done
    rcases List.mem_cons.mp member with rfl | later
    · exact ⟨a, .head _, here⟩
    · obtain ⟨b, listed, found⟩ := ih there later
      exact ⟨b, .tail _ listed, found⟩

/-- An indexed read that stops outside the list. -/
def elemAt (stop : ε) (xs : List α) (i : Nat) : Except ε α :=
  match xs[i]? with
  | some value => .ok value
  | none => .error stop

theorem elemAt_eq_ok {stop : ε} {xs : List α} {i : Nat} {value : α} :
    elemAt stop xs i = .ok value ↔ xs[i]? = some value := by
  unfold elemAt
  cases xs[i]? <;> simp

theorem yields_elemAt {stop : ε} {xs : List α} {i : Nat} (inside : i < xs.length) :
    Yields (elemAt stop xs i) fun _ => True := by
  unfold elemAt
  rw [List.getElem?_eq_getElem inside]
  exact .ok trivial

/-- `Vec::insert`. -/
def insertAt (stop : ε) (xs : List α) (i : Nat) (x : α) : Except ε (List α) :=
  if i ≤ xs.length then .ok (xs.insertIdx i x) else .error stop

/-- `Vec::remove`, with the list that is left. -/
def removeAt (stop : ε) (xs : List α) (i : Nat) : Except ε (α × List α) :=
  match xs[i]? with
  | some x => .ok (x, xs.eraseIdx i)
  | none => .error stop

theorem removeAt_eq (stop : ε) {xs : List α} {i : Nat} (inside : i < xs.length) :
    removeAt stop xs i = .ok (xs[i], xs.eraseIdx i) := by
  rw [removeAt, List.getElem?_eq_getElem inside]

def value (stop : ε) : Option α → Except ε α
  | some x => .ok x
  | none => .error stop

theorem value_eq_ok {stop : ε} {o : Option α} {x : α} : value stop o = .ok x ↔ o = some x := by
  cases o <;> simp [value]

end Shared.Checked
