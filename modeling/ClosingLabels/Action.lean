import ClosingLabels.Event

/-!
# Actions

An action works on a state, may fail, and leaves a trace. A failing action keeps
both the state it reached and the trace it left, so what happened before the
failure is never lost. `zoom` runs an action on one part of a larger state.
-/

namespace ClosingLabels

/-- What running an action gives: a value or a fault, the state reached and the
events on the way. -/
structure Outcome (σ α : Type) where
  result : Except Fault α
  state : σ
  trace : List Event

/-- An action on states of type `σ` that gives an `α` or fails. -/
def Action (σ α : Type) : Type := σ → Outcome σ α

/-- A part of a state that can be read and replaced on its own. -/
structure Lens (σ τ : Type) where
  get : σ → τ
  set : τ → σ → σ
  get_set : ∀ t s, get (set t s) = t := by intros; rfl
  set_get : ∀ s, set (get s) s = s := by intros; rfl
  set_set : ∀ t u s, set t (set u s) = set t s := by intros; rfl

namespace Lens

variable {σ τ υ : Type}

/-- The whole state as a part of itself. -/
def whole : Lens σ σ where
  get s := s
  set t _ := t

/-- A part of a part. -/
def comp (outer : Lens σ τ) (inner : Lens τ υ) : Lens σ υ where
  get s := inner.get (outer.get s)
  set u s := outer.set (inner.set u (outer.get s)) s
  get_set u s := by simp [outer.get_set, inner.get_set]
  set_get s := by simp [outer.set_get, inner.set_get]
  set_set t u s := by simp [outer.get_set, outer.set_set, inner.set_set]

end Lens

namespace Action

variable {σ τ α β : Type}

/-- Gives a value and does nothing. -/
protected def pure (a : α) : Action σ α := fun s => ⟨.ok a, s, []⟩

/-- Runs one action and then, unless it failed, the next. -/
protected def bind (x : Action σ α) (f : α → Action σ β) : Action σ β := fun s =>
  match x s with
  | ⟨.ok a, s, trace⟩ =>
    let next := f a s
    ⟨next.result, next.state, trace ++ next.trace⟩
  | ⟨.error fault, s, trace⟩ => ⟨.error fault, s, trace⟩

instance : Monad (Action σ) where
  pure := Action.pure
  bind := Action.bind

/-- What one action after another does to a state. -/
theorem bind_apply (x : Action σ α) (f : α → Action σ β) (s : σ) :
    (x >>= f) s = match x s with
      | ⟨.ok a, s, trace⟩ => ⟨(f a s).result, (f a s).state, trace ++ (f a s).trace⟩
      | ⟨.error fault, s, trace⟩ => ⟨.error fault, s, trace⟩ := rfl

/-- Doing nothing changes nothing, and actions in a row can be grouped at will. -/
instance : LawfulMonad (Action σ) :=
  LawfulMonad.mk' (Action σ)
    (fun x => by
      funext s
      change (x >>= fun a => pure (id a)) s = x s
      rw [bind_apply]
      obtain ⟨result, state, trace⟩ := x s
      cases result <;> simp [pure, Action.pure])
    (fun a f => by
      funext s
      rw [bind_apply]
      simp [pure, Action.pure])
    (fun x f g => by
      funext s
      simp only [bind_apply]
      rcases hx : x s with ⟨_ | a, t, trace⟩
      · rfl
      · dsimp only
        rcases hf : f a t with ⟨_ | b, u, trace'⟩
        · simp
        · simp [List.append_assoc])

/-- Fails. -/
def fail (fault : Fault) : Action σ α := fun s => ⟨.error fault, s, []⟩

/-- Records an event. -/
def emit (event : Event) : Action σ Unit := fun s => ⟨.ok (), s, [event]⟩

/-- Writes a notice to the console. -/
def log (notice : Notice) : Action σ Unit := emit (.log notice)

/-- Writes a warning to the console. -/
def warn (warning : Warning) : Action σ Unit := emit (.warn warning)

/-- Writes a failure and its cause to the console. -/
def report (failure : Failure) (cause : Fault) : Action σ Unit := emit (.error failure (some cause))

/-- The state. -/
def get : Action σ σ := fun s => ⟨.ok s, s, []⟩

/-- A function of the state. -/
def gets (f : σ → α) : Action σ α := fun s => ⟨.ok (f s), s, []⟩

/-- Replaces the state. -/
def set (s : σ) : Action σ Unit := fun _ => ⟨.ok (), s, []⟩

/-- Changes the state. -/
def modify (f : σ → σ) : Action σ Unit := fun s => ⟨.ok (), f s, []⟩

/-- Gives a value or fails. -/
def ofExcept (x : Except Fault α) : Action σ α := fun s => ⟨x, s, []⟩

/-- Gives a value, or fails when there is none. -/
def ofOption (x : Option α) (fault : Fault) : Action σ α :=
  match x with
  | some a => pure a
  | none => fail fault

/-- Runs an action and gives its result, be it a value or a fault. Never fails. -/
def attempt (x : Action σ α) : Action σ (Except Fault α) := fun s =>
  let done := x s
  ⟨.ok done.result, done.state, done.trace⟩

/-- Runs an action and, if it failed, the handler. -/
def rescue (x : Action σ α) (handle : Fault → Action σ α) : Action σ α := do
  match ← attempt x with
  | .ok a => pure a
  | .error fault => handle fault

/-- Runs an action and then, whether it failed or not, a second one. A fault of the
second hides one of the first. -/
def ensure (x : Action σ α) (after : Action σ Unit) : Action σ α := do
  let result ← attempt x
  after
  ofExcept result

/-- Runs an action for every item, in order, until one fails. -/
def each : List β → (β → Action σ Unit) → Action σ Unit
  | [], _ => pure ()
  | b :: rest, f => do
    f b
    each rest f

/-- Runs an action on a part of the state. -/
def zoom (part : Lens σ τ) (x : Action τ α) : Action σ α := fun s =>
  let done := x (part.get s)
  ⟨done.result, part.set done.state s, done.trace⟩

/-- The state of a part. -/
def look (part : Lens σ τ) : Action σ τ := gets part.get

/-- Changes a part of the state. -/
def adjust (part : Lens σ τ) (f : τ → τ) : Action σ Unit :=
  modify fun s => part.set (f (part.get s)) s

/-- Performs steps one after another. A step that fails does not keep the next ones from
being performed. -/
def script (perform : β → Action σ α) : σ → List β → List (Outcome σ α)
  | _, [] => []
  | s, step :: rest =>
    let done := perform step s
    done :: script perform done.state rest

end Action

end ClosingLabels
