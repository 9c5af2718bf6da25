import Mathlib.Order.Defs.Unbundled
import Mathlib.Tactic.Common

/-!
# Stateful calls that fail and panic

A call reads and changes a state and ends in one of three ways: it returns a
value, it returns an error, or it panics.  What it did to the state before it
failed stays done: there is no rollback.  `Action` is the type of such calls,
`attempt` is the caller's `match` on a returned error, and a panic passes
through every `attempt`.

Two rules carry the proofs about programs written with `Action`.

* `Action.Respects R call`: the call moves the state along the preorder `R`.
  It is closed under sequencing, so a frame condition ("this row is still
  there") is checked once for each primitive call and nowhere else.
* `Action.bind_eq_ok`, `bind_of_ok` and their companions: which way a sequence
  ended says which way its parts ended.
-/

namespace Effects

universe u

/-- How a call ends. -/
inductive Outcome (ε α : Type u) where
  | ok (value : α)
  | err (error : ε)
  | panic (message : ε)
  deriving DecidableEq, Repr

/-- A call on a state of type `σ`. -/
structure Action (σ ε α : Type u) where
  run : σ → Outcome ε α × σ

namespace Action

variable {σ ε α β : Type u}

instance : CoeFun (Action σ ε α) fun _ => σ → Outcome ε α × σ := ⟨Action.run⟩

instance : Monad (Action σ ε) where
  pure value := ⟨fun state => (.ok value, state)⟩
  bind call next := ⟨fun state =>
    match call state with
    | (.ok value, after) => next value after
    | (.err error, after) => (.err error, after)
    | (.panic message, after) => (.panic message, after)⟩

/-- Return an error. -/
def fail (error : ε) : Action σ ε α := ⟨fun state => (.err error, state)⟩

/-- Unwind. -/
def abort (message : ε) : Action σ ε α := ⟨fun state => (.panic message, state)⟩

/-- The current state. -/
def read : Action σ ε σ := ⟨fun state => (.ok state, state)⟩

/-- Return what a `Result` holds. -/
def ofExcept : Except ε α → Action σ ε α
  | .ok value => pure value
  | .error error => fail error

/-- `match call { Ok(..) => .., Err(..) => .. }`: a returned error becomes a
value, a panic does not. -/
def attempt (call : Action σ ε α) : Action σ ε (Except ε α) := ⟨fun state =>
  match call state with
  | (.ok value, after) => (.ok (.ok value), after)
  | (.err error, after) => (.ok (.error error), after)
  | (.panic message, after) => (.panic message, after)⟩

/-- `call.unwrap()`: a returned error is a panic. -/
def unwrap (message : ε) (call : Action σ ε α) : Action σ ε α := ⟨fun state =>
  match call state with
  | (.ok value, after) => (.ok value, after)
  | (.err _, after) => (.panic message, after)
  | (.panic text, after) => (.panic text, after)⟩

/-! ## Running a sequence -/

@[simp] theorem pure_apply (value : α) (state : σ) :
    (pure value : Action σ ε α) state = (.ok value, state) := rfl

@[simp] theorem fail_apply (error : ε) (state : σ) :
    (fail error : Action σ ε α) state = (.err error, state) := rfl

theorem bind_apply (call : Action σ ε α) (next : α → Action σ ε β) (state : σ) :
    (call >>= next) state =
      match call state with
      | (.ok value, after) => next value after
      | (.err error, after) => (.err error, after)
      | (.panic message, after) => (.panic message, after) := rfl

theorem bind_of_ok {call : Action σ ε α} {state after : σ} {value : α}
    (hcall : call state = (.ok value, after)) (next : α → Action σ ε β) :
    (call >>= next) state = next value after := by
  simp [bind_apply, hcall]

theorem bind_of_err {call : Action σ ε α} {state after : σ} {error : ε}
    (hcall : call state = (.err error, after)) (next : α → Action σ ε β) :
    (call >>= next) state = (.err error, after) := by
  simp [bind_apply, hcall]

theorem bind_of_panic {call : Action σ ε α} {state after : σ} {message : ε}
    (hcall : call state = (.panic message, after)) (next : α → Action σ ε β) :
    (call >>= next) state = (.panic message, after) := by
  simp [bind_apply, hcall]

theorem bind_assoc {γ : Type u} (call : Action σ ε α) (next : α → Action σ ε β)
    (last : β → Action σ ε γ) :
    (call >>= next) >>= last = call >>= fun value => next value >>= last := by
  apply congrArg Action.mk
  funext state
  rw [bind_apply]
  cases call state with
  | mk outcome between =>
      cases outcome with
      | ok value => rfl
      | err error => rfl
      | panic message => rfl

theorem unwrap_of_ok {message : ε} {call : Action σ ε α} {state after : σ} {value : α}
    (hcall : call state = (.ok value, after)) :
    unwrap message call state = (.ok value, after) := by
  simp [unwrap, hcall]

theorem unwrap_of_err {message error : ε} {call : Action σ ε α} {state after : σ}
    (hcall : call state = (.err error, after)) :
    unwrap message call state = (.panic message, after) := by
  simp [unwrap, hcall]

theorem unwrap_of_panic {message text : ε} {call : Action σ ε α} {state after : σ}
    (hcall : call state = (.panic text, after)) :
    unwrap message call state = (.panic text, after) := by
  simp [unwrap, hcall]

/-- A sequence that returned a value ran both of its parts to the end. -/
theorem bind_eq_ok {call : Action σ ε α} {next : α → Action σ ε β} {state after : σ} {value : β}
    (hrun : (call >>= next) state = (.ok value, after)) :
    ∃ first between, call state = (.ok first, between) ∧
      next first between = (.ok value, after) := by
  rw [bind_apply] at hrun
  split at hrun
  · exact ⟨_, _, ‹_›, hrun⟩
  · simp at hrun
  · simp at hrun

theorem attempt_eq_ok {call : Action σ ε α} {state after : σ} {value : α}
    (hrun : attempt call state = (.ok (.ok value), after)) : call state = (.ok value, after) := by
  simp only [attempt] at hrun
  split at hrun <;> simp_all

/-! ## Calls that move the state along a preorder -/

/-- Whatever way the call ends, it moves the state along `R`. -/
def Respects (R : σ → σ → Prop) (call : Action σ ε α) : Prop :=
  ∀ state, R state (call state).2

variable {R : σ → σ → Prop}

theorem Respects.pure [Std.Refl R] (value : α) : Respects R (pure value : Action σ ε α) :=
  fun state => Std.Refl.refl state

theorem Respects.fail [Std.Refl R] (error : ε) : Respects R (fail error : Action σ ε α) :=
  fun state => Std.Refl.refl state

theorem Respects.abort [Std.Refl R] (message : ε) : Respects R (abort message : Action σ ε α) :=
  fun state => Std.Refl.refl state

theorem Respects.bind [IsTrans σ R] {call : Action σ ε α} {next : α → Action σ ε β}
    (hcall : Respects R call) (hnext : ∀ value, Respects R (next value)) :
    Respects R (call >>= next) := by
  intro state
  have hfirst := hcall state
  rw [bind_apply]
  split
  · rename_i value after heq
    rw [heq] at hfirst
    exact IsTrans.trans _ _ _ hfirst (hnext value after)
  · simp_all
  · simp_all

/-- What follows a call and only reads leaves the state as the call left it. -/
theorem bind_state {call : Action σ ε α} {next : α → Action σ ε β}
    (hnext : ∀ value, Respects Eq (next value)) (state : σ) :
    ((call >>= next) state).2 = (call state).2 := by
  rw [bind_apply]
  split
  · rename_i value after heq
    rw [heq, ← hnext value after]
  · simp_all
  · simp_all

@[simp] theorem attempt_state (call : Action σ ε α) (state : σ) :
    (attempt call state).2 = (call state).2 := by
  simp only [attempt]
  split <;> simp_all

/-! ## Calls that return -/

/-- The call does not unwind, and it moves the state along `R`. -/
def Returns (R : σ → σ → Prop) (call : Action σ ε α) : Prop :=
  ∀ state, R state (call state).2 ∧ ∀ message, (call state).1 ≠ .panic message

theorem Returns.pure [Std.Refl R] (value : α) : Returns R (pure value : Action σ ε α) := by
  intro state
  exact ⟨Std.Refl.refl state, by simp⟩

theorem Returns.fail [Std.Refl R] (error : ε) : Returns R (fail error : Action σ ε α) := by
  intro state
  exact ⟨Std.Refl.refl state, by simp⟩

theorem Returns.ofExcept [Std.Refl R] (result : Except ε α) :
    Returns R (ofExcept result : Action σ ε α) := by
  cases result with
  | ok value => exact Returns.pure value
  | error error => exact Returns.fail error

theorem Returns.bind [IsTrans σ R] {call : Action σ ε α} {next : α → Action σ ε β}
    (hcall : Returns R call) (hnext : ∀ value, Returns R (next value)) :
    Returns R (call >>= next) := by
  intro state
  obtain ⟨hfirst, hpanic⟩ := hcall state
  rw [bind_apply]
  split
  · rename_i value after heq
    rw [heq] at hfirst
    exact ⟨IsTrans.trans _ _ _ hfirst (hnext value after).1, (hnext value after).2⟩
  · simp_all
  · simp_all

/-- A call that returns has a value or an error to return. -/
theorem Returns.cases {call : Action σ ε α} (hcall : Returns R call) (state : σ) :
    (∃ value, call state = (.ok value, (call state).2)) ∨
      ∃ error, call state = (.err error, (call state).2) := by
  have hpanic := (hcall state).2
  match hrun : call state with
  | (.ok value, after) => exact .inl ⟨value, by simp⟩
  | (.err error, after) => exact .inr ⟨error, by simp⟩
  | (.panic message, after) => simp [hrun] at hpanic

/-- A reading call that returns has nothing else to do. -/
theorem Returns.cases_eq {call : Action σ ε α} (hcall : Returns Eq call) (state : σ) :
    (∃ value, call state = (.ok value, state)) ∨ ∃ error, call state = (.err error, state) := by
  have hstate := (hcall state).1.symm
  have hcases := hcall.cases state
  rwa [hstate] at hcases

/-! ## Calls that unwind -/

/-- The call unwinds. -/
def Panics (call : Action σ ε α) (state : σ) : Prop := ∃ message, (call state).1 = .panic message

@[simp] theorem not_panics_pure (value : α) (state : σ) :
    ¬ Panics (pure value : Action σ ε α) state := by
  simp [Panics]

@[simp] theorem not_panics_fail (error : ε) (state : σ) :
    ¬ Panics (fail error : Action σ ε α) state := by
  simp [Panics]

@[simp] theorem panics_abort (message : ε) (state : σ) :
    Panics (abort message : Action σ ε α) state :=
  ⟨message, rfl⟩

@[simp] theorem panics_attempt {call : Action σ ε α} {state : σ} :
    Panics (attempt call) state ↔ Panics call state := by
  simp only [Panics, attempt]
  split <;> simp_all

theorem not_panics_read_bind {next : σ → Action σ ε α} {state : σ} :
    ¬ Panics (read >>= next) state ↔ ¬ Panics (next state) state := Iff.rfl

theorem Returns.not_panics {call : Action σ ε α} (hcall : Returns R call) (state : σ) :
    ¬ Panics call state := by
  intro hunwinds
  obtain ⟨message, hpanic⟩ := hunwinds
  exact (hcall state).2 message hpanic

/-- A sequence unwinds in its first part, or in what comes after the value that the
first part returned. -/
theorem not_panics_bind {call : Action σ ε α} {next : α → Action σ ε β} {state : σ} :
    ¬ Panics (call >>= next) state ↔ ¬ Panics call state ∧
      ∀ value after, call state = (.ok value, after) → ¬ Panics (next value) after := by
  unfold Panics
  rw [bind_apply]
  cases hcall : call state with
  | mk outcome between =>
      cases outcome with
      | ok value => simp
      | err error => simp
      | panic message => simp

theorem Panics.bind {call : Action σ ε α} {state : σ} (hcall : Panics call state)
    (next : α → Action σ ε β) : Panics (call >>= next) state := by
  by_contra hreturns
  exact (not_panics_bind.mp hreturns).1 hcall

theorem Panics.bind_ne_ok {call : Action σ ε α} {next : α → Action σ ε β} {state after : σ}
    {value : β} (hcall : Panics call state) : (call >>= next) state ≠ (.ok value, after) := by
  intro hrun
  obtain ⟨first, between, hfirst, -⟩ := bind_eq_ok hrun
  obtain ⟨message, hmessage⟩ := hcall
  rw [hfirst] at hmessage
  cases hmessage

end Action
end Effects
