import Tolla.Engine.Lock

/-!
# Behind a poisoned lock

All handlers reach the engine through `locked`, and do nothing else to the service.  So a
request that unwinds leaves the lock poisoned, and a poisoned lock lets nothing happen any
more.  Both are closed under sequencing (`Guarded`) and therefore hold of every request.

What is left are the requests that are answered before the lock is asked for.
-/

namespace Tolla

open Effects

variable {α β : Type} {env : Env} {request : Request} {service : Service}

theorem healthy_of_locked {call : Engine α} {after : Service} {value : α}
    (hrun : locked call service = (.ok value, after)) : service.poisoned = false := by
  cases hpoisoned : service.poisoned with
  | false => rfl
  | true => simp [locked, hpoisoned] at hrun

/-- The call does nothing behind a poisoned lock, and poisons it when it unwinds. -/
structure Guarded (call : Action Service String α) : Prop where
  stuck : ∀ service, service.poisoned = true → (call service).2 = service
  poisons : ∀ service, Action.Panics call service → (call service).2.poisoned = true

theorem Guarded.pure (value : α) : Guarded (pure value : Action Service String α) where
  stuck _ _ := rfl
  poisons service hpanics := absurd hpanics (Action.not_panics_pure value service)

theorem Guarded.bind {call : Action Service String α} {next : α → Action Service String β}
    (hcall : Guarded call) (hnext : ∀ value, Guarded (next value)) : Guarded (call >>= next) where
  stuck service hpoisoned := by
    have hsame := hcall.stuck service hpoisoned
    rcases hrun : call service with ⟨outcome, after⟩
    rw [hrun] at hsame
    obtain rfl : after = service := hsame
    cases outcome with
    | ok value =>
        rw [Action.bind_of_ok hrun]
        exact (hnext value).stuck after hpoisoned
    | err error => rw [Action.bind_of_err hrun]
    | panic message => rw [Action.bind_of_panic hrun]
  poisons service hpanics := by
    rcases hrun : call service with ⟨outcome, after⟩
    cases outcome with
    | ok value =>
        unfold Action.Panics at hpanics
        rw [Action.bind_of_ok hrun] at hpanics ⊢
        exact (hnext value).poisons after hpanics
    | err error =>
        obtain ⟨message, hmessage⟩ := hpanics
        rw [Action.bind_of_err hrun] at hmessage
        cases hmessage
    | panic message =>
        have hpoisoned := hcall.poisons service ⟨message, by rw [hrun]⟩
        rw [Action.bind_of_panic hrun]
        rwa [hrun] at hpoisoned

theorem Guarded.attempt {call : Action Service String α} (hcall : Guarded call) :
    Guarded (Action.attempt call) where
  stuck service hpoisoned := by
    rw [Action.attempt_state]
    exact hcall.stuck service hpoisoned
  poisons service hpanics := by
    rw [Action.attempt_state]
    exact hcall.poisons service (Action.panics_attempt.mp hpanics)

theorem guarded_locked (call : Engine α) : Guarded (locked call) where
  stuck service hpoisoned := by simp [locked, hpoisoned]
  poisons service hpanics := by
    by_contra hhealthy
    rw [Bool.not_eq_true] at hhealthy
    exact locked_poisoned.mp hhealthy hpanics

/-! ## Requests -/

/-- The parameters of a lease request, or the answer to one that has none. -/
def Lease.arguments (query : List UInt8) : Except Response (UInt32 × String) :=
  match urlEncodedQuery query with
  | .error error => .error ⟨.badRequest, error⟩
  | .ok params =>
  match firstValue params "user" with
  | none => .error ⟨.badRequest, "No user in query"⟩
  | some user =>
  match firstValue params "intent" with
  | none => .error ⟨.badRequest, "No intent in query"⟩
  | some intent =>
  match parseU32 user with
  | .error error => .error ⟨.badRequest, error⟩
  | .ok serialNumber => .ok (serialNumber, intent)

theorem leaseHandle_eq (env : Env) (query : List UInt8) :
    Lease.handle env query =
      match Lease.arguments query with
      | .error response => pure response
      | .ok (serialNumber, intent) =>
          Action.attempt (locked (ConsentEngine.consentBySerialNum env serialNumber)) >>=
            Lease.answer intent := by
  unfold Lease.handle Lease.arguments
  cases urlEncodedQuery query with
  | error error => rfl
  | ok params =>
      simp only
      cases firstValue params "user" with
      | none => rfl
      | some user =>
          simp only
          cases firstValue params "intent" with
          | none => rfl
          | some intent =>
              simp only
              cases parseU32 user with
              | error error => rfl
              | ok serialNumber => rfl

theorem guarded_answer (intent : String) (result : Except String Consent) :
    Guarded (Lease.answer intent result) := by
  cases result with
  | error error => exact .pure _
  | ok consent =>
      unfold Lease.answer
      simp only
      split
      · exact .pure _
      · exact .pure _

theorem guarded_serve (env : Env) (request : Request) : Guarded (serve env request) := by
  have hcalls {α : Type} (call : Engine α) : Guarded (Action.attempt (locked call)) :=
    (guarded_locked call).attempt
  have hanswers {call : Action Service String Response} (hcall : Guarded call) :
      Guarded (call >>= fun response => pure (Answer.http response)) :=
    hcall.bind fun response => .pure _
  cases request with
  | query user =>
      refine hanswers ((hcalls _).bind fun result => ?_)
      cases result with
      | ok ip => exact .pure _
      | error error => exact .pure _
  | register body =>
      refine hanswers ?_
      cases body with
      | error error => exact .pure _
      | ok user =>
          refine (hcalls _).bind fun result => ?_
          cases result with
          | ok value => exact .pure _
          | error error => exact .pure _
  | remove user =>
      refine hanswers ((hcalls _).bind fun result => ?_)
      cases result with
      | ok value => exact .pure _
      | error error => exact .pure _
  | lease query =>
      refine hanswers ?_
      rw [leaseHandle_eq]
      split
      · exact .pure _
      · exact (hcalls _).bind (guarded_answer _)
  | message message => exact (guarded_locked _).bind fun reply => .pure _

theorem run_stuck (hpoisoned : service.poisoned = true) (inputs : List (Env × Request)) :
    run inputs service = service := by
  refine Runs.exec_history (P := fun _ (state : Service) => state = service) rfl ?_ inputs
  intro inputs input hsame
  rw [show Runs.exec step inputs service = service from hsame]
  exact (guarded_serve input.1 input.2).stuck service hpoisoned

/-- The answer to a request that does not get as far as the lock. -/
def Request.aside : Request → Option Answer
  | .register (.error error) => some (.http ⟨.badRequest, error⟩)
  | .lease text =>
      match Lease.arguments text with
      | .error response => some (.http response)
      | .ok _ => none
  | _ => none

theorem serve_aside {answer : Answer} (haside : request.aside = some answer) (env : Env)
    (service : Service) : serve env request service = (.ok answer, service) := by
  cases request with
  | register body =>
      cases body with
      | error error =>
          obtain rfl := Option.some.inj haside
          rfl
      | ok user => cases haside
  | lease query =>
      unfold Request.aside at haside
      cases harguments : Lease.arguments query with
      | ok arguments => simp [harguments] at haside
      | error response =>
          simp only [harguments] at haside
          obtain rfl := Option.some.inj haside
          simp [serve, leaseHandle_eq, harguments, Action.bind_apply]
  | query user => cases haside
  | remove user => cases haside
  | message message => cases haside

/-- Every other request unwinds behind a poisoned lock. -/
theorem serve_poisoned (haside : request.aside = none) (hpoisoned : service.poisoned = true)
    (env : Env) : Action.Panics (serve env request) service := by
  have hlocked {α : Type} (call : Engine α) : Action.Panics (locked call) service := by
    unfold Action.Panics
    simp [locked, hpoisoned]
  have hcalls {α : Type} (call : Engine α)
      (respond : Except String α → Action Service String Response) :
      Action.Panics (Action.attempt (locked call) >>= respond) service :=
    (Action.panics_attempt.mpr (hlocked call)).bind respond
  cases request with
  | query user => exact (hcalls _ _).bind _
  | remove user => exact (hcalls _ _).bind _
  | message message => exact (hlocked _).bind _
  | register body =>
      cases body with
      | error error => cases haside
      | ok user => exact (hcalls _ _).bind _
  | lease query =>
      refine Action.Panics.bind ?_ _
      rw [leaseHandle_eq]
      cases harguments : Lease.arguments query with
      | error response => simp [Request.aside, harguments] at haside
      | ok arguments => exact hcalls _ _

end Tolla
