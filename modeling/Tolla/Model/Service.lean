import Mathlib.Algebra.Group.Nat.Defs
import Tolla.Library.FormUrl
import Tolla.Library.Runs
import Tolla.Library.Text
import Tolla.Model.ConsentEngine

/-!
# The service

`tolla/src/endpoints.rs` and `tolla/src/register.rs`: the HTTP handlers and the
TCP service, which share one engine behind one mutex.  A handler that panics
while it holds the lock poisons the mutex, and from then on every `lock().unwrap()`
panics too.

Requests are served one at a time, because the lock is held for the whole of an
engine call; `run` is a sequence of requests in the order in which they got the
lock.
-/

namespace Tolla

open Effects

/-- The engine behind its mutex. -/
structure Service where
  world : World
  poisoned : Bool

/-- `engine.lock().unwrap().call(..)`. -/
def locked {α : Type} (call : Engine α) : Action Service String α := ⟨fun service =>
  if service.poisoned then
    (.panic "called `Result::unwrap()` on an `Err` value: PoisonError", service)
  else
    match call service.world with
    | (.ok value, world) => (.ok value, { service with world := world })
    | (.err error, world) => (.err error, { service with world := world })
    | (.panic message, world) => (.panic message, { world := world, poisoned := true })⟩

/-! ## The HTTP handlers -/

inductive Status where
  | ok
  | badRequest
  | forbidden
  deriving DecidableEq, Repr

structure Response where
  status : Status
  body : String
  deriving DecidableEq, Repr

/-- The JSON body of a registration. -/
structure User where
  id : String
  purposes : List String
  deriving DecidableEq, Repr

/-- `GET /:user`. -/
def QueryHandler.handle (env : Env) (user : Option String) : Action Service String Response := do
  match ← Action.attempt (locked (ConsentEngine.consentBasedView env (user.getD "/"))) with
  | .ok ip => pure ⟨.ok, ip⟩
  | .error error => pure ⟨.badRequest, error⟩

/-- `POST /register`.  A body that cannot be read or is not a `User` is an error
text here. -/
def Register.handle (env : Env) (body : Except String User) : Action Service String Response := do
  match body with
  | .error error => pure ⟨.badRequest, error⟩
  | .ok user =>
      match ← Action.attempt (locked (ConsentEngine.onboardUser env user.id user.purposes)) with
      | .ok () => pure ⟨.ok, ""⟩
      | .error error => pure ⟨.badRequest, error⟩

/-- `DELETE /:user`. -/
def Remove.handle (env : Env) (user : Option String) : Action Service String Response := do
  match ← Action.attempt (locked (ConsentEngine.deboardUser env (user.getD "/"))) with
  | .ok () => pure ⟨.ok, ""⟩
  | .error error => pure ⟨.badRequest, error⟩

/-- The loop of `from_str_radix`: the value so far, and the digits to come. -/
def parseDigits : List Char → Nat → Except String Nat
  | [], value => .ok value
  | c :: rest, value =>
      if ¬ c.isDigit then .error "invalid digit found in string"
      else
        let value' := 10 * value + (c.toNat - '0'.toNat)
        if 2 ^ 32 ≤ value' then .error "number too large to fit in target type"
        else parseDigits rest value'

/-- `text.parse::<u32>()`. -/
def parseU32 (text : String) : Except String UInt32 :=
  let digits := if text.toList.head? = some '+' then text.toList.tail else text.toList
  if digits.isEmpty then .error "cannot parse integer from empty string"
  else (parseDigits digits 0).map UInt32.ofNat

/-- `UrlEncodedQuery`: the pairs of a query string that is not empty. -/
def urlEncodedQuery (query : List UInt8) : Except String (List (String × String)) :=
  if query.isEmpty then .error "Expected query, found empty string"
  else .ok ((FormUrl.parse query).map fun pair =>
    (Text.fromUtf8Lossy pair.1, Text.fromUtf8Lossy pair.2))

/-- The first value of a parameter. -/
def firstValue (params : List (String × String)) (name : String) : Option String :=
  (params.find? fun pair => pair.1 = name).map Prod.snd

/-- `GET /lease/?intent=..&user=..`. -/
def Lease.handle (env : Env) (query : List UInt8) : Action Service String Response := do
  match urlEncodedQuery query with
  | .error error => pure ⟨.badRequest, error⟩
  | .ok params =>
  match firstValue params "user" with
  | none => pure ⟨.badRequest, "No user in query"⟩
  | some user =>
  match firstValue params "intent" with
  | none => pure ⟨.badRequest, "No intent in query"⟩
  | some intent =>
  match parseU32 user with
  | .error error => pure ⟨.badRequest, error⟩
  | .ok serialNumber =>
  match ← Action.attempt (locked (ConsentEngine.consentBySerialNum env serialNumber)) with
  | .error error => pure ⟨.badRequest, error⟩
  | .ok consent =>
      if consent.purpose.contains intent then pure ⟨.ok, ""⟩
      else pure ⟨.forbidden, "Consents did not match"⟩

/-! ## The TCP service -/

/-- `Service::call`: an engine error fails the future. -/
def ProtoService.call (env : Env) (message : Proto.FromClient) :
    Action Service String Proto.ToClient :=
  locked (ConsentEngine.handleIncoming env message)

/-! ## Requests -/

/-- What a client can ask the service. -/
inductive Request where
  | query (user : Option String)
  | register (body : Except String User)
  | remove (user : Option String)
  | lease (query : List UInt8)
  | message (message : Proto.FromClient)

/-- What the client gets. -/
inductive Answer where
  | http (response : Response)
  | reply (reply : Proto.ToClient)
  deriving DecidableEq, Repr

/-- Serve one request. -/
def serve (env : Env) : Request → Action Service String Answer
  | .query user => do return .http (← QueryHandler.handle env user)
  | .register body => do return .http (← Register.handle env body)
  | .remove user => do return .http (← Remove.handle env user)
  | .lease query => do return .http (← Lease.handle env query)
  | .message message => do return .reply (← ProtoService.call env message)

/-- The service after a request, in the surroundings in which it was served. -/
def step (input : Env × Request) (service : Service) : Service :=
  (serve input.1 input.2 service).2

/-- The service after a sequence of requests. -/
def run (inputs : List (Env × Request)) (service : Service) : Service :=
  Runs.exec step inputs service

/-- The service at its start. -/
structure Service.Initial (service : Service) : Prop where
  world : service.world.Initial
  healthy : service.poisoned = false

end Tolla
