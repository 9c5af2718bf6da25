import Tolla.Model.Authority
import Tolla.Model.StoreManager

/-!
# The consent engine

`tolla/src/consent.rs`: what the engine does for its clients.  Every function is
a sequence of backend calls that ends at the first error; what the earlier calls
did stays done.

Documents are kept as the records they are made from, so `to_bson` and
`from_bson` are invisible, except in the two loops that read a cursor:
`collectIps` and `searchView` take the decoder as an argument.
-/

namespace Tolla.ConsentEngine

open Effects

/-! ## The collections -/

/-- Add a user consent. -/
def addConsent (env : Env) (consent : Consent) : Engine Unit :=
  Handle.consents.insertOne env consent

def addIntent (env : Env) (intent : Intent) : Engine Unit :=
  Handle.intents.insertOne env intent

def registerView (env : Env) (view : View) : Engine Unit :=
  Handle.view.insertOne env view

/-- Remove a user by id. -/
def removeUser (env : Env) (userId : String) : Engine Unit := do
  Handle.consents.deleteOne env userId
  Handle.view.deleteOne env userId

/-- The addresses of the documents under a cursor.  A document that cannot be
read is passed over, one that cannot be decoded ends the loop. -/
def collectIps {δ : Type} (fromBson : δ → Except String View) :
    List (Except String δ) → Except String (List String)
  | [] => .ok []
  | .error _ :: rest => collectIps fromBson rest
  | .ok item :: rest =>
      match fromBson item with
      | .error error => .error error
      | .ok view => (collectIps fromBson rest).map (view.ip :: ·)

/-- Retrieve all tenants' addresses. -/
def getTenantIps (env : Env) : Engine (List String) := do
  let cursor ← Handle.view.find env
  Action.ofExcept (collectIps .ok cursor)

/-- The views under a cursor. -/
def collectViews {δ : Type} (fromBson : δ → Except String View) :
    List (Except String δ) → Except String (List View)
  | [] => .ok []
  | .error _ :: rest => collectViews fromBson rest
  | .ok item :: rest =>
      match fromBson item with
      | .error error => .error error
      | .ok view => (collectViews fromBson rest).map (view :: ·)

/-- Retrieve all views, from the collection `views`. -/
def getViews (env : Env) : Engine (List View) := do
  let cursor ← Handle.views.find env
  Action.ofExcept (collectViews .ok cursor)

/-- The address of the first view under a cursor that has the id. -/
def searchView {δ : Type} (fromBson : δ → Except String View) (id : String) :
    List (Except String δ) → Except String String
  | [] => .error "could not find it"
  | .error _ :: rest => searchView fromBson id rest
  | .ok item :: rest =>
      match fromBson item with
      | .error error => .error error
      | .ok view => if view.id = id then .ok view.ip else searchView fromBson id rest

/-- The address of a user's container, from the collection `views`. -/
def consentBasedView (env : Env) (id : String) : Engine String := do
  let cursor ← Handle.views.find env
  Action.ofExcept (searchView .ok id cursor)

/-- The key that `doc! { "serial_number" => serial_num }` compares with: a `u32`
becomes the `i32` with the same bits. -/
def serialKey (serialNum : UInt32) : Int32 := serialNum.toInt32

/-- Retrieve a consent by its serial number.  The unwrap of the source panics
when no document matches. -/
def consentBySerialNum (env : Env) (serialNum : UInt32) : Engine Consent := do
  let found ← Handle.consents.findOne env fun consent =>
    consent.serialNumber = serialKey serialNum
  match found with
  | none => Action.abort "called `Option::unwrap()` on a `None` value"
  | some consent => pure consent

/-- Retrieve the consent of a user.  The unwrap of the source panics when there is
none. -/
def getConsent (env : Env) (id : String) : Engine Consent := do
  let found ← Handle.consents.findOne env fun consent => consent.id = id
  match found with
  | none => Action.abort "called `Option::unwrap()` on a `None` value"
  | some consent => pure consent

/-- Retrieve the intent that is recorded under an identifier. -/
def getIntent (env : Env) (id : String) : Engine Intent := do
  let found ← Handle.intents.findOne env fun intent => intent.id = id
  match found with
  | none => Action.fail "what"
  | some intent => pure intent

/-! ## Onboarding and deboarding -/

/-- The three files of a mount directory. -/
def mountFiles (certificate : X509) (key : PKey) (root : X509) : Fin 3 → String × Pem
  | 0 => ("certificate.pem", .certificate certificate)
  | 1 => ("keys.pem", .privateKey key)
  | 2 => ("CAcert.pem", .certificate root)

/-- The environment variables of a tenant's container. -/
def tenantEnv (id : String) : List String :=
  ["PEM_FOLDER=/tmp/certificates/" ++ id, "LISTEN_ADDR=:8080", "DB_ADDR=27017", "CA_ADDR=8080"]

/-- The mount directory of a user. -/
def mountPath (id : String) : String := "/tmp/certificates/" ++ id

def onboardUser (env : Env) (id : String) (purposes : List String) : Engine Unit := do
  if ← StoreManager.verifyContainerId env id then Action.fail "user already exists"
  else
    match ← Action.attempt (consentBasedView env id) with
    | .ok _ => Action.fail "user already exists"
    | .error _ =>
        let (key, certificate, serialNumber) ← Authority.createDbCertificate env
        let world ← Action.read
        StoreManager.newMountdir env (mountFiles certificate key world.authority.rootCtf)
          (mountPath id)
        let (name, ip) ← StoreManager.newContainer env "tenant" id (tenantEnv id)
        registerView env { id := name, ip := ip }
        addConsent env
          { id := id, serialNumber := serialNumber.toInt32, purpose := purposes }

/-- Remove a user's container, then the user. -/
def deboardUser (env : Env) (userId : String) : Engine Unit := do
  StoreManager.removeContainer env userId
  removeUser env userId

/-! ## Messages -/

/-- Sign a certificate request and record its intent. -/
def handleCertRequest (env : Env) (request : Proto.Certificate) : Engine Proto.Certificate := do
  let (intent, cert) ← Authority.signCertificate env request.request request.intent
  addIntent env intent
  pure cert

/-- The reply to a message whose result is only success or failure. -/
def conclude : Except String Unit → Proto.ToClient
  | .error error => { success := false, msg := some (.error { error := error }) }
  | .ok () => { success := true, msg := none }

def handleIncoming (env : Env) (message : Proto.FromClient) : Engine Proto.ToClient := do
  match message.msg with
  | none => Action.fail "empty message"
  | some (.consent c) =>
      let result ← Action.attempt
        (addConsent env { serialNumber := 0, id := c.id, purpose := c.purpose })
      pure (conclude result)
  | some (.intent i) =>
      let result ← Action.attempt (addIntent env { id := i.id, intent := [i.intent] })
      pure (conclude result)
  | some (.user u) =>
      let result ← Action.attempt (onboardUser env u.userid ["static"])
      pure (conclude result)
  | some (.certificateRequest r) =>
      let cert ← handleCertRequest env r
      pure { success := true, msg := some (.certificate cert) }
  | some (.requestIps _) =>
      let ips ← getTenantIps env
      pure { success := true, msg := some (.ips { ip := ips }) }

end Tolla.ConsentEngine
