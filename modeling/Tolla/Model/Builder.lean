import Tolla.Model.Service

/-!
# The start of the engine

`run_http` in `src/main.rs` builds an engine and puts it behind a mutex.  The builder is in
`tolla/src/consent.rs`.  It draws a new key pair and a new root certificate, connects to the
database, reads the views and hands their ids to `start_containers`, whose loop does nothing:
the calls that would start the containers are commented out.

The database, the daemon and the files outlive the engine.  A `Deployment` is these three,
with the engine that is running on them, if there is one.  A process that ends in the middle
of a request leaves the world as a request does in which a backend call failed, so `restart`
only has to say how the next engine starts.
-/

namespace Tolla

open Effects

/-- The surroundings in which an engine starts. -/
structure Setup where
  env : Env
  /-- `env::var`. -/
  vars : String → Option String
  /-- `Url::parse` accepts the text. -/
  parsesUrl : String → Bool
  /-- The error of `Client::connect`, if it fails. -/
  connect : String → UInt16 → Option String

namespace Authority

/-- The root certificate: the authority signs itself. -/
def rootCertificate (keyPair : PKey) (validity : Validity) : X509 where
  version := 0
  serialNumber := 0
  validity := validity
  subject := issuerName
  issuer := issuerName
  publicKey := keyPair.publicPart
  extensions := [(.basicConstraints, "CA:TRUE"), (.keyUsage, "digitalSignature, keyCertSign"),
    (.extKeyUsage, "serverAuth, clientAuth")]
  signedBy := keyPair.publicPart

/-- An authority with the key pair. -/
def ofKey (keyPair : PKey) (validity : Validity) : Authority :=
  ⟨keyPair, rootCertificate keyPair validity⟩

/-- `Authority::new`. -/
def new (env : Env) : Engine Authority :=
  call env .generateKey ⟨fun world => (.ok (ofKey env.keyPair env.validity), world)⟩

end Authority

namespace StoreManager

/-- `StoreManager::new`, which connects to nothing yet. -/
def new (setup : Setup) (host : String) : Engine Unit :=
  if setup.parsesUrl host then pure ()
  else Action.abort "called `Result::unwrap()` on an `Err` value"

/-- `start_containers`: the loop only logs. -/
def startContainers : List String → Engine Unit
  | [] => pure ()
  | _ :: ids => startContainers ids

end StoreManager

/-! ## The builder -/

structure ConsentEngineBuilder where
  address : Option String
  port : Option UInt16
  deamon : Option String

namespace ConsentEngineBuilder

def new : ConsentEngineBuilder := ⟨none, none, none⟩

/-- `ConsentEngineBuilder::address`. -/
def setAddress (builder : ConsentEngineBuilder) (address : String) : ConsentEngineBuilder :=
  { builder with address := some address }

/-- `ConsentEngineBuilder::port`. -/
def setPort (builder : ConsentEngineBuilder) (port : UInt16) : ConsentEngineBuilder :=
  { builder with port := some port }

/-- `ConsentEngineBuilder::deamon`. -/
def setDeamon (builder : ConsentEngineBuilder) (address : String) : ConsentEngineBuilder :=
  { builder with deamon := some address }

/-- Build an engine.  All of it that is not in the world already is its authority. -/
def build (setup : Setup) (builder : ConsentEngineBuilder) : Engine Authority := do
  match builder.address with
  | none => Action.fail "address not present"
  | some address =>
  match builder.port with
  | none => Action.fail "port not present"
  | some port =>
  match builder.deamon with
  | none => Action.fail "deamon address not present"
  | some deamonAddress =>
  StoreManager.new setup deamonAddress
  let authority ← Action.unwrap "called `Result::unwrap()` on an `Err` value"
    (Authority.new setup.env)
  match setup.connect address port with
  | some error => Action.fail error
  | none =>
  let views ← ConsentEngine.getViews setup.env
  StoreManager.startContainers (views.map View.id)
  pure authority

end ConsentEngineBuilder

/-- `run_http`, up to the servers. -/
def runHttp (setup : Setup) : Engine Authority :=
  match setup.vars "MONGODB_PORT_27017_TCP_ADDR" with
  | none => Action.abort "called `Result::unwrap()` on an `Err` value: NotPresent"
  | some addr => Action.unwrap "called `Result::unwrap()` on an `Err` value"
      ((((ConsentEngineBuilder.new.setAddress addr).setPort 27017).setDeamon
        "http://127.0.0.1:2375").build setup)

/-! ## Deployments -/

/-- The world, and whether an engine is running on it. -/
structure Deployment where
  service : Service
  up : Bool

/-- What happens to a deployment. -/
inductive Happening where
  | request (env : Env) (request : Request)
  | restart (setup : Setup)

/-- A request to an engine that is not running has no effect.  A restart ends the engine
that is running, whether or not the next one starts. -/
def Deployment.step (happening : Happening) (deployment : Deployment) : Deployment :=
  match happening with
  | .request env request =>
      if deployment.up then
        { deployment with service := Tolla.step (env, request) deployment.service }
      else deployment
  | .restart setup =>
      match runHttp setup deployment.service.world with
      | (.ok authority, world) => ⟨⟨{ world with authority := authority }, false⟩, true⟩
      | (_, world) => ⟨⟨world, deployment.service.poisoned⟩, false⟩

def Deployment.run (happenings : List Happening) (deployment : Deployment) : Deployment :=
  Runs.exec Deployment.step happenings deployment

/-- Before the first engine starts. -/
structure Deployment.Initial (deployment : Deployment) : Prop where
  world : deployment.service.world.Initial
  down : deployment.up = false

end Tolla
