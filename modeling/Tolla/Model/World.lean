import Mathlib.Logic.Equiv.Defs
import Tolla.Library.Effects
import Tolla.Library.FileTree
import Tolla.Library.Keyed

/-!
# The world of the consent engine

The engine itself holds nothing but connections: what it knows is in a Mongo
database, in a Docker daemon and in the directory `/tmp/certificates`.  `World`
is the state of these three, together with the key pair of the authority, which
does not change while the engine runs.

Everything the engine does not decide itself is in `Env`, one value for each
request: which backend calls fail, which names the daemon resolves, what the
random sources return and in which order a `HashMap` is iterated.  A theorem
that holds for every `Env` holds whatever the backends do; a theorem about a
run without faults says so with `Env.Faultless`.
-/

namespace Tolla

open Effects Keyed

/-! ## Documents -/

/-- A user and the purposes consented to.  `serialNumber` is used to
cross-reference the id with the certificate. -/
structure Consent where
  id : String
  serialNumber : Int32
  purpose : List String
  deriving DecidableEq, Repr

/-- The intent a client certificate was issued for. -/
structure Intent where
  id : String
  intent : List String
  deriving DecidableEq, Repr

/-- A tenant and the address of its container. -/
structure View where
  id : String
  ip : String
  deriving DecidableEq, Repr

/-- The collections of the database `test`.  The engine writes `view` and reads
both `view` and `views`. -/
inductive Collection where
  | consents
  | view
  | views
  | intents
  deriving DecidableEq, Repr

/-! ## Keys, certificates and files -/

/-- An RSA key pair. -/
structure PKey where
  publicPart : Nat
  privatePart : Nat
  deriving DecidableEq, Repr

/-- The object identifiers the authority uses. -/
inductive Nid where
  | commonName
  | countryName
  | organizationName
  | stateOrProvinceName
  | basicConstraints
  | keyUsage
  | extKeyUsage
  | subjectKeyIdentifier
  | subjectAltName
  deriving DecidableEq, Repr

/-- From when to when a certificate is valid, in seconds. -/
structure Validity where
  notBefore : Nat
  notAfter : Nat
  deriving DecidableEq, Repr

/-- A certificate as `X509Builder` is told to build it: an extension is kept as
the configuration text it is made from, a signature as the public part of the
signing key. -/
structure X509 where
  version : Nat
  serialNumber : Nat
  validity : Validity
  subject : List (Nid × String)
  issuer : List (Nid × String)
  publicKey : Nat
  extensions : List (Nid × String)
  signedBy : Nat
  deriving DecidableEq, Repr

/-- The content of a file below `/tmp/certificates`.  `File::create` truncates,
so a file whose write failed is `empty`. -/
inductive Pem where
  | empty
  | certificate (certificate : X509)
  | privateKey (key : PKey)
  deriving DecidableEq, Repr

/-- The key pair and root certificate of the engine. -/
structure Authority where
  keyPair : PKey
  rootCtf : X509
  deriving DecidableEq, Repr

/-- A name entry of a certificate request: `as_utf8` returns its text or fails. -/
structure Asn1String where
  asUtf8 : Option String
  deriving DecidableEq, Repr

/-- A parsed certificate request. -/
structure X509Req where
  publicKey : Option Nat
  subject : List (Nid × Asn1String)
  deriving DecidableEq, Repr

/-- What OpenSSL does with data that a client chose.  A returned text is the
error that the call reports. -/
structure OpenSsl where
  /-- `X509Req::from_pem`: `MemBioSlice::new`, which asserts that the length is a `c_int`, and
  `PEM_read_bio_X509_REQ`.  The caller unwraps the result, so neither is told from the other. -/
  requestFromPem : List UInt8 → Option X509Req
  /-- `X509_NAME_add_entry_by_NID`. -/
  addEntry : Nid → String → Option String
  /-- `X509V3_EXT_nconf_nid`. -/
  extension : Nid → String → Option String
  /-- `PEM_write_bio_X509`. -/
  toPem : X509 → List UInt8

/-! ## Containers -/

/-- A container of the Docker daemon.  `ofEngine` tells the containers that the
engine created from those it found. -/
structure Container where
  name : String
  containerId : String
  image : String
  env : List String
  volumesFrom : List String
  ipAddress : String
  running : Bool
  ofEngine : Bool
  deriving DecidableEq, Repr

/-- The `Names` that the container list reports: the daemon puts a slash before
the name. -/
def Container.names (container : Container) : List String := ["/" ++ container.name]

/-- The names Docker accepts: `[a-zA-Z0-9][a-zA-Z0-9_.-]+`. -/
def validContainerName (name : String) : Bool :=
  match name.toList with
  | [] => false
  | first :: rest =>
      first.isAlphanum && !rest.isEmpty &&
        rest.all fun c => c.isAlphanum || c == '_' || c == '.' || c == '-'

/-! ## What the engine does not decide -/

/-- The calls to a backend that can fail. -/
inductive Call where
  | generateKey
  | listContainers
  | createContainer
  | startContainer
  | inspectContainer
  | removeContainer
  | createDir
  | createFile (name : String)
  | writeFile (name : String)
  | find (collection : Collection)
  | next (collection : Collection) (index : Nat)
  | findOne (collection : Collection)
  | insertOne (collection : Collection)
  | deleteOne (collection : Collection)
  deriving DecidableEq, Repr

/-- The surroundings of one request. -/
structure Env where
  /-- The calls that fail, without effect, and the error they report. -/
  fault : Call → Option String
  /-- What a backend that works says when it refuses a call. -/
  rejection : Call → String
  /-- The name of the container a reference stands for. -/
  resolve : List Container → String → Option String
  /-- `Rsa::generate`. -/
  keyPair : PKey
  /-- `random::<u32>()`. -/
  serial : UInt32
  /-- `Uuid::new_v4()`. -/
  uuid : BitVec 128
  /-- The clock, in seconds, when the end of a certificate's validity is set, and when its
  beginning is. -/
  clock : Nat × Nat
  /-- The identifier and the address Docker gives to a new container. -/
  containerId : String
  ipAddress : String
  /-- The order in which `new_mountdir` iterates its `HashMap` of three files. -/
  order : Equiv.Perm (Fin 3)
  /-- Which of several matching documents `find_one` returns. -/
  pick : Nat
  openssl : OpenSsl

/-- `Asn1Time::days_from_now`. -/
def daysFromNow (now days : Nat) : Nat := now + days * 86400

/-- The validity that every certificate gets: a year. -/
def Env.validity (env : Env) : Validity where
  notAfter := daysFromNow env.clock.1 365
  notBefore := daysFromNow env.clock.2 0

/-- Every backend call works. -/
def Env.Faultless (env : Env) : Prop := ∀ call, env.fault call = none

/-- The daemon as a map from names to containers. -/
def byName (containers : List Container) (reference : String) : Option String :=
  (containers.find? fun container => container.name = reference).map Container.name

/-! ## The state -/

/-- The state of the backends. -/
structure World where
  consents : Table Consent.id
  view : Table View.id
  views : Table View.id
  intents : Table Intent.id
  containers : Table Container.name
  files : FileTree.Tree Pem
  authority : Authority

/-- A computation of the engine. -/
abbrev Engine (α : Type) := Action World String α

/-- The world the engine starts in: an empty database, a daemon with containers
of others, and any files. -/
structure World.Initial (world : World) : Prop where
  consents : world.consents = Table.empty
  view : world.view = Table.empty
  views : world.views = Table.empty
  intents : world.intents = Table.empty
  containers : ∀ container ∈ world.containers, container.ofEngine = false

/-- Make a backend call: it fails as the surroundings say, or it does `work`. -/
def call {α : Type} (env : Env) (name : Call) (work : Engine α) : Engine α :=
  match env.fault name with
  | some error => Action.fail error
  | none => work

/-! ## The database driver -/

/-- `client.db("test").collection(name)`. -/
structure Handle {α : Type} (key : α → String) where
  name : Collection
  get : World → Table key
  set : Table key → World → World

namespace Handle

def consents : Handle Consent.id :=
  ⟨.consents, World.consents, fun table world => { world with consents := table }⟩

def view : Handle View.id :=
  ⟨.view, World.view, fun table world => { world with view := table }⟩

def views : Handle View.id :=
  ⟨.views, World.views, fun table world => { world with views := table }⟩

def intents : Handle Intent.id :=
  ⟨.intents, World.intents, fun table world => { world with intents := table }⟩

variable {α : Type} {key : α → String}

/-- Insert a document; a document with the same `_id` makes the server refuse. -/
def insertOne (env : Env) (coll : Handle key) (document : α) : Engine Unit :=
  call env (.insertOne coll.name) ⟨fun world =>
    match (coll.get world).insert document with
    | none => (.err (env.rejection (.insertOne coll.name)), world)
    | some table => (.ok (), coll.set table world)⟩

/-- Delete the document with the given `_id`; it is no error if there is none. -/
def deleteOne (env : Env) (coll : Handle key) (id : String) : Engine Unit :=
  call env (.deleteOne coll.name) ⟨fun world =>
    (.ok (), coll.set ((coll.get world).delete id) world)⟩

/-- A cursor over all documents.  Reading on can fail at every document. -/
def find (env : Env) (coll : Handle key) : Engine (List (Except String α)) :=
  call env (.find coll.name) ⟨fun world =>
    (.ok ((coll.get world).rows.mapIdx fun index document =>
      match env.fault (.next coll.name index) with
      | some error => .error error
      | none => .ok document), world)⟩

/-- Some document that satisfies the query, if there is one. -/
def findOne (env : Env) (coll : Handle key) (query : α → Bool) : Engine (Option α) :=
  call env (.findOne coll.name) ⟨fun world =>
    let found := (coll.get world).rows.filter query
    (.ok found[env.pick % found.length]?, world)⟩

end Handle
end Tolla
