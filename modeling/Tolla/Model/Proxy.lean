import Mathlib.Logic.Function.Basic
import Tolla.Model.Asn1
import Tolla.Model.Service

/-!
# The proxy

`mongodb/docker-alpine-mongo/proxy/main.go`: the proxy in front of a tenant's
database.  During a TLS handshake it asks the engine whether the tenant consents
to the intent in the client's certificate, and for ten seconds afterwards it
lets the same certificate in without asking.

`range` walks over the leases as they were at its start, while the body removes
leases from the same array: what comes after the removed lease moves down one
place under the loop, and the last place keeps its lease.  `scan` therefore has
the array and the length of the slice as two things.

The end of the file puts the proxies and the engine together, on one clock.
-/

namespace Tolla

open Effects

/-- An `x509.Certificate`.  `Equal` compares the raw bytes. -/
structure Certificate where
  raw : List UInt8
  deriving DecidableEq, Repr

/-- `cert.Extensions`. -/
def Certificate.extensions (cert : Certificate) : List Asn1.Extension :=
  (Asn1.parseExtensions cert.raw).getD []

/-- The extension with the alternative names of the subject. -/
def Certificate.subjectAltName (cert : Certificate) : Option Asn1.Extension :=
  cert.extensions.find? fun ext => ext.id = [2, 5, 29, 17]

/-- Times are in nanoseconds. -/
structure Proxy.Lease where
  certificate : Certificate
  leaseStart : Nat
  deriving DecidableEq, Repr

/-- Ten seconds. -/
def leaseTime : Nat := 10000000000

def Proxy.Lease.Expired (lease : Proxy.Lease) (now : Nat) : Bool :=
  leaseTime < now - lease.leaseStart

structure Proxy where
  serialNumber : UInt64
  leases : List Proxy.Lease
  deriving DecidableEq, Repr

/-- `serverCert.SerialNumber.Uint64()`: the low bits of the number in the tenant's
certificate. -/
def Proxy.serialOf (element : List UInt8) : Option UInt64 :=
  (Asn1.unmarshalBigInt element).map fun read => UInt64.ofNat read.1.natAbs

/-! ## The intent of a client -/

/-- A certificate with an alternative name replaces what was found so far. -/
def examine (found : Option (Certificate × Asn1.Extension)) (cert : Certificate) :
    Option (Certificate × Asn1.Extension) :=
  match cert.subjectAltName with
  | some ext => some (cert, ext)
  | none => found

/-- The last certificate of the chains with an alternative name, and the name. -/
def intentExtension (verifiedChains : List (List Certificate)) :
    Option (Certificate × Asn1.Extension) :=
  verifiedChains.foldl (fun found chain => chain.foldl examine found) none

/-- The intent in an alternative name: the string in its first name, which has to
be an `otherName`. -/
def decodeIntent (value : List UInt8) : Except String (List UInt8) :=
  match Asn1.unmarshalRaw value with
  | none => .error "failed to marshal extension"
  | some (names, _) =>
  if names.tag ≠ 16 then .error "No othername present"
  else
  match Asn1.unmarshalRaw names.bytes with
  | none => .error "failed to marshal extension"
  | some (name, _) =>
  if !name.isCompound then
    .error "x509: failed to unmarshal GeneralName.otherName: not compund"
  else if name.tag ≠ 0 then .error "No othername present"
  else
  -- the first byte is made that of a sequence
  match Asn1.unmarshalOtherName (name.fullBytes.set 0 0x30) with
  | none => .error "failed to marshal extension"
  | some other =>
  match Asn1.unmarshalString other.value.bytes with
  | none => .error "failed to marshal extension"
  | some intent => .ok intent

/-! ## Leases -/

/-- How a walk over the leases ends, with the slice it leaves behind. -/
structure Scanned where
  outcome : Outcome String Bool
  leases : List Proxy.Lease
  deriving DecidableEq, Repr

/-- The walk over the leases: `remaining` places of `array` are still to be
looked at, the next one is `index`, and the slice has its first `length`
places. -/
def scan (cert : Certificate) (now : Nat) : Nat → Nat → List Proxy.Lease → Nat → Scanned
  | 0, _, array, length => ⟨.ok false, array.take length⟩
  | remaining + 1, index, array, length =>
      match array[index]? with
      | none => ⟨.panic "index out of range", array.take length⟩
      | some lease =>
          if lease.certificate = cert then
            if lease.Expired now then
              if length < index + 1 then ⟨.panic "slice bounds out of range", array.take length⟩
              else
                scan cert now remaining (index + 1)
                  (array.take index ++ (array.take length).drop (index + 1) ++
                    array.drop (length - 1))
                  (length - 1)
            else ⟨.ok true, array.take length⟩
          else scan cert now remaining (index + 1) array length

/-! ## The handshake -/

/-- The proxy and the engine, during a handshake. -/
abbrev Handshake (α : Type) := Action (Proxy × Service) String α

/-- What becomes of the request to the engine. -/
inductive Link where
  | works
  | unreachable (error : String)
  | answerLost (error : String)
  deriving DecidableEq, Repr

/-- The query of a lease request. -/
def Proxy.leaseQuery (proxy : Proxy) (intent : List UInt8) : List UInt8 :=
  FormUrl.encode [(Text.utf8 "intent", intent),
    (Text.utf8 "user", Text.utf8 (toString proxy.serialNumber.toNat))]

/-- Look for a lease of the certificate that has not expired. -/
def findLease (now : Nat) (cert : Certificate) : Handshake Bool := ⟨fun (proxy, service) =>
  let scanned := scan cert now proxy.leases.length 0 proxy.leases proxy.leases.length
  (scanned.outcome, { proxy with leases := scanned.leases }, service)⟩

def assertPermissions (env : Env) (link : Link) (intent : List UInt8) : Handshake Unit :=
  ⟨fun (proxy, service) =>
    match link with
    | .unreachable error => (.err error, proxy, service)
    | .answerLost error =>
        (.err error, proxy, (Lease.handle env (proxy.leaseQuery intent) service).2)
    | .works =>
        match Lease.handle env (proxy.leaseQuery intent) service with
        | (.ok response, service) =>
            if response.status = .ok then (.ok (), proxy, service)
            else (.err "Access denied", proxy, service)
        | (.err error, service) => (.err error, proxy, service)
        -- the server catches the panic of a handler and answers with a 500
        | (.panic _, service) => (.err "Access denied", proxy, service)⟩

def addLease (lease : Proxy.Lease) : Handshake Unit := ⟨fun (proxy, service) =>
  (.ok (), { proxy with leases := proxy.leases ++ [lease] }, service)⟩

/-- `VerifyPeerCertificate`, at one instant. -/
def verifyPeerCertificate (now : Nat) (env : Env) (link : Link)
    (verifiedChains : List (List Certificate)) : Handshake Unit := do
  match intentExtension verifiedChains with
  | none => Action.fail "No intent present in client certificate"
  | some (clientCert, intentExt) =>
      if ← findLease now clientCert then pure ()
      else
        match decodeIntent intentExt.value with
        | .error error => Action.fail error
        | .ok intent =>
            assertPermissions env link intent
            addLease { certificate := clientCert, leaseStart := now }

/-! ## The proxies and the engine together -/

/-- The engine and the proxies of the tenants. -/
structure System (ι : Type) where
  service : Service
  proxies : ι → Proxy

/-- What happens at an instant: a request to the engine, a handshake at a proxy, or
the start of a proxy with the serial number in its certificate. -/
inductive Event (ι : Type) where
  | request (env : Env) (request : Request)
  | handshake (proxy : ι) (env : Env) (link : Link) (verifiedChains : List (List Certificate))
  | boot (proxy : ι) (serialNumber : UInt64)

namespace System

variable {ι : Type} [DecidableEq ι]

/-- A handshake at a proxy. -/
def handshake (system : System ι) (now : Nat) (proxy : ι) (env : Env) (link : Link)
    (verifiedChains : List (List Certificate)) : Outcome String Unit × Proxy × Service :=
  verifyPeerCertificate now env link verifiedChains (system.proxies proxy, system.service)

/-- The system after an event.  A panic ends the proxy's process, and a new one has
no leases. -/
def step (input : Nat × Event ι) (system : System ι) : System ι :=
  match input with
  | (_, .request env request) => { system with service := Tolla.step (env, request) system.service }
  | (now, .handshake proxy env link verifiedChains) =>
      let (outcome, after, service) := system.handshake now proxy env link verifiedChains
      let after := match outcome with
        | .panic _ => { after with leases := [] }
        | _ => after
      { service := service, proxies := Function.update system.proxies proxy after }
  | (_, .boot proxy serialNumber) =>
      { system with proxies := Function.update system.proxies proxy ⟨serialNumber, []⟩ }

/-- The system after a sequence of events. -/
def run (events : List (Nat × Event ι)) (system : System ι) : System ι :=
  Runs.exec step events system

end System
end Tolla
