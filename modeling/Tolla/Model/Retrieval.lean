import Tolla.Model.Messages

/-!
# How the client gets its certificate

`client/src/main.rs`: the client draws a key, sends a certificate request for it,
and writes what comes back into three files in its directory.

`OpenOptions::new().create(true).write(true)` does not truncate: what is written
replaces the front of the file, and if the old content was longer its end stays.

`ClientEnv` has what the client does not decide itself, one value for each call:
which OpenSSL calls fail, which key is drawn, what comes of the request and which
files cannot be written.  A call that waits for a reply for good does not end, and
is not here.
-/

namespace Tolla

open Effects Proto

/-! ## The directory of the client -/

/-- The content of every file. -/
abbrev Disk := String → Option (List UInt8)

/-- What the client computes. -/
abbrev ClientAction (α : Type) := Action Disk String α

/-- How a file cannot be written: it cannot be opened, or the writing stops after some
bytes. -/
inductive DiskFault where
  | unopened
  | stopped (count : Nat)
  deriving DecidableEq, Repr

/-- The content of a file after data was written to its start. -/
def overwrite (old data : List UInt8) : List UInt8 := data ++ old.drop data.length

/-- The disk after data was written to the start of a file, which is created if it is
not there. -/
def Disk.put (disk : Disk) (filename : String) (data : List UInt8) : Disk :=
  fun name => if name = filename then some (overwrite ((disk filename).getD []) data) else disk name

/-! ## Settings -/

/-- The part of the settings that the request is made from. -/
structure Process where
  commonName : String
  country : String
  intent : String
  state : String
  org : String
  deriving DecidableEq, Repr

/-- The address of the authority comes from the environment, its port from here. -/
structure Ca where
  port : String
  deriving DecidableEq, Repr

structure Settings where
  process : Process
  ca : Ca
  deriving DecidableEq, Repr

/-! ## What the client does not decide -/

/-- The OpenSSL calls of the client. -/
inductive SslCall where
  | generate
  | fromRsa
  | newRequest
  | setPubkey
  | newName
  | appendEntry (nid : Nid)
  | setSubjectName
  | sign
  | requestToPem
  | privateKeyToPem
  deriving DecidableEq, Repr

/-- The surroundings of one call. -/
structure ClientEnv where
  /-- The calls that fail, and the error they report. -/
  fault : SslCall → Option String
  /-- `Rsa::generate`. -/
  keyPair : PKey
  /-- `PEM_write_bio_X509_REQ`. -/
  requestPem : X509Req → List UInt8
  /-- `PEM_write_bio_PrivateKey`. -/
  keyPem : PKey → List UInt8
  /-- `env::var("CA_ADDRESS")`. -/
  caAddress : Option String
  /-- `send_protorequest` to the socket address with that text.  A text that is not
  the text of a socket address is a panic. -/
  send : String → FromClient → Outcome String ToClient
  /-- The files that cannot be written. -/
  diskFault : String → Option DiskFault

/-- Make an OpenSSL call: it works, or it returns its error. -/
def ssl (env : ClientEnv) (name : SslCall) : ClientAction Unit :=
  match env.fault name with
  | some error => Action.fail error
  | none => pure ()

/-! ## The calls -/

/-- Write data to the start of a file; both unwraps panic. -/
def dumpCertificate (env : ClientEnv) (filename : String) (data : List UInt8) :
    ClientAction Unit := ⟨fun disk =>
  match env.diskFault filename with
  | some .unopened => (.panic "called `Result::unwrap()` on an `Err` value", disk)
  | some (.stopped count) =>
      (.panic "called `Result::unwrap()` on an `Err` value", disk.put filename (data.take count))
  | none => (.ok (), disk.put filename data)⟩

/-- The certificate request for a key. -/
def certRequest (process : Process) (pkey : PKey) : X509Req where
  publicKey := some pkey.publicPart
  subject :=
    [(.countryName, ⟨some process.country⟩), (.stateOrProvinceName, ⟨some process.state⟩),
      (.organizationName, ⟨some process.org⟩), (.commonName, ⟨some process.commonName⟩)]

namespace TollaClient

def issueCertRequest (env : ClientEnv) (certAuth : Ca) (process : Process) (pkey : PKey) :
    ClientAction ToClient := do
  ssl env .newRequest
  ssl env .setPubkey
  ssl env .newName
  ssl env (.appendEntry .countryName)
  ssl env (.appendEntry .stateOrProvinceName)
  ssl env (.appendEntry .organizationName)
  ssl env (.appendEntry .commonName)
  ssl env .setSubjectName
  ssl env .sign
  ssl env .requestToPem
  let pem := env.requestPem (certRequest process pkey)
  match env.caAddress with
  | none => Action.abort "called `Result::unwrap()` on an `Err` value"
  | some addr => ⟨fun disk =>
      (env.send (addr ++ ":" ++ certAuth.port)
        { msg := some (.certificateRequest
          { intent := process.intent, request := pem, rootCert := [] }) }, disk)⟩

/-- Of the replies with a body, only a certificate is looked at, but the key is
written for all of them. -/
def retrieveCertificate (env : ClientEnv) (conf : Settings) : ClientAction Unit := do
  ssl env .generate
  ssl env .fromRsa
  let pkey := env.keyPair
  let certificate ← issueCertRequest env conf.ca conf.process pkey
  match certificate.msg with
  | none => Action.abort "called `Option::unwrap()` on a `None` value"
  | some body =>
      match body with
      | .certificate c =>
          dumpCertificate env "cert.pem" c.request
          dumpCertificate env "ca.pem" c.rootCert
      | _ => pure ()
      ssl env .privateKeyToPem
      dumpCertificate env "key.pem" (env.keyPem pkey)

/-- The program of the client, up to the call of `setup_mongod`, which gets the address that
is returned.  `settings` is what the settings file holds, and `send` is the second
`send_protorequest`. -/
def main (settings : Option Settings) (env : ClientEnv)
    (send : String → FromClient → Outcome String ToClient) : ClientAction (Option String) := do
  match settings with
  | none => Action.abort "called `Result::unwrap()` on an `Err` value"
  | some conf =>
      Action.unwrap "called `Result::unwrap()` on an `Err` value" (retrieveCertificate env conf)
      match env.caAddress with
      | none => Action.abort "called `Result::unwrap()` on an `Err` value"
      | some addr =>
          let result ← Action.unwrap "called `Result::unwrap()` on an `Err` value" ⟨fun disk =>
            (send (addr ++ ":" ++ conf.ca.port) { msg := some (.requestIps true) }, disk)⟩
          match result.msg with
          | some (.ips addresses) =>
              match addresses.ip with
              | [] => Action.abort "index out of bounds: the len is 0 but the index is 0"
              | first :: _ => pure (some first)
          -- the program ends without an error
          | _ => pure none

end TollaClient
end Tolla
