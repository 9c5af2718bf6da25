import Tolla.Model.Authority
import Tolla.Model.Proxy

/-!
# The start of a proxy

`main` in `proxy/main.go` reads four environment variables and three files.  A variable
that is missing is a panic; a file that cannot be read or used is logged and ends the
process.

The variables are those of the container that `onboard_user` created, and the files are
the ones in the mount directory, which the container shares with the engine.  They are
all read at one instant, and their directory is looked up from the root.
-/

namespace Tolla

/-- A variable of the environment, split at its first `=`. -/
def splitVariable (text : String) : String × String :=
  (String.ofList (text.toList.takeWhile (· ≠ '=')),
    String.ofList (text.toList.dropWhile (· ≠ '=')).tail)

/-- `os.Getenv`: a variable that is not there is empty. -/
def getenv (vars : List String) (key : String) : String :=
  (((vars.map splitVariable).find? fun item => item.1 = key).map Prod.snd).getD ""

/-- How the process ends before it listens. -/
inductive Exit where
  /-- `panic(..)`. -/
  | missing (message : String)
  /-- `log.Println(err)`, then `os.Exit(1)`. -/
  | unreadable (path : String)
  | unusable (error : String)
  /-- `block.Bytes` of a block that is nil. -/
  | nilBlock
  deriving DecidableEq, Repr

/-- What `main` has when it starts to listen. -/
structure Startup where
  proxy : Proxy
  portIncoming : String
  dbAddr : String
  caAddr : String
  /-- The key pair of the TLS server. -/
  certificate : X509
  key : PKey
  clientCAs : List X509
  deriving DecidableEq, Repr

/-- `ioutil.ReadFile(fmt.Sprintf("%s/%s", pemFolder, filename))`. -/
def readPem (files : FileTree.Tree Pem) (pemFolder filename : String) : Except Exit Pem :=
  match FileTree.openFile files pemFolder filename with
  | none => .error (.unreadable (pemFolder ++ "/" ++ filename))
  | some content => .ok content

/-- `tls.X509KeyPair`. -/
def x509KeyPair : Pem → Pem → Except Exit (X509 × PKey)
  | .empty, _ => .error (.unusable "tls: failed to find any PEM data in certificate input")
  | .privateKey _, _ => .error (.unusable ("tls: failed to find certificate PEM data in " ++
      "certificate input, but did find a private key; PEM inputs may have been switched"))
  | .certificate _, .empty =>
      .error (.unusable "tls: failed to find any PEM data in key input")
  | .certificate _, .certificate _ => .error (.unusable
      "tls: found a certificate rather than a key in the PEM for the private key")
  | .certificate certificate, .privateKey key =>
      if certificate.publicKey = key.publicPart then .ok (certificate, key)
      else .error (.unusable "tls: private key does not match public key")

/-- `pem.Decode` and `x509.ParseCertificate`, up to the serial number. -/
def parseServerCert : Pem → Except Exit UInt64
  | .empty => .error .nilBlock
  | .privateKey _ => .error (.unusable "asn1: structure error")
  | .certificate certificate =>
      match Proxy.serialOf (Authority.serialElement certificate) with
      | none => .error (.unusable "asn1: structure error")
      | some serialNumber => .ok serialNumber

/-- `clientCertPool.AppendCertsFromPEM`, whose result nobody looks at. -/
def appendCertsFromPem : Pem → List X509
  | .certificate certificate => [certificate]
  | _ => []

/-- A variable without which the process panics. -/
def required (vars : List String) (name : String) : Except Exit String :=
  if getenv vars name = "" then .error (.missing (name ++ " not present"))
  else .ok (getenv vars name)

/-- `main`, up to `handleIncoming`. -/
def Proxy.main (vars : List String) (files : FileTree.Tree Pem) : Except Exit Startup := do
  let portIncoming ← required vars "LISTEN_ADDR"
  let dbAddr ← required vars "DB_ADDR"
  let caAddr ← required vars "CA_ADDR"
  let pemFolder ← required vars "PEM_FOLDER"
  let certFile ← readPem files pemFolder "certificate.pem"
  let keyFile ← readPem files pemFolder "keys.pem"
  let (certificate, key) ← x509KeyPair certFile keyFile
  let caCert ← readPem files pemFolder "CAcert.pem"
  let raw ← readPem files pemFolder "certificate.pem"
  let serialNumber ← parseServerCert raw
  return {
    proxy := { serialNumber := serialNumber, leases := [] }
    portIncoming := portIncoming
    dbAddr := dbAddr
    caAddr := caAddr
    certificate := certificate
    key := key
    clientCAs := appendCertsFromPem caCert }

end Tolla
