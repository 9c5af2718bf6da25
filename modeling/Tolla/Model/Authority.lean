import Mathlib.Algebra.Group.Nat.Defs
import Tolla.Library.Der
import Tolla.Model.Messages

/-!
# The certificate authority

`tolla/src/ca.rs`: the certificate of a tenant's database, and the certificate
that a client gets for an intent.  The unwraps of the source that depend on what
a client sent are panics here; those on constants cannot fail and are left out.
-/

namespace Tolla.Authority

open Effects

/-- The issuer of every certificate. -/
def issuerName : List (Nid × String) :=
  [(.countryName, "NO"), (.stateOrProvinceName, "TR"), (.organizationName, "IFI"),
    (.commonName, "localhost")]

/-- The subject of a database certificate. -/
def userName : List (Nid × String) :=
  [(.countryName, "NO"), (.stateOrProvinceName, "TR"), (.organizationName, "IFI"),
    (.commonName, "user")]

/-- The certificate of `create_db_certificate` for the key pair and the serial
number drawn. -/
def dbCertificate (authority : Authority) (keyPair : PKey) (serial : UInt32)
    (validity : Validity) : X509 where
  version := 3
  serialNumber := serial.toNat
  validity := validity
  subject := userName
  issuer := issuerName
  publicKey := keyPair.publicPart
  extensions := [(.extKeyUsage, "serverAuth")]
  signedBy := authority.keyPair.publicPart

/-- The serial number in a certificate: `bignum.to_asn1_integer()`, an INTEGER in
DER. -/
def serialElement (certificate : X509) : List UInt8 :=
  Der.encode 0x02 (Der.natural certificate.serialNumber)

/-- Create a certificate and a key pair; the serial number is the result. -/
def createDbCertificate (env : Env) : Engine (PKey × X509 × UInt32) :=
  call env .generateKey ⟨fun world =>
    let certificate := dbCertificate world.authority env.keyPair env.serial env.validity
    (.ok (env.keyPair, certificate, env.serial), world)⟩

/-! ## Client certificates -/

/-- The text of a hexadecimal digit. -/
def hexDigit (n : Nat) : Char := Nat.digitChar (n % 16)

/-- `Uuid::simple().to_string()`: 32 hexadecimal digits. -/
def simple (uuid : BitVec 128) : String :=
  String.ofList ((List.range 32).map fun index => hexDigit (uuid.toNat / 16 ^ (31 - index)))

/-- The first entry of a kind, or the message for its absence. -/
def entry (request : X509Req) (nid : Nid) (missing : String) : Engine Asn1String :=
  match request.subject.find? fun item => item.1 = nid with
  | some item => pure item.2
  | none => Action.fail missing

/-- `x509_name.append_entry_by_nid(nid, &data.as_utf8().unwrap().to_string())`,
which asserts that the length of the text is a `c_int`. -/
def appendEntry (env : Env) (nid : Nid) (data : Asn1String) : Engine (Nid × String) := do
  match data.asUtf8 with
  | none => Action.abort "called `Result::unwrap()` on an `Err` value"
  | some text =>
      if 2 ^ 31 ≤ text.utf8ByteSize then
        Action.abort "assertion failed: value.len() <= c_int::max_value() as usize"
      else
        match env.openssl.addEntry nid text with
        | some error => Action.fail error
        | none => pure (nid, text)

/-- `X509Extension::new_nid`: the value becomes a C string, so it must not
contain a NUL. -/
def newNid (env : Env) (nid : Nid) (value : String) : Engine Unit := do
  if value.toList.contains '\x00' then Action.abort "called `Result::unwrap()` on an `Err` value"
  else
    match env.openssl.extension nid value with
    | some error => Action.fail error
    | none => pure ()

/-- The configuration text of the alternative name for an intent. -/
def altNameText (intent : String) : String := "otherName:1.3.6.1.4.1.99;UTF8:" ++ intent

/-- The certificate of `sign_certificate`. -/
def identityCertificate (authority : Authority) (pubkey : Nat) (subject : List (Nid × String))
    (subjectId altName : String) (validity : Validity) : X509 where
  version := 0
  serialNumber := 0
  validity := validity
  subject := subject
  issuer := issuerName
  publicKey := pubkey
  extensions := [(.keyUsage, "digitalSignature"), (.extKeyUsage, "clientAuth"),
    (.subjectKeyIdentifier, subjectId), (.subjectAltName, altName)]
  signedBy := authority.keyPair.publicPart

/-- Create an identity certificate from a certificate request. -/
def signCertificate (env : Env) (buf : List UInt8) (intent : String) :
    Engine (Intent × Proto.Certificate) := do
  let world ← Action.read
  match env.openssl.requestFromPem buf with
  | none => Action.abort "called `Result::unwrap()` on an `Err` value"
  | some request =>
  match request.publicKey with
  | none => Action.abort "called `Result::unwrap()` on an `Err` value"
  | some pubkey =>
  let cn ← entry request .commonName "no common name"
  let country ← entry request .countryName "no contry"
  let org ← entry request .organizationName "no org"
  let state ← entry request .stateOrProvinceName "no state"
  let cn ← appendEntry env .commonName cn
  let country ← appendEntry env .countryName country
  let org ← appendEntry env .organizationName org
  let state ← appendEntry env .stateOrProvinceName state
  let subjectId := simple env.uuid
  newNid env .subjectKeyIdentifier subjectId
  newNid env .subjectAltName (altNameText intent)
  let serialized := env.openssl.toPem (identityCertificate world.authority pubkey
    [cn, country, org, state] subjectId (altNameText intent) env.validity)
  pure ({ id := subjectId, intent := [intent] },
    { intent := "", request := serialized, rootCert := env.openssl.toPem world.authority.rootCtf })

end Tolla.Authority
