import Tolla.Engine.Certificates

/-!
# What is signed

The certificate that a client gets is put together from three places: the key comes from the
request, the identifier and the alternative name from the engine, the signature from the
authority of the moment, whose root certificate is sent along.
-/

namespace Tolla

open Effects

/-- A reply with a certificate for the request and the intent. -/
structure Authority.Signs (authority : Authority) (env : Env) (buf : List UInt8)
    (intent : String) (reply : Proto.Certificate) : Prop where
  certificate : ∃ (certificate : X509) (request : X509Req),
    reply.request = env.openssl.toPem certificate ∧
    certificate.signedBy = authority.keyPair.publicPart ∧
    env.openssl.requestFromPem buf = some request ∧
    request.publicKey = some certificate.publicKey ∧
    certificate.extension .subjectKeyIdentifier = some (simple env.uuid) ∧
    certificate.extension .subjectAltName = some (altNameText intent)
  root : reply.rootCert = env.openssl.toPem authority.rootCtf

theorem Authority.signs_of_ok {env : Env} {buf : List UInt8} {intent : String}
    {record : Intent} {reply : Proto.Certificate} {world after : World}
    (hok : signCertificate env buf intent world = (.ok (record, reply), after)) :
    world.authority.Signs env buf intent reply := by
  obtain ⟨request, pubkey, subject, hrequest, hpubkey, -, -, -, -, rfl⟩ := signCertificate_spec hok
  exact ⟨⟨_, request, rfl, rfl, hrequest, hpubkey, rfl, rfl⟩, rfl⟩

/-- A certificate that is issued is signed by the authority of the moment. -/
theorem Issues.signs {service : Service} {input : Env × Request}
    {certificate : Proto.Certificate} (hissues : Issues service input certificate) :
    ∃ r, input.2 = .message ⟨some (.certificateRequest r)⟩ ∧
      service.world.authority.Signs input.1 r.request r.intent certificate := by
  obtain ⟨message, success, hinput, hreply⟩ := hissues
  obtain ⟨r, rfl, hcert⟩ := handleIncoming_certificate
    (locked_eq_ok (Prod.ext (y := (Outcome.ok _, _)) hreply rfl))
  obtain ⟨⟨record, reply⟩, between, hsign, hrecord⟩ := Action.bind_eq_ok hcert
  obtain ⟨⟨⟩, last, -, hpure⟩ := Action.bind_eq_ok hrecord
  obtain rfl : reply = certificate := Outcome.ok.inj (Prod.mk.inj hpure).1
  exact ⟨r, hinput, Authority.signs_of_ok hsign⟩

end Tolla
