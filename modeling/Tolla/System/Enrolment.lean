import Tolla.Client.Storage
import Tolla.Engine.Signing
import Tolla.Protocol.Remote
import Tolla.System.Intents
import Tolla.System.Selection
import Tolla.System.Startup

/-!
# From the settings of a client to the database of a tenant

A client writes an intent into its settings, and a tenant's proxy lets it in or not.  In
between, the client makes a certificate request and sends it over a connection that cuts it
anywhere; the engine signs it, records it and sends it back; the client writes it to a file;
a TLS library hands it to the proxy; the proxy reads the intent out of it and asks the
engine, which looks for it among the purposes of the tenant.

`ClientEnv.online` puts the client on the network: what comes of its request is the exchange
with the service.  `retrieve_certificate` then returns `Ok` only if the service issued a
certificate (`issues_of_ok`), although the client itself would take any body for a success.
So the certificate that is stored has the key that is stored beside it, and is recorded, and
what decides at the end is the text of the settings (`settings_decide`).
-/

namespace Tolla

open AltName Effects Proto TollaClient

/-- What comes of a message to the service. -/
def Network.send (network : Network) (env : Env) (service : Service) (_ : String)
    (message : FromClient) : Outcome String ToClient :=
  ((sendProtorequest network env message service).1).getD (.err "no reply")

/-- The client on a network, with the service at the other end. -/
def ClientEnv.online (client : ClientEnv) (network : Network) (env : Env) (service : Service) :
    ClientEnv :=
  { client with send := network.send env service }

/-- The message of `issue_cert_request`. -/
def ClientEnv.asks (client : ClientEnv) (conf : Settings) : FromClient where
  msg := some (.certificateRequest
    { intent := conf.process.intent
      request := client.requestPem (certRequest conf.process client.keyPair)
      rootCert := [] })

variable {client : ClientEnv} {conf : Settings} {network : Network} {env : Env}
  {service : Service} {disk after : Disk}

/-! ## What the client gets -/

theorem send_of_reply {toClient : ToClient} (hreply : reply client conf = .ok toClient) :
    ∃ addr, client.caAddress = some addr ∧
      client.send (addr ++ ":" ++ conf.ca.port) (client.asks conf) = .ok toClient := by
  have hrun : TollaClient.request client conf (fun _ => none) = (.ok toClient, fun _ => none) := by
    rw [request_eq, hreply]
  unfold TollaClient.request issueCertRequest at hrun
  iterate 12 obtain ⟨⟨⟩, _, -, hrun⟩ := Action.bind_eq_ok hrun
  split at hrun
  · cases hrun
  · exact ⟨_, ‹_›, (Prod.mk.inj hrun).1⟩

/-- What the client takes for a reply with a body is the reply of the service. -/
theorem call_of_receives {body : Body}
    (hreceives : Receives (client.online network env service) conf body) :
    ∃ success, ProtoService.call env (client.asks conf) service =
      (.ok ⟨success, some body⟩, (sendProtorequest network env (client.asks conf) service).2) := by
  obtain ⟨⟨success, msg⟩, hreply, hmsg⟩ := hreceives
  obtain rfl : msg = some body := hmsg
  obtain ⟨addr, -, hsend⟩ := send_of_reply hreply
  have hgiven : ((sendProtorequest network env (client.asks conf) service).1).getD
      (.err "no reply") = .ok ⟨success, some body⟩ := hsend
  rcases hexchange : sendProtorequest network env (client.asks conf) service with ⟨result, final⟩
  rw [hexchange] at hgiven
  rw [exchange_refines] at hexchange
  cases result with
  | none => cases hgiven
  | some outcome =>
      obtain rfl : outcome = .ok ⟨success, some body⟩ := hgiven
      exact ⟨success, call_of_remoteCall hexchange⟩

/-- `retrieve_certificate` returns `Ok` only if the service issued a certificate, and it
stores that certificate. -/
theorem issues_of_ok
    (hok : retrieveCertificate (client.online network env service) conf disk = (.ok (), after)) :
    ∃ certificate, Issues service (env, .message (client.asks conf)) certificate ∧
      (sendProtorequest network env (client.asks conf) service).2 =
        step (env, .message (client.asks conf)) service ∧
      after = (filed (.certificate certificate) disk).put "key.pem"
        (client.keyPem client.keyPair) := by
  obtain ⟨body, hreceives, hafter⟩ := retrieveCertificate_ok hok
  obtain ⟨success, hcall⟩ := call_of_receives hreceives
  -- the service answers a certificate request with a certificate or not at all
  obtain ⟨certificate, between, -, hpure⟩ := Action.bind_eq_ok (locked_eq_ok hcall)
  have hbody := Outcome.ok.inj (Prod.mk.inj hpure).1
  simp only [ToClient.mk.injEq, Option.some.injEq] at hbody
  obtain ⟨rfl, rfl⟩ := hbody
  refine ⟨certificate, ⟨_, true, rfl, congrArg Prod.fst hcall⟩, ?_, hafter⟩
  rw [step, serve, Action.bind_state fun _ => .pure _, hcall]

/-- The request of a certificate that the client asked for. -/
theorem ClientEnv.asks_eq {r : Proto.Certificate}
    (hrequest : Request.message (client.asks conf) = .message ⟨some (.certificateRequest r)⟩) :
    r.intent = conf.process.intent ∧
      r.request = client.requestPem (certRequest conf.process client.keyPair) := by
  cases hrequest
  exact ⟨rfl, rfl⟩

/-- If `retrieve_certificate` returns `Ok` in an empty directory, the directory has a
certificate, signed by the engine, for the key that is stored beside it.  The engine has
recorded the intent of the settings under the identifier in the certificate, for good. -/
theorem retrieval_sound
    (hok : retrieveCertificate (client.online network env service) conf disk = (.ok (), after))
    (hempty : ∀ name, disk name = none)
    (hpem : env.openssl.requestFromPem (client.requestPem
      (certRequest conf.process client.keyPair)) =
        some (certRequest conf.process client.keyPair)) :
    ∃ (certificate : X509) (identifier : String),
      after "cert.pem" = some (env.openssl.toPem certificate) ∧
      after "ca.pem" = some (env.openssl.toPem service.world.authority.rootCtf) ∧
      after "key.pem" = some (client.keyPem client.keyPair) ∧
      certificate.publicKey = client.keyPair.publicPart ∧
      certificate.signedBy = service.world.authority.keyPair.publicPart ∧
      certificate.extension .subjectKeyIdentifier = some identifier ∧
      certificate.extension .subjectAltName =
        some (Authority.altNameText conf.process.intent) ∧
      ∀ later, ⟨identifier, [conf.process.intent]⟩ ∈ (run later
        (sendProtorequest network env (client.asks conf) service).2).world.intents := by
  obtain ⟨reply, hissues, hservice, rfl⟩ := issues_of_ok hok
  obtain ⟨r, hrequest, hsigns⟩ := hissues.signs
  obtain ⟨r', record, hrequest', hsigned, -, hrow⟩ := hissues.recorded
  obtain ⟨hintent, hbuf⟩ := ClientEnv.asks_eq hrequest
  obtain ⟨hintent', -⟩ := ClientEnv.asks_eq hrequest'
  rw [hintent, hbuf] at hsigns
  rw [hintent'] at hsigned
  obtain ⟨certificate, request, hbytes, hsigner, hread, hkey, hidentifier, haltName⟩ :=
    hsigns.certificate
  obtain rfl := Option.some.inj (hpem.symm.trans hread)
  refine ⟨certificate, _, ?_, ?_, ?_, (Option.some.inj hkey).symm, hsigner, hidentifier, haltName,
    fun later => ?_⟩
  · simp [Disk.put, filed, hempty, overwrite, hbytes]
  · simp [Disk.put, filed, hempty, overwrite, hsigns.root]
  · simp [Disk.put, filed, hempty, overwrite]
  · rw [hservice]
    rw [hsigned.record] at hrow
    exact intents_kept hrow later

/-- Bob's client, on which every call works. -/
def bobsClient : ClientEnv := ClientEnv.drawing 5 (.error ⟨""⟩)

/-- The engine reads bob's request, and one intent is asked for. -/
def bobsEnv : Env :=
  { Env.calm 0 with
    uuid := 6
    openssl := { OpenSsl.only "research" with
      requestFromPem := fun _ => some (certRequest Settings.sample.process ⟨5, 5⟩) } }

theorem bob_retrieves :
    retrieveCertificate (bobsClient.online .calm bobsEnv Service.blank) Settings.sample
      (fun _ => none) = (.ok (), (retrieveCertificate
        (bobsClient.online .calm bobsEnv Service.blank) Settings.sample (fun _ => none)).2) :=
  Prod.ext (by decide +kernel) rfl

theorem retrieval_sound_bob :
    ∃ (certificate : X509) (identifier : String), certificate.publicKey = 5 ∧
      certificate.extension .subjectKeyIdentifier = some identifier ∧
      ⟨identifier, ["research"]⟩ ∈ (sendProtorequest .calm bobsEnv (bobsClient.asks Settings.sample)
        Service.blank).2.world.intents := by
  obtain ⟨certificate, identifier, -, -, -, hkey, -, hidentifier, -, hrow⟩ :=
    retrieval_sound bob_retrieves (fun _ => rfl) rfl
  exact ⟨certificate, identifier, hkey, hidentifier, hrow []⟩

/-! ## What the proxy decides -/

variable {id : String} {other : Item → Option (List UInt8)}
  {parse : List UInt8 → Tolla.Certificate}

/-- A tenant is onboarded, and later a client without a certificate retrieves one.  Then its
file holds a certificate, and at any time from then on a proxy that starts in the tenant's
container lets the client in if and only if the intent of the settings, as far as OpenSSL
carries it, is among the purposes of the tenant. -/
theorem settings_decide (hinitial : service.Initial) {before middle rest : List (Env × Request)}
    {input : Env × Request} (honboard : OnboardOk id (run before service) input)
    (hok : retrieveCertificate (client.online network env
      (run (before ++ input :: middle) service)) conf disk = (.ok (), after))
    (hempty : disk "cert.pem" = none) (hconforms : env.openssl.Conforms other parse)
    (hfresh : Runs.Along step BringsFreshSerial
      (before ++ input :: (middle ++ (env, .message (client.asks conf)) :: rest)) service)
    (hleaves : Runs.Along step (LeavesOnboarded id)
      (middle ++ (env, .message (client.asks conf)) :: rest) (step input (run before service)))
    (helsewhere : ∀ other ∈ middle ++ (env, .message (client.asks conf)) :: rest,
      Elsewhere (mountDir id) other.2)
    (hhealthy : (run (before ++ input ::
      (middle ++ (env, .message (client.asks conf)) :: rest)) service).poisoned = false) :
    ∃ bytes purposes startup, after "cert.pem" = some bytes ∧
      input.2.onboards = some (id, purposes) ∧
      (∀ container ∈ (run (before ++ input ::
          (middle ++ (env, .message (client.asks conf)) :: rest)) service).world.containers,
        container.name = id → Proxy.main container.env (run (before ++ input ::
          (middle ++ (env, .message (client.asks conf)) :: rest)) service).world.files =
            .ok startup) ∧
      ∀ now surroundings issuers, ¬ Env.Fails surroundings (.findOne .consents) →
        (∀ issuer ∈ issuers, Tolla.Certificate.subjectAltName issuer = none) →
        ((verifyPeerCertificate now surroundings .works [parse bytes :: issuers]
          (startup.proxy, run (before ++ input ::
            (middle ++ (env, .message (client.asks conf)) :: rest)) service)).1 = .ok () ↔
          Text.latin1 (carried (Text.utf8 conf.process.intent)) ∈ purposes) := by
  obtain ⟨certificate, hissues, -, rfl⟩ := issues_of_ok hok
  obtain ⟨r, record, hasked, hsigned, -⟩ := hissues.recorded
  rw [(ClientEnv.asks_eq hasked).1] at hsigned
  obtain ⟨purposes, startup, hrequest, hserves⟩ :=
    honboard.serves hinitial hfresh hleaves helsewhere
  refine ⟨certificate.request, purposes, startup, ?_, hrequest, hserves.starts, ?_⟩
  · simp [Disk.put, filed, hempty, overwrite]
  · intro now surroundings issuers hworks hissuers
    obtain ⟨ext, hext, hintent⟩ := (carries_of_signed hconforms hsigned _).mpr rfl
    have hselected : intentExtension [parse certificate.request :: issuers] =
        some (parse certificate.request, ext) := by
      rw [intentExtension_eq_foldl, List.flatten_singleton, ← List.nil_append (_ :: issuers)]
      exact foldl_examine_of_last hext hissuers none
    rw [hserves.admits hhealthy now surroundings _ _ ext _ hworks hselected hintent,
      Text.fromUtf8Lossy_utf8]

/-- Alice is onboarded, and bob retrieves a certificate and comes to her. -/
theorem settings_decide_bob :
    ∃ startup : Startup, (verifyPeerCertificate 0 (Env.calm 0) .works
      [[certificateFor "research"]] (startup.proxy,
        run [(Env.calm 7, .register (.ok ⟨"alice", ["research"]⟩)),
          (bobsEnv, .message (bobsClient.asks Settings.sample))] Service.blank)).1 = .ok () := by
  have honboard : OnboardOk "alice" (run [] Service.blank)
      (Env.calm 7, .register (.ok ⟨"alice", ["research"]⟩)) := ⟨rfl, ["research"], rfl, by decide⟩
  have hok : retrieveCertificate (bobsClient.online .calm bobsEnv (run
      ([] ++ (Env.calm 7, .register (.ok ⟨"alice", ["research"]⟩)) :: []) Service.blank))
      Settings.sample (fun _ => none) =
        (.ok (), (retrieveCertificate (bobsClient.online .calm bobsEnv (run
          ([] ++ (Env.calm 7, .register (.ok ⟨"alice", ["research"]⟩)) :: []) Service.blank))
          Settings.sample (fun _ => none)).2) :=
    Prod.ext (by decide +kernel) rfl
  have hconforms : bobsEnv.openssl.Conforms (fun _ => none)
      (fun _ => certificateFor "research") :=
    OpenSsl.only_conforms rfl (by decide +kernel) (by decide +kernel)
  have hfresh : Runs.Along step BringsFreshSerial
      ([] ++ (Env.calm 7, .register (.ok ⟨"alice", ["research"]⟩)) ::
        ([] ++ (bobsEnv, .message (bobsClient.asks Settings.sample)) :: [])) Service.blank := by
    refine ⟨?_, ?_, trivial⟩
    · intro row hrow _
      obtain rfl := Option.some.inj hrow
      decide
    · intro row hrow
      cases hrow
  have hleaves : Runs.Along step (LeavesOnboarded "alice")
      ([] ++ (bobsEnv, .message (bobsClient.asks Settings.sample)) :: [])
      (step (Env.calm 7, .register (.ok ⟨"alice", ["research"]⟩)) (run [] Service.blank)) := by
    refine ⟨fun hdeboards => ?_, trivial⟩
    cases hdeboards
  have helsewhere :
      ∀ other ∈ [] ++ (bobsEnv, Request.message (bobsClient.asks Settings.sample)) :: [],
        Elsewhere (mountDir "alice") other.2 := by
    intro other hother
    obtain rfl := List.mem_singleton.mp hother
    intro id purposes hrequest
    cases hrequest
  obtain ⟨bytes, purposes, startup, -, hrequest, -, hdecides⟩ := settings_decide
    Service.blank_initial honboard hok rfl hconforms hfresh hleaves helsewhere
    (by decide +kernel)
  obtain ⟨-, rfl⟩ := Prod.mk.inj (Option.some.inj hrequest)
  have hdecided := hdecides 0 (Env.calm 0) [] ((Env.calm_faultless 0).not_fails _) (by simp)
  simp only [List.nil_append] at hdecided
  exact ⟨startup, hdecided.mpr (by decide +kernel)⟩

end Tolla
