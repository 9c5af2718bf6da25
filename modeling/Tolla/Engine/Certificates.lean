import Tolla.Engine.Steps

/-!
# Certificates and the collection `intents`

A certificate request is signed first and recorded afterwards, and only if the
record was written does the client get the certificate.  Rows of `intents` are
never changed or deleted, and no row is written over another, so the record is
there for good and no two certificates share one (`certificates_accountable`),
although other clients can put rows with ids of their choice into the same
collection.
-/

namespace Tolla

open Effects Keyed

variable {env : Env} {request : Request} {world after : World} {service : Service}

/-! ## Signing -/

/-- The configuration text of an extension. -/
def X509.extension (certificate : X509) (nid : Nid) : Option String :=
  (certificate.extensions.find? fun item => item.1 = nid).map Prod.snd

namespace Authority

/-- A certificate that `sign_certificate` can build with this OpenSSL, under the identifier
and for the intent: its key comes from a request, and OpenSSL takes all that is put in. -/
structure Identity (openssl : OpenSsl) (uuid : BitVec 128) (intent : String)
    (certificate : X509) : Prop where
  built : ∃ authority pubkey subject validity,
    certificate = identityCertificate authority pubkey subject (simple uuid)
      (altNameText intent) validity ∧
    (∃ buf request, openssl.requestFromPem buf = some request ∧
      request.publicKey = some pubkey) ∧
    ∀ item ∈ subject, openssl.addEntry item.1 item.2 = none
  identified : openssl.extension .subjectKeyIdentifier (simple uuid) = none
  named : openssl.extension .subjectAltName (altNameText intent) = none

theorem Identity.extensions {openssl : OpenSsl} {uuid : BitVec 128} {intent : String}
    {certificate : X509} (hidentity : Identity openssl uuid intent certificate) :
    certificate.extension .subjectKeyIdentifier = some (simple uuid) ∧
      certificate.extension .subjectAltName = some (altNameText intent) := by
  obtain ⟨authority, pubkey, subject, validity, rfl, -⟩ := hidentity.built
  exact ⟨rfl, rfl⟩

theorem newNid_ok {nid : Nid} {value : String}
    (hok : newNid env nid value world = (.ok (), after)) :
    env.openssl.extension nid value = none := by
  unfold newNid at hok
  split at hok
  · cases hok
  · split at hok
    · cases hok
    · rename_i hextension
      exact hextension

theorem appendEntry_ok {nid : Nid} {data : Asn1String} {item : Nid × String}
    (hok : appendEntry env nid data world = (.ok item, after)) :
    env.openssl.addEntry item.1 item.2 = none := by
  unfold appendEntry at hok
  split at hok
  · cases hok
  split at hok
  · cases hok
  split at hok
  · cases hok
  · rename_i hadd
    obtain rfl := Outcome.ok.inj (Prod.mk.inj hok).1
    exact hadd

/-- What `sign_certificate` returns: the record of the intent under the identifier
drawn, and a certificate with that identifier and an alternative name that OpenSSL
made of the intent. -/
structure Signed (env : Env) (intent : String) (record : Intent) (reply : Proto.Certificate) :
    Prop where
  record : record = { id := simple env.uuid, intent := [intent] }
  certificate : ∃ certificate : X509, reply.request = env.openssl.toPem certificate ∧
    Identity env.openssl env.uuid intent certificate

/-- What `sign_certificate` has seen when it returns a certificate, and what it returns. -/
theorem signCertificate_spec {buf : List UInt8} {intent : String} {record : Intent}
    {reply : Proto.Certificate}
    (hok : signCertificate env buf intent world = (.ok (record, reply), after)) :
    ∃ request pubkey subject, env.openssl.requestFromPem buf = some request ∧
      request.publicKey = some pubkey ∧
      (∀ item ∈ subject, env.openssl.addEntry item.1 item.2 = none) ∧
      env.openssl.extension .subjectKeyIdentifier (simple env.uuid) = none ∧
      env.openssl.extension .subjectAltName (altNameText intent) = none ∧
      record = { id := simple env.uuid, intent := [intent] } ∧
      reply =
        { intent := ""
          request := env.openssl.toPem (identityCertificate world.authority pubkey subject
            (simple env.uuid) (altNameText intent) env.validity)
          rootCert := env.openssl.toPem world.authority.rootCtf } := by
  unfold signCertificate at hok
  obtain ⟨start, state, hread, hok⟩ := Action.bind_eq_ok hok
  obtain ⟨hstart, -⟩ := Prod.mk.inj hread
  obtain rfl : world = start := Outcome.ok.inj hstart
  split at hok
  · cases hok
  rename_i request hrequest
  split at hok
  · cases hok
  rename_i pubkey hpubkey
  -- the entries of the request, and then those of the certificate
  iterate 4 obtain ⟨_, _, -, hok⟩ := Action.bind_eq_ok hok
  obtain ⟨cn, _, hcn, hok⟩ := Action.bind_eq_ok hok
  obtain ⟨country, _, hcountry, hok⟩ := Action.bind_eq_ok hok
  obtain ⟨org, _, horg, hok⟩ := Action.bind_eq_ok hok
  obtain ⟨state, _, hstate, hok⟩ := Action.bind_eq_ok hok
  obtain ⟨⟨⟩, _, hkeyId, hok⟩ := Action.bind_eq_ok hok
  obtain ⟨⟨⟩, _, haltName, hok⟩ := Action.bind_eq_ok hok
  obtain ⟨hresult, -⟩ := Prod.mk.inj hok
  obtain ⟨rfl, rfl⟩ := Prod.mk.inj (Outcome.ok.inj hresult)
  have hsubject : ∀ item ∈ [cn, country, org, state],
      env.openssl.addEntry item.1 item.2 = none := by
    simp only [List.forall_mem_cons]
    exact ⟨appendEntry_ok hcn, appendEntry_ok hcountry, appendEntry_ok horg,
      appendEntry_ok hstate, by simp⟩
  exact ⟨request, pubkey, _, hrequest, hpubkey, hsubject, newNid_ok hkeyId, newNid_ok haltName,
    rfl, rfl⟩

theorem signCertificate_ok {buf : List UInt8} {intent : String} {record : Intent}
    {reply : Proto.Certificate}
    (hok : signCertificate env buf intent world = (.ok (record, reply), after)) :
    after = world ∧ Signed env intent record reply := by
  have hworld := signCertificate_respects env buf intent world
  rw [hok] at hworld
  obtain ⟨request, pubkey, subject, hrequest, hpubkey, hsubject, hkeyId, haltName, rfl, rfl⟩ :=
    signCertificate_spec hok
  exact ⟨hworld.symm, rfl, _, rfl,
    ⟨_, pubkey, subject, _, rfl, ⟨buf, request, hrequest, hpubkey⟩, hsubject⟩, hkeyId, haltName⟩

end Authority

/-! ## Recording -/

/-- A certificate request is signed and recorded, or it leaves everything as it was
and returns no certificate. -/
theorem handleCertRequest_cases (env : Env) (r : Proto.Certificate) (world : World) :
    (∃ record reply table, Authority.Signed env r.intent record reply ∧
      world.intents.insert record = some table ∧
      ConsentEngine.handleCertRequest env r world =
        (.ok reply, { world with intents := table })) ∨
    (ConsentEngine.handleCertRequest env r world).2 = world ∧
      ∀ reply, (ConsentEngine.handleCertRequest env r world).1 ≠ .ok reply := by
  have hworld := signCertificate_respects env r.request r.intent world
  unfold ConsentEngine.handleCertRequest
  rcases hsign : Authority.signCertificate env r.request r.intent world with ⟨outcome, between⟩
  rw [hsign] at hworld
  obtain rfl : world = between := hworld
  cases outcome with
  | err error =>
      rw [Action.bind_of_err hsign]
      exact .inr ⟨rfl, by simp⟩
  | panic message =>
      rw [Action.bind_of_panic hsign]
      exact .inr ⟨rfl, by simp⟩
  | ok result =>
      obtain ⟨record, reply⟩ := result
      rw [Action.bind_of_ok hsign]
      rcases addIntent_cases env record world with ⟨-, error, heq⟩ | ⟨-, table, hinsert, heq⟩
      · simp only [Action.bind_of_err heq]
        exact .inr ⟨trivial, by simp⟩
      · simp only [Action.bind_of_ok heq]
        exact .inl ⟨record, reply, table, (Authority.signCertificate_ok hsign).2, hinsert, rfl⟩

theorem Step.intents_kept {row : Intent} (hstep : Step env request world after)
    (hrow : row ∈ world.intents) : row ∈ after.intents := by
  cases hstep with
  | idle => exact hrow
  | onboard hrequest =>
      rename_i id purposes
      rcases hrun : ConsentEngine.onboardUser env id purposes world with ⟨outcome, after⟩
      cases onboardUser_spec hrun with
      | _ => exact hrow
  | deboard hrequest =>
      rename_i id
      rcases hrun : ConsentEngine.deboardUser env id world with ⟨outcome, after⟩
      cases deboardUser_spec hrun with
      | _ => exact hrow
  | consent hinsert => exact hrow
  | intent hinsert => exact (Table.mem_of_insert hinsert).mpr (.inl hrow)

theorem intents_kept {row : Intent} (hrow : row ∈ service.world.intents)
    (inputs : List (Env × Request)) : row ∈ (run inputs service).world.intents := by
  have halong : Runs.Along step (fun _ _ => True) inputs service :=
    Runs.along_of_forall fun _ _ _ => trivial
  refine Runs.exec_along (P := fun state : Service => row ∈ state.world.intents) ?_ halong hrow
  intro state input _ hstate
  exact (serve_step input.1 input.2 state).intents_kept hstate

/-! ## Certificates of a run -/

/-- The answer to the input is a reply with the certificate. -/
def Issues (service : Service) (input : Env × Request) (certificate : Proto.Certificate) : Prop :=
  ∃ message success, input.2 = .message message ∧
    (ProtoService.call input.1 message service).1 = .ok ⟨success, some (.certificate certificate)⟩

theorem handleIncoming_certificate {message : Proto.FromClient} {success : Bool}
    {certificate : Proto.Certificate}
    (hok : ConsentEngine.handleIncoming env message world =
      (.ok ⟨success, some (.certificate certificate)⟩, after)) :
    ∃ r, message = ⟨some (.certificateRequest r)⟩ ∧
      ConsentEngine.handleCertRequest env r world = (.ok certificate, after) := by
  -- the two results of a conclusion are told apart from a certificate by their bodies
  generalize hreply : (⟨success, some (.certificate certificate)⟩ : Proto.ToClient) = reply at hok
  cases handleIncoming_replied hok with
  | concluded result =>
      cases result with
      | error error => cases hreply
      | ok value => cases hreply
  | certified hcert =>
      cases hreply
      exact ⟨_, rfl, hcert⟩
  | listed hips => cases hreply

/-- A certificate that is issued is recorded under an identifier that was free. -/
theorem Issues.recorded {input : Env × Request} {certificate : Proto.Certificate}
    (hissues : Issues service input certificate) :
    ∃ r record, input.2 = .message ⟨some (.certificateRequest r)⟩ ∧
      Authority.Signed input.1 r.intent record certificate ∧
      ¬ service.world.intents.HasKey record.id ∧ record ∈ (step input service).world.intents := by
  obtain ⟨env, request⟩ := input
  obtain ⟨message, success, rfl, hreply⟩ := hissues
  simp only at hreply
  obtain ⟨r, rfl, hcert⟩ := handleIncoming_certificate
    (locked_eq_ok (Prod.ext (y := (Outcome.ok _, _)) hreply rfl))
  have hstep : (step (env, .message ⟨some (.certificateRequest r)⟩) service).world =
      (ProtoService.call env ⟨some (.certificateRequest r)⟩ service).2.world := by
    simp only [step, serve]
    rw [Action.bind_state fun _ => .pure _]
  rcases handleCertRequest_cases env r service.world with
    ⟨record, reply, table, hsigned, hinsert, heq⟩ | ⟨-, hnone⟩
  · obtain ⟨hvalue, hafter⟩ := Prod.mk.inj (heq.symm.trans hcert)
    obtain rfl := Outcome.ok.inj hvalue
    refine ⟨r, record, rfl, hsigned, (Table.insert_eq_some_iff.mp hinsert).1, ?_⟩
    rw [hstep, ProtoService.call, ← hafter]
    exact (Table.mem_of_insert hinsert).mpr (.inr rfl)
  · exact absurd (congrArg Prod.fst hcert) (hnone certificate)

/-- A certificate request that fails writes nothing. -/
theorem intents_of_failed {r : Proto.Certificate}
    (hfails : ∀ reply,
      (ProtoService.call env ⟨some (.certificateRequest r)⟩ service).1 ≠ .ok reply) :
    (step (env, .message ⟨some (.certificateRequest r)⟩) service).world.intents =
      service.world.intents := by
  rw [step, message_world]
  split
  · rfl
  rename_i hhealthy
  rw [show ConsentEngine.handleIncoming env ⟨some (.certificateRequest r)⟩ =
      ConsentEngine.handleCertRequest env r >>= fun cert =>
        pure ⟨true, some (.certificate cert)⟩ from rfl,
    Action.bind_state fun _ => .pure _]
  rcases handleCertRequest_cases env r service.world with ⟨record, reply, table, -, -, heq⟩ |
    ⟨hworld, -⟩
  · refine absurd ?_ (hfails ⟨true, some (.certificate reply)⟩)
    simp [ProtoService.call, locked, hhealthy, ConsentEngine.handleIncoming,
      Action.bind_of_ok heq]
  · rw [hworld]

/-- In every run, a certificate that the engine returned has a row in `intents`, from
then on and for good: under the identifier that is in the certificate, for the
intent that was asked for.  No other certificate has that identifier, and a
request that ends in an error leaves the rows alone.  `keyIdentifier` reads the
subject key identifier of a certificate in its PEM form, as it was put in. -/
theorem certificates_accountable (keyIdentifier : List UInt8 → Option String) (service : Service)
    (inputs : List (Env × Request))
    (hpem : ∀ input ∈ inputs, ∀ uuid intent certificate,
      Authority.Identity input.1.openssl uuid intent certificate →
        keyIdentifier (input.1.openssl.toPem certificate) = some (Authority.simple uuid)) :
    (∀ before input later certificate, inputs = before ++ input :: later →
      Issues (run before service) input certificate →
        ∃ r id, input.2 = .message ⟨some (.certificateRequest r)⟩ ∧
          keyIdentifier certificate.request = some id ∧
          ∀ more, more <+: later →
            ⟨id, [r.intent]⟩ ∈ (run (before ++ input :: more) service).world.intents) ∧
    (∀ before first between second later certificate other,
      inputs = before ++ first :: between ++ second :: later →
      Issues (run before service) first certificate →
      Issues (run (before ++ first :: between) service) second other →
        keyIdentifier certificate.request ≠ keyIdentifier other.request) ∧
    (∀ before env r later error,
      inputs = before ++ (env, .message ⟨some (.certificateRequest r)⟩) :: later →
      (ProtoService.call env ⟨some (.certificateRequest r)⟩ (run before service)).1 =
        .err error →
        (run (before ++ [(env, .message ⟨some (.certificateRequest r)⟩)]) service).world.intents =
          (run before service).world.intents) := by
  have hidentifier {input : Env × Request} {intent : String} {record : Intent}
      {certificate : Proto.Certificate} (hinput : input ∈ inputs)
      (hsigned : Authority.Signed input.1 intent record certificate) :
      keyIdentifier certificate.request = some record.id := by
    obtain ⟨x509, hrequest, hidentity⟩ := hsigned.certificate
    rw [hrequest, hpem input hinput _ _ _ hidentity, hsigned.record]
  refine ⟨?_, ?_, ?_⟩
  · intro before input later certificate hinputs hissues
    obtain ⟨r, record, hrequest, hsigned, -, hrow⟩ := hissues.recorded
    refine ⟨r, record.id, hrequest, hidentifier (by simp [hinputs]) hsigned, fun more _ => ?_⟩
    have hrecord : (⟨record.id, [r.intent]⟩ : Intent) = record := by rw [hsigned.record]
    rw [hrecord, run_append_cons]
    exact intents_kept hrow more
  · intro before first between second later certificate other hinputs hfirst hsecond
    obtain ⟨r, record, -, hsigned, -, hrow⟩ := hfirst.recorded
    obtain ⟨r', record', -, hsigned', hfree, -⟩ := hsecond.recorded
    rw [hidentifier (by simp [hinputs]) hsigned, hidentifier (by simp [hinputs]) hsigned']
    intro hsame
    rw [run_append_cons] at hfree
    exact hfree ⟨record, intents_kept hrow between, Option.some.inj hsame⟩
  · intro before env r later error _ herror
    rw [run_append_cons]
    exact intents_of_failed (fun reply => by simp [herror])

/-- A request with a key and all four entries, and certificates that are told apart by
their key identifier. -/
def OpenSsl.sample : OpenSsl where
  requestFromPem _ := some ⟨some 5, [(.commonName, ⟨some "bob"⟩), (.countryName, ⟨some "NO"⟩),
    (.organizationName, ⟨some "IFI"⟩), (.stateOrProvinceName, ⟨some "TR"⟩)]⟩
  addEntry _ _ := none
  extension _ _ := none
  toPem certificate := match certificate.extension .subjectKeyIdentifier with
    | none => []
    | some id => 45 :: Text.utf8 id

def OpenSsl.sampleIdentifier : List UInt8 → Option String
  | [] => none
  | _ :: bytes => Text.fromUtf8 bytes

/-- Bob asks for a certificate, and the random source returns `uuid`. -/
def certificateRequest (uuid : BitVec 128) : Env × Request :=
  ({ Env.calm 0 with uuid := uuid, openssl := OpenSsl.sample },
    .message ⟨some (.certificateRequest ⟨"research", [], []⟩)⟩)

/-- The reply to it. -/
def issued (uuid : BitVec 128) : Proto.Certificate :=
  ⟨"", 45 :: Text.utf8 (Authority.simple uuid), []⟩

/-- Bob gets two certificates. -/
theorem certificates_accountable_bob :
    ⟨Authority.simple 6, ["research"]⟩ ∈
      (run [certificateRequest 6, certificateRequest 7] Service.blank).world.intents ∧
    OpenSsl.sampleIdentifier (issued 6).request ≠ OpenSsl.sampleIdentifier (issued 7).request := by
  have hpem : ∀ input ∈ [certificateRequest 6, certificateRequest 7],
      ∀ uuid intent certificate, Authority.Identity input.1.openssl uuid intent certificate →
        OpenSsl.sampleIdentifier (input.1.openssl.toPem certificate) =
          some (Authority.simple uuid) := by
    intro input hinput uuid intent certificate hidentity
    have hopenssl : input.1.openssl = OpenSsl.sample := by
      rcases List.mem_pair.mp hinput with rfl | rfl <;> rfl
    rw [hopenssl]
    simp only [OpenSsl.sample, hidentity.extensions.1]
    exact Text.fromUtf8_utf8 _
  have hfirst : Issues Service.blank (certificateRequest 6) (issued 6) :=
    ⟨⟨some (.certificateRequest ⟨"research", [], []⟩)⟩, true, rfl, by decide +kernel⟩
  have hsecond : Issues (run [certificateRequest 6] Service.blank) (certificateRequest 7)
      (issued 7) :=
    ⟨⟨some (.certificateRequest ⟨"research", [], []⟩)⟩, true, rfl, by decide +kernel⟩
  obtain ⟨hrows, hdistinct, -⟩ := certificates_accountable OpenSsl.sampleIdentifier Service.blank
    [certificateRequest 6, certificateRequest 7] hpem
  refine ⟨?_, hdistinct [] (certificateRequest 6) [] (certificateRequest 7) [] (issued 6)
    (issued 7) rfl hfirst hsecond⟩
  obtain ⟨r, id, hrequest, hid, hrow⟩ :=
    hrows [] (certificateRequest 6) [certificateRequest 7] (issued 6) rfl hfirst
  have hintent : r.intent = "research" := by
    cases hrequest
    rfl
  have hsimple : id = Authority.simple 6 := by
    have hread : OpenSsl.sampleIdentifier (issued 6).request = some (Authority.simple 6) :=
      Text.fromUtf8_utf8 _
    exact Option.some.inj (hid.symm.trans hread)
  rw [← hintent, ← hsimple]
  exact hrow [certificateRequest 7] List.prefix_rfl

end Tolla
