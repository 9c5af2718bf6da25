import Tolla.Engine.Consents

/-!
# Panics under the lock

All handlers share one engine behind one mutex.  A call that panics while it
holds the lock poisons it, and every later `lock().unwrap()` panics too, so one
bad request is enough to end the service for everybody.

Two paths of the engine panic.  `sign_certificate` unwraps what it reads from a
certificate request (`Harmless` lists what the request must not do), and
`consent_by_serial_num` unwraps a lookup that finds nothing.  All the other
messages and handlers return.
-/

namespace Tolla

open Effects Keyed

variable {α : Type} {env : Env} {world : World}

/-! ## The lock -/

/-- A call under the lock unwinds if the lock is poisoned or the call unwinds. -/
theorem not_panics_locked {call : Engine α} {service : Service} :
    ¬ Action.Panics (locked call) service ↔
      service.poisoned = false ∧ ¬ Action.Panics call service.world := by
  obtain ⟨world, poisoned⟩ := service
  unfold Action.Panics
  cases poisoned with
  | true => simp [locked]
  | false =>
      simp only [locked, Bool.false_eq_true, ↓reduceIte]
      cases hcall : call world with
      | mk outcome after =>
          cases outcome with
          | ok value => simp
          | err error => simp
          | panic message => simp

/-- The lock is healthy afterwards if it was and the call did not unwind. -/
theorem locked_poisoned {call : Engine α} {service : Service} :
    (locked call service).2.poisoned = false ↔ ¬ Action.Panics (locked call) service := by
  rw [not_panics_locked]
  obtain ⟨world, poisoned⟩ := service
  unfold Action.Panics
  cases poisoned with
  | true => simp [locked]
  | false =>
      simp only [locked, Bool.false_eq_true, ↓reduceIte]
      cases hcall : call world with
      | mk outcome after =>
          cases outcome with
          | ok value => simp
          | err error => simp
          | panic message => simp

/-! ## Certificate requests -/

/-- The first entry of a kind in the name of a request. -/
def X509Req.first (request : X509Req) (nid : Nid) : Option Asn1String :=
  (request.subject.find? fun item => item.1 = nid).map Prod.snd

namespace Authority

/-- The entries are texts that `append_entry_by_nid` takes, up to the first that
OpenSSL refuses; if it refuses none, `rest` holds. -/
def Appendable (env : Env) (rest : Prop) : List (Nid × Asn1String) → Prop
  | [] => rest
  | (nid, data) :: more =>
      ∃ text, data.asUtf8 = some text ∧ text.utf8ByteSize < 2 ^ 31 ∧
        (env.openssl.addEntry nid text = none → Appendable env rest more)

/-- The request can be signed or refused.  It is a request in PEM with a public
key; unless one of the four entries is missing, they are texts; and unless
OpenSSL refuses something before, the intent has no NUL in it. -/
def Harmless (env : Env) (buf : List UInt8) (intent : String) : Prop :=
  ∃ request, env.openssl.requestFromPem buf = some request ∧ request.publicKey.isSome ∧
    ∀ cn, request.first .commonName = some cn →
    ∀ country, request.first .countryName = some country →
    ∀ org, request.first .organizationName = some org →
    ∀ state, request.first .stateOrProvinceName = some state →
      Appendable env
        (env.openssl.extension .subjectKeyIdentifier (simple env.uuid) = none →
          '\x00' ∉ intent.toList)
        [(.commonName, cn), (.countryName, country), (.organizationName, org),
          (.stateOrProvinceName, state)]

theorem not_panics_entry_bind {request : X509Req} {nid : Nid} {missing : String}
    {next : Asn1String → Engine α} :
    ¬ Action.Panics (entry request nid missing >>= next) world ↔
      ∀ data, request.first nid = some data → ¬ Action.Panics (next data) world := by
  unfold entry X509Req.first
  cases hfind : request.subject.find? fun item => item.1 = nid with
  | none => simp [Action.not_panics_bind]
  | some item => simp [Action.not_panics_bind]

theorem not_panics_appendEntry_bind {nid : Nid} {data : Asn1String}
    {next : Nid × String → Engine α} :
    ¬ Action.Panics (appendEntry env nid data >>= next) world ↔
      ∃ text, data.asUtf8 = some text ∧ text.utf8ByteSize < 2 ^ 31 ∧
        (env.openssl.addEntry nid text = none → ¬ Action.Panics (next (nid, text)) world) := by
  unfold appendEntry
  cases htext : data.asUtf8 with
  | none => simp [Action.not_panics_bind]
  | some text =>
      simp only [Option.some.injEq, exists_eq_left']
      by_cases hlong : 2 ^ 31 ≤ text.utf8ByteSize
      · rw [if_pos hlong]
        refine iff_of_false ?_ fun hshort => absurd hshort.1 (Nat.not_lt.mpr hlong)
        simp [Action.not_panics_bind]
      · rw [if_neg hlong, and_iff_right (Nat.lt_of_not_le hlong)]
        cases hadd : env.openssl.addEntry nid text with
        | none => simp [Action.not_panics_bind]
        | some error => simp [Action.not_panics_bind]

theorem not_panics_newNid_bind {nid : Nid} {value : String} {next : Unit → Engine α} :
    ¬ Action.Panics (newNid env nid value >>= next) world ↔
      '\x00' ∉ value.toList ∧
        (env.openssl.extension nid value = none → ¬ Action.Panics (next ()) world) := by
  unfold newNid
  by_cases hnul : '\x00' ∈ value.toList
  · simp [Action.not_panics_bind, hnul]
  · cases hextension : env.openssl.extension nid value with
    | none => simp [Action.not_panics_bind, hnul, Unique.forall_iff]
    | some error => simp [Action.not_panics_bind, hnul]

theorem nul_not_mem_simple (uuid : BitVec 128) : '\x00' ∉ (simple uuid).toList := by
  have hdigits : ∀ digit : Fin 16, Nat.digitChar digit ≠ '\x00' := by decide
  have hdigit (n : Nat) : '\x00' ≠ hexDigit n :=
    (hdigits ⟨n % 16, Nat.mod_lt n (by omega)⟩).symm
  simp [simple, (hdigit _).symm]

theorem nul_mem_altNameText (intent : String) :
    '\x00' ∉ (altNameText intent).toList ↔ '\x00' ∉ intent.toList := by
  have hfront : '\x00' ∉ "otherName:1.3.6.1.4.1.99;UTF8:".toList := by decide +kernel
  have happend {front : String} (hnul : '\x00' ∉ front.toList) :
      '\x00' ∉ (front ++ intent).toList ↔ '\x00' ∉ intent.toList := by
    rw [String.toList_append, List.mem_append, not_or, and_iff_right hnul]
  exact happend hfront

/-- `sign_certificate` returns exactly on harmless requests. -/
theorem not_panics_signCertificate {buf : List UInt8} {intent : String} :
    ¬ Action.Panics (signCertificate env buf intent) world ↔ Harmless env buf intent := by
  unfold signCertificate Harmless
  rw [Action.not_panics_read_bind]
  cases hpem : env.openssl.requestFromPem buf with
  | none => simp
  | some request =>
  cases hkey : request.publicKey with
  | none => simp [hkey]
  | some pubkey =>
      simp only [Option.some.injEq, exists_eq_left', hkey, Option.isSome_some, true_and,
        not_panics_entry_bind, not_panics_appendEntry_bind, not_panics_newNid_bind,
        nul_mem_altNameText, nul_not_mem_simple, not_false_eq_true, Action.not_panics_pure,
        implies_true, and_true, Appendable]

end Authority

/-! ## Messages -/

/-- The message is not a certificate request, or it is one that can be answered. -/
def Proto.FromClient.Harmless (env : Env) (message : Proto.FromClient) : Prop :=
  ∀ r, message.msg = some (.certificateRequest r) → Authority.Harmless env r.request r.intent

theorem not_panics_insertOne {key : α → String} (coll : Handle key) (row : α) (world : World) :
    ¬ Action.Panics (coll.insertOne env row) world := by
  intro hunwinds
  obtain ⟨message, hpanic⟩ := hunwinds
  rcases insertOne_cases env coll row world with ⟨-, error, heq⟩ | ⟨-, table, -, heq⟩
  · rw [heq] at hpanic
    cases hpanic
  · rw [heq] at hpanic
    cases hpanic

theorem not_panics_onboardUser (id : String) (purposes : List String) (world : World) :
    ¬ Action.Panics (ConsentEngine.onboardUser env id purposes) world := by
  intro hunwinds
  obtain ⟨message, hpanic⟩ := hunwinds
  rcases hrun : ConsentEngine.onboardUser env id purposes world with ⟨outcome, after⟩
  rw [hrun] at hpanic
  cases onboardUser_spec hrun with
  | _ => cases hpanic

theorem not_panics_handleIncoming {message : Proto.FromClient} :
    ¬ Action.Panics (ConsentEngine.handleIncoming env message) world ↔ message.Harmless env := by
  obtain ⟨msg⟩ := message
  unfold ConsentEngine.handleIncoming Proto.FromClient.Harmless
  rcases msg with _ | (c | r | i | u | b)
  · simp
  · simp [Action.not_panics_bind, ConsentEngine.addConsent, not_panics_insertOne]
  · -- the answer comes after the signature and the record, which cannot unwind
    simp [Action.not_panics_bind, ConsentEngine.handleCertRequest, ConsentEngine.addIntent,
      not_panics_insertOne, Authority.not_panics_signCertificate]
  · simp [Action.not_panics_bind, ConsentEngine.addIntent, not_panics_insertOne]
  · simp [Action.not_panics_bind, not_panics_onboardUser]
  · simp [Action.not_panics_bind, (getTenantIps_returns env).not_panics world]

/-- Messages as requests. -/
def messages (inputs : List (Env × Proto.FromClient)) : List (Env × Request) :=
  inputs.map fun input => (input.1, .message input.2)

/-- Every call returns, and afterwards the lock can still be had. -/
structure KeepsServing (inputs : List (Env × Proto.FromClient)) (service : Service) : Prop where
  returns : ∀ before input later, inputs = before ++ input :: later →
    ¬ Action.Panics (ProtoService.call input.1 input.2) (run (messages before) service)
  healthy : (run (messages inputs) service).poisoned = false

theorem not_panics_call {message : Proto.FromClient} {service : Service} :
    ¬ Action.Panics (ProtoService.call env message) service ↔
      service.poisoned = false ∧ message.Harmless env := by
  rw [ProtoService.call, not_panics_locked, not_panics_handleIncoming]

theorem healthy_run_iff {inputs : List (Env × Proto.FromClient)} {service : Service} :
    (run (messages inputs) service).poisoned = false ↔
      service.poisoned = false ∧ ∀ input ∈ inputs, input.2.Harmless input.1 := by
  induction inputs generalizing service with
  | nil => simp [messages, run, Runs.exec]
  | cons input rest ih =>
      have hstep : (step (input.1, .message input.2) service).poisoned = false ↔
          service.poisoned = false ∧ input.2.Harmless input.1 := by
        rw [← not_panics_call, ProtoService.call, ← locked_poisoned]
        simp only [step, serve]
        rw [Action.bind_state fun _ => .pure _]
        rfl
      have hrun : run (messages (input :: rest)) service =
          run (messages rest) (step (input.1, .message input.2) service) := rfl
      rw [hrun, ih, hstep, List.forall_mem_cons, and_assoc]

/-- Messages leave the service working, whatever state it is in, if and only if
its lock is healthy and all of them are harmless. -/
theorem keepsServing_iff (inputs : List (Env × Proto.FromClient)) (service : Service) :
    KeepsServing inputs service ↔
      service.poisoned = false ∧ ∀ input ∈ inputs, input.2.Harmless input.1 := by
  constructor
  · intro hserves
    exact healthy_run_iff.mp hserves.healthy
  · intro hharmless
    refine ⟨?_, healthy_run_iff.mpr hharmless⟩
    rintro before input later rfl
    have hbefore := fun other hother => hharmless.2 other (List.mem_append_left _ hother)
    exact not_panics_call.mpr ⟨healthy_run_iff.mpr ⟨hharmless.1, hbefore⟩,
      hharmless.2 input (by simp)⟩

/-- One certificate request that is not in PEM is enough. -/
theorem service_disabled :
    ¬ ∀ service : Service, service.Initial → ∀ (earlier : List (Env × Request))
      (inputs : List (Env × Proto.FromClient)),
      (run earlier service).poisoned = false → KeepsServing inputs (run earlier service) := by
  intro hall
  have hserves := hall Service.blank Service.blank_initial []
    [(Env.calm 0, ⟨some (.certificateRequest ⟨"research", [104, 105], []⟩)⟩)] rfl
  exact absurd hserves.healthy (by decide)

/-! ## Lease decisions -/

/-- The query gets as far as a lookup: it has a user that is a `u32`, and an intent. -/
def Asks (query : List UInt8) (serialNumber : UInt32) (intent : String) : Prop :=
  ∃ params user, urlEncodedQuery query = .ok params ∧ firstValue params "user" = some user ∧
    firstValue params "intent" = some intent ∧ parseU32 user = .ok serialNumber

/-- There is a row with the serial number. -/
def Recorded (world : World) (serialNumber : UInt32) : Prop :=
  ∃ row ∈ world.consents, row.serialNumber = serialNumber.toInt32

/-- The status that the query deserves. -/
structure Decides (world : World) (query : List UInt8) (status : Status) : Prop where
  badRequest : status = .badRequest ↔
    ¬ ∃ serialNumber intent, Asks query serialNumber intent ∧ Recorded world serialNumber
  ok : status = .ok ↔ ∃ serialNumber intent, Asks query serialNumber intent ∧
    ∃ row ∈ world.consents, row.serialNumber = serialNumber.toInt32 ∧ intent ∈ row.purpose
  forbidden : status = .forbidden ↔ ∃ serialNumber intent, Asks query serialNumber intent ∧
    ∃ row ∈ world.consents, row.serialNumber = serialNumber.toInt32 ∧ intent ∉ row.purpose

theorem Asks.unique {query : List UInt8} {first second : UInt32} {intent other : String}
    (hfirst : Asks query first intent) (hsecond : Asks query second other) :
    first = second ∧ intent = other := by
  obtain ⟨params, user, hparams, huser, hintent, hserial⟩ := hfirst
  obtain ⟨params', user', hparams', huser', hintent', hserial'⟩ := hsecond
  obtain rfl := Except.ok.inj (hparams.symm.trans hparams')
  obtain rfl := Option.some.inj (huser.symm.trans huser')
  exact ⟨Except.ok.inj (hserial.symm.trans hserial'), Option.some.inj (hintent.symm.trans hintent')⟩

/-- What the handler makes of the result of the lookup. -/
def Lease.answer (intent : String) : Except String Consent → Action Service String Response
  | .error error => pure ⟨.badRequest, error⟩
  | .ok consent =>
      if consent.purpose.contains intent then pure ⟨.ok, ""⟩
      else pure ⟨.forbidden, "Consents did not match"⟩

/-- The handler answers a query that asks nothing with a bad request, and any other
with what the lookup brings. -/
theorem leaseHandle_cases (env : Env) (query : List UInt8) (service : Service) :
    ((∀ serialNumber intent, ¬ Asks query serialNumber intent) ∧
      ∃ body, Lease.handle env query service = (.ok ⟨.badRequest, body⟩, service)) ∨
    ∃ serialNumber intent, Asks query serialNumber intent ∧
      Lease.handle env query service =
        (Action.attempt (locked (ConsentEngine.consentBySerialNum env serialNumber)) >>=
          Lease.answer intent) service := by
  unfold Lease.handle
  cases hparams : urlEncodedQuery query with
  | error error =>
      refine .inl ⟨?_, error, rfl⟩
      intro serialNumber intent hasks
      obtain ⟨params, user, hok, -⟩ := hasks
      rw [hparams] at hok
      cases hok
  | ok params =>
  cases huser : firstValue params "user" with
  | none =>
      refine .inl ⟨?_, "No user in query", by simp [huser]⟩
      intro serialNumber intent hasks
      obtain ⟨params', user, hok, hsome, -⟩ := hasks
      obtain rfl := Except.ok.inj (hparams.symm.trans hok)
      rw [huser] at hsome
      cases hsome
  | some user =>
  cases hintent : firstValue params "intent" with
  | none =>
      refine .inl ⟨?_, "No intent in query", by simp [huser, hintent]⟩
      intro serialNumber intent hasks
      obtain ⟨params', user', hok, -, hsome, -⟩ := hasks
      obtain rfl := Except.ok.inj (hparams.symm.trans hok)
      rw [hintent] at hsome
      cases hsome
  | some intent =>
  cases hserial : parseU32 user with
  | error error =>
      refine .inl ⟨?_, error, by simp [huser, hintent, hserial]⟩
      intro serialNumber intent' hasks
      obtain ⟨params', user', hok, hsome, -, hnumber⟩ := hasks
      obtain rfl := Except.ok.inj (hparams.symm.trans hok)
      obtain rfl := Option.some.inj (huser.symm.trans hsome)
      rw [hserial] at hnumber
      cases hnumber
  | ok serialNumber =>
      refine .inr ⟨serialNumber, intent, ⟨params, user, hparams, huser, hintent, hserial⟩, ?_⟩
      simp only [huser, hintent, hserial]
      rfl

theorem Asks.decides_iff {query : List UInt8} {serialNumber : UInt32} {intent : String}
    (hasks : Asks query serialNumber intent) {status : Status} :
    Decides world query status ↔
      (status = .badRequest ↔ ¬ Recorded world serialNumber) ∧
      (status = .ok ↔ ∃ row ∈ world.consents, row.serialNumber = serialNumber.toInt32 ∧
        intent ∈ row.purpose) ∧
      (status = .forbidden ↔ ∃ row ∈ world.consents, row.serialNumber = serialNumber.toInt32 ∧
        intent ∉ row.purpose) := by
  have honly (P : UInt32 → String → Prop) :
      (∃ number text, Asks query number text ∧ P number text) ↔ P serialNumber intent := by
    constructor
    · intro hexists
      obtain ⟨number, text, hother, hholds⟩ := hexists
      obtain ⟨rfl, rfl⟩ := hasks.unique hother
      exact hholds
    · exact fun hholds => ⟨serialNumber, intent, hasks, hholds⟩
  have hrecorded := honly fun number _ => Recorded world number
  have hlisted := honly fun number text => ∃ row ∈ world.consents,
    row.serialNumber = number.toInt32 ∧ text ∈ row.purpose
  have hunlisted := honly fun number text => ∃ row ∈ world.consents,
    row.serialNumber = number.toInt32 ∧ text ∉ row.purpose
  constructor
  · intro hdecides
    exact ⟨hdecides.badRequest.trans (not_congr hrecorded), hdecides.ok.trans hlisted,
      hdecides.forbidden.trans hunlisted⟩
  · intro hanswers
    obtain ⟨hbad, hok, hforbidden⟩ := hanswers
    exact ⟨hbad.trans (not_congr hrecorded).symm, hok.trans hlisted.symm,
      hforbidden.trans hunlisted.symm⟩

theorem Asks.decides_badRequest {query : List UInt8} {serialNumber : UInt32} {intent : String}
    (hasks : Asks query serialNumber intent) :
    Decides world query .badRequest ↔ ¬ Recorded world serialNumber := by
  rw [hasks.decides_iff]
  constructor
  · intro hdecides
    exact hdecides.1.mp rfl
  · intro hnone
    refine ⟨iff_of_true rfl hnone, iff_of_false (by simp) ?_, iff_of_false (by simp) ?_⟩
    · intro hlisted
      obtain ⟨row, hrow, hserial, -⟩ := hlisted
      exact hnone ⟨row, hrow, hserial⟩
    · intro hunlisted
      obtain ⟨row, hrow, hserial, -⟩ := hunlisted
      exact hnone ⟨row, hrow, hserial⟩

/-- At most one row has the serial number. -/
def AtMostOne (world : World) (serialNumber : UInt32) : Prop :=
  ∀ first ∈ world.consents, ∀ second ∈ world.consents,
    first.serialNumber = serialNumber.toInt32 → second.serialNumber = serialNumber.toInt32 →
      first = second

theorem Asks.decides_row {query : List UInt8} {serialNumber : UInt32} {intent : String}
    (hasks : Asks query serialNumber intent) (hunique : AtMostOne world serialNumber)
    {row : Consent}
    (hrow : row ∈ world.consents) (hserial : row.serialNumber = serialNumber.toInt32) :
    Decides world query (if row.purpose.contains intent then .ok else .forbidden) := by
  have hrecorded : Recorded world serialNumber := ⟨row, hrow, hserial⟩
  have honly (P : Consent → Prop) : (∃ other ∈ world.consents,
      other.serialNumber = serialNumber.toInt32 ∧ P other) ↔ P row := by
    constructor
    · intro hexists
      obtain ⟨other, hother, hnumber, hholds⟩ := hexists
      rwa [hunique other hother row hrow hnumber hserial] at hholds
    · exact fun hholds => ⟨row, hrow, hserial, hholds⟩
  have hlisted := honly fun other => intent ∈ other.purpose
  have hunlisted := honly fun other => intent ∉ other.purpose
  rw [hasks.decides_iff, hlisted, hunlisted]
  by_cases hintent : intent ∈ row.purpose
  · simp [hintent, hrecorded]
  · simp [hintent, hrecorded]

/-- The handler returns the status that the query deserves. -/
def LeaseDecided (env : Env) (query : List UInt8) (service : Service) : Prop :=
  ∃ response after, Lease.handle env query service = (.ok response, after) ∧
    Decides service.world query response.status

/-- If at most one row has the serial number that is asked about, the decision is right if
and only if the query asks nothing, or the lock is healthy and the lookup works exactly if
there is something to find. -/
theorem leaseDecided_iff {query : List UInt8} {service : Service}
    (hunique : ∀ serialNumber intent, Asks query serialNumber intent →
      AtMostOne service.world serialNumber) :
    LeaseDecided env query service ↔
      ∀ serialNumber intent, Asks query serialNumber intent → service.poisoned = false ∧
        (env.fault (.findOne .consents) = none ↔ Recorded service.world serialNumber) := by
  unfold LeaseDecided
  rcases leaseHandle_cases env query service with
    ⟨hsilent, body, heq⟩ | ⟨serialNumber, intent, hasks, heq⟩
  · refine iff_of_true ⟨_, _, heq, ?_⟩ fun serialNumber intent hasks =>
      absurd hasks (hsilent serialNumber intent)
    constructor <;> simp [hsilent]
  have hcondition : (∀ number text, Asks query number text → service.poisoned = false ∧
      (env.fault (.findOne .consents) = none ↔ Recorded service.world number)) ↔
      service.poisoned = false ∧
        (env.fault (.findOne .consents) = none ↔ Recorded service.world serialNumber) := by
    constructor
    · exact fun hall => hall serialNumber intent hasks
    · intro hholds number text hother
      obtain ⟨rfl, -⟩ := hasks.unique hother
      exact hholds
  rw [hcondition, heq]
  obtain ⟨world, poisoned⟩ := service
  cases poisoned with
  | true =>
      refine iff_of_false ?_ (by simp)
      intro hdecided
      obtain ⟨response, after, hrun, -⟩ := hdecided
      have hunwinds : Action.Panics (locked (ConsentEngine.consentBySerialNum env serialNumber))
          ⟨world, true⟩ := by
        by_contra hreturns
        exact Bool.noConfusion (not_panics_locked.mp hreturns).1
      exact (Action.panics_attempt.mpr hunwinds).bind_ne_ok hrun
  | false =>
  rw [and_iff_right rfl]
  rcases consentBySerialNum_cases env serialNumber world with
    ⟨error, hfault, hlookup⟩ | ⟨hworks, ⟨row, hrow, hserial, hlookup⟩ | ⟨hnone, hpanics⟩⟩
  · -- a bad request, which is right if there is no row
    have hattempt : Action.attempt (locked (ConsentEngine.consentBySerialNum env serialNumber))
        ⟨world, false⟩ = (.ok (.error error), ⟨world, false⟩) := by
      simp [Action.attempt, locked, hlookup]
    rw [Action.bind_of_ok hattempt]
    simp [Lease.answer, hfault, hasks.decides_badRequest]
  · have hattempt : Action.attempt (locked (ConsentEngine.consentBySerialNum env serialNumber))
        ⟨world, false⟩ = (.ok (.ok row), ⟨world, false⟩) := by
      simp [Action.attempt, locked, hlookup]
    have hdecides := hasks.decides_row (hunique serialNumber intent hasks) hrow hserial
    refine iff_of_true ?_ (iff_of_true hworks ⟨row, hrow, hserial⟩)
    rw [Action.bind_of_ok hattempt]
    by_cases hintent : row.purpose.contains intent
    · rw [if_pos hintent] at hdecides
      exact ⟨_, _, by simp only [Lease.answer, hintent]; rfl, hdecides⟩
    · rw [if_neg hintent] at hdecides
      exact ⟨_, _, by simp only [Lease.answer, hintent]; rfl, hdecides⟩
  · -- nothing to find, and the unwrap
    refine iff_of_false ?_ fun hfound => ?_
    · intro hdecided
      obtain ⟨response, after, hrun, -⟩ := hdecided
      have hunwinds : Action.Panics (locked (ConsentEngine.consentBySerialNum env serialNumber))
          ⟨world, false⟩ := by
        by_contra hreturns
        exact (not_panics_locked.mp hreturns).2 hpanics
      exact (Action.panics_attempt.mpr hunwinds).bind_ne_ok hrun
    · obtain ⟨row, hrow, hserial⟩ := hfound.mp hworks
      exact hnone row hrow hserial

/-- Alice is removed, and her proxy asks again. -/
theorem lease_unwinds :
    ¬ ∀ service : Service, service.Initial → ∀ inputs : List (Env × Request),
      SerialsUnique (run inputs service).world → (run inputs service).poisoned = false →
      ∀ (query : List UInt8) (env : Env), env.Faultless →
        LeaseDecided env query (run inputs service) := by
  intro hall
  have hempty : (run [(Env.calm 7, .register (.ok ⟨"alice", ["research"]⟩)),
      (Env.calm 0, .remove (some "alice"))] Service.blank).world.consents = Table.empty := by decide
  have hunique : SerialsUnique (run [(Env.calm 7, .register (.ok ⟨"alice", ["research"]⟩)),
      (Env.calm 0, .remove (some "alice"))] Service.blank).world := by
    intro first hfirst
    rw [hempty] at hfirst
    exact absurd hfirst (Table.not_mem_empty first)
  obtain ⟨response, after, hrun, -⟩ := hall Service.blank Service.blank_initial
    [(Env.calm 7, .register (.ok ⟨"alice", ["research"]⟩)), (Env.calm 0, .remove (some "alice"))]
    hunique rfl (Text.utf8 "intent=research&user=7") (Env.calm 0) (Env.calm_faultless 0)
  have hpanic : (Lease.handle (Env.calm 0) (Text.utf8 "intent=research&user=7")
      (run [(Env.calm 7, .register (.ok ⟨"alice", ["research"]⟩)),
        (Env.calm 0, .remove (some "alice"))] Service.blank)).1 =
      .panic "called `Option::unwrap()` on a `None` value" := by decide +kernel
  rw [hrun] at hpanic
  cases hpanic

/-- The proxy of alice, who is onboarded, asks. -/
theorem leaseDecided_iff_alice :
    LeaseDecided (Env.calm 0) (Text.utf8 "intent=research&user=7")
        (run [(Env.calm 7, .register (.ok ⟨"alice", ["research"]⟩))] Service.blank) ↔
      ∀ serialNumber intent, Asks (Text.utf8 "intent=research&user=7") serialNumber intent →
        (run [(Env.calm 7, .register (.ok ⟨"alice", ["research"]⟩))] Service.blank).poisoned =
            false ∧
          ((Env.calm 0).fault (.findOne .consents) = none ↔
            Recorded (run [(Env.calm 7, .register (.ok ⟨"alice", ["research"]⟩))]
              Service.blank).world serialNumber) := by
  have hrows : (run [(Env.calm 7, .register (.ok ⟨"alice", ["research"]⟩))]
      Service.blank).world.consents.rows = [⟨"alice", 7, ["research"]⟩] := by decide
  apply leaseDecided_iff
  intro serialNumber intent _ first hfirst second hsecond _ _
  rw [Table.mem_def, hrows] at hfirst hsecond
  rw [List.mem_singleton.mp hfirst, List.mem_singleton.mp hsecond]

end Tolla
