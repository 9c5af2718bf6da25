import Tolla.Engine.Onboarding

/-!
# What a request does to the world

`Step env request world after` lists what serving a request can do to the
backends, and `serve_step` says that the list is complete.  The engine calls are
those of `Calls.lean` and `Onboarding.lean`; besides them only the messages
`Consent`, `Intent` and `Certificaterequest` write, one document each.

`Request.onboards` and `Request.deboards` name the engine call that a request
makes, and `OnboardOk` and `DeboardOk` say that it was made and returned `Ok`.
-/

namespace Tolla

open Effects Keyed

/-! ## The calls of a request -/

/-- The arguments of the `onboard_user` call that the request makes. -/
def Request.onboards : Request → Option (String × List String)
  | .register (.ok user) => some (user.id, user.purposes)
  | .message ⟨some (.user u)⟩ => some (u.userid, ["static"])
  | _ => none

/-- The argument of the `deboard_user` call that the request makes. -/
def Request.deboards : Request → Option String
  | .remove user => some (user.getD "/")
  | _ => none

/-- The request makes an `onboard_user` call for `id`, and it returns `Ok`. -/
def OnboardOk (id : String) (service : Service) (input : Env × Request) : Prop :=
  service.poisoned = false ∧ ∃ purposes, input.2.onboards = some (id, purposes) ∧
    (ConsentEngine.onboardUser input.1 id purposes service.world).1 = .ok ()

/-- The request makes a `deboard_user` call for `id`, and it returns `Ok`. -/
def DeboardOk (id : String) (service : Service) (input : Env × Request) : Prop :=
  service.poisoned = false ∧ input.2.deboards = some id ∧
    (ConsentEngine.deboardUser input.1 id service.world).1 = .ok ()

/-! ## Steps -/

/-- What serving a request can do to the world. -/
inductive Step (env : Env) : Request → World → World → Prop
  | idle (request : Request) (world : World) : Step env request world world
  | onboard {request : Request} {id : String} {purposes : List String} {world : World}
      (hrequest : request.onboards = some (id, purposes)) :
      Step env request world (ConsentEngine.onboardUser env id purposes world).2
  | deboard {request : Request} {id : String} {world : World}
      (hrequest : request.deboards = some id) :
      Step env request world (ConsentEngine.deboardUser env id world).2
  | consent {c : Proto.Consent} {world : World} {table : Table Consent.id}
      (hinsert : world.consents.insert { serialNumber := 0, id := c.id, purpose := c.purpose } =
        some table) :
      Step env (.message ⟨some (.consent c)⟩) world { world with consents := table }
  | intent {request : Request} {world : World} {intent : Intent} {table : Table Intent.id}
      (hinsert : world.intents.insert intent = some table) :
      Step env request world { world with intents := table }

variable {α : Type}

/-- The world after an engine call under the lock: a poisoned lock keeps the call
from being made. -/
theorem locked_world (call : Engine α) (service : Service) :
    (locked call service).2.world =
      if service.poisoned then service.world else (call service.world).2 := by
  obtain ⟨world, poisoned⟩ := service
  cases poisoned with
  | true => rfl
  | false =>
      simp only [locked, Bool.false_eq_true, ↓reduceIte]
      split <;> simp_all

/-- A call under the lock that returned a value was made. -/
theorem locked_eq_ok {call : Engine α} {service after : Service} {value : α}
    (hrun : locked call service = (.ok value, after)) :
    call service.world = (.ok value, after.world) := by
  simp only [locked] at hrun
  split at hrun
  · cases (Prod.mk.inj hrun).1
  · split at hrun
    · rename_i heq
      obtain ⟨hvalue, rfl⟩ := Prod.mk.inj hrun
      rw [heq, hvalue]
    · cases (Prod.mk.inj hrun).1
    · cases (Prod.mk.inj hrun).1

theorem getTenantIps_respects (env : Env) :
    Action.Respects Eq (ConsentEngine.getTenantIps env) :=
  fun world => (getTenantIps_returns env world).1

theorem consentBySerialNum_respects (env : Env) (serialNum : UInt32) :
    Action.Respects Eq (ConsentEngine.consentBySerialNum env serialNum) := by
  refine Action.Respects.bind ?_ fun found => ?_
  · unfold Handle.findOne call
    split
    · exact Action.Respects.fail _
    · exact fun world => rfl
  · cases found with
    | none => exact Action.Respects.abort _
    | some consent => exact Action.Respects.pure _

theorem signCertificate_respects (env : Env) (buf : List UInt8) (intent : String) :
    Action.Respects Eq (Authority.signCertificate env buf intent) := by
  have hentry (request : X509Req) (nid : Nid) (missing : String) :
      Action.Respects Eq (Authority.entry request nid missing) := by
    unfold Authority.entry
    split
    · exact Action.Respects.pure _
    · exact Action.Respects.fail _
  have happend (nid : Nid) (data : Asn1String) :
      Action.Respects Eq (Authority.appendEntry env nid data) := by
    unfold Authority.appendEntry
    split
    · exact Action.Respects.abort _
    split
    · exact Action.Respects.abort _
    split
    · exact Action.Respects.fail _
    · exact Action.Respects.pure _
  have hnid (nid : Nid) (value : String) :
      Action.Respects Eq (Authority.newNid env nid value) := by
    unfold Authority.newNid
    split
    · exact Action.Respects.abort _
    split
    · exact Action.Respects.fail _
    · exact Action.Respects.pure _
  unfold Authority.signCertificate
  refine Action.Respects.bind (fun world => rfl) fun world => ?_
  split
  · exact Action.Respects.abort _
  split
  · exact Action.Respects.abort _
  exact (hentry _ _ _).bind fun _ => (hentry _ _ _).bind fun _ => (hentry _ _ _).bind fun _ =>
    (hentry _ _ _).bind fun _ => (happend _ _).bind fun _ => (happend _ _).bind fun _ =>
    (happend _ _).bind fun _ => (happend _ _).bind fun _ => (hnid _ _).bind fun _ =>
    (hnid _ _).bind fun _ => .pure _

theorem addIntent_world (env : Env) (intent : Intent) (world : World) :
    (ConsentEngine.addIntent env intent world).2 = world ∨
      ∃ table, world.intents.insert intent = some table ∧
        (ConsentEngine.addIntent env intent world).2 = { world with intents := table } := by
  rcases addIntent_cases env intent world with ⟨-, error, heq⟩ | ⟨-, table, hinsert, heq⟩
  · exact .inl (by rw [heq])
  · exact .inr ⟨table, hinsert, by rw [heq]⟩

/-- A certificate request writes at most the intent that it was made for. -/
theorem handleCertRequest_world (env : Env) (request : Proto.Certificate) (world : World) :
    (ConsentEngine.handleCertRequest env request world).2 = world ∨
      ∃ intent table, world.intents.insert intent = some table ∧
        (ConsentEngine.handleCertRequest env request world).2 =
          { world with intents := table } := by
  have hsign := (signCertificate_respects env request.request request.intent world).symm
  unfold ConsentEngine.handleCertRequest
  rw [Action.bind_apply]
  split
  · rename_i result after heq
    obtain ⟨intent, cert⟩ := result
    rw [heq] at hsign
    obtain rfl := hsign
    rw [Action.bind_state fun _ => .pure _]
    rcases addIntent_world env intent after with hsame | ⟨table, hinsert, heq⟩
    · exact .inl hsame
    · exact .inr ⟨intent, table, hinsert, heq⟩
  · rename_i heq
    rw [heq] at hsign
    exact .inl hsign
  · rename_i heq
    rw [heq] at hsign
    exact .inl hsign

theorem handleIncoming_step (env : Env) (message : Proto.FromClient) (world : World) :
    Step env (.message message) world (ConsentEngine.handleIncoming env message world).2 := by
  obtain ⟨msg⟩ := message
  have hconclude (result : Except String Unit) :
      Action.Respects Eq (pure (ConsentEngine.conclude result) : Engine Proto.ToClient) :=
    .pure _
  -- the answer is made of the result alone, so only the engine call counts
  rcases msg with _ | (c | r | i | u | b)
  · exact .idle _ world
  · simp only [ConsentEngine.handleIncoming]
    rw [Action.bind_state hconclude, Action.attempt_state]
    rcases addConsent_cases env { serialNumber := 0, id := c.id, purpose := c.purpose } world with
      ⟨-, error, heq⟩ | ⟨-, table, hinsert, heq⟩
    · rw [heq]
      exact .idle _ world
    · rw [heq]
      exact .consent hinsert
  · simp only [ConsentEngine.handleIncoming]
    rw [Action.bind_state fun _ => .pure _]
    rcases handleCertRequest_world env r world with hsame | ⟨intent, table, hinsert, heq⟩
    · rw [hsame]
      exact .idle _ world
    · rw [heq]
      exact .intent hinsert
  · simp only [ConsentEngine.handleIncoming]
    rw [Action.bind_state hconclude, Action.attempt_state]
    rcases addIntent_world env { id := i.id, intent := [i.intent] } world with
      hsame | ⟨table, hinsert, heq⟩
    · rw [hsame]
      exact .idle _ world
    · rw [heq]
      exact .intent hinsert
  · simp only [ConsentEngine.handleIncoming]
    rw [Action.bind_state hconclude, Action.attempt_state]
    exact .onboard rfl
  · simp only [ConsentEngine.handleIncoming]
    rw [Action.bind_state fun _ => .pure _, ← getTenantIps_respects env world]
    exact .idle _ world

/-- The replies of the engine, and the worlds it replies in. -/
inductive Replied (env : Env) : Proto.FromClient → World → Proto.ToClient → World → Prop
  | concluded {request : Proto.Request} {world after : World} (result : Except String Unit) :
      Replied env ⟨some request⟩ world (ConsentEngine.conclude result) after
  | certified {r cert : Proto.Certificate} {world after : World}
      (hcert : ConsentEngine.handleCertRequest env r world = (.ok cert, after)) :
      Replied env ⟨some (.certificateRequest r)⟩ world ⟨true, some (.certificate cert)⟩ after
  | listed {b : Bool} {ips : List String} {world after : World}
      (hips : ConsentEngine.getTenantIps env world = (.ok ips, after)) :
      Replied env ⟨some (.requestIps b)⟩ world ⟨true, some (.ips ⟨ips⟩)⟩ after

theorem handleIncoming_replied {env : Env} {message : Proto.FromClient} {world after : World}
    {reply : Proto.ToClient}
    (hrun : ConsentEngine.handleIncoming env message world = (.ok reply, after)) :
    Replied env message world reply after := by
  obtain ⟨msg⟩ := message
  rcases msg with _ | (c | r | i | u | b)
  · cases hrun
  · obtain ⟨result, between, -, hreply⟩ := Action.bind_eq_ok hrun
    obtain ⟨hvalue, rfl⟩ := Prod.mk.inj hreply
    obtain rfl := Outcome.ok.inj hvalue
    exact .concluded result
  · obtain ⟨cert, between, hcert, hreply⟩ := Action.bind_eq_ok hrun
    obtain ⟨hvalue, rfl⟩ := Prod.mk.inj hreply
    obtain rfl := Outcome.ok.inj hvalue
    exact .certified hcert
  · obtain ⟨result, between, -, hreply⟩ := Action.bind_eq_ok hrun
    obtain ⟨hvalue, rfl⟩ := Prod.mk.inj hreply
    obtain rfl := Outcome.ok.inj hvalue
    exact .concluded result
  · obtain ⟨result, between, -, hreply⟩ := Action.bind_eq_ok hrun
    obtain ⟨hvalue, rfl⟩ := Prod.mk.inj hreply
    obtain rfl := Outcome.ok.inj hvalue
    exact .concluded result
  · obtain ⟨ips, between, hips, hreply⟩ := Action.bind_eq_ok hrun
    obtain ⟨hvalue, rfl⟩ := Prod.mk.inj hreply
    obtain rfl := Outcome.ok.inj hvalue
    exact .listed hips

/-! ## Serving a request -/

/-- A handler makes its call under the lock, and looks at nothing but the result to
answer. -/
private theorem handler_world {call : Engine α}
    {respond : Except String α → Action Service String Response}
    (hok : ∀ value, Action.Respects Eq (respond (.ok value)))
    (herror : ∀ error, Action.Respects Eq (respond (.error error))) (service : Service) :
    ((Action.attempt (locked call) >>= respond) service).2.world =
      if service.poisoned then service.world else (call service.world).2 := by
  rw [Action.bind_state, Action.attempt_state, locked_world]
  intro result
  cases result with
  | ok value => exact hok value
  | error error => exact herror error

private theorem queryHandler_world (env : Env) (user : Option String) (service : Service) :
    (serve env (.query user) service).2.world =
      if service.poisoned then service.world
      else (ConsentEngine.consentBasedView env (user.getD "/") service.world).2 := by
  simp only [serve, QueryHandler.handle]
  rw [Action.bind_state fun _ => .pure _]
  exact handler_world (fun _ => .pure _) (fun _ => .pure _) service

private theorem register_world (env : Env) (user : User) (service : Service) :
    (serve env (.register (.ok user)) service).2.world =
      if service.poisoned then service.world
      else (ConsentEngine.onboardUser env user.id user.purposes service.world).2 := by
  simp only [serve, Register.handle]
  rw [Action.bind_state fun _ => .pure _]
  exact handler_world (fun _ => .pure _) (fun _ => .pure _) service

private theorem remove_world (env : Env) (user : Option String) (service : Service) :
    (serve env (.remove user) service).2.world =
      if service.poisoned then service.world
      else (ConsentEngine.deboardUser env (user.getD "/") service.world).2 := by
  simp only [serve, Remove.handle]
  rw [Action.bind_state fun _ => .pure _]
  exact handler_world (fun _ => .pure _) (fun _ => .pure _) service

theorem message_world (env : Env) (message : Proto.FromClient) (service : Service) :
    (serve env (.message message) service).2.world =
      if service.poisoned then service.world
      else (ConsentEngine.handleIncoming env message service.world).2 := by
  simp only [serve, ProtoService.call]
  rw [Action.bind_state fun _ => .pure _, locked_world]

/-- The lease endpoint only reads. -/
theorem leaseHandle_world (env : Env) (query : List UInt8) (service : Service) :
    (Lease.handle env query service).2.world = service.world := by
  unfold Lease.handle
  split
  · rfl
  split
  · rfl
  split
  · rfl
  split
  · rfl
  rename_i serialNumber _
  rw [handler_world]
  · split
    · rfl
    · exact (consentBySerialNum_respects env serialNumber service.world).symm
  · intro consent
    simp only
    split
    · exact .pure _
    · exact .pure _
  · intro error
    exact .pure _

private theorem lease_world (env : Env) (query : List UInt8) (service : Service) :
    (serve env (.lease query) service).2.world = service.world := by
  simp only [serve]
  rw [Action.bind_state fun _ => .pure _, leaseHandle_world]

/-- Whatever the request, the world changes as `Step` lists. -/
theorem serve_step (env : Env) (request : Request) (service : Service) :
    Step env request service.world (serve env request service).2.world := by
  cases request with
  | query user =>
      rw [queryHandler_world, ← (consentBasedView_returns env _ service.world).1, ite_self]
      exact .idle _ _
  | register body =>
      cases body with
      | error error => exact .idle _ _
      | ok user =>
          rw [register_world]
          split
          · exact .idle _ _
          · exact .onboard rfl
  | remove user =>
      rw [remove_world]
      split
      · exact .idle _ _
      · exact .deboard rfl
  | lease query =>
      rw [lease_world]
      exact .idle _ _
  | message message =>
      rw [message_world]
      split
      · exact .idle _ _
      · exact handleIncoming_step env message service.world

theorem step_of_poisoned {service : Service} (hpoisoned : service.poisoned = true)
    (input : Env × Request) : (step input service).world = service.world := by
  obtain ⟨env, request⟩ := input
  unfold step
  cases request with
  | query user => rw [queryHandler_world, if_pos hpoisoned]
  | register body =>
      cases body with
      | error error => rfl
      | ok user => rw [register_world, if_pos hpoisoned]
  | remove user => rw [remove_world, if_pos hpoisoned]
  | lease query => exact lease_world env query service
  | message message => rw [message_world, if_pos hpoisoned]

/-- With a healthy lock, an onboarding request makes its call. -/
theorem step_onboards {env : Env} {request : Request} {service : Service} {id : String}
    {purposes : List String} (hhealthy : service.poisoned = false)
    (hrequest : request.onboards = some (id, purposes)) :
    (step (env, request) service).world =
      (ConsentEngine.onboardUser env id purposes service.world).2 := by
  unfold step
  unfold Request.onboards at hrequest
  split at hrequest
  · obtain ⟨rfl, rfl⟩ := Prod.mk.inj (Option.some.inj hrequest)
    rw [register_world, if_neg (by simp [hhealthy])]
  · obtain ⟨rfl, rfl⟩ := Prod.mk.inj (Option.some.inj hrequest)
    rw [message_world, if_neg (by simp [hhealthy]), ConsentEngine.handleIncoming]
    simp only
    rw [Action.bind_state fun _ => .pure _, Action.attempt_state]
  · simp at hrequest

/-- A successful onboarding went through to the end. -/
theorem OnboardOk.spec {id : String} {service : Service} {input : Env × Request}
    (honboard : OnboardOk id service input) :
    ∃ purposes, Onboarded input.1 id purposes service.world (.ok ())
      (step input service).world := by
  obtain ⟨hhealthy, purposes, hrequest, hok⟩ := honboard
  refine ⟨purposes, ?_⟩
  rw [step_onboards hhealthy hrequest]
  exact onboardUser_spec (Prod.ext hok rfl)

/-- A run goes through the state before and after each of its inputs. -/
theorem run_append_cons (before : List (Env × Request)) (input : Env × Request)
    (later : List (Env × Request)) (service : Service) :
    run (before ++ input :: later) service = run later (step input (run before service)) :=
  Runs.exec_append before (input :: later) service

/-! ## A calm world

The surroundings and the start of the concrete runs that later files look at. -/

/-- Every call works, and the random source returns `serial`. -/
def Env.calm (serial : UInt32) : Env where
  fault _ := none
  rejection _ := "refused"
  resolve := byName
  keyPair := ⟨1, 2⟩
  serial := serial
  uuid := 0
  clock := (0, 0)
  containerId := "4fa6e0f0c678"
  ipAddress := "172.17.0.2"
  order := Equiv.refl _
  pick := 0
  openssl := ⟨fun _ => none, fun _ _ => none, fun _ _ => none, fun _ => []⟩

/-- A service with empty backends. -/
def Service.blank : Service where
  poisoned := false
  world :=
    { consents := Table.empty
      view := Table.empty
      views := Table.empty
      intents := Table.empty
      containers := Table.empty
      files := fun _ => none
      authority := ⟨⟨3, 4⟩, ⟨3, 0, ⟨0, 0⟩, Authority.issuerName, Authority.issuerName, 3, [], 3⟩⟩ }

theorem Env.calm_faultless (serial : UInt32) : (Env.calm serial).Faultless := fun _ => rfl

theorem Service.blank_initial : Service.blank.Initial where
  world := ⟨rfl, rfl, rfl, rfl, fun _ hcontainer => absurd hcontainer (Table.not_mem_empty _)⟩
  healthy := rfl

end Tolla
