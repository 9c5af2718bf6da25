import Tolla.Engine.Signing
import Tolla.Model.Builder
import Tolla.System.Startup

/-!
# Engines that are restarted

What the engine knows is in the database, in the daemon and in files, so the next engine
knows it too: rows stay (`intent_read_back`), and a poisoned lock is forgotten together with
everything that was asked behind it (`restart_recovers`).

The exception is the key pair of the authority.  The next engine draws its own, but the
directories of the tenants keep the certificates of the engine that onboarded them.  So from
the first restart on, new clients and old tenants do not trust each other any more, in
neither direction (`trust_ends`).
-/

namespace Tolla

open Effects Keyed

variable {setup : Setup} {deployment : Deployment} {id : String}

/-! ## Starting -/

/-- Everything that the engine needs for its start is there. -/
structure Setup.Works (setup : Setup) : Prop where
  connects : ∃ addr, setup.vars "MONGODB_PORT_27017_TCP_ADDR" = some addr ∧
    setup.connect addr 27017 = none
  url : setup.parsesUrl "http://127.0.0.1:2375" = true
  key : setup.env.fault .generateKey = none
  views : setup.env.fault (.find .views) = none

/-- The authority that a new engine makes itself. -/
def Setup.authority (setup : Setup) : Authority := .ofKey setup.env.keyPair setup.env.validity

theorem startContainers_eq (ids : List String) (world : World) :
    StoreManager.startContainers ids world = (.ok (), world) := by
  induction ids with
  | nil => rfl
  | cons first rest ih => exact ih

/-- Entries that cannot be read are passed over, and every document is a view. -/
theorem collectViews_readable (cursor : List (Except String View)) :
    ConsentEngine.collectViews .ok cursor = .ok (readable cursor) := by
  rw [collectViews_eq_ok_iff, List.forall₂_same]
  exact fun _ _ => rfl

theorem getViews_cases (env : Env) (world : World) :
    (env.fault (.find .views) = none ∧
      ∃ views, ConsentEngine.getViews env world = (.ok views, world)) ∨
    env.Fails (.find .views) ∧ ∃ error, ConsentEngine.getViews env world = (.err error, world) := by
  have hfind : Handle.views.name = .views := rfl
  unfold ConsentEngine.getViews
  rw [find_bind Handle.views, Handle.cursor, hfind]
  cases hfault : env.fault (.find .views) with
  | some error => exact .inr ⟨⟨error, hfault⟩, error, rfl⟩
  | none =>
      exact .inl ⟨rfl, _, congrArg (Action.ofExcept · world) (collectViews_readable _)⟩

/-- The builder of `run_http`: it returns an authority if everything is there, and whether
it does or not, the world is as it was. -/
theorem build_cases (setup : Setup) (addr : String) (world : World) :
    let build := (((ConsentEngineBuilder.new.setAddress addr).setPort 27017).setDeamon
      "http://127.0.0.1:2375").build setup world
    (setup.connect addr 27017 = none ∧ setup.parsesUrl "http://127.0.0.1:2375" = true ∧
      setup.env.fault .generateKey = none ∧ setup.env.fault (.find .views) = none ∧
      build = (.ok setup.authority, world)) ∨
    (¬ (setup.connect addr 27017 = none ∧ setup.parsesUrl "http://127.0.0.1:2375" = true ∧
      setup.env.fault .generateKey = none ∧ setup.env.fault (.find .views) = none) ∧
      ∃ message, build = (.err message, world) ∨ build = (.panic message, world)) := by
  simp only [ConsentEngineBuilder.build, ConsentEngineBuilder.setAddress,
    ConsentEngineBuilder.setPort, ConsentEngineBuilder.setDeamon]
  cases hurl : setup.parsesUrl "http://127.0.0.1:2375" with
  | false =>
      have hnew : StoreManager.new setup "http://127.0.0.1:2375" world =
          (.panic "called `Result::unwrap()` on an `Err` value", world) := by
        rw [StoreManager.new, hurl]
        rfl
      exact .inr ⟨by simp, _, .inr (Action.bind_of_panic hnew _)⟩
  | true =>
  have hnew : StoreManager.new setup "http://127.0.0.1:2375" world = (.ok (), world) := by
    rw [StoreManager.new, hurl]
    rfl
  rw [Action.bind_of_ok hnew]
  cases hkey : setup.env.fault .generateKey with
  | some error =>
      have hauthority : Authority.new setup.env world = (.err error, world) := call_of_fault hkey
      exact .inr ⟨by simp, _, .inr (Action.bind_of_panic (Action.unwrap_of_err hauthority) _)⟩
  | none =>
  have hauthority : Authority.new setup.env world = (.ok setup.authority, world) :=
    call_of_none hkey
  rw [Action.bind_of_ok (Action.unwrap_of_ok hauthority)]
  cases hconnect : setup.connect addr 27017 with
  | some error => exact .inr ⟨by simp, error, .inl rfl⟩
  | none =>
  simp only
  rcases getViews_cases setup.env world with ⟨hfind, views, hviews⟩ | ⟨⟨text, hfind⟩, error, hviews⟩
  · rw [Action.bind_of_ok hviews, Action.bind_of_ok (startContainers_eq _ world)]
    exact .inl ⟨trivial, trivial, trivial, hfind, rfl⟩
  · exact .inr ⟨by simp [hfind], error, .inl (Action.bind_of_err hviews _)⟩

/-- An engine starts if everything is there. -/
theorem runHttp_cases (setup : Setup) (world : World) :
    (setup.Works ∧ runHttp setup world = (.ok setup.authority, world)) ∨
      ¬ setup.Works ∧ ∃ message, runHttp setup world = (.panic message, world) := by
  unfold runHttp
  cases haddr : setup.vars "MONGODB_PORT_27017_TCP_ADDR" with
  | none =>
      refine .inr ⟨fun hworks => ?_, _, rfl⟩
      obtain ⟨addr, hpresent, -⟩ := hworks.connects
      rw [haddr] at hpresent
      cases hpresent
  | some addr =>
      rcases build_cases setup addr world with
        ⟨hconnect, hurl, hkey, hfind, hbuild⟩ | ⟨hmissing, message, hbuild⟩
      · exact .inl ⟨⟨⟨addr, haddr, hconnect⟩, hurl, hkey, hfind⟩, Action.unwrap_of_ok hbuild⟩
      · refine .inr ⟨fun hworks => hmissing ?_, ?_⟩
        · obtain ⟨other, hother, hconnect⟩ := hworks.connects
          obtain rfl := Option.some.inj (haddr.symm.trans hother)
          exact ⟨hconnect, hworks.url, hworks.key, hworks.views⟩
        · rcases hbuild with herr | hpanic
          · exact ⟨_, Action.unwrap_of_err herr⟩
          · exact ⟨_, Action.unwrap_of_panic hpanic⟩

/-! ## Steps -/

/-- What can happen to a deployment: a request is served, an engine takes over from the one
before, or nobody is there any more. -/
theorem Deployment.step_cases (happening : Happening) (deployment : Deployment) :
    (∃ env request, happening = .request env request ∧ deployment.up = true ∧
      step happening deployment = ⟨Tolla.step (env, request) deployment.service, true⟩) ∨
    (∃ setup, happening = .restart setup ∧ setup.Works ∧
      step happening deployment =
        ⟨⟨{ deployment.service.world with authority := setup.authority }, false⟩, true⟩) ∨
    ((∀ setup, happening = .restart setup → ¬ setup.Works) ∧
      step happening deployment = ⟨deployment.service, false⟩) := by
  obtain ⟨service, up⟩ := deployment
  cases happening with
  | request env request =>
      cases up with
      | true => exact .inl ⟨env, request, rfl, rfl, rfl⟩
      | false =>
          refine .inr (.inr ⟨fun setup hsetup => ?_, rfl⟩)
          cases hsetup
  | restart setup =>
      rcases runHttp_cases setup service.world with ⟨hworks, hstart⟩ | ⟨hbroken, message, hstart⟩
      · exact .inr (.inl ⟨setup, rfl, hworks, by simp [step, hstart]⟩)
      · refine .inr (.inr ⟨fun other hother => ?_, by simp [step, hstart]⟩)
        obtain rfl := Happening.restart.inj hother
        exact hbroken

/-- The condition holds for a request in the state in which it is served. -/
def OnRequests (ok : Service → Env × Request → Prop) (deployment : Deployment) :
    Happening → Prop
  | .request env request => ok deployment.service (env, request)
  | .restart _ => True

/-- A restart does nothing to the rows, the containers and the files, so what requests
preserve, a deployment preserves. -/
theorem Deployment.world_along {P : World → Prop} {ok : Service → Env × Request → Prop}
    {happenings : List Happening}
    (hauthority : ∀ world authority, P world → P { world with authority := authority })
    (hrequest : ∀ service input, ok service input → P service.world →
      P (Tolla.step input service).world)
    (halong : Runs.Along step (OnRequests ok) happenings deployment)
    (hworld : P deployment.service.world) : P (run happenings deployment).service.world := by
  refine Runs.exec_along (P := fun state : Deployment => P state.service.world) ?_ halong hworld
  intro state happening hok hstate
  rcases step_cases happening state with
    ⟨env, request, rfl, -, hstep⟩ | ⟨setup, -, -, hstep⟩ | ⟨-, hstep⟩
  · rw [hstep]
    exact hrequest state.service (env, request) hok hstate
  · rw [hstep]
    exact hauthority _ _ hstate
  · rwa [hstep]

theorem Deployment.world_run {P : World → Prop} {happenings : List Happening}
    (hauthority : ∀ world authority, P world → P { world with authority := authority })
    (hrequest : ∀ env request, .request env request ∈ happenings → ∀ service : Service,
      P service.world → P (Tolla.step (env, request) service).world)
    (hworld : P deployment.service.world) : P (run happenings deployment).service.world := by
  have halong : Runs.Along step
      (OnRequests fun _ input => .request input.1 input.2 ∈ happenings) happenings deployment := by
    refine Runs.along_of_forall fun happening hmem state => ?_
    cases happening with
    | request env request => exact hmem
    | restart setup => trivial
  exact world_along hauthority
    (fun service input hmem => hrequest input.1 input.2 hmem service) halong hworld

theorem Deployment.run_append (first second : List Happening) (deployment : Deployment) :
    run (first ++ second) deployment = run second (run first deployment) :=
  Runs.exec_append first second deployment

/-- A request to an engine that is running. -/
theorem Deployment.run_request {before later : List Happening} {env : Env} {request : Request}
    (hup : (run before deployment).up = true) :
    run (before ++ .request env request :: later) deployment =
      run later ⟨Tolla.step (env, request) (run before deployment).service, true⟩ := by
  rw [run_append]
  show run later (step (.request env request) (run before deployment)) = _
  simp only [step, hup, if_true]

/-! ## The authority -/

/-- No engine is started. -/
def Undisturbed (happenings : List Happening) : Prop :=
  ∀ setup, .restart setup ∈ happenings → ¬ setup.Works

theorem undisturbed_concat {happenings : List Happening} {last : Happening} :
    Undisturbed (happenings ++ [last]) ↔
      Undisturbed happenings ∧ ∀ setup, last = .restart setup → ¬ setup.Works := by
  simp only [Undisturbed, List.mem_append, List.mem_singleton, or_imp, forall_and]
  simp only [eq_comm]

/-- The authority is the one of the last engine that was started. -/
theorem authority_run (happenings : List Happening) (deployment : Deployment) :
    (Undisturbed happenings → (deployment.run happenings).service.world.authority =
      deployment.service.world.authority) ∧
    (¬ Undisturbed happenings → ∃ setup, .restart setup ∈ happenings ∧
      (deployment.run happenings).service.world.authority = setup.authority) := by
  induction happenings using List.reverseRecOn with
  | nil => exact ⟨fun _ => rfl, fun hdisturbed => absurd (by simp [Undisturbed]) hdisturbed⟩
  | append_singleton happenings last ih =>
      rw [Deployment.run_append, undisturbed_concat]
      show (_ → (Deployment.step last _).service.world.authority = _) ∧
        (_ → ∃ _, _ ∧ (Deployment.step last _).service.world.authority = _)
      have hsame (hlast : ∀ setup, last = .restart setup → ¬ setup.Works)
          (hauthority : (Deployment.step last (deployment.run happenings)).service.world.authority =
            (deployment.run happenings).service.world.authority) :
          (Undisturbed happenings ∧ (∀ setup, last = .restart setup → ¬ setup.Works) →
            (Deployment.step last (deployment.run happenings)).service.world.authority =
              deployment.service.world.authority) ∧
          (¬ (Undisturbed happenings ∧ ∀ setup, last = .restart setup → ¬ setup.Works) →
            ∃ setup, .restart setup ∈ happenings ++ [last] ∧
              (Deployment.step last (deployment.run happenings)).service.world.authority =
                setup.authority) := by
        rw [hauthority]
        refine ⟨fun hundisturbed => ih.1 hundisturbed.1, fun hdisturbed => ?_⟩
        obtain ⟨setup, hmem, hkey⟩ := ih.2 fun hundisturbed => hdisturbed ⟨hundisturbed, hlast⟩
        exact ⟨setup, List.mem_append_left _ hmem, hkey⟩
      rcases Deployment.step_cases last (deployment.run happenings) with
        ⟨env, request, rfl, -, hstep⟩ | ⟨setup, rfl, hworks, hstep⟩ | ⟨hlast, hstep⟩
      · refine hsame (fun setup hsetup => by cases hsetup) ?_
        rw [hstep]
        exact (serve_step env request _).authority
      · refine ⟨fun hundisturbed => absurd hworks (hundisturbed.2 setup rfl), fun _ => ?_⟩
        exact ⟨setup, by simp, by rw [hstep]⟩
      · exact hsame hlast (by rw [hstep])

/-- An engine that is running has made its authority itself. -/
theorem Deployment.Initial.authority (hinitial : deployment.Initial) {happenings : List Happening}
    (hup : (deployment.run happenings).up = true) :
    ∃ key validity,
      (deployment.run happenings).service.world.authority = .ofKey key validity := by
  refine Runs.exec_history (P := fun _ (state : Deployment) => state.up = true →
    ∃ key validity, state.service.world.authority = .ofKey key validity) ?_ ?_ happenings hup
  · intro hup
    rw [hinitial.down] at hup
    cases hup
  · intro happenings last ih
    rcases Deployment.step_cases last (deployment.run happenings) with
      ⟨env, request, -, hup, hstep⟩ | ⟨setup, -, -, hstep⟩ | ⟨-, hstep⟩
    · intro _
      obtain ⟨key, validity, hkey⟩ := ih hup
      refine ⟨key, validity, ?_⟩
      rw [show Deployment.step last (Runs.exec _ _ _) = _ from hstep]
      exact (serve_step env request _).authority.trans hkey
    · intro _
      refine ⟨setup.env.keyPair, setup.env.validity, ?_⟩
      rw [show Deployment.step last (Runs.exec _ _ _) = _ from hstep]
      rfl
    · intro hdown
      rw [show Deployment.step last (Runs.exec _ _ _) = _ from hstep] at hdown
      cases hdown

/-! ## Trust between clients and tenants -/

/-- If restarts draw other keys, the key of the authority tells whether there was one. -/
theorem authority_ofKey {happenings : List Happening} {key : PKey} {validity : Validity}
    (hauthority : deployment.service.world.authority = .ofKey key validity)
    (hkeys : ∀ setup, .restart setup ∈ happenings →
      setup.env.keyPair.publicPart ≠ key.publicPart) :
    ∃ other drawn, (deployment.run happenings).service.world.authority = .ofKey other drawn ∧
      (key.publicPart = other.publicPart ↔ Undisturbed happenings) := by
  obtain ⟨hsame, hnew⟩ := authority_run happenings deployment
  by_cases hundisturbed : Undisturbed happenings
  · exact ⟨key, validity, (hsame hundisturbed).trans hauthority, iff_of_true rfl hundisturbed⟩
  · obtain ⟨setup, hmem, hother⟩ := hnew hundisturbed
    exact ⟨_, _, hother, iff_of_false (hkeys setup hmem).symm hundisturbed⟩

/-- Containers of the engine have the environment of their name, whatever happened. -/
theorem Deployment.Initial.env (hinitial : deployment.Initial) {happenings : List Happening}
    {container : Container}
    (hmem : container ∈ (deployment.run happenings).service.world.containers)
    (hengine : container.ofEngine = true) :
    container.env = ConsentEngine.tenantEnv container.name := by
  have hsourced : ∃ draws, Sourced draws (deployment.run happenings).service.world := by
    refine Deployment.world_run (P := fun world => ∃ draws, Sourced draws world) ?_ ?_
      ⟨[], .of_initial hinitial.world⟩
    · rintro world authority ⟨draws, hsourced⟩
      exact ⟨draws, hsourced.rows, hsourced.containers⟩
    · rintro env request - service ⟨draws, hsourced⟩
      exact ⟨_, hsourced.step (serve_step env request service)⟩
  obtain ⟨draws, hsourced⟩ := hsourced
  exact (hsourced.containers container hmem hengine).env

/-- A tenant is onboarded, and later, after `middle`, a client gets a certificate.  If
restarts draw other keys and nobody is onboarded into the tenant's directory, then at any
time from then on the tenant's container starts a proxy that knows the key which signed for
the client, and the client knows the key which signed for the proxy, if and only if no engine
was started in between.  `signer` and `key` read the two keys of a certificate in its PEM
form. -/
theorem trust_ends (signer key : List UInt8 → Nat) (hinitial : deployment.Initial)
    {before middle later : List Happening} {env : Env} {request : Request}
    (hup : (deployment.run before).up = true)
    (honboard : OnboardOk id (deployment.run before).service (env, request))
    (helsewhere : ∀ other asked, .request other asked ∈ middle ++ later →
      Elsewhere (mountDir id) asked)
    (hkeys : ∀ setup, .restart setup ∈ middle → setup.env.keyPair.publicPart ≠
      (deployment.run before).service.world.authority.keyPair.publicPart)
    {input : Env × Request} {certificate : Proto.Certificate}
    (hissues : Issues (deployment.run (before ++ .request env request :: middle)).service input
      certificate)
    (hpem : ∀ x509, signer (input.1.openssl.toPem x509) = x509.signedBy ∧
      key (input.1.openssl.toPem x509) = x509.publicKey) :
    ∀ container ∈ (deployment.run
        (before ++ .request env request :: (middle ++ later))).service.world.containers,
      container.name = id →
      ∃ startup, Proxy.main container.env (deployment.run
          (before ++ .request env request :: (middle ++ later))).service.world.files =
            .ok startup ∧
        ((∃ ca ∈ startup.clientCAs, ca.publicKey = signer certificate.request) ↔
          Undisturbed middle) ∧
        (startup.certificate.signedBy = key certificate.rootCert ↔ Undisturbed middle) := by
  obtain ⟨keyPair, validity, hkeyPair⟩ := hinitial.authority hup
  obtain ⟨purposes, -, hprovided, -⟩ := honboard.provided
  rw [hkeyPair] at hprovided hkeys
  -- the key of the engine that signs for the client
  have hafter : (Tolla.step (env, request)
      (deployment.run before).service).world.authority = .ofKey keyPair validity :=
    (serve_step env request _).authority.trans hkeyPair
  have hreigns : ∃ other drawn, (Deployment.run middle ⟨Tolla.step (env, request)
      (deployment.run before).service, true⟩).service.world.authority = .ofKey other drawn ∧
      (keyPair.publicPart = other.publicPart ↔ Undisturbed middle) := authority_ofKey hafter hkeys
  obtain ⟨other, drawn, hother, hsame⟩ := hreigns
  obtain ⟨r, -, hsigns⟩ := hissues.signs
  rw [Deployment.run_request hup, hother] at hsigns
  obtain ⟨client, -, hclient, hsigner, -⟩ := hsigns.certificate
  intro container hmem hname
  -- the files of the tenant are those of the onboarding
  have hdrawn : Drawn id env (.ofKey keyPair validity) (deployment.run
      (before ++ .request env request :: (middle ++ later))).service.world.files := by
    rw [Deployment.run_request hup]
    refine Deployment.world_run (P := fun world =>
      Drawn id env (.ofKey keyPair validity) world.files) (fun _ _ hdrawn => hdrawn) ?_
      hprovided.drawn
    intro other asked hasked service hdrawn
    exact hdrawn.step (helsewhere other asked hasked)
  have howned : Owned id (deployment.run
      (before ++ .request env request :: (middle ++ later))).service.world := by
    rw [Deployment.run_request hup]
    exact Deployment.world_run (P := Owned id) (fun _ _ howned => howned)
      (fun other asked _ service howned => howned.step (other, asked)) honboard.owned
  have henv := hinitial.env hmem (howned container hmem hname)
  rw [hname] at henv
  rw [henv]
  refine ⟨_, hdrawn.main, ?_, ?_⟩
  · rw [hclient, (hpem client).1, hsigner]
    simp only [Startup.of, appendCertsFromPem, List.mem_singleton, exists_eq_left]
    exact hsame
  · rw [hsigns.root, (hpem _).2]
    exact hsame

/-- An engine that starts with the key. -/
def Setup.calm (keyPair : PKey) : Setup where
  env := { Env.calm 0 with keyPair := keyPair }
  vars _ := some "172.17.0.3"
  parsesUrl _ := true
  connect _ _ := none

theorem Setup.calm_works (keyPair : PKey) : (Setup.calm keyPair).Works :=
  ⟨⟨"172.17.0.3", rfl, rfl⟩, rfl, rfl, rfl⟩

/-- A certificate in a form from which its two keys can be read. -/
def OpenSsl.keyed : OpenSsl :=
  { OpenSsl.sample with
    toPem := fun certificate => List.replicate certificate.publicKey 0 ++
      1 :: List.replicate certificate.signedBy 0 }

def OpenSsl.keyedKey (bytes : List UInt8) : Nat := (bytes.takeWhile (· = 0)).length

def OpenSsl.keyedSigner (bytes : List UInt8) : Nat := (bytes.dropWhile (· = 0)).length - 1

theorem OpenSsl.keyed_reads (certificate : X509) :
    keyedSigner (keyed.toPem certificate) = certificate.signedBy ∧
      keyedKey (keyed.toPem certificate) = certificate.publicKey := by
  have hzeros (count : Nat) : ∀ byte ∈ List.replicate count (0 : UInt8),
      decide (byte = 0) = true := fun byte hbyte =>
    decide_eq_true (List.eq_of_mem_replicate hbyte)
  constructor
  · rw [keyedSigner, keyed, List.dropWhile_append_of_pos (hzeros _)]
    simp
  · rw [keyedKey, keyed, List.takeWhile_append_of_pos (hzeros _)]
    simp

/-- Bob asks for a certificate. -/
def bobsRequest : Env × Request :=
  ({ Env.calm 0 with uuid := 6, openssl := OpenSsl.keyed },
    .message ⟨some (.certificateRequest ⟨"research", [], []⟩)⟩)

/-- Alice is onboarded, and the engine is restarted. -/
def restartedAlice : List Happening :=
  [.restart (Setup.calm ⟨1, 2⟩), .request (Env.calm 7) (.register (.ok ⟨"alice", ["research"]⟩)),
    .restart (Setup.calm ⟨5, 6⟩)]

/-- Nothing has happened yet. -/
def Deployment.blank : Deployment := ⟨Service.blank, false⟩

/-- What bob gets from an engine with the public key. -/
def bobsCertificate (publicPart : Nat) : Proto.Certificate :=
  ⟨"", List.replicate 5 0 ++ 1 :: List.replicate publicPart 0,
    List.replicate publicPart 0 ++ 1 :: List.replicate publicPart 0⟩

theorem trust_ends_alice :
    ∃ container ∈ (Deployment.blank.run restartedAlice).service.world.containers,
      ∃ startup, Proxy.main container.env
          (Deployment.blank.run restartedAlice).service.world.files = .ok startup ∧
        ¬ (∃ ca ∈ startup.clientCAs, ca.publicKey =
          OpenSsl.keyedSigner (bobsCertificate 5).request) ∧
        startup.certificate.signedBy ≠ OpenSsl.keyedKey (bobsCertificate 5).rootCert := by
  have hinitial : Deployment.blank.Initial := ⟨Service.blank_initial.world, rfl⟩
  have hup : (Deployment.blank.run [.restart (Setup.calm ⟨1, 2⟩)]).up = true := rfl
  have honboard : OnboardOk "alice"
      (Deployment.blank.run [.restart (Setup.calm ⟨1, 2⟩)]).service
      (Env.calm 7, .register (.ok ⟨"alice", ["research"]⟩)) := ⟨rfl, ["research"], rfl, by decide⟩
  have helsewhere : ∀ other asked,
      Happening.request other asked ∈ [.restart (Setup.calm ⟨5, 6⟩)] ++ [] →
      Elsewhere (mountDir "alice") asked := by
    intro other asked hmem
    simp at hmem
  have hkeys : ∀ setup, Happening.restart setup ∈ [.restart (Setup.calm ⟨5, 6⟩)] →
      setup.env.keyPair.publicPart ≠ (Deployment.blank.run
        [.restart (Setup.calm ⟨1, 2⟩)]).service.world.authority.keyPair.publicPart := by
    intro setup hmem
    obtain rfl := Happening.restart.inj (List.mem_singleton.mp hmem)
    decide
  have hissues : Issues (Deployment.blank.run ([.restart (Setup.calm ⟨1, 2⟩)] ++
      .request (Env.calm 7) (.register (.ok ⟨"alice", ["research"]⟩)) ::
        [.restart (Setup.calm ⟨5, 6⟩)])).service bobsRequest (bobsCertificate 5) :=
    ⟨⟨some (.certificateRequest ⟨"research", [], []⟩)⟩, true, rfl, by decide +kernel⟩
  have hdisturbed : ¬ Undisturbed [.restart (Setup.calm ⟨5, 6⟩)] := fun hundisturbed =>
    hundisturbed _ List.mem_cons_self (Setup.calm_works ⟨5, 6⟩)
  have hmem : { tenant (Env.calm 7) "alice" with running := true } ∈
      (Deployment.blank.run restartedAlice).service.world.containers := by decide
  obtain ⟨startup, hmain, hclient, hserver⟩ := trust_ends OpenSsl.keyedSigner OpenSsl.keyedKey
    hinitial hup honboard helsewhere hkeys hissues OpenSsl.keyed_reads _ hmem rfl
  exact ⟨_, hmem, startup, hmain, mt hclient.mp hdisturbed, mt hserver.mp hdisturbed⟩

/-! ## Records -/

/-- A query for an `_id` finds the row that has it, since no other has. -/
theorem findOne_of_mem {α : Type} {key : α → String} {coll : Handle key} {env : Env}
    {world : World} {row : α} (hworks : ¬ env.Fails (.findOne coll.name))
    (hrow : row ∈ coll.get world) :
    coll.findOne env (fun other => key other = key row) world = (.ok (some row), world) := by
  rcases findOne_cases env coll (fun other => key other = key row) world with
    ⟨error, hfault, -⟩ | ⟨-, found, heq, hfound, hnone⟩
  · exact absurd ⟨error, hfault⟩ hworks
  · cases found with
    | none => exact absurd (decide_eq_true rfl) (hnone rfl row hrow)
    | some other =>
        obtain ⟨hother, hid⟩ := hfound other rfl
        rwa [Table.eq_of_mem_of_key_eq hother hrow (of_decide_eq_true hid)] at heq

theorem getIntent_of_mem {env : Env} {world : World} {row : Intent}
    (hworks : ¬ env.Fails (.findOne .intents)) (hrow : row ∈ world.intents) :
    ConsentEngine.getIntent env row.id world = (.ok row, world) := by
  have hfind : Handle.intents.findOne env (fun other => other.id = row.id) world =
      (.ok (some row), world) := findOne_of_mem hworks hrow
  exact Action.bind_of_ok hfind _

theorem getConsent_of_mem {env : Env} {world : World} {row : Consent}
    (hworks : ¬ env.Fails (.findOne .consents)) (hrow : row ∈ world.consents) :
    ConsentEngine.getConsent env row.id world = (.ok row, world) := by
  have hfind : Handle.consents.findOne env (fun other => other.id = row.id) world =
      (.ok (some row), world) := findOne_of_mem hworks hrow
  exact Action.bind_of_ok hfind _

/-- The identifier in a certificate leads `get_intent` to the intent the certificate was
issued for, whatever happens after it was issued: engines are restarted, requests unwind,
backend calls fail. -/
theorem intent_read_back {before : List Happening} {input : Env × Request}
    {certificate : Proto.Certificate} (hup : (deployment.run before).up = true)
    (hissues : Issues (deployment.run before).service input certificate) :
    ∃ r x509 identifier, input.2 = .message ⟨some (.certificateRequest r)⟩ ∧
      certificate.request = input.1.openssl.toPem x509 ∧
      x509.extension .subjectKeyIdentifier = some identifier ∧
      ∀ later env, ¬ Env.Fails env (.findOne .intents) →
        (ConsentEngine.getIntent env identifier (deployment.run
          (before ++ .request input.1 input.2 :: later)).service.world).1 =
            .ok ⟨identifier, [r.intent]⟩ := by
  obtain ⟨r, record, hrequest, hsigned, -, hrow⟩ := hissues.recorded
  obtain ⟨x509, hpem, hidentity⟩ := hsigned.certificate
  refine ⟨r, x509, record.id, hrequest, hpem, ?_, fun later env hworks => ?_⟩
  · rw [hidentity.extensions.1, hsigned.record]
  · have hkept : record ∈ (deployment.run
        (before ++ .request input.1 input.2 :: later)).service.world.intents := by
      rw [Deployment.run_request hup]
      refine Deployment.world_run (P := fun world => record ∈ world.intents)
        (fun _ _ hrecord => hrecord) ?_ hrow
      intro other asked _ service hrecord
      exact (serve_step other asked service).intents_kept hrecord
    rw [getIntent_of_mem hworks hkept, hsigned.record]

/-- Bob gets a certificate, and the engine is restarted. -/
theorem intent_read_back_bob :
    ∃ identifier, (ConsentEngine.getIntent (Env.calm 0) identifier (Deployment.blank.run
      ([.restart (Setup.calm ⟨1, 2⟩)] ++ .request bobsRequest.1 bobsRequest.2 ::
        [.restart (Setup.calm ⟨5, 6⟩)])).service.world).1 = .ok ⟨identifier, ["research"]⟩ := by
  have hup : (Deployment.blank.run [.restart (Setup.calm ⟨1, 2⟩)]).up = true := rfl
  have hissues : Issues (Deployment.blank.run [.restart (Setup.calm ⟨1, 2⟩)]).service bobsRequest
      (bobsCertificate 1) :=
    ⟨⟨some (.certificateRequest ⟨"research", [], []⟩)⟩, true, rfl, by decide +kernel⟩
  obtain ⟨r, x509, identifier, hrequest, -, -, hread⟩ := intent_read_back hup hissues
  have hintent : r.intent = "research" := by
    cases hrequest
    rfl
  refine ⟨identifier, ?_⟩
  rw [← hintent]
  exact hread _ (Env.calm 0) ((Env.calm_faultless 0).not_fails _)

/-- As long as a user is not deboarded, `get_consent` returns the purposes of the
registration and the serial number of the tenant's certificate, whatever happens after it. -/
theorem consent_read_back {before later : List Happening} {input : Env × Request}
    (hup : (deployment.run before).up = true)
    (honboard : OnboardOk id (deployment.run before).service input)
    (hleaves : Runs.Along Deployment.step (OnRequests (LeavesOnboarded id)) later
      (deployment.run (before ++ [.request input.1 input.2]))) :
    ∃ purposes, input.2.onboards = some (id, purposes) ∧
      ∀ env, ¬ Env.Fails env (.findOne .consents) →
        (ConsentEngine.getConsent env id (deployment.run
          (before ++ .request input.1 input.2 :: later)).service.world).1 =
            .ok ⟨id, input.1.serial.toInt32, purposes⟩ := by
  obtain ⟨purposes, hrequest, hprovided, -⟩ := honboard.provided
  refine ⟨purposes, hrequest, fun env hworks => ?_⟩
  have hkept : ⟨id, input.1.serial.toInt32, purposes⟩ ∈ (deployment.run
      (before ++ .request input.1 input.2 :: later)).service.world.consents := by
    rw [Deployment.run_request hup] at hleaves ⊢
    exact Deployment.world_along (P := fun world => ⟨id, input.1.serial.toInt32, purposes⟩ ∈
      world.consents) (fun _ _ hrow => hrow)
      (fun service input hok => row_kept_of_leavesOnboarded rfl hok) hleaves hprovided.row
  exact congrArg Prod.fst (getConsent_of_mem hworks hkept)

/-- Alice is onboarded, the engine is restarted, and bob is onboarded. -/
theorem consent_read_back_alice :
    (ConsentEngine.getConsent (Env.calm 0) "alice" (Deployment.blank.run
      ([.restart (Setup.calm ⟨1, 2⟩)] ++
        .request (Env.calm 7) (.register (.ok ⟨"alice", ["research"]⟩)) ::
          [.restart (Setup.calm ⟨5, 6⟩),
            .request (Env.calm 8) (.register (.ok ⟨"bob", []⟩))])).service.world).1 =
      .ok ⟨"alice", 7, ["research"]⟩ := by
  have hup : (Deployment.blank.run [.restart (Setup.calm ⟨1, 2⟩)]).up = true := rfl
  have honboard : OnboardOk "alice"
      (Deployment.blank.run [.restart (Setup.calm ⟨1, 2⟩)]).service
      (Env.calm 7, .register (.ok ⟨"alice", ["research"]⟩)) := ⟨rfl, ["research"], rfl, by decide⟩
  have hleaves : Runs.Along Deployment.step (OnRequests (LeavesOnboarded "alice"))
      [.restart (Setup.calm ⟨5, 6⟩), .request (Env.calm 8) (.register (.ok ⟨"bob", []⟩))]
      (Deployment.blank.run ([.restart (Setup.calm ⟨1, 2⟩)] ++
        [.request (Env.calm 7) (.register (.ok ⟨"alice", ["research"]⟩))])) := by
    refine ⟨trivial, fun hdeboards => ?_, trivial⟩
    cases hdeboards
  obtain ⟨purposes, hrequest, hread⟩ := consent_read_back hup honboard hleaves
  obtain ⟨-, rfl⟩ := Prod.mk.inj (Option.some.inj hrequest)
  exact hread (Env.calm 0) ((Env.calm_faultless 0).not_fails _)

/-! ## Recovery -/

theorem Deployment.run_stuck {happenings : List Happening} {deployment : Deployment}
    (hpoisoned : deployment.service.poisoned = true) (hundisturbed : Undisturbed happenings) :
    (deployment.run happenings).service = deployment.service := by
  induction happenings generalizing deployment with
  | nil => rfl
  | cons first rest ih =>
      have hrest : Undisturbed rest := fun setup hmem =>
        hundisturbed setup (List.mem_cons_of_mem first hmem)
      have hfirst : (step first deployment).service = deployment.service := by
        rcases step_cases first deployment with
          ⟨env, request, -, -, hstep⟩ | ⟨setup, rfl, hworks, -⟩ | ⟨-, hstep⟩
        · rw [hstep]
          exact (guarded_serve env request).stuck _ hpoisoned
        · exact absurd hworks (hundisturbed setup List.mem_cons_self)
        · rw [hstep]
      exact (ih (hfirst ▸ hpoisoned) hrest).trans hfirst

/-- Whatever is asked after a request has unwound is lost.  The next engine that starts
finds everything as that request left it, serves again, and has a new key. -/
theorem restart_recovers {before middle : List Happening} {env : Env} {request : Request}
    (hup : (deployment.run before).up = true)
    (hpanics : Action.Panics (serve env request) (deployment.run before).service)
    (hmiddle : Undisturbed middle) (hworks : setup.Works) :
    deployment.run (before ++ .request env request :: (middle ++ [.restart setup])) =
      ⟨⟨{ (Tolla.step (env, request) (deployment.run before).service).world with
          authority := setup.authority }, false⟩, true⟩ := by
  have hpoisoned : (Tolla.step (env, request) (deployment.run before).service).poisoned = true :=
    (guarded_serve env request).poisons _ hpanics
  have hstuck : (Deployment.run middle ⟨Tolla.step (env, request)
      (deployment.run before).service, true⟩).service =
        Tolla.step (env, request) (deployment.run before).service :=
    Deployment.run_stuck hpoisoned hmiddle
  rw [Deployment.run_request hup, Deployment.run_append]
  show Deployment.step (.restart setup) _ = _
  rcases Deployment.step_cases (.restart setup) (Deployment.run middle ⟨Tolla.step (env, request)
    (deployment.run before).service, true⟩) with
    ⟨_, _, hrequest, -, -⟩ | ⟨other, hother, -, hstep⟩ | ⟨hbroken, -⟩
  · cases hrequest
  · obtain rfl := Happening.restart.inj hother
    rw [hstep, hstuck]
  · exact absurd hworks (hbroken setup rfl)

/-- A proxy asks for a number that no row has, alice is registered in vain, and the engine is
restarted. -/
theorem restart_recovers_stranger :
    (Deployment.blank.run ([.restart (Setup.calm ⟨1, 2⟩)] ++
      .request (Env.calm 0) (.lease (Text.utf8 "user=5&intent=research")) ::
        ([.request (Env.calm 7) (.register (.ok ⟨"alice", ["research"]⟩))] ++
          [.restart (Setup.calm ⟨5, 6⟩)]))) =
      ⟨⟨{ Service.blank.world with authority := (Setup.calm ⟨5, 6⟩).authority }, false⟩, true⟩ := by
  have hup : (Deployment.blank.run [.restart (Setup.calm ⟨1, 2⟩)]).up = true := rfl
  have hpanics : Action.Panics
      (serve (Env.calm 0) (.lease (Text.utf8 "user=5&intent=research")))
      (Deployment.blank.run [.restart (Setup.calm ⟨1, 2⟩)]).service :=
    ⟨"called `Option::unwrap()` on a `None` value", by decide +kernel⟩
  have hmiddle : Undisturbed
      [.request (Env.calm 7) (.register (.ok ⟨"alice", ["research"]⟩))] := by
    intro setup hmem
    simp at hmem
  exact restart_recovers hup hpanics hmiddle (Setup.calm_works ⟨5, 6⟩)

end Tolla
