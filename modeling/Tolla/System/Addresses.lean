import Tolla.Engine.Cursors
import Tolla.Engine.Lifecycle
import Tolla.Engine.Poison
import Tolla.System.Enrolment

/-!
# The addresses of the tenants

When the client has its certificate it asks the engine for the addresses of the tenants, and
goes to the first.  The engine sends all of them in one reply, and the connection has room
for 8192 bytes.

`main_ends` says how the program of the client ends.  It comes to the database only if there
is a tenant, the reply fits, and the stream is not cut after the second byte of the reply; in
the last case the program ends without an error and has done nothing.

The rows of `view` only become fewer when a user is deboarded.  So from the moment at which
the addresses do not fit, no client comes to any database, not even to that of a tenant who
has been there from the start (`crowd_locks_out`).
-/

namespace Tolla

open Effects Framing Keyed Proto TollaClient Wire

variable {client : ClientEnv} {conf : Settings} {network : Network} {env : Env}
  {service : Service} {disk after : Disk} {ips : List String}

/-- The reply with the addresses. -/
def addressReply (ips : List String) : ToClient := ⟨true, some (.ips ⟨ips⟩)⟩

/-- The request for them. -/
def addressRequest : FromClient := ⟨some (.requestIps true)⟩

/-- The reply is cut after its first field. -/
def Network.Cuts (network : Network) (reply : ToClient) : Prop :=
  2 ∈ cuts 0 (network.replies.reads (Message.encodeRaw reply))

/-- The engine finds the addresses, and there is room for them on the connection. -/
structure Lists (network : Network) (env : Env) (service : Service) (ips : List String) :
    Prop where
  works : ¬ network.Fails
  healthy : service.poisoned = false
  found : (ConsentEngine.getTenantIps env service.world).1 = .ok ips
  fits : (Message.encodeRaw (addressReply ips)).length ≤ 8192

/-! ## The reply -/

theorem call_addressRequest {reply : ToClient} :
    (ProtoService.call env addressRequest service).1 = .ok reply ↔
      service.poisoned = false ∧ ∃ ips,
        (ConsentEngine.getTenantIps env service.world).1 = .ok ips ∧ reply = addressReply ips := by
  constructor
  · intro hcall
    have hlocked : locked (ConsentEngine.handleIncoming env addressRequest) service =
        (.ok reply, (ProtoService.call env addressRequest service).2) := Prod.ext hcall rfl
    obtain ⟨ips, between, hips, hreply⟩ := Action.bind_eq_ok (locked_eq_ok hlocked)
    exact ⟨healthy_of_locked hlocked, ips, congrArg Prod.fst hips,
      (Outcome.ok.inj (Prod.mk.inj hreply).1).symm⟩
  · rintro ⟨hhealthy, ips, hips, rfl⟩
    have hrun : ConsentEngine.handleIncoming env addressRequest service.world =
        (.ok (addressReply ips), (ConsentEngine.getTenantIps env service.world).2) :=
      Action.bind_of_ok (Prod.ext hips rfl) _
    simp [ProtoService.call, locked, hhealthy, hrun]

theorem returned_eq_ok_iff {outcome : Outcome String ToClient} {shown : ToClient} :
    network.returned outcome = .ok shown ↔ ∃ reply, outcome = .ok reply ∧
      (Message.encodeRaw reply).length ≤ 8192 ∧ shown = network.shown reply := by
  cases outcome with
  | err error => simp [Network.returned]
  | panic text => simp [Network.returned]
  | ok reply =>
      simp only [Network.returned]
      split
      · rename_i hfits
        simp [hfits, eq_comm]
      · rename_i hlong
        simp [hlong]

/-- The client gets the addresses, or what the connection leaves of them. -/
theorem send_addressRequest {address : String} {shown : ToClient} :
    network.send env service address addressRequest = .ok shown ↔
      ∃ ips, Lists network env service ips ∧ shown = network.shown (addressReply ips) := by
  have hshort : (Message.encodeRaw addressRequest).length ≤ 8192 := by decide
  have hsent : network.send env service address addressRequest = .ok shown ↔
      ¬ network.Fails ∧
        network.returned (ProtoService.call env addressRequest service).1 = .ok shown := by
    unfold Network.send Network.Fails
    rw [exchange_refines]
    unfold remoteCall Network.refusal
    cases hconnect : network.connect with
    | some error => simp
    | none =>
        rw [if_pos hshort]
        cases hwrite : network.write with
        | some error => simp
        | none => cases hread : network.read <;> simp [addressRequest]
  rw [hsent, returned_eq_ok_iff]
  constructor
  · rintro ⟨hworks, reply, hcall, hfits, rfl⟩
    obtain ⟨hhealthy, ips, hips, rfl⟩ := call_addressRequest.mp hcall
    exact ⟨ips, ⟨hworks, hhealthy, hips, hfits⟩, rfl⟩
  · rintro ⟨ips, hlists, rfl⟩
    exact ⟨hlists.works, _, call_addressRequest.mpr ⟨hlists.healthy, ips, hlists.found, rfl⟩,
      hlists.fits, rfl⟩

theorem shown_addressReply (network : Network) (ips : List String) :
    (network.Cuts (addressReply ips) → network.shown (addressReply ips) = ⟨true, none⟩) ∧
      (¬ network.Cuts (addressReply ips) →
        network.shown (addressReply ips) = addressReply ips) := by
  unfold Network.shown
  constructor
  · intro hcuts
    exact if_pos ⟨rfl, rfl, hcuts⟩
  · intro hwhole
    exact if_neg fun hcut => hwhole hcut.2.2

/-! ## The program of the client -/

/-- The end of the program. -/
def ending : Outcome String ToClient → Outcome String (Option String)
  | .ok ⟨_, some (.ips ⟨[]⟩)⟩ => .panic "index out of bounds: the len is 0 but the index is 0"
  | .ok ⟨_, some (.ips ⟨first :: _⟩)⟩ => .ok (some first)
  | .ok _ => .ok none
  | .err _ => .panic "called `Result::unwrap()` on an `Err` value"
  | .panic text => .panic text

theorem main_eq (hok : retrieveCertificate client conf disk = (.ok (), after))
    (send : String → FromClient → Outcome String ToClient) :
    ∃ address, TollaClient.main (some conf) client send disk =
      (ending (send address addressRequest), after) := by
  obtain ⟨body, ⟨toClient, hreply, -⟩, -⟩ := retrieveCertificate_ok hok
  obtain ⟨addr, haddr, -⟩ := send_of_reply hreply
  refine ⟨addr ++ ":" ++ conf.ca.port, ?_⟩
  unfold TollaClient.main
  rw [Action.bind_of_ok (Action.unwrap_of_ok hok)]
  simp only [haddr]
  change _ = (ending (send (addr ++ ":" ++ conf.ca.port) ⟨some (.requestIps true)⟩), after)
  generalize send (addr ++ ":" ++ conf.ca.port) ⟨some (.requestIps true)⟩ = outcome
  cases outcome with
  | err error => rw [Action.bind_of_panic (Action.unwrap_of_err rfl), ending]
  | panic text => rw [Action.bind_of_panic (Action.unwrap_of_panic rfl), ending]
  | ok reply =>
      rw [Action.bind_of_ok (Action.unwrap_of_ok rfl)]
      obtain ⟨success, msg⟩ := reply
      rcases msg with _ | (error | certificate | ⟨⟨ip⟩⟩)
      · rfl
      · rfl
      · rfl
      · cases ip with
        | nil => rfl
        | cons first rest => rfl

theorem ending_eq_some_iff {outcome : Outcome String ToClient} {address : String} :
    ending outcome = .ok (some address) ↔
      ∃ success rest, outcome = .ok ⟨success, some (.ips ⟨address :: rest⟩)⟩ := by
  constructor
  · intro hending
    unfold ending at hending
    split at hending
    · cases hending
    · rename_i success first rest
      obtain rfl := Option.some.inj (Outcome.ok.inj hending)
      exact ⟨success, rest, rfl⟩
    · cases hending
    · cases hending
    · cases hending
  · rintro ⟨success, rest, rfl⟩
    rfl

theorem ending_eq_none_iff {outcome : Outcome String ToClient} :
    ending outcome = .ok none ↔
      ∃ reply, outcome = .ok reply ∧ ∀ addresses, reply.msg ≠ some (.ips addresses) := by
  constructor
  · intro hending
    unfold ending at hending
    split at hending
    · cases hending
    · cases hending
    · rename_i reply hempty hfirst
      refine ⟨reply, rfl, fun addresses hmsg => ?_⟩
      obtain ⟨success, msg⟩ := reply
      obtain rfl : msg = some (.ips addresses) := hmsg
      obtain ⟨ip⟩ := addresses
      cases ip with
      | nil => exact hempty success rfl
      | cons first rest => exact hfirst success first rest rfl
    · cases hending
    · cases hending
  · rintro ⟨⟨success, msg⟩, rfl, hmsg⟩
    rcases msg with _ | (error | certificate | addresses)
    · rfl
    · rfl
    · rfl
    · exact absurd rfl (hmsg addresses)

theorem ending_ne_err (outcome : Outcome String ToClient) (error : String) :
    ending outcome ≠ .err error := by
  unfold ending
  split <;> nofun

theorem ending_send_eq_some_iff {target address : String} :
    ending (network.send env service target addressRequest) = .ok (some address) ↔
      ∃ rest, Lists network env service (address :: rest) ∧
        ¬ network.Cuts (addressReply (address :: rest)) := by
  rw [ending_eq_some_iff]
  constructor
  · rintro ⟨success, rest, hsend⟩
    obtain ⟨ips, hlists, hshown⟩ := send_addressRequest.mp hsend
    have hwhole : ¬ network.Cuts (addressReply ips) := by
      intro hcuts
      rw [(shown_addressReply network ips).1 hcuts] at hshown
      cases hshown
    rw [(shown_addressReply network ips).2 hwhole] at hshown
    cases hshown
    exact ⟨rest, hlists, hwhole⟩
  · rintro ⟨rest, hlists, hwhole⟩
    refine ⟨true, rest, send_addressRequest.mpr ⟨_, hlists, ?_⟩⟩
    exact ((shown_addressReply network _).2 hwhole).symm

theorem ending_send_eq_none_iff {target : String} :
    ending (network.send env service target addressRequest) = .ok none ↔
      ∃ ips, Lists network env service ips ∧ network.Cuts (addressReply ips) := by
  rw [ending_eq_none_iff]
  constructor
  · rintro ⟨shown, hsend, hmsg⟩
    obtain ⟨ips, hlists, rfl⟩ := send_addressRequest.mp hsend
    refine ⟨ips, hlists, Classical.not_not.mp fun hwhole => ?_⟩
    rw [(shown_addressReply network ips).2 hwhole] at hmsg
    exact hmsg _ rfl
  · rintro ⟨ips, hlists, hcuts⟩
    refine ⟨_, send_addressRequest.mpr ⟨ips, hlists, rfl⟩, ?_⟩
    rw [(shown_addressReply network ips).1 hcuts]
    nofun

/-- How the program of a client ends that has got its certificate. -/
structure MainEnds (network : Network) (env : Env) (service : Service)
    (result : Outcome String (Option String)) : Prop where
  /-- It comes to the first of the addresses. -/
  reaches : ∀ address, result = .ok (some address) ↔
    ∃ rest, Lists network env service (address :: rest) ∧
      ¬ network.Cuts (addressReply (address :: rest))
  /-- It ends without an error, and has not come to a database. -/
  idles : result = .ok none ↔
    ∃ ips, Lists network env service ips ∧ network.Cuts (addressReply ips)
  /-- Otherwise it panics. -/
  panics : (∃ text, result = .panic text) ↔
    ∀ ips, Lists network env service ips → ips = [] ∧ ¬ network.Cuts (addressReply ips)

theorem mainEnds_ending (network : Network) (env : Env) (service : Service) (target : String) :
    MainEnds network env service (ending (network.send env service target addressRequest)) := by
  refine ⟨fun address => ending_send_eq_some_iff, ending_send_eq_none_iff, ?_⟩
  constructor
  · rintro ⟨text, hpanic⟩ ips hlists
    have hwhole : ¬ network.Cuts (addressReply ips) := by
      intro hcuts
      cases hpanic.symm.trans (ending_send_eq_none_iff.mpr ⟨ips, hlists, hcuts⟩)
    cases ips with
    | nil => exact ⟨rfl, hwhole⟩
    | cons first rest =>
        cases hpanic.symm.trans (ending_send_eq_some_iff.mpr ⟨rest, hlists, hwhole⟩)
  · intro hnothing
    cases hending : ending (network.send env service target addressRequest) with
    | panic text => exact ⟨text, rfl⟩
    | err error => exact absurd hending (ending_ne_err _ error)
    | ok result =>
        cases result with
        | none =>
            obtain ⟨ips, hlists, hcuts⟩ := ending_send_eq_none_iff.mp hending
            exact absurd hcuts (hnothing ips hlists).2
        | some first =>
            obtain ⟨rest, hlists, -⟩ := ending_send_eq_some_iff.mp hending
            cases (hnothing _ hlists).1

/-- How the program ends, whatever happens on the connection and in the engine.  The files
stay as they are. -/
theorem main_ends (hok : retrieveCertificate client conf disk = (.ok (), after))
    (network : Network) (env : Env) (service : Service) :
    ∃ result, TollaClient.main (some conf) client (network.send env service) disk =
        (result, after) ∧ MainEnds network env service result := by
  obtain ⟨address, hmain⟩ := main_eq hok (network.send env service)
  exact ⟨_, hmain, mainEnds_ending network env service address⟩

/-- Alice is a tenant, and bob comes to her database. -/
theorem main_ends_bob :
    (TollaClient.main (some Settings.sample) (bobsClient.online .calm bobsEnv Service.blank)
      (Network.calm.send (Env.calm 0)
        (run [(Env.calm 7, .register (.ok ⟨"alice", ["research"]⟩))] Service.blank))
      (fun _ => none)).1 = .ok (some "172.17.0.2") := by
  obtain ⟨result, hmain, hends⟩ := main_ends bob_retrieves .calm (Env.calm 0)
    (run [(Env.calm 7, .register (.ok ⟨"alice", ["research"]⟩))] Service.blank)
  rw [hmain]
  have hworks : ¬ Network.calm.Fails := by simp [Network.Fails, Network.calm]
  refine (hends.reaches "172.17.0.2").mpr ⟨[], ⟨hworks, by decide, by decide, by decide⟩, ?_⟩
  unfold Network.Cuts
  decide

/-! ## Too many tenants -/

/-- The addresses of the tenants do not fit into a reply. -/
def Crowded (world : World) : Prop :=
  8192 < (Message.encodeRaw (addressReply (world.view.rows.map View.ip))).length

theorem length_addressReply (ips : List String) :
    (Message.encodeRaw (addressReply ips)).length =
      2 + (Field.bytes ⟨4, .lengthDelimited (Message.encodeRaw (⟨ips⟩ : Addresses))⟩).length := by
  rw [addressReply, encodeRaw_two, List.length_append, successField_bytes]
  rfl

theorem encodeRaw_addresses (ips : List String) :
    Message.encodeRaw (⟨ips⟩ : Addresses) =
      ips.flatMap fun ip => Field.bytes ⟨1, .lengthDelimited (Text.utf8 ip)⟩ := by
  simp [Message.encodeRaw, Message.fields, repeatedString, serialize, List.flatMap_map]

/-- More tenants do not make the reply shorter. -/
theorem Crowded.mono {before after : World} (hcrowded : Crowded before)
    (hgrows : before.view.rows <+: after.view.rows) : Crowded after := by
  obtain ⟨new, hrows⟩ := hgrows
  have hinner : (Message.encodeRaw (⟨before.view.rows.map View.ip⟩ : Addresses)).length ≤
      (Message.encodeRaw (⟨after.view.rows.map View.ip⟩ : Addresses)).length := by
    rw [encodeRaw_addresses, encodeRaw_addresses, ← hrows, List.map_append, List.flatMap_append,
      List.length_append]
    omega
  unfold Crowded at hcrowded ⊢
  rw [length_addressReply] at hcrowded ⊢
  rcases Nat.lt_or_ge (Message.encodeRaw (⟨after.view.rows.map View.ip⟩ : Addresses)).length
    (2 ^ 64) with hshort | hlong
  · have hmono := @Field.length_mono 4 _ _ hinner hshort
    omega
  · have hcontent := @length_le_bytes 4
      (Message.encodeRaw (⟨after.view.rows.map View.ip⟩ : Addresses))
    omega

/-- A request that deboards nobody adds to the rows of `view` at their end. -/
theorem view_prefix_step {input : Env × Request} (hnot : ∀ id, ¬ DeboardOk id service input) :
    service.world.view.rows <+: (step input service).world.view.rows := by
  cases hpoisoned : service.poisoned with
  | true => rw [step_of_poisoned hpoisoned]
  | false =>
  obtain ⟨env, request⟩ := input
  have hstep : Step env request service.world (step (env, request) service).world :=
    serve_step env request service
  generalize (step (env, request) service).world = after at hstep ⊢
  cases hstep with
  | idle => exact List.prefix_rfl
  | onboard hrequest =>
      rename_i id purposes
      rcases onboardUser_view env id purposes service.world with hsame | ⟨ip, hinsert⟩
      · rw [hsame]
      · rw [(Table.insert_eq_some_iff.mp hinsert).2]
        exact List.prefix_append _ _
  | deboard hrequest =>
      rename_i id
      rcases deboardUser_view env id service.world with hsame | ⟨hok, -⟩
      · rw [hsame]
      · exact absurd ⟨hpoisoned, hrequest, hok⟩ (hnot id)
  | consent hinsert => exact List.prefix_rfl
  | intent hinsert => exact List.prefix_rfl

theorem view_prefix_run {inputs : List (Env × Request)}
    (hnever : Runs.Along step (fun state input => ∀ id, ¬ DeboardOk id state input) inputs
      service) : service.world.view.rows <+: (run inputs service).world.view.rows :=
  Runs.exec_along (P := fun state => service.world.view.rows <+: state.world.view.rows)
    (fun _ _ hnot hstate => hstate.trans (view_prefix_step hnot)) hnever List.prefix_rfl

/-- Unless a read of the cursor fails, all addresses are found. -/
theorem found_eq (hreads : ∀ index, ¬ env.Fails (.next .view index)) {world : World}
    (hfound : (ConsentEngine.getTenantIps env world).1 = .ok ips) :
    ips = world.view.rows.map View.ip := by
  have hnone (index : Nat) : env.fault (.next .view index) = none :=
    Option.eq_none_iff_forall_ne_some.mpr fun error herror => hreads index ⟨error, herror⟩
  rw [getTenantIps_eq] at hfound
  cases hfind : env.fault (.find .view) with
  | some error =>
      have hcursor : (env.store world).view = .error error := by
        simp [Env.store, Handle.cursor, Handle.view, hfind]
      rw [Store.getTenantIps, hcursor] at hfound
      cases hfound
  | none =>
      -- the cursor yields what it yields when nothing fails
      have hcursor : (env.store world).view = ((Env.calm 0).store world).view := by
        simp [Env.store, Handle.cursor, Handle.view, hfind, hnone, Env.calm]
      have hsame : (env.store world).getTenantIps = ((Env.calm 0).store world).getTenantIps := by
        rw [Store.getTenantIps, hcursor]
        rfl
      rw [hsame, ← getTenantIps_eq, getTenantIps_of_faultless (Env.calm_faultless 0)] at hfound
      exact (Outcome.ok.inj hfound).symm

/-- A client whose program comes to a database has got its certificate. -/
theorem retrieved_of_main {settings : Option Settings}
    {send : String → FromClient → Outcome String ToClient} {address : String}
    (hmain : (TollaClient.main settings client send disk).1 = .ok (some address)) :
    ∃ conf after, settings = some conf ∧
      retrieveCertificate client conf disk = (.ok (), after) := by
  cases settings with
  | none => cases hmain
  | some conf =>
      obtain ⟨value, after, hunwrap, -⟩ := Action.bind_eq_ok (Prod.ext hmain rfl)
      refine ⟨conf, after, rfl, ?_⟩
      rcases hrun : retrieveCertificate client conf disk with ⟨outcome, between⟩
      cases outcome with
      | ok value => rwa [Action.unwrap_of_ok hrun] at hunwrap
      | err error =>
          rw [Action.unwrap_of_err hrun] at hunwrap
          cases hunwrap
      | panic text =>
          rw [Action.unwrap_of_panic hrun] at hunwrap
          cases hunwrap

/-- From the moment at which the addresses of the tenants do not fit into a reply, no client
comes to a database, as long as nobody is deboarded. -/
theorem crowd_locks_out {inputs : List (Env × Request)} (hcrowded : Crowded service.world)
    (hnever : Runs.Along step (fun state input => ∀ id, ¬ DeboardOk id state input) inputs service)
    (hreads : ∀ index, ¬ env.Fails (.next .view index)) (settings : Option Settings)
    (client : ClientEnv) (network : Network) (disk : Disk) (address : String) :
    (TollaClient.main settings client (network.send env (run inputs service)) disk).1 ≠
      .ok (some address) := by
  intro hreaches
  obtain ⟨conf, after, rfl, hok⟩ := retrieved_of_main hreaches
  obtain ⟨target, hmain⟩ := main_eq hok (network.send env (run inputs service))
  rw [hmain] at hreaches
  obtain ⟨rest, hlists, -⟩ := ending_send_eq_some_iff.mp hreaches
  have hfits := hlists.fits
  rw [found_eq hreads hlists.found] at hfits
  exact absurd (Crowded.mono hcrowded (view_prefix_run hnever)) (Nat.not_lt.mpr hfits)

/-- The connection has no room for 4096 addresses, however short they are. -/
theorem crowded_of_rows {world : World} (hrows : 4096 ≤ world.view.rows.length) :
    Crowded world := by
  have htwo (ips : List String) :
      2 * ips.length ≤ (Message.encodeRaw (⟨ips⟩ : Addresses)).length := by
    rw [encodeRaw_addresses]
    induction ips with
    | nil => simp
    | cons ip rest ih =>
        have hfield := Field.length_add_two_le 1 (Text.utf8 ip)
        simp only [List.flatMap_cons, List.length_append, List.length_cons]
        omega
  have hcontent := htwo (world.view.rows.map View.ip)
  have hfield := Field.length_add_two_le 4
    (Message.encodeRaw (⟨world.view.rows.map View.ip⟩ : Addresses))
  rw [List.length_map] at hcontent
  rw [Crowded, length_addressReply]
  omega

/-- Tenants whose names are `a`, `aa` and so on. -/
def crowd (count : Nat) : Table View.id where
  rows := (List.range count).map fun n => ⟨String.ofList (List.replicate n 'a'), "172.17.0.2"⟩
  nodup := by
    rw [List.map_map]
    refine List.nodup_range.map fun first second hsame => ?_
    simpa using congrArg String.length hsame

def Service.crowded : Service :=
  { Service.blank with world := { Service.blank.world with view := crowd 4096 } }

/-- Alice is onboarded in addition, and bob does not come to her database. -/
theorem crowd_locks_out_bob :
    (TollaClient.main (some Settings.sample) (bobsClient.online .calm bobsEnv Service.crowded)
      (Network.calm.send (Env.calm 0)
        (run [(Env.calm 7, .register (.ok ⟨"alice", ["research"]⟩))] Service.crowded))
      (fun _ => none)).1 ≠ .ok (some "172.17.0.2") := by
  have hcrowded : Crowded Service.crowded.world :=
    crowded_of_rows (by simp [Service.crowded, crowd])
  have hnever : Runs.Along step (fun state input => ∀ id, ¬ DeboardOk id state input)
      [(Env.calm 7, .register (.ok ⟨"alice", ["research"]⟩))] Service.crowded := by
    refine ⟨fun id hdeboard => ?_, trivial⟩
    cases hdeboard.2.1
  exact crowd_locks_out hcrowded hnever ((Env.calm_faultless 0).not_fails <| .next .view ·)
    _ _ _ _ _

end Tolla
