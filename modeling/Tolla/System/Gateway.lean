import Tolla.Model.Gateway
import Tolla.System.Admission
import Tolla.System.Enforcement
import Tolla.System.Pipe

/-!
# From consent to data

The accept loop starts a relay for every client, also for those that it should turn away.
Nevertheless no byte passes between a client and the database of a tenant, in either
direction, unless there was consent for the intent of the client (`database_guarded`).

Two things make it so.  A relay whose handshake failed is `Silent`: nothing comes out of the
client's side of it, and nothing can be written there.  And a handshake that returned nil has
its place in a run of the engine with one proxy, in which there was consent at most ten
seconds before it.  `Simulated` is this run: it leaves out the traffic, the arrivals that the
loop does not look at, and the handshakes that end before the certificates are verified.
-/

namespace Tolla

open Effects

variable {proxy : Proxy} {service : Service} {listener : Listener}

/-! ## Relays without a client -/

/-- Nothing comes from the client, and nothing gets to it. -/
structure Silent (relay : Relay) : Prop where
  sound : Pump.Sound (relay.copies .toDatabase)
  sent : (relay.copies .toDatabase).sent = []
  delivered : (relay.copies .toClient).delivered = []
  broken : (relay.copies .toClient).broken = true

theorem Silent.deaf : Silent Tunnel.deaf where
  sound := Pump.Sound.start.step .sever
  sent := rfl
  delivered := rfl
  broken := rfl

theorem Silent.step {relay : Relay} (hsilent : Silent relay) {event : Relay.Event}
    (hevent : ∀ data, event ≠ .copy .toDatabase (.put data)) :
    Silent (Relay.step event relay) := by
  obtain ⟨hsound, hsent, hdelivered, hbroken⟩ := hsilent
  cases event with
  | control direction =>
      have hcopies : (Relay.step (.control direction) relay).copies = relay.copies :=
        Relay.done_copies
      exact ⟨hcopies ▸ hsound, hcopies ▸ hsent, hcopies ▸ hdelivered, hcopies ▸ hbroken⟩
  | copy direction move =>
      cases direction with
      | toDatabase =>
          refine ⟨?_, ?_, hdelivered, hbroken⟩
          · exact hsound.step move
          · have htaken : (relay.copies .toDatabase).taken move = [] := by
              cases move with
              | put data => exact absurd rfl (hevent data)
              | _ => rfl
            show (Pump.step move (relay.copies .toDatabase)).sent = []
            rw [Pump.sent_step hsound, hsent, htaken]
            rfl
      | toClient =>
          obtain ⟨hsame, hstays⟩ := Pump.broken_step hbroken move
          exact ⟨hsound, hsent, hsame.trans hdelivered, hstays⟩

theorem Silent.nothing {relay : Relay} (hsilent : Silent relay) (direction : Direction) :
    (relay.copies direction).delivered = [] := by
  cases direction with
  | toClient => exact hsilent.delivered
  | toDatabase =>
      have hfront := Pump.delivered_prefix (relay.copies .toDatabase)
      rw [hsilent.sent] at hfront
      exact List.prefix_nil.mp hfront

/-- A tunnel without a handshake carries nothing. -/
def Tunnel.Guarded (tunnel : Tunnel) : Prop := tunnel.secured = false → Silent tunnel.relay

theorem Tunnel.guarded_opened (connection : Connection) (secured : Bool) :
    (Tunnel.opened connection secured).Guarded := by
  intro hsecured
  obtain rfl : secured = false := hsecured
  exact Silent.deaf

theorem Tunnel.step_kept (event : Relay.Event) (tunnel : Tunnel) :
    (tunnel.step event).connection = tunnel.connection ∧
      (tunnel.step event).secured = tunnel.secured := by
  unfold Tunnel.step
  split
  · exact ⟨rfl, rfl⟩
  · exact ⟨rfl, rfl⟩

theorem Tunnel.Guarded.step {tunnel : Tunnel} (hguarded : tunnel.Guarded) (event : Relay.Event) :
    (tunnel.step event).Guarded := by
  intro hsecured
  rw [(tunnel.step_kept event).2] at hsecured
  have hsilent := hguarded hsecured
  unfold Tunnel.step
  split
  · exact hsilent
  · rename_i hother
    exact hsilent.step fun data hevent => hother data hsecured hevent

/-! ## Rounds of the loop -/

/-- What a round of the loop can do. -/
inductive Round (listener : Listener) : Arrival → Listener → List Tunnel → Prop
  | asked (env : Env) (request : Request) :
      Round listener (.request env request)
        { listener with service := step (env, request) listener.service } []
  | stopped (error : String) :
      Round listener (.acceptFails error) { listener with running := false } []
  | ignored (connection : Connection) (hstopped : listener.running = false) :
      Round listener (.connection connection) listener []
  | crashed {connection : Connection} {message : String} {proxy : Proxy} {service : Service}
      (hrunning : listener.running = true)
      (hrun : connection.handshake (listener.proxy, listener.service) =
        (.panic message, proxy, service)) :
      Round listener (.connection connection)
        { listener with proxy := proxy, service := service, running := false } []
  | handled {connection : Connection} {outcome : Outcome String Unit} {proxy : Proxy}
      {service : Service} {tunnels : List Tunnel} (hrunning : listener.running = true)
      (hrun : connection.handshake (listener.proxy, listener.service) = (outcome, proxy, service))
      (hreturns : ∀ message, outcome ≠ .panic message)
      (htunnels : ∀ tunnel ∈ tunnels, ∃ secured, tunnel = .opened connection secured ∧
        (secured = true → outcome = .ok ())) :
      Round listener (.connection connection)
        { listener with
          proxy := proxy
          service := service
          handled := listener.handled ++ [(connection, handleConnection connection)] } tunnels

theorem round_handleIncoming (listener : Listener) (arrival : Arrival) :
    Round listener arrival (listener.handleIncoming arrival) (Gateway.opens arrival listener) := by
  cases arrival with
  | request env request =>
      have hopens : Gateway.opens (.request env request) listener = [] := by
        simp [Gateway.opens, Listener.handleIncoming]
      rw [hopens]
      exact .asked env request
  | acceptFails error =>
      have hopens : Gateway.opens (.acceptFails error) listener = [] := by
        simp [Gateway.opens, Listener.handleIncoming]
      rw [hopens]
      exact .stopped error
  | connection connection =>
      cases hrunning : listener.running with
      | false =>
          have hsame : listener.handleIncoming (.connection connection) = listener := by
            simp [Listener.handleIncoming, hrunning]
          have hopens : Gateway.opens (.connection connection) listener = [] := by
            simp [Gateway.opens, hsame]
          rw [hopens, hsame]
          exact .ignored connection hrunning
      | true =>
          rcases hrun : connection.handshake (listener.proxy, listener.service) with
            ⟨outcome, proxy, service⟩
          by_cases hpanic : ∃ message, outcome = .panic message
          · obtain ⟨message, rfl⟩ := hpanic
            have hafter : listener.handleIncoming (.connection connection) =
                { listener with proxy := proxy, service := service, running := false } := by
              simp [Listener.handleIncoming, hrunning, hrun]
            have hopens : Gateway.opens (.connection connection) listener = [] := by
              simp [Gateway.opens, hafter]
            rw [hopens, hafter]
            exact .crashed hrunning hrun
          · have hreturns : ∀ message, outcome ≠ .panic message := not_exists.mp hpanic
            have hafter : listener.handleIncoming (.connection connection) =
                { listener with
                  proxy := proxy
                  service := service
                  handled := listener.handled ++ [(connection, handleConnection connection)] } := by
              simp only [Listener.handleIncoming, hrunning, hrun, Bool.not_true,
                Bool.false_eq_true, ↓reduceIte]
            rw [hafter]
            refine .handled hrunning hrun hreturns fun tunnel htunnel => ?_
            simp only [Gateway.opens, hafter, List.drop_left, List.mem_filterMap,
              List.mem_singleton, exists_eq_left] at htunnel
            split at htunnel
            · cases htunnel
            · refine ⟨_, (Option.some.inj htunnel).symm, fun hsecured => ?_⟩
              simp only [Listener.secures, hrun] at hsecured
              cases outcome with
              | ok value => rfl
              | err error => cases hsecured
              | panic message => cases hsecured

/-! ## The run of the engine -/

/-- The engine and this proxy. -/
def alone (proxy : Proxy) (service : Service) : System Unit := ⟨service, fun _ => proxy⟩

/-- The connection has a handshake in the trace, and it returned nil. -/
def Shaken (proxy : Proxy) (service : Service) (trace : List (Nat × Event Unit))
    (connection : Connection) : Prop :=
  ∃ front back, trace = front ++ (connection.now, .handshake () connection.env connection.link
      connection.verifiedChains) :: back ∧
    ((System.run front (alone proxy service)).handshake connection.now () connection.env
      connection.link connection.verifiedChains).1 = .ok ()

theorem Shaken.append {trace : List (Nat × Event Unit)} {connection : Connection}
    (hshaken : Shaken proxy service trace connection) (more : List (Nat × Event Unit)) :
    Shaken proxy service (trace ++ more) connection := by
  obtain ⟨front, back, rfl, hnil⟩ := hshaken
  exact ⟨front, back ++ more, by simp, hnil⟩

/-- The trace is what the engine and the proxy do in the events. -/
structure Simulated (proxy : Proxy) (service : Service) (events : List (Nat × Gateway.Event))
    (gateway : Gateway) (trace : List (Nat × Event Unit)) : Prop where
  sameService : (System.run trace (alone proxy service)).service = gateway.listener.service
  sameProxy : gateway.listener.running = true →
    (System.run trace (alone proxy service)).proxies () = gateway.listener.proxy
  unbooted : ∀ entry ∈ trace, ∀ booted number, entry.2 ≠ .boot booted number
  times : (trace.map Prod.fst).Sublist (events.map Prod.fst)
  places : ∀ front instant event back, trace = front ++ (instant, event) :: back →
    ∃ first other rest, events = first ++ (instant, other) :: rest ∧
      (Gateway.run first (.start proxy service)).listener.service =
        (System.run front (alone proxy service)).service
  secured : ∀ tunnel ∈ gateway.tunnels, tunnel.secured = true →
    Shaken proxy service trace tunnel.connection

variable {events : List (Nat × Gateway.Event)} {gateway after : Gateway}
  {trace : List (Nat × Event Unit)}

/-- An event that neither the engine nor the proxy sees. -/
theorem Simulated.unseen (hsimulated : Simulated proxy service events gateway trace)
    (input : Nat × Gateway.Event)
    (hservice : after.listener.service = gateway.listener.service)
    (hproxy : after.listener.running = true →
      gateway.listener.running = true ∧ after.listener.proxy = gateway.listener.proxy)
    (hsecured : ∀ tunnel ∈ after.tunnels, tunnel.secured = true →
      Shaken proxy service trace tunnel.connection) :
    Simulated proxy service (events ++ [input]) after trace where
  sameService := hsimulated.sameService.trans hservice.symm
  sameProxy hrunning := by
    obtain ⟨hbefore, hsame⟩ := hproxy hrunning
    rw [hsame]
    exact hsimulated.sameProxy hbefore
  unbooted := hsimulated.unbooted
  times := by
    rw [List.map_append]
    exact hsimulated.times.trans (List.sublist_append_left _ _)
  places front instant event back htrace := by
    obtain ⟨first, other, rest, rfl, hsame⟩ := hsimulated.places front instant event back htrace
    exact ⟨first, other, rest ++ [input], by simp, hsame⟩
  secured := hsecured

/-- An event that the engine or the proxy sees. -/
theorem Simulated.seen
    (hsimulated : Simulated proxy service events (Gateway.run events (.start proxy service)) trace)
    {now : Nat} (input : Gateway.Event) (event : Event Unit)
    (hunbooted : ∀ booted number, event ≠ .boot booted number)
    (hservice : (System.step (now, event) (System.run trace (alone proxy service))).service =
      after.listener.service)
    (hproxy : after.listener.running = true →
      (System.step (now, event) (System.run trace (alone proxy service))).proxies () =
        after.listener.proxy)
    (hsecured : ∀ tunnel ∈ after.tunnels, tunnel.secured = true →
      Shaken proxy service (trace ++ [(now, event)]) tunnel.connection) :
    Simulated proxy service (events ++ [(now, input)]) after (trace ++ [(now, event)]) := by
  have hrun : System.run (trace ++ [(now, event)]) (alone proxy service) =
      System.step (now, event) (System.run trace (alone proxy service)) := Runs.exec_append _ _ _
  refine ⟨?_, ?_, ?_, ?_, ?_, hsecured⟩
  · rw [hrun, hservice]
  · rw [hrun]
    exact hproxy
  · intro entry hentry
    rcases List.mem_append.mp hentry with hold | hlast
    · exact hsimulated.unbooted entry hold
    · obtain rfl := List.mem_singleton.mp hlast
      exact hunbooted
  · rw [List.map_append, List.map_append]
    exact hsimulated.times.append (List.Sublist.refl _)
  · intro front instant other back htrace
    rcases List.eq_nil_or_concat' back with rfl | ⟨init, last, rfl⟩
    · -- the new entry
      obtain ⟨rfl, hlast⟩ := List.append_inj' htrace rfl
      obtain ⟨rfl, rfl⟩ := Prod.mk.inj (List.singleton_inj.mp hlast)
      exact ⟨events, input, [], rfl, hsimulated.sameService.symm⟩
    · have hsplit : trace ++ [(now, event)] = (front ++ (instant, other) :: init) ++ [last] := by
        rw [htrace]
        simp
      obtain ⟨hfront, -⟩ := List.append_inj' hsplit rfl
      obtain ⟨first, earlier, rest, rfl, hsame⟩ :=
        hsimulated.places front instant other init hfront
      exact ⟨first, earlier, rest ++ [(now, input)], by simp, hsame⟩

/-- The loop does not see the traffic.  The tunnels are those from before, and one of them
may have moved. -/
theorem traffic_kept (now index : Nat) (event : Relay.Event) (gateway : Gateway) :
    (Gateway.step (now, .traffic index event) gateway).listener = gateway.listener ∧
      ∀ tunnel ∈ (Gateway.step (now, .traffic index event) gateway).tunnels,
        ∃ old ∈ gateway.tunnels, tunnel = old ∨ tunnel = old.step event := by
  simp only [Gateway.step]
  split
  · refine ⟨rfl, fun tunnel htunnel => ?_⟩
    obtain ⟨place, hplace, rfl⟩ := List.mem_iff_getElem.mp htunnel
    have hlength : place < gateway.tunnels.length := by simpa using hplace
    refine ⟨gateway.tunnels[place], List.getElem_mem hlength, ?_⟩
    rw [List.getElem_modify]
    split
    · exact .inr rfl
    · exact .inl rfl
  · exact ⟨rfl, fun tunnel htunnel => ⟨tunnel, htunnel, .inl rfl⟩⟩

/-- A handshake ends before the certificates are verified, or it is one of the engine and
the proxy up to an error in the end. -/
theorem handshake_cases {connection : Connection} {before after : Proxy} {engine later : Service}
    {outcome : Outcome String Unit}
    (hrun : connection.handshake (before, engine) = (outcome, after, later)) :
    ((∃ error, outcome = .err error) ∧ after = before ∧ later = engine) ∨
    ∃ verdict, verifyPeerCertificate connection.now connection.env connection.link
        connection.verifiedChains (before, engine) = (verdict, after, later) ∧
      (outcome = .ok () → verdict = .ok ()) ∧
      ((∀ message, outcome ≠ .panic message) → ∀ message, verdict ≠ .panic message) := by
  unfold Connection.handshake at hrun
  split at hrun
  · rename_i error _
    obtain ⟨rfl, rfl, rfl⟩ := by simpa using hrun
    exact .inl ⟨⟨error, rfl⟩, rfl, rfl⟩
  · refine .inr ?_
    rcases hverify : verifyPeerCertificate connection.now connection.env connection.link
      connection.verifiedChains (before, engine) with ⟨verdict, verified, reached⟩
    cases verdict with
    | err error =>
        rw [Action.bind_of_err hverify] at hrun
        obtain ⟨rfl, rfl, rfl⟩ := by simpa using hrun
        exact ⟨_, rfl, by simp, by simp⟩
    | panic message =>
        rw [Action.bind_of_panic hverify] at hrun
        obtain ⟨rfl, rfl, rfl⟩ := by simpa using hrun
        exact ⟨_, rfl, by simp, id⟩
    | ok value =>
        rw [Action.bind_of_ok hverify] at hrun
        refine ⟨.ok value, ?_, fun _ => rfl, by simp⟩
        split at hrun
        · obtain ⟨-, rfl, rfl⟩ := by simpa using hrun
          rfl
        · obtain ⟨-, rfl, rfl⟩ := by simpa using hrun
          rfl

theorem timed_now {now : Nat} {arrival : Arrival} {connection : Connection}
    (htimed : arrival.timed now = .connection connection) : connection.now = now := by
  cases arrival with
  | connection client =>
      obtain rfl := Arrival.connection.inj htimed
      rfl
  | request env request => cases htimed
  | acceptFails error => cases htimed

/-- A handshake of the loop in which the certificates were verified. -/
theorem Simulated.verified
    (hsimulated : Simulated proxy service events (Gateway.run events (.start proxy service)) trace)
    (hrunning : (Gateway.run events (.start proxy service)).listener.running = true)
    {connection : Connection} {verdict : Outcome String Unit} {verified : Proxy} {later : Service}
    (hverify : verifyPeerCertificate connection.now connection.env connection.link
      connection.verifiedChains ((Gateway.run events (.start proxy service)).listener.proxy,
        (Gateway.run events (.start proxy service)).listener.service) = (verdict, verified, later))
    (input : Gateway.Event) {after : Gateway}
    (hservice : after.listener.service = later)
    (hproxy : after.listener.running = true →
      after.listener.proxy = verified ∧ ∀ message, verdict ≠ .panic message)
    (htunnels : ∀ tunnel ∈ after.tunnels, tunnel.secured = true →
      tunnel ∈ (Gateway.run events (.start proxy service)).tunnels ∨
      tunnel.connection = connection ∧ verdict = .ok ()) :
    ∃ more, Simulated proxy service (events ++ [(connection.now, input)]) after more := by
  have hhandshake : (System.run trace (alone proxy service)).handshake connection.now ()
      connection.env connection.link connection.verifiedChains = (verdict, verified, later) := by
    unfold System.handshake
    rw [hsimulated.sameProxy hrunning, hsimulated.sameService, hverify]
  refine ⟨_, hsimulated.seen input
    (.handshake () connection.env connection.link connection.verifiedChains) (by simp) ?_ ?_ ?_⟩
  · simp only [System.step, hhandshake, hservice]
  · intro hruns
    obtain ⟨rfl, hreturns⟩ := hproxy hruns
    simp only [System.step, hhandshake, Function.update_self]
  · intro tunnel htunnel hsecured
    rcases htunnels tunnel htunnel hsecured with hold | ⟨hsame, rfl⟩
    · exact (hsimulated.secured tunnel hold hsecured).append _
    · refine ⟨trace, [], ?_, ?_⟩
      · rw [hsame]
      · rw [hsame, hhandshake]

theorem Simulated.round
    (hsimulated : Simulated proxy service events (Gateway.run events (.start proxy service)) trace)
    {now : Nat} {arrival : Arrival} (input : Gateway.Event)
    (hnow : ∀ connection, arrival = .connection connection → connection.now = now)
    {listener : Listener} {tunnels : List Tunnel}
    (hround : Round (Gateway.run events (.start proxy service)).listener arrival listener tunnels) :
    ∃ more, Simulated proxy service (events ++ [(now, input)])
      ⟨listener, (Gateway.run events (.start proxy service)).tunnels ++ tunnels⟩ more := by
  cases hround with
  | asked env request =>
      refine ⟨_, hsimulated.seen input (.request env request) (by simp) ?_ ?_ ?_⟩
      · simp only [System.step, hsimulated.sameService]
      · exact hsimulated.sameProxy
      · intro tunnel htunnel hsecured
        rw [List.append_nil] at htunnel
        exact (hsimulated.secured tunnel htunnel hsecured).append _
  | stopped error =>
      refine ⟨trace, hsimulated.unseen _ rfl (by simp) ?_⟩
      rw [List.append_nil]
      exact hsimulated.secured
  | ignored connection hstopped =>
      refine ⟨trace, hsimulated.unseen _ rfl (fun hrunning => ⟨hrunning, rfl⟩) ?_⟩
      rw [List.append_nil]
      exact hsimulated.secured
  | crashed hrunning hrun =>
      rename_i connection message _ _
      obtain rfl := hnow connection rfl
      rcases handshake_cases hrun with ⟨⟨error, herr⟩, -⟩ | ⟨verdict, hverify, -, -⟩
      · cases herr
      · refine hsimulated.verified hrunning hverify input rfl (by simp) fun tunnel htunnel _ => ?_
        rw [List.append_nil] at htunnel
        exact .inl htunnel
  | handled hrunning hrun hreturns htunnels =>
      rename_i connection outcome _ _
      obtain rfl := hnow connection rfl
      rcases handshake_cases hrun with ⟨⟨error, rfl⟩, rfl, rfl⟩ | ⟨verdict, hverify, hok, hpanic⟩
      · -- the goroutine is started for a client that was turned away
        refine ⟨trace, hsimulated.unseen _ rfl (fun hruns => ⟨hruns, rfl⟩) ?_⟩
        intro tunnel htunnel hsecured
        rcases List.mem_append.mp htunnel with hold | hnew
        · exact hsimulated.secured tunnel hold hsecured
        · obtain ⟨secured, rfl, hnil⟩ := htunnels tunnel hnew
          cases hnil hsecured
      · refine hsimulated.verified hrunning hverify input rfl
          (fun _ => ⟨rfl, hpanic hreturns⟩) fun tunnel htunnel hsecured => ?_
        rcases List.mem_append.mp htunnel with hold | hnew
        · exact .inl hold
        · obtain ⟨secured, rfl, hnil⟩ := htunnels tunnel hnew
          exact .inr ⟨rfl, hok (hnil hsecured)⟩

theorem Simulated.step
    (hsimulated : Simulated proxy service events (Gateway.run events (.start proxy service)) trace)
    (input : Nat × Gateway.Event) :
    ∃ more, Simulated proxy service (events ++ [input])
      (Gateway.step input (Gateway.run events (.start proxy service))) more := by
  obtain ⟨now, event⟩ := input
  cases event with
  | traffic index event =>
      obtain ⟨hsame, htunnels⟩ := traffic_kept now index event
        (Gateway.run events (.start proxy service))
      refine ⟨trace, hsimulated.unseen _ (by rw [hsame]) (fun hrunning => ?_) ?_⟩
      · rw [hsame] at hrunning ⊢
        exact ⟨hrunning, rfl⟩
      intro tunnel htunnel hsecured
      obtain ⟨old, hold, rfl | rfl⟩ := htunnels tunnel htunnel
      · exact hsimulated.secured tunnel hold hsecured
      · obtain ⟨hconnection, hsame⟩ := old.step_kept event
        rw [hconnection]
        exact hsimulated.secured old hold (hsame ▸ hsecured)
  | arrival arrival =>
      exact hsimulated.round _ (fun connection => timed_now) (round_handleIncoming _ _)

/-- What a proxy does is in a run of the engine with this proxy. -/
theorem simulated_run (proxy : Proxy) (service : Service) (events : List (Nat × Gateway.Event)) :
    ∃ trace, Simulated proxy service events (Gateway.run events (.start proxy service)) trace := by
  refine Runs.exec_history (P := fun events gateway =>
    ∃ trace, Simulated proxy service events gateway trace) ?_ ?_ events
  · refine ⟨[], rfl, fun _ => rfl, by simp, List.Sublist.refl _, ?_, by simp [Gateway.start]⟩
    intro front instant event back htrace
    cases front <;> cases htrace
  · rintro events input ⟨trace, hsimulated⟩
    exact hsimulated.step input

/-! ## What passes -/

theorem guarded_run (proxy : Proxy) (service : Service) (events : List (Nat × Gateway.Event)) :
    ∀ tunnel ∈ (Gateway.run events (.start proxy service)).tunnels, tunnel.Guarded := by
  have hstart : ∀ tunnel ∈ (Gateway.start proxy service).tunnels, tunnel.Guarded := by
    simp [Gateway.start]
  refine Runs.exec_history (P := fun _ (gateway : Gateway) => ∀ tunnel ∈ gateway.tunnels,
    tunnel.Guarded) hstart ?_ events
  intro events input hguarded tunnel htunnel
  obtain ⟨now, event⟩ := input
  cases event with
  | traffic index event =>
      obtain ⟨old, hold, rfl | rfl⟩ := (traffic_kept now index event _).2 tunnel htunnel
      · exact hguarded tunnel hold
      · exact (hguarded old hold).step event
  | arrival arrival =>
      rcases List.mem_append.mp htunnel with hold | hnew
      · exact hguarded tunnel hold
      · obtain ⟨⟨connection, directions⟩, -, hopened⟩ := List.mem_filterMap.mp hnew
        simp only [Option.ite_none_left_eq_some, Option.some.injEq] at hopened
        obtain ⟨-, rfl⟩ := hopened
        exact Tunnel.guarded_opened _ _

/-- What the leases of a proxy and its serial number say about its past. -/
structure Kept (proxy current : Proxy) : Prop where
  serialNumber : current.serialNumber = proxy.serialNumber
  intends : ∀ lease ∈ current.leases, ∃ intent, lease.certificate.Intends intent

/-- A handshake that succeeds is for a certificate with an intent, and so are the leases. -/
theorem Kept.verify {current after : Proxy} (hkept : Kept proxy current) {now : Nat} {env : Env}
    {link : Link} {verifiedChains : List (List Certificate)} {engine later : Service}
    {outcome : Outcome String Unit}
    (hrun : verifyPeerCertificate now env link verifiedChains (current, engine) =
      (outcome, after, later)) :
    Kept proxy after ∧ (outcome = .ok () → ∃ cert ext intent,
      intentExtension verifiedChains = some (cert, ext) ∧ cert.Intends intent) := by
  have hserial := (verifyPeerCertificate_spec hrun).serialNumber.trans hkept.serialNumber
  unfold verifyPeerCertificate at hrun
  split at hrun
  · obtain ⟨rfl, rfl, rfl⟩ := by simpa using hrun
    exact ⟨hkept, by simp⟩
  rename_i cert ext hselected
  rcases hfind : findLease now cert (current, engine) with ⟨result, scanned, reached⟩
  obtain ⟨-, -, hold, hfound⟩ := findLease_spec hfind
  have hscanned (lease : Proxy.Lease) (hlease : lease ∈ scanned.leases) :
      ∃ intent, lease.certificate.Intends intent := hkept.intends lease (hold lease hlease)
  cases result with
  | err error =>
      rw [Action.bind_of_err hfind] at hrun
      obtain ⟨rfl, rfl, rfl⟩ := by simpa using hrun
      exact ⟨⟨hserial, hscanned⟩, by simp⟩
  | panic message =>
      rw [Action.bind_of_panic hfind] at hrun
      obtain ⟨rfl, rfl, rfl⟩ := by simpa using hrun
      exact ⟨⟨hserial, hscanned⟩, by simp⟩
  | ok found =>
  rw [Action.bind_of_ok hfind] at hrun
  cases found with
  | true =>
      obtain ⟨rfl, rfl, rfl⟩ := by simpa using hrun
      obtain ⟨lease, hlease, rfl, -⟩ := hfound rfl
      obtain ⟨intent, hintent⟩ := hkept.intends lease hlease
      exact ⟨⟨hserial, hscanned⟩, fun _ => ⟨_, ext, intent, hselected, hintent⟩⟩
  | false =>
  simp only [Bool.false_eq_true, ↓reduceIte] at hrun
  cases hdecode : decodeIntent ext.value with
  | error error =>
      simp only [hdecode] at hrun
      obtain ⟨rfl, rfl, rfl⟩ := by simpa using hrun
      exact ⟨⟨hserial, hscanned⟩, by simp⟩
  | ok bytes =>
      simp only [hdecode] at hrun
      obtain ⟨-, -, -, hleases⟩ := addLease_of_assertPermissions hrun
      have hintent : cert.Intends (Text.fromUtf8Lossy bytes) :=
        ⟨ext, bytes, intentExtension_eq_some hselected, hdecode, rfl⟩
      refine ⟨⟨hserial, fun lease hlease => ?_⟩, fun _ => ⟨cert, ext, _, hselected, hintent⟩⟩
      rcases hleases lease hlease with hlease | ⟨rfl, -⟩
      · exact hscanned lease hlease
      · exact ⟨_, hintent⟩

theorem kept_run (hfresh : proxy.leases = []) {trace : List (Nat × Event Unit)}
    (hunbooted : ∀ entry ∈ trace, ∀ booted number, entry.2 ≠ .boot booted number) :
    Kept proxy ((System.run trace (alone proxy service)).proxies ()) := by
  have hstart : Kept proxy proxy := ⟨rfl, by simp [hfresh]⟩
  have halong : Runs.Along System.step (fun _ entry => ∀ booted number, entry.2 ≠
      .boot booted number) trace (alone proxy service) :=
    Runs.along_of_forall fun entry hentry _ => hunbooted entry hentry
  refine Runs.exec_along (P := fun system : System Unit => Kept proxy (system.proxies ())) ?_
    halong hstart
  rintro system ⟨now, event⟩ hunbooted hkept
  cases event with
  | request env request => exact hkept
  | boot booted number => exact absurd rfl (hunbooted booted number)
  | handshake shaken env link verifiedChains =>
      rcases hrun : system.handshake now shaken env link verifiedChains with
        ⟨outcome, after, later⟩
      have hafter := (hkept.verify hrun).1
      simp only [System.step, hrun, Function.update_self]
      cases outcome with
      | ok value => exact hafter
      | err error => exact hafter
      | panic message => exact ⟨hafter.serialNumber, by simp⟩

/-- When a byte gets through a proxy, in either direction and in any order of arrivals and
traffic, the client has an intent, and there was consent to it at an instant at most ten
seconds before the client's handshake. -/
theorem database_guarded {proxy : Proxy} {service : Service} (hfresh : proxy.leases = [])
    {events : List (Nat × Gateway.Event)} (hclock : (events.map Prod.fst).Pairwise (· ≤ ·))
    {tunnel : Tunnel} (htunnel : tunnel ∈ (Gateway.run events (.start proxy service)).tunnels)
    {direction : Direction} (hdata : (tunnel.relay.copies direction).delivered ≠ []) :
    ∃ cert ext intent,
      intentExtension tunnel.connection.verifiedChains = some (cert, ext) ∧ cert.Intends intent ∧
      ∃ first instant event rest, events = first ++ (instant, event) :: rest ∧
        instant ≤ tunnel.connection.now ∧ tunnel.connection.now ≤ instant + leaseTime ∧
        Consented (Gateway.run first (.start proxy service)).listener.service.world
          proxy.serialNumber intent := by
  have hsecured : tunnel.secured = true := by
    by_contra hfailed
    rw [Bool.not_eq_true] at hfailed
    exact hdata ((guarded_run proxy service events tunnel htunnel hfailed).nothing direction)
  obtain ⟨trace, hsimulated⟩ := simulated_run proxy service events
  obtain ⟨front, back, htrace, hnil⟩ := hsimulated.secured tunnel htunnel hsecured
  have hkept : Kept proxy ((System.run front (alone proxy service)).proxies ()) := by
    refine kept_run hfresh fun entry hentry => hsimulated.unbooted entry ?_
    rw [htrace]
    exact List.mem_append_left _ hentry
  obtain ⟨cert, ext, intent, hselected, hintent⟩ := (hkept.verify rfl).2 hnil
  have htimes : (front.map Prod.fst ++ [tunnel.connection.now]).Pairwise (· ≤ ·) := by
    refine (hclock.sublist hsimulated.times).sublist ?_
    rw [htrace]
    simp
  have hnone : ∀ other, ((alone proxy service).proxies other).leases = [] := fun _ => hfresh
  obtain ⟨earlier, instant, event, later, hsplit, hstart, hage, hrow⟩ :=
    exists_consented hnone htimes hnil hselected hintent
  rw [hkept.serialNumber] at hrow
  have hplace : trace = earlier ++ (instant, event) :: (later ++ back) := by
    rw [htrace, List.append_cons, hsplit]
    simp
  obtain ⟨first, other, rest, hevents, hsame⟩ := hsimulated.places _ _ _ _ hplace
  exact ⟨cert, ext, intent, hselected, hintent, first, instant, other, rest, hevents, hstart, hage,
    hsame ▸ hrow⟩

/-- Alice is onboarded with serial number 7, a client comes and sends a byte, and another
client comes without a certificate. -/
def exchange : List (Nat × Gateway.Event) :=
  [(0, .arrival (.request (Env.calm 7) (.register (.ok ⟨"alice", ["research"]⟩)))),
    (2, .arrival (.connection { Connection.anonymous with
      refused := none
      verifiedChains := [[clientCertificate "research"]] })),
    (3, .arrival (.connection Connection.anonymous)),
    (4, .traffic 0 (.copy .toDatabase (.put [42]))),
    (4, .traffic 1 (.copy .toDatabase (.put [42]))),
    (5, .traffic 0 (.copy .toDatabase (.read 1))),
    (5, .traffic 1 (.copy .toDatabase (.read 1))),
    (6, .traffic 0 (.copy .toDatabase (.write 1))),
    (6, .traffic 1 (.copy .toDatabase (.write 1)))]

/-- The first client's byte gets to the database, and there was consent. -/
theorem database_guarded_alice :
    ∃ tunnel ∈ (Gateway.run exchange (.start ⟨7, []⟩ Service.blank)).tunnels,
      (tunnel.relay.copies .toDatabase).delivered = [42] ∧
      ∃ cert ext intent,
        intentExtension tunnel.connection.verifiedChains = some (cert, ext) ∧
        cert.Intends intent ∧
        ∃ first instant event rest, exchange = first ++ (instant, event) :: rest ∧
          instant ≤ tunnel.connection.now ∧ tunnel.connection.now ≤ instant + leaseTime ∧
          Consented (Gateway.run first (.start ⟨7, []⟩ Service.blank)).listener.service.world 7
            intent := by
  have hsent : (Gateway.run exchange (.start ⟨7, []⟩ Service.blank)).tunnels.head?.map
      (fun tunnel => (tunnel.relay.copies .toDatabase).delivered) = some [42] := by
    decide +kernel
  obtain ⟨tunnel, hhead, hdata⟩ := Option.map_eq_some_iff.mp hsent
  have htunnel := List.mem_of_head? hhead
  have hsome : (tunnel.relay.copies .toDatabase).delivered ≠ [] := by simp [hdata]
  exact ⟨tunnel, htunnel, hdata, database_guarded rfl (by decide) htunnel hsome⟩

end Tolla
