import Tolla.Engine.Steps
import Tolla.Protocol.Exchange
import Tolla.Protocol.Intact

/-!
# Remote calls

Between `send_protorequest` in the client and `handle_incoming` in the engine there are two
encoders, two decoders, two buffers and two streams that are cut anywhere.  `remoteCall` is
what is left when all of that is taken away: either the request is not sent, and the client
gets an error, or it is served once, and the client gets what the connection makes of the
reply.  `exchange_refines` says that nothing else happens, so that what is known of the
engine is known of its clients (`clients_refine`).

The connection does two things to a reply.  It loses the body of a reply that is cut after
the first of its two fields, and it has no place for a reply of more than 8192 bytes; then it
is closed, as it is after an error, and the client panics.

There is a second client, in the binary of the server.  It reads until the connection is
closed, which the service does only when it does not answer (`runClient_waits_iff`).
-/

namespace Tolla

open Effects Framing Proto Wire

variable {message : FromClient}

/-! ## The reply that the client takes -/

/-- What the client takes for the reply. -/
def Network.shown (network : Network) (reply : ToClient) : ToClient :=
  if reply.success = true ∧ reply.msg.isSome ∧
      2 ∈ cuts 0 (network.replies.reads (Message.encodeRaw reply)) then ⟨true, none⟩
  else reply

/-- The first field of a reply, if the stream is cut after it. -/
theorem head?_receive_cut {reply : ToClient} {reads : List (List UInt8)}
    (hlength : (Message.encodeRaw reply).length < 2 ^ 64) (hreads : ∀ read ∈ reads, read ≠ [])
    (hstream : reads.flatten = Message.encodeRaw reply) (hsuccess : reply.success = true)
    (hbody : reply.msg.isSome) (hcut : 2 ∈ cuts 0 reads) :
    (receive ProtoClient.decode reads []).head? = some ⟨true, none⟩ := by
  have htwo : 2 < (Message.encodeRaw reply).length := by
    obtain ⟨success, msg⟩ := reply
    obtain ⟨body, rfl⟩ := Option.isSome_iff_exists.mp hbody
    obtain rfl : success = true := hsuccess
    have hpositive := List.length_pos_iff.mpr body.field.bytes_ne_nil
    rw [encodeRaw_two, successField_bytes, List.length_append]
    simp only [List.length_cons, List.length_nil]
    omega
  have htake {n : Nat} (hpositive : 0 < n) (hshort : n ≤ 2) :=
    decode_take (.inl hsuccess) hlength hpositive (Nat.lt_of_le_of_lt hshort htwo)
  obtain ⟨before, after, hsplit⟩ := List.append_of_mem hcut
  rw [ProtoClient.decode, head?_receive hreads, List.nil_append, hstream, List.length_nil,
    List.findSome?_eq_some_iff]
  refine ⟨before, 2, after, hsplit, ?_, fun n hn => ?_⟩
  · rw [htake (by omega) (by omega), if_pos ⟨hsuccess, hbody, rfl⟩]
  · -- only one byte can come before
    have hsorted := cuts_pairwise hreads 0
    rw [hsplit] at hsorted
    have hless : n < 2 := (List.pairwise_append.mp hsorted).2.2 n hn 2 List.mem_cons_self
    have hpositive : 0 < n := lt_of_mem_cuts hreads (by rw [hsplit]; simp [hn])
    rw [htake hpositive (by omega), if_neg]
    rintro ⟨-, -, rfl⟩
    omega

/-- The client's first item is the reply, or what is left of it. -/
theorem head?_receive_shown {reply : ToClient} (network : Network)
    (hshape : reply.success = true ∨ reply.msg.isSome)
    (hlength : (Message.encodeRaw reply).length < 2 ^ 64) :
    (receive ProtoClient.decode (network.replies.reads (Message.encodeRaw reply)) []).head? =
      some (network.shown reply) := by
  have hreads := network.replies.nonempty (Message.encodeRaw reply)
  have hstream := network.replies.flatten (Message.encodeRaw reply)
  unfold Network.shown
  split
  · rename_i hcut
    exact head?_receive_cut hlength hreads hstream hcut.1 hcut.2.1 hcut.2.2
  · rename_i hwhole
    refine head?_receive_of_none hreads hstream (encodeRaw_ne_nil hshape) (decode_reply hlength) ?_
    intro n hn hshort
    rw [decode_take hshape hlength (lt_of_mem_cuts hreads hn) hshort, if_neg]
    rintro ⟨hsuccess, hbody, rfl⟩
    exact hwhole ⟨hsuccess, hbody, hn⟩

/-! ## The call -/

/-- Why the request is not sent, if it is not. -/
def Network.refusal (network : Network) (message : FromClient) : Option String :=
  match network.connect with
  | some error => some error
  | none =>
      if (Message.encodeRaw message).length ≤ 8192 then network.write
      else some (network.describe ⟨(Message.encodeRaw message).length, 8192⟩)

/-- What the client gets when the service has answered. -/
def Network.returned (network : Network) : Outcome String ToClient → Outcome String ToClient
  | .ok reply =>
      if (Message.encodeRaw reply).length ≤ 8192 then .ok (network.shown reply)
      else .panic "index out of bounds: the len is 0 but the index is 0"
  | _ => .panic "index out of bounds: the len is 0 but the index is 0"

/-- Ask the service.  There is no result when the client waits for good, which it does for
the reply to an empty message. -/
def remoteCall (network : Network) (env : Env) (message : FromClient) (service : Service) :
    Option (Outcome String ToClient) × Service :=
  match network.refusal message with
  | some error => (some (.err error), service)
  | none =>
  match message.msg with
  | none => (network.read.map .err, service)
  | some _ =>
      let (outcome, after) := ProtoService.call env message service
      match network.read with
      | some error => (some (.err error), after)
      | none => (some (network.returned outcome), after)

/-! ## The exchange -/

theorem Cut.reads_nil (cut : Cut) : cut.reads [] = [] := by
  rw [List.eq_nil_iff_forall_not_mem]
  intro read hmem
  exact cut.nonempty [] read hmem (List.flatten_eq_nil_iff.mp (cut.flatten []) read hmem)

/-- What the client makes of what the server does on the connection. -/
def Network.takes (network : Network) (served : Served) : Option (Outcome String ToClient) :=
  match (receive ProtoClient.decode (network.replies.reads served.bytes) []).head? with
  | some reply => some (.ok reply)
  | none =>
      if served.closed then
        some (.panic "index out of bounds: the len is 0 but the index is 0")
      else none

theorem takes_eq (network : Network) (served : Served) (after : Service) :
    (match (receive ProtoClient.decode (network.replies.reads served.bytes) []).head? with
      | some reply => (some (.ok reply), after)
      | none =>
          if served.closed then
            (some (.panic "index out of bounds: the len is 0 but the index is 0"), after)
          else (none, after)) = (network.takes served, after) := by
  unfold Network.takes
  split
  · rfl
  · split
    · rfl
    · rfl

theorem takes_closed (network : Network) :
    network.takes ⟨[], true⟩ =
      some (.panic "index out of bounds: the len is 0 but the index is 0") := by
  rw [Network.takes, Cut.reads_nil]
  rfl

theorem takes_nothing (network : Network) : network.takes ⟨[], false⟩ = none := by
  rw [Network.takes, Cut.reads_nil]
  rfl

/-- A request is served once, and the client takes what is returned. -/
theorem connection_of_request (env : Env) (service : Service) (network : Network)
    (hsome : message.msg.isSome)
    (hshort : (Message.encodeRaw message).length ≤ 8192) :
    network.takes (ProtoService.connection env
        (network.requests.reads (Message.encodeRaw message)) service).1 =
      some (network.returned (ProtoService.call env message service).1) ∧
    (ProtoService.connection env
        (network.requests.reads (Message.encodeRaw message)) service).2 =
      (ProtoService.call env message service).2 := by
  have hvalid : ValidRequest message := ⟨hsome, by omega⟩
  unfold ProtoService.connection
  rw [head?_receive_request network.requests hvalid]
  rcases hcall : ProtoService.call env message service with ⟨outcome, after⟩
  cases outcome with
  | err error => simp [hcall, takes_closed, Network.returned]
  | panic text => simp [hcall, takes_closed, Network.returned]
  | ok reply =>
      have hshape : reply.success = true ∨ reply.msg.isSome :=
        handleIncoming_shape (congrArg Prod.fst (locked_eq_ok hcall))
      simp only [hcall, Network.returned, ProtoCodec.encode]
      rcases encode_fresh_cases reply with ⟨buf, hencode, hbytes, hroom⟩ | ⟨failure, hencode, hlong⟩
      · rw [hencode, if_pos hroom]
        refine ⟨?_, rfl⟩
        show network.takes ⟨buf.bytes, false⟩ = _
        rw [Network.takes, hbytes, head?_receive_shown network hshape (by omega)]
      · rw [hencode, if_neg (by omega)]
        exact ⟨takes_closed network, rfl⟩

theorem encode_fresh_of_long (hlong : 8192 < (Message.encodeRaw message).length) :
    Message.encode message .fresh = .error ⟨(Message.encodeRaw message).length, 8192⟩ :=
  dif_neg (Nat.not_le_of_lt hlong)

/-- The client and the server, with all that is between them, are a remote call. -/
theorem exchange_refines (network : Network) (env : Env) (message : FromClient)
    (service : Service) :
    TollaClient.sendProtorequest network env message service =
      remoteCall network env message service := by
  unfold TollaClient.sendProtorequest remoteCall Network.refusal
  cases hconnect : network.connect with
  | some error => rfl
  | none =>
  simp only [ProtoClient.encode]
  rcases encode_fresh_cases message with ⟨buf, hencode, hbytes, hshort⟩ | ⟨failure, -, hlong⟩
  swap
  · rw [encode_fresh_of_long hlong, if_neg (Nat.not_le_of_lt hlong)]
  rw [hencode, if_pos hshort]
  cases hwrite : network.write with
  | some error => rfl
  | none =>
  simp only [hbytes]
  cases hmsg : message.msg with
  | none =>
      -- nothing is written, and nothing is read
      have hnothing : Message.encodeRaw message = [] := by
        obtain ⟨msg⟩ := message
        obtain rfl : msg = none := hmsg
        rfl
      rw [hnothing, Cut.reads_nil]
      cases hread : network.read with
      | some error => rfl
      | none =>
          exact (takes_eq network ⟨[], false⟩ service).trans
            (congrArg (·, service) (takes_nothing network))
  | some request =>
      obtain ⟨htaken, hafter⟩ :=
        connection_of_request env service network (Option.isSome_of_mem hmsg) hshort
      rw [hafter]
      cases hread : network.read with
      | some error => rfl
      | none => exact (takes_eq network _ _).trans (congrArg (·, _) htaken)

/-- A client that gets a reply with a body gets the reply of the service. -/
theorem call_of_remoteCall {network : Network} {env : Env} {service after : Service}
    {success : Bool} {body : Body} (hremote : remoteCall network env message service =
      (some (.ok ⟨success, some body⟩), after)) :
    ProtoService.call env message service = (.ok ⟨success, some body⟩, after) := by
  unfold remoteCall at hremote
  cases hrefusal : network.refusal message with
  | some error => simp [hrefusal] at hremote
  | none =>
  cases hmsg : message.msg with
  | none => cases hread : network.read <;> simp [hrefusal, hmsg, hread] at hremote
  | some request =>
  rcases hcall : ProtoService.call env message service with ⟨outcome, final⟩
  simp only [hrefusal, hmsg, hcall] at hremote
  cases hread : network.read with
  | some error => simp [hread] at hremote
  | none =>
  rw [hread] at hremote
  obtain ⟨hresult, rfl⟩ := Prod.mk.inj hremote
  have hreturned := Option.some.inj hresult
  unfold Network.returned at hreturned
  split at hreturned
  · split at hreturned
    · -- what is left of a reply that is cut has no body
      unfold Network.shown at hreturned
      split at hreturned
      · simp at hreturned
      · rw [Outcome.ok.inj hreturned]
    · cases hreturned
  · cases hreturned

/-! ## One client after the other -/

/-- A call of a client, on a connection of its own. -/
structure ClientCall where
  network : Network
  env : Env
  message : FromClient

/-- The service after the call. -/
def ClientCall.exchange (call : ClientCall) (service : Service) : Service :=
  (TollaClient.sendProtorequest call.network call.env call.message service).2

/-- The request reaches the service.  The reply has no part in it. -/
def ClientCall.arrives (call : ClientCall) : Bool :=
  (call.network.refusal call.message).isNone && call.message.msg.isSome

/-- The requests that the service gets. -/
def arrived (calls : List ClientCall) : List (Env × Request) :=
  (calls.filter ClientCall.arrives).map fun call => (call.env, .message call.message)

/-- A request that arrives is served once, and one that does not is not served. -/
theorem ClientCall.exchange_eq (call : ClientCall) (service : Service) :
    call.exchange service =
      if call.arrives then step (call.env, .message call.message) service else service := by
  have hcall : step (call.env, .message call.message) service =
      (ProtoService.call call.env call.message service).2 := by
    rw [step, serve, Action.bind_state fun _ => .pure _]
  rw [exchange, exchange_refines, hcall]
  unfold remoteCall arrives
  cases hrefusal : call.network.refusal call.message with
  | some error => rfl
  | none =>
      cases hmsg : call.message.msg with
      | none => rfl
      | some request =>
          cases hread : call.network.read with
          | some error => rfl
          | none => rfl

/-- To its clients the service is a sequence of requests, however the connections are cut and
whatever fails on them: it has served the requests that arrived, once and in order, and the
next client gets what a remote call returns in that state. -/
theorem clients_refine (calls : List ClientCall) (next : ClientCall) (service : Service) :
    Runs.exec ClientCall.exchange calls service = run (arrived calls) service ∧
    TollaClient.sendProtorequest next.network next.env next.message
        (Runs.exec ClientCall.exchange calls service) =
      remoteCall next.network next.env next.message (run (arrived calls) service) := by
  have hstate : Runs.exec ClientCall.exchange calls service = run (arrived calls) service := by
    induction calls generalizing service with
    | nil => rfl
    | cons call rest ih =>
        show Runs.exec ClientCall.exchange rest (call.exchange service) = _
        rw [ih, ClientCall.exchange_eq, arrived, arrived]
        cases harrives : call.arrives with
        | true =>
            rw [List.filter_cons_of_pos harrives]
            rfl
        | false =>
            rw [List.filter_cons_of_neg (by simp [harrives])]
            rfl
  exact ⟨hstate, by rw [hstate, exchange_refines]⟩

/-! ## A client that reads to the end -/

/-- A request of which a part is missing is not served. -/
theorem head?_receive_part (cut : Cut) (hvalid : ValidRequest message) {count : Nat}
    (hpart : count < (Message.encodeRaw message).length) :
    (receive ProtoCodec.decode (cut.reads ((Message.encodeRaw message).take count)) []).head? =
      none := by
  obtain ⟨request, rfl, hfields, -, hwell⟩ := hvalid.cases
  have hbytes : Message.encodeRaw (⟨some request⟩ : FromClient) = request.field.bytes := by
    rw [Message.encodeRaw, hfields, serialize, List.flatMap_singleton]
  rw [hbytes] at hpart ⊢
  rw [ProtoCodec.decode, head?_receive (cut.nonempty _), List.nil_append, cut.flatten,
    List.length_nil, List.findSome?_eq_none_iff]
  intro n hn
  have hle := le_of_mem_cuts hn
  rw [cut.flatten, List.length_take] at hle
  have hshort : n < request.field.bytes.length := by omega
  rw [List.take_take, Nat.min_eq_left (by omega), Message.decode,
    parse_take_of_lt hwell (lt_of_mem_cuts (cut.nonempty _) hn) hshort]
  rfl

/-- A connection stays open when its request was answered. -/
theorem connection_closed (cut : Cut) (env : Env) (service : Service)
    (hvalid : ValidRequest message) :
    ((ProtoService.connection env (cut.reads (Message.encodeRaw message)) service).1.closed =
        false ↔
      ∃ reply, (ProtoService.call env message service).1 = .ok reply ∧
        (Message.encodeRaw reply).length ≤ 8192) ∧
    (ProtoService.connection env (cut.reads (Message.encodeRaw message)) service).2 =
      (ProtoService.call env message service).2 := by
  unfold ProtoService.connection
  rw [head?_receive_request cut hvalid]
  rcases hcall : ProtoService.call env message service with ⟨outcome, after⟩
  cases outcome with
  | err error => simp [hcall]
  | panic text => simp [hcall]
  | ok reply =>
      simp only [hcall, ProtoCodec.encode]
      rcases encode_fresh_cases reply with ⟨buf, hencode, -, hroom⟩ | ⟨failure, hencode, hlong⟩
      · simp [hencode, hroom]
      · simp [hencode, hlong]

/-- The message of `run_client`. -/
def registration (name : String) : FromClient :=
  ⟨some (.user { userid := name, email := "lol" })⟩

/-- The socket takes the whole message. -/
structure Network.Takes (network : Network) (name : String) (taken : Nat) : Prop where
  connect : network.connect = none
  write : network.write = none
  bounded : (Message.encodeRaw (registration name)).length < 2 ^ 64
  whole : (Message.encodeRaw (registration name)).length ≤ taken

/-- Then the request is served. -/
theorem connection_of_takes {name : String} {taken : Nat} (network : Network) (env : Env)
    (service : Service) (htakes : network.Takes name taken) :
    ((ProtoService.connection env (network.requests.reads
        (network.written (Message.encodeRaw (registration name)) taken)) service).1.closed =
          false ↔
      ∃ reply, (ProtoService.call env (registration name) service).1 = .ok reply ∧
        (Message.encodeRaw reply).length ≤ 8192) ∧
    (ProtoService.connection env (network.requests.reads
        (network.written (Message.encodeRaw (registration name)) taken)) service).2 =
      step (env, .message (registration name)) service := by
  obtain ⟨hclosed, hafter⟩ :=
    connection_closed network.requests env service ⟨rfl, htakes.bounded⟩
  simp only [Network.written, htakes.write, List.take_of_length_le htakes.whole]
  refine ⟨hclosed, hafter.trans ?_⟩
  rw [step, serve, Action.bind_state fun _ => .pure _]

/-- Otherwise the server waits for the rest of it. -/
theorem connection_of_not_takes {name : String} {taken : Nat} {network : Network} (env : Env)
    (service : Service) (hconnect : network.connect = none)
    (hbounded : (Message.encodeRaw (registration name)).length < 2 ^ 64)
    (hnot : ¬ network.Takes name taken) :
    ProtoService.connection env (network.requests.reads
        (network.written (Message.encodeRaw (registration name)) taken)) service =
      (⟨[], false⟩, service) := by
  have hvalid : ValidRequest (registration name) := ⟨rfl, hbounded⟩
  have hpart : ∃ count < (Message.encodeRaw (registration name)).length,
      network.written (Message.encodeRaw (registration name)) taken =
        (Message.encodeRaw (registration name)).take count := by
    unfold Network.written
    cases hwrite : network.write with
    | some error =>
        exact ⟨0, List.length_pos_iff.mpr (requests_lastWins.nonempty _ hvalid), rfl⟩
    | none =>
        refine ⟨taken, Nat.lt_of_not_le fun hwhole => ?_, rfl⟩
        exact hnot ⟨hconnect, hwrite, hbounded, hwhole⟩
  obtain ⟨count, hcount, hwritten⟩ := hpart
  rw [ProtoService.connection, hwritten, head?_receive_part network.requests hvalid hcount]

/-- `run_client` waits for good, unless it cannot connect or read, or the service closes the
connection; and that it does not do when it has answered.  So a client that has registered
its user does not come back. -/
theorem runClient_waits_iff (network : Network) (env : Env) (name : String) (taken : Nat)
    (service : Service) :
    ((runClient network env name taken service).1 = .waits ↔
      network.connect = none ∧ network.read = none ∧
        (Message.encodeRaw (registration name)).length < 2 ^ 64 ∧
        (network.Takes name taken → ∃ reply,
          (ProtoService.call env (registration name) service).1 = .ok reply ∧
            (Message.encodeRaw reply).length ≤ 8192)) ∧
    (network.Takes name taken → (runClient network env name taken service).2 =
      step (env, .message (registration name)) service) ∧
    (¬ network.Takes name taken → (runClient network env name taken service).2 = service) := by
  unfold runClient
  cases hconnect : network.connect with
  | some error =>
      have hnot : ¬ network.Takes name taken := by
        intro htakes
        cases hconnect.symm.trans htakes.connect
      simp [hnot]
  | none =>
  have hmessage : (⟨some (.user { userid := name, email := "lol" })⟩ : FromClient) =
    registration name := rfl
  simp only [hmessage]
  by_cases hbounded : (Message.encodeRaw (registration name)).length < 2 ^ 64
  swap
  · have hnot : ¬ network.Takes name taken := fun htakes => hbounded htakes.bounded
    rw [if_pos (Nat.le_of_not_lt hbounded)]
    simp [-Nat.reducePow, hnot, hbounded]
  rw [if_neg (Nat.not_le_of_lt hbounded)]
  by_cases htakes : network.Takes name taken
  · obtain ⟨hclosed, hafter⟩ := connection_of_takes network env service htakes
    simp only [hafter]
    cases hread : network.read with
    | some error => simp [htakes]
    | none =>
        rw [← hclosed]
        cases (ProtoService.connection env (network.requests.reads
          (network.written (Message.encodeRaw (registration name)) taken)) service).1.closed with
        | true => simp [htakes]
        | false => simp [-Nat.reducePow, htakes, hbounded]
  · simp only [connection_of_not_takes env service hconnect hbounded htakes]
    cases hread : network.read with
    | some error => simp [htakes]
    | none => simp [-Nat.reducePow, htakes, hbounded]

end Tolla
