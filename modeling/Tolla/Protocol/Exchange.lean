import Tolla.Model.Client
import Tolla.Protocol.Delivery

/-!
# Failures and the client

Two conventions for errors meet here.  For a consent, an intent and a user the
engine turns the error into a reply; for a certificate request and a request for
addresses it returns the error, the future fails and the connection is closed.
The client takes the first of the replies without looking whether there is one,
so in the second case it panics (`failure_reported_iff`).
-/

namespace Tolla

open Effects Framing Proto Wire

variable {env : Env} {service : Service} {error : String}

/-- What a request asks the engine to do. -/
def operation (env : Env) : Proto.Request → Engine Unit
  | .consent c => ConsentEngine.addConsent env
      { serialNumber := 0, id := c.id, purpose := c.purpose }
  | .certificateRequest r => do
      let _ ← ConsentEngine.handleCertRequest env r
  | .intent i => ConsentEngine.addIntent env { id := i.id, intent := [i.intent] }
  | .user u => ConsentEngine.onboardUser env u.userid ["static"]
  | .requestIps _ => do
      let _ ← ConsentEngine.getTenantIps env

/-- The requests whose errors become replies. -/
def Proto.Request.Concluded : Proto.Request → Prop
  | .consent _ => True
  | .certificateRequest _ => False
  | .intent _ => True
  | .user _ => True
  | .requestIps _ => False

/-- The client gets to know of the failure. -/
def Reported (result : Option (Outcome String ToClient)) : Prop :=
  (∃ error, result = some (.err error)) ∨ ∃ e, result = some (.ok ⟨false, some (.error e)⟩)

/-! ## The server -/

theorem locked_eq_err {α : Type} {call : Engine α}
    (herror : (locked call service).1 = .err error) :
    service.poisoned = false ∧ ∃ after, call service.world = (.err error, after) := by
  obtain ⟨world, poisoned⟩ := service
  cases poisoned with
  | true => cases herror
  | false =>
      refine ⟨rfl, ?_⟩
      simp only [locked, Bool.false_eq_true, ↓reduceIte] at herror
      split at herror
      · cases herror
      · rename_i heq
        obtain rfl := Outcome.err.inj herror
        exact ⟨_, heq⟩
      · cases herror

theorem discard_eq_err {α : Type} {call : Engine α} {world after : World}
    (herror : (do let _ ← call : Engine Unit) world = (.err error, after)) :
    call world = (.err error, after) := by
  rcases hcall : call world with ⟨outcome, between⟩
  cases outcome with
  | ok value =>
      rw [Action.bind_of_ok hcall] at herror
      cases herror
  | err other =>
      rw [Action.bind_of_err hcall] at herror
      obtain ⟨hsame, rfl⟩ := Prod.mk.inj herror
      rw [Outcome.err.inj hsame]
  | panic message =>
      rw [Action.bind_of_panic hcall] at herror
      cases herror

theorem conclude_of_err {call : Engine Unit} {world after : World}
    (herror : call world = (.err error, after)) :
    (Action.attempt call >>= fun result => pure (ConsentEngine.conclude result)) world =
      (.ok (ConsentEngine.conclude (.error error)), after) := by
  have hattempt : Action.attempt call world = (.ok (.error error), after) := by
    simp [Action.attempt, herror]
  rw [Action.bind_of_ok hattempt]
  rfl

theorem handleIncoming_of_failed {request : Proto.Request} {world after : World}
    (hfails : operation env request world = (.err error, after)) :
    (request.Concluded ∧ ConsentEngine.handleIncoming env ⟨some request⟩ world =
      (.ok (ConsentEngine.conclude (.error error)), after)) ∨
    ¬ request.Concluded ∧ ConsentEngine.handleIncoming env ⟨some request⟩ world =
      (.err error, after) := by
  cases request with
  | consent c => exact .inl ⟨trivial, conclude_of_err hfails⟩
  | certificateRequest r => exact .inr ⟨id, Action.bind_of_err (discard_eq_err hfails) _⟩
  | intent i => exact .inl ⟨trivial, conclude_of_err hfails⟩
  | user u => exact .inl ⟨trivial, conclude_of_err hfails⟩
  | requestIps b => exact .inr ⟨id, Action.bind_of_err (discard_eq_err hfails) _⟩

/-- An operation that fails is a reply for some requests and a failed future for the
others. -/
theorem call_of_failed {request : Proto.Request}
    (hfails : (locked (operation env request) service).1 = .err error) :
    (request.Concluded ∧ ∃ after, ProtoService.call env ⟨some request⟩ service =
      (.ok (ConsentEngine.conclude (.error error)), after)) ∨
    ¬ request.Concluded ∧ ∃ after, ProtoService.call env ⟨some request⟩ service =
      (.err error, after) := by
  obtain ⟨hhealthy, world, hrun⟩ := locked_eq_err hfails
  rcases handleIncoming_of_failed hrun with ⟨hconcluded, hreply⟩ | ⟨hconcluded, hreply⟩
  · refine .inl ⟨hconcluded, ⟨world, service.poisoned⟩, ?_⟩
    simp [ProtoService.call, locked, hhealthy, hreply]
  · refine .inr ⟨hconcluded, ⟨world, service.poisoned⟩, ?_⟩
    simp [ProtoService.call, locked, hhealthy, hreply]

/-! ## The two streams -/

/-- A request arrives, however it is cut. -/
theorem head?_receive_request (cut : Cut) {message : FromClient} (hvalid : ValidRequest message) :
    (receive ProtoCodec.decode (cut.reads (Message.encodeRaw message)) []).head? =
      some message := by
  obtain ⟨request, rfl, hfields, -, hwell⟩ := hvalid.cases
  have hbytes : Message.encodeRaw (⟨some request⟩ : FromClient) = request.field.bytes := by
    rw [Message.encodeRaw, hfields, serialize, List.flatMap_singleton]
  refine head?_receive_of_none (cut.nonempty _) (cut.flatten _) ?_ ?_ ?_
  · exact requests_lastWins.nonempty _ hvalid
  · exact requests_lastWins.whole [] _ (by simp) hvalid
  · intro n hn hshort
    rw [hbytes] at hshort ⊢
    rw [Message.decode, parse_take_of_lt hwell (lt_of_mem_cuts (cut.nonempty _) hn) hshort]
    rfl

/-- A reply that reports a failure arrives, however it is cut. -/
theorem head?_receive_failure (cut : Cut) (body : Body)
    (hlength : (Message.encodeRaw (⟨false, some body⟩ : ToClient)).length < 2 ^ 64) :
    (receive ProtoClient.decode
      (cut.reads (Message.encodeRaw (⟨false, some body⟩ : ToClient))) []).head? =
      some ⟨false, some body⟩ := by
  have hbytes : Message.encodeRaw (⟨false, some body⟩ : ToClient) = body.field.bytes :=
    List.flatMap_singleton ..
  refine head?_receive_of_none (cut.nonempty _) (cut.flatten _) ?_ (decode_reply hlength) ?_
  · rw [hbytes]
    exact body.field.bytes_ne_nil
  · intro n hn hshort
    rw [decode_take (.inr rfl) hlength (lt_of_mem_cuts (cut.nonempty _) hn) hshort,
      if_neg (by simp)]

theorem encode_fresh_cases {μ : Type} [Message μ] (message : μ) :
    (∃ buf, Message.encode message .fresh = .ok buf ∧ buf.bytes = Message.encodeRaw message ∧
      (Message.encodeRaw message).length ≤ 8192) ∨
    ∃ error, Message.encode message .fresh = .error error ∧
      8192 < (Message.encodeRaw message).length := by
  by_cases hroom : (Message.encodeRaw message).length ≤ 8192
  · exact .inl ⟨_, dif_pos hroom, rfl, hroom⟩
  · exact .inr ⟨_, dif_neg hroom, Nat.lt_of_not_le hroom⟩

/-! ## The exchange -/

/-- The socket of the client fails. -/
def Network.Fails (network : Network) : Prop :=
  network.connect.isSome ∨ network.write.isSome ∨ network.read.isSome

/-- What the server does with a request whose operation fails: it writes the reply,
or it closes the connection. -/
theorem connection_of_failed (cut : Cut) {request : Proto.Request}
    (hfails : (locked (operation env request) service).1 = .err error)
    (hshort : (Message.encodeRaw (⟨some request⟩ : FromClient)).length ≤ 8192) :
    (request.Concluded ∧
      (Message.encodeRaw (ConsentEngine.conclude (.error error))).length ≤ 8192 ∧
      (ProtoService.connection env
        (cut.reads (Message.encodeRaw (⟨some request⟩ : FromClient))) service).1 =
        ⟨Message.encodeRaw (ConsentEngine.conclude (.error error)), false⟩) ∨
    ¬ (request.Concluded ∧
      (Message.encodeRaw (ConsentEngine.conclude (.error error))).length ≤ 8192) ∧
      (ProtoService.connection env
        (cut.reads (Message.encodeRaw (⟨some request⟩ : FromClient))) service).1 =
        ⟨[], true⟩ := by
  have hvalid : ValidRequest ⟨some request⟩ := ⟨rfl, by omega⟩
  unfold ProtoService.connection
  rw [head?_receive_request cut hvalid]
  rcases call_of_failed hfails with ⟨hconcluded, after, hcall⟩ | ⟨hconcluded, after, hcall⟩
  · simp only [hcall, ProtoCodec.encode]
    rcases encode_fresh_cases (ConsentEngine.conclude (.error error)) with
      ⟨buf, hencode, hbytes, hroom⟩ | ⟨failure, hencode, hlong⟩
    · simp only [hencode, hbytes]
      exact .inl ⟨hconcluded, hroom, trivial⟩
    · rw [hencode]
      exact .inr ⟨fun hboth => Nat.not_le_of_lt hlong hboth.2, rfl⟩
  · simp only [hcall]
    exact .inr ⟨fun hboth => hconcluded hboth.1, trivial⟩

/-- When an operation fails with an error, the client hears of it if and only if its
own side of the connection fails, or the error becomes a reply and the reply
fits into the buffer of the server. -/
theorem failure_reported_iff (network : Network) {request : Proto.Request}
    (hfails : (locked (operation env request) service).1 = .err error) :
    Reported (TollaClient.sendProtorequest network env ⟨some request⟩ service).1 ↔
      network.Fails ∨ 8192 < (Message.encodeRaw (⟨some request⟩ : FromClient)).length ∨
      request.Concluded ∧
        (Message.encodeRaw (ConsentEngine.conclude (.error error))).length ≤ 8192 := by
  unfold TollaClient.sendProtorequest Network.Fails
  cases hconnect : network.connect with
  | some error => exact iff_of_true (.inl ⟨error, rfl⟩) (.inl (.inl rfl))
  | none =>
  simp only [ProtoClient.encode]
  rcases encode_fresh_cases (⟨some request⟩ : FromClient) with
    ⟨buf, hencode, hbytes, hshort⟩ | ⟨failure, hencode, hlong⟩
  swap
  · rw [hencode]
    exact iff_of_true (.inl ⟨_, rfl⟩) (.inr (.inl hlong))
  rw [hencode]
  cases hwrite : network.write with
  | some error => exact iff_of_true (.inl ⟨error, rfl⟩) (.inl (.inr (.inl rfl)))
  | none =>
  cases hread : network.read with
  | some error => exact iff_of_true (.inl ⟨error, rfl⟩) (.inl (.inr (.inr rfl)))
  | none =>
  simp only [hbytes]
  rcases connection_of_failed network.requests hfails hshort with
    ⟨hconcluded, hroom, hserved⟩ | ⟨hnot, hserved⟩
  · have hreply := head?_receive_failure network.replies (.error ⟨error⟩)
      (Nat.lt_of_le_of_lt hroom (by decide))
    rw [hserved]
    simp only [ConsentEngine.conclude] at hreply hroom ⊢
    rw [hreply]
    exact iff_of_true (.inr ⟨⟨error⟩, rfl⟩) (.inr (.inr ⟨hconcluded, hroom⟩))
  · have hnothing : network.replies.reads [] = [] := by
      rw [List.eq_nil_iff_forall_not_mem]
      intro read hmem
      have hempty := List.flatten_eq_nil_iff.mp (network.replies.flatten []) read hmem
      exact network.replies.nonempty [] read hmem hempty
    rw [hserved, hnothing]
    apply iff_of_false
    · rintro (⟨failure, hresult⟩ | ⟨e, hresult⟩)
      · cases hresult
      · cases hresult
    · rintro ((hfail | hfail | hfail) | hlong | hboth)
      · cases hfail
      · cases hfail
      · cases hfail
      · omega
      · exact hnot hboth

/-- A stream that arrives in one read. -/
def Cut.whole : Cut where
  reads stream := if stream = [] then [] else [stream]
  nonempty := by
    intro stream read hread
    split at hread
    · cases hread
    · rwa [List.mem_singleton.mp hread]
  flatten := by
    intro stream
    split
    · simp_all
    · simp

/-- A connection that works. -/
def Network.calm : Network where
  connect := none
  write := none
  read := none
  requests := Cut.whole
  replies := Cut.whole
  describe _ := "insufficient buffer capacity"

/-- No backend can be reached. -/
def Env.unreachable : Env := { Env.calm 0 with fault := fun _ => some "connection refused" }

/-- The addresses cannot be read, and the client panics. -/
theorem failure_unreported :
    ¬ ∀ (network : Network) (env : Env) (request : Proto.Request) (service : Service)
      (error : String), (locked (operation env request) service).1 = .err error →
      Reported (TollaClient.sendProtorequest network env ⟨some request⟩ service).1 := by
  intro hall
  have hreported := hall .calm .unreachable (.requestIps true) Service.blank
    "connection refused" (by decide)
  have hresult : (TollaClient.sendProtorequest .calm .unreachable ⟨some (.requestIps true)⟩
      Service.blank).1 = some (.panic "index out of bounds: the len is 0 but the index is 0") := by
    decide +kernel
  rw [hresult] at hreported
  rcases hreported with ⟨error, heq⟩ | ⟨e, heq⟩
  · cases heq
  · cases heq

/-- The user cannot be onboarded, and the client is told. -/
theorem failure_reported_iff_user :
    Reported (TollaClient.sendProtorequest .calm .unreachable ⟨some (.user ⟨"alice", ""⟩)⟩
        Service.blank).1 ↔
      Network.calm.Fails ∨
      8192 < (Message.encodeRaw (⟨some (.user ⟨"alice", ""⟩)⟩ : FromClient)).length ∨
      (Proto.Request.user ⟨"alice", ""⟩).Concluded ∧
        (Message.encodeRaw (ConsentEngine.conclude (.error "connection refused"))).length ≤ 8192 :=
  failure_reported_iff .calm (by decide)

end Tolla
