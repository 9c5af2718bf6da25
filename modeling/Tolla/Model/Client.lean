import Tolla.Model.Codec
import Tolla.Model.Service

/-!
# The client

`client/src/main.rs`: the client connects to the TCP service, sends one request
and takes the first reply.  What `tokio-proto` does with the connection on the
other side is here too: it writes the reply of the service, and when the service
fails, or the reply cannot be encoded, it closes the connection.

`Network` is what neither side decides: whether the connection works, and how the
two streams are cut into reads.
-/

namespace Tolla

open Effects Framing Proto

/-- How a stream is cut into reads. -/
structure Cut where
  reads : List UInt8 → List (List UInt8)
  nonempty : ∀ stream, ∀ read ∈ reads stream, read ≠ []
  flatten : ∀ stream, (reads stream).flatten = stream

/-- The connection between a client and the service. -/
structure Network where
  /-- The error of `TcpStream::connect`. -/
  connect : Option String
  /-- The error of the client's socket before the whole request is written. -/
  write : Option String
  /-- The error of the client's socket before a reply is read. -/
  read : Option String
  requests : Cut
  replies : Cut
  /-- The text of an encode error. -/
  describe : EncodeError → String

/-- What the server does on a connection. -/
structure Served where
  bytes : List UInt8
  closed : Bool

/-- The connection of a client, served up to the answer to its first request. -/
def ProtoService.connection (env : Env) (reads : List (List UInt8)) (service : Service) :
    Served × Service :=
  match (receive ProtoCodec.decode reads []).head? with
  | none => (⟨[], false⟩, service)
  | some request =>
      match ProtoService.call env request service with
      | (.ok reply, after) =>
          match ProtoCodec.encode reply .fresh with
          | .ok buf => (⟨buf.bytes, false⟩, after)
          | .error _ => (⟨[], true⟩, after)
      | (.err _, after) => (⟨[], true⟩, after)
      | (.panic _, after) => (⟨[], true⟩, after)

/-- Send a request and return the first reply.  There is no result when the client
waits for good. -/
def TollaClient.sendProtorequest (network : Network) (env : Env) (request : FromClient)
    (service : Service) : Option (Outcome String ToClient) × Service :=
  match network.connect with
  | some error => (some (.err error), service)
  | none =>
  match ProtoClient.encode request .fresh with
  | .error error => (some (.err (network.describe error)), service)
  | .ok buf =>
  match network.write with
  -- the server does not read a request of which a part is missing
  | some error => (some (.err error), service)
  | none =>
  let (served, after) := ProtoService.connection env (network.requests.reads buf.bytes) service
  match network.read with
  | some error => (some (.err error), after)
  | none =>
  match (receive ProtoClient.decode (network.replies.reads served.bytes) []).head? with
  | some reply => (some (.ok reply), after)
  | none =>
      -- the stream has ended without an item, and the client looks at the first
      if served.closed then
        (some (.panic "index out of bounds: the len is 0 but the index is 0"), after)
      else (none, after)

/-! ## The client of the server binary -/

/-- How `run_client` ends. -/
inductive RanClient where
  | refused
  | received (count : Nat)
  /-- `read_to_end` waits for the end of a stream that stays open. -/
  | waits
  deriving DecidableEq, Repr

/-- What one `write` writes, if the socket takes `taken` bytes of the buffer. -/
def Network.written (network : Network) (buf : List UInt8) (taken : Nat) : List UInt8 :=
  match network.write with
  | some _ => []
  | none => buf.take taken

/-- `run_client` of `src/main.rs`: register a user, and read until the connection is closed.
The errors of `write` and `read_to_end` are printed, and no more. -/
def runClient (network : Network) (env : Env) (name : String) (taken : Nat) (service : Service) :
    RanClient × Service :=
  match network.connect with
  | some _ => (.refused, service)
  | none =>
  let buf := Message.encodeRaw (⟨some (.user { userid := name, email := "lol" })⟩ : FromClient)
  -- a vector has room for `usize::MAX` bytes
  if 2 ^ 64 ≤ buf.length then (.refused, service)
  else
  let (served, after) :=
    ProtoService.connection env (network.requests.reads (network.written buf taken)) service
  match network.read with
  | some _ => (.received 0, after)
  | none =>
      if served.closed then (.received served.bytes.length, after)
      else (.waits, after)

end Tolla
