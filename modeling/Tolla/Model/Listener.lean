import Tolla.Model.Proxy

/-!
# The accept loop

`handleIncoming` and `handleConnection` in `proxy/main.go`.  The loop takes one
connection after another, performs its handshake and leaves it to a goroutine.
When `Accept` fails, the connection is nil, and the type assertion after it
panics, which ends the process.  The result of the handshake is printed.
-/

namespace Tolla

open Effects

/-- A connection that a client makes, and what becomes of it. -/
structure Connection where
  now : Nat
  env : Env
  link : Link
  /-- The error with which the handshake ends before the chains are verified. -/
  refused : Option String
  verifiedChains : List (List Certificate)
  /-- The error with which it ends afterwards. -/
  broken : Option String
  /-- The error of the connection to the database. -/
  dial : Option String

/-- `tlsCon.Handshake()`. -/
def Connection.handshake (connection : Connection) : Handshake Unit :=
  match connection.refused with
  | some error => Action.fail error
  | none => do
      verifyPeerCertificate connection.now connection.env connection.link connection.verifiedChains
      match connection.broken with
      | some error => Action.fail error
      | none => pure ()

/-- The directions in which bytes are copied. -/
inductive Direction where
  | toDatabase
  | toClient
  deriving DecidableEq, Repr

/-- The copies that `handleConnection` starts, once it has dialled the database. -/
def handleConnection (connection : Connection) : List Direction :=
  match connection.dial with
  | some _ => []
  | none => [.toDatabase, .toClient]

/-- The process of a proxy: its state, the engine's, and the connections for which
`handleConnection` was started. -/
structure Listener where
  proxy : Proxy
  service : Service
  running : Bool
  handled : List (Connection × List Direction)

/-- What happens while the loop waits: the engine serves a request, `Accept` fails, or
it returns a connection. -/
inductive Arrival where
  | request (env : Env) (request : Request)
  | acceptFails (error : String)
  | connection (connection : Connection)

namespace Listener

/-- The proxy at the start of the loop. -/
def listening (proxy : Proxy) (service : Service) : Listener := ⟨proxy, service, true, []⟩

/-- One round of the loop. -/
def handleIncoming (arrival : Arrival) (listener : Listener) : Listener :=
  match arrival with
  | .request env request =>
      { listener with service := Tolla.step (env, request) listener.service }
  | .acceptFails _ => { listener with running := false }
  | .connection connection =>
      if !listener.running then listener
      else
        let (outcome, proxy, service) := connection.handshake (listener.proxy, listener.service)
        match outcome with
        | .panic _ => { listener with proxy := proxy, service := service, running := false }
        -- the error, if there is one, is printed and forgotten
        | _ =>
            { listener with
              proxy := proxy
              service := service
              handled := listener.handled ++ [(connection, handleConnection connection)] }

end Listener
end Tolla
