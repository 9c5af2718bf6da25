import Tolla.Model.Listener
import Tolla.Model.Pipe

/-!
# A proxy with its connections

The accept loop of `proxy/main.go` and the relays it starts, as one process: arrivals at the
loop and traffic on the connections come in any order.

The loop starts a relay also for a client whose handshake failed.  What happens then is up to
`crypto/tls`: the connection keeps the error, `Read` and `Write` return it, and nothing that
the client sends is decrypted.
-/

namespace Tolla

open Effects

/-- A connection with its two goroutines. -/
structure Tunnel where
  connection : Connection
  /-- The handshake returned nil. -/
  secured : Bool
  relay : Relay

namespace Tunnel

/-- A relay whose client can neither be read from nor written to. -/
def deaf : Relay := Relay.run [.copy .toDatabase .sever, .copy .toClient .shatter] .start

def opened (connection : Connection) (secured : Bool) : Tunnel :=
  ⟨connection, secured, if secured then .start else deaf⟩

def step (event : Relay.Event) (tunnel : Tunnel) : Tunnel :=
  match tunnel.secured, event with
  | false, .copy .toDatabase (.put _) => tunnel
  | _, event => { tunnel with relay := Relay.step event tunnel.relay }

end Tunnel

/-- An arrival at an instant. -/
def Arrival.timed (now : Nat) : Arrival → Arrival
  | .connection client => .connection { client with now := now }
  | other => other

/-- The handshake of the connection returns nil. -/
def Listener.secures (listener : Listener) (connection : Connection) : Bool :=
  match (connection.handshake (listener.proxy, listener.service)).1 with
  | .ok _ => true
  | _ => false

/-- The process of a proxy. -/
structure Gateway where
  listener : Listener
  tunnels : List Tunnel

namespace Gateway

inductive Event where
  | arrival (arrival : Arrival)
  | traffic (index : Nat) (event : Relay.Event)

def start (proxy : Proxy) (service : Service) : Gateway := ⟨.listening proxy service, []⟩

/-- The goroutines that a round of the loop starts. -/
def opens (arrival : Arrival) (listener : Listener) : List Tunnel :=
  ((listener.handleIncoming arrival).handled.drop listener.handled.length).filterMap
    fun (connection, directions) =>
      if directions.isEmpty then none
      else some (.opened connection (listener.secures connection))

def step (input : Nat × Event) (gateway : Gateway) : Gateway :=
  match input with
  | (now, .arrival arrival) =>
      { listener := gateway.listener.handleIncoming (arrival.timed now)
        tunnels := gateway.tunnels ++ opens (arrival.timed now) gateway.listener }
  | (_, .traffic index event) =>
      -- a panic of the loop ends the process, and the goroutines with it
      if gateway.listener.running then
        { gateway with tunnels := gateway.tunnels.modify index (Tunnel.step event) }
      else gateway

def run (events : List (Nat × Event)) (gateway : Gateway) : Gateway := Runs.exec step events gateway

end Gateway
end Tolla
