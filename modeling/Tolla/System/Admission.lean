import Tolla.Engine.Steps
import Tolla.Model.Listener

/-!
# Who is connected to the database

The accept loop does not look at the two errors it gets.  An `Accept` that fails
ends the proxy, and a client whose handshake failed is connected to the database
like any other.  So the loop does what it should only as long as nothing goes
wrong (`admits_iff`).
-/

namespace Tolla

open Effects

/-- In every round the loop keeps running, and `handleConnection` is started for a
connection if and only if its handshake returned nil. -/
def Admits : List Arrival → Listener → Prop
  | [], _ => True
  | arrival :: rest, listener =>
      (listener.handleIncoming arrival).running = true ∧
      (∀ connection, arrival = .connection connection →
        ((listener.handleIncoming arrival).handled =
            listener.handled ++ [(connection, handleConnection connection)] ↔
          (connection.handshake (listener.proxy, listener.service)).1 = .ok ())) ∧
      Admits rest (listener.handleIncoming arrival)

/-- The arrival is not an error: a connection comes with a handshake that returns nil. -/
def Welcome (listener : Listener) : Arrival → Prop
  | .request _ _ => True
  | .acceptFails _ => False
  | .connection connection =>
      (connection.handshake (listener.proxy, listener.service)).1 = .ok ()

variable {listener : Listener}

/-- A round with a connection, by how its handshake ends. -/
theorem handleIncoming_connection (hrunning : listener.running = true) (connection : Connection) :
    ((∃ message, (connection.handshake (listener.proxy, listener.service)).1 = .panic message) ∧
      (listener.handleIncoming (.connection connection)).running = false) ∨
    (listener.handleIncoming (.connection connection)).running = true ∧
      (listener.handleIncoming (.connection connection)).handled =
        listener.handled ++ [(connection, handleConnection connection)] := by
  rcases hrun : connection.handshake (listener.proxy, listener.service) with
    ⟨outcome, proxy, service⟩
  simp only [Listener.handleIncoming, hrunning, Bool.not_true, Bool.false_eq_true, ↓reduceIte, hrun]
  cases outcome with
  | ok value => exact .inr ⟨rfl, rfl⟩
  | err error => exact .inr ⟨rfl, rfl⟩
  | panic message => exact .inl ⟨⟨message, rfl⟩, rfl⟩

/-- One round is right if and only if the arrival is welcome. -/
theorem round_iff (hrunning : listener.running = true) (arrival : Arrival) :
    ((listener.handleIncoming arrival).running = true ∧
      ∀ connection, arrival = .connection connection →
        ((listener.handleIncoming arrival).handled =
            listener.handled ++ [(connection, handleConnection connection)] ↔
          (connection.handshake (listener.proxy, listener.service)).1 = .ok ())) ↔
      Welcome listener arrival := by
  cases arrival with
  | request env request => exact iff_of_true ⟨hrunning, by simp⟩ trivial
  | acceptFails error => exact iff_of_false (fun hround => by cases hround.1) id
  | connection connection =>
      rcases handleIncoming_connection hrunning connection with
        ⟨⟨message, hpanic⟩, hstopped⟩ | ⟨hruns, hhandled⟩
      · refine iff_of_false (fun hround => ?_) fun hwelcome => ?_
        · rw [hround.1] at hstopped
          cases hstopped
        · rw [Welcome, hpanic] at hwelcome
          cases hwelcome
      · constructor
        · exact fun hround => (hround.2 connection rfl).mp hhandled
        · intro hwelcome
          refine ⟨hruns, fun other hother => ?_⟩
          obtain rfl := Arrival.connection.inj hother
          exact iff_of_true hhandled hwelcome

theorem admits_of_running (hrunning : listener.running = true) (arrivals : List Arrival) :
    Admits arrivals listener ↔
      Runs.Along Listener.handleIncoming Welcome arrivals listener := by
  induction arrivals generalizing listener with
  | nil => exact Iff.rfl
  | cons arrival rest ih =>
      rw [Admits, Runs.Along, ← and_assoc, round_iff hrunning arrival]
      refine and_congr_right fun hwelcome => ih ?_
      exact ((round_iff hrunning arrival).mpr hwelcome).1

/-- The loop admits exactly the authorised connections if and only if `Accept` never
fails and every handshake, in the state in which it is performed, returns nil. -/
theorem admits_iff (proxy : Proxy) (service : Service) (arrivals : List Arrival) :
    Admits arrivals (.listening proxy service) ↔
      Runs.Along Listener.handleIncoming Welcome arrivals (.listening proxy service) :=
  admits_of_running rfl arrivals

/-- A client without a certificate, whose handshake fails. -/
def Connection.anonymous : Connection where
  now := 0
  env := Env.calm 0
  link := .works
  refused := some "tls: client didn't provide a certificate"
  verifiedChains := []
  broken := none
  dial := none

/-- It is connected to the database. -/
theorem refused_admitted :
    ¬ ∀ (proxy : Proxy) (service : Service) (arrivals : List Arrival),
      Admits arrivals (.listening proxy service) := by
  intro hall
  have hadmits := hall ⟨0, []⟩ Service.blank [.connection Connection.anonymous]
  have hnil := (hadmits.2.1 Connection.anonymous rfl).mp rfl
  cases hnil

end Tolla
