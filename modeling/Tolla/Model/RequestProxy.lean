import Mathlib.Logic.Function.Basic
import Tolla.Library.Pump
import Tolla.Model.Pipe

/-!
# The request proxy

`tolla/src/proxy.rs`: a proxy that looks up the address of a server for every client, and
copies in both directions.  A copy that has read the end of its input shuts down the side
that it wrote to; both together are one future, and `join` is over when both are done, with
the bytes that each of them copied, or when one of them fails.  Then the futures are
dropped, and with them the connections.

This is one such connection, from the moment at which the server has been reached.
-/

namespace Tolla

/-- The futures of one connection.  `amounts` is what `join` has returned. -/
structure Session where
  copies : Direction → Pump.Copy UInt8
  /-- `shutdown(writer)` was called, and the future is done. -/
  shut : Direction → Bool
  amounts : Option (Except String (Nat × Nat))

namespace Session

def start : Session := ⟨fun _ => .start, fun _ => false, none⟩

/-- What happens besides the copies. -/
inductive Control where
  /-- `copy` returns the error of a read or a write. -/
  | fails (direction : Direction) (error : String)
  /-- `shutdown(Shutdown::Write)`, and its result. -/
  | shutdown (direction : Direction) (result : Except String Unit)

abbrev Event := Pump.Event Direction UInt8 Control

/-- The bytes that a copy counts. -/
def amount (session : Session) (direction : Direction) : Nat :=
  (session.copies direction).delivered.length

/-- `join`, after one more future is done. -/
def join (session : Session) : Session :=
  if session.shut .toDatabase ∧ session.shut .toClient then
    { session with amounts := some (.ok (session.amount .toDatabase, session.amount .toClient)) }
  else session

def control (event : Control) (session : Session) : Session :=
  match event with
  | .fails direction error =>
      if (session.copies direction).phase = .failed then
        { session with amounts := some (.error error) }
      else session
  | .shutdown direction result =>
      if (session.copies direction).phase = .finished ∧ session.shut direction = false then
        match result with
        | .error error => { session with amounts := some (.error error) }
        | .ok () => { session with shut := Function.update session.shut direction true }.join
      else session

/-- What happens next; after `join` has returned nothing does. -/
def step (event : Event) (session : Session) : Session :=
  match session.amounts with
  | some _ => session
  | none =>
      match event with
      | .copy direction move =>
          { session with
            copies := Function.update session.copies direction
              (Pump.step move (session.copies direction)) }
      | .control event => session.control event

def run (events : List Event) (session : Session) : Session := Runs.exec step events session

end Session
end Tolla
