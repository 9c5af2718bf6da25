import Mathlib.Logic.Function.Basic
import Tolla.Library.Pump
import Tolla.Model.Listener

/-!
# The pipe

The end of `handleConnection` in `proxy/main.go`.  Two goroutines copy, one in each
direction, and share a `Pipe`.  The one that is done adds its side to the status, which is
1 or -1; the sum is zero again when both are done, and who finds it zero closes both
connections.

A goroutine is in `io.Copy`, between the calls of `Close`, or at its end.  The error of
`io.Copy` is dropped: it makes no difference whether the copy ended at the end of its input
or because a read or a write failed.
-/

namespace Tolla

/-- The two connections. -/
inductive Peer where
  | client
  | database
  deriving DecidableEq, Repr

namespace Direction

def src : Direction → Peer
  | .toDatabase => .client
  | .toClient => .database

def dst : Direction → Peer
  | .toDatabase => .database
  | .toClient => .client

/-- `go pipe(src, dst, 1)` and `go pipe(dst, src, -1)`. -/
def side : Direction → Int32
  | .toDatabase => 1
  | .toClient => -1

end Direction

structure Pipe where
  status : Int32
  deriving DecidableEq, Repr

/-- `atomic.AddInt32(&p.status, side)`. -/
def Pipe.add (pipe : Pipe) (side : Int32) : Pipe := { pipe with status := pipe.status + side }

/-- Where a goroutine is. -/
inductive Stage where
  | copying
  /-- Before `dst.Close()`, and after it. -/
  | closingDst
  | closingSrc
  | returned
  deriving DecidableEq, Repr

/-- The goroutines of a connection, and how often each of its sockets was closed. -/
structure Relay where
  quit : Pipe
  copies : Direction → Pump.Copy UInt8
  stage : Direction → Stage
  closes : Peer → Nat

namespace Relay

/-- Both goroutines are started. -/
def start : Relay where
  quit := ⟨0⟩
  copies _ := .start
  stage _ := .copying
  closes _ := 0

/-- What happens next: a move of a copy or at its ends, or a step of `done`. -/
abbrev Event := Pump.Event Direction UInt8 Direction

def close (relay : Relay) (peer : Peer) : Relay :=
  { relay with closes := Function.update relay.closes peer (relay.closes peer + 1) }

def move (relay : Relay) (direction : Direction) (stage : Stage) : Relay :=
  { relay with stage := Function.update relay.stage direction stage }

/-- The next step of `done`, once `io.Copy` has returned. -/
def done (direction : Direction) (relay : Relay) : Relay :=
  match relay.stage direction with
  | .copying =>
      if (relay.copies direction).phase.Over then
        let quit := relay.quit.add direction.side
        { relay with quit := quit }.move direction
          (if quit.status = 0 then .closingDst else .returned)
      else relay
  | .closingDst => (relay.close direction.dst).move direction .closingSrc
  | .closingSrc => (relay.close direction.src).move direction .returned
  | .returned => relay

def step (event : Event) (relay : Relay) : Relay :=
  match event with
  | .copy direction move =>
      { relay with
        copies := Function.update relay.copies direction
          (Pump.step move (relay.copies direction)) }
  | .control direction => relay.done direction

/-- The relay after a sequence of events. -/
def run (events : List Event) (relay : Relay) : Relay := Runs.exec step events relay

end Relay
end Tolla
