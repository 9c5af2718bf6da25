import Tolla.Model.Pipe

/-!
# What a pipe carries, and when it closes

The two goroutines of a connection and the two peers make their steps in any order.  Each
direction is a copy loop on its own (`copies_run`), so what holds of such loops holds of it:
a prefix of what one peer sent reaches the other, and all of it if the loop read the end of
its input.

`Counted` is the invariant of the shared counter.  One of the goroutines ends first and
returns without having closed anything; the other finds zero, whichever it is, and closes
both connections once.  So a connection is closed only when both copies are over, and the
end of one direction is not passed on: as long as the database has nothing to say and does
not hang up, a client that has left is never noticed (`half_open`).
-/

namespace Tolla

namespace Direction

def other : Direction → Direction
  | .toDatabase => .toClient
  | .toClient => .toDatabase

theorem eq_or_eq_other (direction this : Direction) :
    this = direction ∨ this = direction.other := by
  cases direction <;> cases this <;> simp [other]

@[simp] theorem other_ne (direction : Direction) : direction.other ≠ direction := by
  cases direction <;> simp [other]

@[simp] theorem ne_other (direction : Direction) : direction ≠ direction.other :=
  (other_ne direction).symm

@[simp] theorem other_other (direction : Direction) : direction.other.other = direction := by
  cases direction <;> rfl

@[simp] theorem src_ne_dst (direction : Direction) : direction.src ≠ direction.dst := by
  cases direction <;> simp [src, dst]

theorem eq_dst_or_eq_src (direction : Direction) (peer : Peer) :
    peer = direction.dst ∨ peer = direction.src := by
  cases direction <;> cases peer <;> simp [src, dst]

theorem side_ne_zero (direction : Direction) : direction.side ≠ 0 := by
  cases direction <;> decide

theorem side_add_other (direction : Direction) : direction.side + direction.other.side = 0 := by
  cases direction <;> decide

end Direction

namespace Relay

variable {relay : Relay} {event : Event} {direction : Direction}

/-! ## The directions -/

@[simp] theorem done_copies : (relay.done direction).copies = relay.copies := by
  unfold done
  split
  · split <;> rfl
  · rfl
  · rfl
  · rfl

/-- Each direction is a copy loop that knows nothing of the other. -/
theorem copies_run (events : List Event) (relay : Relay) (direction : Direction) :
    (run events relay).copies direction =
      Runs.exec Pump.step (Pump.moves direction events) (relay.copies direction) := by
  induction events generalizing relay with
  | nil => rfl
  | cons event rest ih =>
      rw [show run (event :: rest) relay = run rest (step event relay) from rfl, ih]
      cases event with
      | control this => simp [step, Pump.moves]
      | copy this move =>
          by_cases hthis : this = direction
          · subst hthis
            simp [step, Pump.moves, Runs.exec]
          · simp [step, Pump.moves, hthis, Function.update_of_ne (Ne.symm hthis)]

/-! ## The counter -/

/-- The copies of both directions are over. -/
def Over (relay : Relay) : Prop := ∀ direction, (relay.copies direction).phase.Over

/-- How far the two goroutines are, and what has been closed. -/
inductive Counted (relay : Relay) : Prop
  | copying (hstage : ∀ direction, relay.stage direction = .copying)
      (hstatus : relay.quit.status = 0) (hcloses : ∀ peer, relay.closes peer = 0)
  | waiting (direction : Direction) (hstage : relay.stage direction = .returned)
      (hother : relay.stage direction.other = .copying)
      (hstatus : relay.quit.status = direction.side) (hcloses : ∀ peer, relay.closes peer = 0)
      (hover : (relay.copies direction).phase.Over)
  | closingDst (direction : Direction) (hstage : relay.stage direction = .closingDst)
      (hother : relay.stage direction.other = .returned)
      (hcloses : ∀ peer, relay.closes peer = 0) (hover : relay.Over)
  | closingSrc (direction : Direction) (hstage : relay.stage direction = .closingSrc)
      (hother : relay.stage direction.other = .returned) (hdst : relay.closes direction.dst = 1)
      (hsrc : relay.closes direction.src = 0) (hover : relay.Over)
  | closed (hstage : ∀ direction, relay.stage direction = .returned)
      (hcloses : ∀ peer, relay.closes peer = 1) (hover : relay.Over)

theorem Counted.start : Counted .start := .copying (fun _ => rfl) rfl fun _ => rfl

theorem Over.copy (hover : relay.Over) (direction : Direction) (move : Pump.Move UInt8) :
    (step (.copy direction move) relay).Over := by
  intro this
  by_cases hthis : this = direction
  · subst hthis
    simpa [step, Pump.over_step (hover this)] using hover this
  · simpa [step, Function.update_of_ne hthis] using hover this

theorem Counted.copy (hcounted : Counted relay) (direction : Direction)
    (move : Pump.Move UInt8) : Counted (step (.copy direction move) relay) := by
  cases hcounted with
  | copying hstage hstatus hcloses => exact .copying hstage hstatus hcloses
  | waiting first hstage hother hstatus hcloses hover =>
      refine .waiting first hstage hother hstatus hcloses ?_
      by_cases hfirst : first = direction
      · subst hfirst
        simpa [step, Pump.over_step hover] using hover
      · simpa [step, Function.update_of_ne hfirst] using hover
  | closingDst first hstage hother hcloses hover =>
      exact .closingDst first hstage hother hcloses (hover.copy direction move)
  | closingSrc first hstage hother hdst hsrc hover =>
      exact .closingSrc first hstage hother hdst hsrc (hover.copy direction move)
  | closed hstage hcloses hover => exact .closed hstage hcloses (hover.copy direction move)

/-- A goroutine that is still copying, or that has returned, does not do anything. -/
theorem done_of_idle (hidle : relay.stage direction = .returned ∨
    relay.stage direction = .copying ∧ ¬ (relay.copies direction).phase.Over) :
    relay.done direction = relay := by
  unfold done
  rcases hidle with hstage | ⟨hstage, hover⟩
  · rw [hstage]
  · rw [hstage]
    exact if_neg hover

theorem Counted.done (hcounted : Counted relay) (direction : Direction) :
    Counted (relay.done direction) := by
  by_cases hidle : relay.stage direction = .returned ∨
      relay.stage direction = .copying ∧ ¬ (relay.copies direction).phase.Over
  · rwa [done_of_idle hidle]
  rw [not_or, not_and, not_not] at hidle
  obtain ⟨hreturned, hended⟩ := hidle
  cases hcounted with
  | copying hstage hstatus hcloses =>
      -- the first: one side alone is not zero
      have hside : relay.quit.status + direction.side ≠ 0 := by
        rw [hstatus, Int32.zero_add]
        exact direction.side_ne_zero
      have hdone : relay.done direction =
          ({ relay with quit := relay.quit.add direction.side }).move direction .returned := by
        simp [Relay.done, hstage direction, hended (hstage direction), Pipe.add, hside]
      rw [hdone]
      refine .waiting direction ?_ ?_ ?_ hcloses (hended (hstage direction))
      · simp [move]
      · simp [move, hstage]
      · simp [move, Pipe.add, hstatus]
  | waiting first hstage hother hstatus hcloses hover =>
      -- the second: both sides together are
      obtain rfl : direction = first.other := by
        rcases first.eq_or_eq_other direction with rfl | hsame
        · exact absurd hstage hreturned
        · exact hsame
      have hsum : relay.quit.status + first.other.side = 0 := by
        rw [hstatus, first.side_add_other]
      have hdone : relay.done first.other =
          ({ relay with quit := relay.quit.add first.other.side }).move first.other
            .closingDst := by
        simp [Relay.done, hother, hended hother, Pipe.add, hsum]
      rw [hdone]
      refine .closingDst first.other ?_ ?_ hcloses fun this => ?_
      · simp [move]
      · simp [move, hstage]
      · rcases first.eq_or_eq_other this with rfl | rfl
        · exact hover
        · exact hended hother
  | closingDst closer hstage hother hcloses hover =>
      obtain rfl : direction = closer := by
        rcases closer.eq_or_eq_other direction with rfl | rfl
        · rfl
        · exact absurd hother hreturned
      have hdone : relay.done direction =
          (relay.close direction.dst).move direction .closingSrc := by
        simp [Relay.done, hstage]
      rw [hdone]
      refine .closingSrc direction ?_ ?_ ?_ ?_ hover
      · simp [move]
      · simp [move, close, hother]
      · simp [move, close, hcloses]
      · simp [move, close, hcloses]
  | closingSrc closer hstage hother hdst hsrc hover =>
      obtain rfl : direction = closer := by
        rcases closer.eq_or_eq_other direction with rfl | rfl
        · rfl
        · exact absurd hother hreturned
      have hdone : relay.done direction =
          (relay.close direction.src).move direction .returned := by
        simp [Relay.done, hstage]
      rw [hdone]
      refine .closed (fun this => ?_) (fun peer => ?_) hover
      · rcases direction.eq_or_eq_other this with rfl | rfl
        · simp [move]
        · simp [move, close, hother]
      · rcases direction.eq_dst_or_eq_src peer with rfl | rfl
        · simp [move, close, hdst, (Direction.src_ne_dst direction).symm]
        · simp [move, close, hsrc]
  | closed hstage hcloses hover => exact absurd (hstage direction) hreturned

theorem counted_run (events : List Event) : Counted (run events .start) := by
  refine Runs.exec_history (P := fun _ (relay : Relay) => Counted relay) .start ?_ events
  intro events event hcounted
  cases event with
  | copy direction move => exact hcounted.copy direction move
  | control direction => exact hcounted.done direction

/-! ## Rest -/

/-- A step of a goroutine that it can take. -/
def Takes (relay : Relay) : Event → Prop
  | .copy direction move => move.Own ∧ (relay.copies direction).Enabled move
  | .control direction => relay.stage direction ≠ .returned ∧
      (relay.stage direction = .copying → (relay.copies direction).phase.Over)

/-- The goroutines can take no step. -/
def Rests (relay : Relay) : Prop := ∀ event, ¬ relay.Takes event

/-- The steps that a goroutine has before it after its copy. -/
def Stage.left : Stage → Nat
  | .copying => 3
  | .closingDst => 2
  | .closingSrc => 1
  | .returned => 0

/-- A bound on the steps that the goroutines can take. -/
def work (relay : Relay) : Nat :=
  (relay.copies .toDatabase).work + (relay.copies .toClient).work +
    Stage.left (relay.stage .toDatabase) + Stage.left (relay.stage .toClient)

theorem done_left (hstage : relay.stage direction ≠ .returned)
    (hended : relay.stage direction = .copying → (relay.copies direction).phase.Over) :
    Stage.left ((relay.done direction).stage direction) < Stage.left (relay.stage direction) := by
  cases hcurrent : relay.stage direction with
  | copying =>
      by_cases hzero : relay.quit.status + direction.side = 0
      · simp [done, hcurrent, hended hcurrent, move, Pipe.add, hzero, Stage.left]
      · simp [done, hcurrent, hended hcurrent, move, Pipe.add, hzero, Stage.left]
  | closingDst => simp [done, hcurrent, move, Stage.left]
  | closingSrc => simp [done, hcurrent, move, Stage.left]
  | returned => exact absurd hcurrent hstage

theorem done_stage_other (relay : Relay) (direction : Direction) :
    (relay.done direction).stage direction.other = relay.stage direction.other := by
  unfold done
  split
  · split
    · simp [move]
    · rfl
  · simp [move, close]
  · simp [move, close]
  · rfl

theorem work_lt (htakes : relay.Takes event) : (step event relay).work < relay.work := by
  cases event with
  | copy direction move =>
      have hless := Pump.work_lt htakes.1 htakes.2
      cases direction <;> simp [work, step] <;> omega
  | control direction =>
      have hless := done_left htakes.1 htakes.2
      have hsame := done_stage_other relay direction
      cases direction with
      | toDatabase =>
          rw [Direction.other] at hsame
          simp only [work, step, done_copies, hsame]
          omega
      | toClient =>
          rw [Direction.other] at hsame
          simp only [work, step, done_copies, hsame]
          omega

theorem sound_run (events : List Event) (direction : Direction) :
    Pump.Sound ((run events .start).copies direction) := by
  rw [copies_run]
  exact Pump.Sound.start.exec _

/-- At rest both connections are closed, or none is and a copy waits for its source. -/
theorem Rests.cases (hrests : relay.Rests) (hcounted : Counted relay)
    (hsound : ∀ direction, Pump.Sound (relay.copies direction)) :
    (∀ peer, relay.closes peer = 1) ∧ relay.Over ∨
      (∀ peer, relay.closes peer = 0) ∧ ∃ direction, (relay.copies direction).Waits := by
  have hdone {direction : Direction} (hstage : relay.stage direction ≠ .returned) :
      relay.stage direction = .copying ∧ ¬ (relay.copies direction).phase.Over := by
    by_contra hnot
    refine hrests (.control direction) ⟨hstage, fun hcopying => ?_⟩
    by_contra hover
    exact hnot ⟨hcopying, hover⟩
  have hwaits {direction : Direction} (hstage : relay.stage direction = .copying) :
      (relay.copies direction).Waits := by
    have hcopy : (relay.copies direction).Rests := by
      intro move hown henabled
      exact hrests (.copy direction move) ⟨hown, henabled⟩
    rcases (hsound direction).rests_iff.mp hcopy with hover | hwaits
    · exact absurd hover (hdone (by simp [hstage])).2
    · exact hwaits
  cases hcounted with
  | copying hstage hstatus hcloses =>
      exact .inr ⟨hcloses, .toDatabase, hwaits (hstage .toDatabase)⟩
  | waiting first hstage hother hstatus hcloses hover =>
      exact .inr ⟨hcloses, first.other, hwaits hother⟩
  | closingDst closer hstage hother hcloses hover =>
      have hbusy : relay.stage closer ≠ .returned := by simp [hstage]
      have hcopying := (hdone hbusy).1
      rw [hstage] at hcopying
      cases hcopying
  | closingSrc closer hstage hother hdst hsrc hover =>
      have hbusy : relay.stage closer ≠ .returned := by simp [hstage]
      have hcopying := (hdone hbusy).1
      rw [hstage] at hcopying
      cases hcopying
  | closed hstage hcloses hover => exact .inl ⟨hcloses, hover⟩

/-! ## Every interleaving -/

theorem Counted.closes (hcounted : Counted relay) (peer : Peer) :
    relay.closes peer ≤ 1 ∧ (relay.closes peer ≠ 0 → relay.Over) := by
  cases hcounted with
  | copying hstage hstatus hcloses => simp [hcloses]
  | waiting first hstage hother hstatus hcloses hover => simp [hcloses]
  | closingDst closer hstage hother hcloses hover => simp [hcloses]
  | closingSrc closer hstage hother hdst hsrc hover =>
      rcases closer.eq_dst_or_eq_src peer with rfl | rfl
      · simp [hdst, hover]
      · simp [hsrc]
  | closed hstage hcloses hover => simp [hcloses, hover]

/-- What holds of a relay after the events. -/
structure Carries (events : List Event) (relay : Relay) : Prop where
  /-- A peer gets the front of what the other sent, all of it if its copy read to the end. -/
  delivered : ∀ direction,
    (relay.copies direction).delivered <+: Pump.put (Pump.moves direction events) ∧
      ((relay.copies direction).phase = .finished →
        (relay.copies direction).delivered = Pump.put (Pump.moves direction events))
  /-- No connection is closed twice, and none before both copies are over. -/
  closes : ∀ peer, relay.closes peer ≤ 1 ∧ (relay.closes peer ≠ 0 → relay.Over)
  /-- The goroutines come to rest. -/
  settles : ∀ more, Runs.Along step Takes more relay → more.length ≤ relay.work
  /-- There both connections are closed, or none, and a copy waits for its source. -/
  rest : relay.Rests → (∀ peer, relay.closes peer = 1) ∨
    (∀ peer, relay.closes peer = 0) ∧ ∃ direction, (relay.copies direction).Waits

/-- Whatever the peers do, in whatever order the goroutines run. -/
theorem relay_carries (events : List Event) : Carries events (run events .start) where
  delivered direction := by
    rw [copies_run]
    exact Pump.delivered_exec _
  closes peer := (counted_run events).closes peer
  settles _ halong := Runs.length_le_of_along (fun _ _ => work_lt) halong
  rest hrests := (hrests.cases (counted_run events) (sound_run events)).imp And.left id

/-- Both peers have closed their sides, and no connection breaks: then the goroutines can
go on until they rest, and when they do, everything has been delivered and both connections
have been closed once. -/
theorem relay_drains {events : List Event}
    (hclosed : ∀ direction, .close ∈ Pump.moves direction events)
    (hwhole : ∀ direction, ∀ move ∈ Pump.moves direction events, move ≠ .sever ∧ move ≠ .shatter) :
    (∃ more, Runs.Along step Takes more (run events .start) ∧
      (run (events ++ more) .start).Rests) ∧
    ∀ more, Runs.Along step Takes more (run events .start) →
      (run (events ++ more) .start).Rests →
      (∀ direction, ((run (events ++ more) .start).copies direction).delivered =
        Pump.put (Pump.moves direction events)) ∧
      ∀ peer, (run (events ++ more) .start).closes peer = 1 := by
  have happend (more : List Event) :
      run (events ++ more) .start = run more (run events .start) := Runs.exec_append _ _ _
  constructor
  · obtain ⟨more, halong, hrests⟩ := Runs.exists_maximal (fun _ _ => work_lt) (run events .start)
    refine ⟨more, halong, ?_⟩
    rwa [happend]
  · intro more halong hrests
    have hown : ∀ event ∈ more, ∀ this move, event = .copy this move → move.Own := by
      refine Runs.forall_of_along (fun relay event htakes this move hevent => ?_) halong
      subst hevent
      exact htakes.1
    have hdrained (direction : Direction) := by
      refine Pump.drained_exec (Pump.moves direction (events ++ more)) ?_ ?_
      · rw [Pump.moves_append]
        exact List.mem_append_left _ (hclosed direction)
      · intro move hmove
        rw [Pump.moves_append] at hmove
        rcases List.mem_append.mp hmove with hbefore | hafter
        · exact hwhole direction move hbefore
        · -- the goroutines break nothing
          have hmoveOwn := hown _ (Pump.mem_moves.mp hafter) direction move rfl
          constructor
          · rintro rfl
            exact hmoveOwn
          · rintro rfl
            exact hmoveOwn
    have hall : (∀ peer, (run (events ++ more) .start).closes peer = 1) ∧
        (run (events ++ more) .start).Over := by
      rcases hrests.cases (counted_run _) (sound_run _) with hall | ⟨-, direction, hwaits⟩
      · exact hall
      · rw [copies_run] at hwaits
        exact absurd hwaits (hdrained direction).1
    refine ⟨fun direction => ?_, hall.1⟩
    have hover := hall.2 direction
    rw [copies_run] at hover ⊢
    rw [← Pump.put_append (hclosed direction) (Pump.moves direction more), ← Pump.moves_append]
    exact (hdrained direction).2 hover

/-- A question and its answer, and both peers close. -/
def conversation : List Event :=
  [.copy .toDatabase (.put [1, 2]), .copy .toDatabase .close, .copy .toClient (.put [3]),
    .copy .toClient .close]

theorem relay_drains_conversation :
    ∃ more, ((run (conversation ++ more) .start).copies .toDatabase).delivered = [1, 2] ∧
      ((run (conversation ++ more) .start).copies .toClient).delivered = [3] ∧
      ∀ peer, (run (conversation ++ more) .start).closes peer = 1 := by
  have hclosed : ∀ direction, .close ∈ Pump.moves direction conversation := by
    intro direction
    cases direction <;> decide
  have hwhole : ∀ direction, ∀ move ∈ Pump.moves direction conversation,
      move ≠ .sever ∧ move ≠ .shatter := by
    intro direction
    cases direction <;> decide
  obtain ⟨⟨more, halong, hrests⟩, hdrains⟩ := relay_drains hclosed hwhole
  obtain ⟨hdelivered, hcloses⟩ := hdrains more halong hrests
  exact ⟨more, hdelivered .toDatabase, hdelivered .toClient, hcloses⟩

/-- As long as the source and the sink of one direction stay, no connection is closed,
however long the other direction has been over. -/
theorem half_open {events : List Event}
    (hsteady : ∀ move ∈ Pump.moves direction events, move.Steady) (peer : Peer) :
    (run events .start).closes peer = 0 := by
  by_contra hcloses
  have hover := ((counted_run events).closes peer).2 hcloses direction
  rw [copies_run] at hover
  exact Pump.not_over_exec hsteady hover

/-- The client closes, its goroutine returns, and the database says nothing. -/
def departure : List Event :=
  [.copy .toDatabase .close, .copy .toDatabase .readEnd, .control .toDatabase]

theorem half_open_departure : (run departure .start).closes .database = 0 := by
  have hsteady : ∀ move ∈ Pump.moves Direction.toClient departure, move.Steady := by
    intro move hmove
    cases hmove
  exact half_open hsteady .database

end Relay
end Tolla
