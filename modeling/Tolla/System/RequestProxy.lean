import Tolla.Model.RequestProxy
import Tolla.System.Pipe

/-!
# What a session carries, and how it ends

The futures of a connection in `RequestProxy` copy like the goroutines of the other proxy,
but they end differently.  The end of one direction is passed on as soon as everything
before it has been written, while the other direction goes on; and the first error ends
both.

A session does nothing any more once `join` has returned, so its copies are copy loops only
up to that point: `Live` has the front of the events that still had an effect.
-/

namespace Tolla.Session

variable {events : List Event} {session : Session} {direction : Direction}

/-! ## The copies -/

/-- The copies are those after the events up to the result of `join`. -/
def Live (events : List Event) (session : Session) : Prop :=
  ∃ live, live <+: events ∧ (session.amounts = none → live = events) ∧
    ∀ direction, session.copies direction = Runs.exec Pump.step (Pump.moves direction live) .start

theorem control_copies (event : Control) (session : Session) :
    (session.control event).copies = session.copies := by
  cases event with
  | fails direction error =>
      simp only [control]
      split <;> rfl
  | shutdown direction result =>
      simp only [control]
      split
      · cases result with
        | error error => rfl
        | ok value =>
            simp only [join]
            split <;> rfl
      · rfl

theorem live_run (events : List Event) : Live events (run events .start) := by
  refine Runs.exec_history (P := Live) ⟨[], List.prefix_rfl, fun _ => rfl, fun _ => rfl⟩ ?_ events
  intro events event hlive
  obtain ⟨live, hprefix, hall, hcopies⟩ := hlive
  generalize Runs.exec step events .start = session at *
  unfold step
  cases hamounts : session.amounts with
  | some amounts =>
      exact ⟨live, hprefix.trans (List.prefix_append _ _), by simp [hamounts], hcopies⟩
  | none =>
      obtain rfl := hall hamounts
      refine ⟨live ++ [event], List.prefix_rfl, fun _ => rfl, fun direction => ?_⟩
      rw [Pump.moves_append, Runs.exec_append, ← hcopies]
      cases event with
      | control event =>
          rw [Pump.moves_control]
          exact congrFun (control_copies event session) direction
      | copy this move =>
          rw [Pump.moves_copy]
          by_cases hthis : this = direction
          · subst hthis
            simp [Runs.exec]
          · simp [hthis, Runs.exec, Function.update_of_ne (Ne.symm hthis)]

/-! ## The end of a direction -/

/-- What the flags and the result of a session stand for. -/
structure Settled (events : List Event) (session : Session) : Prop where
  shut : ∀ direction, session.shut direction = true →
    (session.copies direction).phase = .finished
  amounts : ∀ result, session.amounts = some result →
    (∃ error, result = .error error ∧ ∃ direction,
      (session.copies direction).phase = .failed ∨
      .control (.shutdown direction (.error error)) ∈ events) ∨
    result = .ok (session.amount .toDatabase, session.amount .toClient) ∧
      ∀ direction, session.shut direction = true
  running : session.amounts = none → ∃ direction, session.shut direction = false

theorem Settled.start : Settled [] .start where
  shut direction hshut := by cases hshut
  amounts result hresult := by cases hresult
  running _ := ⟨.toDatabase, rfl⟩

theorem Settled.append (hsettled : Settled events session) (more : List Event) :
    Settled (events ++ more) session where
  shut := hsettled.shut
  amounts result hresult := by
    refine (hsettled.amounts result hresult).imp_left fun herror => ?_
    obtain ⟨error, rfl, direction, hcause⟩ := herror
    exact ⟨error, rfl, direction, hcause.imp_right (List.mem_append_left more)⟩
  running := hsettled.running

/-- Either both directions are done, or `join` waits for one. -/
theorem join_cases (session : Session) :
    (session.shut .toDatabase = true ∧ session.shut .toClient = true ∧
      session.join = { session with
        amounts := some (.ok (session.amount .toDatabase, session.amount .toClient)) }) ∨
    (∃ direction, session.shut direction = false) ∧ session.join = session := by
  unfold join
  split
  · rename_i hboth
    exact .inl ⟨hboth.1, hboth.2, rfl⟩
  · rename_i hboth
    refine .inr ⟨?_, rfl⟩
    cases hdatabase : session.shut .toDatabase with
    | false => exact ⟨_, hdatabase⟩
    | true => exact ⟨.toClient, by simpa [hdatabase] using hboth⟩

theorem Settled.shutdown (hsettled : Settled events session) (hnone : session.amounts = none)
    (direction : Direction) (result : Except String Unit) :
    Settled (events ++ [.control (.shutdown direction result)])
      (session.control (.shutdown direction result)) := by
  have hrunning := hsettled.running hnone
  simp only [control]
  split
  swap
  · exact hsettled.append _
  rename_i hready
  cases result with
  | error error =>
      refine ⟨hsettled.shut, fun result hresult => ?_, nofun⟩
      obtain rfl := Option.some.inj hresult
      exact .inl ⟨error, rfl, direction, .inr (by simp)⟩
  | ok value =>
      have hshut : ∀ this, Function.update session.shut direction true this = true →
          (session.copies this).phase = .finished := by
        intro this hthis
        by_cases hsame : this = direction
        · exact hsame ▸ hready.1
        · rw [Function.update_of_ne hsame] at hthis
          exact hsettled.shut this hthis
      rcases join_cases { session with
          shut := Function.update session.shut direction true } with
        ⟨hdatabase, hclient, hjoin⟩ | ⟨hopen, hjoin⟩
      · rw [hjoin]
        refine ⟨hshut, fun result hresult => .inr ⟨(Option.some.inj hresult).symm, ?_⟩, nofun⟩
        intro this
        cases this
        · exact hdatabase
        · exact hclient
      · rw [hjoin]
        refine ⟨hshut, fun result hresult => ?_, fun _ => hopen⟩
        rw [show session.amounts = some result from hresult] at hnone
        cases hnone

theorem Settled.step (hsettled : Settled events session) (event : Event) :
    Settled (events ++ [event]) (step event session) := by
  unfold Session.step
  cases hamounts : session.amounts with
  | some amounts => exact hsettled.append _
  | none =>
  cases event with
  | copy direction move =>
      refine ⟨fun this hshut => ?_, fun result hresult => ?_, fun _ => hsettled.running hamounts⟩
      · have hfinished := hsettled.shut this hshut
        by_cases hthis : this = direction
        · subst hthis
          have hover : (session.copies this).phase.Over := by
            rw [hfinished]
            trivial
          simpa [Pump.over_step hover] using hfinished
        · simpa [Function.update_of_ne hthis] using hfinished
      · cases hresult
  | control event =>
      cases event with
      | shutdown direction result => exact hsettled.shutdown hamounts direction result
      | fails direction error =>
          simp only [control]
          split
          · rename_i hfailed
            refine ⟨hsettled.shut, fun result hresult => ?_, nofun⟩
            obtain rfl := Option.some.inj hresult
            exact .inl ⟨error, rfl, direction, .inl hfailed⟩
          · exact hsettled.append _

theorem settled_run (events : List Event) : Settled events (run events .start) :=
  Runs.exec_history (P := Settled) .start (fun _ event hsettled => hsettled.step event) events

/-! ## Rest -/

/-- A step of the futures that they can take. -/
def Takes (session : Session) (event : Event) : Prop :=
  session.amounts = none ∧
    match event with
    | .copy direction move => move.Own ∧ (session.copies direction).Enabled move
    | .control (.fails direction _) => (session.copies direction).phase = .failed
    | .control (.shutdown direction _) =>
        (session.copies direction).phase = .finished ∧ session.shut direction = false

/-- The futures can take no step. -/
def Rests (session : Session) : Prop := ∀ event, ¬ session.Takes event

/-- A session rests with a result, or it waits for a peer; then the end of the other
direction, if it was reached, has been passed on. -/
theorem Rests.cases (hrests : session.Rests) (hsettled : Settled events session)
    (hsound : ∀ direction, Pump.Sound (session.copies direction)) :
    session.amounts ≠ none ∨ (∃ direction, (session.copies direction).Waits) ∧
      ∀ direction, (session.copies direction).Waits ∨ session.shut direction = true := by
  by_cases hnone : session.amounts = none
  swap
  · exact .inl hnone
  have hcases (direction : Direction) :
      (session.copies direction).Waits ∨ session.shut direction = true := by
    have hcopy : (session.copies direction).Rests := by
      intro move hown henabled
      exact hrests (.copy direction move) ⟨hnone, hown, henabled⟩
    rcases (hsound direction).rests_iff.mp hcopy with hover | hwaits
    · cases hphase : (session.copies direction).phase with
      | failed => exact absurd ⟨hnone, hphase⟩ (hrests (.control (.fails direction "")))
      | finished =>
          refine .inr ?_
          by_contra hopen
          exact hrests (.control (.shutdown direction (.ok ())))
            ⟨hnone, hphase, by simpa using hopen⟩
      | reading =>
          rw [hphase] at hover
          cases hover
      | writing chunk =>
          rw [hphase] at hover
          cases hover
    · exact .inl hwaits
  obtain ⟨direction, hopen⟩ := hsettled.running hnone
  refine .inr ⟨⟨direction, (hcases direction).resolve_right (by simp [hopen])⟩, hcases⟩

/-- A bound on the steps that the futures can take. -/
def work (session : Session) : Nat :=
  match session.amounts with
  | some _ => 0
  | none =>
      (session.copies .toDatabase).work + (session.copies .toClient).work +
        (if session.shut .toDatabase then 0 else 1) + (if session.shut .toClient then 0 else 1) + 1

theorem work_lt {event : Event} (htakes : session.Takes event) :
    (step event session).work < session.work := by
  obtain ⟨hnone, hevent⟩ := htakes
  have hwork : session.work = (session.copies .toDatabase).work + (session.copies .toClient).work +
      (if session.shut .toDatabase then 0 else 1) + (if session.shut .toClient then 0 else 1) +
        1 := by
    simp [work, hnone]
  rw [hwork]
  cases event with
  | copy direction move =>
      have hless := Pump.work_lt hevent.1 hevent.2
      cases direction <;> simp [step, work, hnone] <;> omega
  | control event =>
      rw [show step (.control event) session = session.control event by simp [step, hnone]]
      cases event with
      | fails direction error =>
          rw [control, if_pos (show (session.copies direction).phase = .failed from hevent)]
          simp [work]
      | shutdown direction result =>
          cases result with
          | error error =>
              rw [control, if_pos hevent]
              simp [work]
          | ok value =>
              rw [control, if_pos hevent]
              rcases join_cases { session with
                  shut := Function.update session.shut direction true } with
                ⟨-, -, hjoin⟩ | ⟨-, hjoin⟩
              · simp only [hjoin]
                simp [work]
              · simp only [hjoin]
                obtain ⟨-, hopen⟩ := hevent
                cases direction <;> simp [work, hnone, hopen]

/-! ## Every interleaving -/

theorem sound_run (events : List Event) (direction : Direction) :
    Pump.Sound ((run events .start).copies direction) := by
  obtain ⟨live, -, -, hcopies⟩ := live_run events
  rw [hcopies]
  exact Pump.Sound.start.exec _

/-- A direction that was shut down was closed, and everything was delivered. -/
theorem shut_run {events : List Event} {direction : Direction}
    (hshut : (run events .start).shut direction = true) :
    .copy direction .close ∈ events ∧
      ((run events .start).copies direction).delivered =
        Pump.put (Pump.moves direction events) := by
  obtain ⟨live, ⟨rest, rfl⟩, -, hcopies⟩ := live_run events
  have hphase := (settled_run (live ++ rest)).shut direction hshut
  obtain ⟨-, hclosed⟩ := (sound_run (live ++ rest) direction).exhausted hphase
  rw [hcopies] at hphase hclosed
  have hclose : .close ∈ Pump.moves direction live := by
    simpa [Pump.Copy.start] using (Pump.closed_exec _ _).mp hclosed
  refine ⟨List.mem_append_left rest (Pump.mem_moves.mp hclose), ?_⟩
  rw [Pump.moves_append, Pump.put_append hclose, hcopies]
  exact (Pump.delivered_exec _).2 hphase

/-- When `join` has returned the amounts, both directions are shut down. -/
theorem joined_run {events : List Event} {amounts : Nat × Nat}
    (hamounts : (run events .start).amounts = some (.ok amounts)) :
    (∀ direction, (run events .start).shut direction = true) ∧
      amounts = ((run events .start).amount .toDatabase, (run events .start).amount .toClient) := by
  rcases (settled_run events).amounts _ hamounts with ⟨error, herror, -⟩ | ⟨hok, hshut⟩
  · cases herror
  · exact ⟨hshut, Except.ok.inj hok⟩

/-- What holds of a session after the events. -/
structure Carries (events : List Event) (session : Session) : Prop where
  /-- A peer gets the front of what the other sent. -/
  delivered : ∀ direction,
    (session.copies direction).delivered <+: Pump.put (Pump.moves direction events)
  /-- It sees the end of a direction only after everything that was sent. -/
  shut : ∀ direction, session.shut direction = true →
    .copy direction .close ∈ events ∧
      (session.copies direction).delivered = Pump.put (Pump.moves direction events)
  /-- The numbers that are printed are those of the bytes that were sent. -/
  counted : ∀ amounts, session.amounts = some (.ok amounts) →
    (∀ direction, session.shut direction = true) ∧
      amounts = ((Pump.put (Pump.moves .toDatabase events)).length,
        (Pump.put (Pump.moves .toClient events)).length)
  /-- An error is that of a copy or of a shutdown. -/
  failed : ∀ error, session.amounts = some (.error error) → ∃ direction,
    (session.copies direction).phase = .failed ∨
      .control (.shutdown direction (.error error)) ∈ events
  rest : session.Rests →
    session.amounts ≠ none ∨ (∃ direction, (session.copies direction).Waits) ∧
      ∀ direction, (session.copies direction).Waits ∨ session.shut direction = true

/-- Whatever the peers do, in whatever order the futures are polled. -/
theorem session_carries (events : List Event) : Carries events (run events .start) where
  delivered direction := by
    obtain ⟨live, ⟨rest, rfl⟩, -, hcopies⟩ := live_run events
    rw [Pump.moves_append, hcopies]
    exact (Pump.delivered_exec _).1.trans (Pump.put_prefix _ _)
  shut direction hshut := shut_run hshut
  counted amounts hamounts := by
    obtain ⟨hshut, rfl⟩ := joined_run hamounts
    refine ⟨hshut, ?_⟩
    rw [amount, amount, (shut_run (hshut .toDatabase)).2, (shut_run (hshut .toClient)).2]
  failed error hamounts := by
    rcases (settled_run events).amounts _ hamounts with ⟨other, herror, hcause⟩ | ⟨hok, -⟩
    · obtain rfl := Except.error.inj herror
      exact hcause
    · cases hok
  rest hrests := hrests.cases (settled_run events) (sound_run events)

/-- A peer has closed its side: the futures come to rest, and unless `join` has returned an
error by then, the other peer has received everything and has seen the end, whether or not
it has closed its own side. -/
theorem passes_end {events : List Event} (hclosed : .copy direction .close ∈ events) :
    (∃ more, Runs.Along step Takes more (run events .start) ∧
      (run (events ++ more) .start).Rests) ∧
    ∀ more, (run (events ++ more) .start).Rests →
      (∀ error, (run (events ++ more) .start).amounts ≠ some (.error error)) →
      (run (events ++ more) .start).shut direction = true ∧
        ((run (events ++ more) .start).copies direction).delivered =
          Pump.put (Pump.moves direction events) := by
  constructor
  · obtain ⟨more, halong, hrests⟩ := Runs.exists_maximal (fun _ _ => work_lt) (run events .start)
    refine ⟨more, halong, ?_⟩
    rwa [show run (events ++ more) .start = run more (run events .start) from
      Runs.exec_append _ _ _]
  · intro more hrests hnoerror
    have hclose : .close ∈ Pump.moves direction events := Pump.mem_moves.mpr hclosed
    have hshut : (run (events ++ more) .start).shut direction = true := by
      cases hamounts : (run (events ++ more) .start).amounts with
      | some result =>
          cases result with
          | error error => exact absurd hamounts (hnoerror error)
          | ok amounts => exact (joined_run hamounts).1 direction
      | none =>
          obtain ⟨live, -, hall, hcopies⟩ := live_run (events ++ more)
          obtain rfl := hall hamounts
          obtain ⟨-, hcases⟩ := (hrests.cases (settled_run _) (sound_run _)).resolve_left
            (by simp [hamounts])
          refine (hcases direction).resolve_left fun hwaits => ?_
          -- the end of the input is there to be read
          have hend : (Runs.exec Pump.step (Pump.moves direction (events ++ more))
              .start).closed = true := by
            rw [Pump.closed_exec, Pump.moves_append]
            exact .inr (List.mem_append_left _ hclose)
          rw [← hcopies] at hend
          exact absurd (hend.symm.trans hwaits.2.2.1) (by decide)
    refine ⟨hshut, ?_⟩
    rw [(shut_run hshut).2, Pump.moves_append, Pump.put_append hclose]

/-- The client asks and closes its side, and the server is still there. -/
def question : List Event := [.copy .toDatabase (.put [1, 2]), .copy .toDatabase .close]

theorem passes_end_question :
    ∃ more, (run (question ++ more) .start).Rests ∧
      ((∀ error, (run (question ++ more) .start).amounts ≠ some (.error error)) →
        (run (question ++ more) .start).shut .toDatabase = true ∧
          ((run (question ++ more) .start).copies .toDatabase).delivered = [1, 2]) := by
  have hclosed : .copy .toDatabase .close ∈ question := by simp [question]
  obtain ⟨⟨more, -, hrests⟩, hpasses⟩ := passes_end hclosed
  exact ⟨more, hrests, hpasses more hrests⟩

end Tolla.Session
