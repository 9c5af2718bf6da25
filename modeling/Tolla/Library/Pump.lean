import Mathlib.Tactic.Common
import Tolla.Library.Runs

/-!
# A copy loop between two streams

A loop reads a chunk from one stream, writes it to another, and starts over, until it reads
the end of the input or a call fails.  `Copy` is the loop with the data before it, in it and
behind it; `step` has the moves of the loop itself and those of the two ends, which come in
any order.  A write may take a part of the chunk only.

Nothing is stored twice: the data is `delivered`, `lost`, held in the chunk or `unread`, in
this order, and `Copy.sent` is all of it.  That the order is that in which the data was put
in is `sent_exec`, and `Sound` is the invariant that tells what can be lost: nothing, unless
the loop failed.

`work` bounds the moves that the loop can make before something new is put in, and
`rests_iff` says when it can make none.
-/

namespace Pump

variable {α : Type*}

/-- Where the loop is. -/
inductive Phase (α : Type*) where
  | reading
  | writing (chunk : List α)
  /-- It has read the end of the input. -/
  | finished
  /-- A read or a write has failed. -/
  | failed
  deriving DecidableEq, Repr

/-- The chunk that was read and not yet written. -/
def Phase.held : Phase α → List α
  | .writing chunk => chunk
  | _ => []

/-- The loop is over. -/
def Phase.Over : Phase α → Prop
  | .finished => True
  | .failed => True
  | _ => False

instance (phase : Phase α) : Decidable phase.Over := by
  cases phase <;> unfold Phase.Over <;> infer_instance

/-- A copy loop and its two streams. -/
structure Copy (α : Type*) where
  unread : List α
  /-- Nothing more will be put in. -/
  closed : Bool
  /-- Reading may fail. -/
  severed : Bool
  phase : Phase α
  /-- What was read and could not be written. -/
  lost : List α
  delivered : List α
  /-- Writing fails. -/
  broken : Bool
  deriving DecidableEq, Repr

/-- What was put in, in order. -/
def Copy.sent (copy : Copy α) : List α :=
  copy.delivered ++ copy.lost ++ copy.phase.held ++ copy.unread

/-- The loop at its start. -/
def Copy.start : Copy α := ⟨[], false, false, .reading, [], [], false⟩

/-- What can happen next. -/
inductive Move (α : Type*) where
  /-- The one end puts data in, closes its side, or is gone. -/
  | put (data : List α)
  | close
  | sever
  /-- The other end is gone. -/
  | shatter
  /-- The loop reads or writes so many items at most, or finds that it cannot. -/
  | read (count : Nat)
  | write (count : Nat)
  | readEnd
  | readFails
  | writeFails
  deriving DecidableEq, Repr

/-- The move is one of the loop. -/
def Move.Own : Move α → Prop
  | .read _ => True
  | .write _ => True
  | .readEnd => True
  | .readFails => True
  | .writeFails => True
  | _ => False

/-- The loop can make the move. -/
def Copy.Enabled (copy : Copy α) : Move α → Prop
  | .read count => copy.phase = .reading ∧ 0 < count ∧ copy.unread ≠ []
  | .write count => copy.phase.held ≠ [] ∧ 0 < count ∧ copy.broken = false
  | .readEnd => copy.phase = .reading ∧ copy.unread = [] ∧ copy.closed = true
  | .readFails => copy.phase = .reading ∧ copy.severed = true
  | .writeFails => copy.phase.held ≠ [] ∧ copy.broken = true
  | .put _ => copy.closed = false
  | .close => True
  | .sever => True
  | .shatter => True

instance [DecidableEq α] (copy : Copy α) (move : Move α) : Decidable (copy.Enabled move) := by
  cases move <;> unfold Copy.Enabled <;> infer_instance

/-- The loop has written the front of its chunk. -/
def Phase.advance (count : Nat) : Phase α → Phase α
  | .writing chunk => if chunk.length ≤ count then .reading else .writing (chunk.drop count)
  | phase => phase

/-- The effect of a move that can be made. -/
def apply (copy : Copy α) : Move α → Copy α
  | .put data => { copy with unread := copy.unread ++ data }
  | .close => { copy with closed := true }
  | .sever => { copy with severed := true }
  | .shatter => { copy with broken := true }
  | .read count =>
      { copy with unread := copy.unread.drop count, phase := .writing (copy.unread.take count) }
  | .write count =>
      { copy with
        delivered := copy.delivered ++ copy.phase.held.take count
        phase := copy.phase.advance count }
  | .readEnd => { copy with phase := .finished }
  | .readFails => { copy with phase := .failed }
  | .writeFails => { copy with lost := copy.lost ++ copy.phase.held, phase := .failed }

/-- What the move puts in. -/
def Copy.taken (copy : Copy α) : Move α → List α
  | .put data => if copy.closed then [] else data
  | _ => []

/-! ## The data -/

@[simp] theorem held_advance (phase : Phase α) (count : Nat) :
    (phase.advance count).held = phase.held.drop count := by
  cases phase with
  | writing chunk =>
      simp only [Phase.advance]
      split
      · rename_i hshort
        exact (List.drop_eq_nil_of_le hshort).symm
      · rfl
  | reading => simp [Phase.advance, Phase.held]
  | finished => simp [Phase.advance, Phase.held]
  | failed => simp [Phase.advance, Phase.held]

/-- What is lost, and what is known when the loop is over. -/
structure Sound (copy : Copy α) : Prop where
  kept : copy.phase ≠ .failed → copy.lost = []
  exhausted : copy.phase = .finished → copy.unread = [] ∧ copy.closed = true
  held : ∀ chunk, copy.phase = .writing chunk → chunk ≠ []

theorem Sound.start : Sound (.start : Copy α) where
  kept _ := rfl
  exhausted hphase := by cases hphase
  held chunk hphase := by cases hphase

/-- A loop that holds data is writing. -/
theorem held_ne_nil_iff {phase : Phase α} :
    phase.held ≠ [] ↔ ∃ chunk, phase = .writing chunk ∧ chunk ≠ [] := by
  cases phase with
  | writing chunk => simp [Phase.held]
  | reading => simp [Phase.held]
  | finished => simp [Phase.held]
  | failed => simp [Phase.held]

/-- What a loop that finished was given, it has delivered. -/
theorem Sound.delivered_of_finished {copy : Copy α} (hsound : Sound copy)
    (hphase : copy.phase = .finished) : copy.delivered = copy.sent := by
  have hlost := hsound.kept (by simp [hphase])
  obtain ⟨hunread, -⟩ := hsound.exhausted hphase
  simp [Copy.sent, hlost, hunread, hphase, Phase.held]

theorem delivered_prefix (copy : Copy α) : copy.delivered <+: copy.sent := by
  unfold Copy.sent
  rw [List.append_assoc, List.append_assoc]
  exact List.prefix_append _ _

/-! ## What is put in -/

/-- What the moves put in before they close. -/
def put : List (Move α) → List α
  | [] => []
  | .put data :: rest => data ++ put rest
  | .close :: _ => []
  | _ :: rest => put rest

theorem put_append {first : List (Move α)} (hclose : .close ∈ first) (second : List (Move α)) :
    put (first ++ second) = put first := by
  induction first with
  | nil => cases hclose
  | cons move rest ih =>
      cases move with
      | close => rfl
      | _ => simp_all [put]

theorem put_prefix (first second : List (Move α)) : put first <+: put (first ++ second) := by
  induction first with
  | nil => exact List.nil_prefix
  | cons move rest ih =>
      cases move with
      | close => exact List.prefix_rfl
      | put data => simpa [put] using ih
      | _ => exact ih

/-! ## Several loops -/

/-- An event of a system with several loops: a move of one of them, or something else. -/
inductive Event (δ α ε : Type*) where
  | copy (loop : δ) (move : Move α)
  | control (event : ε)
  deriving DecidableEq, Repr

section Moves

variable {δ ε : Type*} [DecidableEq δ] {loop : δ}

/-- The moves of one loop. -/
def moves (loop : δ) (events : List (Event δ α ε)) : List (Move α) :=
  events.filterMap fun event =>
    match event with
    | .copy this move => if this = loop then some move else none
    | .control _ => none

theorem moves_append (loop : δ) (first second : List (Event δ α ε)) :
    moves loop (first ++ second) = moves loop first ++ moves loop second :=
  List.filterMap_append

@[simp] theorem moves_control (loop : δ) (event : ε) :
    moves loop [(.control event : Event δ α ε)] = [] := rfl

theorem moves_copy (loop this : δ) (move : Move α) :
    moves loop [(.copy this move : Event δ α ε)] = if this = loop then [move] else [] := by
  by_cases hthis : this = loop <;> simp [moves, hthis]

theorem mem_moves {events : List (Event δ α ε)} {move : Move α} :
    move ∈ moves loop events ↔ .copy loop move ∈ events := by
  unfold moves
  rw [List.mem_filterMap]
  constructor
  · rintro ⟨event, hevent, hsome⟩
    cases event with
    | control event => cases hsome
    | copy this other =>
        simp only at hsome
        split at hsome
        · rename_i hthis
          obtain rfl := Option.some.inj hsome
          rwa [← hthis]
        · cases hsome
  · intro hevent
    exact ⟨_, hevent, if_pos rfl⟩

end Moves

/-! ## Rest -/

/-- The loop can make no move. -/
def Copy.Rests (copy : Copy α) : Prop := ∀ move : Move α, move.Own → ¬ copy.Enabled move

/-- The loop waits for data that may still come. -/
def Copy.Waits (copy : Copy α) : Prop :=
  copy.phase = .reading ∧ copy.unread = [] ∧ copy.closed = false ∧ copy.severed = false

/-- A loop rests if and only if it is over or waits. -/
theorem Sound.rests_iff {copy : Copy α} (hsound : Sound copy) :
    copy.Rests ↔ copy.phase.Over ∨ copy.Waits := by
  constructor
  · intro hrests
    cases hphase : copy.phase with
    | finished => exact .inl trivial
    | failed => exact .inl trivial
    | reading =>
        have hunread : copy.unread = [] := by
          by_contra hunread
          exact hrests (.read 1) trivial ⟨hphase, Nat.one_pos, hunread⟩
        have hclosed : copy.closed = false := by
          by_contra hclosed
          exact hrests .readEnd trivial ⟨hphase, hunread, by simpa using hclosed⟩
        have hsevered : copy.severed = false := by
          by_contra hsevered
          exact hrests .readFails trivial ⟨hphase, by simpa using hsevered⟩
        exact .inr ⟨hphase, hunread, hclosed, hsevered⟩
    | writing chunk =>
        have hheld : copy.phase.held ≠ [] := by
          rw [hphase]
          exact hsound.held chunk hphase
        cases hbroken : copy.broken with
        | false => exact absurd ⟨hheld, Nat.one_pos, hbroken⟩ (hrests (.write 1) trivial)
        | true => exact absurd ⟨hheld, hbroken⟩ (hrests .writeFails trivial)
  · intro hcases move hown henabled
    rcases hcases with hover | ⟨hreading, hunread, hclosed, hsevered⟩
    · cases hphase : copy.phase <;> rw [hphase] at hover <;>
        cases move <;> simp_all [Phase.Over, Copy.Enabled, Move.Own, Phase.held]
    · cases move <;> simp_all [Copy.Enabled, Move.Own, Phase.held]

/-- A bound on the moves that the loop can make. -/
def Copy.work (copy : Copy α) : Nat :=
  3 * copy.unread.length +
    match copy.phase with
    | .reading => 1
    | .writing chunk => chunk.length + 2
    | _ => 0

/-! ## A move -/

variable [DecidableEq α]

/-- A move; one that cannot be made has no effect. -/
def step (move : Move α) (copy : Copy α) : Copy α :=
  if copy.Enabled move then apply copy move else copy

theorem Sound.step {copy : Copy α} (hsound : Sound copy) (move : Move α) :
    Sound (step move copy) := by
  unfold Pump.step
  split
  swap
  · exact hsound
  rename_i henabled
  cases move with
  | put data =>
      refine ⟨hsound.kept, fun hphase => ?_, hsound.held⟩
      -- nothing is put in after the end
      obtain ⟨-, hclosed⟩ := hsound.exhausted hphase
      exact absurd (henabled.symm.trans hclosed) (by decide)
  | close => exact ⟨hsound.kept, fun hphase => ⟨(hsound.exhausted hphase).1, rfl⟩, hsound.held⟩
  | sever => exact ⟨hsound.kept, hsound.exhausted, hsound.held⟩
  | shatter => exact ⟨hsound.kept, hsound.exhausted, hsound.held⟩
  | read count =>
      obtain ⟨hreading, hpositive, hunread⟩ := henabled
      refine ⟨fun _ => hsound.kept (by simp [hreading]), nofun, ?_⟩
      intro chunk hphase
      obtain rfl := Phase.writing.inj hphase
      simp [hunread, Nat.pos_iff_ne_zero.mp hpositive]
  | write count =>
      obtain ⟨hheld, -, -⟩ := henabled
      obtain ⟨chunk, hwriting, -⟩ := held_ne_nil_iff.mp hheld
      refine ⟨fun _ => hsound.kept (by simp [hwriting]), ?_, ?_⟩
      · intro hphase
        simp only [apply, hwriting, Phase.advance] at hphase
        split at hphase <;> cases hphase
      · intro rest hphase
        simp only [apply, hwriting, Phase.advance] at hphase
        split at hphase
        · cases hphase
        · rename_i hlong
          obtain rfl := Phase.writing.inj hphase
          simpa using hlong
  | readEnd =>
      obtain ⟨hreading, hunread, hclosed⟩ := henabled
      exact ⟨fun _ => hsound.kept (by simp [hreading]), fun _ => ⟨hunread, hclosed⟩, nofun⟩
  | readFails => exact ⟨fun hphase => absurd rfl hphase, nofun, nofun⟩
  | writeFails => exact ⟨fun hphase => absurd rfl hphase, nofun, nofun⟩

/-- Moving data through the loop keeps it, in its order. -/
theorem sent_step {copy : Copy α} (hsound : Sound copy) (move : Move α) :
    (step move copy).sent = copy.sent ++ copy.taken move := by
  unfold Pump.step
  split
  swap
  · rename_i hdisabled
    cases move <;> simp_all [Copy.taken, Copy.Enabled]
  rename_i henabled
  cases move with
  | put data => simp [apply, Copy.sent, Copy.taken, show copy.closed = false from henabled]
  | close => simp [apply, Copy.sent, Copy.taken]
  | sever => simp [apply, Copy.sent, Copy.taken]
  | shatter => simp [apply, Copy.sent, Copy.taken]
  | read count =>
      obtain ⟨hreading, -, -⟩ := henabled
      simp [apply, Copy.sent, Copy.taken, hreading, Phase.held]
  | write count =>
      obtain ⟨hheld, -, -⟩ := henabled
      obtain ⟨chunk, hwriting, -⟩ := held_ne_nil_iff.mp hheld
      have hlost := hsound.kept (by simp [hwriting])
      calc (apply copy (.write count)).sent
        _ = copy.delivered ++ (copy.phase.held.take count ++ copy.phase.held.drop count) ++
            copy.unread := by simp [apply, Copy.sent, hlost]
        _ = copy.sent ++ copy.taken (.write count) := by
            simp [Copy.sent, Copy.taken, hlost, List.take_append_drop]
  | readEnd =>
      obtain ⟨hreading, -, -⟩ := henabled
      simp [apply, Copy.sent, Copy.taken, hreading, Phase.held]
  | readFails =>
      obtain ⟨hreading, -⟩ := henabled
      simp [apply, Copy.sent, Copy.taken, hreading, Phase.held]
  | writeFails => simp [apply, Copy.sent, Copy.taken, Phase.held]

/-- Every move of the loop makes progress. -/
theorem work_lt {copy : Copy α} {move : Move α} (hown : move.Own) (henabled : copy.Enabled move) :
    (step move copy).work < copy.work := by
  rw [Pump.step, if_pos henabled]
  cases move with
  | put data => cases hown
  | close => cases hown
  | sever => cases hown
  | shatter => cases hown
  | read count =>
      -- three for every item that is read, of which one stays with the chunk
      obtain ⟨hreading, hpositive, hunread⟩ := henabled
      have hlength := List.length_pos_iff.mpr hunread
      simp only [Copy.work, apply, hreading, List.length_drop, List.length_take]
      omega
  | write count =>
      obtain ⟨hheld, hpositive, -⟩ := henabled
      obtain ⟨chunk, hwriting, hchunk⟩ := held_ne_nil_iff.mp hheld
      have hlength := List.length_pos_iff.mpr hchunk
      by_cases hshort : chunk.length ≤ count
      · simp only [Copy.work, apply, hwriting, Phase.advance, if_pos hshort]
        omega
      · simp only [Copy.work, apply, hwriting, Phase.advance, if_neg hshort, List.length_drop]
        omega
  | readEnd =>
      obtain ⟨hreading, -, -⟩ := henabled
      simp [Copy.work, apply, hreading]
  | readFails =>
      obtain ⟨hreading, -⟩ := henabled
      simp [Copy.work, apply, hreading]
  | writeFails =>
      obtain ⟨hheld, -⟩ := henabled
      obtain ⟨chunk, hwriting, -⟩ := held_ne_nil_iff.mp hheld
      simp [Copy.work, apply, hwriting]

/-- A loop that is over stays over. -/
theorem over_step {copy : Copy α} (hover : copy.phase.Over) (move : Move α) :
    (step move copy).phase = copy.phase := by
  unfold step
  split
  swap
  · rfl
  rename_i henabled
  cases hphase : copy.phase <;> rw [hphase] at hover <;>
    cases move <;> simp_all [Phase.Over, Copy.Enabled, Phase.held, apply]

/-! ## Runs -/

theorem Sound.exec {copy : Copy α} (hsound : Sound copy) (moves : List (Move α)) :
    Sound (Runs.exec Pump.step moves copy) := by
  have halong : Runs.Along Pump.step (fun _ _ => True) moves copy :=
    Runs.along_of_forall fun _ _ _ => trivial
  exact Runs.exec_along (fun _ move _ hcopy => hcopy.step move) halong hsound

theorem closed_step (copy : Copy α) (move : Move α) :
    (step move copy).closed = (copy.closed || decide (move = .close)) := by
  unfold step
  split
  · cases move <;> simp [apply]
  · rename_i hdisabled
    cases move with
    | close => exact absurd trivial hdisabled
    | _ => simp

theorem closed_exec (moves : List (Move α)) (copy : Copy α) :
    (Runs.exec step moves copy).closed = true ↔ copy.closed = true ∨ .close ∈ moves := by
  induction moves generalizing copy with
  | nil => simp [Runs.exec]
  | cons move rest ih =>
      rw [show Runs.exec step (move :: rest) copy = Runs.exec step rest (step move copy) from rfl,
        ih, closed_step, Bool.or_eq_true, decide_eq_true_iff, List.mem_cons, or_assoc,
        eq_comm (a := move)]

theorem taken_append (copy : Copy α) (move : Move α) (rest : List (Move α)) :
    copy.taken move ++ (if (step move copy).closed then [] else put rest) =
      if copy.closed then [] else put (move :: rest) := by
  rw [closed_step]
  cases hclosed : copy.closed <;> cases move <;> simp [Copy.taken, put, hclosed]

/-- A run keeps all that is put in, in its order. -/
theorem sent_exec {copy : Copy α} (hsound : Sound copy) (moves : List (Move α)) :
    (Runs.exec step moves copy).sent = copy.sent ++ if copy.closed then [] else put moves := by
  induction moves generalizing copy with
  | nil => simp [Runs.exec, put]
  | cons move rest ih =>
      calc (Runs.exec step (move :: rest) copy).sent
        _ = (step move copy).sent ++ if (step move copy).closed then [] else put rest :=
            ih (hsound.step move)
        _ = copy.sent ++ (copy.taken move ++
              if (step move copy).closed then [] else put rest) := by
            rw [sent_step hsound move, List.append_assoc]
        _ = copy.sent ++ if copy.closed then [] else put (move :: rest) := by
            rw [taken_append]

/-- A loop delivers the front of what is put in, and all of it if it finishes. -/
theorem delivered_exec (moves : List (Move α)) :
    (Runs.exec step moves .start).delivered <+: put moves ∧
      ((Runs.exec step moves .start).phase = .finished →
        (Runs.exec step moves .start).delivered = put moves) := by
  have hsent := sent_exec Sound.start moves
  have hempty : (Copy.start : Copy α).sent = [] := rfl
  rw [hempty, List.nil_append, if_neg (by simp [Copy.start])] at hsent
  constructor
  · rw [← hsent]
    exact delivered_prefix _
  · intro hphase
    rw [← hsent]
    exact (Sound.start.exec moves).delivered_of_finished hphase

/-- Neither end of the loop closes or is gone. -/
def Move.Steady (move : Move α) : Prop := move ≠ .close ∧ move ≠ .sever ∧ move ≠ .shatter

/-- Both ends are there, and the loop is not over. -/
structure Copy.Steady (copy : Copy α) : Prop where
  closed : copy.closed = false
  severed : copy.severed = false
  broken : copy.broken = false
  unfinished : ¬ copy.phase.Over

theorem Copy.Steady.step {copy : Copy α} (hcopy : copy.Steady) {move : Move α}
    (hmove : move.Steady) : (Pump.step move copy).Steady := by
  unfold Pump.step
  split
  swap
  · exact hcopy
  rename_i henabled
  obtain ⟨hclosed, hsevered, hbroken, hover⟩ := hcopy
  cases move with
  | put data => exact ⟨hclosed, hsevered, hbroken, hover⟩
  | close => exact absurd rfl hmove.1
  | sever => exact absurd rfl hmove.2.1
  | shatter => exact absurd rfl hmove.2.2
  | read count => exact ⟨hclosed, hsevered, hbroken, id⟩
  | write count =>
      obtain ⟨hheld, -, -⟩ := henabled
      obtain ⟨chunk, hwriting, -⟩ := held_ne_nil_iff.mp hheld
      refine ⟨hclosed, hsevered, hbroken, ?_⟩
      simp only [apply, hwriting, Phase.advance]
      split <;> exact id
  | readEnd => exact absurd (henabled.2.2.symm.trans hclosed) (by decide)
  | readFails => exact absurd (henabled.2.symm.trans hsevered) (by decide)
  | writeFails => exact absurd (henabled.2.symm.trans hbroken) (by decide)

/-- Between such ends the loop never ends. -/
theorem not_over_exec {moves : List (Move α)} (hsteady : ∀ move ∈ moves, move.Steady) :
    ¬ (Runs.exec step moves .start).phase.Over := by
  have halong : Runs.Along step (fun _ move => Move.Steady move) moves (.start : Copy α) :=
    Runs.along_of_forall fun move hmove _ => hsteady move hmove
  have hstart : (.start : Copy α).Steady := ⟨rfl, rfl, rfl, id⟩
  exact (Runs.exec_along (P := Copy.Steady) (fun _ _ hmove hcopy => hcopy.step hmove) halong
    hstart).unfinished

/-- No end is gone, and the loop has not failed. -/
structure Copy.Intact (copy : Copy α) : Prop where
  severed : copy.severed = false
  broken : copy.broken = false
  phase : copy.phase ≠ .failed

theorem Copy.Intact.step {copy : Copy α} (hcopy : copy.Intact) {move : Move α}
    (hmove : move ≠ .sever ∧ move ≠ .shatter) : (Pump.step move copy).Intact := by
  unfold Pump.step
  split
  swap
  · exact hcopy
  rename_i henabled
  obtain ⟨hsevered, hbroken, hphase⟩ := hcopy
  cases move with
  | put data => exact ⟨hsevered, hbroken, hphase⟩
  | close => exact ⟨hsevered, hbroken, hphase⟩
  | sever => exact absurd rfl hmove.1
  | shatter => exact absurd rfl hmove.2
  | read count => exact ⟨hsevered, hbroken, by simp [apply]⟩
  | write count =>
      obtain ⟨hheld, -, -⟩ := henabled
      obtain ⟨chunk, hwriting, -⟩ := held_ne_nil_iff.mp hheld
      refine ⟨hsevered, hbroken, ?_⟩
      simp only [apply, hwriting, Phase.advance]
      split <;> simp
  | readEnd => exact ⟨hsevered, hbroken, by simp [apply]⟩
  | readFails => exact absurd (henabled.2.symm.trans hsevered) (by decide)
  | writeFails => exact absurd (henabled.2.symm.trans hbroken) (by decide)

/-- If the source is closed and no end is gone, a loop that rests has delivered everything. -/
theorem drained_exec (moves : List (Move α)) (hclose : .close ∈ moves)
    (hwhole : ∀ move ∈ moves, move ≠ .sever ∧ move ≠ .shatter) :
    ¬ (Runs.exec step moves (.start : Copy α)).Waits ∧
      ((Runs.exec step moves .start).phase.Over →
        (Runs.exec step moves .start).delivered = put moves) := by
  have hclosed : (Runs.exec step moves (.start : Copy α)).closed = true :=
    (closed_exec moves .start).mpr (.inr hclose)
  have halong : Runs.Along step (fun _ move => move ≠ .sever ∧ move ≠ .shatter) moves
      (.start : Copy α) := Runs.along_of_forall fun move hmove _ => hwhole move hmove
  have hstart : (.start : Copy α).Intact := ⟨rfl, rfl, by simp [Copy.start]⟩
  have hintact := Runs.exec_along (P := Copy.Intact) (fun _ _ hmove hcopy => hcopy.step hmove)
    halong hstart
  constructor
  · intro hwaits
    exact absurd (hclosed.symm.trans hwaits.2.2.1) (by decide)
  · intro hover
    refine (delivered_exec moves).2 ?_
    cases hphase : (Runs.exec step moves (.start : Copy α)).phase with
    | finished => rfl
    | failed => exact absurd hphase hintact.phase
    | reading =>
        rw [hphase] at hover
        cases hover
    | writing chunk =>
        rw [hphase] at hover
        cases hover

/-- Nothing is written to an end that is gone. -/
theorem broken_step {copy : Copy α} (hbroken : copy.broken = true) (move : Move α) :
    (step move copy).delivered = copy.delivered ∧ (step move copy).broken = true := by
  unfold Pump.step
  split
  swap
  · exact ⟨rfl, hbroken⟩
  rename_i henabled
  cases move with
  | write count => exact absurd (henabled.2.2.symm.trans hbroken) (by decide)
  | shatter => exact ⟨rfl, rfl⟩
  | _ => exact ⟨rfl, hbroken⟩

end Pump
