import Tolla.Engine.Steps

/-!
# The recorded consents

Two facts about the collection `consents` over whole runs.

* A row stays as it is until a `deboard_user` call removes it.  Insertions never
  touch an existing row, because `_id` is unique, and deletions go by `_id`.
* The serial number is meant to lead from a certificate to one row, but nothing
  in the store enforces that: `Msg::Consent` records the serial number 0 every
  time, and the number drawn for a new tenant is not compared with those in use.
  `serials_identify` is what remains: as long as every row comes with a new
  serial number, a serial number leads to the row of its user and to no other.

Both rest on `Step.consents`, the list of what a request can do to the
collection.
-/

namespace Tolla

open Effects Keyed

variable {env : Env} {request : Request} {world after : World}

/-- The row that the request wants to be recorded, with the serial number drawn
for it. -/
def Request.records (env : Env) : Request → Option Consent
  | .message ⟨some (.consent c)⟩ => some { serialNumber := 0, id := c.id, purpose := c.purpose }
  | request => request.onboards.map fun call =>
      { id := call.1, serialNumber := env.serial.toInt32, purpose := call.2 }

theorem Request.records_of_onboards {id : String} {purposes : List String}
    (hrequest : request.onboards = some (id, purposes)) :
    request.records env =
      some { id := id, serialNumber := env.serial.toInt32, purpose := purposes } := by
  unfold Request.records
  split
  · simp [Request.onboards] at hrequest
  · simp [hrequest]

theorem onboardUser_consents (env : Env) (id : String) (purposes : List String) (world : World) :
    (ConsentEngine.onboardUser env id purposes world).2.consents = world.consents ∨
      world.consents.insert
          { id := id, serialNumber := env.serial.toInt32, purpose := purposes } =
        some (ConsentEngine.onboardUser env id purposes world).2.consents := by
  rcases hrun : ConsentEngine.onboardUser env id purposes world with ⟨outcome, after⟩
  cases onboardUser_spec hrun with
  | refused hpasses => exact .inl rfl
  | uncreated hpasses hcreates => exact .inl rfl
  | stranded hcreates hcreated hplaced hwhy => exact .inl rfl
  | unrecorded hcreates hcreated hlaunched hview hwhy => exact .inl rfl
  | done hcreates hcreated hlaunched hview hconsents => exact .inr hconsents

/-- What a request does to the collection: nothing, an insertion of the row it
records, or what `deboard_user` does. -/
theorem Step.consents (hstep : Step env request world after) :
    after.consents = world.consents ∨
    (∃ row, request.records env = some row ∧ world.consents.insert row = some after.consents) ∨
    ∃ id, request.deboards = some id ∧
      after.consents = (ConsentEngine.deboardUser env id world).2.consents := by
  cases hstep with
  | idle => exact .inl rfl
  | onboard hrequest =>
      rename_i id purposes
      rcases onboardUser_consents env id purposes world with hsame | hinsert
      · exact .inl hsame
      · exact .inr (.inl ⟨_, Request.records_of_onboards hrequest, hinsert⟩)
  | deboard hrequest => exact .inr (.inr ⟨_, hrequest, rfl⟩)
  | consent hinsert => exact .inr (.inl ⟨_, rfl, hinsert⟩)
  | intent hinsert => exact .inl rfl

/-! ## Rows stay -/

theorem deboardUser_consents (env : Env) (id : String) (world : World) :
    (ConsentEngine.deboardUser env id world).2.consents = world.consents ∨
      (ConsentEngine.deboardUser env id world).2.consents = world.consents.delete id := by
  rcases hrun : ConsentEngine.deboardUser env id world with ⟨outcome, after⟩
  cases deboardUser_spec hrun with
  | refused hremove => exact .inl rfl
  | consentsKept hfault hname => exact .inl rfl
  | viewKept hfault hname => exact .inr rfl
  | done hname => exact .inr rfl

/-- A row survives every request but the deboarding calls for its own user. -/
theorem Step.row_kept {row : Consent} (hstep : Step env request world after)
    (hrow : row ∈ world.consents)
    (hkept : request.deboards = some row.id →
      row ∈ (ConsentEngine.deboardUser env row.id world).2.consents) :
    row ∈ after.consents := by
  rcases hstep.consents with hsame | ⟨new, -, hinsert⟩ | ⟨id, hrequest, hafter⟩
  · rwa [hsame]
  · exact (Table.mem_of_insert hinsert).mpr (.inl hrow)
  · rw [hafter]
    by_cases hid : id = row.id
    · subst hid
      exact hkept hrequest
    · rcases deboardUser_consents env id world with hsame | hdelete
      · rwa [hsame]
      · rw [hdelete]
        exact Table.mem_delete.mpr ⟨hrow, fun heq => hid heq.symm⟩

/-- A recorded consent stays as it is through every run that does not deboard
its user. -/
theorem consent_kept {service : Service} {inputs : List (Env × Request)} {row : Consent}
    (hrow : row ∈ service.world.consents)
    (hkeep : ∀ input ∈ inputs, input.2.deboards ≠ some row.id) :
    row ∈ (run inputs service).world.consents := by
  have halong : Runs.Along step (fun _ input => input.2.deboards ≠ some row.id) inputs service :=
    Runs.along_of_forall fun input hinput _ => hkeep input hinput
  refine Runs.exec_along (P := fun state => row ∈ state.world.consents) ?_ halong hrow
  intro state input hinput hstate
  exact (serve_step input.1 input.2 state).row_kept hstate fun hdeboards => absurd hdeboards hinput

/-- A request to onboard alice for other purposes, and one to remove bob. -/
theorem consent_kept_alice :
    (⟨"alice", 7, ["research"]⟩ : Consent) ∈
      (run [(Env.calm 9, .register (.ok ⟨"alice", ["marketing"]⟩)),
          (Env.calm 0, .message ⟨some (.consent ⟨"alice", ["marketing"], 0, true, true, true⟩)⟩),
          (Env.calm 0, .remove (some "bob"))]
        (step (Env.calm 7, .register (.ok ⟨"alice", ["research"]⟩)) Service.blank)).world.consents :=
  consent_kept (by decide) (by decide)

/-! ## Serial numbers -/

/-- No two rows carry the same serial number. -/
def SerialsUnique (world : World) : Prop :=
  ∀ first ∈ world.consents, ∀ second ∈ world.consents,
    first.serialNumber = second.serialNumber → first = second

/-- If the request brings a row for a user who has none, then no row carries its
serial number yet.  This is asked also of a request whose row is rejected in the
end, or never inserted because a call before the insertion fails. -/
def BringsFreshSerial (service : Service) (input : Env × Request) : Prop :=
  ∀ row, input.2.records input.1 = some row → ¬ service.world.consents.HasKey row.id →
    ∀ other ∈ service.world.consents, other.serialNumber ≠ row.serialNumber

/-- The request does not deboard the user: it makes no such call, or the call
fails, and not at its last step, when the row is gone already. -/
def LeavesOnboarded (id : String) (service : Service) (input : Env × Request) : Prop :=
  input.2.deboards = some id →
    ¬ DeboardOk id service input ∧ ¬ input.1.Fails (.deleteOne .view)

theorem SerialsUnique.insert {row : Consent} {consents : Table Consent.id}
    (hunique : SerialsUnique world)
    (hinsert : world.consents.insert row = some consents)
    (hfresh : ∀ other ∈ world.consents, other.serialNumber ≠ row.serialNumber) :
    SerialsUnique { world with consents := consents } := by
  intro first hfirst second hsecond hserial
  rcases (Table.mem_of_insert hinsert).mp hfirst with hold | rfl
  · rcases (Table.mem_of_insert hinsert).mp hsecond with hold' | rfl
    · exact hunique first hold second hold' hserial
    · exact absurd hserial (hfresh first hold)
  · rcases (Table.mem_of_insert hinsert).mp hsecond with hold | rfl
    · exact absurd hserial.symm (hfresh second hold)
    · rfl

theorem SerialsUnique.of_subset (hunique : SerialsUnique world)
    (hsubset : ∀ row ∈ after.consents, row ∈ world.consents) : SerialsUnique after :=
  fun first hfirst second hsecond =>
    hunique first (hsubset first hfirst) second (hsubset second hsecond)

theorem serialsUnique_step {service : Service} {input : Env × Request}
    (hfresh : BringsFreshSerial service input) (hunique : SerialsUnique service.world) :
    SerialsUnique (step input service).world := by
  rcases (serve_step input.1 input.2 service).consents with
    hsame | ⟨row, hrecords, hinsert⟩ | ⟨id, -, hafter⟩
  · exact hunique.of_subset fun row hrow => hsame ▸ hrow
  · have habsent := (Table.insert_eq_some_iff.mp hinsert).1
    exact hunique.insert hinsert (hfresh row hrecords habsent)
  · apply hunique.of_subset
    intro row hrow
    rw [show (step input service).world.consents = _ from hafter] at hrow
    rcases deboardUser_consents input.1 id service.world with hsame | hdelete
    · rwa [hsame] at hrow
    · rw [hdelete] at hrow
      exact (Table.mem_delete.mp hrow).1

theorem SerialsUnique.of_initial {service : Service} (hinitial : service.Initial) :
    SerialsUnique service.world := by
  intro first hfirst
  rw [hinitial.world.consents] at hfirst
  exact absurd hfirst (Table.not_mem_empty first)

/-- The row that a successful onboarding leaves behind. -/
theorem OnboardOk.row {id : String} {service : Service} {input : Env × Request}
    (honboard : OnboardOk id service input) :
    ∃ purposes, (⟨id, input.1.serial.toInt32, purposes⟩ : Consent) ∈
      (step input service).world.consents := by
  obtain ⟨purposes, hspec⟩ := honboard.spec
  refine ⟨purposes, ?_⟩
  generalize (step input service).world = after at hspec ⊢
  cases hspec with
  | done hcreates hcreated hlaunched hview hconsents =>
      exact (Table.mem_of_insert hconsents).mpr (.inr rfl)

theorem row_kept_of_leavesOnboarded {id : String} {row : Consent} (hid : row.id = id)
    {service : Service} {input : Env × Request} (hleaves : LeavesOnboarded id service input)
    (hrow : row ∈ service.world.consents) : row ∈ (step input service).world.consents := by
  subst hid
  cases hpoisoned : service.poisoned with
  | true => rwa [step_of_poisoned hpoisoned]
  | false =>
      refine (serve_step input.1 input.2 service).row_kept hrow fun hdeboards => ?_
      obtain ⟨hfailed, hdelete⟩ := hleaves hdeboards
      rcases hrun : ConsentEngine.deboardUser input.1 row.id service.world with ⟨outcome, after⟩
      cases deboardUser_spec hrun with
      | refused hremove => exact hrow
      | consentsKept hfault hname => exact hrow
      -- the row is gone, but such a failure was ruled out
      | viewKept hfault hname => exact absurd ⟨_, hfault⟩ hdelete
      | done hname => exact absurd ⟨hpoisoned, hdeboards, by rw [hrun]⟩ hfailed

/-- A lookup by serial number fails, finds a row that carries the number, or unwinds
because there is none. -/
theorem consentBySerialNum_cases (env : Env) (serialNum : UInt32) (world : World) :
    (∃ error, env.fault (.findOne .consents) = some error ∧
      ConsentEngine.consentBySerialNum env serialNum world = (.err error, world)) ∨
    (env.fault (.findOne .consents) = none ∧
      ((∃ consent ∈ world.consents, consent.serialNumber = serialNum.toInt32 ∧
          ConsentEngine.consentBySerialNum env serialNum world = (.ok consent, world)) ∨
        (∀ consent ∈ world.consents, consent.serialNumber ≠ serialNum.toInt32) ∧
          Action.Panics (ConsentEngine.consentBySerialNum env serialNum) world)) := by
  unfold ConsentEngine.consentBySerialNum
  rcases findOne_cases env Handle.consents
    (fun consent => consent.serialNumber = ConsentEngine.serialKey serialNum) world with
    ⟨error, hfault, heq⟩ | ⟨hworks, found, heq, hsome, hnone⟩
  · exact .inl ⟨error, hfault, Action.bind_of_err heq _⟩
  refine .inr ⟨hworks, ?_⟩
  cases found with
  | none =>
      refine .inr ⟨?_, _, congrArg Prod.fst (Action.bind_of_ok heq _)⟩
      intro consent hconsent hserial
      exact hnone rfl consent hconsent (decide_eq_true hserial)
  | some row =>
      obtain ⟨hrow, hserial⟩ := hsome row rfl
      exact .inl ⟨row, hrow, of_decide_eq_true hserial, Action.bind_of_ok heq _⟩

/-- A consent that is found by a serial number carries it. -/
theorem consentBySerialNum_ok {serialNum : UInt32} {consent : Consent}
    (hfound : (ConsentEngine.consentBySerialNum env serialNum world).1 = .ok consent) :
    consent ∈ world.consents ∧ consent.serialNumber = serialNum.toInt32 := by
  rcases consentBySerialNum_cases env serialNum world with
    ⟨error, -, heq⟩ | ⟨-, ⟨row, hrow, hserial, heq⟩ | ⟨-, message, hpanic⟩⟩
  · rw [heq] at hfound
    cases hfound
  · rw [heq] at hfound
    obtain rfl := Outcome.ok.inj hfound
    exact ⟨hrow, hserial⟩
  · rw [hpanic] at hfound
    cases hfound

/-- In a run in which every new row comes with a new serial number, serial
numbers are unique, and the serial number of an onboarded user leads to that
user's row. -/
theorem serials_identify {service : Service} (hinitial : service.Initial)
    {inputs : List (Env × Request)} (hfresh : Runs.Along step BringsFreshSerial inputs service) :
    SerialsUnique (run inputs service).world ∧
    ∀ before input later id, inputs = before ++ input :: later →
      OnboardOk id (run before service) input →
      Runs.Along step (LeavesOnboarded id) later (run (before ++ [input]) service) →
      ∀ env consent,
        (ConsentEngine.consentBySerialNum env input.1.serial (run inputs service).world).1 =
          .ok consent → consent.id = id := by
  have hunique : SerialsUnique (run inputs service).world :=
    Runs.exec_along (P := fun state => SerialsUnique state.world)
      (fun _ _ => serialsUnique_step) hfresh (.of_initial hinitial)
  refine ⟨hunique, ?_⟩
  intro before input later id hinputs honboard hlater env consent hfound
  obtain ⟨purposes, hrow⟩ := honboard.row
  have hkept : (⟨id, input.1.serial.toInt32, purposes⟩ : Consent) ∈
      (run inputs service).world.consents := by
    rw [run_append_cons before input [] service] at hlater
    rw [hinputs, run_append_cons]
    refine Runs.exec_along (P := fun state => _ ∈ state.world.consents) ?_ hlater hrow
    intro state input hleaves hstate
    exact row_kept_of_leavesOnboarded rfl hleaves hstate
  obtain ⟨hmem, hserial⟩ := consentBySerialNum_ok hfound
  rw [hunique consent hmem _ hkept hserial]

/-- Two consent messages are enough: both rows carry the serial number 0. -/
theorem serials_not_unique :
    ¬ ∀ service : Service, service.Initial → ∀ inputs : List (Env × Request),
      SerialsUnique (run inputs service).world := by
  intro hall
  have hunique := hall Service.blank Service.blank_initial
    [(Env.calm 1, .message ⟨some (.consent ⟨"alice", ["research"], 0, false, false, false⟩)⟩),
      (Env.calm 2, .message ⟨some (.consent ⟨"bob", ["marketing"], 0, false, false, false⟩)⟩)]
  have heq := hunique ⟨"alice", 0, ["research"]⟩ (by decide) ⟨"bob", 0, ["marketing"]⟩ (by decide)
    rfl
  exact absurd heq (by decide)

/-- Alice and bob are onboarded with different serial numbers, then alice's is
looked up. -/
theorem serials_identify_alice :
    SerialsUnique (run
      [(Env.calm 7, .register (.ok ⟨"alice", ["research"]⟩)),
        (Env.calm 8, .register (.ok ⟨"bob", ["marketing"]⟩))] Service.blank).world ∧
    ∀ env consent, (ConsentEngine.consentBySerialNum env 7 (run
      [(Env.calm 7, .register (.ok ⟨"alice", ["research"]⟩)),
        (Env.calm 8, .register (.ok ⟨"bob", ["marketing"]⟩))] Service.blank).world).1 =
          .ok consent → consent.id = "alice" := by
  have hfresh : Runs.Along step BringsFreshSerial
      [(Env.calm 7, .register (.ok ⟨"alice", ["research"]⟩)),
        (Env.calm 8, .register (.ok ⟨"bob", ["marketing"]⟩))] Service.blank := by
    refine ⟨?_, ?_, trivial⟩
    · intro row hrow _
      obtain rfl := Option.some.inj hrow
      decide
    · intro row hrow _
      obtain rfl := Option.some.inj hrow
      decide
  obtain ⟨hunique, hidentify⟩ := serials_identify Service.blank_initial hfresh
  refine ⟨hunique, ?_⟩
  have honboard : OnboardOk "alice" Service.blank
      (Env.calm 7, .register (.ok ⟨"alice", ["research"]⟩)) :=
    ⟨rfl, ["research"], rfl, by decide⟩
  refine hidentify [] (Env.calm 7, .register (.ok ⟨"alice", ["research"]⟩))
    [(Env.calm 8, .register (.ok ⟨"bob", ["marketing"]⟩))] "alice" rfl honboard ?_
  exact ⟨fun hdeboards => absurd hdeboards (by decide), trivial⟩

end Tolla
