import Tolla.Engine.Steps

/-!
# The life of a tenant

What `onboard_user` and `deboard_user` guarantee when backend calls fail in the
middle.

* Between two successful onboardings of a user there is a successful deboarding.
  Neither of the two existence checks of `onboard_user` carries this: the
  container list reports `/id` where the check compares with `id`, and the view
  check reads the collection `views`, which nothing writes.  What carries it is
  the row in `view`: a successful onboarding inserts it, so there is none
  before, and only the last step of `deboard_user` deletes it.
* `deboard_user` starts with the container and ends at the first error.  A user
  without a container can therefore not be deboarded, whatever rows there are.
* A failed `onboard_user` never leaves a row in `consents`, but from the moment
  the container is created nothing is undone.
-/

namespace Tolla

open Effects Keyed

variable {env : Env} {request : Request} {id : String} {world : World} {service : Service}
  {input : Env × Request}

/-! ## The rows of `view` -/

theorem onboardUser_view (env : Env) (id : String) (purposes : List String) (world : World) :
    (ConsentEngine.onboardUser env id purposes world).2.view = world.view ∨
      ∃ ip, world.view.insert { id := id, ip := ip } =
        some (ConsentEngine.onboardUser env id purposes world).2.view := by
  rcases hrun : ConsentEngine.onboardUser env id purposes world with ⟨outcome, after⟩
  cases onboardUser_spec hrun with
  | refused hpasses => exact .inl rfl
  | uncreated hpasses hcreates => exact .inl rfl
  | stranded hcreates hcreated hplaced hwhy => exact .inl rfl
  | unrecorded hcreates hcreated hlaunched hview hwhy => exact .inr ⟨_, hview⟩
  | done hcreates hcreated hlaunched hview hconsents => exact .inr ⟨_, hview⟩

theorem deboardUser_view (env : Env) (id : String) (world : World) :
    (ConsentEngine.deboardUser env id world).2.view = world.view ∨
      (ConsentEngine.deboardUser env id world).1 = .ok () ∧
        (ConsentEngine.deboardUser env id world).2.view = world.view.delete id := by
  rcases hrun : ConsentEngine.deboardUser env id world with ⟨outcome, after⟩
  cases deboardUser_spec hrun with
  | refused hremove => exact .inl rfl
  | consentsKept hfault hname => exact .inl rfl
  | viewKept hfault hname => exact .inl rfl
  | done hname => exact .inr ⟨rfl, rfl⟩

/-- A row of `view` stays until its user is deboarded. -/
theorem view_kept_step (hnot : ¬ DeboardOk id service input)
    (hkey : service.world.view.HasKey id) : (step input service).world.view.HasKey id := by
  cases hpoisoned : service.poisoned with
  | true => rwa [step_of_poisoned hpoisoned]
  | false =>
  obtain ⟨env, request⟩ := input
  have hstep : Step env request service.world (step (env, request) service).world :=
    serve_step env request service
  generalize (step (env, request) service).world = after at hstep ⊢
  cases hstep with
  | idle => exact hkey
  | onboard hrequest =>
      rename_i other purposes
      rcases onboardUser_view env other purposes service.world with hsame | ⟨ip, hinsert⟩
      · rwa [hsame]
      · exact (Table.hasKey_of_insert hinsert).mpr (.inl hkey)
  | deboard hrequest =>
      rename_i other
      rcases deboardUser_view env other service.world with hsame | ⟨hok, hdelete⟩
      · rwa [hsame]
      · rw [hdelete, Table.hasKey_delete]
        refine ⟨hkey, ?_⟩
        rintro rfl
        exact hnot ⟨hpoisoned, hrequest, hok⟩
  | consent hinsert => exact hkey
  | intent hinsert => exact hkey

/-- A successful onboarding finds no row for its user and leaves one. -/
theorem OnboardOk.view (honboard : OnboardOk id service input) :
    ¬ service.world.view.HasKey id ∧ (step input service).world.view.HasKey id := by
  obtain ⟨purposes, hspec⟩ := honboard.spec
  generalize (step input service).world = after at hspec ⊢
  cases hspec with
  | done hcreates hcreated hlaunched hview hconsents =>
      exact ⟨(Table.insert_eq_some_iff.mp hview).1, (Table.hasKey_of_insert hview).mpr (.inr rfl)⟩

/-- Between two successful onboardings of a user there is a successful
deboarding. -/
theorem deboard_between {before middle : List (Env × Request)} {first second : Env × Request}
    (hfirst : OnboardOk id (run before service) first)
    (hsecond : OnboardOk id (run (before ++ first :: middle) service) second) :
    ∃ earlier deboard later, middle = earlier ++ deboard :: later ∧
      DeboardOk id (run (before ++ first :: earlier) service) deboard := by
  -- otherwise the row of the first onboarding would still be there at the second
  have hbroken : ¬ Runs.Along step (fun state input => ¬ DeboardOk id state input) middle
      (step first (run before service)) := by
    intro halong
    have hkept : (run middle (step first (run before service))).world.view.HasKey id :=
      Runs.exec_along (P := fun state => state.world.view.HasKey id)
        (fun _ _ => view_kept_step) halong hfirst.view.2
    rw [run_append_cons] at hsecond
    exact hsecond.view.1 hkept
  obtain ⟨earlier, deboard, later, hmiddle, hdeboard⟩ := Runs.exists_of_not_along hbroken
  refine ⟨earlier, deboard, later, hmiddle, ?_⟩
  rw [run_append_cons]
  exact Classical.not_not.mp hdeboard

/-- Alice is onboarded over HTTP, removed, and onboarded again over TCP. -/
theorem deboard_between_alice :
    ∃ earlier deboard later,
      [(Env.calm 0, Request.query none), (Env.calm 0, .remove (some "alice"))] =
        earlier ++ deboard :: later ∧
      DeboardOk "alice"
        (run ([] ++ (Env.calm 7, .register (.ok ⟨"alice", ["research"]⟩)) :: earlier)
          Service.blank) deboard := by
  have hfirst : OnboardOk "alice" (run [] Service.blank)
      (Env.calm 7, .register (.ok ⟨"alice", ["research"]⟩)) := ⟨rfl, ["research"], rfl, by decide⟩
  have hsecond : OnboardOk "alice"
      (run ([] ++ (Env.calm 7, .register (.ok ⟨"alice", ["research"]⟩)) ::
        [(Env.calm 0, Request.query none), (Env.calm 0, .remove (some "alice"))]) Service.blank)
      (Env.calm 8, .message ⟨some (.user ⟨"alice", "alice@example.org"⟩)⟩) :=
    ⟨by decide, ["static"], rfl, by decide⟩
  exact deboard_between hfirst hsecond

/-! ## Withdrawal -/

theorem byName_eq_some_iff {containers : Table Container.name} {reference name : String} :
    byName containers.rows reference = some name ↔ name = reference ∧ containers.HasKey name := by
  unfold byName
  rw [show (containers.rows.find? fun container => container.name = reference) =
    containers.find? reference from rfl, Option.map_eq_some_iff]
  constructor
  · rintro ⟨container, hfind, rfl⟩
    obtain ⟨hmem, hname⟩ := Table.find?_eq_some_iff.mp hfind
    exact ⟨hname, .of_mem hmem⟩
  · rintro ⟨rfl, container, hmem, hname⟩
    exact ⟨container, Table.find?_eq_some_iff.mpr ⟨hmem, hname⟩, hname⟩

@[simp] theorem hasKey_started {containers : Table Container.name} {name other : String} :
    (StoreManager.started containers name).HasKey other ↔ containers.HasKey other :=
  Table.hasKey_update

/-- Started or not, the new container is there, and no other name. -/
theorem Placed.names {created containers : Table Container.name}
    (hcreated : world.containers.insert (tenant env id) = some created)
    (hplaced : Placed env id created containers) (name : String) :
    containers.HasKey name ↔ world.containers.HasKey name ∨ name = id := by
  rw [hplaced.hasKey, Table.hasKey_of_insert hcreated, eq_comm]
  rfl

/-- The containers with other names are as they were. -/
theorem Placed.rest {created containers : Table Container.name}
    (hcreated : world.containers.insert (tenant env id) = some created)
    (hplaced : Placed env id created containers) (hfinds : env.Finds id) (container : Container)
    (hother : container.name ≠ id) : container ∈ containers ↔ container ∈ world.containers := by
  have hkey : created.HasKey id := (Table.hasKey_of_insert hcreated).mpr (.inr rfl)
  rw [hplaced.others hfinds hkey hother, Table.mem_of_insert hcreated]
  refine or_iff_left ?_
  rintro rfl
  exact hother rfl

/-- What a failed `onboard_user` leaves behind.  Up to the creation of the
container nothing but files; after it the container, and also the row of `view`
if the row of `consents` was rejected.  The other containers are as they were, if
the daemon finds the new one by its name. -/
theorem onboardUser_err {purposes : List String} {error : String} {after : World}
    (hrun : ConsentEngine.onboardUser env id purposes world = (.err error, after)) :
    after.consents = world.consents ∧
    ((after.view = world.view ∧ after.containers = world.containers) ↔ ¬ Creates env id world) ∧
    (Creates env id world →
      (∀ name, after.containers.HasKey name ↔ world.containers.HasKey name ∨ name = id) ∧
      (env.Finds id → ∀ container, container.name ≠ id →
        (container ∈ after.containers ↔ container ∈ world.containers)) ∧
      (after.view = world.view ∨
        Rejects env Handle.consents world id ∧
          ∃ ip, world.view.insert { id := id, ip := ip } = some after.view)) := by
  cases onboardUser_spec hrun with
  | refused hpasses =>
      have hcreates : ¬ Creates env id world := fun hcreates => hpasses hcreates.1
      exact ⟨rfl, by simp [hcreates], fun h => absurd h hcreates⟩
  | uncreated hpasses hcreates => exact ⟨rfl, by simp [hcreates], fun h => absurd h hcreates⟩
  | stranded hcreates hcreated hplaced hwhy =>
      have hnames := hplaced.names hcreated
      refine ⟨rfl, ?_, fun _ => ⟨hnames, hplaced.rest hcreated, .inl rfl⟩⟩
      refine iff_of_false (fun hsame => ?_) (not_not_intro hcreates)
      exact hcreates.2.2.2.2 (hsame.2 ▸ (hnames id).mpr (.inr rfl))
  | unrecorded hcreates hcreated hlaunched hview hwhy =>
      rename_i ip created containers view
      have hplaced := hlaunched.placed
      refine ⟨rfl, ?_, fun _ => ⟨hplaced.names hcreated, hplaced.rest hcreated,
        .inr ⟨hwhy, ip, hview⟩⟩⟩
      refine iff_of_false (fun hsame => ?_) (not_not_intro hcreates)
      apply (Table.insert_eq_some_iff.mp hview).1
      rw [← hsame.1]
      exact (Table.hasKey_of_insert hview).mpr (.inr rfl)

/-- The daemon cannot start a container. -/
def Env.unstarted : Env :=
  { Env.calm 7 with fault := fun name => if name = .startContainer then some "no space" else none }

/-- `onboard_user` fails when the new container cannot be started, and the
container stays. -/
theorem onboardUser_not_atomic :
    ¬ ∀ (service : Service), service.Initial → ∀ (inputs : List (Env × Request)) (env : Env)
      (id : String) (purposes : List String) (error : String) (after : World),
      ConsentEngine.onboardUser env id purposes (run inputs service).world = (.err error, after) →
      after.consents = (run inputs service).world.consents ∧
      after.view = (run inputs service).world.view ∧
      after.containers = (run inputs service).world.containers := by
  intro hall
  obtain ⟨-, -, hcontainers⟩ := hall Service.blank Service.blank_initial [] Env.unstarted
    "alice" ["research"] "no space" _ rfl
  exact absurd (congrArg (fun table => table.rows.length) hcontainers) (by decide)

theorem onboardUser_err_unstarted :
    (ConsentEngine.onboardUser Env.unstarted "alice" ["research"] Service.blank.world).1 =
        .err "no space" ∧
      (ConsentEngine.onboardUser Env.unstarted "alice" ["research"]
        Service.blank.world).2.consents = Service.blank.world.consents := by
  have herr : (ConsentEngine.onboardUser Env.unstarted "alice" ["research"]
      Service.blank.world).1 = .err "no space" := by decide
  exact ⟨herr, (onboardUser_err (Prod.ext herr rfl)).1⟩

end Tolla
