import Tolla.Engine.Reonboarding

/-!
# Which container is removed

`deboard_user` hands the string that it is given to the daemon, as a reference to
a container, and only then looks at the rows of the user.  The daemon takes a
reference for the full identifier of a container, for a name, or for the
beginning of an identifier, and knows all containers of the host: those of the
engine, the engine itself and its database.

So more can go than the tenant that was meant.  `touchesOwn_iff` says when it
does not: when the string stands for no container, or is the name of an onboarded
user and stands for the container of that name.  That this container is one that
the engine created needs no check; it is an invariant of the run
(`CurrentlyOnboarded.owned`), because a name that is taken stays with its
container.
-/

namespace Tolla

open Effects Keyed

variable {env : Env} {request : Request} {id : String} {world after : World} {service : Service}
  {input : Env × Request} {inputs : List (Env × Request)}

/-! ## References -/

/-- The container that a reference stands for: the one with that identifier, else the
one with that name, else the only one whose identifier begins with it. -/
def byReference (containers : List Container) (reference : String) : Option String :=
  match containers.find? fun container => container.containerId = reference with
  | some container => some container.name
  | none =>
  match byName containers reference with
  | some name => some name
  | none =>
  match containers.filter fun container =>
      reference ≠ "" ∧ reference.toList.isPrefixOf container.containerId.toList with
  | [container] => some container.name
  | _ => none

/-- A reference stands for a container that is there. -/
theorem exists_of_byReference {containers : List Container} {reference name : String}
    (hname : byReference containers reference = some name) :
    ∃ container ∈ containers, container.name = name := by
  unfold byReference at hname
  split at hname
  · rename_i container hfind
    exact ⟨container, List.mem_of_find?_eq_some hfind, Option.some.inj hname⟩
  split at hname
  · rename_i found hfind
    obtain rfl := Option.some.inj hname
    obtain ⟨container, hcontainer, rfl⟩ := Option.map_eq_some_iff.mp hfind
    exact ⟨container, List.mem_of_find?_eq_some hcontainer, rfl⟩
  split at hname
  · rename_i container hfilter
    have hmem := List.mem_of_mem_filter (hfilter.symm ▸ List.mem_singleton_self container)
    exact ⟨container, hmem, Option.some.inj hname⟩
  · cases hname

/-! ## The containers of the engine -/

/-- Every container is the engine's or was there before. -/
def Inherits (before after : World) : Prop :=
  ∀ container ∈ after.containers, container.ofEngine = true ∨
    ∃ old ∈ before.containers, old.name = container.name ∧ old.ofEngine = container.ofEngine

theorem Inherits.of_subset (hsubset : ∀ container ∈ after.containers,
    container ∈ world.containers) : Inherits world after :=
  fun container hcontainer => .inr ⟨container, hsubset container hcontainer, rfl, rfl⟩

theorem Inherits.of_created {created : Table Container.name}
    (hcreated : world.containers.insert (tenant env id) = some created)
    (hplaced : Placed env id created after.containers) : Inherits world after := by
  have hold : ∀ container ∈ created, container.ofEngine = true ∨ container ∈ world.containers := by
    intro container hcontainer
    rcases (Table.mem_of_insert hcreated).mp hcontainer with hold | rfl
    · exact .inr hold
    · exact .inl rfl
  intro container hcontainer
  -- starting a container changes neither its name nor whose it is
  obtain ⟨old, hmem, hname, howner⟩ : ∃ old ∈ created, old.name = container.name ∧
      old.ofEngine = container.ofEngine := by
    obtain ⟨old, hmem, rfl | rfl⟩ := hplaced.mem_cases hcontainer
    · exact ⟨container, hmem, rfl, rfl⟩
    · exact ⟨old, hmem, rfl, rfl⟩
  rcases hold old hmem with hengine | hbefore
  · exact .inl (howner ▸ hengine)
  · exact .inr ⟨old, hbefore, hname, howner⟩

theorem Inherits.onboardUser (env : Env) (id : String) (purposes : List String) (world : World) :
    Inherits world (ConsentEngine.onboardUser env id purposes world).2 := by
  rcases hrun : ConsentEngine.onboardUser env id purposes world with ⟨outcome, after⟩
  cases onboardUser_spec hrun with
  | refused hpasses => exact .of_subset fun _ hcontainer => hcontainer
  | uncreated hpasses hcreates => exact .of_subset fun _ hcontainer => hcontainer
  | stranded hcreates hcreated hplaced hwhy => exact .of_created hcreated hplaced
  | unrecorded hcreates hcreated hlaunched hview hwhy =>
      exact .of_created hcreated hlaunched.placed
  | done hcreates hcreated hlaunched hview hconsents =>
      exact .of_created hcreated hlaunched.placed

theorem Step.inherits (hstep : Step env request world after) : Inherits world after := by
  cases hstep with
  | idle => exact .of_subset fun _ hcontainer => hcontainer
  | onboard hrequest => exact .onboardUser _ _ _ _
  | deboard hrequest =>
      rename_i id
      rcases hrun : ConsentEngine.deboardUser env id world with ⟨outcome, after⟩
      cases deboardUser_spec hrun with
      | refused hremove => exact .of_subset fun _ hcontainer => hcontainer
      | _ => exact .of_subset fun _ hcontainer => (Table.mem_delete.mp hcontainer).1
  | consent hinsert => exact .of_subset fun _ hcontainer => hcontainer
  | intent hinsert => exact .of_subset fun _ hcontainer => hcontainer

/-- A container with the name of the user is one that the engine created. -/
def Owned (id : String) (world : World) : Prop :=
  ∀ container ∈ world.containers, container.name = id → container.ofEngine = true

theorem Owned.step (howned : Owned id service.world) (input : Env × Request) :
    Owned id (step input service).world := by
  intro container hcontainer hname
  rcases (serve_step input.1 input.2 service).inherits container hcontainer with
    hengine | ⟨old, hold, hsame, howner⟩
  · exact hengine
  · rw [← howner]
    exact howned old hold (hsame.trans hname)

theorem OnboardOk.owned (honboard : OnboardOk id service input) :
    Owned id (step input service).world := by
  have hinherits : Inherits service.world (step input service).world :=
    (serve_step input.1 input.2 service).inherits
  obtain ⟨purposes, hspec⟩ := honboard.spec
  generalize (step input service).world = after at hspec hinherits ⊢
  -- before, no container had the name
  have hfree : ¬ service.world.containers.HasKey id := by
    cases hspec with
    | done hcreates hcreated hlaunched hview hconsents => exact hcreates.2.2.2.2
  intro container hcontainer hname
  rcases hinherits container hcontainer with hengine | ⟨old, hold, hsame, -⟩
  · exact hengine
  · exact absurd ⟨old, hold, hsame.trans hname⟩ hfree

theorem CurrentlyOnboarded.owned (hcurrent : CurrentlyOnboarded id inputs service) :
    Owned id (run inputs service).world := by
  obtain ⟨before, input, later, rfl, honboard, hlater⟩ := hcurrent
  rw [run_append_cons]
  exact Runs.exec_along (P := fun state => Owned id state.world)
    (fun _ input _ howned => howned.step input) hlater honboard.owned

/-! ## What deboarding removes -/

/-- `deboard_user` removes no container but the one that `onboard_user` created for the
user, and changes nothing if the user is not onboarded. -/
structure TouchesOwn (env : Env) (id : String) (inputs : List (Env × Request))
    (service : Service) : Prop where
  removed : ∀ container ∈ (run inputs service).world.containers,
    container ∉ (ConsentEngine.deboardUser env id (run inputs service).world).2.containers →
    container.ofEngine = true ∧ container.name = id
  unknown : ¬ CurrentlyOnboarded id inputs service →
    (ConsentEngine.deboardUser env id (run inputs service).world).2 = (run inputs service).world

/-- A string that the daemon accepts is the name of an onboarded user, and stands for
the container of that name. -/
def StandsForOwn (env : Env) (id : String) (inputs : List (Env × Request)) (service : Service) :
    Prop :=
  ¬ env.Fails .removeContainer → ∀ name,
    env.resolve (run inputs service).world.containers.rows id = some name →
    name = id ∧ CurrentlyOnboarded id inputs service

/-- The request does not remove the container: it asks the daemon for no removal, or what
it asks with does not stand for that container. -/
def LeavesContainer (name : String) (service : Service) (input : Env × Request) : Prop :=
  ∀ reference, input.2.deboards = some reference →
    input.1.resolve service.world.containers.rows reference ≠ some name

/-- Nothing else takes a container away. -/
theorem LeavesContainer.kept {name : String} (hleaves : LeavesContainer name service input)
    (hkey : service.world.containers.HasKey name) :
    (step input service).world.containers.HasKey name := by
  obtain ⟨env, request⟩ := input
  have hstep : Step env request service.world (step (env, request) service).world :=
    serve_step env request service
  generalize (step (env, request) service).world = after at hstep ⊢
  cases hstep with
  | idle => exact hkey
  | onboard hrequest =>
      rename_i id purposes
      have hplaced {created containers : Table Container.name}
          (hcreated : service.world.containers.insert (tenant env id) = some created)
          (hplaced : Placed env id created containers) : containers.HasKey name :=
        (hplaced.names hcreated name).mpr (.inl hkey)
      rcases hrun : ConsentEngine.onboardUser env id purposes service.world with ⟨outcome, after⟩
      cases onboardUser_spec hrun with
      | refused => exact hkey
      | uncreated => exact hkey
      | stranded hcreates hcreated hstarted hwhy => exact hplaced hcreated hstarted
      | unrecorded hcreates hcreated hlaunched hview hwhy =>
          exact hplaced hcreated hlaunched.placed
      | done hcreates hcreated hlaunched hview hconsents =>
          exact hplaced hcreated hlaunched.placed
  | deboard hrequest =>
      rename_i reference
      have hother {found : String} (hfound : env.resolve service.world.containers.rows reference =
          some found) : (service.world.containers.delete found).HasKey name := by
        rw [Table.hasKey_delete]
        refine ⟨hkey, ?_⟩
        rintro rfl
        exact hleaves reference hrequest hfound
      rcases hrun : ConsentEngine.deboardUser env reference service.world with ⟨outcome, after⟩
      cases deboardUser_spec hrun with
      | refused => exact hkey
      | consentsKept hfault hfound => exact hother hfound
      | viewKept hfault hfound => exact hother hfound
      | done hfound => exact hother hfound
  | consent hinsert => exact hkey
  | intent hinsert => exact hkey

/-- The daemon removes what the reference stands for. -/
theorem deboardUser_containers (hworks : ¬ env.Fails .removeContainer) {name : String}
    (hname : env.resolve world.containers.rows id = some name) :
    (ConsentEngine.deboardUser env id world).2.containers = world.containers.delete name := by
  rcases hrun : ConsentEngine.deboardUser env id world with ⟨outcome, after⟩
  cases deboardUser_spec hrun with
  | refused hremove =>
      rcases hremove with hfails | hnone
      · exact absurd hfails hworks
      · rw [hnone] at hname
        cases hname
  | consentsKept _ hfound => rw [Option.some.inj (hname.symm.trans hfound)]
  | viewKept _ hfound => rw [Option.some.inj (hname.symm.trans hfound)]
  | done hfound => rw [Option.some.inj (hname.symm.trans hfound)]

theorem deboardUser_of_refused
    (hrefused : env.Fails .removeContainer ∨ env.resolve world.containers.rows id = none) :
    (ConsentEngine.deboardUser env id world).2 = world := by
  rcases removeContainer_cases env id world with ⟨-, error, heq⟩ | ⟨name, hname, heq⟩
  · rw [ConsentEngine.deboardUser, Action.bind_of_err heq]
  · exfalso
    rcases hrefused with ⟨error, hfault⟩ | hnone
    · rw [StoreManager.removeContainer, call_of_fault hfault] at heq
      cases heq
    · rw [hnone] at hname
      cases hname

/-- In every state that the engine reaches, with any other containers on the daemon:
deboarding touches only the user's own tenant if and only if that is what the
string stands for. -/
theorem touchesOwn_iff (hresolve : env.resolve = byReference) (id : String)
    (inputs : List (Env × Request)) (service : Service) :
    TouchesOwn env id inputs service ↔ StandsForOwn env id inputs service := by
  constructor
  · intro htouches hworks name hname
    have hcontainers := deboardUser_containers hworks hname
    rw [hresolve] at hname
    obtain ⟨container, hmem, rfl⟩ := exists_of_byReference hname
    have hgone : container ∉ (ConsentEngine.deboardUser env id
        (run inputs service).world).2.containers := by
      rw [hcontainers, Table.mem_delete]
      exact fun hkept => hkept.2 rfl
    refine ⟨(htouches.removed container hmem hgone).2, ?_⟩
    by_contra hunknown
    rw [htouches.unknown hunknown] at hgone
    exact hgone hmem
  · intro hstands
    by_cases hrefused : env.Fails .removeContainer ∨
        env.resolve (run inputs service).world.containers.rows id = none
    · have hsame := deboardUser_of_refused hrefused
      refine ⟨fun container hmem hgone => ?_, fun _ => hsame⟩
      rw [hsame] at hgone
      exact absurd hmem hgone
    · rw [not_or] at hrefused
      obtain ⟨name, hname⟩ := Option.ne_none_iff_exists'.mp hrefused.2
      obtain ⟨rfl, hcurrent⟩ := hstands hrefused.1 name hname
      refine ⟨fun container hmem hgone => ?_, fun hunknown => absurd hcurrent hunknown⟩
      have hname : container.name = name := by
        by_contra hother
        apply hgone
        rw [deboardUser_containers hrefused.1 hname, Table.mem_delete]
        exact ⟨hmem, hother⟩
      exact ⟨hcurrent.owned container hmem hname, hname⟩

/-! ## The host of the engine -/

/-- The database of the engine, as the compose file names it. -/
def mongodb : Container where
  name := "mongodb"
  containerId := "9c8b7a6d5e4f"
  image := "mongo:latest"
  env := ["MONGO_DATA_DIR=/data/db"]
  volumesFrom := []
  ipAddress := "172.17.0.3"
  running := true
  ofEngine := false

/-- A service on a host with the database. -/
def Service.hosted : Service :=
  { Service.blank with
    world := { Service.blank.world with
      containers := ⟨[mongodb], List.nodup_singleton _⟩ } }

theorem Service.hosted_initial : Service.hosted.Initial where
  world := by
    refine ⟨rfl, rfl, rfl, rfl, ?_⟩
    intro container hcontainer
    rw [List.mem_singleton.mp hcontainer]
    rfl
  healthy := rfl

/-- Every call works, and references are resolved as the daemon does it. -/
def Env.hosted (serial : UInt32) : Env := { Env.calm serial with resolve := byReference }

/-- The user `mongodb`, whom nobody onboarded, is removed, and with him the database. -/
theorem mongodb_removed :
    ¬ ∀ service : Service, service.Initial → ∀ env : Env, env.resolve = byReference →
      ∀ (inputs : List (Env × Request)) (id : String), TouchesOwn env id inputs service := by
  intro hall
  have htouches := hall Service.hosted Service.hosted_initial (Env.hosted 0) rfl [] "mongodb"
  have howned := htouches.removed mongodb (by decide) (by decide)
  exact absurd howned.1 (by decide)

/-- Alice is onboarded on the same host. -/
theorem touchesOwn_iff_alice :
    TouchesOwn (Env.hosted 8) "alice"
        [(Env.hosted 7, .register (.ok ⟨"alice", ["research"]⟩))] Service.hosted ↔
      StandsForOwn (Env.hosted 8) "alice"
        [(Env.hosted 7, .register (.ok ⟨"alice", ["research"]⟩))] Service.hosted :=
  touchesOwn_iff rfl "alice" _ _

end Tolla
