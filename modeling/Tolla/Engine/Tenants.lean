import Mathlib.Data.List.Perm.Basic
import Tolla.Engine.Cursors
import Tolla.Engine.Lifecycle

/-!
# Views and containers

A tenant is recorded twice: as a container of the daemon and as a row of `view`
with the container's address.  The two are written by different calls, so they
agree only as long as the backends work.  A run is `Logical` if every backend
call works and the daemon is a map from names to containers; calls may still be
refused, because a name is taken or a container is missing.

The invariant `InStep` says that the rows of `view` are exactly the names and
addresses of the engine's containers.  The only exit of `onboard_user` that
could break it is the rejection of the row after the container was created, and
there the invariant itself helps: a row for the user would mean a container of
that name, and then none would have been created.
-/

namespace Tolla

open Effects Keyed

variable {env : Env} {request : Request} {id : String} {world after : World}

/-- Every backend call works, and the daemon is a map from names to containers. -/
structure Env.Logical (env : Env) : Prop where
  faultless : env.Faultless
  resolve : env.resolve = byName

theorem Env.Logical.finds (hlogical : env.Logical) : env.Finds id := by
  intro containers hkey
  rw [hlogical.resolve, byName_eq_some_iff]
  exact ⟨rfl, hkey⟩

/-- The row of `view` that belongs to a container. -/
def Container.row (container : Container) : View :=
  { id := container.name, ip := container.ipAddress }

/-- The rows of `view` are those of the engine's containers. -/
def InStep (world : World) : Prop :=
  ∀ row, row ∈ world.view ↔
    ∃ container ∈ world.containers, container.ofEngine = true ∧ container.row = row

/-! ## The new container -/

/-- The new container is the last one, and only that is started. -/
theorem started_rows {created : Table Container.name}
    (hcreated : world.containers.insert (tenant env id) = some created) :
    (StoreManager.started created id).rows =
      world.containers.rows ++ [{ tenant env id with running := true }] :=
  Table.rows_update_of_insert hcreated

theorem mem_created {created : Table Container.name} {container : Container}
    (hcreated : world.containers.insert (tenant env id) = some created) :
    container ∈ StoreManager.started created id ↔
      container ∈ world.containers ∨ container = { tenant env id with running := true } := by
  rw [Table.mem_def, started_rows hcreated, List.mem_append, List.mem_singleton]
  rfl

/-- The container that is started and inspected is the new one. -/
theorem Launched.eq (hfinds : env.Finds id) {created containers : Table Container.name}
    {ip : String} (hcreated : world.containers.insert (tenant env id) = some created)
    (hlaunched : Launched env id created containers ip) :
    containers = StoreManager.started created id ∧ ip = env.ipAddress := by
  obtain ⟨-, -, name, container, hname, rfl, hcontainer, rfl⟩ := hlaunched
  have hkey : created.HasKey id := (Table.hasKey_of_insert hcreated).mpr (.inr rfl)
  obtain rfl := Option.some.inj (hname.symm.trans (hfinds created hkey))
  have hfound : (StoreManager.started created name).find? name =
      some { tenant env name with running := true } :=
    Table.find?_eq_some_iff.mpr ⟨(mem_created hcreated).mpr (.inr rfl), rfl⟩
  rw [hfinds _ (hasKey_started.mpr hkey), Option.bind_some, hfound] at hcontainer
  obtain rfl := Option.some.inj hcontainer
  exact ⟨rfl, rfl⟩

/-- A daemon that works starts the container that it created, and reports its
address. -/
theorem launched_iff (hlogical : env.Logical) {created containers : Table Container.name}
    {ip : String} (hcreated : world.containers.insert (tenant env id) = some created) :
    Launched env id created containers ip ↔
      containers = StoreManager.started created id ∧ ip = env.ipAddress := by
  have hkey : created.HasKey id := (Table.hasKey_of_insert hcreated).mpr (.inr rfl)
  have hfound : (StoreManager.started created id).find? id =
      some { tenant env id with running := true } :=
    Table.find?_eq_some_iff.mpr ⟨(mem_created hcreated).mpr (.inr rfl), rfl⟩
  constructor
  · exact Launched.eq hlogical.finds hcreated
  · rintro ⟨rfl, rfl⟩
    refine ⟨hlogical.faultless.not_fails _, hlogical.faultless.not_fails _, id,
      { tenant env id with running := true }, hlogical.finds _ hkey, rfl, ?_, rfl⟩
    rw [hlogical.finds _ (hasKey_started.mpr hkey), Option.bind_some, hfound]

/-! ## The invariant -/

theorem InStep.onboarded {created : Table Container.name} {view : Table View.id}
    (hworld : InStep world) (hcreated : world.containers.insert (tenant env id) = some created)
    (hview : world.view.insert { id := id, ip := env.ipAddress } = some view)
    (hviews : after.view = view)
    (hcontainers : after.containers = StoreManager.started created id) : InStep after := by
  intro row
  rw [hviews, hcontainers, Table.mem_of_insert hview, hworld row]
  constructor
  · rintro (⟨container, hmem, howned, hrow⟩ | rfl)
    · exact ⟨container, (mem_created hcreated).mpr (.inl hmem), howned, hrow⟩
    · exact ⟨_, (mem_created hcreated).mpr (.inr rfl), rfl, rfl⟩
  · rintro ⟨container, hmem, howned, hrow⟩
    rcases (mem_created hcreated).mp hmem with hold | rfl
    · exact .inl ⟨container, hold, howned, hrow⟩
    · exact .inr hrow.symm

theorem InStep.onboardUser (hworld : InStep world) (hlogical : env.Logical) (id : String)
    (purposes : List String) : InStep (ConsentEngine.onboardUser env id purposes world).2 := by
  rcases hrun : ConsentEngine.onboardUser env id purposes world with ⟨outcome, after⟩
  cases onboardUser_spec hrun with
  | refused hpasses => exact hworld
  | uncreated hpasses hcreates => exact hworld
  | stranded hcreates hcreated hplaced hwhy =>
      -- a daemon that works launches the container, and no row has its name
      exfalso
      rcases hwhy with hlost | hfails | ⟨row, hrow, hid⟩
      · exact hlost _ _ ((launched_iff hlogical hcreated).mpr ⟨rfl, rfl⟩)
      · exact hlogical.faultless.not_fails _ hfails
      · obtain ⟨container, hcontainer, -, rfl⟩ := (hworld row).mp hrow
        exact hcreates.2.2.2.2 ⟨container, hcontainer, hid⟩
  | unrecorded hcreates hcreated hlaunched hview hwhy =>
      obtain ⟨rfl, rfl⟩ := (launched_iff hlogical hcreated).mp hlaunched
      exact hworld.onboarded hcreated hview rfl rfl
  | done hcreates hcreated hlaunched hview hconsents =>
      obtain ⟨rfl, rfl⟩ := (launched_iff hlogical hcreated).mp hlaunched
      exact hworld.onboarded hcreated hview rfl rfl

theorem InStep.deboardUser (hworld : InStep world) (hlogical : env.Logical) (id : String) :
    InStep (ConsentEngine.deboardUser env id world).2 := by
  rcases hrun : ConsentEngine.deboardUser env id world with ⟨outcome, after⟩
  cases deboardUser_spec hrun with
  | refused hremove => exact hworld
  | consentsKept hfault hname => exact absurd ⟨_, hfault⟩ (hlogical.faultless.not_fails _)
  | viewKept hfault hname => exact absurd ⟨_, hfault⟩ (hlogical.faultless.not_fails _)
  | done hname =>
      rw [hlogical.resolve, byName_eq_some_iff] at hname
      obtain ⟨rfl, -⟩ := hname
      intro row
      simp only [Table.mem_delete, hworld row]
      constructor
      · rintro ⟨⟨container, hmem, howned, rfl⟩, hid⟩
        exact ⟨container, ⟨hmem, hid⟩, howned, rfl⟩
      · rintro ⟨container, ⟨hmem, hid⟩, howned, rfl⟩
        exact ⟨⟨container, hmem, howned, rfl⟩, hid⟩

theorem InStep.step (hworld : InStep world) (hlogical : env.Logical)
    (hstep : Step env request world after) : InStep after := by
  cases hstep with
  | idle => exact hworld
  | onboard hrequest => exact hworld.onboardUser hlogical _ _
  | deboard hrequest => exact hworld.deboardUser hlogical _
  | consent hinsert => exact hworld
  | intent hinsert => exact hworld

theorem InStep.of_initial (hinitial : world.Initial) : InStep world := by
  intro row
  rw [hinitial.view]
  constructor
  · intro hrow
    exact absurd hrow (Table.not_mem_empty row)
  · rintro ⟨container, hcontainer, howned, -⟩
    rw [hinitial.containers container hcontainer] at howned
    cases howned

/-- The rows of `view` are the engine's containers, in some order. -/
theorem InStep.perm (hworld : InStep world) :
    world.view.rows.Perm ((world.containers.rows.filter Container.ofEngine).map Container.row) := by
  have hrows : world.view.rows.Nodup := world.view.nodup.of_map _
  -- names are unique among containers, hence so are their rows
  have hcontainers :
      ((world.containers.rows.filter Container.ofEngine).map Container.row).Nodup := by
    apply List.Nodup.of_map View.id
    rw [List.map_map]
    exact world.containers.nodup.sublist (List.filter_sublist.map Container.name)
  apply (List.perm_ext_iff_of_nodup hrows hcontainers).mpr
  intro row
  rw [List.mem_map]
  refine (hworld row).trans ⟨?_, ?_⟩
  · rintro ⟨container, hmem, howned, hrow⟩
    exact ⟨container, List.mem_filter.mpr ⟨hmem, howned⟩, hrow⟩
  · rintro ⟨container, hmem, hrow⟩
    exact ⟨container, (List.mem_filter.mp hmem).1, (List.mem_filter.mp hmem).2, hrow⟩

/-! ## The addresses -/

/-- Whatever requests are served, as long as the backends work the rows of `view`
name the engine's containers, and `get_tenant_ips` returns the address of each
of them once. -/
theorem views_in_step {service : Service} (hinitial : service.Initial)
    {inputs : List (Env × Request)} (hlogical : ∀ input ∈ inputs, input.1.Logical) :
    (∀ id, (run inputs service).world.view.HasKey id ↔
      ∃ container ∈ (run inputs service).world.containers,
        container.ofEngine = true ∧ container.name = id) ∧
    ∀ env : Env, env.Faultless →
      ∃ ips, ConsentEngine.getTenantIps env (run inputs service).world =
          (.ok ips, (run inputs service).world) ∧
        ips.Perm (((run inputs service).world.containers.rows.filter Container.ofEngine).map
          Container.ipAddress) := by
  have hstep : InStep (run inputs service).world := by
    refine Runs.exec_along (P := fun state : Service => InStep state.world) ?_
      (Runs.along_of_forall fun input hinput _ => hlogical input hinput)
      (.of_initial hinitial.world)
    intro state input hlogical hstate
    exact hstate.step hlogical (serve_step input.1 input.2 state)
  refine ⟨fun id => ?_, fun env hfaultless => ?_⟩
  · constructor
    · rintro ⟨row, hrow, rfl⟩
      obtain ⟨container, hmem, howned, rfl⟩ := (hstep row).mp hrow
      exact ⟨container, hmem, howned, rfl⟩
    · rintro ⟨container, hmem, howned, rfl⟩
      exact ⟨container.row, (hstep _).mpr ⟨container, hmem, howned, rfl⟩, rfl⟩
  · refine ⟨_, getTenantIps_of_faultless hfaultless _, ?_⟩
    have hperm := hstep.perm.map View.ip
    rwa [List.map_map] at hperm

/-- Alice is onboarded, and bob, who is not, is removed. -/
theorem views_in_step_alice :
    ((run [(Env.calm 7, .register (.ok ⟨"alice", ["research"]⟩)),
        (Env.calm 8, .remove (some "bob"))] Service.blank).world.view.HasKey "alice" ↔
      ∃ container ∈ (run [(Env.calm 7, .register (.ok ⟨"alice", ["research"]⟩)),
        (Env.calm 8, .remove (some "bob"))] Service.blank).world.containers,
        container.ofEngine = true ∧ container.name = "alice") ∧
    ∃ ips, ConsentEngine.getTenantIps (Env.calm 0)
        (run [(Env.calm 7, .register (.ok ⟨"alice", ["research"]⟩)),
          (Env.calm 8, .remove (some "bob"))] Service.blank).world =
        (.ok ips, (run [(Env.calm 7, .register (.ok ⟨"alice", ["research"]⟩)),
          (Env.calm 8, .remove (some "bob"))] Service.blank).world) ∧
      ips.Perm (((run [(Env.calm 7, .register (.ok ⟨"alice", ["research"]⟩)),
        (Env.calm 8, .remove (some "bob"))] Service.blank).world.containers.rows.filter
          Container.ofEngine).map Container.ipAddress) := by
  have hlogical : ∀ input ∈ [(Env.calm 7, Request.register (.ok ⟨"alice", ["research"]⟩)),
      (Env.calm 8, .remove (some "bob"))], input.1.Logical := by
    intro input hinput
    rcases List.mem_pair.mp hinput with rfl | rfl
    · exact ⟨Env.calm_faultless 7, rfl⟩
    · exact ⟨Env.calm_faultless 8, rfl⟩
  obtain ⟨hkeys, hips⟩ := views_in_step Service.blank_initial hlogical
  exact ⟨hkeys "alice", hips (Env.calm 0) (Env.calm_faultless 0)⟩

end Tolla
