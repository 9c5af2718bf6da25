import Tolla.Engine.Calls

/-!
# What onboarding does

`onboard_user` makes up to eleven backend calls, and the exits matter: up to the
creation of the container a failed call leaves nothing behind but files, after it
the container stays.

The first half of the calls is summed up by `Passes` (the checks and the key),
`mount` (the files) and `Creates` (the container), all three in terms of the
state before.  `Launched` sums up the start and the inspection of the new
container.  `onboardUser_spec` is the case distinction that everything else
uses.
-/

namespace Tolla

open Effects Keyed

variable {env : Env} {id : String} {world : World}

/-! ## Reading calls -/

theorem call_returns {α : Type} {R : World → World → Prop} [Std.Refl R] {name : Call}
    {work : Engine α} (hwork : Action.Returns R work) : Action.Returns R (call env name work) := by
  unfold call
  split
  · exact Action.Returns.fail _
  · exact hwork

theorem find_returns {α : Type} {key : α → String} (coll : Handle key) :
    Action.Returns Eq (coll.find env) :=
  call_returns fun _ => ⟨rfl, by simp⟩

theorem verifyContainerId_returns (env : Env) (id : String) :
    Action.Returns Eq (StoreManager.verifyContainerId env id) := by
  have hlist : Action.Returns Eq (StoreManager.list env) := call_returns fun _ => ⟨rfl, by simp⟩
  exact (hlist.bind fun _ => .pure _).bind fun _ => .pure _

theorem consentBasedView_returns (env : Env) (id : String) :
    Action.Returns Eq (ConsentEngine.consentBasedView env id) :=
  (find_returns Handle.views).bind fun _ => .ofExcept _

theorem getTenantIps_returns (env : Env) : Action.Returns Eq (ConsentEngine.getTenantIps env) :=
  (find_returns Handle.view).bind fun _ => .ofExcept _

/-! ## Files -/

/-- Nothing changes but the files, and they grow. -/
def FilesGrow (before after : World) : Prop :=
  ∃ files, FileTree.Grows before.files files ∧ after = { before with files := files }

instance : Std.Refl FilesGrow := ⟨fun world => ⟨world.files, Std.Refl.refl _, rfl⟩⟩

instance : IsTrans World FilesGrow where
  trans := by
    rintro first _ _ ⟨files, hfiles, rfl⟩ ⟨files', hfiles', rfl⟩
    exact ⟨files', IsTrans.trans _ _ _ hfiles hfiles', rfl⟩

theorem createDir_returns (dirname : String) :
    Action.Returns FilesGrow (StoreManager.createDir env dirname) := by
  apply call_returns
  intro world
  have hgrows := FileTree.createDirAll_grows (FileTree.names dirname) [] world.files
  simp only
  split
  · split <;> rename_i heq <;> rw [heq] at hgrows <;> exact ⟨⟨_, hgrows, rfl⟩, by simp⟩
  · exact ⟨Std.Refl.refl world, by simp⟩

theorem put_returns (name : Call) (path : FileTree.Path) (content : Pem) :
    Action.Returns FilesGrow (StoreManager.put env name path content) := by
  apply call_returns
  intro world
  simp only
  split
  · exact ⟨Std.Refl.refl world, by simp⟩
  · rename_i files hwrite
    exact ⟨⟨files, FileTree.write_grows hwrite, rfl⟩, by simp⟩

theorem writeFiles_returns (env : Env) (dirname : String) (dir : FileTree.Path)
    (contents : List (String × Pem)) :
    Action.Returns FilesGrow (StoreManager.writeFiles env dirname dir contents) := by
  induction contents with
  | nil => exact Action.Returns.pure ()
  | cons file rest ih =>
      refine Action.Returns.bind ?_ fun _ => ih
      unfold StoreManager.writeFile
      split
      · exact (put_returns _ _ _).bind fun _ => put_returns _ _ _
      · exact Action.Returns.fail _

theorem newMountdir_returns (env : Env) (contents : Fin 3 → String × Pem) (dirname : String) :
    Action.Returns FilesGrow (StoreManager.newMountdir env contents dirname) :=
  (createDir_returns dirname).bind fun _ => writeFiles_returns env _ _ _

/-- What the path holds stays. -/
def Keeps (path : FileTree.Path) (before after : World) : Prop :=
  ∀ node, before.files path = some node → after.files path = some node

instance (path : FileTree.Path) : Std.Refl (Keeps path) := ⟨fun _ _ hnode => hnode⟩

instance (path : FileTree.Path) : IsTrans World (Keeps path) where
  trans _ _ _ hfirst hsecond node hnode := hsecond node (hfirst node hnode)

theorem put_keeps {path other : FileTree.Path} (hne : path ≠ other) (name : Call) (content : Pem) :
    Action.Returns (Keeps path) (StoreManager.put env name other content) := by
  apply call_returns
  intro world
  simp only
  split
  · exact ⟨Std.Refl.refl world, by simp⟩
  · rename_i files hwrite
    refine ⟨fun node hnode => ?_, by simp⟩
    rw [← hnode]
    exact FileTree.write_of_ne hwrite hne

/-- Only the files that are written change. -/
theorem writeFiles_keeps {path dir : FileTree.Path} {contents : List (String × Pem)}
    (hpath : ∀ file ∈ contents, path ≠ file.1 :: dir) (env : Env) (dirname : String) :
    Action.Returns (Keeps path) (StoreManager.writeFiles env dirname dir contents) := by
  induction contents with
  | nil => exact Action.Returns.pure ()
  | cons file rest ih =>
      rw [List.forall_mem_cons] at hpath
      refine Action.Returns.bind ?_ fun _ => ih hpath.2
      unfold StoreManager.writeFile
      split
      · exact (put_keeps hpath.1 _ _).bind fun _ => put_keeps hpath.1 _ _
      · exact Action.Returns.fail _

/-- Write the mount directory of a user, in the state in which `onboard_user`
does it. -/
def mount (env : Env) (id : String) (world : World) : Outcome String Unit × World :=
  StoreManager.newMountdir env
    (ConsentEngine.mountFiles
      (world.authority.dbCertificate env.keyPair env.serial env.validity) env.keyPair
      world.authority.rootCtf) (ConsentEngine.mountPath id) world

/-- The files that `mount` leaves behind. -/
def mountedFiles (env : Env) (id : String) (world : World) : FileTree.Tree Pem :=
  (mount env id world).2.files

theorem mount_world (env : Env) (id : String) (world : World) :
    (mount env id world).2 = { world with files := mountedFiles env id world } := by
  obtain ⟨⟨files, -, hfiles⟩, -⟩ := newMountdir_returns env (ConsentEngine.mountFiles
    (world.authority.dbCertificate env.keyPair env.serial env.validity) env.keyPair
    world.authority.rootCtf) (ConsentEngine.mountPath id) world
  simp [mountedFiles, mount, hfiles]

theorem mountedFiles_grows (env : Env) (id : String) (world : World) :
    FileTree.Grows world.files (mountedFiles env id world) := by
  obtain ⟨⟨files, hgrows, hfiles⟩, -⟩ := newMountdir_returns env (ConsentEngine.mountFiles
    (world.authority.dbCertificate env.keyPair env.serial env.validity) env.keyPair
    world.authority.rootCtf) (ConsentEngine.mountPath id) world
  simpa [mountedFiles, mount, hfiles] using hgrows

theorem mount_cases (env : Env) (id : String) (world : World) :
    mount env id world = (.ok (), { world with files := mountedFiles env id world }) ∨
      ∃ error, mount env id world =
        (.err error, { world with files := mountedFiles env id world }) := by
  rw [← mount_world env id world]
  rcases (newMountdir_returns env _ _).cases world with ⟨⟨⟩, hok⟩ | herr
  · exact .inl hok
  · exact .inr herr

/-! ## The way to the container -/

/-- The checks of `onboard_user` let the user pass, and a key is generated. -/
def Passes (env : Env) (id : String) (world : World) : Prop :=
  (StoreManager.verifyContainerId env id world).1 = .ok false ∧
    (∀ ip, (ConsentEngine.consentBasedView env id world).1 ≠ .ok ip) ∧ ¬ env.Fails .generateKey

/-- Every call up to the creation of the container succeeds. -/
def Creates (env : Env) (id : String) (world : World) : Prop :=
  Passes env id world ∧ (mount env id world).1 = .ok () ∧ ¬ env.Fails .createContainer ∧
    validContainerName id = true ∧ ¬ world.containers.HasKey id

/-- The container of a new tenant. -/
def tenant (env : Env) (id : String) : Container :=
  StoreManager.options env "tenant" id (ConsentEngine.tenantEnv id)

/-- From the containers `created`, the start leads to `containers` and the
inspection to the address `ip`. -/
def Launched (env : Env) (id : String) (created containers : Table Container.name) (ip : String) :
    Prop :=
  ¬ env.Fails .startContainer ∧ ¬ env.Fails .inspectContainer ∧
    ∃ name container, env.resolve created.rows id = some name ∧
      containers = StoreManager.started created name ∧
      (env.resolve containers.rows id).bind containers.find? = some container ∧
      container.ipAddress = ip

/-- From the containers `created`, the start leads to `containers`, whether it works or
not. -/
def Placed (env : Env) (id : String) (created containers : Table Container.name) : Prop :=
  containers = created ∨ ∃ name, env.resolve created.rows id = some name ∧
    containers = StoreManager.started created name

theorem Launched.placed {created containers : Table Container.name} {ip : String}
    (hlaunched : Launched env id created containers ip) : Placed env id created containers := by
  obtain ⟨-, -, name, -, hname, hstarted, -⟩ := hlaunched
  exact .inr ⟨name, hname, hstarted⟩

/-- A container is there after the start if it was before, possibly started since. -/
theorem Placed.mem_cases {created containers : Table Container.name} {container : Container}
    (hplaced : Placed env id created containers) (hmem : container ∈ containers) :
    ∃ old ∈ created, container = old ∨ container = { old with running := true } := by
  rcases hplaced with rfl | ⟨name, -, rfl⟩
  · exact ⟨container, hmem, .inl rfl⟩
  · rw [StoreManager.started, Table.mem_update] at hmem
    rcases hmem with ⟨hmem, -⟩ | ⟨old, hmem, -, rfl⟩
    · exact ⟨container, hmem, .inl rfl⟩
    · exact ⟨old, hmem, .inr rfl⟩

/-- The start takes no name away and adds none. -/
theorem Placed.hasKey {created containers : Table Container.name} {name : String}
    (hplaced : Placed env id created containers) :
    containers.HasKey name ↔ created.HasKey name := by
  rcases hplaced with rfl | ⟨other, -, rfl⟩
  · rfl
  · exact Table.hasKey_update

/-- A name that is taken stands for the container that has it. -/
def Env.Finds (env : Env) (id : String) : Prop :=
  ∀ containers : Table Container.name, containers.HasKey id →
    env.resolve containers.rows id = some id

/-- If the daemon finds the new container, the start leaves the others as they are. -/
theorem Placed.others {created containers : Table Container.name} {container : Container}
    (hplaced : Placed env id created containers) (hfinds : env.Finds id)
    (hkey : created.HasKey id) (hother : container.name ≠ id) :
    container ∈ containers ↔ container ∈ created := by
  rcases hplaced with rfl | ⟨name, hname, rfl⟩
  · rfl
  obtain rfl := Option.some.inj (hname.symm.trans (hfinds created hkey))
  rw [StoreManager.started, Table.mem_update]
  constructor
  · rintro (⟨hmem, -⟩ | ⟨old, -, hold, rfl⟩)
    · exact hmem
    · exact absurd hold hother
  · exact fun hmem => .inl ⟨hmem, hother⟩

/-- The ways in which `onboard_user` ends. -/
inductive Onboarded (env : Env) (id : String) (purposes : List String) (world : World) :
    Outcome String Unit → World → Prop
  | refused {error : String} (hpasses : ¬ Passes env id world) :
      Onboarded env id purposes world (.err error) world
  | uncreated {error : String} (hpasses : Passes env id world) (hcreates : ¬ Creates env id world) :
      Onboarded env id purposes world (.err error)
        { world with files := mountedFiles env id world }
  | stranded {error : String} {created containers : Table Container.name}
      (hcreates : Creates env id world)
      (hcreated : world.containers.insert (tenant env id) = some created)
      (hplaced : Placed env id created containers)
      (hwhy : (∀ containers ip, ¬ Launched env id created containers ip) ∨
        Rejects env Handle.view world id) :
      Onboarded env id purposes world (.err error)
        { world with files := mountedFiles env id world, containers := containers }
  | unrecorded {error ip : String} {created containers : Table Container.name}
      {view : Table View.id} (hcreates : Creates env id world)
      (hcreated : world.containers.insert (tenant env id) = some created)
      (hlaunched : Launched env id created containers ip)
      (hview : world.view.insert { id := id, ip := ip } = some view)
      (hwhy : Rejects env Handle.consents world id) :
      Onboarded env id purposes world (.err error)
        { world with files := mountedFiles env id world, containers := containers, view := view }
  | done {ip : String} {created containers : Table Container.name} {view : Table View.id}
      {consents : Table Consent.id} (hcreates : Creates env id world)
      (hcreated : world.containers.insert (tenant env id) = some created)
      (hlaunched : Launched env id created containers ip)
      (hview : world.view.insert { id := id, ip := ip } = some view)
      (hconsents : world.consents.insert
        { id := id, serialNumber := env.serial.toInt32, purpose := purposes } = some consents) :
      Onboarded env id purposes world (.ok ())
        { world with
          files := mountedFiles env id world
          containers := containers
          view := view
          consents := consents }

/-- If the checks pass, the files are written, whatever comes after. -/
theorem Onboarded.files {purposes : List String} {outcome : Outcome String Unit} {after : World}
    (honboarded : Onboarded env id purposes world outcome after) :
    (¬ Passes env id world ∧ after.files = world.files) ∨
      (Passes env id world ∧ after.files = mountedFiles env id world) := by
  cases honboarded with
  | refused hpasses => exact .inl ⟨hpasses, rfl⟩
  | uncreated hpasses hcreates => exact .inr ⟨hpasses, rfl⟩
  | stranded hcreates hcreated hplaced hwhy => exact .inr ⟨hcreates.1, rfl⟩
  | unrecorded hcreates hcreated hlaunched hview hwhy => exact .inr ⟨hcreates.1, rfl⟩
  | done hcreates hcreated hlaunched hview hconsents => exact .inr ⟨hcreates.1, rfl⟩

/-! ## The container -/

theorem create_cases (env : Env) (container : Container) (world : World) :
    ((env.Fails .createContainer ∨ validContainerName container.name = false ∨
        world.containers.HasKey container.name) ∧
      ∃ error, StoreManager.create env container world = (.err error, world)) ∨
    (¬ env.Fails .createContainer ∧ validContainerName container.name = true ∧
      ∃ created, world.containers.insert container = some created ∧
        StoreManager.create env container world =
          (.ok (), { world with containers := created })) := by
  unfold StoreManager.create
  cases hfault : env.fault .createContainer with
  | some error => exact .inl ⟨.inl ⟨error, hfault⟩, error, call_of_fault hfault⟩
  | none =>
      have hworks : ¬ env.Fails .createContainer := by simp [Env.Fails, hfault]
      rw [call_of_none hfault]
      cases hname : validContainerName container.name with
      | false => exact .inl ⟨.inr (.inl rfl), _, rfl⟩
      | true =>
          cases hinsert : world.containers.insert container with
          | none =>
              exact .inl ⟨.inr (.inr (Table.insert_eq_none_iff.mp hinsert)), _, rfl⟩
          | some created => exact .inr ⟨hworks, rfl, created, rfl, rfl⟩

theorem start_cases (env : Env) (reference : String) (world : World) :
    ((env.Fails .startContainer ∨ env.resolve world.containers.rows reference = none) ∧
      ∃ error, StoreManager.start env reference world = (.err error, world)) ∨
    (¬ env.Fails .startContainer ∧
      ∃ name, env.resolve world.containers.rows reference = some name ∧
        StoreManager.start env reference world =
          (.ok (), { world with containers := StoreManager.started world.containers name })) := by
  unfold StoreManager.start
  cases hfault : env.fault .startContainer with
  | some error => exact .inl ⟨.inl ⟨error, hfault⟩, error, call_of_fault hfault⟩
  | none =>
      have hworks : ¬ env.Fails .startContainer := by simp [Env.Fails, hfault]
      rw [call_of_none hfault]
      cases hname : env.resolve world.containers.rows reference with
      | none => exact .inl ⟨.inr rfl, _, rfl⟩
      | some name => exact .inr ⟨hworks, name, rfl, rfl⟩

theorem inspect_cases (env : Env) (reference : String) (world : World) :
    ((env.Fails .inspectContainer ∨
        (env.resolve world.containers.rows reference).bind world.containers.find? = none) ∧
      ∃ error, StoreManager.inspect env reference world = (.err error, world)) ∨
    (¬ env.Fails .inspectContainer ∧ ∃ container,
      (env.resolve world.containers.rows reference).bind world.containers.find? = some container ∧
        StoreManager.inspect env reference world = (.ok container.ipAddress, world)) := by
  unfold StoreManager.inspect
  cases hfault : env.fault .inspectContainer with
  | some error => exact .inl ⟨.inl ⟨error, hfault⟩, error, call_of_fault hfault⟩
  | none =>
      have hworks : ¬ env.Fails .inspectContainer := by simp [Env.Fails, hfault]
      rw [call_of_none hfault]
      cases hfound : (env.resolve world.containers.rows reference).bind world.containers.find? with
      | none => exact .inl ⟨.inr rfl, _, rfl⟩
      | some container => exact .inr ⟨hworks, container, rfl, rfl⟩

/-- A new container is refused, is created and then lost sight of, or runs. -/
theorem newContainer_cases (env : Env) (id : String) (world : World) :
    ((env.Fails .createContainer ∨ validContainerName id = false ∨ world.containers.HasKey id) ∧
      ∃ error, StoreManager.newContainer env "tenant" id (ConsentEngine.tenantEnv id) world =
        (.err error, world)) ∨
    (¬ env.Fails .createContainer ∧ validContainerName id = true ∧
      ∃ created, world.containers.insert (tenant env id) = some created ∧
      ((∃ error containers, Placed env id created containers ∧
          (∀ containers ip, ¬ Launched env id created containers ip) ∧
          StoreManager.newContainer env "tenant" id (ConsentEngine.tenantEnv id) world =
            (.err error, { world with containers := containers })) ∨
        ∃ containers ip, Launched env id created containers ip ∧
          StoreManager.newContainer env "tenant" id (ConsentEngine.tenantEnv id) world =
            (.ok (id, ip), { world with containers := containers }))) := by
  unfold StoreManager.newContainer
  rcases create_cases env (tenant env id) world with
    ⟨hrefused, error, heq⟩ | ⟨hworks, hvalid, created, hcreated, heq⟩
  · exact .inl ⟨hrefused, error, Action.bind_of_err heq _⟩
  refine .inr ⟨hworks, hvalid, created, hcreated, ?_⟩
  rw [show StoreManager.options env "tenant" id (ConsentEngine.tenantEnv id) = tenant env id
    from rfl, Action.bind_of_ok heq]
  rcases start_cases env id { world with containers := created } with
    ⟨hstart, error, heq⟩ | ⟨hstart, name, hname, heq⟩
  · -- the container is there and was not started
    refine .inl ⟨error, created, .inl rfl, ?_, Action.bind_of_err heq _⟩
    rintro containers ip ⟨hworks, -, name, container, hname, -⟩
    rcases hstart with hfails | hnone
    · exact hworks hfails
    · rw [hnone] at hname
      cases hname
  rw [Action.bind_of_ok heq]
  rcases inspect_cases env id
    { world with containers := StoreManager.started created name } with
    ⟨hinspect, error, heq⟩ | ⟨hinspect, container, hfound, heq⟩
  · -- the container runs, and nobody knows its address
    refine .inl ⟨error, _, .inr ⟨name, hname, rfl⟩, ?_, Action.bind_of_err heq _⟩
    rintro containers ip ⟨-, hworks, name', container, hname', rfl, hfound, -⟩
    obtain rfl := Option.some.inj (hname.symm.trans hname')
    rcases hinspect with hfails | hnone
    · exact hworks hfails
    · rw [hnone] at hfound
      cases hfound
  · exact .inr ⟨_, _, ⟨hstart, hinspect, name, container, hname, rfl, hfound, rfl⟩,
      Action.bind_of_ok heq _⟩

/-! ## Onboarding -/

/-- The calls before the files: the user is refused, or the key and the serial
number are drawn. -/
theorem onboardUser_checks (env : Env) (id : String) (purposes : List String) (world : World) :
    (¬ Passes env id world ∧
      ∃ error, ConsentEngine.onboardUser env id purposes world = (.err error, world)) ∨
    (Passes env id world ∧ ConsentEngine.onboardUser env id purposes world =
      (do
        (StoreManager.newMountdir env (ConsentEngine.mountFiles
          (world.authority.dbCertificate env.keyPair env.serial env.validity) env.keyPair
          world.authority.rootCtf) (ConsentEngine.mountPath id))
        let (name, ip) ← StoreManager.newContainer env "tenant" id (ConsentEngine.tenantEnv id)
        ConsentEngine.registerView env { id := name, ip := ip }
        ConsentEngine.addConsent env
          { id := id, serialNumber := env.serial.toInt32, purpose := purposes } : Engine Unit)
        world) := by
  unfold ConsentEngine.onboardUser Passes
  rcases (verifyContainerId_returns env id).cases_eq world with ⟨known, hverify⟩ | ⟨error, hverify⟩
  swap
  · exact .inl ⟨by simp [hverify], error, Action.bind_of_err hverify _⟩
  rw [Action.bind_of_ok hverify]
  cases known with
  | true => exact .inl ⟨by simp [hverify], _, rfl⟩
  | false =>
  simp only [Bool.false_eq_true, ↓reduceIte]
  rcases (consentBasedView_returns env id).cases_eq world with ⟨ip, hview⟩ | ⟨error, hview⟩
  · have hattempt : Action.attempt (ConsentEngine.consentBasedView env id) world =
        (.ok (.ok ip), world) := by simp [Action.attempt, hview]
    exact .inl ⟨by simp [hview], _, by rw [Action.bind_of_ok hattempt]; rfl⟩
  have hattempt : Action.attempt (ConsentEngine.consentBasedView env id) world =
      (.ok (.error error), world) := by simp [Action.attempt, hview]
  rw [Action.bind_of_ok hattempt]
  simp only
  cases hkey : env.fault .generateKey with
  | some error =>
      exact .inl ⟨by simp [Env.Fails, hkey], error, Action.bind_of_err (call_of_fault hkey) _⟩
  | none =>
      refine .inr ⟨⟨by simp [hverify], by simp [hview], by simp [Env.Fails, hkey]⟩, ?_⟩
      have hdraw : Authority.createDbCertificate env world =
          (.ok (env.keyPair,
            world.authority.dbCertificate env.keyPair env.serial env.validity, env.serial),
            world) := call_of_none hkey
      have hread : (Action.read : Engine World) world = (.ok world, world) := rfl
      rw [Action.bind_of_ok hdraw]
      simp only
      rw [Action.bind_of_ok hread]

theorem onboardUser_spec {purposes : List String} {outcome : Outcome String Unit} {after : World}
    (hrun : ConsentEngine.onboardUser env id purposes world = (outcome, after)) :
    Onboarded env id purposes world outcome after := by
  suffices hends : Onboarded env id purposes world
      (ConsentEngine.onboardUser env id purposes world).1
      (ConsentEngine.onboardUser env id purposes world).2 by
    rwa [hrun] at hends
  rcases onboardUser_checks env id purposes world with ⟨hpasses, error, heq⟩ | ⟨hpasses, heq⟩
  · rw [heq]
    exact .refused hpasses
  rw [heq]
  -- the files
  rcases mount_cases env id world with hmount | ⟨error, hmount⟩
  swap
  · rw [Action.bind_of_err hmount]
    refine .uncreated hpasses fun hcreates => ?_
    rw [Creates, hmount] at hcreates
    cases hcreates.2.1
  -- the container; none of the checks on it depends on the files
  rw [Action.bind_of_ok hmount]
  rcases newContainer_cases env id { world with files := mountedFiles env id world } with
    ⟨hrefused, error, heq⟩ | ⟨hworks, hvalid, created, hcreated, hrest⟩
  · rw [Action.bind_of_err heq]
    refine .uncreated hpasses fun hcreates => ?_
    rcases hrefused with hfails | hinvalid | htaken
    · exact hcreates.2.2.1 hfails
    · exact absurd hcreates.2.2.2.1 (by simp [hinvalid])
    · exact hcreates.2.2.2.2 htaken
  have hcreates : Creates env id world :=
    ⟨hpasses, by rw [hmount], hworks, hvalid, (Table.insert_eq_some_iff.mp hcreated).1⟩
  rcases hrest with ⟨error, containers, hplaced, hlost, heq⟩ | ⟨containers, ip, hlaunched, heq⟩
  · rw [Action.bind_of_err heq]
    exact .stranded hcreates hcreated hplaced (.inl hlost)
  -- the two collections
  rw [Action.bind_of_ok heq]
  rcases registerView_cases env { id := id, ip := ip } { world with
      files := mountedFiles env id world
      containers := containers } with ⟨hrejects, error, heq⟩ | ⟨-, view, hview, heq⟩
  · simp only [Action.bind_of_err heq]
    exact .stranded hcreates hcreated hlaunched.placed (.inr hrejects)
  simp only [Action.bind_of_ok heq]
  rcases addConsent_cases env
    { id := id, serialNumber := env.serial.toInt32, purpose := purposes } { world with
      files := mountedFiles env id world
      containers := containers
      view := view } with ⟨hrejects, error, heq⟩ | ⟨-, consents, hconsents, heq⟩
  · rw [heq]
    exact .unrecorded hcreates hcreated hlaunched hview hrejects
  · rw [heq]
    exact .done hcreates hcreated hlaunched hview hconsents

end Tolla
