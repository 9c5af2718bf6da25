import Mathlib.Data.List.FinRange
import Tolla.Model.World

/-!
# The store manager

`tolla/src/docker.rs`: the tenants' containers and the directories they read
their certificates from.
-/

namespace Tolla.StoreManager

open Effects Keyed

/-! ## Containers -/

/-- `containers.list(&Default::default())`: the running containers. -/
def list (env : Env) : Engine (List Container) :=
  call env .listContainers ⟨fun world =>
    (.ok (world.containers.rows.filter Container.running), world)⟩

/-- Retrieve a container by name. -/
def containerById (env : Env) (id : String) : Engine (Option Container) := do
  let containers ← list env
  let found := containers.filter fun container => container.names.contains id
  pure found.head?

/-- Check that a container id exists. -/
def verifyContainerId (env : Env) (id : String) : Engine Bool := do
  let container ← containerById env id
  pure container.isSome

/-- The container that `ContainerOptionsBuilder` describes. -/
def options (env : Env) (image name : String) (vars : List String) : Container where
  name := name
  containerId := env.containerId
  image := image
  env := vars
  volumesFrom := ["tolla"]
  ipAddress := env.ipAddress
  running := false
  ofEngine := true

/-- `containers.create`: the name has to be valid and free. -/
def create (env : Env) (container : Container) : Engine Unit :=
  call env .createContainer ⟨fun world =>
    if validContainerName container.name then
      match world.containers.insert container with
      | none => (.err (env.rejection .createContainer), world)
      | some containers => (.ok (), { world with containers := containers })
    else (.err (env.rejection .createContainer), world)⟩

/-- The containers after the one with the given name was started. -/
def started (containers : Table Container.name) (name : String) : Table Container.name :=
  containers.update name (fun container => { container with running := true }) fun _ => rfl

/-- `container.start`. -/
def start (env : Env) (reference : String) : Engine Unit :=
  call env .startContainer ⟨fun world =>
    match env.resolve world.containers.rows reference with
    | none => (.err (env.rejection .startContainer), world)
    | some name => (.ok (), { world with containers := started world.containers name })⟩

/-- `container.inspect`, of which only the address is read. -/
def inspect (env : Env) (reference : String) : Engine String :=
  call env .inspectContainer ⟨fun world =>
    match (env.resolve world.containers.rows reference).bind world.containers.find? with
    | none => (.err (env.rejection .inspectContainer), world)
    | some container => (.ok container.ipAddress, world)⟩

/-- Remove a container, running or not. -/
def removeContainer (env : Env) (id : String) : Engine Unit :=
  call env .removeContainer ⟨fun world =>
    match env.resolve world.containers.rows id with
    | none => (.err (env.rejection .removeContainer), world)
    | some name => (.ok (), { world with containers := world.containers.delete name })⟩

/-- Create a new container from `image` with `name`, and start it.  The id of a
container fetched by name is that name. -/
def newContainer (env : Env) (image name : String) (vars : List String) :
    Engine (String × String) := do
  create env (options env image name vars)
  start env name
  let ipAddress ← inspect env name
  pure (name, ipAddress)

/-! ## Mount directories -/

/-- `DirBuilder::new().recursive(true).create(dirname)`, with the directory it
leads to. -/
def createDir (env : Env) (dirname : String) : Engine FileTree.Path :=
  call env .createDir ⟨fun world =>
    if FileTree.acceptable dirname then
      match FileTree.createDirAll (FileTree.names dirname) [] world.files with
      | (none, files) => (.err (env.rejection .createDir), { world with files := files })
      | (some dir, files) => (.ok dir, { world with files := files })
    else (.err (env.rejection .createDir), world)⟩

/-- `File::create` and `write_all` are two calls: the first truncates. -/
def put (env : Env) (name : Call) (path : FileTree.Path) (content : Pem) : Engine Unit :=
  call env name ⟨fun world =>
    match FileTree.write path content world.files with
    | none => (.err (env.rejection name), world)
    | some files => (.ok (), { world with files := files })⟩

/-- Write one file of a directory. -/
def writeFile (env : Env) (dirname : String) (dir : FileTree.Path) (filename : String)
    (content : Pem) : Engine Unit := do
  if FileTree.acceptable (dirname ++ "/" ++ filename) then
    put env (.createFile filename) (filename :: dir) .empty
    put env (.writeFile filename) (filename :: dir) content
  else Action.fail (env.rejection (.createFile filename))

/-- Write files one after the other, up to the first that fails. -/
def writeFiles (env : Env) (dirname : String) (dir : FileTree.Path) :
    List (String × Pem) → Engine Unit
  | [] => pure ()
  | (filename, content) :: rest => do
      writeFile env dirname dir filename content
      writeFiles env dirname dir rest

/-- Create a directory from which the container can read its content.  The
files come out of a `HashMap`, in an order that the engine does not know. -/
def newMountdir (env : Env) (contents : Fin 3 → String × Pem) (dirname : String) :
    Engine Unit := do
  let dir ← createDir env dirname
  writeFiles env dirname dir ((List.finRange 3).map fun index => contents (env.order index))

end Tolla.StoreManager
