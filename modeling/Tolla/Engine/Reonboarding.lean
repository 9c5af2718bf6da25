import Tolla.Engine.Cursors
import Tolla.Engine.Lifecycle

/-!
# Onboarding a user twice

What `onboard_user` does to a user who is onboarded already.  The two checks at
its start let the user pass, so the call goes on to draw a key and a serial
number and to write the three files of the mount directory, before the daemon
refuses the container because its name is taken.  By then the files hold the
new key, the new serial number and a new period of validity, while the row of
`consents` holds the old serial number.

That the call reaches the files rests on invariants of whole runs: nothing
writes the collection `views`, a container name has no slash, and the mount
directory that the first onboarding created can be written again at any later
time (`Mounted`).  `reonboarding_iff` then says when nothing changes: if the
files that the call writes are those that are there.
-/

namespace Tolla

open Effects Keyed

variable {env : Env} {request : Request} {id : String} {world after : World} {service : Service}
  {input : Env × Request}

/-! ## What no step changes -/

theorem Step.views (hstep : Step env request world after) : after.views = world.views := by
  cases hstep with
  | idle => rfl
  | onboard hrequest =>
      rename_i id purposes
      rcases hrun : ConsentEngine.onboardUser env id purposes world with ⟨outcome, after⟩
      cases onboardUser_spec hrun <;> rfl
  | deboard hrequest =>
      rename_i id
      rcases hrun : ConsentEngine.deboardUser env id world with ⟨outcome, after⟩
      cases deboardUser_spec hrun <;> rfl
  | consent hinsert => rfl
  | intent hinsert => rfl

theorem Step.files_grow (hstep : Step env request world after) :
    FileTree.Grows world.files after.files := by
  cases hstep with
  | idle => exact Std.Refl.refl _
  | onboard hrequest =>
      rename_i id purposes
      rcases hrun : ConsentEngine.onboardUser env id purposes world with ⟨outcome, after⟩
      rcases (onboardUser_spec hrun).files with ⟨-, hfiles⟩ | ⟨-, hfiles⟩
      · rw [hfiles]
        exact Std.Refl.refl _
      · rw [hfiles]
        exact mountedFiles_grows env id world
  | deboard hrequest =>
      rename_i id
      rcases hrun : ConsentEngine.deboardUser env id world with ⟨outcome, after⟩
      cases deboardUser_spec hrun <;> exact Std.Refl.refl _
  | consent hinsert => exact Std.Refl.refl _
  | intent hinsert => exact Std.Refl.refl _

/-! ## Mount directories -/

/-- The directory `/tmp/certificates/<id>`. -/
def mountDir (id : String) : FileTree.Path :=
  FileTree.locate (FileTree.names (ConsentEngine.mountPath id)) []

/-- The names of the files in a mount directory. -/
def mountNames : List String := ["certificate.pem", "keys.pem", "CAcert.pem"]

/-- The mount directory of the user exists, with its three files. -/
structure Mounted (id : String) (files : FileTree.Tree Pem) : Prop where
  acceptable : FileTree.acceptable (ConsentEngine.mountPath id) = true
  enters : FileTree.createDirAll (FileTree.names (ConsentEngine.mountPath id)) [] files =
    (some (mountDir id), files)
  file : ∀ name ∈ mountNames,
    FileTree.acceptable (ConsentEngine.mountPath id ++ "/" ++ name) = true ∧
      ∃ content, files (name :: mountDir id) = some (.file content)

theorem Mounted.mono {files later : FileTree.Tree Pem} (hmounted : Mounted id files)
    (hgrows : FileTree.Grows files later) : Mounted id later where
  acceptable := hmounted.acceptable
  enters := FileTree.createDirAll_again (by rw [hmounted.enters]) (by rwa [hmounted.enters])
  file name hname := by
    obtain ⟨hpath, content, hcontent⟩ := hmounted.file name hname
    exact ⟨hpath, hgrows.file _ content hcontent⟩

/-- The files that `new_mountdir` writes, in the order in which it writes them. -/
def mountList (env : Env) (contents : Fin 3 → String × Pem) : List (String × Pem) :=
  (List.finRange 3).map fun index => contents (env.order index)

theorem mem_mountList {contents : Fin 3 → String × Pem} {file : String × Pem} :
    file ∈ mountList env contents ↔ ∃ index, contents index = file := by
  unfold mountList
  constructor
  · intro hfile
    obtain ⟨index, -, rfl⟩ := List.mem_map.mp hfile
    exact ⟨_, rfl⟩
  · rintro ⟨index, rfl⟩
    exact List.mem_map.mpr ⟨env.order.symm index, List.mem_finRange _, by simp⟩

theorem put_ok {name : Call} {path : FileTree.Path} {content : Pem}
    (hok : StoreManager.put env name path content world = (.ok (), after)) :
    ∃ files, FileTree.write path content world.files = some files ∧
      after = { world with files := files } := by
  unfold StoreManager.put at hok
  cases hfault : env.fault name with
  | some error =>
      rw [call_of_fault hfault] at hok
      cases hok
  | none =>
      rw [call_of_none hfault] at hok
      split at hok
      · cases hok
      · rename_i files hwrite
        exact ⟨files, hwrite, (Prod.mk.inj hok).2.symm⟩

theorem writeFile_ok {dirname filename : String} {dir : FileTree.Path} {content : Pem}
    (hok : StoreManager.writeFile env dirname dir filename content world = (.ok (), after)) :
    FileTree.acceptable (dirname ++ "/" ++ filename) = true ∧
      after.files (filename :: dir) = some (.file content) := by
  unfold StoreManager.writeFile at hok
  split at hok
  · obtain ⟨⟨⟩, between, -, hput⟩ := Action.bind_eq_ok hok
    obtain ⟨files, hwrite, rfl⟩ := put_ok hput
    exact ⟨‹_›, FileTree.file_of_write hwrite⟩
  · cases hok

theorem writeFiles_ok {dirname : String} {dir : FileTree.Path} {contents : List (String × Pem)}
    (hok : StoreManager.writeFiles env dirname dir contents world = (.ok (), after)) :
    ∀ file ∈ contents, FileTree.acceptable (dirname ++ "/" ++ file.1) = true ∧
      ∃ content, after.files (file.1 :: dir) = some (.file content) := by
  induction contents generalizing world with
  | nil => simp
  | cons first rest ih =>
      obtain ⟨⟨⟩, between, hfirst, hrest⟩ := Action.bind_eq_ok hok
      intro file hfile
      rcases List.mem_cons.mp hfile with rfl | hlater
      · obtain ⟨hpath, hcontent⟩ := writeFile_ok hfirst
        obtain ⟨⟨files, hgrows, hfiles⟩, -⟩ :=
          writeFiles_returns env dirname dir rest between
        rw [hrest] at hfiles
        obtain rfl := hfiles
        exact ⟨hpath, hgrows.file _ _ hcontent⟩
      · exact ih hrest file hlater

/-- Files with different names do not overwrite each other. -/
theorem writeFiles_exact {dirname : String} {dir : FileTree.Path} {contents : List (String × Pem)}
    (hnames : (contents.map Prod.fst).Nodup)
    (hok : StoreManager.writeFiles env dirname dir contents world = (.ok (), after)) :
    ∀ file ∈ contents, after.files (file.1 :: dir) = some (.file file.2) := by
  induction contents generalizing world with
  | nil => simp
  | cons first rest ih =>
      obtain ⟨⟨⟩, between, hfirst, hrest⟩ := Action.bind_eq_ok hok
      obtain ⟨hfresh, hnames⟩ := List.nodup_cons.mp hnames
      intro file hfile
      rcases List.mem_cons.mp hfile with rfl | hlater
      · -- no later file has the name of the first
        have hother : ∀ other ∈ rest, file.1 :: dir ≠ other.1 :: dir := by
          intro other hmem heq
          apply hfresh
          rw [(List.cons.inj heq).1]
          exact List.mem_map_of_mem hmem
        have hkept := (writeFiles_keeps hother env dirname between).1 _ (writeFile_ok hfirst).2
        rwa [hrest] at hkept
      · exact ih hnames hrest file hlater

theorem createDir_ok {dirname : String} {dir : FileTree.Path}
    (hok : StoreManager.createDir env dirname world = (.ok dir, after)) :
    FileTree.acceptable dirname = true ∧
      FileTree.createDirAll (FileTree.names dirname) [] world.files = (some dir, after.files) := by
  unfold StoreManager.createDir at hok
  cases hfault : env.fault .createDir with
  | some error =>
      rw [call_of_fault hfault] at hok
      cases hok
  | none =>
      rw [call_of_none hfault] at hok
      split at hok
      · split at hok
        · cases hok
        · rename_i files heq
          obtain ⟨hdir, rfl⟩ := Prod.mk.inj hok
          obtain rfl := Outcome.ok.inj hdir
          exact ⟨‹_›, heq⟩
      · cases hok

/-- A mount directory that was written once is there. -/
theorem Mounted.of_mount (hmount : (mount env id world).1 = .ok ()) :
    Mounted id (mountedFiles env id world) := by
  have hrun : mount env id world = (.ok (), (mount env id world).2) := Prod.ext hmount rfl
  obtain ⟨dir, between, hdir, hwrite⟩ := Action.bind_eq_ok hrun
  obtain ⟨hpath, hcreate⟩ := createDir_ok hdir
  have hlocate : dir = mountDir id := FileTree.createDirAll_dir (by rw [hcreate])
  subst hlocate
  obtain ⟨⟨files, hgrows, hfiles⟩, -⟩ := writeFiles_returns env (ConsentEngine.mountPath id)
    (mountDir id) (mountList env (ConsentEngine.mountFiles
      (world.authority.dbCertificate env.keyPair env.serial env.validity) env.keyPair
      world.authority.rootCtf)) between
  rw [mountList, hwrite] at hfiles
  have hgrows' : FileTree.Grows between.files (mountedFiles env id world) := by
    rw [mountedFiles, hfiles]
    exact hgrows
  refine ⟨hpath, ?_, fun name hname => ?_⟩
  · exact FileTree.createDirAll_again (by rw [hcreate]) (by rwa [hcreate])
  · have hfile : ∃ content, (name, content) ∈ mountList env (ConsentEngine.mountFiles
        (world.authority.dbCertificate env.keyPair env.serial env.validity) env.keyPair
        world.authority.rootCtf) := by
      simp only [mem_mountList]
      rcases List.mem_cons.mp hname with rfl | hname
      · exact ⟨_, 0, rfl⟩
      rcases List.mem_cons.mp hname with rfl | hname
      · exact ⟨_, 1, rfl⟩
      · obtain rfl := List.mem_singleton.mp hname
        exact ⟨_, 2, rfl⟩
    obtain ⟨content, hmem⟩ := hfile
    exact writeFiles_ok hwrite (name, content) hmem

/-! ## Writing a mount directory again -/

theorem put_of_file (hfaultless : env.Faultless) {name : Call} {path : FileTree.Path}
    {content old : Pem} (hfile : world.files path = some (.file old)) :
    StoreManager.put env name path content world =
      (.ok (), { world with
        files := Function.update world.files path (some (.file content)) }) := by
  unfold StoreManager.put
  rw [call_of_none (hfaultless _), FileTree.write_of_file hfile]

theorem writeFile_of_file (hfaultless : env.Faultless) {dirname filename : String}
    {dir : FileTree.Path} {old : Pem}
    (hpath : FileTree.acceptable (dirname ++ "/" ++ filename) = true)
    (hfile : world.files (filename :: dir) = some (.file old)) (content : Pem) :
    StoreManager.writeFile env dirname dir filename content world =
      (.ok (), { world with
        files := Function.update world.files (filename :: dir) (some (.file content)) }) := by
  unfold StoreManager.writeFile
  rw [if_pos hpath, Action.bind_of_ok (put_of_file hfaultless hfile),
    put_of_file hfaultless (Function.update_self ..)]
  simp

/-- Files that are there are written without trouble. -/
theorem writeFiles_of_files (hfaultless : env.Faultless) {dirname : String} {dir : FileTree.Path}
    {contents : List (String × Pem)}
    (hfiles : ∀ file ∈ contents, FileTree.acceptable (dirname ++ "/" ++ file.1) = true ∧
      ∃ content, world.files (file.1 :: dir) = some (.file content)) :
    (StoreManager.writeFiles env dirname dir contents world).1 = .ok () := by
  induction contents generalizing world with
  | nil => rfl
  | cons first rest ih =>
      obtain ⟨filename, content⟩ := first
      rw [List.forall_mem_cons] at hfiles
      obtain ⟨⟨hpath, old, hold⟩, hrest⟩ := hfiles
      have hwrite := writeFile_of_file hfaultless hpath hold content
      rw [StoreManager.writeFiles, Action.bind_of_ok hwrite]
      apply ih
      -- the other files are still there after the first was written
      intro file hfile
      obtain ⟨hpath', old', hold'⟩ := hrest file hfile
      exact ⟨hpath', (FileTree.write_grows (FileTree.write_of_file hold)).file _ _ hold'⟩

/-- The files that `onboard_user` writes when it draws what `env` says. -/
def drawnFiles (env : Env) (world : World) : Fin 3 → String × Pem :=
  ConsentEngine.mountFiles (world.authority.dbCertificate env.keyPair env.serial env.validity)
    env.keyPair world.authority.rootCtf

theorem drawnFiles_name (env : Env) (world : World) (index : Fin 3) :
    (drawnFiles env world index).1 = mountNames.get index := by
  match index with
  | 0 => rfl
  | 1 => rfl
  | 2 => rfl

theorem mountList_nodup (env : Env) (world : World) :
    ((mountList env (drawnFiles env world)).map Prod.fst).Nodup := by
  have hnames : Function.Injective mountNames.get :=
    List.nodup_iff_injective_get.mp (by decide : mountNames.Nodup)
  unfold mountList
  rw [List.map_map]
  apply (List.nodup_finRange 3).map
  intro first second heq
  simp only [Function.comp_apply, drawnFiles_name] at heq
  exact env.order.injective (hnames heq)

/-- Each file of a mount directory that was written has its own content, in whatever
order they were written. -/
theorem mount_exact (hmount : (mount env id world).1 = .ok ()) (index : Fin 3) :
    mountedFiles env id world ((drawnFiles env world index).1 :: mountDir id) =
      some (.file (drawnFiles env world index).2) := by
  have hrun : mount env id world = (.ok (), (mount env id world).2) := Prod.ext hmount rfl
  obtain ⟨dir, between, hdir, hwrite⟩ := Action.bind_eq_ok hrun
  obtain rfl : dir = mountDir id := FileTree.createDirAll_dir (by rw [(createDir_ok hdir).2])
  rw [← drawnFiles, ← mountList] at hwrite
  exact writeFiles_exact (mountList_nodup env world) hwrite _ (mem_mountList.mpr ⟨index, rfl⟩)

theorem Mounted.mount_ok (hmounted : Mounted id world.files) (hfaultless : env.Faultless) :
    (mount env id world).1 = .ok () := by
  have hdir : StoreManager.createDir env (ConsentEngine.mountPath id) world =
      (.ok (mountDir id), world) := by
    unfold StoreManager.createDir
    rw [call_of_none (hfaultless _), if_pos hmounted.acceptable, hmounted.enters]
  have hfiles : ∀ file ∈ mountList env (drawnFiles env world),
      FileTree.acceptable (ConsentEngine.mountPath id ++ "/" ++ file.1) = true ∧
        ∃ content, world.files (file.1 :: mountDir id) = some (.file content) := by
    intro file hfile
    obtain ⟨index, rfl⟩ := mem_mountList.mp hfile
    rw [drawnFiles_name]
    exact hmounted.file _ (List.get_mem mountNames index)
  rw [mount, StoreManager.newMountdir, Action.bind_of_ok hdir]
  exact writeFiles_of_files hfaultless hfiles

/-! ## The checks -/

theorem slash_of_validContainerName {name : String} (hvalid : validContainerName id = true) :
    "/" ++ name ≠ id := by
  rintro rfl
  simp [validContainerName, String.toList_append] at hvalid

/-- The check looks for a running container whose name, with a slash before it, is
the id. -/
theorem verifyContainerId_eq (hworks : env.fault .listContainers = none) (id : String)
    (world : World) :
    StoreManager.verifyContainerId env id world =
      (.ok (world.containers.rows.any fun container =>
        container.running && "/" ++ container.name == id), world) := by
  have hlist : StoreManager.list env world =
      (.ok (world.containers.rows.filter Container.running), world) := call_of_none hworks
  have hfound : StoreManager.containerById env id world =
      (.ok ((world.containers.rows.filter Container.running).filter
        fun container => container.names.contains id).head?, world) := by
    unfold StoreManager.containerById
    rw [Action.bind_of_ok hlist]
    rfl
  unfold StoreManager.verifyContainerId
  rw [Action.bind_of_ok hfound, Action.pure_apply, List.filter_filter]
  have hsame : ∀ container : Container, (container.names.contains id && container.running) =
      (container.running && "/" ++ container.name == id) := by
    intro container
    rw [Bool.and_comm, Bool.beq_comm, Container.names, List.contains_cons, List.contains_nil,
      Bool.or_false]
  simp only [hsame]
  congr 2
  rw [Bool.eq_iff_iff, List.isSome_head?, Ne, List.filter_eq_nil_iff, List.any_eq_true]
  push Not
  rfl

/-- The checks stop nobody but an id that is the name of a running container with a
slash before it. -/
theorem passes_of_unlisted (hfaultless : env.Faultless) (hviews : world.views = Table.empty)
    (hunlisted : ∀ container ∈ world.containers, container.running = true →
      "/" ++ container.name ≠ id) : Passes env id world := by
  refine ⟨?_, ?_, hfaultless.not_fails _⟩
  · have hnone : (world.containers.rows.any fun container =>
        container.running && "/" ++ container.name == id) = false := by
      apply List.any_eq_false.mpr
      intro container hcontainer
      simpa using hunlisted container hcontainer
    rw [verifyContainerId_eq (hfaultless _), hnone]
  · intro ip hip
    rw [consentBasedView_of_empty hfaultless hviews] at hip
    cases hip

/-! ## Currently onboarded users -/

/-- The last successful operation on the user in the run was an onboarding. -/
def CurrentlyOnboarded (id : String) (inputs : List (Env × Request)) (service : Service) : Prop :=
  ∃ before input later, inputs = before ++ input :: later ∧
    OnboardOk id (run before service) input ∧
    Runs.Along step (fun state input => ¬ DeboardOk id state input) later
      (step input (run before service))

/-- What is known of a user who is currently onboarded. -/
structure Tenanted (id : String) (world : World) : Prop where
  valid : validContainerName id = true
  view : world.view.HasKey id
  mounted : Mounted id world.files

theorem OnboardOk.tenanted (honboard : OnboardOk id service input) :
    Tenanted id (step input service).world := by
  have hview := honboard.view.2
  obtain ⟨purposes, hspec⟩ := honboard.spec
  generalize (step input service).world = after at hspec hview ⊢
  cases hspec with
  | done hcreates hcreated hlaunched _ hconsents =>
      exact ⟨hcreates.2.2.2.1, hview, Mounted.of_mount hcreates.2.1⟩

theorem Tenanted.step (htenanted : Tenanted id service.world)
    (hnot : ¬ DeboardOk id service input) : Tenanted id (step input service).world where
  valid := htenanted.valid
  view := view_kept_step hnot htenanted.view
  mounted := htenanted.mounted.mono (serve_step input.1 input.2 service).files_grow

theorem CurrentlyOnboarded.tenanted {inputs : List (Env × Request)}
    (hcurrent : CurrentlyOnboarded id inputs service) :
    Tenanted id (run inputs service).world := by
  obtain ⟨before, input, later, rfl, honboard, hlater⟩ := hcurrent
  rw [run_append_cons]
  exact Runs.exec_along (P := fun state => Tenanted id state.world)
    (fun _ _ hnot htenanted => htenanted.step hnot) hlater honboard.tenanted

theorem views_empty (hinitial : service.Initial) (inputs : List (Env × Request)) :
    (run inputs service).world.views = Table.empty := by
  have halong : Runs.Along step (fun _ _ => True) inputs service :=
    Runs.along_of_forall fun _ _ _ => trivial
  refine Runs.exec_along (P := fun state => state.world.views = Table.empty) ?_ halong
    hinitial.world.views
  intro state input _ hstate
  exact (serve_step input.1 input.2 state).views.trans hstate

/-! ## Onboarding again -/

/-- `onboard_user` returns an error and changes nothing: neither the collections
nor the containers nor the files of the user. -/
def RejectsUntouched (env : Env) (id : String) (purposes : List String) (world : World) : Prop :=
  ∃ error after, ConsentEngine.onboardUser env id purposes world = (.err error, after) ∧
    after.consents = world.consents ∧ after.view = world.view ∧
    after.containers = world.containers ∧
    ∀ name ∈ mountNames, FileTree.readFile after.files (name :: mountDir id) =
      FileTree.readFile world.files (name :: mountDir id)

/-- The key pair and the serial number drawn, and the second in which it happens, make the
files that the user has. -/
def Redraws (env : Env) (id : String) (world : World) : Prop :=
  ∀ index, FileTree.readFile world.files ((drawnFiles env world index).1 :: mountDir id) =
    some (drawnFiles env world index).2

theorem Tenanted.passes (htenanted : Tenanted id world) (hviews : world.views = Table.empty)
    (hfaultless : env.Faultless) : Passes env id world := by
  apply passes_of_unlisted hfaultless hviews
  -- the names that Docker lists start with a slash, and a valid name does not
  intro container _ _
  exact slash_of_validContainerName htenanted.valid

/-- The files are untouched exactly if the ones written are the ones that were
there. -/
theorem Tenanted.files_untouched_iff (htenanted : Tenanted id world)
    (hfaultless : env.Faultless) :
    (∀ name ∈ mountNames, FileTree.readFile (mountedFiles env id world) (name :: mountDir id) =
      FileTree.readFile world.files (name :: mountDir id)) ↔ Redraws env id world := by
  have hwritten (index : Fin 3) : FileTree.readFile (mountedFiles env id world)
      (mountNames.get index :: mountDir id) = some (drawnFiles env world index).2 := by
    rw [← drawnFiles_name env world index]
    simp [FileTree.readFile, mount_exact (htenanted.mounted.mount_ok hfaultless) index]
  unfold Redraws
  simp only [drawnFiles_name]
  constructor
  · intro hsame index
    rw [← hsame _ (List.get_mem mountNames index), hwritten index]
  · intro hredraws name hname
    obtain ⟨index, rfl⟩ := List.mem_iff_get.mp hname
    exact (hwritten index).trans (hredraws index).symm

/-- A user who is onboarded is onboarded again: nothing changes if and only if
there is still a container of that name and the call draws the key pair and the
serial number that are in the user's files already, in the second in which they were
drawn. -/
theorem reonboarding_iff (hinitial : service.Initial) {inputs : List (Env × Request)}
    (hcurrent : CurrentlyOnboarded id inputs service) (hfaultless : env.Faultless)
    (purposes : List String) :
    RejectsUntouched env id purposes (run inputs service).world ↔
      (run inputs service).world.containers.HasKey id ∧
        Redraws env id (run inputs service).world := by
  have htenanted := hcurrent.tenanted
  have hviews := views_empty hinitial inputs
  generalize (run inputs service).world = world at htenanted hviews ⊢
  have hpasses := htenanted.passes hviews hfaultless
  unfold RejectsUntouched
  rcases hrun : ConsentEngine.onboardUser env id purposes world with ⟨outcome, after⟩
  cases onboardUser_spec hrun with
  | refused hrefused => exact absurd hpasses hrefused
  | uncreated _ hcreates =>
      -- everything before the container works, so its name must be taken
      have htaken : world.containers.HasKey id := by
        by_contra hfree
        exact hcreates ⟨hpasses, htenanted.mounted.mount_ok hfaultless,
          hfaultless.not_fails _, htenanted.valid, hfree⟩
      rw [← htenanted.files_untouched_iff hfaultless]
      constructor
      · rintro ⟨error, after, heq, -, -, -, hfiles⟩
        obtain ⟨-, rfl⟩ := Prod.mk.inj heq
        exact ⟨htaken, hfiles⟩
      · rintro ⟨-, hfiles⟩
        exact ⟨_, _, rfl, rfl, rfl, rfl, hfiles⟩
  | stranded hcreates hcreated hplaced hwhy =>
      refine iff_of_false ?_ fun hright => hcreates.2.2.2.2 hright.1
      rintro ⟨error, after, heq, -, -, hsame, -⟩
      obtain ⟨-, rfl⟩ := Prod.mk.inj heq
      exact hcreates.2.2.2.2 (hsame ▸ (hplaced.names hcreated id).mpr (.inr rfl))
  -- there is a row of `view` already, so none was inserted
  | unrecorded hcreates hcreated hlaunched hview hwhy =>
      exact absurd htenanted.view (Table.insert_eq_some_iff.mp hview).1
  | done hcreates hcreated hlaunched hview hconsents =>
      exact absurd htenanted.view (Table.insert_eq_some_iff.mp hview).1

theorem currentlyOnboarded_alice : CurrentlyOnboarded "alice"
    [(Env.calm 7, .register (.ok ⟨"alice", ["research"]⟩))] Service.blank :=
  ⟨[], _, [], rfl, ⟨rfl, ["research"], rfl, by decide⟩, trivial⟩

/-- Alice is onboarded again with another serial number: her certificate is
replaced. -/
theorem reonboarding_overwrites :
    ¬ ∀ service : Service, service.Initial → ∀ inputs : List (Env × Request),
      (∀ input ∈ inputs, input.1.Faultless) → ∀ id, CurrentlyOnboarded id inputs service →
      ∀ env : Env, env.Faultless → ∀ purposes : List String,
        RejectsUntouched env id purposes (run inputs service).world := by
  intro hall
  obtain ⟨error, after, hrun, -, -, -, hfiles⟩ := hall Service.blank Service.blank_initial
    [(Env.calm 7, .register (.ok ⟨"alice", ["research"]⟩))]
    (fun input hinput => List.mem_singleton.mp hinput ▸ Env.calm_faultless 7) "alice"
    currentlyOnboarded_alice (Env.calm 8) (Env.calm_faultless 8) ["marketing"]
  obtain rfl : _ = after := congrArg Prod.snd hrun
  exact absurd (hfiles "certificate.pem" (by decide)) (by decide)

theorem reonboarding_iff_alice :
    RejectsUntouched (Env.calm 7) "alice" ["marketing"]
        (run [(Env.calm 7, .register (.ok ⟨"alice", ["research"]⟩))] Service.blank).world ↔
      (run [(Env.calm 7, .register (.ok ⟨"alice", ["research"]⟩))]
          Service.blank).world.containers.HasKey "alice" ∧
        Redraws (Env.calm 7) "alice"
          (run [(Env.calm 7, .register (.ok ⟨"alice", ["research"]⟩))] Service.blank).world :=
  reonboarding_iff Service.blank_initial currentlyOnboarded_alice (Env.calm_faultless 7) _

end Tolla
