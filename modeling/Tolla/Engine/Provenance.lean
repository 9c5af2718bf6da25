import Tolla.Engine.Consents
import Tolla.Engine.Directories

/-!
# Where serial numbers come from

Every onboarding draws a serial number, and the number can end up in two places: in the
row of the user in `consents`, and in the certificate of the directory that the id leads
to.  The two need not belong together.  The certificate is written first and stays if the
onboarding fails later on, and the directory may be that of another user.

`Sourced` says what is left: a serial number in a row was drawn for the user of the row, a
serial number in a tenant's certificate was drawn for an id that leads to the tenant's
directory.  For this a run may do anything and any backend call may fail
(`Step.sourced`).  Container names lead to different directories (`mountDir_injOn`), so if
no number is drawn twice the two places agree on the user.
-/

namespace Tolla

open Effects Keyed

variable {env : Env} {request : Request} {id : String} {world after : World}

/-! ## The files of a directory -/

/-- Whatever the call does, a file reads as before, or as one of the contents given for its
path. -/
def Rewrites (contents : FileTree.Path → Pem → Prop) (before after : World) : Prop :=
  ∀ path, FileTree.readFile after.files path = FileTree.readFile before.files path ∨
    ∃ content, contents path content ∧ FileTree.readFile after.files path = some content

variable {contents : FileTree.Path → Pem → Prop}

instance : Std.Refl (Rewrites contents) := ⟨fun _ _ => .inl rfl⟩

instance : IsTrans World (Rewrites contents) where
  trans first second third hfirst hsecond path := by
    rcases hsecond path with hsame | hnew
    · rw [hsame]
      exact hfirst path
    · exact .inr hnew

theorem call_rewrites {α : Type} {name : Call} {work : Engine α}
    (hwork : Action.Respects (Rewrites contents) work) :
    Action.Respects (Rewrites contents) (call env name work) := by
  unfold call
  split
  · exact Action.Respects.fail _
  · exact hwork

theorem createDir_rewrites (env : Env) (dirname : String) :
    Action.Respects (Rewrites contents) (StoreManager.createDir env dirname) := by
  apply call_rewrites
  intro world path
  refine .inl ?_
  have hread := FileTree.readFile_createDirAll (FileTree.names dirname) [] world.files path
  simp only
  split
  · split <;> rename_i heq <;> rwa [heq] at hread
  · rfl

theorem put_rewrites {path : FileTree.Path} {content : Pem} (hcontent : contents path content)
    (name : Call) :
    Action.Respects (Rewrites contents) (StoreManager.put env name path content) := by
  apply call_rewrites
  intro world other
  simp only
  split
  · exact .inl rfl
  rename_i files hwrite
  by_cases hpath : other = path
  · subst hpath
    exact .inr ⟨content, hcontent, by simp [FileTree.readFile, FileTree.file_of_write hwrite]⟩
  · exact .inl (by simp [FileTree.readFile, FileTree.write_of_ne hwrite hpath])

theorem writeFiles_rewrites {dir : FileTree.Path} {files : List (String × Pem)}
    (hempty : ∀ file ∈ files, contents (file.1 :: dir) .empty)
    (hfiles : ∀ file ∈ files, contents (file.1 :: dir) file.2) (env : Env) (dirname : String) :
    Action.Respects (Rewrites contents) (StoreManager.writeFiles env dirname dir files) := by
  induction files with
  | nil => exact Action.Respects.pure ()
  | cons file rest ih =>
      rw [List.forall_mem_cons] at hempty hfiles
      refine Action.Respects.bind ?_ fun _ => ih hempty.2 hfiles.2
      unfold StoreManager.writeFile
      split
      · exact (put_rewrites hempty.1 _).bind fun _ => put_rewrites hfiles.1 _
      · exact Action.Respects.fail _

/-- What `new_mountdir` can leave in a file: nothing, or one of the three contents. -/
def Written (env : Env) (id : String) (world : World) (path : FileTree.Path) (content : Pem) :
    Prop :=
  ∃ name, path = name :: mountDir id ∧
    (content = .empty ∨ ∃ index, drawnFiles env world index = (name, content))

theorem mount_rewrites (env : Env) (id : String) (world : World) :
    Rewrites (Written env id world) world (mount env id world).2 := by
  unfold mount StoreManager.newMountdir
  rw [Action.bind_apply]
  have hdir : Rewrites (Written env id world) world
      (StoreManager.createDir env (ConsentEngine.mountPath id) world).2 :=
    createDir_rewrites env _ world
  split
  · rename_i dir between heq
    rw [heq] at hdir
    obtain rfl : dir = mountDir id := FileTree.createDirAll_dir (by rw [(createDir_ok heq).2])
    refine IsTrans.trans _ _ _ hdir (writeFiles_rewrites ?_ ?_ env _ between)
    · exact fun file _ => ⟨file.1, rfl, .inl rfl⟩
    · intro file hfile
      obtain ⟨index, hindex⟩ := mem_mountList.mp hfile
      exact ⟨file.1, rfl, .inr ⟨index, hindex⟩⟩
  · rename_i heq
    rwa [heq] at hdir
  · rename_i heq
    rwa [heq] at hdir

/-- A certificate that is in a file after `new_mountdir` was there before, or it is one of
the two that were written, in the directory of the id. -/
theorem certificate_of_mountedFiles {path : FileTree.Path} {certificate : X509}
    (hread : FileTree.readFile (mountedFiles env id world) path = some (.certificate certificate)) :
    FileTree.readFile world.files path = some (.certificate certificate) ∨
    path = "certificate.pem" :: mountDir id ∧
      certificate = world.authority.dbCertificate env.keyPair env.serial env.validity ∨
    path = "CAcert.pem" :: mountDir id ∧ certificate = world.authority.rootCtf := by
  rcases mount_rewrites env id world path with hsame | ⟨content, ⟨name, hpath, hcontent⟩, hnew⟩
  · exact .inl (hsame ▸ hread)
  · refine .inr ?_
    obtain rfl := Option.some.inj (hread.symm.trans hnew)
    rcases hcontent with hempty | ⟨index, hindex⟩
    · cases hempty
    · match index with
      | 0 =>
          obtain ⟨rfl, hcertificate⟩ := Prod.mk.inj hindex
          exact .inl ⟨hpath, (Pem.certificate.inj hcertificate).symm⟩
      | 1 => cases (Prod.mk.inj hindex).2
      | 2 =>
          obtain ⟨rfl, hcertificate⟩ := Prod.mk.inj hindex
          exact .inr ⟨hpath, (Pem.certificate.inj hcertificate).symm⟩

/-! ## Directories of container names -/

theorem validContainerName_ne (hvalid : validContainerName id = true) :
    '/' ∉ id.toList ∧ id ≠ "" ∧ id ≠ "." ∧ id ≠ ".." := by
  refine ⟨?_, ?_, ?_, ?_⟩
  · intro hslash
    unfold validContainerName at hvalid
    split at hvalid
    · cases hvalid
    · rename_i first rest heq
      rw [heq] at hslash
      simp only [Bool.and_eq_true, List.all_eq_true] at hvalid
      rcases List.mem_cons.mp hslash with rfl | hrest
      · exact absurd hvalid.1.1 (by decide)
      · exact absurd (hvalid.2 '/' hrest) (by decide)
  · rintro rfl
    simp [validContainerName] at hvalid
  · rintro rfl
    simp [validContainerName] at hvalid
  · rintro rfl
    simp [validContainerName] at hvalid

theorem names_mountPath (hslash : '/' ∉ id.toList) (hempty : id ≠ "") (hhere : id ≠ ".") :
    FileTree.names (ConsentEngine.mountPath id) = ["tmp", "certificates", id] := by
  have hfront : "/tmp/certificates/".toList = [] ++ '/' :: ("tmp".toList ++ '/' ::
      ("certificates".toList ++ ['/'])) := by simp
  have htext : (ConsentEngine.mountPath id).toList = [] ++ '/' :: ("tmp".toList ++ '/' ::
      ("certificates".toList ++ '/' :: id.toList)) := by
    calc (ConsentEngine.mountPath id).toList
      _ = "/tmp/certificates/".toList ++ id.toList := String.toList_append
      _ = [] ++ '/' :: ("tmp".toList ++ '/' :: ("certificates".toList ++ ['/'])) ++ id.toList :=
          congrArg (· ++ id.toList) hfront
      _ = _ := by simp only [List.append_assoc, List.cons_append, List.nil_append]
  have htmp : '/' ∉ "tmp".toList := by simp
  have hcertificates : '/' ∉ "certificates".toList := by simp
  rw [FileTree.names, htext, List.splitOn_append_cons_self_of_not_mem List.not_mem_nil,
    List.splitOn_append_cons_self_of_not_mem htmp,
    List.splitOn_append_cons_self_of_not_mem hcertificates, List.splitOn_eq_singleton hslash]
  simp [hempty, hhere]

/-- A container name is one name of a path. -/
theorem mountDir_of_valid (hvalid : validContainerName id = true) :
    mountDir id = [id, "certificates", "tmp"] := by
  obtain ⟨hslash, hempty, hhere, hup⟩ := validContainerName_ne hvalid
  rw [mountDir, names_mountPath hslash hempty hhere]
  simp [FileTree.locate, hhere, hup]

theorem mountDir_injOn {other : String} (hid : validContainerName id = true)
    (hother : validContainerName other = true) (hsame : mountDir id = mountDir other) :
    id = other := by
  rw [mountDir_of_valid hid, mountDir_of_valid hother] at hsame
  exact (List.cons.inj hsame).1

/-! ## Containers -/

/-- The container is the other one, possibly started since. -/
structure Container.Continues (container old : Container) : Prop where
  name : container.name = old.name
  env : container.env = old.env
  ofEngine : container.ofEngine = old.ofEngine

theorem Container.Continues.refl (container : Container) : container.Continues container :=
  ⟨rfl, rfl, rfl⟩

/-- Every container after an onboarding was there before, or it is the new tenant's, and
then the files were written. -/
theorem Onboarded.container_cases {purposes : List String} {outcome : Outcome String Unit}
    {container : Container} (honboarded : Onboarded env id purposes world outcome after)
    (hcontainer : container ∈ after.containers) :
    (∃ old ∈ world.containers, container.Continues old) ∨
      Creates env id world ∧ container.Continues (tenant env id) := by
  have hold (hmem : container ∈ world.containers) :
      ∃ old ∈ world.containers, container.Continues old := ⟨container, hmem, .refl container⟩
  have hnew {created : Table Container.name} (hcreates : Creates env id world)
      (hcreated : world.containers.insert (tenant env id) = some created)
      (hplaced : Placed env id created after.containers) :
      (∃ old ∈ world.containers, container.Continues old) ∨
        Creates env id world ∧ container.Continues (tenant env id) := by
    obtain ⟨old, hmem, hcontinues⟩ : ∃ old ∈ created, container.Continues old := by
      obtain ⟨old, hmem, rfl | rfl⟩ := hplaced.mem_cases hcontainer
      · exact ⟨container, hmem, .refl container⟩
      · exact ⟨old, hmem, rfl, rfl, rfl⟩
    rcases (Table.mem_of_insert hcreated).mp hmem with hbefore | rfl
    · exact .inl ⟨old, hbefore, hcontinues⟩
    · exact .inr ⟨hcreates, hcontinues⟩
  cases honboarded with
  | refused hpasses => exact .inl (hold hcontainer)
  | uncreated hpasses hcreates => exact .inl (hold hcontainer)
  | stranded hcreates hcreated hplaced hwhy => exact hnew hcreates hcreated hplaced
  | unrecorded hcreates hcreated hlaunched hview hwhy =>
      exact hnew hcreates hcreated hlaunched.placed
  | done hcreates hcreated hlaunched hview hconsents =>
      exact hnew hcreates hcreated hlaunched.placed

/-! ## Draws -/

/-- The id and the serial number of the onboarding that the request asks for. -/
def Request.draws (env : Env) (request : Request) : List (String × UInt32) :=
  request.onboards.toList.map fun call => (call.1, env.serial)

variable {draws : List (String × UInt32)}

/-- A certificate in the directory has a serial number that was drawn for an id that leads
there. -/
def Minted (draws : List (String × UInt32)) (dir : FileTree.Path) (files : FileTree.Tree Pem) :
    Prop :=
  ∀ certificate, FileTree.readFile files ("certificate.pem" :: dir) =
      some (.certificate certificate) →
    ∃ id serial, (id, serial) ∈ draws ∧ mountDir id = dir ∧
      certificate.serialNumber = serial.toNat

theorem Minted.mono {dir : FileTree.Path} {files : FileTree.Tree Pem}
    (hminted : Minted draws dir files) (more : List (String × UInt32)) :
    Minted (draws ++ more) dir files := by
  intro certificate hread
  obtain ⟨id, serial, hmem, hdir, hserial⟩ := hminted certificate hread
  exact ⟨id, serial, List.mem_append_left more hmem, hdir, hserial⟩

/-- Writing the files of an id brings in no certificate but the one for its draw. -/
theorem Minted.rewrite {dir : FileTree.Path} (hminted : Minted draws dir world.files)
    (hdraw : (id, env.serial) ∈ draws) : Minted draws dir (mountedFiles env id world) := by
  intro certificate hread
  rcases certificate_of_mountedFiles hread with hold | ⟨hpath, rfl⟩ | ⟨hpath, -⟩
  · exact hminted certificate hold
  · exact ⟨id, env.serial, hdraw, (List.cons.inj hpath).2.symm, rfl⟩
  · exact absurd (List.cons.inj hpath).1 (by decide)

theorem Minted.of_mount (hmount : (mount env id world).1 = .ok ())
    (hdraw : (id, env.serial) ∈ draws) :
    Minted draws (mountDir id) (mountedFiles env id world) := by
  intro certificate hread
  have hwritten : FileTree.readFile (mountedFiles env id world) ("certificate.pem" :: mountDir id) =
      some (.certificate (world.authority.dbCertificate env.keyPair env.serial env.validity)) := by
    have hexact := mount_exact hmount 0
    simp only [drawnFiles, ConsentEngine.mountFiles] at hexact
    simp [FileTree.readFile, hexact]
  obtain rfl := Pem.certificate.inj (Option.some.inj (hread.symm.trans hwritten))
  exact ⟨id, env.serial, hdraw, rfl, rfl⟩

/-- What is known of a container that the engine created. -/
structure Tenancy (draws : List (String × UInt32)) (files : FileTree.Tree Pem)
    (container : Container) : Prop where
  valid : validContainerName container.name = true
  env : container.env = ConsentEngine.tenantEnv container.name
  minted : Minted draws (mountDir container.name) files

theorem Container.Continues.tenancy {container old : Container} {files : FileTree.Tree Pem}
    (hcontinues : container.Continues old) (htenancy : Tenancy draws files old) :
    Tenancy draws files container where
  valid := hcontinues.name ▸ htenancy.valid
  env := by rw [hcontinues.env, hcontinues.name, htenancy.env]
  minted := hcontinues.name ▸ htenancy.minted

/-- Serial numbers in rows and in certificates of tenants come from the draws.  A row of a
consent message has the number 0. -/
structure Sourced (draws : List (String × UInt32)) (world : World) : Prop where
  rows : ∀ row ∈ world.consents, row.serialNumber = 0 ∨
    validContainerName row.id = true ∧
      ∃ serial, (row.id, serial) ∈ draws ∧ row.serialNumber = serial.toInt32
  containers : ∀ container ∈ world.containers, container.ofEngine = true →
    Tenancy draws world.files container

theorem Sourced.of_initial (hinitial : world.Initial) : Sourced draws world where
  rows row hrow := by
    rw [hinitial.consents] at hrow
    exact absurd hrow (Table.not_mem_empty row)
  containers container hcontainer hengine := by
    rw [hinitial.containers container hcontainer] at hengine
    cases hengine

theorem Sourced.mono (hsourced : Sourced draws world) (more : List (String × UInt32)) :
    Sourced (draws ++ more) world where
  rows row hrow := by
    rcases hsourced.rows row hrow with hzero | ⟨hvalid, serial, hmem, hserial⟩
    · exact .inl hzero
    · exact .inr ⟨hvalid, serial, List.mem_append_left more hmem, hserial⟩
  containers container hcontainer hengine :=
    have htenancy := hsourced.containers container hcontainer hengine
    ⟨htenancy.valid, htenancy.env, htenancy.minted.mono more⟩

/-- Nothing that takes rows and containers away breaks the invariant. -/
theorem Sourced.of_subset (hsourced : Sourced draws world)
    (hrows : ∀ row ∈ after.consents, row ∈ world.consents)
    (hcontainers : ∀ container ∈ after.containers, container ∈ world.containers)
    (hfiles : after.files = world.files) : Sourced draws after where
  rows row hrow := hsourced.rows row (hrows row hrow)
  containers container hcontainer hengine := by
    rw [hfiles]
    exact hsourced.containers container (hcontainers container hcontainer) hengine

theorem Sourced.onboarded {purposes : List String} {outcome : Outcome String Unit}
    (hsourced : Sourced draws world) (hdraw : (id, env.serial) ∈ draws)
    (honboarded : Onboarded env id purposes world outcome after) : Sourced draws after where
  rows row hrow := by
    cases honboarded with
    | done hcreates hcreated hlaunched hview hconsents =>
        rcases (Table.mem_of_insert hconsents).mp hrow with hold | rfl
        · exact hsourced.rows row hold
        · exact .inr ⟨hcreates.2.2.2.1, env.serial, hdraw, rfl⟩
    | _ => exact hsourced.rows row hrow
  containers container hcontainer hengine := by
    have hminted {dir : FileTree.Path} (hdir : Minted draws dir world.files) :
        Minted draws dir after.files := by
      rcases honboarded.files with ⟨-, hfiles⟩ | ⟨-, hfiles⟩
      · rwa [hfiles]
      · rw [hfiles]
        exact hdir.rewrite hdraw
    rcases honboarded.container_cases hcontainer with
      ⟨old, hold, hcontinues⟩ | ⟨hcreates, hcontinues⟩
    · have htenancy := hsourced.containers old hold (hcontinues.ofEngine ▸ hengine)
      exact hcontinues.tenancy ⟨htenancy.valid, htenancy.env, hminted htenancy.minted⟩
    · -- the directory of the new tenant was written in full
      refine hcontinues.tenancy ⟨hcreates.2.2.2.1, rfl, ?_⟩
      rcases honboarded.files with ⟨hpasses, -⟩ | ⟨-, hfiles⟩
      · exact absurd hcreates.1 hpasses
      · rw [hfiles]
        exact .of_mount hcreates.2.1 hdraw

/-- Whatever request is served, and whatever fails: serial numbers keep their source. -/
theorem Sourced.step (hsourced : Sourced draws world) (hstep : Step env request world after) :
    Sourced (draws ++ request.draws env) after := by
  cases hstep with
  | idle => exact hsourced.mono _
  | onboard hrequest =>
      rename_i id purposes
      have hdraw : (id, env.serial) ∈ draws ++ request.draws env := by
        simp [Request.draws, hrequest]
      exact (hsourced.mono _).onboarded hdraw (onboardUser_spec rfl)
  | deboard hrequest =>
      rename_i id
      rcases hrun : ConsentEngine.deboardUser env id world with ⟨outcome, after⟩
      cases deboardUser_spec hrun with
      | refused hremove => exact hsourced.mono _
      | consentsKept hfault hname =>
          exact (hsourced.mono _).of_subset (fun _ hrow => hrow)
            (fun _ hcontainer => (Table.mem_delete.mp hcontainer).1) rfl
      | viewKept hfault hname =>
          exact (hsourced.mono _).of_subset (fun _ hrow => (Table.mem_delete.mp hrow).1)
            (fun _ hcontainer => (Table.mem_delete.mp hcontainer).1) rfl
      | done hname =>
          exact (hsourced.mono _).of_subset (fun _ hrow => (Table.mem_delete.mp hrow).1)
            (fun _ hcontainer => (Table.mem_delete.mp hcontainer).1) rfl
  | consent hinsert =>
      refine ⟨fun row hrow => ?_, ((hsourced.mono _).containers)⟩
      rcases (Table.mem_of_insert hinsert).mp hrow with hold | rfl
      · exact (hsourced.mono _).rows row hold
      · exact .inl rfl
  | intent hinsert =>
      exact (hsourced.mono _).of_subset (fun _ hrow => hrow) (fun _ hcontainer => hcontainer) rfl

end Tolla
