import Tolla.Engine.Reonboarding

/-!
# Whose directory is written

The mount directory of a user is `/tmp/certificates/` with the id behind it, and
nobody looks at what the id is made of.  The daemon refuses an id that is not a
container name, but only after the files were written.  Two ids lead to the same
directory if the walk along their names ends at the same place: `alice/`,
`./alice` and `x/../alice` all end where `alice` does.  A `.` at the end makes no
directory, so `bob/.` leads nowhere as long as `bob` is missing.

`Keeps` is the frame condition: a call leaves what a path holds.  With it,
`mount_keeps` says that only the files of the directory that the id leads to can
change, and `leavesAlone_iff` says when those of an onboarded user do.
-/

namespace Tolla

open Effects Keyed

variable {env : Env} {id v : String} {world after : World} {service : Service}

/-! ## What is left alone -/

/-- Nothing is written if all paths are too long. -/
theorem writeFiles_unacceptable {dirname : String} {contents : List (String × Pem)}
    (hlong : ∀ file ∈ contents, ¬ FileTree.acceptable (dirname ++ "/" ++ file.1) = true)
    (env : Env) (dir : FileTree.Path) (world : World) :
    (StoreManager.writeFiles env dirname dir contents world).2 = world := by
  cases contents with
  | nil => rfl
  | cons file rest =>
      have hfail : StoreManager.writeFile env dirname dir file.1 file.2 world =
          (.err (env.rejection (.createFile file.1)), world) := by
        unfold StoreManager.writeFile
        rw [if_neg (hlong file List.mem_cons_self)]
        rfl
      rw [StoreManager.writeFiles, Action.bind_of_err hfail]

theorem createDir_keeps (env : Env) (path : FileTree.Path) (dirname : String) :
    Action.Returns (Keeps path) (StoreManager.createDir env dirname) := by
  apply call_returns
  intro world
  simp only
  split
  · have hkeeps : ∀ node, world.files path = some node →
        (FileTree.createDirAll (FileTree.names dirname) [] world.files).2 path = some node :=
      fun node hnode => FileTree.createDirAll_of_some hnode _ _
    split <;> rename_i heq <;> rw [heq] at hkeeps <;> exact ⟨hkeeps, by simp⟩
  · exact ⟨Std.Refl.refl world, by simp⟩

/-- Nothing is written but in the directory that the id leads to. -/
theorem mount_keeps {path : FileTree.Path} (hpath : ∀ name, path ≠ name :: mountDir id)
    (env : Env) (world : World) : Keeps path world (mount env id world).2 := by
  have hcreate := (createDir_keeps env path (ConsentEngine.mountPath id) world).1
  rw [mount, StoreManager.newMountdir, Action.bind_apply]
  split
  · rename_i dir between hdir
    rw [hdir] at hcreate
    obtain rfl : dir = mountDir id := FileTree.createDirAll_dir (by rw [(createDir_ok hdir).2])
    exact IsTrans.trans _ _ _ hcreate (writeFiles_keeps (fun file _ => hpath file.1) _ _ _).1
  · rename_i error between hdir
    rwa [hdir] at hcreate
  · rename_i message between hdir
    rwa [hdir] at hcreate

/-! ## The directory of a user -/

/-- No onboarding of `id`, whatever comes of it, changes the files of the user `v`. -/
def LeavesAlone (id v : String) (world : World) : Prop :=
  ∀ env purposes, ∀ name ∈ mountNames,
    (ConsentEngine.onboardUser env id purposes world).2.files (name :: mountDir v) =
      world.files (name :: mountDir v)

/-- The walk along the names of `id` ends in the directory of `v`: it meets no file
and no name that is too long, and does not end with a `.` in a directory that is
missing.  One of the files has a path that is short enough, and `id` is not what the
code refuses, a slash followed by the name of a running container. -/
structure Reaches (id v : String) (world : World) : Prop where
  dir : mountDir id = mountDir v
  enters : (FileTree.createDirAll (FileTree.names (ConsentEngine.mountPath id)) []
    world.files).1 ≠ none
  acceptable : ∃ name ∈ mountNames,
    FileTree.acceptable (ConsentEngine.mountPath id ++ "/" ++ name) = true
  unlisted : ∀ container ∈ world.containers, container.running = true →
    "/" ++ container.name ≠ id

theorem Passes.unlisted (hpasses : Passes env id world) {container : Container}
    (hcontainer : container ∈ world.containers) (hrunning : container.running = true) :
    "/" ++ container.name ≠ id := by
  intro hname
  have hverify := hpasses.1
  cases hfault : env.fault .listContainers with
  | some error =>
      have hlist : StoreManager.containerById env id world = (.err error, world) :=
        Action.bind_of_err (call_of_fault hfault) _
      rw [StoreManager.verifyContainerId, Action.bind_of_err hlist] at hverify
      cases hverify
  | none =>
      rw [verifyContainerId_eq hfault] at hverify
      have hnone := List.any_eq_false.mp (Outcome.ok.inj hverify) container hcontainer
      simp [hrunning, hname] at hnone

/-- If the walk does not end in the directory of `v`, its files stay. -/
theorem mountedFiles_of_not_reaches (hmounted : Mounted v world.files)
    (hpasses : Passes env id world) (hreaches : ¬ Reaches id v world) {name : String}
    (hname : name ∈ mountNames) :
    mountedFiles env id world (name :: mountDir v) = world.files (name :: mountDir v) := by
  obtain ⟨-, content, hcontent⟩ := hmounted.file name hname
  rw [hcontent]
  by_cases hdir : mountDir id = mountDir v
  swap
  · exact mount_keeps (fun _ heq => hdir (List.cons.inj heq).2.symm) env world _ hcontent
  have hcreate := (createDir_keeps env (name :: mountDir v) (ConsentEngine.mountPath id) world).1 _
    hcontent
  rw [mountedFiles, mount, StoreManager.newMountdir, Action.bind_apply]
  split
  · -- the directory is there, so no path to a file in it is short enough
    rename_i dir between hok
    rw [hok] at hcreate
    have hlong : ∀ file ∈ mountList env (drawnFiles env world),
        ¬ FileTree.acceptable (ConsentEngine.mountPath id ++ "/" ++ file.1) = true := by
      intro file hfile haccepted
      obtain ⟨index, rfl⟩ := mem_mountList.mp hfile
      rw [drawnFiles_name] at haccepted
      apply hreaches
      refine ⟨hdir, ?_, ⟨_, List.get_mem mountNames index, haccepted⟩, fun _ => hpasses.unlisted⟩
      rw [(createDir_ok hok).2]
      simp
    rw [mountList, drawnFiles] at hlong
    rwa [writeFiles_unacceptable hlong]
  · rename_i error between herror
    rwa [herror] at hcreate
  · rename_i message between hpanic
    rwa [hpanic] at hcreate

/-- A walk that meets no obstacle ends in the directory of `id`, and leaves what is
there. -/
theorem createDir_of_enters (hfaultless : env.Faultless)
    (hpath : FileTree.acceptable (ConsentEngine.mountPath id) = true)
    (henters : (FileTree.createDirAll (FileTree.names (ConsentEngine.mountPath id)) []
      world.files).1 ≠ none) :
    ∃ between, StoreManager.createDir env (ConsentEngine.mountPath id) world =
        (.ok (mountDir id), between) ∧
      ∀ path node, world.files path = some node → between.files path = some node := by
  obtain ⟨dir, hwalk⟩ := Option.ne_none_iff_exists'.mp henters
  obtain rfl : dir = mountDir id := FileTree.createDirAll_dir hwalk
  refine ⟨{ world with files := (FileTree.createDirAll
    (FileTree.names (ConsentEngine.mountPath id)) [] world.files).2 }, ?_, ?_⟩
  · unfold StoreManager.createDir
    rw [call_of_none (hfaultless _), if_pos hpath,
      ← Prod.mk.eta (p := FileTree.createDirAll _ _ _), hwalk]
  · intro path node hnode
    exact FileTree.createDirAll_of_some hnode _ _

/-- If it ends there, the key of the user is replaced, although every call works. -/
theorem mountedFiles_of_reaches (hmounted : Mounted v world.files) (hreaches : Reaches id v world)
    (hfaultless : env.Faultless) (horder : env.order = Equiv.swap 0 1) :
    mountedFiles env id world ("keys.pem" :: mountDir v) =
      some (.file (.privateKey env.keyPair)) := by
  obtain ⟨hdir, henters, ⟨name, hname, haccepted⟩, -⟩ := hreaches
  -- `keys.pem` is the shortest of the names
  have hshort : "/keys.pem".utf8ByteSize ≤ ("/" ++ name).utf8ByteSize := by
    rw [mountNames, List.mem_cons, List.mem_cons, List.mem_singleton] at hname
    rcases hname with rfl | rfl | rfl <;> decide
  rw [String.append_assoc] at haccepted
  have hkeys : FileTree.acceptable (ConsentEngine.mountPath id ++ "/" ++ "keys.pem") = true := by
    rw [String.append_assoc]
    exact FileTree.acceptable_append haccepted (by decide) hshort
  have hpath : FileTree.acceptable (ConsentEngine.mountPath id) = true := by
    rw [← String.append_empty (s := ConsentEngine.mountPath id)]
    exact FileTree.acceptable_append haccepted (by decide) (Nat.zero_le _)
  obtain ⟨-, old, hold⟩ := hmounted.file "keys.pem" (by decide)
  obtain ⟨between, hcreate, hstays⟩ := createDir_of_enters hfaultless hpath henters
  -- the key is the first file to be written, and the others have other names
  have hlist : (List.finRange 3).map (fun index => drawnFiles env world (env.order index)) =
      [("keys.pem", .privateKey env.keyPair), drawnFiles env world 0, drawnFiles env world 2] := by
    rw [horder]
    rfl
  have hfile := hstays _ _ hold
  rw [← hdir] at hfile ⊢
  rw [mountedFiles, mount, ← drawnFiles, StoreManager.newMountdir, Action.bind_of_ok hcreate, hlist,
    StoreManager.writeFiles, Action.bind_of_ok (writeFile_of_file hfaultless hkeys hfile _)]
  apply (writeFiles_keeps _ _ _ _).1
  · simp only [Function.update_self]
  · intro file hother heq
    rw [List.mem_pair] at hother
    have hname := (List.cons.inj heq).1
    rcases hother with rfl | rfl
    · rw [drawnFiles_name] at hname
      exact absurd hname (by decide)
    · rw [drawnFiles_name] at hname
      exact absurd hname (by decide)

/-- In every state that the engine reaches: the files of an onboarded user are safe
from the onboarding of `id` if and only if `id` does not lead to them. -/
theorem leavesAlone_iff (hinitial : service.Initial) {inputs : List (Env × Request)}
    (hcurrent : CurrentlyOnboarded v inputs service) (id : String) :
    LeavesAlone id v (run inputs service).world ↔ ¬ Reaches id v (run inputs service).world := by
  have hmounted := hcurrent.tenanted.mounted
  have hviews := views_empty hinitial inputs
  generalize (run inputs service).world = world at hmounted hviews ⊢
  constructor
  · intro halone hreaches
    obtain ⟨-, old, hold⟩ := hmounted.file "keys.pem" (by decide)
    -- a key that is not the one in the file
    obtain ⟨key, hkey⟩ : ∃ key, Pem.privateKey key ≠ old := by
      by_cases hsame : Pem.privateKey ⟨0, 0⟩ = old
      · exact ⟨⟨1, 0⟩, by rw [← hsame]; decide⟩
      · exact ⟨⟨0, 0⟩, hsame⟩
    let env : Env := { Env.calm 0 with keyPair := key, order := Equiv.swap 0 1 }
    have hfaultless : env.Faultless := Env.calm_faultless 0
    have hpasses := passes_of_unlisted hfaultless hviews hreaches.unlisted
    have hsame := halone env [] "keys.pem" (by decide)
    have hwritten := mountedFiles_of_reaches hmounted hreaches hfaultless rfl
    rcases hrun : ConsentEngine.onboardUser env id [] world with ⟨outcome, after⟩
    rw [hrun] at hsame
    have hfiles : after.files = mountedFiles env id world := by
      rcases (onboardUser_spec hrun).files with ⟨hrefused, -⟩ | ⟨-, hfiles⟩
      · exact absurd hpasses hrefused
      · exact hfiles
    rw [hfiles, hwritten, hold] at hsame
    exact hkey (FileTree.Node.file.inj (Option.some.inj hsame))
  · intro hreaches env purposes name hname
    rcases hrun : ConsentEngine.onboardUser env id purposes world with ⟨outcome, after⟩
    rcases (onboardUser_spec hrun).files with ⟨-, hfiles⟩ | ⟨hpasses, hfiles⟩
    · rw [hfiles]
    · rw [hfiles]
      exact mountedFiles_of_not_reaches hmounted hpasses hreaches hname

/-- Alice is onboarded, and then somebody who calls himself `alice/`. -/
theorem alice_overwritten :
    ¬ ∀ service : Service, service.Initial → ∀ (inputs : List (Env × Request)) (v : String),
      CurrentlyOnboarded v inputs service → ∀ id, id ≠ v →
        LeavesAlone id v (run inputs service).world := by
  intro hall
  have halone := hall Service.blank Service.blank_initial
    [(Env.calm 7, .register (.ok ⟨"alice", ["research"]⟩))] "alice" currentlyOnboarded_alice
    "alice/" (by decide)
  exact absurd (halone (Env.calm 8) [] "certificate.pem" (by decide)) (by decide)

/-- Bob has a directory of his own. -/
theorem leavesAlone_iff_bob :
    LeavesAlone "bob" "alice"
        (run [(Env.calm 7, .register (.ok ⟨"alice", ["research"]⟩))] Service.blank).world ↔
      ¬ Reaches "bob" "alice"
        (run [(Env.calm 7, .register (.ok ⟨"alice", ["research"]⟩))] Service.blank).world :=
  leavesAlone_iff Service.blank_initial currentlyOnboarded_alice "bob"

end Tolla
