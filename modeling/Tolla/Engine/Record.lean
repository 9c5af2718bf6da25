import Tolla.Engine.Reonboarding
import Tolla.Engine.Tenants

/-!
# What a successful onboarding leaves behind

`onboard_user` draws one serial number and uses it twice: in the certificate of
the tenant's database and in the row of `consents`.  If it returns `Ok`, every
call before it took effect, and `Enrolled` is the sum of these effects: a row in
each of two collections, a container, and a directory with a certificate, the
key that belongs to it and the root certificate.  The other rows and containers
stay as they were.
-/

namespace Tolla

open Effects Keyed

variable {env : Env} {id : String} {purposes : List String} {world after : World}

/-- The files of a mount directory belong together: a certificate with the serial
number, signed by the authority, the key that it is for, and the root
certificate. -/
structure Equipped (authority : Authority) (serial : UInt32) (dir : FileTree.Path)
    (files : FileTree.Tree Pem) : Prop where
  certificate : ∃ key certificate,
    FileTree.readFile files ("certificate.pem" :: dir) = some (.certificate certificate) ∧
    FileTree.readFile files ("keys.pem" :: dir) = some (.privateKey key) ∧
    certificate.serialNumber = serial.toNat ∧ certificate.signedBy = authority.keyPair.publicPart ∧
    certificate.publicKey = key.publicPart
  root : FileTree.readFile files ("CAcert.pem" :: dir) = some (.certificate authority.rootCtf)

/-- The tenant has its rows, its container and its files, all with the same serial
number, and the rows and containers of before are as they were. -/
structure Enrolled (id : String) (purposes : List String) (serial : UInt32)
    (before after : World) : Prop where
  consents : after.consents.rows = before.consents.rows ++
    [{ id := id, serialNumber := serial.toInt32, purpose := purposes }]
  tenant : ∃ container, ¬ before.containers.HasKey id ∧ container.name = id ∧
    after.containers.rows = before.containers.rows ++ [container] ∧
    after.view.rows = before.view.rows ++ [{ id := id, ip := container.ipAddress }]
  equipped : Equipped before.authority serial (mountDir id) after.files
  views : after.views = before.views
  intents : after.intents = before.intents
  authority : after.authority = before.authority

theorem Equipped.of_mount (hmount : (mount env id world).1 = .ok ()) :
    Equipped world.authority env.serial (mountDir id) (mountedFiles env id world) := by
  have hfile (index : Fin 3) : FileTree.readFile (mountedFiles env id world)
      ((drawnFiles env world index).1 :: mountDir id) = some (drawnFiles env world index).2 := by
    simp [FileTree.readFile, mount_exact hmount index]
  exact ⟨⟨env.keyPair, _, hfile 0, hfile 1, rfl, rfl, rfl⟩, hfile 2⟩

/-- If `onboard_user` returns `Ok`, the tenant is recorded in full. -/
theorem onboarding_recorded (hfinds : env.Finds id)
    (hok : ConsentEngine.onboardUser env id purposes world = (.ok (), after)) :
    ∃ serial, Enrolled id purposes serial world after := by
  cases onboardUser_spec hok with
  | done hcreates hcreated hlaunched hview hconsents =>
      obtain ⟨rfl, rfl⟩ := hlaunched.eq hfinds hcreated
      refine ⟨env.serial, ?_, ?_, .of_mount hcreates.2.1, rfl, rfl, rfl⟩
      · exact (Table.insert_eq_some_iff.mp hconsents).2
      · refine ⟨{ tenant env id with running := true }, hcreates.2.2.2.2, rfl, ?_, ?_⟩
        · exact started_rows hcreated
        · exact (Table.insert_eq_some_iff.mp hview).2

/-- Alice is onboarded. -/
theorem onboarding_recorded_alice :
    ∃ serial, Enrolled "alice" ["research"] serial Service.blank.world
      (ConsentEngine.onboardUser (Env.calm 7) "alice" ["research"] Service.blank.world).2 := by
  have hlogical : (Env.calm 7).Logical := ⟨Env.calm_faultless 7, rfl⟩
  exact onboarding_recorded hlogical.finds (Prod.ext (by decide) rfl)

end Tolla
