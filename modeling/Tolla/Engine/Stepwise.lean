import Tolla.Library.Mutex
import Tolla.Model.Service

/-!
# Handlers, one backend call after the other

`serve` makes all backend calls of a request at once.  A thread makes one after the other,
and between two of them the other threads run.  Here each handler is divided into its calls.

A `Stepwise` call carries the proof that its steps come to the call if nothing happens in
between.  It is built along the handler that it divides, so the division of `onboard_user`
reads as `onboard_user` does.  That nothing does happen in between is up to the lock.
-/

namespace Tolla

open Effects

/-- A call in steps, each of which finds the state as it is at that instant. -/
structure Stepwise {σ α : Type} (action : Action σ String α) where
  code : Mutex.Code σ (Outcome String α)
  run : ∀ state, code.run state = action state

namespace Stepwise

variable {σ α β : Type} {action : Action σ String α}

/-! ## Steps in a row -/

/-- The whole call is one step. -/
def once (action : Action σ String α) : Stepwise action where
  code := .once action
  run _ := rfl

/-- A call after a call, if the first returned a value. -/
def bind {next : α → Action σ String β} (first : Stepwise action)
    (second : ∀ value, Stepwise (next value)) : Stepwise (action >>= next) where
  code := first.code.bind fun
    | .ok value => (second value).code
    | .err error => .done (.err error)
    | .panic message => .done (.panic message)
  run state := by
    rw [Mutex.Code.run_bind, first.run, Action.bind_apply]
    rcases action state with ⟨value | error | message, after⟩
    · exact (second value).run after
    · rfl
    · rfl

/-- The caller looks at the error. -/
def attempt (call : Stepwise action) : Stepwise (Action.attempt action) where
  code := call.code.bind fun
    | .ok value => .done (.ok (.ok value))
    | .err error => .done (.ok (.error error))
    | .panic message => .done (.panic message)
  run state := by
    rw [Mutex.Code.run_bind, call.run]
    simp only [Action.attempt]
    rcases action state with ⟨value | error | message, after⟩
    · rfl
    · rfl
    · rfl

/-- One of two calls. -/
def either {P : Prop} [Decidable P] {other : Action σ String α} (call : Stepwise action)
    (alternative : Stepwise other) : Stepwise (if P then action else other) where
  code := if P then call.code else alternative.code
  run state := by
    split
    · exact call.run state
    · exact alternative.run state

def setWorld (world : World) (service : Service) : Service := { service with world := world }

/-- What a call leaves of the lock: a panic poisons it. -/
def unlock : Outcome String α → Mutex.Code Service (Outcome String α)
  | .panic message =>
      .step (fun service => { service with poisoned := true }) fun _ => .done (.panic message)
  | outcome => .done outcome

/-- A call under the lock, which is not made if the lock is poisoned. -/
def locked {call : Engine α} (steps : Stepwise call) : Stepwise (Tolla.locked call) where
  code := .step id fun service =>
    if service.poisoned then
      .done (.panic "called `Result::unwrap()` on an `Err` value: PoisonError")
    else
      (steps.code.within Service.world setWorld).bind unlock
  run service := by
    obtain ⟨world, poisoned⟩ := service
    cases poisoned with
    | true => rfl
    | false =>
        have hwithin := Mutex.Code.run_within Service.world setWorld (fun _ _ => rfl)
          (fun _ _ _ => rfl) (fun _ => rfl) steps.code ⟨world, false⟩
        simp only [Mutex.Code.run, Tolla.locked, id_eq, Bool.false_eq_true, ↓reduceIte,
          Mutex.Code.run_bind, hwithin, steps.run]
        rcases call world with ⟨value | error | message, after⟩
        · rfl
        · rfl
        · rfl

/-! ## The engine -/

variable (env : Env)

/-- Creating a file and writing it are two calls. -/
def writeFile (dirname : String) (dir : FileTree.Path) (filename : String) (content : Pem) :
    Stepwise (StoreManager.writeFile env dirname dir filename content) :=
  either
    (bind (once (StoreManager.put env (.createFile filename) _ _)) fun _ =>
      once (StoreManager.put env (.writeFile filename) _ _))
    (once _)

def writeFiles (dirname : String) (dir : FileTree.Path) :
    ∀ files, Stepwise (StoreManager.writeFiles env dirname dir files)
  | [] => once _
  | (filename, content) :: rest =>
      bind (writeFile env dirname dir filename content) fun _ => writeFiles dirname dir rest

def newMountdir (contents : Fin 3 → String × Pem) (dirname : String) :
    Stepwise (StoreManager.newMountdir env contents dirname) :=
  bind (once (StoreManager.createDir env dirname)) fun dir => writeFiles env dirname dir _

def newContainer (image name : String) (vars : List String) :
    Stepwise (StoreManager.newContainer env image name vars) :=
  bind (once (StoreManager.create env _)) fun _ =>
    bind (once (StoreManager.start env name)) fun _ =>
      bind (once (StoreManager.inspect env name)) fun _ => once _

def onboardUser (id : String) (purposes : List String) :
    Stepwise (ConsentEngine.onboardUser env id purposes) :=
  bind (once (StoreManager.verifyContainerId env id)) fun _ => either (once _) <|
    bind (attempt (once (ConsentEngine.consentBasedView env id))) fun
      | .ok _ => once _
      | .error _ =>
          bind (once (Authority.createDbCertificate env)) fun _ =>
            bind (once Action.read) fun _ =>
              bind (newMountdir env _ (ConsentEngine.mountPath id)) fun _ =>
                bind (newContainer env "tenant" id (ConsentEngine.tenantEnv id)) fun _ =>
                  bind (once (ConsentEngine.registerView env _)) fun _ =>
                    once (ConsentEngine.addConsent env _)

def deboardUser (userId : String) : Stepwise (ConsentEngine.deboardUser env userId) :=
  bind (once (StoreManager.removeContainer env userId)) fun _ =>
    bind (once (Handle.consents.deleteOne env userId)) fun _ =>
      once (Handle.view.deleteOne env userId)

def handleCertRequest (request : Proto.Certificate) :
    Stepwise (ConsentEngine.handleCertRequest env request) :=
  bind (once (Authority.signCertificate env request.request request.intent)) fun _ =>
    bind (once (ConsentEngine.addIntent env _)) fun _ => once _

/-- The other messages need one call, or none. -/
def handleIncoming : ∀ message, Stepwise (ConsentEngine.handleIncoming env message)
  | ⟨some (.user u)⟩ => bind (attempt (onboardUser env u.userid _)) fun _ => once _
  | ⟨some (.certificateRequest r)⟩ => bind (handleCertRequest env r) fun _ => once _
  | ⟨none⟩ => once _
  | ⟨some (.consent _)⟩ => once _
  | ⟨some (.intent _)⟩ => once _
  | ⟨some (.requestIps _)⟩ => once _

/-! ## The handlers -/

/-- Queries and leases need one call. -/
def serve : ∀ request, Stepwise (Tolla.serve env request)
  | .query _ => once _
  | .register (.error _) => once _
  | .register (.ok user) =>
      bind (bind (attempt (locked (onboardUser env user.id user.purposes))) fun
        | .ok _ => once _
        | .error _ => once _) fun _ => once _
  | .remove user =>
      bind (bind (attempt (locked (deboardUser env (user.getD "/")))) fun
        | .ok _ => once _
        | .error _ => once _) fun _ => once _
  | .lease _ => once _
  | .message message => bind (locked (handleIncoming env message)) fun _ => once _

end Stepwise

end Tolla
