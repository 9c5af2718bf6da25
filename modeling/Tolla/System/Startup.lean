import Tolla.Engine.Poison
import Tolla.Engine.Provenance
import Tolla.Engine.Record
import Tolla.Engine.Removal
import Tolla.Model.Startup
import Tolla.System.Leases
import Tolla.System.Serials

/-!
# From the onboarding to the first handshake

A tenant is onboarded by one program and served by another.  The engine writes three files
and four environment variables; the proxy reads them back when the container starts, and
what it gets out of them is a key pair, the root certificate, and the serial number with
which it will ask the engine.

`main_tenantEnv_iff` says what the proxy needs and what it has then.  What a successful
onboarding writes is enough, and it stays enough whatever is served afterwards, unless
somebody is onboarded whose id leads to the same directory.  The proxy then lets in exactly
the clients whose intent is among the purposes of the tenant (`onboarded_serves`).
-/

namespace Tolla

open Effects Keyed

variable {id : String} {files : FileTree.Tree Pem} {service : Service} {input : Env × Request}

/-! ## The environment of a container -/

theorem splitVariable_append {name : String} (hname : '=' ∉ name.toList) (value : String) :
    splitVariable (name ++ "=" ++ value) = (name, value) := by
  have htext : (name ++ "=" ++ value).toList = name.toList ++ '=' :: value.toList := by simp
  have hne : ∀ c ∈ name.toList, (decide (c ≠ '=')) = true := by
    intro c hc
    rw [decide_eq_true_iff]
    rintro rfl
    exact hname hc
  rw [splitVariable, htext, List.takeWhile_append_of_pos hne, List.dropWhile_append_of_pos hne]
  simp

/-- The four variables that `main` asks for. -/
theorem getenv_tenantEnv (id : String) :
    getenv (ConsentEngine.tenantEnv id) "LISTEN_ADDR" = ":8080" ∧
    getenv (ConsentEngine.tenantEnv id) "DB_ADDR" = "27017" ∧
    getenv (ConsentEngine.tenantEnv id) "CA_ADDR" = "8080" ∧
    getenv (ConsentEngine.tenantEnv id) "PEM_FOLDER" = ConsentEngine.mountPath id := by
  have hname : '=' ∉ "PEM_FOLDER".toList := by simp
  have hfront : "PEM_FOLDER=/tmp/certificates/" =
      "PEM_FOLDER" ++ "=" ++ "/tmp/certificates/" := by decide +kernel
  have hfolder : splitVariable ("PEM_FOLDER=/tmp/certificates/" ++ id) =
      ("PEM_FOLDER", ConsentEngine.mountPath id) := by
    calc splitVariable ("PEM_FOLDER=/tmp/certificates/" ++ id)
      _ = splitVariable ("PEM_FOLDER" ++ "=" ++ "/tmp/certificates/" ++ id) :=
          congrArg (fun text => splitVariable (text ++ id)) hfront
      _ = splitVariable ("PEM_FOLDER" ++ "=" ++ ConsentEngine.mountPath id) :=
          congrArg splitVariable (String.append_assoc ..)
      _ = ("PEM_FOLDER", ConsentEngine.mountPath id) := splitVariable_append hname _
  have hlisten : splitVariable "LISTEN_ADDR=:8080" = ("LISTEN_ADDR", ":8080") := by decide +kernel
  have hdb : splitVariable "DB_ADDR=27017" = ("DB_ADDR", "27017") := by decide +kernel
  have hca : splitVariable "CA_ADDR=8080" = ("CA_ADDR", "8080") := by decide +kernel
  simp [getenv, ConsentEngine.tenantEnv, hfolder, hlisten, hdb, hca]

theorem mountPath_ne_empty (id : String) : ConsentEngine.mountPath id ≠ "" := by
  intro hempty
  have htext : (ConsentEngine.mountPath id).toList = "/tmp/certificates/".toList ++ id.toList :=
    String.toList_append
  have hfront : "/tmp/certificates/".toList ≠ [] := by simp
  rw [hempty, String.toList_empty] at htext
  exact hfront (List.append_eq_nil_iff.mp htext.symm).1

/-! ## What `main` reads -/

theorem bind_eq_ok_iff {ε α β : Type} {result : Except ε α} {next : α → Except ε β} {value : β} :
    (result >>= next) = .ok value ↔ ∃ found, result = .ok found ∧ next found = .ok value := by
  cases result with
  | error error => simp [bind, Except.bind]
  | ok found => simp [bind, Except.bind]

theorem readPem_eq_ok_iff {folder filename : String} {content : Pem} :
    readPem files folder filename = .ok content ↔
      FileTree.openFile files folder filename = some content := by
  unfold readPem
  cases FileTree.openFile files folder filename with
  | none => simp
  | some other => simp

theorem x509KeyPair_eq_ok_iff {certFile keyFile : Pem} {certificate : X509} {key : PKey} :
    x509KeyPair certFile keyFile = .ok (certificate, key) ↔
      certFile = .certificate certificate ∧ keyFile = .privateKey key ∧
        certificate.publicKey = key.publicPart := by
  cases certFile with
  | empty => simp [x509KeyPair]
  | privateKey other => simp [x509KeyPair]
  | certificate other =>
      cases keyFile with
      | empty => simp [x509KeyPair]
      | certificate another => simp [x509KeyPair]
      | privateKey another =>
          simp only [x509KeyPair, Pem.certificate.injEq, Pem.privateKey.injEq]
          split
          · rename_i hmatch
            constructor
            · intro hpair
              obtain ⟨rfl, rfl⟩ := Prod.mk.inj (Except.ok.inj hpair)
              exact ⟨rfl, rfl, hmatch⟩
            · rintro ⟨rfl, rfl, -⟩
              rfl
          · rename_i hmismatch
            constructor
            · intro hpair
              cases hpair
            · rintro ⟨rfl, rfl, hmatch⟩
              exact absurd hmatch hmismatch

/-- The proxy with what the files say. -/
def Startup.of (certificate : X509) (key : PKey) (root : Pem) (serialNumber : UInt64) :
    Startup where
  proxy := { serialNumber := serialNumber, leases := [] }
  portIncoming := ":8080"
  dbAddr := "27017"
  caAddr := "8080"
  certificate := certificate
  key := key
  clientCAs := appendCertsFromPem root

/-- A proxy of a tenant starts if and only if its three files can be opened, the first is a
certificate, the second is its key, and the serial number can be read. -/
theorem main_tenantEnv_iff {startup : Startup} :
    Proxy.main (ConsentEngine.tenantEnv id) files = .ok startup ↔
      ∃ certificate key root serialNumber,
        FileTree.openFile files (ConsentEngine.mountPath id) "certificate.pem" =
          some (.certificate certificate) ∧
        FileTree.openFile files (ConsentEngine.mountPath id) "keys.pem" =
          some (.privateKey key) ∧
        certificate.publicKey = key.publicPart ∧
        FileTree.openFile files (ConsentEngine.mountPath id) "CAcert.pem" = some root ∧
        Proxy.serialOf (Authority.serialElement certificate) = some serialNumber ∧
        startup = .of certificate key root serialNumber := by
  obtain ⟨hlisten, hdb, hca, hfolder⟩ := getenv_tenantEnv id
  have hrequired {name value : String} (hvalue : getenv (ConsentEngine.tenantEnv id) name = value)
      (hne : value ≠ "") : required (ConsentEngine.tenantEnv id) name = .ok value := by
    rw [required, hvalue, if_neg hne]
  unfold Proxy.main
  rw [hrequired hlisten (by decide), hrequired hdb (by decide), hrequired hca (by decide),
    hrequired hfolder (mountPath_ne_empty id)]
  simp only [bind_eq_ok_iff, Except.ok.injEq, exists_eq_left', readPem_eq_ok_iff]
  constructor
  · rintro ⟨certFile, hcert, keyFile, hkey, ⟨certificate, key⟩, hpair, root, hroot, raw, hraw,
      serialNumber, hserial, hstartup⟩
    obtain ⟨rfl, rfl, hmatch⟩ := x509KeyPair_eq_ok_iff.mp hpair
    -- the certificate is read twice
    obtain rfl := Option.some.inj (hraw.symm.trans hcert)
    refine ⟨certificate, key, root, serialNumber, hcert, hkey, hmatch, hroot, ?_, ?_⟩
    · simp only [parseServerCert] at hserial
      cases hread : Proxy.serialOf (Authority.serialElement certificate) with
      | none =>
          rw [hread] at hserial
          cases hserial
      | some number =>
          rw [hread] at hserial
          rw [Except.ok.inj hserial]
    · exact (Except.ok.inj hstartup).symm
  · rintro ⟨certificate, key, root, serialNumber, hcert, hkey, hmatch, hroot, hserial, rfl⟩
    refine ⟨_, hcert, _, hkey, (certificate, key), x509KeyPair_eq_ok_iff.mpr ⟨rfl, rfl, hmatch⟩,
      root, hroot, _, hcert, serialNumber, ?_, rfl⟩
    simp [parseServerCert, hserial]

/-! ## The first question -/

/-- A proxy with the serial number that was drawn. -/
def Proxy.asking (serial : UInt32) (leases : List Proxy.Lease) : Proxy where
  serialNumber := UInt64.ofNat serial.toNat
  leases := leases

/-- The query of a proxy asks about the serial number that was drawn. -/
theorem asks_leaseQuery (serial : UInt32) (leases : List Proxy.Lease) (intent : List UInt8) :
    Asks ((Proxy.asking serial leases).leaseQuery intent) serial (Text.fromUtf8Lossy intent) := by
  have hlt : serial.toNat < 2 ^ 32 := serial.toNat_lt
  refine ⟨_, toString serial.toNat, urlEncodedQuery_leaseQuery _ intent, ?_, ?_, ?_⟩
  · simp [firstValue, Proxy.asking]
  · simp [firstValue]
  · rw [parseU32_of_lt hlt, UInt32.ofNat_toNat]

theorem leaseHandle_leaseQuery (env : Env) (serial : UInt32) (leases : List Proxy.Lease)
    (intent : List UInt8) (service : Service) :
    Lease.handle env ((Proxy.asking serial leases).leaseQuery intent) service =
      (Action.attempt (locked (ConsentEngine.consentBySerialNum env serial)) >>=
        Lease.answer (Text.fromUtf8Lossy intent)) service := by
  have hasks := asks_leaseQuery serial leases intent
  rcases leaseHandle_cases env ((Proxy.asking serial leases).leaseQuery intent) service with
    ⟨hsilent, -⟩ | ⟨number, text, hother, heq⟩
  · exact absurd hasks (hsilent _ _)
  · obtain ⟨rfl, rfl⟩ := hasks.unique hother
    exact heq

/-- If one row has the serial number, its purposes decide. -/
theorem assertPermissions_iff {env : Env} {row : Consent} {serial : UInt32}
    (hhealthy : service.poisoned = false) (hworks : ¬ env.Fails (.findOne .consents))
    (hunique : SerialsUnique service.world) (hrow : row ∈ service.world.consents)
    (hserial : row.serialNumber = serial.toInt32) (leases : List Proxy.Lease)
    (intent : List UInt8) :
    (assertPermissions env .works intent (.asking serial leases, service)).1 = .ok () ↔
      Text.fromUtf8Lossy intent ∈ row.purpose := by
  obtain ⟨world, poisoned⟩ := service
  obtain rfl : poisoned = false := hhealthy
  have hlookup : ConsentEngine.consentBySerialNum env serial world = (.ok row, world) := by
    rcases consentBySerialNum_cases env serial world with
      ⟨error, hfault, -⟩ | ⟨-, ⟨other, hother, hnumber, hfound⟩ | ⟨hnone, -⟩⟩
    · exact absurd ⟨error, hfault⟩ hworks
    · rwa [hunique other hother row hrow (hnumber.trans hserial.symm)] at hfound
    · exact absurd hserial (hnone row hrow)
  have hattempt : Action.attempt (locked (ConsentEngine.consentBySerialNum env serial))
      ⟨world, false⟩ = (.ok (.ok row), ⟨world, false⟩) := by
    simp [Action.attempt, locked, hlookup]
  simp only [assertPermissions, leaseHandle_leaseQuery, Action.bind_of_ok hattempt, Lease.answer]
  by_cases hintent : Text.fromUtf8Lossy intent ∈ row.purpose
  · simp [hintent]
  · simp [hintent]

/-- If there is none, the engine unwinds under the lock. -/
theorem assertPermissions_unrecorded {env : Env} {serial : UInt32} (world : World)
    (hworks : ¬ env.Fails (.findOne .consents))
    (hnone : ∀ row ∈ world.consents, row.serialNumber ≠ serial.toInt32)
    (leases : List Proxy.Lease) (intent : List UInt8) :
    assertPermissions env .works intent (.asking serial leases, ⟨world, false⟩) =
      (.err "Access denied", .asking serial leases, ⟨world, true⟩) := by
  obtain ⟨message, hlookup⟩ : ∃ message,
      ConsentEngine.consentBySerialNum env serial world = (.panic message, world) := by
    have hworld := consentBySerialNum_respects env serial world
    rcases consentBySerialNum_cases env serial world with
      ⟨error, hfault, -⟩ | ⟨-, ⟨row, hrow, hnumber, -⟩ | ⟨-, message, hpanics⟩⟩
    · exact absurd ⟨error, hfault⟩ hworks
    · exact absurd hnumber (hnone row hrow)
    · exact ⟨message, Prod.ext hpanics hworld.symm⟩
  have hattempt : Action.attempt (locked (ConsentEngine.consentBySerialNum env serial))
      ⟨world, false⟩ = (.panic message, ⟨world, true⟩) := by
    simp [Action.attempt, locked, hlookup]
  simp only [assertPermissions, leaseHandle_leaseQuery, Action.bind_of_panic hattempt]

/-- A proxy that has just started has no lease, and asks the engine. -/
theorem verifyPeerCertificate_of_started {now : Nat} {env : Env} {link : Link} {serial : UInt32}
    {verifiedChains : List (List Certificate)} {cert : Certificate} {ext : Asn1.Extension}
    {intent : List UInt8} (hselected : intentExtension verifiedChains = some (cert, ext))
    (hintent : decodeIntent ext.value = .ok intent) :
    verifyPeerCertificate now env link verifiedChains (.asking serial [], service) =
      (assertPermissions env link intent >>= fun _ => addLease ⟨cert, now⟩)
        (.asking serial [], service) := by
  have hfind : findLease now cert (.asking serial [], service) =
      (.ok false, .asking serial [], service) := rfl
  unfold verifyPeerCertificate
  simp only [hselected]
  rw [Action.bind_of_ok hfind]
  simp [hintent]

theorem admitted_iff {now : Nat} {env : Env} {link : Link} {serial : UInt32}
    {verifiedChains : List (List Certificate)} {cert : Certificate} {ext : Asn1.Extension}
    {intent : List UInt8} (hselected : intentExtension verifiedChains = some (cert, ext))
    (hintent : decodeIntent ext.value = .ok intent) :
    (verifyPeerCertificate now env link verifiedChains (.asking serial [], service)).1 = .ok () ↔
      (assertPermissions env link intent (.asking serial [], service)).1 = .ok () := by
  rw [verifyPeerCertificate_of_started hselected hintent]
  rcases hassert : assertPermissions env link intent (.asking serial [], service) with
    ⟨outcome, after⟩
  cases outcome with
  | ok value => simp [Action.bind_of_ok hassert, addLease]
  | err error => simp [Action.bind_of_err hassert]
  | panic message => simp [Action.bind_of_panic hassert]

/-! ## What stays -/

variable {env : Env} {request : Request} {world after : World}

theorem Step.authority (hstep : Step env request world after) :
    after.authority = world.authority := by
  cases hstep with
  | idle => rfl
  | onboard hrequest =>
      rename_i id purposes
      rcases hrun : ConsentEngine.onboardUser env id purposes world with ⟨outcome, after⟩
      cases onboardUser_spec hrun <;> rfl
  | deboard hrequest =>
      rename_i id
      rcases hrun : ConsentEngine.deboardUser env id world with ⟨outcome, after⟩
      cases deboardUser_spec hrun <;> rfl
  | consent hinsert => rfl
  | intent hinsert => rfl

theorem run_authority (inputs : List (Env × Request)) (service : Service) :
    (run inputs service).world.authority = service.world.authority := by
  refine Runs.exec_history
    (P := fun _ (state : Service) => state.world.authority = service.world.authority) rfl ?_ inputs
  intro inputs input hsame
  exact (serve_step input.1 input.2 (run inputs service)).authority.trans hsame

/-- The request onboards nobody whose id leads to the directory. -/
def Elsewhere (dir : FileTree.Path) (request : Request) : Prop :=
  ∀ id purposes, request.onboards = some (id, purposes) → mountDir id ≠ dir

theorem Step.file_kept {dir : FileTree.Path} {name : String}
    (hstep : Step env request world after) (helsewhere : Elsewhere dir request) :
    Keeps (name :: dir) world after := by
  cases hstep with
  | idle => exact Std.Refl.refl _
  | onboard hrequest =>
      rename_i id purposes
      have hdir := helsewhere id purposes hrequest
      rcases hrun : ConsentEngine.onboardUser env id purposes world with ⟨outcome, after⟩
      intro node hnode
      rcases (onboardUser_spec hrun).files with ⟨-, hfiles⟩ | ⟨-, hfiles⟩
      · rwa [hfiles]
      · have hpath : ∀ other, name :: dir ≠ other :: mountDir id := by
          intro other hsame
          exact hdir (List.cons.inj hsame).2.symm
        rw [hfiles]
        exact mount_keeps hpath env world node hnode
  | deboard hrequest =>
      rename_i id
      rcases hrun : ConsentEngine.deboardUser env id world with ⟨outcome, after⟩
      cases deboardUser_spec hrun <;> exact fun _ hnode => hnode
  | consent hinsert => exact fun _ hnode => hnode
  | intent hinsert => exact fun _ hnode => hnode

/-- The files of a directory hold what an onboarding drew. -/
structure Drawn (id : String) (env : Env) (authority : Authority)
    (files : FileTree.Tree Pem) : Prop where
  mounted : Mounted id files
  certificate : files ("certificate.pem" :: mountDir id) =
    some (.file (.certificate (authority.dbCertificate env.keyPair env.serial env.validity)))
  key : files ("keys.pem" :: mountDir id) = some (.file (.privateKey env.keyPair))
  root : files ("CAcert.pem" :: mountDir id) = some (.file (.certificate authority.rootCtf))

theorem Drawn.of_mount (hmount : (mount env id world).1 = .ok ()) :
    Drawn id env world.authority (mountedFiles env id world) where
  mounted := .of_mount hmount
  certificate := mount_exact hmount 0
  key := mount_exact hmount 1
  root := mount_exact hmount 2

theorem Drawn.step {authority : Authority}
    (hdrawn : Drawn id env authority service.world.files)
    (helsewhere : Elsewhere (mountDir id) input.2) :
    Drawn id env authority (step input service).world.files := by
  have hstep := serve_step input.1 input.2 service
  exact ⟨hdrawn.mounted.mono hstep.files_grow, hstep.file_kept helsewhere _ hdrawn.certificate,
    hstep.file_kept helsewhere _ hdrawn.key, hstep.file_kept helsewhere _ hdrawn.root⟩

theorem serialOf_serialElement {certificate : X509} {serial : UInt32}
    (hserial : certificate.serialNumber = serial.toNat) :
    Proxy.serialOf (Authority.serialElement certificate) = some (UInt64.ofNat serial.toNat) := by
  have hlt : serial.toNat < 2 ^ 32 := serial.toNat_lt
  rw [Proxy.serialOf, Authority.serialElement, hserial, Asn1.unmarshalBigInt_natural hlt]
  rfl

/-- These files are enough to start a proxy. -/
theorem Drawn.main {authority : Authority} (hdrawn : Drawn id env authority files) :
    Proxy.main (ConsentEngine.tenantEnv id) files =
      .ok (.of (authority.dbCertificate env.keyPair env.serial env.validity) env.keyPair
        (.certificate authority.rootCtf) (UInt64.ofNat env.serial.toNat)) := by
  have hopen {name : String} {content : Pem} (hname : name ∈ mountNames)
      (hfile : files (name :: mountDir id) = some (.file content)) :
      FileTree.openFile files (ConsentEngine.mountPath id) name = some content := by
    have henters := FileTree.enters_of_createDirAll (by rw [hdrawn.mounted.enters])
    rw [hdrawn.mounted.enters] at henters
    have hread : FileTree.readFile files (name :: mountDir id) = some content := by
      simp [FileTree.readFile, hfile]
    exact (FileTree.openFile_of_enters (hdrawn.mounted.file name hname).1 henters).trans hread
  exact main_tenantEnv_iff.mpr ⟨_, env.keyPair, _, _,
    hopen (by simp [mountNames]) hdrawn.certificate, hopen (by simp [mountNames]) hdrawn.key, rfl,
    hopen (by simp [mountNames]) hdrawn.root, serialOf_serialElement rfl, rfl⟩

/-! ## Onboarded tenants are served -/

/-- Every container of the tenant starts a proxy: with the key pair and the root
certificate of the engine, and with the tenant's serial number, for which it lets in the
clients whose intent is among the purposes. -/
structure Serves (id : String) (purposes : List String) (env : Env) (service : Service)
    (startup : Startup) : Prop where
  starts : ∀ container ∈ service.world.containers, container.name = id →
    Proxy.main container.env service.world.files = .ok startup
  proxy : startup.proxy = .asking env.serial []
  certificate : startup.certificate =
    service.world.authority.dbCertificate env.keyPair env.serial env.validity
  key : startup.key = env.keyPair
  clientCAs : startup.clientCAs = [service.world.authority.rootCtf]
  admits : service.poisoned = false → ∀ now surroundings verifiedChains cert ext intent,
    ¬ Env.Fails surroundings (.findOne .consents) →
    intentExtension verifiedChains = some (cert, ext) → decodeIntent ext.value = .ok intent →
    ((verifyPeerCertificate now surroundings .works verifiedChains (startup.proxy, service)).1 =
      .ok () ↔ Text.fromUtf8Lossy intent ∈ purposes)

/-- What the onboarding wrote for the proxy and for the engine. -/
structure Provided (id : String) (purposes : List String) (env : Env) (authority : Authority)
    (world : World) : Prop where
  drawn : Drawn id env authority world.files
  row : (⟨id, env.serial.toInt32, purposes⟩ : Consent) ∈ world.consents

theorem OnboardOk.provided (honboard : OnboardOk id service input) :
    ∃ purposes, input.2.onboards = some (id, purposes) ∧
      Provided id purposes input.1 service.world.authority (step input service).world ∧
      ∃ container ∈ (step input service).world.containers, container.name = id := by
  obtain ⟨hhealthy, purposes, hrequest, hok⟩ := honboard
  have hworld : (step input service).world =
      (ConsentEngine.onboardUser input.1 id purposes service.world).2 :=
    step_onboards hhealthy hrequest
  rcases hrun : ConsentEngine.onboardUser input.1 id purposes service.world with ⟨outcome, after⟩
  rw [hrun] at hok hworld
  obtain rfl : outcome = .ok () := hok
  refine ⟨purposes, hrequest, ?_⟩
  rw [hworld]
  cases onboardUser_spec hrun with
  | done hcreates hcreated hlaunched hview hconsents =>
      refine ⟨⟨.of_mount hcreates.2.1, (Table.mem_of_insert hconsents).mpr (.inr rfl)⟩, ?_⟩
      obtain ⟨-, -, name, -, -, rfl, -⟩ := hlaunched
      exact hasKey_started.mpr ⟨_, (Table.mem_of_insert hcreated).mpr (.inr rfl), rfl⟩

theorem Provided.run {purposes : List String} {authority : Authority}
    {later : List (Env × Request)} {service : Service}
    (hprovided : Provided id purposes env authority service.world)
    (hleaves : Runs.Along step (LeavesOnboarded id) later service)
    (helsewhere : ∀ other ∈ later, Elsewhere (mountDir id) other.2) :
    Provided id purposes env authority (run later service).world := by
  induction later generalizing service with
  | nil => exact hprovided
  | cons first rest ih =>
      rw [List.forall_mem_cons] at helsewhere
      have hnext : Provided id purposes env authority (step first service).world :=
        ⟨hprovided.drawn.step helsewhere.1, row_kept_of_leavesOnboarded rfl hleaves.1 hprovided.row⟩
      exact ih hnext hleaves.2 helsewhere.2

/-- The containers of the engine have the environment of their name. -/
theorem sourced_run (hinitial : service.Initial) (inputs : List (Env × Request)) :
    Sourced (inputs.flatMap fun input => input.2.draws input.1) (run inputs service).world := by
  refine Runs.exec_history (P := fun inputs (state : Service) =>
    Sourced (inputs.flatMap fun input => input.2.draws input.1) state.world)
    (.of_initial hinitial.world) ?_ inputs
  intro inputs input hsourced
  rw [List.flatMap_append, List.flatMap_singleton]
  exact hsourced.step (serve_step input.1 input.2 (run inputs service))

/-- A tenant that was onboarded is served, as long as it is not deboarded and its directory
is left alone. -/
theorem OnboardOk.serves (hinitial : service.Initial) {before later : List (Env × Request)}
    (honboard : OnboardOk id (run before service) input)
    (hfresh : Runs.Along step BringsFreshSerial (before ++ input :: later) service)
    (hleaves : Runs.Along step (LeavesOnboarded id) later (step input (run before service)))
    (helsewhere : ∀ other ∈ later, Elsewhere (mountDir id) other.2) :
    ∃ purposes startup, input.2.onboards = some (id, purposes) ∧
      Serves id purposes input.1 (run (before ++ input :: later) service) startup := by
  obtain ⟨purposes, hrequest, hprovided, -⟩ := honboard.provided
  have hunique : SerialsUnique (run (before ++ input :: later) service).world :=
    Runs.exec_along (P := fun (state : Service) => SerialsUnique state.world)
      (fun _ _ => serialsUnique_step) hfresh (.of_initial hinitial)
  have howned : Owned id (run (before ++ input :: later) service).world := by
    rw [run_append_cons]
    exact Runs.exec_along (P := fun (state : Service) => Owned id state.world)
      (fun _ input _ howned => howned.step input) hleaves honboard.owned
  have hsourced := sourced_run hinitial (before ++ input :: later)
  have hauthority := run_authority (before ++ input :: later) service
  have hreached := hprovided.run hleaves helsewhere
  rw [run_authority before service, ← hauthority, ← run_append_cons] at hreached
  refine ⟨purposes, .of _ _ (.certificate _) _, hrequest, ?_, rfl, rfl, rfl, rfl, ?_⟩
  · intro container hmem hname
    rw [(hsourced.containers container hmem (howned container hmem hname)).env, hname]
    exact hreached.drawn.main
  · intro hhealthy now surroundings verifiedChains cert ext intent hworks hselected hintent
    exact (admitted_iff hselected hintent).trans
      (assertPermissions_iff hhealthy hworks hunique hreached.row rfl [] intent)

/-- After a successful onboarding and any run that neither deboards the tenant nor onboards
somebody whose id leads to the same directory, the tenant's container starts and serves.
It is there as long as no removal asks the daemon for it, by whatever reference. -/
theorem onboarded_serves (hinitial : service.Initial) {before later : List (Env × Request)}
    (honboard : OnboardOk id (run before service) input)
    (hfresh : Runs.Along step BringsFreshSerial (before ++ input :: later) service)
    (hleaves : Runs.Along step (LeavesOnboarded id) later (step input (run before service)))
    (helsewhere : ∀ other ∈ later, Elsewhere (mountDir id) other.2) :
    (Runs.Along step (LeavesContainer id) later (step input (run before service)) →
      (run (before ++ input :: later) service).world.containers.HasKey id) ∧
    ∃ purposes startup, input.2.onboards = some (id, purposes) ∧
      Serves id purposes input.1 (run (before ++ input :: later) service) startup := by
  refine ⟨fun hkept => ?_, honboard.serves hinitial hfresh hleaves helsewhere⟩
  obtain ⟨purposes, -, -, hcontainer⟩ := honboard.provided
  rw [run_append_cons]
  exact Runs.exec_along (P := fun state : Service => state.world.containers.HasKey id)
    (fun _ _ hleaves hkey => hleaves.kept hkey) hkept hcontainer

/-- Alice is onboarded, and bob after her. -/
theorem onboarded_serves_alice :
    (run [(Env.calm 7, .register (.ok ⟨"alice", ["research"]⟩)),
      (Env.calm 8, .register (.ok ⟨"bob", ["marketing"]⟩))] Service.blank).world.containers.HasKey
        "alice" ∧
    ∃ purposes startup, (Request.register (.ok ⟨"alice", ["research"]⟩)).onboards =
        some ("alice", purposes) ∧
      Serves "alice" purposes (Env.calm 7)
        (run [(Env.calm 7, .register (.ok ⟨"alice", ["research"]⟩)),
          (Env.calm 8, .register (.ok ⟨"bob", ["marketing"]⟩))] Service.blank) startup := by
  have honboard : OnboardOk "alice" (run [] Service.blank)
      (Env.calm 7, .register (.ok ⟨"alice", ["research"]⟩)) :=
    ⟨rfl, ["research"], rfl, by decide⟩
  have hfresh : Runs.Along step BringsFreshSerial
      [(Env.calm 7, .register (.ok ⟨"alice", ["research"]⟩)),
        (Env.calm 8, .register (.ok ⟨"bob", ["marketing"]⟩))] Service.blank := by
    refine ⟨?_, ?_, trivial⟩
    · intro row hrow _
      obtain rfl := Option.some.inj hrow
      decide
    · intro row hrow _
      obtain rfl := Option.some.inj hrow
      decide
  have helsewhere : ∀ other ∈ [(Env.calm 8, Request.register (.ok ⟨"bob", ["marketing"]⟩))],
      Elsewhere (mountDir "alice") other.2 := by
    intro other hother
    obtain rfl := List.mem_singleton.mp hother
    intro id purposes hrequest
    obtain ⟨rfl, -⟩ := Prod.mk.inj (Option.some.inj hrequest)
    decide +kernel
  have hremains : (Request.register (.ok ⟨"bob", ["marketing"]⟩)).deboards = none := rfl
  have hleaves : Runs.Along step (LeavesOnboarded "alice")
      [(Env.calm 8, .register (.ok ⟨"bob", ["marketing"]⟩))]
      (step (Env.calm 7, .register (.ok ⟨"alice", ["research"]⟩)) Service.blank) :=
    ⟨fun hdeboards => absurd (hremains.symm.trans hdeboards) (by simp), trivial⟩
  obtain ⟨hkept, hserves⟩ :=
    onboarded_serves Service.blank_initial honboard hfresh hleaves helsewhere
  refine ⟨hkept ⟨fun reference hdeboards => ?_, trivial⟩, hserves⟩
  exact absurd (hremains.symm.trans hdeboards) (by simp)

/-! ## A tenant that is registered again -/

/-- An onboarded user is registered again while the container is there, no call fails, and the
number that is drawn is in no row.  The registration is rejected and nothing but files
changes.  But the container starts with the new number from then on, so the first client it
asks about is turned away, whatever the intent, and the engine never changes or records
anything again. -/
theorem registration_disables (hinitial : service.Initial) {inputs : List (Env × Request)}
    (hcurrent : CurrentlyOnboarded id inputs service)
    (hkey : (run inputs service).world.containers.HasKey id)
    (hhealthy : (run inputs service).poisoned = false) (hfaultless : env.Faultless)
    (hnew : ∀ row ∈ (run inputs service).world.consents, row.serialNumber ≠ env.serial.toInt32)
    (purposes : List String) :
    ∃ error after,
      serve env (.register (.ok ⟨id, purposes⟩)) (run inputs service) =
        (.ok (.http ⟨.badRequest, error⟩), after) ∧
      after.world = { (run inputs service).world with files := after.world.files } ∧
      ∀ container ∈ after.world.containers, container.name = id →
        ∃ startup, Proxy.main container.env after.world.files = .ok startup ∧
          ∀ now surroundings verifiedChains cert ext intent,
            ¬ Env.Fails surroundings (.findOne .consents) →
            intentExtension verifiedChains = some (cert, ext) →
            decodeIntent ext.value = .ok intent →
            ∃ stuck, verifyPeerCertificate now surroundings .works verifiedChains
                (startup.proxy, after) = (.err "Access denied", startup.proxy, stuck) ∧
              stuck.world = after.world ∧ ∀ later, run later stuck = stuck := by
  have htenanted := hcurrent.tenanted
  have howned := hcurrent.owned
  have hsourced := sourced_run hinitial inputs
  have hpasses := htenanted.passes (views_empty hinitial inputs) hfaultless
  have hmount := htenanted.mounted.mount_ok hfaultless
  generalize run inputs service = reached at *
  obtain ⟨world, poisoned⟩ := reached
  obtain rfl : poisoned = false := hhealthy
  have hcreates : ¬ Creates env id world := fun hcreates => hcreates.2.2.2.2 hkey
  obtain ⟨error, hrun⟩ : ∃ error, ConsentEngine.onboardUser env id purposes world =
      (.err error, { world with files := mountedFiles env id world }) := by
    rcases hrun : ConsentEngine.onboardUser env id purposes world with ⟨outcome, after⟩
    cases onboardUser_spec hrun with
    | refused hrefused => exact absurd hpasses hrefused
    | uncreated hpasses hcreates => exact ⟨_, rfl⟩
    | stranded hdone => exact absurd hdone hcreates
    | unrecorded hdone => exact absurd hdone hcreates
    | done hdone => exact absurd hdone hcreates
  refine ⟨error, ⟨{ world with files := mountedFiles env id world }, false⟩, ?_, rfl, ?_⟩
  · simp [serve, Register.handle, Action.bind_apply, Action.attempt, locked, hrun]
  intro container hmem hname
  have henv : container.env = ConsentEngine.tenantEnv id := by
    rw [(hsourced.containers container hmem (howned container hmem hname)).env, hname]
  refine ⟨_, (congrArg (Proxy.main · _) henv).trans (Drawn.of_mount hmount).main, ?_⟩
  intro now surroundings verifiedChains cert ext intent hworks hselected hintent
  refine ⟨⟨{ world with files := mountedFiles env id world }, true⟩, ?_, rfl, run_stuck rfl⟩
  have hasked : assertPermissions surroundings .works intent
      (.asking env.serial [], ⟨{ world with files := mountedFiles env id world }, false⟩) =
        (.err "Access denied", .asking env.serial [],
          ⟨{ world with files := mountedFiles env id world }, true⟩) :=
    assertPermissions_unrecorded { world with files := mountedFiles env id world } hworks hnew []
      intent
  exact (verifyPeerCertificate_of_started hselected hintent).trans (Action.bind_of_err hasked _)

/-- Alice is registered again, with another serial number, and a client comes to her. -/
theorem registration_disables_alice :
    ∃ error after startup stuck,
      serve (Env.calm 8) (.register (.ok ⟨"alice", ["research"]⟩))
          (run [(Env.calm 7, .register (.ok ⟨"alice", ["research"]⟩))] Service.blank) =
        (.ok (.http ⟨.badRequest, error⟩), after) ∧
      after.world.consents.rows = [⟨"alice", 7, ["research"]⟩] ∧
      Proxy.main (ConsentEngine.tenantEnv "alice") after.world.files = .ok startup ∧
      verifyPeerCertificate 0 (Env.calm 0) .works [[clientCertificate "research"]]
          (startup.proxy, after) = (.err "Access denied", startup.proxy, stuck) ∧
      ∀ later, run later stuck = stuck := by
  have hhealthy : (run [(Env.calm 7, .register (.ok ⟨"alice", ["research"]⟩))]
      Service.blank).poisoned = false := by decide
  obtain ⟨error, after, hserved, hworld, hdisabled⟩ :=
    registration_disables Service.blank_initial currentlyOnboarded_alice (by decide) hhealthy
      (Env.calm_faultless 8) (by decide) ["research"]
  have hcontainers : after.world.containers = (run [(Env.calm 7,
      .register (.ok ⟨"alice", ["research"]⟩))] Service.blank).world.containers := by rw [hworld]
  have hconsents : after.world.consents = (run [(Env.calm 7,
      .register (.ok ⟨"alice", ["research"]⟩))] Service.blank).world.consents := by rw [hworld]
  have hmem : { tenant (Env.calm 7) "alice" with running := true } ∈ after.world.containers := by
    rw [hcontainers]
    decide
  have hselected : intentExtension [[clientCertificate "research"]] =
      some (clientCertificate "research", ⟨[2, 5, 29, 17], alternativeName "research"⟩) := by
    decide +kernel
  have hintent : decodeIntent (alternativeName "research") = .ok (Text.utf8 "research") := by
    decide +kernel
  obtain ⟨startup, hmain, hrefuses⟩ := hdisabled _ hmem rfl
  obtain ⟨stuck, hrefused, -, hstuck⟩ := hrefuses 0 (Env.calm 0) _ _ _ _
    ((Env.calm_faultless 0).not_fails _) hselected hintent
  refine ⟨error, after, startup, stuck, hserved, ?_, hmain, hrefused, hstuck⟩
  rw [hconsents]
  decide

end Tolla
