import Tolla.Library.Runs
import Tolla.Model.Retrieval

/-!
# The files of the client

Two things can go wrong with the three files over a sequence of calls.

* The key is written for every reply with a body, the certificate only for one
  kind of body.  After an error or a list of addresses, the new key stands beside
  the old certificate, and the call returns `Ok`; if the key cannot be written as
  PEM, the new certificate stands beside the old key (`matching_kept_iff`).
* A file is not truncated, so the end of a longer content stays behind the new
  data (`latest_stored_iff`).

`reply` is how the request of a call ends.  It does not depend on the disk and
does not change it, so everything that a call does to the disk is in one equation
(`retrieveCertificate_of_receives`).
-/

namespace Tolla

open Effects Proto Runs

/-! ## The request -/

namespace TollaClient

/-- A call up to the reply. -/
def request (env : ClientEnv) (conf : Settings) : ClientAction ToClient := do
  ssl env .generate
  ssl env .fromRsa
  issueCertRequest env conf.ca conf.process env.keyPair

/-- The end of a call, which is the same for every body. -/
def storeKey (env : ClientEnv) : ClientAction Unit := do
  ssl env .privateKeyToPem
  dumpCertificate env "key.pem" (env.keyPem env.keyPair)

/-- A call after the reply. -/
def finish (env : ClientEnv) (certificate : ToClient) : ClientAction Unit := do
  match certificate.msg with
  | none => Action.abort "called `Option::unwrap()` on a `None` value"
  | some body =>
      match body with
      | .certificate c =>
          dumpCertificate env "cert.pem" c.request
          dumpCertificate env "ca.pem" c.rootCert
      | _ => pure ()
      storeKey env

theorem retrieveCertificate_split (env : ClientEnv) (conf : Settings) :
    retrieveCertificate env conf = request env conf >>= finish env := by
  simp only [request, Action.bind_assoc]
  rfl

/-- The call ends in the same way on every disk, and leaves the disk alone. -/
def Settled {α : Type} (call : ClientAction α) : Prop :=
  ∃ outcome, ∀ disk, call disk = (outcome, disk)

theorem Settled.bind {α β : Type} {call : ClientAction α} {next : α → ClientAction β}
    (hcall : Settled call) (hnext : ∀ value, Settled (next value)) : Settled (call >>= next) := by
  obtain ⟨outcome, hcall⟩ := hcall
  cases outcome with
  | ok value =>
      obtain ⟨outcome, hvalue⟩ := hnext value
      exact ⟨outcome, fun disk => by rw [Action.bind_of_ok (hcall disk), hvalue]⟩
  | err error => exact ⟨.err error, fun disk => Action.bind_of_err (hcall disk) next⟩
  | panic message => exact ⟨.panic message, fun disk => Action.bind_of_panic (hcall disk) next⟩

theorem ssl_settled (env : ClientEnv) (name : SslCall) : Settled (ssl env name) := by
  unfold ssl
  split
  · exact ⟨.err _, fun _ => rfl⟩
  · exact ⟨.ok (), fun _ => rfl⟩

theorem request_settled (env : ClientEnv) (conf : Settings) : Settled (request env conf) := by
  unfold request issueCertRequest
  refine (ssl_settled _ _).bind fun _ => (ssl_settled _ _).bind fun _ => ?_
  refine (ssl_settled _ _).bind fun _ => (ssl_settled _ _).bind fun _ => ?_
  refine (ssl_settled _ _).bind fun _ => (ssl_settled _ _).bind fun _ => ?_
  refine (ssl_settled _ _).bind fun _ => (ssl_settled _ _).bind fun _ => ?_
  refine (ssl_settled _ _).bind fun _ => (ssl_settled _ _).bind fun _ => ?_
  refine (ssl_settled _ _).bind fun _ => (ssl_settled _ _).bind fun _ => ?_
  split
  · exact ⟨.panic _, fun _ => rfl⟩
  · exact ⟨_, fun _ => rfl⟩

/-- How the request of a call ends. -/
def reply (env : ClientEnv) (conf : Settings) : Outcome String ToClient :=
  (request env conf fun _ => none).1

theorem request_eq (env : ClientEnv) (conf : Settings) (disk : Disk) :
    request env conf disk = (reply env conf, disk) := by
  obtain ⟨outcome, houtcome⟩ := request_settled env conf
  rw [reply, houtcome, houtcome]

/-! ## What a call does to the disk -/

/-- The disk after the body of a reply was looked at. -/
def filed (body : Body) (disk : Disk) : Disk :=
  match body with
  | .certificate c => (disk.put "cert.pem" c.request).put "ca.pem" c.rootCert
  | _ => disk

/-- The body of the reply. -/
def Receives (env : ClientEnv) (conf : Settings) (body : Body) : Prop :=
  ∃ certificate, reply env conf = .ok certificate ∧ certificate.msg = some body

variable {env : ClientEnv} {conf : Settings} {disk : Disk} {body : Body}

theorem Receives.unique {other : Body} (hbody : Receives env conf body)
    (hother : Receives env conf other) : body = other := by
  obtain ⟨first, hfirst, hmsg⟩ := hbody
  obtain ⟨second, hsecond, hmsg'⟩ := hother
  obtain rfl := Outcome.ok.inj (hfirst.symm.trans hsecond)
  exact Option.some.inj (hmsg.symm.trans hmsg')

theorem Receives.forall_iff (hbody : Receives env conf body) {P : Body → Prop} :
    (∀ other, Receives env conf other → P other) ↔ P body := by
  refine ⟨fun hall => hall body hbody, fun hcase other hother => ?_⟩
  rwa [← hbody.unique hother]

theorem Receives.forall_certificate_iff {c : Certificate}
    (hreceives : Receives env conf (.certificate c)) {P : Certificate → Prop} :
    (∀ other, Receives env conf (.certificate other) → P other) ↔ P c := by
  refine ⟨fun hall => hall c hreceives, fun hcase other hother => ?_⟩
  rwa [← Body.certificate.inj (hreceives.unique hother)]

theorem dumpCertificate_of_none {filename : String} (hdisk : env.diskFault filename = none)
    (data : List UInt8) (disk : Disk) :
    dumpCertificate env filename data disk = (.ok (), disk.put filename data) := by
  simp [dumpCertificate, hdisk]

theorem ssl_of_none {name : SslCall} (hfault : env.fault name = none) (disk : Disk) :
    ssl env name disk = (.ok (), disk) := by
  simp [ssl, hfault]

theorem ssl_of_some {name : SslCall} {error : String} (hfault : env.fault name = some error)
    (disk : Disk) : ssl env name disk = (.err error, disk) := by
  simp [ssl, hfault]

/-- A call that gets no body does nothing to the disk, and does not return `Ok`. -/
theorem retrieveCertificate_of_not_receives (hnone : ¬ ∃ body, Receives env conf body)
    (disk : Disk) :
    (retrieveCertificate env conf disk).1 ≠ .ok () ∧
      (retrieveCertificate env conf disk).2 = disk := by
  have hrequest := request_eq env conf disk
  rw [retrieveCertificate_split]
  cases hreply : reply env conf with
  | err error =>
      rw [hreply] at hrequest
      rw [Action.bind_of_err hrequest]
      exact ⟨nofun, rfl⟩
  | panic message =>
      rw [hreply] at hrequest
      rw [Action.bind_of_panic hrequest]
      exact ⟨nofun, rfl⟩
  | ok certificate =>
      rw [hreply] at hrequest
      rw [Action.bind_of_ok hrequest]
      cases hmsg : certificate.msg with
      | some body => exact absurd ⟨body, certificate, hreply, hmsg⟩ hnone
      | none =>
          rw [finish, hmsg]
          exact ⟨nofun, rfl⟩

theorem storeKey_eq (hdisk : env.diskFault "key.pem" = none) (disk : Disk) :
    storeKey env disk =
      match env.fault .privateKeyToPem with
      | some error => (.err error, disk)
      | none => (.ok (), disk.put "key.pem" (env.keyPem env.keyPair)) := by
  cases hfault : env.fault .privateKeyToPem with
  | some error => exact Action.bind_of_err (ssl_of_some hfault disk) _
  | none =>
      rw [storeKey, Action.bind_of_ok (ssl_of_none hfault disk)]
      exact dumpCertificate_of_none hdisk _ _

/-- A call that gets a body files it, and then the key if it can be written as PEM. -/
theorem retrieveCertificate_of_receives (hdisk : ∀ filename, env.diskFault filename = none)
    (hreceives : Receives env conf body) (disk : Disk) :
    retrieveCertificate env conf disk =
      match env.fault .privateKeyToPem with
      | some error => (.err error, filed body disk)
      | none => (.ok (), (filed body disk).put "key.pem" (env.keyPem env.keyPair)) := by
  obtain ⟨certificate, hreply, hmsg⟩ := hreceives
  have hrequest := request_eq env conf disk
  rw [hreply] at hrequest
  rw [retrieveCertificate_split, Action.bind_of_ok hrequest, finish, hmsg]
  cases body with
  | certificate c =>
      simp only
      rw [Action.bind_of_ok (dumpCertificate_of_none (hdisk _) c.request disk),
        Action.bind_of_ok (dumpCertificate_of_none (hdisk _) c.rootCert _)]
      exact storeKey_eq (hdisk _) _
  | error e => exact storeKey_eq (hdisk _) disk
  | ips a => exact storeKey_eq (hdisk _) disk

theorem dumpCertificate_ok {filename : String} {data : List UInt8} {after : Disk}
    (hok : dumpCertificate env filename data disk = (.ok (), after)) :
    after = disk.put filename data := by
  unfold dumpCertificate at hok
  simp only at hok
  split at hok
  · cases hok
  · cases hok
  · exact (Prod.mk.inj hok).2.symm

theorem storeKey_ok {after : Disk} (hok : storeKey env disk = (.ok (), after)) :
    after = disk.put "key.pem" (env.keyPem env.keyPair) := by
  obtain ⟨⟨⟩, between, hssl, hdump⟩ := Action.bind_eq_ok hok
  obtain ⟨outcome, hsettled⟩ := ssl_settled env .privateKeyToPem
  obtain ⟨-, rfl⟩ := Prod.mk.inj ((hsettled disk).symm.trans hssl)
  exact dumpCertificate_ok hdump

/-- A call that returned `Ok` filed a body and its key. -/
theorem retrieveCertificate_ok {after : Disk}
    (hok : retrieveCertificate env conf disk = (.ok (), after)) :
    ∃ body, Receives env conf body ∧
      after = (filed body disk).put "key.pem" (env.keyPem env.keyPair) := by
  rw [retrieveCertificate_split] at hok
  obtain ⟨certificate, between, hrequest, hok⟩ := Action.bind_eq_ok hok
  rw [request_eq] at hrequest
  obtain ⟨hreply, rfl⟩ := Prod.mk.inj hrequest
  unfold finish at hok
  cases hmsg : certificate.msg with
  | none =>
      rw [hmsg] at hok
      cases hok
  | some body =>
      rw [hmsg] at hok
      refine ⟨body, ⟨certificate, hreply, hmsg⟩, ?_⟩
      cases body with
      | certificate c =>
          obtain ⟨⟨⟩, first, hcert, hok⟩ := Action.bind_eq_ok hok
          obtain ⟨⟨⟩, second, hca, hok⟩ := Action.bind_eq_ok hok
          rw [storeKey_ok hok, dumpCertificate_ok hca, dumpCertificate_ok hcert]
          rfl
      | error e => exact storeKey_ok hok
      | ips a => exact storeKey_ok hok

/-! ## The latest data -/

/-- The disk after a call. -/
def retrieve (call : ClientEnv × Settings) (disk : Disk) : Disk :=
  (retrieveCertificate call.1 call.2 disk).2

/-- The files are those of the call, byte for byte. -/
structure Latest (env : ClientEnv) (c : Certificate) (disk : Disk) : Prop where
  cert : disk "cert.pem" = some c.request
  ca : disk "ca.pem" = some c.rootCert
  key : disk "key.pem" = some (env.keyPem env.keyPair)

/-- No file is longer than what the call has for it. -/
structure Covers (env : ClientEnv) (c : Certificate) (disk : Disk) : Prop where
  cert : ((disk "cert.pem").getD []).length ≤ c.request.length
  ca : ((disk "ca.pem").getD []).length ≤ c.rootCert.length
  key : ((disk "key.pem").getD []).length ≤ (env.keyPem env.keyPair).length

theorem overwrite_eq_iff (old data : List UInt8) :
    overwrite old data = data ↔ old.length ≤ data.length := by
  rw [overwrite, List.append_right_eq_self, List.drop_eq_nil_iff]

theorem latest_iff_covers (env : ClientEnv) (c : Certificate) (disk : Disk) :
    Latest env c ((filed (.certificate c) disk).put "key.pem" (env.keyPem env.keyPair)) ↔
      Covers env c disk := by
  constructor
  · rintro ⟨hcert, hca, hkey⟩
    simp only [filed, Disk.put, String.reduceEq, if_false, if_true, Option.some.injEq,
      overwrite_eq_iff] at hcert hca hkey
    exact ⟨hcert, hca, hkey⟩
  · rintro ⟨hcert, hca, hkey⟩
    refine ⟨?_, ?_, ?_⟩ <;>
    · simp only [filed, Disk.put, String.reduceEq, if_false, if_true, Option.some.injEq,
        overwrite_eq_iff]
      assumption

/-- The call returns `Ok` and gets a certificate. -/
def Succeeds (disk : Disk) (call : ClientEnv × Settings) : Prop :=
  (retrieveCertificate call.1 call.2 disk).1 = .ok () ∧
    ∃ c, Receives call.1 call.2 (.certificate c)

/-- After the call, the files are those of the call. -/
def StoresLatest (disk : Disk) (call : ClientEnv × Settings) : Prop :=
  ∀ c, Receives call.1 call.2 (.certificate c) → Latest call.1 c (retrieve call disk)

/-- The disk with the data of a call in the place of the three files. -/
def stored (env : ClientEnv) (c : Certificate) (disk : Disk) : Disk := fun name =>
  if name = "cert.pem" then some c.request
  else if name = "ca.pem" then some c.rootCert
  else if name = "key.pem" then some (env.keyPem env.keyPair) else disk name

/-- No data for a file is shorter than what came before it: for the first call the
content that is there, for the others the data of the call before. -/
def NeverShorter (disk : Disk) : List (ClientEnv × Settings) → Prop
  | [] => True
  | call :: rest => ∀ c, Receives call.1 call.2 (.certificate c) →
      Covers call.1 c disk ∧ NeverShorter (stored call.1 c disk) rest

theorem Covers.put_eq_stored {c : Certificate} (hcovers : Covers env c disk) :
    (filed (.certificate c) disk).put "key.pem" (env.keyPem env.keyPair) = stored env c disk := by
  obtain ⟨hcert, hca, hkey⟩ := hcovers
  rw [← overwrite_eq_iff] at hcert hca hkey
  funext name
  by_cases hname : name = "key.pem"
  · subst hname
    simp [filed, Disk.put, stored, hkey]
  · by_cases hroot : name = "ca.pem"
    · subst hroot
      simp [filed, Disk.put, stored, hca]
    · simp [filed, Disk.put, stored, hname, hroot, hcert]

/-- A successful call stores its data and nothing else if and only if no file was
longer. -/
theorem storesLatest_iff {call : ClientEnv × Settings} {c : Certificate}
    (hok : (retrieveCertificate call.1 call.2 disk).1 = .ok ())
    (hreceives : Receives call.1 call.2 (.certificate c)) :
    (StoresLatest disk call ↔ Covers call.1 c disk) ∧
      (Covers call.1 c disk → retrieve call disk = stored call.1 c disk) := by
  obtain ⟨body, hbody, hafter⟩ := retrieveCertificate_ok (Prod.ext hok rfl)
  obtain rfl := hbody.unique hreceives
  have hdisk : retrieve call disk = _ := hafter
  refine ⟨?_, fun hcovers => hdisk.trans hcovers.put_eq_stored⟩
  rw [StoresLatest, hreceives.forall_certificate_iff, hdisk]
  exact latest_iff_covers call.1 c disk

/-- Over a sequence of successful calls, the files hold exactly the latest data after
each of them if and only if no data is shorter than what came before it. -/
theorem latest_stored_iff {calls : List (ClientEnv × Settings)} {disk : Disk}
    (hsuccess : Along retrieve Succeeds calls disk) :
    Along retrieve StoresLatest calls disk ↔ NeverShorter disk calls := by
  induction calls generalizing disk with
  | nil => rfl
  | cons call rest ih =>
      obtain ⟨⟨hok, c, hreceives⟩, hrest⟩ := hsuccess
      obtain ⟨hstores, hdisk⟩ := storesLatest_iff hok hreceives
      rw [NeverShorter, hreceives.forall_certificate_iff, Along, hstores]
      apply and_congr_right
      intro hcovers
      rw [hdisk hcovers] at hrest ⊢
      exact ih hrest

theorem filed_cert (c : Certificate) (disk : Disk) : filed (.certificate c) disk "cert.pem" =
    some (overwrite ((disk "cert.pem").getD []) c.request) := by
  simp [filed, Disk.put]

theorem filed_key (body : Body) (disk : Disk) : filed body disk "key.pem" = disk "key.pem" := by
  cases body with
  | certificate c => simp [filed, Disk.put]
  | error e => rfl
  | ips a => rfl

theorem filed_of_other (hother : ∀ c, body ≠ .certificate c) (disk : Disk) :
    filed body disk = disk := by
  cases body with
  | certificate c => exact absurd rfl (hother c)
  | error e => rfl
  | ips a => rfl

/-! ## The key and the certificate

`certificateKey` reads the public key of a certificate from its PEM form, and
`privateKey` the public part of a private key. -/

section Matching

variable (certificateKey privateKey : List UInt8 → Option Nat)

/-- The key in `key.pem` is the one that the certificate in `cert.pem` is for. -/
def Matching (disk : Disk) : Prop :=
  ∃ key, (disk "cert.pem").bind certificateKey = some key ∧
    (disk "key.pem").bind privateKey = some key

/-- Files are written and their content is replaced, a certificate carries the key that
was asked for, and a key can be read back. -/
structure Assumed (disk : Disk) (call : ClientEnv × Settings) : Prop where
  written : ∀ filename, call.1.diskFault filename = none
  covers : ∀ c, Receives call.1 call.2 (.certificate c) → Covers call.1 c disk
  replaced : ((disk "key.pem").getD []).length ≤ (call.1.keyPem call.1.keyPair).length
  carries : ∀ c, Receives call.1 call.2 (.certificate c) →
    certificateKey c.request = some call.1.keyPair.publicPart
  readable : privateKey (call.1.keyPem call.1.keyPair) = some call.1.keyPair.publicPart

/-- The files match after the call if they did before, and the call returns `Ok` only if
it stored a certificate that was issued to it, the root certificate and the key that
belongs to it. -/
structure Kept (disk : Disk) (call : ClientEnv × Settings) : Prop where
  matching : Matching certificateKey privateKey disk →
    Matching certificateKey privateKey (retrieve call disk)
  stored : (retrieveCertificate call.1 call.2 disk).1 = .ok () →
    ∃ c, Receives call.1 call.2 (.certificate c) ∧ Latest call.1 c (retrieve call disk) ∧
      certificateKey c.request = some call.1.keyPair.publicPart ∧
      privateKey (call.1.keyPem call.1.keyPair) = some call.1.keyPair.publicPart

/-- A key that comes with a certificate can be written as PEM, unless the files did not
match or hold that key already; one that comes with another body can not. -/
def SoundFor (disk : Disk) (call : ClientEnv × Settings) : Body → Prop
  | .certificate _ => call.1.fault .privateKeyToPem ≠ none →
      Matching certificateKey privateKey disk →
      (disk "key.pem").bind privateKey = some call.1.keyPair.publicPart
  | _ => call.1.fault .privateKeyToPem ≠ none

def Sound (disk : Disk) (call : ClientEnv × Settings) : Prop :=
  ∀ body, Receives call.1 call.2 body → SoundFor certificateKey privateKey disk call body

variable {certificateKey privateKey}

/-- A call that gets a certificate. -/
theorem kept_of_certificate {call : ClientEnv × Settings} {c : Certificate}
    (hassumed : Assumed certificateKey privateKey disk call)
    (hreceives : Receives call.1 call.2 (.certificate c)) :
    Kept certificateKey privateKey disk call ↔
      (call.1.fault .privateKeyToPem ≠ none → Matching certificateKey privateKey disk →
        (disk "key.pem").bind privateKey = some call.1.keyPair.publicPart) := by
  have hcovers := hassumed.covers c hreceives
  have hcarries := hassumed.carries c hreceives
  have hrun := retrieveCertificate_of_receives hassumed.written hreceives disk
  cases hfault : call.1.fault .privateKeyToPem with
  | none =>
      rw [hfault] at hrun
      have hlatest : Latest call.1 c (retrieve call disk) := by
        rw [retrieve, hrun]
        exact (latest_iff_covers call.1 c disk).mpr hcovers
      refine iff_of_true ⟨fun _ => ?_, fun _ => ?_⟩ fun hfails => absurd rfl hfails
      · refine ⟨call.1.keyPair.publicPart, ?_, ?_⟩
        · rw [hlatest.cert]
          exact hcarries
        · rw [hlatest.key]
          exact hassumed.readable
      · exact ⟨c, hreceives, hlatest, hcarries, hassumed.readable⟩
  | some error =>
      rw [hfault] at hrun
      have hafter : retrieve call disk = filed (.certificate c) disk := congrArg Prod.snd hrun
      have hcert : (retrieve call disk "cert.pem").bind certificateKey =
          some call.1.keyPair.publicPart := by
        rw [hafter, filed_cert, (overwrite_eq_iff _ _).mpr hcovers.cert]
        exact hcarries
      have hkey : retrieve call disk "key.pem" = disk "key.pem" := by rw [hafter, filed_key]
      constructor
      · intro hkept _ hmatching
        obtain ⟨key, hnew, hold⟩ := hkept.matching hmatching
        rw [hcert] at hnew
        rw [hkey] at hold
        exact hold.trans hnew.symm
      · intro hsame
        refine ⟨fun hmatching => ?_, fun hok => ?_⟩
        · refine ⟨call.1.keyPair.publicPart, hcert, ?_⟩
          rw [hkey]
          exact hsame nofun hmatching
        · rw [hrun] at hok
          cases hok

/-- A call that gets another body. -/
theorem kept_of_other {call : ClientEnv × Settings}
    (hassumed : Assumed certificateKey privateKey disk call)
    (hreceives : Receives call.1 call.2 body) (hother : ∀ c, body ≠ .certificate c) :
    Kept certificateKey privateKey disk call ↔ call.1.fault .privateKeyToPem ≠ none := by
  have hrun := retrieveCertificate_of_receives hassumed.written hreceives disk
  rw [filed_of_other hother] at hrun
  cases hfault : call.1.fault .privateKeyToPem with
  | none =>
      rw [hfault] at hrun
      refine iff_of_false (fun hkept => ?_) fun hfails => hfails rfl
      obtain ⟨c, hcertificate, -⟩ := hkept.stored (by rw [hrun])
      exact hother c (hreceives.unique hcertificate)
  | some error =>
      rw [hfault] at hrun
      have hafter : retrieve call disk = disk := congrArg Prod.snd hrun
      refine iff_of_true ⟨fun hmatching => ?_, fun hok => ?_⟩ nofun
      · rwa [hafter]
      · rw [hrun] at hok
        cases hok

/-- Over a sequence of calls, the key and the certificate keep matching and `Ok` means
that they were stored, if and only if every call is sound. -/
theorem matching_kept_iff {calls : List (ClientEnv × Settings)}
    (hassumed : Along retrieve (Assumed certificateKey privateKey) calls disk) :
    Along retrieve (Kept certificateKey privateKey) calls disk ↔
      Along retrieve (Sound certificateKey privateKey) calls disk := by
  refine along_congr ?_ hassumed
  intro disk call hassumed
  by_cases hreceives : ∃ body, Receives call.1 call.2 body
  · obtain ⟨body, hbody⟩ := hreceives
    rw [Sound, hbody.forall_iff]
    cases body with
    | certificate c => exact kept_of_certificate hassumed hbody
    | error e => exact kept_of_other hassumed hbody nofun
    | ips a => exact kept_of_other hassumed hbody nofun
  · obtain ⟨hnot, hsame⟩ := retrieveCertificate_of_not_receives hreceives disk
    have hafter : retrieve call disk = disk := hsame
    refine iff_of_true ⟨fun hmatching => ?_, fun hok => absurd hok hnot⟩ ?_
    · rwa [hafter]
    · exact fun body hbody => absurd ⟨body, hbody⟩ hreceives

end Matching

/-! ## Concrete calls

Keys and certificates are two bytes: what it is, and the public part of the key. -/

def readKey (kind : UInt8) : List UInt8 → Option Nat
  | first :: key :: _ => if first = kind then some key.toNat else none
  | _ => none

/-- Every call works, and the reply has the body. -/
def ClientEnv.drawing (key : Nat) (body : Body) : ClientEnv where
  fault _ := none
  keyPair := ⟨key, key⟩
  requestPem request := [114, UInt8.ofNat (request.publicKey.getD 0)]
  keyPem pkey := [107, UInt8.ofNat pkey.publicPart]
  caAddress := some "172.17.0.7"
  send _ _ := .ok ⟨true, some body⟩
  diskFault _ := none

def Settings.sample : Settings where
  process := ⟨"client", "NO", "research", "TR", "UiT"⟩
  ca := ⟨"8900"⟩

/-- The files of a client with the key 1. -/
def Disk.sample : Disk := fun name =>
  if name = "cert.pem" ∨ name = "ca.pem" then some [99, 1]
  else if name = "key.pem" then some [107, 1] else none

theorem receives_drawing (key : Nat) (body : Body) :
    Receives (ClientEnv.drawing key body) Settings.sample body := ⟨_, rfl, rfl⟩

theorem assumed_drawing {key : Nat} {body : Body} {disk : Disk}
    (hbody : ∀ c, body = .certificate c → Covers (ClientEnv.drawing key body) c disk ∧
      readKey 99 c.request = some key)
    (hdisk : ((disk "key.pem").getD []).length ≤ 2) (hkey : key < 256) :
    Assumed (readKey 99) (readKey 107) disk (ClientEnv.drawing key body, Settings.sample) where
  written _ := rfl
  covers c hreceives := (hbody c ((receives_drawing key body).unique hreceives)).1
  replaced := hdisk
  carries c hreceives := (hbody c ((receives_drawing key body).unique hreceives)).2
  readable := by
    have hbyte : (UInt8.ofNat key).toNat = key := by
      rw [UInt8.toNat_ofNat']
      omega
    simp [ClientEnv.drawing, readKey, hbyte]

/-- A reply with an error: the key is replaced, the certificate is not, and the call
returns `Ok`. -/
theorem key_replaced :
    ¬ ∀ (certificateKey privateKey : List UInt8 → Option Nat) (calls : List (ClientEnv × Settings))
      (disk : Disk), Along retrieve (Assumed certificateKey privateKey) calls disk →
        Along retrieve (Kept certificateKey privateKey) calls disk := by
  intro hall
  have hassumed : Assumed (readKey 99) (readKey 107) Disk.sample
      (ClientEnv.drawing 2 (.error ⟨"no contry"⟩), Settings.sample) :=
    assumed_drawing nofun (by decide) (by decide)
  obtain ⟨hkept, -⟩ := hall _ _ [_] _ ⟨hassumed, trivial⟩
  obtain ⟨c, hreceives, -⟩ := hkept.stored rfl
  exact absurd (hreceives.unique (receives_drawing 2 _)) nofun

/-- A new key and its certificate. -/
def renewed : ClientEnv × Settings :=
  (ClientEnv.drawing 2 (.certificate ⟨"", [99, 2], [99, 0]⟩), Settings.sample)

theorem matching_kept_iff_renewed :
    Along retrieve (Kept (readKey 99) (readKey 107)) [renewed] Disk.sample ↔
      Along retrieve (Sound (readKey 99) (readKey 107)) [renewed] Disk.sample := by
  have hassumed : Along retrieve (Assumed (readKey 99) (readKey 107)) [renewed] Disk.sample := by
    refine ⟨assumed_drawing ?_ (by decide) (by decide), trivial⟩
    intro c hc
    obtain rfl := Body.certificate.inj hc
    exact ⟨⟨by decide, by decide, by decide⟩, by decide⟩
  exact matching_kept_iff hassumed

/-- The file of an older key has a byte more, which stays. -/
theorem byte_left_over :
    ¬ ∀ (calls : List (ClientEnv × Settings)) (disk : Disk),
      Along retrieve Succeeds calls disk → Along retrieve StoresLatest calls disk := by
  intro hall
  obtain ⟨hstores, -⟩ := hall [renewed] (Disk.sample.put "key.pem" [107, 1, 1])
    ⟨⟨rfl, _, receives_drawing 2 _⟩, trivial⟩
  exact absurd (hstores _ (receives_drawing 2 _)).key (by decide)

theorem latest_stored_iff_renewed :
    Along retrieve StoresLatest [renewed] Disk.sample ↔
      NeverShorter Disk.sample [renewed] := by
  have hsuccess : Along retrieve Succeeds [renewed] Disk.sample :=
    ⟨⟨rfl, _, receives_drawing 2 _⟩, trivial⟩
  exact latest_stored_iff hsuccess

end TollaClient
end Tolla
