import Tolla.Engine.Consents
import Tolla.Model.Proxy

/-!
# Consent across the two programs

A proxy lets a client in on the word of the engine, or on a lease that is at most
ten seconds old and stands for such a word.  The engine's word in turn is a row
of `consents` with the proxy's serial number and the client's intent.

The invariant is about the history: every lease of every proxy was taken at an
instant of the run at which there was such a row (`Granted`).  A handshake adds
at most the lease of the present instant, for which the engine was asked, and
removals only take leases away, in whatever way the array is shifted.  With it,
a handshake that succeeds at some time points to an instant at most ten seconds
before at which consent was recorded.
-/

namespace Tolla

open Effects Keyed

/-- There is a row with the serial number, for the intent. -/
def Consented (world : World) (serialNumber : UInt64) (intent : String) : Prop :=
  ∃ row ∈ world.consents, row.serialNumber = serialNumber.toUInt32.toInt32 ∧ intent ∈ row.purpose

/-- The alternative name of the certificate stands for the intent. -/
def Certificate.Intends (cert : Certificate) (intent : String) : Prop :=
  ∃ ext bytes, cert.subjectAltName = some ext ∧ decodeIntent ext.value = .ok bytes ∧
    Text.fromUtf8Lossy bytes = intent

/-! ## The word of the engine -/

theorem parseDigits_ok {digits : List Char} {value result : Nat}
    (hparse : parseDigits digits value = .ok result) :
    result = Nat.ofDigitChars 10 digits value := by
  induction digits generalizing value with
  | nil => exact (Except.ok.inj hparse).symm
  | cons digit rest ih =>
      unfold parseDigits at hparse
      split at hparse
      · cases hparse
      · simp only at hparse
        split at hparse
        · cases hparse
        · rw [Nat.ofDigitChars_cons]
          exact ih hparse

/-- Decimal text has a digit in it and no sign. -/
theorem parseU32_toString_eq (number : Nat) :
    parseU32 (toString number) = (parseDigits (Nat.toDigits 10 number) 0).map UInt32.ofNat := by
  have hchars : (toString number).toList = Nat.toDigits 10 number := by simp
  have hplus : '+' ∉ Nat.toDigits 10 number := by
    intro hmem
    exact absurd (Nat.isDigit_of_mem_toDigits (by decide) (by decide) hmem) (by decide)
  have hsign : (Nat.toDigits 10 number).head? ≠ some '+' := by
    intro hhead
    exact hplus (List.mem_of_head? hhead)
  have hempty : (Nat.toDigits 10 number).isEmpty = false := by simp
  unfold parseU32
  rw [hchars, if_neg hsign]
  simp only [hempty, Bool.false_eq_true, ↓reduceIte]

/-- Only the number that was written is read. -/
theorem parseU32_toString {number : Nat} {result : UInt32}
    (hparse : parseU32 (toString number) = .ok result) : result = UInt32.ofNat number := by
  rw [parseU32_toString_eq] at hparse
  cases hdigits : parseDigits (Nat.toDigits 10 number) 0 with
  | error error =>
      rw [hdigits] at hparse
      cases hparse
  | ok value =>
      rw [hdigits] at hparse
      have hvalue := parseDigits_ok hdigits
      rw [Nat.ofDigitChars_ten_toDigits] at hvalue
      rw [← hvalue]
      exact (Except.ok.inj hparse).symm

theorem urlEncodedQuery_leaseQuery (proxy : Proxy) (intent : List UInt8) :
    urlEncodedQuery (proxy.leaseQuery intent) =
      .ok [("intent", Text.fromUtf8Lossy intent),
        ("user", toString proxy.serialNumber.toNat)] := by
  have hparse := FormUrl.parse_encode [(Text.utf8 "intent", intent),
    (Text.utf8 "user", Text.utf8 (toString proxy.serialNumber.toNat))]
  unfold urlEncodedQuery Proxy.leaseQuery
  split
  · -- an empty query would have no pairs
    rename_i hempty
    rw [List.isEmpty_iff.mp hempty] at hparse
    cases hparse
  · rw [hparse]
    simp

/-- The lease endpoint answers with `Ok` only if there is a row. -/
theorem leaseHandle_ok {env : Env} {proxy : Proxy} {intent : List UInt8} {service : Service}
    {response : Response} (hstatus : response.status = .ok)
    (hok : (Lease.handle env (proxy.leaseQuery intent) service).1 = .ok response) :
    Consented service.world proxy.serialNumber (Text.fromUtf8Lossy intent) := by
  unfold Lease.handle at hok
  rw [urlEncodedQuery_leaseQuery] at hok
  have huser : firstValue [("intent", Text.fromUtf8Lossy intent),
      ("user", toString proxy.serialNumber.toNat)] "user" =
      some (toString proxy.serialNumber.toNat) := by simp [firstValue]
  have hintent : firstValue [("intent", Text.fromUtf8Lossy intent),
      ("user", toString proxy.serialNumber.toNat)] "intent" =
      some (Text.fromUtf8Lossy intent) := by simp [firstValue]
  simp only [huser, hintent] at hok
  cases hnumber : parseU32 (toString proxy.serialNumber.toNat) with
  | error error =>
      rw [hnumber] at hok
      obtain rfl := Outcome.ok.inj hok
      cases hstatus
  | ok serialNumber =>
      rw [hnumber] at hok
      simp only at hok
      obtain ⟨result, between, hattempt, hanswer⟩ :=
        Action.bind_eq_ok (Prod.ext (y := (Outcome.ok response, _)) hok rfl)
      cases result with
      | error error =>
          obtain rfl := Outcome.ok.inj (Prod.mk.inj hanswer).1
          cases hstatus
      | ok consent =>
          obtain ⟨hrow, hserial⟩ :=
            consentBySerialNum_ok (congrArg Prod.fst (locked_eq_ok (Action.attempt_eq_ok hattempt)))
          by_cases hpurpose : consent.purpose.contains (Text.fromUtf8Lossy intent)
          · refine ⟨consent, hrow, ?_, by simpa using hpurpose⟩
            rw [hserial, parseU32_toString hnumber]
            rfl
          · simp only [hpurpose] at hanswer
            obtain rfl := Outcome.ok.inj (Prod.mk.inj hanswer).1
            cases hstatus

/-! ## Leases -/

/-- The leases that a walk leaves behind were there before, and it succeeds only
at a lease of the certificate that has not expired. -/
theorem scan_spec (cert : Certificate) (now : Nat) (remaining index : Nat)
    (array : List Proxy.Lease) (length : Nat) :
    (∀ lease ∈ (scan cert now remaining index array length).leases, lease ∈ array) ∧
    ((scan cert now remaining index array length).outcome = .ok true →
      ∃ lease ∈ array, lease.certificate = cert ∧ lease.Expired now = false) := by
  induction remaining generalizing index array length with
  | zero =>
      refine ⟨fun lease hlease => List.mem_of_mem_take hlease, fun hfound => ?_⟩
      cases hfound
  | succ remaining ih =>
      unfold scan
      split
      · refine ⟨fun lease hlease => List.mem_of_mem_take hlease, fun hfound => ?_⟩
        cases hfound
      rename_i lease hlease
      have hmem : lease ∈ array := List.mem_of_getElem? hlease
      split
      · split
        · split
          · refine ⟨fun lease hlease => List.mem_of_mem_take hlease, fun hfound => ?_⟩
            cases hfound
          · -- shifting the array brings in nothing new
            obtain ⟨hleases, hfound⟩ := ih (index + 1)
              (array.take index ++ (array.take length).drop (index + 1) ++ array.drop (length - 1))
              (length - 1)
            have hshift : ∀ other ∈ array.take index ++ (array.take length).drop (index + 1) ++
                array.drop (length - 1), other ∈ array := by
              intro other hother
              rcases List.mem_append.mp hother with hother | hother
              · rcases List.mem_append.mp hother with hother | hother
                · exact List.mem_of_mem_take hother
                · exact List.mem_of_mem_take (List.mem_of_mem_drop hother)
              · exact List.mem_of_mem_drop hother
            refine ⟨fun other hother => hshift other (hleases other hother), fun htrue => ?_⟩
            obtain ⟨other, hother, hvalid⟩ := hfound htrue
            exact ⟨other, hshift other hother, hvalid⟩
        · rename_i hcert hvalid
          exact ⟨fun lease hlease => List.mem_of_mem_take hlease,
            fun _ => ⟨lease, hmem, hcert, by simpa using hvalid⟩⟩
      · exact ih (index + 1) array length

theorem findLease_spec {now : Nat} {cert : Certificate} {proxy after : Proxy}
    {service later : Service} {outcome : Outcome String Bool}
    (hrun : findLease now cert (proxy, service) = (outcome, after, later)) :
    later = service ∧ after.serialNumber = proxy.serialNumber ∧
      (∀ lease ∈ after.leases, lease ∈ proxy.leases) ∧
      (outcome = .ok true →
        ∃ lease ∈ proxy.leases, lease.certificate = cert ∧ lease.Expired now = false) := by
  obtain ⟨rfl, rfl, rfl⟩ := by simpa [findLease] using hrun
  exact ⟨rfl, rfl, scan_spec cert now proxy.leases.length 0 proxy.leases proxy.leases.length⟩

/-! ## A handshake -/

/-- What was found so far is the alternative name of its certificate. -/
private def Sound (found : Option (Certificate × Asn1.Extension)) : Prop :=
  ∀ cert ext, found = some (cert, ext) → cert.subjectAltName = some ext

private theorem Sound.examine {found : Option (Certificate × Asn1.Extension)} (hfound : Sound found)
    (cert : Certificate) : Sound (examine found cert) := by
  intro other ext hexamine
  unfold Tolla.examine at hexamine
  split at hexamine
  · obtain ⟨rfl, rfl⟩ := Prod.mk.inj (Option.some.inj hexamine)
    assumption
  · exact hfound other ext hexamine

theorem intentExtension_eq_some {verifiedChains : List (List Certificate)} {cert : Certificate}
    {ext : Asn1.Extension} (hselected : intentExtension verifiedChains = some (cert, ext)) :
    cert.subjectAltName = some ext := by
  have hnone : Sound none := by
    intro cert ext hfound
    cases hfound
  have hchains : Sound (intentExtension verifiedChains) :=
    List.foldlRecOn verifiedChains _ hnone fun _ hfound chain _ =>
      List.foldlRecOn chain _ hfound fun _ hfound cert _ => hfound.examine cert
  exact hchains cert ext hselected

theorem assertPermissions_spec {env : Env} {link : Link} {intent : List UInt8}
    {proxy after : Proxy} {service later : Service} {outcome : Outcome String Unit}
    (hrun : assertPermissions env link intent (proxy, service) = (outcome, after, later)) :
    after = proxy ∧ later.world = service.world ∧
      (outcome = .ok () →
        Consented service.world proxy.serialNumber (Text.fromUtf8Lossy intent)) := by
  have hworld := leaseHandle_world env (proxy.leaseQuery intent) service
  simp only [assertPermissions] at hrun
  split at hrun
  · obtain ⟨rfl, rfl, rfl⟩ := by simpa using hrun
    exact ⟨rfl, rfl, by simp⟩
  · obtain ⟨rfl, rfl, rfl⟩ := by simpa using hrun
    exact ⟨rfl, hworld, by simp⟩
  · split at hrun
    · rename_i response reached hanswer
      rw [hanswer] at hworld
      split at hrun
      · rename_i hstatus
        obtain ⟨rfl, rfl, rfl⟩ := by simpa using hrun
        exact ⟨rfl, hworld, fun _ => leaseHandle_ok hstatus (by rw [hanswer])⟩
      · obtain ⟨rfl, rfl, rfl⟩ := by simpa using hrun
        exact ⟨rfl, hworld, by simp⟩
    · rename_i hanswer
      rw [hanswer] at hworld
      obtain ⟨rfl, rfl, rfl⟩ := by simpa using hrun
      exact ⟨rfl, hworld, by simp⟩
    · rename_i hanswer
      rw [hanswer] at hworld
      obtain ⟨rfl, rfl, rfl⟩ := by simpa using hrun
      exact ⟨rfl, hworld, by simp⟩

/-- Asking the engine and keeping its word leaves at most one more lease, and only if
there is a row. -/
theorem addLease_of_assertPermissions {env : Env} {link : Link} {intent : List UInt8}
    {lease : Proxy.Lease} {proxy after : Proxy} {service later : Service}
    {outcome : Outcome String Unit}
    (hrun : (assertPermissions env link intent >>= fun _ => addLease lease) (proxy, service) =
      (outcome, after, later)) :
    later.world = service.world ∧ after.serialNumber = proxy.serialNumber ∧
      (outcome = .ok () →
        Consented service.world proxy.serialNumber (Text.fromUtf8Lossy intent)) ∧
      ∀ other ∈ after.leases, other ∈ proxy.leases ∨ other = lease ∧ outcome = .ok () := by
  rcases hassert : assertPermissions env link intent (proxy, service) with
    ⟨answer, between, answered⟩
  obtain ⟨rfl, hworld, hconsented⟩ := assertPermissions_spec hassert
  cases answer with
  | err error =>
      rw [Action.bind_of_err hassert] at hrun
      obtain ⟨rfl, rfl, rfl⟩ := by simpa using hrun
      exact ⟨hworld, rfl, by simp, fun _ hother => .inl hother⟩
  | panic message =>
      rw [Action.bind_of_panic hassert] at hrun
      obtain ⟨rfl, rfl, rfl⟩ := by simpa using hrun
      exact ⟨hworld, rfl, by simp, fun _ hother => .inl hother⟩
  | ok value =>
      rw [Action.bind_of_ok hassert] at hrun
      obtain ⟨rfl, rfl, rfl⟩ := by simpa [addLease] using hrun
      refine ⟨hworld, rfl, hconsented, ?_⟩
      intro other hother
      rcases List.mem_append.mp hother with hold | hnew
      · exact .inl hold
      · exact .inr ⟨List.mem_singleton.mp hnew, rfl⟩

/-- The engine's word, for whatever intent the certificate stands for. -/
def Backed (world : World) (serialNumber : UInt64) (cert : Certificate) : Prop :=
  ∀ intent, cert.Intends intent → Consented world serialNumber intent

/-- What a handshake does.  It leaves the collections alone, every lease afterwards
is an old one or the one of this instant, and it succeeds on a lease that has
not expired or on the word of the engine. -/
structure Verified (now : Nat) (verifiedChains : List (List Certificate)) (proxy : Proxy)
    (service : Service) (outcome : Outcome String Unit) (after : Proxy) (later : Service) :
    Prop where
  world : later.world = service.world
  serialNumber : after.serialNumber = proxy.serialNumber
  leases : ∀ lease ∈ after.leases, lease ∈ proxy.leases ∨
    lease.leaseStart = now ∧ Backed service.world proxy.serialNumber lease.certificate
  success : outcome = .ok () → ∀ cert ext, intentExtension verifiedChains = some (cert, ext) →
    (∃ lease ∈ proxy.leases, lease.certificate = cert ∧ lease.Expired now = false) ∨
      Backed service.world proxy.serialNumber cert

/-- A handshake that fails adds no lease. -/
theorem Verified.of_failed {now : Nat} {verifiedChains : List (List Certificate)}
    {proxy after : Proxy} {service later : Service} {outcome : Outcome String Unit}
    (hworld : later.world = service.world) (hserial : after.serialNumber = proxy.serialNumber)
    (hkept : ∀ lease ∈ after.leases, lease ∈ proxy.leases) (hfailed : outcome ≠ .ok ()) :
    Verified now verifiedChains proxy service outcome after later where
  world := hworld
  serialNumber := hserial
  leases lease hlease := .inl (hkept lease hlease)
  success hok := absurd hok hfailed

theorem verifyPeerCertificate_spec {now : Nat} {env : Env} {link : Link}
    {verifiedChains : List (List Certificate)} {proxy after : Proxy} {service later : Service}
    {outcome : Outcome String Unit}
    (hrun : verifyPeerCertificate now env link verifiedChains (proxy, service) =
      (outcome, after, later)) :
    Verified now verifiedChains proxy service outcome after later := by
  unfold verifyPeerCertificate at hrun
  split at hrun
  · obtain ⟨rfl, rfl, rfl⟩ := by simpa using hrun
    exact .of_failed rfl rfl (fun _ hlease => hlease) (by simp)
  rename_i cert ext hselected
  have honly (other : Certificate) (ext' : Asn1.Extension)
      (hother : intentExtension verifiedChains = some (other, ext')) : other = cert :=
    (Prod.mk.inj (Option.some.inj (hother.symm.trans hselected))).1
  rcases hfind : findLease now cert (proxy, service) with ⟨result, scanned, reached⟩
  obtain ⟨rfl, hserial, hkept, hfound⟩ := findLease_spec hfind
  cases result with
  | err error =>
      rw [Action.bind_of_err hfind] at hrun
      obtain ⟨rfl, rfl, rfl⟩ := by simpa using hrun
      exact .of_failed rfl hserial hkept (by simp)
  | panic message =>
      rw [Action.bind_of_panic hfind] at hrun
      obtain ⟨rfl, rfl, rfl⟩ := by simpa using hrun
      exact .of_failed rfl hserial hkept (by simp)
  | ok found =>
  rw [Action.bind_of_ok hfind] at hrun
  cases found with
  | true =>
      -- a lease that has not expired
      obtain ⟨rfl, rfl, rfl⟩ := by simpa using hrun
      refine ⟨rfl, hserial, fun lease hlease => .inl (hkept lease hlease), ?_⟩
      intro _ other ext' hother
      rw [honly other ext' hother]
      exact .inl (hfound rfl)
  | false =>
  simp only [Bool.false_eq_true, ↓reduceIte] at hrun
  cases hdecode : decodeIntent ext.value with
  | error error =>
      simp only [hdecode] at hrun
      obtain ⟨rfl, rfl, rfl⟩ := by simpa using hrun
      exact .of_failed rfl hserial hkept (by simp)
  | ok intent =>
      simp only [hdecode] at hrun
      obtain ⟨hworld, hsame, hconsented, hleases⟩ := addLease_of_assertPermissions hrun
      rw [hserial] at hsame hconsented
      -- the word of the engine, if it was given
      have hbacked (hok : outcome = .ok ()) : Backed reached.world proxy.serialNumber cert := by
        intro other hother
        obtain ⟨ext', bytes, hext, hbytes, rfl⟩ := hother
        rw [intentExtension_eq_some hselected] at hext
        obtain rfl := Option.some.inj hext
        rw [hdecode] at hbytes
        obtain rfl := Except.ok.inj hbytes
        exact hconsented hok
      refine ⟨hworld, hsame, ?_, ?_⟩
      · intro lease hlease
        rcases hleases lease hlease with hold | ⟨rfl, hok⟩
        · exact .inl (hkept lease hold)
        · exact .inr ⟨rfl, hbacked hok⟩
      · intro hok other ext' hother
        rw [honly other ext' hother]
        exact .inr (hbacked hok)

/-! ## Runs -/

section Runs

variable {ι : Type} [DecidableEq ι]

/-- The lease was taken at an instant of the run at which its certificate was backed. -/
def Granted (events : List (Nat × Event ι)) (system : System ι) (serialNumber : UInt64)
    (lease : Proxy.Lease) : Prop :=
  ∃ earlier event later, events = earlier ++ (lease.leaseStart, event) :: later ∧
    Backed (System.run earlier system).service.world serialNumber lease.certificate

theorem Granted.append {events : List (Nat × Event ι)} {system : System ι} {serialNumber : UInt64}
    {lease : Proxy.Lease} (hgranted : Granted events system serialNumber lease)
    (more : List (Nat × Event ι)) : Granted (events ++ more) system serialNumber lease := by
  obtain ⟨earlier, event, later, rfl, hbacked⟩ := hgranted
  exact ⟨earlier, event, later ++ more, by simp, hbacked⟩

/-- Every lease of every proxy was granted. -/
def AllGranted (system : System ι) (events : List (Nat × Event ι)) (current : System ι) : Prop :=
  ∀ proxy, ∀ lease ∈ (current.proxies proxy).leases,
    Granted events system (current.proxies proxy).serialNumber lease

theorem AllGranted.step {system : System ι} {events : List (Nat × Event ι)}
    (hall : AllGranted system events (System.run events system)) (input : Nat × Event ι) :
    AllGranted system (events ++ [input]) (System.step input (System.run events system)) := by
  obtain ⟨now, event⟩ := input
  intro proxy lease hlease
  cases event with
  | request env request => exact (hall proxy lease hlease).append _
  | boot booted serialNumber =>
      by_cases hproxy : proxy = booted
      · subst hproxy
        simp [System.step] at hlease
      · simp only [System.step, Function.update_of_ne hproxy] at hlease ⊢
        exact (hall proxy lease hlease).append _
  | handshake shaken env link verifiedChains =>
      rcases hrun : (System.run events system).handshake now shaken env link verifiedChains with
        ⟨outcome, after, service⟩
      have hverified := verifyPeerCertificate_spec hrun
      by_cases hproxy : proxy = shaken
      · subst hproxy
        have hmade : ∀ made ∈ after.leases,
            Granted (events ++ [(now, .handshake proxy env link verifiedChains)]) system
              after.serialNumber made := by
          intro made hmem
          rw [hverified.serialNumber]
          rcases hverified.leases made hmem with hold | ⟨hstart, hbacked⟩
          · exact (hall proxy made hold).append _
          · exact ⟨events, _, [], by rw [hstart], hbacked⟩
        simp only [System.step, hrun, Function.update_self] at hlease ⊢
        cases outcome with
        | ok value => exact hmade lease hlease
        | err error => exact hmade lease hlease
        | panic message => cases hlease
      · simp only [System.step, hrun, Function.update_of_ne hproxy] at hlease ⊢
        exact (hall proxy lease hlease).append _

theorem allGranted_run {system : System ι} (hfresh : ∀ proxy, (system.proxies proxy).leases = [])
    (events : List (Nat × Event ι)) : AllGranted system events (System.run events system) := by
  have hstart : AllGranted system [] system := by
    intro proxy lease hlease
    rw [hfresh proxy] at hlease
    cases hlease
  exact Runs.exec_history (P := AllGranted system) hstart
    (fun events input hall => AllGranted.step hall input) events

/-- The handshakes of a run that succeed have consent that is not too old. -/
theorem exists_consented {system : System ι} (hfresh : ∀ proxy, (system.proxies proxy).leases = [])
    {before : List (Nat × Event ι)} {time : Nat}
    (hclock : (before.map Prod.fst ++ [time]).Pairwise (· ≤ ·)) {proxy : ι} {env : Env}
    {link : Link} {verifiedChains : List (List Certificate)}
    (hnil : ((System.run before system).handshake time proxy env link verifiedChains).1 = .ok ())
    {cert : Certificate} {ext : Asn1.Extension}
    (hselected : intentExtension verifiedChains = some (cert, ext))
    {intent : String} (hintent : cert.Intends intent) :
    ∃ earlier instant event later,
      before ++ [(time, .handshake proxy env link verifiedChains)] =
        earlier ++ (instant, event) :: later ∧
      instant ≤ time ∧ time ≤ instant + leaseTime ∧
      Consented (System.run earlier system).service.world
        ((System.run before system).proxies proxy).serialNumber intent := by
  rcases hrun : (System.run before system).handshake time proxy env link verifiedChains with
    ⟨outcome, after, service⟩
  rw [hrun] at hnil
  rcases (verifyPeerCertificate_spec hrun).success hnil cert ext hselected with
    ⟨lease, hlease, rfl, hvalid⟩ | hbacked
  · -- the lease stands for an earlier word of the engine
    obtain ⟨earlier, event, later, hbefore, hgranted⟩ :=
      allGranted_run hfresh before proxy lease hlease
    have hstart : lease.leaseStart ≤ time := by
      refine (List.pairwise_append.mp hclock).2.2 _ ?_ _ (List.mem_singleton_self time)
      rw [hbefore]
      simp
    have hage : ¬ leaseTime < time - lease.leaseStart := by
      simpa [Proxy.Lease.Expired] using hvalid
    refine ⟨earlier, lease.leaseStart, event,
      later ++ [(time, .handshake proxy env link verifiedChains)], ?_, hstart, by omega,
      hgranted intent hintent⟩
    rw [hbefore]
    simp
  · exact ⟨before, time, _, [], rfl, le_rfl, Nat.le_add_right _ _, hbacked intent hintent⟩

/-- A point of a history is not after a given one, or it is reached through it. -/
private theorem mem_or_extends {α : Type*} {first rest earlier later : List α}
    {input point last : α}
    (hsplit : first ++ input :: rest ++ [last] = earlier ++ point :: later) :
    point ∈ first ++ [input] ∨ ∃ middle, middle <+: rest ∧ earlier = first ++ input :: middle := by
  rw [List.append_assoc, List.cons_append] at hsplit
  rcases List.append_eq_append_iff.mp hsplit with ⟨gap, rfl, hgap⟩ | ⟨gap, rfl, hgap⟩
  · cases gap with
    | nil =>
        obtain ⟨rfl, -⟩ := List.cons.inj hgap
        exact .inl (by simp)
    | cons head middle =>
        rw [List.cons_append] at hgap
        obtain ⟨rfl, hmiddle⟩ := List.cons.inj hgap
        refine .inr ⟨middle, ?_, rfl⟩
        have hlength : rest.length + 1 = middle.length + (later.length + 1) := by
          simpa using congrArg List.length hmiddle
        have hpoint : middle <+: rest ++ [last] := hmiddle ▸ List.prefix_append middle _
        exact List.prefix_of_prefix_length_le hpoint (List.prefix_append rest _) (by omega)
  · cases gap with
    | nil =>
        obtain ⟨rfl, -⟩ := List.cons.inj hgap
        exact .inl (by simp)
    | cons head gap =>
        obtain ⟨rfl, -⟩ := List.cons.inj hgap
        exact .inl (by simp)

/-- Whenever a proxy lets a client in, there was consent for the client's intent at
an instant at most ten seconds before.  Hence, when there has been none since
some point of the run, that point is at most ten seconds ago. -/
theorem consent_enforced {system : System ι} (hfresh : ∀ proxy, (system.proxies proxy).leases = [])
    {before : List (Nat × Event ι)} {time : Nat}
    (hclock : (before.map Prod.fst ++ [time]).Pairwise (· ≤ ·)) {proxy : ι} {env : Env}
    {link : Link} {verifiedChains : List (List Certificate)}
    (hnil : ((System.run before system).handshake time proxy env link verifiedChains).1 = .ok ())
    {cert : Certificate} {ext : Asn1.Extension}
    (hselected : intentExtension verifiedChains = some (cert, ext))
    {intent : String} (hintent : cert.Intends intent) :
    (∃ earlier instant event later,
      before ++ [(time, .handshake proxy env link verifiedChains)] =
        earlier ++ (instant, event) :: later ∧
      instant ≤ time ∧ time ≤ instant + leaseTime ∧
      Consented (System.run earlier system).service.world
        ((System.run before system).proxies proxy).serialNumber intent) ∧
    ∀ first last event rest, before = first ++ (last, event) :: rest →
      (∀ middle, middle <+: rest →
        ¬ Consented (System.run (first ++ (last, event) :: middle) system).service.world
          ((System.run before system).proxies proxy).serialNumber intent) →
      time ≤ last + leaseTime := by
  have hconsented := exists_consented hfresh hclock hnil hselected hintent
  refine ⟨hconsented, fun first last event rest hbefore hwithdrawn => ?_⟩
  obtain ⟨earlier, instant, other, later, hsplit, -, hage, hrow⟩ := hconsented
  rw [hbefore] at hsplit
  rcases mem_or_extends hsplit with hmem | ⟨middle, hmiddle, rfl⟩
  · have hinstant : instant ≤ last := by
      rcases List.mem_append.mp hmem with hmem | hmem
      · have htimes := (List.pairwise_append.mp hclock).1
        rw [hbefore, List.map_append] at htimes
        exact (List.pairwise_append.mp htimes).2.2 instant (List.mem_map_of_mem hmem) last (by simp)
      · obtain ⟨rfl, -⟩ := Prod.mk.inj (List.mem_singleton.mp hmem)
        exact le_rfl
    omega
  · exact absurd hrow (hwithdrawn middle hmiddle)

end Runs

/-! ## A lease that outlives consent -/

/-- A value in DER, for contents of up to 255 bytes. -/
def der (tag : UInt8) (content : List UInt8) : List UInt8 :=
  if content.length < 128 then tag :: UInt8.ofNat content.length :: content
  else tag :: 0x81 :: UInt8.ofNat content.length :: content

/-- The alternative name of a client with the given intent. -/
def alternativeName (intent : String) : List UInt8 :=
  der 0x30 (der 0xa0 (der 0x06 [0x2a, 0x03] ++ der 0xa0 (der 0x0c (Text.utf8 intent))))

/-- A certificate with the given intent: serial number 9, issued by and to nobody, for
an Ed25519 key that is all zero. -/
def clientCertificate (intent : String) : Certificate where
  raw :=
    let algorithm := der 0x30 (der 0x06 [0x2b, 0x65, 0x70])
    let key := der 0x30 (algorithm ++ der 0x03 (List.replicate 33 0))
    let validity := der 0x30 (der 0x17 (Text.utf8 "170101000000Z") ++
      der 0x17 (Text.utf8 "270101000000Z"))
    let extension := der 0x30 (der 0x06 [0x55, 0x1d, 0x11] ++ der 0x04 (alternativeName intent))
    der 0x30 (der 0x30 (der 0xa0 (der 0x02 [2]) ++ der 0x02 [9] ++ algorithm ++ der 0x30 [] ++
      validity ++ der 0x30 [] ++ key ++ der 0xa3 (der 0x30 extension)) ++
      algorithm ++ der 0x03 (List.replicate 33 0))

/-- An engine without tenants, and one proxy. -/
def Service.fronted (service : Service) : System Unit where
  service := service
  proxies _ := ⟨0, []⟩

/-- Alice is onboarded with serial number 7 and her proxy is started, a client comes,
and alice is removed. -/
def removedAlice : List (Nat × Event Unit) :=
  [(0, .request (Env.calm 7) (.register (.ok ⟨"alice", ["research"]⟩))),
    (1, .boot () 7),
    (2, .handshake () (Env.calm 0) .works [[clientCertificate "research"]]),
    (3, .request (Env.calm 0) (.remove (some "alice")))]

/-- Ten seconds after it came, the client is let in again. -/
theorem consent_enforced_alice :
    ((System.run removedAlice Service.blank.fronted).handshake 10000000002 () (Env.calm 0) .works
      [[clientCertificate "research"]]).1 = .ok () ∧
    ∃ earlier instant event later,
      removedAlice ++ [(10000000002, .handshake () (Env.calm 0) .works
        [[clientCertificate "research"]])] = earlier ++ (instant, event) :: later ∧
      instant ≤ 10000000002 ∧ 10000000002 ≤ instant + leaseTime ∧
      Consented (System.run earlier Service.blank.fronted).service.world
        ((System.run removedAlice Service.blank.fronted).proxies ()).serialNumber "research" := by
  have hnil : ((System.run removedAlice Service.blank.fronted).handshake 10000000002 ()
      (Env.calm 0) .works [[clientCertificate "research"]]).1 = .ok () := by decide +kernel
  have hselected : intentExtension [[clientCertificate "research"]] =
      some (clientCertificate "research", ⟨[2, 5, 29, 17], alternativeName "research"⟩) := by
    decide +kernel
  have hintent : (clientCertificate "research").Intends "research" :=
    ⟨⟨[2, 5, 29, 17], alternativeName "research"⟩, Text.utf8 "research", by decide +kernel,
      by decide +kernel, Text.fromUtf8Lossy_utf8 "research"⟩
  exact ⟨hnil, (consent_enforced (fun _ => rfl) (by decide) hnil hselected hintent).1⟩

end Tolla
