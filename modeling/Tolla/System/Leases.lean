import Tolla.System.Decoding
import Tolla.System.Enforcement

/-!
# The leases of a proxy

`VerifyPeerCertificate` walks over the leases and deletes from the slice it walks
over.  The array moves down by one place under the loop: the loop passes over the
lease after the deleted one and meets the last lease a second time.  That does no
harm as long as no two leases are of the same certificate, because then none of
the leases after the deleted one is of interest (`scan_of_mem`).  A lease is
added only after all leases of its certificate were found to have expired, so
there never are two of them (`leases_maintained`).
-/

namespace Tolla

open Effects

variable {cert : Certificate} {now : Nat} {proxy : Proxy} {service : Service}

/-- No two leases are of the same certificate. -/
def Proxy.Unique (proxy : Proxy) : Prop := (proxy.leases.map Proxy.Lease.certificate).Nodup

/-- There is a lease of the certificate that has not expired. -/
def Proxy.Holds (proxy : Proxy) (cert : Certificate) (now : Nat) : Prop :=
  ∃ lease ∈ proxy.leases, lease.certificate = cert ∧ lease.Expired now = false

/-- The leases of other certificates. -/
def Proxy.others (proxy : Proxy) (cert : Certificate) : List Proxy.Lease :=
  proxy.leases.filter fun lease => lease.certificate ≠ cert

/-- The lease of a certificate stands alone. -/
theorem Proxy.Unique.split (hunique : proxy.Unique) {lease : Proxy.Lease}
    (hmem : lease ∈ proxy.leases) (hlease : lease.certificate = cert) :
    ∃ front back, proxy.leases = front ++ lease :: back ∧
      (∀ other ∈ front, other.certificate ≠ cert) ∧
      ∀ other ∈ back, other.certificate ≠ cert := by
  obtain ⟨front, back, hleases⟩ := List.append_of_mem hmem
  rw [Proxy.Unique, hleases, List.map_append, List.map_cons, List.nodup_middle,
    List.nodup_cons, ← List.map_append] at hunique
  have habsent : ∀ other ∈ front ++ back, other.certificate ≠ cert := by
    intro other hother hsame
    apply hunique.1
    rw [hlease, ← hsame]
    exact List.mem_map_of_mem hother
  exact ⟨front, back, hleases, fun other hother => habsent other (List.mem_append_left _ hother),
    fun other hother => habsent other (List.mem_append_right _ hother)⟩

/-! ## The walk -/

/-- The walk passes over the leases of other certificates. -/
theorem scan_skip (now : Nat) {front : List Proxy.Lease}
    (hfront : ∀ lease ∈ front, lease.certificate ≠ cert) (start back : List Proxy.Lease)
    (remaining length : Nat) :
    scan cert now (front.length + remaining) start.length (start ++ front ++ back) length =
      scan cert now remaining (start.length + front.length) (start ++ front ++ back) length := by
  induction front generalizing start with
  | nil => simp
  | cons lease front ih =>
      have hrest := ih (fun other hother => hfront other (List.mem_cons_of_mem lease hother))
        (start ++ [lease])
      have hplace : (start ++ lease :: front ++ back)[start.length]? = some lease := by simp
      rw [List.length_cons, Nat.add_right_comm, scan, hplace]
      simp only [if_neg (hfront lease List.mem_cons_self)]
      rw [List.length_append, List.append_assoc start, List.singleton_append] at hrest
      rw [show start.length + 1 = start.length + [lease].length from rfl, hrest, Nat.add_assoc,
        Nat.add_comm front.length 1]
      rfl

theorem scan_of_absent (now : Nat) {front : List Proxy.Lease}
    (hfront : ∀ lease ∈ front, lease.certificate ≠ cert) (start : List Proxy.Lease) (length : Nat) :
    scan cert now front.length start.length (start ++ front) length =
      ⟨.ok false, (start ++ front).take length⟩ := by
  have hskip := scan_skip now hfront start [] 0 length
  rw [List.append_nil, Nat.add_zero] at hskip
  rw [hskip]
  rfl

/-- The walk over leases of which one is of the certificate. -/
theorem scan_of_mem (now : Nat) {front back : List Proxy.Lease} {lease : Proxy.Lease}
    (hfront : ∀ other ∈ front, other.certificate ≠ cert) (hlease : lease.certificate = cert)
    (hback : ∀ other ∈ back, other.certificate ≠ cert) :
    scan cert now (front ++ lease :: back).length 0 (front ++ lease :: back)
        (front ++ lease :: back).length =
      if lease.Expired now then ⟨.ok false, front ++ back⟩
      else ⟨.ok true, front ++ lease :: back⟩ := by
  have hlength : (front ++ lease :: back).length = front.length + (back.length + 1) := by simp
  have hskip := scan_skip now hfront [] (lease :: back) (back.length + 1)
    (front.length + (back.length + 1))
  rw [List.nil_append, List.length_nil, Nat.zero_add] at hskip
  have hplace : (front ++ lease :: back)[front.length]? = some lease := by simp
  rw [hlength, hskip, scan, hplace]
  simp only [hlease, ↓reduceIte]
  split
  · rw [if_neg (by omega)]
    -- the array after the deletion: its last place keeps the last lease
    have hbefore : (front ++ lease :: back).take front.length = front := by simp
    have hafter : ((front ++ lease :: back).take (front.length + (back.length + 1))).drop
        (front.length + 1) = back := by
      rw [← hlength, List.take_length]
      simp
    have hlast : (front ++ lease :: back).drop (front.length + (back.length + 1) - 1) =
        (lease :: back).drop back.length := by
      rw [← Nat.add_assoc, Nat.add_sub_cancel, List.drop_append]
      simp
    rw [hbefore, hafter, hlast]
    cases back with
    | nil => simp [scan]
    | cons next back =>
        have htail : ∀ other ∈ back ++ (next :: back).drop back.length,
            other.certificate ≠ cert := by
          intro other hother
          rcases List.mem_append.mp hother with hmem | hmem
          · exact hback other (List.mem_cons_of_mem next hmem)
          · exact hback other (List.mem_of_mem_drop hmem)
        have hwalk := scan_of_absent now htail (front ++ [next])
          (front.length + ((next :: back).length + 1) - 1)
        have hcount : (back ++ (next :: back).drop back.length).length =
            (next :: back).length := by
          simp
        have harray : front ++ [next] ++ (back ++ (next :: back).drop back.length) =
            front ++ next :: back ++ (lease :: next :: back).drop (next :: back).length := by
          simp
        rw [hcount, harray, List.length_append] at hwalk
        rw [show front.length + 1 = front.length + [next].length from rfl, hwalk]
        congr 1
        rw [List.take_left']
        simp
  · rw [← hlength, List.take_length]

theorem findLease_of_scan {outcome : Outcome String Bool} {leases : List Proxy.Lease}
    (hscan : scan cert now proxy.leases.length 0 proxy.leases proxy.leases.length =
      ⟨outcome, leases⟩) :
    findLease now cert (proxy, service) = (outcome, { proxy with leases := leases }, service) := by
  simp [findLease, hscan]

/-- A valid lease is found, and nothing is deleted. -/
theorem findLease_of_holds (hunique : proxy.Unique) (hholds : proxy.Holds cert now) :
    findLease now cert (proxy, service) = (.ok true, proxy, service) := by
  obtain ⟨lease, hmem, hlease, hvalid⟩ := hholds
  obtain ⟨front, back, hleases, hfront, hback⟩ := hunique.split hmem hlease
  have hscan := scan_of_mem now hfront hlease hback
  rw [hvalid, ← hleases] at hscan
  exact findLease_of_scan hscan

/-- Otherwise what is left are the leases of other certificates. -/
theorem findLease_of_not_holds (hunique : proxy.Unique) (hholds : ¬ proxy.Holds cert now) :
    findLease now cert (proxy, service) =
      (.ok false, { proxy with leases := proxy.others cert }, service) := by
  apply findLease_of_scan
  by_cases hsome : ∃ lease ∈ proxy.leases, lease.certificate = cert
  · obtain ⟨lease, hmem, hlease⟩ := hsome
    obtain ⟨front, back, hleases, hfront, hback⟩ := hunique.split hmem hlease
    have hexpired : lease.Expired now = true := by
      by_contra hvalid
      exact hholds ⟨lease, hmem, hlease, by simpa using hvalid⟩
    have hothers : proxy.others cert = front ++ back := by
      rw [Proxy.others, hleases, List.filter_append, List.filter_cons_of_neg (by simp [hlease]),
        List.filter_eq_self.mpr (by simpa using hfront),
        List.filter_eq_self.mpr (by simpa using hback)]
    rw [hothers, hleases, scan_of_mem now hfront hlease hback, if_pos hexpired]
  · have habsent : ∀ lease ∈ proxy.leases, lease.certificate ≠ cert :=
      fun lease hmem hlease => hsome ⟨lease, hmem, hlease⟩
    have hothers : proxy.others cert = proxy.leases :=
      List.filter_eq_self.mpr (by simpa using habsent)
    have hscan := scan_of_absent now habsent [] proxy.leases.length
    rw [List.nil_append, List.take_length, List.length_nil] at hscan
    rw [hothers, hscan]

/-! ## A handshake -/

/-- The intent can be read and the engine grants it. -/
def Permitted (env : Env) (link : Link) (ext : Asn1.Extension) (proxy : Proxy)
    (service : Service) : Prop :=
  ∃ intent, decodeIntent ext.value = .ok intent ∧
    (assertPermissions env link intent (proxy, service)).1 = .ok ()

/-- The engine is asked about the serial number, not about the leases. -/
theorem assertPermissions_leases (env : Env) (link : Link) (intent : List UInt8) (proxy : Proxy)
    (service : Service) (leases : List Proxy.Lease) :
    (assertPermissions env link intent ({ proxy with leases := leases }, service)).1 =
      (assertPermissions env link intent (proxy, service)).1 := by
  have hquery : ({ proxy with leases := leases } : Proxy).leaseQuery intent =
      proxy.leaseQuery intent := rfl
  cases link with
  | unreachable error => rfl
  | answerLost error => rfl
  | works =>
      simp only [assertPermissions, hquery]
      split
      · split <;> rfl
      · rfl
      · rfl

theorem assertPermissions_not_panic (env : Env) (link : Link) (intent : List UInt8) (proxy : Proxy)
    (service : Service) (message : String) :
    (assertPermissions env link intent (proxy, service)).1 ≠ .panic message := by
  cases link with
  | unreachable error => simp [assertPermissions]
  | answerLost error => simp [assertPermissions]
  | works =>
      simp only [assertPermissions]
      split
      · split <;> simp
      · simp
      · simp

/-- What a handshake for a certificate does to the leases. -/
structure Maintained (now : Nat) (env : Env) (link : Link) (cert : Certificate)
    (ext : Asn1.Extension) (proxy : Proxy) (service : Service) (leases : List Proxy.Lease) :
    Prop where
  kept : proxy.Holds cert now → leases = proxy.leases
  renewed : ¬ proxy.Holds cert now → Permitted env link ext proxy service →
    leases = proxy.others cert ++ [⟨cert, now⟩]
  removed : ¬ proxy.Holds cert now → ¬ Permitted env link ext proxy service →
    leases = proxy.others cert

theorem verifyPeerCertificate_maintained (hunique : proxy.Unique) (now : Nat) (env : Env)
    (link : Link) (service : Service) {verifiedChains : List (List Certificate)}
    {ext : Asn1.Extension}
    (hselected : intentExtension verifiedChains = some (cert, ext)) :
    (∀ message,
      (verifyPeerCertificate now env link verifiedChains (proxy, service)).1 ≠ .panic message) ∧
    Maintained now env link cert ext proxy service
      (verifyPeerCertificate now env link verifiedChains (proxy, service)).2.1.leases := by
  unfold verifyPeerCertificate
  rw [hselected]
  simp only
  by_cases hholds : proxy.Holds cert now
  · rw [Action.bind_of_ok (findLease_of_holds hunique hholds)]
    exact ⟨by simp, fun _ => rfl, fun hnot => absurd hholds hnot, fun hnot => absurd hholds hnot⟩
  · rw [Action.bind_of_ok (findLease_of_not_holds hunique hholds)]
    simp only [Bool.false_eq_true, ↓reduceIte]
    cases hdecode : decodeIntent ext.value with
    | error error =>
        refine ⟨by simp, fun hyes => absurd hyes hholds, fun _ hpermitted => ?_, fun _ _ => rfl⟩
        obtain ⟨intent, hintent, -⟩ := hpermitted
        cases hdecode.symm.trans hintent
    | ok intent =>
        simp only
        rcases hassert : assertPermissions env link intent
          ({ proxy with leases := proxy.others cert }, service) with ⟨outcome, after, later⟩
        obtain ⟨rfl, -, -⟩ := assertPermissions_spec hassert
        have hanswer := assertPermissions_leases env link intent proxy service (proxy.others cert)
        rw [hassert] at hanswer
        have hpermitted : Permitted env link ext proxy service ↔ outcome = .ok () := by
          constructor
          · intro hpermitted
            obtain ⟨other, hother, hgranted⟩ := hpermitted
            obtain rfl := Except.ok.inj (hdecode.symm.trans hother)
            exact hanswer.trans hgranted
          · rintro rfl
            exact ⟨intent, hdecode, hanswer.symm⟩
        cases outcome with
        | ok value =>
            rw [Action.bind_of_ok hassert]
            exact ⟨by simp [addLease], fun hyes => absurd hyes hholds, fun _ _ => rfl,
              fun _ hnot => absurd (hpermitted.mpr rfl) hnot⟩
        | err error =>
            rw [Action.bind_of_err hassert]
            exact ⟨by simp, fun hyes => absurd hyes hholds,
              fun _ hyes => absurd (hpermitted.mp hyes) (by simp), fun _ _ => rfl⟩
        | panic message =>
            exact absurd hanswer.symm (assertPermissions_not_panic env link intent proxy service _)

theorem Proxy.Unique.others (hunique : proxy.Unique) (cert : Certificate) :
    ((proxy.others cert).map Proxy.Lease.certificate).Nodup :=
  hunique.sublist (List.filter_sublist.map _)

/-- A handshake leaves one lease of a certificate at most. -/
theorem Maintained.unique {env : Env} {link : Link} {ext : Asn1.Extension}
    {leases : List Proxy.Lease}
    (hmaintained : Maintained now env link cert ext proxy service leases)
    (hunique : proxy.Unique) : (leases.map Proxy.Lease.certificate).Nodup := by
  by_cases hholds : proxy.Holds cert now
  · rw [hmaintained.kept hholds]
    exact hunique
  by_cases hpermitted : Permitted env link ext proxy service
  · rw [hmaintained.renewed hholds hpermitted, List.map_append, List.map_singleton,
      List.nodup_append]
    refine ⟨hunique.others cert, List.nodup_singleton _, ?_⟩
    intro other hother last hlast
    obtain ⟨lease, hlease, rfl⟩ := List.mem_map.mp hother
    obtain rfl := List.mem_singleton.mp hlast
    simpa using (List.mem_filter.mp hlease).2
  · rw [hmaintained.removed hholds hpermitted]
    exact hunique.others cert

/-! ## Runs -/

section Runs

variable {ι : Type} [DecidableEq ι]

/-- Without an alternative name in the chains a handshake does nothing. -/
theorem verifyPeerCertificate_of_none (env : Env) (link : Link)
    {verifiedChains : List (List Certificate)} (hnone : intentExtension verifiedChains = none) :
    verifyPeerCertificate now env link verifiedChains (proxy, service) =
      (.err "No intent present in client certificate", proxy, service) := by
  unfold verifyPeerCertificate
  rw [hnone]
  rfl

theorem verifyPeerCertificate_unique (hunique : proxy.Unique) {env : Env} {link : Link}
    {verifiedChains : List (List Certificate)} {outcome : Outcome String Unit} {after : Proxy}
    {later : Service}
    (hrun : verifyPeerCertificate now env link verifiedChains (proxy, service) =
      (outcome, after, later)) : after.Unique := by
  cases hselected : intentExtension verifiedChains with
  | none =>
      rw [verifyPeerCertificate_of_none env link hselected] at hrun
      obtain ⟨-, rfl, -⟩ := by simpa using hrun
      exact hunique
  | some selected =>
      have hmaintained := (verifyPeerCertificate_maintained hunique now env link service
        hselected).2
      rw [hrun] at hmaintained
      exact hmaintained.unique hunique

theorem unique_step {system : System ι} (hunique : ∀ proxy, (system.proxies proxy).Unique)
    (input : Nat × Event ι) (proxy : ι) : ((System.step input system).proxies proxy).Unique := by
  obtain ⟨now, event⟩ := input
  cases event with
  | request env request => exact hunique proxy
  | boot booted serialNumber =>
      by_cases hproxy : proxy = booted
      · subst hproxy
        simp [System.step, Proxy.Unique]
      · simp only [System.step, Function.update_of_ne hproxy]
        exact hunique proxy
  | handshake shaken env link verifiedChains =>
      rcases hrun : system.handshake now shaken env link verifiedChains with
        ⟨outcome, after, service⟩
      by_cases hproxy : proxy = shaken
      · subst hproxy
        have hafter := verifyPeerCertificate_unique (hunique proxy) hrun
        simp only [System.step, hrun, Function.update_self]
        cases outcome with
        | ok value => exact hafter
        | err error => exact hafter
        | panic message => exact List.nodup_nil
      · simp only [System.step, hrun, Function.update_of_ne hproxy]
        exact hunique proxy

theorem unique_run {system : System ι} (hfresh : ∀ proxy, (system.proxies proxy).leases = [])
    (events : List (Nat × Event ι)) (proxy : ι) :
    ((System.run events system).proxies proxy).Unique := by
  have halong : Runs.Along System.step (fun _ _ => True) events system :=
    Runs.along_of_forall fun _ _ _ => trivial
  have hstart : ∀ proxy, (system.proxies proxy).Unique := by
    intro proxy
    rw [Proxy.Unique, hfresh proxy]
    exact List.nodup_nil
  have hrun := Runs.exec_along (P := fun current : System ι => ∀ proxy,
    (current.proxies proxy).Unique) (fun _ input _ hunique => unique_step hunique input)
    halong hstart
  exact hrun proxy

/-- In every state that a run reaches, no two leases of a proxy are of the same
certificate; a handshake does not panic, and the byte that it overwrites in the
alternative name is there; and for the certificate that it selects it changes the
leases as `Maintained` says. -/
theorem leases_maintained {system : System ι} (hfresh : ∀ proxy, (system.proxies proxy).leases = [])
    (events : List (Nat × Event ι)) (proxy : ι) :
    ((System.run events system).proxies proxy).Unique ∧
    ∀ now env link verifiedChains,
      (∀ message, ((System.run events system).handshake now proxy env link verifiedChains).1 ≠
        .panic message) ∧
      ∀ cert ext, intentExtension verifiedChains = some (cert, ext) →
        (∀ names rest name others, Asn1.unmarshalRaw ext.value = some (names, rest) →
          Asn1.unmarshalRaw names.bytes = some (name, others) → 0 < name.fullBytes.length) ∧
        Maintained now env link cert ext ((System.run events system).proxies proxy)
          (System.run events system).service
          ((System.run events system).handshake now proxy env link verifiedChains).2.1.leases := by
  have hunique := unique_run hfresh events proxy
  refine ⟨hunique, fun now env link verifiedChains => ⟨?_, ?_⟩⟩
  · intro message
    cases hselected : intentExtension verifiedChains with
    | none =>
        rw [System.handshake, verifyPeerCertificate_of_none env link hselected]
        simp
    | some selected =>
        exact (verifyPeerCertificate_maintained hunique now env link _ hselected).1 message
  · intro cert ext hselected
    refine ⟨?_, (verifyPeerCertificate_maintained hunique now env link _ hselected).2⟩
    intro names rest name others _ hname
    exact List.length_pos_iff.mpr (Asn1.fullBytes_ne_nil hname)

end Runs

/-- Twenty seconds after alice was removed, her client's lease is deleted, and no other
is taken. -/
theorem leases_maintained_alice :
    ((System.run removedAlice Service.blank.fronted).proxies ()).Unique ∧
    ((System.run removedAlice Service.blank.fronted).handshake 20000000003 () (Env.calm 0) .works
      [[clientCertificate "research"]]).2.1.leases =
      ((System.run removedAlice Service.blank.fronted).proxies ()).others
        (clientCertificate "research") := by
  obtain ⟨hunique, hleases⟩ :=
    @leases_maintained Unit _ Service.blank.fronted (fun _ => rfl) removedAlice ()
  have hselected : intentExtension [[clientCertificate "research"]] =
      some (clientCertificate "research", ⟨[2, 5, 29, 17], alternativeName "research"⟩) := by
    decide +kernel
  obtain ⟨-, hmaintained⟩ := (hleases 20000000003 (Env.calm 0) .works
    [[clientCertificate "research"]]).2 _ _ hselected
  refine ⟨hunique, hmaintained.removed ?_ ?_⟩
  · intro hholds
    obtain ⟨lease, hlease, -, hvalid⟩ := hholds
    have hexpired : ∀ lease ∈ ((System.run removedAlice Service.blank.fronted).proxies ()).leases,
        lease.Expired 20000000003 = true := by decide +kernel
    rw [hexpired lease hlease] at hvalid
    cases hvalid
  · intro hpermitted
    obtain ⟨intent, hdecode, hgranted⟩ := hpermitted
    have hread : decodeIntent (alternativeName "research") = .ok (Text.utf8 "research") := by
      decide +kernel
    obtain rfl := Except.ok.inj (hread.symm.trans hdecode)
    exact absurd hgranted (by decide +kernel)

end Tolla
