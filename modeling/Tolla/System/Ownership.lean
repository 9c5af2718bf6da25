import Tolla.System.Startup

/-!
# Whose consent lets a client in

A proxy asks the engine with a number, and the engine answers with the first row that has
that number.  Nothing in the question says whose database the client wants.  What ties the
answer to the tenant is a chain of three programs: the engine draws the number and writes
it into a certificate in the tenant's directory and into the tenant's row, `main` reads the
certificate when the tenant's container starts, and the handshake sends it back.

The chain holds if no number is drawn for two ids, and 0, which consent messages record, for
none (`own_consent`).  Everything else may happen: backends fail in the middle of an
onboarding, users are registered again under ids that lead to the same directory, rows and
containers are removed, proxies are started at any time and as often as one likes.
-/

namespace Tolla

open Effects Keyed

variable {system : System String} {events : List (Nat × Event String)}

/-- A proxy starts in a container that the engine created, with the serial number that
`main` reads from the files of the moment. -/
def StartsFromFiles (system : System String) (input : Nat × Event String) : Prop :=
  ∀ tenant serialNumber, input.2 = .boot tenant serialNumber →
    ∃ container ∈ system.service.world.containers,
      container.name = tenant ∧ container.ofEngine = true ∧
      ∃ startup, Proxy.main container.env system.service.world.files = .ok startup ∧
        startup.proxy = ⟨serialNumber, []⟩

/-- The id and the serial number of an onboarding. -/
def Event.draws : Event String → List (String × UInt32)
  | .request env asked => asked.draws env
  | _ => []

/-- The ids and serial numbers of the onboardings so far. -/
def drawn (events : List (Nat × Event String)) : List (String × UInt32) :=
  events.flatMap fun input => input.2.draws

/-- The proxy was started in the run. -/
def Started (events : List (Nat × Event String)) (tenant : String) : Prop :=
  ∃ input ∈ events, ∃ serialNumber, input.2 = .boot tenant serialNumber

/-- The proxy asks with a number that was drawn for an id that leads to its directory. -/
def AsksDrawn (draws : List (String × UInt32)) (tenant : String) (proxy : Proxy) : Prop :=
  validContainerName tenant = true ∧ ∃ id serial, (id, serial) ∈ draws ∧
    mountDir id = mountDir tenant ∧ proxy.serialNumber = UInt64.ofNat serial.toNat

theorem AsksDrawn.mono {draws : List (String × UInt32)} {tenant : String} {proxy after : Proxy}
    (hasks : AsksDrawn draws tenant proxy) (hserial : after.serialNumber = proxy.serialNumber)
    (more : List (String × UInt32)) : AsksDrawn (draws ++ more) tenant after := by
  obtain ⟨hvalid, id, serial, hmem, hdir, hnumber⟩ := hasks
  exact ⟨hvalid, id, serial, List.mem_append_left more hmem, hdir, hserial.trans hnumber⟩

/-- Every number in the system comes from a draw. -/
structure Numbered (events : List (Nat × Event String)) (system : System String) : Prop where
  sourced : Sourced (drawn events) system.service.world
  asks : ∀ tenant, Started events tenant → AsksDrawn (drawn events) tenant (system.proxies tenant)

theorem drawn_concat (events : List (Nat × Event String)) (input : Nat × Event String) :
    drawn (events ++ [input]) = drawn events ++ input.2.draws := by
  rw [drawn, List.flatMap_append, List.flatMap_singleton]
  rfl

theorem started_concat {input : Nat × Event String} {tenant : String}
    (hstarted : Started (events ++ [input]) tenant) :
    Started events tenant ∨ ∃ serialNumber, input.2 = .boot tenant serialNumber := by
  obtain ⟨other, hother, hboot⟩ := hstarted
  rcases List.mem_append.mp hother with hbefore | hlast
  · exact .inl ⟨other, hbefore, hboot⟩
  · rw [List.mem_singleton.mp hlast] at hboot
    exact .inr hboot

/-- What `main` reads in a container of the engine was drawn for the container's directory. -/
theorem Sourced.asksDrawn {draws : List (String × UInt32)} {world : World} {container : Container}
    {startup : Startup} (hsourced : Sourced draws world) (hmem : container ∈ world.containers)
    (hengine : container.ofEngine = true)
    (hmain : Proxy.main container.env world.files = .ok startup) :
    AsksDrawn draws container.name startup.proxy := by
  have htenancy := hsourced.containers container hmem hengine
  rw [htenancy.env] at hmain
  obtain ⟨certificate, key, root, serialNumber, hcert, -, -, -, hserial, rfl⟩ :=
    main_tenantEnv_iff.mp hmain
  obtain ⟨id, serial, hdraw, hdir, hnumber⟩ :=
    htenancy.minted certificate (FileTree.readFile_of_openFile hcert)
  rw [serialOf_serialElement hnumber] at hserial
  exact ⟨htenancy.valid, id, serial, hdraw, hdir, (Option.some.inj hserial).symm⟩

/-- An event keeps the numbers, if a proxy starts with what is in its files. -/
theorem Numbered.step (hnumbered : Numbered events system) {input : Nat × Event String}
    (hstarts : StartsFromFiles system input) :
    Numbered (events ++ [input]) (System.step input system) := by
  obtain ⟨now, event⟩ := input
  cases event with
  | request env request =>
      constructor
      · rw [drawn_concat]
        exact hnumbered.sourced.step (serve_step env request system.service)
      · intro tenant hstarted
        rw [drawn_concat]
        rcases started_concat hstarted with hbefore | ⟨serialNumber, hboot⟩
        · exact (hnumbered.asks tenant hbefore).mono rfl _
        · cases hboot
  | boot booted serialNumber =>
      constructor
      · rw [drawn_concat]
        exact hnumbered.sourced.mono _
      · intro tenant hstarted
        rw [drawn_concat]
        by_cases htenant : tenant = booted
        · subst htenant
          obtain ⟨container, hmem, rfl, hengine, startup, hmain, hproxy⟩ :=
            hstarts tenant serialNumber rfl
          have hasks := hnumbered.sourced.asksDrawn hmem hengine hmain
          refine hasks.mono ?_ _
          simp [System.step, hproxy]
        · rcases started_concat hstarted with hbefore | ⟨other, hboot⟩
          · refine (hnumbered.asks tenant hbefore).mono ?_ _
            simp [System.step, Function.update_of_ne htenant]
          · cases hboot
            exact absurd rfl htenant
  | handshake shaken env link verifiedChains =>
      rcases hrun : system.handshake now shaken env link verifiedChains with
        ⟨outcome, after, service⟩
      have hverified := verifyPeerCertificate_spec hrun
      constructor
      · rw [drawn_concat]
        have hworld : (System.step (now, .handshake shaken env link verifiedChains)
            system).service.world = system.service.world := by
          simp only [System.step, hrun]
          exact hverified.world
        rw [hworld]
        exact hnumbered.sourced.mono _
      · intro tenant hstarted
        rw [drawn_concat]
        rcases started_concat hstarted with hbefore | ⟨serialNumber, hboot⟩
        · refine (hnumbered.asks tenant hbefore).mono ?_ _
          simp only [System.step, hrun]
          by_cases htenant : tenant = shaken
          · subst htenant
            rw [Function.update_self]
            cases outcome <;> exact hverified.serialNumber
          · rw [Function.update_of_ne htenant]
        · cases hboot

theorem numbered_run (hinitial : system.service.Initial)
    (hstarts : Runs.Along System.step StartsFromFiles events system) :
    Numbered events (System.run events system) := by
  refine Runs.exec_history_along (P := Numbered) ⟨.of_initial hinitial.world, ?_⟩ ?_ hstarts
  · intro tenant hstarted
    obtain ⟨input, hinput, -⟩ := hstarted
    cases hinput
  · intro events input hinput hnumbered
    exact hnumbered.step hinput

/-! ## Consent of the tenant -/

/-- What the proxy of a tenant asks for is in the tenant's row, or in none. -/
theorem AsksDrawn.row {draws : List (String × UInt32)} {tenant : String} {proxy : Proxy}
    {world : World} {row : Consent} (hasks : AsksDrawn draws tenant proxy)
    (hsourced : Sourced draws world)
    (hdistinct : ∀ first ∈ draws, ∀ second ∈ draws, first.2 = second.2 → first.1 = second.1)
    (hnonzero : ∀ draw ∈ draws, draw.2 ≠ 0) (hrow : row ∈ world.consents)
    (hserial : row.serialNumber = proxy.serialNumber.toUInt32.toInt32) : row.id = tenant := by
  obtain ⟨hvalid, id, serial, hmem, hdir, hnumber⟩ := hasks
  have hkey : row.serialNumber = ConsentEngine.serialKey serial := by
    rw [hserial, hnumber]
    simp [ConsentEngine.serialKey]
  rcases hsourced.rows row hrow with hzero | ⟨hname, other, hother, hsame⟩
  · -- nobody has drawn the number of consent messages
    have hserial : serial = 0 := serialKey_injective (hkey.symm.trans hzero)
    exact absurd hserial (hnonzero _ hmem)
  · have hserial : other = serial := serialKey_injective (hsame.symm.trans hkey)
    have hid : row.id = id := hdistinct _ hother _ hmem hserial
    exact mountDir_injOn hname hvalid (by rw [hid, hdir])

/-- If no number is drawn for two ids, and 0 for none, then a proxy that was started in the
container of a tenant lets a client in only if the tenant's own row had the client's
intent at an instant at most ten seconds before. -/
theorem own_consent (hinitial : system.service.Initial)
    (hfresh : ∀ proxy, (system.proxies proxy).leases = [])
    {before : List (Nat × Event String)} {time : Nat}
    (hclock : (before.map Prod.fst ++ [time]).Pairwise (· ≤ ·))
    (hstarts : Runs.Along System.step StartsFromFiles before system)
    (hdistinct : ∀ first ∈ drawn before, ∀ second ∈ drawn before,
      first.2 = second.2 → first.1 = second.1)
    (hnonzero : ∀ draw ∈ drawn before, draw.2 ≠ 0)
    {tenant : String} (hstarted : Started before tenant) {env : Env} {link : Link}
    {verifiedChains : List (List Certificate)}
    (hnil : ((System.run before system).handshake time tenant env link verifiedChains).1 = .ok ())
    {cert : Certificate} {ext : Asn1.Extension}
    (hselected : intentExtension verifiedChains = some (cert, ext))
    {intent : String} (hintent : cert.Intends intent) :
    ∃ earlier instant event later,
      before ++ [(time, .handshake tenant env link verifiedChains)] =
        earlier ++ (instant, event) :: later ∧
      instant ≤ time ∧ time ≤ instant + leaseTime ∧
      ∃ row ∈ (System.run earlier system).service.world.consents,
        row.id = tenant ∧ intent ∈ row.purpose := by
  obtain ⟨earlier, instant, event, later, hsplit, hinstant, hage, row, hrow, hserial, hpurpose⟩ :=
    exists_consented hfresh hclock hnil hselected hintent
  refine ⟨earlier, instant, event, later, hsplit, hinstant, hage, row, hrow, ?_, hpurpose⟩
  have hbefore : earlier <+: before := by
    have hlength := congrArg List.length hsplit
    have hprefix : earlier <+: before ++ [(time, .handshake tenant env link verifiedChains)] :=
      hsplit ▸ List.prefix_append earlier _
    simp only [List.length_append, List.length_cons, List.length_nil] at hlength
    exact List.prefix_of_prefix_length_le hprefix (List.prefix_append before _) (by omega)
  obtain ⟨rest, rfl⟩ := hbefore
  have hasks := (numbered_run hinitial hstarts).asks tenant hstarted
  have hsourced := (numbered_run hinitial (Runs.along_append.mp hstarts).1).sourced
  have hdraws : drawn (earlier ++ rest) = drawn earlier ++ drawn rest := List.flatMap_append
  have hlater : Sourced (drawn (earlier ++ rest)) (System.run earlier system).service.world := by
    rw [hdraws]
    exact hsourced.mono _
  exact hasks.row hlater hdistinct hnonzero hrow hserial

/-- An engine without tenants, and no proxy that was started. -/
def Service.before (service : Service) : System String where
  service := service
  proxies _ := ⟨0, []⟩

/-- Alice and bob are onboarded, and alice's proxy is started. -/
def startedAlice : List (Nat × Event String) :=
  [(0, .request (Env.calm 7) (.register (.ok ⟨"alice", ["research"]⟩))),
    (1, .request (Env.calm 8) (.register (.ok ⟨"bob", ["marketing"]⟩))),
    (2, .boot "alice" 7)]

/-- The files of alice, after bob was onboarded. -/
theorem drawn_alice : Drawn "alice" (Env.calm 7) Service.blank.world.authority
    (run [(Env.calm 7, .register (.ok ⟨"alice", ["research"]⟩)),
      (Env.calm 8, .register (.ok ⟨"bob", ["marketing"]⟩))] Service.blank).world.files := by
  have honboard : OnboardOk "alice" Service.blank
      (Env.calm 7, .register (.ok ⟨"alice", ["research"]⟩)) := ⟨rfl, ["research"], rfl, by decide⟩
  obtain ⟨purposes, -, hprovided, -⟩ := honboard.provided
  refine hprovided.drawn.step (fun id purposes hrequest => ?_)
  obtain ⟨rfl, -⟩ := Prod.mk.inj (Option.some.inj hrequest)
  decide +kernel

/-- A client comes to alice. -/
theorem own_consent_alice :
    ∃ earlier instant event later,
      startedAlice ++ [(3, .handshake "alice" (Env.calm 0) .works
        [[clientCertificate "research"]])] = earlier ++ (instant, event) :: later ∧
      instant ≤ 3 ∧ 3 ≤ instant + leaseTime ∧
      ∃ row ∈ (System.run earlier Service.blank.before).service.world.consents,
        row.id = "alice" ∧ "research" ∈ row.purpose := by
  have hnil : ((System.run startedAlice Service.blank.before).handshake 3 "alice" (Env.calm 0)
      .works [[clientCertificate "research"]]).1 = .ok () := by decide +kernel
  have hselected : intentExtension [[clientCertificate "research"]] =
      some (clientCertificate "research", ⟨[2, 5, 29, 17], alternativeName "research"⟩) := by
    decide +kernel
  have hintent : (clientCertificate "research").Intends "research" :=
    ⟨⟨[2, 5, 29, 17], alternativeName "research"⟩, Text.utf8 "research", by decide +kernel,
      by decide +kernel, Text.fromUtf8Lossy_utf8 "research"⟩
  have hstarts : Runs.Along System.step StartsFromFiles startedAlice Service.blank.before := by
    refine ⟨?_, ?_, ?_, trivial⟩
    · intro other serialNumber hboot
      cases hboot
    · intro other serialNumber hboot
      cases hboot
    intro other serialNumber hboot
    obtain ⟨rfl, rfl⟩ := Event.boot.inj hboot
    exact ⟨{ tenant (Env.calm 7) "alice" with running := true }, by decide, rfl, rfl, _,
      drawn_alice.main, rfl⟩
  exact own_consent Service.blank_initial (fun _ => rfl) (by decide) hstarts (by decide)
    (by decide) ⟨(2, .boot "alice" 7), by simp [startedAlice], 7, rfl⟩ hnil hselected hintent

end Tolla
