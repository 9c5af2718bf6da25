import Tolla.System.Leases

/-!
# Whose alternative name

Three nested loops look for the alternative name of the client.  The `break` of
the innermost one leaves only that one, so each certificate with an alternative
name takes the place of those before it, and what stands at the end is the last
such certificate of all chains.  The client's own certificate is the first of
every chain, so it is selected only if nothing after it in the last chain has an
alternative name; and if it has none itself, the name of another certificate is
taken for it (`selectsLeaf_iff`).
-/

namespace Tolla

open Effects

variable {leaf : Certificate} {verifiedChains : List (List Certificate)}

/-! ## The last alternative name -/

/-- Either no certificate has an alternative name, or the last one that has it is
found. -/
theorem foldl_examine_cases (found : Option (Certificate × Asn1.Extension))
    (certs : List Certificate) :
    ((∀ cert ∈ certs, cert.subjectAltName = none) ∧ certs.foldl examine found = found) ∨
    ∃ front cert ext back, certs = front ++ cert :: back ∧ cert.subjectAltName = some ext ∧
      (∀ other ∈ back, other.subjectAltName = none) ∧
      certs.foldl examine found = some (cert, ext) := by
  induction certs generalizing found with
  | nil => exact .inl ⟨by simp, rfl⟩
  | cons first rest ih =>
      rw [List.foldl_cons]
      rcases ih (examine found first) with ⟨hnone, hfound⟩ |
        ⟨front, cert, ext, back, rfl, hext, hback, hfound⟩
      · cases hfirst : first.subjectAltName with
        | none =>
            refine .inl ⟨List.forall_mem_cons.mpr ⟨hfirst, hnone⟩, ?_⟩
            rw [hfound, examine, hfirst]
        | some ext =>
            refine .inr ⟨[], first, ext, rest, rfl, hfirst, hnone, ?_⟩
            rw [hfound, examine, hfirst]
      · exact .inr ⟨first :: front, cert, ext, back, rfl, hext, hback, hfound⟩

theorem foldl_examine_of_last {front back : List Certificate} {cert : Certificate}
    {ext : Asn1.Extension} (hext : cert.subjectAltName = some ext)
    (hback : ∀ other ∈ back, other.subjectAltName = none)
    (found : Option (Certificate × Asn1.Extension)) :
    (front ++ cert :: back).foldl examine found = some (cert, ext) := by
  rw [List.foldl_append, List.foldl_cons]
  rcases foldl_examine_cases (examine (front.foldl examine found) cert) back with
    ⟨-, hfound⟩ | ⟨first, other, ext', second, rfl, hother, -, -⟩
  · rw [hfound, examine, hext]
  · rw [hback other (by simp)] at hother
    cases hother

theorem intentExtension_eq_foldl (verifiedChains : List (List Certificate)) :
    intentExtension verifiedChains = verifiedChains.flatten.foldl examine none :=
  List.foldl_flatten.symm

theorem intentExtension_eq_none_iff :
    intentExtension verifiedChains = none ↔
      ∀ chain ∈ verifiedChains, ∀ cert ∈ chain, cert.subjectAltName = none := by
  have hflatten : (∀ cert ∈ verifiedChains.flatten, cert.subjectAltName = none) ↔
      ∀ chain ∈ verifiedChains, ∀ cert ∈ chain, cert.subjectAltName = none := by
    simp only [List.mem_flatten]
    exact ⟨fun h chain hchain cert hcert => h cert ⟨chain, hchain, hcert⟩,
      fun h cert ⟨chain, hchain, hcert⟩ => h chain hchain cert hcert⟩
  rw [intentExtension_eq_foldl, ← hflatten]
  rcases foldl_examine_cases none verifiedChains.flatten with
    ⟨hnone, hfound⟩ | ⟨front, cert, ext, back, heq, hext, -, hfound⟩
  · exact iff_of_true hfound hnone
  · rw [hfound, heq]
    refine iff_of_false (by simp) fun hall => ?_
    rw [hall cert (by simp)] at hext
    cases hext

/-! ## The certificate of the client -/

/-- What is selected is the leaf and its alternative name; if it has none, the
handshake fails, in the same way whatever the leases are and whatever the engine
would say, and changes nothing. -/
def SelectsLeaf (leaf : Certificate) (verifiedChains : List (List Certificate)) : Prop :=
  (∀ ext, leaf.subjectAltName = some ext → intentExtension verifiedChains = some (leaf, ext)) ∧
  (leaf.subjectAltName = none → ∃ error, ∀ now env link proxy service,
    verifyPeerCertificate now env link verifiedChains (proxy, service) =
      (.err error, proxy, service))

/-- In the last chain, no certificate after the leaf has an alternative name; if the
leaf has none, no certificate at all has one. -/
def LeafLast (leaf : Certificate) (verifiedChains : List (List Certificate)) : Prop :=
  (leaf.subjectAltName ≠ none → ∃ chain front back, verifiedChains.getLast? = some chain ∧
    chain = front ++ leaf :: back ∧ ∀ cert ∈ back, cert.subjectAltName = none) ∧
  (leaf.subjectAltName = none →
    ∀ chain ∈ verifiedChains, ∀ cert ∈ chain, cert.subjectAltName = none)

theorem intentExtension_concat (chains : List (List Certificate)) (chain : List Certificate) :
    intentExtension (chains ++ [chain]) = chain.foldl examine (intentExtension chains) := by
  rw [intentExtension_eq_foldl, intentExtension_eq_foldl, List.flatten_append,
    List.flatten_singleton, List.foldl_append]

/-- The leaf has an alternative name: it is selected if and only if it is the last of
the last chain that has one. -/
theorem intentExtension_eq_leaf_iff (hleaf : ∀ chain ∈ verifiedChains, chain.head? = some leaf)
    {ext : Asn1.Extension} (hext : leaf.subjectAltName = some ext) :
    intentExtension verifiedChains = some (leaf, ext) ↔
      ∃ chain front back, verifiedChains.getLast? = some chain ∧ chain = front ++ leaf :: back ∧
        ∀ cert ∈ back, cert.subjectAltName = none := by
  rcases List.eq_nil_or_concat' verifiedChains with rfl | ⟨chains, chain, rfl⟩
  · exact iff_of_false (by simp [intentExtension]) (by simp)
  rw [intentExtension_concat, List.getLast?_concat]
  constructor
  · intro hselected
    rcases foldl_examine_cases (intentExtension chains) chain with
      ⟨hnone, -⟩ | ⟨front, cert, ext', back, heq, -, hback, hfound⟩
    · have hmem : leaf ∈ chain := List.mem_of_head? (hleaf chain (by simp))
      rw [hnone leaf hmem] at hext
      cases hext
    · rw [hfound] at hselected
      obtain ⟨rfl, -⟩ := Prod.mk.inj (Option.some.inj hselected)
      exact ⟨chain, front, back, rfl, heq, hback⟩
  · intro hleafLast
    obtain ⟨other, front, back, hlast, heq, hback⟩ := hleafLast
    obtain rfl := Option.some.inj hlast
    rw [heq, foldl_examine_of_last hext hback]

/-- The certificate of another is taken for that of the client: the handshake can
succeed. -/
theorem verifyPeerCertificate_of_lease {cert : Certificate} {ext : Asn1.Extension}
    (hselected : intentExtension verifiedChains = some (cert, ext)) (env : Env) (link : Link)
    (service : Service) :
    verifyPeerCertificate 0 env link verifiedChains (⟨0, [⟨cert, 0⟩]⟩, service) =
      (.ok (), ⟨0, [⟨cert, 0⟩]⟩, service) := by
  have hunique : (⟨0, [⟨cert, 0⟩]⟩ : Proxy).Unique := List.nodup_singleton _
  have hholds : (⟨0, [⟨cert, 0⟩]⟩ : Proxy).Holds cert 0 :=
    ⟨⟨cert, 0⟩, List.mem_singleton_self _, rfl, rfl⟩
  unfold verifyPeerCertificate
  rw [hselected]
  simp only
  rw [Action.bind_of_ok (findLease_of_holds hunique hholds)]
  rfl

/-- The intent is taken from the client's own certificate if and only if the leaf is
the last certificate with an alternative name. -/
theorem selectsLeaf_iff (hleaf : ∀ chain ∈ verifiedChains, chain.head? = some leaf) :
    SelectsLeaf leaf verifiedChains ↔ LeafLast leaf verifiedChains := by
  unfold SelectsLeaf LeafLast
  cases hext : leaf.subjectAltName with
  | some ext =>
      have hiff := intentExtension_eq_leaf_iff hleaf hext
      constructor
      · intro hselects
        exact ⟨fun _ => hiff.mp (hselects.1 ext rfl), fun hnone => by cases hnone⟩
      · intro hlast
        refine ⟨fun other hother => ?_, fun hnone => by cases hnone⟩
        obtain rfl := Option.some.inj hother
        exact hiff.mpr (hlast.1 (by simp))
  | none =>
      rw [← intentExtension_eq_none_iff]
      constructor
      · intro hselects
        refine ⟨fun hsome => absurd rfl hsome, fun _ => ?_⟩
        obtain ⟨error, hfails⟩ := hselects.2 rfl
        cases hselected : intentExtension verifiedChains with
        | none => rfl
        | some selected =>
            have hok := verifyPeerCertificate_of_lease hselected (Env.calm 0) .works Service.blank
            rw [hfails] at hok
            cases (Prod.mk.inj hok).1
      · intro hlast
        refine ⟨fun ext hsome => (by cases hsome),
          fun _ => ⟨"No intent present in client certificate", ?_⟩⟩
        intro now env link proxy service
        exact verifyPeerCertificate_of_none env link (hlast.2 rfl)

/-- The certificate of the issuer has an alternative name too, and it is selected. -/
theorem leaf_not_selected :
    ¬ ∀ (leaf : Certificate) (verifiedChains : List (List Certificate)),
      (∀ chain ∈ verifiedChains, chain.head? = some leaf) → SelectsLeaf leaf verifiedChains := by
  intro hall
  have hselects := (hall (clientCertificate "research")
    [[clientCertificate "research", clientCertificate "marketing"]] (by simp)).1
    ⟨[2, 5, 29, 17], alternativeName "research"⟩ (by decide +kernel)
  exact absurd hselects (by decide +kernel)

/-- The client's certificate was issued by another that has no extensions. -/
theorem selectsLeaf_iff_issued :
    SelectsLeaf (clientCertificate "research") [[clientCertificate "research", ⟨[]⟩]] ↔
      LeafLast (clientCertificate "research") [[clientCertificate "research", ⟨[]⟩]] :=
  selectsLeaf_iff (by simp)

end Tolla
