import Tolla.Model.Proxy
import Tolla.System.Decoding

/-!
# Alternative names, as the proxy takes them apart

The alternative names of a certificate are a sequence of general names.  The
proxy wants the first of them to be an `otherName` whose value is a string.  It
reads the sequence, reads the first name, makes its first byte that of a
sequence, reads an object identifier and a value from that, and a string from
the value.

At each of the four levels the length is in one byte or in several, whatever it
is at the others.  The string comes out unchanged for all of them, up to the
length that Go reads, and a sequence that is empty or begins with a name of
another kind is refused before the engine is asked (`altNames_decoded`).
-/

namespace Tolla

open Effects

/-! ## General names -/

/-- The kinds of a `GeneralName`. -/
inductive NameKind where
  | otherName
  | rfc822Name
  | dNSName
  | x400Address
  | directoryName
  | ediPartyName
  | uniformResourceIdentifier
  | iPAddress
  | registeredID
  deriving DecidableEq, Repr

/-- The identifier of a name: its place among the kinds, and whether its content is
made of other values. -/
def NameKind.identifier : NameKind → UInt8
  | .otherName => 0xa0
  | .rfc822Name => 0x81
  | .dNSName => 0x82
  | .x400Address => 0xa3
  | .directoryName => 0xa4
  | .ediPartyName => 0xa5
  | .uniformResourceIdentifier => 0x86
  | .iPAddress => 0x87
  | .registeredID => 0x88

structure GeneralName where
  kind : NameKind
  content : List UInt8
  deriving DecidableEq, Repr

def GeneralName.der (name : GeneralName) : List UInt8 :=
  Der.encode name.kind.identifier name.content

/-- The value of the extension. -/
def altNames (names : List GeneralName) : List UInt8 :=
  Der.encode 0x30 (names.flatMap GeneralName.der)

/-- An `otherName` of type 1.3.6.1.4.1.99 with a string. -/
def intentName (string : List UInt8) : GeneralName where
  kind := .otherName
  content := Der.encode 0x06 [0x2b, 0x06, 0x01, 0x04, 0x01, 0x63] ++
    Der.encode 0xa0 (Der.encode 0x0c string)

/-! ## An intent -/

/-- The string in the first name is read back, whatever comes after it. -/
theorem decodeIntent_intentName {string more : List UInt8} {text : String}
    (hvalid : Text.fromUtf8 string = some text)
    (hlength : ((intentName string).der ++ more).length < 2 ^ 31) :
    decodeIntent (Der.encode 0x30 ((intentName string).der ++ more)) = .ok string := by
  have hid : Asn1.parseObjectIdentifier [0x2b, 0x06, 0x01, 0x04, 0x01, 0x63] =
      some [1, 3, 6, 1, 4, 1, 99] := by decide
  -- each part is shorter than what it is a part of
  obtain ⟨content, hcontent⟩ : ∃ content, content = (intentName string).content := ⟨_, rfl⟩
  have hder : (intentName string).der = Der.encode 0xa0 content := by rw [hcontent]; rfl
  have hsum : content.length = (Der.encode 0x06 [0x2b, 0x06, 0x01, 0x04, 0x01, 0x63]).length +
      (Der.encode 0xa0 (Der.encode 0x0c string)).length := by
    rw [hcontent, ← List.length_append]
    rfl
  have hname := Der.length_le_encode 0xa0 content
  have hvalue := Der.length_le_encode 0xa0 (Der.encode 0x0c string)
  have hstring := Der.length_le_encode 0x0c string
  rw [hder] at hlength ⊢
  have hshort : (Der.encode 0xa0 content).length ≤ (Der.encode 0xa0 content ++ more).length := by
    rw [List.length_append]
    exact Nat.le_add_right _ _
  -- with its first byte replaced, the name is a sequence
  have hother : Asn1.unmarshalOtherName ((Der.encode 0xa0 content).set 0 0x30) =
      some ⟨[1, 3, 6, 1, 4, 1, 99], Asn1.RawValue.of 0xa0 (Der.encode 0x0c string)⟩ := by
    have hset : (Der.encode 0xa0 content).set 0 0x30 = Der.encode 0x30 content := rfl
    rw [hset, hcontent]
    apply Asn1.unmarshalOtherName_encode hid (by decide)
    rw [List.length_append]
    omega
  have hfirst := Asn1.unmarshalRaw_encode (by decide : (0xa0 : UInt8).toNat % 32 ≠ 31)
    (by omega : content.length < 2 ^ 31) more
  have htag : (Asn1.RawValue.of 0x30 (Der.encode 0xa0 content ++ more)).tag = 16 := rfl
  unfold decodeIntent
  rw [Asn1.unmarshalRaw_whole (by decide) hlength]
  simp only
  rw [if_neg (not_not_intro htag),
    show (Asn1.RawValue.of 0x30 (Der.encode 0xa0 content ++ more)).bytes =
      Der.encode 0xa0 content ++ more from rfl, hfirst]
  simp only
  rw [if_neg (by simp [Asn1.RawValue.of]), if_neg (by simp [Asn1.RawValue.of]),
    show (Asn1.RawValue.of 0xa0 content).fullBytes = Der.encode 0xa0 content from rfl, hother]
  simp only
  rw [show (Asn1.RawValue.of 0xa0 (Der.encode 0x0c string)).bytes = Der.encode 0x0c string from rfl,
    Asn1.unmarshalString_encode (by omega) hvalid]

/-! ## Names of another kind -/

/-- What is decoded begins with a compound name with the tag 0. -/
theorem decodeIntent_ok {value intent : List UInt8} (hdecode : decodeIntent value = .ok intent) :
    ∃ names rest identifier more, Asn1.unmarshalRaw value = some (names, rest) ∧
      names.bytes = identifier :: more ∧ identifier.toNat % 32 = 0 := by
  unfold decodeIntent at hdecode
  split at hdecode
  · cases hdecode
  rename_i names rest hnames
  split at hdecode
  · cases hdecode
  split at hdecode
  · cases hdecode
  rename_i name after hname
  split at hdecode
  · cases hdecode
  split at hdecode
  · cases hdecode
  rename_i htag
  obtain ⟨identifier, more, hbytes, hzero⟩ := Asn1.identifier_of_tag_zero hname (not_not.mp htag)
  exact ⟨names, rest, identifier, more, hnames, hbytes, hzero⟩

/-- Only an `otherName` has the tag 0. -/
theorem NameKind.eq_otherName {kind : NameKind} (hzero : kind.identifier.toNat % 32 = 0) :
    kind = .otherName := by
  cases kind with
  | otherName => rfl
  | _ => exact absurd hzero (by decide)

/-- The proxy refuses the alternative names: the decoding fails, and so does the
handshake of a client without a lease, whatever the engine would say and without
a request to it. -/
def Refused (value : List UInt8) : Prop :=
  ∃ error, decodeIntent value = .error error ∧
    ∀ now cert ext verifiedChains proxy service,
      intentExtension verifiedChains = some (cert, ext) → ext.value = value →
      (findLease now cert (proxy, service)).1 = .ok false →
      ∃ leases, ∀ env link, verifyPeerCertificate now env link verifiedChains (proxy, service) =
        (.err error, { proxy with leases := leases }, service)

theorem refused_of_error {value : List UInt8} {error : String}
    (hdecode : decodeIntent value = .error error) : Refused value := by
  refine ⟨error, hdecode, ?_⟩
  intro now cert ext verifiedChains proxy service hselected hvalue hfind
  refine ⟨(findLease now cert (proxy, service)).2.1.leases, ?_⟩
  intro env link
  have hsearched : findLease now cert (proxy, service) = (.ok false,
      { proxy with leases := (findLease now cert (proxy, service)).2.1.leases }, service) :=
    Prod.ext hfind rfl
  unfold verifyPeerCertificate
  rw [hselected]
  simp only
  rw [Action.bind_of_ok hsearched, hvalue, hdecode]
  rfl

theorem refused_of_first {names : List GeneralName}
    (hfirst : ∀ name, names.head? = some name → name.kind ≠ .otherName) :
    Refused (altNames names) := by
  cases hdecode : decodeIntent (altNames names) with
  | error error => exact refused_of_error hdecode
  | ok intent =>
      exfalso
      obtain ⟨value, rest, identifier, more, hread, hbytes, hzero⟩ := decodeIntent_ok hdecode
      -- what is read is a beginning of what was written
      have hfront := Asn1.unmarshalRaw_prefix (by decide) hread
      rw [hbytes] at hfront
      cases names with
      | nil => exact absurd hfront (by simp)
      | cons name names =>
          rw [List.flatMap_cons, GeneralName.der, Der.encode, List.cons_append,
            List.cons_prefix_cons] at hfront
          rw [hfront.1] at hzero
          exact hfirst name rfl (NameKind.eq_otherName hzero)

/-- The proxy reads every intent back, whatever names come after it, and refuses a
sequence that is empty or begins with another kind of name. -/
theorem altNames_decoded (names : List GeneralName) :
    (∀ intent : String, ((intentName (Text.utf8 intent) :: names).flatMap GeneralName.der).length <
      2 ^ 31 → decodeIntent (altNames (intentName (Text.utf8 intent) :: names)) =
        .ok (Text.utf8 intent)) ∧
    ((∀ name, names.head? = some name → name.kind ≠ .otherName) → Refused (altNames names)) := by
  constructor
  · intro intent hlength
    rw [List.flatMap_cons] at hlength
    rw [altNames, List.flatMap_cons]
    exact decodeIntent_intentName (Text.fromUtf8_utf8 intent) hlength
  · intro hfirst
    exact refused_of_first hfirst

/-- An intent with a letter that is not ASCII before the name of a host, and the name
of the host alone. -/
theorem altNames_decoded_host :
    decodeIntent (altNames [intentName (Text.utf8 "på"), ⟨.dNSName, Text.utf8 "tolla"⟩]) =
      .ok (Text.utf8 "på") ∧ Refused (altNames [⟨.dNSName, Text.utf8 "tolla"⟩]) := by
  obtain ⟨hintent, hother⟩ := altNames_decoded [⟨.dNSName, Text.utf8 "tolla"⟩]
  refine ⟨hintent "på" (by decide +kernel), hother ?_⟩
  intro name hfirst
  obtain rfl := Option.some.inj hfirst
  decide

end Tolla
