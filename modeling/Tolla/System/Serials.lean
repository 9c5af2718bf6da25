import Tolla.Engine.Consents
import Tolla.System.Decoding
import Tolla.System.Enforcement

/-!
# Serial numbers

A serial number is drawn as a `u32`.  It goes into a certificate as an INTEGER,
from there into a proxy as a `uint64`, into a query as decimal text, and comes
back to the engine as a `u32`; next to that it goes into the database as an `i32`
with the same bits.  Nothing is lost on either way, also not for the half of the
numbers whose top bit is 1: the INTEGER has a zero byte before it, and the key of
a lookup is made with the same cast as the number stored (`serial_round_trip`).
-/

namespace Tolla

open Effects Keyed

/-! ## The INTEGER -/

namespace Asn1

/-- A number in DER is read back. -/
theorem parseBigInt_natural (n : Nat) : parseBigInt (Der.natural n) = some (n : Int) := by
  have hnumber := Der.number_octets n
  unfold Der.natural
  split
  · rename_i hoctets
    rw [hoctets] at hnumber
    rw [← hnumber]
    rfl
  · rename_i first rest hoctets
    rw [hoctets] at hnumber
    split
    · -- the first byte is not zero, and it is not that of a negative number
      rename_i hsmall
      have hfirst := Der.octets_head_ne_zero hoctets
      have hhigh : first ≠ 0xff := by
        rintro rfl
        exact absurd hsmall (by decide)
      rw [parseBigInt, if_neg (by simp [hfirst, hhigh]), if_neg (UInt8.not_le.mpr hsmall), hnumber]
    · -- the zero in front is needed, and does not count
      rename_i hlarge
      have hzero : Der.number (0 :: first :: rest) = Der.number (first :: rest) := by
        simp [Der.number]
      have hpositive : ¬ (128 : UInt8) ≤ 0 := by decide
      rw [parseBigInt, if_neg (by simp [hlarge]), if_neg hpositive, hzero, hnumber]

theorem unmarshalBigInt_natural {n : Nat} (hn : n < 256 ^ 4) :
    unmarshalBigInt (Der.encode 0x02 (Der.natural n)) = some ((n : Int), []) := by
  have hlength := Der.length_natural hn
  unfold unmarshalBigInt unmarshalUniversal
  rw [unmarshalRaw_whole (by decide) (by omega)]
  simp [RawValue.of, tagInteger, parseBigInt_natural]

end Asn1

/-! ## The decimal text -/

theorem parseDigits_of_lt {digits : List Char} {value : Nat}
    (hdigits : ∀ c ∈ digits, c.isDigit = true) (hlt : Nat.ofDigitChars 10 digits value < 2 ^ 32) :
    parseDigits digits value = .ok (Nat.ofDigitChars 10 digits value) := by
  induction digits generalizing value with
  | nil => rfl
  | cons digit rest ih =>
      rw [List.forall_mem_cons] at hdigits
      rw [Nat.ofDigitChars_cons] at hlt ⊢
      -- the value so far is no larger than the whole
      have hbound : 10 * value + (digit.toNat - '0'.toNat) < 2 ^ 32 := by
        refine Nat.lt_of_le_of_lt ?_ hlt
        rw [Nat.ofDigitChars_eq_ofDigitChars_zero]
        exact Nat.le_add_right_of_le (Nat.le_mul_of_pos_left _ (Nat.pow_pos (by decide)))
      rw [parseDigits, if_neg (by simp [hdigits.1])]
      simp only
      rw [if_neg (Nat.not_le.mpr hbound)]
      exact ih hdigits.2 hlt

/-- A number that fits is read back. -/
theorem parseU32_of_lt {n : Nat} (hn : n < 2 ^ 32) :
    parseU32 (toString n) = .ok (UInt32.ofNat n) := by
  have hdigits : ∀ c ∈ Nat.toDigits 10 n, c.isDigit = true :=
    fun c hc => Nat.isDigit_of_mem_toDigits (by decide) (by decide) hc
  have hvalue : Nat.ofDigitChars 10 (Nat.toDigits 10 n) 0 = n := Nat.ofDigitChars_ten_toDigits
  rw [parseU32_toString_eq, parseDigits_of_lt hdigits (by rwa [hvalue]), hvalue]
  rfl

/-! ## The whole way -/

theorem createDbCertificate_ok {env : Env} {world after : World} {key : PKey} {certificate : X509}
    {serial : UInt32}
    (hcreate : Authority.createDbCertificate env world = (.ok (key, certificate, serial), after)) :
    serial = env.serial ∧ certificate.serialNumber = serial.toNat := by
  unfold Authority.createDbCertificate at hcreate
  cases hfault : env.fault .generateKey with
  | some error =>
      rw [call_of_fault hfault] at hcreate
      cases hcreate
  | none =>
      rw [call_of_none hfault] at hcreate
      obtain ⟨hresult, -⟩ := Prod.mk.inj hcreate
      obtain ⟨-, hresult⟩ := Prod.mk.inj (Outcome.ok.inj hresult)
      obtain ⟨rfl, rfl⟩ := Prod.mk.inj hresult
      exact ⟨rfl, rfl⟩

/-- Different serial numbers have different keys. -/
theorem serialKey_injective : Function.Injective ConsentEngine.serialKey := by
  intro first second hsame
  have hback := congrArg Int32.toUInt32 hsame
  simpa [ConsentEngine.serialKey] using hback

/-- The serial number that `create_db_certificate` drew comes back from the proxy,
whatever intent it asks about; the row that `onboard_user` writes has the key of
that number, and no other number has it. -/
theorem serial_round_trip {env : Env} {world after : World} {key : PKey} {certificate : X509}
    {serial : UInt32}
    (hcreate : Authority.createDbCertificate env world = (.ok (key, certificate, serial), after)) :
    (∃ serialNumber, Proxy.serialOf (Authority.serialElement certificate) = some serialNumber ∧
      ∀ (leases : List Proxy.Lease) (intent : List UInt8), ∃ params user,
        urlEncodedQuery ((⟨serialNumber, leases⟩ : Proxy).leaseQuery intent) = .ok params ∧
        firstValue params "user" = some user ∧ parseU32 user = .ok serial) ∧
    (∀ id purposes done, ConsentEngine.onboardUser env id purposes world = (.ok (), done) →
      ∃ row ∈ done.consents, row.id = id ∧ row.serialNumber = ConsentEngine.serialKey serial) ∧
    ∀ other, other ≠ serial → ConsentEngine.serialKey other ≠ ConsentEngine.serialKey serial := by
  obtain ⟨hserial, hnumber⟩ := createDbCertificate_ok hcreate
  have hlt : serial.toNat < 2 ^ 32 := serial.toNat_lt
  refine ⟨⟨UInt64.ofNat serial.toNat, ?_, ?_⟩, ?_, ?_⟩
  · rw [Proxy.serialOf, Authority.serialElement, hnumber, Asn1.unmarshalBigInt_natural hlt]
    rfl
  · intro leases intent
    have htext : (UInt64.ofNat serial.toNat).toNat = serial.toNat := by
      rw [UInt64.toNat_ofNat']
      omega
    refine ⟨_, toString serial.toNat, urlEncodedQuery_leaseQuery _ intent, ?_, ?_⟩
    · rw [htext]
      simp [firstValue]
    · rw [parseU32_of_lt hlt, UInt32.ofNat_toNat]
  · intro id purposes done hrun
    cases onboardUser_spec hrun with
    | done hcreates hcreated hlaunched hview hconsents =>
        refine ⟨_, (Table.mem_of_insert hconsents).mpr (.inr rfl), rfl, ?_⟩
        rw [hserial]
        rfl
  · intro other hother hsame
    exact hother (serialKey_injective hsame)

/-- The number with all bits 1 is drawn for alice. -/
theorem serial_round_trip_alice :
    (∃ serialNumber, Proxy.serialOf [2, 5, 0, 255, 255, 255, 255] = some serialNumber ∧
      ∃ params user,
        urlEncodedQuery ((⟨serialNumber, []⟩ : Proxy).leaseQuery (Text.utf8 "research")) =
          .ok params ∧
        firstValue params "user" = some user ∧ parseU32 user = .ok 4294967295) ∧
    ∃ row ∈ (ConsentEngine.onboardUser (Env.calm 4294967295) "alice" ["research"]
      Service.blank.world).2.consents, row.id = "alice" ∧ row.serialNumber = -1 := by
  have hcreate : Authority.createDbCertificate (Env.calm 4294967295) Service.blank.world =
      (.ok ((Env.calm 4294967295).keyPair, Service.blank.world.authority.dbCertificate
        (Env.calm 4294967295).keyPair 4294967295 (Env.calm 4294967295).validity, 4294967295),
        Service.blank.world) := rfl
  obtain ⟨⟨serialNumber, hread, hquery⟩, hrow, -⟩ := serial_round_trip hcreate
  have helement : Authority.serialElement (Service.blank.world.authority.dbCertificate
      (Env.calm 4294967295).keyPair 4294967295 (Env.calm 4294967295).validity) =
        [2, 5, 0, 255, 255, 255, 255] := by decide
  rw [helement] at hread
  refine ⟨⟨serialNumber, hread, hquery [] (Text.utf8 "research")⟩, ?_⟩
  have hok : (ConsentEngine.onboardUser (Env.calm 4294967295) "alice" ["research"]
      Service.blank.world).1 = .ok () := by decide
  obtain ⟨row, hmem, hid, hserial⟩ := hrow "alice" ["research"] _ (Prod.ext hok rfl)
  exact ⟨row, hmem, hid, hserial⟩

end Tolla
