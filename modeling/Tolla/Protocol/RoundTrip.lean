import Tolla.Model.Codec

/-!
# What is written is read back

For every message type, reading what was written gives the message, as long as
the encoding has a length that fits into 64 bits.  The proof has two parts: the
fields come back (`Wire.parse_serialize`), and merging the fields of a message
into the default gives the message, because a field that was left out has its
default value.
-/

namespace Tolla.Proto

open Wire

/-! ## Scalars

A scalar field leads from the message in which it has its default value to the
message in which it has the value written. -/

section Scalars

variable {μ : Type} {merge : μ → Field → Option μ} {number : Nat}

theorem foldlM_append_of {first second : List Field} {start middle final : μ}
    (hfirst : first.foldlM merge start = some middle)
    (hsecond : second.foldlM merge middle = some final) :
    (first ++ second).foldlM merge start = some final := by
  rw [List.foldlM_append, hfirst]
  exact hsecond

theorem foldlM_stringField (set : String → μ)
    (hmerge : ∀ text, merge (set "") ⟨number, .lengthDelimited (Text.utf8 text)⟩ = some (set text))
    (text : String) : (stringField number text).foldlM merge (set "") = some (set text) := by
  unfold stringField
  split
  · simp_all
  · simp [hmerge]

theorem foldlM_bytesField (set : List UInt8 → μ)
    (hmerge : ∀ bytes, merge (set []) ⟨number, .lengthDelimited bytes⟩ = some (set bytes))
    (bytes : List UInt8) : (bytesField number bytes).foldlM merge (set []) = some (set bytes) := by
  unfold bytesField
  split
  · simp_all
  · simp [hmerge]

theorem foldlM_uint64Field (set : UInt64 → μ)
    (hmerge : ∀ value, merge (set 0) ⟨number, .varint value⟩ = some (set value))
    (value : UInt64) : (uint64Field number value).foldlM merge (set 0) = some (set value) := by
  unfold uint64Field
  split
  · simp_all
  · simp [hmerge]

theorem foldlM_boolField (set : Bool → μ)
    (hmerge : merge (set false) ⟨number, .varint 1⟩ = some (set true))
    (value : Bool) : (boolField number value).foldlM merge (set false) = some (set value) := by
  cases value with
  | false => rfl
  | true => simp [boolField, hmerge]

theorem foldlM_repeatedString (set : List String → μ)
    (hmerge : ∀ texts text, merge (set texts) ⟨number, .lengthDelimited (Text.utf8 text)⟩ =
      some (set (texts ++ [text])))
    (texts : List String) :
    (repeatedString number texts).foldlM merge (set []) = some (set texts) := by
  suffices hfrom : ∀ before, (repeatedString number texts).foldlM merge (set before) =
      some (set (before ++ texts)) by
    simpa using hfrom []
  induction texts with
  | nil => simp [repeatedString]
  | cons text rest ih =>
      intro before
      have hrest := ih (before ++ [text])
      simp only [repeatedString, List.map_cons, List.foldlM_cons, hmerge] at hrest ⊢
      simpa using hrest

variable {field : Field} (hpositive : 0 < number) (hbounded : number < 2 ^ 29)

include hpositive hbounded

/-- A field that is left out for a default value. -/
private theorem plain_of_mem_ite {c : Prop} [Decidable c] {value : Value}
    (htype : value.wireType = 0 ∨ value.wireType = 2)
    (hfield : field ∈ if c then [] else [⟨number, value⟩]) : field.Plain := by
  split at hfield
  · cases hfield
  · obtain rfl := List.mem_singleton.mp hfield
    exact ⟨hpositive, hbounded, htype⟩

theorem plain_stringField {text : String} (hfield : field ∈ stringField number text) :
    field.Plain :=
  plain_of_mem_ite hpositive hbounded (.inr rfl) hfield

theorem plain_bytesField {bytes : List UInt8} (hfield : field ∈ bytesField number bytes) :
    field.Plain :=
  plain_of_mem_ite hpositive hbounded (.inr rfl) hfield

theorem plain_uint64Field {value : UInt64} (hfield : field ∈ uint64Field number value) :
    field.Plain :=
  plain_of_mem_ite hpositive hbounded (.inl rfl) hfield

theorem plain_boolField {value : Bool} (hfield : field ∈ boolField number value) :
    field.Plain := by
  unfold boolField at hfield
  split at hfield
  · obtain rfl := List.mem_singleton.mp hfield
    exact ⟨hpositive, hbounded, .inl rfl⟩
  · simp at hfield

theorem plain_repeatedString {texts : List String} (hfield : field ∈ repeatedString number texts) :
    field.Plain := by
  obtain ⟨text, -, rfl⟩ := List.mem_map.mp hfield
  exact ⟨hpositive, hbounded, .inr rfl⟩

end Scalars

/-! ## Messages without messages inside -/

/-- The fields of a message can be read back, and merging them gives the message. -/
structure Faithful {μ : Type} [Message μ] (message : μ) : Prop where
  plain : ∀ field ∈ Message.fields message, field.Plain
  merged : (Message.fields message).foldlM Message.mergeField Message.default = some message

theorem Faithful.decode_encodeRaw {μ : Type} [Message μ] {message : μ}
    (hfaithful : Faithful message) (hlength : (Message.encodeRaw message).length < 2 ^ 64) :
    Message.decode (Message.encodeRaw message) = some message := by
  unfold Message.decode Message.encodeRaw
  rw [parse_serialize (wellFormed_of_length hfaithful.plain hlength)]
  exact hfaithful.merged

theorem faithful_certificate (c : Certificate) : Faithful c where
  plain := by
    refine List.forall_mem_append.mpr ⟨List.forall_mem_append.mpr ⟨?_, ?_⟩, ?_⟩
    · exact fun _ => plain_stringField (by decide) (by decide)
    · exact fun _ => plain_bytesField (by decide) (by decide)
    · exact fun _ => plain_bytesField (by decide) (by decide)
  merged := by
    refine foldlM_append_of (foldlM_append_of
      (foldlM_stringField (fun value => Certificate.mk value [] []) ?_ c.intent)
      (foldlM_bytesField (fun value => Certificate.mk c.intent value []) ?_ c.request))
      (foldlM_bytesField (fun value => Certificate.mk c.intent c.request value) ?_ c.rootCert)
    · intro text
      simp [Message.mergeField, mergeString]
    · intro bytes
      rfl
    · intro bytes
      rfl

theorem faithful_addresses (a : Addresses) : Faithful a where
  plain := fun _ => plain_repeatedString (by decide) (by decide)
  merged := by
    refine foldlM_repeatedString Addresses.mk ?_ a.ip
    intro texts text
    simp [Message.mergeField, mergeString]

theorem faithful_error (e : Error) : Faithful e where
  plain := fun _ => plain_stringField (by decide) (by decide)
  merged := by
    refine foldlM_stringField Error.mk ?_ e.error
    intro text
    simp [Message.mergeField, mergeString]

theorem faithful_newUser (u : NewUser) : Faithful u where
  plain := by
    refine List.forall_mem_append.mpr ⟨?_, ?_⟩
    · exact fun _ => plain_stringField (by decide) (by decide)
    · exact fun _ => plain_stringField (by decide) (by decide)
  merged := by
    refine foldlM_append_of (foldlM_stringField (fun value => NewUser.mk value "") ?_ u.userid)
      (foldlM_stringField (fun value => NewUser.mk u.userid value) ?_ u.email)
    · intro text
      simp [Message.mergeField, mergeString]
    · intro text
      simp [Message.mergeField, mergeString]

theorem faithful_intent (i : Intent) : Faithful i where
  plain := by
    refine List.forall_mem_append.mpr ⟨?_, ?_⟩
    · exact fun _ => plain_stringField (by decide) (by decide)
    · exact fun _ => plain_stringField (by decide) (by decide)
  merged := by
    refine foldlM_append_of (foldlM_stringField (fun value => Intent.mk value "") ?_ i.id)
      (foldlM_stringField (fun value => Intent.mk i.id value) ?_ i.intent)
    · intro text
      simp [Message.mergeField, mergeString]
    · intro text
      simp [Message.mergeField, mergeString]

theorem faithful_consent (c : Consent) : Faithful c where
  plain := by
    simp only [Message.fields, List.forall_mem_append]
    refine ⟨⟨⟨⟨⟨?_, ?_⟩, ?_⟩, ?_⟩, ?_⟩, ?_⟩
    · exact fun _ => plain_stringField (by decide) (by decide)
    · exact fun _ => plain_repeatedString (by decide) (by decide)
    · exact fun _ => plain_uint64Field (by decide) (by decide)
    · exact fun _ => plain_boolField (by decide) (by decide)
    · exact fun _ => plain_boolField (by decide) (by decide)
    · exact fun _ => plain_boolField (by decide) (by decide)
  merged := by
    obtain ⟨id, purpose, lifetime, marketing, profiling, pub⟩ := c
    refine foldlM_append_of (foldlM_append_of (foldlM_append_of (foldlM_append_of (foldlM_append_of
      (foldlM_stringField (fun value => Consent.mk value [] 0 false false false) ?_ id)
      (foldlM_repeatedString (fun value => Consent.mk id value 0 false false false) ?_ purpose))
      (foldlM_uint64Field (fun value => Consent.mk id purpose value false false false) ?_ lifetime))
      (foldlM_boolField (fun value => Consent.mk id purpose lifetime value false false) ?_
        marketing))
      (foldlM_boolField (fun value => Consent.mk id purpose lifetime marketing value false) ?_
        profiling))
      (foldlM_boolField (fun value => Consent.mk id purpose lifetime marketing profiling value) ?_
        pub)
    · intro text
      simp [Message.mergeField, mergeString]
    · intro texts text
      simp [Message.mergeField, mergeString]
    · intro value
      rfl
    · rfl
    · rfl
    · rfl

/-! ## Messages inside messages -/

theorem merge_field {μ : Type} [Message μ] {number : Nat} {message : μ}
    (hfaithful : Faithful message)
    (hlength : (Message.field number message).bytes.length < 2 ^ 64) :
    Message.merge (Message.field number message).value = some message := by
  have hinner := @length_le_bytes number (Message.encodeRaw message)
  exact hfaithful.decode_encodeRaw (Nat.lt_of_le_of_lt hinner hlength)

theorem plain_field {μ : Type} [Message μ] {number : Nat} (message : μ) (hpositive : 0 < number)
    (hbounded : number < 2 ^ 29) : (Message.field number message).Plain :=
  ⟨hpositive, hbounded, .inr rfl⟩

/-- The field of a request is read back, whatever was there before. -/
theorem mergeField_request (before : FromClient) {request : Request}
    (hlength : request.field.bytes.length < 2 ^ 64) :
    Message.mergeField before request.field = some ⟨some request⟩ := by
  cases request with
  | consent c =>
      exact congrArg (Option.map fun c => FromClient.mk (some (.consent c)))
        (merge_field (faithful_consent c) hlength)
  | certificateRequest r =>
      exact congrArg (Option.map fun r => FromClient.mk (some (.certificateRequest r)))
        (merge_field (faithful_certificate r) hlength)
  | intent i =>
      exact congrArg (Option.map fun i => FromClient.mk (some (.intent i)))
        (merge_field (faithful_intent i) hlength)
  | user u =>
      exact congrArg (Option.map fun u => FromClient.mk (some (.user u)))
        (merge_field (faithful_newUser u) hlength)
  | requestIps b => cases b <;> rfl

theorem plain_request (request : Request) : request.field.Plain := by
  cases request with
  | consent c => exact plain_field c (by decide) (by decide)
  | certificateRequest r => exact plain_field r (by decide) (by decide)
  | intent i => exact plain_field i (by decide) (by decide)
  | user u => exact plain_field u (by decide) (by decide)
  | requestIps b => exact ⟨Nat.zero_lt_succ 4, show 5 < 2 ^ 29 by decide, .inl rfl⟩

/-- The field of a body is read back. -/
theorem mergeField_body (before : ToClient) {body : Body}
    (hlength : body.field.bytes.length < 2 ^ 64) :
    Message.mergeField before body.field = some { before with msg := some body } := by
  cases body with
  | error e =>
      exact congrArg (Option.map fun e => { before with msg := some (.error e) })
        (merge_field (faithful_error e) hlength)
  | certificate c =>
      exact congrArg (Option.map fun c => { before with msg := some (.certificate c) })
        (merge_field (faithful_certificate c) hlength)
  | ips a =>
      exact congrArg (Option.map fun a => { before with msg := some (.ips a) })
        (merge_field (faithful_addresses a) hlength)

theorem plain_body (body : Body) : body.field.Plain := by
  cases body with
  | error e => exact plain_field e (by decide) (by decide)
  | certificate c => exact plain_field c (by decide) (by decide)
  | ips a => exact plain_field a (by decide) (by decide)

/-! ## Writing into a buffer -/

/-- What fits into a buffer is appended, and it is short. -/
theorem encode_ok {μ : Type} [Message μ] {message : μ} {buf after : BytesMut}
    (hencode : Message.encode message buf = .ok after) :
    after.bytes = buf.bytes ++ Message.encodeRaw message ∧
      (Message.encodeRaw message).length < 2 ^ 64 := by
  unfold Message.encode at hencode
  split at hencode
  · rename_i hfits
    obtain rfl := Except.ok.inj hencode
    have hcapacity := buf.capacity.toNat_lt
    rw [BytesMut.remainingMut] at hfits
    exact ⟨rfl, by omega⟩
  · cases hencode

end Tolla.Proto
