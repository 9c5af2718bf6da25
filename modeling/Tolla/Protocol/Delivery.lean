import Tolla.Engine.Steps
import Tolla.Protocol.RoundTrip

/-!
# What arrives at the other end

The codecs put no length before a message.  The receiver takes whatever is in
its buffer for one message as soon as it can be parsed, and the two directions
fail in two different ways.

* A request is one field, so a part of a request cannot be parsed, but several
  requests can: they are read as one message in which the last request wins.
  `requests_delivered_iff`: all requests arrive exactly when every one of them
  ends where a read ends.
* A reply that reports success and has a body is two fields, and the first alone,
  two bytes, is a reply without a body.  `reply_delivered_iff`: the reply
  arrives exactly when it is not such a reply cut after two bytes.
-/

namespace Tolla.Proto

open Effects Wire Framing

/-! ## Requests -/

/-- A request that is not empty and not too long. -/
def ValidRequest (message : FromClient) : Prop :=
  message.msg.isSome ∧ (Message.encodeRaw message).length < 2 ^ 64

theorem ValidRequest.cases {message : FromClient} (hvalid : ValidRequest message) :
    ∃ request, message = ⟨some request⟩ ∧ Message.fields message = [request.field] ∧
      request.field.bytes.length < 2 ^ 64 ∧ request.field.WellFormed := by
  obtain ⟨msg⟩ := message
  obtain ⟨hsome, hlength⟩ := hvalid
  obtain ⟨request, rfl⟩ := Option.isSome_iff_exists.mp hsome
  have hfields : Message.fields (⟨some request⟩ : FromClient) = [request.field] := rfl
  have hbytes : Message.encodeRaw (⟨some request⟩ : FromClient) = request.field.bytes := by
    rw [Message.encodeRaw, hfields, serialize, List.flatMap_singleton]
  have hplain : ∀ field ∈ [request.field], field.Plain := by
    intro field hfield
    obtain rfl := List.mem_singleton.mp hfield
    exact plain_request request
  have hwell := wellFormed_of_length hplain (by rwa [Message.encodeRaw, hfields] at hlength)
  exact ⟨request, rfl, hfields, by rwa [hbytes] at hlength, hwell _ List.mem_cons_self⟩

theorem flatMap_encodeRaw (messages : List FromClient) :
    messages.flatMap Message.encodeRaw = serialize (messages.flatMap Message.fields) := by
  rw [serialize, List.flatMap_assoc]
  rfl

theorem fields_wellFormed {messages : List FromClient}
    (hvalid : ∀ message ∈ messages, ValidRequest message) :
    ∀ field ∈ messages.flatMap Message.fields, field.WellFormed := by
  intro field hfield
  obtain ⟨message, hmessage, hmem⟩ := List.mem_flatMap.mp hfield
  obtain ⟨request, -, hfields, -, hwell⟩ := (hvalid message hmessage).cases
  rw [hfields] at hmem
  obtain rfl := List.mem_singleton.mp hmem
  exact hwell

/-- Requests after one another are merged, whatever was there before. -/
theorem foldlM_requests {messages : List FromClient}
    (hvalid : ∀ message ∈ messages, ValidRequest message) (before : FromClient) :
    ∃ after, (messages.flatMap Message.fields).foldlM Message.mergeField before = some after := by
  induction messages generalizing before with
  | nil => exact ⟨before, rfl⟩
  | cons message rest ih =>
      obtain ⟨request, -, hfields, hlength, -⟩ := (hvalid message List.mem_cons_self).cases
      obtain ⟨after, hafter⟩ := ih
        (fun other hother => hvalid other (List.mem_cons_of_mem message hother)) ⟨some request⟩
      refine ⟨after, ?_⟩
      rw [List.flatMap_cons, hfields]
      refine foldlM_append_of ?_ hafter
      simp [mergeField_request before hlength]

theorem requests_lastWins :
    LastWins (Message.encodeRaw : FromClient → List UInt8) Message.decode ValidRequest where
  nonempty := by
    intro message hvalid
    obtain ⟨request, -, hfields, -⟩ := hvalid.cases
    simp [Message.encodeRaw, hfields, serialize, Field.bytes_ne_nil]
  whole := by
    intro messages message hvalid hmessage
    obtain ⟨request, rfl, hfields, hlength, -⟩ := hmessage.cases
    have hall : ∀ other ∈ messages ++ [(⟨some request⟩ : FromClient)], ValidRequest other := by
      intro other hother
      rcases List.mem_append.mp hother with hmem | hmem
      · exact hvalid other hmem
      · obtain rfl := List.mem_singleton.mp hmem
        exact hmessage
    obtain ⟨before, hbefore⟩ := foldlM_requests hvalid Message.default
    rw [← List.flatMap_singleton (f := Message.encodeRaw), ← List.flatMap_append,
      flatMap_encodeRaw, Message.decode, parse_serialize (fields_wellFormed hall),
      List.flatMap_append, List.flatMap_singleton, hfields]
    apply foldlM_append_of hbefore
    simp [mergeField_request before hlength]
  broken := by
    intro messages message front hvalid hmessage hfront hempty hproper
    obtain ⟨request, -, hfields, -, hwell⟩ := hmessage.cases
    have hbytes : Message.encodeRaw message = request.field.bytes := by
      rw [Message.encodeRaw, hfields, serialize, List.flatMap_singleton]
    rw [hbytes] at hfront hproper
    rw [flatMap_encodeRaw, Message.decode, parse_serialize_append (fields_wellFormed hvalid),
      parse_of_prefix hwell hfront hempty hproper]
    rfl

theorem sendAll_cons {μ : Type} {encode : μ → BytesMut → Except EncodeError BytesMut}
    {buf : BytesMut} {message : μ} {rest : List (BytesMut × μ)} {stream : List UInt8}
    (hsent : sendAll encode ((buf, message) :: rest) = .ok stream) :
    ∃ after others, encode message buf = .ok after ∧ sendAll encode rest = .ok others ∧
      stream = after.bytes.drop buf.bytes.length ++ others := by
  simp only [sendAll] at hsent
  cases hencode : encode message buf with
  | error error => simp [hencode, bind, Except.bind] at hsent
  | ok after =>
      cases hrest : sendAll encode rest with
      | error error => simp [hencode, hrest, bind, Except.bind] at hsent
      | ok others =>
          simp only [hencode, hrest, bind, Except.bind, pure, Except.pure] at hsent
          exact ⟨after, others, rfl, rfl, (Except.ok.inj hsent).symm⟩

/-- What is on the connection is the encodings, one after another. -/
theorem sendAll_ok {μ : Type} [Message μ] {sends : List (BytesMut × μ)} {stream : List UInt8}
    (hsent : sendAll Message.encode sends = .ok stream) :
    stream = (sends.map Prod.snd).flatMap Message.encodeRaw ∧
      ∀ send ∈ sends, (Message.encodeRaw send.2).length < 2 ^ 64 := by
  induction sends generalizing stream with
  | nil =>
      obtain rfl := Except.ok.inj hsent
      exact ⟨rfl, by simp⟩
  | cons send rest ih =>
      obtain ⟨after, others, hencode, hrest, rfl⟩ := sendAll_cons hsent
      obtain ⟨hbytes, hlength⟩ := encode_ok hencode
      obtain ⟨rfl, hlengths⟩ := ih hrest
      refine ⟨?_, ?_⟩
      · rw [hbytes, List.drop_left]
        rfl
      · intro other hother
        rcases List.mem_cons.mp hother with rfl | hmem
        · exact hlength
        · exact hlengths other hmem

/-- All requests arrive, in order, if and only if each of them ends where a read
ends. -/
theorem requests_delivered_iff {sends : List (BytesMut × FromClient)} {stream : List UInt8}
    {reads : List (List UInt8)} (hsome : ∀ send ∈ sends, send.2.msg.isSome)
    (hsent : sendAll ProtoClient.encode sends = .ok stream) (hreads : ∀ read ∈ reads, read ≠ [])
    (hstream : reads.flatten = stream) :
    receive ProtoCodec.decode reads [] = sends.map Prod.snd ↔
      ∀ n ∈ cuts 0 ((sends.map Prod.snd).map Message.encodeRaw), n ∈ cuts 0 reads := by
  obtain ⟨rfl, hlengths⟩ := sendAll_ok hsent
  have hvalid : ∀ message ∈ sends.map Prod.snd, ValidRequest message := by
    intro message hmessage
    obtain ⟨send, hsend, rfl⟩ := List.mem_map.mp hmessage
    exact ⟨hsome send hsend, hlengths send hsend⟩
  have hreceive : receive (wholeBuffer Message.decode) reads [] =
      kept Message.encodeRaw (cuts 0 reads) 0 (sends.map Prod.snd) :=
    receive_eq_kept requests_lastWins hvalid hreads hstream
  rw [ProtoCodec.decode, hreceive]
  exact kept_eq_self_iff

/-- Two requests in one read are taken for one. -/
theorem requests_lost :
    ¬ ∀ (sends : List (BytesMut × FromClient)) (stream : List UInt8) (reads : List (List UInt8)),
      (∀ send ∈ sends, send.2.msg.isSome) → sendAll ProtoClient.encode sends = .ok stream →
      (∀ read ∈ reads, read ≠ []) → reads.flatten = stream →
      receive ProtoCodec.decode reads [] = sends.map Prod.snd := by
  intro hall
  have hdelivered := hall
    [(.fresh, ⟨some (.requestIps true)⟩), (.fresh, ⟨some (.requestIps false)⟩)]
    [40, 1, 40, 0] [[40, 1, 40, 0]] (by decide) (by rfl) (by decide) (by decide)
  exact absurd hdelivered (by decide)

theorem requests_delivered_iff_two :
    receive ProtoCodec.decode [[40], [1, 40], [0]] [] =
        [⟨some (.requestIps true)⟩, ⟨some (.requestIps false)⟩] ↔
      ∀ n ∈ cuts 0 ([(⟨some (.requestIps true)⟩ : FromClient),
        ⟨some (.requestIps false)⟩].map Message.encodeRaw),
        n ∈ cuts 0 [[40], [1, 40], [(0 : UInt8)]] := by
  have hsent : sendAll ProtoClient.encode
      [(.fresh, ⟨some (.requestIps true)⟩), (.fresh, ⟨some (.requestIps false)⟩)] =
      .ok [40, 1, 40, 0] := by rfl
  exact requests_delivered_iff (by decide) hsent (by decide) (by decide)

/-! ## Replies -/

/-- A reply of the engine reports success or has a body. -/
theorem handleIncoming_shape {env : Env} {message : FromClient} {world : World} {reply : ToClient}
    (hreply : (ConsentEngine.handleIncoming env message world).1 = .ok reply) :
    reply.success = true ∨ reply.msg.isSome := by
  have hrun : ConsentEngine.handleIncoming env message world =
      (.ok reply, (ConsentEngine.handleIncoming env message world).2) := Prod.ext hreply rfl
  cases handleIncoming_replied hrun with
  | concluded result =>
      cases result with
      | error error => exact .inr rfl
      | ok value => exact .inl rfl
  | certified hcert => exact .inl rfl
  | listed hips => exact .inl rfl

/-- The field of a reply that reports success. -/
def successField : Field := ⟨1, .varint 1⟩

theorem successField_bytes : successField.bytes = [8, 1] := by decide

theorem plain_reply (reply : ToClient) : ∀ field ∈ Message.fields reply, field.Plain := by
  refine List.forall_mem_append.mpr ⟨fun _ => plain_boolField (by decide) (by decide), ?_⟩
  intro field hfield
  obtain ⟨body, -, rfl⟩ := List.mem_map.mp hfield
  exact plain_body body

theorem decode_reply {reply : ToClient} (hlength : (Message.encodeRaw reply).length < 2 ^ 64) :
    Message.decode (Message.encodeRaw reply) = some reply := by
  refine Faithful.decode_encodeRaw ⟨plain_reply reply, ?_⟩ hlength
  obtain ⟨success, msg⟩ := reply
  apply foldlM_append_of (foldlM_boolField (fun value => ToClient.mk value none) rfl success)
  cases msg with
  | none => rfl
  | some body =>
      have hbody : body.field.bytes.length < 2 ^ 64 := by
        refine Nat.lt_of_le_of_lt (Field.length_le ?_) hlength
        exact List.mem_append_right _ List.mem_cons_self
      simp [mergeField_body _ hbody]

theorem parse_take_of_lt {field : Field} (hfield : field.WellFormed) {n : Nat} (hpositive : 0 < n)
    (hshort : n < field.bytes.length) : parse (field.bytes.take n) = none := by
  have hlength : (field.bytes.take n).length = n := by
    rw [List.length_take]
    omega
  apply parse_of_prefix hfield (List.take_prefix n _)
  · intro hempty
    rw [hempty, List.length_nil] at hlength
    omega
  · intro hwhole
    rw [hwhole] at hlength
    omega

theorem encodeRaw_two (body : Body) : Message.encodeRaw (⟨true, some body⟩ : ToClient) =
    successField.bytes ++ body.field.bytes := by
  simp [Message.encodeRaw, Message.fields, serialize, boolField, successField]

/-- A part of a reply can be read only if it is the first two bytes of a reply
with two fields. -/
theorem decode_take {reply : ToClient} (hshape : reply.success = true ∨ reply.msg.isSome)
    (hlength : (Message.encodeRaw reply).length < 2 ^ 64) {n : Nat} (hpositive : 0 < n)
    (hshort : n < (Message.encodeRaw reply).length) :
    (Message.decode ((Message.encodeRaw reply).take n) : Option ToClient) =
      if reply.success = true ∧ reply.msg.isSome ∧ n = 2 then some ⟨true, none⟩ else none := by
  have hwell := wellFormed_of_length (plain_reply reply) hlength
  obtain ⟨success, msg⟩ := reply
  unfold Message.decode
  cases success with
  | false =>
      -- a false flag is not written: there is one field at most
      cases msg with
      | none => simp at hshape
      | some body =>
          have hbytes : Message.encodeRaw (⟨false, some body⟩ : ToClient) = body.field.bytes :=
            List.flatMap_singleton ..
          rw [hbytes] at hshort ⊢
          rw [parse_take_of_lt (hwell _ List.mem_cons_self) hpositive hshort]
          rfl
  | true =>
      cases msg with
      | none =>
          have hbytes : Message.encodeRaw (⟨true, none⟩ : ToClient) = successField.bytes :=
            List.flatMap_singleton ..
          have hfirst : successField.WellFormed := hwell _ List.mem_cons_self
          rw [hbytes] at hshort ⊢
          rw [parse_take_of_lt hfirst hpositive hshort]
          simp
      | some body =>
          have hfirst : successField.WellFormed := hwell _ List.mem_cons_self
          have hsecond : body.field.WellFormed :=
            hwell _ (List.mem_cons_of_mem _ List.mem_cons_self)
          have htwo : successField.bytes.length = 2 := by rw [successField_bytes]; rfl
          rw [encodeRaw_two, List.length_append] at hshort
          rw [encodeRaw_two]
          -- inside the flag, between the fields, inside the body
          rcases Nat.lt_trichotomy n 2 with hless | rfl | hmore
          · rw [List.take_append_of_le_length (by omega),
              parse_take_of_lt hfirst hpositive (by omega), if_neg (by omega)]
            rfl
          · have hparse : parse successField.bytes = some [successField] := by
              simpa [parse] using parse_append hfirst []
            rw [← htwo, List.take_left, hparse, if_pos ⟨rfl, rfl, rfl⟩]
            rfl
          · have hpart : 0 < n - 2 ∧ n - 2 < body.field.bytes.length := by omega
            rw [List.take_append, List.take_of_length_le (by omega), parse_append hfirst, htwo,
              parse_take_of_lt hsecond hpart.1 hpart.2, if_neg (by omega)]
            rfl

/-- The client's first item is the reply, if and only if the reply is not one
with two fields that is cut after the first. -/
theorem reply_delivered_iff {env : Env} {message : FromClient} {world : World} {reply : ToClient}
    (hreply : (ConsentEngine.handleIncoming env message world).1 = .ok reply)
    {buf after : BytesMut} (hencode : ProtoCodec.encode reply buf = .ok after)
    {reads : List (List UInt8)} (hreads : ∀ read ∈ reads, read ≠ [])
    (hstream : buf.bytes ++ reads.flatten = after.bytes) :
    (receive ProtoClient.decode reads []).head? = some reply ↔
      ¬ (reply.success = true ∧ reply.msg.isSome ∧ 2 ∈ cuts 0 reads) := by
  have hshape := handleIncoming_shape hreply
  obtain ⟨hbytes, hlength⟩ := encode_ok hencode
  rw [hbytes] at hstream
  have hwritten : reads.flatten = Message.encodeRaw reply := List.append_cancel_left hstream
  have hnotDefault : reply ≠ ⟨false, none⟩ := by
    rintro rfl
    simp at hshape
  have hwhole := decode_reply hlength
  have hempty : Message.encodeRaw reply ≠ [] := by
    intro hnil
    rw [hnil] at hwhole
    exact hnotDefault (Option.some.inj hwhole).symm
  -- what a part of the reply is read to has no body, but the reply has one
  have hshorter : ∀ n < (Message.encodeRaw reply).length,
      Message.decode ((Message.encodeRaw reply).take n) ≠ some reply := by
    intro n hshort hsame
    rcases Nat.eq_zero_or_pos n with rfl | hpositive
    · exact hnotDefault (Option.some.inj hsame).symm
    rw [decode_take hshape hlength hpositive hshort] at hsame
    split at hsame
    · rename_i hcut
      rw [← Option.some.inj hsame] at hcut
      simp at hcut
    · cases hsame
  rw [ProtoClient.decode, head?_receive_eq_some_iff hreads hwritten hempty hwhole hshorter]
  constructor
  · rintro hnone ⟨hsuccess, hbody, hcut⟩
    have htwo : 2 < (Message.encodeRaw reply).length := by
      obtain ⟨success, msg⟩ := reply
      obtain ⟨body, rfl⟩ := Option.isSome_iff_exists.mp hbody
      obtain rfl : success = true := hsuccess
      have hpositive := List.length_pos_iff.mpr body.field.bytes_ne_nil
      rw [encodeRaw_two, successField_bytes, List.length_append]
      simp only [List.length_cons, List.length_nil]
      omega
    have hread := hnone 2 hcut htwo
    rw [decode_take hshape hlength (by omega) htwo, if_pos ⟨hsuccess, hbody, rfl⟩] at hread
    cases hread
  · intro hnot n hcut hshort
    rw [decode_take hshape hlength (lt_of_mem_cuts hreads hcut) hshort, if_neg]
    rintro ⟨hsuccess, hbody, rfl⟩
    exact hnot ⟨hsuccess, hbody, hcut⟩

/-- The addresses of no tenants, cut after two bytes. -/
theorem reply_truncated :
    ¬ ∀ (env : Env) (message : FromClient) (world : World) (reply : ToClient),
      (ConsentEngine.handleIncoming env message world).1 = .ok reply →
      ∀ (buf after : BytesMut), ProtoCodec.encode reply buf = .ok after →
      ∀ reads : List (List UInt8), (∀ read ∈ reads, read ≠ []) →
      buf.bytes ++ reads.flatten = after.bytes →
      (receive ProtoClient.decode reads []).head? = some reply := by
  intro hall
  have hfirst := hall (Env.calm 0) ⟨some (.requestIps true)⟩ Service.blank.world
    ⟨true, some (.ips ⟨[]⟩)⟩ (by decide) .fresh ⟨8192, [8, 1, 34, 0], by decide⟩ (by rfl)
    [[8, 1], [34, 0]] (by decide) (by decide)
  exact absurd hfirst (by decide)

theorem reply_delivered_iff_cut :
    (receive ProtoClient.decode [[8], [1, 34, 0]] []).head? = some ⟨true, some (.ips ⟨[]⟩)⟩ ↔
      ¬ ((⟨true, some (.ips ⟨[]⟩)⟩ : ToClient).success = true ∧
        (⟨true, some (.ips ⟨[]⟩)⟩ : ToClient).msg.isSome ∧
        2 ∈ cuts 0 [[8], [1, 34, (0 : UInt8)]]) := by
  have hreply : (ConsentEngine.handleIncoming (Env.calm 0) ⟨some (.requestIps true)⟩
      Service.blank.world).1 = .ok ⟨true, some (.ips ⟨[]⟩)⟩ := by decide
  have hencode : ProtoCodec.encode ⟨true, some (.ips ⟨[]⟩)⟩ .fresh =
      .ok ⟨8192, [8, 1, 34, 0], by decide⟩ := by rfl
  exact reply_delivered_iff hreply hencode (by decide) (by decide)

end Tolla.Proto
