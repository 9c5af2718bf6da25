import Tolla.Protocol.Delivery

/-!
# One request and one reply

Without framing a connection can carry one message at a time.  A request that is
alone on its way arrives: no part of it can be parsed, and the whole of it is
parsed to what was sent (`request_intact`).

A receiver takes an empty buffer for no message, and default values are not
written.  That no reply is written as nothing rests on its shape: a reply that
reports success has a flag to write, and one that does not has an error
(`reply_visible`).
-/

namespace Tolla.Proto

open Effects Wire Framing

/-! ## Requests -/

/-- A part of a request stays in the buffer. -/
theorem decode_of_part {message : FromClient} (hvalid : ValidRequest message)
    {front : List UInt8} (hfront : front <+: Message.encodeRaw message)
    (hproper : front ≠ Message.encodeRaw message) :
    ProtoCodec.decode front = (none, front) := by
  unfold ProtoCodec.decode wholeBuffer
  by_cases hempty : front = []
  · simp [hempty]
  · have hbroken : Message.decode front = (none : Option FromClient) :=
      requests_lastWins.broken [] message front (by simp) hvalid hfront hempty hproper
    simp [hempty, hbroken]

/-- A whole request is taken out of the buffer. -/
theorem decode_of_whole {message : FromClient} (hvalid : ValidRequest message) :
    ProtoCodec.decode (Message.encodeRaw message) = (some message, []) := by
  have hempty := requests_lastWins.nonempty message hvalid
  have hwhole : Message.decode (Message.encodeRaw message) = some message :=
    requests_lastWins.whole [] message (by simp) hvalid
  unfold ProtoCodec.decode wholeBuffer
  simp [hempty, hwhole]

/-- The bytes of a request are parsed when they are all there and not before, and
however they are cut into reads, the server gets the request once. -/
theorem request_intact {message : FromClient} {buf after : BytesMut} {bytes : List UInt8}
    (hsome : message.msg.isSome) (hencode : ProtoClient.encode message buf = .ok after)
    (hbytes : after.bytes = buf.bytes ++ bytes) :
    (∀ front, front <+: bytes → front ≠ bytes → ProtoCodec.decode front = (none, front)) ∧
    ProtoCodec.decode bytes = (some message, []) ∧
    ∀ reads : List (List UInt8), (∀ read ∈ reads, read ≠ []) → reads.flatten = bytes →
      receive ProtoCodec.decode reads [] = [message] := by
  obtain ⟨hwritten, hlength⟩ := encode_ok hencode
  obtain rfl : Message.encodeRaw message = bytes :=
    List.append_cancel_left (hwritten.symm.trans hbytes)
  have hvalid : ValidRequest message := ⟨hsome, hlength⟩
  refine ⟨fun front => decode_of_part hvalid, decode_of_whole hvalid, ?_⟩
  intro reads hreads hstream
  have hreceive : receive (wholeBuffer Message.decode) reads [] =
      kept Message.encodeRaw (cuts 0 reads) 0 [message] :=
    receive_eq_kept requests_lastWins (by simpa using hvalid) hreads (by simpa using hstream)
  rw [ProtoCodec.decode, hreceive, kept_eq_self_iff]
  -- the one message ends where the last read ends
  intro n hn
  obtain rfl : n = reads.flatten.length := by
    rw [hstream]
    simpa [cuts] using hn
  have hempty : reads ≠ [] := by
    intro hnil
    rw [hnil, List.flatten_nil] at hstream
    exact requests_lastWins.nonempty message hvalid hstream.symm
  obtain ⟨init, last, rfl⟩ := (List.eq_nil_or_concat' reads).resolve_left hempty
  rw [cuts_append]
  simp [cuts]

/-- A user, cut in the middle of the name. -/
theorem request_intact_user :
    ProtoCodec.decode [34, 3, 10] = (none, [34, 3, 10]) ∧
    ProtoCodec.decode [34, 3, 10, 1, 97] = (some ⟨some (.user ⟨"a", ""⟩)⟩, []) ∧
    receive ProtoCodec.decode [[34, 3, 10], [1, 97]] [] = [⟨some (.user ⟨"a", ""⟩)⟩] := by
  have hencode : ProtoClient.encode ⟨some (.user ⟨"a", ""⟩)⟩ .fresh =
      .ok ⟨8192, [34, 3, 10, 1, 97], by decide⟩ := by rfl
  obtain ⟨hparts, hwhole, hreads⟩ := request_intact (by decide) hencode (by rfl)
  exact ⟨hparts [34, 3, 10] (by decide) (by decide), hwhole,
    hreads [[34, 3, 10], [1, 97]] (by decide) (by decide)⟩

/-! ## Replies -/

/-- A reply reports success unless it has an error in it, and it has a certificate or
addresses only if it was asked for them. -/
structure WellFormed (message : FromClient) (reply : ToClient) : Prop where
  success : reply.success = true ↔ ∀ e, reply.msg ≠ some (.error e)
  certificate : ∀ c, reply.msg = some (.certificate c) →
    ∃ r, message.msg = some (.certificateRequest r)
  ips : ∀ a, reply.msg = some (.ips a) → ∃ b, message.msg = some (.requestIps b)

theorem wellFormed_conclude (message : FromClient) (result : Except String Unit) :
    WellFormed message (ConsentEngine.conclude result) := by
  cases result with
  | error error => constructor <;> simp [ConsentEngine.conclude]
  | ok value => constructor <;> simp [ConsentEngine.conclude]

theorem wellFormed_of_replied {env : Env} {message : FromClient} {world after : World}
    {reply : ToClient} (hreplied : Replied env message world reply after) :
    WellFormed message reply := by
  cases hreplied with
  | concluded result => exact wellFormed_conclude _ result
  | certified hcert => constructor <;> simp
  | listed hips => constructor <;> simp

theorem encodeRaw_ne_nil {reply : ToClient} (hshape : reply.success = true ∨ reply.msg.isSome) :
    Message.encodeRaw reply ≠ [] := by
  have hfields : Message.fields reply ≠ [] := by
    obtain ⟨success, msg⟩ := reply
    rcases hshape with hsuccess | hbody
    · obtain rfl : success = true := hsuccess
      simp [Message.fields, boolField]
    · obtain ⟨body, rfl⟩ := Option.isSome_iff_exists.mp hbody
      simp [Message.fields]
  obtain ⟨field, hfield⟩ := List.exists_mem_of_ne_nil _ hfields
  have hlength := Field.length_le hfield
  have hpositive := List.length_pos_iff.mpr field.bytes_ne_nil
  rw [← List.length_pos_iff]
  exact Nat.lt_of_lt_of_le hpositive hlength

/-- Every reply of the engine is well formed, is written as at least one byte, and is
read back from a buffer that holds it. -/
theorem reply_visible {env : Env} {message : FromClient} {world : World} {reply : ToClient}
    (hreply : (ConsentEngine.handleIncoming env message world).1 = .ok reply) :
    WellFormed message reply ∧ Message.encodeRaw reply ≠ [] ∧
    ∀ buf : BytesMut, buf.bytes = Message.encodeRaw reply →
      ProtoClient.decode buf.bytes = (some reply, []) := by
  have hrun : ConsentEngine.handleIncoming env message world =
      (.ok reply, (ConsentEngine.handleIncoming env message world).2) := Prod.ext hreply rfl
  have hempty := encodeRaw_ne_nil (handleIncoming_shape hreply)
  refine ⟨wellFormed_of_replied (handleIncoming_replied hrun), hempty, ?_⟩
  intro buf hbuf
  -- what is in a buffer is no longer than an address space
  have hlength : (Message.encodeRaw reply).length < 2 ^ 64 := by
    rw [← hbuf]
    exact Nat.lt_of_le_of_lt buf.fits buf.capacity.toNat_lt
  rw [hbuf]
  unfold ProtoClient.decode wholeBuffer
  simp [hempty, decode_reply hlength]

/-- A consent is added, and the reply is the flag. -/
theorem reply_visible_consent :
    WellFormed ⟨some (.consent ⟨"alice", ["research"], 0, false, false, false⟩)⟩ ⟨true, none⟩ ∧
    Message.encodeRaw (⟨true, none⟩ : ToClient) ≠ [] ∧
    ProtoClient.decode [8, 1] = (some ⟨true, none⟩, []) := by
  have hreply : (ConsentEngine.handleIncoming (Env.calm 0)
      ⟨some (.consent ⟨"alice", ["research"], 0, false, false, false⟩)⟩ Service.blank.world).1 =
      .ok ⟨true, none⟩ := by decide
  obtain ⟨hwell, hempty, hdecode⟩ := reply_visible hreply
  exact ⟨hwell, hempty, hdecode ⟨8192, [8, 1], by decide⟩ (by decide)⟩

end Tolla.Proto
