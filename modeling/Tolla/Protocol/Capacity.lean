import Tolla.Protocol.Delivery

/-!
# The write buffer of a connection

`Framed` gives the codec the write buffer of the connection and takes out of it
what the socket accepted.  Neither makes the buffer larger, and what is taken out
takes its room with it: the room that is left for replies only shrinks, by the
length of each reply, however often the buffer is flushed.  So the replies of a
connection are written as long as their encodings together fit into the buffer
as it was created (`replies_encoded_iff`).
-/

namespace Tolla.Proto

namespace BytesMut

theorem toNat_capacity_sub (buf : BytesMut) (count : Nat) :
    (buf.capacity - UInt64.ofNat (min count buf.bytes.length)).toNat =
      buf.capacity.toNat - min count buf.bytes.length := by
  have hfits := buf.fits
  have hcapacity := buf.capacity.toNat_lt
  have hcount : (UInt64.ofNat (min count buf.bytes.length)).toNat =
      min count buf.bytes.length := by
    rw [UInt64.toNat_ofNat']
    omega
  have hle : UInt64.ofNat (min count buf.bytes.length) ≤ buf.capacity := by
    rw [UInt64.le_iff_toNat_le]
    omega
  rw [UInt64.toNat_sub_of_le _ _ hle, hcount]

/-- `split_to`, of which the front is dropped.  A socket does not accept more than it
was given. -/
def splitTo (buf : BytesMut) (count : Nat) : BytesMut where
  capacity := buf.capacity - UInt64.ofNat (min count buf.bytes.length)
  bytes := buf.bytes.drop count
  fits := by
    have hfits := buf.fits
    rw [toNat_capacity_sub, List.length_drop]
    omega

/-- A flush makes no room. -/
theorem remainingMut_splitTo (buf : BytesMut) (count : Nat) :
    (buf.splitTo count).remainingMut = buf.remainingMut := by
  have hfits := buf.fits
  simp only [remainingMut, splitTo]
  rw [toNat_capacity_sub, List.length_drop]
  omega

/-- A reply takes as much room as its encoding has bytes. -/
theorem remainingMut_of_encode {buf after : BytesMut} {reply : ToClient}
    (hencode : ProtoCodec.encode reply buf = .ok after) :
    (Message.encodeRaw reply).length ≤ buf.remainingMut ∧
      after.remainingMut = buf.remainingMut - (Message.encodeRaw reply).length := by
  unfold ProtoCodec.encode Message.encode at hencode
  split at hencode
  · rename_i hroom
    obtain rfl := Except.ok.inj hencode
    refine ⟨hroom, ?_⟩
    simp only [remainingMut, List.length_append]
    omega
  · cases hencode

end BytesMut

/-- What happens to the write buffer: a reply is sent, or the socket accepts bytes. -/
inductive Transmission where
  | send (reply : ToClient)
  | flush (count : Nat)

/-- Every `encode` returns `Ok` and appends the encoding of the reply. -/
def AllEncoded : List Transmission → BytesMut → Prop
  | [], _ => True
  | .send reply :: rest, buf => ∃ after, ProtoCodec.encode reply buf = .ok after ∧
      after.bytes = buf.bytes ++ Message.encodeRaw reply ∧ AllEncoded rest after
  | .flush count :: rest, buf => AllEncoded rest (buf.splitTo count)

/-- The bytes that the replies have together. -/
def totalLength : List Transmission → Nat
  | [] => 0
  | .send reply :: rest => (Message.encodeRaw reply).length + totalLength rest
  | .flush _ :: rest => totalLength rest

theorem allEncoded_iff (transmissions : List Transmission) (buf : BytesMut) :
    AllEncoded transmissions buf ↔ totalLength transmissions ≤ buf.remainingMut := by
  induction transmissions generalizing buf with
  | nil => simp [AllEncoded, totalLength]
  | cons transmission rest ih =>
      cases transmission with
      | flush count => rw [AllEncoded, totalLength, ih, BytesMut.remainingMut_splitTo]
      | send reply =>
          rw [AllEncoded, totalLength]
          constructor
          · intro hencoded
            obtain ⟨after, hencode, -, hrest⟩ := hencoded
            obtain ⟨hroom, hremaining⟩ := BytesMut.remainingMut_of_encode hencode
            have htotal := (ih after).mp hrest
            omega
          · intro htotal
            have hroom : (Message.encodeRaw reply).length ≤ buf.remainingMut := by omega
            obtain ⟨after, hencode⟩ : ∃ after, ProtoCodec.encode reply buf = .ok after :=
              ⟨_, dif_pos hroom⟩
            have hremaining := (BytesMut.remainingMut_of_encode hencode).2
            exact ⟨after, hencode, (encode_ok hencode).1, (ih after).mpr (by omega)⟩

/-- All replies of a connection are written if and only if they have at most 8192
bytes together. -/
theorem replies_encoded_iff (transmissions : List Transmission) :
    AllEncoded transmissions .fresh ↔ totalLength transmissions ≤ 8192 :=
  allEncoded_iff transmissions .fresh

/-- Replies that report success, each of them flushed at once. -/
def acknowledgements : Nat → List Transmission
  | 0 => []
  | count + 1 => .send ⟨true, none⟩ :: .flush 2 :: acknowledgements count

theorem totalLength_acknowledgements (count : Nat) :
    totalLength (acknowledgements count) = 2 * count := by
  induction count with
  | zero => rfl
  | succ count ih =>
      have hlength : (Message.encodeRaw (⟨true, none⟩ : ToClient)).length = 2 := by decide
      rw [acknowledgements, totalLength, totalLength, ih, hlength]
      omega

/-- The 4097th reply of two bytes does not fit, although the buffer is empty. -/
theorem replies_overflow : ¬ ∀ transmissions : List Transmission,
    AllEncoded transmissions .fresh := by
  intro hall
  have htotal := (allEncoded_iff _ _).mp (hall (acknowledgements 4097))
  rw [totalLength_acknowledgements] at htotal
  exact absurd htotal (by decide)

end Tolla.Proto
