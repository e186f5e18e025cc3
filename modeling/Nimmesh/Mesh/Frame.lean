import Nimmesh.Bytes
import Nimmesh.Mesh.Wire

/-! @src codec.rs packet.rs | name:What a frame decodes to | layer:model

    `Packet.unpadded` is a packet's frame without the padding. The decoder takes exactly the byte
    strings that begin with the unpadded frame of a well-formed packet, and gives that packet back:
    no byte before the padding is skipped, read twice or reinterpreted (`decode_eq_ok_iff`). -/

namespace Nimmesh
open Rlp

/-- The frame of a packet before padding. -/
def Packet.unpadded (p : Packet) : Bytes :=
  p.headBytes ++ p.payload ++ (p.signature.map (·.1)).getD []

/-- The decoder's slices stand one after the other. -/
theorem take_slice (b : Bytes) (off n : ℕ) : b.take off ++ slice b off n = b.take (off + n) :=
  List.take_add.symm

theorem length_slice {b : Bytes} {off n : ℕ} (h : off + n ≤ b.length) : (slice b off n).length = n := by
  simp only [slice, List.length_take, List.length_drop]
  omega

theorem slice_one {b : Bytes} {i : ℕ} (h : i < b.length) : slice b i 1 = [byteAt b i] := by
  rw [slice, List.drop_eq_getElem_cons h, List.take_succ_cons, List.take_zero, byteAt]
  simp [h]

theorem val_sliceArr {n : ℕ} {b : Bytes} {off : ℕ} (h : off + n ≤ b.length) :
    (sliceArr n b off).1 = slice b off n := by
  rw [sliceArr, ByteArr.ofBytes?, dif_pos (length_slice h)]
  rfl

/-- What holds of all 256 bytes holds of a byte. -/
theorem forall_byte {P : UInt8 → Prop} (h : ∀ i : Fin 256, P (.ofFin i)) (b : UInt8) : P b := h b.toFin

/-- The three parts of a frame whose presence or length the header announces. -/
structure Layout where
  hasRecipient : Bool
  hasSignature : Bool
  payloadLen : ℕ

/-- The layout that a header announces. -/
def Layout.ofHeader (b : Bytes) : Layout where
  hasRecipient := byteAt b 11 &&& flagHasRecipient != 0
  hasSignature := byteAt b 11 &&& flagHasSignature != 0
  payloadLen := ofBe (slice b 12 2)

/-- Where the payload begins. -/
def Layout.off (l : Layout) : ℕ := headerLen + peerIdLen + if l.hasRecipient then peerIdLen else 0

/-- Where the unpadded frame ends. -/
def Layout.needed (l : Layout) : ℕ := l.off + l.payloadLen + if l.hasSignature then signatureLen else 0

/-- A type byte that parses is the one its type is written as. -/
theorem MessageType.toU8_of_fromU8 {b : UInt8} {mt : MessageType} (h : MessageType.fromU8 b = some mt) :
    mt.toU8 = b := by
  have hall : ∀ b, (MessageType.fromU8 b).all (·.toU8 == b) := forall_byte (by decide +kernel)
  simpa [h] using hall b

/-- A flag byte without unknown bits is the one its parts are written as. -/
theorem PacketFlags.toWire_fromWire (byte : UInt8) : wireHasUnknownBits byte = false →
    (PacketFlags.fromWire byte).toWire (byte &&& flagHasRecipient != 0) (byte &&& flagHasSignature != 0) =
      byte :=
  forall_byte (P := fun byte => wireHasUnknownBits byte = false →
    (PacketFlags.fromWire byte).toWire (byte &&& flagHasRecipient != 0) (byte &&& flagHasSignature != 0) =
      byte) (by decide +kernel) byte

/-- A packet and the layout it was read at. -/
theorem decode_inv {b : Bytes} {p : Packet} (h : decode b = .ok p) :
    (Layout.ofHeader b).needed ≤ b.length ∧ PacketFlags.wireHasUnknownBits (byteAt b 11) = false ∧
      p.version = version ∧ p.version = byteAt b 0 ∧ p.msgType.toU8 = byteAt b 1 ∧ p.ttl = byteAt b 2 ∧
      p.timestampMs = u64OfBe (slice b 3 8) ∧ p.flags = .fromWire (byteAt b 11) ∧
      p.senderId = sliceArr peerIdLen b headerLen ∧
      p.recipientId = (if (Layout.ofHeader b).hasRecipient then
        some (sliceArr peerIdLen b (headerLen + peerIdLen)) else none) ∧
      p.payload = slice b (Layout.ofHeader b).off (Layout.ofHeader b).payloadLen ∧
      p.signature = (if (Layout.ofHeader b).hasSignature then
        some (sliceArr signatureLen b ((Layout.ofHeader b).off + (Layout.ofHeader b).payloadLen)) else none) := by
  unfold decode at h
  split_ifs at h with hmin hver
  cases hmt : MessageType.fromU8 (byteAt b 1) with
  | none => simp [hmt] at h
  | some mt =>
    simp only [hmt] at h
    split_ifs at h with hbits hlen
    all_goals
      cases h
      simp_all [Layout.ofHeader, Layout.off, Layout.needed, MessageType.toU8_of_fromU8 hmt]

/-- The fixed header and the sender, field by field. -/
theorem take_header {b : Bytes} (h : headerLen + peerIdLen ≤ b.length) :
    b.take (headerLen + peerIdLen) = [byteAt b 0, byteAt b 1, byteAt b 2] ++ slice b 3 8 ++ [byteAt b 11] ++
      slice b 12 2 ++ slice b headerLen peerIdLen := by
  have hlen : 22 ≤ b.length := h
  have hthree : b.take 3 = [byteAt b 0, byteAt b 1, byteAt b 2] := by
    rw [← take_slice b 2 1, ← take_slice b 1 1, ← take_slice b 0 1, slice_one (by omega), slice_one (by omega),
      slice_one (by omega)]
    rfl
  rw [← hthree, ← slice_one (i := 11) (by omega), take_slice, take_slice, take_slice]
  exact (take_slice b headerLen peerIdLen).symm

/-- An optional part of a frame is read off where it stands. -/
theorem optional_slice {n : ℕ} {b : Bytes} {off : ℕ} {present : Bool}
    (h : off + (if present then n else 0) ≤ b.length) :
    (((if present then some (sliceArr n b off) else none : Option (ByteArr n)).map (·.1)).getD []) =
      slice b off (if present then n else 0) := by
  cases present with
  | false => rfl
  | true => exact val_sliceArr h

/-- The decoded packet would be written as the bytes it was read from. -/
theorem unpadded_of_decode {b : Bytes} {p : Packet} (h : decode b = .ok p) :
    p.unpadded = b.take (Layout.ofHeader b).needed := by
  obtain ⟨hneeded, hbits, hver, h0, h1, h2, hts, hflags, hsender, hrec, hpayload, hsig⟩ := decode_inv h
  set l := Layout.ofHeader b with hl
  have hoff : l.off + l.payloadLen + (if l.hasSignature then signatureLen else 0) ≤ b.length := hneeded
  have hfix : headerLen + peerIdLen + (if l.hasRecipient then peerIdLen else 0) ≤ b.length := by
    have hle : l.off ≤ b.length := by omega
    exact hle
  have hmin : headerLen + peerIdLen ≤ b.length := by omega
  have hlen22 : 22 ≤ b.length := hmin
  have hplen : p.payload.length = l.payloadLen := by
    rw [hpayload]
    exact length_slice (by omega)
  have hisrec : p.recipientId.isSome = l.hasRecipient := by
    rw [hrec]
    cases l.hasRecipient <;> rfl
  have hissig : p.signature.isSome = l.hasSignature := by
    rw [hsig]
    cases l.hasSignature <;> rfl
  have hflagByte : p.flags.toWire p.recipientId.isSome p.signature.isSome = byteAt b 11 := by
    rw [hflags, hisrec, hissig]
    exact PacketFlags.toWire_fromWire (byteAt b 11) hbits
  have hstamp : beBytes p.timestampMs = slice b 3 8 := by
    rw [hts]
    exact beBytes_u64OfBe (length_slice (by omega))
  have hlenBytes : beBytesOf 2 p.payload.length = slice b 12 2 := by
    have h2 : (slice b 12 2).length = 2 := length_slice (by omega)
    have hback := beBytesOf_ofBe (slice b 12 2)
    rw [h2] at hback
    rw [hplen]
    exact hback
  have hid : p.senderId.1 = slice b headerLen peerIdLen := by
    rw [hsender]
    exact val_sliceArr hmin
  rw [Packet.unpadded, Packet.headBytes, h0, h1, h2, hflagByte, hstamp, hlenBytes, hid, hrec, hsig, hpayload,
    ← take_header hmin, optional_slice hfix, optional_slice hoff, take_slice]
  show b.take l.off ++ _ ++ _ = _
  rw [take_slice, take_slice]
  rfl

/-- CORRECT: the decoder takes a byte string exactly when it begins with the unpadded frame of a
    well-formed packet, and gives that packet. -/
theorem decode_eq_ok_iff (b : Bytes) (p : Packet) : decode b = .ok p ↔ p.WellFormed ∧ p.unpadded <+: b := by
  constructor
  · intro h
    refine ⟨wellFormed_of_decode h, ?_⟩
    rw [unpadded_of_decode h]
    exact List.take_prefix _ _
  · rintro ⟨hp, rest, rfl⟩
    simp only [Packet.unpadded, List.append_assoc]
    exact decode_parts p hp rest

theorem encode_eq {p : Packet} (h : p.payload.length ≤ maxPayloadLen) :
    encode p = .ok (applyPadding p.unpadded) := if_neg (Nat.not_lt.mpr h)

/-- CORRECT: every packet of this version with a payload that fits survives its frame, whatever padding
    it gets; and a byte string that decodes begins with the unpadded frame of what it decodes to, which
    re-encodes to that frame and its padding. -/
theorem packet_codec :
    (∀ p : Packet, p.version = version → p.payload.length ≤ maxPayloadLen →
      (encode p >>= decode) = .ok p) ∧
    ∀ (b : Bytes) (p : Packet), decode b = .ok p →
      p.unpadded <+: b ∧ encode p = .ok (applyPadding p.unpadded) := by
  constructor
  · intro p hver hlen
    obtain ⟨bytes, hbytes⟩ := encode_ok hlen
    rw [hbytes]
    exact decode_encode hver hbytes
  · intro b p h
    obtain ⟨hp, hpre⟩ := (decode_eq_ok_iff b p).mp h
    exact ⟨hpre, encode_eq hp.2⟩

/-- A signed broadcast. -/
def Sample.signedChat : Packet where
  msgType := .chat
  senderId := .fill peerIdLen 1
  recipientId := some broadcastRecipient
  payload := [1, 2, 3]
  signature := some (.fill signatureLen 7)

theorem sample_packet_codec : (encode Sample.signedChat >>= decode) = .ok Sample.signedChat :=
  packet_codec.1 Sample.signedChat rfl (by decide)

end Nimmesh
