import Nimmesh.Live.NimHtlc
import Nimmesh.Lib.Rlp

/-! @src packet.rs codec.rs | name:Mesh packets and their bytes | layer:model

    A packet and its frame: a 14-byte header, the sender, an optional recipient, the payload, an optional
    signature, and padding up to one of four block sizes. The decoder takes every length off the header
    and never looks at the padding; `decode_encode` says that it reads back what was written. -/

namespace Nimmesh
open Rlp

def version : UInt8 := 1

def headerLen : ℕ := 14

def signatureLen : ℕ := 64

def defaultTtl : UInt8 := 7

def broadcastRecipient : PeerId := ByteArr.fill peerIdLen 0xFF

def flagHasRecipient : UInt8 := 0x01
def flagHasSignature : UInt8 := 0x02
def flagIsCompressed : UInt8 := 0x04
def flagHasRoute : UInt8 := 0x08
def flagIsRsr : UInt8 := 0x10

/-- The flag bits that stand on their own; the other two follow from the structure of the packet. -/
structure PacketFlags where
  isCompressed : Bool := false
  hasRoute : Bool := false
  isRsr : Bool := false
  deriving DecidableEq, Repr

/-- `if set { byte |= bit }`. -/
def setBit (set : Bool) (bit byte : UInt8) : UInt8 := if set then byte ||| bit else byte

def PacketFlags.toWire (f : PacketFlags) (hasRecipient hasSignature : Bool) : UInt8 :=
  setBit f.isRsr flagIsRsr (setBit f.hasRoute flagHasRoute (setBit f.isCompressed flagIsCompressed
    (setBit hasSignature flagHasSignature (setBit hasRecipient flagHasRecipient 0))))

def PacketFlags.fromWire (byte : UInt8) : PacketFlags where
  isCompressed := byte &&& flagIsCompressed != 0
  hasRoute := byte &&& flagHasRoute != 0
  isRsr := byte &&& flagIsRsr != 0

/-- A bit outside the five defined ones. -/
def PacketFlags.wireHasUnknownBits (byte : UInt8) : Bool :=
  byte &&& ~~~(flagHasRecipient ||| flagHasSignature ||| flagIsCompressed ||| flagHasRoute ||| flagIsRsr) != 0

structure Packet where
  version : UInt8 := Nimmesh.version
  msgType : MessageType
  ttl : UInt8 := defaultTtl
  timestampMs : UInt64 := 0
  flags : PacketFlags := {}
  senderId : PeerId
  recipientId : Option PeerId := none
  payload : Bytes
  signature : Option (ByteArr signatureLen) := none
  deriving DecidableEq

inductive CodecError where
  | payloadTooLarge (len : ℕ)
  | truncated (needed got : ℕ)
  | unsupportedVersion (found : UInt8)
  | unknownMessageType (found : UInt8)
  | unknownFlagBits (found : UInt8)
  deriving DecidableEq, Repr

def blockSizes : List ℕ := [256, 512, 1024, 2048]

def maxPayloadLen : ℕ := 65535

/-- The smallest block that `n` bytes fit into. -/
def optimalBlockSize (n : ℕ) : Option ℕ := blockSizes.find? (n ≤ ·)

/-- PKCS#7-style padding, where a pad byte can name its length. -/
def applyPadding (buf : Bytes) : Bytes :=
  match optimalBlockSize buf.length with
  | none => buf
  | some target =>
    let padNeeded := target - buf.length
    if padNeeded = 0 ∨ 255 < padNeeded then buf else buf ++ List.replicate padNeeded padNeeded.toUInt8

/-- The bytes of a packet up to its payload. -/
def Packet.headBytes (p : Packet) : Bytes :=
  [p.version, p.msgType.toU8, p.ttl] ++ beBytes p.timestampMs ++
    [p.flags.toWire p.recipientId.isSome p.signature.isSome] ++ beBytesOf 2 p.payload.length ++
    p.senderId.1 ++ (p.recipientId.map (·.1)).getD []

def encode (p : Packet) : Except CodecError Bytes :=
  if maxPayloadLen < p.payload.length then .error (.payloadTooLarge p.payload.length)
  else .ok (applyPadding (p.headBytes ++ p.payload ++ (p.signature.map (·.1)).getD []))

/-- `copy_from_slice` of `n` bytes at an offset; the callers have checked that they are there. -/
def sliceArr (n : ℕ) (b : Bytes) (offset : ℕ) : ByteArr n :=
  (ByteArr.ofBytes? n (slice b offset n)).getD (ByteArr.fill n 0)

def byteAt (b : Bytes) (i : ℕ) : UInt8 := b.getD i 0

def decode (bytes : Bytes) : Except CodecError Packet :=
  if bytes.length < headerLen + peerIdLen then .error (.truncated (headerLen + peerIdLen) bytes.length)
  else if byteAt bytes 0 ≠ version then .error (.unsupportedVersion (byteAt bytes 0))
  else match MessageType.fromU8 (byteAt bytes 1) with
    | none => .error (.unknownMessageType (byteAt bytes 1))
    | some msgType =>
      let flagsByte := byteAt bytes 11
      if PacketFlags.wireHasUnknownBits flagsByte then .error (.unknownFlagBits flagsByte)
      else
        let hasRecipient := flagsByte &&& flagHasRecipient != 0
        let hasSignature := flagsByte &&& flagHasSignature != 0
        let payloadLen := ofBe (slice bytes 12 2)
        let off := headerLen + peerIdLen + if hasRecipient then peerIdLen else 0
        let needed := off + payloadLen + if hasSignature then signatureLen else 0
        if bytes.length < needed then .error (.truncated needed bytes.length)
        else .ok {
          version := byteAt bytes 0
          msgType
          ttl := byteAt bytes 2
          timestampMs := u64OfBe (slice bytes 3 8)
          flags := .fromWire flagsByte
          senderId := sliceArr peerIdLen bytes headerLen
          recipientId := if hasRecipient then some (sliceArr peerIdLen bytes (headerLen + peerIdLen)) else none
          payload := slice bytes off payloadLen
          signature := if hasSignature then some (sliceArr signatureLen bytes (off + payloadLen)) else none }

/-! ### Round trip -/

theorem slice_append (a b : Bytes) (k n : ℕ) : slice (a ++ b) (a.length + k) n = slice b k n := by
  unfold slice
  rw [List.drop_append, List.drop_eq_nil_of_le (by omega), Nat.add_sub_cancel_left, List.nil_append]

theorem slice_left (a b : Bytes) : slice (a ++ b) 0 a.length = a := by
  unfold slice
  rw [List.drop_zero, List.take_left]

theorem sliceArr_left {n : ℕ} (a : ByteArr n) (b : Bytes) : sliceArr n (a.1 ++ b) 0 = a := by
  have hlen : slice (a.1 ++ b) 0 n = a.1 := by
    have h := slice_left a.1 b
    rwa [a.2] at h
  rw [sliceArr, hlen, ByteArr.ofBytes?_val]
  rfl

theorem sliceArr_append {n : ℕ} (a b : Bytes) (k : ℕ) :
    sliceArr n (a ++ b) (a.length + k) = sliceArr n b k := by
  unfold sliceArr
  rw [slice_append]

/-- The flag byte says which parts are there and nothing else. -/
theorem PacketFlags.fromWire_toWire (f : PacketFlags) (r s : Bool) :
    .fromWire (f.toWire r s) = f ∧ wireHasUnknownBits (f.toWire r s) = false ∧
      (f.toWire r s &&& flagHasRecipient != 0) = r ∧ (f.toWire r s &&& flagHasSignature != 0) = s := by
  obtain ⟨a, b, c⟩ := f
  cases a <;> cases b <;> cases c <;> cases r <;> cases s <;> decide

theorem length_beBytes (v : UInt64) : (beBytes v).length = 8 := rfl

theorem length_beBytesOf (k n : ℕ) : (beBytesOf k n).length = k := by simp [beBytesOf]

theorem exists_applyPadding (buf : Bytes) : ∃ pad, applyPadding buf = buf ++ pad := by
  unfold applyPadding
  split
  · exact ⟨[], (List.append_nil _).symm⟩
  · simp only
    split_ifs
    · exact ⟨[], (List.append_nil _).symm⟩
    · exact ⟨_, rfl⟩

/-- A packet that a frame can carry. -/
def Packet.WellFormed (p : Packet) : Prop := p.version = Nimmesh.version ∧ p.payload.length ≤ maxPayloadLen

/-- The fixed header: the decoder finds each field where the encoder put it. -/
theorem read_header (p : Packet) (rest : Bytes) :
    let bytes := p.headBytes ++ rest
    byteAt bytes 0 = p.version ∧ byteAt bytes 1 = p.msgType.toU8 ∧ byteAt bytes 2 = p.ttl ∧
      u64OfBe (slice bytes 3 8) = p.timestampMs ∧
      byteAt bytes 11 = p.flags.toWire p.recipientId.isSome p.signature.isSome ∧
      ofBe (slice bytes 12 2) = p.payload.length % 65536 ∧
      sliceArr peerIdLen bytes headerLen = p.senderId := by
  refine ⟨rfl, rfl, rfl, ?_, rfl, ?_, ?_⟩
  · exact u64OfBe_beBytes p.timestampMs
  · exact ofBe_beBytesOf 2 p.payload.length
  · simp only [Packet.headBytes, List.append_assoc]
    rw [← List.append_assoc, ← List.append_assoc, ← List.append_assoc]
    exact (sliceArr_append _ _ 0).trans (sliceArr_left p.senderId _)

/-- What stands behind the fixed header. -/
theorem read_tail (p : Packet) (off : ℕ) (n : ℕ) (rest : Bytes) :
    slice (p.headBytes ++ rest) (headerLen + peerIdLen + off) n =
      slice ((p.recipientId.map (·.1)).getD [] ++ rest) off n := by
  rw [Packet.headBytes, List.append_assoc]
  have hlen : headerLen + peerIdLen = ([p.version, p.msgType.toU8, p.ttl] ++ beBytes p.timestampMs ++
    [p.flags.toWire p.recipientId.isSome p.signature.isSome] ++ beBytesOf 2 p.payload.length ++
    p.senderId.1).length := by
      simp only [List.length_append, length_beBytes, length_beBytesOf, p.senderId.2]
      rfl
  rw [hlen]
  exact slice_append _ _ off n

theorem length_headBytes (p : Packet) :
    p.headBytes.length = headerLen + peerIdLen + ((p.recipientId.map (·.1)).getD []).length := by
  simp only [Packet.headBytes, List.length_append, length_beBytes, length_beBytesOf, p.senderId.2]
  rfl

/-- The optional parts of a frame have the width their flag announces. -/
theorem length_optional {n : ℕ} (a : Option (ByteArr n)) :
    ((a.map (·.1)).getD []).length = if a.isSome then n else 0 := by
  cases a with
  | none => rfl
  | some a => exact a.2

/-- The optional recipient, the payload and the optional signature, each read at its own offset. -/
theorem read_optional (p : Packet) (pad : Bytes) :
    let bytes := p.headBytes ++ (p.payload ++ ((p.signature.map (·.1)).getD [] ++ pad))
    let off := headerLen + peerIdLen + if p.recipientId.isSome then peerIdLen else 0
    (if p.recipientId.isSome then some (sliceArr peerIdLen bytes (headerLen + peerIdLen)) else none) =
        p.recipientId ∧
      slice bytes off p.payload.length = p.payload ∧
      (if p.signature.isSome then some (sliceArr signatureLen bytes (off + p.payload.length)) else none) =
        p.signature := by
  obtain ⟨_, _, _, _, _, _, recipient, payload, signature⟩ := p
  have hrest : ∀ (r : Option PeerId) (off n : ℕ) (rest : Bytes),
      slice ((r.map (·.1)).getD [] ++ rest) ((if r.isSome then peerIdLen else 0) + off) n =
        slice rest off n := by
    intro r off n rest
    rw [← length_optional]
    exact slice_append _ _ off n
  refine ⟨?_, ?_, ?_⟩
  · cases recipient with
    | none => rfl
    | some r =>
      rw [if_pos (by rfl), sliceArr, ← Nat.add_zero (headerLen + peerIdLen), read_tail]
      exact congrArg some (sliceArr_left r _)
  · rw [read_tail]
    exact (hrest recipient 0 payload.length _).trans (slice_left payload _)
  · cases signature with
    | none => rfl
    | some s =>
      rw [if_pos (by rfl), sliceArr, Nat.add_assoc (headerLen + peerIdLen), read_tail, hrest]
      exact congrArg some ((sliceArr_append payload _ 0).trans (sliceArr_left s pad))

/-- What was encoded is what is decoded. -/
theorem decode_parts (p : Packet) (hp : p.WellFormed) (pad : Bytes) :
    decode (p.headBytes ++ (p.payload ++ ((p.signature.map (·.1)).getD [] ++ pad))) = .ok p := by
  obtain ⟨hver, hmax⟩ := hp
  obtain ⟨h0, h1, h2, hts, h11, hlen, hsender⟩ :=
    read_header p (p.payload ++ ((p.signature.map (·.1)).getD [] ++ pad))
  obtain ⟨hflags, hknown, hrec, hsig⟩ := p.flags.fromWire_toWire p.recipientId.isSome p.signature.isSome
  obtain ⟨hrecipient, hpayload, hsignature⟩ := read_optional p pad
  have hlt : p.payload.length % 65536 = p.payload.length := by
    refine Nat.mod_eq_of_lt ?_
    simp only [maxPayloadLen] at hmax
    omega
  have hbytes : (p.headBytes ++ (p.payload ++ ((p.signature.map (·.1)).getD [] ++ pad))).length =
      headerLen + peerIdLen + (if p.recipientId.isSome then peerIdLen else 0) + p.payload.length +
        (if p.signature.isSome then signatureLen else 0) + pad.length := by
    simp only [List.length_append, length_headBytes, length_optional]
    omega
  unfold decode
  rw [if_neg (by omega), if_neg (by rw [h0, hver]; simp), h1, MessageType.fromU8_toU8]
  simp only [h11, hknown, hrec, hsig, hlen, hlt, Bool.false_eq_true, if_false]
  rw [if_neg (by omega), h0, h2, hts, hflags, hsender, hrecipient, hpayload, hsignature]

/-- CORRECT: a packet survives its frame. -/
theorem decode_encode {p : Packet} {bytes : Bytes} (hver : p.version = Nimmesh.version)
    (h : encode p = .ok bytes) : decode bytes = .ok p := by
  unfold encode at h
  split_ifs at h with hlen
  cases h
  obtain ⟨pad, hpad⟩ := exists_applyPadding (p.headBytes ++ p.payload ++ (p.signature.map (·.1)).getD [])
  rw [hpad]
  simp only [List.append_assoc]
  exact decode_parts p ⟨hver, Nat.not_lt.mp hlen⟩ pad

/-- A frame stands for one packet. -/
theorem eq_of_decode_encode {p q : Packet} {bytes : Bytes} (h : encode p = .ok bytes)
    (hd : decode bytes = .ok q) : q = p := by
  have hver : p.version = Nimmesh.version := by
    unfold encode at h
    split_ifs at h
    cases h
    obtain ⟨pad, hpad⟩ := exists_applyPadding (p.headBytes ++ p.payload ++ (p.signature.map (·.1)).getD [])
    rw [hpad] at hd
    unfold decode at hd
    split_ifs at hd with hmin hver
    exact not_not.mp hver
  exact (Except.ok.inj ((decode_encode hver h).symm.trans hd)).symm

theorem encode_ok {p : Packet} (h : p.payload.length ≤ maxPayloadLen) : ∃ bytes, encode p = .ok bytes := by
  rw [encode, if_neg (Nat.not_lt.mpr h)]
  exact ⟨_, rfl⟩

theorem length_slice_le (b : Bytes) (off n : ℕ) : (slice b off n).length ≤ n := List.length_take_le _ _

/-- What the decoder accepts is well formed. -/
theorem wellFormed_of_decode {bytes : Bytes} {p : Packet} (h : decode bytes = .ok p) : p.WellFormed := by
  have hbe : ofBe (slice bytes 12 2) < 65536 := by
    have hlt := ofBe_lt (slice bytes 12 2)
    have hle : (256 : ℕ) ^ (slice bytes 12 2).length ≤ 256 ^ 2 :=
      Nat.pow_le_pow_right (by decide) (length_slice_le _ _ _)
    omega
  unfold decode at h
  split_ifs at h with hmin hver
  split at h
  · cases h
  · simp only at h
    -- whatever the flags announce, the payload is the slice that the two length bytes name
    split_ifs at h
    all_goals
      cases h
      refine ⟨not_not.mp hver, (length_slice_le _ _ _).trans ?_⟩
      simp only [maxPayloadLen]
      omega

end Nimmesh
