import Nimmesh.Mesh.Frame
import Nimmesh.Utf8

/-! @src BitchatKit.swift | name:Packets and announces of a foreign chat mesh | layer:model

    The wire format of public chat on another mesh: a header, the sender, an optional recipient, the payload, an
    optional signature and padding. A signature covers the packet with no hops left and without the signature, so
    `signed_content` says that it speaks for everything else. -/

namespace Nimmesh
namespace BitchatWire

def version : UInt8 := 1
def headerSize : ℕ := 14
def peerIDSize : ℕ := 8
def signatureSize : ℕ := 64
def typeAnnounce : UInt8 := 0x01
def typeMessage : UInt8 := 0x02
def flagHasRecipient : UInt8 := 0x01
def flagHasSignature : UInt8 := 0x02
def flagIsCompressed : UInt8 := 0x04

end BitchatWire

open Rlp BitchatWire

namespace BitchatPadding

def blocks : List ℕ := [256, 512, 1024, 2048]

/-- Pad to the smallest block with room for 16 bytes more; none if a pad byte cannot name the length. -/
def pad (data : Bytes) : Bytes :=
  match blocks.find? fun block => decide (data.length + 16 ≤ block) with
  | none => data
  | some block =>
    let padLen := block - data.length
    if 0 < padLen ∧ padLen ≤ 255 then data ++ List.replicate padLen padLen.toUInt8 else data

theorem exists_pad (data : Bytes) : ∃ tail, pad data = data ++ tail := by
  rw [pad]
  cases blocks.find? fun block => decide (data.length + 16 ≤ block) with
  | none => exact ⟨[], (List.append_nil _).symm⟩
  | some block =>
    dsimp only
    split_ifs
    · exact ⟨_, rfl⟩
    · exact ⟨[], (List.append_nil _).symm⟩

end BitchatPadding

/-! ### Packets -/

structure BitchatPacket where
  type : UInt8
  ttl : UInt8
  timestampMs : UInt64
  senderID : Bytes
  recipientID : Option Bytes
  payload : Bytes
  signature : Option Bytes
  deriving DecidableEq

/-- `x.prefix(8)`, filled up with zeros. -/
def fixedID (x : Bytes) : Bytes := x.take 8 ++ List.replicate (8 - x.length) 0

namespace BitchatPacket

def flags (p : BitchatPacket) : UInt8 :=
  (if p.recipientID.isSome then BitchatWire.flagHasRecipient else 0) |||
    (if p.signature.isSome then BitchatWire.flagHasSignature else 0)

/-- `UInt16(payload.count)` traps on a payload of more than 65535 bytes; a decoded one is shorter
    (`WellFormed.payload`). -/
def encode (p : BitchatPacket) (padded : Bool) : Bytes :=
  let out := [BitchatWire.version, p.type, p.ttl] ++ beBytes p.timestampMs ++ [p.flags] ++
    beBytesOf 2 p.payload.length ++ fixedID p.senderID ++ (p.recipientID.map fixedID).getD [] ++ p.payload ++
    p.signature.getD []
  if padded then BitchatPadding.pad out else out

/-- The bytes a signature covers. -/
def signingBytes (p : BitchatPacket) : Bytes := encode { p with signature := none, ttl := 0 } true

/-- `take(n)`: the next bytes, and where the rest begins. -/
def take (d : Bytes) (i n : ℕ) : Option (Bytes × ℕ) :=
  if d.length < i + n then none else some (slice d i n, i + n)

/-- A part that is there if its flag is set. -/
def takeIf (present : Bool) (d : Bytes) (i n : ℕ) : Option (Option Bytes × ℕ) :=
  if present then (take d i n).map fun r => (some r.1, r.2) else some (none, i)

/-- Only declared lengths are read, so padding is tolerated; a compressed payload is refused. -/
def decode (d : Bytes) : Option BitchatPacket :=
  if d.length < headerSize + peerIDSize then none
  else if byteAt d 0 ≠ BitchatWire.version then none
  else if byteAt d 11 &&& BitchatWire.flagIsCompressed != 0 then none
  else do
    let (sender, i) ← take d headerSize peerIDSize
    let (recipient, i) ← takeIf (byteAt d 11 &&& BitchatWire.flagHasRecipient != 0) d i peerIDSize
    let (payload, i) ← take d i (ofBe (slice d 12 2))
    let (signature, _) ← takeIf (byteAt d 11 &&& BitchatWire.flagHasSignature != 0) d i signatureSize
    return { type := byteAt d 1, ttl := byteAt d 2, timestampMs := u64OfBe (slice d 3 8), senderID := sender,
             recipientID := recipient, payload, signature }

/-- The dedup key of a packet: its sender and timestamp. -/
def dedupKey (p : BitchatPacket) : Bytes := p.senderID ++ beBytes p.timestampMs

end BitchatPacket

/-! ### Announces -/

structure BitchatAnnounce where
  nickname : String
  noisePublicKey : Bytes
  signingPublicKey : Bytes
  deriving DecidableEq

namespace BitchatAnnounce

/-- The fields as the records come in; a later record replaces an earlier one. -/
structure Fields where
  nick : Option String := none
  noise : Option Bytes := none
  signing : Option Bytes := none
  deriving DecidableEq

def Fields.set (f : Fields) (t : UInt8) (v : Bytes) : Fields :=
  if t = 0x01 then { f with nick := fromUtf8 v }
  else if t = 0x02 then { f with noise := some v }
  else if t = 0x03 then { f with signing := some v }
  else f

/-- The loop over the records; each takes at least two bytes (`scan_eq`). -/
def scanLoop : ℕ → Bytes → Fields → Option Fields
  | fuel + 1, t :: l :: rest, f =>
    if rest.length < l.toNat then none else scanLoop fuel (rest.drop l.toNat) (f.set t (rest.take l.toNat))
  | _, _, f => some f

def scan (d : Bytes) (f : Fields) : Option Fields := scanLoop d.length d f

def Fields.announce (f : Fields) : Option BitchatAnnounce := do
  let n ← f.nick
  let np ← f.noise
  let sp ← f.signing
  if np.length = 32 ∧ sp.length = 32 then return ⟨n, np, sp⟩ else none

def decode (d : Bytes) : Option BitchatAnnounce := (scan d {}).bind Fields.announce

def record (t : UInt8) (v : Bytes) : Bytes := [t, v.length.toUInt8] ++ v

def encode (a : BitchatAnnounce) : Bytes :=
  record 0x01 ((utf8Bytes a.nickname).take 255) ++ ([0x02, 32] ++ a.noisePublicKey) ++
    ([0x03, 32] ++ a.signingPublicKey)

end BitchatAnnounce

/-! ### What a signature covers -/

namespace BitchatPacket

/-- A packet that the decoder can give. -/
structure WellFormed (p : BitchatPacket) : Prop where
  sender : p.senderID.length = peerIDSize
  recipient : ∀ r, p.recipientID = some r → r.length = peerIDSize
  payload : p.payload.length ≤ 65535
  signature : ∀ s, p.signature = some s → s.length = signatureSize

/-- The fixed part of the header. -/
def header (p : BitchatPacket) : Bytes :=
  [BitchatWire.version, p.type, p.ttl] ++ beBytes p.timestampMs ++ [p.flags] ++ beBytesOf 2 p.payload.length

theorem length_header (p : BitchatPacket) : p.header.length = headerSize := rfl

theorem fixedID_eq {x : Bytes} (h : x.length = peerIDSize) : fixedID x = x := by
  rw [peerIDSize] at h
  rw [fixedID, List.take_of_length_le h.le, h]
  exact List.append_nil x

theorem WellFormed.encode_eq {p : BitchatPacket} (h : p.WellFormed) (padded : Bool) : ∃ tail, p.encode padded =
    p.header ++ (p.senderID ++ (p.recipientID.getD [] ++ (p.payload ++ (p.signature.getD [] ++ tail)))) := by
  have hrecipient : (p.recipientID.map fixedID).getD [] = p.recipientID.getD [] := by
    cases hr : p.recipientID with
    | none => rfl
    | some r => exact fixedID_eq (h.recipient r hr)
  rw [encode, fixedID_eq h.sender, hrecipient]
  cases padded with
  | false => exact ⟨[], by simp [header]⟩
  | true =>
    obtain ⟨tail, htail⟩ := BitchatPadding.exists_pad ([BitchatWire.version, p.type, p.ttl] ++ beBytes p.timestampMs ++
      [p.flags] ++ beBytesOf 2 p.payload.length ++ p.senderID ++ p.recipientID.getD [] ++ p.payload ++
      p.signature.getD [])
    exact ⟨tail, by simpa [header] using htail⟩

theorem take_at {d a b c : Bytes} {i n : ℕ} (hd : d = a ++ (b ++ c)) (hi : a.length = i) (hn : b.length = n) :
    take d i n = some (b, i + n) := by
  have hlen : ¬ d.length < i + n := by
    rw [hd, List.length_append, List.length_append]
    omega
  have hslice := slice_append a (b ++ c) 0 b.length
  rw [slice_left, Nat.add_zero, hi, hn] at hslice
  rw [take, if_neg hlen, hd, hslice]

theorem takeIf_at {d a c : Bytes} {part : Option Bytes} {i n : ℕ} (hd : d = a ++ (part.getD [] ++ c))
    (hi : a.length = i) (hn : ∀ v, part = some v → v.length = n) :
    takeIf part.isSome d i n = some (part, i + (part.getD []).length) := by
  cases part with
  | none => rfl
  | some v =>
    rw [takeIf, Option.isSome_some, if_pos rfl, take_at hd hi (hn v rfl)]
    exact congrArg (fun k => some (some v, i + k)) (hn v rfl).symm

theorem flags_bits (p : BitchatPacket) :
    (p.flags &&& BitchatWire.flagIsCompressed != 0) = false ∧
    (p.flags &&& BitchatWire.flagHasRecipient != 0) = p.recipientID.isSome ∧
    (p.flags &&& BitchatWire.flagHasSignature != 0) = p.signature.isSome := by
  rw [flags]
  cases p.recipientID.isSome <;> cases p.signature.isSome <;> decide

/-- CORRECT: a packet survives its frame, padded or not. -/
theorem decode_encode {p : BitchatPacket} (h : p.WellFormed) (padded : Bool) : decode (p.encode padded) = some p := by
  obtain ⟨tail, hd⟩ := h.encode_eq padded
  obtain ⟨hcompressed, hrecipient, hsignature⟩ := p.flags_bits
  generalize p.encode padded = d at hd
  have hbytes : byteAt d 0 = BitchatWire.version ∧ byteAt d 1 = p.type ∧ byteAt d 2 = p.ttl ∧
      byteAt d 11 = p.flags := by
    rw [hd]
    exact ⟨rfl, rfl, rfl, rfl⟩
  have htime : u64OfBe (slice d 3 8) = p.timestampMs := by
    rw [hd]
    exact u64OfBe_beBytes p.timestampMs
  have hlen : ofBe (slice d 12 2) = p.payload.length := by
    have hread : slice d 12 2 = beBytesOf 2 p.payload.length := by
      rw [hd]
      rfl
    have hsmall := h.payload
    rw [hread, ofBe_beBytesOf, Nat.mod_eq_of_lt (by omega)]
  have hlong : ¬ d.length < headerSize + peerIDSize := by
    rw [hd, List.length_append, List.length_append, length_header, h.sender]
    omega
  obtain ⟨hversion, htype, httl, hflags⟩ := hbytes
  have hsender : take d headerSize peerIDSize = some (p.senderID, headerSize + peerIDSize) :=
    take_at hd (length_header p) h.sender
  have hto := takeIf_at (d := d) (a := p.header ++ p.senderID) (i := headerSize + peerIDSize)
    (by rw [hd, List.append_assoc]) (by rw [List.length_append, length_header, h.sender]) h.recipient
  have hpayload := take_at (d := d) (a := p.header ++ p.senderID ++ p.recipientID.getD [])
    (i := headerSize + peerIDSize + (p.recipientID.getD []).length) (b := p.payload)
    (by rw [hd, List.append_assoc, List.append_assoc])
    (by rw [List.length_append, List.length_append, length_header, h.sender]) rfl
  have hsig := takeIf_at (d := d) (a := p.header ++ p.senderID ++ p.recipientID.getD [] ++ p.payload)
    (i := headerSize + peerIDSize + (p.recipientID.getD []).length + p.payload.length)
    (by rw [hd, List.append_assoc, List.append_assoc, List.append_assoc])
    (by rw [List.length_append, List.length_append, List.length_append, length_header, h.sender]) h.signature
  rw [decode, if_neg hlong, if_neg (not_not.mpr hversion), hflags, hcompressed, if_neg Bool.false_ne_true, hrecipient,
    hsignature, hsender, hlen, htype, httl, htime]
  simp [hto, hpayload, hsig]

/-- CORRECT: two packets with one signed content differ at most in their hop count and their signature. -/
theorem signed_content {p q : BitchatPacket} (hp : p.WellFormed) (hq : q.WellFormed)
    (h : p.signingBytes = q.signingBytes) : q = { p with ttl := q.ttl, signature := q.signature } := by
  have hbare : ∀ r : BitchatPacket, r.WellFormed →
      decode r.signingBytes = some { r with signature := none, ttl := 0 } := by
    intro r hr
    have hwf : ({ r with signature := none, ttl := 0 } : BitchatPacket).WellFormed :=
      ⟨hr.sender, hr.recipient, hr.payload, fun s hs => absurd hs (by simp)⟩
    rw [signingBytes, decode_encode hwf]
  have hsame : some { p with signature := none, ttl := 0 } = some { q with signature := none, ttl := 0 } := by
    rw [← hbare p hp, ← hbare q hq, h]
  exact congrArg (fun r : BitchatPacket => { r with ttl := q.ttl, signature := q.signature })
    (Option.some.inj hsame).symm

/-- Whatever decodes is well formed. -/
theorem wellFormed_of_decode {d : Bytes} {p : BitchatPacket} (h : decode d = some p) : p.WellFormed := by
  have htake : ∀ {i n : ℕ} {r : Bytes × ℕ}, take d i n = some r → r.1.length = n := by
    intro i n r hr
    rw [take] at hr
    split_ifs at hr with hlen
    rw [← Option.some.inj hr]
    exact length_slice (by omega)
  have htakeIf : ∀ {b : Bool} {i n : ℕ} {r : Option Bytes × ℕ}, takeIf b d i n = some r →
      ∀ v, r.1 = some v → v.length = n := by
    intro b i n r hr v hv
    rw [takeIf] at hr
    split_ifs at hr
    · obtain ⟨w, hw, rfl⟩ := Option.map_eq_some_iff.mp hr
      rw [← Option.some.inj hv]
      exact htake hw
    · rw [← Option.some.inj hr] at hv
      cases hv
  rw [decode] at h
  split_ifs at h
  simp only [Option.bind_eq_bind, Option.bind_eq_some_iff, Option.pure_def, Option.some.injEq] at h
  obtain ⟨sender, hs, recipient, hr, payload, hpl, sig, hsig, rfl⟩ := h
  refine ⟨htake hs, htakeIf hr, ?_, htakeIf hsig⟩
  rw [htake hpl]
  have hlt := ofBe_lt (slice d 12 2)
  have hpow := Nat.pow_le_pow_right (show 0 < 256 by decide) (length_slice_le d 12 2)
  omega

end BitchatPacket

/-! ### Reading announces -/

namespace BitchatAnnounce

theorem scanLoop_fuel {a b : ℕ} {d : Bytes} (f : Fields) (ha : d.length ≤ a) (hb : d.length ≤ b) :
    scanLoop a d f = scanLoop b d f := by
  induction a generalizing b d f with
  | zero =>
    obtain rfl := List.length_eq_zero_iff.mp (Nat.le_zero.mp ha)
    cases b <;> rfl
  | succ a ih =>
    rcases d with _ | ⟨t, _ | ⟨l, rest⟩⟩
    · cases b <;> rfl
    · cases b <;> rfl
    · simp only [List.length_cons] at ha hb
      obtain ⟨b, rfl⟩ : ∃ k, b = k + 1 := ⟨b - 1, by omega⟩
      simp only [scanLoop]
      split_ifs
      · rfl
      · refine ih _ ?_ ?_
        · rw [List.length_drop]
          omega
        · rw [List.length_drop]
          omega

/-- The loop of the source: a record is cut off and the rest is read. -/
theorem scan_eq (t l : UInt8) (rest : Bytes) (f : Fields) : scan (t :: l :: rest) f =
    if rest.length < l.toNat then none else scan (rest.drop l.toNat) (f.set t (rest.take l.toNat)) := by
  rw [scan, List.length_cons, scanLoop]
  split_ifs
  · rfl
  · refine scanLoop_fuel _ ?_ le_rfl
    rw [List.length_drop, List.length_cons]
    omega

theorem scan_record {v : Bytes} (hv : v.length ≤ 255) (t : UInt8) (rest : Bytes) (f : Fields) :
    scan (record t v ++ rest) f = scan rest (f.set t v) := by
  have hl : v.length.toUInt8.toNat = v.length := by
    rw [Nat.toUInt8_eq, UInt8.toNat_ofNat', Nat.mod_eq_of_lt (by omega)]
  have hlong : ¬ (v ++ rest).length < v.length := by
    rw [List.length_append]
    omega
  show scan (t :: v.length.toUInt8 :: (v ++ rest)) f = _
  rw [scan_eq, hl, if_neg hlong, List.drop_left, List.take_left]

/-- CORRECT: an announce whose name fits its record and whose keys have their length is read back. -/
theorem decode_encode {a : BitchatAnnounce} (hnick : (utf8Bytes a.nickname).length ≤ 255)
    (hnoise : a.noisePublicKey.length = 32) (hsigning : a.signingPublicKey.length = 32) :
    decode a.encode = some a := by
  have hkey : ∀ (t : UInt8) (v : Bytes), v.length = 32 → [t, 32] ++ v = record t v := by
    intro t v hv
    rw [record, hv]
    rfl
  rw [decode, encode, hkey _ _ hnoise, hkey _ _ hsigning, List.take_of_length_le hnick, List.append_assoc,
    scan_record hnick, scan_record (by omega), ← List.append_nil (record 0x03 _), scan_record (by omega)]
  simp [scan, scanLoop, Fields.set, Fields.announce, fromUtf8_utf8Bytes, hnoise, hsigning]

end BitchatAnnounce

end Nimmesh
