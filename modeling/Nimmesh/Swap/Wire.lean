import Nimmesh.Packet

/-! @src swap_wire.rs | name:Swap wire envelope | layer:model

    The type-length-value payload of the swap packets. One `SwapEnvelope` carries every field; which
    of them must be present depends on the `SwapKind`. `decodeSwap` keeps the order of the source's
    checks: a TLV is bounds-checked, recorded as present, then parsed, before the next one is read. -/

namespace Nimmesh

def swapIdLen : ℕ := 16

def hashLen : ℕ := 32

def nimAddressLen : ℕ := 20

def btcPubkeyLen : ℕ := 33

/-- The largest TLV value: its length is one byte. -/
def maxTlvValueLen : ℕ := 255

abbrev SwapId := ByteArr swapIdLen
abbrev Hash := ByteArr hashLen
abbrev NimAddress := ByteArr nimAddressLen
abbrev BtcPubkey := ByteArr btcPubkeyLen

/-- `u64::to_be_bytes`. -/
def beBytes (v : UInt64) : Bytes :=
  [(v >>> 56).toUInt8, (v >>> 48).toUInt8, (v >>> 40).toUInt8, (v >>> 32).toUInt8,
   (v >>> 24).toUInt8, (v >>> 16).toUInt8, (v >>> 8).toUInt8, v.toUInt8]

/-- `u64::from_be_bytes`. -/
def u64OfBe (b : Bytes) : UInt64 := b.foldl (fun acc x => (acc <<< 8) ||| x.toUInt64) 0

/-- CORRECT: a word survives its big-endian bytes. -/
theorem u64OfBe_beBytes (v : UInt64) : u64OfBe (beBytes v) = v := by
  apply UInt64.eq_of_toBitVec_eq
  simp only [u64OfBe, beBytes, List.foldl_cons, List.foldl_nil, UInt64.toBitVec_or,
    UInt64.toBitVec_shiftLeft, UInt8.toBitVec_toUInt64, UInt64.toBitVec_toUInt8,
    UInt64.toBitVec_shiftRight]
  ext i hi
  simp only [UInt64.toBitVec_ofNat, BitVec.ofNat_eq_ofNat, BitVec.reduceMod, BitVec.shiftLeft_eq',
    BitVec.toNat_ofNat, Nat.reducePow, Nat.reduceMod, BitVec.zero_shiftLeft, BitVec.ushiftRight_eq',
    BitVec.zero_or, BitVec.getElem_or, BitVec.getElem_shiftLeft, BitVec.getElem_setWidth,
    BitVec.getLsbD_setWidth, BitVec.getLsbD_ushiftRight]
  grind

/-! ### TLV type bytes -/

def tSwapId : UInt8 := 0x01
def tHashlock : UInt8 := 0x02
def tGiveAmount : UInt8 := 0x03
def tTakeAmount : UInt8 := 0x04
def tNimTimeout : UInt8 := 0x05
def tCounterpartyTimeout : UInt8 := 0x06
def tNimAddress : UInt8 := 0x07
def tCounterpartyAddress : UInt8 := 0x08
def tLeg : UInt8 := 0x09
def tTxWire : UInt8 := 0x0A
def tTxId : UInt8 := 0x0B
def tNetworkId : UInt8 := 0x0C
def tReason : UInt8 := 0x0D
def tBtcPubkey : UInt8 := 0x0E
def tProposePubkey : UInt8 := 0x0F
def tProposeSig : UInt8 := 0x10

/-- Which chain a leg or message refers to. -/
inductive SwapLegId where | nim | counterparty
  deriving DecidableEq, Repr

def SwapLegId.toU8 : SwapLegId → UInt8
  | .nim => 0x00
  | .counterparty => 0x01

def SwapLegId.fromU8 (b : UInt8) : Option SwapLegId :=
  if b = 0x00 then some .nim else if b = 0x01 then some .counterparty else none

inductive SwapKind where | propose | accept | fundingProof | preimageReveal | abort
  deriving DecidableEq, Repr

/-- The packet type that carries a swap kind. -/
def SwapKind.messageType : SwapKind → MessageType
  | .propose => .swapPropose
  | .accept => .swapAccept
  | .fundingProof => .swapFundingProof
  | .preimageReveal => .swapPreimageReveal
  | .abort => .swapAbort

/-- The swap kind a packet type denotes, if any. -/
def SwapKind.fromMessageType : MessageType → Option SwapKind
  | .swapPropose => some .propose
  | .swapAccept => some .accept
  | .swapFundingProof => some .fundingProof
  | .swapPreimageReveal => some .preimageReveal
  | .swapAbort => some .abort
  | _ => none

/-- A decoded swap message: one record for every kind. -/
structure SwapEnvelope where
  swapId : SwapId := ByteArr.fill swapIdLen 0
  hashlock : Option Hash := none
  giveAmount : Option UInt64 := none
  takeAmount : Option UInt64 := none
  nimTimeout : Option UInt64 := none
  counterpartyTimeout : Option UInt64 := none
  nimAddress : Option NimAddress := none
  counterpartyAddress : Option Bytes := none
  leg : Option SwapLegId := none
  txWire : Option Bytes := none
  txId : Option Hash := none
  networkId : Option UInt8 := none
  reason : Option UInt8 := none
  btcPubkey : Option BtcPubkey := none
  nimPubkey : Option (ByteArr 32) := none
  proposeSig : Option (ByteArr 64) := none
  deriving DecidableEq

/-- The TLV types that must be present for a kind, besides the swap id. -/
def requiredFields : SwapKind → List UInt8
  | .propose => [tHashlock, tGiveAmount, tTakeAmount, tNimTimeout, tCounterpartyTimeout, tNimAddress,
      tCounterpartyAddress, tNetworkId, tBtcPubkey]
  | .accept => [tNimAddress, tCounterpartyAddress, tBtcPubkey]
  | .fundingProof => [tLeg, tTxWire, tTxId]
  | .preimageReveal => [tLeg, tTxWire, tTxId]
  | .abort => [tReason]

inductive SwapWireError where
  | valueTooLong (tlvType : UInt8) (len : ℕ)
  | truncated (offset : ℕ)
  | badFieldLength (tlvType : UInt8) (len : ℕ)
  | badFieldValue (tlvType : UInt8)
  | missingRequiredField (tlvType : UInt8)
  deriving DecidableEq, Repr

/-! ### Encoding -/

/-- Append one `type | len | value` TLV. -/
def pushTlv (buf : Bytes) (tlvType : UInt8) (value : Bytes) : Except SwapWireError Bytes :=
  if value.length > maxTlvValueLen then .error (.valueTooLong tlvType value.length)
  else .ok (buf ++ tlvType :: value.length.toUInt8 :: value)

/-- Append a TLV for a field that is set. -/
def pushOpt {α : Type} (buf : Bytes) (tlvType : UInt8) (field : Option α) (bytes : α → Bytes) :
    Except SwapWireError Bytes :=
  match field with
  | some v => pushTlv buf tlvType (bytes v)
  | none => .ok buf

/-- Serialize an envelope, the set fields in ascending type order. -/
def encodeSwap (env : SwapEnvelope) : Except SwapWireError Bytes := do
  let buf ← pushTlv [] tSwapId env.swapId.1
  let buf ← pushOpt buf tHashlock env.hashlock (·.1)
  let buf ← pushOpt buf tGiveAmount env.giveAmount beBytes
  let buf ← pushOpt buf tTakeAmount env.takeAmount beBytes
  let buf ← pushOpt buf tNimTimeout env.nimTimeout beBytes
  let buf ← pushOpt buf tCounterpartyTimeout env.counterpartyTimeout beBytes
  let buf ← pushOpt buf tNimAddress env.nimAddress (·.1)
  let buf ← pushOpt buf tCounterpartyAddress env.counterpartyAddress id
  let buf ← pushOpt buf tLeg env.leg (fun l => [l.toU8])
  let buf ← pushOpt buf tTxWire env.txWire id
  let buf ← pushOpt buf tTxId env.txId (·.1)
  let buf ← pushOpt buf tNetworkId env.networkId (fun n => [n])
  let buf ← pushOpt buf tReason env.reason (fun r => [r])
  let buf ← pushOpt buf tBtcPubkey env.btcPubkey (·.1)
  let buf ← pushOpt buf tProposePubkey env.nimPubkey (·.1)
  pushOpt buf tProposeSig env.proposeSig (·.1)

/-! ### Decoding -/

/-- A fixed-width TLV value. -/
def readArr (n : ℕ) (value : Bytes) (tlvType : UInt8) : Except SwapWireError (ByteArr n) :=
  match ByteArr.ofBytes? n value with
  | some a => .ok a
  | none => .error (.badFieldLength tlvType value.length)

/-- An 8-byte big-endian TLV value. -/
def readU64 (value : Bytes) (tlvType : UInt8) : Except SwapWireError UInt64 :=
  if value.length = 8 then .ok (u64OfBe value) else .error (.badFieldLength tlvType value.length)

/-- A one-byte TLV value. -/
def readByte (value : Bytes) (tlvType : UInt8) : Except SwapWireError UInt8 :=
  match value with
  | [b] => .ok b
  | _ => .error (.badFieldLength tlvType value.length)

/-- A leg byte. -/
def readLeg (value : Bytes) (tlvType : UInt8) : Except SwapWireError SwapLegId := do
  match SwapLegId.fromU8 (← readByte value tlvType) with
  | some l => .ok l
  | none => .error (.badFieldValue tlvType)

/-- Store one TLV in the envelope; an unknown type is skipped. -/
def setField (env : SwapEnvelope) (tlvType : UInt8) (value : Bytes) :
    Except SwapWireError SwapEnvelope :=
  if tlvType = tSwapId then do return { env with swapId := ← readArr swapIdLen value tlvType }
  else if tlvType = tHashlock then do return { env with hashlock := some (← readArr hashLen value tlvType) }
  else if tlvType = tGiveAmount then do return { env with giveAmount := some (← readU64 value tlvType) }
  else if tlvType = tTakeAmount then do return { env with takeAmount := some (← readU64 value tlvType) }
  else if tlvType = tNimTimeout then do return { env with nimTimeout := some (← readU64 value tlvType) }
  else if tlvType = tCounterpartyTimeout then do
    return { env with counterpartyTimeout := some (← readU64 value tlvType) }
  else if tlvType = tNimAddress then do
    return { env with nimAddress := some (← readArr nimAddressLen value tlvType) }
  else if tlvType = tCounterpartyAddress then .ok { env with counterpartyAddress := some value }
  else if tlvType = tLeg then do return { env with leg := some (← readLeg value tlvType) }
  else if tlvType = tTxWire then .ok { env with txWire := some value }
  else if tlvType = tTxId then do return { env with txId := some (← readArr hashLen value tlvType) }
  else if tlvType = tNetworkId then do return { env with networkId := some (← readByte value tlvType) }
  else if tlvType = tReason then do return { env with reason := some (← readByte value tlvType) }
  else if tlvType = tBtcPubkey then do
    return { env with btcPubkey := some (← readArr btcPubkeyLen value tlvType) }
  else if tlvType = tProposePubkey then do
    return { env with nimPubkey := some (← readArr 32 value tlvType) }
  else if tlvType = tProposeSig then do
    return { env with proposeSig := some (← readArr 64 value tlvType) }
  else .ok env

/-- The TLV loop of `decodeSwap`: the envelope and the types seen. Each round consumes at least two
    bytes, so the length of the input is fuel enough. -/
def decodeLoop : ℕ → ℕ → Bytes → SwapEnvelope → List UInt8 →
    Except SwapWireError (SwapEnvelope × List UInt8)
  | _, _, [], env, present => .ok (env, present)
  | 0, off, _, _, _ => .error (.truncated off)
  | _ + 1, off, [_], _, _ => .error (.truncated off)
  | fuel + 1, off, tlvType :: len :: rest, env, present =>
    if rest.length < len.toNat then .error (.truncated (off + 2))
    else do
      let env ← setField env tlvType (rest.take len.toNat)
      decodeLoop fuel (off + 2 + len.toNat) (rest.drop len.toNat) env (present ++ [tlvType])

/-- The first of `required` that is not among the types seen. -/
def firstMissing (required present : List UInt8) : Option UInt8 :=
  required.find? (fun req => !present.contains req)

/-- Parse a TLV stream, enforcing the required fields of `kind`. -/
def decodeSwap (kind : SwapKind) (bytes : Bytes) : Except SwapWireError SwapEnvelope := do
  let (env, present) ← decodeLoop bytes.length 0 bytes {} []
  if !present.contains tSwapId then .error (.missingRequiredField tSwapId)
  else match firstMissing (requiredFields kind) present with
    | some req => .error (.missingRequiredField req)
    | none => .ok env

end Nimmesh
