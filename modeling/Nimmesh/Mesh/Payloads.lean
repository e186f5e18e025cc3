import Nimmesh.Mesh.Queries
import Nimmesh.Mesh.BalanceProof
import Nimmesh.Lib.Checked

/-! @src envelope.rs tx_history.rs balance_proof.rs chat.rs | name:Payload decoders and their indices | layer:model

    The codecs of balance proofs and of chat, and the four payload decoders once more, with every index and slice of
    the code as a step that can fault. A node that takes a packet off the mesh runs these. -/

namespace Nimmesh
open Rlp Checked

/-! ### Balance proofs -/

def balanceProofFixedLen : ℕ := nimAddressLen + 4 + 1 + 2 + 2

def maxHeaderLen : ℕ := 1024

def maxProofLen : ℕ := 8 * 1024

def encodeBalanceProof (p : BalanceProof) : Bytes :=
  p.address.1 ++ beBytes32 p.headHeight ++ [p.networkId] ++ beBytesOf 2 p.header.length ++ p.header ++
    beBytesOf 2 p.proof.length ++ p.proof

def decodeBalanceProof (bytes : Bytes) : Option BalanceProof :=
  if bytes.length < balanceProofFixedLen then none
  else
    let headerLen := ofBe (slice bytes 25 2)
    let off := 27 + headerLen
    let proofLen := ofBe (slice bytes off 2)
    if headerLen = 0 ∨ maxHeaderLen < headerLen then none
    else if bytes.length < off + 2 then none
    else if proofLen = 0 ∨ maxProofLen < proofLen then none
    else if bytes.length ≠ off + 2 + proofLen then none
    else some {
      address := sliceArr nimAddressLen bytes 0
      headHeight := u32OfBe (slice bytes 20 4)
      networkId := byteAt bytes 24
      header := slice bytes 27 headerLen
      proof := slice bytes (off + 2) proofLen }

/-! ### Chat -/

/-- A field over its budget and an empty text are refused. -/
def encodeChat (nickname text : String) (timestampMs : UInt64) : Option Bytes :=
  let nick := utf8Bytes nickname
  let body := utf8Bytes text
  if maxNickBytes < nick.length ∨ body = [] ∨ maxTextBytes < body.length then none
  else some ([chatVersion] ++ beBytes timestampMs ++ [nick.length.toUInt8] ++ nick ++ beBytesOf 2 body.length ++ body)

/-! ### The decoders with their indices -/

namespace Indexed

/-- `copy_from_slice` into an array of `n` bytes. -/
def copyFromSlice {ε : Type} (n : ℕ) (b : Bytes) : Result ε (ByteArr n) :=
  match ByteArr.ofBytes? n b with
  | some a => .ok a
  | none => fault .slice

/-- `try_into` an array of `n` bytes. -/
def tryInto (n : ℕ) (b : Bytes) : Option (ByteArr n) := ByteArr.ofBytes? n b

/-- `unwrap`. -/
def unwrap {ε α : Type} : Option α → Result ε α
  | some a => .ok a
  | none => fault .conversion

def setField (f : NimiqEnvelope.Fields) (tlvType : UInt8) (value : Bytes) : Result EnvelopeError NimiqEnvelope.Fields :=
  let len := value.length
  if tlvType = NimiqEnvelope.tTxWire then .ok { f with txWire := some value }
  else if tlvType = NimiqEnvelope.tNetworkId then
    if len ≠ 1 then fail (.badFieldLength tlvType len)
    else do
      let b ← index value 0
      return { f with networkId := some b }
  else if tlvType = NimiqEnvelope.tValidUntil then
    if len ≠ 4 then fail (.badFieldLength tlvType len)
    else do
      let b0 ← index value 0
      let b1 ← index value 1
      let b2 ← index value 2
      let b3 ← index value 3
      return { f with validUntil := some (u32OfBe [b0, b1, b2, b3]) }
  else if tlvType = NimiqEnvelope.tTxId then
    if len ≠ hashLen then fail (.badFieldLength tlvType len)
    else do
      let id ← copyFromSlice hashLen value
      return { f with txId := some id }
  else if tlvType = NimiqEnvelope.tEncMemo then .ok { f with encMemo := some value }
  else if tlvType = NimiqEnvelope.tWantReceipt then
    if len ≠ 1 then fail (.badFieldLength tlvType len)
    else do
      let b ← index value 0
      return { f with wantReceipt := b != 0 }
  else .ok f

/-- The field loop at an offset. A round that finds no fuel is one that the code does not have. -/
def decodeLoop (bytes : Bytes) : ℕ → ℕ → NimiqEnvelope.Fields → Result EnvelopeError NimiqEnvelope.Fields
  | fuel, off, f =>
    if bytes.length ≤ off then .ok f
    else if bytes.length < off + 2 then fail (.truncated off)
    else do
      let tlvType ← index bytes off
      let len ← index bytes (off + 1)
      let valueStart := off + 2
      let valueEnd := valueStart + len.toNat
      if bytes.length < valueEnd then fail (.truncated valueStart)
      else do
        let value ← range bytes valueStart valueEnd
        let f ← setField f tlvType value
        match fuel with
        | 0 => fault .index
        | fuel + 1 => decodeLoop bytes fuel valueEnd f

def decodeEnvelope (bytes : Bytes) : Result EnvelopeError NimiqEnvelope := do
  let f ← decodeLoop bytes bytes.length 0 {}
  ofExcept f.finish

def decodeHistoryRecord (rec : Bytes) : Result Unit TxHistoryRecord := do
  let hash ← copyFromSlice hashLen (← range rec 0 32)
  let counterparty ← copyFromSlice nimAddressLen (← range rec 32 (32 + nimAddressLen))
  let value ← ofOption (tryInto 8 (← range rec 52 60))
  let timestampMs ← ofOption (tryInto 8 (← range rec 60 68))
  let flags ← index rec 68
  return { hash, counterparty, value := u64OfBe value.1, timestampMs := u64OfBe timestampMs.1, flags }

def decodeHistoryResponse (bytes : Bytes) : Result Unit HistoryResponse :=
  if bytes.length < historyResponseHeaderLen then fail ()
  else do
    let address ← copyFromSlice nimAddressLen (← range bytes 0 nimAddressLen)
    let headHeight ← ofOption (tryInto 4 (← range bytes nimAddressLen (nimAddressLen + 4)))
    let networkId ← index bytes (nimAddressLen + 4)
    let count ← index bytes (nimAddressLen + 5)
    if historyMax < count.toNat ∨ bytes.length ≠ historyResponseHeaderLen + count.toNat * historyRecordLen then fail ()
    else do
      let records ← (List.range count.toNat).mapM fun i => do
        let start := historyResponseHeaderLen + i * historyRecordLen
        decodeHistoryRecord (← range bytes start (start + historyRecordLen))
      return { address, headHeight := u32OfBe headHeight.1, networkId, records }

def decodeBalanceProof (bytes : Bytes) : Result Unit BalanceProof :=
  if bytes.length < balanceProofFixedLen then fail ()
  else do
    let address ← copyFromSlice nimAddressLen (← range bytes 0 nimAddressLen)
    let headHeight ← copyFromSlice 4 (← range bytes nimAddressLen (nimAddressLen + 4))
    let networkId ← index bytes (nimAddressLen + 4)
    let off := nimAddressLen + 5
    let headerLen := ofBe [← index bytes off, ← index bytes (off + 1)]
    let off := off + 2
    if headerLen = 0 ∨ maxHeaderLen < headerLen then fail ()
    else if bytes.length < off + headerLen + 2 then fail ()
    else do
      let header ← range bytes off (off + headerLen)
      let off := off + headerLen
      let proofLen := ofBe [← index bytes off, ← index bytes (off + 1)]
      let off := off + 2
      if proofLen = 0 ∨ maxProofLen < proofLen then fail ()
      else if bytes.length ≠ off + proofLen then fail ()
      else do
        let proof ← range bytes off bytes.length
        return { address, headHeight := u32OfBe headHeight.1, networkId, header, proof }

/-- The closure `take`: the slice at the cursor, which moves behind it. -/
def take (payload : Bytes) (i n : ℕ) : Option (Bytes × ℕ) :=
  if i + n ≤ payload.length then some (slice payload i n, i + n) else none

def decodeChat (payload : Bytes) : Result Unit (UInt64 × String × String) := do
  let (v, i) ← ofOption (take payload 0 1)
  let v ← ofOption v.head?
  if v ≠ chatVersion then fail ()
  else do
    let (ts, i) ← ofOption (take payload i 8)
    let ts ← unwrap (tryInto 8 ts)
    let (nickLen, i) ← ofOption (take payload i 1)
    let nickLen ← ofOption nickLen.head?
    if maxNickBytes < nickLen.toNat then fail ()
    else do
      let (nick, i) ← ofOption (take payload i nickLen.toNat)
      let nick ← ofOption (fromUtf8 nick)
      let (textLen, i) ← ofOption (take payload i 2)
      let textLen ← unwrap (tryInto 2 textLen)
      if ofBe textLen.1 = 0 ∨ maxTextBytes < ofBe textLen.1 then fail ()
      else do
        let (text, i) ← ofOption (take payload i (ofBe textLen.1))
        let text ← ofOption (fromUtf8 text)
        if i ≠ payload.length then fail ()
        else return (u64OfBe ts.1, nick, text)

end Indexed

end Nimmesh
