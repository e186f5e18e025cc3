import Nimmesh.Swap.Coordinator

/-! @src nimiq/htlc.rs nimiq/tx.rs | name:NIM HTLC transactions | layer:model

    The bytes of the two transactions of the NIM leg: the creation that locks luna under a hashlock, at
    an address derived from its own content, and the redeem that spends it. A claimant rebuilds the
    creation from the wire it saw, and with it the address of the contract. -/

namespace Nimmesh

/-- `Blake2b-256`, the hash of the NIM chain. -/
abbrev Blake2b := Bytes → Hash

def formatExtended : UInt8 := 0x01
def accountTypeBasic : UInt8 := 0x00
def accountTypeHtlc : UInt8 := 0x02
def flagContractCreation : UInt8 := 0x01
def flagNone : UInt8 := 0x00

def htlcDataLen : ℕ := 82

inductive HashAlgorithm where | blake2b | sha256
  deriving DecidableEq, Repr

def HashAlgorithm.toU8 : HashAlgorithm → UInt8
  | .blake2b => 1
  | .sha256 => 3

def HashAlgorithm.fromU8 (b : UInt8) : Option HashAlgorithm :=
  if b = 1 then some .blake2b else if b = 3 then some .sha256 else none

/-- The unlock conditions of the contract; the timeout is in Unix milliseconds. -/
structure HtlcCreationData where
  htlcSender : NimAddress
  htlcRecipient : NimAddress
  hashAlgorithm : HashAlgorithm
  hashRoot : Hash
  hashCount : UInt8
  timeout : UInt64
  deriving DecidableEq

/-- The canonical 82 bytes. -/
def HtlcCreationData.serialize (d : HtlcCreationData) : Bytes :=
  d.htlcSender.1 ++ d.htlcRecipient.1 ++ [d.hashAlgorithm.toU8] ++ d.hashRoot.1 ++ [d.hashCount] ++
    beBytes d.timeout

/-- `u32::to_be_bytes`. -/
def beBytes32 (v : UInt32) : Bytes :=
  [(v >>> 24).toUInt8, (v >>> 16).toUInt8, (v >>> 8).toUInt8, v.toUInt8]

/-- `u32::from_be_bytes`. -/
def u32OfBe (b : Bytes) : UInt32 := b.foldl (fun acc x => (acc <<< 8) ||| x.toUInt32) 0

/-- A length in groups of seven bits, the continuation bit on all but the last; `fuel` bounds the groups. -/
def varLen : ℕ → ℕ → Bytes
  | 0, _ => []
  | fuel + 1, n => if n < 128 then [n.toUInt8] else (n % 128 + 128).toUInt8 :: varLen fuel (n / 128)

/-- A field behind its length. -/
def varBytes (b : Bytes) : Bytes := varLen 10 b.length ++ b

/-- The signing payload of an extended transaction; the sender data is always empty. -/
def extendedContent (recipientData : Bytes) (sender : NimAddress) (senderType : UInt8)
    (recipient : NimAddress) (recipientType : UInt8) (value fee : UInt64) (validityStartHeight : UInt32)
    (networkId flags : UInt8) : Bytes :=
  beBytes16 recipientData.length ++ recipientData ++ sender.1 ++ [senderType] ++ recipient.1 ++
    [recipientType] ++ beBytes value ++ beBytes fee ++ beBytes32 validityStartHeight ++ [networkId] ++
    [flags] ++ [0x00]

/-- A creation: locks `value` luna into a new contract. -/
structure HtlcCreation where
  funder : NimAddress
  data : HtlcCreationData
  value : UInt64
  fee : UInt64
  validityStartHeight : UInt32
  networkId : UInt8
  deriving DecidableEq

namespace HtlcCreation

def contentTo (c : HtlcCreation) (recipient : NimAddress) : Bytes :=
  extendedContent c.data.serialize c.funder accountTypeBasic recipient accountTypeHtlc c.value c.fee
    c.validityStartHeight c.networkId flagContractCreation

/-- The contract lives at the hash of the content with its recipient zeroed. -/
def contractAddress (blake : Blake2b) (c : HtlcCreation) : NimAddress :=
  (blake (c.contentTo (ByteArr.fill nimAddressLen 0))).take nimAddressLen

def serializeContent (blake : Blake2b) (c : HtlcCreation) : Bytes := c.contentTo (c.contractAddress blake)

def txHash (blake : Blake2b) (c : HtlcCreation) : Hash := blake (c.serializeContent blake)

def serializeWire (blake : Blake2b) (c : HtlcCreation) (proof : Bytes) : Bytes :=
  [formatExtended] ++ c.funder.1 ++ [accountTypeBasic] ++ varBytes [] ++ (c.contractAddress blake).1 ++
    [accountTypeHtlc] ++ varBytes c.data.serialize ++ beBytes c.value ++ beBytes c.fee ++
    beBytes32 c.validityStartHeight ++ [c.networkId] ++ [flagContractCreation] ++ varBytes proof

end HtlcCreation

/-- A redeem: a transfer out of a contract. -/
structure HtlcRedeem where
  contract : NimAddress
  recipient : NimAddress
  value : UInt64
  fee : UInt64
  validityStartHeight : UInt32
  networkId : UInt8
  deriving DecidableEq

namespace HtlcRedeem

def serializeContent (r : HtlcRedeem) : Bytes :=
  extendedContent [] r.contract accountTypeHtlc r.recipient accountTypeBasic r.value r.fee
    r.validityStartHeight r.networkId flagNone

def txHash (blake : Blake2b) (r : HtlcRedeem) : Hash := blake r.serializeContent

def serializeWire (r : HtlcRedeem) (proof : Bytes) : Bytes :=
  [formatExtended] ++ r.contract.1 ++ [accountTypeHtlc] ++ varBytes [] ++ r.recipient.1 ++
    [accountTypeBasic] ++ varBytes [] ++ beBytes r.value ++ beBytes r.fee ++
    beBytes32 r.validityStartHeight ++ [r.networkId] ++ [flagNone] ++ varBytes proof

end HtlcRedeem

/-- The single-signer proof: type, public key, empty merkle path, signature. -/
def signatureProofSingleSig (publicKey : ByteArr 32) (signature : ByteArr 64) : Bytes :=
  [0x00] ++ publicKey.1 ++ [0x00] ++ signature.1

/-- The proof of a claim: it carries the preimage. -/
def regularTransferProof (hashAlgorithm : HashAlgorithm) (hashRoot preImage : Hash) (publicKey : ByteArr 32)
    (signature : ByteArr 64) : Bytes :=
  [0x00, 1, hashAlgorithm.toU8] ++ hashRoot.1 ++ [32] ++ preImage.1 ++
    signatureProofSingleSig publicKey signature

/-- `n` bytes at an offset. -/
def slice (b : Bytes) (offset n : ℕ) : Bytes := (b.drop offset).take n

/-- Rebuild a creation from its funding wire; the proof behind it is not read. -/
def decodeCreationWire (wire : Bytes) : Option HtlcCreation := do
  -- format 1, sender 20, type 1, no sender data 1, recipient 20, type 1, data length 1
  let head := 45
  if wire.length < head + htlcDataLen + 8 + 8 + 4 + 1 + 1 ∨ wire[0]? ≠ some formatExtended ∨
      wire[21]? ≠ some accountTypeBasic ∨ wire[22]? ≠ some 0 ∨ wire[43]? ≠ some accountTypeHtlc ∨
      wire[44]? ≠ some htlcDataLen.toUInt8 then
    none
  let funder ← ByteArr.ofBytes? nimAddressLen (slice wire 1 20)
  let data := slice wire head htlcDataLen
  let hashAlgorithm ← data[40]?.bind HashAlgorithm.fromU8
  let htlcSender ← ByteArr.ofBytes? nimAddressLen (slice data 0 20)
  let htlcRecipient ← ByteArr.ofBytes? nimAddressLen (slice data 20 20)
  let hashRoot ← ByteArr.ofBytes? hashLen (slice data 41 32)
  let hashCount ← data[73]?
  let timeout := u64OfBe (slice data 74 8)
  let value := u64OfBe (slice wire 127 8)
  let fee := u64OfBe (slice wire 135 8)
  let validityStartHeight := u32OfBe (slice wire 143 4)
  let networkId ← wire[147]?
  return ⟨funder, ⟨htlcSender, htlcRecipient, hashAlgorithm, hashRoot, hashCount, timeout⟩, value, fee,
    validityStartHeight, networkId⟩

end Nimmesh
