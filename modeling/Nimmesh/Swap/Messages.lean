import Nimmesh.Swap.Machine

/-! @src swap_messages.rs | name:Swap messages | layer:model

    Typed constructors for the swap envelopes and the way back, and the authentication of a
    `Propose`. The hash and the signature scheme come from third-party crates; they enter as a
    `Crypto` record and nothing is assumed about them here. -/

namespace Nimmesh

def proposePubkeyLen : ℕ := 32

def proposeSigLen : ℕ := 64

/-- The third-party primitives: SHA-256, `Address::from_public_key` and Ed25519 `verify_strict`
    (which also fails on bytes that are no public key). -/
structure Crypto where
  sha256 : Bytes → Hash
  addressOf : ByteArr proposePubkeyLen → NimAddress
  verifyStrict : ByteArr proposePubkeyLen → Bytes → ByteArr proposeSigLen → Bool

/-- Everything a `Propose` carries. -/
structure SwapProposal where
  swapId : SwapId
  hashlock : Hash
  giveAmount : UInt64
  takeAmount : UInt64
  terms : SwapTerms
  nimAddress : NimAddress
  btcAddress : Bytes
  btcPubkey : BtcPubkey
  networkId : UInt8
  deriving DecidableEq

namespace SwapProposal

def toEnvelope (p : SwapProposal) : SwapEnvelope where
  swapId := p.swapId
  hashlock := some p.hashlock
  giveAmount := some p.giveAmount
  takeAmount := some p.takeAmount
  nimTimeout := some p.terms.nimTimeout
  counterpartyTimeout := some p.terms.counterpartyTimeout
  nimAddress := some p.nimAddress
  counterpartyAddress := some p.btcAddress
  networkId := some p.networkId
  btcPubkey := some p.btcPubkey

/-- Parse a decoded `Propose`; `none` if a field is missing. -/
def fromEnvelope (env : SwapEnvelope) : Option SwapProposal := do
  let hashlock ← env.hashlock
  let giveAmount ← env.giveAmount
  let takeAmount ← env.takeAmount
  let nimTimeout ← env.nimTimeout
  let counterpartyTimeout ← env.counterpartyTimeout
  let nimAddress ← env.nimAddress
  let btcAddress ← env.counterpartyAddress
  let btcPubkey ← env.btcPubkey
  let networkId ← env.networkId
  return { swapId := env.swapId, hashlock, giveAmount, takeAmount,
           terms := { nimTimeout, counterpartyTimeout }, nimAddress, btcAddress, btcPubkey, networkId }

/-- The canonical bytes an authenticated `Propose` signs over. -/
def signingBytes (p : SwapProposal) : Bytes :=
  p.swapId.1 ++ p.hashlock.1 ++ beBytes p.giveAmount ++ beBytes p.takeAmount ++
  beBytes p.terms.nimTimeout ++ beBytes p.terms.counterpartyTimeout ++
  p.nimAddress.1 ++ p.btcAddress ++ p.btcPubkey.1 ++ [p.networkId]

/-- The signer controls the NIM address and signed exactly these terms. -/
def verifySignature (cr : Crypto) (p : SwapProposal) (pubkey : ByteArr proposePubkeyLen)
    (signature : ByteArr proposeSigLen) : Bool :=
  if cr.addressOf pubkey ≠ p.nimAddress then false
  else cr.verifyStrict pubkey p.signingBytes signature

def toSignedEnvelope (p : SwapProposal) (pubkey : ByteArr proposePubkeyLen)
    (signature : ByteArr proposeSigLen) : SwapEnvelope :=
  { p.toEnvelope with nimPubkey := some pubkey, proposeSig := some signature }

/-- A decoded `Propose` is authentic: its terms parse, it carries key and signature, and they verify. -/
def verifyEnvelope (cr : Crypto) (env : SwapEnvelope) : Bool :=
  match fromEnvelope env, env.nimPubkey, env.proposeSig with
  | some proposal, some pubkey, some sig => proposal.verifySignature cr pubkey sig
  | _, _, _ => false

/-- CORRECT: a proposal survives the envelope, signed or not. -/
theorem fromEnvelope_toEnvelope (p : SwapProposal) : fromEnvelope p.toEnvelope = some p := rfl

theorem fromEnvelope_swapId {env : SwapEnvelope} {p : SwapProposal} (h : fromEnvelope env = some p) :
    p.swapId = env.swapId := by
  simp only [fromEnvelope, Option.bind_eq_bind, Option.bind_eq_some_iff] at h
  obtain ⟨_, _, _, _, _, _, _, _, _, _, _, _, _, _, _, _, _, _, h⟩ := h
  cases h; rfl

end SwapProposal

/-- Everything an `Accept` carries. -/
structure SwapAcceptance where
  swapId : SwapId
  nimAddress : NimAddress
  btcAddress : Bytes
  btcPubkey : BtcPubkey
  deriving DecidableEq

namespace SwapAcceptance

def toEnvelope (a : SwapAcceptance) : SwapEnvelope where
  swapId := a.swapId
  nimAddress := some a.nimAddress
  counterpartyAddress := some a.btcAddress
  btcPubkey := some a.btcPubkey

def fromEnvelope (env : SwapEnvelope) : Option SwapAcceptance := do
  let nimAddress ← env.nimAddress
  let btcAddress ← env.counterpartyAddress
  let btcPubkey ← env.btcPubkey
  return { swapId := env.swapId, nimAddress, btcAddress, btcPubkey }

theorem fromEnvelope_swapId {env : SwapEnvelope} {a : SwapAcceptance} (h : fromEnvelope env = some a) :
    a.swapId = env.swapId := by
  simp only [fromEnvelope, Option.bind_eq_bind, Option.bind_eq_some_iff] at h
  obtain ⟨_, _, _, _, _, _, h⟩ := h
  cases h; rfl

end SwapAcceptance

/-- A `FundingProof` or `PreimageReveal`: a leg, its signed tx blob and the tx id. -/
def txEnvelope (swapId : SwapId) (leg : SwapLegId) (txWire : Bytes) (txId : Hash) : SwapEnvelope where
  swapId := swapId
  leg := some leg
  txWire := some txWire
  txId := some txId

/-- A transaction that fits into one TLV encodes. -/
theorem encodeSwap_txEnvelope (swapId : SwapId) (leg : SwapLegId) {txWire : Bytes} (txId : Hash)
    (h : txWire.length ≤ maxTlvValueLen) :
    ∃ payload, encodeSwap (txEnvelope swapId leg txWire txId) = .ok payload := by
  have hid : swapId.1.length = 16 := swapId.2
  have htx : txId.1.length = 32 := txId.2
  have h1 : ¬ maxTlvValueLen < 16 := by decide
  have h2 : ¬ maxTlvValueLen < 32 := by decide
  have h3 : ¬ maxTlvValueLen < 1 := by decide
  simp [encodeSwap, txEnvelope, pushOpt, pushTlv, hid, htx, h1, h2, h3, Nat.not_lt.mpr h, bind, Except.bind]

/-- A courtesy `Abort` with a one-byte reason. -/
def abortEnvelope (swapId : SwapId) (reason : UInt8) : SwapEnvelope where
  swapId := swapId
  reason := some reason

end Nimmesh
