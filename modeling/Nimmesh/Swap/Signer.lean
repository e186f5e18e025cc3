import Nimmesh.Swap.Ops

/-! @src swap_signer.rs live_swap_signer.rs swap_funding_verify.rs | name:Signers and verifiers |
    layer:model

    The seam where a swap action becomes a transaction. `MockSigner` and `AcceptAllVerifier` are the
    stand-ins of the deterministic mesh; of the live initiator signer the model has what the driver
    relies on: the peer book that names the recipient of the funding, and the claim, which hands its
    transaction back only once the chain shows it. -/

namespace Nimmesh
open Word

/-! ### The stand-ins -/

/-- A deterministic stand-in tx id: the swap id, then filler. -/
def simTxId (swapId : SwapId) (tag : UInt8) : Hash :=
  ⟨swapId.1 ++ List.replicate 16 tag, by rw [List.length_append, List.length_replicate, swapId.2]; rfl⟩

namespace MockSigner

def buildFunding (ctx : SwapContext) : SwapLegId → Option (Bytes × Hash)
  | .nim => some (List.replicate 248 0x11, simTxId ctx.swapId 0xF1)
  | .counterparty => some (List.replicate 120 0x22, simTxId ctx.swapId 0xF2)

/-- The claim wire is the secret itself. -/
def buildClaim (ctx : SwapContext) (secret : Hash) : Option (Bytes × Hash) :=
  some (secret.1, simTxId ctx.swapId 0xF3)

end MockSigner

namespace AcceptAllVerifier

def observe (_ : HtlcExpectation) : FundingObservation :=
  .found 18446744073709551615 18446744073709551615 4294967295

def observeClaim (_ : SwapLegId) (_ : Hash) : ClaimObservation := .included 4294967295

end AcceptAllVerifier

/-! ### The peer book -/

/-- The counterparty addressing one swap carried over the protocol. -/
structure PeerAddressing where
  nimAddress : NimAddress
  chainAddress : Bytes
  deriving DecidableEq

abbrev PeerBook := Table SwapId PeerAddressing

def maxBookEntries : ℕ := 32

/-- Record a peer's addressing: the first report wins, and the table is bounded. -/
def PeerBook.note (book : PeerBook) (swapId : SwapId) (peer : PeerAddressing) : PeerBook :=
  if swapId ∈ book ∨ maxBookEntries ≤ book.len then book else book.insert swapId peer

/-- The peer book of a live signer after the reports of a trace (newest event first). -/
def peerBook : List Event → PeerBook
  | [] => ∅
  | .notedPeer id peer :: tr => PeerBook.note (peerBook tr) id ⟨peer.1, peer.2⟩
  | _ :: tr => peerBook tr

/-- `fund_nim`: the recipient of the HTLC the live initiator creates for a swap, if it knows the peer. -/
def fundNimRecipient (book : PeerBook) (ctx : SwapContext) : Option NimAddress :=
  (book.lookup ctx.swapId).map (·.nimAddress)

/-! ### The live claim -/

structure TxReceipt where
  success : Bool
  blockNumber : UInt64
  deriving DecidableEq

/-- The `CLAIMED` state of the escrow contract. -/
def stateClaimed : UInt64 := 2

def revealMinConfirmations : ℕ := 2

/-- What one round of consults answers: the escrow's state, the receipt of a tx, the chain head. -/
structure AmoyView where
  escrowState : Hash → Option UInt64
  receipt : Hash → Option TxReceipt
  head : Option UInt64

/-- The withdraw is mined, successful and buried to the reveal depth. -/
def withdrawDeepEnough (v : AmoyView) (txHash : Hash) : Bool :=
  match v.receipt txHash, v.head with
  | some receipt, some head =>
    receipt.success && decide (revealMinConfirmations ≤ (satSub head receipt.blockNumber).toNat + 1)
  | _, _ => false

/-- The escrow reads claimed and the withdraw is deep enough. -/
def revealConfirmed (v : AmoyView) (escrow txHash : Hash) : Bool :=
  decide (v.escrowState escrow = some stateClaimed) && withdrawDeepEnough v txHash

/-- The answers of the chain during one call of `claim_usdc`: the escrow our verifier found, the
    outcome of building and sending the withdraw, its receipt, and one view per poll. -/
structure ClaimRpc where
  found : Hash → Option Hash
  send : Hash → Hash → Option (Bytes × Hash)
  waitReceipt : Hash → Option TxReceipt
  polls : List AmoyView

/-- `claim_usdc` of the live initiator: the claim handed back, and the claim remembered. -/
def claimUsdc (rpc : ClaimRpc) (lastClaim : Option (Bytes × Hash)) (ctx : SwapContext) (secret : Hash) :
    Option (Bytes × Hash) × Option (Bytes × Hash) :=
  match rpc.found ctx.hashlock with
  | none => (none, lastClaim)
  | some escrow =>
    match lastClaim with
    | some claim =>
      -- a prior withdraw is never sent twice: its reveal is replayed once it is confirmed
      (match rpc.polls with
       | v :: _ => if revealConfirmed v escrow claim.2 then some claim else none
       | [] => none, lastClaim)
    | none =>
      match rpc.send escrow secret with
      | none => (none, none)
      | some (raw, hash) =>
        match rpc.waitReceipt hash with
        | none => (none, none)
        | some receipt =>
          if !receipt.success then (none, none)
          else
            let claim := (secret.1 ++ raw, hash)
            (if rpc.polls.any fun v => revealConfirmed v escrow hash then some claim else none,
             some claim)

/-- CORRECT: the live claim is handed back only after a consult showed the escrow claimed and the
    withdraw mined, successful and at least `revealMinConfirmations` deep. -/
theorem claimUsdc_confirmed {rpc : ClaimRpc} {last : Option (Bytes × Hash)} {ctx : SwapContext}
    {secret : Hash} {tx : Bytes × Hash} (h : (claimUsdc rpc last ctx secret).1 = some tx) :
    ∃ escrow, rpc.found ctx.hashlock = some escrow ∧
      ∃ v ∈ rpc.polls, revealConfirmed v escrow tx.2 = true := by
  unfold claimUsdc at h
  cases hf : rpc.found ctx.hashlock with
  | none => simp [hf] at h
  | some escrow =>
    refine ⟨escrow, rfl, ?_⟩
    simp only [hf] at h
    cases last with
    | some claim =>
      cases hp : rpc.polls with
      | nil => simp [hp] at h
      | cons v vs =>
        simp only [hp] at h
        split_ifs at h with hc
        cases h
        exact ⟨v, List.mem_cons_self, hc⟩
    | none =>
      simp only at h
      split at h
      · cases h
      · split at h
        · cases h
        · split_ifs at h with hs hc
          cases h
          obtain ⟨v, hv, hok⟩ := List.any_eq_true.mp hc
          exact ⟨v, hv, hok⟩

/-! ### A sample pair

    One initiator and one responder with real key material (the Ed25519 keys of the seeds `07…07` and
    `08…08`, their addresses, the signatures of the proposal and of the responder's intent below, the
    SHA-256 of the secret `42…42` and of the bytes the swap id is derived from), on which the general
    results are instantiated. -/

namespace Sample

def pubkey : ByteArr proposePubkeyLen := ⟨[0xea, 0x4a, 0x6c, 0x63, 0xe2, 0x9c, 0x52, 0x0a, 0xbe, 0xf5, 0x50, 0x7b, 0x13, 0x2e, 0xc5, 0xf9,
    0x95, 0x47, 0x76, 0xae, 0xbe, 0xbe, 0x7b, 0x92, 0x42, 0x1e, 0xea, 0x69, 0x14, 0x46, 0xd2, 0x2c], rfl⟩

def aliceAddress : NimAddress := ⟨[0x8d, 0x2d, 0x1c, 0x26, 0x01, 0x27, 0xc7, 0x44, 0x76, 0xb2, 0x71, 0x36, 0xc5, 0xe3, 0x8c, 0x00,
    0x3b, 0x66, 0xb8, 0x89], rfl⟩

def secret : Hash := ByteArr.fill 32 0x42

def hashlock : Hash := ⟨[0x42, 0x5e, 0xd4, 0xe4, 0xa3, 0x6b, 0x30, 0xea, 0x21, 0xb9, 0x0e, 0x21, 0xc7, 0x12, 0xc6, 0x49,
    0xe8, 0x21, 0x4c, 0x29, 0xb7, 0xea, 0xf6, 0x80, 0x89, 0xd1, 0x03, 0x9c, 0x6e, 0x55, 0x38, 0x4c], rfl⟩

/-- The hash the swap id is cut from. -/
def derivedHash : Hash := ⟨[0xb7, 0x75, 0x93, 0x1f, 0x89, 0xcb, 0x25, 0x50, 0xee, 0x36, 0xcf, 0xff, 0x7e, 0x5d, 0x09, 0xca,
    0xca, 0xb9, 0x20, 0x76, 0xc4, 0x96, 0xbd, 0x16, 0x41, 0x14, 0x68, 0xa5, 0x94, 0xbe, 0x56, 0xfe], rfl⟩

def swapId : SwapId := derivedHash.take swapIdLen

/-- The proposal of the sample swap: 200 000 luna for 100 000 sat, minted at head 0. -/
def proposal : SwapProposal where
  swapId := swapId
  hashlock := hashlock
  giveAmount := 200000
  takeAmount := 100000
  terms := ⟨10000, 5000⟩
  nimAddress := aliceAddress
  btcAddress := List.replicate 20 0x22
  btcPubkey := ByteArr.fill 33 0x02
  networkId := 5

def signature : ByteArr proposeSigLen := ⟨[0xa0, 0x5c, 0x85, 0xca, 0xc0, 0x22, 0x79, 0xda, 0xdc, 0x4b, 0x63, 0xa2, 0x60, 0xe1, 0x5b, 0x75,
    0xab, 0x22, 0x41, 0x08, 0x41, 0x5c, 0xce, 0x21, 0x59, 0xe8, 0x60, 0x11, 0x94, 0x68, 0x76, 0x0e,
    0xd1, 0x66, 0x04, 0x5f, 0xc5, 0xa0, 0x54, 0x58, 0xab, 0xd7, 0x11, 0x80, 0xbd, 0xef, 0xb2, 0xb6,
    0xe9, 0xe6, 0xef, 0x7a, 0xcb, 0x63, 0xf6, 0x2a, 0x45, 0xb3, 0x2b, 0x60, 0x93, 0x57, 0x8a, 0x0b], rfl⟩

def bobPubkey : ByteArr proposePubkeyLen := ⟨[0x13, 0x98, 0xf6, 0x2c, 0x6d, 0x1a, 0x45, 0x7c, 0x51, 0xba, 0x6a, 0x4b, 0x5f, 0x3d, 0xbd, 0x2f,
    0x69, 0xfc, 0xa9, 0x32, 0x16, 0x21, 0x8d, 0xc8, 0x99, 0x7e, 0x41, 0x6b, 0xd1, 0x7d, 0x93, 0xca], rfl⟩

def bobAddress : NimAddress := ⟨[0x7e, 0x79, 0x09, 0x2d, 0x52, 0x2f, 0xc2, 0xb1, 0x2e, 0x3b, 0xd0, 0xc2, 0x02, 0xd3, 0xb8, 0x42,
    0xe5, 0x7f, 0xec, 0xf4], rfl⟩

def bobSignature : ByteArr proposeSigLen := ⟨[0x8f, 0x9b, 0xc8, 0x63, 0x81, 0x5e, 0xa8, 0xa3, 0xa8, 0x99, 0x0d, 0xd5, 0xbb, 0xee, 0x11, 0x06,
    0x70, 0x75, 0x2d, 0xdc, 0x75, 0x6f, 0x9f, 0xce, 0x54, 0x09, 0x3c, 0x73, 0x6f, 0xa5, 0xf4, 0x36,
    0x6f, 0x1a, 0x8a, 0x9d, 0xdf, 0xe0, 0x6c, 0x83, 0xdf, 0x67, 0xf5, 0x51, 0xc1, 0x50, 0x52, 0x9e,
    0xe6, 0xb1, 0xbe, 0x8f, 0x7d, 0x33, 0xa9, 0x9c, 0xcf, 0x39, 0x4e, 0x07, 0x0f, 0x1a, 0x6b, 0x06], rfl⟩

/-- The mirror trade the responder advertises. -/
def bobIntent : SwapIntent where
  gives := .btc
  counterAsset := .btc
  nimAmount := 200000
  btcAmount := 100000
  expiryHeight := 1000000
  minNim := 0
  maxNim := u64Max
  nimPubkey := bobPubkey
  nimAddress := bobAddress
  btcPubkey := ByteArr.fill 33 0x03
  btcAddress := List.replicate 20 0xB1
  evmAddress := ByteArr.fill 20 0
  networkId := 5
  signature := bobSignature

/-- The primitives on the sample's inputs. -/
def crypto : Crypto where
  sha256 b :=
    if b = secret.1 then hashlock
    else if b = aliceAddress.1 ++ List.replicate 33 0x02 ++ List.replicate 33 0x03 then derivedHash
    else ByteArr.fill 32 0
  addressOf k := if k = pubkey then aliceAddress else if k = bobPubkey then bobAddress
    else ByteArr.fill 20 0
  verifyStrict k m sig := (k = pubkey && m = proposal.signingBytes && sig = signature) ||
    (k = bobPubkey && m = encodeIntentContent bobIntent && sig = bobSignature)

/-- The trade the initiator advertises. -/
def intent : SwapIntent where
  gives := .nim
  counterAsset := .btc
  nimAmount := 200000
  btcAmount := 100000
  expiryHeight := 1000000
  minNim := 0
  maxNim := u64Max
  nimPubkey := pubkey
  nimAddress := aliceAddress
  btcPubkey := ByteArr.fill 33 0x02
  btcAddress := List.replicate 20 0x22
  evmAddress := ByteArr.fill 20 0
  networkId := 5
  signature := ByteArr.fill 64 0

/-- The deterministic mesh: mock signer, accept-all verifier. -/
def env : Env where
  toCrypto := crypto
  observe _ := AcceptAllVerifier.observe
  observeClaim _ := AcceptAllVerifier.observeClaim
  buildFunding _ := MockSigner.buildFunding
  buildClaim _ := MockSigner.buildClaim
  secretSource _ _ := secret
  proposeSigner := some ⟨pubkey.1, fun _ => signature.1⟩
  telemetryNowMs _ := 0

/-- The initiator's session. -/
def alice : Session :=
  Session.new { nimAddress := aliceAddress, btcAddress := List.replicate 20 0x22,
                btcPubkey := ByteArr.fill 33 0x02, standingIntent := some intent } {}

/-- The responder's session. -/
def bob : Session :=
  Session.new { nimAddress := ByteArr.fill 20 0xB0, btcAddress := List.replicate 20 0xB1,
                btcPubkey := ByteArr.fill 33 0x03 } {}

/-- The bytes of an envelope that encodes. -/
def wire (e : SwapEnvelope) : Bytes :=
  match encodeSwap e with
  | .ok bytes => bytes
  | .error _ => []

/-- The signed `Propose` of the sample swap. -/
def propose : Bytes := wire (proposal.toSignedEnvelope pubkey signature)

/-- The `FundingProof` of a leg, as the mock signer's owner of that leg floods it. -/
def fundingProof (leg : SwapLegId) : Bytes :=
  wire (txEnvelope swapId leg [0x11] (simTxId swapId 0xF1))

/-- What the responder accepts with. -/
def acceptance : SwapAcceptance where
  swapId := swapId
  nimAddress := ByteArr.fill 20 0xB0
  btcAddress := List.replicate 20 0xB1
  btcPubkey := ByteArr.fill 33 0x03

/-- The responder's `Accept`. -/
def accept : Bytes := wire acceptance.toEnvelope

/-- The initiator's `PreimageReveal`. -/
def reveal : Bytes := wire (txEnvelope swapId .counterparty secret.1 (simTxId swapId 0xF3))

theorem alice_fresh : alice.Fresh := Session.fresh_new _ _

theorem bob_fresh : bob.Fresh := Session.fresh_new _ _

/-- A packet is routed to the session, then driven. -/
def packet (kind : SwapKind) (payload : Bytes) (head : UInt64) : List Op :=
  [.message kind payload head, .driveSwap kind payload head]

/-- The whole swap of the responder, at head 0. -/
def responderRun : List Op :=
  packet .propose propose 0 ++ packet .fundingProof (fundingProof .nim) 0 ++
    packet .preimageReveal reveal 0

/-- The whole swap of the initiator, at head 0. -/
def initiatorRun : List Op :=
  .initiate swapId 0 :: packet .accept accept 0 ++ packet .fundingProof (fundingProof .counterparty) 0

end Sample

end Nimmesh
