import Nimmesh.Live.Evm
import Nimmesh.Live.NimVerifier
import Nimmesh.Swap.Signer

/-! @src live_swap_signer.rs amoy_swap_verifier.rs nim_verifier.rs swap_live_ffi_live_impl.rs
    mainnet_swap.rs | name:The live signers | layer:model

    What the live signers do in one call, as functions of what they remember and of what the chains
    answer during the call. The answers are arbitrary: nothing here assumes that a node tells the truth,
    or that a transaction it refuses does not land. -/

namespace Nimmesh
open Word

/-- The hash functions of the two chains, and the address of a NIM key. -/
structure ChainCrypto where
  keccak256 : Bytes → Hash
  blake2b : Blake2b
  addressOf : ByteArr 32 → NimAddress

/-- No timelock may sit further ahead than six hours. -/
def maxLegTimelockAheadS : UInt64 := 6 * 3600

/-- The on-chain timelock, in seconds, of a term. -/
def usdcTimelockS (term termAnchor nowS : UInt64) : UInt64 := satAdd nowS (satSub term termAnchor)

/-- The on-chain timeout, in milliseconds, of a term. -/
def nimHtlcTimeoutMs (term termAnchor nowMs : UInt64) : UInt64 :=
  satAdd nowMs (satMul (satSub term termAnchor) 1000)

/-- Which networks the live path may touch: testnet, and mainnet behind its switch. -/
def mainnetSwapEnabled : Bool := true

def testnetWireId : UInt8 := 5

def mainnetWireId : UInt8 := 24

def liveSwapAllowedWire (networkId : UInt8) : Bool :=
  if networkId = testnetWireId then true
  else if networkId = mainnetWireId then mainnetSwapEnabled
  else false

structure EvmGasConfig where
  minGasPrice : UInt64 := 30000000000
  maxGasPrice : UInt64 := 50000000000
  gasApprove : UInt64 := 90000
  gasNewSwap : UInt64 := 280000
  gasWithdraw : UInt64 := 170000
  gasRefundReserve : UInt64 := 140000

/-- The node's suggestion, held between floor and cap. -/
def EvmGasConfig.clamp (gas : EvmGasConfig) (price : UInt64) : UInt64 :=
  if price < gas.minGasPrice then gas.minGasPrice
  else if gas.maxGasPrice < price then gas.maxGasPrice
  else price

/-! ### The Polygon side -/

/-- `STATE_LIVE` of the escrow contract. -/
def stateLive : UInt64 := 1

/-- What the Polygon node answers during one call; `none` is an error. `known` is the receipt asked for
    after a refused broadcast, `polled` the receipt in each poll, `view` the reads of each reveal check. -/
structure AmoyRpc where
  gasPrice : Option UInt64
  transactionCount : Option UInt64
  balance : Option ℕ
  sendRaw : Bytes → Bool
  known : Hash → Bool
  polled : Hash → ℕ → Option TxReceipt
  escrowState : Hash → Option UInt64
  view : ℕ → AmoyView

/-- Broadcast a signed transaction: accepted, or already known to the node. -/
def sendEvmTx (keccak256 : Bytes → Hash) (rpc : AmoyRpc) (raw : Bytes) : Option (Bytes × Hash) :=
  let hash := keccak256 raw
  if rpc.sendRaw raw then some (raw, hash)
  else if rpc.known hash then some (raw, hash)
  else none

/-- Poll a receipt until it is there or the attempts are used up. -/
def waitReceipt (attempts : ℕ) (rpc : AmoyRpc) (hash : Hash) : Option TxReceipt :=
  (List.range (max attempts 1)).findSome? (rpc.polled hash)

/-- A transaction on the signer's chain. -/
def evmTx (chainId nonce gasPrice gasLimit : UInt64) (dest : EvmAddress) (data : Bytes) : LegacyTx where
  nonce := nonce
  gasPrice := gasPrice
  gasLimit := gasLimit
  dest := dest
  value := 0
  data := data
  chainId := if chainId = polygonMainnetChainId then polygonMainnetChainId else polygonAmoyChainId

/-! ### The responder -/

structure LiveResponder where
  crypto : ChainCrypto
  evmKey : EvmKey
  htlc : EvmAddress
  usdc : EvmAddress
  nimClaimKey : EnclaveKey
  gas : EvmGasConfig := {}
  attempts : ℕ := 60
  evmChainId : UInt64 := polygonAmoyChainId

/-- A funding as the signer remembers it: the `newSwap` transaction and the slot it creates. -/
structure LandedFunding where
  wire : Bytes
  txId : Hash
  swapId : Hash
  deriving DecidableEq

/-- What `fund_usdc` decided to escrow, once every check passed. -/
structure FundingPlan where
  receiver : EvmAddress
  timelock : UInt64
  gasPrice : UInt64
  nonce : UInt64
  deriving DecidableEq

/-- What one call of `fund_usdc` did: its answer, the funding it remembers, and the `newSwap`
    transaction it handed to the node, if it came that far. -/
structure FundOutcome where
  result : Option (Bytes × Hash)
  last : Option LandedFunding
  handed : Option LandedFunding
  deriving DecidableEq

namespace LiveResponder

variable (cfg : LiveResponder)

/-- A remembered funding is replayed while its escrow reads live or claimed. -/
def replayFunding (rpc : AmoyRpc) (last : Option LandedFunding) : Option (Bytes × Hash) :=
  last.bind fun f =>
    if rpc.escrowState f.swapId = some stateLive ∨ rpc.escrowState f.swapId = some stateClaimed then
      some (f.wire, f.txId)
    else none

/-- The checks before any transaction: the peer's address, the timelock, the gas budget. -/
def prepareFunding (rpc : AmoyRpc) (nowS : UInt64) (book : PeerBook) (ctx : SwapContext) :
    Option FundingPlan := do
  let peer ← book.lookup ctx.swapId
  let receiver ← ByteArr.ofBytes? 20 peer.chainAddress
  let timelock := usdcTimelockS ctx.terms.counterpartyTimeout ctx.termAnchor nowS
  if timelock ≤ nowS ∨ nowS + maxLegTimelockAheadS < timelock then none
  let gasPrice := cfg.gas.clamp (← rpc.gasPrice)
  let budget := satMul (cfg.gas.gasApprove + cfg.gas.gasNewSwap + cfg.gas.gasRefundReserve) gasPrice
  if (← rpc.balance) < budget.toNat then none
  let nonce ← rpc.transactionCount
  return ⟨receiver, timelock, gasPrice, nonce⟩

def approveRaw (plan : FundingPlan) (ctx : SwapContext) : Bytes :=
  (evmTx cfg.evmChainId plan.nonce plan.gasPrice cfg.gas.gasApprove cfg.usdc
    (erc20Approve cfg.crypto.keccak256 cfg.htlc ctx.takeAmount)).signWith cfg.crypto.keccak256 cfg.evmKey

def newSwapRaw (plan : FundingPlan) (ctx : SwapContext) : Bytes :=
  (evmTx cfg.evmChainId (plan.nonce + 1) plan.gasPrice cfg.gas.gasNewSwap cfg.htlc
    (htlcNewSwap cfg.crypto.keccak256 plan.receiver ctx.takeAmount ctx.hashlock plan.timelock)).signWith
      cfg.crypto.keccak256 cfg.evmKey

/-- The funding that a plan would land. -/
def planned (plan : FundingPlan) (ctx : SwapContext) : LandedFunding where
  wire := cfg.newSwapRaw plan ctx
  txId := cfg.crypto.keccak256 (cfg.newSwapRaw plan ctx)
  swapId := usdcSwapId cfg.crypto.keccak256 cfg.evmKey.address plan.receiver ctx.takeAmount ctx.hashlock
    plan.timelock

/-- The transaction was accepted and its successful receipt seen within the poll. -/
def landsSeen (rpc : AmoyRpc) (raw : Bytes) : Bool :=
  match sendEvmTx cfg.crypto.keccak256 rpc raw with
  | none => false
  | some (_, hash) =>
    match waitReceipt cfg.attempts rpc hash with
    | none => false
    | some receipt => receipt.success

/-- `fund_usdc`: `approve`, then `newSwap`, each mined with success. -/
def fundUsdc (rpc : AmoyRpc) (nowS : UInt64) (book : PeerBook) (last : Option LandedFunding)
    (ctx : SwapContext) : FundOutcome :=
  match replayFunding rpc last with
  | some tx => ⟨some tx, last, none⟩
  | none =>
    match cfg.prepareFunding rpc nowS book ctx with
    | none => ⟨none, last, none⟩
    | some plan =>
      if !cfg.landsSeen rpc (cfg.approveRaw plan ctx) then ⟨none, last, none⟩
      else
        let funding := cfg.planned plan ctx
        if !cfg.landsSeen rpc funding.wire then ⟨none, last, some funding⟩
        else ⟨some (funding.wire, funding.txId), some funding, some funding⟩

/-- `build_funding`: only the counterparty leg is the responder's. -/
def buildFunding (rpc : AmoyRpc) (nowS : UInt64) (book : PeerBook) (last : Option LandedFunding)
    (ctx : SwapContext) : SwapLegId → FundOutcome
  | .counterparty => cfg.fundUsdc rpc nowS book last ctx
  | .nim => ⟨none, last, none⟩

end LiveResponder

/-! ### The NIM side -/

/-- What the NIM node answers to a broadcast and to the lookups of one call; `none` is an error. -/
structure NimRpc where
  blockNumber : Option UInt32
  sendRawTransaction : Bytes → Bool
  known : Hash → Bool

/-- Broadcast a NIM wire; one the node already knows counts. -/
def broadcastNim (rpc : NimRpc) (wire : Bytes) (txHash : Hash) : Bool :=
  if rpc.sendRawTransaction wire then true else rpc.known txHash

namespace LiveResponder

variable (cfg : LiveResponder)

/-- The redeem that `claim_nim` builds: the stored contract and value, to the session's own address. -/
def nimRedeem (rpc : NimRpc) (store : NimFundingStore) (ctx : SwapContext) :
    Option (NimFundingRecord × HtlcRedeem) := do
  let rec ← store.lookup ctx.hashlock
  let claimPk ← ByteArr.ofBytes? 32 cfg.nimClaimKey.publicKey
  if cfg.crypto.addressOf claimPk ≠ ctx.nimAddress then none
  let head ← rpc.blockNumber
  return (rec, ⟨rec.contract, ctx.nimAddress, rec.creation.value, 0, head, ctx.networkId⟩)

/-- The signed wire of a redeem. -/
def redeemWire (rec : NimFundingRecord) (redeem : HtlcRedeem) (secret : Hash) : Option Bytes := do
  let claimPk ← ByteArr.ofBytes? 32 cfg.nimClaimKey.publicKey
  let signature ← ByteArr.ofBytes? 64 (cfg.nimClaimKey.signContent redeem.serializeContent)
  return redeem.serializeWire
    (regularTransferProof .sha256 rec.creation.data.hashRoot secret claimPk signature)

/-- `claim_nim`. -/
def claimNim (rpc : NimRpc) (store : NimFundingStore) (ctx : SwapContext) (secret : Hash) :
    Option (Bytes × Hash) := do
  let (rec, redeem) ← cfg.nimRedeem rpc store ctx
  let wire ← cfg.redeemWire rec redeem secret
  let txHash := redeem.txHash cfg.crypto.blake2b
  if broadcastNim rpc wire txHash then some (wire, txHash) else none

end LiveResponder

/-! ### The initiator -/

structure LiveInitiator where
  crypto : ChainCrypto
  nimKey : EnclaveKey
  evmGasKey : EvmKey
  htlc : EvmAddress
  gas : EvmGasConfig := {}
  attempts : ℕ := 60
  evmChainId : UInt64 := polygonAmoyChainId

namespace LiveInitiator

variable (cfg : LiveInitiator)

/-- The creation `fund_nim` builds, if every check passes. -/
def nimCreation (rpc : NimRpc) (nowMs : UInt64) (book : PeerBook) (ctx : SwapContext) :
    Option HtlcCreation := do
  if !liveSwapAllowedWire ctx.networkId then none
  let peer ← book.lookup ctx.swapId
  let head ← rpc.blockNumber
  let funderPk ← ByteArr.ofBytes? 32 cfg.nimKey.publicKey
  let funder := cfg.crypto.addressOf funderPk
  let timeoutMs := nimHtlcTimeoutMs ctx.terms.nimTimeout ctx.termAnchor nowMs
  if timeoutMs ≤ nowMs ∨ nowMs + maxLegTimelockAheadS * 1000 < timeoutMs then none
  return ⟨funder, ⟨funder, peer.nimAddress, .sha256, ctx.hashlock, 1, timeoutMs⟩, ctx.giveAmount, 0, head,
    ctx.networkId⟩

/-- The signed wire of a creation. -/
def creationWire (c : HtlcCreation) : Option Bytes := do
  let funderPk ← ByteArr.ofBytes? 32 cfg.nimKey.publicKey
  let signature ← ByteArr.ofBytes? 64 (cfg.nimKey.signContent (c.serializeContent cfg.crypto.blake2b))
  return c.serializeWire cfg.crypto.blake2b (signatureProofSingleSig funderPk signature)

/-- `fund_nim`: the answer, and the creation handed to the node with its wire. -/
def fundNim (rpc : NimRpc) (nowMs : UInt64) (book : PeerBook) (ctx : SwapContext) :
    Option (Bytes × Hash) × Option (HtlcCreation × Bytes) :=
  match cfg.nimCreation rpc nowMs book ctx with
  | none => (none, none)
  | some creation =>
    match cfg.creationWire creation with
    | none => (none, none)
    | some wire =>
      let txHash := creation.txHash cfg.crypto.blake2b
      if broadcastNim rpc wire txHash then (some (wire, txHash), some (creation, wire))
      else (none, some (creation, wire))

def withdrawRaw (rpc : AmoyRpc) (escrow secret : Hash) : Option Bytes := do
  let gasPrice := cfg.gas.clamp (← rpc.gasPrice)
  let nonce ← rpc.transactionCount
  return (evmTx cfg.evmChainId nonce gasPrice cfg.gas.gasWithdraw cfg.htlc
    (htlcWithdraw cfg.crypto.keccak256 escrow secret)).signWith cfg.crypto.keccak256 cfg.evmGasKey

/-- The chain as `claim_usdc` asks it, over the escrows that our verifier found. -/
def claimRpc (rpc : AmoyRpc) (found : Hash → Option Hash) : ClaimRpc where
  found := found
  send escrow secret := (cfg.withdrawRaw rpc escrow secret).bind (sendEvmTx cfg.crypto.keccak256 rpc)
  waitReceipt := waitReceipt cfg.attempts rpc
  polls := (List.range (max cfg.attempts 1)).map rpc.view

/-- The withdraw that `claim_usdc` hands to the node, if it comes that far. -/
def claimHanded (rpc : AmoyRpc) (found : Hash → Option Hash) (lastClaim : Option (Bytes × Hash))
    (ctx : SwapContext) (secret : Hash) : Option Bytes :=
  match found ctx.hashlock, lastClaim with
  | some escrow, none => cfg.withdrawRaw rpc escrow secret
  | _, _ => none

end LiveInitiator

/-! ### The wrappers -/

/-- A NIM lock as the app keeps it. -/
structure NimLock where
  contract : NimAddress
  value : UInt64
  timeoutMs : UInt64
  fundingTxHash : Hash
  deriving DecidableEq

def maxLocks : ℕ := 32

/-- `LiveLockBook::record`: bounded, one entry a contract. -/
def recordLock (book : List NimLock) (lock : NimLock) : List NimLock :=
  if maxLocks ≤ book.length ∨ book.any fun l => l.contract = lock.contract then book else book ++ [lock]

/-- `LockRecordingSigner`: a returned NIM funding is recorded as its wire decodes. -/
def lockRecording (blake : Blake2b) (locks : List NimLock) (leg : SwapLegId) (out : Option (Bytes × Hash)) :
    List NimLock :=
  match leg, out with
  | .nim, some (wire, _) =>
    match decodeCreationWire wire with
    | some c => recordLock locks ⟨c.contractAddress blake, c.value, c.data.timeout, c.txHash blake⟩
    | none => locks
  | _, _ => locks

/-- `OneShotSigner`: after the first funding that was handed back, none is built any more. -/
def oneShot {α : Type} (fired : Bool) (inner : Option α) : Option α := if fired then none else inner

/-! ### A sample chain

    Two EVM keys (the secp256k1 scalars `46…46` and `45…45`) and their transactions around one swap, with
    the Keccak-256 hashes and the deterministic signatures these have. -/

namespace Sample

/-- A 32-byte value from its number. -/
def word32 (n : ℕ) : Hash := ⟨Rlp.beBytesOf 32 n, by rw [Rlp.beBytesOf, List.length_map, List.length_range]; rfl⟩

/-- An address from its number. -/
def addr20 (n : ℕ) : EvmAddress := ⟨Rlp.beBytesOf 20 n, by rw [Rlp.beBytesOf, List.length_map, List.length_range]⟩

def funderAddress : EvmAddress := addr20 0x9d8a62f656a8d1615c1294fd71e9cfb3e4855a4f

def gasAddress : EvmAddress := addr20 0xe0da1edcea030875cd0f199d96eb70f6ab78faf2

def escrowAddress : EvmAddress := ByteArr.fill 20 0xEE

def usdcToken : EvmAddress := ByteArr.fill 20 0xDD

/-- The initiator's EVM address, which its `Propose` carries. -/
def claimAddress : EvmAddress := ByteArr.fill 20 0x22

/-- The slots of 0.1 USDC under the sample hashlock until 1 005 000 and 1 005 200. -/
def escrowSlot : Hash := word32 0x116bf3835d2b0fb56a4f1a0c0d909000a21451da69d7768f39dd942fcf79dda3

def secondSlot : Hash := word32 0xc46415a360591439b06c32ac1b99f67500ac1e58f2c3467361c068e23354f20f

def approveTx (nonce : UInt64) : LegacyTx :=
  evmTx polygonAmoyChainId nonce 30000000000 90000 usdcToken
    ([0x09, 0x5e, 0xa7, 0xb3] ++ wordAddress escrowAddress ++ wordU256 100000)

def newSwapTx (nonce timelock : UInt64) : LegacyTx :=
  evmTx polygonAmoyChainId nonce 30000000000 280000 escrowAddress
    ([0xe6, 0xe3, 0x94, 0x91] ++ wordAddress claimAddress ++ wordU256 100000 ++ hashlock.1 ++ wordU256 timelock)

def withdrawTx (nonce : UInt64) (slot : Hash) : LegacyTx :=
  evmTx polygonAmoyChainId nonce 30000000000 170000 escrowAddress
    ([0x63, 0x61, 0x51, 0x49] ++ slot.1 ++ secret.1)

/-- A transaction with its signing hash, its signature and the hash of its signed bytes. -/
structure SignedTx where
  tx : LegacyTx
  digest : Hash
  r : Hash
  s : Hash
  recoveryId : UInt8
  txId : Hash

def SignedTx.raw (t : SignedTx) : Bytes := t.tx.signedTxRlp t.r t.s t.recoveryId

def signedTxs : List SignedTx := [  ⟨approveTx 0,
    word32 0x2de313e75756572300e2a7870454925e1e90796bbecf79d4f6f9c5331b8f3fec,
    word32 0xd8d6e38c30451139760c1276fa81155f7203200468685a4f7e155e1bf094c0eb,
    word32 0x2d009c60bf1e4926cd41b7a551a478f28ab75f5cea9c843cd8bd94c79e4139ef, 0,
    word32 0x5ee7a3ca3269cee8d453ad1f2df51d7250381f3275d820d6da4f97462df957c9⟩,
  ⟨newSwapTx 1 1005000,
    word32 0x58f8687ef4d5d36e3317759d53615ce6025b418d12697c57c3c1f51d1a700353,
    word32 0x12e68d024898212c2fc038d79f8f66739060497db5d4b855ef30257978c9c037,
    word32 0x6e11551ba7c2db173e9f8efba502560bac444efe83d9e49595b43def683dbe91, 1,
    word32 0x790267fc1503c972be169a37351081a0f595a0d50e0ff712a945e5ff250ef1ba⟩,
  ⟨approveTx 2,
    word32 0x60124c348dac2232e394f998a2415bc88fbc4974f97cda746368439df43186f0,
    word32 0x56a1182f4491ea5db8948cfb4e6548e8cf194c7bcb67e2edf407052666c7513f,
    word32 0x0f1c485e109bc530fe2bd193ac81659332ef27fdbba8ea2459efac98c4e2070a, 0,
    word32 0x6c59952a58b19988e673f54242cbb0e0ebcdbb5d30b53702b57148e5b9474258⟩,
  ⟨newSwapTx 3 1005200,
    word32 0x45eede21651c02f53075d88006b8677c5ba37cc1cfce65e18c839d427c1f9923,
    word32 0xb9bb4c52d9f91d0acb5cdb9e1263a91a83eb0f38be9928c91bddf12dde664871,
    word32 0x1f67813b05d12411e7f3fceddee22f3635903fca0d89f01b10414a5421dbe4ba, 1,
    word32 0x2e37d2f7a00db7d8f9deaac9e043235a419cd5a3bc2858b431394e2cc89749af⟩,
  ⟨withdrawTx 0 escrowSlot,
    word32 0x47385740470bb049f906db113e8315440cb3b3439ad99b4c17662e34853ae093,
    word32 0x8bf9d505e1d59a94f409a0044d7f526898644d6b6a634c98eb2a766b9ebf1f52,
    word32 0x1ecc89d3ec7e5f1ba1eb07d6718947f0e7b9cd3e43eb7a50a7c87166dc837340, 1,
    word32 0x26eb7d389476237dcfe9fab388ff0aef7308043aa2492a5903346bcedd6bea34⟩]

/-- Keccak-256 on the inputs of the sample. -/
def keccak256 (b : Bytes) : Hash :=
  if b = asciiBytes "approve(address,uint256)" then
    word32 0x095ea7b334ae44009aa867bfb386f5c3b4b443ac6f0ee573fa91c4608fbadfba
  else if b = asciiBytes "newSwap(address,uint256,bytes32,uint256)" then
    word32 0xe6e39491f9bbe49e66376fa60c4d291636718c51071ebcded19d5077867e97cb
  else if b = asciiBytes "withdraw(bytes32,bytes32)" then
    word32 0x63615149efcd541c76791516ca1cb77595246272aa5531dafe2f18c148a574cf
  else if b = funderAddress.1 ++ claimAddress.1 ++ wordU256 100000 ++ hashlock.1 ++ wordU256 1005000 then escrowSlot
  else if b = funderAddress.1 ++ claimAddress.1 ++ wordU256 100000 ++ hashlock.1 ++ wordU256 1005200 then secondSlot
  else match signedTxs.find? fun t => t.tx.signingRlp = b with
    | some t => t.digest
    | none => match signedTxs.find? fun t => t.raw = b with
      | some t => t.txId
      | none => ByteArr.fill 32 0

/-- The signatures of the sample keys. -/
def signHash (h : Hash) : Hash × Hash × UInt8 :=
  match signedTxs.find? fun t => t.digest = h with
  | some t => (t.r, t.s, t.recoveryId)
  | none => (ByteArr.fill 32 0, ByteArr.fill 32 0, 0)

/-- A node that accepts and mines everything at block 100, with `gasPrice` at the floor. -/
def amoy (nonce : UInt64) (escrowState : Hash → Option UInt64) : AmoyRpc where
  gasPrice := some 30000000000
  transactionCount := some nonce
  balance := some 1000000000000000000
  sendRaw _ := true
  known _ := false
  polled _ _ := some ⟨true, 100⟩
  escrowState := escrowState
  view _ := ⟨escrowState, fun _ => some ⟨true, 100⟩, some 200⟩

/-- The swap as the responder holds it, made at term head 0. -/
def fundingContext : SwapContext where
  swapId := swapId
  terms := ⟨10000, 5000⟩
  hashlock := hashlock
  nimAddress := bobAddress
  btcAddress := funderAddress.1
  btcPubkey := ByteArr.fill 33 0x03
  giveAmount := 200000
  takeAmount := 100000
  networkId := 5
  termAnchor := 0

/-- The sample initiator's addressing. -/
def initiatorPeer : PeerAddressing := ⟨aliceAddress, claimAddress.1⟩

end Sample

end Nimmesh
