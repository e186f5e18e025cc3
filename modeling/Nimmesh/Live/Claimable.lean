import Nimmesh.Live.Door
import Nimmesh.Swap.InPlace

/-! @src live_swap_signer.rs nim_verifier.rs swap_session.rs swap_live_ffi_live_impl.rs |
    name:Claiming what was verified | layer:properties

    The live responder as a whole: its verifier and its signer share one store of decoded fundings, and
    everything they remember is a function of the trace. What the verifier found stays in the store, so
    the redeem spends that contract, for its whole value, to the session's own address. The network of
    the redeem is the one field that comes from elsewhere: the counterparty's `Propose`. -/

namespace Nimmesh

/-- The shared store after the funding wires of a trace. -/
def nimStoreOf (blake : Blake2b) : List Event → NimFundingStore
  | [] => ∅
  | .notedWire _ .nim wire :: tr => NimFundingStore.noteWire blake (nimStoreOf blake tr) wire
  | _ :: tr => nimStoreOf blake tr

/-- A record that is stored stays stored. -/
theorem lookup_nimStoreOf_append {blake : Blake2b} {old : List Event} {hashlock : Hash}
    {rec : NimFundingRecord} (h : (nimStoreOf blake old).lookup hashlock = some rec) :
    ∀ new : List Event, (nimStoreOf blake (new ++ old)).lookup hashlock = some rec := by
  intro new
  induction new with
  | nil => exact h
  | cons ev new ih =>
    cases ev with
    | notedWire id leg wire =>
      cases leg with
      | nim => exact NimFundingStore.lookup_noteWire blake ih wire
      | counterparty => exact ih
    | _ => exact ih

theorem nimStoreOf_sound (blake : Blake2b) (tr : List Event) :
    NimFundingStore.Sound blake (nimStoreOf blake tr) := by
  induction tr with
  | nil => exact NimFundingStore.Sound.empty blake
  | cons ev tr ih =>
    cases ev with
    | notedWire id leg wire =>
      cases leg with
      | nim => exact ih.noteWire wire
      | counterparty => exact ih
    | _ => exact ih

/-! ### The live responder in a run -/

/-- What the chains and the clocks answer to a call made after a trace. -/
structure LiveChains where
  nim : List Event → NimReads
  nimSecondary : List Event → Option NimReads
  nimRpc : List Event → NimRpc
  amoy : List Event → AmoyRpc
  nowMs : List Event → UInt64
  nowS : List Event → UInt64

namespace LiveResponderNode

variable (node : LiveResponderNode) (ch : LiveChains)

/-- The funding that the signer remembers, and whether its one-shot latch has fired. -/
def fundingMemory : List Event → Option LandedFunding × Bool
  | [] => (none, false)
  | .builtFunding _ role ctx _ _ :: tr =>
    let (last, fired) := fundingMemory tr
    if fired then (last, fired)
    else
      let o := node.signer.buildFunding (ch.amoy tr) (ch.nowS tr) (peerBook tr) last ctx (fundedLeg role)
      (o.last, o.result.isSome)
  | _ :: tr => fundingMemory tr

/-- The verifier and the signer of the node over these chains. -/
def env (crypto : Crypto) : Env where
  toCrypto := crypto
  observe tr expect := node.verifier.observe (ch.nim tr) (ch.nimSecondary tr) (ch.nowMs tr)
    (nimStoreOf node.verifier.crypto tr) expect
  observeClaim tr leg txId := NimHtlcVerifier.observeClaim (ch.nim tr) (ch.nimSecondary tr) leg txId
  buildFunding tr ctx leg :=
    let (last, fired) := node.fundingMemory ch tr
    oneShot fired (node.signer.buildFunding (ch.amoy tr) (ch.nowS tr) (peerBook tr) last ctx leg).result
  buildClaim tr ctx secret :=
    node.signer.claimNim (ch.nimRpc tr) (nimStoreOf node.verifier.crypto tr) ctx secret
  secretSource _ id := node.secrets id
  proposeSigner := none
  telemetryNowMs := ch.nowMs

end LiveResponderNode

/-! ### The redeem -/

/-- The redeem spends the whole contract of a creation, to this address, on its network. -/
structure Spends (blake : Blake2b) (redeem : HtlcRedeem) (creation : HtlcCreation) (payee : NimAddress) :
    Prop where
  contract : redeem.contract = creation.contractAddress blake
  value : redeem.value = creation.value
  recipient : redeem.recipient = payee
  networkId : redeem.networkId = creation.networkId

/-- With the claim key of the session's address and a head, a stored funding is redeemed. -/
theorem LiveResponder.nimRedeem_eq {cfg : LiveResponder} {key : ByteArr 32} {sign : Bytes → ByteArr 64}
    (hkey : cfg.nimClaimKey = ⟨key.1, fun m => (sign m).1⟩) {ctx : SwapContext}
    (haddr : cfg.crypto.addressOf key = ctx.nimAddress) {store : NimFundingStore} {rec : NimFundingRecord}
    (hrec : store.lookup ctx.hashlock = some rec) {rpc : NimRpc} {head : UInt32}
    (hhead : rpc.blockNumber = some head) :
    cfg.nimRedeem rpc store ctx =
      some (rec, ⟨rec.contract, ctx.nimAddress, rec.creation.value, 0, head, ctx.networkId⟩) := by
  have hpk : ByteArr.ofBytes? 32 key.1 = some key := ByteArr.ofBytes?_val key
  simp [nimRedeem, hrec, hkey, hpk, haddr, hhead]

/-- A redeem that the node accepts is handed back. -/
theorem LiveResponder.claimNim_eq {cfg : LiveResponder} {key : ByteArr 32} {sign : Bytes → ByteArr 64}
    (hkey : cfg.nimClaimKey = ⟨key.1, fun m => (sign m).1⟩) {ctx : SwapContext} {store : NimFundingStore}
    {rpc : NimRpc} {rec : NimFundingRecord} {redeem : HtlcRedeem}
    (hredeem : cfg.nimRedeem rpc store ctx = some (rec, redeem)) (secret : Hash) :
    let wire := redeem.serializeWire (regularTransferProof .sha256 rec.creation.data.hashRoot secret key
      (sign redeem.serializeContent))
    let txHash := redeem.txHash cfg.crypto.blake2b
    cfg.claimNim rpc store ctx secret = if broadcastNim rpc wire txHash then some (wire, txHash) else none := by
  have hpk : ByteArr.ofBytes? 32 key.1 = some key := ByteArr.ofBytes?_val key
  have hsig : ByteArr.ofBytes? 64 (sign redeem.serializeContent).1 = some (sign redeem.serializeContent) :=
    ByteArr.ofBytes?_val _
  simp [claimNim, hredeem, redeemWire, hkey, hpk, hsig]

/-- What the verifier found is a stored creation on the verifier's network, and it stays stored. -/
theorem LiveResponderNode.verified_stays {node : LiveResponderNode} {ch : LiveChains} {crypto : Crypto}
    {tr new old : List Event} (htr : InPlace (node.env ch crypto) tr) {id : SwapId}
    {expect : HtlcExpectation} {amount timeout : UInt64} {depth : UInt32}
    (hsplit : tr = new ++ .observed id expect (.found amount timeout depth) :: old) :
    ∃ rec, (nimStoreOf node.verifier.crypto old).lookup expect.hashlock = some rec ∧
      (nimStoreOf node.verifier.crypto tr).lookup expect.hashlock = some rec ∧
      rec.contract = rec.creation.contractAddress node.verifier.crypto ∧
      rec.creation.data.hashRoot = expect.hashlock ∧ rec.creation.value = amount ∧
      rec.creation.networkId = node.verifier.networkId := by
  subst hsplit
  have hfound : node.verifier.observe (ch.nim old) (ch.nimSecondary old) (ch.nowMs old)
      (nimStoreOf node.verifier.crypto old) expect = .found amount timeout depth := htr.split.1.symm
  obtain ⟨rec, hrec, -, hnet, hval⟩ := NimHtlcVerifier.observe_found hfound
  have hsound := nimStoreOf_sound node.verifier.crypto old
  refine ⟨rec, hrec, ?_, hsound.contract _ _ hrec, hsound.hashRoot _ _ hrec, hval, hnet⟩
  have hsnoc : new ++ .observed id expect (.found amount timeout depth) :: old =
      (new ++ [.observed id expect (.found amount timeout depth)]) ++ old := by simp
  rw [hsnoc]
  exact lookup_nimStoreOf_append hrec _

/-- EXACT: a responder that found the funding of a swap redeems that creation, whole and to its own
    address; on the network of that creation exactly when the swap's `Propose` carries the network that
    the verifier is pinned to. -/
theorem redeem_spends_verified_iff (k : DoorKeys) (config : FfiLiveResponderConfig)
    (gateway : Option String) (node : LiveResponderNode) (hnode : Built k config gateway node)
    (crypto : Crypto) (ch : LiveChains) (ops : List Op) (id : SwapId) (c : SwapCoordinator)
    (amount timeout : UInt64) (depth : UInt32) (new old : List Event)
    (hc : (node.session.exec (node.env ch crypto) ops).coordinators.lookup id = some c)
    (hrole : c.role = .responder)
    (hfound : (node.session.exec (node.env ch crypto) ops).trace =
      new ++ .observed id c.counterpartyExpectation (.found amount timeout depth) :: old) :
    ∃ rec p head,
      (nimStoreOf node.verifier.crypto old).lookup c.ctx.hashlock = some rec ∧
      rec.creation.value = amount ∧ rec.creation.networkId = node.verifier.networkId ∧
      Session.ProposedIn (node.env ch crypto) node.session ops id p head ∧
      c.ctx = node.session.responderContext p head ∧
      ∀ (rpc : NimRpc) (height : UInt32), rpc.blockNumber = some height →
        let store := nimStoreOf node.verifier.crypto (node.session.exec (node.env ch crypto) ops).trace
        ∃ redeem, node.signer.nimRedeem rpc store c.ctx = some (rec, redeem) ∧
          (Spends node.verifier.crypto redeem rec.creation node.session.identity.nimAddress ↔
            p.networkId = node.verifier.networkId) ∧
          ∀ secret, (∀ wire txHash, broadcastNim rpc wire txHash = true) → ∃ key signature,
            node.signer.claimNim rpc store c.ctx secret =
              some (redeem.serializeWire
                (regularTransferProof .sha256 c.ctx.hashlock secret key signature),
                redeem.txHash node.verifier.crypto) := by
  obtain ⟨money, claimSeed, evmKey, hbuilt⟩ := hnode.node
  obtain ⟨hfresh, howns, -⟩ := responderNode_ok hbuilt
  obtain ⟨p, head, hprop, hctx⟩ := Session.exec_origin hfresh ops hc hrole
  obtain ⟨rec, hold, hnow, hcontract, hroot, hval, hnet⟩ :=
    LiveResponderNode.verified_stays (Session.exec_inPlace (node.env ch crypto) hfresh ops) hfound
  have hexpect : c.counterpartyExpectation.hashlock = c.ctx.hashlock := by
    rw [SwapCoordinator.counterpartyExpectation, hrole]
    rfl
  rw [hexpect] at hold hnow hroot
  have hnim : c.ctx.nimAddress = node.session.identity.nimAddress := by rw [hctx]; rfl
  refine ⟨rec, p, head, hold, hval, hnet, hprop, hctx, fun rpc height hheight => ?_⟩
  have hredeem := LiveResponder.nimRedeem_eq howns.claimKey (howns.nimAddress.trans hnim.symm) hnow hheight
  refine ⟨_, hredeem, ⟨fun h => ?_, fun h => ?_⟩, fun secret haccept => ?_⟩
  · have hid : c.ctx.networkId = rec.creation.networkId := h.networkId
    rw [hctx, hnet] at hid
    exact hid
  · refine ⟨hcontract, rfl, hnim, ?_⟩
    rw [hnet, ← h, hctx]
    rfl
  · have hclaim := LiveResponder.claimNim_eq howns.claimKey hredeem secret
    dsimp only at hclaim
    rw [if_pos (haccept _ _), hroot, ← howns.blake2b] at hclaim
    exact ⟨_, _, hclaim⟩

namespace Sample

/-- The sample proposal on another network, with its signature. -/
def foreignProposal : SwapProposal := { proposal with networkId := 24 }

def foreignSignature : ByteArr proposeSigLen :=
  ⟨[0x82, 0x05, 0xab, 0xde, 0x03, 0x49, 0x96, 0x98, 0xfa, 0x90, 0x5d, 0x3c, 0x70, 0x6b, 0x47, 0x4c,
    0x73, 0x40, 0x89, 0x45, 0x35, 0x09, 0x08, 0xc9, 0xf0, 0x99, 0xa8, 0xfd, 0x5a, 0x11, 0x96, 0x01,
    0x1b, 0xd8, 0x67, 0xcb, 0x99, 0x2e, 0x28, 0xff, 0xe5, 0x1a, 0x8d, 0xaf, 0xdb, 0xad, 0x80, 0x81,
    0xd8, 0x19, 0x58, 0x9a, 0xc9, 0x49, 0x52, 0x99, 0x03, 0xf1, 0x68, 0x22, 0x3e, 0x36, 0x05, 0x08], rfl⟩

/-- What the initiator locks: 200 000 luna under the sample hashlock, on the test network. -/
def nimFunding : HtlcCreation where
  funder := aliceAddress
  data := ⟨aliceAddress, claimNimAddress, .sha256, hashlock, 1, 1010000000⟩
  value := 200000
  fee := 0
  validityStartHeight := 100
  networkId := 5

def nimContract : NimAddress :=
  ⟨Rlp.beBytesOf 20 0xc4d711ca2ca951b067cf0bba58d2622ebe41798d, by
    rw [Rlp.beBytesOf, List.length_map, List.length_range]; rfl⟩

def nimFundingHash : Hash := word32 0xb86b68a796989af54d4e71ab6b283aaaca624c4130cda3e28a80e74f72f03d68

def nimFundingSignature : ByteArr 64 :=
  ⟨[0x6f, 0x35, 0xb9, 0x4a, 0x26, 0xbb, 0x05, 0x48, 0xd3, 0x43, 0x53, 0x98, 0xa1, 0x27, 0x7a, 0x9e,
    0x20, 0x4a, 0x04, 0xff, 0x1e, 0x24, 0x31, 0xc7, 0x0e, 0xb0, 0xe8, 0x37, 0xca, 0xf7, 0xe0, 0x78,
    0x13, 0x4f, 0xc1, 0xba, 0x20, 0xae, 0xfb, 0xa8, 0xac, 0xc5, 0xa1, 0x93, 0xb0, 0xea, 0x58, 0xdd,
    0x0c, 0xac, 0x13, 0x69, 0xbd, 0x49, 0x3f, 0xb5, 0x52, 0x04, 0x0f, 0x0e, 0x3f, 0x7a, 0x55, 0x0f], rfl⟩

/-- What the responder builds at height 120 for a `Propose` of this network. -/
def nimClaim (networkId : UInt8) : HtlcRedeem :=
  ⟨nimContract, claimNimAddress, 200000, 0, 120, networkId⟩

def nimClaimSignature : ByteArr 64 :=
  ⟨[0x7e, 0xc8, 0x03, 0x24, 0x39, 0x84, 0x40, 0x83, 0xc6, 0x31, 0xe2, 0xf6, 0xe3, 0xce, 0xca, 0xc1,
    0x6b, 0x27, 0xc3, 0x5e, 0xd8, 0x79, 0xb6, 0x50, 0x54, 0x66, 0x75, 0x40, 0xa6, 0x62, 0xe7, 0xc0,
    0x2d, 0xb0, 0x90, 0xc8, 0xe6, 0x6c, 0xef, 0xbc, 0x0c, 0x3f, 0x01, 0x53, 0xc3, 0xcd, 0x5f, 0x40,
    0xf0, 0x8a, 0xc2, 0x07, 0x54, 0xbd, 0x65, 0xa9, 0x6a, 0xa4, 0x1e, 0x3e, 0x95, 0xc5, 0x38, 0x04], rfl⟩

def foreignClaimSignature : ByteArr 64 :=
  ⟨[0xd8, 0x32, 0x1c, 0x57, 0xff, 0x70, 0xa3, 0xcd, 0xcc, 0x20, 0x59, 0xf0, 0x32, 0x78, 0xf6, 0x38,
    0x01, 0xca, 0x3e, 0xf3, 0x56, 0x35, 0x4d, 0x3d, 0x54, 0x10, 0xef, 0x7a, 0x16, 0x38, 0xf2, 0x9f,
    0x08, 0x49, 0xaa, 0x57, 0xf3, 0x69, 0xe4, 0xf2, 0x4a, 0x39, 0xf4, 0xde, 0xb9, 0x75, 0x76, 0xc6,
    0x03, 0x31, 0x51, 0x96, 0x3b, 0x97, 0x7e, 0x46, 0xee, 0x10, 0xc4, 0xda, 0x4f, 0x9e, 0xfd, 0x0d], rfl⟩

/-- The responder's EVM transactions. -/
def approval : SignedTx :=
  ⟨approveTx 0,
    word32 0x2de313e75756572300e2a7870454925e1e90796bbecf79d4f6f9c5331b8f3fec,
    word32 0xf14293fcdb27f17e53b8f74d3a55f70882a6f6a9497ce5bf6e20370807a3342f,
    word32 0x44fc0e28b210d54b37cfabc75282797846a15eec332e2f14ca30868a6a1cb1ef, 0,
    word32 0x8373a7477112dab88d9a812bc49ed6bc0ed9496d1e2d31e8af3d88cfe61a8ab0⟩

def escrowing : SignedTx :=
  ⟨newSwapTx 1 1005000,
    word32 0x58f8687ef4d5d36e3317759d53615ce6025b418d12697c57c3c1f51d1a700353,
    word32 0x94f51f33caa54aba0b363e6578e98634a4f6cd90646aa5d3a0d76f591c682309,
    word32 0x5b1660ccb33ecc796c32eb8dd493922a55fce34daa7ecd7251f132617e18ed80, 1,
    word32 0xe7bb3e0f1ff9db542eb572489facf5ec5f028b1dec2cb22e05d3281251e821d1⟩

def fundingTxs : List SignedTx := [approval, escrowing]

/-- The primitives of the door on the inputs of these runs. -/
def claimKeys : DoorKeys :=
  { doorKeys with
    crypto :=
      { doorKeys.crypto with
        verifyStrict := fun k m sig => crypto.verifyStrict k m sig ||
          (k = pubkey && m = foreignProposal.signingBytes && sig = foreignSignature) }
    keccak256 := fun b =>
      if b = fundingAccount.1 ++ claimAddress.1 ++ wordU256 100000 ++ hashlock.1 ++ wordU256 1005000 then
        word32 0xf558745ea833df08053b9d43f83a3539e21ba479b81df5a18c9b895840743b35
      else match fundingTxs.find? fun t => t.raw = b with
        | some t => t.txId
        | none => keccak256 b
    blake2b := fun b =>
      if b = nimFunding.contentTo (ByteArr.fill nimAddressLen 0) then
        word32 0xc4d711ca2ca951b067cf0bba58d2622ebe41798d892669c91904cc8030127c44
      else if b = nimFunding.contentTo nimContract then nimFundingHash
      else if b = (nimClaim 5).serializeContent then
        word32 0xed4c68edea81e34f323718cea49ba47756dcfddf9bf7b651204f4bd804b417b0
      else if b = (nimClaim 24).serializeContent then
        word32 0x253acd7c805edfc831428f357195327318eddd8c487363501adea6a6afc13365
      else ByteArr.fill 32 0
    sign := fun seed m =>
      if m = (nimClaim 5).serializeContent then nimClaimSignature
      else if m = (nimClaim 24).serializeContent then foreignClaimSignature
      else doorKeys.sign seed m
    evmKey := fun secret =>
      if secret = fundingSecret then
        some ⟨fundingAccount, fun h => match fundingTxs.find? fun t => t.digest = h with
          | some t => (t.r, t.s, t.recoveryId)
          | none => signHash h⟩
      else none }

def claimNode : Option LiveResponderNode := (buildResponder claimKeys (liveConfig 200000 100000) none).toOption

/-- A chain that holds the funding in block 100 and answers at 110. -/
def nimReads : NimReads where
  getTransaction h := if h = nimFundingHash then some (some ⟨nimFundingHash, some 100⟩) else some none
  blockNumber := some 110
  getAccount a := if a = nimContract then some (some ⟨.htlc, 200000⟩) else some none

def claimRpc : NimRpc := ⟨some 120, fun _ => true, fun _ => false⟩

def claimChains : LiveChains where
  nim _ := nimReads
  nimSecondary _ := none
  nimRpc _ := claimRpc
  amoy _ := amoy 0 fun _ => none
  nowMs _ := 1000000000
  nowS _ := 1000000

/-- The proof of the NIM funding, with the wire that was broadcast. -/
def nimProof : Bytes :=
  wire (txEnvelope swapId .nim (nimFunding.serializeWire claimKeys.blake2b
    (signatureProofSingleSig pubkey nimFundingSignature)) nimFundingHash)

/-- The whole swap of the responder, at head 0. -/
def claimRun (p : SwapProposal) (sig : ByteArr proposeSigLen) : List Op :=
  packet .propose (wire (p.toSignedEnvelope pubkey sig)) 0 ++ packet .fundingProof nimProof 0 ++
    packet .preimageReveal reveal 0

/-- The session after that run. -/
def claimed (node : LiveResponderNode) (p : SwapProposal) (sig : ByteArr proposeSigLen) : Session :=
  node.session.exec (node.env claimChains claimKeys.crypto) (claimRun p sig)

/-- What the verifier is asked, and what it finds. -/
def nimExpectation : HtlcExpectation := ⟨.nim, hashlock, 200000, 10000, claimNimAddress.1, 0⟩

def nimObservation : Event := .observed swapId nimExpectation (.found 200000 10900 11)

end Sample

theorem split_at_getElem? {α : Type} {l : List α} {n : ℕ} {a : α} (h : l[n]? = some a) :
    l = l.take n ++ a :: l.drop (n + 1) := by
  obtain ⟨hn, rfl⟩ := List.getElem?_eq_some_iff.mp h
  rw [← List.drop_eq_getElem_cons hn, List.take_append_drop]

theorem sample_redeem_spends_verified :
    ∃ node c rec redeem, Sample.claimNode = some node ∧
      (Sample.claimed node Sample.proposal Sample.signature).coordinators.lookup Sample.swapId = some c ∧
      node.signer.nimRedeem Sample.claimRpc
        (nimStoreOf node.verifier.crypto (Sample.claimed node Sample.proposal Sample.signature).trace)
        c.ctx = some (rec, redeem) ∧
      Spends node.verifier.crypto redeem rec.creation node.session.identity.nimAddress := by
  have hrun : Sample.claimNode.map (fun node =>
      let s := Sample.claimed node Sample.proposal Sample.signature
      (s.trace[3]?, (s.coordinators.lookup Sample.swapId).map fun c =>
        (c.role, c.counterpartyExpectation, c.ctx.networkId), node.verifier.networkId)) =
      some (some Sample.nimObservation, some (.responder, Sample.nimExpectation, 5), 5) := by
    decide +kernel
  rw [Option.map_eq_some_iff] at hrun
  obtain ⟨node, hnode, hrun⟩ := hrun
  simp only [Prod.mk.injEq, Option.map_eq_some_iff] at hrun
  obtain ⟨hfound, ⟨c, hc, hrole, hexpect, hnet⟩, hvnet⟩ := hrun
  have hsplit := split_at_getElem? hfound
  rw [Sample.nimObservation, ← hexpect] at hsplit
  obtain ⟨rec, p, head, -, -, -, -, hctx, hredeem⟩ :=
    redeem_spends_verified_iff Sample.claimKeys (Sample.liveConfig 200000 100000) none node
      (.inl (toOption_eq_some hnode)) Sample.claimKeys.crypto Sample.claimChains
      (Sample.claimRun Sample.proposal Sample.signature) Sample.swapId c _ _ _ _ _ hc hrole hsplit
  obtain ⟨redeem, hr, hspends, -⟩ := hredeem Sample.claimRpc 120 rfl
  refine ⟨node, c, rec, redeem, hnode, hc, hr, hspends.mpr ?_⟩
  rw [hctx] at hnet
  exact hnet.trans hvnet.symm

/-- The initiator locks its luna on the test network, but proposes the swap on network 24: the responder
    finds the lock, funds its own leg, and then claims on the wrong network. -/
theorem foreign_network_claim_misses :
    ∃ node, buildResponder Sample.claimKeys (Sample.liveConfig 200000 100000) none = .ok node ∧
      let tr := (Sample.claimed node Sample.foreignProposal Sample.foreignSignature).trace
      let ctx := node.session.responderContext Sample.foreignProposal 0
      Sample.nimObservation ∈ tr ∧ Sample.nimExpectation = ctx.expectation .responder ∧
      .builtFunding Sample.swapId .responder ctx 0
        (some (Sample.escrowing.raw, Sample.escrowing.txId)) ∈ tr ∧
      .builtClaim Sample.swapId .responder ctx Sample.secret 0
        (some ((Sample.nimClaim 24).serializeWire (regularTransferProof .sha256 Sample.hashlock
          Sample.secret Sample.claimPubkey Sample.foreignClaimSignature),
          (Sample.nimClaim 24).txHash node.verifier.crypto)) ∈ tr ∧
      node.signer.nimRedeem Sample.claimRpc (nimStoreOf node.verifier.crypto tr) ctx =
        some (⟨Sample.nimFunding, Sample.nimContract, Sample.nimFundingHash⟩, Sample.nimClaim 24) ∧
      ¬ Spends node.verifier.crypto (Sample.nimClaim 24) Sample.nimFunding
        node.session.identity.nimAddress := by
  have hrun : Sample.claimNode.map (fun node =>
      let tr := (Sample.claimed node Sample.foreignProposal Sample.foreignSignature).trace
      let ctx := node.session.responderContext Sample.foreignProposal 0
      decide (Sample.nimObservation ∈ tr ∧ Sample.nimExpectation = ctx.expectation .responder ∧
        .builtFunding Sample.swapId .responder ctx 0
          (some (Sample.escrowing.raw, Sample.escrowing.txId)) ∈ tr ∧
        .builtClaim Sample.swapId .responder ctx Sample.secret 0
          (some ((Sample.nimClaim 24).serializeWire (regularTransferProof .sha256 Sample.hashlock
            Sample.secret Sample.claimPubkey Sample.foreignClaimSignature),
            (Sample.nimClaim 24).txHash node.verifier.crypto)) ∈ tr ∧
        node.signer.nimRedeem Sample.claimRpc (nimStoreOf node.verifier.crypto tr) ctx =
          some (⟨Sample.nimFunding, Sample.nimContract, Sample.nimFundingHash⟩, Sample.nimClaim 24))) =
      some true := by
    decide +kernel
  rw [Option.map_eq_some_iff] at hrun
  obtain ⟨node, hnode, hrun⟩ := hrun
  obtain ⟨hfound, hexpect, hfunded, hclaim, hredeem⟩ := of_decide_eq_true hrun
  refine ⟨node, toOption_eq_some hnode, hfound, hexpect, hfunded, hclaim, hredeem, fun h => ?_⟩
  exact absurd h.networkId (by decide)

end Nimmesh
